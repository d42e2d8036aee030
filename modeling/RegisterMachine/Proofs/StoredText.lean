import RegisterMachine.Proofs.Ram
import RegisterMachine.Proofs.Run
import RegisterMachine.Proofs.Stream

/-!
Text in memory. A text reads from an address exactly if the encoding of its literal stands there, so
what an assembled program holds as text is what the machine reads, and nothing else reads as text.
-/
namespace RegisterMachine

theorem fromUTF8?_eq_some_iff {bytes : List UInt8} {text : String} :
    String.fromUTF8? ⟨bytes.toArray⟩ = some text ↔ text.toUTF8.data.toList = bytes := by
  unfold String.fromUTF8?
  constructor
  · intro h
    split at h
    · cases h
      rfl
    · cases h
  · intro h
    subst h
    have hsame : ByteArray.mk text.toUTF8.data.toList.toArray = text.toByteArray := rfl
    rw [hsame, dif_pos text.isValidUTF8]
    rfl

namespace Memory

variable {σ : Type} {memory : Memory σ}

def HoldsText (memory : Memory σ) (address : UInt64) (text : String) : Prop :=
  ∃ bytes, (Literal.text text).encode = .ok bytes ∧
    bytes <+: memory.ram.bytes.toList.drop address.toNat

theorem holdsText_iff {address : UInt64} {text : String} :
    memory.HoldsText address text ↔
      text.utf8ByteSize < Word.count 4 ∧
      Word.littleEndian 4 text.utf8ByteSize <+: memory.ram.bytes.toList.drop address.toNat ∧
      text.toUTF8.data.toList <+: memory.ram.bytes.toList.drop (address.toNat + 4) := by
  unfold HoldsText
  rw [Literal.encode_text]
  by_cases hfits : text.utf8ByteSize < Word.count 4
  · simp [hfits, append_prefix_iff]
  · simp [hfits]

theorem HoldsText.inside {address : UInt64} {text : String} (h : memory.HoldsText address text) :
    address.toNat + (Literal.text text).size ≤ memory.ram.bytes.size := by
  obtain ⟨bytes, hencode, hprefix⟩ := h
  have hlength := Literal.length_of_encode hencode
  have hpos := (Literal.text text).size_pos
  have hle := hprefix.length_le
  rw [hlength, List.length_drop, Array.length_toList] at hle
  omega

theorem readText_eq_ok_iff {address size : UInt64} {text : String} :
    memory.readText address = .ok (text, size) ↔
      ∃ length body bytes, memory.readWord address 4 = .ok length ∧
        memory.addressAt address 4 = .ok body ∧ body.toNat + length ≤ memory.size.toNat ∧
        memory.readBytes body length = .ok bytes ∧ text.toUTF8.data.toList = bytes ∧
        size = .ofNat (4 + length) := by
  unfold readText
  simp only [bind_eq_ok_iff]
  constructor
  · rintro ⟨length, hlength, body, hbody, hread⟩
    split at hread
    · cases hread
    · rename_i hinside
      obtain ⟨bytes, hbytes, htext⟩ := bind_eq_ok_iff.mp hread
      split at htext
      · rename_i found hfound
        cases htext
        exact ⟨length, body, bytes, hlength, hbody, Nat.le_of_not_lt hinside, hbytes,
          fromUTF8?_eq_some_iff.mp hfound, rfl⟩
      · cases htext
  · rintro ⟨length, body, bytes, hlength, hbody, hinside, hbytes, htext, rfl⟩
    refine ⟨length, hlength, body, hbody, ?_⟩
    rw [if_neg (Nat.not_lt.mpr hinside), bind_eq_ok_iff]
    refine ⟨bytes, hbytes, ?_⟩
    rw [fromUTF8?_eq_some_iff.mpr htext]
    rfl

theorem IsRam.readText_eq_ok_iff (h : memory.IsRam) {address size : UInt64} {text : String} :
    memory.readText address = .ok (text, size) ↔
      memory.HoldsText address text ∧ size = .ofNat (Literal.text text).size := by
  have hlength : text.toUTF8.data.toList.length = text.utf8ByteSize := rfl
  rw [Memory.readText_eq_ok_iff]
  simp only [h.readWord_eq_ok_iff, h.readBytes_eq_ok_iff]
  constructor
  · rintro ⟨length, body, bytes, ⟨hfits, hword⟩, hbody, -, ⟨hsize, hbytes⟩, rfl, rfl⟩
    -- The length was read, so it is inside the RAM, and the body starts behind it without a wrap.
    have hfour : address.toNat + 4 ≤ memory.ram.bytes.size := by
      have hle := hword.length_le
      rw [Word.length_littleEndian, List.length_drop, Array.length_toList] at hle
      omega
    cases hbody.symm.trans (h.addressAt_inside hfour)
    rw [hlength] at hsize
    subst hsize
    rw [h.toNat_add hfour] at hbytes
    exact ⟨holdsText_iff.mpr ⟨hfits, hword, hbytes⟩, rfl⟩
  · rintro ⟨hholds, rfl⟩
    have hinside := hholds.inside
    rw [Literal.size] at hinside
    have hfour : address.toNat + 4 ≤ memory.ram.bytes.size := by omega
    obtain ⟨hfits, hword, hbytes⟩ := holdsText_iff.mp hholds
    have hplace := h.toNat_add hfour
    rw [← hplace] at hbytes
    refine ⟨text.utf8ByteSize, _, _, ⟨hfits, hword⟩, h.addressAt_inside hfour, ?_,
      ⟨hlength, hbytes⟩, rfl, rfl⟩
    rw [h.toNat_size, hplace]
    omega

end Memory

namespace Run

variable {σ : Type} {machine left : Machine σ} {address : UInt64} {text : String}

theorem readText_eq_ok_iff (hram : machine.memory.IsRam) :
    readText address machine = .ok text left ↔
      left = machine ∧ machine.memory.HoldsText address text := by
  constructor
  · intro hread
    obtain ⟨rfl, size, htext⟩ := readText_eq_ok hread
    exact ⟨rfl, (hram.readText_eq_ok_iff.mp htext).1⟩
  · rintro ⟨rfl, hholds⟩
    rw [readText_apply, hram.readText_eq_ok_iff.mpr ⟨hholds, rfl⟩]

theorem fetchText_moveTo (hram : machine.memory.IsRam) (address : UInt64) :
    fetchText (machine.moveTo address) = match readText address machine with
      | .ok text _ => .ok text (machine.moveTo (address + .ofNat (Literal.text text).size))
      | .error stop _ => .error stop (machine.moveTo address) := by
  have hmemory : (machine.moveTo address).memory = machine.memory := rfl
  have hip : (machine.moveTo address).registers.ip = address := rfl
  rw [fetchText_apply, readText_apply, hmemory, hip]
  cases htext : machine.memory.readText address with
  | error cause => rfl
  | ok found =>
    obtain ⟨text, size⟩ := found
    have hsize := (hram.readText_eq_ok_iff.mp htext).2
    rw [hsize]
    rfl

end Run

open Run in
/-- Text in memory is what literals of text are encoded to. A text reads from an address of RAM exactly
if its encoding stands there, inside the RAM, and reading changes nothing. Read at the instruction
pointer, a text is the same one, and the pointer moves past its encoding; what does not read leaves the
pointer where it is. -/
theorem text_reads_where_encoded {σ : Type} (machine : Machine σ) (hram : machine.memory.IsRam)
    (address : UInt64) :
    (∀ text left, readText address machine = .ok text left ↔
      left = machine ∧ ∃ bytes, (Literal.text text).encode = .ok bytes ∧
        bytes <+: machine.memory.ram.bytes.toList.drop address.toNat) ∧
    (∀ text left, fetchText (machine.moveTo address) = .ok text left ↔
      readText address machine = .ok text machine ∧
      ∃ next : UInt64, next.toNat = address.toNat + (Literal.text text).size ∧
        left = machine.moveTo next) ∧
    ∀ stop left, fetchText (machine.moveTo address) = .error stop left ↔
      readText address machine = .error stop machine ∧ left = machine.moveTo address := by
  refine ⟨fun text left => readText_eq_ok_iff hram, fun text left => ?_, fun stop left => ?_⟩
  · rw [fetchText_moveTo hram]
    constructor
    · intro hfetch
      split at hfetch
      · rename_i found after hread
        cases hfetch
        obtain ⟨rfl, hholds⟩ := (readText_eq_ok_iff hram).mp hread
        exact ⟨hread, _, hram.toNat_add hholds.inside, rfl⟩
      · cases hfetch
    · rintro ⟨hread, next, hnext, rfl⟩
      have hholds := ((readText_eq_ok_iff hram).mp hread).2
      have hsame : next = address + .ofNat (Literal.text text).size := by
        rw [← UInt64.toNat_inj, hnext, hram.toNat_add hholds.inside]
      rw [hread, hsame]
  · rw [fetchText_moveTo hram, readText_apply]
    cases machine.memory.readText address with
    | ok found => simp
    | error cause => simp [eq_comm]

def Memory.cutText : Memory Unit := ⟨⟨#[1, 0, 0, 0, 0x68, 0xff, 0, 0, 0]⟩, none⟩

open Run in
theorem text_reads_where_encoded_cut :
    let machine := Machine.boot {} Memory.cutText {} ()
    machine.memory.IsRam ∧
    readText 0 machine = .ok "h" machine ∧
    fetchText (machine.moveTo 0) = .ok "h" (machine.moveTo 5) ∧
    fetchText (machine.moveTo 5) =
      .error (.fault (.outOfBounds 9 9)) (machine.moveTo 5) := by
  intro machine
  have hram : machine.memory.IsRam := ⟨rfl, by decide⟩
  have hholds := text_reads_where_encoded machine hram 0
  have hcut := text_reads_where_encoded machine hram 5
  have hread : readText 0 machine = .ok "h" machine :=
    (hholds.1 "h" machine).mpr ⟨rfl, [1, 0, 0, 0, 0x68], rfl, by decide⟩
  exact ⟨hram, hread, (hholds.2.1 "h" _).mpr ⟨hread, 5, rfl, rfl⟩,
    (hcut.2.2 _ _).mpr ⟨rfl, rfl⟩⟩

end RegisterMachine
