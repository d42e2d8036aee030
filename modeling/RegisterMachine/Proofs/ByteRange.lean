import RegisterMachine.Proofs.Ram
import RegisterMachine.Proofs.Run

/-!
Writing ranges of bytes to RAM. A range is laid over what the RAM holds, as far as the RAM goes, and
the write fails exactly if a byte is left over. Reading sees nothing but the bytes of its own range, so
a number that is stored is the number that is read there, and reads apart from it do not notice.
-/
namespace RegisterMachine

namespace Word

theorem count_pos (width : Nat) : 0 < count width := by
  induction width with
  | zero => decide
  | succ width ih =>
    rw [count]
    omega

theorem ofNat_ofSigned (width : Nat) (n : Int) : (ofSigned width n : Int) = n % count width := by
  have hpos := count_pos width
  exact Int.toNat_of_nonneg (Int.emod_nonneg n (by omega))

theorem ofSigned_lt (width : Nat) (n : Int) : ofSigned width n < count width := by
  have hpos := count_pos width
  have hlt := Int.emod_lt_of_pos n (b := count width) (by omega)
  rw [← ofNat_ofSigned] at hlt
  omega

theorem signed_ofSigned (width : Nat) (n : Int) :
    signed width (ofSigned width n) = n.bmod (count width) := by
  rw [signed, ofNat_ofSigned, Int.emod_bmod]

end Word

namespace Memory

variable {σ : Type} {memory other : Memory σ}

/-- The memory with bytes laid over its RAM from a place on. What goes past its end is lost. -/
def overlay (memory : Memory σ) (place : Nat) (bytes : List UInt8) : Memory σ :=
  { memory with ram := ⟨memory.ram.bytes.mapIdx fun x old =>
      if place ≤ x then bytes[x - place]?.getD old else old⟩ }

@[simp] theorem size_bytes_overlay (memory : Memory σ) (place : Nat) (bytes : List UInt8) :
    (memory.overlay place bytes).ram.bytes.size = memory.ram.bytes.size := Array.size_mapIdx

@[simp] theorem size_overlay (memory : Memory σ) (place : Nat) (bytes : List UInt8) :
    (memory.overlay place bytes).size = memory.size := by
  rw [size, Ram.size, size_bytes_overlay]
  rfl

theorem IsRam.overlay (h : memory.IsRam) (place : Nat) (bytes : List UInt8) :
    (memory.overlay place bytes).IsRam := by
  refine ⟨h.hooks, ?_⟩
  rw [size_bytes_overlay]
  exact h.fits

theorem getElem?_overlay (memory : Memory σ) (place : Nat) (bytes : List UInt8) (x : Nat) :
    (memory.overlay place bytes).ram.bytes[x]? =
      if place ≤ x ∧ x < min (place + bytes.length) memory.ram.bytes.size then bytes[x - place]?
      else memory.ram.bytes[x]? := by
  unfold Memory.overlay
  rw [Array.getElem?_mapIdx]
  by_cases hinside : x < memory.ram.bytes.size
  · rw [Array.getElem?_eq_getElem hinside, Option.map_some]
    by_cases hrange : place ≤ x ∧ x < place + bytes.length
    · have hbyte : x - place < bytes.length := by omega
      rw [if_pos hrange.1, if_pos ⟨hrange.1, by omega⟩, List.getElem?_eq_getElem hbyte,
        Option.getD_some]
    · have hapart : ¬(place ≤ x ∧ x < min (place + bytes.length) memory.ram.bytes.size) := by omega
      rw [if_neg hapart]
      by_cases hplace : place ≤ x
      · rw [if_pos hplace, List.getElem?_eq_none (by omega), Option.getD_none]
      · rw [if_neg hplace]
  · rw [Array.getElem?_eq_none (by omega), if_neg (by omega), Option.map_none]

theorem ext_getElem? (hhooks : memory.hooks = other.hooks)
    (hbytes : ∀ x : Nat, memory.ram.bytes[x]? = other.ram.bytes[x]?) : memory = other := by
  obtain ⟨⟨bytes⟩, hooks⟩ := memory
  obtain ⟨⟨others⟩, _⟩ := other
  cases hhooks
  cases Array.ext_getElem? hbytes
  rfl

theorem overlay_past (memory : Memory σ) {place : Nat} (bytes : List UInt8)
    (h : memory.ram.bytes.size ≤ place) : memory.overlay place bytes = memory := by
  refine ext_getElem? rfl fun x => ?_
  rw [getElem?_overlay, if_neg (by omega)]

theorem overlay_nil (memory : Memory σ) (place : Nat) : memory.overlay place [] = memory := by
  refine ext_getElem? rfl fun x => ?_
  rw [getElem?_overlay, List.length_nil, if_neg (by omega)]

theorem overlay_append (memory : Memory σ) (place : Nat) (front back : List UInt8) :
    (memory.overlay place front).overlay (place + front.length) back =
      memory.overlay place (front ++ back) := by
  refine ext_getElem? rfl fun x => ?_
  simp only [getElem?_overlay, size_bytes_overlay, List.length_append, List.getElem?_append]
  grind

theorem IsRam.write_apply (h : memory.IsRam) (world : σ) (address : UInt64) (byte : UInt8) :
    write address byte (memory, world) =
      if address.toNat < memory.ram.bytes.size then
        .ok () (memory.overlay address.toNat [byte], world)
      else .error (.outOfBounds address memory.size) (memory, world) := by
  by_cases hinside : address.toNat < memory.ram.bytes.size
  · have hset : memory.overlay address.toNat [byte] =
        { memory with ram := ⟨memory.ram.bytes.set address.toNat byte⟩ } := by
      refine ext_getElem? rfl fun x => ?_
      rw [getElem?_overlay, Array.getElem?_set, List.length_singleton]
      grind
    rw [if_pos hinside, hset, write, h.hooks]
    dsimp only
    rw [if_neg Bool.false_ne_true, Ram.write, dif_pos hinside]
  · obtain ⟨ram, hooks⟩ := memory
    cases h.hooks
    rw [if_neg hinside, write]
    dsimp only
    rw [if_neg Bool.false_ne_true, Ram.write, dif_neg hinside]
    rfl

theorem IsRam.writeFrom_eq (h : memory.IsRam) (world : σ) {start : UInt64} {offset : Nat}
    (bytes : List UInt8) (hstart : start.toNat + offset < Word.count 8) :
    writeFrom start offset bytes (memory, world) =
      if bytes = [] ∨ start.toNat + offset + bytes.length ≤ memory.ram.bytes.size then
        .ok () (memory.overlay (start.toNat + offset) bytes, world)
      else
        .error (.outOfBounds (.ofNat (max (start.toNat + offset) memory.ram.bytes.size)) memory.size)
          (memory.overlay (start.toNat + offset) bytes, world) := by
  induction bytes generalizing memory offset with
  | nil =>
    rw [if_pos (.inl rfl), overlay_nil]
    rfl
  | cons byte rest ih =>
    have hstep : writeFrom start offset (byte :: rest) (memory, world) =
        EStateM.bind (write (.ofNat (start.toNat + offset)) byte)
          (fun _ => writeFrom start (offset + 1) rest) (memory, world) := by
      have hget (next : Memory σ × σ → Access σ Unit) :
          (get >>= next) (memory, world) = next (memory, world) (memory, world) := rfl
      rw [writeFrom, hget, addressAt_eq_ok hstart]
      rfl
    have hcons : (byte :: rest = [] ∨
        start.toNat + offset + (byte :: rest).length ≤ memory.ram.bytes.size) ↔
          start.toNat + offset + (rest.length + 1) ≤ memory.ram.bytes.size := by simp
    rw [hstep, EStateM.bind, h.write_apply, toNat_ofNat_of_lt hstart]
    simp only [hcons]
    by_cases hinside : start.toNat + offset < memory.ram.bytes.size
    · have hnext : start.toNat + (offset + 1) < Word.count 8 := by
        have := h.fits
        omega
      have hmax : max (start.toNat + (offset + 1)) memory.ram.bytes.size =
          max (start.toNat + offset) memory.ram.bytes.size := by omega
      have hwhole : (rest = [] ∨ start.toNat + (offset + 1) + rest.length ≤ memory.ram.bytes.size) ↔
          start.toNat + offset + (rest.length + 1) ≤ memory.ram.bytes.size := by
        rw [← List.length_eq_zero_iff]
        omega
      have hover : (memory.overlay (start.toNat + offset) [byte]).overlay
          (start.toNat + (offset + 1)) rest =
            memory.overlay (start.toNat + offset) (byte :: rest) :=
        memory.overlay_append (start.toNat + offset) [byte] rest
      rw [if_pos hinside]
      dsimp only
      rw [ih (h.overlay _ _) hnext, size_bytes_overlay, size_overlay, hmax, hover]
      simp only [hwhole]
    · have hmax : max (start.toNat + offset) memory.ram.bytes.size = start.toNat + offset := by
        omega
      rw [if_neg hinside, if_neg (by omega), hmax, overlay_past _ _ (Nat.le_of_not_lt hinside)]

theorem IsRam.writeBytes_eq (h : memory.IsRam) (world : σ) (start : UInt64) (bytes : List UInt8) :
    writeBytes start bytes (memory, world) =
      if bytes = [] ∨ start.toNat + bytes.length ≤ memory.ram.bytes.size then
        .ok () (memory.overlay start.toNat bytes, world)
      else
        .error (.outOfBounds (.ofNat (max start.toNat memory.ram.bytes.size)) memory.size)
          (memory.overlay start.toNat bytes, world) :=
  h.writeFrom_eq world bytes (toNat_lt_count start)

theorem IsRam.toNat_max (h : memory.IsRam) (start : UInt64) :
    (UInt64.ofNat (max start.toNat memory.ram.bytes.size)).toNat =
      max start.toNat memory.ram.bytes.size := by
  have := toNat_lt_count start
  have := h.fits
  exact toNat_ofNat_of_lt (by omega)

theorem IsRam.readBytes_eq (h : memory.IsRam) (start : UInt64) (count : Nat) :
    memory.readBytes start count =
      if count = 0 ∨ start.toNat + count ≤ memory.ram.bytes.size then
        .ok ((memory.ram.bytes.toList.drop start.toNat).take count)
      else
        .error (.outOfBounds (.ofNat (max start.toNat memory.ram.bytes.size)) memory.size) := by
  unfold readBytes
  rw [h.readFrom_eq count (toNat_lt_count start), Nat.add_zero]
  by_cases hinside : count = 0 ∨ start.toNat + count ≤ memory.ram.bytes.size
  · rw [if_pos hinside, if_pos hinside]
    rfl
  · rw [if_neg hinside, if_neg hinside]
    rfl

structure Alike (memory other : Memory σ) (start count : Nat) : Prop where
  isRam : memory.IsRam
  isRam' : other.IsRam
  size_eq : other.ram.bytes.size = memory.ram.bytes.size
  bytes_eq : ∀ x, start ≤ x ∧ x < start + count → other.ram.bytes[x]? = memory.ram.bytes[x]?

namespace Alike

theorem size {start count : Nat} (h : Alike memory other start count) : other.size = memory.size := by
  rw [Memory.size, Ram.size, h.size_eq]
  rfl

theorem sub {start count start' count' : Nat} (h : Alike memory other start count)
    (hstart : start ≤ start') (hend : start' + count' ≤ start + count) :
    Alike memory other start' count' :=
  { h with bytes_eq := fun x hx => h.bytes_eq x ⟨by omega, by omega⟩ }

theorem readBytes {start : UInt64} {count : Nat} (h : Alike memory other start.toNat count) :
    other.readBytes start count = memory.readBytes start count := by
  have hbytes : (other.ram.bytes.toList.drop start.toNat).take count =
      (memory.ram.bytes.toList.drop start.toNat).take count := by
    apply List.ext_getElem?
    intro i
    rw [List.getElem?_take, List.getElem?_take]
    split
    · rw [List.getElem?_drop, List.getElem?_drop, Array.getElem?_toList, Array.getElem?_toList]
      exact h.bytes_eq _ ⟨by omega, by omega⟩
    · rfl
  rw [h.isRam.readBytes_eq, h.isRam'.readBytes_eq, h.size_eq, h.size, hbytes]

theorem readWord {address : UInt64} {width : Nat} (h : Alike memory other address.toNat width) :
    other.readWord address width = memory.readWord address width := by
  rw [Memory.readWord, h.readBytes]
  rfl

theorem readText {address : UInt64} (h : Alike memory other address.toNat 4)
    (hbody : ∀ length, memory.readWord address 4 = .ok length →
      Alike memory other address.toNat (4 + length)) :
    other.readText address = memory.readText address := by
  have haddress : other.addressAt address 4 = memory.addressAt address 4 := by
    unfold addressAt
    rw [h.size]
  unfold Memory.readText
  rw [h.readWord, haddress, h.size]
  cases hlength : memory.readWord address 4 with
  | error cause => rfl
  | ok length =>
    cases hat : memory.addressAt address 4 with
    | error cause => rfl
    | ok body =>
      have hplace : body.toNat = address.toNat + 4 := by
        unfold addressAt at hat
        split at hat
        · rename_i hfits
          cases hat
          rw [UInt64.toNat_add]
          exact Nat.mod_eq_of_lt hfits
        · cases hat
      have hbytes : other.readBytes body length = memory.readBytes body length :=
        ((hbody length hlength).sub (by omega) (by omega)).readBytes
      change (if _ then _ else _) = (if _ then _ else _)
      rw [hbytes]

end Alike

/-- No address is in both of two ranges, each given by its start and its size. -/
def Apart (start count place size : Nat) : Prop :=
  ∀ x, start ≤ x ∧ x < start + count → ¬(place ≤ x ∧ x < place + size)

theorem IsRam.alike_overlay (h : memory.IsRam) {start count place : Nat} {bytes : List UInt8}
    (hapart : Apart start count place bytes.length) :
    Alike memory (memory.overlay place bytes) start count := by
  refine ⟨h, h.overlay _ _, size_bytes_overlay _ _ _, fun x hx => ?_⟩
  have := hapart x hx
  rw [getElem?_overlay, if_neg (by omega)]

theorem IsRam.readBytes_overlay (h : memory.IsRam) (start : UInt64) (bytes : List UInt8)
    (hinside : bytes.length = 0 ∨ start.toNat + bytes.length ≤ memory.ram.bytes.size) :
    (memory.overlay start.toNat bytes).readBytes start bytes.length = .ok bytes := by
  rw [(h.overlay _ _).readBytes_eq, size_bytes_overlay, if_pos hinside]
  apply congrArg Except.ok
  apply List.ext_getElem?
  intro i
  rw [List.getElem?_take]
  split
  · rw [List.getElem?_drop, Array.getElem?_toList, getElem?_overlay, if_pos (by omega),
      Nat.add_sub_cancel_left]
  · rw [List.getElem?_eq_none (by omega)]

end Memory

namespace Run

variable {σ α : Type}

/-- What a run gives, whatever it leaves behind. -/
def outcome (run : Run σ α) (machine : Machine σ) : Except Stop α :=
  match run machine with
  | .ok a _ => .ok a
  | .error stop _ => .error stop

theorem read_apply (width : Nat) (address : UInt64) (machine : Machine σ) :
    read width address machine = match machine.memory.readWord address width with
      | .ok n => .ok n machine
      | .error cause => .error (.fault cause) machine := by
  unfold read
  rw [bind_apply, get_apply]
  dsimp only
  cases machine.memory.readWord address width <;> rfl

theorem outcome_read (width : Nat) (place : UInt64) (machine : Machine σ) :
    (read width place).outcome machine =
      (machine.memory.readWord place width).mapError .fault := by
  rw [outcome, read_apply]
  cases machine.memory.readWord place width <;> rfl

theorem outcome_fetch (width : Nat) (place : UInt64) (machine : Machine σ) :
    (fetch width).outcome (machine.moveTo place) =
      (machine.memory.readWord place width).mapError .fault := by
  have hmemory : (machine.moveTo place).memory = machine.memory := rfl
  have hip : (machine.moveTo place).registers.ip = place := rfl
  rw [outcome, fetch_apply, hmemory, hip]
  cases machine.memory.readWord place width <;> rfl

theorem outcome_readText (place : UInt64) (machine : Machine σ) :
    (readText place).outcome machine =
      ((machine.memory.readText place).map Prod.fst).mapError .fault := by
  rw [outcome, readText_apply]
  cases machine.memory.readText place <;> rfl

theorem outcome_fetchText (place : UInt64) (machine : Machine σ) :
    fetchText.outcome (machine.moveTo place) =
      ((machine.memory.readText place).map Prod.fst).mapError .fault := by
  have hmemory : (machine.moveTo place).memory = machine.memory := rfl
  have hip : (machine.moveTo place).registers.ip = place := rfl
  rw [outcome, fetchText_apply, hmemory, hip]
  cases machine.memory.readText place <;> rfl

theorem store_apply {machine : Machine σ} (h : machine.memory.IsRam) (width : Nat)
    (address : UInt64) (value : Int) :
    store width address value machine =
      let bytes := Word.littleEndian width (Word.ofSigned width value)
      let left := { machine with memory := machine.memory.overlay address.toNat bytes }
      if width = 0 ∨ address.toNat + width ≤ machine.memory.ram.bytes.size then .ok () left
      else .error (.fault (.outOfBounds (.ofNat (max address.toNat machine.memory.ram.bytes.size))
        machine.memory.size)) left := by
  have hroom : (Word.littleEndian width (Word.ofSigned width value) = [] ∨ address.toNat +
      (Word.littleEndian width (Word.ofSigned width value)).length ≤ machine.memory.ram.bytes.size) ↔
        (width = 0 ∨ address.toNat + width ≤ machine.memory.ram.bytes.size) := by
    rw [← List.length_eq_zero_iff, Word.length_littleEndian]
  unfold store ofAccess
  rw [h.writeBytes_eq]
  by_cases hinside : width = 0 ∨ address.toNat + width ≤ machine.memory.ram.bytes.size
  · rw [if_pos (hroom.mpr hinside)]
    exact (if_pos hinside).symm
  · rw [if_neg (mt hroom.mp hinside)]
    exact (if_neg hinside).symm

theorem store_eq_ok {machine left : Machine σ} (h : machine.memory.IsRam) {width : Nat}
    {address : UInt64} {value : Int} (hstore : store width address value machine = .ok () left) :
    (width = 0 ∨ address.toNat + width ≤ machine.memory.ram.bytes.size) ∧
      left = { machine with memory := (machine.memory.overlay address.toNat
        (Word.littleEndian width (Word.ofSigned width value))) } := by
  rw [store_apply h] at hstore
  dsimp only at hstore
  split at hstore
  · rename_i hinside
    cases hstore
    exact ⟨hinside, rfl⟩
  · cases hstore

theorem read_of_store {machine left : Machine σ} (h : machine.memory.IsRam) {width : Nat}
    {address : UInt64} {value : Int} (hstore : store width address value machine = .ok () left) :
    read width address left = .ok (Word.ofSigned width value) left := by
  obtain ⟨hinside, rfl⟩ := store_eq_ok h hstore
  have hbytes := h.readBytes_overlay address (Word.littleEndian width (Word.ofSigned width value))
    (by rwa [Word.length_littleEndian])
  rw [Word.length_littleEndian] at hbytes
  rw [read_apply, Memory.readWord, hbytes]
  change EStateM.Result.ok (Word.ofLittleEndian _) _ = _
  rw [Word.ofLittleEndian_littleEndian, Nat.mod_eq_of_lt (Word.ofSigned_lt width value)]

theorem alike_of_store {machine left : Machine σ} (h : machine.memory.IsRam) {width : Nat}
    {address : UInt64} {value : Int} (hstore : store width address value machine = .ok () left)
    {start count : Nat} (hapart : Memory.Apart start count address.toNat width) :
    machine.memory.Alike left.memory start count := by
  obtain ⟨-, rfl⟩ := store_eq_ok h hstore
  apply h.alike_overlay
  rwa [Word.length_littleEndian]

end Run

open Run in
/-- Ranges of bytes in RAM. A range is written, and read, exactly if it is empty or inside the RAM, and
otherwise the fault names the first address that is missing. Written or not, the range holds the bytes
as far as the RAM goes, and nothing else changes. So a number that was stored is what is read there
next, and what is read apart from it is as before. -/
theorem byte_ranges_end_with_ram {σ : Type} (machine : Machine σ) (hram : machine.memory.IsRam) :
    let size := machine.memory.ram.bytes.size
    (∀ start : UInt64, ∃ missing : UInt64, missing.toNat = max start.toNat size ∧
      (∀ (bytes : List UInt8) (world : σ), ∃ after : Memory σ,
        Memory.writeBytes start bytes (machine.memory, world) =
          (if bytes = [] ∨ start.toNat + bytes.length ≤ size then .ok () (after, world)
          else .error (.outOfBounds missing (.ofNat size)) (after, world)) ∧
        after.hooks = none ∧ after.ram.bytes.size = size ∧
        ∀ x : Nat, after.ram.bytes[x]? =
          if start.toNat ≤ x ∧ x < min (start.toNat + bytes.length) size then bytes[x - start.toNat]?
          else machine.memory.ram.bytes[x]?) ∧
      ∀ count : Nat, machine.memory.readBytes start count =
        if count = 0 ∨ start.toNat + count ≤ size then
          .ok (machine.memory.ram.bytes.extract start.toNat (start.toNat + count)).toList
        else .error (.outOfBounds missing (.ofNat size))) ∧
    ∀ (address : UInt64) (value : Int64),
      ((∃ left, store 8 address value.toInt machine = .ok () left) ↔ address.toNat + 8 ≤ size) ∧
      ∀ left, store 8 address value.toInt machine = .ok () left →
        (∃ n, read 8 address left = .ok n left ∧ Word.signed 8 n = value.toInt) ∧
        ∀ place : UInt64,
          (∀ width, Memory.Apart place.toNat width address.toNat 8 →
            left.memory.readBytes place width = machine.memory.readBytes place width ∧
            (read width place).outcome left = (read width place).outcome machine ∧
            (fetch width).outcome (left.moveTo place) =
              (fetch width).outcome (machine.moveTo place)) ∧
          (Memory.Apart place.toNat 4 address.toNat 8 →
            (∀ length, read 4 place machine = .ok length machine →
              Memory.Apart place.toNat (4 + length) address.toNat 8) →
            (readText place).outcome left = (readText place).outcome machine ∧
            fetchText.outcome (left.moveTo place) = fetchText.outcome (machine.moveTo place)) := by
  intro size
  refine ⟨fun start => ⟨.ofNat (max start.toNat size), hram.toNat_max start, fun bytes world => ?_,
    fun count => ?_⟩, fun address value => ⟨?_, fun left hstore => ⟨?_, fun place => ⟨?_, ?_⟩⟩⟩⟩
  · exact ⟨machine.memory.overlay start.toNat bytes, hram.writeBytes_eq world start bytes, hram.hooks,
      Memory.size_bytes_overlay _ _ _, Memory.getElem?_overlay _ _ _⟩
  · rw [hram.readBytes_eq, Array.toList_extract, List.extract_eq_take_drop, Nat.add_sub_cancel_left]
    rfl
  · constructor
    · rintro ⟨left, hstore⟩
      exact (store_eq_ok hram hstore).1.resolve_left (by decide)
    · intro hinside
      rw [store_apply hram]
      exact ⟨_, if_pos (.inr hinside)⟩
  · refine ⟨_, read_of_store hram hstore, ?_⟩
    rw [Word.signed_ofSigned]
    exact value.toInt_bmod
  · intro width hapart
    have halike := alike_of_store hram hstore hapart
    simp only [outcome_read, outcome_fetch, halike.readBytes, halike.readWord, and_self]
  · intro hlength hbody
    have halike := (alike_of_store hram hstore hlength).readText fun length hread =>
      alike_of_store hram hstore (hbody length (by rw [read_apply, hread]))
    simp only [outcome_readText, outcome_fetchText, halike, and_self]

def Memory.tenBytes : Memory Unit := ⟨⟨#[0, 1, 2, 3, 4, 5, 6, 7, 8, 9]⟩, none⟩

open Run in
theorem byte_ranges_end_with_ram_straddling :
    let machine := Machine.boot {} Memory.tenBytes {} ()
    machine.memory.IsRam ∧
    (∃ after, Memory.writeBytes 8 [0xa, 0xb, 0xc] (machine.memory, ()) =
        .error (.outOfBounds 10 10) (after, ()) ∧
      after.ram.bytes[7]? = some 7 ∧ after.ram.bytes[9]? = some 0xb) ∧
    machine.memory.readBytes 0xffffffffffffffff 2 =
      .error (.outOfBounds 0xffffffffffffffff 10) ∧
    ∃ left, store 8 1 Int64.minValue.toInt machine = .ok () left ∧
      (∃ n, read 8 1 left = .ok n left ∧ Word.signed 8 n = Int64.minValue.toInt) ∧
      Memory.Apart 9 1 1 8 ∧ (read 1 9).outcome left = .ok 9 := by
  intro machine
  have hram : machine.memory.IsRam := ⟨rfl, by decide⟩
  obtain ⟨hranges, hstores⟩ := byte_ranges_end_with_ram machine hram
  obtain ⟨missing, hmissing, hwrite, -⟩ := hranges 8
  cases (UInt64.toNat_inj.mp hmissing : missing = 10)
  obtain ⟨after, hafter, -, -, hbytes⟩ := hwrite [0xa, 0xb, 0xc] ()
  obtain ⟨last, hlast, -, hread⟩ := hranges 0xffffffffffffffff
  cases (UInt64.toNat_inj.mp hlast : last = 0xffffffffffffffff)
  obtain ⟨hroom, hstored⟩ := hstores 1 Int64.minValue
  obtain ⟨left, hleft⟩ := hroom.mpr (by decide)
  have hapart : Memory.Apart 9 1 1 8 := fun x hx => by omega
  obtain ⟨hback, hbeside⟩ := hstored left hleft
  refine ⟨hram, ⟨after, hafter, hbytes 7, hbytes 9⟩, hread 2, left, hleft, hback, hapart, ?_⟩
  exact ((hbeside 9).1 1 hapart).2.1

end RegisterMachine
