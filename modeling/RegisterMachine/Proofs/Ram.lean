import RegisterMachine.Memory

/-!
Byte ranges of a memory that is RAM alone. A range inside the RAM reads as the bytes that it holds;
one that leaves it stops at the first address that does not exist.
-/
namespace RegisterMachine.Memory

variable {σ : Type} {memory : Memory σ}

/-- The memory has no hooks, and every byte of its RAM has an address. -/
structure IsRam (memory : Memory σ) : Prop where
  hooks : memory.hooks = none
  fits : memory.ram.bytes.size < Word.count 8

theorem IsRam.read_eq (h : memory.IsRam) (address : UInt64) :
    memory.read address = memory.ram.read address := by
  unfold Memory.read
  rw [h.hooks]
  rfl

theorem toNat_ofNat_of_lt {n : Nat} (h : n < Word.count 8) : (UInt64.ofNat n).toNat = n := by
  rw [UInt64.toNat_ofNat']
  exact Nat.mod_eq_of_lt h

theorem toNat_lt_count (address : UInt64) : address.toNat < Word.count 8 := address.toNat_lt

theorem IsRam.toNat_size (h : memory.IsRam) : memory.size.toNat = memory.ram.bytes.size :=
  toNat_ofNat_of_lt h.fits

theorem addressAt_eq_ok {start : UInt64} {offset : Nat}
    (h : start.toNat + offset < Word.count 8) :
    memory.addressAt start offset = .ok (.ofNat (start.toNat + offset)) := by
  unfold addressAt
  rw [if_pos h, UInt64.ofNat_add, UInt64.ofNat_toNat]

theorem IsRam.toNat_add (h : memory.IsRam) {start : UInt64} {size : Nat}
    (hinside : start.toNat + size ≤ memory.ram.bytes.size) :
    (start + .ofNat size).toNat = start.toNat + size := by
  have hlt := Nat.lt_of_le_of_lt hinside h.fits
  have hsum : start + .ofNat size = .ofNat (start.toNat + size) := by
    rw [UInt64.ofNat_add, UInt64.ofNat_toNat]
  rw [hsum, toNat_ofNat_of_lt hlt]

theorem IsRam.addressAt_inside (h : memory.IsRam) {start : UInt64} {offset : Nat}
    (hinside : start.toNat + offset ≤ memory.ram.bytes.size) :
    memory.addressAt start offset = .ok (start + .ofNat offset) :=
  if_pos (Nat.lt_of_le_of_lt hinside h.fits)

theorem IsRam.readFrom_eq (h : memory.IsRam) {start : UInt64} {offset : Nat} (count : Nat)
    (hstart : start.toNat + offset < Word.count 8) :
    memory.readFrom start offset count =
      ((memory.ram.bytes.toList.drop (start.toNat + offset)).take count,
        if count = 0 ∨ start.toNat + offset + count ≤ memory.ram.bytes.size then .ok ()
        else .error (.outOfBounds (.ofNat (max (start.toNat + offset) memory.ram.bytes.size))
          memory.size)) := by
  induction count generalizing offset with
  | zero => simp [readFrom]
  | succ count ih =>
    have hread : (memory.addressAt start offset >>= memory.read) =
        memory.ram.read (.ofNat (start.toNat + offset)) := by
      rw [addressAt_eq_ok hstart]
      exact h.read_eq _
    unfold readFrom
    rw [hread]
    unfold Ram.read
    rw [toNat_ofNat_of_lt hstart]
    by_cases hinside : start.toNat + offset < memory.ram.bytes.size
    · have hnext : start.toNat + (offset + 1) < Word.count 8 := by
        have := h.fits
        omega
      have hmax : max (start.toNat + (offset + 1)) memory.ram.bytes.size =
          max (start.toNat + offset) memory.ram.bytes.size := by omega
      have hwhole : (count = 0 ∨ start.toNat + (offset + 1) + count ≤ memory.ram.bytes.size) ↔
          (count + 1 = 0 ∨ start.toNat + offset + (count + 1) ≤ memory.ram.bytes.size) := by omega
      have hdrop : memory.ram.bytes.toList.drop (start.toNat + offset) =
          memory.ram.bytes[start.toNat + offset] ::
            memory.ram.bytes.toList.drop (start.toNat + (offset + 1)) :=
        List.drop_eq_getElem_cons (by simpa using hinside)
      rw [Array.getElem?_eq_getElem hinside]
      dsimp only
      rw [ih hnext, hdrop, hmax, List.take_succ_cons]
      simp only [hwhole]
    · have hempty : memory.ram.bytes.toList.drop (start.toNat + offset) = [] := by
        apply List.drop_eq_nil_of_le
        simpa using hinside
      have hshort : ¬(count + 1 = 0 ∨
          start.toNat + offset + (count + 1) ≤ memory.ram.bytes.size) := by omega
      have hmax : max (start.toNat + offset) memory.ram.bytes.size = start.toNat + offset := by omega
      rw [Array.getElem?_eq_none (by omega)]
      dsimp only
      rw [hempty, if_neg hshort, hmax]
      rfl

theorem IsRam.readWord_eq_ok (h : memory.IsRam) {address : UInt64} {width : Nat}
    (hinside : address.toNat + width ≤ memory.ram.bytes.size) :
    memory.readWord address width =
      .ok (Word.ofLittleEndian
        (memory.ram.bytes.extract address.toNat (address.toNat + width)).toList) := by
  have hbytes : (memory.ram.bytes.extract address.toNat (address.toNat + width)).toList =
      (memory.ram.bytes.toList.drop address.toNat).take width := by
    rw [Array.toList_extract, List.extract_eq_take_drop]
    congr 1
    omega
  unfold readWord readBytes
  rw [h.readFrom_eq width (toNat_lt_count address), Nat.add_zero,
    if_pos (.inr hinside), hbytes]
  rfl

theorem IsRam.readWord_eq_error (h : memory.IsRam) {address : UInt64} {width : Nat}
    (hwidth : 0 < width) (houtside : memory.ram.bytes.size < address.toNat + width) :
    memory.readWord address width =
      .error (.outOfBounds (.ofNat (max address.toNat memory.ram.bytes.size)) memory.size) := by
  have hshort : ¬(width = 0 ∨ address.toNat + width ≤ memory.ram.bytes.size) := by omega
  unfold readWord readBytes
  rw [h.readFrom_eq width (toNat_lt_count address), Nat.add_zero, if_neg hshort]
  rfl

theorem IsRam.readBytes_eq_ok_iff (h : memory.IsRam) {start : UInt64} {count : Nat}
    {bytes : List UInt8} :
    memory.readBytes start count = .ok bytes ↔
      bytes.length = count ∧ bytes <+: memory.ram.bytes.toList.drop start.toNat := by
  have hlength : (memory.ram.bytes.toList.drop start.toNat).length =
      memory.ram.bytes.size - start.toNat := by simp
  unfold readBytes
  rw [h.readFrom_eq count (toNat_lt_count start), Nat.add_zero, List.prefix_iff_eq_take]
  by_cases hinside : count = 0 ∨ start.toNat + count ≤ memory.ram.bytes.size
  · have htake : ((memory.ram.bytes.toList.drop start.toNat).take count).length = count := by
      rw [List.length_take, hlength]
      omega
    rw [if_pos hinside]
    constructor
    · intro hread
      cases hread
      exact ⟨htake, by rw [htake]⟩
    · intro hbytes
      rw [hbytes.1] at hbytes
      rw [hbytes.2]
      rfl
  · rw [if_neg hinside]
    constructor
    · intro hread
      cases hread
    · intro hbytes
      have hcount := congrArg List.length hbytes.2
      rw [List.length_take, hlength] at hcount
      omega

theorem IsRam.readWord_eq_ok_iff (h : memory.IsRam) {address : UInt64} {width n : Nat} :
    memory.readWord address width = .ok n ↔
      n < Word.count width ∧
        Word.littleEndian width n <+: memory.ram.bytes.toList.drop address.toNat := by
  unfold readWord
  constructor
  · intro hread
    cases hbytes : memory.readBytes address width with
    | error cause =>
      rw [hbytes] at hread
      cases hread
    | ok bytes =>
      rw [hbytes] at hread
      cases hread
      have hstands := h.readBytes_eq_ok_iff.mp hbytes
      have hlt := Word.ofLittleEndian_lt bytes
      have hsame := Word.littleEndian_ofLittleEndian bytes
      rw [hstands.1] at hlt hsame
      rw [hsame]
      exact ⟨hlt, hstands.2⟩
  · intro hstands
    have hbytes := h.readBytes_eq_ok_iff.mpr ⟨Word.length_littleEndian width n, hstands.2⟩
    rw [hbytes]
    change Except.ok (Word.ofLittleEndian (Word.littleEndian width n)) = .ok n
    rw [Word.ofLittleEndian_littleEndian, Nat.mod_eq_of_lt hstands.1]

end RegisterMachine.Memory
