import RegisterMachine.Proofs.Stream

/-!
The instructions at the start of an image. Reading them goes as far as the bytes decode: what was read
is an image of its own that decodes as a whole, no longer part from the start does, and what keeps the
whole image from decoding is what stands where the reading stopped.
-/
namespace RegisterMachine

namespace Disassembly

open Decoded

variable {bytes : Array UInt8} {stop : Nat} {list : List Decoded}

theorem whole_extract_eq_ok_iff :
    whole (bytes.extract 0 stop) = .ok list ↔ IsStream 0 (bytes.toList.take stop) list := by
  have hpart : bytes.extract 0 stop = (bytes.toList.take stop).toArray := by
    apply Array.ext'
    simp [List.extract_eq_take_drop]
  rw [hpart, whole_eq_ok_iff]

theorem whole_eq_leading (bytes : Array UInt8) :
    whole bytes = match (sweepFrom bytes 0 #[]).fault with
      | some fault => .error fault
      | none => .ok (leading bytes).1 := by
  rw [whole, range, Array.extract_size]
  rfl

def leadingFrom (bytes : Array UInt8) (offset : Nat) : List Decoded × Nat :=
  let sweep := sweepFrom bytes offset #[]
  (sweep.instructions.toList, sweep.stop)

theorem leading_eq_leadingFrom (bytes : Array UInt8) : leading bytes = leadingFrom bytes 0 := rfl

/-- The leading instructions as a loop of its own, which a fault leaves. -/
theorem leadingFrom_eq (bytes : Array UInt8) (offset : Nat) :
    leadingFrom bytes offset =
      if offset < bytes.size then
        match decodeAt bytes offset with
        | .ok decoded =>
          let (later, stop) := leadingFrom bytes (offset + decoded.size)
          (decoded :: later, stop)
        | .error _ => ([], offset)
      else ([], offset) := by
  unfold leadingFrom
  by_cases hinside : offset < bytes.size
  · rw [if_pos hinside]
    cases hdecode : decodeAt bytes offset with
    | error fault =>
      rw [sweepFrom, if_pos hinside, hdecode]
    | ok decoded =>
      rw [sweepFrom_again hdecode]
      simp
  · rw [if_neg hinside, sweepFrom_end (Nat.le_of_not_lt hinside)]

theorem sweepFrom_extends (bytes : Array UInt8) (offset : Nat) (found : Array Decoded) :
    offset ≤ (sweepFrom bytes offset found).stop ∧
      found.toList <+: (sweepFrom bytes offset found).instructions.toList := by
  obtain ⟨read, list, -, -, ⟨-, hsweep⟩ | ⟨fault, -, -, hsweep⟩⟩ :=
    sweepFrom_cases bytes offset found
  · simp [hsweep]
  · simp [hsweep]

theorem leading_past {read : List UInt8} (h : IsStream 0 read list) (hnext : read <+: bytes.toList) :
    read.length ≤ (leading bytes).2 ∧ list <+: (leading bytes).1 := by
  have hextends := sweepFrom_extends bytes (0 + read.length) (#[] ++ list.toArray)
  rw [← sweepFrom_past h hnext] at hextends
  simpa [leading] using hextends

end Disassembly

open Disassembly Decoded in
/-- The leading instructions of an image are those of the longest part from the start that decodes.
Reading them stops at the end, and then the image decodes to them, or before it, at bytes that do not
decode, and then the image does not decode for the same reason. -/
theorem leading_is_longest (bytes : Array UInt8) (list : List Decoded) (stop : Nat)
    (h : leading bytes = (list, stop)) :
    stop ≤ bytes.size ∧ whole (bytes.extract 0 stop) = .ok list ∧
    (stop = bytes.size ∧ whole bytes = .ok list ∨
      stop < bytes.size ∧ ∃ fault, decodeAt bytes stop = .error fault ∧
        whole bytes = .error fault) ∧
    ∀ size other, size ≤ bytes.size → whole (bytes.extract 0 size) = .ok other →
      size ≤ stop ∧ other <+: list := by
  obtain ⟨read, found, hstream, hprefix, hend⟩ := sweepFrom_cases bytes 0 #[]
  rw [Nat.zero_add, Array.empty_append] at hend
  rw [List.drop_zero] at hprefix
  have hread : found = list ∧ read.length = stop := by
    rcases hend with ⟨-, hsweep⟩ | ⟨fault, -, -, hsweep⟩
    · simpa [leading, hsweep] using h
    · simpa [leading, hsweep] using h
  obtain ⟨rfl, rfl⟩ := hread
  have hinside : read.length ≤ bytes.size := by simpa using hprefix.length_le
  have hpart : whole (bytes.extract 0 read.length) = .ok found := by
    rw [whole_extract_eq_ok_iff, ← List.prefix_iff_eq_take.mp hprefix]
    exact hstream
  refine ⟨hinside, hpart, ?_, ?_⟩
  · rw [whole_eq_leading]
    rcases hend with ⟨hend, hsweep⟩ | ⟨fault, hend, hfault, hsweep⟩
    · rw [hsweep, h]
      exact .inl ⟨Nat.le_antisymm hinside hend, rfl⟩
    · rw [hsweep]
      exact .inr ⟨hend, fault, hfault, rfl⟩
  · intro size other hsize hother
    have hpast := leading_past (whole_extract_eq_ok_iff.mp hother) (List.take_prefix size _)
    rw [h] at hpast
    simpa [hsize] using hpast

/-- A return, and a jump that is cut short after two bytes that are opcodes themselves. -/
def Decoded.cutJump : Array UInt8 := #[36, 11, 36, 36]

open Disassembly Decoded in
theorem leading_is_longest_cutJump :
    leading cutJump = ([⟨0, .ret, []⟩], 1) ∧
    whole (cutJump.extract 0 1) = .ok [⟨0, .ret, []⟩] ∧
    decodeAt cutJump 1 = .error (.outOfBounds 2 4) ∧ whole cutJump = .error (.outOfBounds 2 4) := by
  have hleading : leading cutJump = ([⟨0, .ret, []⟩], 1) := by decide +kernel
  have hcut : decodeAt cutJump 1 = .error (.outOfBounds 2 4) := rfl
  obtain ⟨-, hpart, hstop, -⟩ := leading_is_longest cutJump _ _ hleading
  refine ⟨hleading, hpart, hcut, ?_⟩
  rcases hstop with ⟨hend, -⟩ | ⟨-, fault, hfault, hwhole⟩
  · cases hend
  · cases hcut.symm.trans hfault
    exact hwhole

end RegisterMachine
