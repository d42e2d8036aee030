/-!
Places in a source text. Lines and columns count from one, columns in characters. Places are in the
order in which a source is read: line by line, and each line from its first column on.
-/
namespace RegisterMachine

structure Position where
  line : Nat
  column : Nat
  deriving DecidableEq

namespace Position

instance : LE Position where
  le first second :=
    first.line < second.line ∨ first.line = second.line ∧ first.column ≤ second.column

instance : LT Position where
  lt first second :=
    first.line < second.line ∨ first.line = second.line ∧ first.column < second.column

instance : DecidableLE Position := fun first second =>
  inferInstanceAs (Decidable
    (first.line < second.line ∨ first.line = second.line ∧ first.column ≤ second.column))

theorem le_def {first second : Position} : first ≤ second ↔
    first.line < second.line ∨ first.line = second.line ∧ first.column ≤ second.column := Iff.rfl

theorem lt_def {first second : Position} : first < second ↔
    first.line < second.line ∨ first.line = second.line ∧ first.column < second.column := Iff.rfl

instance : Std.IsLinearPreorder Position where
  le_refl place := by
    rw [le_def]
    omega
  le_trans first second third := by
    simp only [le_def]
    omega
  le_total first second := by
    simp only [le_def]
    omega

theorem not_le_of_lt {first second : Position} (h : first < second) : ¬ second ≤ first := by
  rw [le_def]
  rw [lt_def] at h
  omega

theorem le_of_lt {first second : Position} (h : first < second) : first ≤ second := by
  rw [le_def]
  rw [lt_def] at h
  omega

end Position

end RegisterMachine
