/-!
Finite tables from keys to values. A key occurs at most once: inserting replaces.
-/
namespace RegisterMachine

structure Table (α β : Type) where
  entries : List (α × β) := []

namespace Table

variable {α β : Type} [DecidableEq α]

def find? (table : Table α β) (key : α) : Option β :=
  (table.entries.find? (·.1 = key)).map Prod.snd

def contains (table : Table α β) (key : α) : Bool := (table.find? key).isSome

def erase (table : Table α β) (key : α) : Table α β :=
  ⟨table.entries.filter (·.1 ≠ key)⟩

def insert (table : Table α β) (key : α) (value : β) : Table α β :=
  ⟨(key, value) :: (table.erase key).entries⟩

@[simp] theorem find?_nil (key : α) : (⟨[]⟩ : Table α β).find? key = none := rfl

theorem find?_erase (table : Table α β) (key other : α) :
    (table.erase key).find? other = if other = key then none else table.find? other := by
  simp only [find?, erase, List.find?_filter]
  split
  case isTrue same =>
    subst same
    simp [List.find?_eq_none]
  case isFalse differ =>
    congr 2
    funext entry
    by_cases hit : entry.1 = other <;> simp [hit, differ]

theorem find?_insert (table : Table α β) (key other : α) (value : β) :
    (table.insert key value).find? other = if other = key then some value else table.find? other := by
  by_cases hit : other = key
  · subst hit
    simp [find?, insert]
  · have rest := find?_erase table key other
    simp only [hit, if_false] at rest ⊢
    rw [← rest]
    simp [find?, insert, Ne.symm hit]

theorem contains_iff {table : Table α β} {key : α} :
    table.contains key = true ↔ ∃ entry ∈ table.entries, entry.1 = key := by
  simp [contains, find?]

end Table

end RegisterMachine
