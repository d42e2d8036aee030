import RegisterMachine.Literal

/-!
Numbers written in decimal are read back: a natural number from its digits, an integer from its digits
with a sign, and a literal from the digits with the suffix of its type.
-/
namespace RegisterMachine

namespace Numeral

theorem isDigit_of_mem_decimalDigits {n : Nat} {c : Char} (h : c ∈ decimalDigits n) : c.isDigit :=
  Nat.isDigit_of_mem_toDigits (by decide) (by decide) h

theorem decimalDigits_ne_nil (n : Nat) : decimalDigits n ≠ [] := Nat.toDigits_ne_nil

theorem signedDigits_ne_nil (n : Int) : signedDigits n ≠ [] := by
  cases n with
  | ofNat n => exact decimalDigits_ne_nil n
  | negSucc n => exact List.cons_ne_nil _ _

@[simp] theorem natural?_decimalDigits (n : Nat) : natural? (decimalDigits n) = some n := by
  have hdigits : (decimalDigits n).all Char.isDigit = true :=
    List.all_eq_true.mpr fun _ => isDigit_of_mem_decimalDigits
  have hempty : (decimalDigits n).isEmpty = false :=
    List.isEmpty_eq_false_iff.mpr (decimalDigits_ne_nil n)
  unfold natural?
  rw [hempty, hdigits]
  exact congrArg some Nat.ofDigitChars_ten_toDigits

theorem decimal_injective {n m : Nat} (h : decimal n = decimal m) : n = m := by
  have hdigits := congrArg natural? (String.ofList_injective h)
  simpa using hdigits

theorem unsigned?_of_head {cs : List Char} (h : cs.head? ≠ some '+') : unsigned? cs = natural? cs := by
  unfold unsigned?
  split
  · exact absurd rfl h
  · rfl

theorem signed?_of_head {cs : List Char} (h : cs.head? ≠ some '-') :
    signed? cs = (unsigned? cs).map Int.ofNat := by
  unfold signed?
  split
  · exact absurd rfl h
  · rfl

theorem head?_decimalDigits_ne {n : Nat} {c : Char} (h : c.isDigit = false) :
    (decimalDigits n).head? ≠ some c := by
  intro hhead
  have hdigit := isDigit_of_mem_decimalDigits (List.mem_of_head? hhead)
  rw [h] at hdigit
  cases hdigit

@[simp] theorem unsigned?_decimalDigits (n : Nat) : unsigned? (decimalDigits n) = some n := by
  rw [unsigned?_of_head (head?_decimalDigits_ne (by decide)), natural?_decimalDigits]

@[simp] theorem signed?_signedDigits (n : Int) : signed? (signedDigits n) = some n := by
  cases n with
  | ofNat n =>
    rw [signedDigits, signed?_of_head (head?_decimalDigits_ne (by decide)), unsigned?_decimalDigits]
    rfl
  | negSucc n =>
    rw [signedDigits, signed?, natural?_decimalDigits]
    rfl

end Numeral

namespace Literal

/-- The suffix that is found is the one written, unless a `u` before it makes it another. -/
theorem find?_suffix {suffix : Suffix} {body : List Char} (h : body.getLast? ≠ some 'u') :
    Suffix.all.find? (·.chars.isSuffixOf (body ++ suffix.chars)) = some suffix := by
  have hlast : ['u'].isPrefixOf body.reverse = false := by
    rw [← List.head?_reverse] at h
    cases hreverse : body.reverse with
    | nil => rfl
    | cons c rest =>
      rw [hreverse] at h
      simpa [List.isPrefixOf] using fun heq : 'u' = c => h (heq ▸ rfl)
  cases suffix <;>
    simp [Suffix.all, Suffix.chars, List.find?, List.isSuffixOf, List.isPrefixOf, hlast]

theorem number?_append {suffix : Suffix} {body : List Char} (h : body.getLast? ≠ some 'u') :
    number? (body ++ suffix.chars) = suffix.read? body := by
  simp [number?, find?_suffix h]

def IsSignedDigit (c : Char) : Prop := c.isDigit = true ∨ c = '-'

theorem isSignedDigit_of_mem {n : Int} {c : Char} (h : c ∈ Numeral.signedDigits n) :
    IsSignedDigit c := by
  cases n with
  | ofNat n => exact .inl (Numeral.isDigit_of_mem_decimalDigits h)
  | negSucc n =>
    rcases List.mem_cons.mp h with rfl | h
    · exact .inr rfl
    · exact .inl (Numeral.isDigit_of_mem_decimalDigits h)

theorem IsSignedDigit.ne {c other : Char} (h : IsSignedDigit c)
    (hdigit : other.isDigit = false) (hsign : other ≠ '-') : c ≠ other := by
  rintro rfl
  rcases h with h | h
  · rw [hdigit] at h
    cases h
  · exact hsign h

theorem IsSignedDigit.toLower {c : Char} (h : IsSignedDigit c) : c.toLower = c := by
  rcases h with h | rfl
  · have hdigit : c.val ≤ '9'.val := by
      unfold Char.isDigit at h
      rw [Bool.and_eq_true] at h
      exact of_decide_eq_true h.2
    unfold Char.toLower
    refine dif_neg fun hupper => ?_
    exact absurd (UInt32.le_trans hupper.1 hdigit) (by decide)
  · rfl

theorem unquote?_of_head {cs : List Char} (h : cs.head? ≠ some '"') : unquote? cs = none := by
  unfold unquote?
  split
  · exact absurd rfl h
  · rfl

theorem parse_digits {body : List Char} {suffix : Suffix} {value : Literal}
    (hdigits : ∀ c ∈ body, IsSignedDigit c) (hread : suffix.read? body = some value) :
    parse (String.ofList (body ++ suffix.chars)) = .ok value := by
  have hlast : body.getLast? ≠ some 'u' := fun hlast =>
    (hdigits 'u' (List.mem_of_getLast? hlast)).ne (by decide) (by decide) rfl
  have hquote : (body ++ suffix.chars).head? ≠ some '"' := by
    cases body with
    | nil => cases suffix <;> decide
    | cons c rest =>
      intro hhead
      exact (hdigits c List.mem_cons_self).ne (by decide) (by decide) (Option.some.inj hhead)
  have hlower : (body ++ suffix.chars).map Char.toLower = body ++ suffix.chars := by
    have hbody : body.map Char.toLower = body := by
      rw [List.map_congr_left fun c hc => (hdigits c hc).toLower, List.map_id']
    have hsuffix : suffix.chars.map Char.toLower = suffix.chars := by
      cases suffix <;> decide
    rw [List.map_append, hbody, hsuffix]
  unfold parse
  rw [String.toList_ofList, unquote?_of_head hquote, hlower, number?_append hlast, hread]

end Literal

end RegisterMachine
