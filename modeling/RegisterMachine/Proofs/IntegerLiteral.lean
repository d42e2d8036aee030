import RegisterMachine.Proofs.Decimal

/-!
The spelling of integers. A numeral is a run of digits with or without a sign, a literal of an integer
type is a numeral with the suffix of the type, and it is read exactly if the number is one of the type.
-/
namespace RegisterMachine

namespace Numeral

structure IsDigits (cs : List Char) : Prop where
  nonempty : cs ≠ []
  digits : ∀ c ∈ cs, c.isDigit = true

/-- The integer that a numeral stands for. Only a numeral with a sign bit may have the minus sign. -/
inductive Spelled (signed : Bool) : List Char → Int → Prop
  | bare {digits : List Char} (h : IsDigits digits) :
      Spelled signed digits (Nat.ofDigitChars 10 digits 0)
  | plus {digits : List Char} (h : IsDigits digits) :
      Spelled signed ('+' :: digits) (Nat.ofDigitChars 10 digits 0)
  | minus {digits : List Char} (h : IsDigits digits) (hsigned : signed = true) :
      Spelled signed ('-' :: digits) (-(Nat.ofDigitChars 10 digits 0 : Int))

theorem natural?_eq_some_iff {cs : List Char} {n : Nat} :
    natural? cs = some n ↔ IsDigits cs ∧ Nat.ofDigitChars 10 cs 0 = n := by
  unfold natural?
  by_cases hdigits : IsDigits cs
  · have hall : cs.all Char.isDigit = true := List.all_eq_true.mpr hdigits.digits
    simp [hdigits, hdigits.nonempty, hall]
  · have hnot : (cs.isEmpty || !cs.all Char.isDigit) = true := by
      by_cases hempty : cs = []
      · simp [hempty]
      · have hsome : ¬ ∀ c ∈ cs, c.isDigit = true := fun hall => hdigits ⟨hempty, hall⟩
        simpa [hempty] using hsome
    simp [hnot, hdigits]

theorem IsDigits.head?_ne {cs : List Char} (h : IsDigits cs) {c : Char} (hc : c.isDigit = false) :
    cs.head? ≠ some c := by
  intro hhead
  rw [h.digits c (List.mem_of_head? hhead)] at hc
  cases hc

theorem unsigned?_eq_some_iff {cs : List Char} {n : Nat} :
    unsigned? cs = some n ↔ Spelled false cs n := by
  constructor
  · intro h
    unfold unsigned? at h
    split at h
    · obtain ⟨hdigits, rfl⟩ := natural?_eq_some_iff.mp h
      exact .plus hdigits
    · obtain ⟨hdigits, rfl⟩ := natural?_eq_some_iff.mp h
      exact .bare hdigits
  · intro h
    generalize hvalue : (n : Int) = value at h
    cases h with
    | bare hdigits =>
      rw [unsigned?_of_head (hdigits.head?_ne (by decide)), natural?_eq_some_iff]
      exact ⟨hdigits, by omega⟩
    | plus hdigits => exact natural?_eq_some_iff.mpr ⟨hdigits, by omega⟩
    | minus hdigits hsigned => cases hsigned

theorem Spelled.of_unsigned {cs : List Char} {n : Int} (h : Spelled false cs n) :
    Spelled true cs n := by
  cases h with
  | bare hdigits => exact .bare hdigits
  | plus hdigits => exact .plus hdigits
  | minus hdigits hsigned => cases hsigned

theorem signed?_minus (cs : List Char) :
    signed? ('-' :: cs) = (natural? cs).map fun n : Nat => -(n : Int) := by
  rw [signed?]
  cases natural? cs <;> rfl

theorem signed?_eq_some_iff {cs : List Char} {n : Int} :
    signed? cs = some n ↔ Spelled true cs n := by
  by_cases hminus : cs.head? = some '-'
  · obtain ⟨digits, rfl⟩ := List.head?_eq_some_iff.mp hminus
    rw [signed?_minus, Option.map_eq_some_iff]
    constructor
    · rintro ⟨value, hvalue, rfl⟩
      obtain ⟨hdigits, rfl⟩ := natural?_eq_some_iff.mp hvalue
      exact .minus hdigits rfl
    · intro h
      cases h with
      | bare hdigits => exact absurd rfl (hdigits.head?_ne (by decide))
      | minus hdigits => exact ⟨_, natural?_eq_some_iff.mpr ⟨hdigits, rfl⟩, rfl⟩
  · rw [signed?_of_head hminus, Option.map_eq_some_iff]
    constructor
    · rintro ⟨value, hvalue, rfl⟩
      exact (unsigned?_eq_some_iff.mp hvalue).of_unsigned
    · intro h
      cases h with
      | bare hdigits => exact ⟨_, unsigned?_eq_some_iff.mpr (.bare hdigits), rfl⟩
      | plus hdigits => exact ⟨_, unsigned?_eq_some_iff.mpr (.plus hdigits), rfl⟩
      | minus hdigits => exact absurd rfl hminus

theorem Spelled.unique {cs : List Char} {n m : Int} (hn : Spelled true cs n) (hm : Spelled true cs m) :
    n = m := by
  have hread := signed?_eq_some_iff.mpr hn
  rw [signed?_eq_some_iff.mpr hm] at hread
  exact (Option.some.inj hread).symm

theorem word?_eq_some_iff {width : Nat} {cs : List Char} {n : Nat} :
    word? width cs = some n ↔ Spelled false cs n ∧ n < Word.count width := by
  simp [word?, Option.filter_eq_some_iff, unsigned?_eq_some_iff]

theorem integer?_eq_some_iff {width : Nat} {cs : List Char} {n : Int} :
    integer? width cs = some n ↔
      Spelled true cs n ∧ -(Word.count width / 2 : Int) ≤ n ∧ n < Word.count width / 2 := by
  simp [integer?, Option.filter_eq_some_iff, signed?_eq_some_iff]

theorem Spelled.nonempty {signed : Bool} {cs : List Char} {n : Int} (h : Spelled signed cs n) :
    cs ≠ [] := by
  cases h with
  | bare hdigits => exact hdigits.nonempty
  | plus | minus => exact List.cons_ne_nil _ _

theorem Spelled.chars {signed : Bool} {cs : List Char} {n : Int} (h : Spelled signed cs n) :
    ∀ c ∈ cs, c.isDigit = true ∨ c = '+' ∨ c = '-' := by
  intro c hc
  cases h with
  | bare hdigits => exact .inl (hdigits.digits c hc)
  | plus hdigits | minus hdigits =>
    rcases List.mem_cons.mp hc with rfl | hc
    · simp
    · exact .inl (hdigits.digits c hc)

theorem spelled_signedDigits {signed : Bool} {n : Int} (h : signed = true ∨ 0 ≤ n) :
    Spelled signed (signedDigits n) n := by
  cases signed with
  | true => exact signed?_eq_some_iff.mp (signed?_signedDigits n)
  | false =>
    obtain ⟨value, rfl⟩ := Int.eq_ofNat_of_zero_le (h.resolve_left Bool.false_ne_true)
    exact unsigned?_eq_some_iff.mp (unsigned?_decimalDigits value)

end Numeral

namespace Literal

inductive IntegerType where
  | byte | uint | int | long | ulong
  deriving DecidableEq

namespace IntegerType

def suffix : IntegerType → Suffix
  | .byte => .byte
  | .uint => .uint
  | .int => .int
  | .long => .long
  | .ulong => .ulong

def signed : IntegerType → Bool
  | .int | .long => true
  | .byte | .uint | .ulong => false

def InRange : IntegerType → Int → Prop
  | .byte, n => 0 ≤ n ∧ n < 256
  | .uint, n => 0 ≤ n ∧ n < 4294967296
  | .int, n => -2147483648 ≤ n ∧ n < 2147483648
  | .long, n => -9223372036854775808 ≤ n ∧ n < 9223372036854775808
  | .ulong, n => 0 ≤ n ∧ n < 18446744073709551616

theorem InRange.signed_or_nonneg {type : IntegerType} {n : Int} (h : type.InRange n) :
    type.signed = true ∨ 0 ≤ n := by
  cases type with
  | byte | uint | ulong => exact .inr h.1
  | int | long => exact .inl rfl

def literal : IntegerType → Int → Literal
  | .byte, n => .byte (.ofNat n.toNat)
  | .uint, n => .uint (.ofNat n.toNat)
  | .int, n => .int (.ofInt n)
  | .long, n => .long (.ofInt n)
  | .ulong, n => .ulong (.ofNat n.toNat)

def Spells (type : IntegerType) (token : String) (n : Int) : Prop :=
  ∃ body, token.toList.map Char.toLower = body ++ type.suffix.chars ∧
    Numeral.Spelled type.signed body n

theorem map_word?_eq_some_iff {width : Nat} {bound : Int} (hbound : bound = Word.count width)
    {make : Nat → Literal} {body : List Char} {value : Literal} :
    (Numeral.word? width body).map make = some value ↔
      ∃ n : Int, Numeral.Spelled false body n ∧ (0 ≤ n ∧ n < bound) ∧ make n.toNat = value := by
  simp only [Option.map_eq_some_iff, Numeral.word?_eq_some_iff, hbound]
  constructor
  · rintro ⟨n, ⟨hspelled, hlt⟩, rfl⟩
    exact ⟨n, hspelled, ⟨by omega, by omega⟩, rfl⟩
  · rintro ⟨n, hspelled, ⟨hlow, hlt⟩, rfl⟩
    refine ⟨n.toNat, ⟨?_, by omega⟩, rfl⟩
    rwa [Int.toNat_of_nonneg hlow]

theorem map_integer?_eq_some_iff {width : Nat} {bound : Int}
    (hbound : bound = Word.count width / 2) {make : Int → Literal} {body : List Char}
    {value : Literal} :
    (Numeral.integer? width body).map make = some value ↔
      ∃ n : Int, Numeral.Spelled true body n ∧ (-bound ≤ n ∧ n < bound) ∧ make n = value := by
  simp only [Option.map_eq_some_iff, Numeral.integer?_eq_some_iff, hbound, and_assoc]

theorem read?_suffix_eq_some_iff {type : IntegerType} {body : List Char} {value : Literal} :
    type.suffix.read? body = some value ↔
      ∃ n, Numeral.Spelled type.signed body n ∧ type.InRange n ∧ type.literal n = value := by
  cases type with
  | byte | uint | ulong => exact map_word?_eq_some_iff (by decide)
  | int | long => exact map_integer?_eq_some_iff (by decide)

end IntegerType

def integer? : Literal → Option (IntegerType × Int)
  | .byte value => some (.byte, value.toNat)
  | .uint value => some (.uint, value.toNat)
  | .int value => some (.int, value.toInt)
  | .long value => some (.long, value.toInt)
  | .ulong value => some (.ulong, value.toNat)
  | .short _ | .single _ | .double _ | .text _ => none

theorem integer?_literal {type : IntegerType} {n : Int} (h : type.InRange n) :
    (type.literal n).integer? = some (type, n) := by
  cases type with
  | byte =>
    have hsize : n.toNat < UInt8.size := (Int.toNat_lt h.1).mpr h.2
    simp [IntegerType.literal, integer?, UInt8.toNat_ofNat_of_lt' hsize, Int.toNat_of_nonneg h.1]
  | uint =>
    have hsize : n.toNat < UInt32.size := (Int.toNat_lt h.1).mpr h.2
    simp [IntegerType.literal, integer?, UInt32.toNat_ofNat_of_lt' hsize, Int.toNat_of_nonneg h.1]
  | ulong =>
    have hsize : n.toNat < UInt64.size := (Int.toNat_lt h.1).mpr h.2
    simp [IntegerType.literal, integer?, UInt64.toNat_ofNat_of_lt' hsize, Int.toNat_of_nonneg h.1]
  | int => simp [IntegerType.literal, integer?, Int32.toInt_ofInt_of_le h.1 h.2]
  | long => simp [IntegerType.literal, integer?, Int64.toInt_ofInt_of_le h.1 h.2]

theorem literal_of_integer? {value : Literal} {type : IntegerType} {n : Int}
    (h : value.integer? = some (type, n)) : type.InRange n ∧ type.literal n = value := by
  cases value with
  | byte value =>
    cases h
    have hlt := value.toNat_lt
    exact ⟨⟨by omega, by omega⟩, by simp [IntegerType.literal]⟩
  | uint value =>
    cases h
    have hlt := value.toNat_lt
    exact ⟨⟨by omega, by omega⟩, by simp [IntegerType.literal]⟩
  | ulong value =>
    cases h
    have hlt := value.toNat_lt
    exact ⟨⟨by omega, by omega⟩, by simp [IntegerType.literal]⟩
  | int value =>
    cases h
    exact ⟨⟨value.le_toInt, value.toInt_lt⟩, by simp [IntegerType.literal]⟩
  | long value =>
    cases h
    exact ⟨⟨value.le_toInt, value.toInt_lt⟩, by simp [IntegerType.literal]⟩
  | _ => cases h

theorem suffix_of_read? {suffix : Suffix} {body : List Char} {value : Literal} {type : IntegerType}
    {n : Int} (hread : suffix.read? body = some value) (hvalue : value.integer? = some (type, n)) :
    suffix = type.suffix := by
  cases suffix <;> obtain ⟨_, -, rfl⟩ := Option.map_eq_some_iff.mp hread <;> cases hvalue <;> rfl

theorem exists_read?_of_number? {cs : List Char} {value : Literal} (h : number? cs = some value) :
    ∃ (body : List Char) (suffix : Suffix), cs = body ++ suffix.chars ∧
      suffix.read? body = some value := by
  obtain ⟨suffix, hfound, hread⟩ := Option.bind_eq_some_iff.mp h
  have hsuffix : suffix.chars.isSuffixOf cs = true := by simpa using List.find?_some hfound
  obtain ⟨body, rfl⟩ := List.isSuffixOf_iff_suffix.mp hsuffix
  rw [List.length_append, Nat.add_sub_cancel, List.take_left] at hread
  exact ⟨body, suffix, rfl, hread⟩

theorem number?_eq_some_iff {cs : List Char} {value : Literal} {type : IntegerType} {n : Int}
    (hvalue : value.integer? = some (type, n)) :
    number? cs = some value ↔
      ∃ body, cs = body ++ type.suffix.chars ∧ Numeral.Spelled type.signed body n := by
  obtain ⟨hrange, hliteral⟩ := literal_of_integer? hvalue
  constructor
  · intro h
    obtain ⟨body, suffix, rfl, hread⟩ := exists_read?_of_number? h
    obtain rfl := suffix_of_read? hread hvalue
    obtain ⟨m, hspelled, hm, rfl⟩ := IntegerType.read?_suffix_eq_some_iff.mp hread
    rw [integer?_literal hm] at hvalue
    cases hvalue
    exact ⟨body, rfl, hspelled⟩
  · rintro ⟨body, rfl, hspelled⟩
    have hlast : body.getLast? ≠ some 'u' := fun hlast =>
      absurd (hspelled.chars 'u' (List.mem_of_getLast? hlast)) (by decide)
    rw [number?_append hlast]
    exact IntegerType.read?_suffix_eq_some_iff.mpr ⟨n, hspelled, hrange, hliteral⟩

theorem unquote?_of_head_toLower {cs : List Char} (h : (cs.map Char.toLower).head? ≠ some '"') :
    unquote? cs = none := by
  apply unquote?_of_head
  intro hhead
  rw [List.head?_map, hhead] at h
  exact h (by decide)

theorem parse_eq_ok_iff {token : String} {value : Literal} {type : IntegerType} {n : Int}
    (hvalue : value.integer? = some (type, n)) : parse token = .ok value ↔ type.Spells token n := by
  constructor
  · intro h
    unfold parse at h
    split at h
    · cases h
      cases hvalue
    · split at h
      · cases h
        exact (number?_eq_some_iff hvalue).mp ‹_›
      · cases h
  · rintro ⟨body, hbody, hspelled⟩
    obtain ⟨c, rest, rfl⟩ := List.exists_cons_of_ne_nil hspelled.nonempty
    have hquote : (token.toList.map Char.toLower).head? ≠ some '"' := by
      rw [hbody]
      intro hhead
      obtain rfl : c = '"' := Option.some.inj hhead
      exact absurd (hspelled.chars _ List.mem_cons_self) (by decide)
    unfold parse
    rw [unquote?_of_head_toLower hquote, (number?_eq_some_iff hvalue).mpr ⟨_, hbody, hspelled⟩]

theorem render_eq {value : Literal} {type : IntegerType} {n : Int}
    (h : value.integer? = some (type, n)) :
    value.render = String.ofList (Numeral.signedDigits n ++ type.suffix.chars) := by
  cases value <;> cases h <;> rw [String.ofList_append] <;> rfl

theorem parse_render {value : Literal} {type : IntegerType} {n : Int}
    (h : value.integer? = some (type, n)) : parse value.render = .ok value := by
  obtain ⟨hrange, hliteral⟩ := literal_of_integer? h
  have hspelled := Numeral.spelled_signedDigits hrange.signed_or_nonneg
  rw [render_eq h]
  exact parse_digits (fun c hc => isSignedDigit_of_mem hc)
    (IntegerType.read?_suffix_eq_some_iff.mpr ⟨n, hspelled, hrange, hliteral⟩)

end Literal

/-- A token is read as a literal of an integer type exactly if it is a numeral with the suffix of the
type, in capitals or not, and the number is one of the type. So every such literal is read back from its
text. -/
theorem integer_literals_by_grammar :
    (∀ (token : String) (type : Literal.IntegerType) (n : Int),
      (∃ value, Literal.parse token = .ok value ∧ value.integer? = some (type, n)) ↔
        type.Spells token n ∧ type.InRange n) ∧
    ∀ value : Literal, value.integer?.isSome → Literal.parse value.render = .ok value := by
  refine ⟨fun token type n => ?_, fun value hvalue => ?_⟩
  · constructor
    · rintro ⟨value, hparse, hvalue⟩
      exact ⟨(Literal.parse_eq_ok_iff hvalue).mp hparse, (Literal.literal_of_integer? hvalue).1⟩
    · rintro ⟨hspells, hrange⟩
      have hvalue := Literal.integer?_literal hrange
      exact ⟨type.literal n, (Literal.parse_eq_ok_iff hvalue).mpr hspells, hvalue⟩
  · obtain ⟨⟨type, n⟩, hvalue⟩ := Option.isSome_iff_exists.mp hvalue
    exact Literal.parse_render hvalue

theorem integer_literals_by_grammar_extremes :
    (∃ value, Literal.parse "+018446744073709551615uL" = .ok value ∧
      value.integer? = some (.ulong, 18446744073709551615)) ∧
    (Literal.int Int32.minValue).integer? = some (.int, -2147483648) ∧
    (Literal.int Int32.minValue).render = "-2147483648i" ∧
    Literal.parse "-2147483648i" = .ok (.int Int32.minValue) := by
  have hdigits : Numeral.IsDigits "018446744073709551615".toList :=
    ⟨by decide, List.all_eq_true.mp (by decide)⟩
  have hspells : Literal.IntegerType.ulong.Spells "+018446744073709551615uL" 18446744073709551615 :=
    ⟨_, by decide, .plus hdigits⟩
  have hleast : (Literal.int Int32.minValue).render = "-2147483648i" := by decide +kernel
  refine ⟨(integer_literals_by_grammar.1 _ _ _).mpr ⟨hspells, by decide, by decide⟩, rfl, hleast, ?_⟩
  rw [← hleast]
  exact integer_literals_by_grammar.2 (.int Int32.minValue) rfl

end RegisterMachine
