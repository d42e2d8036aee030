import RegisterMachine.Proofs.SourceText
import RegisterMachine.Proofs.StackEffect

/-!
Integers held as text. A text that is a numeral with blanks around it is read as its number, so an
integer that becomes text is still the integer, as a number and as a raw word.
-/
namespace RegisterMachine

namespace Text

def IsPadded (text : String) (cs : List Char) : Prop :=
  ∃ before after : List Char, text.toList = before ++ (cs ++ after) ∧
    (∀ c ∈ before, isBlank c = true) ∧ ∀ c ∈ after, isBlank c = true

theorem isPadded_ofList (cs : List Char) : IsPadded (String.ofList cs) cs :=
  ⟨[], [], by simp, by simp, by simp⟩

theorem dropWhile_isBlank {before cs : List Char} (hbefore : ∀ c ∈ before, isBlank c = true)
    (hcs : ∀ c ∈ cs.head?, isBlank c = false) : (before ++ cs).dropWhile isBlank = cs := by
  rw [List.dropWhile_append_of_pos hbefore]
  cases cs with
  | nil => rfl
  | cons c rest => exact List.dropWhile_cons_of_neg (by simp [hcs c rfl])

theorem trim_of_isPadded {text : String} {cs : List Char} (h : IsPadded text cs) (hne : cs ≠ [])
    (hcs : ∀ c ∈ cs, isBlank c = false) : trim text.toList = cs := by
  obtain ⟨before, after, htext, hbefore, hafter⟩ := h
  have hfront : ∀ c ∈ (cs ++ after).head?, isBlank c = false := by
    intro c hc
    rw [List.head?_append, List.head?_eq_some_head hne] at hc
    exact hcs c (List.mem_of_head? ((List.head?_eq_some_head hne).trans hc))
  have hback : ∀ c ∈ cs.reverse.head?, isBlank c = false := by
    intro c hc
    exact hcs c (List.mem_reverse.mp (List.mem_of_head? hc))
  rw [trim, htext, dropWhile_isBlank hbefore hfront, List.reverse_append,
    dropWhile_isBlank (by simpa using hafter) hback, List.reverse_reverse]

end Text

theorem Numeral.Spelled.trim_eq {signed : Bool} {cs : List Char} {n : Int} (h : Spelled signed cs n)
    {text : String} (hpadded : Text.IsPadded text cs) : Text.trim text.toList = cs := by
  refine Text.trim_of_isPadded hpadded h.nonempty fun c hc => ?_
  rcases h.chars c hc with hdigit | rfl | rfl
  · exact (Assembly.isPlain_of_isSignedDigit (.inl hdigit)).noBlank
  · decide
  · decide

namespace Value

open Literal (IntegerType)

variable {text : String} {cs : List Char} {n : Int}

theorem asInt_of_spelled (hpadded : Text.IsPadded text cs) (hspelled : Numeral.Spelled true cs n)
    (hrange : IntegerType.long.InRange n) : (Value.text text).asInt = .ok (.ofInt n) := by
  have hread : Numeral.integer? 8 cs = some n :=
    Numeral.integer?_eq_some_iff.mpr ⟨hspelled, hrange⟩
  rw [asInt, hspelled.trim_eq hpadded, hread]

theorem asWord_of_spelled (hpadded : Text.IsPadded text cs) (hspelled : Numeral.Spelled false cs n)
    (hrange : IntegerType.ulong.InRange n) : (Value.text text).asWord = .ok (.ofNat n.toNat) := by
  have hread : Numeral.word? 8 cs = some n.toNat := by
    rw [Numeral.word?_eq_some_iff, Int.toNat_of_nonneg hrange.1]
    exact ⟨hspelled, (Int.toNat_lt hrange.1).mpr hrange.2⟩
  rw [asWord, hspelled.trim_eq hpadded, hread]

theorem asWord_of_negative (hpadded : Text.IsPadded text cs) (hspelled : Numeral.Spelled true cs n)
    (hnegative : n < 0) : (Value.text text).asWord = (Value.text text).asInt.map Int64.toUInt64 := by
  have hread : Numeral.word? 8 cs = none := by
    rw [Option.eq_none_iff_forall_ne_some]
    intro word hword
    have hunsigned := (Numeral.word?_eq_some_iff.mp hword).1
    have hvalue : (word : Int) = n := hunsigned.of_unsigned.unique hspelled
    omega
  rw [asWord, hspelled.trim_eq hpadded, hread]

theorem asInt_of_digits {value : Int64}
    (h : Text.IsPadded text (Numeral.signedDigits value.toInt)) :
    (Value.text text).asInt = .ok value := by
  have hspelled : Numeral.Spelled true (Numeral.signedDigits value.toInt) value.toInt :=
    Numeral.spelled_signedDigits (.inl rfl)
  rw [asInt_of_spelled h hspelled ⟨value.le_toInt, value.toInt_lt⟩, Int64.ofInt_toInt]

theorem asWord_of_digits {value : Int64}
    (h : Text.IsPadded text (Numeral.signedDigits value.toInt)) :
    (Value.text text).asWord = .ok value.toUInt64 := by
  -- From zero on the digits are those of the word; below zero the word has the bits of the integer.
  by_cases hsign : 0 ≤ value.toInt
  · have hlt : value.toInt < 9223372036854775808 := value.toInt_lt
    have hword : UInt64.ofNat value.toInt.toNat = value.toUInt64 := by
      rw [← UInt64.ofNat_toNat (x := value.toUInt64)]
      exact congrArg UInt64.ofNat
        (Int64.toNat_toUInt64_of_le (Int64.le_iff_toInt_le.mpr hsign)).symm
    rw [asWord_of_spelled h (Numeral.spelled_signedDigits (.inr hsign)) ⟨hsign, by omega⟩, hword]
  · have hspelled : Numeral.Spelled true (Numeral.signedDigits value.toInt) value.toInt :=
      Numeral.spelled_signedDigits (.inl rfl)
    rw [asWord_of_negative h hspelled (by omega), asInt_of_digits h]
    rfl

theorem asWord_of_decimalDigits {word : UInt64}
    (h : Text.IsPadded text (Numeral.decimalDigits word.toNat)) :
    (Value.text text).asWord = .ok word := by
  have hspelled : Numeral.Spelled false (Numeral.decimalDigits word.toNat) word.toNat :=
    Numeral.spelled_signedDigits (n := word.toNat) (.inr (by omega))
  have hlt := word.toNat_lt
  rw [asWord_of_spelled h hspelled ⟨by omega, by omega⟩]
  simp

end Value

namespace Stack

def PopsAlike (α : Type) [OfValue α] (value other : Value) : Prop :=
  ∀ (values : Array Value) (limit : Option Nat),
    popAs α ⟨values.push value, limit⟩ = popAs α ⟨values.push other, limit⟩

theorem popAs_push (α : Type) [OfValue α] (values : Array Value) (value : Value) (limit : Option Nat) :
    popAs α ⟨values.push value, limit⟩ = (ofValue value, ⟨values, limit⟩) := by
  rw [popAs, pop_push]

theorem popsAlike_of_ofValue {α : Type} [OfValue α] {value other : Value}
    (h : (ofValue value : Except Fault α) = ofValue other) : PopsAlike α value other := by
  intro values limit
  rw [popAs_push, popAs_push, h]

end Stack

/-- Integers survive as text. The digits of an integer, with blanks around them or not, are read as the
integer itself is, at every width, and a word is read from its digits. -/
theorem integers_survive_text :
    (∀ (value : Int64) (text : String), Text.IsPadded text (Numeral.signedDigits value.toInt) →
      (Value.text text).asInt = (Value.int value).asInt ∧
      (Value.text text).asWord = (Value.int value).asWord ∧
      Stack.PopsAlike Int64 (.text text) (.int value) ∧
      Stack.PopsAlike UInt64 (.text text) (.int value) ∧
      Stack.PopsAlike Int32 (.text text) (.int value) ∧
      Stack.PopsAlike UInt32 (.text text) (.int value) ∧
      Stack.PopsAlike UInt8 (.text text) (.int value)) ∧
    (∀ value : Int64,
      ((Value.int value).coerce .text >>= fun text => text.coerce .int) = .ok (.int value)) ∧
    ∀ (word : UInt64) (text : String), Text.IsPadded text (Numeral.decimalDigits word.toNat) →
      (Value.ofWord word).asWord = .ok word ∧ (Value.text text).asWord = .ok word := by
  refine ⟨fun value text htext => ?_, fun value => ?_, fun word text htext => ?_⟩
  · have hint : (Value.text text).asInt = (Value.int value).asInt := Value.asInt_of_digits htext
    have hword : (Value.text text).asWord = (Value.int value).asWord := Value.asWord_of_digits htext
    have hnarrow {α : Type} (narrow : Int64 → α) :
        (Value.text text).asInt.map narrow = (Value.int value).asInt.map narrow := by
      rw [hint]
    exact ⟨hint, hword, Stack.popsAlike_of_ofValue hint, Stack.popsAlike_of_ofValue hword,
      Stack.popsAlike_of_ofValue (hnarrow _), Stack.popsAlike_of_ofValue (hnarrow _),
      Stack.popsAlike_of_ofValue (hnarrow _)⟩
  · have hdigits := Value.asInt_of_digits (Text.isPadded_ofList (Numeral.signedDigits value.toInt))
    refine bind_eq_ok_iff.mpr ⟨.text (Numeral.signedDecimal value.toInt), rfl, ?_⟩
    rw [Value.coerce, Numeral.signedDecimal, hdigits]
    rfl
  · refine ⟨?_, Value.asWord_of_decimalDigits htext⟩
    simp [Value.ofWord, Value.asWord, Value.asInt, Except.map]

theorem integers_survive_text_extremes :
    (Value.text "\t-9223372036854775808 \u00a0").asWord = .ok 0x8000000000000000 ∧
    Stack.PopsAlike UInt8 (.text "\t-9223372036854775808 \u00a0") (.int Int64.minValue) ∧
    (Value.text "\n18446744073709551615").asWord = .ok 0xffffffffffffffff := by
  have hleast : Text.IsPadded "\t-9223372036854775808 \u00a0"
      (Numeral.signedDigits Int64.minValue.toInt) :=
    ⟨['\t'], [' ', '\u00a0'], by decide +kernel, List.all_eq_true.mp rfl, List.all_eq_true.mp rfl⟩
  have hgreatest : Text.IsPadded "\n18446744073709551615"
      (Numeral.decimalDigits (0xffffffffffffffff : UInt64).toNat) :=
    ⟨['\n'], [], by decide +kernel, List.all_eq_true.mp rfl, List.all_eq_true.mp rfl⟩
  obtain ⟨-, hword, -, -, -, -, hbyte⟩ := integers_survive_text.1 _ _ hleast
  exact ⟨hword, hbyte, (integers_survive_text.2.2 _ _ hgreatest).2⟩

end RegisterMachine
