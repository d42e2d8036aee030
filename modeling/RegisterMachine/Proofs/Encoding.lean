import RegisterMachine.Literal

/-!
The encoding of literals. A literal takes as many bytes as its size says, only text can be too long
to be encoded, and literals of one type with one encoding are equal.
-/
namespace RegisterMachine

theorem bind_eq_ok_iff {ε α β : Type} {first : Except ε α} {next : α → Except ε β} {b : β} :
    (first >>= next) = .ok b ↔ ∃ a, first = .ok a ∧ next a = .ok b := by
  constructor
  · intro h
    cases first with
    | error cause => cases h
    | ok a => exact ⟨a, rfl, h⟩
  · rintro ⟨a, rfl, h⟩
    exact h

namespace Literal

theorem size_pos (value : Literal) : 0 < value.size := by
  cases value with
  | text text => exact Nat.lt_add_right text.utf8ByteSize (by decide)
  | _ => simp only [size, Nat.zero_lt_succ]

theorem encode_text (text : String) :
    (Literal.text text).encode = if text.utf8ByteSize < Word.count 4 then
      .ok (Word.littleEndian 4 text.utf8ByteSize ++ text.toUTF8.data.toList)
    else .error (.textTooLong text.utf8ByteSize) := rfl

theorem encode_text_eq_ok {text : String} {bytes : List UInt8}
    (h : (Literal.text text).encode = .ok bytes) :
    bytes = Word.littleEndian 4 text.utf8ByteSize ++ text.toUTF8.data.toList := by
  rw [encode_text] at h
  split at h
  · cases h
    rfl
  · cases h

theorem length_of_encode {value : Literal} {bytes : List UInt8} (h : value.encode = .ok bytes) :
    bytes.length = value.size := by
  cases value with
  | text text =>
    rw [encode_text_eq_ok h, List.length_append, Word.length_littleEndian]
    rfl
  | _ =>
    cases h
    simp only [Word.length_littleEndian, List.length_singleton, size]

theorem exists_encode_iff (value : Literal) :
    (∃ bytes, value.encode = .ok bytes) ↔
      ∀ text, value = .text text → text.utf8ByteSize < Word.count 4 := by
  cases value with
  | text text => by_cases hfits : text.utf8ByteSize < Word.count 4 <;> simp [encode_text, hfits]
  | _ => simp [encode]

theorem eq_of_encode {value other : Literal} {bytes : List UInt8}
    (htype : value.ctorIdx = other.ctorIdx) (hvalue : value.encode = .ok bytes)
    (hother : other.encode = .ok bytes) : value = other := by
  have hsame := hvalue.trans hother.symm
  cases value <;> cases other <;> cases htype
  case byte.byte =>
    cases hsame
    rfl
  case short.short value other =>
    have hword := Word.littleEndian_inj value.toUInt16.toNat_lt other.toUInt16.toNat_lt
      (Except.ok.inj hsame)
    exact congrArg (fun word : UInt16 => short word.toInt16) (UInt16.toNat_inj.mp hword)
  case int.int value other =>
    have hword := Word.littleEndian_inj value.toUInt32.toNat_lt other.toUInt32.toNat_lt
      (Except.ok.inj hsame)
    exact congrArg (fun word : UInt32 => int word.toInt32) (UInt32.toNat_inj.mp hword)
  case uint.uint value other =>
    have hword := Word.littleEndian_inj value.toNat_lt other.toNat_lt (Except.ok.inj hsame)
    exact congrArg uint (UInt32.toNat_inj.mp hword)
  case long.long value other =>
    have hword := Word.littleEndian_inj value.toUInt64.toNat_lt other.toUInt64.toNat_lt
      (Except.ok.inj hsame)
    exact congrArg (fun word : UInt64 => long word.toInt64) (UInt64.toNat_inj.mp hword)
  case ulong.ulong value other =>
    have hword := Word.littleEndian_inj value.toNat_lt other.toNat_lt (Except.ok.inj hsame)
    exact congrArg ulong (UInt64.toNat_inj.mp hword)
  case single.single value other =>
    have hword := Word.littleEndian_inj value.bits.toNat_lt other.bits.toNat_lt
      (Except.ok.inj hsame)
    exact congrArg (fun bits => single ⟨bits⟩) (UInt32.toNat_inj.mp hword)
  case double.double value other =>
    have hword := Word.littleEndian_inj value.bits.toNat_lt other.bits.toNat_lt
      (Except.ok.inj hsame)
    exact congrArg (fun bits => double ⟨bits⟩) (UInt64.toNat_inj.mp hword)
  case text.text text other =>
    have hbytes := (encode_text_eq_ok hvalue).symm.trans (encode_text_eq_ok hother)
    have htail := List.append_inj_right hbytes (by simp only [Word.length_littleEndian])
    exact congrArg Literal.text
      (String.toByteArray_inj.mp (ByteArray.ext (Array.toList_inj.mp htail)))

theorem eq_iff_encode {value other : Literal} (h : ∃ bytes, value.encode = .ok bytes) :
    value = other ↔ value.ctorIdx = other.ctorIdx ∧ value.encode = other.encode := by
  obtain ⟨bytes, hbytes⟩ := h
  constructor
  · rintro rfl
    exact ⟨rfl, rfl⟩
  · rintro ⟨htype, hencode⟩
    exact eq_of_encode htype hbytes (hencode.symm.trans hbytes)

end Literal

end RegisterMachine
