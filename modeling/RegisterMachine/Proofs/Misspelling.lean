import Mathlib
import RegisterMachine.Proofs.Building
import RegisterMachine.Proofs.IntegerLiteral

/-!
Words that start with a letter, as mnemonics do. Those that are no mnemonic are not taken for data in
silence. Of all words with a letter in front, only the names of the infinities and of "not a number" are
read as literals.
-/
namespace RegisterMachine

namespace Literal

theorem isDigit_of_isAlpha {c : Char} (h : c.isAlpha = true) : c.isDigit = false := by
  simp only [Char.isAlpha, Char.isUpper, Char.isLower, Bool.or_eq_true, Bool.and_eq_true,
    decide_eq_true_eq, ge_iff_le, UInt32.le_iff_toNat_le] at h
  simp only [Char.isDigit, Bool.and_eq_false_iff, decide_eq_false_iff_not, ge_iff_le,
    UInt32.le_iff_toNat_le]
  change (65 ≤ c.toNat ∧ c.toNat ≤ 90) ∨ (97 ≤ c.toNat ∧ c.toNat ≤ 122) at h
  change ¬ 48 ≤ c.toNat ∨ ¬ c.toNat ≤ 57
  omega

theorem ne_of_isAlpha {c other : Char} (h : c.isAlpha = true) (hother : other.isAlpha = false) :
    c ≠ other := by
  rintro rfl
  rw [h] at hother
  cases hother

end Literal

namespace Binary

def wordsOfData : List (List Char) := ["inf".toList, "infinity".toList, "nan".toList]

variable {c : Char} {rest : List Char}

theorem fixedPoint?_of_letter (h : c.isAlpha = true) : fixedPoint? (c :: rest) = none := by
  have hdigit := Literal.isDigit_of_isAlpha h
  have hpoint : c ≠ '.' := Literal.ne_of_isAlpha h (by decide)
  simp [fixedPoint?, hdigit, hpoint, Numeral.natural?]

theorem Format.isSome_readMagnitude?_of_letter (format : Format) (h : c.isAlpha = true) :
    (format.readMagnitude? (c :: rest)).isSome = true ↔ c :: rest ∈ wordsOfData := by
  have hfixed : fixedPoint? (c :: rest) = none := fixedPoint?_of_letter h
  generalize c :: rest = cs at hfixed ⊢
  rw [readMagnitude?, hfixed, wordsOfData]
  by_cases hinfinity : cs = "inf".toList ∨ cs = "infinity".toList
  · rw [if_pos hinfinity]
    rcases hinfinity with rfl | rfl <;> simp
  · rw [if_neg hinfinity]
    by_cases hnan : cs = "nan".toList
    · simp [hnan]
    · rw [if_neg hnan]
      simp_all

theorem Format.isSome_read?_of_letter (format : Format) (h : c.isAlpha = true) :
    (format.read? (c :: rest)).isSome = true ↔ (c :: rest).map Char.toLower ∈ wordsOfData := by
  have hlower : c.toLower.isAlpha = true := by rwa [Char.isAlpha_toLower_eq_isAlpha]
  rw [read?, List.map_cons]
  split
  · rename_i heq
    exact absurd (List.cons.inj heq).1 (Literal.ne_of_isAlpha hlower (by decide))
  · rename_i heq
    exact absurd (List.cons.inj heq).1 (Literal.ne_of_isAlpha hlower (by decide))
  · exact format.isSome_readMagnitude?_of_letter hlower

end Binary

namespace Literal

/-- The name of an infinity or of "not a number", with the suffix of a type that has these. The case of
letters does not matter. -/
def IsNumberWord (token : String) : Prop :=
  ∃ word ∈ Binary.wordsOfData, ∃ suffix ∈ [Suffix.single, Suffix.double],
    token.toList.map Char.toLower = word ++ suffix.chars

instance (token : String) : Decidable (IsNumberWord token) :=
  inferInstanceAs (Decidable (∃ word ∈ Binary.wordsOfData, ∃ suffix ∈ [Suffix.single, Suffix.double],
    token.toList.map Char.toLower = word ++ suffix.chars))

theorem Suffix.read?_nil (suffix : Suffix) : suffix.read? [] = none := by
  cases suffix <;> decide

theorem IntegerType.not_isSome_read?_of_letter (type : IntegerType) {c : Char} {rest : List Char}
    (h : c.isAlpha = true) : ¬ (type.suffix.read? (c :: rest)).isSome = true := by
  rw [Option.isSome_iff_exists]
  rintro ⟨value, hread⟩
  obtain ⟨n, hspelled, -, -⟩ := read?_suffix_eq_some_iff.mp hread
  rcases hspelled.chars c List.mem_cons_self with hdigit | hplus | hminus
  · rw [isDigit_of_isAlpha h] at hdigit
    cases hdigit
  · exact ne_of_isAlpha h (by decide) hplus
  · exact ne_of_isAlpha h (by decide) hminus

theorem Suffix.isSome_read?_of_letter {suffix : Suffix} {c : Char} {rest : List Char}
    (h : c.isAlpha = true) :
    (suffix.read? (c :: rest)).isSome = true ↔
      suffix ∈ [.single, .double] ∧ (c :: rest).map Char.toLower ∈ Binary.wordsOfData := by
  cases suffix with
  | single => simp [read?, Binary32.read?, Binary.Format.isSome_read?_of_letter _ h]
  | double => simp [read?, Binary64.read?, Binary.Format.isSome_read?_of_letter _ h]
  | ulong => exact iff_of_false (IntegerType.ulong.not_isSome_read?_of_letter h) (by simp)
  | uint => exact iff_of_false (IntegerType.uint.not_isSome_read?_of_letter h) (by simp)
  | int => exact iff_of_false (IntegerType.int.not_isSome_read?_of_letter h) (by simp)
  | long => exact iff_of_false (IntegerType.long.not_isSome_read?_of_letter h) (by simp)
  | byte => exact iff_of_false (IntegerType.byte.not_isSome_read?_of_letter h) (by simp)

theorem isSome_number?_of_letter {c : Char} {rest : List Char} (h : c.isAlpha = true) :
    (number? ((c :: rest).map Char.toLower)).isSome = true ↔
      ∃ word ∈ Binary.wordsOfData, ∃ suffix ∈ [Suffix.single, Suffix.double],
        (c :: rest).map Char.toLower = word ++ suffix.chars := by
  constructor
  · intro hsome
    obtain ⟨value, hvalue⟩ := Option.isSome_iff_exists.mp hsome
    obtain ⟨body, suffix, hbody, hread⟩ := exists_read?_of_number? hvalue
    -- The reader lowers the case once more, which changes nothing in a body that is lowered.
    obtain ⟨front, back, hsplit, rfl, -⟩ := List.map_eq_append_iff.mp hbody
    cases front with
    | nil =>
      rw [List.map_nil, suffix.read?_nil] at hread
      cases hread
    | cons first more =>
      obtain ⟨rfl, -⟩ := List.cons.inj hsplit
      have hletter : c.toLower.isAlpha = true := by rwa [Char.isAlpha_toLower_eq_isAlpha]
      have hlower : ((c :: more).map Char.toLower).map Char.toLower = (c :: more).map Char.toLower := by
        simp
      obtain ⟨hsuffix, hword⟩ :=
        (Suffix.isSome_read?_of_letter hletter).mp (Option.isSome_of_eq_some hread)
      exact ⟨_, hlower ▸ hword, suffix, hsuffix, hbody⟩
  · rintro ⟨word, hword, suffix, hsuffix, hsplit⟩
    have hlast : ∀ word ∈ Binary.wordsOfData, word.getLast? ≠ some 'u' := by decide
    have hread : ∀ word ∈ Binary.wordsOfData, ∀ suffix ∈ [Suffix.single, Suffix.double],
        (suffix.read? word).isSome = true := by decide
    rw [hsplit, number?_append (hlast word hword)]
    exact hread word hword suffix hsuffix

theorem parse_of_letter {token : String} {c : Char} {rest : List Char}
    (htoken : token.toList = c :: rest) (h : c.isAlpha = true) :
    (∃ value, parse token = .ok value) ↔ IsNumberWord token := by
  have hquote : (c :: rest).head? ≠ some '"' := fun hhead =>
    ne_of_isAlpha h (by decide) (Option.some.inj hhead)
  rw [IsNumberWord, parse, htoken, unquote?_of_head hquote, ← isSome_number?_of_letter h,
    Option.isSome_iff_exists]
  dsimp only
  cases number? ((c :: rest).map Char.toLower) <;> simp

end Literal

namespace Assembly

namespace Draft

variable {draft next : Draft} {token : Token} {directive : Directive} {owner : Position}

theorem pending_of_argument (h : draft.argument directive owner token = .ok next) :
    next.pending = none := by
  unfold argument at h
  split at h
  · cases h
  · split at h
    · cases h
      rfl
    · obtain ⟨value, -, hnext⟩ := bind_eq_ok_iff.mp h
      cases hnext
      rfl

theorem pending_of_item (h : draft.item token = .ok next) :
    next.pending = draft.pending ∨ ∃ directive : Directive,
      token.text = directive.name ∧ next.pending = some (directive, token.place) := by
  unfold item at h
  split at h
  · cases h
    exact .inl rfl
  split at h
  · unfold define at h
    split at h
    · cases h
    · cases h
      exact .inl rfl
  split at h
  · cases h
    exact .inr ⟨.addressOf, ‹_›, rfl⟩
  split at h
  · cases h
    exact .inr ⟨.inline, ‹_›, rfl⟩
  split at h
  · cases h
    exact .inl rfl
  · obtain ⟨value, -, hnext⟩ := bind_eq_ok_iff.mp h
    cases hnext
    exact .inl rfl

theorem text_of_accept (h : draft.accept token = .ok next)
    (hpending : next.pending = some (directive, owner)) : token.text = directive.name := by
  cases hbefore : draft.pending with
  | some waiting =>
    rw [accept_of_pending hbefore] at h
    rw [pending_of_argument h] at hpending
    cases hpending
  | none =>
    rw [accept_of_idle hbefore] at h
    rcases pending_of_item h with hsame | ⟨other, htext, hother⟩
    · rw [hsame, hbefore] at hpending
      cases hpending
    · rw [hother] at hpending
      cases hpending
      exact htext

theorem last_of_pending {tokens : List Token} (h : tokens.foldlM accept {} = .ok draft)
    (hpending : draft.pending = some (directive, owner)) :
    ∃ token ∈ tokens.getLast?, token.text = directive.name := by
  rcases List.eq_nil_or_concat tokens with rfl | ⟨before, token, rfl⟩
  · cases h
    cases hpending
  · rw [List.concat_eq_append, List.foldlM_append] at h
    obtain ⟨earlier, -, haccept⟩ := bind_eq_ok_iff.mp h
    rw [List.foldlM_cons] at haccept
    obtain ⟨last, hlast, hnext⟩ := bind_eq_ok_iff.mp haccept
    cases hnext
    exact ⟨token, by simp, text_of_accept hlast hpending⟩

theorem accept_of_no_literal (hbare : IsBare token.text)
    (hparse : ∀ value, Literal.parse token.text ≠ .ok value)
    (hpending : ∀ owner, draft.pending ≠ some (.addressOf, owner)) :
    draft.accept token = .error (.located token.place (.invalidLiteral token.text)) := by
  -- As an item and as the argument of `ref` the word is read as a literal.
  cases hbefore : draft.pending with
  | none =>
    rw [accept_of_idle hbefore, item_bare hbare, literalOf_of_no_parse hparse]
    rfl
  | some waiting =>
    obtain ⟨directive, owner⟩ := waiting
    cases directive with
    | addressOf => exact absurd hbefore (hpending owner)
    | inline =>
      have hargument : IsArgument token.text := by
        have hsign : token.text ≠ "&" := hbare.noDirective .addressOf
        simpa [IsArgument, hsign] using hbare.noSeparator
      rw [accept_of_pending hbefore, argument, if_neg hargument, literalOf_of_no_parse hparse]
      rfl

end Draft

theorem assemble_of_no_literal {source : String} {before after : List Token} {token : Token}
    (htokens : lexicon.tokenize source = .ok (before ++ token :: after)) (hbare : IsBare token.text)
    (hparse : ∀ value, Literal.parse token.text ≠ .ok value)
    (hlast : ∀ last ∈ before.getLast?, last.text ≠ "&") :
    ∃ fault, assemble source = .error fault ∧
      (fault = .located token.place (.invalidLiteral token.text) ∨
        before.foldlM Draft.accept {} = .error fault) := by
  rw [assemble_of_tokenize htokens, program, List.foldlM_append]
  cases hbefore : before.foldlM Draft.accept {} with
  | error fault => exact ⟨fault, rfl, .inr rfl⟩
  | ok draft =>
    have hpending : ∀ owner, draft.pending ≠ some (.addressOf, owner) := by
      intro owner hpending
      obtain ⟨last, hmem, htext⟩ := Draft.last_of_pending hbefore hpending
      exact hlast last hmem htext
    refine ⟨_, ?_, .inl rfl⟩
    change (((token :: after).foldlM Draft.accept draft >>= Draft.finish) >>= Builder.toImage) = _
    rw [List.foldlM_cons, Draft.accept_of_no_literal hbare hparse hpending]
    rfl

/-- A word that starts with a letter, as mnemonics do, and has no meaning but as a literal. -/
structure IsMisspelled (word : String) : Prop where
  letter : ∃ c ∈ word.toList.head?, c.isAlpha = true
  noMnemonic : ∀ instruction : Instruction, word ≠ instruction.mnemonic
  noDirective : word ≠ "ref"
  noLabel : word.toList.getLast? ≠ some ':'

theorem IsMisspelled.isBare {word : String} (h : IsMisspelled word) : IsBare word := by
  obtain ⟨c, hhead, hletter⟩ := h.letter
  have hsign : ∀ sign : String, sign.toList.head?.all (·.isAlpha) = false → word ≠ sign := by
    rintro sign hsign rfl
    rw [Option.mem_def.mp hhead] at hsign
    simp [hletter] at hsign
  refine ⟨?_, ?_, ?_, h.noMnemonic⟩
  · have hcomma := hsign "," (by decide)
    have hsemicolon := hsign ";" (by decide)
    simp [hcomma, hsemicolon]
  · rw [labelName?, if_neg (fun hlabel => h.noLabel hlabel.2.1)]
  · intro directive
    cases directive with
    | addressOf => exact hsign "&" (by decide)
    | inline => exact h.noDirective

/-- A misspelled mnemonic is never taken for data, unless it is a word of data with its suffix. It is no
literal, and so a source that has it anywhere but as the target of an address is not assembled. -/
theorem misspelled_mnemonic_rejected (word : String) (h : IsMisspelled word) :
    (Literal.parse word = .error (.invalidLiteral word) ↔ ¬ Literal.IsNumberWord word) ∧
    (¬ Literal.IsNumberWord word → ∀ (source : String) (before after : List Token) (token : Token),
      lexicon.tokenize source = .ok (before ++ token :: after) → token.text = word →
      (∀ last ∈ before.getLast?, last.text ≠ "&") →
      ∃ fault, assemble source = .error fault ∧
        (fault = .located token.place (.invalidLiteral word) ∨
          before.foldlM Draft.accept {} = .error fault)) := by
  obtain ⟨c, hhead, hletter⟩ := h.letter
  obtain ⟨rest, hword⟩ := List.head?_eq_some_iff.mp hhead
  have hliteral := Literal.parse_of_letter hword hletter
  refine ⟨?_, ?_⟩
  · rw [← hliteral, not_exists]
    exact parse_eq_error_iff
  · rintro hnumber source before after token htokens rfl hlast
    exact assemble_of_no_literal htokens h.isBare (not_exists.mp (mt hliteral.mp hnumber)) hlast

theorem misspelled_mnemonic_rejected_infinity :
    Literal.parse "inf" = .error (.invalidLiteral "inf") ∧
    ∃ fault, assemble "NOP ref inf" = .error fault ∧
      (fault = .located ⟨1, 9⟩ (.invalidLiteral "inf") ∨
        [⟨"NOP", 1, 1⟩, ⟨"ref", 1, 5⟩].foldlM Draft.accept {} = .error fault) := by
  have hmnemonic : ∀ instruction : Instruction, "inf" ≠ instruction.mnemonic := by
    intro instruction
    cases instruction <;> decide
  have hnumber : ¬ Literal.IsNumberWord "inf" := by decide
  obtain ⟨hparse, hassemble⟩ := misspelled_mnemonic_rejected "inf"
    ⟨⟨'i', rfl, by decide⟩, hmnemonic, by decide, by decide⟩
  exact ⟨hparse.mpr hnumber, hassemble hnumber "NOP ref inf" [⟨"NOP", 1, 1⟩, ⟨"ref", 1, 5⟩] []
    ⟨"inf", 1, 9⟩ (by decide) rfl (by decide)⟩

/-- The name of a logical operation is no mnemonic, and it is taken for data that is not a number. -/
theorem misspelled_mnemonic_assembles :
    IsMisspelled "NAND" ∧
    Literal.parse "NAND" = .ok (.double ⟨0x7ff8000000000000⟩) ∧
    lexicon.tokenize "NAND" = .ok [⟨"NAND", 1, 1⟩] ∧
    ∃ image, assemble "NAND" = .ok image := by
  have hmnemonic : ∀ instruction : Instruction, "NAND" ≠ instruction.mnemonic := by
    intro instruction
    cases instruction <;> decide
  exact ⟨⟨⟨'N', rfl, by decide⟩, hmnemonic, by decide, by decide⟩, by decide +kernel, by decide,
    ⟨_, rfl⟩⟩

end Assembly

end RegisterMachine
