import RegisterMachine.Token

/-!
What a scan makes of plain text, which is words, separators and symbols without quotes and comments. A
piece of plain text is read in the same way wherever a word may start, so that texts are put together
from pieces with a blank or a symbol between them.
-/
namespace RegisterMachine.Token

structure IsPlain (lexicon : Lexicon) (c : Char) : Prop where
  noQuote : c ≠ '"'
  noComment : lexicon.comment ≠ some c
  noSymbol : c ∉ lexicon.symbols
  noBlank : Text.isBlank c = false

structure IsGap (lexicon : Lexicon) (c : Char) : Prop where
  noQuote : c ≠ '"'
  noComment : lexicon.comment ≠ some c
  noSymbol : c ∉ lexicon.symbols
  blank : Text.isBlank c = true

structure IsMark (lexicon : Lexicon) (c : Char) : Prop where
  noQuote : c ≠ '"'
  noComment : lexicon.comment ≠ some c
  symbol : c ∈ lexicon.symbols

namespace Scan

variable {lexicon : Lexicon} {scan : Scan} {c : Char}

def closed (scan : Scan) : List Token := scan.close.tokens.toList

inductive InText (scan : Scan) : Prop
  | between (h : scan.mode = .between)
  | word {start : Position} {chars : List Char} (h : scan.mode = .word start chars)

@[simp] theorem mode_move (scan : Scan) (c : Char) : (scan.move c).mode = scan.mode := by
  unfold move
  split <;> rfl

@[simp] theorem tokens_move (scan : Scan) (c : Char) : (scan.move c).tokens = scan.tokens := by
  unfold move
  split <;> rfl

@[simp] theorem mode_close (scan : Scan) : scan.close.mode = .between := by
  unfold close
  split <;> rfl

theorem closed_of_between (h : scan.mode = .between) : scan.closed = scan.tokens.toList := by
  unfold closed close
  rw [h]

theorem closed_of_word {start : Position} {chars : List Char} (h : scan.mode = .word start chars) :
    scan.closed = scan.tokens.toList ++ [⟨String.ofList chars.reverse, start⟩] := by
  unfold closed close
  rw [h]
  simp [emit]

@[simp] theorem closed_close (scan : Scan) : scan.close.closed = scan.closed :=
  closed_of_between scan.mode_close

@[simp] theorem closed_move (scan : Scan) (c : Char) : (scan.move c).closed = scan.closed := by
  unfold closed close
  rw [mode_move]
  cases scan.mode <;> simp [emit]

theorem closed_emit (h : scan.mode = .between) (place : Position) (text : List Char) :
    (scan.emit place text).closed = scan.closed ++ [⟨String.ofList text, place⟩] := by
  have hmode : (scan.emit place text).mode = .between := h
  rw [closed_of_between hmode, closed_of_between h]
  simp [emit]

theorem finish_of_unquoted (h : ∀ start chars, scan.mode ≠ .quoted start chars) :
    scan.finish = .ok scan.closed := by
  unfold finish
  split
  · rename_i start chars hmode
    exact absurd hmode (h start chars)
  · rfl

theorem InText.advance (h : scan.InText) (hc : lexicon.comment ≠ some c) :
    scan.advance lexicon c = scan.advanceText lexicon c := by
  unfold Scan.advance
  cases h with
  | between h => rw [h]; exact if_neg hc
  | word h => rw [h]; exact if_neg hc

theorem InText.advance_gap (h : scan.InText) (hc : IsGap lexicon c) :
    (scan.advance lexicon c).mode = .between ∧ (scan.advance lexicon c).closed = scan.closed := by
  rw [h.advance hc.noComment, advanceText, if_neg hc.noQuote, if_neg hc.noSymbol, if_pos hc.blank]
  simp

theorem InText.advance_mark (h : scan.InText) (hc : IsMark lexicon c) :
    (scan.advance lexicon c).mode = .between ∧
      (scan.advance lexicon c).closed = scan.closed ++ [⟨String.ofList [c], scan.place c⟩] := by
  rw [h.advance hc.noComment, advanceText, if_neg hc.noQuote, if_pos hc.symbol]
  refine ⟨mode_close _, ?_⟩
  rw [closed_emit (mode_close _)]
  simp

theorem advance_word {start : Position} {chars : List Char} (h : scan.mode = .word start chars)
    (hc : IsPlain lexicon c) :
    (scan.advance lexicon c).mode = .word start (c :: chars) ∧
      (scan.advance lexicon c).tokens = scan.tokens := by
  rw [(InText.word h).advance hc.noComment, advanceText, if_neg hc.noQuote, if_neg hc.noSymbol,
    if_neg (by simp [hc.noBlank]), h]
  simp

theorem advance_between (h : scan.mode = .between) (hc : IsPlain lexicon c) :
    (scan.advance lexicon c).mode = .word (scan.place c) [c] ∧
      (scan.advance lexicon c).tokens = scan.tokens := by
  rw [(InText.between h).advance hc.noComment, advanceText, if_neg hc.noQuote, if_neg hc.noSymbol,
    if_neg (by simp [hc.noBlank]), h]
  simp

theorem foldl_advance_word {start : Position} {chars word : List Char}
    (h : scan.mode = .word start chars) (hword : ∀ c ∈ word, IsPlain lexicon c) :
    (word.foldl (Scan.advance lexicon) scan).mode = .word start (word.reverse ++ chars) ∧
      (word.foldl (Scan.advance lexicon) scan).tokens = scan.tokens := by
  induction word generalizing scan chars with
  | nil => exact ⟨h, rfl⟩
  | cons c rest ih =>
    rw [List.forall_mem_cons] at hword
    obtain ⟨hmode, htokens⟩ := advance_word h hword.1
    obtain ⟨hmode, hrest⟩ := ih hmode hword.2
    rw [List.foldl_cons, hmode, hrest, htokens]
    simp

end Scan

/-- Wherever a word may start, the characters are read as tokens with the given texts. -/
def Reads (lexicon : Lexicon) (chars : List Char) (texts : List String) : Prop :=
  ∀ scan : Scan, scan.mode = .between →
    (chars.foldl (Scan.advance lexicon) scan).InText ∧
      (chars.foldl (Scan.advance lexicon) scan).closed.map Token.text =
        scan.closed.map Token.text ++ texts

variable {lexicon : Lexicon}

theorem reads_nil : Reads lexicon [] [] := by
  intro scan h
  exact ⟨.between h, (List.append_nil _).symm⟩

theorem reads_word {word : List Char} (hne : word ≠ []) (hword : ∀ c ∈ word, IsPlain lexicon c) :
    Reads lexicon word [String.ofList word] := by
  intro scan h
  cases word with
  | nil => exact absurd rfl hne
  | cons c rest =>
    rw [List.forall_mem_cons] at hword
    obtain ⟨hmode, htokens⟩ := Scan.advance_between h hword.1
    obtain ⟨hword, hrest⟩ := Scan.foldl_advance_word hmode hword.2
    rw [List.foldl_cons]
    refine ⟨.word hword, ?_⟩
    rw [Scan.closed_of_word hword, Scan.closed_of_between h, hrest, htokens]
    simp

theorem Reads.gap {first second : List Char} {left right : List String}
    (hfirst : Reads lexicon first left) (hsecond : Reads lexicon second right) {c : Char}
    (hc : IsGap lexicon c) : Reads lexicon (first ++ c :: second) (left ++ right) := by
  intro scan h
  obtain ⟨htext, hleft⟩ := hfirst scan h
  obtain ⟨hbetween, hsame⟩ := htext.advance_gap hc
  obtain ⟨hend, hright⟩ := hsecond _ hbetween
  rw [List.foldl_append, List.foldl_cons]
  refine ⟨hend, ?_⟩
  rw [hright, hsame, hleft, List.append_assoc]

theorem Reads.mark {first second : List Char} {left right : List String}
    (hfirst : Reads lexicon first left) (hsecond : Reads lexicon second right) {c : Char}
    (hc : IsMark lexicon c) :
    Reads lexicon (first ++ c :: second) (left ++ String.ofList [c] :: right) := by
  intro scan h
  obtain ⟨htext, hleft⟩ := hfirst scan h
  obtain ⟨hbetween, hmark⟩ := htext.advance_mark hc
  obtain ⟨hend, hright⟩ := hsecond _ hbetween
  rw [List.foldl_append, List.foldl_cons]
  refine ⟨hend, ?_⟩
  rw [hright, hmark, List.map_append, hleft, List.append_assoc, List.append_assoc]
  rfl

theorem Reads.tokenize {source : String} {texts : List String}
    (h : Reads lexicon source.toList texts) :
    ∃ tokens, lexicon.tokenize source = .ok tokens ∧ tokens.map Token.text = texts := by
  obtain ⟨htext, htexts⟩ := h {} rfl
  refine ⟨_, Scan.finish_of_unquoted fun start chars hquoted => ?_, htexts⟩
  cases htext with
  | between hmode => rw [hmode] at hquoted; cases hquoted
  | word hmode => rw [hmode] at hquoted; cases hquoted

end RegisterMachine.Token
