import RegisterMachine.Proofs.Pieces

/-!
Sources put together from lines. A line end after a source that tokenizes leaves nothing open, so what
comes after it is tokenized as if it stood alone, only further down. The texts of tokens can be written
one on a line and are read back as they are: their escapes are replaced, and no new ones come about.
-/
namespace RegisterMachine

def Position.down (lines : Nat) (place : Position) : Position := ⟨place.line + lines, place.column⟩

def Token.down (lines : Nat) (token : Token) : Token :=
  { token with place := token.place.down lines }

theorem Position.after_line (first second : List Char) :
    Position.after (first ++ '\n' :: second) =
      (Position.after second).down (first.count '\n' + 1) := by
  have hcolumn : ((first ++ '\n' :: second).reverse.takeWhile (· ≠ '\n')).length =
      (second.reverse.takeWhile (· ≠ '\n')).length := by
    rw [List.reverse_append, List.reverse_cons, List.append_assoc, List.takeWhile_append]
    split
    · rename_i hall
      rw [hall]
      simp
    · rfl
  have hline : (first ++ '\n' :: second).count '\n' + 1 =
      second.count '\n' + 1 + (first.count '\n' + 1) := by
    rw [List.count_append, List.count_cons_self]
    omega
  rw [Position.after, hcolumn, hline]
  rfl

theorem Lexicon.SparesLineEnd.isGap {lexicon : Lexicon} (h : lexicon.SparesLineEnd) :
    Token.IsGap lexicon '\n' :=
  ⟨by decide, h.comment, h.symbols, by decide⟩

namespace Token

namespace Piece

variable {lexicon : Lexicon} {left right : List Piece}

theorem tokens_append (before : List Char) (left right : List Piece) :
    tokens before (left ++ right) =
      tokens before left ++ tokens (before ++ left.flatMap raw) right := by
  induction left generalizing before with
  | nil => simp [tokens]
  | cons piece left ih => simp [tokens, ih]

theorem tokens_after_line (first before : List Char) (pieces : List Piece) :
    tokens (first ++ '\n' :: before) pieces =
      (tokens before pieces).map (Token.down (first.count '\n' + 1)) := by
  induction pieces generalizing before with
  | nil => rfl
  | cons piece rest ih =>
    have hown : piece.token? (first ++ '\n' :: before) =
        (piece.token? before).map (Token.down (first.count '\n' + 1)) := by
      unfold token?
      rw [Position.after_line, Option.map_map]
      rfl
    have hrest := ih (before ++ piece.raw)
    rw [← List.cons_append, ← List.append_assoc] at hrest
    rw [tokens, tokens, hown, hrest, List.map_append, Option.toList_map]

theorem divided_line (hspares : lexicon.SparesLineEnd) (hleft : Divided lexicon left)
    (hclosed : ∀ chars, .unclosed chars ∉ left) (hright : Divided lexicon right) :
    Divided lexicon (left ++ .gap '\n' :: right) := by
  have hline : Divided lexicon (.gap '\n' :: right) :=
    divided_cons.mpr ⟨.gap hspares.isGap, fun _ _ => trivial, hright⟩
  refine divided_append.mpr ⟨hleft, hline, ?_⟩
  intro last hlast next hnext
  cases hnext
  apply meets_lineEnd
  intro chars hchars
  subst hchars
  exact hclosed chars (List.mem_of_getLast? hlast)

end Piece

open Piece

variable {lexicon : Lexicon} {first second : String}

theorem toList_line (first second : String) :
    (first ++ "\n" ++ second).toList = first.toList ++ '\n' :: second.toList := by
  simp

theorem tokenize_line (hspares : lexicon.SparesLineEnd) {tokens others : List Token}
    (hfirst : lexicon.tokenize first = .ok tokens) (hsecond : lexicon.tokenize second = .ok others) :
    lexicon.tokenize (first ++ "\n" ++ second) =
      .ok (tokens ++ others.map (Token.down (first.toList.count '\n' + 1))) := by
  obtain ⟨left, hleft, hleftClosed, hleftRaw, rfl⟩ := (tokenize_eq_ok_iff hspares).mp hfirst
  obtain ⟨right, hright, hrightClosed, hrightRaw, rfl⟩ := (tokenize_eq_ok_iff hspares).mp hsecond
  -- The line end is a piece of its own between the pieces of the two sources.
  refine (tokenize_eq_ok_iff hspares).mpr ⟨left ++ .gap '\n' :: right,
    divided_line hspares hleft hleftClosed hright, ?_, ?_, ?_⟩
  · intro chars hmem
    simp [hleftClosed, hrightClosed] at hmem
  · rw [toList_line, ← hleftRaw, ← hrightRaw]
    simp [raw]
  · rw [tokens_append, List.nil_append, hleftRaw, Piece.tokens, ← tokens_after_line]
    rfl

theorem tokenize_line_unclosed (hspares : lexicon.SparesLineEnd) {tokens : List Token} {fault : Fault}
    (hfirst : lexicon.tokenize first = .ok tokens)
    (hsecond : lexicon.tokenize second = .error fault) :
    ∃ place cause, fault = .located place cause ∧
      lexicon.tokenize (first ++ "\n" ++ second) =
        .error (.located (place.down (first.toList.count '\n' + 1)) cause) := by
  obtain ⟨left, hleft, hleftClosed, hleftRaw, -⟩ := (tokenize_eq_ok_iff hspares).mp hfirst
  obtain ⟨right, chars, hright, hrightRaw, rfl⟩ := (tokenize_eq_error_iff hspares).mp hsecond
  refine ⟨_, _, rfl, (tokenize_eq_error_iff hspares).mpr
    ⟨left ++ .gap '\n' :: right, chars, ?_, ?_, ?_⟩⟩
  · simpa using divided_line hspares hleft hleftClosed hright
  · rw [toList_line, ← hleftRaw, ← hrightRaw]
    simp [raw]
  · rw [List.flatMap_append, hleftRaw, ← Position.after_line]
    rfl

/-- Tokenizing goes line by line. After a source that tokenizes and a line end, a source has the tokens
that it has by itself, so many lines further down as stand before it, in the same columns; and it fails as
it does by itself, at a place that is further down likewise. -/
theorem tokenizing_goes_by_lines (lexicon : Lexicon) (hspares : lexicon.SparesLineEnd)
    (first second : String) (tokens : List Token) (hfirst : lexicon.tokenize first = .ok tokens) :
    (∀ others, lexicon.tokenize second = .ok others →
      lexicon.tokenize (first ++ "\n" ++ second) =
        .ok (tokens ++ others.map (Token.down (first.toList.count '\n' + 1)))) ∧
    ∀ fault, lexicon.tokenize second = .error fault →
      ∃ place cause, fault = .located place cause ∧
        lexicon.tokenize (first ++ "\n" ++ second) =
          .error (.located (place.down (first.toList.count '\n' + 1)) cause) :=
  ⟨fun _ => tokenize_line hspares hfirst, fun _ => tokenize_line_unclosed hspares hfirst⟩

theorem tokenizing_goes_by_lines_quoting :
    let lexicon : Lexicon := ⟨some ';', ['&']⟩
    lexicon.SparesLineEnd ∧
    lexicon.tokenize "\"a\nb\"c;\"" = .ok [⟨"\"a\nb\"", 1, 1⟩, ⟨"c", 2, 3⟩] ∧
    lexicon.tokenize "\"a\nb\"c;\"\nd\n &" =
      .ok [⟨"\"a\nb\"", 1, 1⟩, ⟨"c", 2, 3⟩, ⟨"d", 3, 1⟩, ⟨"&", 4, 2⟩] ∧
    lexicon.tokenize "\"a\nb\"c;\"\nd \"" = .error (.located ⟨3, 3⟩ .unterminatedText) := by
  intro lexicon
  have hspares : lexicon.SparesLineEnd := ⟨by decide, by decide⟩
  have hfirst : lexicon.tokenize "\"a\nb\"c;\"" = .ok [⟨"\"a\nb\"", 1, 1⟩, ⟨"c", 2, 3⟩] := by
    decide
  have hok := (tokenizing_goes_by_lines lexicon hspares _ "d\n &" _ hfirst).1
    [⟨"d", 1, 1⟩, ⟨"&", 2, 2⟩] (by decide)
  obtain ⟨place, cause, hfault, herror⟩ :=
    (tokenizing_goes_by_lines lexicon hspares _ "d \"" _ hfirst).2
      (.located ⟨1, 3⟩ .unterminatedText) (by decide)
  cases hfault
  exact ⟨hspares, hfirst, hok, herror⟩

theorem substituteAtOnce_cons {c : Char} {rest : List Char}
    (h : c = '\\' → rest.head? ≠ some 'n' ∧ rest.head? ≠ some 't') :
    substituteAtOnce (c :: rest) = c :: substituteAtOnce rest := by
  rw [substituteAtOnce.eq_def]
  split <;> simp_all

theorem head?_substituteAtOnce_ne {c : Char} {chars : List Char} (hline : c ≠ '\n') (htab : c ≠ '\t')
    (h : chars.head? ≠ some c) : (substituteAtOnce chars).head? ≠ some c := by
  rw [substituteAtOnce.eq_def]
  split
  · simpa using hline.symm
  · simpa using htab.symm
  · exact h
  · exact h

theorem substituteAtOnce_substituteAtOnce (chars : List Char) :
    substituteAtOnce (substituteAtOnce chars) = substituteAtOnce chars := by
  fun_induction substituteAtOnce chars with
  | case1 rest ih | case2 rest ih => rw [substituteAtOnce_cons (by simp), ih]
  | case3 c rest hn ht ih =>
    have hkept : c = '\\' → rest.head? ≠ some 'n' ∧ rest.head? ≠ some 't' := by
      intro hc
      simp only [ne_eq, List.head?_eq_some_iff, not_exists]
      exact ⟨fun more => hn more hc, fun more => ht more hc⟩
    rw [substituteAtOnce_cons, ih]
    -- A letter after this backslash would be new, and what is new is a line end or a tab.
    intro hc
    exact ⟨head?_substituteAtOnce_ne (by decide) (by decide) (hkept hc).1,
      head?_substituteAtOnce_ne (by decide) (by decide) (hkept hc).2⟩
  | case4 => rfl

theorem quote_notMem_substituteAtOnce {chars : List Char} (h : '"' ∉ chars) :
    '"' ∉ substituteAtOnce chars := by
  fun_induction substituteAtOnce chars with
  | case1 rest ih | case2 rest ih => simp_all
  | case3 c rest hn ht ih => simp_all
  | case4 => exact h

theorem substituteAtOnce_quoted (chars : List Char) :
    substituteAtOnce ('"' :: (chars ++ ['"'])) = '"' :: (substituteAtOnce chars ++ ['"']) := by
  rw [substituteAtOnce_cons (by simp)]
  congr 1
  fun_induction substituteAtOnce chars with
  | case1 rest ih | case2 rest ih =>
    rw [List.cons_append, List.cons_append, substituteAtOnce, ih]
    rfl
  | case3 c rest hn ht ih =>
    rw [List.cons_append, substituteAtOnce_cons, ih]
    · rfl
    · cases rest <;> simp_all
  | case4 => rfl

theorem Piece.Formed.exists_raw_eq_text {piece : Piece} (hformed : piece.Formed lexicon)
    {text : List Char} (htext : piece.text? = some text) :
    ∃ again : Piece, again.Formed lexicon ∧ (∀ chars, again ≠ .unclosed chars) ∧
      again.raw = text ∧ again.text? = some text := by
  cases hformed with
  | gap | comment | unclosed => cases htext
  | mark hmark =>
    cases htext
    exact ⟨_, .mark hmark, by simp, rfl, rfl⟩
  | word hne hplain =>
    cases htext
    exact ⟨_, .word hne hplain, by simp, rfl, rfl⟩
  | @quoted chars hopens hchars =>
    cases htext
    rw [substituteAtOnce_quoted]
    refine ⟨.quoted (substituteAtOnce chars),
      .quoted hopens (quote_notMem_substituteAtOnce hchars), by simp, rfl, ?_⟩
    rw [text?, substituteAtOnce_quoted, substituteAtOnce_substituteAtOnce]

theorem Piece.Formed.tokenize_text {piece : Piece} (hspares : lexicon.SparesLineEnd)
    (hformed : piece.Formed lexicon) {text : List Char} (htext : piece.text? = some text) :
    ∃ tokens, lexicon.tokenize (String.ofList text) = .ok tokens ∧
      tokens.map Token.text = [String.ofList text] := by
  obtain ⟨again, hagain, hclosed, hraw, hsame⟩ := hformed.exists_raw_eq_text htext
  have hdivided : Divided lexicon [again] := divided_cons.mpr ⟨hagain, by simp, divided_nil⟩
  refine ⟨_, hdivided.tokenize hspares (by simpa [eq_comm] using hclosed) (by simpa using hraw), ?_⟩
  simp [Piece.tokens, token?, hsame]

theorem tokenize_lines (hspares : lexicon.SparesLineEnd) {lines : List String}
    (h : ∀ line ∈ lines, ∃ tokens, lexicon.tokenize line = .ok tokens ∧
      tokens.map Token.text = [line]) :
    ∃ tokens, lexicon.tokenize ("\n".intercalate lines) = .ok tokens ∧
      tokens.map Token.text = lines := by
  induction lines with
  | nil => exact ⟨[], rfl, rfl⟩
  | cons first rest ih =>
    rw [List.forall_mem_cons] at h
    cases rest with
    | nil => simpa using h.1
    | cons second rest =>
      obtain ⟨tokens, hfirst, htokens⟩ := h.1
      obtain ⟨others, hothers, hrest⟩ := ih h.2
      rw [String.intercalate_cons_cons]
      refine ⟨_, tokenize_line hspares hfirst hothers, ?_⟩
      rw [List.map_append, List.map_map, htokens, ← hrest]
      rfl

/-- The texts of tokens are in normal form: written one on a line, they tokenize, to tokens with the same
texts. -/
theorem token_texts_tokenize_again (lexicon : Lexicon) (hspares : lexicon.SparesLineEnd)
    (source : String) (tokens : List Token) (h : lexicon.tokenize source = .ok tokens) :
    ∃ again, lexicon.tokenize ("\n".intercalate (tokens.map Token.text)) = .ok again ∧
      again.map Token.text = tokens.map Token.text := by
  obtain ⟨pieces, hdivided, -, -, rfl⟩ := (tokenize_eq_ok_iff hspares).mp h
  apply tokenize_lines hspares
  intro line hline
  obtain ⟨token, htoken, rfl⟩ := List.mem_map.mp hline
  obtain ⟨left, piece, right, rfl, hpiece⟩ := mem_tokens.mp htoken
  obtain ⟨text, htext, rfl⟩ := Option.map_eq_some_iff.mp hpiece
  exact (hdivided.formed piece (by simp)).tokenize_text hspares htext

theorem token_texts_tokenize_again_backslashes :
    let lexicon : Lexicon := ⟨some ';', ['&']⟩
    lexicon.SparesLineEnd ∧
    lexicon.tokenize "x\"\\\\n;\\\n\\\"&y;z" =
      .ok [⟨"x", 1, 1⟩, ⟨"\"\\\n;\\\n\\\"", 1, 2⟩, ⟨"&", 2, 3⟩, ⟨"y", 2, 4⟩] ∧
    ∃ again, lexicon.tokenize "x\n\"\\\n;\\\n\\\"\n&\ny" = .ok again ∧
      again.map Token.text = ["x", "\"\\\n;\\\n\\\"", "&", "y"] := by
  intro lexicon
  have hspares : lexicon.SparesLineEnd := ⟨by decide, by decide⟩
  have htokens : lexicon.tokenize "x\"\\\\n;\\\n\\\"&y;z" =
      .ok [⟨"x", 1, 1⟩, ⟨"\"\\\n;\\\n\\\"", 1, 2⟩, ⟨"&", 2, 3⟩, ⟨"y", 2, 4⟩] := by decide
  exact ⟨hspares, htokens, token_texts_tokenize_again lexicon hspares _ _ htokens⟩

end Token

end RegisterMachine
