import Mathlib.Data.List.Chain
import RegisterMachine.Proofs.Lexing

/-!
The pieces of a source: blanks, symbols, words, quoted texts and comments, one after the other and
nothing between them. Every source divides into pieces, and a scan reads the tokens of these pieces in
order and at their places. So what is no token is blank or comment, and a source that does not tokenize
has quotes at its end that are not closed.
-/
namespace RegisterMachine

structure Lexicon.SparesLineEnd (lexicon : Lexicon) : Prop where
  comment : lexicon.comment ≠ some '\n'
  symbols : '\n' ∉ lexicon.symbols

def Position.after (before : List Char) : Position :=
  ⟨before.count '\n' + 1, (before.reverse.takeWhile (· ≠ '\n')).length + 1⟩

theorem Position.after_append (before : List Char) {more : List Char} (h : '\n' ∉ more) :
    Position.after (before ++ more) =
      ⟨(Position.after before).line, (Position.after before).column + more.length⟩ := by
  have hall : ∀ c ∈ more.reverse, decide (c ≠ '\n') = true := by
    intro c hc
    rw [decide_eq_true_iff]
    rintro rfl
    exact h (List.mem_reverse.mp hc)
  simp only [Position.after, List.count_append, List.count_eq_zero.mpr h, List.reverse_append,
    List.takeWhile_append_of_pos hall, List.length_append, List.length_reverse]
  congr 1
  omega

theorem Position.after_lt {before more : List Char} (h : more ≠ []) :
    Position.after before < Position.after (before ++ more) := by
  by_cases hline : '\n' ∈ more
  · have hcount : 0 < more.count '\n' := List.count_pos_iff.mpr hline
    simp only [Position.lt_def, Position.after, List.count_append]
    omega
  · have hpos := List.length_pos_iff.mpr h
    rw [Position.after_append before hline, Position.lt_def]
    exact .inr ⟨rfl, Nat.lt_add_of_pos_right hpos⟩

namespace Token

/-- Replaces a backslash with `n` after it by a line end and one with `t` after it by a tab, in one
pass. -/
def substituteAtOnce : List Char → List Char
  | '\\' :: 'n' :: rest => '\n' :: substituteAtOnce rest
  | '\\' :: 't' :: rest => '\t' :: substituteAtOnce rest
  | c :: rest => c :: substituteAtOnce rest
  | [] => []

theorem replaceEscape_cons {letter replacement c : Char} {rest : List Char}
    (h : ∀ more, c = '\\' → rest = letter :: more → False) :
    replaceEscape letter replacement (c :: rest) = c :: replaceEscape letter replacement rest := by
  rw [replaceEscape.eq_def]
  split
  · rename_i next more heq
    cases heq
    rw [if_neg]
    rintro rfl
    exact h more rfl rfl
  · rename_i other more _ heq
    cases heq
    rfl
  · rename_i heq
    cases heq

theorem head?_replaceEscape {letter replacement c : Char} {chars : List Char}
    (h : (replaceEscape letter replacement chars).head? = some c) :
    c = replacement ∨ chars.head? = some c := by
  rw [replaceEscape.eq_def] at h
  split at h
  · split at h
    · exact .inl (Option.some.inj h).symm
    · exact .inr h
  · exact .inr h
  · exact .inr h

/-- The first pass leaves no tab sign behind that was not there, so that two passes do what one does. -/
theorem substitute_eq_substituteAtOnce (chars : List Char) :
    substitute chars = substituteAtOnce chars := by
  unfold substitute
  fun_induction substituteAtOnce chars with
  | case1 rest ih =>
    have hn : replaceEscape 'n' '\n' ('\\' :: 'n' :: rest) = '\n' :: replaceEscape 'n' '\n' rest := rfl
    rw [hn, replaceEscape_cons (by simp), ih]
  | case2 rest ih =>
    have hn : replaceEscape 'n' '\n' ('\\' :: 't' :: rest) =
        '\\' :: 't' :: replaceEscape 'n' '\n' rest := by
      rw [replaceEscape_cons (by simp), replaceEscape_cons (by simp)]
    have ht (more : List Char) :
        replaceEscape 't' '\t' ('\\' :: 't' :: more) = '\t' :: replaceEscape 't' '\t' more := rfl
    rw [hn, ht, ih]
  | case3 c rest hn ht ih =>
    have hlater : ∀ more, c = '\\' → replaceEscape 'n' '\n' rest = 't' :: more → False := by
      intro more hc hmore
      have hhead : (replaceEscape 'n' '\n' rest).head? = some 't' := by rw [hmore]; rfl
      rcases head?_replaceEscape hhead with hnew | hold
      · cases hnew
      · obtain ⟨others, hothers⟩ := List.head?_eq_some_iff.mp hold
        exact ht others hc hothers
    rw [replaceEscape_cons hn, replaceEscape_cons hlater, ih]
  | case4 => rfl

inductive Piece where
  | gap (c : Char)
  | mark (c : Char)
  | word (chars : List Char)
  /-- Quotes with the given characters between them. -/
  | quoted (chars : List Char)
  | comment (chars : List Char)
  /-- A quote that is not closed, with all the characters after it. -/
  | unclosed (chars : List Char)

namespace Piece

def raw : Piece → List Char
  | .gap c | .mark c => [c]
  | .word chars | .comment chars => chars
  | .quoted chars => '"' :: (chars ++ ['"'])
  | .unclosed chars => '"' :: chars

def text? : Piece → Option (List Char)
  | .mark c => some [c]
  | .word chars => some chars
  | .quoted chars => some (substituteAtOnce ('"' :: (chars ++ ['"'])))
  | .gap _ | .comment _ | .unclosed _ => none

/-- What a piece consists of. A quote opens only where it does not start a comment. -/
inductive Formed (lexicon : Lexicon) : Piece → Prop
  | gap {c : Char} (h : IsGap lexicon c) : Formed lexicon (.gap c)
  | mark {c : Char} (h : IsMark lexicon c) : Formed lexicon (.mark c)
  | word {chars : List Char} (hne : chars ≠ []) (hplain : ∀ c ∈ chars, IsPlain lexicon c) :
      Formed lexicon (.word chars)
  | quoted {chars : List Char} (hopens : lexicon.comment ≠ some '"') (hchars : '"' ∉ chars) :
      Formed lexicon (.quoted chars)
  | comment {c : Char} {chars : List Char} (hc : lexicon.comment = some c) (hchars : '\n' ∉ chars) :
      Formed lexicon (.comment (c :: chars))
  | unclosed {chars : List Char} (hopens : lexicon.comment ≠ some '"') (hchars : '"' ∉ chars) :
      Formed lexicon (.unclosed chars)

/-- What may come right after a piece. A word does not go on in a second one, a comment goes on to the
end of its line, and quotes that are not closed go on to the end of the source. -/
def Meets : Piece → Piece → Prop
  | .word _, .word _ => False
  | .comment _, next => next = .gap '\n'
  | .unclosed _, _ => False
  | _, _ => True

structure Divided (lexicon : Lexicon) (pieces : List Piece) : Prop where
  formed : ∀ piece ∈ pieces, piece.Formed lexicon
  meets : pieces.IsChain Meets

def token? (before : List Char) (piece : Piece) : Option Token :=
  piece.text?.map fun text => ⟨String.ofList text, Position.after before⟩

def tokens (before : List Char) : List Piece → List Token
  | [] => []
  | piece :: rest => (piece.token? before).toList ++ tokens (before ++ piece.raw) rest

end Piece

namespace Scan

variable {lexicon : Lexicon} {scan : Scan} {before : List Char}

structure At (scan : Scan) (before : List Char) : Prop where
  line : scan.line = before.count '\n' + 1
  column : scan.column = (before.reverse.takeWhile (· ≠ '\n')).length

theorem At.place (h : scan.At before) {c : Char} (hc : c ≠ '\n') :
    scan.place c = Position.after before := by
  unfold Scan.place Position.after
  rw [if_neg hc, h.line, h.column]

theorem At.move (h : scan.At before) (c : Char) : (scan.move c).At (before ++ [c]) := by
  unfold Scan.move
  by_cases hc : c = '\n'
  · subst hc
    refine ⟨?_, ?_⟩ <;> simp [h.line]
  · refine ⟨?_, ?_⟩
    · simp [hc, h.line]
    · simp [hc, h.column]

@[simp] theorem line_close (scan : Scan) : scan.close.line = scan.line := by
  unfold close
  split <;> rfl

@[simp] theorem column_close (scan : Scan) : scan.close.column = scan.column := by
  unfold close
  split <;> rfl

theorem At.advanceText (h : scan.At before) (c : Char) :
    (scan.advanceText lexicon c).At (before ++ [c]) := by
  have hmove := h.move c
  unfold Scan.advanceText
  split
  · exact ⟨by simpa using hmove.line, by simpa using hmove.column⟩
  · split
    · exact ⟨by simpa [emit] using hmove.line, by simpa [emit] using hmove.column⟩
    · split
      · exact ⟨by simpa using hmove.line, by simpa using hmove.column⟩
      · split <;> exact ⟨hmove.line, hmove.column⟩

theorem At.advance (h : scan.At before) (c : Char) :
    (scan.advance lexicon c).At (before ++ [c]) := by
  have hmove := h.move c
  unfold Scan.advance
  split
  · unfold advanceQuoted
    split <;> exact ⟨hmove.line, hmove.column⟩
  · split
    · exact h.advanceText c
    · exact hmove
  · split
    · exact ⟨by simpa using hmove.line, by simpa using hmove.column⟩
    · exact h.advanceText c

theorem At.foldl (h : scan.At before) (chars : List Char) :
    (chars.foldl (Scan.advance lexicon) scan).At (before ++ chars) := by
  induction chars generalizing scan before with
  | nil => simpa using h
  | cons c rest ih => simpa using ih (h.advance c)

end Scan

namespace Piece

/-- A scan in this mode can take the piece as a piece of its own. -/
def TakenIn (piece : Piece) : Mode → Prop
  | .between => True
  | .word _ _ => ∀ chars, piece ≠ .word chars
  | .comment => piece = .gap '\n'
  | .quoted _ _ => False

variable {lexicon : Lexicon} {piece : Piece} {scan : Scan} {before : List Char}

theorem TakenIn.inText (h : piece.TakenIn scan.mode) (hpiece : piece ≠ .gap '\n') : scan.InText := by
  cases hmode : scan.mode with
  | between => exact .between hmode
  | word start chars => exact .word hmode
  | comment =>
    rw [hmode] at h
    exact absurd h hpiece
  | quoted start chars =>
    rw [hmode] at h
    exact h.elim

theorem TakenIn.between {chars : List Char} (h : (Piece.word chars).TakenIn scan.mode) :
    scan.mode = .between := by
  cases hmode : scan.mode with
  | between => rfl
  | word start others =>
    rw [hmode] at h
    exact absurd rfl (h chars)
  | comment =>
    rw [hmode] at h
    cases h
  | quoted start others =>
    rw [hmode] at h
    exact h.elim

end Piece

namespace Scan

variable {lexicon : Lexicon} {scan : Scan} {before : List Char}

theorem closed_of_comment (h : scan.mode = .comment) : scan.closed = scan.tokens.toList := by
  unfold closed close
  rw [h]

theorem advance_lineEnd (hspares : lexicon.SparesLineEnd) (h : scan.mode = .comment) :
    (scan.advance lexicon '\n').mode = .between ∧
      (scan.advance lexicon '\n').closed = scan.closed := by
  unfold advance
  rw [h]
  dsimp only
  rw [if_pos ⟨rfl, hspares.comment⟩, advanceText, if_neg (by decide), if_neg hspares.symbols,
    if_pos (by decide)]
  simp

theorem InText.advance_quote (h : scan.InText) (hopens : lexicon.comment ≠ some '"') :
    (scan.advance lexicon '"').mode = .quoted (scan.place '"') ['"'] ∧
      (scan.advance lexicon '"').tokens.toList = scan.closed := by
  rw [h.advance hopens, advanceText, if_pos rfl]
  refine ⟨rfl, ?_⟩
  rw [← closed_move scan '"']
  rfl

theorem InText.advance_comment (h : scan.InText) {c : Char} (hc : lexicon.comment = some c) :
    (scan.advance lexicon c).mode = .comment ∧
      (scan.advance lexicon c).tokens.toList = scan.closed := by
  have hadvance : scan.advance lexicon c = { (scan.move c).close with mode := .comment } := by
    unfold Scan.advance
    cases h with
    | between h => rw [h]; exact if_pos hc
    | word h => rw [h]; exact if_pos hc
  rw [hadvance, ← closed_move scan c]
  exact ⟨rfl, rfl⟩

theorem foldl_advance_quoted (lexicon : Lexicon) {start : Position} {read chars : List Char}
    (h : scan.mode = .quoted start read) (hchars : '"' ∉ chars) :
    (chars.foldl (Scan.advance lexicon) scan).mode = .quoted start (chars.reverse ++ read) ∧
      (chars.foldl (Scan.advance lexicon) scan).tokens = scan.tokens := by
  induction chars generalizing scan read with
  | nil => exact ⟨h, rfl⟩
  | cons c rest ih =>
    rw [List.mem_cons, not_or] at hchars
    have hadvance : scan.advance lexicon c =
        { scan.move c with mode := .quoted start (c :: read) } := by
      unfold Scan.advance
      rw [h]
      exact if_neg (Ne.symm hchars.1)
    have hmode : (scan.advance lexicon c).mode = .quoted start (c :: read) := by rw [hadvance]
    have htokens : (scan.advance lexicon c).tokens = scan.tokens := by
      rw [hadvance]
      exact tokens_move scan c
    obtain ⟨hlast, hsame⟩ := ih hmode hchars.2
    rw [List.foldl_cons, hlast, hsame, htokens]
    simp

theorem foldl_advance_comment (lexicon : Lexicon) {chars : List Char} (h : scan.mode = .comment)
    (hchars : '\n' ∉ chars) :
    (chars.foldl (Scan.advance lexicon) scan).mode = .comment ∧
      (chars.foldl (Scan.advance lexicon) scan).tokens = scan.tokens := by
  induction chars generalizing scan with
  | nil => exact ⟨h, rfl⟩
  | cons c rest ih =>
    rw [List.mem_cons, not_or] at hchars
    have hadvance : scan.advance lexicon c = scan.move c := by
      unfold Scan.advance
      rw [h]
      exact if_neg fun hline => hchars.1 hline.1.symm
    rw [List.foldl_cons, hadvance]
    have hmode : (scan.move c).mode = .comment := by rw [mode_move, h]
    obtain ⟨hlast, hsame⟩ := ih hmode hchars.2
    exact ⟨hlast, hsame.trans (tokens_move scan c)⟩

theorem advance_closingQuote (lexicon : Lexicon) {start : Position} {read : List Char}
    (h : scan.mode = .quoted start read) :
    (scan.advance lexicon '"').mode = .between ∧
      (scan.advance lexicon '"').closed =
        scan.tokens.toList ++ [⟨String.ofList (substitute ('"' :: read).reverse), start⟩] := by
  have hadvance : scan.advance lexicon '"' =
      { scan.move '"' with mode := .between }.emit start (substitute ('"' :: read).reverse) := by
    simp only [Scan.advance, h, advanceQuoted, if_true]
  rw [hadvance]
  refine ⟨rfl, ?_⟩
  rw [closed_of_between rfl]
  simp [emit]

end Scan

namespace Piece

variable {lexicon : Lexicon} {piece : Piece} {scan : Scan} {before : List Char}

/-- A scan that can take a piece reads its token, and can take after it what may come after it. -/
theorem Formed.scanned (hspares : lexicon.SparesLineEnd) (hformed : piece.Formed lexicon)
    (hclosed : ∀ chars, piece ≠ .unclosed chars) (hat : scan.At before)
    (htaken : piece.TakenIn scan.mode) :
    (piece.raw.foldl (Scan.advance lexicon) scan).closed =
        scan.closed ++ (piece.token? before).toList ∧
      ∀ next : Piece, piece.Meets next →
        next.TakenIn (piece.raw.foldl (Scan.advance lexicon) scan).mode := by
  cases hformed with
  | @gap c hc =>
    have hafter : (scan.advance lexicon c).mode = .between ∧
        (scan.advance lexicon c).closed = scan.closed := by
      cases hmode : scan.mode with
      | between => exact (Scan.InText.between hmode).advance_gap hc
      | word start chars => exact (Scan.InText.word hmode).advance_gap hc
      | comment =>
        rw [hmode] at htaken
        cases htaken
        exact Scan.advance_lineEnd hspares hmode
      | quoted start chars =>
        rw [hmode] at htaken
        exact htaken.elim
    refine ⟨hafter.2.trans (List.append_nil _).symm, fun next _ => ?_⟩
    change next.TakenIn (scan.advance lexicon c).mode
    rw [hafter.1]
    trivial
  | @mark c hc =>
    have htext := htaken.inText (by simp)
    have hline : c ≠ '\n' := by
      rintro rfl
      exact hspares.symbols hc.symbol
    obtain ⟨hmode, hafter⟩ := htext.advance_mark hc
    rw [hat.place hline] at hafter
    refine ⟨hafter, fun next _ => ?_⟩
    change next.TakenIn (scan.advance lexicon c).mode
    rw [hmode]
    trivial
  | @word chars hne hplain =>
    have hbetween := htaken.between
    cases chars with
    | nil => exact absurd rfl hne
    | cons c rest =>
      rw [List.forall_mem_cons] at hplain
      have hline : c ≠ '\n' := by
        rintro rfl
        exact absurd hplain.1.noBlank (by decide)
      obtain ⟨hmode, htokens⟩ := Scan.advance_between hbetween hplain.1
      rw [hat.place hline] at hmode
      obtain ⟨hword, hrest⟩ := Scan.foldl_advance_word hmode hplain.2
      refine ⟨?_, fun next hnext => ?_⟩
      · rw [raw, List.foldl_cons, Scan.closed_of_word hword, hrest, htokens,
          Scan.closed_of_between hbetween]
        simp [token?, text?]
      · rw [raw, List.foldl_cons, hword]
        rintro others rfl
        exact hnext
  | @quoted chars hopens hchars =>
    obtain ⟨hmode, htokens⟩ := (htaken.inText (by simp)).advance_quote hopens
    rw [hat.place (by decide)] at hmode
    obtain ⟨hquoted, hsame⟩ := Scan.foldl_advance_quoted lexicon hmode hchars
    obtain ⟨hlast, hafter⟩ := Scan.advance_closingQuote lexicon hquoted
    have hraw : (Piece.quoted chars).raw.foldl (Scan.advance lexicon) scan =
        (chars.foldl (Scan.advance lexicon) (scan.advance lexicon '"')).advance lexicon '"' := by
      rw [raw, List.foldl_cons, List.foldl_append]
      rfl
    rw [hraw, hlast, hafter, hsame, htokens, substitute_eq_substituteAtOnce]
    refine ⟨?_, fun _ _ => trivial⟩
    simp [token?, text?]
  | @comment c chars hc hchars =>
    obtain ⟨hmode, htokens⟩ := (htaken.inText (by simp)).advance_comment hc
    obtain ⟨hlast, hsame⟩ := Scan.foldl_advance_comment lexicon hmode hchars
    rw [raw, List.foldl_cons, Scan.closed_of_comment hlast, hlast, hsame, htokens]
    exact ⟨(List.append_nil _).symm, fun _ hnext => hnext⟩
  | unclosed => exact absurd rfl (hclosed _)

theorem meets_lineEnd (hclosed : ∀ chars, piece ≠ .unclosed chars) : piece.Meets (.gap '\n') := by
  cases piece with
  | unclosed chars => exact absurd rfl (hclosed chars)
  | comment => rfl
  | _ => trivial

theorem divided_nil : Divided lexicon [] := ⟨by simp, .nil⟩

theorem divided_cons {rest : List Piece} : Divided lexicon (piece :: rest) ↔
    piece.Formed lexicon ∧ (∀ next ∈ rest.head?, piece.Meets next) ∧ Divided lexicon rest := by
  constructor
  · rintro ⟨hformed, hmeets⟩
    rw [List.forall_mem_cons] at hformed
    rw [List.isChain_cons] at hmeets
    exact ⟨hformed.1, hmeets.1, hformed.2, hmeets.2⟩
  · rintro ⟨hfirst, hnext, hformed, hmeets⟩
    exact ⟨List.forall_mem_cons.mpr ⟨hfirst, hformed⟩, List.isChain_cons.mpr ⟨hnext, hmeets⟩⟩

theorem divided_append {left right : List Piece} : Divided lexicon (left ++ right) ↔
    Divided lexicon left ∧ Divided lexicon right ∧
      ∀ last ∈ left.getLast?, ∀ next ∈ right.head?, last.Meets next := by
  constructor
  · rintro ⟨hformed, hmeets⟩
    rw [List.forall_mem_append] at hformed
    rw [List.isChain_append] at hmeets
    exact ⟨⟨hformed.1, hmeets.1⟩, ⟨hformed.2, hmeets.2.1⟩, hmeets.2.2⟩
  · rintro ⟨hleft, hright, hmeets⟩
    exact ⟨List.forall_mem_append.mpr ⟨hleft.formed, hright.formed⟩,
      List.isChain_append.mpr ⟨hleft.meets, hright.meets, hmeets⟩⟩

theorem Divided.scanned (hspares : lexicon.SparesLineEnd) {pieces : List Piece}
    (hdivided : Divided lexicon pieces) (hclosed : ∀ chars, .unclosed chars ∉ pieces) {next : Piece}
    (hnext : ∀ last ∈ pieces.getLast?, last.Meets next) (hat : scan.At before)
    (htaken : (pieces.head?.getD next).TakenIn scan.mode) :
    ((pieces.flatMap raw).foldl (Scan.advance lexicon) scan).closed =
        scan.closed ++ tokens before pieces ∧
      next.TakenIn ((pieces.flatMap raw).foldl (Scan.advance lexicon) scan).mode := by
  induction pieces generalizing scan before with
  | nil => exact ⟨(List.append_nil _).symm, htaken⟩
  | cons piece rest ih =>
    obtain ⟨hformed, hmeets, hrest⟩ := divided_cons.mp hdivided
    have hown : ∀ chars, piece ≠ .unclosed chars := by
      rintro chars rfl
      exact hclosed chars List.mem_cons_self
    obtain ⟨hread, hafter⟩ := hformed.scanned hspares hown hat htaken
    have hlater : piece.Meets (rest.head?.getD next) := by
      cases rest with
      | nil => exact hnext piece rfl
      | cons second rest => exact hmeets second rfl
    have hlast : ∀ last ∈ rest.getLast?, last.Meets next := by
      intro last hlast
      refine hnext last ?_
      rw [List.getLast?_cons, Option.mem_def.mp hlast]
      rfl
    obtain ⟨htokens, hend⟩ := ih hrest (fun chars hmem => hclosed chars (List.mem_cons_of_mem _ hmem))
      hlast (hat.foldl piece.raw) (hafter _ hlater)
    rw [List.flatMap_cons, List.foldl_append, htokens, hread, List.append_assoc]
    exact ⟨rfl, hend⟩

theorem scanned_unclosed {chars : List Char} (hformed : (Piece.unclosed chars).Formed lexicon)
    (hat : scan.At before) (htaken : (Piece.unclosed chars).TakenIn scan.mode) :
    ∃ read, ((Piece.unclosed chars).raw.foldl (Scan.advance lexicon) scan).mode =
      .quoted (Position.after before) read := by
  cases hformed with
  | unclosed hopens hchars =>
    obtain ⟨hmode, -⟩ := (htaken.inText (by simp)).advance_quote hopens
    rw [hat.place (by decide)] at hmode
    exact ⟨_, (Scan.foldl_advance_quoted lexicon hmode hchars).1⟩

theorem Divided.of_unclosed {pieces : List Piece} (h : Divided lexicon pieces) {chars : List Char}
    (hmem : .unclosed chars ∈ pieces) : ∃ init, pieces = init ++ [.unclosed chars] := by
  obtain ⟨init, rest, rfl⟩ := List.append_of_mem hmem
  obtain ⟨-, hrest, -⟩ := divided_append.mp h
  cases rest with
  | nil => exact ⟨init, rfl⟩
  | cons next rest => exact ((divided_cons.mp hrest).2.1 next rfl).elim

theorem Divided.closed_init {pieces : List Piece} {last : Piece}
    (h : Divided lexicon (pieces ++ [last])) (chars : List Char) : .unclosed chars ∉ pieces := by
  intro hmem
  obtain ⟨hinit, -, hmeets⟩ := divided_append.mp h
  obtain ⟨init, rfl⟩ := hinit.of_unclosed hmem
  exact hmeets (.unclosed chars) (by simp) last rfl

theorem Divided.tokenize (hspares : lexicon.SparesLineEnd) {pieces : List Piece}
    (hdivided : Divided lexicon pieces) (hclosed : ∀ chars, .unclosed chars ∉ pieces) {source : String}
    (hsource : pieces.flatMap raw = source.toList) :
    lexicon.tokenize source = .ok (tokens [] pieces) := by
  have hlast : ∀ last ∈ pieces.getLast?, last.Meets (.gap '\n') := by
    intro last hlast
    apply meets_lineEnd
    rintro chars rfl
    exact hclosed chars (List.mem_of_getLast? hlast)
  have hstart : ({} : Scan).At [] := ⟨rfl, rfl⟩
  obtain ⟨htokens, hend⟩ := hdivided.scanned hspares hclosed hlast hstart trivial
  unfold Lexicon.tokenize
  rw [← hsource, Scan.finish_of_unquoted, htokens]
  · rfl
  · intro start chars hmode
    rw [hmode] at hend
    exact hend

theorem Divided.tokenize_unclosed (hspares : lexicon.SparesLineEnd) {pieces : List Piece}
    {chars : List Char} (hdivided : Divided lexicon (pieces ++ [.unclosed chars])) {source : String}
    (hsource : (pieces ++ [Piece.unclosed chars]).flatMap raw = source.toList) :
    lexicon.tokenize source =
      .error (.located (Position.after (pieces.flatMap raw)) .unterminatedText) := by
  obtain ⟨hinit, hunclosed, hmeets⟩ := divided_append.mp hdivided
  have hstart : ({} : Scan).At [] := ⟨rfl, rfl⟩
  obtain ⟨-, htaken⟩ := hinit.scanned hspares hdivided.closed_init
    (fun last hlast => hmeets last hlast _ rfl) hstart trivial
  obtain ⟨read, hmode⟩ :=
    scanned_unclosed (hunclosed.formed _ List.mem_cons_self) (hstart.foldl _) htaken
  unfold Lexicon.tokenize
  rw [← hsource, List.flatMap_append, List.foldl_append, List.flatMap_singleton]
  unfold Scan.finish
  rw [hmode]
  rfl

theorem Formed.raw_ne_nil (h : piece.Formed lexicon) : piece.raw ≠ [] := by
  cases h with
  | word hne _ => exact hne
  | _ => simp [raw]

theorem Formed.head_not_plain (h : piece.Formed lexicon) (hword : ∀ chars, piece ≠ .word chars)
    {c : Char} (hc : c ∈ piece.raw.head?) : ¬ IsPlain lexicon c := by
  intro hplain
  cases h with
  | gap hgap =>
    cases hc
    exact absurd (hgap.blank.symm.trans hplain.noBlank) (by decide)
  | mark hmark =>
    cases hc
    exact hplain.noSymbol hmark.symbol
  | word => exact hword _ rfl
  | quoted | unclosed =>
    cases hc
    exact hplain.noQuote rfl
  | comment hcomment =>
    cases hc
    exact hplain.noComment hcomment

theorem Formed.last_not_plain (h : piece.Formed lexicon) {chars : List Char}
    (hmeets : piece.Meets (.word chars)) {c : Char} (hc : c ∈ piece.raw.getLast?) :
    ¬ IsPlain lexicon c := by
  intro hplain
  cases h with
  | gap hgap =>
    cases hc
    exact absurd (hgap.blank.symm.trans hplain.noBlank) (by decide)
  | mark hmark =>
    cases hc
    exact hplain.noSymbol hmark.symbol
  | word => exact hmeets
  | quoted =>
    rw [raw, ← List.cons_append, List.getLast?_concat] at hc
    cases hc
    exact hplain.noQuote rfl
  | comment => cases hmeets
  | unclosed => exact hmeets

theorem exists_run (p : Char → Prop) (chars : List Char) :
    ∃ run rest, run ++ rest = chars ∧ (∀ c ∈ run, p c) ∧ ∀ c ∈ rest.head?, ¬ p c := by
  induction chars with
  | nil => exact ⟨[], [], rfl, by simp, by simp⟩
  | cons c rest ih =>
    by_cases hc : p c
    · obtain ⟨run, later, rfl, hrun, hlater⟩ := ih
      exact ⟨c :: run, later, rfl, List.forall_mem_cons.mpr ⟨hc, hrun⟩, hlater⟩
    · exact ⟨[], c :: rest, rfl, by simp, by simpa using hc⟩

theorem Formed.eq_lineEnd (h : piece.Formed lexicon) (hspares : lexicon.SparesLineEnd)
    (hhead : piece.raw.head? = some '\n') : piece = .gap '\n' := by
  cases h with
  | gap => rw [Option.some.inj hhead]
  | mark hmark => exact absurd (Option.some.inj hhead ▸ hmark.symbol) hspares.symbols
  | word hne hplain =>
    exact absurd (hplain _ (List.mem_of_head? hhead)).noBlank (by decide)
  | quoted | unclosed => cases hhead
  | comment hcomment => exact absurd (Option.some.inj hhead ▸ hcomment) hspares.comment

theorem exists_first (hspares : lexicon.SparesLineEnd) (c : Char) (rest : List Char) :
    ∃ (piece : Piece) (later : List Char), piece.Formed lexicon ∧ piece.raw ++ later = c :: rest ∧
      ∀ next : Piece, next.Formed lexicon → next.raw.head? = later.head? → piece.Meets next := by
  by_cases hcomment : lexicon.comment = some c
  · obtain ⟨line, later, rfl, hline, hlater⟩ := exists_run (· ≠ '\n') rest
    refine ⟨.comment (c :: line), later, .comment hcomment fun hmem => hline _ hmem rfl, rfl, ?_⟩
    intro next hnext hhead
    cases later with
    | nil => exact absurd (List.head?_eq_none_iff.mp hhead) hnext.raw_ne_nil
    | cons d later =>
      obtain rfl : d = '\n' := by simpa using hlater
      exact hnext.eq_lineEnd hspares hhead
  by_cases hquote : c = '"'
  · subst hquote
    obtain ⟨body, later, rfl, hbody, hlater⟩ := exists_run (· ≠ '"') rest
    have hbody : '"' ∉ body := fun hmem => hbody _ hmem rfl
    cases later with
    | nil =>
      refine ⟨.unclosed body, [], .unclosed hcomment hbody, rfl, fun next hnext hhead => ?_⟩
      exact absurd (List.head?_eq_none_iff.mp hhead) hnext.raw_ne_nil
    | cons d later =>
      obtain rfl : d = '"' := by simpa using hlater
      exact ⟨.quoted body, later, .quoted hcomment hbody, by simp [raw], fun _ _ _ => trivial⟩
  by_cases hsymbol : c ∈ lexicon.symbols
  · exact ⟨.mark c, rest, .mark ⟨hquote, hcomment, hsymbol⟩, rfl, fun _ _ _ => trivial⟩
  by_cases hblank : Text.isBlank c = true
  · exact ⟨.gap c, rest, .gap ⟨hquote, hcomment, hsymbol, hblank⟩, rfl, fun _ _ _ => trivial⟩
  -- What is left is a character of words. The word goes on as far as there are such characters.
  have hplain : IsPlain lexicon c := ⟨hquote, hcomment, hsymbol, by simpa using hblank⟩
  obtain ⟨word, later, rfl, hword, hlater⟩ := exists_run (IsPlain lexicon) rest
  have hchars := List.forall_mem_cons.mpr ⟨hplain, hword⟩
  refine ⟨.word (c :: word), later, .word (List.cons_ne_nil c word) hchars, rfl, ?_⟩
  intro next hnext hhead
  cases next with
  | word chars =>
    cases hnext with
    | word hne hchars =>
      rw [← hhead] at hlater
      cases chars with
      | nil => exact hne rfl
      | cons d chars => exact hlater d rfl (hchars d List.mem_cons_self)
  | _ => trivial

theorem exists_divided (hspares : lexicon.SparesLineEnd) (chars : List Char) :
    ∃ pieces, Divided lexicon pieces ∧ pieces.flatMap raw = chars := by
  -- By induction on the length: the first piece is not empty, so what comes after it is shorter.
  induction hlength : chars.length using Nat.strongRecOn generalizing chars with
  | ind length ih =>
    subst hlength
    cases chars with
    | nil => exact ⟨[], divided_nil, rfl⟩
    | cons c rest =>
      obtain ⟨piece, later, hformed, hraw, hnext⟩ := exists_first hspares c rest
      have hpos := List.length_pos_iff.mpr hformed.raw_ne_nil
      have hshorter : later.length < (c :: rest).length := by
        rw [← hraw, List.length_append]
        omega
      obtain ⟨pieces, hpieces, rfl⟩ := ih later.length hshorter later rfl
      refine ⟨piece :: pieces, divided_cons.mpr ⟨hformed, ?_, hpieces⟩, hraw⟩
      intro next hhead
      have hformed := hpieces.formed next (List.mem_of_head? hhead)
      refine hnext next hformed ?_
      obtain ⟨others, rfl⟩ := List.head?_eq_some_iff.mp hhead
      rw [List.flatMap_cons, List.head?_append_of_ne_nil _ hformed.raw_ne_nil]

theorem Divided.word_maximal {left right : List Piece} {chars : List Char}
    (h : Divided lexicon (left ++ .word chars :: right)) :
    (∀ c ∈ (left.flatMap raw).getLast?, ¬ IsPlain lexicon c) ∧
      ∀ c ∈ (right.flatMap raw).head?, ¬ IsPlain lexicon c := by
  obtain ⟨hleft, hright, hmeets⟩ := divided_append.mp h
  obtain ⟨-, hnext, hright⟩ := divided_cons.mp hright
  constructor
  · rcases List.eq_nil_or_concat left with rfl | ⟨init, last, rfl⟩
    · simp
    · have hformed := hleft.formed last (by simp)
      intro c hc
      rw [List.concat_eq_append, List.flatMap_append, List.flatMap_singleton,
        List.getLast?_append_of_ne_nil _ hformed.raw_ne_nil] at hc
      exact hformed.last_not_plain (hmeets last (by simp) _ rfl) hc
  · cases right with
    | nil => simp
    | cons next right =>
      have hformed := hright.formed next List.mem_cons_self
      intro c hc
      rw [List.flatMap_cons, List.head?_append_of_ne_nil _ hformed.raw_ne_nil] at hc
      refine hformed.head_not_plain ?_ hc
      rintro others rfl
      exact hnext _ rfl

theorem mem_tokens {pieces : List Piece} {token : Token} : token ∈ tokens before pieces ↔
    ∃ left piece right, pieces = left ++ piece :: right ∧
      piece.token? (before ++ left.flatMap raw) = some token := by
  induction pieces generalizing before with
  | nil => simp [tokens]
  | cons first rest ih =>
    rw [tokens, List.mem_append, Option.mem_toList, ih]
    constructor
    · rintro (hfirst | ⟨left, piece, right, rfl, htoken⟩)
      · exact ⟨[], first, rest, rfl, by simpa using hfirst⟩
      · exact ⟨first :: left, piece, right, rfl, by simpa using htoken⟩
    · rintro ⟨left, piece, right, hsplit, htoken⟩
      cases left with
      | nil =>
        cases hsplit
        exact .inl (by simpa using htoken)
      | cons head left =>
        cases hsplit
        exact .inr ⟨left, piece, right, rfl, by simpa using htoken⟩

theorem place_of_token? {token : Token} (h : piece.token? before = some token) :
    token.place = Position.after before := by
  obtain ⟨text, -, rfl⟩ := Option.map_eq_some_iff.mp h
  rfl

theorem pairwise_tokens {pieces : List Piece} (hformed : ∀ piece ∈ pieces, piece.Formed lexicon) :
    (tokens before pieces).Pairwise (·.place < ·.place) := by
  induction pieces generalizing before with
  | nil => exact .nil
  | cons first rest ih =>
    rw [List.forall_mem_cons] at hformed
    rw [tokens, List.pairwise_append]
    refine ⟨?_, ih hformed.2, ?_⟩
    · cases first.token? before <;> simp
    · intro token htoken later hlater
      obtain ⟨left, piece, right, -, hpiece⟩ := mem_tokens.mp hlater
      rw [place_of_token? (Option.mem_toList.mp htoken), place_of_token? hpiece, List.append_assoc]
      exact Position.after_lt (List.append_ne_nil_of_left_ne_nil hformed.1.raw_ne_nil _)

end Piece

open Piece

variable {lexicon : Lexicon} {source : String}

theorem tokenize_cases (hspares : lexicon.SparesLineEnd) (source : String) :
    (∃ pieces, Divided lexicon pieces ∧ (∀ chars, .unclosed chars ∉ pieces) ∧
      pieces.flatMap raw = source.toList ∧ lexicon.tokenize source = .ok (tokens [] pieces)) ∨
    ∃ pieces chars, Divided lexicon (pieces ++ [.unclosed chars]) ∧
      (pieces ++ [.unclosed chars]).flatMap raw = source.toList ∧
      lexicon.tokenize source =
        .error (.located (Position.after (pieces.flatMap raw)) .unterminatedText) := by
  obtain ⟨pieces, hdivided, hraw⟩ := exists_divided hspares source.toList
  by_cases hunclosed : ∃ chars, .unclosed chars ∈ pieces
  · obtain ⟨chars, hmem⟩ := hunclosed
    obtain ⟨init, rfl⟩ := hdivided.of_unclosed hmem
    exact .inr ⟨init, chars, hdivided, hraw, hdivided.tokenize_unclosed hspares hraw⟩
  · have hclosed := not_exists.mp hunclosed
    exact .inl ⟨pieces, hdivided, hclosed, hraw, hdivided.tokenize hspares hclosed hraw⟩

theorem tokenize_eq_ok_iff (hspares : lexicon.SparesLineEnd) {result : List Token} :
    lexicon.tokenize source = .ok result ↔
      ∃ pieces, Divided lexicon pieces ∧ (∀ chars, .unclosed chars ∉ pieces) ∧
        pieces.flatMap raw = source.toList ∧ tokens [] pieces = result := by
  constructor
  · intro h
    rcases tokenize_cases hspares source with
      ⟨pieces, hdivided, hclosed, hraw, hok⟩ | ⟨pieces, chars, -, -, herror⟩
    · exact ⟨pieces, hdivided, hclosed, hraw, Except.ok.inj (hok.symm.trans h)⟩
    · cases herror.symm.trans h
  · rintro ⟨pieces, hdivided, hclosed, hraw, rfl⟩
    exact hdivided.tokenize hspares hclosed hraw

theorem tokenize_eq_error_iff (hspares : lexicon.SparesLineEnd) {fault : Fault} :
    lexicon.tokenize source = .error fault ↔
      ∃ pieces chars, Divided lexicon (pieces ++ [.unclosed chars]) ∧
        (pieces ++ [.unclosed chars]).flatMap raw = source.toList ∧
        fault = .located (Position.after (pieces.flatMap raw)) .unterminatedText := by
  constructor
  · intro h
    rcases tokenize_cases hspares source with
      ⟨pieces, -, -, -, hok⟩ | ⟨pieces, chars, hdivided, hraw, herror⟩
    · cases hok.symm.trans h
    · exact ⟨pieces, chars, hdivided, hraw, Except.error.inj (h.symm.trans herror)⟩
  · rintro ⟨pieces, chars, hdivided, hraw, rfl⟩
    exact hdivided.tokenize_unclosed hspares hraw

theorem pairwise_tokenize (hspares : lexicon.SparesLineEnd) {result : List Token}
    (h : lexicon.tokenize source = .ok result) : result.Pairwise (·.place < ·.place) := by
  obtain ⟨pieces, hdivided, -, -, rfl⟩ := (tokenize_eq_ok_iff hspares).mp h
  exact pairwise_tokens hdivided.formed

/-- Nothing of a source is lost and nothing is made up. A source tokenizes exactly if it divides into
pieces that are all closed, and its tokens are those of the pieces, each at the place of its piece; these
places increase; a word goes as far as it can to both sides; and what does not tokenize ends in quotes
that are not closed, which the fault names the place of. -/
theorem tokenizing_loses_nothing (lexicon : Lexicon) (hspares : lexicon.SparesLineEnd)
    (source : String) :
    (∀ result, lexicon.tokenize source = .ok result ↔
      ∃ pieces, Divided lexicon pieces ∧ (∀ chars, .unclosed chars ∉ pieces) ∧
        pieces.flatMap raw = source.toList ∧ tokens [] pieces = result) ∧
    (∀ result, lexicon.tokenize source = .ok result → result.Pairwise (·.place < ·.place)) ∧
    (∀ left chars right, Divided lexicon (left ++ .word chars :: right) →
      (∀ c ∈ (left.flatMap raw).getLast?, ¬ IsPlain lexicon c) ∧
      ∀ c ∈ (right.flatMap raw).head?, ¬ IsPlain lexicon c) ∧
    ∀ fault, lexicon.tokenize source = .error fault ↔
      ∃ pieces chars, Divided lexicon (pieces ++ [.unclosed chars]) ∧
        (pieces ++ [.unclosed chars]).flatMap raw = source.toList ∧
        fault = .located (Position.after (pieces.flatMap raw)) .unterminatedText :=
  ⟨fun _ => tokenize_eq_ok_iff hspares, fun _ => pairwise_tokenize hspares,
    fun _ _ _ => Divided.word_maximal, fun _ => tokenize_eq_error_iff hspares⟩

theorem tokenizing_loses_nothing_mixed :
    (Lexicon.mk (some ';') ['&']).SparesLineEnd ∧
    (∃ pieces, Divided ⟨some ';', ['&']⟩ pieces ∧ (∀ chars, .unclosed chars ∉ pieces) ∧
      pieces.flatMap raw = "x\"\\t;\"w;\"\n &".toList ∧
      tokens [] pieces = [⟨"x", 1, 1⟩, ⟨"\"\t;\"", 1, 2⟩, ⟨"w", 1, 7⟩, ⟨"&", 2, 2⟩]) ∧
    ∃ pieces chars, Divided ⟨some ';', ['&']⟩ (pieces ++ [.unclosed chars]) ∧
      (pieces ++ [.unclosed chars]).flatMap raw = "x\n \";".toList ∧
      Position.after (pieces.flatMap raw) = ⟨2, 2⟩ := by
  have hspares : (Lexicon.mk (some ';') ['&']).SparesLineEnd := ⟨by decide, by decide⟩
  have hok := (tokenizing_loses_nothing _ hspares "x\"\\t;\"w;\"\n &").1
    [⟨"x", 1, 1⟩, ⟨"\"\t;\"", 1, 2⟩, ⟨"w", 1, 7⟩, ⟨"&", 2, 2⟩]
  have herror := (tokenizing_loses_nothing _ hspares "x\n \";").2.2.2
    (.located ⟨2, 2⟩ .unterminatedText)
  refine ⟨hspares, hok.mp (by decide), ?_⟩
  obtain ⟨pieces, chars, hdivided, hraw, hplace⟩ := herror.mp (by decide)
  refine ⟨pieces, chars, hdivided, hraw, ?_⟩
  injection hplace with hplace
  exact hplace.symm

end Token

end RegisterMachine
