import RegisterMachine.Assembly.Diagnostic
import RegisterMachine.Proofs.Generated

/-!
Why a source does not assemble. Quotes may be open at its end; an item may not be there where one should
start; a target may have no label; a label may have a name that is made up as well. In all but the last
case the fault has a place, which is that of a character of the source, so that the report can show it.
-/
namespace RegisterMachine

/-- The place is that of a character of the source that can be seen. -/
def Position.Marks (place : Position) (source : String) : Prop :=
  ∃ before c after, source.toList = before ++ c :: after ∧ place = Position.after before ∧
    Text.isBlank c = false

theorem length_splitOn (c : Char) (chars : List Char) :
    (chars.splitOn c).length = chars.count c + 1 := by
  induction chars with
  | nil => rfl
  | cons first rest ih =>
    rw [List.splitOn_cons_eq_if_modifyHead]
    by_cases h : first = c <;> simp [h, ih]

theorem splitOn_first {start : List Char} {c : Char} (hstart : '\n' ∉ start) (hc : c ≠ '\n')
    (after : List Char) :
    ∃ rest lines, (start ++ c :: after).splitOn '\n' = (start ++ c :: rest) :: lines := by
  obtain ⟨rest, later, rfl, hrest, hlater⟩ := Token.Piece.exists_run (· ≠ '\n') after
  have hline : '\n' ∉ start ++ c :: rest := by
    simp only [List.mem_append, List.mem_cons, not_or]
    exact ⟨hstart, hc.symm, fun hmem => hrest _ hmem rfl⟩
  have hsplit : start ++ c :: (rest ++ later) = (start ++ c :: rest) ++ later := by simp
  rw [hsplit]
  cases later with
  | nil => exact ⟨rest, [], by rw [List.append_nil, List.splitOn_eq_singleton hline]⟩
  | cons d later =>
    obtain rfl : d = '\n' := by simpa using hlater
    exact ⟨rest, _, List.splitOn_append_cons_self_of_not_mem hline later⟩

theorem splitOn_at (before after : List Char) {c : Char} (hc : c ≠ '\n') :
    ∃ row, ((before ++ c :: after).splitOn '\n')[(Position.after before).line - 1]? = some row ∧
      row[(Position.after before).column - 1]? = some c := by
  obtain ⟨run, rest, hbefore, hrun, hrest⟩ := Token.Piece.exists_run (· ≠ '\n') before.reverse
  have hstart : '\n' ∉ run.reverse := fun hmem => hrun _ (List.mem_reverse.mp hmem) rfl
  obtain rfl : before = rest.reverse ++ run.reverse := by
    rw [← List.reverse_append, hbefore, List.reverse_reverse]
  obtain ⟨line, lines, hsplit⟩ := splitOn_first hstart hc after
  refine ⟨run.reverse ++ c :: line, ?_⟩
  rw [Position.after_append _ hstart, List.append_assoc]
  cases rest with
  | nil => simp [Position.after, hsplit]
  | cons d rest =>
    obtain rfl : d = '\n' := by simpa using hrest
    have hlines : ('\n' :: rest).reverse ++ (run.reverse ++ c :: after) =
        rest.reverse ++ '\n' :: (run.reverse ++ c :: after) := by simp
    rw [hlines, List.splitOn_append_cons_self, hsplit]
    simp [Position.after, length_splitOn]

namespace Assembly

theorem getElem?_trimmed {row : List Char} {index : Nat} {c : Char} (h : row[index]? = some c)
    (hc : c ≠ '\r') : (trimmed row)[index]? = some c := by
  have hsplit : row = trimmed row ++ (row.reverse.takeWhile (· = '\r')).reverse := by
    rw [trimmed, ← List.reverse_append, List.takeWhile_append_dropWhile, List.reverse_reverse]
  rw [hsplit, List.getElem?_append] at h
  split at h
  · exact h
  · have hmem := List.mem_reverse.mp (List.mem_of_getElem? h)
    have hall := List.all_eq_true.mp List.all_takeWhile c hmem
    exact absurd (of_decide_eq_true hall) hc

theorem lines_at {source : String} {before after : List Char} {c : Char}
    (hsource : source.toList = before ++ c :: after) (hc : c ≠ '\n') :
    ∃ row, (lines source)[(Position.after before).line - 1]? = some row ∧
      row[(Position.after before).column - 1]? = some c := by
  obtain ⟨row, hline, hcolumn⟩ := splitOn_at before after hc
  refine ⟨row, ?_, hcolumn⟩
  unfold lines
  rw [hsource]
  dsimp only
  split
  · rename_i hlast
    rw [List.getElem?_dropLast, if_pos, hline]
    rw [List.getLast?_eq_getElem?] at hlast
    have hlt := (List.getElem?_eq_some_iff.mp hline).1
    have hne : (Position.after before).line - 1 ≠ ((before ++ c :: after).splitOn '\n').length - 1 := by
      intro heq
      rw [heq, hlast] at hline
      cases hline
      cases hcolumn
    omega
  · exact hline

theorem excerpt_of_marks {source : String} {place : Position} (h : place.Marks source) :
    0 < place.line ∧ 0 < place.column ∧
    ∃ line c, (lines source)[place.line - 1]? = some line ∧
      (trimmed line)[place.column - 1]? = some c ∧ Text.isBlank c = false ∧
      excerpt source place =
        ["  |",
          String.ofList ((Numeral.decimalDigits place.line).leftpad 4 ' ' ++ [' ', '|', ' '] ++
            trimmed line),
          String.ofList ([' ', ' ', '|', ' '] ++ List.replicate (place.column - 1) ' ' ++ ['^'])] := by
  obtain ⟨before, c, after, hsource, rfl, hblank⟩ := h
  have hne {other : Char} (hother : Text.isBlank other = true) : c ≠ other := by
    rintro rfl
    rw [hblank] at hother
    cases hother
  obtain ⟨line, hline, hcolumn⟩ := lines_at hsource (hne (by decide))
  refine ⟨Nat.succ_pos _, Nat.succ_pos _, line, c, hline,
    getElem?_trimmed hcolumn (hne (by decide)), hblank, ?_⟩
  unfold excerpt
  rw [hline]

open Token Piece

theorem visible_of_formed {piece : Piece} (h : piece.Formed lexicon) (hgap : ∀ c, piece ≠ .gap c) :
    ∃ c rest, piece.raw = c :: rest ∧ Text.isBlank c = false := by
  cases h with
  | gap => exact absurd rfl (hgap _)
  | mark hmark =>
    have hsymbols : lexicon.symbols.all (fun c => Text.isBlank c = false) = true := by decide
    exact ⟨_, _, rfl, of_decide_eq_true (List.all_eq_true.mp hsymbols _ hmark.symbol)⟩
  | @word chars hne hplain =>
    cases chars with
    | nil => exact absurd rfl hne
    | cons c rest => exact ⟨c, rest, rfl, (hplain c List.mem_cons_self).noBlank⟩
  | comment hcomment =>
    cases hcomment
    exact ⟨_, _, rfl, by decide⟩
  | quoted | unclosed => exact ⟨_, _, rfl, by decide⟩

theorem marks_of_divided {left right : List Piece} {piece : Piece}
    (h : Divided lexicon (left ++ piece :: right)) {source : String}
    (hsource : (left ++ piece :: right).flatMap raw = source.toList) (hgap : ∀ c, piece ≠ .gap c) :
    (Position.after (left.flatMap raw)).Marks source := by
  obtain ⟨c, rest, hraw, hblank⟩ := visible_of_formed (h.formed piece (by simp)) hgap
  refine ⟨left.flatMap raw, c, rest ++ right.flatMap raw, ?_, rfl, hblank⟩
  rw [← hsource, List.flatMap_append, List.flatMap_cons, hraw]
  rfl

theorem marks_of_mem {source : String} {result : List Token}
    (h : lexicon.tokenize source = .ok result) {token : Token} (hmem : token ∈ result) :
    token.place.Marks source := by
  obtain ⟨pieces, hdivided, -, hraw, rfl⟩ := (tokenize_eq_ok_iff lexicon_sparesLineEnd).mp h
  obtain ⟨left, piece, right, rfl, htoken⟩ := mem_tokens.mp hmem
  rw [place_of_token? htoken]
  refine marks_of_divided hdivided hraw ?_
  rintro c rfl
  cases htoken

/-- A source that does not assemble, with its fault. -/
inductive Failure (source : String) : Fault → Prop
  /-- The source ends inside quotes. -/
  | openQuote {pieces : List Piece} {chars : List Char}
      (hdivided : Divided lexicon (pieces ++ [.unclosed chars]))
      (hsource : (pieces ++ [Piece.unclosed chars]).flatMap raw = source.toList) :
      Failure source (.located (Position.after (pieces.flatMap raw)) .unterminatedText)
  /-- After some items there is no further one. -/
  | stuck {items : List (Item × Position)} {read rest : List Token} {index : Nat} {cause : Fault}
      {token : Token} (htokens : lexicon.tokenize source = .ok (read ++ rest))
      (hread : Reading items read) (hlabels : (Item.labels items).Nodup)
      (hstuck : Item.Stuck (Item.labels items) (rest.map Token.text) index cause)
      (htoken : rest[index]? = some token) : Failure source (.located token.place cause)
  /-- The items have an address without a label. -/
  | undefined {items : List (Item × Position)} {tokens : List Token}
      {before after : List (String × Position)} {target : String} {place : Position}
      (htokens : lexicon.tokenize source = .ok tokens) (hread : Reading items tokens)
      (hlabels : (Item.labels items).Nodup)
      (hsplit : Item.references items = before ++ (target, place) :: after)
      (hbefore : ∀ reference ∈ before, Item.Defines items reference.1)
      (htarget : ¬ Item.Defines items target) :
      Failure source (.located place (.undefinedLabel target))
  /-- The items define a name that is made up as well. -/
  | clash {items : List (Item × Position)} {tokens : List Token} {name : String}
      (htokens : lexicon.tokenize source = .ok tokens) (hread : Reading items tokens)
      (hlabels : (Item.labels items).Nodup)
      (hdefined : ∀ reference ∈ Item.references items, Item.Defines items reference.1)
      (hname : (Item.generated items).find? (· ∈ Item.labels items) = some name) :
      Failure source (.duplicateLabel name)

variable {source : String}

theorem Failure.assemble {fault : Fault} (h : Failure source fault) :
    assemble source = .error fault := by
  cases h with
  | openQuote hdivided hsource =>
    unfold Assembly.assemble
    rw [parse_eq, hdivided.tokenize_unclosed lexicon_sparesLineEnd hsource]
    rfl
  | stuck htokens hread hlabels hstuck htoken =>
    obtain ⟨token, hfound, hprogram⟩ := program_of_stuck hread hlabels hstuck
    rw [hfound] at htoken
    cases htoken
    rw [assemble_of_tokenize htokens, hprogram]
    rfl
  | undefined htokens hread hlabels hsplit hbefore htarget =>
    have hplaces := pairwise_tokenize lexicon_sparesLineEnd htokens
    have hundefined := Item.undefined?_eq_some_iff.mpr ⟨_, _, hsplit, hbefore, htarget⟩
    rw [assemble_of_tokenize htokens, program_of_reading hread hlabels hplaces, hundefined]
    rfl
  | clash htokens hread hlabels hdefined hname =>
    have hplaces := pairwise_tokenize lexicon_sparesLineEnd htokens
    have hundefined := Item.undefined?_eq_none_iff.mpr hdefined
    rw [assemble_of_tokenize htokens, program_of_reading hread hlabels hplaces, hundefined]
    exact Item.toImage_of_clash hlabels hname

theorem Reading.written {items : List (Item × Position)} {tokens : List Token}
    (h : Reading items tokens) {item : Item} {place : Position} (hmem : (item, place) ∈ items) :
    ∃ words, item.Written words ∧ ∀ word ∈ words, word ∈ tokens.map Token.text := by
  induction h with
  | nil => cases hmem
  | @cons own first more rest items hitem hrest ih =>
    rw [← List.cons_append, List.map_append]
    rcases List.mem_cons.mp hmem with heq | hmem
    · cases heq
      exact ⟨_, hitem, fun word hword => List.mem_append_left _ hword⟩
    · obtain ⟨words, hwritten, hwords⟩ := ih hmem
      exact ⟨words, hwritten, fun word hword => List.mem_append_right _ (hwords word hword)⟩

theorem Reading.exists_literal {items : List (Item × Position)} {tokens : List Token}
    (h : Reading items tokens) {value : Literal} {place : Position}
    (hvalue : (.inline value, place) ∈ items ∨ (.data value, place) ∈ items) :
    ∃ token ∈ tokens, Literal.parse token.text = .ok value := by
  have hword : ∃ word ∈ tokens.map Token.text, Literal.parse word = .ok value := by
    rcases hvalue with hmem | hmem
    · obtain ⟨words, hwritten, hwords⟩ := h.written hmem
      cases hwritten with
      | inline _ hparse => exact ⟨_, hwords _ (by simp), hparse⟩
    · obtain ⟨words, hwritten, hwords⟩ := h.written hmem
      cases hwritten with
      | data _ hparse => exact ⟨_, hwords _ (by simp), hparse⟩
  simpa using hword

def TextsFit (source : String) : Prop :=
  ∀ tokens, lexicon.tokenize source = .ok tokens → ∀ token ∈ tokens, ∀ text,
    Literal.parse token.text = .ok (.text text) → text.utf8ByteSize < Word.count 4

theorem failure_of_reading (htexts : TextsFit source) {tokens : List Token}
    (htokens : lexicon.tokenize source = .ok tokens) {items : List (Item × Position)}
    (hread : Reading items tokens) (hlabels : (Item.labels items).Nodup) {fault : Fault}
    (h : assemble source = .error fault) : Failure source fault := by
  have hplaces := pairwise_tokenize lexicon_sparesLineEnd htokens
  rw [assemble_of_tokenize htokens, program_of_reading hread hlabels hplaces] at h
  cases hundefined : Item.undefined? items with
  | some reference =>
    obtain ⟨before, after, hsplit, hbefore, htarget⟩ := Item.undefined?_eq_some_iff.mp hundefined
    rw [hundefined] at h
    cases h
    exact .undefined htokens hread hlabels hsplit hbefore htarget
  | none =>
    rw [hundefined] at h
    change (Builder.ofEdits (Item.edits items)).toImage = .error fault at h
    cases hclash : Item.clash? items with
    | some name =>
      rw [Item.toImage_of_clash hlabels hclash] at h
      cases h
      exact .clash htokens hread hlabels (Item.undefined?_eq_none_iff.mp hundefined) hclash
    | none =>
      obtain ⟨image, himage⟩ := Item.exists_toImage hlabels hundefined hclash fun text htext => by
        obtain ⟨place, hplace⟩ := Item.text_mem_objects htext
        obtain ⟨token, htoken, hparse⟩ := hread.exists_literal hplace
        exact htexts tokens htokens token htoken text hparse
      rw [himage] at h
      cases h

theorem failure_of_assemble (htexts : TextsFit source) {fault : Fault}
    (h : assemble source = .error fault) : Failure source fault := by
  rcases tokenize_cases lexicon_sparesLineEnd source with
    ⟨pieces, -, -, -, htokens⟩ | ⟨pieces, chars, hdivided, hsource, herror⟩
  · generalize Piece.tokens [] pieces = tokens at htokens
    rcases reading_cases tokens with
      ⟨items, hread, hlabels⟩ | ⟨items, read, rest, index, cause, rfl, hread, hlabels, hstuck⟩
    · exact failure_of_reading htexts htokens hread hlabels h
    · obtain ⟨token, htoken, hprogram⟩ := program_of_stuck hread hlabels hstuck
      rw [assemble_of_tokenize htokens, hprogram] at h
      cases h
      exact .stuck htokens hread hlabels hstuck htoken
  · unfold assemble at h
    rw [parse_eq, herror] at h
    cases h
    exact .openQuote hdivided hsource

theorem Failure.marks {place : Position} {cause : Fault} (h : Failure source (.located place cause)) :
    place.Marks source := by
  cases h with
  | openQuote hdivided hsource => exact marks_of_divided hdivided hsource (by simp)
  | stuck htokens hread hlabels hstuck htoken =>
    exact marks_of_mem htokens (List.mem_append_right _ (List.mem_of_getElem? htoken))
  | @undefined items tokens before after target _ htokens hread hlabels hsplit hbefore htarget =>
    have hplace : place ∈ (Item.references items).map Prod.snd := by
      rw [hsplit]
      simp
    obtain ⟨token, htoken, rfl⟩ := List.mem_map.mp (hread.sublist_places.subset hplace)
    exact marks_of_mem htokens htoken

/-- The second pass finds every label that the first has let through. -/
theorem toImage_of_parse {builder : Builder} (h : parse source = .ok builder) (name : String) :
    builder.toImage ≠ .error (.undefinedLabel name) := by
  rw [parse_eq] at h
  obtain ⟨tokens, htokens, hprogram⟩ := bind_eq_ok_iff.mp h
  have hplaces := pairwise_tokenize lexicon_sparesLineEnd htokens
  rcases reading_cases tokens with
    ⟨items, hread, hlabels⟩ | ⟨items, read, rest, index, cause, rfl, hread, hlabels, hstuck⟩
  · rw [program_of_reading hread hlabels hplaces] at hprogram
    cases hundefined : Item.undefined? items with
    | some reference =>
      rw [hundefined] at hprogram
      cases hprogram
    | none =>
      rw [hundefined] at hprogram
      cases hprogram
      exact Item.toImage_ne_undefinedLabel hundefined name
  · obtain ⟨token, -, hfails⟩ := program_of_stuck hread hlabels hstuck
    cases hfails.symm.trans hprogram

/-- The ways in which a source fails to assemble, and no others, provided that its texts can be encoded.
The second pass then has nothing to add but labels that clash with names that are made up, and the report
on a fault that has a place shows the line of it, in which there is a character to mark. -/
theorem assembly_fails_exactly (source : String) (htexts : TextsFit source) :
    (∀ fault, assemble source = .error fault ↔ Failure source fault) ∧
    (∀ builder name, parse source = .ok builder →
      builder.toImage ≠ .error (.undefinedLabel name)) ∧
    ∀ place cause, assemble source = .error (.located place cause) →
      0 < place.line ∧ 0 < place.column ∧
      ∃ line c, (lines source)[place.line - 1]? = some line ∧
        (trimmed line)[place.column - 1]? = some c ∧ Text.isBlank c = false ∧
        excerpt source place =
          ["  |",
            String.ofList ((Numeral.decimalDigits place.line).leftpad 4 ' ' ++ [' ', '|', ' '] ++
              trimmed line),
            String.ofList ([' ', ' ', '|', ' '] ++ List.replicate (place.column - 1) ' ' ++ ['^'])] := by
  refine ⟨fun fault => ⟨failure_of_assemble htexts, Failure.assemble⟩,
    fun builder name hparse => toImage_of_parse hparse name, fun place cause hfails => ?_⟩
  exact excerpt_of_marks (failure_of_assemble htexts hfails).marks

theorem assembly_fails_exactly_clash :
    TextsFit "DTA_0: \"hi\"" ∧ Failure "DTA_0: \"hi\"" (.duplicateLabel "DTA_0") := by
  have htokens : lexicon.tokenize "DTA_0: \"hi\"" = .ok [⟨"DTA_0:", 1, 1⟩, ⟨"\"hi\"", 1, 8⟩] := by
    decide
  have hlabel : Literal.parse "DTA_0:" = .error (.invalidLiteral "DTA_0:") := by decide +kernel
  have htext : Literal.parse "\"hi\"" = .ok (.text "hi") := by decide +kernel
  have htexts : TextsFit "DTA_0: \"hi\"" := by
    intro tokens h token hmem text hparse
    cases htokens.symm.trans h
    rcases List.mem_pair.mp hmem with rfl | rfl
    · cases hlabel.symm.trans hparse
    · cases htext.symm.trans hparse
      decide +kernel
  have hfails : assemble "DTA_0: \"hi\"" = .error (.duplicateLabel "DTA_0") := by decide +kernel
  exact ⟨htexts, ((assembly_fails_exactly _ htexts).1 _).mp hfails⟩

end Assembly

end RegisterMachine
