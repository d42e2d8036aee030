import RegisterMachine.Assembly.Source
import RegisterMachine.Proofs.IntegerLiteral
import RegisterMachine.Proofs.Items
import RegisterMachine.Proofs.Layout
import RegisterMachine.Proofs.Lexing
import RegisterMachine.Proofs.Stream

/-!
The source text of a list of instructions, one on a line, and the way from it back to the instructions:
the text is split into words, the words are read as opcodes and operands, these are assembled to the
encoding of the list, and the encoding is disassembled.
-/
namespace RegisterMachine

def Operand.source : Operand → String
  | .register index => "ref " ++ (Numeral.decimal index.toNat ++ "b")
  | .byte value => "ref " ++ (Numeral.decimal value.toNat ++ "b")
  | .word value => "ref " ++ (Numeral.signedDecimal value.toInt ++ "l")

def Decoded.source (decoded : Decoded) : String :=
  match decoded.operands with
  | [] => decoded.instruction.mnemonic
  | operands => decoded.instruction.mnemonic ++ " " ++ ", ".intercalate (operands.map Operand.source)

def Decoded.sourceLines (list : List Decoded) : String := "\n".intercalate (list.map Decoded.source)

def Operand.literal : Operand → Literal
  | .register index => .byte index
  | .byte value => .byte value
  | .word value => .long value

namespace Operand

theorem source_eq (operand : Operand) : operand.source = "ref " ++ operand.literal.render := by
  cases operand <;> rfl

theorem parse_literal (operand : Operand) :
    Literal.parse operand.literal.render = .ok operand.literal := by
  cases operand <;> exact Literal.parse_render rfl

theorem encode_literal (operand : Operand) : operand.literal.encode = .ok operand.encode := by
  cases operand <;> rfl

def words (operand : Operand) : List String := ["ref", operand.literal.render]

end Operand

def Decoded.words (decoded : Decoded) : List String :=
  decoded.instruction.mnemonic :: [","].intercalate (decoded.operands.map Operand.words)

namespace Assembly

open Token

def isWordChar (c : Char) : Bool := 45 ≤ c.toNat && c.toNat ≤ 122 && c.toNat ≠ 59

theorem isPlain_of_isWordChar {c : Char} (h : isWordChar c = true) : IsPlain lexicon c := by
  simp only [isWordChar, Bool.and_eq_true, decide_eq_true_eq] at h
  obtain ⟨⟨hlow, hhigh⟩, hcomment⟩ := h
  have hne {other : Char} (hother : other.toNat < 45 ∨ other.toNat = 59) : c ≠ other := by
    rintro rfl
    omega
  refine ⟨hne (by decide), ?_, ?_, ?_⟩
  · exact fun h => hne (by decide) (Option.some.inj h).symm
  · simp only [lexicon, List.mem_cons, List.not_mem_nil, or_false, not_or]
    exact ⟨hne (by decide), hne (by decide), hne (by decide)⟩
  · simp [Text.isBlank, Text.blanks, Text.CharSet.contains]
    omega

theorem isPlain_of_isSignedDigit {c : Char} (h : Literal.IsSignedDigit c) : IsPlain lexicon c := by
  rcases h with h | rfl
  · have hrange : 48 ≤ c.toNat ∧ c.toNat ≤ 57 := by
      unfold Char.isDigit at h
      rw [Bool.and_eq_true, decide_eq_true_iff, decide_eq_true_iff] at h
      exact h
    refine isPlain_of_isWordChar ?_
    simp only [isWordChar, Bool.and_eq_true, decide_eq_true_eq]
    omega
  · exact isPlain_of_isWordChar rfl

theorem render_literal (operand : Operand) :
    ∃ digits suffix, operand.literal.render.toList = digits ++ [suffix] ∧ digits ≠ [] ∧
      ∀ c ∈ digits ++ [suffix], IsPlain lexicon c := by
  have hplain {digits : List Char} {suffix : Char}
      (hdigits : ∀ c ∈ digits, Literal.IsSignedDigit c) (hsuffix : IsPlain lexicon suffix) :
      ∀ c ∈ digits ++ [suffix], IsPlain lexicon c := by
    intro c hc
    rcases List.mem_append.mp hc with hc | hc
    · exact isPlain_of_isSignedDigit (hdigits c hc)
    · exact List.mem_singleton.mp hc ▸ hsuffix
  cases operand with
  | register value | byte value =>
    refine ⟨Numeral.decimalDigits value.toNat, 'b', ?_, Numeral.decimalDigits_ne_nil _, ?_⟩
    · simp [Operand.literal, Literal.render, Numeral.decimal]
    · exact hplain (fun c hc => .inl (Numeral.isDigit_of_mem_decimalDigits hc))
        (isPlain_of_isWordChar rfl)
  | word value =>
    refine ⟨Numeral.signedDigits value.toInt, 'l', ?_, Numeral.signedDigits_ne_nil _, ?_⟩
    · simp [Operand.literal, Literal.render, Numeral.signedDecimal]
    · exact hplain (fun c hc => Literal.isSignedDigit_of_mem hc) (isPlain_of_isWordChar rfl)

theorem isGap_space : IsGap lexicon ' ' := ⟨by decide, by decide, by decide, by decide⟩

theorem isGap_lineEnd : IsGap lexicon '\n' := ⟨by decide, by decide, by decide, by decide⟩

theorem isMark_comma : IsMark lexicon ',' := ⟨by decide, by decide, by decide⟩

theorem reads_string {text : String} (hne : text.toList ≠ [])
    (hplain : ∀ c ∈ text.toList, IsPlain lexicon c) : Reads lexicon text.toList [text] := by
  have hword := reads_word hne hplain
  rwa [String.ofList_toList] at hword

theorem reads_wordChars {text : String} (hne : text.toList ≠ [])
    (hchars : text.toList.all isWordChar = true) : Reads lexicon text.toList [text] :=
  reads_string hne fun c hc => isPlain_of_isWordChar (List.all_eq_true.mp hchars c hc)

theorem reads_operand (operand : Operand) :
    Reads lexicon operand.source.toList operand.words := by
  obtain ⟨digits, suffix, hrender, hne, hplain⟩ := render_literal operand
  have href : Reads lexicon "ref".toList ["ref"] := reads_wordChars (by decide) (by decide)
  have hliteral : Reads lexicon operand.literal.render.toList [operand.literal.render] := by
    refine reads_string ?_ (hrender ▸ hplain)
    rw [hrender]
    exact List.append_ne_nil_of_left_ne_nil hne _
  rw [operand.source_eq, String.toList_append]
  exact href.gap hliteral isGap_space

theorem reads_commas {α : Type} {text : α → String} {words : α → List String} {list : List α}
    (h : ∀ item ∈ list, Reads lexicon (text item).toList (words item)) :
    Reads lexicon (", ".intercalate (list.map text)).toList ([","].intercalate (list.map words)) := by
  induction list with
  | nil => exact reads_nil
  | cons first rest ih =>
    rw [List.forall_mem_cons] at h
    cases rest with
    | nil => simpa using h.1
    | cons second rest =>
      simp only [List.map_cons, String.intercalate_cons_cons, List.intercalate_cons_cons,
        String.toList_append, List.append_assoc]
      exact h.1.mark (reads_nil.gap (ih h.2) isGap_space) isMark_comma

theorem reads_lines {α : Type} {text : α → String} {words : α → List String} {list : List α}
    (h : ∀ item ∈ list, Reads lexicon (text item).toList (words item)) :
    Reads lexicon ("\n".intercalate (list.map text)).toList (list.flatMap words) := by
  induction list with
  | nil => exact reads_nil
  | cons first rest ih =>
    rw [List.forall_mem_cons] at h
    cases rest with
    | nil => simpa using h.1
    | cons second rest =>
      rw [List.map_cons, List.map_cons, String.intercalate_cons_cons, List.flatMap_cons,
        String.toList_append, String.toList_append, List.append_assoc]
      exact h.1.gap (ih h.2) isGap_lineEnd

theorem reads_instruction (decoded : Decoded) :
    Reads lexicon decoded.source.toList decoded.words := by
  have hmnemonic : Reads lexicon decoded.instruction.mnemonic.toList
      [decoded.instruction.mnemonic] := by
    refine reads_wordChars ?_ ?_
    · cases decoded.instruction <;> decide
    · cases decoded.instruction <;> decide
  have hoperands := reads_commas fun operand (_ : operand ∈ decoded.operands) => reads_operand operand
  unfold Decoded.source Decoded.words
  split
  · rename_i hnil
    rw [hnil]
    exact hmnemonic
  · rw [String.toList_append, String.toList_append, List.append_assoc]
    exact hmnemonic.gap hoperands isGap_space

theorem tokenize_sourceLines {list : List Decoded} {source : String}
    (h : source = Decoded.sourceLines list ∨ source = Decoded.sourceLines list ++ "\n") :
    ∃ tokens, lexicon.tokenize source = .ok tokens ∧
      tokens.map Token.text = list.flatMap Decoded.words := by
  have hlines : Reads lexicon (Decoded.sourceLines list).toList (list.flatMap Decoded.words) :=
    reads_lines fun decoded _ => reads_instruction decoded
  rcases h with rfl | rfl
  · exact hlines.tokenize
  · have hend := hlines.gap reads_nil isGap_lineEnd
    rw [List.append_nil] at hend
    refine Reads.tokenize ?_
    rw [String.toList_append]
    exact hend

def Draft.literals (draft : Draft) (values : List Literal) : Draft :=
  { draft with builder := values.foldl Builder.literal draft.builder }

/-- Words that add literals to the text of a draft and do nothing else. -/
def Takes (words : List String) (values : List Literal) : Prop :=
  ∀ (draft : Draft) (tokens : List Token), draft.pending = none → tokens.map Token.text = words →
    tokens.foldlM Draft.accept draft = .ok (draft.literals values)

theorem takes_nil : Takes [] [] := by
  intro draft tokens _ htokens
  rw [List.map_eq_nil_iff.mp htokens]
  rfl

theorem Takes.append {first second : List String} {left right : List Literal}
    (hfirst : Takes first left) (hsecond : Takes second right) :
    Takes (first ++ second) (left ++ right) := by
  intro draft tokens hpending htokens
  obtain ⟨before, after, rfl, hbefore, hafter⟩ := List.map_eq_append_iff.mp htokens
  rw [List.foldlM_append, hfirst draft before hpending hbefore]
  have hdraft : draft.literals (left ++ right) = (draft.literals left).literals right := by
    unfold Draft.literals
    rw [List.foldl_append]
  rw [hdraft]
  exact hsecond (draft.literals left) after hpending hafter

theorem takes_word {word : String} {values : List Literal}
    (h : ∀ (draft : Draft) (token : Token), token.text = word →
      draft.item token = .ok (draft.literals values)) : Takes [word] values := by
  intro draft tokens hpending htokens
  obtain ⟨token, rfl, htoken⟩ := List.map_eq_singleton_iff.mp htokens
  rw [List.foldlM_cons, Draft.accept, hpending]
  dsimp only
  rw [h draft token htoken]
  rfl

theorem takes_comma : Takes [","] [] :=
  takes_word fun _ _ htoken => Draft.item_separator (htoken ▸ List.mem_cons_self)

theorem takes_mnemonic (instruction : Instruction) :
    Takes [instruction.mnemonic] [.byte instruction.opcode] :=
  takes_word fun _ _ htoken => Draft.item_mnemonic htoken

theorem render_literal_ne_symbol (operand : Operand) :
    operand.literal.render ∉ ["&", ",", ";"] := by
  obtain ⟨digits, suffix, hrender, hne, -⟩ := render_literal operand
  have hlength : 1 < operand.literal.render.toList.length := by
    have := List.length_pos_iff.mpr hne
    rw [hrender, List.length_append, List.length_singleton]
    omega
  intro hmem
  have hshort : ∀ symbol ∈ ["&", ",", ";"], symbol.toList.length = 1 := by decide
  have := hshort _ hmem
  omega

theorem takes_operand (operand : Operand) : Takes operand.words [operand.literal] := by
  intro draft tokens hpending htokens
  obtain ⟨directive, rest, rfl, hdirective, hrest⟩ := List.map_eq_cons_iff.mp htokens
  obtain ⟨token, rfl, htoken⟩ := List.map_eq_singleton_iff.mp hrest
  have hitem : (Item.inline operand.literal).Written (directive.text :: [token].map Token.text) := by
    rw [List.map_singleton, hdirective, htoken]
    exact .inline (render_literal_ne_symbol operand) operand.parse_literal
  exact Draft.foldlM_accept_item hitem hpending nofun

theorem takes_operands (operands : List Operand) :
    Takes ([","].intercalate (operands.map Operand.words)) (operands.map Operand.literal) := by
  induction operands with
  | nil => exact takes_nil
  | cons first rest ih =>
    cases rest with
    | nil => simpa using takes_operand first
    | cons second rest =>
      rw [List.map_cons, List.map_cons, List.intercalate_cons_cons, List.append_assoc]
      exact (takes_operand first).append (takes_comma.append ih)

end Assembly

def Decoded.literals (decoded : Decoded) : List Literal :=
  .byte decoded.instruction.opcode :: decoded.operands.map Operand.literal

namespace Assembly

theorem takes_instructions (list : List Decoded) :
    Takes (list.flatMap Decoded.words) (list.flatMap Decoded.literals) := by
  induction list with
  | nil => exact takes_nil
  | cons decoded rest ih =>
    have hline : Takes decoded.words decoded.literals :=
      (takes_mnemonic decoded.instruction).append (takes_operands decoded.operands)
    exact hline.append ih

theorem parse_sourceLines {list : List Decoded} {source : String}
    (h : source = Decoded.sourceLines list ∨ source = Decoded.sourceLines list ++ "\n") :
    parse source = .ok ((list.flatMap Decoded.literals).foldl Builder.literal {}) := by
  obtain ⟨tokens, htokens, hwords⟩ := tokenize_sourceLines h
  rw [parse, htokens]
  change (tokens.foldlM Draft.accept {} >>= Draft.finish) = _
  rw [takes_instructions list {} tokens rfl hwords]
  rfl

theorem objects_foldl_literal (values : List Literal) (builder : Builder) :
    (values.foldl Builder.literal builder).text.toList =
        builder.text.toList ++ values.map Object.literal ∧
      (values.foldl Builder.literal builder).data = builder.data := by
  induction values generalizing builder with
  | nil => exact ⟨(List.append_nil _).symm, rfl⟩
  | cons value rest ih =>
    obtain ⟨htext, hdata⟩ := ih (builder.literal value)
    refine ⟨?_, hdata⟩
    rw [List.foldl_cons, htext]
    simp [Builder.literal, Builder.emit]

theorem emitsAll_operands (objects : List Object) (operands : List Operand) :
    Object.EmitsAll objects ((operands.map Operand.literal).map .literal)
      (operands.flatMap Operand.encode) := by
  induction operands with
  | nil => exact .nil
  | cons operand rest ih => exact .cons (.literal operand.encode_literal) ih

theorem emitsAll_literals (objects : List Object) (list : List Decoded) :
    Object.EmitsAll objects ((list.flatMap Decoded.literals).map .literal)
      (list.flatMap Decoded.encode) := by
  induction list with
  | nil => exact .nil
  | cons decoded rest ih =>
    have hopcode : Object.Emits objects (.literal (.byte decoded.instruction.opcode))
        [decoded.instruction.opcode] := .literal rfl
    have hfirst : Object.EmitsAll objects (decoded.literals.map .literal) decoded.encode :=
      .cons hopcode (emitsAll_operands objects decoded.operands)
    rw [List.flatMap_cons, List.map_append, List.flatMap_cons]
    exact hfirst.append ih

theorem labels_map_literal (values : List Literal) :
    Object.labels (values.map .literal) = [] := by
  rw [Object.labels, List.filterMap_map]
  exact List.filterMap_eq_nil_iff.mpr fun _ _ => rfl

theorem toImage_literals (list : List Decoded) :
    ∃ image, ((list.flatMap Decoded.literals).foldl Builder.literal {}).toImage = .ok image ∧
      image.bytes.toList = list.flatMap Decoded.encode ∧ image.data = #[] := by
  obtain ⟨htext, hdata⟩ := objects_foldl_literal (list.flatMap Decoded.literals) {}
  generalize (list.flatMap Decoded.literals).foldl Builder.literal {} = builder at htext hdata
  have hobjects : builder.objects = (list.flatMap Decoded.literals).map .literal := by
    unfold Builder.objects
    rw [htext, hdata]
    exact List.append_nil _
  have hbytes : builder.toBytes = .ok (list.flatMap Decoded.encode) := by
    rw [Builder.toBytes_eq_ok_iff, hobjects, labels_map_literal]
    exact ⟨.nil, emitsAll_literals _ list⟩
  obtain ⟨image, himage, hwhole, -, hrest, -⟩ := Builder.toImage_of_toBytes hbytes
  refine ⟨image, himage, hwhole, ?_⟩
  rw [hdata] at hrest
  exact Array.toList_eq_nil_iff.mp (List.length_eq_zero_iff.mp hrest.length)

end Assembly

/-- Instructions that are written as source text and assembled are read back from the bytes. -/
theorem source_round_trip (list : List Decoded) (hformed : ∀ decoded ∈ list, decoded.WellFormed)
    (source : String)
    (hsource : source = Decoded.sourceLines list ∨ source = Decoded.sourceLines list ++ "\n") :
    ∃ image, Assembly.assemble source = .ok image ∧ image.data = #[] ∧
      image.bytes.toList = list.flatMap Decoded.encode ∧
      Disassembly.whole image.bytes = .ok (Decoded.placedFrom 0 list) := by
  obtain ⟨image, himage, hbytes, hdata⟩ := Assembly.toImage_literals list
  refine ⟨image, ?_, hdata, hbytes, ?_⟩
  · rw [Assembly.assemble, Assembly.parse_sourceLines hsource]
    exact himage
  · have hwhole := Disassembly.whole_eq_ok_iff.mpr (Decoded.isStream_placedFrom hformed)
    rwa [← hbytes] at hwhole

def Decoded.samples : List Decoded :=
  [⟨0, .moveWord, [.register 1, .word Int64.minValue]⟩, ⟨10, .raise, [.byte 255]⟩, ⟨12, .ret, []⟩]

theorem source_round_trip_samples :
    (∀ decoded ∈ Decoded.samples, decoded.WellFormed) ∧
    "MOV_R_64 ref 1b, ref -9223372036854775808l\nINT_8 ref 255b\nRET" =
      Decoded.sourceLines Decoded.samples ∧
    ∃ image, Assembly.assemble
        "MOV_R_64 ref 1b, ref -9223372036854775808l\nINT_8 ref 255b\nRET" = .ok image ∧
      image.data = #[] ∧ image.bytes.toList = [23, 1, 0, 0, 0, 0, 0, 0, 0, 128, 5, 255, 36] ∧
      Disassembly.whole image.bytes = .ok Decoded.samples := by
  have hformed : ∀ decoded ∈ Decoded.samples, decoded.WellFormed := by
    unfold Decoded.WellFormed
    decide
  have hsource : "MOV_R_64 ref 1b, ref -9223372036854775808l\nINT_8 ref 255b\nRET" =
      Decoded.sourceLines Decoded.samples := by
    decide +kernel
  exact ⟨hformed, hsource, source_round_trip Decoded.samples hformed _ (.inl hsource)⟩

end RegisterMachine
