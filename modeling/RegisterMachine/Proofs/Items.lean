import RegisterMachine.Assembly.Source
import RegisterMachine.Proofs.Interning

/-!
The items of a source: separators, labels, addresses, literals in the text, mnemonics and literals in
the data section. The words of a source are those of items up to some word, and either that is the end
or no item starts there. A draft takes the items one after the other and fails where none starts.
-/
namespace RegisterMachine

namespace Assembly

inductive Item where
  | separator
  | label (name : String)
  | address (target : String)
  | inline (value : Literal)
  | instruction (instruction : Instruction)
  | data (value : Literal)

def IsArgument (word : String) : Prop := word ∉ ["&", ",", ";"]

instance (word : String) : Decidable (IsArgument word) :=
  inferInstanceAs (Decidable (word ∉ ["&", ",", ";"]))

structure IsBare (word : String) : Prop where
  noSeparator : word ∉ [",", ";"]
  noLabel : labelName? word = none
  noDirective : ∀ directive : Directive, word ≠ directive.name
  noMnemonic : ∀ instruction : Instruction, word ≠ instruction.mnemonic

namespace Item

inductive Written : Item → List String → Prop
  | separator {word : String} (h : word ∈ [",", ";"]) : Written .separator [word]
  | label {word name : String} (h : labelName? word = some name) : Written (.label name) [word]
  | address {target : String} (h : IsArgument target) :
      Written (.address target) [Directive.addressOf.name, target]
  | inline {word : String} {value : Literal} (h : IsArgument word)
      (hparse : Literal.parse word = .ok value) :
      Written (.inline value) [Directive.inline.name, word]
  | instruction (instruction : Instruction) :
      Written (.instruction instruction) [instruction.mnemonic]
  | data {word : String} {value : Literal} (h : IsBare word)
      (hparse : Literal.parse word = .ok value) : Written (.data value) [word]

/-- No item starts with the words, as they repeat a label that is defined, lack the argument of a
directive, or have another word for a literal. The number says which of the words is to blame. -/
inductive Stuck (defined : List String) : List String → Nat → Fault → Prop
  | repeated {word name : String} {rest : List String} (h : labelName? word = some name)
      (hdefined : name ∈ defined) : Stuck defined (word :: rest) 0 (.duplicateLabel name)
  | argument {directive : Directive} {rest : List String} (h : ∀ word ∈ rest.head?, ¬ IsArgument word) :
      Stuck defined (directive.name :: rest) 0 (.missingArgument directive)
  | inline {word : String} {rest : List String} (h : IsArgument word)
      (hparse : ∀ value, Literal.parse word ≠ .ok value) :
      Stuck defined (Directive.inline.name :: word :: rest) 1 (.invalidLiteral word)
  | data {word : String} {rest : List String} (h : IsBare word)
      (hparse : ∀ value, Literal.parse word ≠ .ok value) :
      Stuck defined (word :: rest) 0 (.invalidLiteral word)

def label? : Item → Option String
  | .label name => some name
  | _ => none

def target? : Item → Option String
  | .address target => some target
  | _ => none

def literal? : Item → Option Literal
  | .data value => some value
  | _ => none

end Item

def Item.edit? : Item → Option Edit
  | .separator => none
  | .label name => some (.label name)
  | .address target => some (.addressOf target)
  | .inline value => some (.literal value)
  | .instruction code => some (.instruction code)
  | .data value => some (.intern value)

/-- The tokens are those of the items, each with the place of its first token. -/
inductive Reading : List (Item × Position) → List Token → Prop
  | nil : Reading [] []
  | cons {item : Item} {first : Token} {more rest : List Token} {items : List (Item × Position)}
      (hitem : item.Written (first.text :: more.map Token.text)) (hrest : Reading items rest) :
      Reading ((item, first.place) :: items) (first :: (more ++ rest))

def Item.labels (items : List (Item × Position)) : List String := items.filterMap (·.1.label?)

def Item.references (items : List (Item × Position)) : List (String × Position) :=
  items.filterMap fun item => item.1.target?.map (·, item.2)

def Item.edits (items : List (Item × Position)) : List Edit := items.filterMap (·.1.edit?)

namespace Draft

def add (draft : Draft) (item : Item) (place : Position) : Draft :=
  match item with
  | .separator => draft
  | .label name => { draft with builder := draft.builder.label name, labels := name :: draft.labels }
  | .address target =>
    { draft.refer target place with builder := draft.builder.addressOf target }
  | .inline value => { draft with builder := draft.builder.literal value }
  | .instruction instruction => { draft with builder := draft.builder.instruction instruction }
  | .data value => { draft with builder := draft.builder.intern value }

variable {draft : Draft} {token : Token}

theorem item_separator (h : token.text ∈ [",", ";"]) : draft.item token = .ok draft := if_pos h

theorem item_label {name : String} (h : labelName? token.text = some name) :
    draft.item token = draft.define name token.place := by
  have hnone : ∀ word ∈ [",", ";"], labelName? word = none := by decide
  have hseparator : token.text ∉ [",", ";"] := by
    intro hmem
    rw [hnone _ hmem] at h
    cases h
  rw [item, if_neg hseparator, h]

theorem item_directive {directive : Directive} (h : token.text = directive.name) :
    draft.item token = .ok { draft with pending := some (directive, token.place) } := by
  cases directive <;> (rw [item, h]; rfl)

theorem item_mnemonic {instruction : Instruction} (h : token.text = instruction.mnemonic) :
    draft.item token = .ok { draft with builder := draft.builder.instruction instruction } := by
  have hseparator : instruction.mnemonic ∉ [",", ";"] := by cases instruction <;> decide
  have hlabel : labelName? instruction.mnemonic = none := by cases instruction <;> decide
  have haddress : instruction.mnemonic ≠ "&" := by cases instruction <;> decide
  have hinline : instruction.mnemonic ≠ "ref" := by cases instruction <;> decide
  rw [item, h, if_neg hseparator, hlabel]
  dsimp only
  rw [if_neg haddress, if_neg hinline, Instruction.ofMnemonic?_mnemonic]

theorem item_bare (h : IsBare token.text) :
    draft.item token =
      (literalOf token).map fun value => { draft with builder := draft.builder.intern value } := by
  have hmnemonic : Instruction.ofMnemonic? token.text = none := by
    rw [Option.eq_none_iff_forall_ne_some]
    intro instruction hsome
    exact h.noMnemonic instruction (Instruction.ofMnemonic?_eq_some_iff.mp hsome).symm
  have haddress : token.text ≠ "&" := h.noDirective .addressOf
  have hinline : token.text ≠ "ref" := h.noDirective .inline
  rw [item, if_neg h.noSeparator, h.noLabel]
  dsimp only
  rw [if_neg haddress, if_neg hinline, hmnemonic]
  cases literalOf token <;> rfl

end Draft

theorem literalOf_of_parse {token : Token} {value : Literal}
    (h : Literal.parse token.text = .ok value) : literalOf token = .ok value := by
  rw [literalOf, h]
  rfl

theorem parse_eq_error_iff {text : String} :
    Literal.parse text = .error (.invalidLiteral text) ↔ ∀ value, Literal.parse text ≠ .ok value := by
  unfold Literal.parse
  cases Literal.unquote? text.toList with
  | some body => simp
  | none => cases Literal.number? (text.toList.map Char.toLower) <;> simp

theorem literalOf_of_no_parse {token : Token} (h : ∀ value, Literal.parse token.text ≠ .ok value) :
    literalOf token = .error (.located token.place (.invalidLiteral token.text)) := by
  rw [literalOf, parse_eq_error_iff.mpr h]
  rfl

namespace Draft

variable {draft : Draft}

theorem accept_of_idle (h : draft.pending = none) (token : Token) :
    draft.accept token = draft.item token := by
  rw [accept, h]

theorem accept_of_pending {directive : Directive} {owner : Position}
    (h : draft.pending = some (directive, owner)) (token : Token) :
    draft.accept token = draft.argument directive owner token := by
  rw [accept, h]

theorem foldlM_accept_item {item : Item} {first : Token} {more : List Token}
    (hitem : item.Written (first.text :: more.map Token.text)) (hpending : draft.pending = none)
    (hfresh : ∀ name ∈ item.label?, name ∉ draft.labels) :
    (first :: more).foldlM accept draft = .ok (draft.add item first.place) := by
  rw [List.foldlM_cons, accept_of_idle hpending]
  generalize hwords : first.text :: more.map Token.text = words at hitem
  cases hitem with
  | separator h =>
    obtain ⟨hfirst, hmore⟩ := List.cons.inj hwords
    rw [List.map_eq_nil_iff.mp hmore, item_separator (hfirst ▸ h)]
    rfl
  | label h =>
    obtain ⟨hfirst, hmore⟩ := List.cons.inj hwords
    rw [List.map_eq_nil_iff.mp hmore, item_label (hfirst ▸ h), define, if_neg (hfresh _ rfl)]
    rfl
  | address h =>
    obtain ⟨hfirst, hmore⟩ := List.cons.inj hwords
    obtain ⟨token, rfl, rfl⟩ := List.map_eq_singleton_iff.mp hmore
    rw [item_directive hfirst]
    change ([token].foldlM accept _ : Except Fault Draft) = _
    rw [List.foldlM_cons, accept_of_pending rfl, argument, if_neg h, add, refer, refer, ← hpending]
    split <;> rfl
  | inline h hparse =>
    obtain ⟨hfirst, hmore⟩ := List.cons.inj hwords
    obtain ⟨token, rfl, rfl⟩ := List.map_eq_singleton_iff.mp hmore
    rw [item_directive hfirst]
    change ([token].foldlM accept _ : Except Fault Draft) = _
    rw [List.foldlM_cons, accept_of_pending rfl, argument, if_neg h, literalOf_of_parse hparse,
      ← hpending]
    rfl
  | instruction code =>
    obtain ⟨hfirst, hmore⟩ := List.cons.inj hwords
    rw [List.map_eq_nil_iff.mp hmore, item_mnemonic hfirst]
    rfl
  | data h hparse =>
    obtain ⟨hfirst, hmore⟩ := List.cons.inj hwords
    rw [List.map_eq_nil_iff.mp hmore, item_bare (hfirst ▸ h), literalOf_of_parse (hfirst ▸ hparse)]
    rfl

def addAll (draft : Draft) (items : List (Item × Position)) : Draft :=
  items.foldl (fun draft item => draft.add item.1 item.2) draft

@[simp] theorem pending_refer (draft : Draft) (target : String) (place : Position) :
    (draft.refer target place).pending = draft.pending := by
  unfold refer
  split <;> rfl

@[simp] theorem labels_refer (draft : Draft) (target : String) (place : Position) :
    (draft.refer target place).labels = draft.labels := by
  unfold refer
  split <;> rfl

@[simp] theorem pending_add (draft : Draft) (item : Item) (place : Position) :
    (draft.add item place).pending = draft.pending := by
  cases item with
  | address target => exact pending_refer ..
  | _ => rfl

theorem labels_add (draft : Draft) (item : Item) (place : Position) :
    (draft.add item place).labels = item.label?.toList ++ draft.labels := by
  cases item with
  | address target => exact labels_refer ..
  | _ => rfl

@[simp] theorem pending_addAll (draft : Draft) (items : List (Item × Position)) :
    (draft.addAll items).pending = draft.pending := by
  induction items generalizing draft with
  | nil => rfl
  | cons item rest ih => exact (ih _).trans (pending_add ..)

end Draft

theorem Item.labels_cons (item : Item) (place : Position) (rest : List (Item × Position)) :
    Item.labels ((item, place) :: rest) = item.label?.toList ++ Item.labels rest := by
  cases h : item.label? with
  | none => exact List.filterMap_cons_none h
  | some name => exact List.filterMap_cons_some h

theorem Item.perm_labels_cons (item : Item) (place : Position) (rest : List (Item × Position))
    (defined : List String) :
    (Item.labels rest ++ (item.label?.toList ++ defined)).Perm
      (Item.labels ((item, place) :: rest) ++ defined) := by
  rw [Item.labels_cons, ← List.append_assoc]
  exact List.perm_append_comm.append_right _

theorem Draft.perm_labels_addAll (draft : Draft) (items : List (Item × Position)) :
    (draft.addAll items).labels.Perm (Item.labels items ++ draft.labels) := by
  induction items generalizing draft with
  | nil => exact .rfl
  | cons item rest ih =>
    have hrest := ih (draft.add item.1 item.2)
    rw [labels_add] at hrest
    exact hrest.trans (Item.perm_labels_cons ..)

theorem Reading.foldlM_accept {items : List (Item × Position)} {tokens : List Token}
    (h : Reading items tokens) {draft : Draft} (hpending : draft.pending = none)
    (hlabels : (Item.labels items ++ draft.labels).Nodup) :
    tokens.foldlM Draft.accept draft = .ok (draft.addAll items) := by
  induction h generalizing draft with
  | nil => rfl
  | @cons item first more rest items hitem hrest ih =>
    have hlater := (Item.perm_labels_cons item first.place items draft.labels).nodup_iff.mpr hlabels
    have hfresh : ∀ name ∈ item.label?, name ∉ draft.labels := by
      intro name hname hmem
      rw [List.nodup_append, List.nodup_append] at hlater
      exact hlater.2.1.2.2 name (Option.mem_toList.mpr hname) name hmem rfl
    rw [← Draft.labels_add draft item first.place] at hlater
    rw [← List.cons_append, List.foldlM_append, Draft.foldlM_accept_item hitem hpending hfresh]
    exact ih ((Draft.pending_add ..).trans hpending) hlater

namespace Item

theorem Stuck.mono {defined more words : List String} {index : Nat} {cause : Fault}
    (h : Stuck defined words index cause) (hmore : ∀ name ∈ defined, name ∈ more) :
    Stuck more words index cause := by
  cases h with
  | repeated h hdefined => exact .repeated h (hmore _ hdefined)
  | argument h => exact .argument h
  | inline h hparse => exact .inline h hparse
  | data h hparse => exact .data h hparse

theorem exists_written_or_stuck (defined : List String) (word : String) (rest : List String) :
    (∃ item more later, Written item (word :: more) ∧ rest = more ++ later ∧
      ∀ name ∈ item.label?, name ∉ defined) ∨
    ∃ index cause, Stuck defined (word :: rest) index cause := by
  by_cases hseparator : word ∈ [",", ";"]
  · exact .inl ⟨.separator, [], rest, .separator hseparator, rfl, by simp [label?]⟩
  cases hlabel : labelName? word with
  | some name =>
    by_cases hdefined : name ∈ defined
    · exact .inr ⟨0, _, .repeated hlabel hdefined⟩
    · refine .inl ⟨.label name, [], rest, .label hlabel, rfl, ?_⟩
      simpa [label?] using hdefined
  | none =>
    by_cases hdirective : ∃ directive : Directive, word = directive.name
    · obtain ⟨directive, rfl⟩ := hdirective
      cases rest with
      | nil => exact .inr ⟨0, _, .argument (by simp)⟩
      | cons next later =>
        by_cases hargument : IsArgument next
        · cases directive with
          | addressOf =>
            exact .inl ⟨.address next, [next], later, .address hargument, rfl, by simp [label?]⟩
          | inline =>
            by_cases hparse : ∃ value, Literal.parse next = .ok value
            · obtain ⟨value, hparse⟩ := hparse
              exact .inl ⟨.inline value, [next], later, .inline hargument hparse, rfl, by simp [label?]⟩
            · exact .inr ⟨1, _, .inline hargument (not_exists.mp hparse)⟩
        · exact .inr ⟨0, _, .argument (by simpa using hargument)⟩
    · by_cases hmnemonic : ∃ instruction : Instruction, word = instruction.mnemonic
      · obtain ⟨instruction, rfl⟩ := hmnemonic
        exact .inl ⟨.instruction instruction, [], rest, .instruction instruction, rfl, by simp [label?]⟩
      · have hbare : IsBare word :=
          ⟨hseparator, hlabel, not_exists.mp hdirective, not_exists.mp hmnemonic⟩
        by_cases hparse : ∃ value, Literal.parse word = .ok value
        · obtain ⟨value, hparse⟩ := hparse
          exact .inl ⟨.data value, [], rest, .data hbare hparse, rfl, by simp [label?]⟩
        · exact .inr ⟨0, _, .data hbare (not_exists.mp hparse)⟩

end Item

theorem exists_reading (tokens : List Token) (defined : List String) (hdefined : defined.Nodup) :
    ∃ items read rest, tokens = read ++ rest ∧ Reading items read ∧
      (Item.labels items ++ defined).Nodup ∧
      (rest = [] ∨ ∃ index cause,
        Item.Stuck (Item.labels items ++ defined) (rest.map Token.text) index cause) := by
  induction hlength : tokens.length using Nat.strongRecOn generalizing tokens defined with
  | ind length ih =>
    subst hlength
    cases tokens with
    | nil => exact ⟨[], [], [], rfl, .nil, hdefined, .inl rfl⟩
    | cons first tokens =>
      rcases Item.exists_written_or_stuck defined first.text (tokens.map Token.text) with
        ⟨item, words, later, hitem, hsplit, hfresh⟩ | ⟨index, cause, hstuck⟩
      · obtain ⟨more, rest, rfl, rfl, rfl⟩ := List.map_eq_append_iff.mp hsplit
        have hnodup : (item.label?.toList ++ defined).Nodup := by
          cases hlabel : item.label? with
          | none => exact hdefined
          | some name => exact List.nodup_cons.mpr ⟨hfresh name hlabel, hdefined⟩
        have hshorter : rest.length < (first :: (more ++ rest)).length := by
          rw [List.length_cons, List.length_append]
          omega
        obtain ⟨items, read, rest, rfl, hread, hlabels, hend⟩ := ih _ hshorter rest _ hnodup rfl
        have hperm := Item.perm_labels_cons item first.place items defined
        refine ⟨(item, first.place) :: items, first :: (more ++ read), rest, by simp, .cons hitem hread,
          hperm.nodup_iff.mp hlabels, ?_⟩
        refine hend.imp_right ?_
        rintro ⟨index, cause, hstuck⟩
        exact ⟨index, cause, hstuck.mono fun name hname => hperm.mem_iff.mp hname⟩
      · exact ⟨[], [], first :: tokens, rfl, .nil, hdefined, .inr ⟨index, cause, hstuck⟩⟩

theorem reading_cases (tokens : List Token) :
    (∃ items, Reading items tokens ∧ (Item.labels items).Nodup) ∨
    ∃ items read rest index cause, tokens = read ++ rest ∧ Reading items read ∧
      (Item.labels items).Nodup ∧
      Item.Stuck (Item.labels items) (rest.map Token.text) index cause := by
  obtain ⟨items, read, rest, rfl, hread, hlabels, hend⟩ := exists_reading tokens [] .nil
  rw [List.append_nil] at hlabels hend
  rcases hend with rfl | ⟨index, cause, hstuck⟩
  · exact .inl ⟨items, (List.append_nil read).symm ▸ hread, hlabels⟩
  · exact .inr ⟨items, read, rest, index, cause, rfl, hread, hlabels, hstuck⟩

theorem Item.Stuck.fails {draft : Draft} {tokens : List Token} {index : Nat} {cause : Fault}
    (h : Item.Stuck draft.labels (tokens.map Token.text) index cause) (hpending : draft.pending = none) :
    ∃ token, tokens[index]? = some token ∧
      (tokens.foldlM Draft.accept draft >>= Draft.finish) = .error (.located token.place cause) := by
  generalize hwords : tokens.map Token.text = words at h
  cases h with
  | repeated h hdefined =>
    obtain ⟨token, rest, rfl, rfl, -⟩ := List.map_eq_cons_iff.mp hwords
    refine ⟨token, rfl, ?_⟩
    rw [List.foldlM_cons, Draft.accept_of_idle hpending, Draft.item_label h, Draft.define,
      if_pos hdefined]
    rfl
  | argument h =>
    obtain ⟨token, rest, rfl, hdirective, rfl⟩ := List.map_eq_cons_iff.mp hwords
    refine ⟨token, rfl, ?_⟩
    rw [List.foldlM_cons, Draft.accept_of_idle hpending, Draft.item_directive hdirective]
    cases rest with
    | nil => rfl
    | cons next rest =>
      have hnext : ¬ IsArgument next.text := h _ rfl
      change (((next :: rest).foldlM Draft.accept _ : Except Fault Draft) >>= Draft.finish) = _
      rw [List.foldlM_cons, Draft.accept_of_pending rfl, Draft.argument.eq_def,
        if_pos (Decidable.not_not.mp hnext)]
      rfl
  | inline h hparse =>
    obtain ⟨token, rest, rfl, hdirective, hrest⟩ := List.map_eq_cons_iff.mp hwords
    obtain ⟨next, rest, rfl, rfl, -⟩ := List.map_eq_cons_iff.mp hrest
    refine ⟨next, rfl, ?_⟩
    rw [List.foldlM_cons, Draft.accept_of_idle hpending, Draft.item_directive hdirective]
    change (((next :: rest).foldlM Draft.accept _ : Except Fault Draft) >>= Draft.finish) = _
    rw [List.foldlM_cons, Draft.accept_of_pending rfl, Draft.argument, if_neg h,
      literalOf_of_no_parse hparse]
    rfl
  | data h hparse =>
    obtain ⟨token, rest, rfl, rfl, -⟩ := List.map_eq_cons_iff.mp hwords
    refine ⟨token, rfl, ?_⟩
    rw [List.foldlM_cons, Draft.accept_of_idle hpending, Draft.item_bare h,
      literalOf_of_no_parse hparse]
    rfl

end Assembly

end RegisterMachine
