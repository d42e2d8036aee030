import RegisterMachine.Proofs.Items
import RegisterMachine.Proofs.Pieces

/-!
What is made of the tokens of a source. The program is that of the items, and a fault is about the first
item that cannot be taken or about the first address without a label. The places of the tokens, which
increase, decide only where the fault is reported.
-/
namespace RegisterMachine.Assembly

def program (tokens : List Token) : Except Fault Builder :=
  tokens.foldlM Draft.accept {} >>= Draft.finish

theorem parse_eq (source : String) : parse source = lexicon.tokenize source >>= program := rfl

theorem assemble_of_tokenize {source : String} {tokens : List Token}
    (h : lexicon.tokenize source = .ok tokens) :
    assemble source = program tokens >>= Builder.toImage := by
  unfold assemble
  rw [parse_eq, h]
  rfl

structure Firsts (table : Table String Position) (references : List (String × Position)) : Prop where
  mem : ∀ entry ∈ table.entries, entry ∈ references
  first : ∀ reference ∈ references, ∃ entry ∈ table.entries,
    entry.1 = reference.1 ∧ entry.2 ≤ reference.2

theorem Firsts.refer {draft : Draft} {references : List (String × Position)}
    (h : Firsts draft.references references) {target : String} {place : Position}
    (hlater : ∀ reference ∈ references, reference.2 < place) :
    Firsts (draft.refer target place).references (references ++ [(target, place)]) := by
  unfold Draft.refer
  split
  · rename_i hcontains
    obtain ⟨entry, hentry, htarget⟩ := Table.contains_iff.mp hcontains
    refine ⟨fun other hother => List.mem_append_left _ (h.mem other hother), fun reference hmem => ?_⟩
    rcases List.mem_append.mp hmem with hmem | hmem
    · exact h.first reference hmem
    · rw [List.mem_singleton.mp hmem]
      exact ⟨entry, hentry, htarget, Position.le_of_lt (hlater entry (h.mem entry hentry))⟩
  · rename_i hcontains
    have hother : ∀ entry ∈ draft.references.entries, entry.1 ≠ target := by
      intro entry hentry htarget
      exact hcontains (Table.contains_iff.mpr ⟨entry, hentry, htarget⟩)
    have hentries : (draft.references.insert target place).entries =
        (target, place) :: draft.references.entries := by
      unfold Table.insert Table.erase
      rw [List.filter_eq_self.mpr (by simpa using hother)]
    refine ⟨fun entry hmem => ?_, fun reference hmem => ?_⟩
    · rw [hentries] at hmem
      rcases List.mem_cons.mp hmem with rfl | hmem
      · exact List.mem_append_right _ List.mem_cons_self
      · exact List.mem_append_left _ (h.mem entry hmem)
    · rw [hentries]
      rcases List.mem_append.mp hmem with hmem | hmem
      · obtain ⟨entry, hentry, hfirst⟩ := h.first reference hmem
        exact ⟨entry, List.mem_cons_of_mem _ hentry, hfirst⟩
      · rw [List.mem_singleton.mp hmem]
        exact ⟨_, List.mem_cons_self, rfl, Std.le_refl _⟩

theorem Item.references_cons (item : Item) (place : Position) (rest : List (Item × Position)) :
    Item.references ((item, place) :: rest) =
      (item.target?.map (·, place)).toList ++ Item.references rest := by
  cases h : item.target? with
  | none => exact List.filterMap_cons_none (by rw [h]; rfl)
  | some name => exact List.filterMap_cons_some (by rw [h]; rfl)

theorem Firsts.add {draft : Draft} {references : List (String × Position)}
    (h : Firsts draft.references references) {item : Item} {place : Position}
    (hplaces : (references ++ (item.target?.map (·, place)).toList).Pairwise (·.2 < ·.2)) :
    Firsts (draft.add item place).references
      (references ++ (item.target?.map (·, place)).toList) := by
  cases item with
  | address target =>
    refine h.refer fun reference hmem => ?_
    exact (List.pairwise_append.mp hplaces).2.2 reference hmem _ List.mem_cons_self
  | _ => exact (List.append_nil references).symm ▸ h

theorem Firsts.addAll {draft : Draft} {references : List (String × Position)}
    (h : Firsts draft.references references) {items : List (Item × Position)}
    (hplaces : (references ++ Item.references items).Pairwise (·.2 < ·.2)) :
    Firsts (draft.addAll items).references (references ++ Item.references items) := by
  induction items generalizing draft references with
  | nil => exact (List.append_nil references).symm ▸ h
  | cons item rest ih =>
    rw [Item.references_cons, ← List.append_assoc] at hplaces ⊢
    exact ih (h.add (List.pairwise_append.mp hplaces).1) hplaces

theorem Firsts.minOn?_eq {table : Table String Position} {references : List (String × Position)}
    (h : Firsts table references) (hplaces : references.Pairwise (·.2 < ·.2)) (p : String → Bool) :
    (table.entries.filter fun entry => p entry.1).minOn? Prod.snd =
      references.find? fun reference => p reference.1 := by
  cases hfind : references.find? fun reference => p reference.1 with
  | none =>
    have hnone : table.entries.filter (fun entry => p entry.1) = [] := by
      rw [List.filter_eq_nil_iff]
      intro entry hentry
      exact List.find?_eq_none.mp hfind entry (h.mem entry hentry)
    rw [hnone]
    rfl
  | some found =>
    obtain ⟨hfound, before, after, hsplit, hbefore⟩ := List.find?_eq_some_iff_append.mp hfind
    have hleast : ∀ other ∈ references, p other.1 = true → other = found ∨ found.2 < other.2 := by
      intro other hother hp
      rw [hsplit] at hother hplaces
      rcases List.mem_append.mp hother with hother | hother
      · exact absurd hp (by simpa using hbefore other hother)
      · refine (List.mem_cons.mp hother).imp_right fun hother => ?_
        exact (List.pairwise_cons.mp (List.pairwise_append.mp hplaces).2.1).1 other hother
    have hmem : found ∈ table.entries.filter fun entry => p entry.1 := by
      obtain ⟨entry, hentry, htarget, hplace⟩ := h.first found (List.mem_of_find?_eq_some hfind)
      rcases hleast entry (h.mem entry hentry) (htarget ▸ hfound) with rfl | hlt
      · exact List.mem_filter.mpr ⟨hentry, hfound⟩
      · exact absurd hplace (Position.not_le_of_lt hlt)
    have hsome : ((table.entries.filter fun entry => p entry.1).minOn? Prod.snd).isSome :=
      List.isSome_minOn?_of_mem hmem
    have hle : (Option.get _ hsome).2 ≤ found.2 := List.apply_get_minOn?_le_of_mem hmem
    obtain ⟨least, hminOn⟩ := Option.isSome_iff_exists.mp hsome
    simp only [hminOn, Option.get_some] at hle
    obtain ⟨hentry, hp⟩ := List.mem_filter.mp (List.minOn?_mem hminOn)
    rcases hleast least (h.mem least hentry) hp with rfl | hlt
    · exact hminOn
    · exact absurd hle (Position.not_le_of_lt hlt)

def Item.undefined? (items : List (Item × Position)) : Option (String × Position) :=
  (Item.references items).find? fun reference =>
    !(Builder.ofEdits (Item.edits items)).defines reference.1

theorem Draft.builder_addAll (draft : Draft) (items : List (Item × Position)) :
    (draft.addAll items).builder = (Item.edits items).foldl Builder.apply draft.builder := by
  induction items generalizing draft with
  | nil => rfl
  | cons item rest ih =>
    obtain ⟨item, place⟩ := item
    have hrest := ih (draft.add item place)
    cases item <;> exact hrest

theorem Reading.sublist_places {items : List (Item × Position)} {tokens : List Token}
    (h : Reading items tokens) :
    ((Item.references items).map Prod.snd).Sublist (tokens.map Token.place) := by
  induction h with
  | nil => exact .slnil
  | @cons item first more rest items hitem hrest ih =>
    have hlater := ih.trans (List.sublist_append_right (more.map Token.place) _)
    rw [Item.references_cons, List.map_cons, List.map_append, List.map_append]
    cases item.target? with
    | none => exact hlater.cons _
    | some target => exact hlater.cons_cons _

theorem Reading.places {items : List (Item × Position)} {tokens : List Token}
    (h : Reading items tokens) (hplaces : tokens.Pairwise (·.place < ·.place)) :
    (Item.references items).Pairwise (·.2 < ·.2) :=
  List.pairwise_map.mp ((List.pairwise_map.mpr hplaces).sublist h.sublist_places)

theorem program_of_reading {items : List (Item × Position)} {tokens : List Token}
    (h : Reading items tokens) (hlabels : (Item.labels items).Nodup)
    (hplaces : tokens.Pairwise (·.place < ·.place)) :
    program tokens =
      match Item.undefined? items with
      | some (target, place) => .error (.located place (.undefinedLabel target))
      | none => .ok (Builder.ofEdits (Item.edits items)) := by
  have haccept : tokens.foldlM Draft.accept {} = .ok (({} : Draft).addAll items) :=
    h.foldlM_accept rfl (by rwa [List.append_nil])
  have hempty : Firsts ({} : Draft).references [] := ⟨by simp, by simp⟩
  have hfirsts : Firsts (({} : Draft).addAll items).references (Item.references items) :=
    hempty.addAll (h.places hplaces)
  have hbuilder : (({} : Draft).addAll items).builder = Builder.ofEdits (Item.edits items) :=
    Draft.builder_addAll {} items
  have hundefined : (({} : Draft).addAll items).undefined? = Item.undefined? items := by
    unfold Draft.undefined?
    rw [hbuilder]
    exact hfirsts.minOn?_eq (h.places hplaces)
      fun name => !(Builder.ofEdits (Item.edits items)).defines name
  unfold program
  rw [haccept]
  change (({} : Draft).addAll items).finish = _
  cases hcase : Item.undefined? items with
  | none =>
    rw [hcase] at hundefined
    simp only [Draft.finish, Draft.pending_addAll, hundefined, hbuilder]
  | some reference =>
    rw [hcase] at hundefined
    simp only [Draft.finish, Draft.pending_addAll, hundefined]

theorem program_of_stuck {items : List (Item × Position)} {read rest : List Token}
    (h : Reading items read) (hlabels : (Item.labels items).Nodup) {index : Nat} {cause : Fault}
    (hstuck : Item.Stuck (Item.labels items) (rest.map Token.text) index cause) :
    ∃ token, rest[index]? = some token ∧
      program (read ++ rest) = .error (.located token.place cause) := by
  have haccept : read.foldlM Draft.accept {} = .ok (({} : Draft).addAll items) :=
    h.foldlM_accept rfl (by rwa [List.append_nil])
  have hdefined := hstuck.mono fun name hname =>
    (Draft.perm_labels_addAll {} items).mem_iff.mpr (List.mem_append_left _ hname)
  obtain ⟨token, htoken, hfails⟩ := hdefined.fails (Draft.pending_addAll {} items)
  refine ⟨token, htoken, ?_⟩
  unfold program
  rw [List.foldlM_append, haccept]
  exact hfails

theorem Reading.of_texts {items : List (Item × Position)} {tokens : List Token}
    (h : Reading items tokens) {others : List Token}
    (hsame : others.map Token.text = tokens.map Token.text) :
    ∃ moved, Reading moved others ∧ moved.map Prod.fst = items.map Prod.fst := by
  induction h generalizing others with
  | nil => exact ⟨[], List.map_eq_nil_iff.mp hsame ▸ .nil, rfl⟩
  | @cons item first more rest items hitem hrest ih =>
    rw [List.map_cons, List.map_append] at hsame
    obtain ⟨head, tail, rfl, hhead, htail⟩ := List.map_eq_cons_iff.mp hsame
    obtain ⟨middle, last, rfl, hmiddle, hlast⟩ := List.map_eq_append_iff.mp htail
    obtain ⟨moved, hmoved, hitems⟩ := ih hlast
    rw [← hhead, ← hmiddle] at hitem
    exact ⟨(item, head.place) :: moved, .cons hitem hmoved, congrArg (item :: ·) hitems⟩

theorem Item.labels_eq (items : List (Item × Position)) :
    Item.labels items = (items.map Prod.fst).filterMap Item.label? := by
  rw [List.filterMap_map]
  rfl

theorem Item.edits_eq (items : List (Item × Position)) :
    Item.edits items = (items.map Prod.fst).filterMap Item.edit? := by
  rw [List.filterMap_map]
  rfl

theorem Item.targets_eq (items : List (Item × Position)) :
    (Item.references items).map Prod.fst = (items.map Prod.fst).filterMap Item.target? := by
  rw [Item.references, List.map_filterMap, List.filterMap_map]
  congr 1
  funext item
  simp [Function.comp_def]

theorem Item.undefined?_eq (items : List (Item × Position)) :
    (Item.undefined? items).map Prod.fst =
      ((Item.references items).map Prod.fst).find? fun name =>
        !(Builder.ofEdits (Item.edits items)).defines name := by
  rw [List.find?_map]
  rfl

/-- Two results that differ at most in the place of a fault. -/
inductive Alike {α : Type} : Except Fault α → Except Fault α → Prop
  | same (result : Except Fault α) : Alike result result
  | moved (cause : Fault) (place other : Position) :
      Alike (.error (.located place cause)) (.error (.located other cause))

theorem Alike.bind {α β : Type} {first second : Except Fault α} (h : Alike first second)
    (next : α → Except Fault β) : Alike (first >>= next) (second >>= next) := by
  cases h with
  | same => exact .same _
  | moved cause place other => exact .moved cause place other

theorem Reading.alike {items moved : List (Item × Position)} {tokens others : List Token}
    (h : Reading items tokens) (hmoved : Reading moved others)
    (hitems : moved.map Prod.fst = items.map Prod.fst) (hlabels : (Item.labels items).Nodup)
    (hplaces : tokens.Pairwise (·.place < ·.place)) (hothers : others.Pairwise (·.place < ·.place)) :
    Alike (program tokens) (program others) := by
  have hsameLabels : Item.labels moved = Item.labels items := by
    rw [Item.labels_eq, Item.labels_eq, hitems]
  have hedits : Item.edits moved = Item.edits items := by
    rw [Item.edits_eq, Item.edits_eq, hitems]
  have htarget : (Item.undefined? moved).map Prod.fst = (Item.undefined? items).map Prod.fst := by
    rw [Item.undefined?_eq, Item.undefined?_eq, Item.targets_eq, Item.targets_eq, hitems, hedits]
  rw [program_of_reading h hlabels hplaces, program_of_reading hmoved (hsameLabels ▸ hlabels) hothers,
    hedits]
  cases hfirst : Item.undefined? items with
  | none =>
    rw [hfirst, Option.map_none, Option.map_eq_none_iff] at htarget
    rw [htarget]
    exact .same _
  | some reference =>
    rw [hfirst, Option.map_some, Option.map_eq_some_iff] at htarget
    obtain ⟨target, place⟩ := reference
    obtain ⟨⟨_, other⟩, hother, rfl⟩ := htarget
    rw [hother]
    exact .moved ..

theorem program_alike {tokens others : List Token}
    (hsame : others.map Token.text = tokens.map Token.text)
    (hplaces : tokens.Pairwise (·.place < ·.place)) (hothers : others.Pairwise (·.place < ·.place)) :
    Alike (program tokens) (program others) := by
  rcases reading_cases tokens with
    ⟨items, hread, hlabels⟩ | ⟨items, read, rest, index, cause, rfl, hread, hlabels, hstuck⟩
  · obtain ⟨moved, hmoved, hitems⟩ := hread.of_texts hsame
    exact hread.alike hmoved hitems hlabels hplaces hothers
  · rw [List.map_append] at hsame
    obtain ⟨otherRead, otherRest, rfl, hsameRead, hsameRest⟩ := List.map_eq_append_iff.mp hsame
    obtain ⟨moved, hmoved, hitems⟩ := hread.of_texts hsameRead
    have hsameLabels : Item.labels moved = Item.labels items := by
      rw [Item.labels_eq, Item.labels_eq, hitems]
    obtain ⟨token, -, hfails⟩ := program_of_stuck hread hlabels hstuck
    rw [← hsameLabels, ← hsameRest] at hstuck
    obtain ⟨other, -, hotherFails⟩ := program_of_stuck hmoved (hsameLabels ▸ hlabels) hstuck
    rw [hfails, hotherFails]
    exact .moved ..

theorem lexicon_sparesLineEnd : lexicon.SparesLineEnd := ⟨by decide, by decide⟩

/-- Assembling does not depend on the layout of a source. Two sources with the same words assemble to the
same image, or fail with the same fault but for its place. -/
theorem assembly_ignores_layout (source other : String) (tokens others : List Token)
    (htokens : lexicon.tokenize source = .ok tokens) (hothers : lexicon.tokenize other = .ok others)
    (hsame : tokens.map Token.text = others.map Token.text) :
    (∃ image, assemble source = .ok image ∧ assemble other = .ok image) ∨
    (∃ place moved cause, assemble source = .error (.located place cause) ∧
      assemble other = .error (.located moved cause)) ∨
    ∃ fault, assemble source = .error fault ∧ assemble other = .error fault := by
  have hplaces := Token.pairwise_tokenize lexicon_sparesLineEnd htokens
  have hmoved := Token.pairwise_tokenize lexicon_sparesLineEnd hothers
  have halike := (program_alike hsame.symm hplaces hmoved).bind Builder.toImage
  rw [← assemble_of_tokenize htokens, ← assemble_of_tokenize hothers] at halike
  generalize assemble source = result, assemble other = second at halike
  cases halike with
  | same =>
    cases result with
    | ok image => exact .inl ⟨image, rfl, rfl⟩
    | error fault => exact .inr (.inr ⟨fault, rfl, rfl⟩)
  | moved cause place other => exact .inr (.inl ⟨place, other, cause, rfl, rfl⟩)

theorem assembly_ignores_layout_undefined :
    lexicon.tokenize "&b &a" = .ok [⟨"&", 1, 1⟩, ⟨"b", 1, 2⟩, ⟨"&", 1, 4⟩, ⟨"a", 1, 5⟩] ∧
    lexicon.tokenize " & b;&\n&\ta" = .ok [⟨"&", 1, 2⟩, ⟨"b", 1, 4⟩, ⟨"&", 2, 1⟩, ⟨"a", 2, 3⟩] ∧
    ((∃ image, assemble "&b &a" = .ok image ∧ assemble " & b;&\n&\ta" = .ok image) ∨
    (∃ place moved cause, assemble "&b &a" = .error (.located place cause) ∧
      assemble " & b;&\n&\ta" = .error (.located moved cause)) ∨
    ∃ fault, assemble "&b &a" = .error fault ∧ assemble " & b;&\n&\ta" = .error fault) := by
  have htokens : lexicon.tokenize "&b &a" =
      .ok [⟨"&", 1, 1⟩, ⟨"b", 1, 2⟩, ⟨"&", 1, 4⟩, ⟨"a", 1, 5⟩] := by decide
  have hothers : lexicon.tokenize " & b;&\n&\ta" =
      .ok [⟨"&", 1, 2⟩, ⟨"b", 1, 4⟩, ⟨"&", 2, 1⟩, ⟨"a", 2, 3⟩] := by decide
  exact ⟨htokens, hothers, assembly_ignores_layout _ _ _ _ htokens hothers rfl⟩

end RegisterMachine.Assembly
