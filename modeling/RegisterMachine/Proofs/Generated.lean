import RegisterMachine.Proofs.Building
import RegisterMachine.Proofs.Decimal

/-!
The labels of a program that is made from items: those that the items define and those that are made up
for the entries of the data section, one for each literal that occurs. So all addresses have a label as
soon as the targets have one, and the second pass can fail only where an item defines a label of the
second kind or a text is too long.
-/
namespace RegisterMachine

namespace Assembly

def dataName (index : Nat) : String := "DTA_" ++ Numeral.decimal index

theorem dataName_injective {n m : Nat} (h : dataName n = dataName m) : n = m :=
  Numeral.decimal_injective (String.append_right_inj _ |>.mp h)

namespace Item

def literals (items : List (Item × Position)) : List Literal :=
  (items.filterMap (·.1.literal?)).eraseDups

def generated (items : List (Item × Position)) : List String :=
  (List.range (literals items).length).map dataName

def Defines (items : List (Item × Position)) (name : String) : Prop :=
  name ∈ labels items ∨ name ∈ generated items

theorem nodup_generated (items : List (Item × Position)) : (generated items).Nodup :=
  List.Pairwise.map dataName (fun _ _ hne heq => hne (dataName_injective heq)) List.nodup_range

end Item

namespace Builder

open Object

/-- The data section holds each of the literals once, under names that are numbered from zero on. -/
structure Numbered (builder : Builder) (values : List Literal) : Prop where
  made : builder.made = builder.data.toList.length
  names : builder.data.toList.map Entry.name = (List.range builder.data.toList.length).map dataName
  literals : builder.data.toList.map Entry.literal = values.eraseDups

theorem numbered_empty : Numbered {} [] := ⟨rfl, rfl, rfl⟩

theorem eraseDups_concat (values : List Literal) (value : Literal) :
    (values ++ [value]).eraseDups =
      if value ∈ values then values.eraseDups else values.eraseDups ++ [value] := by
  rw [List.eraseDups_append]
  split <;> simp [List.removeAll, List.eraseDups_cons, *]

theorem Numbered.intern {builder : Builder} {values : List Literal} (h : Numbered builder values)
    (value : Literal) : Numbered (builder.intern value) (values ++ [value]) := by
  have hmem : value ∈ values ↔ ∃ entry ∈ builder.data, entry.literal = value := by
    rw [← List.mem_eraseDups, ← h.literals, List.mem_map]
    simp only [Array.mem_toList_iff]
  unfold Builder.intern
  cases hfind : builder.data.find? (·.literal = value) with
  | some entry =>
    have hold : value ∈ values := hmem.mpr ⟨entry, Array.mem_of_find?_eq_some hfind, by
      simpa using Array.find?_some hfind⟩
    refine ⟨h.made, h.names, ?_⟩
    rw [eraseDups_concat, if_pos hold]
    exact h.literals
  | none =>
    have hnew : value ∉ values := by
      rw [hmem]
      simpa using Array.find?_eq_none.mp hfind
    have hdata : ({ builder with made := builder.made + 1 }.dataNamed
        ("DTA_" ++ Numeral.decimal builder.made) value).data.toList =
        builder.data.toList ++ [⟨dataName builder.made, value⟩] := Array.toList_push ..
    refine ⟨?_, ?_, ?_⟩
    · rw [hdata, List.length_append, ← h.made]
      rfl
    · rw [hdata, List.map_append, h.names, h.made, List.length_append, List.length_singleton,
        List.range_succ, List.map_append]
      rfl
    · rw [hdata, List.map_append, h.literals, eraseDups_concat, if_neg hnew]
      rfl

theorem labels_entries (entries : List Entry) :
    Object.labels (entries.flatMap Entry.objects) = entries.map Entry.name := by
  induction entries with
  | nil => rfl
  | cons entry rest ih =>
    rw [List.flatMap_cons, List.map_cons, ← ih]
    rfl

theorem filterMap_concat {α β : Type} (f : α → Option β) (list : List α) (last : α) :
    (list ++ [last]).filterMap f = list.filterMap f ++ (f last).toList := by
  rw [List.filterMap_append]
  cases h : f last <;> simp [h]

/-- The labels and the literals of items, as they stand in a builder. -/
structure Holds (builder : Builder) (items : List (Item × Position)) : Prop where
  labels : Object.labels builder.text.toList = Item.labels items
  numbered : Numbered builder (items.filterMap (·.1.literal?))

variable {builder : Builder} {items : List (Item × Position)}

theorem Holds.emit (h : Holds builder items) {item : Item} {object : Object} (place : Position)
    (hlabel : object.label? = item.label?) (hliteral : item.literal? = none) :
    Holds (builder.emit object) (items ++ [(item, place)]) := by
  have htext : (builder.emit object).text.toList = builder.text.toList ++ [object] :=
    Array.toList_push ..
  refine ⟨?_, ?_⟩
  · rw [htext, Object.labels, Item.labels, filterMap_concat, filterMap_concat, hlabel]
    exact congrArg (· ++ item.label?.toList) h.labels
  · rw [filterMap_concat, hliteral, Option.toList_none, List.append_nil]
    exact ⟨h.numbered.made, h.numbered.names, h.numbered.literals⟩

theorem Holds.add (h : Holds builder items) (item : Item) (place : Position) :
    Holds (item.edit?.toList.foldl apply builder) (items ++ [(item, place)]) := by
  cases item with
  | separator =>
    refine ⟨?_, ?_⟩
    · rw [Item.labels, filterMap_concat]
      exact h.labels.trans (List.append_nil _).symm
    · rw [filterMap_concat]
      exact (List.append_nil (items.filterMap (·.1.literal?))).symm ▸ h.numbered
  | label name => exact h.emit place rfl rfl
  | address target => exact h.emit place rfl rfl
  | inline value => exact h.emit place rfl rfl
  | instruction code => exact h.emit place rfl rfl
  | data value =>
    obtain ⟨entry, -, htext, -⟩ := builder.intern_cases value
    refine ⟨?_, ?_⟩
    · change Object.labels (builder.intern value).text.toList = _
      rw [htext, Object.labels, Item.labels, filterMap_concat, filterMap_concat]
      exact congrArg (· ++ []) h.labels
    · rw [filterMap_concat]
      exact h.numbered.intern value

theorem Holds.addAll (h : Holds builder items) (more : List (Item × Position)) :
    Holds ((Item.edits more).foldl apply builder) (items ++ more) := by
  induction more generalizing builder items with
  | nil => exact (List.append_nil items).symm ▸ h
  | cons item rest ih =>
    have hedits : Item.edits (item :: rest) = item.1.edit?.toList ++ Item.edits rest := by
      unfold Item.edits
      rw [List.filterMap_cons]
      cases item.1.edit? <;> rfl
    rw [hedits, List.foldl_append, List.append_cons]
    exact ih (h.add item.1 item.2)

theorem holds_ofEdits (items : List (Item × Position)) :
    Holds (ofEdits (Item.edits items)) items := by
  have hempty : Holds {} [] := ⟨rfl, numbered_empty⟩
  exact hempty.addAll items

theorem literals_ofEdits (items : List (Item × Position)) :
    (ofEdits (Item.edits items)).data.toList.map Entry.literal = Item.literals items :=
  (holds_ofEdits items).numbered.literals

theorem names_ofEdits (items : List (Item × Position)) :
    (ofEdits (Item.edits items)).data.toList.map Entry.name = Item.generated items := by
  rw [(holds_ofEdits items).numbered.names, Item.generated, ← literals_ofEdits, List.length_map]

theorem labels_ofEdits (items : List (Item × Position)) :
    Object.labels (ofEdits (Item.edits items)).objects = Item.labels items ++ Item.generated items := by
  rw [← names_ofEdits, ← labels_entries, ← (holds_ofEdits items).labels]
  exact List.filterMap_append

theorem defines_ofEdits {items : List (Item × Position)} {name : String} :
    (ofEdits (Item.edits items)).defines name = true ↔ Item.Defines items name := by
  unfold defines Item.Defines
  rw [decide_eq_true_iff, ← mem_labels, labels_ofEdits, List.mem_append]

end Builder

def Edit.object? : Edit → Option Object
  | .instruction code => some (.literal (.byte code.opcode))
  | .literal value => some (.literal value)
  | .label name => some (.label name)
  | .addressOf name => some (.addressOf name)
  | .dataNamed _ _ | .intern _ => none

namespace Builder

open Object

variable {builder : Builder} {object : Object}

theorem mem_text_apply {edit : Edit} (h : object ∈ (builder.apply edit).text.toList) :
    object ∈ builder.text.toList ∨ edit.object? = some object ∨
      ∃ entry ∈ (builder.apply edit).data.toList, object = .addressOf entry.name := by
  have hemit {own : Object} (hown : edit.object? = some own)
      (hmem : object ∈ (builder.emit own).text.toList) :
      object ∈ builder.text.toList ∨ edit.object? = some object ∨
        ∃ entry ∈ (builder.apply edit).data.toList, object = .addressOf entry.name := by
    rw [emit, Array.toList_push, List.mem_append, List.mem_singleton] at hmem
    rcases hmem with hmem | rfl
    · exact .inl hmem
    · exact .inr (.inl hown)
  cases edit with
  | dataNamed name value =>
    rw [apply, dataNamed, addressOf, emit, Array.toList_push, List.mem_append, List.mem_singleton] at h
    refine h.imp_right fun hobject => .inr ⟨⟨name, value⟩, ?_, hobject⟩
    simp [apply, dataNamed, addressOf, emit]
  | intern value =>
    obtain ⟨entry, hfind, htext, -⟩ := builder.intern_cases value
    rw [apply, htext, List.mem_append, List.mem_singleton] at h
    exact h.imp_right fun hobject => .inr ⟨entry, List.mem_of_find?_eq_some hfind, hobject⟩
  | _ => exact hemit rfl h

theorem mem_text_foldl_apply {edits : List Edit}
    (h : object ∈ (edits.foldl apply builder).text.toList) :
    object ∈ builder.text.toList ∨ (∃ edit ∈ edits, edit.object? = some object) ∨
      ∃ entry ∈ (edits.foldl apply builder).data.toList, object = .addressOf entry.name := by
  induction edits generalizing builder with
  | nil => exact .inl h
  | cons edit rest ih =>
    rcases ih h with hmem | ⟨other, hother, hobject⟩ | hentry
    · rcases mem_text_apply hmem with hmem | hobject | ⟨entry, hentry, hobject⟩
      · exact .inl hmem
      · exact .inr (.inl ⟨edit, List.mem_cons_self, hobject⟩)
      · have hlater := (extends_foldl_apply rest (builder.apply edit)).data.subset hentry
        exact .inr (.inr ⟨entry, hlater, hobject⟩)
    · exact .inr (.inl ⟨other, List.mem_cons_of_mem _ hother, hobject⟩)
    · exact .inr (.inr hentry)

end Builder

namespace Item

open Builder Object

variable {items : List (Item × Position)}

theorem mem_objects {object : Object} (h : object ∈ (ofEdits (edits items)).objects) :
    (∃ item ∈ items, ∃ edit, item.1.edit? = some edit ∧ edit.object? = some object) ∨
      ∃ entry ∈ (ofEdits (edits items)).data.toList,
        object ∈ [.addressOf entry.name, .label entry.name, .literal entry.literal] := by
  rcases List.mem_append.mp h with htext | hdata
  · rcases mem_text_foldl_apply htext with hnone | ⟨edit, hedit, hobject⟩ | ⟨entry, hentry, hobject⟩
    · cases hnone
    · obtain ⟨item, hitem, hsome⟩ := List.mem_filterMap.mp hedit
      exact .inl ⟨item, hitem, edit, hsome, hobject⟩
    · exact .inr ⟨entry, hentry, hobject ▸ List.mem_cons_self⟩
  · obtain ⟨entry, hentry, hobject⟩ := List.mem_flatMap.mp hdata
    exact .inr ⟨entry, hentry, List.mem_cons_of_mem _ hobject⟩

theorem addressOf_mem_objects {name : String} (h : .addressOf name ∈ (ofEdits (edits items)).objects) :
    (∃ place, (name, place) ∈ references items) ∨ name ∈ generated items := by
  rcases mem_objects h with ⟨⟨item, place⟩, hitem, edit, hedit, hobject⟩ | ⟨entry, hentry, hobject⟩
  · refine .inl ⟨place, List.mem_filterMap.mpr ⟨_, hitem, ?_⟩⟩
    cases item <;> cases hedit <;> cases hobject
    rfl
  · have hname : name = entry.name := by simpa using hobject
    rw [← names_ofEdits, hname]
    exact .inr (List.mem_map_of_mem hentry)

theorem text_mem_objects {text : String}
    (h : .literal (.text text) ∈ (ofEdits (edits items)).objects) :
    ∃ place, (Item.inline (.text text), place) ∈ items ∨ (Item.data (.text text), place) ∈ items := by
  rcases mem_objects h with ⟨⟨item, place⟩, hitem, edit, hedit, hobject⟩ | ⟨entry, hentry, hobject⟩
  · cases item <;> cases hedit <;> cases hobject
    exact ⟨place, .inl hitem⟩
  · have hliteral : .text text = entry.literal := by simpa using hobject
    have hmem : .text text ∈ literals items := by
      rw [← literals_ofEdits, hliteral]
      exact List.mem_map_of_mem hentry
    rw [literals, List.mem_eraseDups, List.mem_filterMap] at hmem
    obtain ⟨⟨item, place⟩, hitem, hvalue⟩ := hmem
    cases item <;> cases hvalue
    exact ⟨place, .inr hitem⟩

end Item

namespace Builder

open Object

theorem exists_of_mapM_error {α β : Type} {f : α → Except Fault β} {list : List α} {fault : Fault}
    (h : list.mapM f = .error fault) : ∃ a ∈ list, f a = .error fault := by
  induction list with
  | nil => cases h
  | cons a rest ih =>
    rw [List.mapM_cons] at h
    cases ha : f a with
    | error cause =>
      rw [ha] at h
      cases h
      exact ⟨a, List.mem_cons_self, ha⟩
    | ok b =>
      rw [ha] at h
      cases hrest : rest.mapM f with
      | error cause =>
        rw [hrest] at h
        cases h
        obtain ⟨other, hother, hfault⟩ := ih hrest
        exact ⟨other, List.mem_cons_of_mem _ hother, hfault⟩
      | ok more =>
        rw [hrest] at h
        cases h

theorem encode_undefinedLabel {table : Table String Nat} {object : Object} {name : String}
    (h : encode table object = .error (.undefinedLabel name)) :
    object = .addressOf name ∧ table.find? name = none := by
  cases object with
  | label other => cases h
  | addressOf other =>
    rw [encode] at h
    split at h
    · cases h
    · rename_i hfind
      cases h
      exact ⟨rfl, hfind⟩
  | literal value =>
    cases value with
    | text text =>
      rw [encode, Literal.encode] at h
      split at h <;> cases h
    | _ => cases h

theorem toBytes_undefinedLabel {builder : Builder} {name : String}
    (h : builder.toBytes = .error (.undefinedLabel name)) :
    .addressOf name ∈ builder.objects ∧ .label name ∉ builder.objects := by
  unfold toBytes at h
  rcases place_empty_cases builder.objects with ⟨table, hplace, -⟩ | ⟨other, before, hplace, -⟩
  · rw [hplace] at h
    change (builder.objects.mapM (encode table) >>= fun parts => pure parts.flatten) = _ at h
    cases hparts : builder.objects.mapM (encode table) with
    | ok parts =>
      rw [hparts] at h
      cases h
    | error cause =>
      rw [hparts] at h
      cases h
      obtain ⟨object, hobject, hencode⟩ := exists_of_mapM_error hparts
      obtain ⟨rfl, hfind⟩ := encode_undefinedLabel hencode
      refine ⟨hobject, fun hlabel => ?_⟩
      obtain ⟨address, hplaced⟩ := mem_labels_iff_placedAt.mp (mem_labels.mpr hlabel)
      rw [(find?_of_place_empty hplace name address).mpr hplaced] at hfind
      cases hfind
  · rw [hplace] at h
    cases h

theorem toImage_eq_error_iff {builder : Builder} {fault : Fault} :
    builder.toImage = .error fault ↔ builder.toBytes = .error fault := by
  unfold toImage
  cases builder.toBytes with
  | error cause =>
    constructor
    · rintro ⟨⟩
      rfl
    · rintro ⟨⟩
      rfl
  | ok bytes => exact ⟨nofun, nofun⟩

end Builder

namespace Item

open Builder Object

variable {items : List (Item × Position)}

def clash? (items : List (Item × Position)) : Option String :=
  (generated items).find? (· ∈ labels items)

theorem nodup_objects_iff (hlabels : (labels items).Nodup) :
    (Object.labels (ofEdits (edits items)).objects).Nodup ↔ clash? items = none := by
  rw [labels_ofEdits, List.nodup_append, clash?, List.find?_eq_none]
  simp only [hlabels, nodup_generated, true_and, decide_eq_true_iff]
  constructor
  · intro hdiffer name hname hmem
    exact hdiffer name hmem name hname rfl
  · rintro hclash name hmem other hother rfl
    exact hclash name hother hmem

theorem toImage_of_clash (hlabels : (labels items).Nodup) {name : String}
    (h : clash? items = some name) :
    (ofEdits (edits items)).toImage = .error (.duplicateLabel name) := by
  have hrepeats : ¬ (Object.labels (ofEdits (edits items)).objects).Nodup := by
    rw [nodup_objects_iff hlabels, h]
    exact nofun
  obtain ⟨found, before, hrepeated, hbytes⟩ := toBytes_of_repeated hrepeats
  rw [toImage_eq_error_iff, hbytes]
  obtain ⟨after, hsplit⟩ := hrepeated.first
  have hsplit : labels items ++ generated items =
      Object.labels before ++ found :: Object.labels after := by
    rw [← labels_ofEdits, hsplit]
    exact List.filterMap_append
  -- The labels of the items are distinct, so the first that stands twice is a name that is made up.
  have hfound : ∀ made, Object.labels before = labels items ++ made →
      generated items = made ++ found :: Object.labels after → clash? items = some found := by
    intro made hbefore hmade
    have hdistinct := hrepeated.distinct
    have hagain := hrepeated.again
    have hgenerated := nodup_generated items
    rw [hbefore, List.nodup_append] at hdistinct
    rw [hbefore, List.mem_append] at hagain
    rw [hmade, List.nodup_append] at hgenerated
    have hnew : found ∉ made := fun hmem => hgenerated.2.2 found hmem found List.mem_cons_self rfl
    refine List.find?_eq_some_iff_append.mpr
      ⟨decide_eq_true (hagain.resolve_right hnew), made, _, hmade, fun other hother => ?_⟩
    simpa using fun hmem => hdistinct.2.2 other hmem other hother rfl
  have hclash : clash? items = some found := by
    rcases List.append_eq_append_iff.mp hsplit with ⟨made, hbefore, hmade⟩ | ⟨gap, hgap, hrest⟩
    · exact hfound made hbefore hmade
    · cases gap with
      | nil => exact hfound [] (by simpa using hgap.symm) hrest.symm
      | cons first gap =>
        rw [hgap, ← (List.cons.inj hrest).1, List.nodup_append] at hlabels
        exact absurd rfl (hlabels.2.2 found hrepeated.again found List.mem_cons_self)
  rw [Option.some.inj (h.symm.trans hclash)]

theorem undefined?_eq_none_iff :
    undefined? items = none ↔ ∀ reference ∈ references items, Defines items reference.1 := by
  unfold undefined?
  rw [List.find?_eq_none]
  simp only [Bool.not_eq_true', Bool.not_eq_false, defines_ofEdits]

theorem undefined?_eq_some_iff {reference : String × Position} :
    undefined? items = some reference ↔
      ∃ before after, references items = before ++ reference :: after ∧
        (∀ other ∈ before, Defines items other.1) ∧ ¬ Defines items reference.1 := by
  unfold undefined?
  rw [List.find?_eq_some_iff_append]
  simp only [Bool.not_eq_true', Bool.not_not, ← defines_ofEdits, Bool.not_eq_true]
  constructor
  · rintro ⟨hreference, before, after, hsplit, hbefore⟩
    exact ⟨before, after, hsplit, hbefore, hreference⟩
  · rintro ⟨before, after, hsplit, hbefore, hreference⟩
    exact ⟨hreference, before, after, hsplit, hbefore⟩

theorem label_mem_objects (h : undefined? items = none) {name : String}
    (hname : .addressOf name ∈ (ofEdits (edits items)).objects) :
    .label name ∈ (ofEdits (edits items)).objects := by
  rw [← mem_labels, labels_ofEdits, List.mem_append]
  rcases addressOf_mem_objects hname with ⟨place, hplace⟩ | hgenerated
  · exact undefined?_eq_none_iff.mp h _ hplace
  · exact .inr hgenerated

theorem toImage_ne_undefinedLabel (h : undefined? items = none) (name : String) :
    (ofEdits (edits items)).toImage ≠ .error (.undefinedLabel name) := by
  intro hfails
  obtain ⟨haddress, hlabel⟩ := toBytes_undefinedLabel (toImage_eq_error_iff.mp hfails)
  exact hlabel (label_mem_objects h haddress)

theorem exists_toImage (hlabels : (labels items).Nodup) (hdefined : undefined? items = none)
    (hclash : clash? items = none)
    (htexts : ∀ text, .literal (.text text) ∈ (ofEdits (edits items)).objects →
      text.utf8ByteSize < Word.count 4) :
    ∃ image, (ofEdits (edits items)).toImage = .ok image := by
  obtain ⟨bytes, hbytes⟩ := (ofEdits (edits items)).exists_toBytes_iff.mpr
    ⟨(nodup_objects_iff hlabels).mpr hclash, fun _ => label_mem_objects hdefined, htexts⟩
  obtain ⟨image, himage, -⟩ := toImage_of_toBytes hbytes
  exact ⟨image, himage⟩

end Item

end Assembly

end RegisterMachine
