import RegisterMachine.Assembly.Builder
import RegisterMachine.Proofs.Encoding

/-!
Addresses in an assembled program. Labels are placed by adding up the sizes of the objects before
them, and the bytes are the encodings of the objects; the two agree because every object is as long
as its size says. So a program assembles exactly when its labels are distinct, its addresses are
those of labels and its texts can be encoded, and every address is that of the bytes after its label.
-/
namespace RegisterMachine.Assembly

namespace Object

def label? : Object → Option String
  | .label name => some name
  | _ => none

def labels (objects : List Object) : List String := objects.filterMap label?

def PlacedAt (objects : List Object) (name : String) (address : Nat) : Prop :=
  ∃ before after, objects = before ++ .label name :: after ∧ totalSize before = address

/-- The bytes that an object stands for among the objects of a program. -/
inductive Emits (objects : List Object) : Object → List UInt8 → Prop
  | label (name : String) : Emits objects (.label name) []
  | addressOf {name : String} {address : Nat} (hplaced : PlacedAt objects name address) :
      Emits objects (.addressOf name) (Word.littleEndian 8 address)
  | literal {value : Literal} {bytes : List UInt8} (hencode : value.encode = .ok bytes) :
      Emits objects (.literal value) bytes

inductive EmitsAll (objects : List Object) : List Object → List UInt8 → Prop
  | nil : EmitsAll objects [] []
  | cons {object : Object} {rest : List Object} {bytes more : List UInt8}
      (hfirst : Emits objects object bytes) (hrest : EmitsAll objects rest more) :
      EmitsAll objects (object :: rest) (bytes ++ more)

theorem mem_labels {objects : List Object} {name : String} :
    name ∈ labels objects ↔ .label name ∈ objects := by
  simp only [labels, List.mem_filterMap]
  constructor
  · rintro ⟨object, hmem, hname⟩
    cases object with
    | label other =>
      cases hname
      exact hmem
    | _ => cases hname
  · intro hmem
    exact ⟨_, hmem, rfl⟩

theorem totalSize_append (left right : List Object) :
    totalSize (left ++ right) = totalSize left + totalSize right := by
  induction left with
  | nil => simp only [List.nil_append, totalSize, Nat.zero_add]
  | cons object rest ih => simp only [List.cons_append, totalSize, ih, Nat.add_assoc]

theorem totalSize_labels {objects : List Object}
    (h : ∀ object ∈ objects, object.label?.isSome) : totalSize objects = 0 := by
  induction objects with
  | nil => rfl
  | cons object rest ih =>
    have hrest := ih fun other hother => h other (List.mem_cons_of_mem _ hother)
    cases object with
    | label name => simp only [totalSize, size, hrest]
    | _ => cases h _ List.mem_cons_self

@[simp] theorem placedAt_nil {name : String} {address : Nat} : ¬ PlacedAt [] name address := by
  rintro ⟨before, after, hsplit, -⟩
  cases before <;> cases hsplit

theorem placedAt_cons {object : Object} {rest : List Object} {name : String} {address : Nat} :
    PlacedAt (object :: rest) name address ↔
      object = .label name ∧ address = 0 ∨
      ∃ later, PlacedAt rest name later ∧ object.size + later = address := by
  constructor
  · rintro ⟨before, after, hsplit, rfl⟩
    cases before with
    | nil =>
      cases hsplit
      exact .inl ⟨rfl, rfl⟩
    | cons first before =>
      cases hsplit
      exact .inr ⟨totalSize before, ⟨before, after, rfl, rfl⟩, rfl⟩
  · rintro (⟨rfl, rfl⟩ | ⟨later, ⟨before, after, rfl, rfl⟩, rfl⟩)
    · exact ⟨[], rest, rfl, rfl⟩
    · exact ⟨object :: before, after, rfl, rfl⟩

theorem placedAt_other {object : Object} (hother : object.label? = none) {rest : List Object}
    {name : String} {address : Nat} : PlacedAt (object :: rest) name address ↔
      ∃ later, PlacedAt rest name later ∧ object.size + later = address := by
  rw [placedAt_cons, or_iff_right]
  rintro ⟨rfl, -⟩
  cases hother

theorem mem_labels_iff_placedAt {objects : List Object} {name : String} :
    name ∈ labels objects ↔ ∃ address, PlacedAt objects name address := by
  rw [mem_labels]
  constructor
  · intro hmem
    obtain ⟨before, after, hsplit⟩ := List.append_of_mem hmem
    exact ⟨_, before, after, hsplit, rfl⟩
  · rintro ⟨_, before, after, rfl, -⟩
    exact List.mem_append_right _ List.mem_cons_self

theorem Emits.length {objects : List Object} {object : Object} {bytes : List UInt8}
    (h : Emits objects object bytes) : bytes.length = object.size := by
  cases h with
  | label name => rfl
  | addressOf hplaced => exact Word.length_littleEndian ..
  | literal hencode => exact Literal.length_of_encode hencode

namespace EmitsAll

variable {objects : List Object} {bytes : List UInt8}

theorem length {part : List Object} (h : EmitsAll objects part bytes) :
    bytes.length = totalSize part := by
  induction h with
  | nil => rfl
  | cons hfirst hrest ih => rw [List.length_append, hfirst.length, ih, totalSize]

theorem of_append {left right : List Object} (h : EmitsAll objects (left ++ right) bytes) :
    ∃ head tail, EmitsAll objects left head ∧ EmitsAll objects right tail ∧ bytes = head ++ tail := by
  induction left generalizing bytes with
  | nil => exact ⟨[], bytes, .nil, h, rfl⟩
  | cons object rest ih =>
    cases h with
    | cons hfirst hrest =>
      obtain ⟨head, tail, hhead, htail, rfl⟩ := ih hrest
      exact ⟨_, tail, .cons hfirst hhead, htail, (List.append_assoc ..).symm⟩

theorem append {left right : List Object} {head tail : List UInt8}
    (hleft : EmitsAll objects left head) (hright : EmitsAll objects right tail) :
    EmitsAll objects (left ++ right) (head ++ tail) := by
  induction hleft with
  | nil => exact hright
  | cons hfirst hrest ih =>
    rw [List.cons_append, List.append_assoc]
    exact .cons hfirst ih

theorem slice {before after : List Object} {object : Object}
    (h : EmitsAll objects (before ++ object :: after) bytes) :
    Emits objects object ((bytes.drop (totalSize before)).take object.size) := by
  obtain ⟨head, tail, hhead, htail, rfl⟩ := h.of_append
  cases htail with
  | cons hfirst hrest =>
    rwa [← hhead.length, List.drop_left, ← hfirst.length, List.take_left]

end EmitsAll

theorem exists_emits_iff {objects : List Object} {object : Object} :
    (∃ bytes, Emits objects object bytes) ↔
      (∀ name, object = .addressOf name → .label name ∈ objects) ∧
      ∀ text, object = .literal (.text text) → text.utf8ByteSize < Word.count 4 := by
  cases object with
  | label name =>
    simp only [reduceCtorEq, false_implies, implies_true, and_true, iff_true]
    exact ⟨_, .label name⟩
  | addressOf name =>
    simp only [addressOf.injEq, forall_eq', reduceCtorEq, false_implies, implies_true, and_true,
      ← mem_labels, mem_labels_iff_placedAt]
    constructor
    · rintro ⟨bytes, ⟨⟩⟩
      exact ⟨_, ‹_›⟩
    · rintro ⟨address, hplaced⟩
      exact ⟨_, .addressOf hplaced⟩
  | literal value =>
    simp only [literal.injEq, reduceCtorEq, false_implies, implies_true, true_and,
      ← Literal.exists_encode_iff]
    constructor
    · rintro ⟨bytes, ⟨⟩⟩
      exact ⟨_, ‹_›⟩
    · rintro ⟨bytes, hencode⟩
      exact ⟨_, .literal hencode⟩

theorem exists_emitsAll_iff {objects part : List Object} :
    (∃ bytes, EmitsAll objects part bytes) ↔
      ∀ object ∈ part, ∃ bytes, Emits objects object bytes := by
  induction part with
  | nil =>
    simp only [List.not_mem_nil, false_implies, implies_true, iff_true]
    exact ⟨_, .nil⟩
  | cons object rest ih =>
    rw [List.forall_mem_cons, ← ih]
    constructor
    · rintro ⟨bytes, ⟨⟩⟩
      exact ⟨⟨_, ‹_›⟩, ⟨_, ‹_›⟩⟩
    · rintro ⟨⟨bytes, hfirst⟩, more, hrest⟩
      exact ⟨_, .cons hfirst hrest⟩

structure RepeatedAt (objects : List Object) (name : String) (before : List Object) : Prop where
  first : ∃ after, objects = before ++ .label name :: after
  distinct : (labels before).Nodup
  again : name ∈ labels before

theorem RepeatedAt.not_nodup {objects before : List Object} {name : String}
    (h : RepeatedAt objects name before) : ¬ (labels objects).Nodup := by
  obtain ⟨after, rfl⟩ := h.first
  intro hnodup
  have hlabels : labels (before ++ .label name :: after) = labels before ++ name :: labels after :=
    List.filterMap_append
  rw [hlabels, List.nodup_append] at hnodup
  exact hnodup.2.2 name h.again name List.mem_cons_self rfl

end Object

namespace Builder

open Object

/-- The labels of the objects are distinct and none of them has an offset yet. -/
structure Fresh (offsets : Table String Nat) (objects : List Object) : Prop where
  nodup : (labels objects).Nodup
  unplaced : ∀ name ∈ labels objects, offsets.find? name = none

theorem fresh_empty {objects : List Object} : Fresh {} objects ↔ (labels objects).Nodup :=
  ⟨Fresh.nodup, fun hnodup => ⟨hnodup, fun _ _ => rfl⟩⟩

theorem fresh_nil {offsets : Table String Nat} : Fresh offsets [] :=
  ⟨.nil, fun _ hmem => absurd hmem List.not_mem_nil⟩

theorem fresh_label {offsets : Table String Nat} {name : String} (offset : Nat)
    {rest : List Object} :
    Fresh offsets (.label name :: rest) ↔
      offsets.find? name = none ∧ Fresh (offsets.insert name offset) rest := by
  have hlabels : labels (.label name :: rest) = name :: labels rest := rfl
  constructor
  · rintro ⟨hnodup, hunplaced⟩
    rw [hlabels, List.nodup_cons] at hnodup
    rw [hlabels, List.forall_mem_cons] at hunplaced
    refine ⟨hunplaced.1, hnodup.2, fun other hother => ?_⟩
    have hne : other ≠ name := fun heq => hnodup.1 (heq ▸ hother)
    rw [Table.find?_insert, if_neg hne]
    exact hunplaced.2 other hother
  · rintro ⟨hname, hnodup, hunplaced⟩
    simp only [Table.find?_insert] at hunplaced
    refine ⟨?_, ?_⟩
    · rw [hlabels, List.nodup_cons]
      refine ⟨fun hmem => ?_, hnodup⟩
      simpa using hunplaced name hmem
    · rw [hlabels, List.forall_mem_cons]
      refine ⟨hname, fun other hother => ?_⟩
      have hother := hunplaced other hother
      split at hother
      · cases hother
      · exact hother

theorem fresh_other {offsets : Table String Nat} {object : Object} (hother : object.label? = none)
    {rest : List Object} : Fresh offsets (object :: rest) ↔ Fresh offsets rest := by
  have hlabels : labels (object :: rest) = labels rest := List.filterMap_cons_none hother
  exact ⟨fun h => ⟨hlabels ▸ h.nodup, hlabels ▸ h.unplaced⟩,
    fun h => ⟨hlabels ▸ h.nodup, hlabels ▸ h.unplaced⟩⟩

theorem place_label (offsets : Table String Nat) (offset : Nat) (name : String)
    (rest : List Object) :
    place offsets offset (.label name :: rest) =
      if (offsets.find? name).isSome then .error (.duplicateLabel name)
      else place (offsets.insert name offset) offset rest := rfl

theorem place_other (offsets : Table String Nat) (offset : Nat) {object : Object}
    (hother : object.label? = none) (rest : List Object) :
    place offsets offset (object :: rest) = place offsets (offset + object.size) rest := by
  cases object with
  | label name => cases hother
  | _ => rfl

theorem place_cases (offsets : Table String Nat) (offset : Nat) (objects : List Object) :
    (∃ table, place offsets offset objects = .ok table ∧ Fresh offsets objects) ∨
    ∃ name before after, place offsets offset objects = .error (.duplicateLabel name) ∧
      objects = before ++ .label name :: after ∧ Fresh offsets before ∧
      ¬ Fresh offsets (before ++ [.label name]) := by
  induction objects generalizing offsets offset with
  | nil => exact .inl ⟨offsets, rfl, fresh_nil⟩
  | cons object rest ih =>
    cases object with
    | label own =>
      rw [place_label]
      cases hown : offsets.find? own with
      | some address =>
        refine .inr ⟨own, [], rest, rfl, rfl, fresh_nil, ?_⟩
        rw [List.nil_append, fresh_label offset, hown]
        rintro ⟨⟨⟩, -⟩
      | none =>
        rcases ih (offsets.insert own offset) offset with
          ⟨table, hplace, hfresh⟩ | ⟨name, before, after, hplace, rfl, hfresh, hstale⟩
        · exact .inl ⟨table, hplace, (fresh_label offset).mpr ⟨hown, hfresh⟩⟩
        · refine .inr ⟨name, .label own :: before, after, hplace, rfl,
            (fresh_label offset).mpr ⟨hown, hfresh⟩, fun h => hstale ?_⟩
          exact ((fresh_label offset).mp h).2
    | addressOf _ | literal _ =>
      rw [place_other _ _ rfl, fresh_other rfl]
      rcases ih offsets _ with hok | ⟨name, before, after, hplace, rfl, hfresh, hstale⟩
      · exact .inl hok
      · refine .inr ⟨name, _ :: before, after, hplace, rfl, (fresh_other rfl).mpr hfresh, fun h => ?_⟩
        exact hstale ((fresh_other rfl).mp h)

theorem find?_of_place {objects : List Object} {offsets table : Table String Nat} {offset : Nat}
    (h : place offsets offset objects = .ok table) (name : String) (address : Nat) :
    table.find? name = some address ↔ offsets.find? name = some address ∨
      ∃ before, PlacedAt objects name before ∧ offset + before = address := by
  induction objects generalizing offsets offset with
  | nil =>
    cases h
    simp only [placedAt_nil, false_and, exists_false, or_false]
  | cons object rest ih =>
    cases object with
    | label own =>
      rw [place_label] at h
      cases hown : offsets.find? own with
      | some address =>
        rw [hown] at h
        cases h
      | none =>
        rw [hown] at h
        rw [ih h, Table.find?_insert]
        simp only [placedAt_cons, size, Nat.zero_add, exists_eq_right, label.injEq]
        by_cases hname : name = own
        · subst hname
          simp [hown]
        · simp [hname, Ne.symm hname]
    | addressOf _ | literal _ =>
      rw [place_other _ _ rfl] at h
      rw [ih h]
      refine or_congr_right ⟨?_, ?_⟩
      · rintro ⟨later, hlater, rfl⟩
        exact ⟨_, (placedAt_other rfl).mpr ⟨later, hlater, rfl⟩, (Nat.add_assoc ..).symm⟩
      · rintro ⟨before, hbefore, rfl⟩
        obtain ⟨later, hlater, rfl⟩ := (placedAt_other rfl).mp hbefore
        exact ⟨later, hlater, Nat.add_assoc ..⟩

theorem find?_of_place_empty {objects : List Object} {table : Table String Nat}
    (h : place {} 0 objects = .ok table) (name : String) (address : Nat) :
    table.find? name = some address ↔ PlacedAt objects name address := by
  rw [find?_of_place h, Table.find?_nil]
  simp only [reduceCtorEq, false_or, Nat.zero_add, exists_eq_right]

theorem encode_eq_ok_iff {objects : List Object} {table : Table String Nat}
    (h : place {} 0 objects = .ok table) {object : Object} {bytes : List UInt8} :
    encode table object = .ok bytes ↔ Emits objects object bytes := by
  cases object with
  | label name =>
    constructor
    · rintro ⟨⟩
      exact .label name
    · rintro ⟨⟩
      rfl
  | addressOf name =>
    rw [encode]
    constructor
    · intro hencode
      split at hencode
      · rename_i address hfind
        cases hencode
        exact .addressOf ((find?_of_place_empty h name address).mp hfind)
      · cases hencode
    · rintro ⟨⟩
      rename_i address hplaced
      rw [(find?_of_place_empty h name address).mpr hplaced]
  | literal value =>
    constructor
    · exact .literal
    · rintro ⟨⟩
      assumption

theorem mapM_encode_iff {objects : List Object} {table : Table String Nat}
    (h : place {} 0 objects = .ok table) {part : List Object} {bytes : List UInt8} :
    (∃ pieces, part.mapM (encode table) = .ok pieces ∧ pieces.flatten = bytes) ↔
      EmitsAll objects part bytes := by
  induction part generalizing bytes with
  | nil =>
    constructor
    · rintro ⟨pieces, ⟨⟩, rfl⟩
      exact .nil
    · rintro ⟨⟩
      exact ⟨[], rfl, rfl⟩
  | cons object rest ih =>
    rw [List.mapM_cons]
    constructor
    · rintro ⟨pieces, hpieces, rfl⟩
      obtain ⟨piece, hfirst, hpieces⟩ := bind_eq_ok_iff.mp hpieces
      obtain ⟨more, hrest, ⟨⟩⟩ := bind_eq_ok_iff.mp hpieces
      exact .cons ((encode_eq_ok_iff h).mp hfirst) (ih.mp ⟨more, hrest, rfl⟩)
    · rintro ⟨⟩
      rename_i piece _ hfirst hrest
      obtain ⟨pieces, hpieces, rfl⟩ := ih.mpr hrest
      rw [(encode_eq_ok_iff h).mpr hfirst, hpieces]
      exact ⟨piece :: pieces, rfl, rfl⟩

theorem place_empty_cases (objects : List Object) :
    (∃ table, place {} 0 objects = .ok table ∧ (labels objects).Nodup) ∨
    ∃ name before, place {} 0 objects = .error (.duplicateLabel name) ∧
      RepeatedAt objects name before := by
  rcases place_cases {} 0 objects with
    ⟨table, hplace, hfresh⟩ | ⟨name, before, after, hplace, hsplit, hfresh, hstale⟩
  · exact .inl ⟨table, hplace, hfresh.nodup⟩
  · refine .inr ⟨name, before, hplace, ⟨after, hsplit⟩, hfresh.nodup, ?_⟩
    have hlabels : labels (before ++ [.label name]) = labels before ++ [name] :=
      List.filterMap_append
    rw [fresh_empty, hlabels, List.nodup_append] at hstale
    simpa [hfresh.nodup] using hstale

theorem toBytes_eq_ok_iff {builder : Builder} {bytes : List UInt8} :
    builder.toBytes = .ok bytes ↔
      (labels builder.objects).Nodup ∧ EmitsAll builder.objects builder.objects bytes := by
  have hbytes : builder.toBytes = .ok bytes ↔ ∃ table, place {} 0 builder.objects = .ok table ∧
      ∃ pieces, builder.objects.mapM (encode table) = .ok pieces ∧ pieces.flatten = bytes := by
    simp only [toBytes, bind_eq_ok_iff, pure, Except.pure, Except.ok.injEq]
  rw [hbytes]
  rcases place_empty_cases builder.objects with
    ⟨table, hplace, hnodup⟩ | ⟨name, before, hplace, hrepeated⟩
  · simp only [hplace, Except.ok.injEq, exists_eq_left', mapM_encode_iff hplace, hnodup, true_and]
  · simp only [hplace, hrepeated.not_nodup, reduceCtorEq, false_and, exists_false]

theorem placedAt_unique {objects : List Object} (hnodup : (labels objects).Nodup) {name : String}
    {address other : Nat} (h : PlacedAt objects name address) (hother : PlacedAt objects name other) :
    address = other := by
  rcases place_empty_cases objects with ⟨table, hplace, -⟩ | ⟨repeated, before, -, hrepeated⟩
  · have hfirst := (find?_of_place_empty hplace name address).mpr h
    have hsecond := (find?_of_place_empty hplace name other).mpr hother
    exact Option.some.inj (hfirst.symm.trans hsecond)
  · exact absurd hnodup hrepeated.not_nodup

theorem toBytes_of_repeated {builder : Builder} (h : ¬ (labels builder.objects).Nodup) :
    ∃ name before, RepeatedAt builder.objects name before ∧
      builder.toBytes = .error (.duplicateLabel name) := by
  rcases place_empty_cases builder.objects with
    ⟨table, hplace, hnodup⟩ | ⟨name, before, hplace, hrepeated⟩
  · exact absurd hnodup h
  · refine ⟨name, before, hrepeated, ?_⟩
    unfold toBytes
    rw [hplace]
    rfl

theorem exists_toBytes_iff (builder : Builder) :
    (∃ bytes, builder.toBytes = .ok bytes) ↔
      (labels builder.objects).Nodup ∧
      (∀ name, .addressOf name ∈ builder.objects → .label name ∈ builder.objects) ∧
      ∀ text, .literal (.text text) ∈ builder.objects → text.utf8ByteSize < Word.count 4 := by
  simp only [toBytes_eq_ok_iff, exists_and_left, exists_emitsAll_iff, exists_emits_iff]
  refine and_congr_right fun _ => ⟨fun h => ?_, fun h object hobject => ?_⟩
  · exact ⟨fun name hname => (h _ hname).1 name rfl, fun text htext => (h _ htext).2 text rfl⟩
  · refine ⟨?_, ?_⟩
    · rintro name rfl
      exact h.1 name hobject
    · rintro text rfl
      exact h.2 text hobject

theorem toImage_of_toBytes {builder : Builder} {bytes : List UInt8}
    (h : builder.toBytes = .ok bytes) :
    ∃ image, builder.toImage = .ok image ∧ image.bytes.toList = bytes ∧
      EmitsAll builder.objects builder.text.toList image.code.toList ∧
      EmitsAll builder.objects (builder.data.toList.flatMap Entry.objects) image.data.toList ∧
      bytes = image.code.toList ++ image.data.toList := by
  have himage : builder.toImage =
      .ok (.ofCodeSize bytes.toArray (totalSize builder.text.toList)) := by
    unfold toImage
    rw [h]
    rfl
  obtain ⟨code, data, hcode, hdata, rfl⟩ := (toBytes_eq_ok_iff.mp h).2.of_append
  refine ⟨_, himage, rfl, ?_⟩
  rw [Image.toList_code_ofCodeSize, Image.toList_data_ofCodeSize, ← hcode.length, List.take_left,
    List.drop_left]
  exact ⟨hcode, hdata, rfl⟩

end Builder

open Object in
/-- Two passes resolve every address. A program assembles exactly when its labels are distinct, its
addresses are those of labels and its texts are not too long; a label that stands twice is reported
before anything else. The bytes are those of the objects in order, so that the address of a label is
the place of what comes first after it, and they divide into code and data as the objects do. -/
theorem assembly_resolves_addresses (builder : Builder) :
    ((∃ bytes, builder.toBytes = .ok bytes) ↔
      (labels builder.objects).Nodup ∧
      (∀ name, .addressOf name ∈ builder.objects → .label name ∈ builder.objects) ∧
      ∀ text, .literal (.text text) ∈ builder.objects → text.utf8ByteSize < Word.count 4) ∧
    (¬ (labels builder.objects).Nodup →
      ∃ name before, RepeatedAt builder.objects name before ∧
        builder.toBytes = .error (.duplicateLabel name)) ∧
    ∀ bytes, builder.toBytes = .ok bytes →
      EmitsAll builder.objects builder.objects bytes ∧
      bytes.length = totalSize builder.objects ∧
      (∀ name before marks object after,
        builder.objects = before ++ .label name :: marks ++ object :: after →
        (∀ mark ∈ marks, mark.label?.isSome) →
        Emits builder.objects object ((bytes.drop (totalSize before)).take object.size)) ∧
      ∃ image, builder.toImage = .ok image ∧ image.bytes.toList = bytes ∧
        EmitsAll builder.objects builder.text.toList image.code.toList ∧
        EmitsAll builder.objects (builder.data.toList.flatMap Entry.objects) image.data.toList ∧
        bytes = image.code.toList ++ image.data.toList := by
  refine ⟨builder.exists_toBytes_iff, Builder.toBytes_of_repeated, fun bytes hbytes => ?_⟩
  have hemits := (Builder.toBytes_eq_ok_iff.mp hbytes).2
  refine ⟨hemits, hemits.length, ?_, Builder.toImage_of_toBytes hbytes⟩
  intro name before marks object after hsplit hmarks
  rw [hsplit] at hemits
  have hslice := hemits.slice
  rwa [totalSize_append, totalSize, totalSize_labels hmarks, size, Nat.add_zero,
    ← hsplit] at hslice

def Builder.forwardJump : Builder :=
  (((({} : Builder).instruction .jump).addressOf "end").intern (.text "hi")).label "end"

theorem assembly_resolves_addresses_forwardJump :
    ∃ bytes, Builder.forwardJump.toBytes = .ok bytes ∧ bytes.length = 23 ∧
      Object.Emits Builder.forwardJump.objects (.literal (.text "hi"))
        ((bytes.drop 17).take 6) := by
  have hbytes : Builder.forwardJump.toBytes =
      .ok [11, 17, 0, 0, 0, 0, 0, 0, 0, 17, 0, 0, 0, 0, 0, 0, 0, 2, 0, 0, 0, 104, 105] := by
    rfl
  have hforward := (assembly_resolves_addresses Builder.forwardJump).2.2 _ hbytes
  exact ⟨_, hbytes, hforward.2.1, hforward.2.2.1 "end" [.literal (.byte 11), .addressOf "end",
    .addressOf "DTA_0"] [.label "DTA_0"] _ [] (by decide +kernel) (by decide)⟩

end RegisterMachine.Assembly
