import RegisterMachine.Proofs.Layout

/-!
Literals that share an entry of the data section. Interning a literal emits the address of the first
entry that holds it, and as the data section only grows at its end, that entry stays the first. So
the address of an interned literal is that of its encoding, and it is shared by equal literals only.
-/
namespace RegisterMachine.Assembly

/-- One use of a builder. -/
inductive Edit where
  | instruction (instruction : Instruction)
  | literal (value : Literal)
  | label (name : String)
  | addressOf (name : String)
  | dataNamed (name : String) (value : Literal)
  | intern (value : Literal)

def Object.nameOf? (value : Literal) : List Object → Option String
  | .label name :: .literal stored :: rest =>
    if stored = value then some name else nameOf? value (.literal stored :: rest)
  | _ :: rest => nameOf? value rest
  | [] => none

theorem Object.nameOf?_entries (value : Literal) (data : List Entry) :
    nameOf? value (data.flatMap Entry.objects) = (data.find? (·.literal = value)).map Entry.name := by
  induction data with
  | nil => rfl
  | cons entry rest ih =>
    rw [List.flatMap_cons, Entry.objects, List.cons_append, List.singleton_append, nameOf?]
    by_cases hvalue : entry.literal = value
    · rw [if_pos hvalue, List.find?_cons_of_pos (by simpa using hvalue)]
      rfl
    · rw [if_neg hvalue, List.find?_cons_of_neg (by simpa using hvalue), nameOf?]
      · exact ih
      · nofun

namespace Builder

open Object

def apply (builder : Builder) : Edit → Builder
  | .instruction instruction => builder.instruction instruction
  | .literal value => builder.literal value
  | .label name => builder.label name
  | .addressOf name => builder.addressOf name
  | .dataNamed name value => builder.dataNamed name value
  | .intern value => builder.intern value

def ofEdits (edits : List Edit) : Builder := edits.foldl apply {}

structure Extends (builder later : Builder) : Prop where
  text : builder.text.toList <+: later.text.toList
  data : builder.data.toList <+: later.data.toList

theorem Extends.refl (builder : Builder) : Extends builder builder :=
  ⟨List.prefix_rfl, List.prefix_rfl⟩

theorem Extends.trans {first second third : Builder} (h : Extends first second)
    (hnext : Extends second third) : Extends first third :=
  ⟨h.text.trans hnext.text, h.data.trans hnext.data⟩

theorem extends_emit (builder : Builder) (object : Object) : Extends builder (builder.emit object) := by
  refine ⟨?_, List.prefix_rfl⟩
  simp only [emit, Array.toList_push]
  exact List.prefix_append ..

theorem extends_dataNamed (builder : Builder) (name : String) (value : Literal) :
    Extends builder (builder.dataNamed name value) := by
  refine ⟨(builder.extends_emit (.addressOf name)).text, ?_⟩
  simp only [dataNamed, addressOf, emit, Array.toList_push]
  exact List.prefix_append ..

/-- The search in the data section as a sequence of labels and literals. -/
theorem intern_eq (builder : Builder) (value : Literal) :
    builder.intern value =
      match nameOf? value (builder.data.toList.flatMap Entry.objects) with
      | some name => builder.addressOf name
      | none =>
        { builder with made := builder.made + 1 }.dataNamed
          ("DTA_" ++ Numeral.decimal builder.made) value := by
  unfold intern
  rw [nameOf?_entries, Array.find?_toList]
  cases builder.data.find? (·.literal = value) <;> rfl

theorem intern_cases (builder : Builder) (value : Literal) :
    ∃ entry, (builder.intern value).data.toList.find? (·.literal = value) = some entry ∧
      (builder.intern value).text.toList = builder.text.toList ++ [.addressOf entry.name] ∧
      ((builder.intern value).data = builder.data ∧ entry ∈ builder.data ∨
        (builder.intern value).data = builder.data.push entry ∧
          ∀ other ∈ builder.data, other.literal ≠ value) := by
  unfold intern
  cases hfind : builder.data.find? (·.literal = value) with
  | some entry =>
    refine ⟨entry, ?_, Array.toList_push .., .inl ⟨rfl, Array.mem_of_find?_eq_some hfind⟩⟩
    exact Array.find?_toList.trans hfind
  | none =>
    have hnew : ∀ other ∈ builder.data, other.literal ≠ value := by
      simpa using Array.find?_eq_none.mp hfind
    refine ⟨⟨_, value⟩, ?_, Array.toList_push .., .inr ⟨rfl, hnew⟩⟩
    simp [dataNamed, addressOf, emit, hfind]

theorem size_data_intern (builder : Builder) (value : Literal) :
    (builder.intern value).data.size = builder.data.size + 1 ↔
      ∀ entry ∈ builder.data, entry.literal ≠ value := by
  obtain ⟨entry, hfind, -, ⟨hdata, hmem⟩ | ⟨hdata, hnew⟩⟩ := builder.intern_cases value
  · have hliteral : entry.literal = value := by simpa using List.find?_some hfind
    rw [hdata]
    constructor
    · intro hsize
      omega
    · intro hnew
      exact absurd hliteral (hnew entry hmem)
  · rw [hdata, Array.size_push]
    exact iff_of_true rfl hnew

theorem extends_intern (builder : Builder) (value : Literal) :
    Extends builder (builder.intern value) := by
  obtain ⟨entry, -, htext, hdata⟩ := builder.intern_cases value
  refine ⟨htext ▸ List.prefix_append .., ?_⟩
  rcases hdata with ⟨hdata, -⟩ | ⟨hdata, -⟩
  · exact hdata ▸ List.prefix_rfl
  · rw [hdata, Array.toList_push]
    exact List.prefix_append ..

theorem extends_apply (builder : Builder) (edit : Edit) : Extends builder (builder.apply edit) := by
  cases edit with
  | dataNamed name value => exact builder.extends_dataNamed name value
  | intern value => exact builder.extends_intern value
  | _ => exact builder.extends_emit _

theorem extends_foldl_apply (edits : List Edit) (builder : Builder) :
    Extends builder (edits.foldl apply builder) := by
  induction edits generalizing builder with
  | nil => exact .refl builder
  | cons edit rest ih => exact (builder.extends_apply edit).trans (ih _)

theorem interned_entry {edits before after : List Edit} {value : Literal}
    (h : edits = before ++ .intern value :: after) :
    ∃ entry rest, (ofEdits edits).data.toList.find? (·.literal = value) = some entry ∧
      (ofEdits edits).text.toList =
        (ofEdits before).text.toList ++ .addressOf entry.name :: rest := by
  obtain ⟨entry, hfind, htext, -⟩ := (ofEdits before).intern_cases value
  have hlater : Extends ((ofEdits before).intern value) (ofEdits edits) := by
    have hsplit : ofEdits edits = after.foldl apply ((ofEdits before).intern value) := by
      rw [h]
      exact List.foldl_append
    exact hsplit ▸ extends_foldl_apply after _
  obtain ⟨rest, hrest⟩ := hlater.text
  obtain ⟨more, hmore⟩ := hlater.data
  refine ⟨entry, rest, ?_, ?_⟩
  · rw [← hmore, List.find?_append, hfind]
    rfl
  · rw [← hrest, htext, List.append_assoc]
    rfl

/-- The literal of the entry stands after `address` bytes of the program. -/
def EntryAt (builder : Builder) (entry : Entry) (address : Nat) : Prop :=
  ∃ before after, builder.data.toList = before ++ entry :: after ∧
    totalSize (builder.text.toList ++ before.flatMap Entry.objects) = address

theorem EntryAt.objects_eq {builder : Builder} {entry : Entry} {address : Nat}
    (h : builder.EntryAt entry address) :
    ∃ before after, builder.objects =
        before ++ .label entry.name :: [] ++ .literal entry.literal :: after ∧
      totalSize before = address := by
  obtain ⟨before, after, hdata, haddress⟩ := h
  refine ⟨_, after.flatMap Entry.objects, ?_, haddress⟩
  unfold objects
  rw [hdata]
  simp [Entry.objects]

theorem EntryAt.placedAt {builder : Builder} {entry : Entry} {address : Nat}
    (h : builder.EntryAt entry address) : PlacedAt builder.objects entry.name address := by
  obtain ⟨before, after, hobjects, haddress⟩ := h.objects_eq
  refine ⟨before, .literal entry.literal :: after, ?_, haddress⟩
  rw [hobjects, List.append_assoc]
  rfl

theorem EntryAt.encode {builder : Builder} {entry : Entry} {address : Nat}
    (h : builder.EntryAt entry address) {bytes : List UInt8} (hbytes : builder.toBytes = .ok bytes) :
    entry.literal.encode = .ok ((bytes.drop address).take entry.literal.size) := by
  obtain ⟨before, after, hobjects, rfl⟩ := h.objects_eq
  have hemits := (toBytes_eq_ok_iff.mp hbytes).2
  rw [hobjects] at hemits
  cases hemits.slice with
  | literal hencode =>
    rwa [totalSize_append, totalSize, totalSize, size, Nat.add_zero] at hencode

/-- As every literal takes some room, entries with no room between them are the same. -/
theorem entry_eq_of_totalSize_gap {gap after after' : List Entry} {entry other : Entry}
    (hrest : entry :: after = gap ++ other :: after')
    (hgap : totalSize (gap.flatMap Entry.objects) = 0) : entry = other := by
  cases gap with
  | nil => exact (List.cons.inj hrest).1
  | cons first gap =>
    have hpos := first.literal.size_pos
    simp only [List.flatMap_cons, Entry.objects, List.cons_append, List.nil_append, totalSize,
      size] at hgap
    omega

theorem EntryAt.unique {builder : Builder} {entry other : Entry} {address : Nat}
    (h : builder.EntryAt entry address) (hother : builder.EntryAt other address) : entry = other := by
  obtain ⟨before, after, hdata, rfl⟩ := h
  obtain ⟨before', after', hdata', hsame⟩ := hother
  -- One of the two stands before the other, with a gap between them that takes no bytes.
  rcases List.append_eq_append_iff.mp (hdata.symm.trans hdata') with
    ⟨gap, rfl, hrest⟩ | ⟨gap, rfl, hrest⟩
  · refine entry_eq_of_totalSize_gap hrest ?_
    simp only [List.flatMap_append, totalSize_append] at hsame
    omega
  · refine (entry_eq_of_totalSize_gap hrest ?_).symm
    simp only [List.flatMap_append, totalSize_append] at hsame
    omega

theorem exists_entryAt {builder : Builder} {entry : Entry} (h : entry ∈ builder.data.toList) :
    ∃ address, builder.EntryAt entry address := by
  obtain ⟨before, after, hdata⟩ := List.append_of_mem h
  exact ⟨_, before, after, hdata, rfl⟩

theorem EntryAt.lt_length {builder : Builder} {entry : Entry} {address : Nat}
    (h : builder.EntryAt entry address) {bytes : List UInt8} (hbytes : builder.toBytes = .ok bytes) :
    address < bytes.length := by
  have hlength := Literal.length_of_encode (h.encode hbytes)
  have hpos := entry.literal.size_pos
  rw [List.length_take, List.length_drop] at hlength
  omega

def addressField (bytes : List UInt8) (offset : Nat) : Nat :=
  Word.ofLittleEndian ((bytes.drop offset).take 8)

theorem EntryAt.addressField_eq {builder : Builder} {entry : Entry} {address : Nat}
    (h : builder.EntryAt entry address) {bytes : List UInt8} (hbytes : builder.toBytes = .ok bytes)
    (hfits : bytes.length ≤ Word.count 8) {before after : List Object}
    (htext : builder.text.toList = before ++ .addressOf entry.name :: after) :
    addressField bytes (totalSize before) = address := by
  obtain ⟨hnodup, hemits⟩ := toBytes_eq_ok_iff.mp hbytes
  have hobjects : builder.objects = before ++ .addressOf entry.name ::
      (after ++ builder.data.toList.flatMap Entry.objects) := by
    unfold objects
    rw [htext, List.append_assoc]
    rfl
  have hfield : Emits builder.objects (.addressOf entry.name)
      ((bytes.drop (totalSize before)).take 8) := by
    rw [hobjects] at hemits ⊢
    exact hemits.slice
  unfold addressField
  generalize (bytes.drop (totalSize before)).take 8 = field at hfield
  cases hfield with
  | addressOf hplaced =>
    rw [placedAt_unique hnodup hplaced h.placedAt, Word.ofLittleEndian_littleEndian]
    exact Nat.mod_eq_of_lt (Nat.lt_of_lt_of_le (h.lt_length hbytes) hfits)

theorem interned_entryAt {edits before after : List Edit} {value : Literal} {bytes : List UInt8}
    (h : edits = before ++ .intern value :: after) (hbytes : (ofEdits edits).toBytes = .ok bytes)
    (hfits : bytes.length ≤ Word.count 8) :
    ∃ entry, (ofEdits edits).data.toList.find? (·.literal = value) = some entry ∧
      (ofEdits edits).EntryAt entry
        (addressField bytes (totalSize (ofEdits before).text.toList)) := by
  obtain ⟨entry, rest, hfind, htext⟩ := interned_entry h
  obtain ⟨address, hentry⟩ := exists_entryAt (List.mem_of_find?_eq_some hfind)
  refine ⟨entry, hfind, ?_⟩
  rwa [hentry.addressField_eq hbytes hfits htext]

end Builder

open Object Builder

/-- Among the given uses of a builder there is one of `intern` that has put the address of `value` into
the text, and `address` is what the assembled bytes hold in that place. -/
def Interned (edits : List Edit) (bytes : List UInt8) (value : Literal) (address : Nat) : Prop :=
  ∃ before after, edits = before ++ .intern value :: after ∧
    addressField bytes (totalSize (ofEdits before).text.toList) = address

theorem Interned.entryAt {edits : List Edit} {bytes : List UInt8} {value : Literal} {address : Nat}
    (h : Interned edits bytes value address) (hbytes : (ofEdits edits).toBytes = .ok bytes)
    (hfits : bytes.length ≤ Word.count 8) :
    ∃ entry, (ofEdits edits).data.toList.find? (·.literal = value) = some entry ∧
      entry.literal = value ∧ (ofEdits edits).EntryAt entry address := by
  obtain ⟨before, after, hedits, rfl⟩ := h
  obtain ⟨entry, hfind, hentry⟩ := interned_entryAt hedits hbytes hfits
  exact ⟨entry, hfind, by simpa using List.find?_some hfind, hentry⟩

/-- Interning is exact, in every program that addresses of eight bytes can reach. The bytes at the
address of an interned literal are its encoding; two literals have one address exactly when they are
equal, which is to be of one type and have one encoding; and every use adds one address to the text,
and an entry to the data exactly if no entry holds the literal. -/
theorem interning_shares_exactly (edits : List Edit) (bytes : List UInt8)
    (hbytes : (ofEdits edits).toBytes = .ok bytes) (hfits : bytes.length ≤ Word.count 8) :
    (∀ value address, Interned edits bytes value address →
      value.encode = .ok ((bytes.drop address).take value.size)) ∧
    (∀ value address other place,
      Interned edits bytes value address → Interned edits bytes other place →
      (address = place ↔ value = other)) ∧
    (∀ before value, (∃ name, (ofEdits (before ++ [.intern value])).text.toList =
        (ofEdits before).text.toList ++ [.addressOf name]) ∧
      ((ofEdits (before ++ [.intern value])).data.size = (ofEdits before).data.size + 1 ↔
        ∀ entry ∈ (ofEdits before).data, entry.literal ≠ value)) ∧
    ∀ value address other, Interned edits bytes value address →
      (value = other ↔ value.ctorIdx = other.ctorIdx ∧ value.encode = other.encode) := by
  have hencode : ∀ value address, Interned edits bytes value address →
      value.encode = .ok ((bytes.drop address).take value.size) := by
    intro value address hvalue
    obtain ⟨entry, -, rfl, hentry⟩ := hvalue.entryAt hbytes hfits
    exact hentry.encode hbytes
  refine ⟨hencode, ?_, ?_, ?_⟩
  · intro value address other place hvalue hother
    obtain ⟨entry, hfind, rfl, hentry⟩ := hvalue.entryAt hbytes hfits
    obtain ⟨entry', hfind', rfl, hentry'⟩ := hother.entryAt hbytes hfits
    constructor
    · rintro rfl
      exact congrArg Entry.literal (hentry.unique hentry')
    · intro hliteral
      rw [hliteral, hfind'] at hfind
      cases hfind
      exact placedAt_unique (toBytes_eq_ok_iff.mp hbytes).1 hentry.placedAt hentry'.placedAt
  · intro before value
    have happly : ofEdits (before ++ [.intern value]) = (ofEdits before).intern value :=
      List.foldl_append
    rw [happly]
    obtain ⟨entry, -, htext, -⟩ := (ofEdits before).intern_cases value
    exact ⟨⟨_, htext⟩, size_data_intern _ value⟩
  · intro value address other hvalue
    exact Literal.eq_iff_encode ⟨_, hencode value address hvalue⟩

def Edit.sharing : List Edit :=
  [.intern (.text "a"), .dataNamed "five" (.long 5), .intern (.ulong 5), .intern (.long 5),
    .intern (.text "a")]

theorem interning_shares_exactly_sharing :
    ∃ bytes, (ofEdits Edit.sharing).toBytes = .ok bytes ∧ bytes.length ≤ Word.count 8 ∧
      Interned Edit.sharing bytes (.text "a") 40 ∧ Interned Edit.sharing bytes (.long 5) 45 ∧
      Interned Edit.sharing bytes (.ulong 5) 53 ∧
      (Literal.text "a").encode = .ok ((bytes.drop 40).take 5) ∧
      (45 = 53 ↔ Literal.long 5 = .ulong 5) := by
  let bytes : List UInt8 :=
    [40, 0, 0, 0, 0, 0, 0, 0, 45, 0, 0, 0, 0, 0, 0, 0, 53, 0, 0, 0, 0, 0, 0, 0,
      45, 0, 0, 0, 0, 0, 0, 0, 40, 0, 0, 0, 0, 0, 0, 0,
      1, 0, 0, 0, 97, 5, 0, 0, 0, 0, 0, 0, 0, 5, 0, 0, 0, 0, 0, 0, 0]
  have hbytes : (ofEdits Edit.sharing).toBytes = .ok bytes := by rfl
  have hfits : bytes.length ≤ Word.count 8 := by decide
  have htext : Interned Edit.sharing bytes (.text "a") 40 :=
    ⟨Edit.sharing.take 4, [], rfl, by rfl⟩
  have hlong : Interned Edit.sharing bytes (.long 5) 45 :=
    ⟨Edit.sharing.take 3, Edit.sharing.drop 4, rfl, by rfl⟩
  have hulong : Interned Edit.sharing bytes (.ulong 5) 53 :=
    ⟨Edit.sharing.take 2, Edit.sharing.drop 3, rfl, by rfl⟩
  have hexact := interning_shares_exactly Edit.sharing bytes hbytes hfits
  exact ⟨bytes, hbytes, hfits, htext, hlong, hulong, hexact.1 _ _ htext,
    hexact.2.1 _ _ _ _ hlong hulong⟩

end RegisterMachine.Assembly
