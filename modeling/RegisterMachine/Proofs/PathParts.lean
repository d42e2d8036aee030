import RegisterMachine.Path

/-!
Paths taken apart and put together. A path is the segments between its slashes; what is rendered from
well-formed parts splits into them again, and a name joined to a rendered directory is one segment more.
Two paths with the same components lead to the same place, whatever idle segments they have.
-/
namespace RegisterMachine.Path

theorem notMem_of_mem_splitOn {c : Char} {cs segment : List Char} (h : segment ∈ cs.splitOn c) :
    c ∉ segment := by
  induction cs generalizing segment with
  | nil =>
    cases List.mem_singleton.mp h
    exact List.not_mem_nil
  | cons first rest ih =>
    rw [List.splitOn_cons_eq_if_modifyHead] at h
    split at h
    · rcases List.mem_cons.mp h with rfl | hmem
      · exact List.not_mem_nil
      · exact ih hmem
    · rename_i hfirst
      cases hrest : rest.splitOn c with
      | nil => exact absurd hrest (List.splitOn_ne_nil c rest)
      | cons head tail =>
        rw [hrest] at h ih
        rcases List.mem_cons.mp h with rfl | hmem
        · rw [List.mem_cons, not_or]
          exact ⟨fun heq => hfirst (beq_iff_eq.mpr heq.symm), ih List.mem_cons_self⟩
        · exact ih (List.mem_cons_of_mem _ hmem)

@[simp] theorem joinSegments_nil : joinSegments [] = [] := rfl

theorem joinSegments_cons (first : List Char) (rest : List (List Char)) :
    joinSegments (first :: rest) = first ++ rest.flatMap ('/' :: ·) := by
  induction rest generalizing first with
  | nil => simp [joinSegments]
  | cons second rest ih =>
    have hjoin : joinSegments (first :: second :: rest) =
        first ++ '/' :: joinSegments (second :: rest) := by
      simp [joinSegments, List.intercalate_cons_cons]
    rw [hjoin, ih, List.flatMap_cons]
    rfl

namespace Parts

/-- The parts that a path can have: no slash inside a segment, and no first segment that would read as
another start. -/
structure Regular (parts : Parts) : Prop where
  notMem : ∀ segment ∈ parts.segments, '/' ∉ segment
  head : parts.start = .relative → ∀ first rest, parts.segments = first :: rest →
    first ≠ ['.'] ∧ (first = [] → rest = [])

def raw (parts : Parts) : List (List Char) :=
  match parts.start with
  | .relative => parts.segments
  | .dot => ['.'] :: parts.segments
  | .root => [] :: parts.segments

theorem render_eq {parts : Parts} (h : parts.segments ≠ []) :
    parts.render = String.ofList (joinSegments parts.raw) := by
  obtain ⟨start, segments⟩ := parts
  apply congrArg String.ofList
  cases start with
  | relative => rfl
  | dot => exact (joinSegments_cons ['.'] segments).symm
  | root =>
    cases segments with
    | nil => exact absurd rfl h
    | cons first rest =>
      change '/' :: joinSegments (first :: rest) = joinSegments ([] :: first :: rest)
      rw [joinSegments_cons, joinSegments_cons, List.flatMap_cons]
      rfl

theorem raw_ne_nil {parts : Parts} (h : parts.segments ≠ []) : parts.raw ≠ [] := by
  unfold raw
  split
  · exact h
  · exact List.cons_ne_nil _ _
  · exact List.cons_ne_nil _ _

theorem Regular.notMem_raw {parts : Parts} (hregular : parts.Regular) :
    ∀ segment ∈ parts.raw, '/' ∉ segment := by
  unfold raw
  split
  · exact hregular.notMem
  · rintro segment (_ | ⟨_, hmem⟩)
    · decide
    · exact hregular.notMem segment hmem
  · rintro segment (_ | ⟨_, hmem⟩)
    · decide
    · exact hregular.notMem segment hmem

end Parts

theorem regular_split (path : String) : (split path).Regular := by
  have hslash := fun segment (h : segment ∈ path.toList.splitOn '/') => notMem_of_mem_splitOn h
  unfold split
  split
  · rename_i segment rest hsplit
    rw [hsplit] at hslash
    exact ⟨fun segment hmem => hslash segment (List.mem_cons_of_mem _ hmem), nofun⟩
  · rename_i rest hsplit
    rw [hsplit] at hslash
    exact ⟨fun segment hmem => hslash segment (List.mem_cons_of_mem _ hmem), nofun⟩
  · rename_i hroot hdot
    refine ⟨hslash, fun _ first rest hsplit => ⟨?_, ?_⟩⟩
    · rintro rfl
      exact hdot rest hsplit
    · rintro rfl
      cases rest with
      | nil => rfl
      | cons segment rest => exact absurd hsplit (hroot segment rest)

theorem split_render {parts : Parts} (hregular : parts.Regular) (h : parts.segments ≠ []) :
    split parts.render = parts := by
  have hsplit : parts.render.toList.splitOn '/' = parts.raw := by
    rw [Parts.render_eq h, String.toList_ofList]
    exact List.splitOn_intercalate '/' hregular.notMem_raw (Parts.raw_ne_nil h)
  unfold split
  rw [hsplit]
  obtain ⟨start, segments⟩ := parts
  cases start with
  | relative =>
    -- The first segment is the one of a relative path, so neither of the other starts is read.
    dsimp only [Parts.raw]
    split
    · exact absurd ((hregular.head rfl _ _ rfl).2 rfl) (List.cons_ne_nil _ _)
    · exact absurd rfl (hregular.head rfl _ _ rfl).1
    · rfl
  | dot => rfl
  | root =>
    cases segments with
    | nil => exact absurd rfl h
    | cons first rest => rfl

theorem Parts.render_concat (start : Start) {segments : List (List Char)} (h : segments ≠ [])
    (name : List Char) :
    (Parts.render ⟨start, segments ++ [name]⟩).toList =
      (Parts.render ⟨start, segments⟩).toList ++ '/' :: name := by
  cases segments with
  | nil => exact absurd rfl h
  | cons first rest =>
    cases start <;> simp [Parts.render, joinSegments_cons]

theorem Parts.render_suffix (start : Start) (segments : List (List Char)) (last : List Char) :
    last <:+ (Parts.render ⟨start, segments ++ [last]⟩).toList := by
  by_cases hfirst : segments = []
  · subst hfirst
    cases start with
    | relative => exact ⟨[], by simp [Parts.render, joinSegments_cons]⟩
    | dot => exact ⟨['.', '/'], by simp [Parts.render]⟩
    | root => exact ⟨['/'], by simp [Parts.render, joinSegments_cons]⟩
  · rw [Parts.render_concat start hfirst]
    exact (List.suffix_cons '/' last).trans (List.suffix_append _ _)

/-- A name joined to a directory becomes its last segment. The directory has no idle segment at its
end, so its text ends with a slash only at the root. -/
theorem join_render (start : Start) {segments : List (List Char)} (name : List Char)
    (hlast : ∀ last ∈ segments.getLast?, last ≠ [] ∧ '/' ∉ last) :
    join (Parts.render ⟨start, segments⟩) (String.ofList name) =
      Parts.render ⟨start, segments ++ [name]⟩ := by
  apply String.toList_inj.mp
  rcases List.eq_nil_or_concat segments with rfl | ⟨front, last, rfl⟩
  · cases start <;> simp [join, Parts.render, joinSegments_cons]
  · rw [List.concat_eq_append] at hlast ⊢
    obtain ⟨hne, hslash⟩ := hlast last (by simp)
    obtain ⟨before, htext⟩ := Parts.render_suffix start front last
    have hopen : ¬(Parts.render ⟨start, front ++ [last]⟩ = "" ∨
        (Parts.render ⟨start, front ++ [last]⟩).toList.getLast? = some '/') := by
      rw [← String.toList_inj, ← htext, List.getLast?_append, List.getLast?_eq_some_getLast hne]
      rintro (hempty | hend)
      · exact hne (List.append_eq_nil_iff.mp hempty).2
      · exact hslash (Option.some.inj hend ▸ List.getLast_mem hne)
    rw [join, if_neg hopen, Parts.render_concat start (by simp)]
    simp

def components (path : String) : Start × List (List Char) :=
  ((split path).start, (split path).segments.filter (!isIdle ·))

/-- The path leads through the segments `above` to `name`, idle segments around it aside. -/
structure LeadsTo (path : String) (above : List (List Char)) (name : List Char) : Prop where
  parent : parent? path = some (Parts.render ⟨(split path).start, above⟩)
  fileName : fileName? path = if name = ['.', '.'] then none else some name
  components : components path = ((split path).start, above.filter (!isIdle ·) ++ [name])
  active : isIdle name = false
  notMem : ∀ segment ∈ above ++ [name], '/' ∉ segment
  last : ∀ last ∈ above.getLast?, isIdle last = false
  head : (split path).start = .relative → ∀ first ∈ above.head?, isIdle first = false

theorem isIdle_eq_false_iff {segment : List Char} :
    isIdle segment = false ↔ segment ≠ [] ∧ segment ≠ ['.'] := by
  simp [isIdle]

theorem isIdle_of_head (segments : List (List Char)) {first : List Char}
    (h : (segments.dropWhile isIdle).head? = some first) : isIdle first = false := by
  have hnot := List.head?_dropWhile_not isIdle segments
  rw [h] at hnot
  exact hnot

theorem filter_isIdle {segments : List (List Char)} (h : ∀ segment ∈ segments, isIdle segment = true) :
    segments.filter (!isIdle ·) = [] := by
  apply List.filter_eq_nil_iff.mpr
  intro segment hmem
  simp [h segment hmem]

theorem reverse_eq_of_dropWhile (segments : List (List Char)) :
    ∃ idle, (∀ segment ∈ idle, isIdle segment = true) ∧
      segments.reverse = (segments.dropWhile isIdle).reverse ++ idle := by
  refine ⟨(segments.takeWhile isIdle).reverse, fun segment hmem => ?_, ?_⟩
  · exact List.all_eq_true.mp List.all_takeWhile segment (List.mem_reverse.mp hmem)
  · rw [← List.reverse_append, List.takeWhile_append_dropWhile]

theorem Parts.segments_eq (parts : Parts) :
    ∃ idle, (∀ segment ∈ idle, isIdle segment = true) ∧
      parts.segments = parts.backwards.reverse ++ idle := by
  obtain ⟨idle, hidle, heq⟩ := reverse_eq_of_dropWhile parts.segments.reverse
  rw [List.reverse_reverse] at heq
  exact ⟨idle, hidle, heq⟩

theorem exists_leadsTo_or_idle (path : String) :
    (∃ above name, LeadsTo path above name) ∨ (split path).backwards = [] := by
  cases hback : (split path).backwards with
  | nil => exact .inr rfl
  | cons name before =>
    obtain ⟨tail, htail, hsegments⟩ := (split path).segments_eq
    obtain ⟨gap, hgap, hbefore⟩ := reverse_eq_of_dropWhile before
    rw [hback, List.reverse_cons, hbefore] at hsegments
    generalize habove : (before.dropWhile isIdle).reverse = above at hsegments
    have hregular := regular_split path
    have hactive : isIdle name = false :=
      isIdle_of_head (split path).segments.reverse (congrArg List.head? hback)
    left
    refine ⟨above, name, ?_, ?_, ?_, hactive, fun segment hmem => ?_, fun last hlast => ?_,
      fun hstart first hfirst => ?_⟩
    · simp only [parent?, hback, habove]
    · simp only [fileName?, hback]
    · rw [components, hsegments]
      simp [filter_isIdle hgap, filter_isIdle htail, hactive]
    · apply hregular.notMem
      rw [hsegments]
      simp only [List.mem_append] at hmem ⊢
      exact .inl (hmem.imp_left .inl)
    · rw [← habove, List.getLast?_reverse] at hlast
      exact isIdle_of_head before hlast
    · cases above with
      | nil => cases hfirst
      | cons segment rest =>
        cases hfirst
        have hhead := hregular.head hstart first _ hsegments
        refine isIdle_eq_false_iff.mpr ⟨fun hempty => ?_, hhead.1⟩
        simpa using hhead.2 hempty

theorem LeadsTo.split_join {path : String} {above : List (List Char)} {name other : List Char}
    (h : LeadsTo path above name) (hactive : isIdle other = false) (hslash : '/' ∉ other)
    (fallback : String) :
    split (join ((parent? path).getD fallback) (String.ofList other)) =
      ⟨(split path).start, above ++ [other]⟩ := by
  rw [h.parent, Option.getD_some, join_render]
  · refine split_render ⟨fun segment hmem => ?_, fun hstart first rest hsegments => ?_⟩ (by simp)
    · rcases List.mem_append.mp hmem with habove | hlast
      · exact h.notMem segment (List.mem_append_left _ habove)
      · cases List.mem_singleton.mp hlast
        exact hslash
    · have hfirst : isIdle first = false := by
        cases above with
        | nil =>
          cases hsegments
          exact hactive
        | cons segment above =>
          cases hsegments
          exact h.head hstart first rfl
      obtain ⟨hne, hdot⟩ := isIdle_eq_false_iff.mp hfirst
      exact ⟨hdot, fun hempty => absurd hempty hne⟩
  · intro last hlast
    exact ⟨(isIdle_eq_false_iff.mp (h.last last hlast)).1,
      h.notMem last (List.mem_append_left _ (List.mem_of_getLast? hlast))⟩

theorem splitName_cases (name : List Char) :
    splitName name = (name, none) ∨
      ∃ stem extension, splitName name = (stem, some extension) ∧ name = stem ++ '.' :: extension := by
  unfold splitName
  split
  · rename_i dot c rest hdrop
    have hdot : dot = '.' := by
      have hnot := List.head?_dropWhile_not (· ≠ '.') name.reverse
      rw [hdrop] at hnot
      simpa using hnot
    have hreverse : name.reverse = name.reverse.takeWhile (· ≠ '.') ++ dot :: c :: rest := by
      rw [← hdrop, List.takeWhile_append_dropWhile]
    refine .inr ⟨_, _, rfl, ?_⟩
    calc name = name.reverse.reverse := name.reverse_reverse.symm
      _ = (c :: rest).reverse ++ dot :: (name.reverse.takeWhile (· ≠ '.')).reverse := by
        rw [hreverse, List.reverse_append, List.reverse_cons, List.append_assoc,
          List.singleton_append, ← hreverse]
      _ = _ := by rw [hdot]
  · exact .inl rfl

end RegisterMachine.Path
