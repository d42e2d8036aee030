import RegisterMachine.Disk
import RegisterMachine.Proofs.Encoding
import RegisterMachine.Proofs.PathParts

/-!
What commands rely on in a file system, and that the file system in memory is one. Two paths may lead to
one file, by their segments or by a link, so the laws ask which file a path leads to: a write is seen
through the paths to its own file only.
-/
namespace RegisterMachine

namespace Files

variable {S φ : Type}

def contents (files : Files (StateM S)) (state : S) (path : String) :
    Except FileTrouble (Array UInt8) := ((files.read path).run state).1

/-- `file` tells which file a path leads to, if to any. A write that fails may have written, so it too
is held to `write_other`. -/
structure Laws (files : Files (StateM S)) (file : S → String → Option φ) : Prop where
  present_state : ∀ state path, ((files.present path).run state).2 = state
  read_state : ∀ state path, ((files.read path).run state).2 = state
  write_other : ∀ {state path target bytes old}, files.contents state path = .ok old →
    file state target ≠ file state path →
    files.contents ((files.write target bytes).run state).2 path = .ok old
  write_same : ∀ {state path target bytes old}, files.contents state path = .ok old →
    Path.components target = Path.components path →
    ((files.write target bytes).run state).1 = .ok () →
    files.contents ((files.write target bytes).run state).2 path = .ok bytes

end Files

namespace Disk

variable {disk after : Disk} {place next last : Place} {path : String}

def stride (place : Place) (segment : List Char) : Place :=
  if Path.isIdle segment then place
  else if segment = ['.', '.'] then parent place
  else { place with names := place.names ++ [String.ofList segment] }

def destination (path : String) : Place :=
  (Path.components path).2.foldl stride (startOf (Path.components path).1)

theorem requireDirectory_eq_ok_iff :
    disk.requireDirectory place = .ok () ↔ disk.node? place = some .directory := by
  unfold requireDirectory
  cases disk.node? place with
  | none => simp
  | some node => cases node <;> simp

theorem follow_eq_ok_iff {segment : List Char} :
    disk.follow place segment = .ok next ↔
      disk.node? place = some .directory ∧ next = stride place segment := by
  have hfollow : disk.follow place segment =
      (disk.requireDirectory place).map fun _ => stride place segment := by
    unfold follow stride
    cases disk.requireDirectory place with
    | error trouble => rfl
    | ok _ =>
      change (if _ then _ else if _ then _ else _) = _
      split
      · rfl
      · split <;> rfl
  rw [hfollow, ← requireDirectory_eq_ok_iff]
  cases disk.requireDirectory place with
  | error trouble => simp [Except.map]
  | ok _ => simp [Except.map, eq_comm]

theorem foldlM_follow_eq_ok {segments : List (List Char)}
    (h : segments.foldlM disk.follow place = .ok last) : last = segments.foldl stride place := by
  induction segments generalizing place with
  | nil =>
    cases h
    rfl
  | cons segment rest ih =>
    rw [List.foldlM_cons, bind_eq_ok_iff] at h
    obtain ⟨next, hnext, hrest⟩ := h
    obtain ⟨-, rfl⟩ := follow_eq_ok_iff.mp hnext
    exact ih hrest

theorem foldl_stride_filter (segments : List (List Char)) (place : Place) :
    (segments.filter (!Path.isIdle ·)).foldl stride place = segments.foldl stride place := by
  induction segments generalizing place with
  | nil => rfl
  | cons segment rest ih =>
    by_cases hidle : Path.isIdle segment = true
    · have hstay : stride place segment = place := if_pos hidle
      rw [List.filter_cons_of_neg (by simp [hidle]), List.foldl_cons, hstay, ih]
    · rw [List.filter_cons_of_pos (by simpa using hidle), List.foldl_cons, List.foldl_cons, ih]

theorem locate_eq_ok (h : disk.locate path = .ok place) : place = destination path := by
  unfold locate at h
  split at h
  · cases h
  · rw [destination, Path.components, foldl_stride_filter]
    exact foldlM_follow_eq_ok h

theorem find_eq_ok_iff {node : Node} :
    disk.find path = .ok node ↔
      ∃ place, disk.locate path = .ok place ∧ disk.node? place = some node := by
  unfold find
  rw [bind_eq_ok_iff]
  apply exists_congr
  intro place
  cases disk.node? place with
  | none => simp
  | some found => simp [pure, Except.pure]

theorem read_eq_ok_iff {bytes : Array UInt8} :
    disk.read path = .ok bytes ↔
      ∃ place, disk.locate path = .ok place ∧ disk.node? place = some (.file bytes) := by
  rw [← find_eq_ok_iff]
  unfold read
  rw [bind_eq_ok_iff]
  constructor
  · rintro ⟨node, hfind, hfile⟩
    cases node with
    | file found =>
      cases hfile
      exact hfind
    | directory => cases hfile
  · intro hfind
    exact ⟨_, hfind, rfl⟩

def put (disk : Disk) (place : Place) (bytes : Array UInt8) : Disk :=
  ⟨disk.nodes.insert place (.file bytes)⟩

theorem node?_put (hnames : place.names ≠ []) (bytes : Array UInt8) (other : Place) :
    (disk.put place bytes).node? other =
      if other = place then some (.file bytes) else disk.node? other := by
  unfold node? put
  rw [Table.find?_insert]
  by_cases hother : other = place
  · subst hother
    rw [if_neg hnames, if_pos rfl, if_pos rfl]
  · rw [if_neg hother, if_neg hother]

/-- A place that can be written to: it has a name, and no directory is there. -/
structure Free (disk : Disk) (place : Place) : Prop where
  names : place.names ≠ []
  node : disk.node? place ≠ some .directory

/-- A file that takes no directory's place leaves every way as it was. -/
theorem Free.locate_put (h : disk.Free place) (bytes : Array UInt8)
    (hlocate : disk.locate path = .ok last) : (disk.put place bytes).locate path = .ok last := by
  have hfollow : ∀ {start next : Place} {segment : List Char},
      disk.follow start segment = .ok next → (disk.put place bytes).follow start segment = .ok next := by
    intro start next segment hstep
    obtain ⟨hdirectory, hnext⟩ := follow_eq_ok_iff.mp hstep
    -- Only directories are walked through, so the new file is not on the way.
    have hother : start ≠ place := by
      rintro rfl
      exact h.node hdirectory
    exact follow_eq_ok_iff.mpr ⟨by rw [node?_put h.names, if_neg hother, hdirectory], hnext⟩
  have hfold : ∀ (segments : List (List Char)) (start : Place),
      segments.foldlM disk.follow start = .ok last →
        segments.foldlM (disk.put place bytes).follow start = .ok last := by
    intro segments
    induction segments with
    | nil => exact fun start hstart => hstart
    | cons segment rest ih =>
      intro start hstart
      rw [List.foldlM_cons, bind_eq_ok_iff] at hstart ⊢
      obtain ⟨next, hnext, hrest⟩ := hstart
      exact ⟨next, hfollow hnext, ih next hrest⟩
  unfold locate at hlocate ⊢
  split at hlocate
  · cases hlocate
  · rename_i hpath
    rw [if_neg hpath]
    exact hfold _ _ hlocate

theorem names_startOf (start : Path.Start) : (startOf start).names = [] := by
  cases start <;> rfl

theorem stride_name {segment : List Char} (hactive : Path.isIdle segment = false)
    (hup : segment ≠ ['.', '.']) (place : Place) :
    stride place segment = { place with names := place.names ++ [String.ofList segment] } := by
  rw [stride, if_neg (by rw [hactive]; exact Bool.false_ne_true), if_neg hup]

theorem stride_eq_iff {name other : List Char} (hname : Path.isIdle name = false)
    (hup : name ≠ ['.', '.']) (hother : Path.isIdle other = false) :
    stride place name = stride place other ↔ name = other := by
  refine ⟨fun heq => ?_, fun heq => by rw [heq]⟩
  have hnames := congrArg Place.names heq
  rw [stride_name hname hup] at hnames
  by_cases hparent : other = ['.', '.']
  -- A name leads one level down, which the way up never does.
  · have hlength : place.names.length + 1 = (parent place).names.length := by
      rw [hparent, show stride place ['.', '.'] = parent place from rfl] at hnames
      simpa using congrArg List.length hnames
    have hle : (parent place).names.length ≤ place.names.length := by
      unfold parent
      split
      · exact Nat.le_refl _
      · exact (List.dropLast_sublist _).length_le
    omega
  · rw [stride_name hother hparent] at hnames
    simpa [String.ofList_inj] using hnames

theorem segments_of_dropWhile {segments before : List (List Char)} {last : List Char}
    (hdrop : segments.reverse.dropWhile (· = []) = last :: before)
    (hend : segments.getLast? ≠ some []) : segments = before.reverse ++ [last] ∧ last ≠ [] := by
  rw [← List.reverse_eq_cons_iff]
  rw [← List.head?_reverse] at hend
  cases hreverse : segments.reverse with
  | nil =>
    rw [hreverse] at hdrop
    cases hdrop
  | cons first rest =>
    rw [hreverse] at hdrop hend
    rw [List.dropWhile_cons_of_neg (by simpa using hend)] at hdrop
    cases hdrop
    exact ⟨rfl, fun hempty => hend (congrArg some hempty)⟩

theorem write_eq_ok {bytes : Array UInt8} (h : disk.write path bytes = .ok after) :
    ∃ place, disk.locate path = .ok place ∧ disk.Free place ∧ after = disk.put place bytes := by
  unfold write at h
  split at h
  · cases h
  rename_i hpath
  dsimp only at h
  split at h
  · cases h
  rename_i last before hdrop
  obtain ⟨directory, hdirectory, hwrite⟩ := bind_eq_ok_iff.mp h
  obtain ⟨-, -, hrest⟩ := bind_eq_ok_iff.mp hwrite
  split at hrest
  · cases hrest
  rename_i hname
  simp only [Bool.or_eq_true, decide_eq_true_eq, not_or] at hname
  obtain ⟨⟨hend, hdot⟩, hup⟩ := hname
  obtain ⟨hsegments, hlast⟩ := segments_of_dropWhile hdrop hend
  obtain ⟨place, hplace, hput⟩ := bind_eq_ok_iff.mp hrest
  -- The last segment was followed on its own; the whole way is the way to its directory and then it.
  have hlocate : disk.locate path = .ok place := by
    rw [locate, if_neg hpath]
    dsimp only
    rw [hsegments, List.foldlM_append, bind_eq_ok_iff]
    refine ⟨directory, hdirectory, ?_⟩
    rw [List.foldlM_cons, hplace]
    rfl
  have hnames : place.names ≠ [] := by
    rw [(follow_eq_ok_iff.mp hplace).2, stride_name (Path.isIdle_eq_false_iff.mpr ⟨hlast, hdot⟩) hup]
    simp
  have hnode : disk.node? place = disk.nodes.find? place := if_neg hnames
  split at hput
  · cases hput
  · rename_i hfree
    cases hput
    refine ⟨place, hlocate, ⟨hnames, ?_⟩, rfl⟩
    rw [hnode]
    exact hfree

/-- Where a path leads, with or without a file there. -/
def file (disk : Disk) (path : String) : Option Place := (disk.locate path).toOption

theorem file_eq_some_iff : disk.file path = some place ↔ disk.locate path = .ok place := by
  unfold file
  cases disk.locate path <;> simp [Except.toOption]

theorem files_write (disk : Disk) (path : String) (bytes : Array UInt8) :
    (files.write path bytes).run disk = match disk.write path bytes with
      | .ok after => (.ok (), after)
      | .error trouble => (.error trouble, disk) := by
  have hget {α : Type} (next : Disk → StateM Disk α) : (get >>= next).run disk = (next disk).run disk := rfl
  rw [files]
  dsimp only
  rw [hget]
  cases disk.write path bytes <;> rfl

theorem laws : files.Laws Disk.file where
  present_state _ _ := rfl
  read_state _ _ := rfl
  write_other := by
    intro disk path target bytes old hread hother
    obtain ⟨origin, horigin, hfile⟩ := read_eq_ok_iff.mp hread
    rw [files_write]
    cases hwrite : disk.write target bytes with
    | error trouble => exact hread
    | ok after =>
      obtain ⟨place, hplace, hfree, rfl⟩ := write_eq_ok hwrite
      have hne : origin ≠ place := by
        rintro rfl
        exact hother ((file_eq_some_iff.mpr hplace).trans (file_eq_some_iff.mpr horigin).symm)
      refine read_eq_ok_iff.mpr ⟨origin, hfree.locate_put bytes horigin, ?_⟩
      rw [node?_put hfree.names, if_neg hne, hfile]
  write_same := by
    intro disk path target bytes old hread hsame hdone
    obtain ⟨origin, horigin, -⟩ := read_eq_ok_iff.mp hread
    rw [files_write] at hdone ⊢
    cases hwrite : disk.write target bytes with
    | error trouble =>
      rw [hwrite] at hdone
      cases hdone
    | ok after =>
      obtain ⟨place, hplace, hfree, rfl⟩ := write_eq_ok hwrite
      obtain rfl : place = origin := by
        rw [locate_eq_ok hplace, locate_eq_ok horigin, destination, destination, hsame]
      refine read_eq_ok_iff.mpr ⟨place, hfree.locate_put bytes horigin, ?_⟩
      rw [node?_put hfree.names, if_pos rfl]

end Disk

end RegisterMachine
