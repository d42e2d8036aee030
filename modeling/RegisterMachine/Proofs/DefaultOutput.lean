import RegisterMachine.Command.Assembler
import RegisterMachine.Proofs.FileLaws
import RegisterMachine.Proofs.PathParts

/-!
Where the assembler puts its output if it is not told. The default output stands beside the input and is
the same path exactly for inputs with the extension of images. The command writes to one path only, so a
source that is not reached through that path survives its assembly.
-/
namespace RegisterMachine

namespace Command.Assembler

open RegisterMachine.Path

def outputName (name : List Char) : List Char :=
  (if name = ['.', '.'] then [] else (splitName name).1) ++ ['.', 'b', 'i', 'n']

theorem length_outputName (name : List Char) : 4 ≤ (outputName name).length := by
  simp [outputName]

theorem isIdle_outputName (name : List Char) : isIdle (outputName name) = false := by
  have hlength := length_outputName name
  rw [isIdle_eq_false_iff]
  refine ⟨?_, ?_⟩ <;> intro heq <;> simp [heq] at hlength

theorem outputName_ne_up (name : List Char) : outputName name ≠ ['.', '.'] := by
  have hlength := length_outputName name
  intro heq
  simp [heq] at hlength

theorem notMem_outputName {name : List Char} (h : '/' ∉ name) : '/' ∉ outputName name := by
  rw [outputName, List.mem_append, not_or]
  refine ⟨?_, by decide⟩
  split
  · exact List.not_mem_nil
  · rcases splitName_cases name with hname | ⟨stem, extension, hname, rfl⟩
    · rwa [hname]
    · rw [hname]
      exact fun hmem => h (List.mem_append_left _ hmem)

theorem outputName_eq_self_iff {name : List Char} :
    outputName name = name ↔ name ≠ ['.', '.'] ∧ (splitName name).2 = some ['b', 'i', 'n'] := by
  by_cases hup : name = ['.', '.']
  · subst hup
    decide
  · rw [outputName, if_neg hup]
    rcases splitName_cases name with hname | ⟨stem, extension, hname, hjoin⟩
    · simp [hname]
    · have hsame : stem ++ ['.', 'b', 'i', 'n'] = name ↔ extension = ['b', 'i', 'n'] := by
        rw [hjoin]
        simp [eq_comm]
      simp [hname, hsame, hup]

theorem split_defaultOutput {input : String} {above : List (List Char)} {name : List Char}
    (h : LeadsTo input above name) :
    split (defaultOutput input) = ⟨(split input).start, above ++ [outputName name]⟩ := by
  have hname : (stem? input).getD "" ++ ".bin" = String.ofList (outputName name) := by
    rw [stem?, h.fileName, outputName, String.ofList_append]
    split <;> rfl
  rw [defaultOutput, hname]
  exact h.split_join (isIdle_outputName name) (notMem_outputName (h.notMem name (by simp))) "."

theorem components_defaultOutput {input : String} {above : List (List Char)} {name : List Char}
    (h : LeadsTo input above name) :
    components (defaultOutput input) =
      ((split input).start, above.filter (!isIdle ·) ++ [outputName name]) := by
  rw [components, split_defaultOutput h]
  simp [isIdle_outputName]

theorem extension?_eq_iff {input : String} {above : List (List Char)} {name : List Char}
    (h : LeadsTo input above name) : extension? input = some "bin" ↔ outputName name = name := by
  have hbin (extension : List Char) :
      String.ofList extension = "bin" ↔ extension = ['b', 'i', 'n'] := String.ofList_inj
  rw [extension?, h.fileName, outputName_eq_self_iff]
  by_cases hup : name = ['.', '.']
  · simp [hup]
  · cases hextension : (splitName name).2 with
    | none => simp [hup, hextension]
    | some extension => simp [hup, hextension, hbin]

theorem defaultOutput_idle {input : String} (h : (split input).backwards = []) :
    extension? input = none ∧ (components input).2 = [] ∧
      (components (defaultOutput input)).2 = [['.', 'b', 'i', 'n']] := by
  have hname : fileName? input = none := by
    rw [fileName?, h]
  refine ⟨?_, ?_, ?_⟩
  · rw [extension?, hname]
    rfl
  · obtain ⟨idle, hidle, hsegments⟩ := (split input).segments_eq
    rw [h] at hsegments
    rw [components, hsegments]
    exact filter_isIdle hidle
  · have hparent : parent? input = some "" ∨ parent? input = none := by
      simp only [parent?, h]
      cases (split input).start <;> simp
    rw [defaultOutput, stem?, hname]
    rcases hparent with hparent | hparent
    · rw [hparent]
      rfl
    · rw [hparent]
      rfl

theorem components_defaultOutput_eq_iff (input : String) :
    components (defaultOutput input) = components input ↔ extension? input = some "bin" := by
  rcases exists_leadsTo_or_idle input with ⟨above, name, h⟩ | hidle
  · rw [components_defaultOutput h, h.components, extension?_eq_iff h]
    simp
  · obtain ⟨hextension, hinput, houtput⟩ := defaultOutput_idle hidle
    rw [hextension]
    refine ⟨fun heq => ?_, fun hbin => by cases hbin⟩
    rw [heq, hinput] at houtput
    cases houtput

theorem destination_defaultOutput_eq_iff (input : String) :
    Disk.destination (defaultOutput input) = Disk.destination input ↔
      extension? input = some "bin" := by
  rcases exists_leadsTo_or_idle input with ⟨above, name, h⟩ | hidle
  · rw [Disk.destination, Disk.destination, components_defaultOutput h, h.components,
      extension?_eq_iff h, List.foldl_append, List.foldl_append]
    exact Disk.stride_eq_iff (isIdle_outputName name) (outputName_ne_up name) h.active
  · obtain ⟨hextension, hinput, houtput⟩ := defaultOutput_idle hidle
    rw [hextension, Disk.destination, Disk.destination, hinput, houtput]
    refine ⟨fun heq => ?_, fun hbin => by cases hbin⟩
    have hnames : (Disk.stride (Disk.startOf (components (defaultOutput input)).1)
        ['.', 'b', 'i', 'n']).names = (Disk.startOf (components input).1).names :=
      congrArg Place.names heq
    rw [Disk.stride_name rfl (by decide), Disk.names_startOf (components input).1] at hnames
    simp at hnames

/-- Without links, an input with another extension has its output in another file. -/
theorem file_defaultOutput_ne {disk : Disk} {input : String} (hread : (disk.read input).isOk = true)
    (hextension : extension? input ≠ some "bin") :
    disk.file (defaultOutput input) ≠ disk.file input := by
  cases hbytes : disk.read input with
  | error trouble =>
    rw [hbytes] at hread
    cases hread
  | ok bytes =>
    obtain ⟨place, hplace, -⟩ := Disk.read_eq_ok_iff.mp hbytes
    rw [Disk.file_eq_some_iff.mpr hplace]
    intro hsame
    have houtput := Disk.locate_eq_ok (Disk.file_eq_some_iff.mp hsame)
    rw [Disk.locate_eq_ok hplace] at houtput
    exact hextension ((destination_defaultOutput_eq_iff input).mp houtput.symm)

section Effect

variable {S φ : Type} {files : Files (StateM S)} {file : S → String → Option φ} {state after : S}
  {input output : String} {status : Nat}

theorem run_bind {α β : Type} (first : StateM S α) (next : α → StateM S β) (state : S) :
    (first >>= next).run state = (next (first.run state).1).run (first.run state).2 := rfl

theorem assemble_apply (h : files.Laws file) (state : S) (path : String) :
    (files.assemble path).run state =
      (match files.contents state path >>= Files.decodeText with
      | .error trouble => (.error (.file path trouble), "")
      | .ok source =>
        match Assembly.assemble source with
        | .ok image => (.ok image, "")
        | .error fault => (.error fault, Assembly.report path source fault), state) := by
  have hcontents : ((files.read path).run state).1 = files.contents state path := rfl
  rw [Files.assemble, run_bind, h.read_state, hcontents]
  cases files.contents state path >>= Files.decodeText with
  | error trouble => rfl
  | ok source =>
    dsimp only
    cases Assembly.assemble source <;> rfl

theorem directoryMissing?_state (h : files.Laws file) (state : S) (path : String) :
    ((directoryMissing? files path).run state).2 = state := by
  unfold directoryMissing?
  split
  · rfl
  · rfl
  · rw [run_bind, h.present_state]
    rfl

/-- What the command does, with the status that it ends with: it fails before it writes, or it writes the
image of the source, once. -/
inductive Effect (files : Files (StateM S)) (state : S) (input output : String) : Nat → S → Prop where
  | failed {status : Nat} (hstatus : status ≠ 0) : Effect files state input output status state
  | wrote {status : Nat} {bytes : Array UInt8} {source : String} {image : Image}
      (hread : files.contents state input = .ok bytes) (hdecode : Files.decodeText bytes = .ok source)
      (hassemble : Assembly.assemble source = .ok image)
      (hstatus : status = 0 → ((files.write output image.bytes).run state).1 = .ok ()) :
      Effect files state input output status ((files.write output image.bytes).run state).2

theorem Effect.spares (h : files.Laws file) (heffect : Effect files state input output status after)
    (hother : file state output ≠ file state input) :
    files.contents after input = files.contents state input := by
  cases heffect with
  | failed => rfl
  | wrote hread _ _ _ => rw [hread, h.write_other hread hother]

theorem Effect.replaces (h : files.Laws file) (heffect : Effect files state input output status after)
    (hsame : components output = components input) (hstatus : status = 0) :
    ∃ bytes source image, files.contents state input = .ok bytes ∧
      Files.decodeText bytes = .ok source ∧ Assembly.assemble source = .ok image ∧
      files.contents after input = .ok image.bytes := by
  cases heffect with
  | failed hfailed => exact absurd hstatus hfailed
  | wrote hread hdecode hassemble hdone =>
    exact ⟨_, _, _, hread, hdecode, hassemble, h.write_same hread hsame (hdone hstatus)⟩

theorem compile_effect (h : files.Laws file) (state : S) (input output : String) (dump : Bool) :
    let result := (compile files input output dump).run state
    Effect files state input output result.1.status result.2 := by
  rw [compile]
  dsimp only
  rw [run_bind, assemble_apply h]
  cases hsource : files.contents state input >>= Files.decodeText with
  | error trouble => exact .failed Nat.one_ne_zero
  | ok source =>
    obtain ⟨bytes, hread, hdecode⟩ := bind_eq_ok_iff.mp hsource
    dsimp only
    cases hassemble : Assembly.assemble source with
    | error fault => exact .failed Nat.one_ne_zero
    | ok image =>
      dsimp only
      rw [run_bind, Files.writeImage, run_bind]
      cases hwrite : ((files.write output image.bytes).run state).1 with
      | error trouble => exact .wrote hread hdecode hassemble fun hzero => absurd hzero Nat.one_ne_zero
      | ok _ => exact .wrote hread hdecode hassemble fun _ => hwrite

theorem parse_output {options parsed : Options} {args : List String} (hlong : "--output" ∉ args)
    (hshort : "-o" ∉ args) (h : parse options args = .ok parsed) : parsed.output = options.output := by
  induction args generalizing options with
  | nil =>
    cases h
    rfl
  | cons argument rest ih =>
    rw [List.mem_cons, not_or] at hlong hshort
    rw [parse.eq_def] at h
    dsimp only at h
    rw [if_neg (not_or.mpr ⟨Ne.symm hlong.1, Ne.symm hshort.1⟩)] at h
    split at h
    · rw [ih hlong.2 hshort.2 h]
    · cases h

theorem run_effect (h : files.Laws file) (state : S) (program : String) {args : List String}
    (hhelp : ¬(input = "--help" ∨ input = "-h")) (hlong : "--output" ∉ args) (hshort : "-o" ∉ args) :
    let result := (run files program (input :: args)).run state
    Effect files state input (defaultOutput input) result.1.status result.2 := by
  rw [run]
  dsimp only
  rw [if_neg hhelp]
  cases hparse : parse {} args with
  | error misuse => cases misuse <;> exact .failed Nat.one_ne_zero
  | ok options =>
    have houtput : options.output.getD (defaultOutput input) = defaultOutput input := by
      rw [parse_output hlong hshort hparse]
      rfl
    dsimp only
    rw [run_bind, h.present_state, houtput]
    split
    · exact .failed Nat.one_ne_zero
    · rw [run_bind, directoryMissing?_state h]
      split
      · exact .failed Nat.one_ne_zero
      · exact compile_effect h state input (defaultOutput input) options.dump

theorem run_help (files : Files (StateM S)) (state : S) (program : String) {args : List String}
    (hhelp : input = "--help" ∨ input = "-h") :
    ((run files program (input :: args)).run state).2 = state := by
  rw [run]
  dsimp only
  rw [if_pos hhelp]
  rfl

end Effect

/-- Without an output option, input and output are one path exactly if the input has the extension of
images. A source with any other extension is left as it was, unless a link makes its file that of the
output; one with that extension is replaced by its image. -/
theorem default_output_spares_source {S φ : Type} {files : Files (StateM S)}
    {file : S → String → Option φ} (hfiles : files.Laws file) (state : S) (program input : String)
    {args : List String} (hlong : "--output" ∉ args) (hshort : "-o" ∉ args) :
    let output := defaultOutput input
    let result := (run files program (input :: args)).run state
    (components output = components input ↔ extension? input = some "bin") ∧
      (extension? input ≠ some "bin" → output ≠ input ∧
        (file state output ≠ file state input →
          files.contents result.2 input = files.contents state input)) ∧
      (extension? input = some "bin" → result.1.status = 0 →
        ∃ bytes source image, files.contents state input = .ok bytes ∧
          Files.decodeText bytes = .ok source ∧ Assembly.assemble source = .ok image ∧
          files.contents result.2 input = .ok image.bytes) := by
  intro output result
  have hpath := components_defaultOutput_eq_iff input
  refine ⟨hpath, fun hextension => ⟨?_, fun hother => ?_⟩, fun hextension hstatus => ?_⟩
  · intro heq
    exact hextension (hpath.mp (congrArg components heq))
  · by_cases hhelp : input = "--help" ∨ input = "-h"
    · rw [run_help files state program hhelp]
    · exact (run_effect hfiles state program hhelp hlong hshort).spares hfiles hother
  · have hhelp : ¬(input = "--help" ∨ input = "-h") := by
      rintro (rfl | rfl) <;> revert hextension <;> decide
    exact (run_effect hfiles state program hhelp hlong hshort).replaces hfiles
      (hpath.mpr hextension) hstatus

def halting (path : String) : Disk := ({} : Disk).add path "HALT".toUTF8.data

theorem default_output_spares_source_version :
    let disk := halting "src/prog.v1.asm"
    let result := (run Disk.files "assembler" ["src/./prog.v1.asm", "-d"]).run disk
    ("--output" ∉ ["-d"] ∧ "-o" ∉ ["-d"]) ∧ Disk.files.Laws Disk.file ∧ result.1.status = 0 ∧
      defaultOutput "src/./prog.v1.asm" = "src/prog.v1.bin" ∧
      result.2.read "src/prog.v1.bin" ≠ disk.read "src/prog.v1.bin" ∧
      result.2.read "src/./prog.v1.asm" = disk.read "src/./prog.v1.asm" := by
  intro disk result
  obtain ⟨-, hspared, -⟩ := default_output_spares_source Disk.laws disk "assembler"
    "src/./prog.v1.asm" (show "--output" ∉ ["-d"] by decide) (by decide)
  have hextension : extension? "src/./prog.v1.asm" ≠ some "bin" := by decide +kernel
  have hread : (disk.read "src/./prog.v1.asm").isOk = true := by decide +kernel
  have hother := file_defaultOutput_ne hread hextension
  have hwritten : (result.2.read "src/prog.v1.bin").toOption ≠
      (disk.read "src/prog.v1.bin").toOption := by decide +kernel
  exact ⟨⟨by decide, by decide⟩, Disk.laws, by decide +kernel, by decide +kernel,
    fun hsame => hwritten (congrArg Except.toOption hsame), (hspared hextension).2 hother⟩

theorem default_output_replaces_source :
    let disk := halting "x.bin"
    let result := (run Disk.files "assembler" ["x.bin"]).run disk
    disk.present "x.bin" = true ∧ defaultOutput "x.bin" = "x.bin" ∧ result.1.status = 0 ∧
      result.2.read "x.bin" ≠ disk.read "x.bin" := by
  intro disk result
  refine ⟨by decide +kernel, by decide +kernel, by decide +kernel, fun hsame => ?_⟩
  exact absurd (congrArg Except.toOption hsame) (by decide +kernel)

end Command.Assembler

end RegisterMachine
