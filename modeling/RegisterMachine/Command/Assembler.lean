import RegisterMachine.Command.Outcome
import RegisterMachine.Files
import RegisterMachine.Listing
import RegisterMachine.Path

/-!
The command that assembles a source file into an image file.
-/
namespace RegisterMachine.Command.Assembler

def usage (program : String) : String :=
  String.join ([
      "Assembly Compiler",
      "",
      "USAGE:",
      "    " ++ program ++ " <input.asm> [OPTIONS]",
      "",
      "ARGS:",
      "    <input.asm>    Assembly source file to compile",
      "",
      "OPTIONS:",
      "    -o, --output <file>     Output file path (defaults to <input>.bin)",
      "    -d, --dump              Print a disassembly listing (trailing data as hex)",
      "    -h, --help              Print this help message",
      "",
      "EXAMPLES:",
      "    # Compile to default output name",
      "    " ++ program ++ " program.asm",
      "",
      "    # Compile with explicit output",
      "    " ++ program ++ " program.asm -o output.bin",
      "",
      "    # Compile and show the listing",
      "    " ++ program ++ " program.asm --dump"].map (· ++ "\n"))

structure Options where
  output : Option String := none
  dump : Bool := false

inductive Misuse where
  | noArgument (option : String)
  | unexpected (argument : String)

def parse (options : Options) : List String → Except Misuse Options
  | [] => .ok options
  | argument :: rest =>
    if argument = "--output" ∨ argument = "-o" then
      match rest with
      | [] => .error (.noArgument argument)
      | path :: rest => parse { options with output := some path } rest
    else if argument = "--dump" ∨ argument = "-d" then parse { options with dump := true } rest
    else .error (.unexpected argument)

def defaultOutput (input : String) : String :=
  Path.join ((Path.parent? input).getD ".") ((Path.stem? input).getD "" ++ ".bin")

variable {m : Type → Type} [Monad m]

/-- Whether the directory that a path names exists. A path without a directory is as good. -/
def directoryMissing? (files : Files m) (path : String) : m (Option String) := do
  match Path.parent? path with
  | none => return none
  | some "" => return none
  | some parent => return if ← files.present parent then none else some parent

def compile (files : Files m) (input output : String) (dump : Bool) : m Outcome := do
  let log : Log := {}
  let (result, diagnostic) ← files.assemble input
  let log := report log diagnostic
  match result with
  | .error fault => return .ofLog 1 (log.write .error ("Assembly failed: " ++ fault.message))
  | .ok image =>
    match ← files.writeImage output image with
    | .error fault =>
      return .ofLog 1 (log.write .error ("Failed to write output file: " ++ fault.message))
    | .ok _ =>
      let log := log.write .info ("Compiled " ++ input ++ " -> " ++ output ++ " (" ++
        Numeral.decimal image.size ++ " bytes)")
      let output := if dump then image.listing.toUTF8.data else #[]
      return { status := 0, output, messages := log.text }

def run (files : Files m) (program : String) (args : List String) : m Outcome := do
  let log : Log := {}
  match args with
  | [] => return .ofLog 1 (log.write .info (usage program))
  | input :: rest =>
    if input = "--help" ∨ input = "-h" then return .ofLog 0 (log.write .info (usage program))
    else match parse {} rest with
      | .error (.noArgument option) =>
        return .ofLog 1 (log.write .error (option ++ " requires an argument"))
      | .error (.unexpected argument) =>
        return .ofLog 1 (log.write .error ("Unexpected argument: " ++ argument ++ "\n")
          |>.write .info (usage program))
      | .ok options =>
        if !(← files.present input) then
          return .ofLog 1 (log.write .error ("Input file does not exist: " ++ input))
        else
          let output := options.output.getD (defaultOutput input)
          match ← directoryMissing? files output with
          | some parent =>
            return .ofLog 1 (log.write .error ("Output directory does not exist: " ++ parent))
          | none => compile files input output options.dump

end RegisterMachine.Command.Assembler
