import RegisterMachine.Command.Outcome
import RegisterMachine.Files
import RegisterMachine.Machine.Step
import RegisterMachine.Path

/-!
The command that runs a program until it halts, with a console behind two ports, and shows the
registers at the end.
-/
namespace RegisterMachine.Command

structure Console where
  input : List UInt8
  output : Array UInt8 := #[]
  log : Log := {}

namespace Console

def write (console : Console) (text : String) : Console :=
  { console with output := console.output ++ text.toUTF8.data }

def note (console : Console) (level : Level) (message : String) : Console :=
  { console with log := console.log.write level message }

def outputPort : Port Console where
  read console := (0, console)
  write data console := { console with output := console.output.push data.toUInt8 }

def inputPort : Port Console where
  read console :=
    match console.input with
    | [] => (0, console)
    | byte :: rest => (byte.toUInt64, { console with input := rest })
  write _ console := console

def printText : Native Console where
  params := [.text]
  returns := none
  call args console :=
    match args with
    | .text text :: _ => (.ok none, console.write text)
    | _ => (.ok none, console)

def host : Host Console where
  ports := ({} : Table UInt64 (Port Console)).insert 1 outputPort |>.insert 2 inputPort
  observer := some fun number registers console =>
    (registers, console.note .info ("Interrupt " ++ Numeral.decimal number.toNat ++ " at " ++
      Numeral.address registers.ip.toNat ++ " (cd " ++ Numeral.decimal registers.depth.toNat ++ ")"))
  breakpoint := some fun registers console =>
    (registers, console.note .warn ("Breakpoint at " ++ Numeral.address registers.ip.toNat))
  natives := ({} : Natives Console).insert "print" printText
  log level message console := console.note level message

end Console

namespace Runner

def usage (program : String) : String :=
  String.join ([
      "E64 Virtual Machine",
      "",
      "USAGE:",
      "    " ++ program ++ " <program.bin|program.asm> [OPTIONS]",
      "",
      "ARGS:",
      "    <program>    Binary image, or assembly source when it ends in .asm",
      "",
      "OPTIONS:",
      "    --trace              Log every executed instruction",
      "    --privileged         Boot with the Privileged flag set",
      "    --max-steps <n>      Stop after n instructions",
      "    --registers <n>      General purpose register count (1-256)",
      "    -h, --help           Print this help message",
      "",
      "PORTS:",
      "    1    console out (low byte of the data word)",
      "    2    console in (0 at end of input)",
      "",
      "EXAMPLES:",
      "    # Assemble and run in one go",
      "    " ++ program ++ " hello.asm --privileged",
      "",
      "    # Run a compiled image with tracing",
      "    " ++ program ++ " hello.bin --trace --max-steps 1000"].map (· ++ "\n"))

structure Options where
  config : Config
  maxSteps : Option Nat := none

def parse (options : Options) : List String → Except String Options
  | [] => .ok options
  | argument :: rest =>
    if argument = "--trace" then
      parse { options with config := { options.config with trace := true } } rest
    else if argument = "--privileged" then
      parse { options with config := { options.config with startPrivileged := true } } rest
    else if argument = "--max-steps" then
      match rest with
      | [] => .error "--max-steps requires an argument"
      | value :: rest =>
        match Numeral.word? 8 value.toList with
        | some n => parse { options with maxSteps := some n } rest
        | none => .error ("Invalid value for --max-steps: " ++ value)
    else if argument = "--registers" then
      match rest with
      | [] => .error "--registers requires an argument"
      | value :: rest =>
        match Config.parseRegisters argument value with
        | .ok n => parse { options with config := { options.config with registers := n } } rest
        | .error fault => .error fault.message
    else .error ("Unexpected argument: " ++ argument)

def options (lookup : String → Option String) (args : List String) : Except String Options := do
  let config ← (Config.ofEnvironment lookup).mapError Fault.message
  parse { config } args

def flagNames : List (Flag × String) :=
  [(.privileged, "P"), (.equal, "EQ"), (.lesser, "LT"), (.greater, "GT"), (.interruptsEnabled, "IE")]

def registerLine (index : Nat) (value : Int64) : String :=
  "r" ++ String.ofList ((Numeral.decimalDigits index).rightpad 3 ' ') ++ " = 0x" ++
    Numeral.hex 16 value.toUInt64.toNat ++ " (" ++ Numeral.signedDecimal value.toInt ++ ")"

def registerLines (registers : Registers) : List String :=
  let set := flagNames.filter fun (flag, _) => registers.flag flag
  registers.general.toList.mapIdx registerLine ++
    ["ip   = 0x" ++ Numeral.hex 16 registers.ip.toNat,
      "cr   = 0x" ++ Numeral.hex 16 registers.control.toNat,
      "cd   = " ++ Numeral.decimal registers.depth.toNat,
      "flags: [" ++ " ".intercalate (set.map Prod.snd) ++ "]"]

def stopMessage : Stop → String
  | .fault cause => cause.message
  | .outOfFuel => "out of fuel"

def conclude (machine : Machine Console) (status : Nat) (level : Level) (message : String) :
    Outcome :=
  let console := machine.world.note level message
  let shown := console.write (String.join ((registerLines machine.registers).map (· ++ "\n")))
  ⟨status, shown.output, shown.log.text⟩

def execute (fuel : Nat) (image : Image) (options : Options) (console : Console) : Outcome :=
  let memory : Memory Console := ⟨Ram.load image.bytes 0x10000, none⟩
  let machine := Machine.boot options.config memory Console.host console
  match Run.runFor fuel (options.maxSteps.getD (Word.count 8 - 1)) machine with
  | .ok steps machine =>
    let count := " after " ++ Numeral.decimal steps ++ " instructions"
    if machine.halted then conclude machine 0 .info ("Halted" ++ count)
    else conclude machine 0 .warn ("Step limit reached" ++ count)
  | .error stop machine =>
    conclude machine 1 .error ("Execution failed at " ++ Numeral.address machine.registers.ip.toNat ++
      ": " ++ stopMessage stop)

variable {m : Type → Type} [Monad m]

def isSource (path : String) : Bool :=
  (Path.extension? path).any fun extension => extension.toList.map Char.toLower = "asm".toList

def load (files : Files m) (path : String) : m (Except Fault Image × String) := do
  if isSource path then files.assemble path else return (← files.readImage path, "")

/-- The command with its arguments and the variables of the environment. All of its input is read when
the program is about to run. `fuel` bounds interrupt handlers. -/
def runReading (files : Files m) (fuel : Nat) (program : String) (args : List String)
    (lookup : String → Option String) (input : m (List UInt8)) : m Outcome := do
  let log : Log := {}
  match args with
  | [] => return .ofLog 1 (log.write .info (usage program))
  | path :: rest =>
    if path = "--help" ∨ path = "-h" then return .ofLog 0 (log.write .info (usage program))
    else match options lookup rest with
      | .error message =>
        return .ofLog 1 (log.write .error (message ++ "\n") |>.write .info (usage program))
      | .ok options =>
        let log := { log with minimum := if options.config.trace then .debug else .info }
        let (result, diagnostic) ← load files path
        let log := report log diagnostic
        match result with
        | .error fault =>
          return .ofLog 1 (log.write .error ("Failed to load " ++ path ++ ": " ++ fault.message))
        | .ok image => return execute fuel image options { input := ← input, log }

def run (files : Files m) (fuel : Nat) (program : String) (args : List String)
    (lookup : String → Option String) (input : List UInt8) : m Outcome :=
  runReading files fuel program args lookup (pure input)

end Runner

end RegisterMachine.Command
