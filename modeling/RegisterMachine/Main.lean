import RegisterMachine.Command.Assembler
import RegisterMachine.Command.Runner

/-!
The command line. The executable assembles when it is called `assembler`, and runs programs under
any other name.
-/
namespace RegisterMachine.Command

def troubleOf : IO.Error → FileTrouble
  | .noFileOrDirectory _ _ _ => .missing
  | .inappropriateType _ code _ => if code = 21 then .isDirectory else .notDirectory
  | error => .other (toString error)

/-- The file system that the process runs in. -/
def systemFiles : Files IO where
  present path := do
    -- an empty path, joined to the directory, would name the directory itself
    if path = "" then return false
    else ((← IO.currentDir) / path).pathExists
  read path := do
    match ← (IO.FS.readBinFile path).toBaseIO with
    | .ok bytes => return .ok bytes.data
    | .error error => return .error (troubleOf error)
  write path bytes := do
    match ← (IO.FS.writeBinFile path ⟨bytes⟩).toBaseIO with
    | .ok _ => return .ok ()
    | .error error => return .error (troubleOf error)

def settings : IO (List (String × Option String)) :=
  ["E64_GP_REGISTERS", "E64_PRIVILEGED", "E64_TRACE", "E64_MAX_STACK"].mapM fun key => do
    return (key, ← IO.getEnv key)

def start (name : String) (args : List String) : IO Outcome := do
  if Path.stem? name = some "assembler" then Assembler.run systemFiles name args
  else
    let environment ← settings
    Runner.runReading systemFiles 0x4000000000000000 name args
      (fun key => (environment.lookup key).join)
      (do return (← (← IO.getStdin).readBinToEnd).data.toList)

end RegisterMachine.Command

open RegisterMachine.Command in
def main (args : List String) : IO UInt32 := do
  let outcome ← start (toString (← IO.appPath)) args
  let stdout ← IO.getStdout
  stdout.write ⟨outcome.output⟩
  stdout.flush
  IO.eprint outcome.messages
  return .ofNat outcome.status
