import RegisterMachine.Log

/-!
What a command leaves behind besides files: its exit status, its output and its messages.
-/
namespace RegisterMachine.Command

structure Outcome where
  status : Nat
  output : Array UInt8 := #[]
  messages : String

def Outcome.ofLog (status : Nat) (log : Log) : Outcome := { status, messages := log.text }

def report (log : Log) (text : String) : Log := { log with text := log.text ++ text }

end RegisterMachine.Command
