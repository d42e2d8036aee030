import RegisterMachine.Fault
import RegisterMachine.Text.Blank

/-!
Settings that a machine is built with, and the variables of the environment that change them.
-/
namespace RegisterMachine

structure Config where
  /-- The number of general purpose registers. -/
  registers : Nat := 16
  /-- Whether a reset leaves the machine privileged. -/
  startPrivileged : Bool := false
  /-- Whether every executed instruction is logged. -/
  trace : Bool := false
  maxStack : Option Nat := none
  deriving DecidableEq

namespace Config

/-- A number of registers: from one up to as many as one byte can name. -/
def parseRegisters (key value : String) : Except Fault Nat :=
  match Numeral.word? 8 (Text.trim value.toList) with
  | some n => if 1 ≤ n ∧ n ≤ 256 then .ok n else .error (.invalidSetting key value)
  | none => .error (.invalidSetting key value)

def parseSwitch (key value : String) : Except Fault Bool :=
  let word := String.ofList ((Text.trim value.toList).map Char.toLower)
  if word ∈ ["1", "true", "yes", "on"] then .ok true
  else if word ∈ ["0", "false", "no", "off", ""] then .ok false
  else .error (.invalidSetting key value)

def parseDepth (key value : String) : Except Fault Nat :=
  match Numeral.word? 8 (Text.trim value.toList) with
  | some n => .ok n
  | none => .error (.invalidSetting key value)

def setting {α : Type} (lookup : String → Option String) (key : String)
    (parse : String → String → Except Fault α) (unset : α) : Except Fault α :=
  match lookup key with
  | some value => parse key value
  | none => .ok unset

def ofEnvironment (lookup : String → Option String) : Except Fault Config := do
  let registers ← setting lookup "E64_GP_REGISTERS" parseRegisters 16
  let startPrivileged ← setting lookup "E64_PRIVILEGED" parseSwitch false
  let trace ← setting lookup "E64_TRACE" parseSwitch false
  let maxStack ← setting lookup "E64_MAX_STACK" (fun key value => some <$> parseDepth key value) none
  return { registers, startPrivileged, trace, maxStack }

end Config

end RegisterMachine
