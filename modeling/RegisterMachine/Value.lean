import RegisterMachine.Binary.Number
import RegisterMachine.Fault
import RegisterMachine.Text.Blank

/-!
Values of the machine's stack, and how a value of one kind is read as another.
-/
namespace RegisterMachine

inductive Value where
  /-- A signed integer; addresses and raw words are kept here too. -/
  | int (value : Int64)
  | float (value : Binary64)
  | text (value : String)
  deriving DecidableEq

namespace Value

def ofWord (word : UInt64) : Value := .int word.toInt64

def kind : Value → Kind
  | .int _ => .int
  | .float _ => .float
  | .text _ => .text

def asInt : Value → Except Fault Int64
  | .int value => .ok value
  | .float value => .ok value.truncate
  | .text value =>
    match Numeral.integer? 8 (Text.trim value.toList) with
    | some n => .ok (.ofInt n)
    | none => .error (.notNumeric .int value)

/-- The value as a raw word. Text may also be a number that needs all bits of the word. -/
def asWord : Value → Except Fault UInt64
  | .text value =>
    match Numeral.word? 8 (Text.trim value.toList) with
    | some n => .ok (.ofNat n)
    | none => (asInt (.text value)).map Int64.toUInt64
  | value => value.asInt.map Int64.toUInt64

def asFloat : Value → Except Fault Binary64
  | .int value => .ok (.ofInt value.toInt)
  | .float value => .ok value
  | .text value =>
    match Binary64.read? (Text.trim value.toList) with
    | some x => .ok x
    | none => .error (.notNumeric .float value)

def asText : Value → String
  | .int value => Numeral.signedDecimal value.toInt
  | .float value => value.text
  | .text value => value

def coerce (value : Value) : Kind → Except Fault Value
  | .int => value.asInt.map .int
  | .float => value.asFloat.map .float
  | .text => .ok (.text value.asText)

end Value

/-- The types that a value can be read as. Narrow integers keep the low bits. -/
class OfValue (α : Type) where
  ofValue : Value → Except Fault α

export OfValue (ofValue)

instance : OfValue Value := ⟨.ok⟩

instance : OfValue Int64 := ⟨Value.asInt⟩

instance : OfValue UInt64 := ⟨Value.asWord⟩

instance : OfValue Int32 := ⟨fun value => value.asInt.map Int64.toInt32⟩

instance : OfValue UInt32 := ⟨fun value => value.asInt.map fun n => n.toUInt64.toUInt32⟩

instance : OfValue UInt8 := ⟨fun value => value.asInt.map fun n => n.toUInt64.toUInt8⟩

instance : OfValue Binary64 := ⟨Value.asFloat⟩

instance : OfValue Binary32 := ⟨fun value => value.asFloat.map Binary64.toBinary32⟩

instance : OfValue String := ⟨fun value => .ok value.asText⟩

end RegisterMachine
