import RegisterMachine.Image
import RegisterMachine.Literal
import RegisterMachine.Table

/-!
Programs under construction: a text section of objects and a data section of named literals. Labels
take no room; the address of a label is the number of bytes before it in text and data together.
-/
namespace RegisterMachine.Assembly

inductive Object where
  | label (name : String)
  | addressOf (name : String)
  | literal (value : Literal)
  deriving DecidableEq

def Object.size : Object → Nat
  | .label _ => 0
  | .addressOf _ => 8
  | .literal value => value.size

def Object.totalSize : List Object → Nat
  | [] => 0
  | object :: rest => object.size + totalSize rest

structure Entry where
  name : String
  literal : Literal

def Entry.objects (entry : Entry) : List Object := [.label entry.name, .literal entry.literal]

structure Builder where
  text : Array Object := #[]
  data : Array Entry := #[]
  /-- The number of labels that have been made up so far. -/
  made : Nat := 0

namespace Builder

def emit (builder : Builder) (object : Object) : Builder :=
  { builder with text := builder.text.push object }

def literal (builder : Builder) (value : Literal) : Builder := builder.emit (.literal value)

def instruction (builder : Builder) (instruction : Instruction) : Builder :=
  builder.literal (.byte instruction.opcode)

def label (builder : Builder) (name : String) : Builder := builder.emit (.label name)

def addressOf (builder : Builder) (name : String) : Builder := builder.emit (.addressOf name)

def dataNamed (builder : Builder) (name : String) (value : Literal) : Builder :=
  let builder := builder.addressOf name
  { builder with data := builder.data.push ⟨name, value⟩ }

/-- Adds the address of a literal to the text. The first entry that holds the literal is used
again; only a new one gets an entry, under a made up name. -/
def intern (builder : Builder) (value : Literal) : Builder :=
  match builder.data.find? (·.literal = value) with
  | some entry => builder.addressOf entry.name
  | none =>
    { builder with made := builder.made + 1 }.dataNamed ("DTA_" ++ Numeral.decimal builder.made) value

def objects (builder : Builder) : List Object :=
  builder.text.toList ++ builder.data.toList.flatMap Entry.objects

def defines (builder : Builder) (name : String) : Bool := .label name ∈ builder.objects

def place (offsets : Table String Nat) (offset : Nat) :
    List Object → Except Fault (Table String Nat)
  | [] => .ok offsets
  | .label name :: rest =>
    if offsets.contains name then .error (.duplicateLabel name)
    else place (offsets.insert name offset) offset rest
  | object :: rest => place offsets (offset + object.size) rest

def encode (offsets : Table String Nat) : Object → Except Fault (List UInt8)
  | .label _ => .ok []
  | .addressOf name =>
    match offsets.find? name with
    | some offset => .ok (Word.littleEndian 8 offset)
    | none => .error (.undefinedLabel name)
  | .literal value => value.encode

def toBytes (builder : Builder) : Except Fault (List UInt8) := do
  let offsets ← place {} 0 builder.objects
  let parts ← builder.objects.mapM (encode offsets)
  return parts.flatten

def toImage (builder : Builder) : Except Fault Image := do
  let bytes ← builder.toBytes
  return .ofCodeSize bytes.toArray (Object.totalSize builder.text.toList)

end Builder

end RegisterMachine.Assembly
