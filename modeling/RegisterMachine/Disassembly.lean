import RegisterMachine.Fault
import RegisterMachine.Word

/-!
Instructions with their operands, their encoding in bytes, and the way back from bytes.
-/
namespace RegisterMachine

inductive Operand where
  | register (index : UInt8)
  | byte (value : UInt8)
  | word (value : Int64)
  deriving DecidableEq

namespace Operand

def kind : Operand → OperandKind
  | .register _ => .register
  | .byte _ => .byte
  | .word _ => .word

def encode : Operand → List UInt8
  | .register index => [index]
  | .byte value => [value]
  | .word value => Word.littleEndian 8 value.toUInt64.toNat

def decode (bytes : List UInt8) : OperandKind → Operand
  | .register => .register (.ofNat (Word.ofLittleEndian bytes))
  | .byte => .byte (.ofNat (Word.ofLittleEndian bytes))
  | .word => .word (UInt64.ofNat (Word.ofLittleEndian bytes)).toInt64

end Operand

structure Decoded where
  offset : Nat
  instruction : Instruction
  operands : List Operand
  deriving DecidableEq

namespace Decoded

def WellFormed (decoded : Decoded) : Prop :=
  decoded.operands.map Operand.kind = decoded.instruction.operands

def encode (decoded : Decoded) : List UInt8 :=
  decoded.instruction.opcode :: decoded.operands.flatMap Operand.encode

def size (decoded : Decoded) : Nat := 1 + decoded.instruction.operandSize

theorem size_pos (decoded : Decoded) : 0 < decoded.size := by
  simp only [size]
  omega

end Decoded

namespace Disassembly

def operandsAt (bytes : Array UInt8) (offset : Nat) :
    List OperandKind → Except Fault (List Operand)
  | [] => .ok []
  | kind :: kinds =>
    if offset + kind.size ≤ bytes.size then do
      let operand := Operand.decode (bytes.extract offset (offset + kind.size)).toList kind
      let operands ← operandsAt bytes (offset + kind.size) kinds
      return operand :: operands
    else .error (.outOfBounds (.ofNat offset) (.ofNat bytes.size))

def decodeAt (bytes : Array UInt8) (offset : Nat) : Except Fault Decoded :=
  match bytes[offset]? with
  | none => .error (.outOfBounds (.ofNat offset) (.ofNat bytes.size))
  | some opcode =>
    match Instruction.ofOpcode? opcode with
    | none => .error (.unknownOpcode opcode (.ofNat offset))
    | some instruction => do
      let operands ← operandsAt bytes (offset + 1) instruction.operands
      return ⟨offset, instruction, operands⟩

/-- Where a sweep over instructions came to its end, and why it went no further. -/
structure Sweep where
  instructions : Array Decoded
  stop : Nat
  fault : Option Fault

/-- Reads one instruction after the other, up to the end or to the first that does not decode. -/
def sweepFrom (bytes : Array UInt8) (offset : Nat) (found : Array Decoded) : Sweep :=
  if offset < bytes.size then
    match decodeAt bytes offset with
    | .ok decoded => sweepFrom bytes (offset + decoded.size) (found.push decoded)
    | .error fault => ⟨found, offset, some fault⟩
  else ⟨found, offset, none⟩
termination_by bytes.size - offset
decreasing_by
  have := decoded.size_pos
  omega

def range (bytes : Array UInt8) (start stop : Nat) : Except Fault (List Decoded) :=
  let sweep := sweepFrom (bytes.extract 0 stop) start #[]
  match sweep.fault with
  | some fault => .error fault
  | none => .ok sweep.instructions.toList

def whole (bytes : Array UInt8) : Except Fault (List Decoded) := range bytes 0 bytes.size

def leading (bytes : Array UInt8) : List Decoded × Nat :=
  let sweep := sweepFrom bytes 0 #[]
  (sweep.instructions.toList, sweep.stop)

end Disassembly

end RegisterMachine
