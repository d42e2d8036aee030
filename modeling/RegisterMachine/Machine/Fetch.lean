import RegisterMachine.Machine.Basic

/-!
Reading memory at the instruction pointer, which moves on by what was read, and at given addresses.
-/
namespace RegisterMachine

def OperandKind.Carrier : OperandKind → Type
  | .register => UInt8
  | .byte => UInt8
  | .word => Int64

def Operands : List OperandKind → Type
  | [] => Unit
  | kind :: kinds => kind.Carrier × Operands kinds

namespace Run

variable {σ : Type}

/-- Reads an unsigned number of `width` bytes at the instruction pointer. A failure leaves it. -/
def fetch (width : Nat) : Run σ Nat := do
  let machine ← get
  let ip := machine.registers.ip
  let n ← ofExcept (machine.memory.readWord ip width)
  jump (ip + .ofNat width)
  return n

def fetchText : Run σ String := do
  let machine ← get
  let ip := machine.registers.ip
  let (text, size) ← ofExcept (machine.memory.readText ip)
  jump (ip + size)
  return text

def fetchOperand : (kind : OperandKind) → Run σ kind.Carrier
  | .register => return (UInt8.ofNat (← fetch 1))
  | .byte => return (UInt8.ofNat (← fetch 1))
  | .word => return (UInt64.ofNat (← fetch 8)).toInt64

def fetchOperands : (kinds : List OperandKind) → Run σ (Operands kinds)
  | [] => pure ()
  | kind :: kinds => do
    let operand ← fetchOperand kind
    let operands ← fetchOperands kinds
    return (operand, operands)

def readText (address : UInt64) : Run σ String := do
  let (text, _) ← ofExcept ((← get).memory.readText address)
  return text

def read (width : Nat) (address : UInt64) : Run σ Nat := do
  ofExcept ((← get).memory.readWord address width)

def store (width : Nat) (address : UInt64) (value : Int) : Run σ Unit :=
  ofAccess (Memory.writeBytes address (Word.littleEndian width (Word.ofSigned width value)))

end Run

end RegisterMachine
