import RegisterMachine.Config
import RegisterMachine.Log
import RegisterMachine.Memory
import RegisterMachine.Native
import RegisterMachine.Registers
import RegisterMachine.Stack

/-!
The machine and the host around it. The host's callbacks are functions on its own state `σ`, so a
run shows in `σ` which callbacks were made and in which order.
-/
namespace RegisterMachine

structure Port (σ : Type) where
  read : σ → UInt64 × σ
  write : UInt64 → σ → σ

structure Host (σ : Type) where
  ports : Table UInt64 (Port σ) := {}
  /-- Sees the number of every interrupt that is taken, and may change the registers. -/
  observer : Option (UInt8 → Registers → σ → Registers × σ) := none
  /-- Takes over at a breakpoint, and may change the registers. -/
  breakpoint : Option (Registers → σ → Registers × σ) := none
  natives : Natives σ := {}
  log : Level → String → σ → σ := fun _ _ world => world

structure Machine (σ : Type) where
  memory : Memory σ
  registers : Registers
  stack : Stack
  /-- The addresses of interrupt handlers by number. -/
  handlers : Table UInt8 UInt64
  halted : Bool
  config : Config
  host : Host σ
  world : σ

namespace Machine

variable {σ : Type}

def bootRegisters (config : Config) : Registers :=
  (Registers.ofCount config.registers).setFlag .interruptsEnabled true
    |>.setFlag .privileged config.startPrivileged

/-- Starts anew. Memory and host stay as they are. -/
def reset (machine : Machine σ) : Machine σ :=
  { machine with
    registers := bootRegisters machine.config
    stack := { limit := machine.config.maxStack }
    handlers := {}
    halted := false }

def boot (config : Config) (memory : Memory σ) (host : Host σ) (world : σ) : Machine σ where
  memory
  registers := bootRegisters config
  stack := { limit := config.maxStack }
  handlers := {}
  halted := false
  config
  host
  world

end Machine

inductive Stop where
  | fault (cause : Fault)
  /-- The bound on nested and repeated steps was reached. -/
  | outOfFuel
  deriving DecidableEq

/-- A computation on the machine. It keeps its changes when it stops. -/
abbrev Run (σ α : Type) := EStateM Stop (Machine σ) α

namespace Run

variable {σ α : Type}

def fail (cause : Fault) : Run σ α := throw (.fault cause)

def ofExcept : Except Fault α → Run σ α
  | .ok a => pure a
  | .error cause => fail cause

def ofAccess (access : Memory.Access σ α) : Run σ α := fun machine =>
  match access (machine.memory, machine.world) with
  | .ok a (memory, world) => .ok a { machine with memory, world }
  | .error cause (memory, world) => .error (.fault cause) { machine with memory, world }

def log (level : Level) (message : String) : Run σ Unit :=
  modify fun machine => { machine with world := machine.host.log level message machine.world }

def jump (address : UInt64) : Run σ Unit :=
  modify fun machine => { machine with registers := { machine.registers with ip := address } }

def getRegister (index : UInt8) : Run σ Int64 := do
  ofExcept ((← get).registers.get index.toNat)

def setRegister (index : UInt8) (value : Int64) : Run σ Unit := do
  let registers ← ofExcept ((← get).registers.set index.toNat value)
  modify fun machine => { machine with registers }

def push (value : Value) : Run σ Unit := do
  let stack ← ofExcept ((← get).stack.push value)
  modify fun machine => { machine with stack }

def pop : Run σ Value := do
  let (value, stack) ← ofExcept ((← get).stack.pop)
  modify fun machine => { machine with stack }
  return value

def popAs (α : Type) [OfValue α] : Run σ α := do
  let (result, stack) := (← get).stack.popAs α
  modify fun machine => { machine with stack }
  ofExcept result

end Run

end RegisterMachine
