import RegisterMachine.Machine.Operation

/-!
Steps, interrupts and runs. An interrupt calls its handler and steps until the call depth is back at
its value before the call, so steps nest; `fuel` bounds the nesting and the length of each handler,
and nothing else depends on it.
-/
namespace RegisterMachine

namespace Machine

variable {σ : Type}

def enterInterrupt (machine : Machine σ) (number : UInt8) : Machine σ :=
  let entered :=
    { machine with halted := false, registers := machine.registers.setFlag .privileged true }
  match machine.host.observer with
  | some observer =>
    let (registers, world) := observer number entered.registers entered.world
    { entered with registers, world }
  | none => entered

def leaveInterrupt (machine : Machine σ) (privileged : Bool) : Machine σ :=
  { machine with halted := false, registers := machine.registers.setFlag .privileged privileged }

end Machine

namespace Run

variable {σ : Type}

def untilDepth (step : Run σ Instruction) (number : UInt8) (depth : UInt64) : Nat → Run σ Unit
  | 0 => do
    if (← get).registers.depth = depth then pure () else throw .outOfFuel
  | fuel + 1 => do
    if (← get).registers.depth = depth then pure ()
    else
      let _ ← step
      if (← get).halted then fail (.haltedInHandler number)
      else untilDepth step number depth fuel

def dispatchWith (step : Run σ Instruction) (fuel : Nat) (number : UInt8) (address : UInt64) :
    Run σ Unit := do
  log .debug ("interrupt " ++ Numeral.decimal number.toNat ++ " -> " ++ Numeral.address address.toNat)
  let depth := (← get).registers.depth
  call address
  untilDepth step number depth fuel

/-- Raises interrupt `number`, unless interrupts are disabled. However the handler ends, the machine
leaves the interrupt in the same way. -/
def interruptWith (step : Run σ Instruction) (fuel : Nat) (number : UInt8) : Run σ Unit :=
  fun machine =>
    if machine.registers.interruptsEnabled then
      let entered := machine.enterInterrupt number
      let privileged := machine.registers.privileged
      let result := match entered.handlers.find? number with
        | some address => dispatchWith step fuel number address entered
        | none => .ok () entered
      match result with
      | .ok _ left => .ok () (left.leaveInterrupt privileged)
      | .error stop left => .error stop (left.leaveInterrupt privileged)
    else .ok () machine

def trace (offset : UInt64) (instruction : Instruction) : Run σ Unit := do
  if (← get).config.trace then
    log .debug (Numeral.hex 8 offset.toNat ++ ": " ++ instruction.mnemonic)
  else pure ()

/-- Executes the instruction with this opcode, which was read at `offset`, up to the interrupt that
it raises. An opcode that is unknown or not allowed leaves the instruction pointer on itself. -/
def execute (offset : UInt64) (opcode : UInt8) : Run σ (Instruction × Option UInt8) := do
  match Instruction.ofOpcode? opcode with
  | none => do
    jump offset
    fail (.unknownOpcode opcode offset)
  | some instruction =>
    let machine ← get
    if instruction.privileged && !machine.registers.privileged then do
      jump offset
      fail (.privilegeViolation instruction offset)
    else do
      trace offset instruction
      let operation := Operation.ofInstruction instruction
      let operands ← fetchOperands operation.kinds
      operation.run operands
      return (instruction, operation.raises operands)

def executeNext : Run σ (Instruction × Option UInt8) := do
  let machine ← get
  if machine.halted then pure (.nop, none)
  else do
    let opcode ← fetch 1
    execute machine.registers.ip (.ofNat opcode)

def stepWith (take : UInt8 → Run σ Unit) : Run σ Instruction := do
  match ← executeNext with
  | (instruction, none) => pure instruction
  | (instruction, some number) => do
    take number
    pure instruction

/-- One step of a machine, with all of the handler of an interrupt that it raises. -/
def step : Nat → Run σ Instruction
  | 0 => fun machine => stepWith (fun _ => throw .outOfFuel) machine
  | fuel + 1 => fun machine => stepWith (interruptWith (step fuel) fuel) machine

def interrupt (fuel : Nat) (number : UInt8) : Run σ Unit := interruptWith (step fuel) fuel number

def runFrom (fuel count : Nat) : Nat → Run σ Nat
  | 0 => pure count
  | limit + 1 => do
    if (← get).halted then pure count
    else
      let _ ← step fuel
      runFrom fuel (count + 1) limit

/-- Steps until the machine halts, `limit` times at most. The result is the number of steps. -/
def runFor (fuel limit : Nat) : Run σ Nat := runFrom fuel 0 limit

end Run

end RegisterMachine
