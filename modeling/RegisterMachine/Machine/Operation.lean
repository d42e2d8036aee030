import RegisterMachine.Machine.Fetch

/-!
What each instruction reads and what it does once its operands are read.
-/
namespace RegisterMachine

namespace Run

variable {σ : Type}

def setFlag (flag : Flag) (value : Bool) : Run σ Unit :=
  modify fun machine => { machine with registers := machine.registers.setFlag flag value }

def compare (a b : Int64) : Run σ Unit :=
  modify fun machine => { machine with registers := machine.registers.compare a b }

def jumpIfAny (flags : List Flag) (address : Int64) : Run σ Unit := do
  if flags.any (← get).registers.flag then jump address.toUInt64

def call (address : UInt64) : Run σ Unit := do
  push (.ofWord (← get).registers.ip)
  modify fun machine =>
    { machine with registers :=
      { machine.registers with depth := machine.registers.depth + 1, ip := address } }

def ret : Run σ Unit := do
  if (← get).registers.depth = 0 then fail .returnWithoutCall
  else
    let address ← popAs UInt64
    modify fun machine =>
      { machine with registers :=
        { machine.registers with depth := machine.registers.depth - 1, ip := address } }

def out (port data : UInt64) : Run σ Unit :=
  modify fun machine =>
    match machine.host.ports.find? port with
    | some device => { machine with world := device.write data machine.world }
    | none => machine

def input (port : UInt64) : Run σ UInt64 :=
  modifyGet fun machine =>
    match machine.host.ports.find? port with
    | some device =>
      let (data, world) := device.read machine.world
      (data, { machine with world })
    | none => (0, machine)

def breakpoint : Run σ Unit := do
  let machine ← get
  match machine.host.breakpoint with
  | some hook =>
    let (registers, world) := hook machine.registers machine.world
    set { machine with registers, world }
  | none =>
    log .warn ("breakpoint at " ++ Numeral.address (machine.registers.ip - 1).toNat ++
      " with no hook installed")

/-- Pops a value for every kind, the last kind first, and reads it as that kind. The values come
back in the order of the kinds. -/
def popArguments : List Kind → Run σ (List Value)
  | [] => pure []
  | kind :: kinds => do
    let later ← popArguments kinds
    let value ← pop
    let argument ← ofExcept (value.coerce kind)
    return argument :: later

def invoke (name : String) (args : List Value) : Run σ (Option Value) := do
  let machine ← get
  let (result, world) := machine.host.natives.invoke name args machine.world
  set { machine with world }
  ofExcept result

def callNative (address : UInt64) : Run σ Unit := do
  let name ← readText address
  let machine ← get
  match machine.host.natives.find? name with
  | none => fail (.unknownNative name)
  | some native =>
    if machine.stack.size < native.params.length then
      fail (.stackUnderflow native.params.length machine.stack.size)
    else
      let args ← popArguments native.params
      match ← invoke name args with
      | some value => push value
      | none => pure ()

def compareRegisters (a b : UInt8) : Run σ Unit := do
  compare (← getRegister a) (← getRegister b)

def compareWord (a : UInt8) (word : Int64) : Run σ Unit := do
  compare (← getRegister a) word

def jumpRegister (address : UInt8) : Run σ Unit := do
  jump (← getRegister address).toUInt64

def jumpNotEqual (address : Int64) : Run σ Unit := do
  if !(← get).registers.flag .equal then jump address.toUInt64

def addWord (a : UInt8) (word : Int64) : Run σ Unit := do
  setRegister a ((← getRegister a) + word)

def addRegister (a b : UInt8) : Run σ Unit := do
  let left ← getRegister a
  setRegister a (left + (← getRegister b))

def subtractWord (a : UInt8) (word : Int64) : Run σ Unit := do
  setRegister a ((← getRegister a) - word)

def subtractRegister (a b : UInt8) : Run σ Unit := do
  let left ← getRegister a
  setRegister a (left - (← getRegister b))

def moveRegister (target source : UInt8) : Run σ Unit := do
  setRegister target (← getRegister source)

def readByte (target address : UInt8) : Run σ Unit := do
  let n ← read 1 (← getRegister address).toUInt64
  setRegister target (.ofNat n)

def readHalf (target address : UInt8) : Run σ Unit := do
  let n ← read 4 (← getRegister address).toUInt64
  setRegister target (.ofInt (Word.signed 4 n))

def outRegister (port : Int64) (source : UInt8) : Run σ Unit := do
  out port.toUInt64 (← getRegister source).toUInt64

/-- The register is looked at first, so that a bad one takes no input. -/
def inputRegister (target : UInt8) (port : Int64) : Run σ Unit := do
  let _ ← getRegister target
  setRegister target (← input port.toUInt64).toInt64

def pushRegister (source : UInt8) : Run σ Unit := do
  push (.int (← getRegister source))

def drop : Run σ Unit := do
  let _ ← pop

/-- The register is looked at first, so that a bad one takes no value. -/
def popRegister (target : UInt8) : Run σ Unit := do
  let _ ← getRegister target
  setRegister target (← popAs Int64)

def callRegister (address : UInt8) : Run σ Unit := do
  call (← getRegister address).toUInt64

def printPrivilege : Run σ Unit := do
  log .info (if (← get).registers.privileged then "Privileged" else "Protected")

def pushText (address : Int64) : Run σ Unit := do
  push (.text (← readText address.toUInt64))

def skip : Run σ Unit := pure ()

def halt : Run σ Unit := modify fun machine => { machine with halted := true }

def reset : Run σ Unit := modify Machine.reset

def setHandler (number : UInt8) (address : Int64) : Run σ Unit :=
  modify fun machine =>
    { machine with handlers := machine.handlers.insert number address.toUInt64 }

end Run

/-- The operands that an instruction reads, what it does with them, and the interrupt that it raises
after that. -/
structure Operation (σ : Type) where
  kinds : List OperandKind
  run : Operands kinds → Run σ Unit
  raises : Operands kinds → Option UInt8

namespace Operation

variable {σ : Type}

def plain (kinds : List OperandKind) (run : Operands kinds → Run σ Unit) : Operation σ :=
  ⟨kinds, run, fun _ => none⟩

open Run in
/-- What the machine reads after each opcode, and what it does then. -/
def ofInstruction : Instruction → Operation σ
  | .nop => plain [] fun () => skip
  | .halt => plain [] fun () => halt
  | .reset => plain [] fun () => reset
  | .breakpoint => plain [] fun () => breakpoint
  | .raise => ⟨[.byte], fun (_, ()) => skip, fun (number, ()) => some number⟩
  | .setHandler => plain [.byte, .word] fun (number, address, ()) => setHandler number address
  | .disableInterrupts => plain [] fun () => setFlag .interruptsEnabled false
  | .enableInterrupts => plain [] fun () => setFlag .interruptsEnabled true
  | .compareRegisters => plain [.register, .register] fun (a, b, ()) => compareRegisters a b
  | .compareWord => plain [.register, .word] fun (a, word, ()) => compareWord a word
  | .jump => plain [.word] fun (address, ()) => jump address.toUInt64
  | .jumpRegister => plain [.register] fun (address, ()) => jumpRegister address
  | .jumpEqual => plain [.word] fun (address, ()) => jumpIfAny [.equal] address
  | .jumpNotEqual => plain [.word] fun (address, ()) => jumpNotEqual address
  | .jumpLessEqual => plain [.word] fun (address, ()) => jumpIfAny [.lesser, .equal] address
  | .jumpGreaterEqual => plain [.word] fun (address, ()) => jumpIfAny [.greater, .equal] address
  | .jumpLess => plain [.word] fun (address, ()) => jumpIfAny [.lesser] address
  | .jumpGreater => plain [.word] fun (address, ()) => jumpIfAny [.greater] address
  | .addRegister => plain [.register, .register] fun (a, b, ()) => addRegister a b
  | .addWord => plain [.register, .word] fun (a, word, ()) => addWord a word
  | .subtractRegister => plain [.register, .register] fun (a, b, ()) => subtractRegister a b
  | .subtractWord => plain [.register, .word] fun (a, word, ()) => subtractWord a word
  | .moveWord => plain [.register, .word] fun (target, word, ()) => setRegister target word
  | .moveRegister =>
    plain [.register, .register] fun (target, source, ()) => moveRegister target source
  | .readByte => plain [.register, .register] fun (target, address, ()) => readByte target address
  | .readHalf => plain [.register, .register] fun (target, address, ()) => readHalf target address
  | .outWord => plain [.word, .word] fun (port, data, ()) => out port.toUInt64 data.toUInt64
  | .outRegister => plain [.word, .register] fun (port, source, ()) => outRegister port source
  | .input => plain [.register, .word] fun (target, port, ()) => inputRegister target port
  | .pushWord => plain [.word] fun (word, ()) => push (.int word)
  | .pushRegister => plain [.register] fun (source, ()) => pushRegister source
  | .pop => plain [] fun () => drop
  | .popRegister => plain [.register] fun (target, ()) => popRegister target
  | .call => plain [.word] fun (address, ()) => call address.toUInt64
  | .callRegister => plain [.register] fun (address, ()) => callRegister address
  | .ret => plain [] fun () => ret
  | .dropPrivilege => plain [] fun () => setFlag .privileged false
  | .testPrivilege => plain [] fun () => skip
  | .printPrivilege => plain [] fun () => printPrivilege
  | .pushText => plain [.word] fun (address, ()) => pushText address
  | .callNative => plain [.word] fun (address, ()) => callNative address.toUInt64

end Operation

end RegisterMachine
