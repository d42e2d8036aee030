import RegisterMachine.Fault
import RegisterMachine.Word

/-!
Byte addressable memory: RAM, on its own or behind a pair of hooks through which a host redirects
single addresses. `σ` is the host's own state.
-/
namespace RegisterMachine

structure Ram where
  bytes : Array UInt8

namespace Ram

/-- RAM that holds `image` at address zero, with zeros after it up to `size` bytes at least. -/
def load (image : Array UInt8) (size : Nat) : Ram :=
  ⟨image ++ Array.replicate (size - image.size) 0⟩

def size (ram : Ram) : UInt64 := .ofNat ram.bytes.size

def read (ram : Ram) (address : UInt64) : Except Fault UInt8 :=
  match ram.bytes[address.toNat]? with
  | some byte => .ok byte
  | none => .error (.outOfBounds address ram.size)

def write (ram : Ram) (address : UInt64) (byte : UInt8) : Except Fault Ram :=
  if _ : address.toNat < ram.bytes.size then .ok ⟨ram.bytes.set address.toNat byte⟩
  else .error (.outOfBounds address ram.size)

end Ram

/-- What a host puts in front of RAM. -/
structure Hooks (σ : Type) where
  /-- A byte to read instead of the one in RAM. -/
  read : Ram → UInt64 → Option UInt8
  /-- Whether the write is dealt with, and the RAM after it. -/
  write : Ram → UInt64 → UInt8 → σ → Bool × Ram × σ

structure Memory (σ : Type) where
  ram : Ram
  hooks : Option (Hooks σ) := none

namespace Memory

variable {σ : Type}

def size (memory : Memory σ) : UInt64 := memory.ram.size

/-- What the hook declines is read from RAM, with its bounds. -/
def read (memory : Memory σ) (address : UInt64) : Except Fault UInt8 :=
  match memory.hooks.bind (·.read memory.ram address) with
  | some byte => .ok byte
  | none => memory.ram.read address

def addressAt (memory : Memory σ) (start : UInt64) (offset : Nat) : Except Fault UInt64 :=
  if start.toNat + offset < Word.count 8 then .ok (start + .ofNat offset)
  else .error (.outOfBounds start memory.size)

/-- Reads `count` bytes from `offset` bytes past `start` on. A fault cuts the bytes short. -/
def readFrom (memory : Memory σ) (start : UInt64) (offset : Nat) :
    Nat → List UInt8 × Except Fault Unit
  | 0 => ([], .ok ())
  | count + 1 =>
    match memory.addressAt start offset >>= memory.read with
    | .ok byte =>
      let (bytes, outcome) := memory.readFrom start (offset + 1) count
      (byte :: bytes, outcome)
    | .error fault => ([], .error fault)

def readBytes (memory : Memory σ) (start : UInt64) (count : Nat) : Except Fault (List UInt8) :=
  let (bytes, outcome) := memory.readFrom start 0 count
  outcome.map fun _ => bytes

def readWord (memory : Memory σ) (address : UInt64) (width : Nat) : Except Fault Nat :=
  (memory.readBytes address width).map Word.ofLittleEndian

/-- Reads a text with its length in front, and how many bytes the two take. -/
def readText (memory : Memory σ) (address : UInt64) : Except Fault (String × UInt64) := do
  let length ← memory.readWord address 4
  let body ← memory.addressAt address 4
  if memory.size.toNat < body.toNat + length then throw (.outOfBounds body memory.size)
  else
    let bytes ← memory.readBytes body length
    match String.fromUTF8? ⟨bytes.toArray⟩ with
    | some text => return (text, .ofNat (4 + length))
    | none => throw (.malformedText address)

/-- Memory together with the state of the host that owns its hooks. A failed write keeps what was
written before it. -/
abbrev Access (σ α : Type) := EStateM Fault (Memory σ × σ) α

def write (address : UInt64) (byte : UInt8) : Access σ Unit := fun (memory, world) =>
  let (done, ram, world) := match memory.hooks with
    | some hooks => hooks.write memory.ram address byte world
    | none => (false, memory.ram, world)
  if done then .ok () ({ memory with ram }, world)
  else match ram.write address byte with
    | .ok ram => .ok () ({ memory with ram }, world)
    | .error fault => .error fault ({ memory with ram }, world)

def writeFrom (start : UInt64) (offset : Nat) : List UInt8 → Access σ Unit
  | [] => pure ()
  | byte :: rest => do
    match (← get).1.addressAt start offset with
    | .ok address => do
      write address byte
      writeFrom start (offset + 1) rest
    | .error fault => throw fault

def writeBytes (start : UInt64) (bytes : List UInt8) : Access σ Unit := writeFrom start 0 bytes

end Memory

end RegisterMachine
