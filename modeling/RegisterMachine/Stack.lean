import RegisterMachine.Value
import RegisterMachine.Word

/-!
The value stack. Offsets count down from the top: offset zero is the newest value.
-/
namespace RegisterMachine

structure Stack where
  /-- The values with the newest last. -/
  values : Array Value := #[]
  /-- The greatest number of values, if there is one. -/
  limit : Option Nat := none

namespace Stack

def size (stack : Stack) : Nat := stack.values.size

def push (stack : Stack) (value : Value) : Except Fault Stack :=
  match stack.limit with
  | some limit =>
    if limit ≤ stack.size then .error (.stackOverflow limit)
    else .ok { stack with values := stack.values.push value }
  | none => .ok { stack with values := stack.values.push value }

/-- A depth that is one more than an offset, kept within the range of a word. -/
def depthOf (offset : Nat) : Nat := min (offset + 1) (Word.count 8 - 1)

def popAt (stack : Stack) (offset : Nat) : Except Fault (Value × Stack) :=
  if _ : offset < stack.size then
    have : stack.values.size - 1 - offset < stack.values.size := by simp only [size] at *; omega
    .ok (stack.values[stack.values.size - 1 - offset],
      { stack with values := stack.values.eraseIdx (stack.values.size - 1 - offset) })
  else .error (.stackUnderflow (depthOf offset) stack.size)

def pop (stack : Stack) : Except Fault (Value × Stack) := stack.popAt 0

def peekAt (stack : Stack) (offset : Nat) : Except Fault Value :=
  if _ : offset < stack.size then
    have : stack.values.size - 1 - offset < stack.values.size := by simp only [size] at *; omega
    .ok stack.values[stack.values.size - 1 - offset]
  else .error (.stackUnderflow (depthOf offset) stack.size)

def peek (stack : Stack) : Except Fault Value := stack.peekAt 0

/-- Removes the top and reads it. The value is gone even if it does not read. -/
def popAs (α : Type) [OfValue α] (stack : Stack) : Except Fault α × Stack :=
  match stack.pop with
  | .ok (value, rest) => (ofValue value, rest)
  | .error fault => (.error fault, stack)

def setCount (stack : Stack) (count : Nat) : Stack :=
  { stack with values := stack.values.take count }

end Stack

end RegisterMachine
