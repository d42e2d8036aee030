import RegisterMachine.Fault

/-!
The register file: general purpose registers, instruction pointer, control word and call depth.
-/
namespace RegisterMachine

inductive Flag where
  | privileged | equal | lesser | greater | interruptsEnabled
  deriving DecidableEq

def Flag.bit : Flag → Nat
  | .privileged => 0
  | .equal => 1
  | .lesser => 2
  | .greater => 3
  | .interruptsEnabled => 4

theorem Flag.bit_lt (flag : Flag) : flag.bit < 64 := by cases flag <;> decide

theorem Flag.bit_inj {flag other : Flag} : flag.bit = other.bit ↔ flag = other := by
  cases flag <;> cases other <;> decide

structure Registers where
  general : Array Int64
  /-- The address of the next byte to fetch. -/
  ip : UInt64 := 0
  control : UInt64 := 0
  /-- The number of calls that have not returned. -/
  depth : UInt64 := 0
  deriving DecidableEq

namespace Registers

def ofCount (count : Nat) : Registers where
  general := Array.replicate count 0

def get (registers : Registers) (index : Nat) : Except Fault Int64 :=
  match registers.general[index]? with
  | some value => .ok value
  | none => .error (.noSuchRegister index registers.general.size)

def set (registers : Registers) (index : Nat) (value : Int64) : Except Fault Registers :=
  if _ : index < registers.general.size then
    .ok { registers with general := registers.general.set index value }
  else .error (.noSuchRegister index registers.general.size)

def mask (bit : Nat) : UInt64 := 1 <<< UInt64.ofNat bit

def hasBit (registers : Registers) (bit : Nat) : Bool := registers.control &&& mask bit != 0

def putBit (registers : Registers) (bit : Nat) (value : Bool) : Registers :=
  { registers with
    control := if value then registers.control ||| mask bit else registers.control &&& ~~~mask bit }

def flagBit (registers : Registers) (bit : Nat) : Except Fault Bool :=
  if bit < 64 then .ok (registers.hasBit bit) else .error (.noSuchFlagBit bit)

def setFlagBit (registers : Registers) (bit : Nat) (value : Bool) : Except Fault Registers :=
  if bit < 64 then .ok (registers.putBit bit value) else .error (.noSuchFlagBit bit)

def flag (registers : Registers) (flag : Flag) : Bool := registers.hasBit flag.bit

def setFlag (registers : Registers) (flag : Flag) (value : Bool) : Registers :=
  registers.putBit flag.bit value

def privileged (registers : Registers) : Bool := registers.flag .privileged

def interruptsEnabled (registers : Registers) : Bool := registers.flag .interruptsEnabled

def compare (registers : Registers) (a b : Int64) : Registers :=
  registers.setFlag .lesser (a < b) |>.setFlag .greater (b < a) |>.setFlag .equal (a = b)

theorem flag_congr {left right : Registers} (h : left.control = right.control) :
    left.flag = right.flag := by
  funext flag
  unfold Registers.flag hasBit
  rw [h]

theorem toBitVec_mask (flag : Flag) : (mask flag.bit).toBitVec = BitVec.twoPow 64 flag.bit := by
  cases flag <;> rfl

theorem flag_eq_getLsbD (registers : Registers) (flag : Flag) :
    registers.flag flag = registers.control.toBitVec.getLsbD flag.bit := by
  have hmask : BitVec.twoPow 64 flag.bit ≠ 0#64 := by cases flag <;> decide
  unfold Registers.flag hasBit
  rw [Bool.eq_iff_iff, bne_iff_ne, ne_eq, ← UInt64.toBitVec_inj, UInt64.toBitVec_and,
    toBitVec_mask, BitVec.and_twoPow]
  cases registers.control.toBitVec.getLsbD flag.bit with
  | true => simpa using hmask
  | false => simp

theorem flag_setFlag (registers : Registers) (flag other : Flag) (value : Bool) :
    (registers.setFlag flag value).flag other =
      if other = flag then value else registers.flag other := by
  have hbits : (BitVec.twoPow 64 flag.bit).getLsbD other.bit = decide (other = flag) := by
    simp [Flag.bit_lt, Flag.bit_inj, eq_comm]
  rw [flag_eq_getLsbD, flag_eq_getLsbD]
  unfold setFlag putBit
  cases value with
  | true =>
    simp only [if_true, UInt64.toBitVec_or, toBitVec_mask, BitVec.getLsbD_or, hbits]
    split <;> simp [*]
  | false =>
    simp only [Bool.false_eq_true, if_false, UInt64.toBitVec_and, UInt64.toBitVec_not,
      toBitVec_mask, BitVec.getLsbD_and, BitVec.getLsbD_not, hbits, Flag.bit_lt]
    split <;> simp [*]

theorem setFlag_setFlag (registers : Registers) (flag : Flag) (first second : Bool) :
    (registers.setFlag flag first).setFlag flag second = registers.setFlag flag second := by
  unfold setFlag putBit
  congr 1
  rw [← UInt64.toBitVec_inj]
  apply BitVec.eq_of_getElem_eq
  intro i hi
  cases first <;> cases second <;> cases hbit : (mask flag.bit).toBitVec[i] <;> simp [hbit]

theorem flag_compare (registers : Registers) (a b : Int64) (flag : Flag) :
    (registers.compare a b).flag flag = match flag with
      | .lesser => decide (a < b)
      | .greater => decide (b < a)
      | .equal => decide (a = b)
      | other => registers.flag other := by
  unfold compare
  cases flag <;> simp [flag_setFlag]

end Registers

end RegisterMachine
