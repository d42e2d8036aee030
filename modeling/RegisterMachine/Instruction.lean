/-!
The instruction set. Every instruction is one row of a table: opcode, mnemonic, operand layout and
whether it is reserved for privileged code. Lookups by opcode and by mnemonic search that table.
-/
namespace RegisterMachine

inductive OperandKind where
  /-- The index of a general purpose register, one byte. -/
  | register
  /-- An unsigned number, one byte. -/
  | byte
  /-- A signed number, eight bytes with the least significant first. -/
  | word
  deriving DecidableEq

def OperandKind.size : OperandKind → Nat
  | .register => 1
  | .byte => 1
  | .word => 8

def OperandKind.totalSize : List OperandKind → Nat
  | [] => 0
  | kind :: kinds => kind.size + totalSize kinds

inductive Instruction where
  | nop | halt | reset | breakpoint | raise | setHandler | disableInterrupts | enableInterrupts
  | compareRegisters | compareWord | jump | jumpRegister | jumpEqual | jumpNotEqual
  | jumpLessEqual | jumpGreaterEqual | jumpLess | jumpGreater | addRegister | addWord
  | subtractRegister | subtractWord | moveWord | moveRegister | readByte | readHalf | outWord
  | outRegister | input | pushWord | pushRegister | pop | popRegister | call | callRegister | ret
  | dropPrivilege | testPrivilege | printPrivilege | pushText | callNative
  deriving DecidableEq

namespace Instruction

def all : List Instruction := [
    .nop, .halt, .reset, .breakpoint, .raise, .setHandler, .disableInterrupts, .enableInterrupts,
    .compareRegisters, .compareWord, .jump, .jumpRegister, .jumpEqual, .jumpNotEqual,
    .jumpLessEqual, .jumpGreaterEqual, .jumpLess, .jumpGreater, .addRegister, .addWord,
    .subtractRegister, .subtractWord, .moveWord, .moveRegister, .readByte, .readHalf, .outWord,
    .outRegister, .input, .pushWord, .pushRegister, .pop, .popRegister, .call, .callRegister, .ret,
    .dropPrivilege, .testPrivilege, .printPrivilege, .pushText, .callNative]

structure Entry where
  opcode : UInt8
  mnemonic : String
  operands : List OperandKind
  privileged : Bool := false

def entry : Instruction → Entry
  | .nop => ⟨1, "NOP", [], false⟩
  | .halt => ⟨2, "HALT", [], false⟩
  | .reset => ⟨3, "RESET", [], false⟩
  | .breakpoint => ⟨4, "BREAKPOINT", [], false⟩
  | .raise => ⟨5, "INT_8", [.byte], false⟩
  | .setHandler => ⟨6, "SHDLR", [.byte, .word], true⟩
  | .disableInterrupts => ⟨7, "CLI", [], false⟩
  | .enableInterrupts => ⟨8, "STI", [], false⟩
  | .compareRegisters => ⟨9, "CMP_R_R", [.register, .register], false⟩
  | .compareWord => ⟨10, "CMP_R_64", [.register, .word], false⟩
  | .jump => ⟨11, "JMP_64", [.word], false⟩
  | .jumpRegister => ⟨12, "JMP_R", [.register], false⟩
  | .jumpEqual => ⟨13, "JEQ_64", [.word], false⟩
  | .jumpNotEqual => ⟨14, "JNE_64", [.word], false⟩
  | .jumpLessEqual => ⟨15, "JLE_64", [.word], false⟩
  | .jumpGreaterEqual => ⟨16, "JGE_64", [.word], false⟩
  | .jumpLess => ⟨17, "JL_64", [.word], false⟩
  | .jumpGreater => ⟨18, "JG_64", [.word], false⟩
  | .addRegister => ⟨19, "ADD_R_R", [.register, .register], false⟩
  | .addWord => ⟨20, "ADD_R_64", [.register, .word], false⟩
  | .subtractRegister => ⟨21, "SUB_R_R", [.register, .register], false⟩
  | .subtractWord => ⟨22, "SUB_R_64", [.register, .word], false⟩
  | .moveWord => ⟨23, "MOV_R_64", [.register, .word], false⟩
  | .moveRegister => ⟨24, "MOV_R_R", [.register, .register], false⟩
  | .readByte => ⟨25, "READ8_R_R", [.register, .register], false⟩
  | .readHalf => ⟨26, "READ32_R_R", [.register, .register], false⟩
  | .outWord => ⟨27, "OUT_64_64", [.word, .word], true⟩
  | .outRegister => ⟨28, "OUT_64_R", [.word, .register], true⟩
  | .input => ⟨29, "IN_R_64", [.register, .word], true⟩
  | .pushWord => ⟨30, "PUSH_64", [.word], false⟩
  | .pushRegister => ⟨31, "PUSH_R", [.register], false⟩
  | .pop => ⟨32, "POP", [], false⟩
  | .popRegister => ⟨33, "POP_R", [.register], false⟩
  | .call => ⟨34, "CALL_64", [.word], false⟩
  | .callRegister => ⟨35, "CALL_R", [.register], false⟩
  | .ret => ⟨36, "RET", [], false⟩
  | .dropPrivilege => ⟨37, "NONPRIV", [], false⟩
  | .testPrivilege => ⟨38, "PRIVTEST", [], true⟩
  | .printPrivilege => ⟨39, "PRINT_PRIV", [], false⟩
  | .pushText => ⟨40, "PUSHS_64", [.word], false⟩
  | .callNative => ⟨41, "NATIVE_64", [.word], false⟩

def opcode (instruction : Instruction) : UInt8 := instruction.entry.opcode

def mnemonic (instruction : Instruction) : String := instruction.entry.mnemonic

def operands (instruction : Instruction) : List OperandKind := instruction.entry.operands

def privileged (instruction : Instruction) : Bool := instruction.entry.privileged

def operandSize (instruction : Instruction) : Nat := OperandKind.totalSize instruction.operands

def ofOpcode? (opcode : UInt8) : Option Instruction := all.find? (·.opcode == opcode)

def ofMnemonic? (mnemonic : String) : Option Instruction := all.find? (·.mnemonic == mnemonic)

theorem mem_all (instruction : Instruction) : instruction ∈ all := by
  cases instruction <;> decide

theorem ofOpcode?_opcode (instruction : Instruction) :
    ofOpcode? instruction.opcode = some instruction := by
  cases instruction <;> decide

theorem ofOpcode?_eq_some_iff {opcode : UInt8} {instruction : Instruction} :
    ofOpcode? opcode = some instruction ↔ instruction.opcode = opcode := by
  constructor
  · intro found
    have := List.find?_some found
    simpa using this
  · rintro rfl
    exact ofOpcode?_opcode instruction

theorem ofMnemonic?_mnemonic (instruction : Instruction) :
    ofMnemonic? instruction.mnemonic = some instruction := by
  cases instruction <;> decide

theorem ofMnemonic?_eq_some_iff {mnemonic : String} {instruction : Instruction} :
    ofMnemonic? mnemonic = some instruction ↔ instruction.mnemonic = mnemonic := by
  constructor
  · intro found
    have := List.find?_some found
    simpa using this
  · rintro rfl
    exact ofMnemonic?_mnemonic instruction

end Instruction

end RegisterMachine
