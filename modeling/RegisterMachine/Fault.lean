import RegisterMachine.Instruction
import RegisterMachine.Kind
import RegisterMachine.Numeral
import RegisterMachine.Position
import RegisterMachine.Text.Quoted

/-!
Everything that can go wrong while assembling or running a program, with the wording of the
messages in one place.
-/
namespace RegisterMachine

inductive FileTrouble where
  | missing
  | notDirectory
  | isDirectory
  | notText
  /-- A cause known only by the words of the system. -/
  | other (words : String)
  deriving DecidableEq

def FileTrouble.message : FileTrouble → String
  | .missing => "No such file or directory (os error 2)"
  | .notDirectory => "Not a directory (os error 20)"
  | .isDirectory => "Is a directory (os error 21)"
  | .notText => "stream did not contain valid UTF-8"
  | .other words => words

inductive Directive where
  | addressOf | inline
  deriving DecidableEq

def Directive.name : Directive → String
  | .addressOf => "&"
  | .inline => "ref"

inductive Fault where
  | invalidLiteral (token : String)
  | unterminatedText
  | missingArgument (directive : Directive)
  | textTooLong (size : Nat)
  | duplicateLabel (label : String)
  | undefinedLabel (label : String)
  /-- A cause with the place in the source that it is about. -/
  | located (place : Position) (cause : Fault)
  | unknownOpcode (opcode : UInt8) (offset : UInt64)
  | privilegeViolation (instruction : Instruction) (offset : UInt64)
  | noSuchRegister (index available : Nat)
  | noSuchFlagBit (bit : Nat)
  | outOfBounds (address size : UInt64)
  | malformedText (address : UInt64)
  | stackUnderflow (depth size : Nat)
  | stackOverflow (limit : Nat)
  /-- A text that does not read as a number of the expected kind. -/
  | notNumeric (expected : Kind) (text : String)
  | returnWithoutCall
  | haltedInHandler (number : UInt8)
  | unknownNative (name : String)
  | nativeFailed (name reason : String)
  | invalidSetting (key value : String)
  | file (path : String) (trouble : FileTrouble)
  deriving DecidableEq

namespace Fault

open Numeral in
def message : Fault → String
  | invalidLiteral token => "could not parse literal '" ++ token ++ "'"
  | unterminatedText => "unterminated string literal"
  | missingArgument directive => "'" ++ directive.name ++ "' expects an argument"
  | textTooLong size =>
    "text literal of " ++ decimal size ++ " bytes exceeds the u32 length prefix"
  | duplicateLabel label => "duplicate label: " ++ label
  | undefinedLabel label => "symbol not found: " ++ label
  | located place cause => "line " ++ decimal place.line ++ ": " ++ cause.message
  | unknownOpcode opcode offset =>
    "invalid instruction 0x" ++ (hex 2 opcode.toNat).toUpper ++ " at offset " ++
      decimal offset.toNat
  | privilegeViolation instruction offset =>
    "privileged instruction violation: " ++ instruction.mnemonic ++ " at offset " ++
      decimal offset.toNat
  | noSuchRegister index available =>
    "register index " ++ decimal index ++ " out of bounds (" ++ decimal available ++ " registers)"
  | noSuchFlagBit bit => "invalid control flag bit: " ++ decimal bit
  | outOfBounds place size =>
    "memory access out of range: address " ++ address place.toNat ++ ", size " ++
      address size.toNat
  | malformedText place => "invalid utf8 in string at address " ++ address place.toNat
  | stackUnderflow depth size =>
    "stack underflow: requested depth " ++ decimal depth ++ ", stack holds " ++ decimal size
  | stackOverflow limit => "stack overflow: limit of " ++ decimal limit ++ " values reached"
  | notNumeric expected text =>
    "type mismatch: expected " ++ expected.name ++ ", got Text(" ++ Text.quoted text ++ ")"
  | returnWithoutCall => "return without call"
  | haltedInHandler number =>
    "machine halted inside handler for interrupt " ++ decimal number.toNat
  | unknownNative name => "unknown native function: " ++ name
  | nativeFailed name reason => "native function " ++ name ++ " failed: " ++ reason
  | invalidSetting key value => "invalid configuration " ++ key ++ "=" ++ value
  | file path trouble => "io error: " ++ path ++ ": " ++ trouble.message

end Fault

end RegisterMachine
