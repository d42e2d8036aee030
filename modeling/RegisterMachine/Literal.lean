import RegisterMachine.Binary.Number
import RegisterMachine.Fault
import RegisterMachine.Word

/-!
Literals of a source text: numbers of a fixed width, named by a suffix, and quoted text. Every
literal has an encoding in bytes, and two literals are equal when they are of one type and have one
encoding.
-/
namespace RegisterMachine

inductive Literal where
  | byte (value : UInt8)
  | short (value : Int16)
  | int (value : Int32)
  | uint (value : UInt32)
  | long (value : Int64)
  | ulong (value : UInt64)
  | single (value : Binary32)
  | double (value : Binary64)
  | text (value : String)
  deriving DecidableEq

namespace Literal

/-- The types that a suffix can name, in the order in which suffixes are tried: `ul` comes before
the two that end it. -/
inductive Suffix where
  | ulong | single | double | uint | int | long | byte
  deriving DecidableEq

namespace Suffix

def all : List Suffix := [.ulong, .single, .double, .uint, .int, .long, .byte]

def chars : Suffix → List Char
  | .ulong => ['u', 'l']
  | .single => ['f']
  | .double => ['d']
  | .uint => ['u']
  | .int => ['i']
  | .long => ['l']
  | .byte => ['b']

def read? : Suffix → List Char → Option Literal
  | .ulong, body => (Numeral.word? 8 body).map fun n => .ulong (.ofNat n)
  | .single, body => (Binary32.read? body).map .single
  | .double, body => (Binary64.read? body).map .double
  | .uint, body => (Numeral.word? 4 body).map fun n => .uint (.ofNat n)
  | .int, body => (Numeral.integer? 4 body).map fun n => .int (.ofInt n)
  | .long, body => (Numeral.integer? 8 body).map fun n => .long (.ofInt n)
  | .byte, body => (Numeral.word? 1 body).map fun n => .byte (.ofNat n)

end Suffix

def unquote? : List Char → Option (List Char)
  | '"' :: rest => if rest.getLast? = some '"' then some rest.dropLast else none
  | _ => none

def number? (cs : List Char) : Option Literal := do
  let suffix ← Suffix.all.find? (·.chars.isSuffixOf cs)
  suffix.read? (cs.take (cs.length - suffix.chars.length))

def parse (token : String) : Except Fault Literal :=
  match unquote? token.toList with
  | some body => .ok (.text (String.ofList body))
  | none =>
    match number? (token.toList.map Char.toLower) with
    | some literal => .ok literal
    | none => .error (.invalidLiteral token)

def render : Literal → String
  | .byte value => Numeral.decimal value.toNat ++ "b"
  | .short value => Numeral.signedDecimal value.toInt ++ "s"
  | .int value => Numeral.signedDecimal value.toInt ++ "i"
  | .uint value => Numeral.decimal value.toNat ++ "u"
  | .long value => Numeral.signedDecimal value.toInt ++ "l"
  | .ulong value => Numeral.decimal value.toNat ++ "ul"
  | .single value => value.text ++ "f"
  | .double value => value.text ++ "d"
  | .text value => Text.quoted value

def size : Literal → Nat
  | .byte _ => 1
  | .short _ => 2
  | .int _ => 4
  | .uint _ => 4
  | .single _ => 4
  | .long _ => 8
  | .ulong _ => 8
  | .double _ => 8
  | .text value => 4 + value.utf8ByteSize

/-- The bytes of a literal. Text has its length in front, which has to fit four bytes. -/
def encode : Literal → Except Fault (List UInt8)
  | .byte value => .ok [value]
  | .short value => .ok (Word.littleEndian 2 value.toUInt16.toNat)
  | .int value => .ok (Word.littleEndian 4 value.toUInt32.toNat)
  | .uint value => .ok (Word.littleEndian 4 value.toNat)
  | .long value => .ok (Word.littleEndian 8 value.toUInt64.toNat)
  | .ulong value => .ok (Word.littleEndian 8 value.toNat)
  | .single value => .ok (Word.littleEndian 4 value.bits.toNat)
  | .double value => .ok (Word.littleEndian 8 value.bits.toNat)
  | .text value =>
    if value.utf8ByteSize < Word.count 4 then
      .ok (Word.littleEndian 4 value.utf8ByteSize ++ value.toUTF8.data.toList)
    else .error (.textTooLong value.utf8ByteSize)

end Literal

end RegisterMachine
