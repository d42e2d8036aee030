import RegisterMachine.Word

/-!
Numerals: how integers are written in decimal and in hexadecimal, and which spellings of an
integer are read.
-/
namespace RegisterMachine.Numeral

def decimalDigits (n : Nat) : List Char := Nat.toDigits 10 n

def hexDigits (n : Nat) : List Char := Nat.toDigits 16 n

def decimal (n : Nat) : String := String.ofList (decimalDigits n)

def signedDigits : Int → List Char
  | .ofNat n => decimalDigits n
  | .negSucc n => '-' :: decimalDigits (n + 1)

def signedDecimal (n : Int) : String := String.ofList (signedDigits n)

def hex (width n : Nat) : String := String.ofList ((hexDigits n).leftpad width '0')

def address (n : Nat) : String := "0x" ++ hex 0 n

def natural? (cs : List Char) : Option Nat :=
  if cs.isEmpty || !cs.all Char.isDigit then none else some (Nat.ofDigitChars 10 cs 0)

def unsigned? : List Char → Option Nat
  | '+' :: cs => natural? cs
  | cs => natural? cs

def signed? : List Char → Option Int
  | '-' :: cs => (natural? cs).map fun n => -(n : Int)
  | cs => (unsigned? cs).map Int.ofNat

def word? (width : Nat) (cs : List Char) : Option Nat :=
  (unsigned? cs).filter (· < Word.count width)

/-- Reads a signed integer of `width` bytes in two's complement. -/
def integer? (width : Nat) (cs : List Char) : Option Int :=
  (signed? cs).filter fun n => -(Word.count width / 2) ≤ n && n < Word.count width / 2

end RegisterMachine.Numeral
