import RegisterMachine.Binary.Format
import RegisterMachine.Numeral

/-!
Reading binary numbers from decimal text: an optional sign, then a word for an infinity or for
"not a number", or digits with an optional point and exponent. The number nearest to the decimal
is taken.
-/
namespace RegisterMachine.Binary

/-- The magnitude nearest to `coefficient * 10 ^ exponent`. Decimals far outside the range of the
format are settled by their size alone. -/
def Format.ofDecimal (format : Format) (coefficient : Nat) (exponent : Int) : Nat :=
  let size := exponent + (Numeral.decimalDigits coefficient).length
  if coefficient = 0 then 0
  else if format.exponentRange < size then format.infinity
  else if size < format.leastExponent - 1 then 0
  else format.round (coefficient * power 10 exponent) (power 10 (-exponent))

def fixedPoint? (cs : List Char) : Option (Nat × Int × List Char) :=
  let whole := cs.takeWhile Char.isDigit
  let (fraction, rest) := match cs.dropWhile Char.isDigit with
    | '.' :: rest => (rest.takeWhile Char.isDigit, rest.dropWhile Char.isDigit)
    | rest => ([], rest)
  (Numeral.natural? (whole ++ fraction)).map fun n => (n, -fraction.length, rest)

/-- Reads a number without its sign. Letters are in lower case. -/
def Format.readMagnitude? (format : Format) (cs : List Char) : Option Nat :=
  if cs = "inf".toList ∨ cs = "infinity".toList then some format.infinity
  else if cs = "nan".toList then some (format.infinity + format.quietBit)
  else do
    let (coefficient, exponent, rest) ← fixedPoint? cs
    match rest with
    | [] => some (format.ofDecimal coefficient exponent)
    | 'e' :: shift => (Numeral.signed? shift).map fun n => format.ofDecimal coefficient (exponent + n)
    | _ => none

def Format.read? (format : Format) (cs : List Char) : Option Nat :=
  match cs.map Char.toLower with
  | '-' :: rest => (format.readMagnitude? rest).map (format.withSign true)
  | '+' :: rest => format.readMagnitude? rest
  | rest => format.readMagnitude? rest

end RegisterMachine.Binary
