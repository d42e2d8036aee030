import RegisterMachine.Binary.Format
import RegisterMachine.Numeral

/-!
The shortest decimal of a binary number: of the decimals that round to the number the ones with
the fewest digits, and of those the nearest, written without an exponent.
-/
namespace RegisterMachine.Binary

/-- The decimal `coefficient * 10 ^ exponent`. -/
structure Decimal where
  coefficient : Nat
  exponent : Int

/-- The reals that round to `significand * 2 ^ exponent`, in quarters of the last place. -/
structure Neighbourhood where
  exponent : Int
  centre : Nat
  low : Nat
  high : Nat
  closed : Bool

/-- Below a power of two the numbers lie twice as close as above it, so the lower half of its
neighbourhood is half as wide. The ends belong to the even significand. -/
def Format.neighbourhood (format : Format) (significand : Nat) (exponent : Int) : Neighbourhood :=
  let narrow := significand = format.leadingBit ∧ format.leastExponent < exponent
  { exponent := exponent - 2
    centre := 4 * significand
    low := if narrow then 4 * significand - 1 else 4 * significand - 2
    high := 4 * significand + 2
    closed := significand % 2 = 0 }

/-- Factors `(a, b)` such that `c * 10 ^ place` and `x * 2 ^ exponent` compare as `c * a` and
`x * b`. -/
def commonScale (place exponent : Int) : Nat × Nat :=
  (power 10 place * power 2 (-exponent), power 10 (-place) * power 2 exponent)

def Neighbourhood.contains (near : Neighbourhood) (coefficient : Nat) (place : Int) : Bool :=
  let (a, b) := commonScale place near.exponent
  if near.closed then near.low * b ≤ coefficient * a && coefficient * a ≤ near.high * b
  else near.low * b < coefficient * a && coefficient * a < near.high * b

def decimalMagnitude (num den : Nat) : Int :=
  if den ≤ num then (Numeral.decimalDigits (num / den)).length
  else 1 - (Numeral.decimalDigits ((den - 1) / num)).length

def Neighbourhood.nearest? (near : Neighbourhood) (place : Int) : Option Nat :=
  let (a, b) := commonScale place near.exponent
  let below := near.centre * b / a
  match near.contains below place, near.contains (below + 1) place with
  | true, true => some (if 2 * (near.centre * b % a) < a then below else below + 1)
  | true, false => some below
  | false, true => some (below + 1)
  | false, false => none

def Neighbourhood.search (near : Neighbourhood) (place : Int) : Nat → Decimal
  | 0 =>
    let (a, b) := commonScale place near.exponent
    ⟨near.centre * b / a, place⟩
  | fuel + 1 =>
    match near.nearest? place with
    | some coefficient => ⟨coefficient, place⟩
    | none => near.search (place - 1) fuel

/-- Seventeen digits tell all double numbers apart, nine all single ones; the precision is a
bound for both. -/
def Format.shortest (format : Format) (significand : Nat) (exponent : Int) : Decimal :=
  let (a, b) := commonScale 0 exponent
  let size := decimalMagnitude (significand * b) a
  let found := (format.neighbourhood significand exponent).search (size - 1) format.precision
  if found.coefficient % 10 = 0 then ⟨found.coefficient / 10, found.exponent + 1⟩ else found

def Decimal.digits (decimal : Decimal) : List Char :=
  let digits := Numeral.decimalDigits decimal.coefficient
  if 0 ≤ decimal.exponent then digits ++ List.replicate decimal.exponent.toNat '0'
  else
    let places := (-decimal.exponent).toNat
    let padded := digits.leftpad (places + 1) '0'
    padded.take (padded.length - places) ++ '.' :: padded.drop (padded.length - places)

/-- The text of a datum. A datum that is not a number shows no sign; zero keeps its own. -/
def Format.text (format : Format) (bits : Nat) : String :=
  let magnitude := format.magnitude bits
  if format.infinity < magnitude then "NaN"
  else
    let body :=
      if magnitude = format.infinity then "inf".toList
      else if magnitude = 0 then ['0']
      else
        let (significand, exponent) := format.unpack magnitude
        (format.shortest significand exponent).digits
    String.ofList (if format.isNegative bits then '-' :: body else body)

end RegisterMachine.Binary
