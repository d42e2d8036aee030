import RegisterMachine.Binary.Reading
import RegisterMachine.Binary.Shortest

/-!
Single and double numbers. They are told apart by their bits, so the two zeros differ and a datum
that is not a number equals itself.
-/
namespace RegisterMachine

structure Binary32 where
  bits : UInt32
  deriving DecidableEq

structure Binary64 where
  bits : UInt64
  deriving DecidableEq

open Binary

namespace Binary32

def text (x : Binary32) : String := Format.single.text x.bits.toNat

def read? (cs : List Char) : Option Binary32 :=
  (Format.single.read? cs).map fun bits => ⟨.ofNat bits⟩

end Binary32

namespace Binary64

def text (x : Binary64) : String := Format.double.text x.bits.toNat

def read? (cs : List Char) : Option Binary64 :=
  (Format.double.read? cs).map fun bits => ⟨.ofNat bits⟩

def ofInt (n : Int) : Binary64 :=
  ⟨.ofNat (Format.double.withSign (n < 0) (Format.double.round n.natAbs 1))⟩

/-- The integer part. Numbers out of range go to the nearest end of it, and what is not a number
goes to zero. -/
def truncate (x : Binary64) : Int64 :=
  let magnitude := Format.double.magnitude x.bits.toNat
  let negative := Format.double.isNegative x.bits.toNat
  if Format.double.infinity < magnitude then 0
  else if magnitude = Format.double.infinity then (if negative then Int64.minValue else Int64.maxValue)
  else
    let (significand, exponent) := Format.double.unpack magnitude
    let whole : Int := (significand * power 2 exponent / power 2 (-exponent) : Nat)
    let signed := if negative then -whole else whole
    Int64.ofInt (max Int64.minValue.toInt (min Int64.maxValue.toInt signed))

/-- The nearest single number. What is not a number stays so, quiet, with its sign and the leading
bits of its payload. -/
def toBinary32 (x : Binary64) : Binary32 :=
  let magnitude := Format.double.magnitude x.bits.toNat
  let negative := Format.double.isNegative x.bits.toNat
  let result :=
    if Format.double.infinity < magnitude then
      let payload := magnitude % Format.double.quietBit * Format.single.quietBit / Format.double.quietBit
      Format.single.infinity + Format.single.quietBit + payload
    else if magnitude = Format.double.infinity then Format.single.infinity
    else
      let (significand, exponent) := Format.double.unpack magnitude
      Format.single.round (significand * power 2 exponent) (power 2 (-exponent))
  ⟨.ofNat (Format.single.withSign negative result)⟩

end Binary64

end RegisterMachine
