/-!
Binary interchange formats. A format is fixed by its precision and the width of its exponent; a
datum is a bit pattern, and a pattern without its sign bit is a magnitude. Magnitudes grow with
the numbers they stand for, so rounding up past a power of two needs no extra step.
-/
namespace RegisterMachine.Binary

def power (base : Nat) (exponent : Int) : Nat := Nat.pow base exponent.toNat

structure Format where
  /-- Bits of the significand, the leading one included. -/
  precision : Nat
  exponentBits : Nat

namespace Format

def single : Format := ⟨24, 8⟩

def double : Format := ⟨53, 11⟩

def leadingBit (format : Format) : Nat := Nat.pow 2 (format.precision - 1)

def signBit (format : Format) : Nat := Nat.pow 2 (format.precision + format.exponentBits - 1)

def exponentRange (format : Format) : Nat := Nat.pow 2 (format.exponentBits - 1)

def leastExponent (format : Format) : Int := 3 - format.exponentRange - format.precision

/-- The magnitude of the infinities. Greater magnitudes are not numbers. -/
def infinity (format : Format) : Nat := (2 * format.exponentRange - 1) * format.leadingBit

def quietBit (format : Format) : Nat := format.leadingBit / 2

/-- Significand and exponent of a finite magnitude: the number is `m * 2 ^ e`. -/
def unpack (format : Format) (magnitude : Nat) : Nat × Int :=
  let field := magnitude / format.leadingBit
  let fraction := magnitude % format.leadingBit
  if field = 0 then (fraction, format.leastExponent)
  else (format.leadingBit + fraction, format.leastExponent + (field - 1 : Nat))

def withSign (format : Format) (negative : Bool) (magnitude : Nat) : Nat :=
  if negative then format.signBit + magnitude else magnitude

def isNegative (format : Format) (bits : Nat) : Bool := format.signBit ≤ bits

def magnitude (format : Format) (bits : Nat) : Nat := bits % format.signBit

end Format

/-- The quotient rounded to the nearest integer; a half goes to the even neighbour. -/
def roundQuotient (num den : Nat) : Nat :=
  let quotient := num / den
  let remainder := num % den
  if 2 * remainder < den then quotient
  else if den < 2 * remainder then quotient + 1
  else quotient + quotient % 2

def log2Quotient (num den : Nat) : Int :=
  let guess : Int := num.log2 - den.log2
  if den * power 2 guess ≤ num * power 2 (-guess) then guess else guess - 1

/-- The magnitude nearest to `num / den`; a half goes to the even neighbour, and what lies half a
unit or more past the greatest finite number becomes infinite. -/
def Format.round (format : Format) (num den : Nat) : Nat :=
  if num = 0 then 0
  else
    let exponent := max format.leastExponent (log2Quotient num den - (format.precision - 1 : Nat))
    let significand := roundQuotient (num * power 2 (-exponent)) (den * power 2 exponent)
    min format.infinity
      ((exponent - format.leastExponent).toNat * format.leadingBit + significand)

end RegisterMachine.Binary
