import FluentBuilder.Decimal.Basic

/-!
The binary floating-point numbers of 64 bits, as the sizes `significand · 2 ^ exponent`, and the
one nearest to a decimal number.
-/

namespace FluentBuilder.Decimal

/-- The size of a binary floating-point number. -/
inductive Binary where
  | finite (significand : Nat) (exponent : Int)
  | infinite
deriving Repr, DecidableEq, Inhabited

namespace Binary

/-- The number of bits of a significand. -/
def precision : Nat := 53

def minExponent : Int := -1074

def maxExponent : Int := 971

/-- The quotient rounded to the nearest integer, a half to the even one. -/
def roundDiv (num den : Nat) : Nat :=
  let floor := num / den
  let twice := 2 * (num % den)
  if twice < den then floor
  else if den < twice then floor + 1
  else if floor % 2 == 0 then floor
  else floor + 1

/-- The fraction `num / den` in units of `2 ^ exponent`, again as a fraction. -/
def scaled (num den : Nat) (exponent : Int) : Nat × Nat :=
  if 0 ≤ exponent then (num, den * Nat.pow 2 exponent.toNat)
  else (num * Nat.pow 2 (-exponent).toNat, den)

/-- The number nearest to the fraction `num / den`. -/
def nearest (num den : Nat) : Binary :=
  if num == 0 then .finite 0 minExponent
  else
    let guess : Int := (num.log2 : Int) - den.log2 - precision
    let (a, b) := scaled num den guess
    let exponent := max minExponent (if a < b * Nat.pow 2 precision then guess else guess + 1)
    let (a, b) := scaled num den exponent
    let significand := roundDiv a b
    let (significand, exponent) :=
      if significand == Nat.pow 2 precision then (Nat.pow 2 (precision - 1), exponent + 1)
      else (significand, exponent)
    if maxExponent < exponent then .infinite else .finite significand exponent

/-- The value of the number if it is an integer. -/
def toNat? : Binary → Option Nat
  | .finite significand exponent =>
    let (a, b) := if 0 ≤ exponent then (significand * Nat.pow 2 exponent.toNat, 1)
      else (significand, Nat.pow 2 (-exponent).toNat)
    if a % b == 0 then some (a / b) else none
  | .infinite => none

end Binary

/-- The binary number nearest to the size of a decimal one. -/
def toBinary (x : Decimal) : Binary :=
  let (num, den) := x.fraction
  Binary.nearest num den

end FluentBuilder.Decimal
