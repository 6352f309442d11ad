/-!
Decimal numbers as they are written: a sign, the digits as one number, and a power of ten.
-/

namespace FluentBuilder

/-- The number `digits · 10 ^ exponent`, negated if `negative` holds. The sign of a zero is
kept. -/
structure Decimal where
  negative : Bool
  digits : Nat
  exponent : Int
deriving Repr, DecidableEq, Inhabited

namespace Decimal

/-- The value of a row of ASCII digits. -/
def digitsValue (row : List Char) : Nat :=
  row.foldl (fun value c => value * 10 + (c.toNat - '0'.toNat)) 0

/-- The size of the number as a fraction of two natural numbers. -/
def fraction (x : Decimal) : Nat × Nat :=
  if 0 ≤ x.exponent then (x.digits * Nat.pow 10 x.exponent.toNat, 1)
  else (x.digits, Nat.pow 10 (-x.exponent).toNat)

end Decimal

end FluentBuilder
