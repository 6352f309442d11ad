import FluentBuilder.Decimal.Binary

/-!
The shortest decimal text of a binary floating-point number: of the decimal numbers that read
back as it, one with the fewest digits, and among these the nearest.
-/

namespace FluentBuilder.Decimal

/-! ### The digits -/

/-- The decimal digits of a number, the most significant first. -/
def digitRow (n : Nat) : List Char := Nat.toDigits 10 n

/-- The power of ten of the first digit of the fraction `num / den`, which is not zero. -/
def magnitude (num den : Nat) : Int :=
  if den ≤ num then ((digitRow (num / den)).length : Int) - 1
  else -((digitRow ((den + num - 1) / num - 1)).length : Int)

/-- The multiple of `10 ^ exponent` nearest to `4 · significand` units among those between the
bounds, which lie `below` and two units away; the bounds count if the significand is even. A
unit is the fraction `num / den`. -/
def onGrid? (significand below num den : Nat) (exponent : Int) : Option Nat :=
  let grid :=
    if 0 ≤ exponent then (Nat.pow 10 exponent.toNat, 1) else (1, Nat.pow 10 (-exponent).toNat)
  let step := grid.1 * den
  let unit := num * grid.2
  let value := 4 * significand * unit
  let low := value - below * unit
  let high := value + 2 * unit
  let inside (t : Nat) : Bool :=
    if significand % 2 == 0 then low ≤ t * step && t * step ≤ high
    else low < t * step && t * step < high
  let t := value / step
  match inside t, inside (t + 1) with
  | true, true =>
    let left := value - t * step
    let right := (t + 1) * step - value
    if left < right || (left == right && t % 2 == 0) then some t else some (t + 1)
  | true, false => some t
  | false, true => some (t + 1)
  | false, false => none

/-- The shortest digits, as one number, and their power of ten. -/
def shortestDigits (significand : Nat) (exponent : Int) : Nat × Int :=
  if significand == 0 then (0, 0)
  else
    let below :=
      if significand == Nat.pow 2 (Binary.precision - 1) && Binary.minExponent < exponent then 1
      else 2
    let (num, den) :=
      if 2 ≤ exponent then (Nat.pow 2 (exponent - 2).toNat, 1)
      else (1, Nat.pow 2 (2 - exponent).toNat)
    let first := magnitude (4 * significand * num) den
    let found := (List.range 17).findSome? fun (n : Nat) =>
      (onGrid? significand below num den (first - n)).map fun t => (t, first - n)
    found.getD (significand, exponent)

/-! ### The text -/

/-- The digits without the zeros they end with, and the number of those. -/
def dropZeros (row : List Char) : List Char :=
  (row.reverse.dropWhile (· == '0')).reverse

/-- The layout of a number: positional if its point stands at most sixteen digits behind the first
digit and at most three zeros before it, with an exponent of two digits or more otherwise. The
number is `0.row · 10 ^ point`. -/
def layout (row : List Char) (point : Int) : List Char :=
  let size : Int := row.length
  if -4 < point && point ≤ 16 then
    if point ≤ 0 then '0' :: '.' :: List.replicate (-point).toNat '0' ++ row
    else if size ≤ point then row ++ List.replicate (point - size).toNat '0' ++ ['.', '0']
    else row.take point.toNat ++ '.' :: row.drop point.toNat
  else
    let exponent := point - 1
    let power := digitRow exponent.natAbs
    let power := if power.length < 2 then '0' :: power else power
    row.take 1 ++ (if size ≤ 1 then [] else '.' :: row.drop 1) ++
      'e' :: (if exponent < 0 then '-' else '+') :: power

/-- The shortest text of the binary number nearest to a decimal one. -/
def shortest (x : Decimal) : String :=
  let text := match x.toBinary with
    | .infinite => ['i', 'n', 'f']
    | .finite significand exponent =>
      if significand == 0 then ['0', '.', '0']
      else
        let (digits, power) := shortestDigits significand exponent
        let row := digitRow digits
        layout (dropZeros row) (row.length + power)
  String.ofList (if x.negative then '-' :: text else text)

end FluentBuilder.Decimal
