import FluentBuilder.Decimal.Basic
import FluentBuilder.Text.Class

/-!
Integers as texts give them: blanks may stand around them, a plus or minus sign and zeros in front
of them, single underscores between their digits, and a fraction of zeros behind them. Among the
zeros in front any number of underscores may stand, and a minus sign behind these zeros counts.
-/

namespace FluentBuilder.Decimal

open Text

inductive IntegerFault where
  | malformed
  | tooLong
deriving Repr, DecidableEq

/-- The greatest number of characters of an integer, a minus sign among them. -/
def maxIntegerLength : Nat := 4300

/-- Whether a character is one of the blanks around an integer, which the four ASCII separators are
not. -/
def isIntegerBlank (c : Char) : Bool :=
  isBlank c && !(28 ≤ c.toNat && c.toNat ≤ 31)

def trimInteger (text : List Char) : List Char :=
  ((text.dropWhile isIntegerBlank).reverse.dropWhile isIntegerBlank).reverse

/-- The text without a fraction of one or more zeros. -/
def dropZeroFraction (text : List Char) : List Char :=
  match text.dropWhile (· != '.') with
  | '.' :: c :: fraction =>
    if (c :: fraction).all (· == '0') then text.takeWhile (· != '.') else text
  | _ => text

/-- Whether a character is a digit other than zero, or the minus sign. -/
def startsInteger (c : Char) : Bool := (c.isDigit && c != '0') || c == '-'

/-- The text behind zeros and underscores; their last one is kept if nothing follows them. -/
def dropZeros? (last : Char) : List Char → Option (List Char)
  | [] => some [last]
  | c :: rest =>
    if c == '0' || c == '_' then dropZeros? c rest
    else if startsInteger c then some (c :: rest)
    else none

/-- The text without the zeros in front of its first digit. -/
def dropLeadingZeros? : List Char → Option (List Char)
  | [] => none
  | c :: rest =>
    if c == '0' then dropZeros? c rest
    else if startsInteger c then some (c :: rest)
    else none

def hasDoubleUnderscore : List Char → Bool
  | '_' :: '_' :: _ => true
  | _ :: rest => hasDoubleUnderscore rest
  | [] => false

/-- The text without underscores, of which only single ones may stand, and none at an end. -/
def dropUnderscores? (text : List Char) : Option (List Char) :=
  if hasDoubleUnderscore text || text.head? == some '_' || text.getLast? == some '_' then none
  else some (text.filter (· != '_'))

/-- The text of an integer in its plain form: an optional minus sign and digits. -/
def plainInteger? (text : List Char) : Option (List Char) := do
  let unsigned ← match trimInteger text with
    | '+' :: '-' :: _ => none
    | '+' :: rest => some rest
    | rest => some rest
  dropUnderscores? (← dropLeadingZeros? (dropZeroFraction unsigned))

def readDigits (row : List Char) : Except IntegerFault Nat :=
  if row.isEmpty || !row.all Char.isDigit then .error .malformed else .ok (digitsValue row)

def readInteger (text : List Char) : Except IntegerFault Int :=
  match plainInteger? text with
  | none => .error .malformed
  | some plain =>
    if maxIntegerLength < plain.length then .error .tooLong
    else
      match plain with
      | '-' :: row => (readDigits row).map fun n => -(n : Int)
      | row => (readDigits row).map Int.ofNat

end FluentBuilder.Decimal
