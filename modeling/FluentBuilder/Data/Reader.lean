import FluentBuilder.Data.Value

/-!
Reading data from text in JavaScript object notation. Of two entries with the same key the later
gives the value and the earlier the place.
-/

namespace FluentBuilder.Data

/-! ### Strings -/

def hexValue? (c : Char) : Option Nat :=
  if c.isDigit then some (c.toNat - '0'.toNat)
  else if 'a' ≤ c && c ≤ 'f' then some (c.toNat - 'a'.toNat + 10)
  else if 'A' ≤ c && c ≤ 'F' then some (c.toNat - 'A'.toNat + 10)
  else none

def codeUnit? (a b c d : Char) : Option Nat := do
  let a ← hexValue? a
  let b ← hexValue? b
  let c ← hexValue? c
  let d ← hexValue? d
  return ((a * 16 + b) * 16 + c) * 16 + d

/-- The character of a pair of code units, if they are one. -/
def ofPair? (high low : Nat) : Option Char :=
  if 0xD800 ≤ high && high < 0xDC00 && 0xDC00 ≤ low && low < 0xE000 then
    some (Char.ofNat (0x10000 + (high - 0xD800) * 0x400 + (low - 0xDC00)))
  else none

/-- The character of an escape of one letter. -/
def escapeValue? : Char → Option Char
  | '"' => some '"'
  | '\\' => some '\\'
  | '/' => some '/'
  | 'b' => some (Char.ofNat 8)
  | 'f' => some (Char.ofNat 12)
  | 'n' => some '\n'
  | 'r' => some '\r'
  | 't' => some '\t'
  | _ => none

/-- The characters up to the closing quote, and what follows it. Escapes for two code units stand for
one character; a half of such a pair that stands alone is no character. -/
def readString : List Char → Option (List Char × List Char)
  | [] => none
  | '"' :: rest => some ([], rest)
  | '\\' :: 'u' :: a :: b :: c :: d :: rest => do
    let unit ← codeUnit? a b c d
    if 0xD800 ≤ unit && unit < 0xE000 then
      match rest with
      | '\\' :: 'u' :: a :: b :: c :: d :: rest =>
        let whole ← ofPair? unit (← codeUnit? a b c d)
        let (body, rest) ← readString rest
        return (whole :: body, rest)
      | _ => none
    else
      let (body, rest) ← readString rest
      return (Char.ofNat unit :: body, rest)
  | '\\' :: c :: rest => do
    let value ← escapeValue? c
    let (body, rest) ← readString rest
    return (value :: body, rest)
  | c :: rest => do
    let (body, rest) ← readString rest
    return (c :: body, rest)

/-! ### Numbers -/

/-- The digits after a decimal point, if there is one. -/
def readFraction : List Char → Option (List Char × List Char)
  | '.' :: rest =>
    let row := rest.takeWhile Char.isDigit
    if row.isEmpty then none else some (row, rest.dropWhile Char.isDigit)
  | rest => some ([], rest)

/-- The digits of an exponent after its sign. -/
def readExponentDigits (negative : Bool) (rest : List Char) : Option (Option Int × List Char) :=
  let row := rest.takeWhile Char.isDigit
  if row.isEmpty then none
  else
    let size : Int := ↑(Decimal.digitsValue row)
    some (some (if negative then -size else size), rest.dropWhile Char.isDigit)

def readExponent : List Char → Option (Option Int × List Char)
  | c :: rest =>
    if c == 'e' || c == 'E' then
      match rest with
      | '+' :: rest => readExponentDigits false rest
      | '-' :: rest => readExponentDigits true rest
      | rest => readExponentDigits false rest
    else some (none, c :: rest)
  | [] => some (none, [])

/-- A number: an integer if it has neither a fraction nor an exponent. -/
def readNumber (input : List Char) : Option (Data × List Char) := do
  let (negative, input) := match input with
    | '-' :: rest => (true, rest)
    | rest => (false, rest)
  let whole := input.takeWhile Char.isDigit
  if whole.isEmpty || (whole.length > 1 && whole.head? == some '0') then none
  else
    let (fraction, rest) ← readFraction (input.dropWhile Char.isDigit)
    let (exponent, rest) ← readExponent rest
    let digits := Decimal.digitsValue (whole ++ fraction)
    if fraction.isEmpty && exponent.isNone then
      return (.integer (if negative then -↑digits else ↑digits), rest)
    else
      return (.real ⟨negative, digits, exponent.getD 0 - ↑fraction.length⟩, rest)

/-! ### Values -/

def skipBlanks (text : List Char) : List Char :=
  text.dropWhile fun c => c == ' ' || c == '\t' || c == '\n' || c == '\r'

/-- The rest after a literal that the text has to start with. -/
def readLiteral (literal : String) (value : Data) (input : List Char) :
    Option (Data × List Char) :=
  if literal.toList.isPrefixOf input then some (value, input.drop literal.length) else none

mutual

/-- A value at the start of a text without leading blanks. The bound on the depth is not used up
if it is twice the length of the text or more. -/
def readValue : Nat → List Char → Option (Data × List Char)
  | 0, _ => none
  | depth + 1, input =>
    match input with
    | '"' :: rest => do
      let (body, rest) ← readString rest
      return (.text (String.ofList body), rest)
    | '[' :: rest =>
      match skipBlanks rest with
      | ']' :: rest => some (.list [], rest)
      | rest => do
        let (items, rest) ← readItems depth rest
        return (.list items, rest)
    | '\x7b' :: rest =>
      match skipBlanks rest with
      | '\x7d' :: rest => some (.object [], rest)
      | rest => do
        let (entries, rest) ← readEntries depth [] rest
        return (.object entries, rest)
    | 'n' :: _ => readLiteral "null" .null input
    | 't' :: _ => readLiteral "true" (.bool true) input
    | 'f' :: _ => readLiteral "false" (.bool false) input
    | _ => readNumber input

def readItems : Nat → List Char → Option (List Data × List Char)
  | 0, _ => none
  | depth + 1, input => do
    let (item, rest) ← readValue depth input
    match skipBlanks rest with
    | ',' :: rest => do
      let (items, rest) ← readItems depth (skipBlanks rest)
      return (item :: items, rest)
    | ']' :: rest => return ([item], rest)
    | _ => none

def readEntries : Nat → List (String × Data) → List Char → Option (List (String × Data) × List Char)
  | 0, _, _ => none
  | depth + 1, entries, input =>
    match input with
    | '"' :: rest => do
      let (key, rest) ← readString rest
      match skipBlanks rest with
      | ':' :: rest => do
        let (value, rest) ← readValue depth (skipBlanks rest)
        let entries := insert entries (String.ofList key) value
        match skipBlanks rest with
        | ',' :: rest => readEntries depth entries (skipBlanks rest)
        | '\x7d' :: rest => return (entries, rest)
        | _ => none
      | _ => none
    | _ => none

end

/-- The value that the whole text stands for. -/
def ofString? (text : String) : Option Data := do
  let chars := skipBlanks text.toList
  let (value, rest) ← readValue (2 * chars.length + 2) chars
  if (skipBlanks rest).isEmpty then some value else none

end FluentBuilder.Data
