import FluentBuilder.Text.Category

/-!
Character classes: blanks, word characters, the characters an identifier may start with and
continue with, and the characters that can be printed as they are. ASCII is decided by
comparison, the rest by the tables of general categories.
-/

namespace FluentBuilder.Text

/-- The blanks: ASCII tab to carriage return, the four ASCII separators, the space, and the
spaces and line separators beyond ASCII. -/
def isBlank (c : Char) : Bool :=
  let n := c.toNat
  (9 ≤ n && n ≤ 13) || (28 ≤ n && n ≤ 32) || n == 0x85 || n == 0xA0 || n == 0x1680 ||
    (0x2000 ≤ n && n ≤ 0x200A) || n == 0x2028 || n == 0x2029 || n == 0x202F || n == 0x205F ||
    n == 0x3000

/-- The blanks of ASCII that separate words of bytes: tab to carriage return and the space. -/
def isByteBlank (b : UInt8) : Bool := (9 ≤ b && b ≤ 13) || b == 32

/-- An ASCII letter or the underscore: what a word may start with. -/
def isWordStart (c : Char) : Bool := c.isAlpha || c == '_'

/-- A letter, a number or the underscore. -/
def isWord (c : Char) : Bool :=
  if c.toNat < 128 then c.isAlphanum || c == '_'
  else
    Category.letters.contains c.toNat || Category.decimalDigits.contains c.toNat ||
      Category.letterNumbers.contains c.toNat || Category.otherNumbers.contains c.toNat

/-- Letters that do not start an identifier: nearly all of them become something else when they
are decomposed for compatibility. -/
def unstableLetters : Ranges :=
  [(0x37A, 0x37A), (0xE33, 0xE33), (0xEB3, 0xEB3), (0x2E2F, 0x2E2F), (0xFC5E, 0xFC63),
    (0xFDFA, 0xFDFB), (0xFE70, 0xFE70), (0xFE72, 0xFE72), (0xFE74, 0xFE74), (0xFE76, 0xFE76),
    (0xFE78, 0xFE78), (0xFE7A, 0xFE7A), (0xFE7C, 0xFE7C), (0xFE7E, 0xFE7E), (0xFF9E, 0xFF9F)]

/-- Marks and symbols that have always been allowed to start an identifier. -/
def extraIdentifierStarts : Ranges :=
  [(0x1885, 0x1886), (0x2118, 0x2118), (0x212E, 0x212E)]

/-- Characters that may continue an identifier though they are neither letters, digits nor
marks, and the four letters that may continue one but not start it. -/
def extraIdentifierParts : Ranges :=
  [(0xB7, 0xB7), (0x387, 0x387), (0xE33, 0xE33), (0xEB3, 0xEB3), (0x1369, 0x1371),
    (0x19DA, 0x19DA), (0x203F, 0x2040), (0x2054, 0x2054), (0xFE33, 0xFE34), (0xFE4D, 0xFE4F),
    (0xFF3F, 0xFF3F), (0xFF9E, 0xFF9F)]

/-- Whether an identifier may start with the character. -/
def isIdentifierStart (c : Char) : Bool :=
  if c.toNat < 128 then isWordStart c
  else
    extraIdentifierStarts.contains c.toNat || Category.letterNumbers.contains c.toNat ||
      (Category.letters.contains c.toNat && !unstableLetters.contains c.toNat)

/-- Whether an identifier may go on with the character. -/
def isIdentifierPart (c : Char) : Bool :=
  if c.toNat < 128 then isWordStart c || c.isDigit
  else
    isIdentifierStart c || Category.decimalDigits.contains c.toNat ||
      Category.marks.contains c.toNat || extraIdentifierParts.contains c.toNat

def isIdentifier (text : String) : Bool :=
  match text.toList with
  | [] => false
  | c :: rest => isIdentifierStart c && rest.all isIdentifierPart

/-- Whether the character is shown as it is. -/
def isPrintable (c : Char) : Bool :=
  if c.toNat < 128 then 32 ≤ c.toNat && c.toNat < 127
  else !Category.unprintable.contains c.toNat

/-! ### Trimming -/

def trimStart (text : List Char) : List Char := text.dropWhile isBlank

def trimEnd : List Char → List Char
  | [] => []
  | c :: rest =>
    match trimEnd rest with
    | [] => if isBlank c then [] else [c]
    | kept => c :: kept

def trim (text : List Char) : List Char := trimEnd (trimStart text)

/-- The text without the given character at both ends. -/
def stripBoth (mark : Char) (text : List Char) : List Char :=
  ((text.dropWhile (· == mark)).reverse.dropWhile (· == mark)).reverse

end FluentBuilder.Text
