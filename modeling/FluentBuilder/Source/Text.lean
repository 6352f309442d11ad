import FluentBuilder.Location
import FluentBuilder.Text.Class
import FluentBuilder.Text.Utf8

/-!
Source texts as rows of bytes: slices, lines, and the places that offsets stand for.
-/

namespace FluentBuilder

/-- The bytes of a source text. -/
structure SourceText where
  bytes : List UInt8
deriving Repr, DecidableEq, Inhabited

/-- A range of bytes, without the one at `stop`. -/
structure Span where
  start : Nat
  stop : Nat
deriving Repr, DecidableEq, Inhabited

namespace SourceText

open Text

def lineFeed : UInt8 := 10

def ofString (text : String) : SourceText := ⟨Utf8.encode text.toList⟩

def size (source : SourceText) : Nat := source.bytes.length

def slice (source : SourceText) (start stop : Nat) : List UInt8 :=
  (source.bytes.take stop).drop start

/-! ### Lines -/

/-- The number of line feeds before an offset. -/
def row (source : SourceText) (offset : Nat) : Nat := (source.bytes.take offset).count lineFeed

/-- The bytes between the last line feed before an offset and the offset. -/
def lineBefore (source : SourceText) (offset : Nat) : List UInt8 :=
  ((source.bytes.take offset).reverse.takeWhile (· != lineFeed)).reverse

/-- The bytes from an offset to the next line feed. -/
def lineAfter (source : SourceText) (offset : Nat) : List UInt8 :=
  (source.bytes.drop offset).takeWhile (· != lineFeed)

/-- The offset at which the line of another offset starts. -/
def lineStart (source : SourceText) (offset : Nat) : Nat :=
  min offset source.size - (source.lineBefore offset).length

/-- The offset of the next line feed, or the end of the text. -/
def lineStop (source : SourceText) (offset : Nat) : Nat :=
  min offset source.size + (source.lineAfter offset).length

/-- The blanks that the line of an offset starts with, as far as they stand before the offset. -/
def indentBefore (source : SourceText) (offset : Nat) : Except Utf8.Fault String :=
  (Utf8.decode (source.lineBefore offset)).map fun line =>
    String.ofList (line.takeWhile isBlank)

/-! ### Places in a node -/

def byteCount (text : List Char) : Nat := (Utf8.encode text).length

/-- The place of a character of a node: the node starts at the byte `start` and has the given
text, of which `before` characters come first. -/
def locate (source : SourceText) (path : Path) (start : Nat) (text : List Char) (before : Nat) :
    Location :=
  let passed := text.take before
  let rows := passed.count '\n'
  let line := passed.reverse.takeWhile (· != '\n')
  let column := byteCount line.reverse + (if rows == 0 then (source.lineBefore start).length else 0)
  { path := some path, line := source.row start + rows + 1, column := column + 1 }

/-- The span of some characters of a node. If nothing else stands on their lines, the lines go as a
whole, with the line feed behind them; if not, the spaces and tabs behind the characters go
too. -/
def spanIn (source : SourceText) (nodeStart : Nat) (text : List Char) (start stop : Nat) : Span :=
  let first := nodeStart + byteCount (text.take start)
  let last := nodeStart + byteCount (text.take stop)
  if (source.lineBefore first).all isByteBlank && (source.lineAfter last).all isByteBlank then
    ⟨source.lineStart first, min (source.lineStop last + 1) source.size⟩
  else
    let gap := (source.bytes.drop last).takeWhile fun b => b == 32 || b == 9
    ⟨first, last + gap.length⟩

end SourceText

end FluentBuilder
