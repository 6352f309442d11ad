import FluentBuilder.Path

/-!
Places in a source text, by line and column.
-/

namespace FluentBuilder

/-- A place in a source text. Lines and columns count from one, columns in bytes. -/
structure Location where
  path : Option Path := none
  line : Int := 1
  column : Int := 1
deriving Repr, DecidableEq, Inhabited

namespace Location

/-- The place as messages show it: path, line and column with colons between them. -/
def render (place : Location) : String :=
  let position := toString place.line ++ ":" ++ toString place.column
  match place.path with
  | some path => path.toString ++ ":" ++ position
  | none => position

/-- Whether a place comes before another, or on the same column, in the same text. -/
def le (a b : Location) : Bool :=
  decide (a.line < b.line) || (a.line == b.line && decide (a.column ≤ b.column))

end Location

end FluentBuilder
