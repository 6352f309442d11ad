import FluentBuilder.Text.Class

/-!
Types as they are written in annotations: names with generic arguments, optionals, collections,
tuples and functions. A type without such a shape (`any P`, `P & Q`, `T.Type`) is kept verbatim.
-/

namespace FluentBuilder

inductive TypeExpr where
  /-- A name, dotted if it is nested, with its generic arguments. -/
  | nominal (name : String) (arguments : List TypeExpr)
  /-- An optional `T?`. -/
  | optional (wrapped : TypeExpr)
  /-- An optional `T!` that is unwrapped wherever it is used. -/
  | unwrapped (wrapped : TypeExpr)
  /-- An array `[T]`. -/
  | array (element : TypeExpr)
  /-- A dictionary `[K: V]`. -/
  | dictionary (key value : TypeExpr)
  /-- A tuple `(T, label: U)`. -/
  | tuple (elements : List (Option String × TypeExpr))
  /-- A function `(T, U) async throws(E) -> R`. -/
  | function (parameters : List TypeExpr) (result : TypeExpr) (isAsync throws : Bool)
      (thrown : Option TypeExpr)
  /-- A type without a structure of its own here, by its text. -/
  | verbatim (text : String)
deriving Repr, BEq, Inhabited

namespace TypeExpr

/-- The last segment of a dotted name, without generic arguments and blanks around it. -/
def lastSegment (name : String) : String :=
  let segment := (name.toList.reverse.takeWhile (· != '.')).reverse
  String.ofList (Text.trim (segment.takeWhile (· != '<')))

end TypeExpr

end FluentBuilder
