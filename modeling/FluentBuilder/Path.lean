/-!
Paths of files: a root, which may be empty, and the components below it. Empty components and
the component `.` do not count.
-/

namespace FluentBuilder

structure Path where
  /-- Empty for a relative path, else one slash, or two if the text starts with exactly two. -/
  root : String
  components : List String
deriving Repr, DecidableEq, Inhabited

namespace Path

/-- The pieces of a text between slashes. -/
def pieces (text : List Char) : List (List Char) := text.splitOn '/'

def rootOf : List Char → String
  | '/' :: '/' :: '/' :: _ => "/"
  | '/' :: '/' :: _ => "//"
  | '/' :: _ => "/"
  | _ => ""

def ofString (text : String) : Path where
  root := rootOf text.toList
  components :=
    ((pieces text.toList).filter fun piece => !piece.isEmpty && piece != ['.']).map String.ofList

/-- The text of a path: a dot if it has no components. -/
def toString (path : Path) : String :=
  let text := path.root ++ "/".intercalate path.components
  if text == "" then "." else text

instance : ToString Path := ⟨toString⟩

/-- The last component, or the empty text. -/
def name (path : Path) : String := path.components.getLast?.getD ""

/-- The end of the name from its last dot on, unless that is the first or the last character of
the name. -/
def suffix (path : Path) : String :=
  let chars := path.name.toList
  let extension := (chars.reverse.takeWhile (· != '.')).reverse
  let stem := chars.take (chars.length - extension.length - 1)
  if chars.contains '.' && !extension.isEmpty && !stem.isEmpty then
    "." ++ String.ofList extension
  else ""

end Path

end FluentBuilder
