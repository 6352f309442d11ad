import FluentBuilder.Syntax.Head

/-!
What follows the name in a declaration: the type annotation of a property, and the generic
parameters of a type.
-/

namespace FluentBuilder.Syntax

open Text

/-! ### Type annotations -/

/-- The length of the annotation that the text starts with: it ends before a comment, or before an
initial value, a body, a comma or a semicolon outside brackets. `depth` counts the brackets that
are open. -/
def annotationLength : (depth : Int) → List Char → Nat
  | _, [] => 0
  | depth, '-' :: '>' :: rest => annotationLength depth rest + 2
  | _, '/' :: '/' :: _ => 0
  | _, '/' :: '*' :: _ => 0
  | depth, c :: rest =>
    if c == '<' || c == '(' || c == '[' then annotationLength (depth + 1) rest + 1
    else if c == '>' || c == ')' || c == ']' then annotationLength (depth - 1) rest + 1
    else if depth == 0 && (c == '=' || c == '\x7b' || c == ',' || c == ';') then 0
    else annotationLength depth rest + 1

def annotation (text : List Char) : String × List Char :=
  let length := annotationLength 0 text
  (String.ofList (trim (text.take length)), text.drop length)

/-! ### Generic parameters -/

/-- The names of generic parameters with commas between them. Constraints do not count. -/
def parameterNames (text : List Char) : List String :=
  (pieces text).filterMap fun piece =>
    (word? (trim piece)).map fun (word, _) => String.ofList (unticked word)

def genericParameters (text : List Char) : Except Unbalanced (List String) :=
  match skipTrivia text with
  | '<' :: rest => do
    let length ← groupLength '<' '>' ('<' :: rest)
    return parameterNames (inside (('<' :: rest).take length))
  | _ => .ok []

/-! ### Kinds -/

/-- The text without the occurrences of a part; `skipped` characters still belong to one. -/
def withoutPart (part : List Char) : (skipped : Nat) → List Char → List Char
  | _, [] => []
  | skipped + 1, _ :: rest => withoutPart part skipped rest
  | 0, c :: rest =>
    if part.isPrefixOf (c :: rest) then withoutPart part (part.length - 1) rest
    else c :: withoutPart part 0 rest

/-- What a declaration declares: its keyword says so, or else the kind of its node. -/
def declarationKind (keyword : Option String) (nodeKind : String) : String :=
  let fromNode := String.ofList (withoutPart "_declaration".toList 0 nodeKind.toList)
  match keyword with
  | some keyword => if declarationKeywords.contains keyword then keyword else fromNode
  | none => fromNode

end FluentBuilder.Syntax
