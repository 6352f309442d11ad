import FluentBuilder.Text.Quoted

/-!
Groups in brackets, with strings taken into account: inside a string, which double quotes
delimit, brackets do not count, and a backslash hides the character after it.
-/

namespace FluentBuilder.Syntax

/-- A bracket without its partner, and the text it stands in front of. -/
structure Unbalanced where
  opening : String
  text : List Char
deriving Repr, DecidableEq

/-- The wording of an unbalanced bracket: it shows the first forty characters. -/
def Unbalanced.message (error : Unbalanced) : String :=
  "Unbalanced " ++ Text.quoted error.opening ++ " in " ++
    Text.quoted (String.ofList (error.text.take 40))

/-- The number of characters up to the closing bracket behind which as many brackets are closed as
were opened. `depth` counts the brackets that are open already. -/
def groupLengthFrom (opening closing : Char) :
    (depth : Int) → (inString : Bool) → List Char → Option Nat
  | _, _, [] => none
  | depth, true, '\\' :: _ :: rest => (groupLengthFrom opening closing depth true rest).map (· + 2)
  | depth, true, c :: rest => (groupLengthFrom opening closing depth (c != '"') rest).map (· + 1)
  | depth, false, c :: rest =>
    if c == '"' then (groupLengthFrom opening closing depth true rest).map (· + 1)
    else if c == opening then (groupLengthFrom opening closing (depth + 1) false rest).map (· + 1)
    else if c == closing then
      if depth - 1 == 0 then some 1
      else (groupLengthFrom opening closing (depth - 1) false rest).map (· + 1)
    else (groupLengthFrom opening closing depth false rest).map (· + 1)

/-- The length of the group that starts with the bracket in front of the text. -/
def groupLength (opening closing : Char) (text : List Char) : Except Unbalanced Nat :=
  match groupLengthFrom opening closing 0 false text with
  | some length => .ok length
  | none => .error ⟨String.ofList [opening], text⟩

/-- What stands between the brackets of a group. -/
def inside (group : List Char) : List Char := group.tail.dropLast

end FluentBuilder.Syntax
