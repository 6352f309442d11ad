import FluentBuilder.Syntax.Annotation

/-!
Reading at a place in a text. A place counts characters from the start of the text or, if it is
negative, from its end; no place lies further back than the start. What is read from a negative
place goes on at the start of the text where it reaches the end, so that the places of its
characters are a row of integers.
-/

namespace FluentBuilder.Syntax

open Text

/-! ### Places -/

/-- Why nothing is read at a place. -/
inductive PlaceError where
  /-- There is no such place. -/
  | outside
  | unbalanced (error : Unbalanced)
deriving Repr, DecidableEq

/-- The number of characters in front of a place. -/
def offset (text : List Char) (place : Int) : Nat :=
  if place < 0 then (text.length + place).toNat else place.toNat

def between (text : List Char) (start stop : Int) : List Char :=
  (text.take (offset text stop)).drop (offset text start)

/-- The characters from a negative place up to the end of the text. -/
def ending (text : List Char) (place : Int) : Except PlaceError (List Char) :=
  if text.length + place < 0 then .error .outside else .ok (text.drop (offset text place))

/-! ### Trivia -/

/-- The place behind the trivia at a place that is not negative. -/
def placeAfterTrivia (text : List Char) (place : Nat) : Nat :=
  let rest := text.drop place
  place + (rest.length - (skipTrivia rest).length)

/-- The place behind the trivia at a place. Behind a comment the places are those from the start. -/
def skipTriviaAt (text : List Char) (place : Int) : Except PlaceError Int :=
  if 0 ≤ place then .ok (placeAfterTrivia text place.toNat)
  else do
    let code := (← ending text place).dropWhile isBlank
    if code.isEmpty then return placeAfterTrivia text 0
    else
      -- the mark that closes a comment may stand in front of the one that opens it
      let rest := if code == ['/', '*'] then skipFrom .blockComment text else skipTrivia code
      if rest == code then return -code.length else return text.length - rest.length

/-! ### Groups -/

/-- The place behind the group that starts with the bracket at a place. A bracket is one
character; any other text is never met. -/
def groupStop (opening closing : String) (text : List Char) (place : Int) :
    Except PlaceError Int := do
  let group ← if place < 0 then (ending text place).map (· ++ text) else .ok (text.drop place.toNat)
  let length? := match opening.toList, closing.toList with
    | [opening], [closing] => groupLengthFrom opening closing 0 false group
    | _, _ => none
  match length? with
  | some length => return place + length
  | none => .error (.unbalanced ⟨opening, between text place (place + 40)⟩)

/-! ### Type annotations -/

/-- The annotation at a place, without blanks around it, and the place behind it. -/
def annotationAt (text : List Char) (place : Int) : Except PlaceError (String × Int) := do
  let stop ←
    if 0 ≤ place then pure (place + annotationLength 0 (text.drop place.toNat))
    else
      let front ← ending text place
      -- no mark of two characters stands across the end of the text
      let length := annotationLength 0 (front ++ Char.ofNat 0 :: text)
      pure (if length < front.length then place + length else length - front.length - 1)
  return (String.ofList (trim (between text place stop)), stop)

/-! ### Generic parameters -/

/-- The names of the generic parameters at a place, after trivia. -/
def genericParametersAt (text : List Char) (place : Int) : Except PlaceError (List String) := do
  let start ← skipTriviaAt text place
  if (text.drop (offset text start)).head? == some '<' then
    let stop ← groupStop "<" ">" text start
    return parameterNames (between text (start + 1) (stop - 1))
  else return []

end FluentBuilder.Syntax
