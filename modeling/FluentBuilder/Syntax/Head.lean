import FluentBuilder.Syntax.Group
import FluentBuilder.Syntax.Pieces
import FluentBuilder.Syntax.Trivia
import FluentBuilder.Text.Word

/-!
The head of a declaration: its attributes and modifiers, up to the keyword that says what is
declared.
-/

namespace FluentBuilder.Syntax

open Text

/-! ### Attributes -/

/-- An attribute in a text, with the offsets where it starts and stops. -/
structure Attribute where
  name : String
  /-- What stands between the parentheses, if there are any. -/
  arguments : Option (List Char)
  start : Nat
  stop : Nat
deriving Repr, DecidableEq

/-- The word that labels an argument, and what follows its colon; a double colon is none. -/
def label? (piece : List Char) : Option (List Char × List Char) :=
  match trimStart piece with
  | [] => none
  | c :: rest =>
    if isWordStart c then
      match trimStart (rest.dropWhile isWord) with
      | ':' :: ':' :: _ => none
      | ':' :: after => some (c :: rest.takeWhile isWord, after)
      | _ => none
    else none

def argumentOf (piece : List Char) : Option String × String :=
  match label? piece with
  | some (label, expression) => (some (String.ofList label), String.ofList (trim expression))
  | none => (none, String.ofList (trim piece))

namespace Attribute

/-- The arguments of an attribute. Pieces of blanks only do not count. -/
def argumentList (self : Attribute) : List (Option String × String) :=
  match self.arguments with
  | none => []
  | some text => ((pieces text).filter fun piece => !(trim piece).isEmpty).map argumentOf

/-- The first argument, if it is unlabelled or labelled `default`. -/
def defaultArgument (self : Attribute) : Option String :=
  match self.argumentList with
  | (none, expression) :: _ => some expression
  | (some label, expression) :: _ => if label == "default" then some expression else none
  | [] => none

/-- Whether some argument is labelled `default`. -/
def hasDefault (self : Attribute) : Bool :=
  self.argumentList.any (·.1 == some "default")

end Attribute

/-! ### Heads -/

structure Head where
  attributes : List Attribute := []
  /-- The modifiers, without their arguments. -/
  modifiers : List String := []
  /-- The keyword, if the head ends with one. -/
  keyword : Option String := none
  /-- The offset behind the keyword, or where there is none. -/
  stop : Nat
deriving Repr, DecidableEq

/-- The modifiers that say who can see a declaration. -/
def visibilities : List String :=
  ["public", "open", "package", "internal", "fileprivate", "private"]

def Head.visibility (head : Head) : Option String := head.modifiers.find? visibilities.contains

inductive HeadPart where
  | attribute (name : List Char) (arguments : Option (List Char))
  | modifier (word : List Char)
  | keyword (word : List Char)
deriving Repr, DecidableEq

/-- The length of the group in parentheses that the text starts with; zero if it starts with
something else. -/
def argumentsLength : List Char → Except Unbalanced Nat
  | '(' :: rest => groupLength '(' ')' ('(' :: rest)
  | _ => .ok 0

/-- The name of the attribute that the text starts with, and what follows it. -/
def attributeName? : List Char → Option (List Char × List Char)
  | '@' :: c :: rest =>
    if isWordStart c then
      let inName := fun c => isWord c || c == '.'
      some (c :: rest.takeWhile inName, rest.dropWhile inName)
    else none
  | _ => none

/-- The part of a head that the text starts with, and what follows it. -/
def headPart (keywords : List String) (text : List Char) :
    Except Unbalanced (Option (HeadPart × List Char)) :=
  match attributeName? text with
  | some (name, after) => do
    let length ← argumentsLength after
    let arguments := if length == 0 then none else some (inside (after.take length))
    return some (.attribute name arguments, after.drop length)
  | none =>
    match word? text with
    | none => .ok none
    | some (word, after) =>
      if keywords.contains (String.ofList word) then .ok (some (.keyword word, after))
      else do
        let length ← argumentsLength after
        return some (.modifier word, after.drop length)

theorem attributeName?_length_lt {text name rest : List Char}
    (h : attributeName? text = some (name, rest)) : rest.length < text.length := by
  unfold attributeName? at h
  split at h
  · next c tail =>
    split at h
    · simp only [Option.some.injEq, Prod.mk.injEq] at h
      have := (List.dropWhile_suffix (l := tail) fun c => isWord c || c == '.').length_le
      rw [← h.2]
      simp only [List.length_cons]
      omega
    · simp at h
  · simp at h

theorem headPart_length_lt {keywords : List String} {text rest : List Char} {part : HeadPart}
    (h : headPart keywords text = .ok (some (part, rest))) : rest.length < text.length := by
  unfold headPart at h
  split at h
  · next hname =>
    have hlt := attributeName?_length_lt hname
    cases hlen : argumentsLength ‹_› <;> simp [hlen, bind, Except.bind, pure, Except.pure] at h
    rw [← h.2, List.length_drop]
    omega
  · split at h
    · simp at h
    · next hword =>
      have hlt := word?_length_lt hword
      split at h
      · simp only [Except.ok.injEq, Option.some.injEq, Prod.mk.injEq] at h
        exact h.2 ▸ hlt
      · cases hlen : argumentsLength ‹_› <;> simp [hlen, bind, Except.bind, pure, Except.pure] at h
        rw [← h.2, List.length_drop]
        omega

/-- The head of the declaration in a text that starts at the given offset. Words in `keywords` end
it, and so does anything that is neither an attribute nor a word. -/
def headFrom (keywords : List String) (offset : Nat) (text : List Char) :
    Except Unbalanced Head :=
  let start := offset + (text.length - (skipTrivia text).length)
  match _hpart : headPart keywords (skipTrivia text) with
  | .error error => .error error
  | .ok none => .ok { stop := start }
  | .ok (some (part, rest)) =>
    let stop := offset + (text.length - rest.length)
    match part with
    | .keyword word => .ok { keyword := some (String.ofList word), stop }
    | .modifier word => do
      let head ← headFrom keywords stop rest
      return { head with modifiers := String.ofList word :: head.modifiers }
    | .attribute name arguments => do
      let head ← headFrom keywords stop rest
      return { head with
        attributes := { name := String.ofList name, arguments, start, stop } :: head.attributes }
termination_by text.length
decreasing_by
  all_goals
    have hlt := headPart_length_lt _hpart
    have hle := skipTrivia_length_le text
    omega

def head (keywords : List String) (text : List Char) : Except Unbalanced Head :=
  headFrom keywords 0 text

def declarationKeywords : List String :=
  ["struct", "class", "enum", "actor", "protocol", "extension"]

def bindingKeywords : List String := ["let", "var"]

end FluentBuilder.Syntax
