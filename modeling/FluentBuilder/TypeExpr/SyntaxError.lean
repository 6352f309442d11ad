import FluentBuilder.Text.Quoted
import FluentBuilder.TypeExpr.Token

/-!
What can be wrong with the text of a type, and how it is said.
-/

namespace FluentBuilder.TypeExpr

inductive Fault where
  /-- No token starts at the character. -/
  | unexpectedCharacter (found : Char)
  /-- The text holds blanks only. -/
  | blank
  /-- The text ends where a token is needed. -/
  | unexpectedEnd
  /-- Another token is needed here. -/
  | expected (wanted found : Token)
  /-- No type starts, or goes on, with the token; `none` is the end of the text. -/
  | unexpected (found : Option Token)
  /-- Parentheses are followed by effects, and these by no arrow. -/
  | effectsWithoutResult
deriving Repr, DecidableEq

/-- A text that is not a type, and what is wrong with it. -/
structure SyntaxError where
  text : String
  fault : Fault
deriving Repr, DecidableEq

def Token.quoted (token : Token) : String := Text.quoted (String.ofList token.chars)

def SyntaxError.message (error : SyntaxError) : String :=
  let text := Text.quoted error.text
  match error.fault with
  | .unexpectedCharacter found =>
    "Unexpected character " ++ Text.quoted (String.ofList [found]) ++ " in type " ++ text
  | .blank => "Empty type annotation"
  | .unexpectedEnd => "Unexpected end of type " ++ text
  | .expected wanted found =>
    "Expected " ++ wanted.quoted ++ " but found " ++ found.quoted ++ " in type " ++ text
  | .unexpected none => "Unexpected None in type " ++ text
  | .unexpected (some found) => "Unexpected " ++ found.quoted ++ " in type " ++ text
  | .effectsWithoutResult => "Effects without a result type in " ++ text

end FluentBuilder.TypeExpr
