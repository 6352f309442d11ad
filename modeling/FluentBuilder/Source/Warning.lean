import FluentBuilder.Location
import FluentBuilder.Syntax.Group
import FluentBuilder.Text.Utf8

/-!
What makes a declaration unreadable, and what readers warn about.
-/

namespace FluentBuilder

inductive Unreadable where
  /-- A bracket has no partner. -/
  | unbalanced (error : Syntax.Unbalanced)
  /-- Bytes of a node are no text. -/
  | undecodable (fault : Text.Utf8.Fault)
deriving Repr, DecidableEq

def Unreadable.message : Unreadable → String
  | .unbalanced error => error.message
  | .undecodable fault => fault.message

/-- A warning about a source. -/
inductive Warning where
  /-- The text has faults, the first of them at the given place. -/
  | syntaxErrors (path : Path) (count : Nat) (first : Location)
  /-- A declaration on the given line cannot be read. -/
  | skipped (path : Path) (line : Nat) (reason : Unreadable)
  /-- A member cannot be read. -/
  | unreadableMember (location : Location) (reason : Unreadable)
  /-- A record lacks the braces that its builder would go into. -/
  | noBody (recordName : String)
deriving Repr

def Warning.message : Warning → String
  | .syntaxErrors path count first =>
    path.toString ++ ": " ++ toString count ++ " syntax error(s), first at " ++ first.render
  | .skipped path line reason =>
    path.toString ++ ": skipping declaration at line " ++ toString line ++ ": " ++ reason.message
  | .unreadableMember location reason =>
    location.render ++ ": unreadable member: " ++ reason.message
  | .noBody recordName => recordName ++ " has no body to insert a builder into"

end FluentBuilder
