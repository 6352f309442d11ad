import FluentBuilder.Location
import FluentBuilder.TypeExpr.Basic

/-!
Declarations of types and their members, and the stored fields among these.
-/

namespace FluentBuilder

/-- A member of a type as its source shows it. -/
structure Member where
  /-- The name, if the member has a simple one. -/
  name : Option String := none
  type : Option TypeExpr := none
  /-- The default that the source gives for the builder. -/
  givenDefault : Option String := none
  isMutable : Bool := false
  isStatic : Bool := false
  isComputed : Bool := false
  location : Option Location := none
deriving Repr, Inhabited

structure Field where
  name : String
  type : TypeExpr
  givenDefault : Option String := none
  isMutable : Bool := false
deriving Repr, Inhabited

structure Declaration where
  name : String
  /-- What is declared: a struct, a class, an enum, an actor, a protocol or an extension. -/
  kind : String := "struct"
  members : List Member := []
  genericParameters : List String := []
  visibility : Option String := none
  location : Option Location := none
  attributes : List String := []
deriving Repr, Inhabited

/-- The field that a member is, unless it is static or computed or lacks an identifier for a
name or a type. -/
def Member.field? (member : Member) : Option Field :=
  if member.isStatic || member.isComputed then none
  else
    match member.name, member.type with
    | some name, some type =>
      if Text.isIdentifier name then
        some { name, type, givenDefault := member.givenDefault, isMutable := member.isMutable }
      else none
    | _, _ => none

/-- The stored fields of a declaration, in the order of its members. -/
def Declaration.fields (declaration : Declaration) : List Field :=
  declaration.members.filterMap Member.field?

end FluentBuilder
