import FluentBuilder.TypeExpr.Printer

/-!
Why a type has no default value.
-/

namespace FluentBuilder

namespace NoDefault

/-- A reason that goes beyond the type being what it is. -/
inductive Reason where
  /-- The type is a generic parameter of the record. -/
  | placeholder
  /-- A range lacks the type of its bounds. -/
  | noBound
  /-- A result lacks the type of its success. -/
  | noSuccess
  /-- An optional written as a name lacks its wrapped type. -/
  | noWrapped
  /-- A reason given in words. -/
  | stated (words : String)
deriving Repr, DecidableEq

def Reason.words : Reason → String
  | .placeholder => "generic placeholder"
  | .noBound => "range without a bound type"
  | .noSuccess => "missing success type"
  | .noWrapped => "missing wrapped type"
  | .stated words => words

end NoDefault

/-- A type that has no default value. -/
structure NoDefault where
  type : TypeExpr
  reason : Option NoDefault.Reason := none
deriving Repr

/-- The wording of a missing default; empty words for its reason do not count. -/
def NoDefault.message (error : NoDefault) : String :=
  let message := "Cannot infer a default value for type '" ++ error.type.render ++ "'"
  match error.reason with
  | none => message
  | some reason => if reason.words == "" then message else message ++ ": " ++ reason.words

end FluentBuilder
