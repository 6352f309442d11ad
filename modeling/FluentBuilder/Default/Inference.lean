import FluentBuilder.Default.Missing
import FluentBuilder.Default.Rules
import FluentBuilder.Record

/-!
Default expressions by type. Beside the expression, or the reason why there is none, an inference
gives the names of the types whose builders run when the expression is evaluated: not those
inside a function, whose body runs only when it is called, and not those of an optional that
ends up as `nil`.
-/

namespace FluentBuilder

/-- What is found out about the default of a type. -/
structure Inference where
  value : Except NoDefault String
  /-- The types whose builders the default calls, in the order in which they are met; after a
  failure, those met before it. -/
  delegates : List String := []

namespace Inference

/-- A default that calls no builder. -/
def given (expression : String) : Inference := { value := .ok expression }

/-- No default for a type. -/
def missing (type : TypeExpr) (reason : Option NoDefault.Reason := none) : Inference :=
  { value := .error { type, reason } }

/-- The inference with its expression put into another. -/
def map (inference : Inference) (wrap : String → String) : Inference :=
  { inference with value := inference.value.map wrap }

/-- The expression of an optional without a value. -/
def absent : String := "nil"

/-- The default of an optional: without one for the wrapped type it is `nil`. -/
def orAbsent (inference : Inference) : Inference :=
  match inference.value with
  | .ok _ => inference
  | .error _ => given absent

/-- The default of a function with the given parameters: it ignores them and returns the default
of its result. -/
def closure (parameters : List TypeExpr) (result : Inference) : Inference :=
  let pattern :=
    if parameters.isEmpty then ""
    else ", ".intercalate (parameters.map fun _ => "_") ++ " in "
  { value := result.value.map fun body => "\x7b " ++ pattern ++ body ++ " \x7d" }

end Inference

namespace TypeExpr

open Inference

mutual

def default (rules : DefaultRules) : TypeExpr → Inference
  | .nominal name arguments =>
    let type := TypeExpr.nominal name arguments
    match rules.ruleFor name !arguments.isEmpty with
    | .placeholder => missing type (some .placeholder)
    | .neverBuilt => missing type
    | .literal expression => given expression
    | .zeroConstructed => given (type.render ++ "()")
    | .range operator =>
      (defaultOfFirst rules arguments (missing type (some .noBound))).map fun bound =>
        "(" ++ bound ++ operator ++ bound ++ ")"
    | .success => defaultOfFirst rules arguments (missing type (some .noSuccess))
    | .optional =>
      if arguments.isEmpty then missing type (some .noWrapped)
      else (defaultOfFirst rules arguments (missing type)).orAbsent
    | .delegated =>
      { value := .ok (type.render ++ "." ++ rules.builderName ++ "().build()"),
        delegates := [name] }
  | .optional wrapped => (default rules wrapped).orAbsent
  | .unwrapped wrapped => default rules wrapped
  | .array element => given ((TypeExpr.array element).render ++ "()")
  | .dictionary key value => given ((TypeExpr.dictionary key value).render ++ "()")
  | .tuple elements =>
    let (values, delegates) := defaultsOf rules elements
    { value := values.map fun values => "(" ++ ", ".intercalate values ++ ")", delegates }
  | .function parameters result _ _ _ => closure parameters (default rules result)
  | .verbatim text => missing (.verbatim text)

/-- The default of the first of some types, or `none` instead if there is no type. -/
def defaultOfFirst (rules : DefaultRules) (types : List TypeExpr) (none : Inference) : Inference :=
  match types with
  | [] => none
  | first :: _ => default rules first

/-- The defaults of the elements of a tuple up to the first that has none, and the types whose
builders they call. -/
def defaultsOf (rules : DefaultRules) :
    List (Option String × TypeExpr) → Except NoDefault (List String) × List String
  | [] => (.ok [], [])
  | (_, type) :: rest =>
    let first := default rules type
    match first.value with
    | .error error => (.error error, first.delegates)
    | .ok value =>
      let (values, delegates) := defaultsOf rules rest
      (values.map (value :: ·), first.delegates ++ delegates)

end

end TypeExpr

/-- The default of a field: the one that the source gives, or else that of its type. -/
def Field.default (field : Field) (rules : DefaultRules) : Inference :=
  match field.givenDefault with
  | some expression => .given expression
  | none => field.type.default rules

end FluentBuilder
