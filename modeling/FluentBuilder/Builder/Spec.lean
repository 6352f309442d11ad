import FluentBuilder.Default.Inference
import FluentBuilder.Text.Sorted

/-!
What a builder is made of: one slot for each stored field of its record, with a default.
-/

namespace FluentBuilder

/-- A field together with what is found out about its default. -/
structure Resolution where
  field : Field
  value : Except NoDefault String

/-- The slot of a builder for one field. -/
structure Slot where
  name : String
  type : TypeExpr
  default : String
deriving Repr, Inhabited

/-- A builder of the values of a record. -/
structure BuilderSpec where
  recordName : String
  slots : List Slot := []
  visibility : Option String := none
  /-- The types whose builders the defaults call, in ascending order. -/
  delegates : List String := []
deriving Repr, Inhabited

namespace BuilderSpec

/-- The fields with their defaults, and the types whose builders these call. -/
def resolve (rules : DefaultRules) (fields : List Field) : List Resolution × List String :=
  let inferences := fields.map fun field => (field, field.default rules)
  (inferences.map fun (field, inference) => ⟨field, inference.value⟩,
    inferences.flatMap fun (_, inference) => inference.delegates)

/-- The slots of fields that all have a default, or else the first failure. -/
def slotsOf : List Resolution → Except NoDefault (List Slot)
  | [] => .ok []
  | ⟨field, value⟩ :: rest =>
    match value with
    | .error error => .error error
    | .ok expression =>
      (slotsOf rest).map ({ name := field.name, type := field.type, default := expression } :: ·)

/-- The builder of a record from its resolved fields. -/
def ofResolutions (recordName : String) (resolutions : List Resolution)
    (visibility : Option String) (delegates : List String) : Except NoDefault BuilderSpec :=
  (slotsOf resolutions).map fun slots =>
    { recordName, slots, visibility, delegates := Text.sortedSet delegates }

end BuilderSpec

end FluentBuilder
