import FluentBuilder.Builder.Spec
import Mathlib.Data.Finset.Dedup
import Mathlib.Data.Finset.Lattice.Lemmas

/-!
Defaults, looked for with or without a set of names. The names of the types whose builders a default
calls go into the set, if one is passed along. A failure leaves the names in it that were met before;
only an optional looks on with a set of its own, and puts it into the outer one if it has not failed.
`TypeExpr.track` is this way to look for a default, with the set as a state.

Nothing that is found depends on the set (`track_eq`): it is the default of the type whichever set
is passed along, and what is added to the set are the delegates of the default.
-/

namespace FluentBuilder

/-- A set of names to add to, or none. -/
abbrev NameSet := Option (Finset String)

namespace TypeExpr

open Inference

/-- What an optional makes of the default of the wrapped type, which was looked for with a set of its
own: it adds this set only if there is a default. -/
def absorb (found : NameSet) : Except NoDefault String × NameSet → Except NoDefault String × NameSet
  | (.ok expression, inner) => (.ok expression, found.map (· ∪ inner.getD ∅))
  | (.error _, _) => (.ok absent, found)

mutual

/-- The default of a type, and the set with the names that are met. -/
def track (rules : DefaultRules) :
    TypeExpr → NameSet → Except NoDefault String × NameSet
  | .nominal name arguments, found =>
    let type := TypeExpr.nominal name arguments
    match rules.ruleFor name !arguments.isEmpty with
    | .placeholder => (.error { type, reason := some .placeholder }, found)
    | .neverBuilt => (.error { type, reason := none }, found)
    | .literal expression => (.ok expression, found)
    | .zeroConstructed => (.ok (type.render ++ "()"), found)
    | .range operator =>
      match trackFirst rules arguments found with
      | some (bound, found) =>
        (bound.map fun bound => "(" ++ bound ++ operator ++ bound ++ ")", found)
      | none => (.error { type, reason := some .noBound }, found)
    | .success =>
      (trackFirst rules arguments found).getD (.error { type, reason := some .noSuccess }, found)
    | .optional =>
      match trackFirst rules arguments (some ∅) with
      | some inner => absorb found inner
      | none => (.error { type, reason := some .noWrapped }, found)
    | .delegated =>
      (.ok (type.render ++ "." ++ rules.builderName ++ "().build()"), found.map (insert name))
  | .optional wrapped, found => absorb found (track rules wrapped (some ∅))
  | .unwrapped wrapped, found => track rules wrapped found
  | .array element, found => (.ok ((TypeExpr.array element).render ++ "()"), found)
  | .dictionary key value, found => (.ok ((TypeExpr.dictionary key value).render ++ "()"), found)
  | .tuple elements, found =>
    let (values, found) := trackAll rules elements found
    (values.map fun values => "(" ++ ", ".intercalate values ++ ")", found)
  | .function parameters result _ _ _, found =>
    -- the body runs only when the function is called
    ((Inference.closure parameters ⟨(track rules result none).1, []⟩).value, found)
  | .verbatim text, found => (.error { type := .verbatim text, reason := none }, found)

def trackFirst (rules : DefaultRules) :
    List TypeExpr → NameSet → Option (Except NoDefault String × NameSet)
  | [], _ => none
  | first :: _, found => some (track rules first found)

/-- The defaults of the elements of a tuple, up to the first that has none. -/
def trackAll (rules : DefaultRules) :
    List (Option String × TypeExpr) → NameSet → Except NoDefault (List String) × NameSet
  | [], found => (.ok [], found)
  | (_, type) :: rest, found =>
    match track rules type found with
    | (.error error, found) => (.error error, found)
    | (.ok value, found) =>
      let (values, found) := trackAll rules rest found
      (values.map (value :: ·), found)

end

/-! ### The set makes no difference -/

/-- A default, with its delegates added to a set. -/
def addedTo (inference : Inference) (found : NameSet) : Except NoDefault String × NameSet :=
  (inference.value, found.map (· ∪ inference.delegates.toFinset))

theorem addedTo_of_none {inference : Inference} (h : inference.delegates = []) (found : NameSet) :
    addedTo inference found = (inference.value, found) := by
  simp [addedTo, h]

theorem absorb_addedTo (inference : Inference) (found : NameSet) :
    absorb found (addedTo inference (some ∅)) = addedTo inference.orAbsent found := by
  obtain ⟨value, delegates⟩ := inference
  cases value <;> simp [absorb, addedTo, orAbsent, given]

variable (rules : DefaultRules)

mutual

/-- What is found for a type is its default, and what is added to the set are the names of the types
whose builders the default calls. -/
theorem track_eq : ∀ (type : TypeExpr) (found : NameSet),
    type.track rules found = addedTo (type.default rules) found
  | .nominal name arguments, found => by
    have hfirst := trackFirst_eq arguments
    unfold track default
    dsimp only
    cases rules.ruleFor name !arguments.isEmpty with
    | placeholder => rw [addedTo_of_none rfl]; rfl
    | neverBuilt => rw [addedTo_of_none rfl]; rfl
    | literal => rw [addedTo_of_none rfl]; rfl
    | zeroConstructed => rw [addedTo_of_none rfl]; rfl
    | range operator =>
      cases arguments with
      | nil => rw [addedTo_of_none rfl]; rfl
      | cons first rest => rw [hfirst]; rfl
    | success =>
      cases arguments with
      | nil => rw [addedTo_of_none rfl]; rfl
      | cons first rest => rw [hfirst]; rfl
    | optional =>
      cases arguments with
      | nil => rw [addedTo_of_none rfl]; rfl
      | cons first rest =>
        have hinner := hfirst (some ∅) (missing (.nominal name (first :: rest)))
        simp only [hinner, List.isEmpty_cons, Bool.false_eq_true, if_false, absorb_addedTo]
    | delegated => simp [addedTo]
  | .optional wrapped, found => by
    rw [track, track_eq wrapped, absorb_addedTo, default]
  | .unwrapped wrapped, found => by rw [track, track_eq wrapped, default]
  | .array element, found => by rw [track, default, addedTo_of_none rfl]; rfl
  | .dictionary key value, found => by rw [track, default, addedTo_of_none rfl]; rfl
  | .tuple elements, found => by
    rw [track, trackAll_eq elements, default]
    rfl
  | .function parameters result _ _ _, found => by
    have hnone : (Inference.closure parameters (result.default rules)).delegates = [] := rfl
    rw [track, track_eq result, default, addedTo_of_none hnone]
    rfl
  | .verbatim text, found => by rw [track, default, addedTo_of_none rfl]; rfl

theorem trackFirst_eq : ∀ (types : List TypeExpr) (found : NameSet) (instead : Inference),
    trackFirst rules types found =
      if types.isEmpty then none else some (addedTo (defaultOfFirst rules types instead) found)
  | [], found, instead => rfl
  | first :: _, found, instead => by
    rw [trackFirst, track_eq first, defaultOfFirst]
    rfl

theorem trackAll_eq : ∀ (elements : List (Option String × TypeExpr)) (found : NameSet),
    trackAll rules elements found = ((defaultsOf rules elements).1,
      found.map (· ∪ (defaultsOf rules elements).2.toFinset))
  | [], found => by simp [trackAll, defaultsOf]
  | (_, type) :: rest, found => by
    have htype := track_eq type found
    have hrest := trackAll_eq rest
    rw [trackAll, defaultsOf, htype, addedTo]
    cases (type.default rules).value with
    | error error => rfl
    | ok value =>
      simp only [hrest, Option.map_map, List.toFinset_append]
      congr 2
      funext names
      simp [Finset.union_assoc]

end

end TypeExpr

/-! ### Fields -/

/-- The default of a field, and the set with the names that are met. -/
def Field.track (rules : DefaultRules) (field : Field) (found : NameSet) :
    Except NoDefault String × NameSet :=
  match field.givenDefault with
  | some expression => (.ok expression, found)
  | none => field.type.track rules found

namespace BuilderSpec

/-- The fields with their defaults, looked for one after another, and the set with the names that
are met. -/
def resolveTracked (rules : DefaultRules) : List Field → NameSet → List Resolution × NameSet
  | [], found => ([], found)
  | field :: rest, found =>
    let (value, found) := field.track rules found
    let (resolutions, found) := resolveTracked rules rest found
    (⟨field, value⟩ :: resolutions, found)

end BuilderSpec

end FluentBuilder
