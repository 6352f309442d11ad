import FluentBuilder.Default.Rules
import Mathlib.Data.List.Basic

/-!
# What the rules for names are the rules for

The rule for a name is the first of a row that applies. `Governs` says for each rule what is known
about a name that it is found for, the rules in front of it included, and `governs_ruleFor` that
this is so. Whatever is proved about defaults goes by these cases, and no proof has to look into the
tables again.
-/

namespace FluentBuilder.DefaultRules

open TypeExpr (lastSegment)

/-- The name of a type stands for a generic parameter: it is one, and has no arguments. -/
def IsPlaceholder (rules : DefaultRules) (name : String) (hasArguments : Bool) : Prop :=
  name ∈ rules.placeholders ∧ hasArguments = false

/-- The tables have an entry for a name: for its last segment there is an expression, or it is that
of a type that is made without arguments. -/
def IsTabled (rules : DefaultRules) (name : String) : Prop :=
  lastSegment name ∈ rules.literals.map (·.1) ∨ lastSegment name ∈ rules.zeroConstructible

/-- The last segments of the names whose default is made of that of their first argument. -/
def structuralNames : List String := ["Range", "ClosedRange", "Result", "Optional"]

/-- A name is neither that of a generic parameter nor that of a type without values. -/
structure IsBuilt (rules : DefaultRules) (name : String) (hasArguments : Bool) : Prop where
  noPlaceholder : ¬rules.IsPlaceholder name hasArguments
  notNever : lastSegment name ∉ Default.neverBuilt

/-- A rule governs a name if it applies to the name and no rule in front of it does. -/
inductive Governs (rules : DefaultRules) (name : String) (hasArguments : Bool) :
    NominalRule → Prop
  | placeholder (h : rules.IsPlaceholder name hasArguments) :
      Governs rules name hasArguments .placeholder
  | neverBuilt (hnot : ¬rules.IsPlaceholder name hasArguments)
      (h : lastSegment name ∈ Default.neverBuilt) : Governs rules name hasArguments .neverBuilt
  | literal (hbuilt : rules.IsBuilt name hasArguments) (h : rules.IsTabled name)
      (expression : String) (hentry : (lastSegment name, expression) ∈ rules.literals) :
      Governs rules name hasArguments (.literal expression)
  | zeroConstructed (hbuilt : rules.IsBuilt name hasArguments) (h : rules.IsTabled name) :
      Governs rules name hasArguments .zeroConstructed
  | range (hbuilt : rules.IsBuilt name hasArguments) (hnot : ¬rules.IsTabled name)
      (operator : String) (h : (lastSegment name, operator) ∈ Default.rangeOperators) :
      Governs rules name hasArguments (.range operator)
  | success (hbuilt : rules.IsBuilt name hasArguments) (hnot : ¬rules.IsTabled name)
      (h : lastSegment name = "Result") : Governs rules name hasArguments .success
  | optional (hbuilt : rules.IsBuilt name hasArguments) (hnot : ¬rules.IsTabled name)
      (h : lastSegment name = "Optional") : Governs rules name hasArguments .optional
  | delegated (hbuilt : rules.IsBuilt name hasArguments) (hnot : ¬rules.IsTabled name)
      (h : lastSegment name ∉ structuralNames) : Governs rules name hasArguments .delegated

theorem mem_of_lookup_eq_some {α : Type} {entries : List (String × α)} {key : String} {value : α}
    (h : entries.lookup key = some value) : (key, value) ∈ entries := by
  obtain ⟨before, after, rfl, -⟩ := List.lookup_eq_some_iff.mp h
  simp

theorem notMem_of_lookup_eq_none {α : Type} {entries : List (String × α)} {key : String}
    (h : entries.lookup key = none) : key ∉ entries.map (·.1) := by
  intro hmem
  obtain ⟨entry, hentry, rfl⟩ := List.mem_map.mp hmem
  simpa using List.lookup_eq_none_iff.mp h entry hentry

theorem governs_ruleFor (rules : DefaultRules) (name : String) (hasArguments : Bool) :
    Governs rules name hasArguments (rules.ruleFor name hasArguments) := by
  unfold ruleFor
  dsimp only
  split
  · next hplaceholder => exact .placeholder (by simpa [IsPlaceholder] using hplaceholder)
  next hplaceholder =>
  have hnot : ¬rules.IsPlaceholder name hasArguments := by
    simpa [IsPlaceholder] using hplaceholder
  split
  · next hnever => exact .neverBuilt hnot (by simpa using hnever)
  next hnever =>
  have hbuilt : rules.IsBuilt name hasArguments := ⟨hnot, by simpa using hnever⟩
  split
  · next hliteral =>
    have hentry := mem_of_lookup_eq_some hliteral
    exact .literal hbuilt (.inl (List.mem_map_of_mem hentry)) _ hentry
  next hliteral =>
  split
  · next hzero => exact .zeroConstructed hbuilt (.inr (by simpa using hzero))
  next hzero =>
  have huntabled : ¬rules.IsTabled name :=
    not_or.mpr ⟨notMem_of_lookup_eq_none hliteral, by simpa using hzero⟩
  split
  · next hrange => exact .range hbuilt huntabled _ (mem_of_lookup_eq_some hrange)
  next hrange =>
  have hnoRange := notMem_of_lookup_eq_none hrange
  split
  · next hresult => exact .success hbuilt huntabled (by simpa using hresult)
  next hresult =>
  split
  · next hoptional => exact .optional hbuilt huntabled (by simpa using hoptional)
  next hoptional =>
  refine .delegated hbuilt huntabled ?_
  simp_all [structuralNames, Default.rangeOperators]

end FluentBuilder.DefaultRules
