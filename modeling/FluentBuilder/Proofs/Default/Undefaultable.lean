import FluentBuilder.Default.Inference
import FluentBuilder.Proofs.Default.Rules
import FluentBuilder.Proofs.Outcomes

/-!
# Which types have no default

`Undefaultable` says by the shape of a type alone that there is no default for it, and `Blames`
which part of the type is at fault: the innermost one, and in a tuple the leftmost.
`default_error_exact` says that a default is missing for these types and no others, and that the
error tells about the part to blame.

Two kinds of types hide a failure inside of them: collections, which are made empty, and optionals,
which end up as `nil`. All others pass it on.
-/

namespace FluentBuilder.TypeExpr

open Inference DefaultRules

/-! ### Types without a default -/

/-- There is no default for a type. -/
inductive Undefaultable (rules : DefaultRules) : TypeExpr → Prop
  | verbatim (text : String) : Undefaultable rules (.verbatim text)
  | unwrapped {wrapped : TypeExpr} (h : Undefaultable rules wrapped) :
      Undefaultable rules (.unwrapped wrapped)
  | function {parameters : List TypeExpr} {result : TypeExpr} {isAsync throws : Bool}
      {thrown : Option TypeExpr} (h : Undefaultable rules result) :
      Undefaultable rules (.function parameters result isAsync throws thrown)
  | tuple {elements : List (Option String × TypeExpr)} {element : Option String × TypeExpr}
      (hmem : element ∈ elements) (h : Undefaultable rules element.2) :
      Undefaultable rules (.tuple elements)
  | placeholder {name : String} (h : name ∈ rules.placeholders) :
      Undefaultable rules (.nominal name [])
  | neverBuilt {name : String} {arguments : List TypeExpr}
      (h : lastSegment name ∈ Default.neverBuilt) : Undefaultable rules (.nominal name arguments)
  | bare {name : String} (huntabled : ¬rules.IsTabled name)
      (h : lastSegment name ∈ structuralNames) : Undefaultable rules (.nominal name [])
  | first {name : String} {first : TypeExpr} {rest : List TypeExpr}
      (huntabled : ¬rules.IsTabled name) (h : lastSegment name ∈ structuralNames)
      (hnot : lastSegment name ≠ "Optional") (hfirst : Undefaultable rules first) :
      Undefaultable rules (.nominal name (first :: rest))

/-- What is missing where a name has to have an argument. -/
def missingArguments : List (String × NoDefault.Reason) :=
  [("Range", .noBound), ("ClosedRange", .noBound), ("Result", .noSuccess), ("Optional", .noWrapped)]

/-- A type has no default whatever its parts are, and the reason if there is more to say. -/
inductive Lacks (rules : DefaultRules) : TypeExpr → Option NoDefault.Reason → Prop
  | verbatim (text : String) : Lacks rules (.verbatim text) none
  | placeholder {name : String} (h : name ∈ rules.placeholders) :
      Lacks rules (.nominal name []) (some .placeholder)
  | neverBuilt {name : String} {arguments : List TypeExpr}
      (hnot : ¬rules.IsPlaceholder name !arguments.isEmpty)
      (h : lastSegment name ∈ Default.neverBuilt) : Lacks rules (.nominal name arguments) none
  | bare {name : String} {reason : NoDefault.Reason} (hbuilt : rules.IsBuilt name false)
      (huntabled : ¬rules.IsTabled name) (h : (lastSegment name, reason) ∈ missingArguments) :
      Lacks rules (.nominal name []) (some reason)

/-- The error that a type is due: that of the innermost of its parts that lacks a default, and in a
tuple that of the first element without one. -/
inductive Blames (rules : DefaultRules) : TypeExpr → NoDefault → Prop
  | itself {type : TypeExpr} {reason : Option NoDefault.Reason} (h : Lacks rules type reason) :
      Blames rules type { type, reason }
  | unwrapped {wrapped : TypeExpr} {error : NoDefault} (h : Blames rules wrapped error) :
      Blames rules (.unwrapped wrapped) error
  | function {parameters : List TypeExpr} {result : TypeExpr} {isAsync throws : Bool}
      {thrown : Option TypeExpr} {error : NoDefault} (h : Blames rules result error) :
      Blames rules (.function parameters result isAsync throws thrown) error
  | tuple {before after : List (Option String × TypeExpr)} {element : Option String × TypeExpr}
      {error : NoDefault} (hbefore : ∀ other ∈ before, ¬Undefaultable rules other.2)
      (h : Blames rules element.2 error) : Blames rules (.tuple (before ++ element :: after)) error
  | first {name : String} {first : TypeExpr} {rest : List TypeExpr} {error : NoDefault}
      (huntabled : ¬rules.IsTabled name) (h : lastSegment name ∈ structuralNames)
      (hnot : lastSegment name ≠ "Optional") (hfirst : Blames rules first error) :
      Blames rules (.nominal name (first :: rest)) error

variable {rules : DefaultRules} {name : String} {arguments : List TypeExpr}

/-! ### Named types -/

theorem structural_notMem_neverBuilt (h : lastSegment name ∈ structuralNames) :
    lastSegment name ∉ Default.neverBuilt := by
  simp only [structuralNames, List.mem_cons, List.not_mem_nil, or_false] at h
  rcases h with h | h | h | h <;> rw [h] <;> decide

theorem structural_of_mem_rangeOperators {operator : String}
    (h : (lastSegment name, operator) ∈ Default.rangeOperators) :
    lastSegment name ∈ structuralNames ∧ lastSegment name ≠ "Optional" := by
  simp only [Default.rangeOperators, List.mem_cons, Prod.mk.injEq, List.not_mem_nil, or_false] at h
  rcases h with ⟨h, -⟩ | ⟨h, -⟩ <;> rw [h] <;> decide

theorem mem_missingArguments_of_range {operator : String} {reason : NoDefault.Reason}
    (h : (lastSegment name, operator) ∈ Default.rangeOperators) :
    (lastSegment name, reason) ∈ missingArguments ↔ reason = .noBound := by
  simp only [Default.rangeOperators, List.mem_cons, Prod.mk.injEq, List.not_mem_nil, or_false] at h
  rcases h with ⟨h, -⟩ | ⟨h, -⟩ <;> simp [h, missingArguments]

theorem mem_missingArguments_result {reason : NoDefault.Reason} :
    ("Result", reason) ∈ missingArguments ↔ reason = .noSuccess := by
  simp [missingArguments]

theorem mem_structuralNames_of_mem_missingArguments {reason : NoDefault.Reason}
    (h : (lastSegment name, reason) ∈ missingArguments) : lastSegment name ∈ structuralNames :=
  List.mem_map_of_mem (f := Prod.fst) h

theorem undefaultable_nominal_iff (hbuilt : rules.IsBuilt name !arguments.isEmpty) :
    Undefaultable rules (.nominal name arguments) ↔
      ¬rules.IsTabled name ∧ lastSegment name ∈ structuralNames ∧
        (arguments = [] ∨ lastSegment name ≠ "Optional" ∧
          ∃ first ∈ arguments.head?, Undefaultable rules first) := by
  constructor
  · rintro (_ | _ | _ | _ | h | h | ⟨huntabled, h⟩ | ⟨huntabled, h, hnot, hfirst⟩)
    · exact absurd ⟨h, rfl⟩ hbuilt.noPlaceholder
    · exact absurd h hbuilt.notNever
    · exact ⟨huntabled, h, .inl rfl⟩
    · exact ⟨huntabled, h, .inr ⟨hnot, _, rfl, hfirst⟩⟩
  · rintro ⟨huntabled, h, rfl | ⟨hnot, first, hhead, hfirst⟩⟩
    · exact .bare huntabled h
    · obtain ⟨rest, rfl⟩ := List.head?_eq_some_iff.mp hhead
      exact .first huntabled h hnot hfirst

theorem blames_nominal_iff (hbuilt : rules.IsBuilt name !arguments.isEmpty) (error : NoDefault) :
    Blames rules (.nominal name arguments) error ↔
      ¬rules.IsTabled name ∧
        ((arguments = [] ∧ ∃ reason, (lastSegment name, reason) ∈ missingArguments ∧
            error = { type := .nominal name [], reason := some reason }) ∨
          (lastSegment name ∈ structuralNames ∧ lastSegment name ≠ "Optional" ∧
            ∃ first ∈ arguments.head?, Blames rules first error)) := by
  constructor
  · rintro (⟨_ | h | ⟨-, h⟩ | ⟨-, huntabled, h⟩⟩ | _ | _ | _ | ⟨huntabled, h, hnot, hfirst⟩)
    · exact absurd ⟨h, rfl⟩ hbuilt.noPlaceholder
    · exact absurd h hbuilt.notNever
    · exact ⟨huntabled, .inl ⟨rfl, _, h, rfl⟩⟩
    · exact ⟨huntabled, .inr ⟨h, hnot, _, rfl, hfirst⟩⟩
  · rintro ⟨huntabled, ⟨rfl, reason, h, rfl⟩ | ⟨h, hnot, first, hhead, hfirst⟩⟩
    · exact .itself (.bare hbuilt huntabled h)
    · obtain ⟨rest, rfl⟩ := List.head?_eq_some_iff.mp hhead
      exact .first huntabled h hnot hfirst

theorem blames_placeholder_iff (h : name ∈ rules.placeholders) (error : NoDefault) :
    Blames rules (.nominal name []) error ↔
      error = { type := .nominal name [], reason := some .placeholder } := by
  constructor
  · rintro ⟨_ | _ | ⟨hnot, -⟩ | ⟨hbuilt, -, -⟩⟩
    · rfl
    · exact absurd ⟨h, rfl⟩ hnot
    · exact absurd ⟨h, rfl⟩ hbuilt.noPlaceholder
  · rintro rfl
    exact .itself (.placeholder h)

theorem blames_neverBuilt_iff (hnot : ¬rules.IsPlaceholder name !arguments.isEmpty)
    (h : lastSegment name ∈ Default.neverBuilt) (error : NoDefault) :
    Blames rules (.nominal name arguments) error ↔
      error = { type := .nominal name arguments, reason := none } := by
  constructor
  · rintro (⟨_ | hplaceholder | _ | ⟨hbuilt, -, -⟩⟩ | _ | _ | _ | ⟨-, hmem, -, -⟩)
    · exact absurd ⟨hplaceholder, rfl⟩ hnot
    · rfl
    · exact absurd h hbuilt.notNever
    · exact absurd h (structural_notMem_neverBuilt hmem)
  · rintro rfl
    exact .itself (.neverBuilt hnot h)

/-! ### Failures -/

theorem orAbsent_ne_error (inference : Inference) (error : NoDefault) :
    inference.orAbsent.value ≠ .error error := by
  obtain ⟨value, delegates⟩ := inference
  cases value <;> simp [orAbsent, given]

theorem defaultOfFirst_error_iff {types : List TypeExpr} {type : TypeExpr}
    {reason : Option NoDefault.Reason} {error : NoDefault} :
    (defaultOfFirst rules types (missing type reason)).value = .error error ↔
      types = [] ∧ error = { type, reason } ∨
        ∃ first ∈ types.head?, (first.default rules).value = .error error := by
  cases types with
  | nil => simp [defaultOfFirst, missing, eq_comm]
  | cons first rest => simp [defaultOfFirst]

theorem exists_defaultOfFirst_error_iff {types : List TypeExpr} {type : TypeExpr}
    {reason : Option NoDefault.Reason} :
    (∃ error, (defaultOfFirst rules types (missing type reason)).value = .error error) ↔
      types = [] ∨ ∃ first ∈ types.head?, ∃ error, (first.default rules).value = .error error := by
  simp only [defaultOfFirst_error_iff]
  cases types <;> simp

theorem exists_split_cons_iff {α : Type} {P Q : α → Prop} {value : α} {rest : List α} :
    (∃ before found after, value :: rest = before ++ found :: after ∧
        (∀ other ∈ before, P other) ∧ Q found) ↔
      Q value ∨ P value ∧ ∃ before found after, rest = before ++ found :: after ∧
        (∀ other ∈ before, P other) ∧ Q found := by
  constructor
  · rintro ⟨_ | ⟨first, before⟩, found, after, hsplit, hbefore, h⟩
    · obtain ⟨rfl, -⟩ := List.cons.inj hsplit
      exact .inl h
    · obtain ⟨rfl, rfl⟩ := List.cons.inj hsplit
      obtain ⟨hfirst, hbefore⟩ := List.forall_mem_cons.mp hbefore
      exact .inr ⟨hfirst, before, found, after, rfl, hbefore, h⟩
  · rintro (h | ⟨hvalue, before, found, after, rfl, hbefore, h⟩)
    · exact ⟨[], value, rest, rfl, by simp, h⟩
    · exact ⟨value :: before, found, after, rfl, List.forall_mem_cons.mpr ⟨hvalue, hbefore⟩, h⟩

section Recursion

variable (rules : DefaultRules)

mutual

theorem undefaultable_iff : ∀ type : TypeExpr,
    Undefaultable rules type ↔ ∃ error, (type.default rules).value = .error error
  | .nominal name arguments => by
    have hfirst := exists_undefaultable_head_iff arguments
    have hgoverns := governs_ruleFor rules name !arguments.isEmpty
    rw [default]
    generalize rules.ruleFor name (!arguments.isEmpty) = rule at hgoverns ⊢
    cases hgoverns with
    | placeholder h => 
      obtain rfl : arguments = [] := by simpa using h.2
      simp [missing, Undefaultable.placeholder h.1]
    | neverBuilt hnot h => simp [missing, Undefaultable.neverBuilt h]
    | literal hbuilt h => simp [undefaultable_nominal_iff hbuilt, h, given]
    | zeroConstructed hbuilt h => simp [undefaultable_nominal_iff hbuilt, h, given]
    | range hbuilt hnot operator h =>
      obtain ⟨hmem, hne⟩ := structural_of_mem_rangeOperators h
      simp only [map, map_eq_error, exists_defaultOfFirst_error_iff, ← hfirst,
        undefaultable_nominal_iff hbuilt]
      simp [hnot, hmem, hne]
    | success hbuilt hnot h =>
      simp only [exists_defaultOfFirst_error_iff, ← hfirst, undefaultable_nominal_iff hbuilt]
      simp [hnot, h, structuralNames]
    | optional hbuilt hnot h =>
      rw [undefaultable_nominal_iff hbuilt]
      cases arguments with
      | nil => simp [missing, hnot, h, structuralNames]
      | cons first rest => simp [orAbsent_ne_error, h]
    | delegated hbuilt hnot h => simp [undefaultable_nominal_iff hbuilt, h]
  | .optional wrapped => by
    simp only [default, orAbsent_ne_error, exists_false, iff_false]
    exact nofun
  | .unwrapped wrapped => by
    rw [default, ← undefaultable_iff wrapped]
    exact ⟨fun | .unwrapped h => h, .unwrapped⟩
  | .array element => by simpa [default, given] using nofun
  | .dictionary key value => by simpa [default, given] using nofun
  | .tuple elements => by
    have helements := exists_undefaultable_iff elements
    simp only [default, map_eq_error]
    rw [← helements]
    exact ⟨fun | .tuple hmem h => ⟨_, hmem, h⟩, fun ⟨_, hmem, h⟩ => .tuple hmem h⟩
  | .function parameters result _ _ _ => by
    simp only [default, Inference.closure, map_eq_error]
    rw [← undefaultable_iff result]
    exact ⟨fun | .function h => h, .function⟩
  | .verbatim text => by simp [default, missing, Undefaultable.verbatim text]

theorem exists_undefaultable_head_iff : ∀ types : List TypeExpr,
    (∃ first ∈ types.head?, Undefaultable rules first) ↔
      ∃ first ∈ types.head?, ∃ error, (first.default rules).value = .error error
  | [] => by simp
  | first :: _ => by simp [undefaultable_iff first]

theorem exists_undefaultable_iff : ∀ elements : List (Option String × TypeExpr),
    (∃ element ∈ elements, Undefaultable rules element.2) ↔
      ∃ error, (defaultsOf rules elements).1 = .error error
  | [] => by simp [defaultsOf]
  | (label, type) :: rest => by
    have htype := undefaultable_iff type
    rw [List.exists_mem_cons_iff, exists_undefaultable_iff rest, htype, defaultsOf]
    cases (type.default rules).value with
    | error error => simp
    | ok value => simp [map_eq_error]

end

mutual

theorem blames_iff : ∀ (type : TypeExpr) (error : NoDefault),
    Blames rules type error ↔ (type.default rules).value = .error error
  | .nominal name arguments, error => by
    have hfirst := exists_blames_head_iff arguments error
    have hgoverns := governs_ruleFor rules name !arguments.isEmpty
    rw [default]
    generalize rules.ruleFor name (!arguments.isEmpty) = rule at hgoverns ⊢
    cases hgoverns with
    | placeholder h =>
      obtain rfl : arguments = [] := by simpa using h.2
      rw [blames_placeholder_iff h.1]
      simp [missing, eq_comm]
    | neverBuilt hnot h =>
      rw [blames_neverBuilt_iff hnot h]
      simp [missing, eq_comm]
    | literal hbuilt h => simp [blames_nominal_iff hbuilt, h, given]
    | zeroConstructed hbuilt h => simp [blames_nominal_iff hbuilt, h, given]
    | range hbuilt hnot operator h =>
      obtain ⟨hmem, hne⟩ := structural_of_mem_rangeOperators h
      simp only [map, map_eq_error, defaultOfFirst_error_iff, ← hfirst,
        blames_nominal_iff hbuilt, mem_missingArguments_of_range h]
      simp only [hnot, not_false_eq_true, true_and, exists_eq_left, hmem, ne_eq, hne]
      exact or_congr_left (and_congr_right fun hnil => by rw [hnil])
    | success hbuilt hnot h =>
      simp only [defaultOfFirst_error_iff, ← hfirst, blames_nominal_iff hbuilt]
      simp only [hnot, not_false_eq_true, true_and, h, mem_missingArguments_result, exists_eq_left,
        show "Result" ∈ structuralNames by decide, ne_eq, show "Result" ≠ "Optional" by decide]
      exact or_congr_left (and_congr_right fun hnil => by rw [hnil])
    | optional hbuilt hnot h =>
      rw [blames_nominal_iff hbuilt]
      cases arguments with
      | nil => simp [missing, hnot, h, missingArguments, eq_comm]
      | cons first rest => simp [orAbsent_ne_error, h]
    | delegated hbuilt hnot h => 
      have hmissing (reason) : (lastSegment name, reason) ∉ missingArguments :=
        fun hmem => h (mem_structuralNames_of_mem_missingArguments hmem)
      simp [blames_nominal_iff hbuilt, h, hmissing]
  | .optional wrapped, error => by
    simp only [default, orAbsent_ne_error, iff_false]
    rintro ⟨⟨⟩⟩
  | .unwrapped wrapped, error => by
    rw [default, ← blames_iff wrapped]
    exact ⟨fun | .unwrapped h => h, .unwrapped⟩
  | .array element, error => by
    simp only [default, given, reduceCtorEq, iff_false]
    rintro ⟨⟨⟩⟩
  | .dictionary key value, error => by
    simp only [default, given, reduceCtorEq, iff_false]
    rintro ⟨⟨⟩⟩
  | .tuple elements, error => by
    have helements := exists_blames_iff elements error
    simp only [default, map_eq_error]
    rw [← helements]
    constructor
    · rintro (⟨⟨⟩⟩ | _ | _ | ⟨hbefore, h⟩)
      exact ⟨_, _, _, rfl, hbefore, h⟩
    · rintro ⟨before, element, after, rfl, hbefore, h⟩
      exact .tuple hbefore h
  | .function parameters result _ _ _, error => by
    simp only [default, Inference.closure, map_eq_error]
    rw [← blames_iff result]
    exact ⟨fun | .function h => h, .function⟩
  | .verbatim text, error => by
    simp only [default, missing, Except.error.injEq]
    exact ⟨fun | .itself (.verbatim _) => rfl, fun h => h ▸ .itself (.verbatim text)⟩

theorem exists_blames_head_iff : ∀ (types : List TypeExpr) (error : NoDefault),
    (∃ first ∈ types.head?, Blames rules first error) ↔
      ∃ first ∈ types.head?, (first.default rules).value = .error error
  | [], _ => by simp
  | first :: _, error => by simp [blames_iff first]

theorem exists_blames_iff : ∀ (elements : List (Option String × TypeExpr)) (error : NoDefault),
    (∃ before element after, elements = before ++ element :: after ∧
        (∀ other ∈ before, ¬Undefaultable rules other.2) ∧ Blames rules element.2 error) ↔
      (defaultsOf rules elements).1 = .error error
  | [], _ => by simp [defaultsOf]
  | (label, type) :: rest, error => by
    have htype := blames_iff type error
    have hrest := exists_blames_iff rest error
    have hfails := undefaultable_iff rules type
    rw [exists_split_cons_iff, hrest, htype, defaultsOf]
    cases hvalue : (type.default rules).value with
    | error found =>
      have hundefaultable : Undefaultable rules type := hfails.mpr ⟨found, hvalue⟩
      simp [hundefaultable]
    | ok value =>
      have hdefaultable : ¬Undefaultable rules type := by simp [hfails, hvalue]
      simp [hdefaultable, map_eq_error]

end

end Recursion

theorem Blames.lacks {type : TypeExpr} {error : NoDefault} (h : Blames rules type error) :
    Lacks rules error.type error.reason := by
  induction h with
  | itself h => exact h
  | unwrapped _ ih => exact ih
  | function _ ih => exact ih
  | tuple _ _ ih => exact ih
  | first _ _ _ _ ih => exact ih

/-- **Which types have no default.** With any settings and generic parameters, a default is missing
exactly for the undefaultable types. The error is the one that the type is due: it tells about the
innermost part that is at fault, the leftmost of a tuple, and this part has no default of its own
accord. -/
theorem default_error_exact (settings : Settings) (placeholders : List String) (type : TypeExpr) :
    let rules := DefaultRules.ofSettings settings placeholders
    ((∃ error, (type.default rules).value = .error error) ↔ Undefaultable rules type) ∧
    ∀ error, ((type.default rules).value = .error error ↔ Blames rules type error) ∧
      ((type.default rules).value = .error error → Lacks rules error.type error.reason) := by
  intro rules
  refine ⟨(undefaultable_iff rules type).symm, fun error => ?_⟩
  have hblames := (blames_iff rules type error).symm
  exact ⟨hblames, fun h => (hblames.mp h).lacks⟩

/-- The optional of a type without values is `nil`, so of the elements the range is at fault. -/
example :
    (match ((TypeExpr.tuple [(none, .optional (.nominal "Never" [])), (none, .nominal "Range" []),
        (none, .nominal "Any" [])]).default (.ofSettings {} [])).value with
      | .ok _ => ""
      | .error error => error.message) =
    "Cannot infer a default value for type 'Range': range without a bound type" := by
  decide +kernel

end FluentBuilder.TypeExpr
