import FluentBuilder.Default.Tracking
import FluentBuilder.Proofs.Default.Undefaultable

/-!
# The names that are met

A set of names is passed along while a default is looked for. `CallsBuilder` says by the shape of a
type whose builders its default calls, and `MetBeforeFailure` what is left in the set where there is
no default: the names of the elements of tuples that were done with when an element failed. A
failure goes up through unwrapped optionals, first arguments and tuples, and takes the names with
it. A function passes a failure on too, but no names, since its result is looked for without a set.

`track_exact` says that these are the names that are added to a set, and that neither the default
nor the failure depends on the set.

Both relations are about one branch of the outcome only: a tuple calls the builders of all its
elements even if one of them has no default. `Met` puts them together, and is what goes by the
constructors (`mem_delegates_iff`).
-/

namespace FluentBuilder.TypeExpr

open Inference DefaultRules

/-! ### Whose builders are called -/

/-- The last segments of the names that pass on the default of their first argument, or that there
is none. -/
def passingNames : List String := ["Range", "ClosedRange", "Result"]

/-- The default of a type calls the builder of the type of a name, if the type has a default. -/
inductive CallsBuilder (rules : DefaultRules) : TypeExpr → String → Prop
  | itself {name : String} {arguments : List TypeExpr}
      (hbuilt : rules.IsBuilt name !arguments.isEmpty) (huntabled : ¬rules.IsTabled name)
      (h : lastSegment name ∉ structuralNames) : CallsBuilder rules (.nominal name arguments) name
  | first {name called : String} {first : TypeExpr} {rest : List TypeExpr}
      (huntabled : ¬rules.IsTabled name) (h : lastSegment name ∈ passingNames)
      (hcalls : CallsBuilder rules first called) :
      CallsBuilder rules (.nominal name (first :: rest)) called
  | named {name called : String} {first : TypeExpr} {rest : List TypeExpr}
      (huntabled : ¬rules.IsTabled name) (h : lastSegment name = "Optional")
      (hdefault : ¬Undefaultable rules first) (hcalls : CallsBuilder rules first called) :
      CallsBuilder rules (.nominal name (first :: rest)) called
  | optional {wrapped : TypeExpr} {called : String} (hdefault : ¬Undefaultable rules wrapped)
      (hcalls : CallsBuilder rules wrapped called) : CallsBuilder rules (.optional wrapped) called
  | unwrapped {wrapped : TypeExpr} {called : String} (hcalls : CallsBuilder rules wrapped called) :
      CallsBuilder rules (.unwrapped wrapped) called
  | tuple {elements : List (Option String × TypeExpr)} {element : Option String × TypeExpr}
      {called : String} (hmem : element ∈ elements) (hcalls : CallsBuilder rules element.2 called) :
      CallsBuilder rules (.tuple elements) called

/-- A type has no default, and the builder of the type of a name is called by an element of a tuple
in front of the one that fails, in the type or on the way down to what is at fault. -/
inductive MetBeforeFailure (rules : DefaultRules) : TypeExpr → String → Prop
  | earlier {before after : List (Option String × TypeExpr)}
      {element failing : Option String × TypeExpr} {called : String}
      (hbefore : ∀ other ∈ before, ¬Undefaultable rules other.2)
      (hfails : Undefaultable rules failing.2) (hmem : element ∈ before)
      (hcalls : CallsBuilder rules element.2 called) :
      MetBeforeFailure rules (.tuple (before ++ failing :: after)) called
  | within {before after : List (Option String × TypeExpr)} {failing : Option String × TypeExpr}
      {called : String} (hbefore : ∀ other ∈ before, ¬Undefaultable rules other.2)
      (hmet : MetBeforeFailure rules failing.2 called) :
      MetBeforeFailure rules (.tuple (before ++ failing :: after)) called
  | unwrapped {wrapped : TypeExpr} {called : String}
      (hmet : MetBeforeFailure rules wrapped called) :
      MetBeforeFailure rules (.unwrapped wrapped) called
  | first {name called : String} {first : TypeExpr} {rest : List TypeExpr}
      (huntabled : ¬rules.IsTabled name) (h : lastSegment name ∈ passingNames)
      (hmet : MetBeforeFailure rules first called) :
      MetBeforeFailure rules (.nominal name (first :: rest)) called

/-- The names that are met while the default of a type is looked for. -/
def Met (rules : DefaultRules) (type : TypeExpr) (called : String) : Prop :=
  MetBeforeFailure rules type called ∨ ¬Undefaultable rules type ∧ CallsBuilder rules type called

variable {rules : DefaultRules} {name called : String}

theorem structural_of_mem_passingNames (h : lastSegment name ∈ passingNames) :
    lastSegment name ∈ structuralNames ∧ lastSegment name ≠ "Optional" := by
  simp only [passingNames, List.mem_cons, List.not_mem_nil, or_false] at h
  rcases h with h | h | h <;> rw [h] <;> decide

theorem mem_passingNames_of_mem_rangeOperators {operator : String}
    (h : (lastSegment name, operator) ∈ Default.rangeOperators) :
    lastSegment name ∈ passingNames := by
  simp only [Default.rangeOperators, List.mem_cons, Prod.mk.injEq, List.not_mem_nil, or_false] at h
  rcases h with ⟨h, -⟩ | ⟨h, -⟩ <;> rw [h] <;> decide

theorem MetBeforeFailure.undefaultable {type : TypeExpr}
    (h : MetBeforeFailure rules type called) : Undefaultable rules type := by
  induction h with
  | earlier _ hfails _ _ => exact .tuple (by simp) hfails
  | within _ _ ih => exact .tuple (by simp) ih
  | unwrapped _ ih => exact .unwrapped ih
  | first huntabled h _ ih =>
    obtain ⟨hmem, hnot⟩ := structural_of_mem_passingNames h
    exact .first huntabled hmem hnot ih

theorem met_iff_of_undefaultable {type : TypeExpr} (h : Undefaultable rules type) :
    Met rules type called ↔ MetBeforeFailure rules type called := by
  simp [Met, h]

theorem met_iff_of_not_undefaultable {type : TypeExpr} (h : ¬Undefaultable rules type) :
    Met rules type called ↔ CallsBuilder rules type called := by
  have hnot : ¬MetBeforeFailure rules type called := fun hmet => h hmet.undefaultable
  simp [Met, h, hnot]

/-! ### By the constructors -/

/-- Nothing is met for a type that the relations have no case for. -/
theorem not_met (type : TypeExpr) (hbefore : ¬MetBeforeFailure rules type called)
    (hcalls : ¬CallsBuilder rules type called) : ¬Met rules type called :=
  not_or.mpr ⟨hbefore, fun h => hcalls h.2⟩

theorem met_unwrapped_iff {wrapped : TypeExpr} :
    Met rules (.unwrapped wrapped) called ↔ Met rules wrapped called := by
  constructor
  · rintro (hbefore | ⟨hdefault, hcalls⟩)
    · cases hbefore with
      | unwrapped hmet => exact .inl hmet
    · cases hcalls with
      | unwrapped hcalls => exact .inr ⟨fun hfails => hdefault (.unwrapped hfails), hcalls⟩
  · rintro (hbefore | ⟨hdefault, hcalls⟩)
    · exact .inl (.unwrapped hbefore)
    · refine .inr ⟨fun hfails => ?_, .unwrapped hcalls⟩
      cases hfails with
      | unwrapped hfails => exact hdefault hfails

theorem met_optional_iff {wrapped : TypeExpr} :
    Met rules (.optional wrapped) called ↔
      ¬Undefaultable rules wrapped ∧ CallsBuilder rules wrapped called := by
  have hdefault : ¬Undefaultable rules (.optional wrapped) := by
    intro hfails
    cases hfails
  rw [met_iff_of_not_undefaultable hdefault]
  constructor
  · intro hcalls
    cases hcalls with
    | optional hdefault hcalls => exact ⟨hdefault, hcalls⟩
  · rintro ⟨hdefault, hcalls⟩
    exact .optional hdefault hcalls

/-- A name that passes on the default of its first argument passes on what is met for it. -/
theorem met_first_iff {first : TypeExpr} {rest : List TypeExpr} (huntabled : ¬rules.IsTabled name)
    (h : lastSegment name ∈ passingNames) :
    Met rules (.nominal name (first :: rest)) called ↔ Met rules first called := by
  obtain ⟨hmem, hnot⟩ := structural_of_mem_passingNames h
  have hsame : Undefaultable rules (.nominal name (first :: rest)) ↔ Undefaultable rules first := by
    refine ⟨fun hfails => ?_, .first huntabled hmem hnot⟩
    cases hfails with
    | neverBuilt hnever => exact absurd hnever (structural_notMem_neverBuilt hmem)
    | first _ _ _ hfirst => exact hfirst
  have hbefore : MetBeforeFailure rules (.nominal name (first :: rest)) called ↔
      MetBeforeFailure rules first called := by
    refine ⟨fun hmet => ?_, .first huntabled h⟩
    cases hmet with
    | first _ _ hfirst => exact hfirst
  unfold Met
  rw [hsame]
  refine or_congr hbefore (and_congr_right fun _ => ?_)
  constructor
  · intro hcalls
    cases hcalls with
    | itself _ _ hnone => exact absurd hmem hnone
    | first _ _ hcalls => exact hcalls
    | named _ hoptional => exact absurd hoptional hnot
  · exact .first huntabled h

theorem met_named_iff {first : TypeExpr} {rest : List TypeExpr} (huntabled : ¬rules.IsTabled name)
    (h : lastSegment name = "Optional") :
    Met rules (.nominal name (first :: rest)) called ↔
      ¬Undefaultable rules first ∧ CallsBuilder rules first called := by
  have hmem : lastSegment name ∈ structuralNames := by rw [h]; decide
  have hpassing : lastSegment name ∉ passingNames := by rw [h]; decide
  have hdefault : ¬Undefaultable rules (.nominal name (first :: rest)) := by
    intro hfails
    cases hfails with
    | neverBuilt hnever => exact structural_notMem_neverBuilt hmem hnever
    | first _ _ hnot _ => exact hnot h
  rw [met_iff_of_not_undefaultable hdefault]
  constructor
  · intro hcalls
    cases hcalls with
    | itself _ _ hnone => exact absurd hmem hnone
    | first _ hpass _ => exact absurd hpass hpassing
    | named _ _ hdefault hcalls => exact ⟨hdefault, hcalls⟩
  · rintro ⟨hdefault, hcalls⟩
    exact .named huntabled h hdefault hcalls

/-- A structural name without arguments meets nothing. -/
theorem not_met_bare (h : lastSegment name ∈ structuralNames) :
    ¬Met rules (.nominal name []) called := by
  refine not_met (.nominal name []) nofun fun hcalls => ?_
  cases hcalls with
  | itself _ _ hnone => exact hnone h

theorem not_met_tabled {arguments : List TypeExpr} (h : rules.IsTabled name) :
    ¬Met rules (.nominal name arguments) called := by
  refine not_met (.nominal name arguments) (fun hbefore => ?_) fun hcalls => ?_
  · cases hbefore with
    | first huntabled => exact huntabled h
  · cases hcalls with
    | itself _ huntabled => exact huntabled h
    | first huntabled => exact huntabled h
    | named huntabled => exact huntabled h

theorem not_met_neverBuilt {arguments : List TypeExpr}
    (h : lastSegment name ∈ Default.neverBuilt) :
    ¬Met rules (.nominal name arguments) called := by
  rw [met_iff_of_undefaultable (.neverBuilt h)]
  intro hbefore
  cases hbefore with
  | first _ hpassing =>
    exact structural_notMem_neverBuilt (structural_of_mem_passingNames hpassing).1 h

theorem not_met_placeholder (h : name ∈ rules.placeholders) :
    ¬Met rules (.nominal name []) called := by
  rw [met_iff_of_undefaultable (.placeholder h)]
  exact nofun

/-- A name that is left to a builder of its own meets itself. -/
theorem met_itself_iff {arguments : List TypeExpr}
    (hbuilt : rules.IsBuilt name !arguments.isEmpty) (huntabled : ¬rules.IsTabled name)
    (h : lastSegment name ∉ structuralNames) :
    Met rules (.nominal name arguments) called ↔ called = name := by
  have hdefault : ¬Undefaultable rules (.nominal name arguments) := by
    rw [undefaultable_nominal_iff hbuilt]
    exact fun hfails => h hfails.2.1
  have hpassing : lastSegment name ∉ passingNames :=
    fun hmem => h (structural_of_mem_passingNames hmem).1
  have hoptional : lastSegment name ≠ "Optional" := by
    rintro hname
    rw [hname] at h
    exact h (by decide)
  rw [met_iff_of_not_undefaultable hdefault]
  constructor
  · rintro (_ | ⟨-, hmem, -⟩ | ⟨-, hname, -, -⟩)
    · rfl
    · exact absurd hmem hpassing
    · exact absurd hname hoptional
  · rintro rfl
    exact .itself hbuilt huntabled h

theorem exists_met_head_iff {arguments : List TypeExpr} (huntabled : ¬rules.IsTabled name)
    (h : lastSegment name ∈ passingNames) :
    (∃ first ∈ arguments.head?, Met rules first called) ↔
      Met rules (.nominal name arguments) called := by
  cases arguments with
  | nil => simpa using not_met_bare (structural_of_mem_passingNames h).1
  | cons first rest => simp [met_first_iff huntabled h]

/-- The first of the elements of a tuple that fail. -/
theorem exists_first_undefaultable {elements : List (Option String × TypeExpr)}
    (h : ∃ element ∈ elements, Undefaultable rules element.2) :
    ∃ before failing after, elements = before ++ failing :: after ∧
      (∀ other ∈ before, ¬Undefaultable rules other.2) ∧ Undefaultable rules failing.2 := by
  induction elements with
  | nil => simp at h
  | cons element rest ih =>
    rw [exists_split_cons_iff]
    by_cases hfails : Undefaultable rules element.2
    · exact .inl hfails
    · refine .inr ⟨hfails, ih ?_⟩
      simpa [hfails] using h

/-- What is met for a tuple is met for one of its elements, with all those in front of it done. -/
theorem met_tuple_iff {elements : List (Option String × TypeExpr)} :
    Met rules (.tuple elements) called ↔ ∃ before element after,
      elements = before ++ element :: after ∧
        (∀ other ∈ before, ¬Undefaultable rules other.2) ∧ Met rules element.2 called := by
  constructor
  · rintro (hbefore | ⟨hdefault, hcalls⟩)
    · cases hbefore with
      | @earlier before after element failing _ hbefore hfails hmem hcalls =>
        obtain ⟨front, back, rfl⟩ := List.append_of_mem hmem
        refine ⟨front, element, back ++ failing :: after, by simp, ?_, ?_⟩
        · exact fun other hother => hbefore other (by simp [hother])
        · exact (met_iff_of_not_undefaultable (hbefore element hmem)).mpr hcalls
      | within hbefore hmet => exact ⟨_, _, _, rfl, hbefore, .inl hmet⟩
    · cases hcalls with
      | @tuple _ element _ hmem hcalls =>
        have hdone (other) (hother : other ∈ elements) : ¬Undefaultable rules other.2 :=
          fun hfails => hdefault (.tuple hother hfails)
        obtain ⟨before, after, rfl⟩ := List.append_of_mem hmem
        exact ⟨before, element, after, rfl, fun other hother => hdone other (by simp [hother]),
          .inr ⟨hdone element hmem, hcalls⟩⟩
  · rintro ⟨before, element, after, rfl, hbefore, hmet | ⟨hdefault, hcalls⟩⟩
    · exact .inl (.within hbefore hmet)
    · by_cases hfails : ∃ other ∈ after, Undefaultable rules other.2
      · -- a later element fails, with this one done
        obtain ⟨middle, failing, back, rfl, hmiddle, hfailing⟩ := exists_first_undefaultable hfails
        refine .inl ?_
        have hdone : ∀ other ∈ before ++ element :: middle, ¬Undefaultable rules other.2 := by
          simp only [List.mem_append, List.mem_cons]
          rintro other (h | rfl | h)
          · exact hbefore other h
          · exact hdefault
          · exact hmiddle other h
        have hmet : MetBeforeFailure rules
            (.tuple (before ++ element :: middle ++ failing :: back)) called :=
          .earlier hdone hfailing (by simp) hcalls
        simpa using hmet
      · refine .inr ⟨?_, .tuple (by simp) hcalls⟩
        rintro (_ | _ | _ | ⟨hmem, hfailing⟩)
        simp only [List.mem_append, List.mem_cons] at hmem
        rcases hmem with h | rfl | h
        · exact hbefore _ h hfailing
        · exact hdefault hfailing
        · exact hfails ⟨_, h, hfailing⟩

/-! ### The delegates of a default -/

theorem mem_delegates_orAbsent_iff (inference : Inference) :
    called ∈ inference.orAbsent.delegates ↔
      (∃ expression, inference.value = .ok expression) ∧ called ∈ inference.delegates := by
  obtain ⟨value, delegates⟩ := inference
  cases value <;> simp [orAbsent, given]

theorem not_undefaultable_iff (type : TypeExpr) :
    ¬Undefaultable rules type ↔ ∃ expression, (type.default rules).value = .ok expression := by
  rw [undefaultable_iff]
  cases (type.default rules).value <;> simp

section Recursion

variable (rules)

mutual

theorem mem_delegates_iff : ∀ (type : TypeExpr) (called : String),
    called ∈ (type.default rules).delegates ↔ Met rules type called
  | .nominal name arguments, called => by
    have hfirst := mem_defaultOfFirst_iff arguments called
    have hgoverns := governs_ruleFor rules name !arguments.isEmpty
    rw [default]
    generalize rules.ruleFor name (!arguments.isEmpty) = rule at hgoverns ⊢
    cases hgoverns with
    | placeholder h =>
      obtain rfl : arguments = [] := by simpa using h.2
      simpa [missing] using not_met_placeholder h.1
    | neverBuilt hnot h => simpa [missing] using not_met_neverBuilt h
    | literal hbuilt h => simpa [given] using not_met_tabled h
    | zeroConstructed hbuilt h => simpa [given] using not_met_tabled h
    | range hbuilt hnot operator h =>
      have hpassing := mem_passingNames_of_mem_rangeOperators h
      exact (hfirst _ rfl).trans (exists_met_head_iff hnot hpassing)
    | success hbuilt hnot h =>
      have hpassing : lastSegment name ∈ passingNames := by rw [h]; decide
      exact (hfirst _ rfl).trans (exists_met_head_iff hnot hpassing)
    | optional hbuilt hnot h =>
      cases arguments with
      | nil =>
        have hmem : lastSegment name ∈ structuralNames := by rw [h]; decide
        simpa [missing] using not_met_bare hmem
      | cons first rest =>
        have hdelegates := hfirst (missing (.nominal name (first :: rest))) rfl
        simp only [List.head?_cons, Option.mem_some_iff, exists_eq_left'] at hdelegates
        simp only [List.isEmpty_cons, Bool.false_eq_true, if_false]
        rw [mem_delegates_orAbsent_iff, met_named_iff hnot h, hdelegates, defaultOfFirst,
          ← not_undefaultable_iff]
        exact and_congr_right met_iff_of_not_undefaultable
    | delegated hbuilt hnot h => simpa using (met_itself_iff hbuilt hnot h).symm
  | .optional wrapped, called => by
    rw [default, mem_delegates_orAbsent_iff, met_optional_iff, ← not_undefaultable_iff,
      mem_delegates_iff wrapped]
    exact and_congr_right met_iff_of_not_undefaultable
  | .unwrapped wrapped, called => by
    rw [default, met_unwrapped_iff, mem_delegates_iff wrapped]
  | .array element, called => by
    simpa [default, given] using not_met (.array element) nofun nofun
  | .dictionary key value, called => by
    simpa [default, given] using not_met (.dictionary key value) nofun nofun
  | .tuple elements, called => by
    rw [default, met_tuple_iff, ← mem_defaultsOf_iff elements]
  | .function parameters result _ _ _, called => by
    simpa [default, Inference.closure] using not_met (.function parameters result _ _ _) nofun nofun
  | .verbatim text, called => by
    simpa [default, missing] using not_met (.verbatim text) nofun nofun

theorem mem_defaultOfFirst_iff : ∀ (types : List TypeExpr) (called : String)
    (instead : Inference), instead.delegates = [] →
      (called ∈ (defaultOfFirst rules types instead).delegates ↔
        ∃ first ∈ types.head?, Met rules first called)
  | [], called, instead, hinstead => by simp [defaultOfFirst, hinstead]
  | first :: _, called, _, _ => by simp [defaultOfFirst, mem_delegates_iff first]

theorem mem_defaultsOf_iff : ∀ (elements : List (Option String × TypeExpr)) (called : String),
    called ∈ (defaultsOf rules elements).2 ↔ ∃ before element after,
      elements = before ++ element :: after ∧
        (∀ other ∈ before, ¬Undefaultable rules other.2) ∧ Met rules element.2 called
  | [], called => by simp [defaultsOf]
  | (label, type) :: rest, called => by
    have htype := mem_delegates_iff type called
    have hdefault : ¬Undefaultable rules type ↔ _ := not_undefaultable_iff type
    rw [exists_split_cons_iff, ← mem_defaultsOf_iff rest, ← htype, hdefault, defaultsOf]
    cases (type.default rules).value with
    | error error => simp
    | ok value => simp

end

end Recursion

/-- **What is added to the set of names.** With any settings, generic parameters and type, what is
found with a set, whatever it holds, is what is found without one, and to the set the delegates of
the default are added. If there is a default, these are the names whose builders it calls; if there
is none, they are the names that were met before the failure. -/
theorem track_exact (settings : Settings) (placeholders : List String) (type : TypeExpr) :
    let rules := DefaultRules.ofSettings settings placeholders
    let inference := type.default rules
    (∀ found : NameSet, type.track rules found =
      (inference.value, found.map (· ∪ inference.delegates.toFinset))) ∧
    (∀ expression, inference.value = .ok expression →
      ∀ called, called ∈ inference.delegates ↔ CallsBuilder rules type called) ∧
    ∀ error, inference.value = .error error →
      ∀ called, called ∈ inference.delegates ↔ MetBeforeFailure rules type called := by
  intro rules inference
  refine ⟨track_eq rules type, fun expression hok called => ?_, fun error herror called => ?_⟩
  · have hdefault : ¬Undefaultable rules type := (not_undefaultable_iff type).mpr ⟨_, hok⟩
    rw [mem_delegates_iff, met_iff_of_not_undefaultable hdefault]
  · have hfails : Undefaultable rules type := (undefaultable_iff rules type).mpr ⟨_, herror⟩
    rw [mem_delegates_iff, met_iff_of_undefaultable hfails]

/-- The optional forgets the name that its tuple met, the function looks without a set, and of the
outer tuple the first element alone is done when the third fails. -/
example :
    ((TypeExpr.tuple [(none, .nominal "User" []),
      (none, .optional (.tuple [(none, .nominal "Bank" []), (none, .nominal "Never" [])])),
      (none, .function [] (.tuple [(none, .nominal "Shop" []), (none, .nominal "Any" [])])
        false false none)]).track (.ofSettings {} []) (some {"Cat"})).2 =
    some {"Cat", "User"} := by
  decide +kernel

end FluentBuilder.TypeExpr
