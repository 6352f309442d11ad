import FluentBuilder.Proofs.Builder.Fields
import FluentBuilder.Proofs.Default.Undefaultable

/-!
# Builders that run when a builder is made

When a builder is made, the defaults of its slots are evaluated, and with the default of a type
those of some of its parts: of the elements of a tuple and of what an optional or the first argument
of a name stands for, but not of what a function gives back, nor of what a collection holds.
`EagerPart` says which parts these are.

`Yields` says by the shape of a type what its default is, word by word, and which types are built
by builders of their own when this default is evaluated. The default that is found for a type is one
that the type yields, and its delegates are the names of what is built for it (`exists_yields`).
What is built are parts of the type that are left to builders of their own
(`Yields.eagerPart_of_mem`).

So a generic parameter that stands alone never has its builder run
(`delegates_not_bare_placeholder`). A parameter with arguments does, and so does a type that is named
as a member of a parameter (`delegates_rooted_at_placeholder`): the rule for generic parameters looks
at whole names, and only at those without arguments.
-/

namespace FluentBuilder

namespace TypeExpr

open Inference DefaultRules

/-- A part of a type whose default is evaluated with that of the whole, if there is one. -/
inductive EagerPart : TypeExpr → TypeExpr → Prop
  | itself (type : TypeExpr) : EagerPart type type
  | optional {wrapped part : TypeExpr} (h : EagerPart wrapped part) :
      EagerPart (.optional wrapped) part
  | unwrapped {wrapped part : TypeExpr} (h : EagerPart wrapped part) :
      EagerPart (.unwrapped wrapped) part
  | tuple {elements : List (Option String × TypeExpr)} {element : Option String × TypeExpr}
      {part : TypeExpr} (hmem : element ∈ elements) (h : EagerPart element.2 part) :
      EagerPart (.tuple elements) part
  | first {name : String} {first part : TypeExpr} {rest : List TypeExpr}
      (h : EagerPart first part) : EagerPart (.nominal name (first :: rest)) part

/-- The first segment of a dotted name, without generic arguments. -/
def rootSegment (name : String) : String :=
  String.ofList (name.toList.takeWhile fun c => c != '.' && c != '<')

/-- A type has an expression for its default, and for its value those of some types are built by
their own builders, one after another. -/
inductive Yields (rules : DefaultRules) : TypeExpr → String → List TypeExpr → Prop
  | literal {name expression : String} {arguments : List TypeExpr}
      (h : Governs rules name (!arguments.isEmpty) (.literal expression)) :
      Yields rules (.nominal name arguments) expression []
  | zeroConstructed {name : String} {arguments : List TypeExpr}
      (h : Governs rules name (!arguments.isEmpty) .zeroConstructed) :
      Yields rules (.nominal name arguments) ((TypeExpr.nominal name arguments).render ++ "()") []
  | range {name operator bound : String} {first : TypeExpr} {rest built : List TypeExpr}
      (h : Governs rules name true (.range operator)) (hfirst : Yields rules first bound built) :
      Yields rules (.nominal name (first :: rest)) ("(" ++ bound ++ operator ++ bound ++ ")")
        (built ++ built)
  | success {name expression : String} {first : TypeExpr} {rest built : List TypeExpr}
      (h : Governs rules name true .success) (hfirst : Yields rules first expression built) :
      Yields rules (.nominal name (first :: rest)) expression built
  | named {name expression : String} {first : TypeExpr} {rest built : List TypeExpr}
      (h : Governs rules name true .optional) (hfirst : Yields rules first expression built) :
      Yields rules (.nominal name (first :: rest)) expression built
  | absentNamed {name : String} {first : TypeExpr} {rest : List TypeExpr}
      (h : Governs rules name true .optional) (hfirst : Undefaultable rules first) :
      Yields rules (.nominal name (first :: rest)) absent []
  | ownBuilder {name : String} {arguments : List TypeExpr}
      (h : Governs rules name (!arguments.isEmpty) .delegated) :
      Yields rules (.nominal name arguments)
        ((TypeExpr.nominal name arguments).render ++ "." ++ rules.builderName ++ "().build()")
        [.nominal name arguments]
  | optional {wrapped : TypeExpr} {expression : String} {built : List TypeExpr}
      (h : Yields rules wrapped expression built) : Yields rules (.optional wrapped) expression built
  | absentOptional {wrapped : TypeExpr} (h : Undefaultable rules wrapped) :
      Yields rules (.optional wrapped) absent []
  | unwrapped {wrapped : TypeExpr} {expression : String} {built : List TypeExpr}
      (h : Yields rules wrapped expression built) :
      Yields rules (.unwrapped wrapped) expression built
  | array (element : TypeExpr) :
      Yields rules (.array element) ((TypeExpr.array element).render ++ "()") []
  | dictionary (key value : TypeExpr) :
      Yields rules (.dictionary key value) ((TypeExpr.dictionary key value).render ++ "()") []
  | tuple {parts : List ((Option String × TypeExpr) × String × List TypeExpr)}
      (h : ∀ part ∈ parts, Yields rules part.1.2 part.2.1 part.2.2) :
      Yields rules (.tuple (parts.map (·.1))) ("(" ++ ", ".intercalate (parts.map (·.2.1)) ++ ")")
        (parts.flatMap (·.2.2))
  /-- What the function gives back is built when it is called. -/
  | function {parameters built : List TypeExpr} {result : TypeExpr} {isAsync throws : Bool}
      {thrown : Option TypeExpr} {body expression : String} (h : Yields rules result body built)
      (hclosure : (Inference.closure parameters { value := .ok body }).value = .ok expression) :
      Yields rules (.function parameters result isAsync throws thrown) expression []

/-- There is a type of a name among some types. -/
def HasName (types : List TypeExpr) (name : String) : Prop :=
  ∃ arguments, TypeExpr.nominal name arguments ∈ types

variable {rules : DefaultRules} {type : TypeExpr} {expression name : String}
  {first second built : List TypeExpr}

@[simp] theorem hasName_nil : ¬HasName [] name := by simp [HasName]

@[simp] theorem hasName_append :
    HasName (first ++ second) name ↔ HasName first name ∨ HasName second name := by
  simp [HasName, exists_or]

@[simp] theorem hasName_nominal {other : String} {arguments : List TypeExpr} :
    HasName [.nominal other arguments] name ↔ name = other := by
  simp [HasName]

/-- A type is left to a builder of its own. -/
def IsDelegated (rules : DefaultRules) (type : TypeExpr) : Prop :=
  ∃ name arguments, type = .nominal name arguments ∧
    Governs rules name (!arguments.isEmpty) .delegated

/-- What is built for a default are parts of the type that are left to a builder of their own. -/
theorem Yields.eagerPart_of_mem (h : Yields rules type expression built) :
    ∀ part ∈ built, EagerPart type part ∧ IsDelegated rules part := by
  induction h with
  | literal | zeroConstructed | absentNamed | absentOptional | array | dictionary | function =>
    exact nofun
  | ownBuilder h =>
    intro part hpart
    obtain rfl := List.mem_singleton.mp hpart
    exact ⟨.itself _, _, _, rfl, h⟩
  | range _ _ ih =>
    exact fun part hpart => (ih part ((List.mem_append.mp hpart).elim id id)).imp_left .first
  | success _ _ ih | named _ _ ih => exact fun part hpart => (ih part hpart).imp_left .first
  | optional _ ih => exact fun part hpart => (ih part hpart).imp_left .optional
  | unwrapped _ ih => exact fun part hpart => (ih part hpart).imp_left .unwrapped
  | tuple _ ih =>
    intro part hpart
    obtain ⟨row, hrow, hpart⟩ := List.mem_flatMap.mp hpart
    exact (ih row hrow part hpart).imp_left (.tuple (List.mem_map_of_mem hrow))

theorem exists_yields_orAbsent (type : TypeExpr) {expression : String}
    (hyields : ∀ found, (type.default rules).value = .ok found → ∃ built,
      Yields rules type found built ∧
        ∀ name, name ∈ (type.default rules).delegates ↔ HasName built name)
    (h : (type.default rules).orAbsent.value = .ok expression) :
    (∃ built, Yields rules type expression built ∧
      ∀ name, name ∈ (type.default rules).orAbsent.delegates ↔ HasName built name) ∨
    Undefaultable rules type ∧ expression = absent ∧
      (type.default rules).orAbsent.delegates = [] := by
  unfold orAbsent at h ⊢
  cases hvalue : (type.default rules).value with
  | ok found =>
    simp only [hvalue, Except.ok.injEq] at h ⊢
    exact .inl (hyields expression (h ▸ hvalue))
  | error error =>
    simp only [hvalue, given, Except.ok.injEq] at h ⊢
    exact .inr ⟨(undefaultable_iff rules type).mpr ⟨error, hvalue⟩, h.symm, trivial⟩

section Recursion

variable (rules)

mutual

/-- A default is an expression that the type yields, and its delegates are the names of what is
built for it. -/
theorem exists_yields : ∀ (type : TypeExpr) (expression : String),
    (type.default rules).value = .ok expression →
      ∃ built, Yields rules type expression built ∧
        ∀ name, name ∈ (type.default rules).delegates ↔ HasName built name
  | .nominal name arguments, expression, h => by
    have hfirst := exists_yields_first arguments
    have hgoverns := governs_ruleFor rules name !arguments.isEmpty
    rw [default] at h ⊢
    generalize rules.ruleFor name (!arguments.isEmpty) = rule at hgoverns h ⊢
    cases rule with
    | placeholder | neverBuilt => simp [missing] at h
    | literal found =>
      obtain rfl : found = expression := by simpa [given] using h
      exact ⟨[], .literal hgoverns, by simp [given]⟩
    | zeroConstructed =>
      obtain rfl : (TypeExpr.nominal name arguments).render ++ "()" = expression := by
        simpa [given] using h
      exact ⟨[], .zeroConstructed hgoverns, by simp [given]⟩
    | range operator =>
      cases arguments with
      | nil => simp [defaultOfFirst, missing, Inference.map, Except.map] at h
      | cons first rest =>
        obtain ⟨bound, hbound, rfl⟩ := map_eq_ok.mp h
        obtain ⟨built, hyields, hnames⟩ := hfirst first rfl bound hbound
        exact ⟨built ++ built, .range hgoverns hyields, fun called => by
          rw [hasName_append, or_self]
          exact hnames called⟩
    | success =>
      cases arguments with
      | nil => simp [defaultOfFirst, missing] at h
      | cons first rest =>
        obtain ⟨built, hyields, hnames⟩ := hfirst first rfl expression h
        exact ⟨built, .success hgoverns hyields, hnames⟩
    | optional =>
      cases arguments with
      | nil => simp [missing] at h
      | cons first rest =>
        simp only [List.isEmpty_cons, Bool.false_eq_true, if_false, defaultOfFirst] at h ⊢
        obtain ⟨built, hyields, hnames⟩ | ⟨hfails, rfl, hnone⟩ :=
          exists_yields_orAbsent first (hfirst first rfl) h
        · exact ⟨built, .named hgoverns hyields, hnames⟩
        · exact ⟨[], .absentNamed hgoverns hfails, by simp [hnone]⟩
    | delegated =>
      obtain rfl := Except.ok.inj h
      exact ⟨[.nominal name arguments], .ownBuilder hgoverns, by simp⟩
  | .optional wrapped, expression, h => by
    rw [default] at h ⊢
    obtain ⟨built, hyields, hnames⟩ | ⟨hfails, rfl, hnone⟩ :=
      exists_yields_orAbsent wrapped (exists_yields wrapped) h
    · exact ⟨built, .optional hyields, hnames⟩
    · exact ⟨[], .absentOptional hfails, by simp [hnone]⟩
  | .unwrapped wrapped, expression, h => by
    rw [default] at h ⊢
    obtain ⟨built, hyields, hnames⟩ := exists_yields wrapped expression h
    exact ⟨built, .unwrapped hyields, hnames⟩
  | .array element, expression, h => by
    obtain rfl : (TypeExpr.array element).render ++ "()" = expression := by
      simpa [default, given] using h
    exact ⟨[], .array element, by simp [default, given]⟩
  | .dictionary key value, expression, h => by
    obtain rfl : (TypeExpr.dictionary key value).render ++ "()" = expression := by
      simpa [default, given] using h
    exact ⟨[], .dictionary key value, by simp [default, given]⟩
  | .tuple elements, expression, h => by
    rw [default] at h ⊢
    obtain ⟨values, hvalues, rfl⟩ := map_eq_ok.mp h
    obtain ⟨parts, rfl, rfl, hparts, hnames⟩ := exists_yields_elements elements values hvalues
    exact ⟨parts.flatMap (·.2.2), .tuple hparts, hnames⟩
  | .function parameters result _ _ _, expression, h => by
    rw [default] at h ⊢
    obtain ⟨body, hbody, -⟩ := map_eq_ok.mp h
    obtain ⟨built, hyields, -⟩ := exists_yields result body hbody
    refine ⟨[], .function hyields ?_, by simp [Inference.closure]⟩
    simpa [Inference.closure, hbody] using h
  | .verbatim text, expression, h => by simp [default, missing] at h

theorem exists_yields_first : ∀ types : List TypeExpr, ∀ first ∈ types.head?,
    ∀ expression, (first.default rules).value = .ok expression →
      ∃ built, Yields rules first expression built ∧
        ∀ name, name ∈ (first.default rules).delegates ↔ HasName built name
  | [] => by simp
  | first :: _ => by simpa using exists_yields first

theorem exists_yields_elements : ∀ (elements : List (Option String × TypeExpr))
    (values : List String), (defaultsOf rules elements).1 = .ok values →
      ∃ parts : List ((Option String × TypeExpr) × String × List TypeExpr),
        parts.map (·.1) = elements ∧ parts.map (·.2.1) = values ∧
        (∀ part ∈ parts, Yields rules part.1.2 part.2.1 part.2.2) ∧
        ∀ name, name ∈ (defaultsOf rules elements).2 ↔ HasName (parts.flatMap (·.2.2)) name
  | [], values, h => by
    obtain rfl : [] = values := by simpa [defaultsOf] using h
    exact ⟨[], rfl, rfl, by simp, by simp [defaultsOf]⟩
  | (label, type) :: rest, values, h => by
    have htype := exists_yields type
    have hrest := exists_yields_elements rest
    rw [defaultsOf] at h ⊢
    cases hvalue : (type.default rules).value with
    | error error => simp [hvalue] at h
    | ok value =>
      simp only [hvalue] at h ⊢
      obtain ⟨others, hothers, rfl⟩ := map_eq_ok.mp h
      obtain ⟨built, hyields, hnames⟩ := htype value hvalue
      obtain ⟨parts, rfl, rfl, hparts, hpartNames⟩ := hrest others hothers
      refine ⟨((label, type), value, built) :: parts, rfl, rfl,
        List.forall_mem_cons.mpr ⟨hyields, hparts⟩, fun name => ?_⟩
      simp [hnames, hpartNames]

end

end Recursion

end TypeExpr

/-! ### The delegates of a builder -/

theorem builder_of_expand_eq_generated {request : Request} {settings : Settings} {text : String}
    {spec : BuilderSpec} (h : request.expand settings = .ok (.generated text spec)) :
    request.declaration.builder settings = .ok spec := by
  obtain ⟨-, hanswer⟩ | ⟨-, -, hanswer⟩ | ⟨-, -, found, hfound, hanswer⟩ := request.expand_eq_ok h
  · cases hanswer
  · cases hanswer
  · obtain ⟨-, rfl⟩ := Expansion.generated.inj hanswer
    exact hfound

theorem Declaration.mem_delegates_iff {declaration : Declaration} {settings : Settings}
    {spec : BuilderSpec} (h : declaration.builder settings = .ok spec) (name : String) :
    name ∈ spec.delegates ↔
      ∃ member ∈ declaration.storedMembers, member.Delegates (declaration.rules settings) name := by
  rw [← BuilderSpec.mem_delegates_resolve_iff fun member => declaration.isStored_of_mem,
    ← declaration.fields_eq]
  rw [declaration.builder_eq] at h
  obtain ⟨slots, -, rfl⟩ := map_eq_ok.mp h
  exact Text.mem_sortedSet

/-- The slot of a stored member, and what is built for its default. An expression that is given is
taken as it is. -/
structure Member.Builds (rules : DefaultRules) (member : Member) (slot : Slot)
    (built : List TypeExpr) : Prop where
  name : member.name = some slot.name
  type : member.type = some slot.type
  default : member.givenDefault = some slot.default ∧ built = [] ∨
    member.givenDefault = none ∧ slot.type.Yields rules slot.default built

theorem Member.Fills.exists_builds {rules : DefaultRules} {member : Member} {slot : Slot}
    (h : member.Fills rules slot) :
    ∃ built, member.Builds rules slot built ∧
      ∀ name, member.Delegates rules name ↔ TypeExpr.HasName built name := by
  obtain ⟨hname, htype, hgiven | ⟨hgiven, hvalue⟩⟩ := h
  · refine ⟨[], ⟨hname, htype, .inl ⟨hgiven, rfl⟩⟩, fun name => ?_⟩
    simp [Member.Delegates, hgiven]
  · obtain ⟨built, hyields, hnames⟩ := TypeExpr.exists_yields rules slot.type slot.default hvalue
    refine ⟨built, ⟨hname, htype, .inr ⟨hgiven, hyields⟩⟩, fun name => ?_⟩
    simp [Member.Delegates, hgiven, htype, hnames]

theorem Member.Builds.eagerPart_of_mem {rules : DefaultRules} {member : Member} {slot : Slot}
    {built : List TypeExpr} (h : member.Builds rules slot built) :
    ∀ part ∈ built, slot.type.EagerPart part ∧ TypeExpr.IsDelegated rules part := by
  obtain ⟨-, rfl⟩ | ⟨-, hyields⟩ := h.default
  · exact nofun
  · exact hyields.eagerPart_of_mem

theorem BuilderSpec.exists_rows_of_fills {rules : DefaultRules} {members : List Member}
    {slots : List Slot} (h : List.Forall₂ (Member.Fills rules) members slots) :
    ∃ rows : List (Slot × List TypeExpr), rows.map (·.1) = slots ∧
      List.Forall₂ (fun member row => member.Builds rules row.1 row.2) members rows ∧
      (∀ row ∈ rows, ∀ part ∈ row.2,
        row.1.type.EagerPart part ∧ TypeExpr.IsDelegated rules part) ∧
      ∀ name, (∃ member ∈ members, member.Delegates rules name) ↔
        ∃ row ∈ rows, TypeExpr.HasName row.2 name := by
  induction h with
  | nil => exact ⟨[], rfl, .nil, nofun, by simp⟩
  | cons hfills _ ih =>
    obtain ⟨built, hbuilds, hnames⟩ := hfills.exists_builds
    obtain ⟨rows, rfl, hrows, hparts, hrest⟩ := ih
    refine ⟨(_, built) :: rows, rfl, .cons hbuilds hrows,
      List.forall_mem_cons.mpr ⟨hbuilds.eagerPart_of_mem, hparts⟩, fun name => ?_⟩
    rw [List.exists_mem_cons_iff, List.exists_mem_cons_iff, hnames, hrest]

/-- A generic parameter that is left to a builder of its own has arguments. -/
theorem arguments_ne_nil_of_delegated {rules : DefaultRules} {name : String}
    {arguments : List TypeExpr} (h : rules.Governs name (!arguments.isEmpty) .delegated)
    (hname : name ∈ rules.placeholders) : arguments ≠ [] := by
  rintro rfl
  cases h with
  | delegated hbuilt => exact hbuilt.noPlaceholder ⟨hname, rfl⟩

/-- **No builder runs for a generic parameter that stands alone.** The default of a slot is given, or
it is an expression that the type of the slot yields. What is built for it are parts of that type
whose defaults are evaluated with it. Each is a name that is left to a builder of its own, and it has
arguments if the name is a generic parameter. So a part that is rooted at a generic parameter has
arguments, or it names a member of the parameter. The delegates of the builder are the names of these
parts, and no others. -/
theorem delegates_not_bare_placeholder {request : Request} {settings : Settings} {text : String}
    {spec : BuilderSpec} (h : request.expand settings = .ok (.generated text spec)) :
    let declaration := request.declaration
    let parameters := declaration.genericParameters
    ∃ rows : List (Slot × List TypeExpr), rows.map (·.1) = spec.slots ∧
      List.Forall₂ (fun member row => member.Builds (declaration.rules settings) row.1 row.2)
        declaration.storedMembers rows ∧
      (∀ row ∈ rows, ∀ part ∈ row.2, row.1.type.EagerPart part ∧
        ∃ name arguments, part = .nominal name arguments ∧
          (name ∈ parameters → arguments ≠ []) ∧
          (TypeExpr.rootSegment name ∈ parameters →
            arguments ≠ [] ∨ name ≠ TypeExpr.rootSegment name)) ∧
      ∀ name, name ∈ spec.delegates ↔ ∃ row ∈ rows, TypeExpr.HasName row.2 name := by
  intro declaration parameters
  have hbuilder := builder_of_expand_eq_generated h
  obtain ⟨rows, hslots, hrows, hparts, hnames⟩ :=
    BuilderSpec.exists_rows_of_fills (declaration.forall₂_fills_of_builder settings hbuilder)
  refine ⟨rows, hslots, hrows, fun row hrow part hpart => ?_, fun name =>
    (Declaration.mem_delegates_iff hbuilder name).trans (hnames name)⟩
  obtain ⟨heager, name, arguments, rfl, hgoverns⟩ := hparts row hrow part hpart
  have harguments : name ∈ parameters → arguments ≠ [] := arguments_ne_nil_of_delegated hgoverns
  refine ⟨heager, name, arguments, rfl, harguments, fun hroot => ?_⟩
  by_cases hsame : name = TypeExpr.rootSegment name
  · exact .inl (harguments (hsame ▸ hroot))
  · exact .inr hsame

/-- A struct with a generic parameter, which it holds alone in an optional, with arguments, and by
the name of a member. -/
def box : Declaration where
  name := "Box"
  genericParameters := ["T"]
  members :=
    [{ name := some "item", type := some (.optional (.nominal "T" [])) },
      { name := some "mapped", type := some (.nominal "T" [.nominal "Int" []]) },
      { name := some "first", type := some (.nominal "T.Element" []) }]

/-- The builder of the box is made, with both names among its delegates. -/
theorem expand_box : ∃ spec, Request.expand { declaration := box } {} =
      .ok (.generated (spec.render 4 "Builder") spec) ∧
    "T" ∈ spec.delegates ∧ "T.Element" ∈ spec.delegates := by
  have hsome : (box.builder {}).toOption.isSome = true := by decide +kernel
  cases hbuilder : box.builder {} with
  | error error => simp [hbuilder, Except.toOption] at hsome
  | ok spec =>
    have hexpand : Request.expand { declaration := box } {} =
        .ok (.generated (spec.render 4 "Builder") spec) := by
      rw [expand_of_struct {} rfl rfl, hbuilder]
      rfl
    have hstored : box.storedMembers = box.members :=
      List.filter_eq_self.mpr (by decide +kernel)
    refine ⟨spec, hexpand, ?_, ?_⟩
    · rw [Declaration.mem_delegates_iff hbuilder, hstored]
      exact ⟨_, List.mem_of_getElem? (i := 1) rfl, rfl, _, rfl, by decide +kernel⟩
    · rw [Declaration.mem_delegates_iff hbuilder, hstored]
      exact ⟨_, List.mem_of_getElem? (i := 2) rfl, rfl, _, rfl, by decide +kernel⟩

theorem delegates_not_bare_placeholder_box :
    ∃ spec, Request.expand { declaration := box } {} =
        .ok (.generated (spec.render 4 "Builder") spec) ∧ "T" ∈ spec.delegates ∧
      ∃ slot ∈ spec.slots, ∃ arguments,
        slot.type.EagerPart (.nominal "T" arguments) ∧ arguments ≠ [] := by
  obtain ⟨spec, hexpand, hdelegate, -⟩ := expand_box
  obtain ⟨rows, hslots, -, hparts, hnames⟩ := delegates_not_bare_placeholder hexpand
  obtain ⟨row, hrow, arguments, hpart⟩ := (hnames "T").mp hdelegate
  obtain ⟨heager, _, _, hsame, harguments, -⟩ := hparts row hrow _ hpart
  obtain ⟨rfl, rfl⟩ := TypeExpr.nominal.inj hsame
  exact ⟨spec, hexpand, hdelegate, row.1, hslots ▸ List.mem_map_of_mem hrow, arguments, heager,
    harguments (by decide)⟩

/-- A name can be rooted at a generic parameter: one with arguments is left to a builder of its
own, and so is a member of a parameter. -/
theorem delegates_rooted_at_placeholder :
    (¬∀ (request : Request) (settings : Settings) (text : String) (spec : BuilderSpec),
      request.expand settings = .ok (.generated text spec) →
        ∀ name ∈ spec.delegates,
          TypeExpr.rootSegment name ∉ request.declaration.genericParameters) ∧
    ∃ spec, Request.expand { declaration := box } {} =
        .ok (.generated (spec.render 4 "Builder") spec) ∧
      ∀ name ∈ ["T", "T.Element"],
        name ∈ spec.delegates ∧ TypeExpr.rootSegment name ∈ box.genericParameters := by
  obtain ⟨spec, hexpand, halone, hmember⟩ := expand_box
  have hroot : ∀ name ∈ ["T", "T.Element"],
      TypeExpr.rootSegment name ∈ box.genericParameters := by decide +kernel
  refine ⟨fun h => h _ _ _ _ hexpand "T" halone (hroot "T" (by simp)), spec, hexpand, ?_⟩
  simp only [List.forall_mem_cons, List.not_mem_nil, false_imp_iff, implies_true, and_true]
  exact ⟨⟨halone, hroot _ (by simp)⟩, hmember, hroot _ (by simp)⟩

end FluentBuilder
