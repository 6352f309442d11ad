import FluentBuilder.Expansion
import FluentBuilder.Proofs.Outcomes
import FluentBuilder.Proofs.Text.Sorted

/-!
# A builder has a default for every field, or there is none

A request for the builder of a struct goes through four stages: the stored members are picked
out, each gets its default, the defaults become slots, and the types whose builders the defaults
call are put in order. `expand_exact` says what comes out in terms of the members alone.

The stages are tied together by one relation: a resolution `Resolves` a member if it is made of
the field that the member is and of the default of this field. The resolutions of a declaration
resolve its stored members one by one (`forall₂_resolves`), and from there the slots
(`slotsOf_eq_ok_iff`) and the failure (`slotsOf_eq_error_iff`) follow by going along the two rows.
-/

namespace FluentBuilder

/-! ### The default of a field -/

theorem Field.default_of_given {field : Field} {expression : String}
    (h : field.givenDefault = some expression) (rules : DefaultRules) :
    field.default rules = ⟨.ok expression, []⟩ := by
  unfold Field.default
  rw [h]
  rfl

theorem Field.default_of_not_given {field : Field} (h : field.givenDefault = none)
    (rules : DefaultRules) : field.default rules = field.type.default rules := by
  unfold Field.default
  rw [h]

/-! ### Stored members -/

namespace Member

/-- Whether a member is a stored field: it is neither static nor computed, has an identifier for
a name, and has a type. -/
def isStored (member : Member) : Bool :=
  !member.isStatic && !member.isComputed && member.name.any Text.isIdentifier &&
    member.type.isSome

/-- The default of a member is there: given by the source, or found for its type. -/
def HasDefault (rules : DefaultRules) (member : Member) : Prop :=
  member.givenDefault.isSome ∨
    ∃ type expression, member.type = some type ∧ (type.default rules).value = .ok expression

instance (rules : DefaultRules) : DecidablePred (HasDefault rules) := fun member =>
  decidable_of_iff (member.givenDefault.isSome ∨
      ∃ type ∈ member.type, (type.default rules).value.isOk = true) <| by
    refine or_congr_right ⟨?_, ?_⟩
    · rintro ⟨type, htype, hok⟩
      cases hvalue : (type.default rules).value with
      | error error => simp [hvalue, Except.isOk, Except.toBool] at hok
      | ok expression => exact ⟨type, expression, htype, hvalue⟩
    · rintro ⟨type, expression, htype, hvalue⟩
      exact ⟨type, htype, by simp [hvalue, Except.isOk, Except.toBool]⟩

/-- A member has no given default, and there is none for its type. -/
def LacksDefault (rules : DefaultRules) (error : NoDefault) (member : Member) : Prop :=
  member.givenDefault = none ∧
    ∃ type, member.type = some type ∧ (type.default rules).value = .error error

/-- A member has no given default, and the one for its type calls the builder of the type of a
name. -/
def Delegates (rules : DefaultRules) (name : String) (member : Member) : Prop :=
  member.givenDefault = none ∧
    ∃ type, member.type = some type ∧ name ∈ (type.default rules).delegates

/-- A slot is that of a member: it has its name, its type, and the given default or else that of
the type. -/
structure Fills (rules : DefaultRules) (member : Member) (slot : Slot) : Prop where
  name : member.name = some slot.name
  type : member.type = some slot.type
  default : member.givenDefault = some slot.default ∨
    member.givenDefault = none ∧ (slot.type.default rules).value = .ok slot.default

theorem Fills.eq_of_given {rules : DefaultRules} {member : Member} {slot found : Slot}
    (h : Fills rules member found) (hname : member.name = some slot.name)
    (htype : member.type = some slot.type) (hgiven : member.givenDefault = some slot.default) :
    found = slot := by
  obtain ⟨name, type, default⟩ := found
  have hdefault : member.givenDefault = some default := by
    rcases h.default with hsome | ⟨hnone, -⟩
    · exact hsome
    · rw [hgiven] at hnone
      cases hnone
  obtain rfl : name = slot.name := Option.some.inj (h.name.symm.trans hname)
  obtain rfl : type = slot.type := Option.some.inj (h.type.symm.trans htype)
  obtain rfl : default = slot.default := Option.some.inj (hdefault.symm.trans hgiven)
  rfl

/-- A resolution is that of a member: of the field that it is, with the default of the field. -/
def Resolves (rules : DefaultRules) (member : Member) (resolution : Resolution) : Prop :=
  member.field? = some resolution.field ∧
    resolution.value = (resolution.field.default rules).value

theorem field?_eq_some_iff {member : Member} {field : Field} :
    member.field? = some field ↔ member.isStored = true ∧ member.name = some field.name ∧
      member.type = some field.type ∧ member.givenDefault = field.givenDefault ∧
      member.isMutable = field.isMutable := by
  unfold field? isStored
  constructor
  · intro h
    split at h
    · cases h
    · next hkept =>
      split at h
      · next name type hname htype =>
        split at h
        · next hidentifier =>
          obtain rfl := Option.some.inj h
          refine ⟨?_, hname, htype, rfl, rfl⟩
          simpa [hname, htype, hidentifier] using hkept
        · cases h
      · cases h
  · rintro ⟨hstored, hname, htype, hgiven, hmutable⟩
    simp only [hname, htype, Option.any_some, Option.isSome_some, Bool.and_true, Bool.and_eq_true,
      Bool.not_eq_true'] at hstored
    obtain ⟨⟨hstatic, hcomputed⟩, hidentifier⟩ := hstored
    simp [hstatic, hcomputed, hname, htype, hidentifier, hgiven, hmutable]

theorem field?_eq_none_of_not_isStored {member : Member} (h : member.isStored = false) :
    member.field? = none := by
  cases hfield : member.field? with
  | none => rfl
  | some field => simp [(field?_eq_some_iff.1 hfield).1] at h

theorem exists_field_of_isStored {member : Member} (h : member.isStored = true) :
    ∃ field, member.field? = some field := by
  obtain ⟨⟨⟨hstatic, hcomputed⟩, hname⟩, htype⟩ := by
    simpa only [isStored, Bool.and_eq_true] using h
  obtain ⟨name, hsome, _⟩ := (Option.any_eq_true _ _).mp hname
  obtain ⟨type, htype⟩ := Option.isSome_iff_exists.mp htype
  exact ⟨⟨name, type, member.givenDefault, member.isMutable⟩,
    field?_eq_some_iff.2 ⟨h, hsome, htype, rfl, rfl⟩⟩

/-! ### What a resolution says about its member -/

variable {rules : DefaultRules} {member : Member} {resolution : Resolution}

/-- A resolution holds an expression exactly if the slot that is made of it is that of the
member. -/
theorem Resolves.fills_iff (h : Resolves rules member resolution) (slot : Slot) :
    Fills rules member slot ↔ resolution.value = .ok slot.default ∧
      slot.name = resolution.field.name ∧ slot.type = resolution.field.type := by
  obtain ⟨hfield, hvalue⟩ := h
  obtain ⟨-, hname, htype, hgiven, -⟩ := field?_eq_some_iff.1 hfield
  rw [hvalue]
  constructor
  · intro hfills
    have hslotName : slot.name = resolution.field.name :=
      Option.some.inj (hfills.name.symm.trans hname)
    have hslotType : slot.type = resolution.field.type :=
      Option.some.inj (hfills.type.symm.trans htype)
    refine ⟨?_, hslotName, hslotType⟩
    rcases hfills.default with hsome | ⟨hnone, hinferred⟩
    · rw [Field.default_of_given (hgiven.symm.trans hsome)]
    · rwa [Field.default_of_not_given (hgiven.symm.trans hnone), ← hslotType]
  · rintro ⟨hdefault, hslotName, hslotType⟩
    refine ⟨hslotName ▸ hname, hslotType ▸ htype, ?_⟩
    cases hcase : resolution.field.givenDefault with
    | some expression =>
      left
      rw [Field.default_of_given hcase] at hdefault
      rw [hgiven, hcase, Except.ok.inj hdefault]
    | none =>
      right
      rw [Field.default_of_not_given hcase, ← hslotType] at hdefault
      exact ⟨hgiven.trans hcase, hdefault⟩

theorem Resolves.lacksDefault_iff (h : Resolves rules member resolution) (error : NoDefault) :
    LacksDefault rules error member ↔ resolution.value = .error error := by
  obtain ⟨hfield, hvalue⟩ := h
  obtain ⟨-, -, htype, hgiven, -⟩ := field?_eq_some_iff.1 hfield
  rw [hvalue, LacksDefault, hgiven, htype]
  cases hcase : resolution.field.givenDefault with
  | some expression => simp [Field.default_of_given hcase]
  | none => simp [Field.default_of_not_given hcase]

theorem Resolves.hasDefault_iff (h : Resolves rules member resolution) :
    HasDefault rules member ↔ ∃ expression, resolution.value = .ok expression := by
  obtain ⟨hfield, hvalue⟩ := h
  obtain ⟨-, -, htype, hgiven, -⟩ := field?_eq_some_iff.1 hfield
  rw [hvalue, HasDefault, hgiven, htype]
  cases hcase : resolution.field.givenDefault with
  | some expression => simp [Field.default_of_given hcase]
  | none => simp [Field.default_of_not_given hcase]

theorem delegates_iff {field : Field} (h : member.field? = some field) (name : String) :
    Delegates rules name member ↔ name ∈ (field.default rules).delegates := by
  obtain ⟨-, -, htype, hgiven, -⟩ := field?_eq_some_iff.1 h
  rw [Delegates, hgiven, htype]
  cases hcase : field.givenDefault with
  | some expression => simp [Field.default_of_given hcase]
  | none => simp [Field.default_of_not_given hcase]

end Member

/-! ### From members to slots -/

namespace BuilderSpec

open Member

variable {rules : DefaultRules} {members : List Member} {resolutions : List Resolution}

theorem filterMap_field?_eq (members : List Member) :
    members.filterMap Member.field? = (members.filter isStored).filterMap Member.field? := by
  rw [List.filterMap_filter]
  congr 1
  funext member
  cases h : member.isStored with
  | true => simp
  | false => simp [field?_eq_none_of_not_isStored h]

theorem forall₂_resolves (h : ∀ member ∈ members, member.isStored = true) :
    List.Forall₂ (Resolves rules) members
      (resolve rules (members.filterMap Member.field?)).1 := by
  induction members with
  | nil => exact .nil
  | cons member rest ih =>
    obtain ⟨field, hfield⟩ := exists_field_of_isStored (h member List.mem_cons_self)
    have hrest := ih fun other hmem => h other (List.mem_cons_of_mem _ hmem)
    rw [List.filterMap_cons_some hfield]
    exact .cons ⟨hfield, rfl⟩ hrest

theorem slotsOf_cons_error {resolution : Resolution} {error : NoDefault}
    (h : resolution.value = .error error) (rest : List Resolution) :
    slotsOf (resolution :: rest) = .error error := by
  obtain ⟨field, value⟩ := resolution
  subst h
  rw [slotsOf]

theorem slotsOf_cons_ok {resolution : Resolution} {expression : String}
    (h : resolution.value = .ok expression) (rest : List Resolution) :
    slotsOf (resolution :: rest) = (slotsOf rest).map
      (⟨resolution.field.name, resolution.field.type, expression⟩ :: ·) := by
  obtain ⟨field, value⟩ := resolution
  subst h
  rw [slotsOf]

/-- Slots are made row by row. -/
theorem forall₂_of_slotsOf {slots : List Slot} (h : slotsOf resolutions = .ok slots) :
    List.Forall₂ (fun resolution slot => resolution.field.name = slot.name ∧
      resolution.field.type = slot.type ∧ resolution.value = .ok slot.default)
      resolutions slots := by
  induction resolutions generalizing slots with
  | nil =>
    obtain rfl : [] = slots := by simpa [slotsOf] using h
    exact .nil
  | cons resolution rest ih =>
    cases hvalue : resolution.value with
    | error error => simp [slotsOf_cons_error hvalue] at h
    | ok expression =>
      rw [slotsOf_cons_ok hvalue] at h
      obtain ⟨others, hrest, rfl⟩ := map_eq_ok.mp h
      exact .cons ⟨rfl, rfl, hvalue⟩ (ih hrest)

theorem map_slotsOf {slots : List Slot} (h : slotsOf resolutions = .ok slots) :
    slots.map (fun slot => (slot.name, slot.type)) =
      resolutions.map fun resolution => (resolution.field.name, resolution.field.type) := by
  have hrows := forall₂_of_slotsOf h
  clear h
  induction hrows with
  | nil => rfl
  | cons hrow _ ih => simp [hrow.1, hrow.2.1, ih]

/-- The slots of the resolutions of some members are there exactly if they are those of the
members, one by one. -/
theorem slotsOf_eq_ok_iff (h : List.Forall₂ (Resolves rules) members resolutions)
    (slots : List Slot) :
    slotsOf resolutions = .ok slots ↔ List.Forall₂ (Fills rules) members slots := by
  induction h generalizing slots with
  | nil => simp [slotsOf, eq_comm]
  | @cons member resolution members resolutions hfirst _ ih =>
    cases hvalue : resolution.value with
    | error error =>
      rw [slotsOf_cons_error hvalue]
      refine ⟨nofun, fun hfills => ?_⟩
      cases hfills with
      | cons hslot _ => simp [hfirst.fills_iff, hvalue] at hslot
    | ok expression =>
      rw [slotsOf_cons_ok hvalue]
      constructor
      · intro hok
        obtain ⟨rest, hrest, rfl⟩ := map_eq_ok.mp hok
        exact .cons ((hfirst.fills_iff _).mpr ⟨hvalue, rfl, rfl⟩) ((ih rest).mp hrest)
      · intro hfills
        cases hfills with
        | @cons _ slot _ rest hslot hrest =>
          obtain ⟨hdefault, hname, htype⟩ := (hfirst.fills_iff slot).mp hslot
          obtain rfl : expression = slot.default := by simpa [hvalue] using hdefault
          rw [(ih rest).mpr hrest, ← hname, ← htype]
          rfl

/-- The slots of the resolutions of some members are there exactly if every member has a
default. -/
theorem exists_slotsOf_iff (h : List.Forall₂ (Resolves rules) members resolutions) :
    (∃ slots, slotsOf resolutions = .ok slots) ↔ ∀ member ∈ members, member.HasDefault rules := by
  induction h with
  | nil => simp [slotsOf]
  | @cons member resolution members resolutions hfirst _ ih =>
    rw [List.forall_mem_cons, ← ih, hfirst.hasDefault_iff]
    cases hvalue : resolution.value with
    | error error => simp [slotsOf_cons_error hvalue]
    | ok expression =>
      rw [slotsOf_cons_ok hvalue]
      cases slotsOf resolutions <;> simp [Except.map]

/-- The slots of the resolutions of some members fail with the failure of the first member that
has no default. -/
theorem slotsOf_eq_error_iff (h : List.Forall₂ (Resolves rules) members resolutions)
    (error : NoDefault) :
    slotsOf resolutions = .error error ↔ ∃ before member after,
      members = before ++ member :: after ∧ (∀ other ∈ before, other.HasDefault rules) ∧
        member.LacksDefault rules error := by
  induction h with
  | nil => simp [slotsOf]
  | @cons first resolution members resolutions hfirst _ ih =>
    cases hvalue : resolution.value with
    | error found =>
      rw [slotsOf_cons_error hvalue]
      constructor
      · intro hfound
        obtain rfl : found = error := by simpa using hfound
        exact ⟨[], first, members, rfl, by simp, (hfirst.lacksDefault_iff found).mpr hvalue⟩
      · rintro ⟨before, member, after, hsplit, hbefore, hlacks⟩
        cases before with
        | nil =>
          obtain ⟨rfl, -⟩ := List.cons.inj hsplit
          have hnone := (hfirst.lacksDefault_iff error).mp hlacks
          simpa [hvalue] using hnone
        | cons other before =>
          obtain ⟨rfl, -⟩ := List.cons.inj hsplit
          obtain ⟨_, hok⟩ := hfirst.hasDefault_iff.mp (hbefore _ List.mem_cons_self)
          simp [hvalue] at hok
    | ok expression =>
      have hpass : slotsOf (resolution :: resolutions) = .error error ↔
          slotsOf resolutions = .error error := by
        rw [slotsOf_cons_ok hvalue]
        cases slotsOf resolutions <;> simp [Except.map]
      rw [hpass, ih]
      constructor
      · rintro ⟨before, member, after, rfl, hbefore, hlacks⟩
        refine ⟨first :: before, member, after, rfl, ?_, hlacks⟩
        exact List.forall_mem_cons.mpr ⟨hfirst.hasDefault_iff.mpr ⟨expression, hvalue⟩, hbefore⟩
      · rintro ⟨before, member, after, hsplit, hbefore, hlacks⟩
        cases before with
        | nil =>
          obtain ⟨rfl, -⟩ := List.cons.inj hsplit
          simp [(hfirst.lacksDefault_iff error).mp hlacks] at hvalue
        | cons other before =>
          obtain ⟨rfl, hrest⟩ := List.cons.inj hsplit
          exact ⟨before, member, after, hrest, (List.forall_mem_cons.mp hbefore).2, hlacks⟩

theorem exists_fills_of_mem {slots : List Slot} {member : Member}
    (h : List.Forall₂ (Fills rules) members slots) (hmem : member ∈ members) :
    ∃ slot ∈ slots, Fills rules member slot := by
  induction h with
  | nil => cases hmem
  | cons hslot _ ih =>
    rcases List.mem_cons.mp hmem with rfl | hmem
    · exact ⟨_, List.mem_cons_self, hslot⟩
    · obtain ⟨slot, hslots, hfills⟩ := ih hmem
      exact ⟨slot, List.mem_cons_of_mem _ hslots, hfills⟩

/-- The defaults of some members together call the builders that those of the single members
call. -/
theorem mem_delegates_resolve_iff (h : ∀ member ∈ members, member.isStored = true)
    (name : String) :
    name ∈ (resolve rules (members.filterMap Member.field?)).2 ↔
      ∃ member ∈ members, member.Delegates rules name := by
  induction members with
  | nil => simp [resolve]
  | cons member rest ih =>
    obtain ⟨field, hfield⟩ := exists_field_of_isStored (h member List.mem_cons_self)
    have hrest := ih fun other hmem => h other (List.mem_cons_of_mem _ hmem)
    rw [List.exists_mem_cons_iff, ← hrest, delegates_iff hfield, List.filterMap_cons_some hfield]
    simp only [resolve, List.map_cons, List.flatMap_cons, List.mem_append]

end BuilderSpec

/-! ### From a request to a builder -/

namespace Declaration

variable (declaration : Declaration) (settings : Settings)

/-- The stored members of a declaration, in the order of its members. -/
def storedMembers : List Member := declaration.members.filter Member.isStored

def rules : DefaultRules := .ofSettings settings declaration.genericParameters

theorem isStored_of_mem {member : Member} (h : member ∈ declaration.storedMembers) :
    member.isStored = true :=
  (List.mem_filter.mp h).2

theorem fields_eq : declaration.fields = declaration.storedMembers.filterMap Member.field? :=
  BuilderSpec.filterMap_field?_eq declaration.members

theorem builder_eq : declaration.builder settings =
    (BuilderSpec.slotsOf (BuilderSpec.resolve (declaration.rules settings)
      declaration.fields).1).map fun slots =>
        { recordName := declaration.name, slots, visibility := declaration.visibility,
          delegates := Text.sortedSet
            (BuilderSpec.resolve (declaration.rules settings) declaration.fields).2 } :=
  rfl

theorem forall₂_resolves_storedMembers :
    List.Forall₂ (Member.Resolves (declaration.rules settings)) declaration.storedMembers
      (BuilderSpec.resolve (declaration.rules settings) declaration.fields).1 := by
  rw [declaration.fields_eq]
  exact BuilderSpec.forall₂_resolves fun _ => declaration.isStored_of_mem

theorem slotsOf_of_builder {spec : BuilderSpec} (h : declaration.builder settings = .ok spec) :
    BuilderSpec.slotsOf (BuilderSpec.resolve (declaration.rules settings) declaration.fields).1 =
      .ok spec.slots := by
  rw [builder_eq] at h
  obtain ⟨slots, hslots, rfl⟩ := map_eq_ok.mp h
  exact hslots

/-- The slots of the builder of a declaration are those of its stored members, one by one. -/
theorem forall₂_fills_of_builder {spec : BuilderSpec} (h : declaration.builder settings = .ok spec) :
    List.Forall₂ (Member.Fills (declaration.rules settings)) declaration.storedMembers
      spec.slots :=
  (BuilderSpec.slotsOf_eq_ok_iff (declaration.forall₂_resolves_storedMembers settings) _).mp
    (declaration.slotsOf_of_builder settings h)

/-- The builder of a declaration has a slot for each of its fields, in their order. -/
theorem map_slots_of_builder {spec : BuilderSpec} (h : declaration.builder settings = .ok spec) :
    spec.slots.map (fun slot => (slot.name, slot.type)) =
      declaration.fields.map fun field => (field.name, field.type) := by
  rw [BuilderSpec.map_slotsOf (declaration.slotsOf_of_builder settings h)]
  simp [BuilderSpec.resolve]

end Declaration

/-- The answer to a request for the builder of a struct is made of the slots alone. -/
theorem expand_of_struct {request : Request} (settings : Settings)
    (hkind : request.kind = .addBuilder) (hstruct : request.declaration.kind = "struct") :
    request.expand settings = (request.declaration.builder settings).map fun spec =>
      .generated (spec.render settings.indentWidth settings.builderName) spec := by
  simp [Request.expand, hkind, hstruct]

/-- A request is answered by nothing, by a report that only structs have builders, or by the builder
of the declaration. -/
theorem Request.expand_eq_ok {request : Request} {settings : Settings} {expansion : Expansion}
    (h : request.expand settings = .ok expansion) :
    request.kind = .builderDefault ∧ expansion = .nothing ∨
    request.kind = .addBuilder ∧ request.declaration.kind ≠ "struct" ∧
      expansion =
        .diagnosed (.requiresStruct (request.location.or request.declaration.location)) ∨
    request.kind = .addBuilder ∧ request.declaration.kind = "struct" ∧
      ∃ spec, request.declaration.builder settings = .ok spec ∧
        expansion = .generated (spec.render settings.indentWidth settings.builderName) spec := by
  unfold Request.expand at h
  split at h
  · next hkind => exact .inl ⟨hkind, (Except.ok.inj h).symm⟩
  · next hkind =>
    split at h
    · next hstruct =>
      exact .inr (.inl ⟨hkind, by simpa using hstruct, (Except.ok.inj h).symm⟩)
    · next hstruct =>
      obtain ⟨spec, hspec, rfl⟩ := map_eq_ok.mp h
      exact .inr (.inr ⟨hkind, by simpa using hstruct, spec, hspec, rfl⟩)

/-- The answer to a request for the builder of a struct is all or nothing. There is one exactly
if every stored member has a default. It then holds one slot for each stored member, in their
order, and the names of the types whose builders the defaults call, strictly ascending. If there
is none, the failure is that of the first stored member without a default. -/
theorem expand_exact (request : Request) (settings : Settings)
    (hkind : request.kind = .addBuilder) (hstruct : request.declaration.kind = "struct") :
    let declaration := request.declaration
    let rules := declaration.rules settings
    ((∃ expansion, request.expand settings = .ok expansion) ↔
      ∀ member ∈ declaration.storedMembers, member.HasDefault rules) ∧
    (∀ expansion, request.expand settings = .ok expansion → ∃ spec,
      expansion = .generated (spec.render settings.indentWidth settings.builderName) spec ∧
      spec.recordName = declaration.name ∧ spec.visibility = declaration.visibility ∧
      List.Forall₂ (Member.Fills rules) declaration.storedMembers spec.slots ∧
      spec.delegates.Pairwise (· < ·) ∧
      ∀ name, name ∈ spec.delegates ↔
        ∃ member ∈ declaration.storedMembers, member.Delegates rules name) ∧
    ∀ error, request.expand settings = .error error ↔ ∃ before member after,
      declaration.storedMembers = before ++ member :: after ∧
        (∀ other ∈ before, other.HasDefault rules) ∧ member.LacksDefault rules error := by
  intro declaration rules
  have hstored : ∀ member ∈ declaration.storedMembers, member.isStored = true :=
    fun member => declaration.isStored_of_mem
  have hresolves : List.Forall₂ (Member.Resolves rules) declaration.storedMembers _ :=
    BuilderSpec.forall₂_resolves hstored
  have hdelegates : ∀ name, name ∈ (BuilderSpec.resolve rules _).2 ↔ _ :=
    BuilderSpec.mem_delegates_resolve_iff hstored
  rw [← declaration.fields_eq] at hresolves hdelegates
  rw [expand_of_struct settings hkind hstruct, declaration.builder_eq,
    ← BuilderSpec.exists_slotsOf_iff hresolves]
  simp only [← BuilderSpec.slotsOf_eq_error_iff hresolves]
  cases hslots : BuilderSpec.slotsOf (BuilderSpec.resolve rules declaration.fields).1 with
  | error error => simp [Except.map]
  | ok slots =>
    refine ⟨by simp [Except.map], ?_, by simp [Except.map]⟩
    intro expansion hexpansion
    have hfills := (BuilderSpec.slotsOf_eq_ok_iff hresolves slots).mp hslots
    simp only [Except.map, Except.ok.injEq] at hexpansion
    refine ⟨_, hexpansion.symm, rfl, rfl, hfills, Text.sortedSet_pairwise_lt _, fun name => ?_⟩
    rw [← hdelegates name, Text.mem_sortedSet]

/-- A struct with members of every sort: an optional of a type with a builder, a member with a
given default although its type has none, and a static, a computed and an unnamed member, which
are no fields. -/
def ledger : Declaration where
  name := "Ledger"
  visibility := some "public"
  genericParameters := ["Entry"]
  members :=
    [{ name := some "owner", type := some (.optional (.nominal "User" [])) },
      { name := some "entries", type := some (.array (.nominal "Entry" [])) },
      { name := some "shared", type := some (.nominal "Never" []), isStatic := true },
      { name := some "first", type := some (.nominal "Entry" []), givenDefault := some "zero" },
      { name := some "total", type := some (.nominal "Never" []), isComputed := true },
      { name := some "(low, high)", type := some (.nominal "Never" []) },
      { name := some "bank", type := some (.nominal "Bank" []) },
      { name := some "reviewer", type := some (.nominal "User" []) }]

theorem expand_exact_ledger :
    let rules := ledger.rules {}
    ∃ spec, Request.expand { declaration := ledger } {} =
        .ok (.generated (spec.render 4 "Builder") spec) ∧
      List.Forall₂ (Member.Fills rules) ledger.storedMembers spec.slots ∧
      ∀ name, name ∈ spec.delegates ↔
        ∃ member ∈ ledger.storedMembers, member.Delegates rules name := by
  intro rules
  obtain ⟨hexists, hspec, -⟩ := expand_exact { declaration := ledger } {} rfl rfl
  have hdefaults : ∀ member ∈ ledger.storedMembers, member.HasDefault rules := by
    decide +kernel
  obtain ⟨expansion, hexpansion⟩ := hexists.mpr hdefaults
  obtain ⟨spec, rfl, -, -, hfills, -, hdelegates⟩ := hspec expansion hexpansion
  exact ⟨spec, hexpansion, hfills, hdelegates⟩

example : (ledger.builder {}).toOption.map
      (fun spec => spec.slots.map fun slot => (slot.name, slot.default)) =
    some [("owner", "User.Builder().build()"), ("entries", "[Entry]()"), ("first", "zero"),
      ("bank", "Bank.Builder().build()"), ("reviewer", "User.Builder().build()")] := by
  decide +kernel

end FluentBuilder
