import FluentBuilder.Proofs.Builder.Reading

/-!
# What a builder stores and builds

The code of a builder is run here under lexical scoping: a name stands for the innermost thing that
has it. In a setter these are the variable, the parameter, the builder itself, and its slots; what
`build` calls is looked for among the members of the builder, then there is the builder, and only
then the types around it.

The names in the code come from the fields of a record, from the record and from the settings. They
stand next to names that every builder has: the variable `copy` of a setter, and `build`. Nothing
keeps them apart. `stores_and_builds_exact` says for which names the builder does what it is for. A
setter stores what it is given unless its slot is named `copy`, where the variable hides the
parameter, or like the builder itself. And `build` hands its slots to the initialiser of the record
unless the name of the record is hidden, be it by the builder, which may have the same name, or by a
slot.
-/

namespace FluentBuilder

/-! ### Values and scopes -/

/-- A value: one that was given, or a builder with what its slots hold. -/
inductive Object (α : Type) where
  | given (value : α)
  | builder (slots : String → Object α)

instance {α : Type} [Nonempty α] : Nonempty (Object α) := Nonempty.map .given inferInstance

/-- The names of a body with their values, the innermost first. -/
abbrev Scope (α : Type) := List (String × Object α)

inductive Callee where
  /-- A value, or a member of the builder. -/
  | member
  /-- The initialiser of the builder. -/
  | builder
  /-- What has this name outside of the builder. -/
  | outer (name : List CodeToken)
deriving Repr, DecidableEq

namespace BuilderCode

variable {α : Type}

/-- The value of a name in a body that works on a builder: the innermost with this name, and else
what the slot holds. The underscore names nothing. -/
def value? (code : BuilderCode) (slots : String → Object α) (scope : Scope α) (name : String) :
    Option (Object α) :=
  if name = "_" then none
  else
    match scope.lookup name with
    | some value => some value
    | none => if name ∈ code.slots then some (slots name) else none

/-- Runs the statements of a body. What a variable is given hides what it had. -/
def run (code : BuilderCode) (slots : String → Object α) (scope : Scope α) :
    List Statement → Option (Object α)
  | [] => none
  | .declare target name :: rest =>
    match code.value? slots scope name with
    | some value => code.run slots ((target, value) :: scope) rest
    | none => none
  | .assign target slot name :: rest =>
    match code.value? slots scope name, scope.lookup target with
    | some value, some (.builder held) =>
      if slot ∈ code.slots then
        code.run slots ((target, .builder (Function.update held slot value)) :: scope) rest
      else none
    | _, _ => none
  | .give name :: _ => code.value? slots scope name

/-- What the setter of a name makes of a builder and a value. -/
def set? (code : BuilderCode) (name : String) (slots : String → Object α) (value : Object α) :
    Option (Object α) :=
  match code.setters.find? (·.name == name) with
  | some setter =>
    code.run slots [(setter.parameter, value), ("self", .builder slots)] setter.body
  | none => none

/-- What `build` calls: its name starts with the word that is looked for. -/
def callee? (code : BuilderCode) : Option Callee :=
  match code.callee with
  | .word head :: _ =>
    if head = "_" then none
    else if head = "self" ∨ head = "build" ∨ head ∈ code.slots then some .member
    else if head = "Self" ∨ code.name = [.word head] then some .builder
    else some (.outer code.callee)
  | _ => none

/-- What `build` calls and the labelled values that it hands over. -/
def build? (code : BuilderCode) (slots : String → Object α) :
    Option (Callee × List (String × Object α)) :=
  match code.callee?, code.arguments.mapM fun (label, name) =>
      (code.value? slots [("self", .builder slots)] name).map (label, ·) with
  | some callee, some arguments => some (callee, arguments)
  | _, _ => none

end BuilderCode

/-! ### Setters -/

namespace BuilderSpec

section Setters

variable {α : Type} {code : BuilderCode} {field : String} (slots : String → Object α)
  (value : Object α)

/-- The setter of a slot stores what it is given, if its name is none of those that a setter has
for other things. -/
theorem run_setter (hfield : field ∈ code.slots) (hfree : field ∉ ["copy", "self", "_"]) :
    code.run slots [(field, value), ("self", .builder slots)] (setterCode field).body =
      some (.builder (Function.update slots field value)) := by
  obtain ⟨hcopy, hself, hblank⟩ := by simpa using hfree
  have hself : ("self" == field) = false := beq_eq_false_iff_ne.mpr (Ne.symm hself)
  have hcopy : (field == "copy") = false := beq_eq_false_iff_ne.mpr hcopy
  simp [setterCode, BuilderCode.run, BuilderCode.value?, List.lookup_cons, hfield, hblank, hcopy,
    hself]

/-- The variable of a setter hides a parameter with its name: the builder itself is stored. -/
theorem run_setter_copy (hfield : "copy" ∈ code.slots) :
    code.run slots [("copy", value), ("self", .builder slots)] (setterCode "copy").body =
      some (.builder (Function.update slots "copy" (.builder slots))) := by
  simp [setterCode, BuilderCode.run, BuilderCode.value?, List.lookup_cons, hfield]

/-- A builder that holds itself is not one that holds what was given. -/
theorem builder_ne_given (given : α) :
    Object.builder (Function.update slots field (.builder slots)) ≠
      .builder (Function.update slots field (.given given)) := by
  intro hsame
  have hheld := congrFun (Object.builder.inj hsame) field
  simp at hheld

/-- A parameter named like the builder itself hides it. -/
theorem run_setter_self (given : α) :
    code.run slots [("self", .given given), ("self", .builder slots)] (setterCode "self").body =
      none := by
  simp [setterCode, BuilderCode.run, BuilderCode.value?, List.lookup_cons]

/-- A parameter without a name cannot be stored. -/
theorem run_setter_underscore :
    code.run slots [("_", value), ("self", .builder slots)] (setterCode "_").body = none := by
  simp [setterCode, BuilderCode.run, BuilderCode.value?, List.lookup_cons]

end Setters

theorem set?_toCode {α : Type} {spec : BuilderSpec} {slot : Slot} (hslot : slot ∈ spec.slots)
    (name : String) (slots : String → Object α) (value : Object α) :
    (spec.toCode name).set? slot.name slots value =
      (spec.toCode name).run slots [(slot.name, value), ("self", .builder slots)]
        (setterCode slot.name).body := by
  have hfound : (spec.toCode name).setters.find? (·.name == slot.name) =
      some (setterCode slot.name) := by
    have hnamed : ∃ setter ∈ (spec.toCode name).setters, (setter.name == slot.name) = true :=
      ⟨setterCode slot.name, List.mem_map_of_mem (f := fun slot => setterCode slot.name) hslot,
        beq_self_eq_true _⟩
    obtain ⟨setter, hfound⟩ := Option.isSome_iff_exists.mp (List.find?_isSome.mpr hnamed)
    obtain ⟨other, -, rfl⟩ := List.mem_map.mp (List.mem_of_find?_eq_some hfound)
    have hsame : (other.name == slot.name) = true :=
      List.find?_some (p := fun setter : SetterCode => setter.name == slot.name) hfound
    rw [hfound, beq_iff_eq.mp hsame]
  rw [BuilderCode.set?, hfound]
  rfl

/-- The setter of a slot stores every value in it, and leaves the other slots as they are, exactly
if its name is none of those that a setter has for other things. -/
theorem set?_toCode_iff {α : Type} [Nonempty α] {spec : BuilderSpec} {slot : Slot}
    (hslot : slot ∈ spec.slots) (name : String) :
    (∀ (slots : String → Object α) (value : Object α),
      (spec.toCode name).set? slot.name slots value =
        some (.builder (Function.update slots slot.name value))) ↔
      slot.name ∉ ["copy", "self", "_"] := by
  have hmem : slot.name ∈ (spec.toCode name).slots := List.mem_map_of_mem hslot
  simp only [set?_toCode hslot name]
  constructor
  · intro hstores
    obtain ⟨given⟩ := ‹Nonempty α›
    have hgiven := hstores (fun _ => .given given) (.given given)
    intro hbound
    rcases (by simpa using hbound : slot.name = "copy" ∨ slot.name = "self" ∨ slot.name = "_") with
      hcopy | hself | hblank
    · rw [hcopy] at hgiven hmem
      rw [run_setter_copy _ _ hmem] at hgiven
      exact builder_ne_given _ given (Option.some.inj hgiven)
    · rw [hself, run_setter_self] at hgiven
      simp at hgiven
    · rw [hblank, run_setter_underscore] at hgiven
      simp at hgiven
  · exact fun hfree slots value => run_setter slots value hmem hfree

/-! ### The call -/

/-- Nothing in the builder hides the record: its name starts with a word, and neither a member of
the builder nor the builder is called like that. -/
def RecordInSight (spec : BuilderSpec) (name : String) : Prop :=
  ∃ head rest, CodeToken.tokens spec.recordName = .word head :: rest ∧
    head ∉ ["_", "self", "build", "Self"] ∧ (∀ slot ∈ spec.slots, slot.name ≠ head) ∧
    CodeToken.tokens name ≠ [.word head]

theorem callee?_toCode_iff (spec : BuilderSpec) (name : String) :
    (spec.toCode name).callee? = some (.outer (CodeToken.tokens spec.recordName)) ↔
      spec.RecordInSight name := by
  have hmem (head : String) : head ∈ (spec.toCode name).slots ↔
      ¬∀ slot ∈ spec.slots, slot.name ≠ head := by
    simp [toCode]
  have hcallee : (spec.toCode name).callee = CodeToken.tokens spec.recordName := rfl
  have hname : (spec.toCode name).name = CodeToken.tokens name := rfl
  rw [BuilderCode.callee?, RecordInSight, hcallee]
  split
  · next head rest htokens =>
    simp only [hmem, hname, htokens]
    constructor
    · intro houter
      refine ⟨head, rest, rfl, ?_⟩
      split_ifs at houter <;> simp_all
    · rintro ⟨other, others, hsame, hfree, hslots, hbuilder⟩
      obtain ⟨rfl, rfl⟩ : head = other ∧ rest = others := by simpa using hsame
      simp only [List.mem_cons, List.not_mem_nil, or_false, not_or] at hfree
      rw [if_neg hfree.1, if_neg, if_neg]
      · simp [hfree, hbuilder]
      · simpa [hfree] using hslots
  · next hhead =>
    simp only [reduceCtorEq, false_iff]
    rintro ⟨head, rest, htokens, -⟩
    exact hhead head rest htokens

theorem mapM_eq_some_map_iff {β γ : Type} (f : β → Option γ) (g : β → γ) (values : List β) :
    values.mapM f = some (values.map g) ↔ ∀ value ∈ values, f value = some (g value) := by
  induction values with
  | nil => simp
  | cons value rest ih =>
    rw [List.mapM_cons, List.map_cons, List.forall_mem_cons, ← ih]
    cases f value <;> cases rest.mapM f <;> simp

/-- In `build` the name of a slot stands for what the slot holds, unless it is that of the builder
itself, or none. -/
theorem value?_self_iff (α : Type) [Nonempty α] (code : BuilderCode) {field : String}
    (hfield : field ∈ code.slots) :
    (∀ slots : String → Object α,
      code.value? slots [("self", .builder slots)] field = some (slots field)) ↔
      field ∉ ["self", "_"] := by
  constructor
  · intro hheld
    obtain ⟨given⟩ := ‹Nonempty α›
    have hgiven := hheld fun _ => .given given
    intro hbound
    rcases (by simpa using hbound : field = "self" ∨ field = "_") with rfl | rfl <;>
      simp [BuilderCode.value?] at hgiven
  · intro hfree slots
    obtain ⟨hself, hblank⟩ := by simpa using hfree
    have hself : (field == "self") = false := beq_eq_false_iff_ne.mpr hself
    simp [BuilderCode.value?, List.lookup_cons, hblank, hself, hfield]

theorem build?_eq_some_iff {α : Type} {code : BuilderCode} {slots : String → Object α}
    {callee : Callee} {arguments : List (String × Object α)} :
    code.build? slots = some (callee, arguments) ↔ code.callee? = some callee ∧
      (code.arguments.mapM fun (label, name) =>
        (code.value? slots [("self", .builder slots)] name).map (label, ·)) = some arguments := by
  unfold BuilderCode.build?
  split <;> simp_all

/-- `build` calls the record with every slot behind its own name, exactly if nothing hides the
record and no slot is named like the builder itself, or not at all. -/
theorem build?_toCode_iff {α : Type} [Nonempty α] (spec : BuilderSpec) (name : String) :
    (∀ slots : String → Object α, (spec.toCode name).build? slots =
      some (.outer (CodeToken.tokens spec.recordName),
        spec.slots.map fun slot => (slot.name, slots slot.name))) ↔
      spec.RecordInSight name ∧ ∀ slot ∈ spec.slots, slot.name ∉ ["self", "_"] := by
  have harguments (slots : String → Object α) :
      (spec.slots.map fun slot => (slot.name, slots slot.name)) =
        (spec.toCode name).arguments.map fun argument => (argument.1, slots argument.2) := by
    rw [toCode, List.map_map]
    rfl
  have hvalues (slot : Slot) (hslot : slot ∈ spec.slots) :=
    value?_self_iff α (spec.toCode name) (List.mem_map_of_mem (f := (·.name)) hslot)
  simp only [build?_eq_some_iff, callee?_toCode_iff, harguments, mapM_eq_some_map_iff]
  rw [forall_and, forall_const]
  refine and_congr_right fun _ => ⟨fun hheld slot hslot => ?_, fun hfree slots argument hmem => ?_⟩
  · refine (hvalues slot hslot).mp fun slots => ?_
    simpa using hheld slots (slot.name, slot.name)
      (List.mem_map_of_mem (f := fun slot : Slot => (slot.name, slot.name)) hslot)
  · obtain ⟨slot, hslot, rfl⟩ := List.mem_map.mp hmem
    rw [(hvalues slot hslot).mpr (hfree slot hslot) slots]
    rfl

/-! ### Builders -/

/-- **What a builder stores and builds.** From the lines of a builder, whose slots have identifiers
for names, the code of a builder is read, with a setter for each slot; without line feeds in the
lines these are the lines of its text. A setter makes of every builder one that holds the given
value in its slot and the same in all others, exactly if the slot is not named `copy`, `self` or
`_`. And `build` calls the record with what the slots hold, each behind its own label and in their
order, exactly if nothing in the builder hides the record and no slot is named `self` or `_`. -/
theorem stores_and_builds_exact (α : Type) [Nonempty α] (spec : BuilderSpec) (width : Nat)
    (name : String) (hnames : ∀ slot ∈ spec.slots, Text.isIdentifier slot.name = true) :
    ∃ code, BuilderCode.ofLines? (spec.lines width name) = some code ∧
      ((∀ line ∈ spec.lines width name, '\n' ∉ line.toList) →
        BuilderCode.ofText? (spec.render width name) = some code) ∧
      code.slots = spec.slots.map (·.name) ∧
      code.setters.map (·.name) = spec.slots.map (·.name) ∧
      (∀ slot ∈ spec.slots,
        (∀ (slots : String → Object α) (value : Object α), code.set? slot.name slots value =
          some (.builder (Function.update slots slot.name value))) ↔
          slot.name ∉ ["copy", "self", "_"]) ∧
      ((∀ slots : String → Object α, code.build? slots =
        some (.outer (CodeToken.tokens spec.recordName),
          spec.slots.map fun slot => (slot.name, slots slot.name))) ↔
        spec.RecordInSight name ∧ ∀ slot ∈ spec.slots, slot.name ∉ ["self", "_"]) := by
  refine ⟨spec.toCode name, ofLines?_lines spec width name hnames,
    ofText?_render spec width name hnames, rfl, ?_, fun slot hslot => set?_toCode_iff hslot name,
    build?_toCode_iff spec name⟩
  rw [toCode, List.map_map]
  rfl

/-- A builder with two slots. -/
def personSpec : BuilderSpec where
  recordName := "Person"
  slots :=
    [{ name := "name", type := .nominal "String" [], default := "String()" },
      { name := "age", type := .nominal "Int" [], default := "Int()" }]

theorem stores_and_builds_exact_person :
    Nonempty Nat ∧ (∀ slot ∈ personSpec.slots, Text.isIdentifier slot.name = true) ∧
    ∃ code, BuilderCode.ofText? (personSpec.render 4 "Builder") = some code ∧
      (∀ (slots : String → Object Nat) (value : Object Nat), code.set? "age" slots value =
        some (.builder (Function.update slots "age" value))) ∧
      ∀ slots : String → Object Nat, code.build? slots =
        some (.outer [.word "Person"], [("name", slots "name"), ("age", slots "age")]) := by
  have hnames : ∀ slot ∈ personSpec.slots, Text.isIdentifier slot.name = true := by decide +kernel
  have hlines : ∀ line ∈ personSpec.lines 4 "Builder", '\n' ∉ line.toList := by decide +kernel
  obtain ⟨code, -, htext, -, -, hsets, hbuilds⟩ :=
    stores_and_builds_exact Nat personSpec 4 "Builder" hnames
  have hrecord : CodeToken.tokens personSpec.recordName = [.word "Person"] := by decide +kernel
  have hsight : personSpec.RecordInSight "Builder" :=
    ⟨"Person", [], hrecord, by decide, by decide, by decide +kernel⟩
  refine ⟨inferInstance, hnames, code, htext hlines, ?_, fun slots => ?_⟩
  · exact (hsets _ (List.mem_cons_of_mem _ List.mem_cons_self)).mpr (by decide)
  · rw [hbuilds.mpr ⟨hsight, by decide⟩ slots, hrecord]
    rfl

/-- A builder with a slot named like the variable of its setter. -/
def copySpec : BuilderSpec where
  recordName := "Person"
  slots := [{ name := "copy", type := .nominal "Int" [], default := "0" }]

/-- A setter for `copy` stores the builder that it works on, whatever it is given; and a builder
with the name of its record makes a builder. -/
theorem copy_not_stored :
    Text.isIdentifier "copy" = true ∧
    (∃ code, BuilderCode.ofText? (copySpec.render 4 "Builder") = some code ∧
      (∀ (slots : String → Object Nat) (value : Object Nat), code.set? "copy" slots value =
        some (.builder (Function.update slots "copy" (.builder slots)))) ∧
      ¬∀ (slots : String → Object Nat) (value : Object Nat), code.set? "copy" slots value =
        some (.builder (Function.update slots "copy" value))) ∧
    ∃ code, BuilderCode.ofText? (BuilderSpec.render { recordName := "Builder" } 4 "Builder") =
        some code ∧
      ∀ slots : String → Object Nat, code.build? slots = some (.builder, []) := by
  have hsets (slots : String → Object Nat) (value : Object Nat) :
      (copySpec.toCode "Builder").set? "copy" slots value =
        some (.builder (Function.update slots "copy" (.builder slots))) :=
    (set?_toCode (List.head_mem (by decide)) "Builder" slots value).trans
      (run_setter_copy slots value (by decide))
  refine ⟨by decide +kernel,
    ⟨_, ofText?_render _ _ _ (by decide +kernel) (by decide +kernel), hsets, fun hstores => ?_⟩,
    _, ofText?_render _ _ _ (by decide +kernel) (by decide +kernel), fun slots => ?_⟩
  · have hgiven := hstores (fun _ => .given 0) (.given 0)
    rw [hsets] at hgiven
    exact builder_ne_given _ 0 (Option.some.inj hgiven)
  · exact build?_eq_some_iff.mpr ⟨by decide +kernel, rfl⟩

end BuilderSpec

end FluentBuilder
