import FluentBuilder.Proofs.Source.Collisions
import FluentBuilder.Proofs.Source.Properties

/-!
# A property declares one field at most

One property can declare several constants or variables, with commas between them. The reader makes
one member of each property, so of several bindings it keeps the first: `fields_bindings` says which
fields a declaration has if one of its properties has some bindings, and `second_binding_lost` shows
a constant that no builder sets.

The fields of a declaration are those of its properties one by one (`fields_eq_filterMap`). Hence it
is enough to look at one property, and there the first comma outside of brackets ends the annotation
of the first binding.
-/

namespace FluentBuilder

open Syntax Text TypeExpr

def fieldOf (settings : Settings) (source : SourceText) (path : Path) (node : Node) :
    Option Field :=
  match memberSite settings source path node with
  | .error _ => none
  | .ok (site, _) => site.member.field?

variable {settings : Settings} {source : SourceText} {path : Path}

/-! ### From the properties to the fields -/

theorem memberSites_fields {nodes : List Node} {sites : List MemberSite} {warnings : List Warning}
    (h : memberSites settings source path nodes = (.ok sites, warnings)) :
    sites.filterMap (·.member.field?) = nodes.filterMap (fieldOf settings source path) := by
  have hall := forall₂_memberSites h
  clear h
  induction hall with
  | nil => rfl
  | @cons node site _ _ hsite _ ih =>
    obtain ⟨warning, hsite⟩ := hsite
    have hfield : fieldOf settings source path node = site.member.field? := by
      simp only [fieldOf, hsite]
    rw [List.filterMap_cons, List.filterMap_cons, hfield, ih]

theorem fields_of_withMembers {node : Node} {head site : RecordSite} {warnings : List Warning}
    (hempty : head.declaration.members = [])
    (h : withMembers settings source path node head = (.ok site, warnings)) :
    site.declaration.fields = (propertiesOf node).filterMap (fieldOf settings source path) := by
  obtain ⟨hbody, rfl⟩ | ⟨body, members, hbody, hmembers, rfl⟩ := withMembers_cases h
  · simp [propertiesOf, hbody, Declaration.fields, hempty]
  · rw [propertiesOf, hbody]
    dsimp only
    rw [← memberSites_fields hmembers, Declaration.fields, List.filterMap_map]
    rfl

/-- **The fields of a declaration are those of its properties**, one by one. -/
theorem fields_eq_filterMap {place : Node.InTree} {site : RecordSite}
    (h : (recordSite settings source path place).1 = .ok (some site)) :
    site.declaration.fields =
      (propertiesOf place.node).filterMap (fieldOf settings source path) := by
  obtain ⟨head, warnings, hhead, hbody⟩ := exists_head_of_recordSite h
  obtain ⟨-, -, -, -, -, -, -, hempty, -⟩ := recordHead_cases hhead
  exact fields_of_withMembers hempty hbody

theorem exists_site_of_map {α : Type} {read : Except Unreadable (Option RecordSite)}
    {f : RecordSite → α} {value : α} (h : read.toOption.join.map f = some value) :
    ∃ site, read = .ok (some site) ∧ f site = value := by
  rcases read with _ | _ | site
  · cases h
  · cases h
  · exact ⟨site, rfl, Option.some.inj h⟩

/-! ### Bindings -/

/-- A constant or a variable that a property declares. -/
structure Binding where
  name : String
  type : TypeExpr

namespace Binding

def text (binding : Binding) : String := binding.name ++ ": " ++ binding.type.render

def field (keyword : String) (binding : Binding) : Field where
  name := binding.name
  type := binding.type
  isMutable := keyword == "var"

/-- A binding can be read: its name is a plain word and an identifier, and its type is canonical. -/
structure IsWritten (binding : Binding) : Prop where
  isPlain : IsPlain binding.name.toList
  isIdentifier : isIdentifier binding.name = true
  canonical : Canonical binding.type

end Binding

def bindingsText (keyword : String) (bindings : List Binding) : List Char :=
  (keyword ++ " " ++ ", ".intercalate (bindings.map (·.text))).toList

def furtherText (bindings : List Binding) : List Char :=
  if bindings = [] then [] else (", " ++ ", ".intercalate (bindings.map (·.text))).toList

theorem bindingsText_cons (keyword : String) (first : Binding) (more : List Binding) :
    bindingsText keyword (first :: more) =
      propertyText keyword first.name first.type (furtherText more) := by
  unfold bindingsText propertyText furtherText
  cases more with
  | nil => simp [Binding.text]
  | cons second more => simp [Binding.text, String.intercalate_cons_cons]

/-- A comma ends an annotation, and no body is behind it. -/
theorem endsAnnotation_furtherText (bindings : List Binding) :
    EndsAnnotation (furtherText bindings) ∧ computes (furtherText bindings) = false := by
  by_cases hbindings : bindings = []
  · rw [furtherText, if_pos hbindings]
    exact ⟨⟨[], [], rfl, List.forall_mem_nil _, .inl rfl⟩, rfl⟩
  · obtain ⟨rest, hcomma⟩ : ∃ rest, furtherText bindings = ',' :: rest :=
      ⟨' ' :: (", ".intercalate (bindings.map (·.text))).toList, by simp [furtherText, hbindings]⟩
    have hskipped : skipTrivia (',' :: rest) = ',' :: rest :=
      skipTrivia_cons (by decide) (by decide)
    rw [hcomma]
    refine ⟨⟨[], ',' :: rest, rfl, List.forall_mem_nil _, .inr ⟨[','], by decide, by simp⟩⟩, ?_⟩
    rw [computes, hskipped]
    rfl

/-- Of the bindings of a property the first is its field. -/
theorem fieldOf_bindingsText {node : Node} {keyword : String} {first : Binding}
    {more : List Binding} (hkeyword : keyword ∈ bindingKeywords) (hfirst : first.IsWritten)
    (htext : source.textOf node = .ok (bindingsText keyword (first :: more))) :
    fieldOf settings source path node = some (first.field keyword) := by
  rw [bindingsText_cons] at htext
  obtain ⟨htail, hstored⟩ := endsAnnotation_furtherText more
  have hsite : memberSite settings source path node = _ :=
    memberSite_propertyText hkeyword hfirst.isPlain hfirst.canonical htail htext
  simp [fieldOf, hsite, Member.field?, hstored, hfirst.isIdentifier, Binding.field]

/-- **Of the bindings of a property the first is kept**, and it is kept always: the fields of a
declaration with such a property are those of the properties before it, the first binding, and those
of the properties behind it. So all bindings of the property are fields exactly if there is a single
one. A builder of the declaration has a slot for each field, and no others. -/
theorem fields_bindings {place : Node.InTree} {site : RecordSite} {before after : List Node}
    {node : Node} {keyword : String} {first : Binding} {more : List Binding}
    (hread : (recordSite settings source path place).1 = .ok (some site))
    (hproperties : propertiesOf place.node = before ++ node :: after)
    (hkeyword : keyword ∈ bindingKeywords) (hfirst : first.IsWritten)
    (htext : source.textOf node = .ok (bindingsText keyword (first :: more))) :
    site.declaration.fields = before.filterMap (fieldOf settings source path) ++
      first.field keyword :: after.filterMap (fieldOf settings source path) ∧
    ((fieldOf settings source path node).toList = (first :: more).map (·.field keyword) ↔
      more = []) ∧
    ∀ spec, site.declaration.builder settings = .ok spec →
      spec.slots.map (fun slot => (slot.name, slot.type)) =
        site.declaration.fields.map fun field => (field.name, field.type) := by
  have hfield : fieldOf settings source path node = some (first.field keyword) :=
    fieldOf_bindingsText hkeyword hfirst htext
  refine ⟨?_, ?_, fun spec => site.declaration.map_slots_of_builder settings⟩
  · rw [fields_eq_filterMap hread, hproperties, List.filterMap_append,
      List.filterMap_cons_some hfield]
  · simp [hfield]

def pairText : String := "@AddBuilder struct A \x7b let x: Int, y: Int; var z: Int \x7d"

def pairNode : Node := structAt 0 55 [propertyAt 23 41, propertyAt 43 53, braceAt 54]

def pairBindings : List Binding := [⟨"x", .nominal "Int" []⟩, ⟨"y", .nominal "Int" []⟩]

theorem isWritten_pairBindings : ∀ binding ∈ pairBindings, binding.IsWritten := by
  have hint : Canonical (.nominal "Int" []) :=
    canonical_name (isPlain_of_all (by decide) (by decide)) (by decide) (by decide)
  have hx : Binding.IsWritten ⟨"x", .nominal "Int" []⟩ :=
    ⟨isPlain_of_all (by decide) (by decide), by decide, hint⟩
  have hy : Binding.IsWritten ⟨"y", .nominal "Int" []⟩ :=
    ⟨isPlain_of_all (by decide) (by decide), by decide, hint⟩
  exact List.forall_mem_cons.mpr ⟨hx, List.forall_mem_singleton.mpr hy⟩

theorem textOf_pair : (SourceText.ofString pairText).textOf (propertyAt 23 41) =
    .ok (bindingsText "let" pairBindings) := by
  decide +kernel

theorem properties_pairNode : propertiesOf pairNode = [propertyAt 23 41, propertyAt 43 53] := by
  rfl

theorem fields_bindings_pair :
    ∃ site, (recordSite {} (.ofString pairText) (.ofString "Source.swift") ⟨pairNode, []⟩).1 =
        .ok (some site) ∧
      site.declaration.fields.map (·.name) = ["x", "z"] := by
  have hread : ((recordSite {} (.ofString pairText) (.ofString "Source.swift")
      ⟨pairNode, []⟩).1.toOption.join.map fun _ => ()) = some () := by
    decide +kernel
  have hlast : ([propertyAt 43 53].filterMap (fieldOf {} (.ofString pairText)
      (.ofString "Source.swift"))).map (·.name) = ["z"] := by
    decide +kernel
  obtain ⟨site, hsite, -⟩ := exists_site_of_map hread
  have hproperties : propertiesOf pairNode = [] ++ propertyAt 23 41 :: [propertyAt 43 53] :=
    properties_pairNode
  obtain ⟨hfields, -, -⟩ := fields_bindings hsite hproperties (by decide)
    (isWritten_pairBindings _ List.mem_cons_self) textOf_pair
  refine ⟨site, hsite, ?_⟩
  rw [hfields, List.filterMap_nil, List.nil_append, List.map_cons, hlast]
  rfl

/-- The second constant of the first property is no field, and no builder sets it. -/
theorem second_binding_lost :
    propertyAt 23 41 ∈ propertiesOf pairNode ∧
    (SourceText.ofString pairText).textOf (propertyAt 23 41) =
      .ok (bindingsText "let" pairBindings) ∧
    (∀ binding ∈ pairBindings, binding.IsWritten) ∧ (pairBindings.map (·.name)).Nodup ∧
    ∃ site spec, (recordSite {} (.ofString pairText) (.ofString "Source.swift") ⟨pairNode, []⟩).1 =
        .ok (some site) ∧
      "y" ∉ site.declaration.fields.map (·.name) ∧
      site.declaration.builder {} = .ok spec ∧ "y" ∉ spec.slots.map (·.name) := by
  have hread : ((recordSite {} (.ofString pairText) (.ofString "Source.swift")
      ⟨pairNode, []⟩).1.toOption.join.map fun site => (site.declaration.fields.map (·.name),
        (site.declaration.builder {}).toOption.map (·.slots.map (·.name)))) =
      some (["x", "z"], some ["x", "z"]) := by
    decide +kernel
  obtain ⟨site, hsite, hnames⟩ := exists_site_of_map hread
  obtain ⟨hfields, hslots⟩ := Prod.mk.inj hnames
  cases hbuilder : site.declaration.builder {} with
  | error error => simp [hbuilder, Except.toOption] at hslots
  | ok spec =>
    have hspec : spec.slots.map (·.name) = ["x", "z"] := by
      simpa [hbuilder, Except.toOption] using hslots
    refine ⟨properties_pairNode ▸ List.mem_cons_self, textOf_pair, isWritten_pairBindings,
      by decide, site, spec, hsite, ?_, hbuilder, ?_⟩
    · rw [hfields]
      decide
    · rw [hspec]
      decide

end FluentBuilder
