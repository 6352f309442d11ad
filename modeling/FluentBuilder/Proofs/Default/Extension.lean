import FluentBuilder.Proofs.Default.Undefaultable
import FluentBuilder.Proofs.Source.Answers

/-!
# Longer tables lose no default

A name with an entry in a table is taken out of the reach of all rules behind the tables, wherever
it stands in a type. That can bring a default where there was none, in an optional that was `nil`
or in a tuple, but it takes none away: an entry is a default whatever the arguments of the name
are, and the two rules in front of the tables, for generic parameters and for types without
values, look into no table.

`Undefaultable.of_covers` says so of single types, by the shape of a type without a default.
`Settings.Extends.keeps_defaults` carries it to the builders of declarations.
-/

namespace FluentBuilder

open TypeExpr

/-! ### Types -/

/-- Some rules cover others: they have an entry for every name that the others have one for, and no
further generic parameters. -/
structure DefaultRules.Covers (rules base : DefaultRules) : Prop where
  tabled : ∀ name, base.IsTabled name → rules.IsTabled name
  placeholders : rules.placeholders ⊆ base.placeholders

variable {rules base : DefaultRules}

/-- What has no default by some rules has none by the rules that they cover. -/
theorem TypeExpr.Undefaultable.of_covers (hcovers : rules.Covers base) {type : TypeExpr}
    (h : Undefaultable rules type) : Undefaultable base type := by
  induction h with
  | verbatim text => exact .verbatim text
  | unwrapped _ ih => exact .unwrapped ih
  | function _ ih => exact .function ih
  | tuple hmem _ ih => exact .tuple hmem ih
  | placeholder hname => exact .placeholder (hcovers.placeholders hname)
  | neverBuilt hnever => exact .neverBuilt hnever
  | bare huntabled hname => exact .bare (mt (hcovers.tabled _) huntabled) hname
  | first huntabled hname hnot _ ih =>
    exact .first (mt (hcovers.tabled _) huntabled) hname hnot ih

theorem TypeExpr.exists_default_iff {type : TypeExpr} :
    (∃ expression, (type.default rules).value = .ok expression) ↔ ¬Undefaultable rules type := by
  rw [undefaultable_iff]
  cases (type.default rules).value <;> simp

theorem TypeExpr.exists_default_of_covers (hcovers : rules.Covers base) {type : TypeExpr}
    (h : ∃ expression, (type.default base).value = .ok expression) :
    ∃ expression, (type.default rules).value = .ok expression := by
  rw [exists_default_iff] at h ⊢
  exact mt (·.of_covers hcovers) h

theorem Member.HasDefault.of_covers (hcovers : rules.Covers base) {member : Member}
    (h : member.HasDefault base) : member.HasDefault rules := by
  rcases h with hgiven | ⟨type, expression, htype, hvalue⟩
  · exact .inl hgiven
  · obtain ⟨found, hfound⟩ := exists_default_of_covers hcovers ⟨expression, hvalue⟩
    exact .inr ⟨type, found, htype, hfound⟩

/-! ### Answers -/

/-- The names and the types of the slots of the builder in an answer, if there is one in it. -/
def Expansion.slotTypes? (expansion : Expansion) : Option (List (String × TypeExpr)) :=
  expansion.spec?.map fun spec => spec.slots.map fun slot => (slot.name, slot.type)

def Declaration.withParameters (declaration : Declaration) (parameters : List String) :
    Declaration :=
  { declaration with genericParameters := parameters }

namespace Request

def withParameters (request : Request) (parameters : List String) : Request :=
  { request with declaration := request.declaration.withParameters parameters }

/-- The builder of a struct is asked for. -/
def AsksForStruct (request : Request) : Prop :=
  request.kind = .addBuilder ∧ request.declaration.kind = "struct"

instance (request : Request) : Decidable request.AsksForStruct :=
  inferInstanceAs (Decidable (_ ∧ _))

variable {request : Request} {settings : Settings}

theorem exists_expand_iff :
    (∃ expansion, request.expand settings = .ok expansion) ↔
      (request.AsksForStruct → request.declaration.HasDefaults settings) := by
  by_cases hasks : request.AsksForStruct
  · simp only [hasks, true_imp_iff, expand_of_struct settings hasks.1 hasks.2,
      ← Declaration.exists_builder_iff]
    cases request.declaration.builder settings <;> simp [Except.map]
  · simp only [hasks, false_imp_iff, iff_true]
    cases hkind : request.kind with
    | builderDefault => simp [expand, hkind]
    | addBuilder =>
      have hstruct : request.declaration.kind ≠ "struct" := fun h => hasks ⟨hkind, h⟩
      simp [expand, hkind, hstruct]

/-- The slots of the builder in an answer are the stored fields of the declaration. -/
theorem slotTypes?_of_expand {expansion : Expansion} (h : request.expand settings = .ok expansion) :
    expansion.slotTypes? = if request.AsksForStruct then
      some (request.declaration.fields.map fun field => (field.name, field.type)) else none := by
  obtain ⟨hkind, rfl⟩ | ⟨-, hstruct, rfl⟩ | ⟨hkind, hstruct, spec, hbuilder, rfl⟩ :=
    request.expand_eq_ok h
  · rw [if_neg fun hasks => by cases hkind.symm.trans hasks.1]
    rfl
  · rw [if_neg fun hasks => hstruct hasks.2]
    rfl
  · rw [if_pos ⟨hkind, hstruct⟩, ← Declaration.map_slots_of_builder _ _ hbuilder]
    rfl

end Request

/-! ### Settings -/

/-- Some settings extend others: the names in each of the two tables of the others, those of
standard types included, are in the same table here. -/
structure Settings.Extends (settings earlier : Settings) : Prop where
  zeroConstructible : Default.zeroConstructible ++ earlier.zeroConstructible ⊆
    Default.zeroConstructible ++ settings.zeroConstructible
  literals : (earlier.literalDefaults ++ Default.literals).map (·.1) ⊆
    (settings.literalDefaults ++ Default.literals).map (·.1)

variable {settings earlier : Settings} {placeholders fewer : List String}

theorem Settings.Extends.refl (settings : Settings) : settings.Extends settings :=
  ⟨List.Subset.refl _, List.Subset.refl _⟩

theorem Settings.Extends.covers (h : settings.Extends earlier) (hfewer : fewer ⊆ placeholders) :
    (DefaultRules.ofSettings settings fewer).Covers (.ofSettings earlier placeholders) where
  tabled _ := Or.imp (fun hmem => h.literals hmem) fun hmem => h.zeroConstructible hmem
  placeholders := hfewer

theorem Declaration.HasDefaults.of_extends {declaration : Declaration}
    (hextends : settings.Extends earlier) (hfewer : fewer ⊆ declaration.genericParameters)
    (h : declaration.HasDefaults earlier) :
    (declaration.withParameters fewer).HasDefaults settings := by
  intro member hmember
  exact (h member hmember).of_covers (hextends.covers hfewer)

/-- **Longer tables and fewer generic parameters lose no default.** A type that has a default still
has one. A request that has an answer still has one, and if a builder is in it, there still is one,
with the same slots up to their defaults. -/
theorem Settings.Extends.keeps_defaults (h : settings.Extends earlier) :
    (∀ placeholders fewer : List String, fewer ⊆ placeholders → ∀ type : TypeExpr,
      (∃ expression, (type.default (.ofSettings earlier placeholders)).value = .ok expression) →
        ∃ expression, (type.default (.ofSettings settings fewer)).value = .ok expression) ∧
    ∀ (request : Request) (fewer : List String),
      fewer ⊆ request.declaration.genericParameters →
        ∀ expansion, request.expand earlier = .ok expansion →
          ∃ found, (request.withParameters fewer).expand settings = .ok found ∧
            found.slotTypes? = expansion.slotTypes? := by
  refine ⟨fun placeholders fewer hfewer type => exists_default_of_covers (h.covers hfewer), ?_⟩
  intro request fewer hfewer expansion hexpand
  have hdefaults := Request.exists_expand_iff.mp ⟨expansion, hexpand⟩
  obtain ⟨found, hfound⟩ : ∃ found, (request.withParameters fewer).expand settings = .ok found :=
    Request.exists_expand_iff.mpr fun hasks => (hdefaults hasks).of_extends h hfewer
  refine ⟨found, hfound, ?_⟩
  rw [Request.slotTypes?_of_expand hfound, Request.slotTypes?_of_expand hexpand]
  rfl

/-- Settings with an entry in each table, of which one is for a name with a rule of its own. -/
def shopSettings : Settings where
  zeroConstructible := ["Price"]
  literalDefaults := [("Result", ".empty")]

/-- A struct whose members have their defaults by other rules with longer tables, and with one
generic parameter less. -/
def shop : Declaration where
  name := "Shop"
  genericParameters := ["Item", "Clerk"]
  members :=
    [{ name := some "prices", type := some (.nominal "Range" [.nominal "Price" []]) },
      { name := some "found"
        type := some (.nominal "Result" [.nominal "Item" [.verbatim "any P"]]) },
      { name := some "clerk", type := some (.optional (.nominal "Clerk" [])) }]

theorem keeps_defaults_shop :
    shopSettings.Extends {} ∧
    (∃ expression, ((TypeExpr.optional (.nominal "Clerk" [])).default
      (.ofSettings shopSettings ["Item"])).value = .ok expression) ∧
    (∃ found, (Request.withParameters { declaration := shop } ["Item"]).expand shopSettings =
      .ok found ∧ (found.slotTypes?.map (·.map (·.1))) = some ["prices", "found", "clerk"]) ∧
    ∃ found, (Request.withParameters { declaration := shop } ["Item"]).expand {} = .ok found := by
  have hextends : shopSettings.Extends {} := ⟨by decide +kernel, by decide +kernel⟩
  have hfewer : ["Item"] ⊆ shop.genericParameters := by decide
  have hdefault : ∃ expression, ((TypeExpr.optional (.nominal "Clerk" [])).default
      (.ofSettings {} shop.genericParameters)).value = .ok expression :=
    exists_default_iff.mpr nofun
  obtain ⟨expansion, hexpansion⟩ : ∃ expansion,
      Request.expand { declaration := shop } {} = .ok expansion :=
    Request.exists_expand_iff.mpr fun _ => by unfold Declaration.HasDefaults; decide +kernel
  have hslots := Request.slotTypes?_of_expand hexpansion
  obtain ⟨htypes, hrequests⟩ := hextends.keeps_defaults
  obtain ⟨found, hfound, hsame⟩ := hrequests { declaration := shop } _ hfewer _ hexpansion
  obtain ⟨again, hagain, -⟩ :=
    (Settings.Extends.refl {}).keeps_defaults.2 { declaration := shop } _ hfewer _ hexpansion
  refine ⟨hextends, htypes _ _ hfewer _ hdefault, ⟨found, hfound, ?_⟩, again, hagain⟩
  rw [hsame, hslots]
  decide +kernel

/-- A longer table or a parameter less can still change a default. -/
example :
    let optional := TypeExpr.optional (.nominal "Clerk" [])
    (optional.default (.ofSettings {} ["Clerk"])).value.toOption = some "nil" ∧
    (optional.default (.ofSettings {} [])).value.toOption = some "Clerk.Builder().build()" := by
  decide +kernel

end FluentBuilder
