import FluentBuilder.Proofs.Builder.Fields
import FluentBuilder.Proofs.Source.Markers

/-!
# Every request ends in one of three ways

An answer is a builder, a refusal with one error, or nothing. `answers_settled` says which of them
a request gets, for a whole source: there is one answer for each record that asks for something, in
the order in which the records start, and what becomes of it is decided by the request, by the kind
of the declaration, by the defaults of its stored members, and by the cycles of builders that call
each other.

The answer to a request alone is decided by the first three (`RecordSite.expand_cases`). Cycles are
looked for among all builders of the source, so a builder that was made can still be taken back,
but nothing else is changed then (`RecordExpansion.rejectIn_cases`).
-/

namespace FluentBuilder

open Syntax Text

/-! ### Endings -/

inductive Ending where
  /-- With a builder. -/
  | built
  /-- With an error of a kind. -/
  | refused (kind : Diagnostic.Kind)
  /-- With nothing. -/
  | silent
deriving DecidableEq

namespace Expansion

/-- An answer ends a request with one declaration and what it is made of, with one error, or with
nothing at all. -/
def EndsAs (expansion : Expansion) : Ending → Prop
  | .built => (∃ declaration, expansion.declarations = [declaration]) ∧
      expansion.spec?.isSome ∧ expansion.diagnostics = []
  | .refused kind => expansion.declarations = [] ∧ expansion.spec? = none ∧
      ∃ report, expansion.diagnostics = [report] ∧ report.kind = kind ∧ report.severity = .error
  | .silent => expansion.declarations = [] ∧ expansion.spec? = none ∧ expansion.diagnostics = []

def ending : Expansion → Ending
  | .nothing => .silent
  | .generated _ _ => .built
  | .diagnosed report => .refused report.kind

variable {ending : Ending} {report : Diagnostic}

@[simp] theorem endsAs_nothing : EndsAs .nothing ending ↔ ending = .silent := by
  cases ending <;> simp [EndsAs, declarations, spec?, diagnostics]

@[simp] theorem endsAs_generated {declaration : String} {spec : BuilderSpec} :
    EndsAs (.generated declaration spec) ending ↔ ending = .built := by
  cases ending <;> simp [EndsAs, declarations, spec?, diagnostics]

@[simp] theorem endsAs_diagnosed (hsevere : report.severity = .error) :
    EndsAs (.diagnosed report) ending ↔ ending = .refused report.kind := by
  cases ending <;> simp [EndsAs, declarations, spec?, diagnostics, hsevere, eq_comm]

theorem endsAs_iff (expansion : Expansion)
    (hsevere : ∀ report ∈ expansion.diagnostics, report.severity = .error) (ending : Ending) :
    expansion.EndsAs ending ↔ ending = expansion.ending := by
  cases expansion with
  | nothing => exact endsAs_nothing
  | generated => exact endsAs_generated
  | diagnosed report => exact endsAs_diagnosed (hsevere report (List.mem_singleton_self report))

theorem existsUnique_endsAs (expansion : Expansion)
    (hsevere : ∀ report ∈ expansion.diagnostics, report.severity = .error) :
    ∃! ending, expansion.EndsAs ending := by
  simp only [expansion.endsAs_iff hsevere]
  exact existsUnique_eq

theorem declarations_or_diagnostics (expansion : Expansion) :
    expansion.declarations = [] ∨ expansion.diagnostics = [] := by
  cases expansion <;> simp [declarations, diagnostics]

end Expansion

/-! ### What decides -/

def Declaration.HasDefaults (declaration : Declaration) (settings : Settings) : Prop :=
  ∀ member ∈ declaration.storedMembers, member.HasDefault (declaration.rules settings)

namespace RecordSite

/-- A builder is asked for, and the declaration is a struct. -/
def AsksForStruct (site : RecordSite) : Prop :=
  site.toRequest.kind = .addBuilder ∧ site.declaration.kind = "struct"

/-- Cycles are looked for, and the builder of the record leads to itself among those that are made
for some records. -/
def LiesOnCycle (settings : Settings) (sites : List RecordSite) (site : RecordSite) : Prop :=
  settings.detectCycles = true ∧
    OnCycle (sites.map (·.expand settings)) site.declaration.name

/-- The ending that the request of a record is due, among those of some records. -/
def IsDue (settings : Settings) (sites : List RecordSite) (site : RecordSite) : Ending → Prop
  | .silent => site.toRequest.kind = .builderDefault
  | .refused .requiresStruct =>
    site.toRequest.kind = .addBuilder ∧ site.declaration.kind ≠ "struct"
  | .refused .unsupportedType => site.AsksForStruct ∧ ¬site.declaration.HasDefaults settings
  | .refused .cyclicDefault =>
    site.AsksForStruct ∧ site.declaration.HasDefaults settings ∧ site.LiesOnCycle settings sites
  | .built =>
    site.AsksForStruct ∧ site.declaration.HasDefaults settings ∧ ¬site.LiesOnCycle settings sites

end RecordSite

/-! ### The answer to one request -/

section Answer

variable {settings : Settings} {site : RecordSite}

theorem Declaration.exists_builder_iff (declaration : Declaration) :
    (∃ spec, declaration.builder settings = .ok spec) ↔ declaration.HasDefaults settings := by
  rw [Declaration.HasDefaults, declaration.builder_eq,
    ← BuilderSpec.exists_slotsOf_iff (declaration.forall₂_resolves_storedMembers settings)]
  cases BuilderSpec.slotsOf
    (BuilderSpec.resolve (declaration.rules settings) declaration.fields).1 <;> simp [Except.map]

/-- The answer to a request is decided by its kind, the kind of the declaration, and the defaults
of its stored members. -/
theorem RecordSite.expand_cases (settings : Settings) (site : RecordSite) :
    (site.toRequest.kind = .builderDefault ∧ (site.expand settings).expansion = .nothing) ∨
    (site.toRequest.kind = .addBuilder ∧ site.declaration.kind ≠ "struct" ∧
      (site.expand settings).expansion =
        .diagnosed (.requiresStruct (site.toRequest.location.or site.declaration.location))) ∨
    (site.AsksForStruct ∧ ¬site.declaration.HasDefaults settings ∧
      ∃ error, site.declaration.builder settings = .error error ∧
        (site.expand settings).expansion = .diagnosed
          (.unsupportedType site.declaration.name error (site.request.map (·.2)))) ∨
    (site.AsksForStruct ∧ site.declaration.HasDefaults settings ∧
      ∃ spec, site.declaration.builder settings = .ok spec ∧
        (site.expand settings).expansion =
          .generated (spec.render settings.indentWidth settings.builderName) spec) := by
  have hdeclaration : site.toRequest.declaration = site.declaration := rfl
  cases hkind : site.toRequest.kind with
  | builderDefault =>
    left
    refine ⟨rfl, ?_⟩
    simp only [RecordSite.expand, Request.expand, hkind]
  | addBuilder =>
    right
    by_cases hstruct : site.declaration.kind = "struct"
    · right
      have hexpand : site.toRequest.expand settings = _ := expand_of_struct settings hkind hstruct
      rw [hdeclaration] at hexpand
      have hasks : site.AsksForStruct := ⟨hkind, hstruct⟩
      cases hbuilder : site.declaration.builder settings with
      | error error =>
        left
        refine ⟨hasks, ?_, error, rfl, ?_⟩
        · rw [← Declaration.exists_builder_iff, hbuilder]
          simp
        · rw [hbuilder] at hexpand
          simp only [RecordSite.expand, hexpand, Except.map]
      | ok spec =>
        right
        refine ⟨hasks, (Declaration.exists_builder_iff _).mp ⟨spec, hbuilder⟩, spec, rfl, ?_⟩
        rw [hbuilder] at hexpand
        simp only [RecordSite.expand, hexpand, Except.map]
    · left
      refine ⟨rfl, hstruct, ?_⟩
      simp only [RecordSite.expand, Request.expand, hkind, hdeclaration, bne_iff_ne, ne_eq, hstruct,
        not_false_eq_true, if_true]

end Answer

/-! ### The answers to all requests -/

section Answers

variable {settings : Settings} {outline : Outline} {record : RecordExpansion}

theorem RecordExpansion.RejectedAsCyclic.exists_diagnosed (h : record.RejectedAsCyclic) :
    ∃ report, record.expansion = .diagnosed report ∧ report.kind = .cyclicDefault ∧
      report.severity = .error := by
  obtain ⟨-, -, report, hreport, hkind, hsevere⟩ := h
  cases hexpansion : record.expansion with
  | nothing => simp [hexpansion, Expansion.diagnostics] at hreport
  | generated => simp [hexpansion, Expansion.diagnostics] at hreport
  | diagnosed found =>
    obtain rfl : found = report := by simpa [hexpansion, Expansion.diagnostics] using hreport
    exact ⟨found, rfl, hkind, hsevere⟩

/-- An answer is the one to a request alone, unless this is a builder on a cycle: then it is a
refusal. -/
theorem exists_of_mem_answers (h : record ∈ ExpandedSource.answers settings outline) :
    ∃ site ∈ outline.requested, record.site = site ∧
      (¬((site.expand settings).expansion.spec?.isSome ∧
            site.LiesOnCycle settings outline.requested) ∧
          record.expansion = (site.expand settings).expansion ∨
        ((site.expand settings).expansion.spec?.isSome ∧
            site.LiesOnCycle settings outline.requested) ∧
          ∃ report, record.expansion = .diagnosed report ∧ report.kind = .cyclicDefault ∧
            report.severity = .error) := by
  unfold ExpandedSource.answers at h
  dsimp only at h
  split at h
  · next hdetect =>
    obtain ⟨before, hbefore, rfl⟩ := List.mem_map.mp h
    obtain ⟨site, hsite, rfl⟩ := List.mem_map.mp hbefore
    refine ⟨site, hsite, by rw [RecordExpansion.rejectIn_site, site_expand], ?_⟩
    rcases (site.expand settings).rejectIn_cases (outline.requested.map (·.expand settings)) with
      ⟨hsome, hcycle, hrejected⟩ | ⟨hoff, hsame⟩
    · rw [site_expand] at hcycle
      exact .inr ⟨⟨hsome, hdetect, hcycle⟩, hrejected.exists_diagnosed⟩
    · rw [site_expand] at hoff
      exact .inl ⟨fun hon => hoff ⟨hon.1, hon.2.2⟩, congrArg _ hsame⟩
  · next hdetect =>
    obtain ⟨site, hsite, rfl⟩ := List.mem_map.mp h
    exact ⟨site, hsite, site_expand site, .inl ⟨fun hon => hdetect hon.2.1, rfl⟩⟩

/-- All reports in the answers are errors. -/
theorem severe_of_mem_answers (h : record ∈ ExpandedSource.answers settings outline) :
    ∀ report ∈ record.expansion.diagnostics, report.severity = .error := by
  obtain ⟨site, -, -, ⟨-, hsame⟩ | ⟨-, report, hreport, -, hsevere⟩⟩ := exists_of_mem_answers h
  · rw [hsame]
    rcases site.expand_cases settings with ⟨-, hexpansion⟩ | ⟨-, -, hexpansion⟩ |
      ⟨-, -, _, -, hexpansion⟩ | ⟨-, -, _, -, hexpansion⟩ <;>
      simp [hexpansion, Expansion.diagnostics, Diagnostic.requiresStruct,
        Diagnostic.unsupportedType]
  · simp [hreport, Expansion.diagnostics, hsevere]

theorem map_site_answers (settings : Settings) (outline : Outline) :
    (ExpandedSource.answers settings outline).map (·.site) = outline.requested := by
  have hsites : ((fun record : RecordExpansion => record.site) ∘
      fun site : RecordSite => site.expand settings) = id := by
    funext site
    exact site_expand site
  have hexpanded : (outline.requested.map (·.expand settings)).map (·.site) =
      outline.requested := by
    rw [List.map_map, hsites, List.map_id]
  unfold ExpandedSource.answers
  dsimp only
  split
  · rw [rejectCycles, List.map_map]
    have hkept : ((fun record : RecordExpansion => record.site) ∘ fun record : RecordExpansion =>
        record.rejectIn (delegationGraph
          (outline.requested.map (·.expand settings))).recordsInCycles) = (·.site) := by
      funext record
      exact record.rejectIn_site _
    rw [hkept, hexpanded]
  · exact hexpanded

end Answers

/-! ### The order of records -/

theorem Location.le_iff (a b : Location) :
    a.le b = true ↔ a.line < b.line ∨ a.line = b.line ∧ a.column ≤ b.column := by
  simp [Location.le]

/-- The records of an outline are those of its nodes, in the order in which they start. -/
theorem records_ofTree (settings : Settings) (source : SourceText) (path : Path) (root : Node) :
    let outline := Outline.ofTree settings source path root
    outline.records.Perm (Outline.recordsOf settings source path
      (root.walk.filter fun place => typeNodes.contains place.node.kind)).1 ∧
    outline.records.Pairwise fun a b => a.location.le b.location = true := by
  refine ⟨List.mergeSort_perm _ _, List.pairwise_mergeSort ?_ ?_ _⟩
  · intro a b c hab hbc
    rw [Location.le_iff] at *
    omega
  · intro a b
    rw [Bool.or_eq_true, Location.le_iff, Location.le_iff]
    omega

/-! ### All answers -/

/-- Every answer is the one ending that its request is due. -/
theorem endsAs_iff_isDue {settings : Settings} {outline : Outline} {record : RecordExpansion}
    (h : record ∈ ExpandedSource.answers settings outline) (ending : Ending) :
    record.expansion.EndsAs ending ↔
      record.site.IsDue settings outline.requested ending := by
  obtain ⟨site, -, hsite, hend⟩ := exists_of_mem_answers h
  rw [hsite]
  clear hsite
  rcases site.expand_cases settings with ⟨hkind, hexpansion⟩ | ⟨hkind, hstruct, hexpansion⟩ |
    ⟨hasks, hlacks, error, -, hexpansion⟩ | ⟨hasks, hdefaults, spec, -, hexpansion⟩
  all_goals rw [hexpansion] at hend
  · rcases hend with ⟨-, hend⟩ | ⟨⟨hsome, -⟩, -⟩
    · rw [hend, Expansion.endsAs_nothing]
      rcases ending with _ | kind | _
      · simp [RecordSite.IsDue, RecordSite.AsksForStruct, hkind]
      · cases kind <;> simp [RecordSite.IsDue, RecordSite.AsksForStruct, hkind]
      · simp [RecordSite.IsDue, hkind]
    · simp [Expansion.spec?] at hsome
  · rcases hend with ⟨-, hend⟩ | ⟨⟨hsome, -⟩, -⟩
    · rw [hend, Expansion.endsAs_diagnosed rfl]
      rcases ending with _ | kind | _
      · simp [RecordSite.IsDue, RecordSite.AsksForStruct, hkind, hstruct]
      · cases kind <;>
          simp [RecordSite.IsDue, RecordSite.AsksForStruct, hkind, hstruct, Diagnostic.requiresStruct]
      · simp [RecordSite.IsDue, hkind]
    · simp [Expansion.spec?] at hsome
  · obtain ⟨hkind, hstruct⟩ := id hasks
    rcases hend with ⟨-, hend⟩ | ⟨⟨hsome, -⟩, -⟩
    · rw [hend, Expansion.endsAs_diagnosed rfl]
      rcases ending with _ | kind | _
      · simp [RecordSite.IsDue, hlacks]
      · cases kind <;>
          simp [RecordSite.IsDue, hasks, hkind, hstruct, hlacks, Diagnostic.unsupportedType]
      · simp [RecordSite.IsDue, hkind]
    · simp [Expansion.spec?] at hsome
  · obtain ⟨hkind, hstruct⟩ := id hasks
    rcases hend with ⟨hoff, hend⟩ | ⟨⟨-, hon⟩, report, hend, hreport, hsevere⟩
    · have hoff : ¬site.LiesOnCycle settings outline.requested :=
        fun hon => hoff ⟨rfl, hon⟩
      rw [hend, Expansion.endsAs_generated]
      rcases ending with _ | kind | _
      · simp [RecordSite.IsDue, hasks, hdefaults, hoff]
      · cases kind <;> simp [RecordSite.IsDue, hkind, hstruct, hdefaults, hoff]
      · simp [RecordSite.IsDue, hkind]
    · rw [hend, Expansion.endsAs_diagnosed hsevere, hreport]
      rcases ending with _ | kind | _
      · simp [RecordSite.IsDue, hon]
      · cases kind <;> simp [RecordSite.IsDue, hasks, hkind, hstruct, hdefaults, hon]
      · simp [RecordSite.IsDue, hkind]

/-- **Every request ends in one of three ways.** Where the language of a source is known, what is
put into it is one answer for each record that asks for something, in the order in which the records
start, and nothing else can fail than putting them in. An answer is a builder, a refusal with one
error, or nothing, and it is the one that is due: nothing where no builder is asked for, a refusal
by the first that is wrong of the kind of the declaration, the defaults of its members and the
cycles of builders, and a builder if nothing is. -/
theorem answers_settled (settings : Settings) (path : Path) (source : String) (root : Node)
    (language : SourceLanguage) (hfound : standardFrontends.forPath path = .ok language) :
    let text := SourceText.ofString source
    let outline := Outline.ofTree settings text path root
    let expansions := ExpandedSource.answers settings outline
    ((∃ expanded, ExpandedSource.ofSource settings path source root = .ok expanded ∧
        expanded.expansions = expansions ∧
        spliced settings text expansions = .ok expanded.source) ∨
      ∃ fault, ExpandedSource.ofSource settings path source root = .error (.undecodable fault) ∧
        spliced settings text expansions = .error fault) ∧
    expansions.map (·.site) = outline.requested ∧
    outline.requested.Perm ((Outline.recordsOf settings text path (root.walk.filter fun place =>
      typeNodes.contains place.node.kind)).1.filter (·.request.isSome)) ∧
    outline.requested.Pairwise (fun a b => a.location.le b.location = true) ∧
    ∀ record ∈ expansions,
      (∃! ending, record.expansion.EndsAs ending) ∧
      (∀ ending, record.expansion.EndsAs ending ↔
        record.site.IsDue settings outline.requested ending) ∧
      (record.expansion.declarations = [] ∨ record.expansion.diagnostics = []) := by
  intro text outline expansions
  obtain ⟨hperm, hsorted⟩ := records_ofTree settings text path root
  refine ⟨?_, map_site_answers settings outline, hperm.filter _, hsorted.filter _, ?_⟩
  · cases language
    simp only [ExpandedSource.ofSource, hfound, Except.mapError, bind, Except.bind]
    cases spliced settings text expansions with
    | ok inserted => exact .inl ⟨_, rfl, rfl, rfl⟩
    | error fault => exact .inr ⟨fault, rfl, rfl⟩
  · intro record hrecord
    refine ⟨?_, endsAs_iff_isDue hrecord, record.expansion.declarations_or_diagnostics⟩
    exact record.expansion.existsUnique_endsAs (severe_of_mem_answers hrecord)

theorem answers_settled_mixed :
    let outline := Outline.ofTree {} (.ofString mixedText) ExpandedSource.defaultPath mixedTree
    standardFrontends.forPath ExpandedSource.defaultPath = .ok .swift ∧
    mixedAnswers.map (·.site) = outline.requested ∧
    List.Forall₂ (fun record ending =>
        record.expansion.EndsAs ending ∧ record.site.IsDue {} outline.requested ending)
      mixedAnswers
      [.built, .refused .requiresStruct, .silent, .refused .unsupportedType,
        .refused .cyclicDefault, .refused .cyclicDefault, .built] := by
  intro outline
  have hfound : standardFrontends.forPath ExpandedSource.defaultPath = .ok .swift := by
    decide +kernel
  obtain ⟨-, hsites, -, -, hsettled⟩ :=
    answers_settled {} ExpandedSource.defaultPath mixedText mixedTree .swift hfound
  have hendings : mixedAnswers.map (·.expansion.ending) =
      [.built, .refused .requiresStruct, .silent, .refused .unsupportedType,
        .refused .cyclicDefault, .refused .cyclicDefault, .built] := by
    rw [mixedAnswers_eq]
    decide +kernel
  refine ⟨hfound, hsites, ?_⟩
  rw [← hendings, List.forall₂_map_right_iff, List.forall₂_same]
  intro record hrecord
  have hends : record.expansion.EndsAs record.expansion.ending :=
    (record.expansion.endsAs_iff (severe_of_mem_answers hrecord) _).mpr rfl
  exact ⟨hends, ((hsettled record hrecord).2.1 _).mp hends⟩

end FluentBuilder
