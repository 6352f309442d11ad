import FluentBuilder.Proofs.Delegation.Rejection

/-!
# Cycles of qualified names

Builders are rejected by the last segments of names, while records in different types are told
apart by their qualified names only. `rejectCycles_qualified` says what this comes to where every
default calls the builder of some record by its qualified name.

A builder is rejected iff its name leads back to itself, provided that on the way a record may be
taken for any other of the same last segment (`Confuses`). So no builder that really leads back to
itself is kept, and where no two records on the way share a last segment, no other builder is
rejected. Where they do, a builder can be rejected although it leads nowhere near itself
(`rejectCycles_namesakes`).
-/

namespace FluentBuilder

open TypeExpr (lastSegment)

/-! ### Calls by qualified names -/

/-- A default in the builder of the record of the one qualified name calls the builder of the
other. -/
def CallsQualified (expansions : List RecordExpansion) (name target : String) : Prop :=
  ∃ record ∈ expansions, ∃ spec, record.expansion.spec? = some spec ∧
    record.site.qualifiedName = name ∧ target ∈ spec.delegates

/-- The qualified name leads back to itself. -/
def LeadsBack (expansions : List RecordExpansion) (name : String) : Prop :=
  Relation.TransGen (CallsQualified expansions) name name

/-- Some record of the same last segment calls the builder of the other name. -/
def Confuses (expansions : List RecordExpansion) (name target : String) : Prop :=
  ∃ namesake, lastSegment namesake = lastSegment name ∧
    CallsQualified expansions namesake target

/-- The names of records end with their own names. -/
def NamedByLast (expansions : List RecordExpansion) : Prop :=
  ∀ record ∈ expansions, lastSegment record.site.qualifiedName = record.site.declaration.name

/-- Every default calls the builder of a record by its qualified name. -/
def CallsKnown (expansions : List RecordExpansion) : Prop :=
  ∀ record ∈ expansions, ∀ spec ∈ record.expansion.spec?, ∀ delegate ∈ spec.delegates,
    ∃ other ∈ expansions, other.site.qualifiedName = delegate

/-- No record with a builder that the name leads to, through namesakes or not, shares its last
segment with another record. -/
def ToldApart (expansions : List RecordExpansion) (name : String) : Prop :=
  ∀ record ∈ expansions, record.expansion.spec?.isSome →
    Relation.TransGen (DelegatesTo expansions) name record.site.declaration.name →
      ∀ other ∈ expansions, other.site.declaration.name = record.site.declaration.name →
        other.site.qualifiedName = record.site.qualifiedName

instance (expansions : List RecordExpansion) : Decidable (NamedByLast expansions) :=
  inferInstanceAs (Decidable (∀ _ ∈ _, _))

instance (expansions : List RecordExpansion) : Decidable (CallsKnown expansions) :=
  inferInstanceAs (Decidable (∀ _ ∈ _, _))

variable {expansions : List RecordExpansion}

theorem CallsQualified.confuses {name target : String}
    (h : CallsQualified expansions name target) : Confuses expansions name target :=
  ⟨name, rfl, h⟩

theorem hasBuilder_of_callsQualified (hnamed : NamedByLast expansions) {name target : String}
    (h : CallsQualified expansions name target) : HasBuilder expansions (lastSegment name) := by
  obtain ⟨record, hrecord, spec, hspec, rfl, -⟩ := h
  exact ⟨record, hrecord, by rw [hspec]; rfl, (hnamed record hrecord).symm⟩

/-! ### From qualified names to last segments, and back -/

theorem delegatesTo_of_confuses (hnamed : NamedByLast expansions) {name target : String}
    (h : Confuses expansions name target) (hbuilder : HasBuilder expansions (lastSegment target)) :
    DelegatesTo expansions (lastSegment name) (lastSegment target) := by
  obtain ⟨namesake, hsame, record, hrecord, spec, hspec, rfl, hdelegate⟩ := h
  refine ⟨⟨record, hrecord, spec, hspec, ?_, target, hdelegate, rfl⟩, hbuilder⟩
  rw [← hnamed record hrecord, hsame]

theorem exists_confuses_of_delegatesTo (hnamed : NamedByLast expansions) {name segment : String}
    (h : DelegatesTo expansions (lastSegment name) segment) :
    ∃ target, lastSegment target = segment ∧ Confuses expansions name target := by
  obtain ⟨⟨record, hrecord, spec, hspec, hname, delegate, hdelegate, rfl⟩, -⟩ := h
  refine ⟨delegate, rfl, record.site.qualifiedName, ?_, record, hrecord, spec, hspec, rfl,
    hdelegate⟩
  rw [hnamed record hrecord, hname]

/-- A walk along namesakes is one along last segments: whoever is passed on it has a builder. -/
theorem transGen_delegatesTo_of_confuses (hnamed : NamedByLast expansions) {name target : String}
    (h : Relation.TransGen (Confuses expansions) name target)
    (hbuilder : HasBuilder expansions (lastSegment target)) :
    Relation.TransGen (DelegatesTo expansions) (lastSegment name) (lastSegment target) := by
  induction h with
  | single hstep => exact .single (delegatesTo_of_confuses hnamed hstep hbuilder)
  | @tail passed target _ hstep ih =>
    obtain ⟨namesake, hsame, hcalls⟩ := id hstep
    have hpassed : HasBuilder expansions (lastSegment passed) :=
      hsame ▸ hasBuilder_of_callsQualified hnamed hcalls
    exact .tail (ih hpassed) (delegatesTo_of_confuses hnamed hstep hbuilder)

theorem exists_transGen_confuses (hnamed : NamedByLast expansions) {name segment : String}
    (h : Relation.TransGen (DelegatesTo expansions) (lastSegment name) segment) :
    ∃ target, lastSegment target = segment ∧
      Relation.TransGen (Confuses expansions) name target := by
  induction h with
  | single hstep =>
    obtain ⟨target, hsegment, hconfuses⟩ := exists_confuses_of_delegatesTo hnamed hstep
    exact ⟨target, hsegment, .single hconfuses⟩
  | tail _ hstep ih =>
    obtain ⟨passed, rfl, hpath⟩ := ih
    obtain ⟨target, hsegment, hconfuses⟩ := exists_confuses_of_delegatesTo hnamed hstep
    exact ⟨target, hsegment, .tail hpath hconfuses⟩

/-- A record is on a cycle of last segments iff it leads to a namesake through namesakes. -/
theorem onCycle_iff_confuses (hnamed : NamedByLast expansions) {name : String}
    (hbuilder : HasBuilder expansions (lastSegment name)) :
    OnCycle expansions (lastSegment name) ↔
      ∃ target, lastSegment target = lastSegment name ∧
        Relation.TransGen (Confuses expansions) name target := by
  constructor
  · intro h
    exact exists_transGen_confuses hnamed h
  · rintro ⟨target, hsame, hpath⟩
    have hwalk := transGen_delegatesTo_of_confuses hnamed hpath (hsame ▸ hbuilder)
    rwa [hsame] at hwalk

/-- A call along last segments is one of the record itself where both ends are told apart. -/
theorem callsQualified_of_delegatesTo (hnamed : NamedByLast expansions)
    (hknown : CallsKnown expansions) {start : String} (hapart : ToldApart expansions start)
    {caller target : RecordExpansion} (hcaller : caller ∈ expansions)
    (hcallerBuilds : caller.expansion.spec?.isSome) (htarget : target ∈ expansions)
    (htargetBuilds : target.expansion.spec?.isSome)
    (hreached : Relation.TransGen (DelegatesTo expansions) start caller.site.declaration.name)
    (hstep : DelegatesTo expansions caller.site.declaration.name target.site.declaration.name) :
    CallsQualified expansions caller.site.qualifiedName target.site.qualifiedName := by
  have hnext := Relation.TransGen.tail hreached hstep
  obtain ⟨⟨namesake, hnamesake, spec, hspec, hname, delegate, hdelegate, hsegment⟩, -⟩ := hstep
  obtain ⟨other, hother, rfl⟩ := hknown namesake hnamesake spec hspec delegate hdelegate
  have hcallerName := hapart caller hcaller hcallerBuilds hreached namesake hnamesake hname
  have htargetName := hapart target htarget htargetBuilds hnext other hother
    (by rw [← hnamed other hother, hsegment])
  exact ⟨namesake, hnamesake, spec, hspec, hcallerName, htargetName ▸ hdelegate⟩

/-- Where the records on the way are told apart, a walk along last segments is one along qualified
names. -/
theorem transGen_callsQualified (hnamed : NamedByLast expansions) (hknown : CallsKnown expansions)
    {start : RecordExpansion} (hstart : start ∈ expansions)
    (hapart : ToldApart expansions start.site.declaration.name)
    (hcycle : OnCycle expansions start.site.declaration.name) {segment : String}
    (h : Relation.TransGen (DelegatesTo expansions) start.site.declaration.name segment) :
    ∀ record ∈ expansions, record.expansion.spec?.isSome →
      record.site.declaration.name = segment →
        Relation.TransGen (CallsQualified expansions) start.site.qualifiedName
          record.site.qualifiedName := by
  induction h with
  | single hstep =>
    rintro record hrecord hbuilds rfl
    obtain ⟨⟨first, hfirst, spec, hspec, hname, -⟩, -⟩ := id hstep
    have hfirstBuilds : first.expansion.spec?.isSome := by rw [hspec]; rfl
    have hreached : Relation.TransGen (DelegatesTo expansions) start.site.declaration.name
        first.site.declaration.name := by
      rw [hname]
      exact hcycle
    rw [hapart first hfirst hfirstBuilds hreached start hstart hname.symm]
    exact .single (callsQualified_of_delegatesTo hnamed hknown hapart hfirst hfirstBuilds hrecord
      hbuilds hreached (hname ▸ hstep))
  | tail hpath hstep ih =>
    rintro record hrecord hbuilds rfl
    obtain ⟨⟨caller, hcaller, spec, hspec, rfl, -⟩, -⟩ := id hstep
    have hcallerBuilds : caller.expansion.spec?.isSome := by rw [hspec]; rfl
    exact .tail (ih caller hcaller hcallerBuilds rfl)
      (callsQualified_of_delegatesTo hnamed hknown hapart hcaller hcallerBuilds hrecord hbuilds
        hpath hstep)

/-! ### The builders that are rejected -/

theorem RecordExpansion.rejectedAsCyclic_iff {record : RecordExpansion}
    (hsome : record.expansion.spec?.isSome) (expansions : List RecordExpansion) :
    (record.rejectIn (delegationGraph expansions).recordsInCycles).RejectedAsCyclic ↔
      OnCycle expansions record.site.declaration.name := by
  rcases record.rejectIn_cases expansions with ⟨-, hcycle, hrejected⟩ | ⟨hoff, hsame⟩
  · exact ⟨fun _ => hcycle, fun _ => hrejected⟩
  · refine ⟨fun hrejected => ?_, fun hcycle => absurd ⟨hsome, hcycle⟩ hoff⟩
    rw [hsame] at hrejected
    rw [hrejected.1] at hsome
    simp at hsome

/-- **Builders are rejected by last segments.** Where every default calls the builder of a record
by its qualified name, an answer with a builder is rejected iff its record leads to itself or to a
namesake, with records taken for their namesakes on the way. So it is rejected if it leads back to
itself, and only then if the records on the way share their last segments with no others. -/
theorem rejectCycles_qualified (expansions : List RecordExpansion)
    (hnamed : NamedByLast expansions) (hknown : CallsKnown expansions) :
    List.Forall₂ (fun before after => before.expansion.spec?.isSome →
        (after.RejectedAsCyclic ↔ ∃ target,
          lastSegment target = lastSegment before.site.qualifiedName ∧
            Relation.TransGen (Confuses expansions) before.site.qualifiedName target) ∧
        (LeadsBack expansions before.site.qualifiedName → after.RejectedAsCyclic) ∧
        (ToldApart expansions before.site.declaration.name →
          (after.RejectedAsCyclic ↔ LeadsBack expansions before.site.qualifiedName)))
      expansions (rejectCycles expansions) := by
  unfold rejectCycles
  dsimp only
  rw [List.forall₂_map_right_iff, List.forall₂_same]
  intro record hrecord hbuilds
  have hsegment := hnamed record hrecord
  have hbuilder : HasBuilder expansions (lastSegment record.site.qualifiedName) :=
    ⟨record, hrecord, hbuilds, hsegment.symm⟩
  have hcycle := onCycle_iff_confuses hnamed hbuilder
  have hback : LeadsBack expansions record.site.qualifiedName →
      OnCycle expansions record.site.declaration.name := by
    intro h
    rw [← hsegment]
    exact hcycle.mpr ⟨_, rfl, Relation.TransGen.mono (fun _ _ => CallsQualified.confuses) _ _ h⟩
  rw [record.rejectedAsCyclic_iff hbuilds]
  refine ⟨by rw [← hcycle, hsegment], hback, fun hapart => ⟨fun honCycle => ?_, hback⟩⟩
  exact transGen_callsQualified hnamed hknown hrecord hapart honCycle honCycle record hrecord
    hbuilds rfl

/-- Answers with builders, by their qualified names, their own names and their delegates. -/
def builtAnswers (records : List (String × String × List String)) : List RecordExpansion :=
  records.map fun (qualifiedName, name, delegates) =>
    { site := { declaration := { name }, location := {}, qualifiedName }
      expansion := .generated "" { recordName := name, delegates } }

/-- Two records that call each other's builders, and two namesakes off their ring, one of which
calls into it. -/
def ringAndNamesakes : List RecordExpansion :=
  builtAnswers [("A.Item", "Item", ["B.Node"]), ("B.Node", "Node", ["A.Item"]),
    ("A.Leaf", "Leaf", ["A.Item"]), ("B.Leaf", "Leaf", [])]

theorem rejectCycles_qualified_ring :
    NamedByLast ringAndNamesakes ∧ CallsKnown ringAndNamesakes ∧
      ∃ rejected ∈ rejectCycles ringAndNamesakes,
        rejected.site.qualifiedName = "A.Item" ∧ rejected.RejectedAsCyclic := by
  have hnamed : NamedByLast ringAndNamesakes := by decide
  have hknown : CallsKnown ringAndNamesakes := by decide
  have hback : LeadsBack ringAndNamesakes "A.Item" :=
    .tail (b := "B.Node")
      (.single ⟨_, List.mem_cons_self .., _, rfl, rfl, List.mem_singleton_self _⟩)
      ⟨_, List.mem_cons_of_mem _ (List.mem_cons_self ..), _, rfl, rfl, List.mem_singleton_self _⟩
  have hall := rejectCycles_qualified ringAndNamesakes hnamed hknown
  cases hall with
  | cons hfirst _ =>
    exact ⟨hnamed, hknown, _, List.mem_cons_self .., by rw [RecordExpansion.rejectIn_site],
      (hfirst rfl).2.1 hback⟩

/-- Three records, the first and the last of the same last segment. Each calls the builder of the
next. -/
def namesakes : List RecordExpansion :=
  builtAnswers [("A.Item", "Item", ["B.Node"]), ("B.Node", "Node", ["C.Item"]),
    ("C.Item", "Item", [])]

/-- All three are rejected, although none of them leads back to itself. -/
theorem rejectCycles_namesakes :
    (namesakes.map (·.site.qualifiedName)).Nodup ∧ CallsKnown namesakes ∧
      (∀ record ∈ namesakes, record.expansion.spec?.isSome) ∧
      (∀ record ∈ rejectCycles namesakes, record.RejectedAsCyclic) ∧
      ∀ name, ¬LeadsBack namesakes name := by
  refine ⟨by decide, by decide, by decide, fun record hrecord => ?_, fun name hback => ?_⟩
  · have hitem : DelegatesTo namesakes "Item" "Node" :=
      ⟨⟨_, List.mem_cons_self .., _, rfl, rfl, "B.Node", by decide, by decide⟩,
        _, List.mem_cons_of_mem _ (List.mem_cons_self ..), rfl, rfl⟩
    have hnode : DelegatesTo namesakes "Node" "Item" :=
      ⟨⟨_, List.mem_cons_of_mem _ (List.mem_cons_self ..), _, rfl, rfl, "C.Item", by decide,
        by decide⟩, _, List.mem_cons_self .., rfl, rfl⟩
    obtain ⟨before, hbefore, rfl⟩ := List.mem_map.mp hrecord
    have hnames : ∀ record ∈ namesakes, record.expansion.spec?.isSome ∧
        (record.site.declaration.name = "Item" ∨ record.site.declaration.name = "Node") := by
      decide
    obtain ⟨hbuilds, hname⟩ := hnames before hbefore
    rw [RecordExpansion.rejectedAsCyclic_iff hbuilds]
    rcases hname with hname | hname <;> rw [hname]
    · exact .tail (.single hitem) hnode
    · exact .tail (.single hnode) hitem
  -- every call goes to a name that is greater
  have hstep : ∀ name target, CallsQualified namesakes name target → name < target := by
    rintro name target ⟨record, hrecord, spec, hspec, rfl, hdelegate⟩
    have hgreater : ∀ record ∈ namesakes, ∀ spec ∈ record.expansion.spec?,
        ∀ delegate ∈ spec.delegates, record.site.qualifiedName < delegate := by
      decide
    exact hgreater record hrecord spec hspec target hdelegate
  have hless : ∀ target, Relation.TransGen (CallsQualified namesakes) name target →
      name < target := by
    intro target h
    induction h with
    | single hcalls => exact hstep _ _ hcalls
    | tail _ hcalls ih => exact lt_trans ih (hstep _ _ hcalls)
  exact lt_irrefl name (hless name hback)

end FluentBuilder
