import FluentBuilder.Proofs.Delegation.Walk
import FluentBuilder.Source.Expanded
import Mathlib.Data.Fintype.Pigeonhole

/-!
# Exactly the builders on a cycle are rejected

`DelegatesTo` is the relation between the names of the records that get a builder: a default of
the one calls the builder of the other. `rejectCycles_exact`: a builder is rejected iff its name
leads back to itself, nothing else is changed, and what is left has no cycle, so no builder calls
others without end.

Records of the same name are one name here: their delegates are put together, and they are rejected
together. What is left has no cycle because taking records away only takes calls away, and a name
on a cycle is gone from both ends of every call.
-/

namespace FluentBuilder

/-! ### Names and calls -/

/-- Some record of the name has a builder. -/
def HasBuilder (expansions : List RecordExpansion) (name : String) : Prop :=
  ∃ record ∈ expansions, record.expansion.spec?.isSome ∧ record.site.declaration.name = name

/-- A default in a builder of the one name calls the builder of the other, which is there. -/
def DelegatesTo (expansions : List RecordExpansion) (name target : String) : Prop :=
  (∃ record ∈ expansions, ∃ spec, record.expansion.spec? = some spec ∧
    record.site.declaration.name = name ∧
      ∃ delegate ∈ spec.delegates, TypeExpr.lastSegment delegate = target) ∧
  HasBuilder expansions target

/-- The name leads back to itself. -/
def OnCycle (expansions : List RecordExpansion) (name : String) : Prop :=
  Relation.TransGen (DelegatesTo expansions) name name

/-- There is no builder, and all that is reported is one error about a cycle. -/
def RecordExpansion.RejectedAsCyclic (record : RecordExpansion) : Prop :=
  record.expansion.spec? = none ∧ record.expansion.declarations = [] ∧
    ∃ report, record.expansion.diagnostics = [report] ∧ report.kind = .cyclicDefault ∧
      report.severity = .error

/-! ### The graph of the answers -/

/-- The name of a record with a builder, and its delegates. -/
def RecordExpansion.step? (record : RecordExpansion) : Option (String × List String) :=
  record.expansion.spec?.map fun spec => (record.site.declaration.name, spec.delegates)

variable {expansions : List RecordExpansion}

theorem delegationGraph_eq_ofSteps :
    delegationGraph expansions =
      DelegationGraph.ofSteps (expansions.filterMap RecordExpansion.step?) := by
  rw [DelegationGraph.ofSteps, List.foldl_filterMap, delegationGraph]
  congr 1
  funext graph record
  unfold RecordExpansion.step?
  cases record.expansion.spec? <;> rfl

theorem mem_steps {step : String × List String} :
    step ∈ expansions.filterMap RecordExpansion.step? ↔
      ∃ record ∈ expansions, ∃ spec, record.expansion.spec? = some spec ∧
        record.site.declaration.name = step.1 ∧ spec.delegates = step.2 := by
  obtain ⟨name, delegates⟩ := step
  simp only [List.mem_filterMap, RecordExpansion.step?, Option.map_eq_some_iff, Prod.mk.injEq]

theorem mem_records_delegationGraph {name : String} :
    name ∈ (delegationGraph expansions).records ↔ HasBuilder expansions name := by
  rw [delegationGraph_eq_ofSteps, DelegationGraph.mem_records_ofSteps]
  constructor
  · rintro ⟨step, hstep, rfl⟩
    obtain ⟨record, hrecord, spec, hspec, hname, -⟩ := mem_steps.mp hstep
    exact ⟨record, hrecord, by rw [hspec]; rfl, hname⟩
  · rintro ⟨record, hrecord, hsome, rfl⟩
    obtain ⟨spec, hspec⟩ := Option.isSome_iff_exists.mp hsome
    exact ⟨(_, spec.delegates), mem_steps.mpr ⟨record, hrecord, spec, hspec, rfl, rfl⟩, rfl⟩

theorem calls_delegationGraph {name target : String} :
    (delegationGraph expansions).Calls name target ↔ DelegatesTo expansions name target := by
  rw [DelegationGraph.Calls, mem_records_delegationGraph, DelegatesTo, and_congr_left_iff]
  intro _
  rw [delegationGraph_eq_ofSteps, DelegationGraph.mem_targets_ofSteps]
  constructor
  · rintro ⟨step, hstep, rfl, htarget⟩
    obtain ⟨record, hrecord, spec, hspec, hname, hdelegates⟩ := mem_steps.mp hstep
    rw [← hdelegates] at htarget
    exact ⟨record, hrecord, spec, hspec, hname, List.mem_map.mp htarget⟩
  · rintro ⟨record, hrecord, spec, hspec, rfl, htarget⟩
    exact ⟨(_, spec.delegates), mem_steps.mpr ⟨record, hrecord, spec, hspec, rfl, rfl⟩, rfl,
      List.mem_map.mpr htarget⟩

theorem hasBuilder_of_onCycle {name : String} (h : OnCycle expansions name) :
    HasBuilder expansions name := by
  obtain ⟨last, -, hlast⟩ := Relation.TransGen.tail'_iff.mp h
  exact hlast.2

/-- The names with a cycle to be reported are those that lead back to themselves. -/
theorem lookup_recordsInCycles_delegationGraph (name : String) :
    (∃ first rest, (delegationGraph expansions).recordsInCycles.lookup name =
      some (first :: rest)) ↔ OnCycle expansions name := by
  have hrecords : (delegationGraph expansions).records.Nodup := by
    rw [delegationGraph_eq_ofSteps]
    exact DelegationGraph.nodup_records_ofSteps _
  have hcalls : (delegationGraph expansions).Calls = DelegatesTo expansions := by
    funext name target
    exact propext calls_delegationGraph
  have hcycle : (∃ cycle ∈ (delegationGraph expansions).cycles, name ∈ cycle) ↔ _ :=
    DelegationGraph.exists_mem_cycles_iff hrecords
  rw [mem_records_delegationGraph, hcalls] at hcycle
  rw [DelegationGraph.lookup_recordsInCycles]
  constructor
  · rintro ⟨first, rest, hfind⟩
    exact (hcycle.mp ⟨_, List.mem_of_find?_eq_some hfind,
      by simpa using List.find?_some hfind⟩).2
  · intro h
    obtain ⟨cycle, hmem, hname⟩ := hcycle.mpr ⟨hasBuilder_of_onCycle h, h⟩
    cases hfind : (delegationGraph expansions).cycles.find? (·.contains name) with
    | none =>
      have hnone := List.find?_eq_none.mp hfind cycle hmem
      exact absurd hname (by simpa using hnone)
    | some found =>
      obtain ⟨first, rest, rfl⟩ := List.exists_cons_of_ne_nil
        (DelegationGraph.ne_nil_of_mem_cycles hrecords (List.mem_of_find?_eq_some hfind))
      exact ⟨first, rest, rfl⟩

/-! ### One answer -/

theorem RecordExpansion.rejectIn_site (cycles : List (String × List String))
    (record : RecordExpansion) : (record.rejectIn cycles).site = record.site := by
  unfold rejectIn
  dsimp only
  split <;> rfl

/-- What becomes of one answer: a builder on a cycle is rejected, all else stays. -/
theorem RecordExpansion.rejectIn_cases (record : RecordExpansion)
    (expansions : List RecordExpansion) :
    (record.expansion.spec?.isSome ∧ OnCycle expansions record.site.declaration.name ∧
        (record.rejectIn (delegationGraph expansions).recordsInCycles).RejectedAsCyclic) ∨
      ¬(record.expansion.spec?.isSome ∧ OnCycle expansions record.site.declaration.name) ∧
        record.rejectIn (delegationGraph expansions).recordsInCycles = record := by
  unfold rejectIn
  dsimp only
  split
  · next spec first rest hspec hlookup =>
    left
    refine ⟨by rw [hspec]; rfl,
      (lookup_recordsInCycles_delegationGraph _).mp ⟨first, rest, hlookup⟩, rfl, rfl, _, rfl, rfl,
      rfl⟩
  · next hnone =>
    right
    refine ⟨?_, rfl⟩
    rintro ⟨hsome, hcycle⟩
    obtain ⟨spec, hspec⟩ := Option.isSome_iff_exists.mp hsome
    obtain ⟨first, rest, hlookup⟩ := (lookup_recordsInCycles_delegationGraph _).mpr hcycle
    exact hnone spec first rest hspec hlookup

/-! ### What is left -/

/-- An answer that still has its builder is one of the answers before, off every cycle. -/
theorem mem_of_mem_rejectCycles {record : RecordExpansion} (h : record ∈ rejectCycles expansions)
    (hsome : record.expansion.spec?.isSome) :
    record ∈ expansions ∧ ¬OnCycle expansions record.site.declaration.name := by
  obtain ⟨before, hbefore, rfl⟩ := List.mem_map.mp h
  rcases before.rejectIn_cases expansions with ⟨-, -, hnone, -⟩ | ⟨hoff, hsame⟩
  · rw [hnone] at hsome
    simp at hsome
  · rw [hsame] at hsome ⊢
    exact ⟨hbefore, fun hcycle => hoff ⟨hsome, hcycle⟩⟩

theorem delegatesTo_of_rejectCycles {name target : String}
    (h : DelegatesTo (rejectCycles expansions) name target) :
    DelegatesTo expansions name target ∧ ¬OnCycle expansions name := by
  obtain ⟨⟨record, hrecord, spec, hspec, rfl, hdelegate⟩, other, hother, hsome, rfl⟩ := h
  obtain ⟨hmem, hoff⟩ := mem_of_mem_rejectCycles hrecord (by rw [hspec]; rfl)
  exact ⟨⟨⟨record, hmem, spec, hspec, rfl, hdelegate⟩, other,
    (mem_of_mem_rejectCycles hother hsome).1, hsome, rfl⟩, hoff⟩

theorem not_onCycle_rejectCycles (name : String) : ¬OnCycle (rejectCycles expansions) name := by
  intro h
  have hbefore : OnCycle expansions name :=
    Relation.TransGen.mono (fun _ _ hcalls => (delegatesTo_of_rejectCycles hcalls).1) _ _ h
  obtain ⟨next, hfirst, -⟩ := Relation.TransGen.head'_iff.mp h
  exact (delegatesTo_of_rejectCycles hfirst).2 hbefore

/-- Without a cycle no name calls others without end: there are only so many names. -/
theorem not_chain_of_not_onCycle (hacyclic : ∀ name, ¬OnCycle expansions name)
    (chain : Nat → String) : ¬∀ k, DelegatesTo expansions (chain k) (chain (k + 1)) := by
  intro hchain
  have hmem : ∀ k, chain (k + 1) ∈ expansions.map (·.site.declaration.name) := by
    intro k
    obtain ⟨-, record, hrecord, -, hname⟩ := hchain k
    exact hname ▸ List.mem_map_of_mem hrecord
  obtain ⟨i, j, hne, heq⟩ := Finite.exists_ne_map_eq_of_infinite
    fun k => (⟨chain (k + 1), hmem k⟩ : {name // name ∈ expansions.map (·.site.declaration.name)})
  have heq : chain (i + 1) = chain (j + 1) := congrArg Subtype.val heq
  have hpath : ∀ i j, i < j → Relation.TransGen (DelegatesTo expansions) (chain i) (chain j) := by
    intro i j hlt
    induction hlt with
    | refl => exact .single (hchain i)
    | step _ ih => exact .tail ih (hchain _)
  rcases Nat.lt_or_gt_of_ne hne with hlt | hlt
  · have hback := hpath (i + 1) (j + 1) (by omega)
    rw [← heq] at hback
    exact hacyclic _ hback
  · have hback := hpath (j + 1) (i + 1) (by omega)
    rw [heq] at hback
    exact hacyclic _ hback

/-- **Exactly the builders on a cycle are rejected.** An answer with a builder is rejected iff its
name leads back to itself, every other answer stays as it was, and among the builders that are
left none leads back to itself, so none calls others without end. -/
theorem rejectCycles_exact (expansions : List RecordExpansion) :
    List.Forall₂ (fun before after =>
        after.site = before.site ∧
          (before.expansion.spec?.isSome →
            (after.RejectedAsCyclic ↔ OnCycle expansions before.site.declaration.name)) ∧
          (¬(before.expansion.spec?.isSome ∧ OnCycle expansions before.site.declaration.name) →
            after = before))
      expansions (rejectCycles expansions) ∧
    (∀ name, ¬OnCycle (rejectCycles expansions) name) ∧
    ¬∃ chain : Nat → String, ∀ k,
      DelegatesTo (rejectCycles expansions) (chain k) (chain (k + 1)) := by
  refine ⟨?_, not_onCycle_rejectCycles, ?_⟩
  · unfold rejectCycles
    dsimp only
    rw [List.forall₂_map_right_iff, List.forall₂_same]
    intro record _
    refine ⟨record.rejectIn_site _, ?_⟩
    rcases record.rejectIn_cases expansions with ⟨hsome, hcycle, hrejected⟩ | ⟨hoff, hsame⟩
    · exact ⟨fun _ => ⟨fun _ => hcycle, fun _ => hrejected⟩,
        fun hnot => absurd ⟨hsome, hcycle⟩ hnot⟩
    · refine ⟨fun hsome => ⟨fun hrejected => ?_, fun hcycle => absurd ⟨hsome, hcycle⟩ hoff⟩,
        fun _ => hsame⟩
      rw [hsame] at hrejected
      rw [hrejected.1] at hsome
      simp at hsome
  · rintro ⟨chain, hchain⟩
    exact not_chain_of_not_onCycle not_onCycle_rejectCycles chain hchain

end FluentBuilder
