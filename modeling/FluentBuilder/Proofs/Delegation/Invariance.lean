import FluentBuilder.Proofs.Delegation.Enumeration

/-!
# The cycles found depend on the relation alone

A graph is built up step by step, and keeps its records in the order in which they were added, and
the targets of a record in the order of the steps. The search reads neither order: it sorts the
records to start from and the targets to go on to. What it goes by are therefore the records and,
for each of them, the targets among the records. Two graphs that agree on these (`Agrees`) give the
same row of cycles (`cycles_eq_of_agrees`), so a report does not show in which order and how often
records were added (`cycles_ofSteps_invariant`).

The names not met yet are a row, too, from which the search only takes names away. It is the same
for both graphs up to its order, which is what the induction in `cyclesThrough_eq_of_agrees`
carries along.
-/

namespace FluentBuilder.DelegationGraph

/-- Two graphs have the same records, and each name has the same targets among the records. -/
structure Agrees (graph other : DelegationGraph) : Prop where
  records : ∀ name, name ∈ graph.records ↔ name ∈ other.records
  targets : ∀ name, ∀ target ∈ graph.records,
    (target ∈ graph.targets name ↔ target ∈ other.targets name)

section

variable {graph other : DelegationGraph}

theorem Agrees.filter_targets (h : graph.Agrees other) {unmet left : List String}
    (hperm : unmet.Perm left) (hunmet : unmet ⊆ graph.records) (name : String) :
    (graph.targets name).filter unmet.contains = (other.targets name).filter left.contains := by
  have hascends (graph : DelegationGraph) (p : String → Bool) :
      ((graph.targets name).filter p).Pairwise (· < ·) :=
    (Text.sortedSet_pairwise_lt _).filter p
  refine (hascends graph _).eq_of_mem_iff (hascends other _) fun target => ?_
  rw [List.mem_filter, List.mem_filter]
  simp only [List.contains_eq_mem, decide_eq_true_eq, ← hperm.mem_iff]
  exact and_congr_left fun hmem => h.targets name target (hunmet hmem)

theorem cyclesThrough_eq_of_agrees (h : graph.Agrees other) {start node : String}
    {unmet left path : List String} (hstart : start ∈ graph.records) (hperm : unmet.Perm left)
    (hunmet : unmet ⊆ graph.records) :
    cyclesThrough graph start unmet path node = cyclesThrough other start left path node := by
  induction hlength : unmet.length using Nat.strong_induction_on
    generalizing unmet left path node with
  | _ size ih =>
    have hcloses : (graph.targets node).contains start = (other.targets node).contains start := by
      simpa using h.targets node start hstart
    rw [cyclesThrough_eq, cyclesThrough_eq, hcloses, ← h.filter_targets hperm hunmet]
    congr 1
    refine List.flatMap_congr fun target hnext => ?_
    have hmem : target ∈ unmet := by simpa using (List.mem_filter.mp (List.mem_reverse.mp hnext)).2
    have hlt : (unmet.erase target).length < size := hlength ▸ length_erase_lt hmem
    exact ih _ hlt (hperm.erase target) (List.Subset.trans List.erase_subset hunmet) rfl

theorem cycles_eq_of_agrees (h : graph.Agrees other) (hgraph : graph.records.Nodup)
    (hother : other.records.Nodup) : graph.cycles = other.cycles := by
  have hperm : graph.records.Perm other.records :=
    (List.perm_ext_iff_of_nodup hgraph hother).mpr h.records
  have hstarts : Text.sortedSet graph.records = Text.sortedSet other.records := by
    refine (Text.sortedSet_pairwise_lt _).eq_of_mem_iff (Text.sortedSet_pairwise_lt _)
      fun name => ?_
    rw [Text.mem_sortedSet, Text.mem_sortedSet, h.records]
  unfold cycles
  dsimp only
  rw [← hstarts]
  congr 1
  refine List.flatMap_congr fun start hstart => ?_
  exact cyclesThrough_eq_of_agrees h (Text.mem_sortedSet.mp hstart) (hperm.erase start)
    List.erase_subset

end

variable {steps others : List (String × List String)}

/-- The names that steps give targets to, each with a target. -/
def targetPairs (steps : List (String × List String)) : List (String × String) :=
  steps.flatMap fun step => step.2.map fun target => (step.1, TypeExpr.lastSegment target)

theorem added_iff {name : String} : Added steps name ↔ name ∈ steps.map (·.1) := by
  rw [List.mem_map, Added]

theorem hasTarget_iff {name target : String} :
    HasTarget steps name target ↔ (name, target) ∈ targetPairs steps := by
  simp only [HasTarget, targetPairs, List.mem_flatMap, List.mem_map, Prod.mk.injEq]
  constructor
  · rintro ⟨step, hstep, rfl, found, hfound, rfl⟩
    exact ⟨step, hstep, found, hfound, rfl, rfl⟩
  · rintro ⟨step, hstep, found, hfound, rfl, rfl⟩
    exact ⟨step, hstep, rfl, found, hfound, rfl⟩

/-- **The report of cycles depends on the relation alone.** If two rows of steps add the same
records, and give each name the same targets among them, the cycles found are the same, in the same
order, and so are the records on cycles with the cycles that are kept for them. -/
theorem cycles_ofSteps_invariant (hadded : ∀ name, Added steps name ↔ Added others name)
    (htargets : ∀ name target, Added steps target →
      (HasTarget steps name target ↔ HasTarget others name target)) :
    (ofSteps steps).cycles = (ofSteps others).cycles ∧
      (ofSteps steps).recordsInCycles = (ofSteps others).recordsInCycles := by
  have hagrees : (ofSteps steps).Agrees (ofSteps others) := by
    refine ⟨fun name => ?_, fun name target htarget => ?_⟩
    · rw [mem_records_ofSteps, mem_records_ofSteps]
      exact hadded name
    · rw [mem_targets_ofSteps, mem_targets_ofSteps]
      exact htargets name target (mem_records_ofSteps.mp htarget)
  have hcycles := cycles_eq_of_agrees hagrees (nodup_records_ofSteps _) (nodup_records_ofSteps _)
  refine ⟨hcycles, ?_⟩
  unfold recordsInCycles
  rw [hcycles]

/-- Two rings that share a record, and an edge to a name that no step adds. -/
def sharedRings : List (String × List String) :=
  [("B", ["A"]), ("C", ["Gone", "B"]), ("A", ["N.B", "A<T>"])]

/-- The same records with the same targets, in other steps and by other names. -/
def sharedRingsAgain : List (String × List String) :=
  [("A", ["A"]), ("C", []), ("B", ["M.A", "Lost", "A"]), ("A", ["B", "A"]), ("C", ["B<T>"])]

theorem cycles_ofSteps_invariant_sharedRings :
    (∀ name, Added sharedRings name ↔ Added sharedRingsAgain name) ∧
    (∀ name target, Added sharedRings target →
      (HasTarget sharedRings name target ↔ HasTarget sharedRingsAgain name target)) ∧
    (ofSteps sharedRings).cycles = (ofSteps sharedRingsAgain).cycles ∧
    (ofSteps sharedRings).recordsInCycles = (ofSteps sharedRingsAgain).recordsInCycles := by
  have hadded (name : String) : Added sharedRings name ↔ Added sharedRingsAgain name := by
    rw [added_iff, added_iff]
    have hall : sharedRings.map (·.1) ⊆ sharedRingsAgain.map (·.1) := by decide
    have hback : sharedRingsAgain.map (·.1) ⊆ sharedRings.map (·.1) := by decide
    exact ⟨fun h => hall h, fun h => hback h⟩
  have htargets (name target : String) (htarget : Added sharedRings target) :
      HasTarget sharedRings name target ↔ HasTarget sharedRingsAgain name target := by
    have hshared : targetPairs sharedRings =
        [("B", "A"), ("C", "Gone"), ("C", "B"), ("A", "B"), ("A", "A")] := by decide +kernel
    have hagain : targetPairs sharedRingsAgain = [("A", "A"), ("B", "A"), ("B", "Lost"), ("B", "A"),
        ("A", "B"), ("A", "A"), ("C", "B")] := by decide +kernel
    have hrecord : target = "B" ∨ target = "C" ∨ target = "A" := by
      simpa [added_iff, sharedRings] using htarget
    rw [hasTarget_iff, hasTarget_iff, hshared, hagain]
    rcases hrecord with rfl | rfl | rfl <;> simp [or_comm, or_left_comm]
  exact ⟨hadded, htargets, cycles_ofSteps_invariant hadded htargets⟩

end FluentBuilder.DelegationGraph
