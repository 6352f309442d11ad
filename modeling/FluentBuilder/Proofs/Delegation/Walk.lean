import FluentBuilder.Delegation
import FluentBuilder.Proofs.Text.Sorted
import Mathlib.Data.List.Chain
import Mathlib.Logic.Relation

/-!
# The search for cycles finds what lies on one

A walk that returns to a record (`Returns`) is what the search follows: it meets no name twice, so
it ends, and it gives exactly the cycles of the walks that go along names not met yet
(`mem_cyclesThrough`). Nothing is lost by leaving out longer walks: whoever leads back to itself
does so without meeting a name twice, for a walk that meets one twice has a shorter one in it
(`exists_returns_of_transGen`). Hence a record is on some cycle that was found iff it leads back to
itself (`exists_mem_cycles_iff`), and the first of these cycles is kept for it
(`lookup_recordsInCycles`).
-/

namespace FluentBuilder.DelegationGraph

variable {graph : DelegationGraph}

/-! ### Graphs from their parts -/

/-- The edges with further targets of a record that is among them. -/
def extend (edges : List (String × List String)) (record : String) (targets : List String) :
    List (String × List String) :=
  edges.map fun edge => if edge.1 == record then (record, edge.2 ++ targets) else edge

theorem mem_records {record : String} :
    record ∈ graph.records ↔ graph.edges.any (·.1 == record) = true := by
  rw [records, List.mem_map, List.any_eq_true]
  simp only [beq_iff_eq]

theorem add_of_mem {record : String} (h : record ∈ graph.records) (targets : List String) :
    graph.add record targets =
      { edges := extend graph.edges record (targets.map TypeExpr.lastSegment) } := by
  rw [add, if_pos (mem_records.mp h)]
  rfl

theorem add_of_notMem {record : String} (h : record ∉ graph.records) (targets : List String) :
    graph.add record targets =
      { edges := graph.edges ++ [(record, targets.map TypeExpr.lastSegment)] } := by
  rw [add, if_neg fun hany => h (mem_records.mpr hany)]

theorem map_key_extend (edges : List (String × List String)) (record : String)
    (targets : List String) : (extend edges record targets).map (·.1) = edges.map (·.1) := by
  rw [extend, List.map_map]
  refine List.map_congr_left fun edge _ => ?_
  by_cases hkey : edge.1 = record <;> simp [hkey]

theorem lookup_extend (edges : List (String × List String)) (record name : String)
    (targets : List String) :
    (extend edges record targets).lookup name =
      (edges.lookup name).map fun old => if name = record then old ++ targets else old := by
  induction edges with
  | nil => rfl
  | cons edge rest ih =>
    obtain ⟨key, old⟩ := edge
    rw [extend, List.map_cons]
    rw [extend] at ih
    by_cases hname : name = key
    · subst hname
      by_cases hkey : name = record <;> simp [hkey]
    · have hne : (name == key) = false := by simpa using hname
      by_cases hkey : key = record
      · subst hkey
        simp only [beq_self_eq_true, if_true, List.lookup_cons, hne, ih]
      · have hrecord : (key == record) = false := by simpa using hkey
        simp only [hrecord, Bool.false_eq_true, if_false, List.lookup_cons, hne, ih]

theorem lookup_eq_none_of_notMem {name : String} (h : name ∉ graph.records) :
    graph.edges.lookup name = none := by
  rw [List.lookup_eq_none_iff]
  intro edge hedge
  have hne : name ≠ edge.1 := fun heq => h (heq ▸ List.mem_map_of_mem hedge)
  simpa using hne

theorem lookup_isSome_of_mem {name : String} (h : name ∈ graph.records) :
    ∃ old, graph.edges.lookup name = some old := by
  cases hlookup : graph.edges.lookup name with
  | some old => exact ⟨old, rfl⟩
  | none =>
    obtain ⟨edge, hedge, rfl⟩ := List.mem_map.mp h
    have hne := List.lookup_eq_none_iff.mp hlookup edge hedge
    simp at hne

theorem mem_targets {name target : String} :
    target ∈ graph.targets name ↔ target ∈ (graph.edges.lookup name).getD [] :=
  Text.mem_sortedSet

theorem mem_records_add {record name : String} {targets : List String} :
    name ∈ (graph.add record targets).records ↔ name ∈ graph.records ∨ name = record := by
  by_cases hmem : record ∈ graph.records
  · rw [add_of_mem hmem, records, map_key_extend]
    exact ⟨Or.inl, fun h => h.elim id fun heq => heq ▸ hmem⟩
  · rw [add_of_notMem hmem, records, List.map_append, List.mem_append, List.map_singleton,
      List.mem_singleton]
    rfl

theorem nodup_records_add (record : String) (targets : List String) (h : graph.records.Nodup) :
    (graph.add record targets).records.Nodup := by
  by_cases hmem : record ∈ graph.records
  · rw [add_of_mem hmem, records, map_key_extend]
    exact h
  · rw [add_of_notMem hmem, records, List.map_append, List.map_singleton]
    exact List.Nodup.append h (List.nodup_singleton _) (List.disjoint_singleton.mpr hmem)

theorem mem_targets_add {record name target : String} {targets : List String} :
    target ∈ (graph.add record targets).targets name ↔
      target ∈ graph.targets name ∨
        name = record ∧ target ∈ targets.map TypeExpr.lastSegment := by
  rw [mem_targets, mem_targets]
  by_cases hmem : record ∈ graph.records
  · obtain ⟨old, hold⟩ := lookup_isSome_of_mem hmem
    rw [add_of_mem hmem, lookup_extend]
    by_cases hname : name = record
    · subst hname
      simp [hold]
    · simp [hname]
  · rw [add_of_notMem hmem, List.lookup_append]
    by_cases hname : name = record
    · subst hname
      simp [lookup_eq_none_of_notMem hmem]
    · have hne : (name == record) = false := by simpa using hname
      simp [List.lookup_cons, hne, hname]

/-- The graph after records with their targets were added one after the other. -/
def ofSteps (steps : List (String × List String)) : DelegationGraph :=
  steps.foldl (fun graph step => graph.add step.1 step.2) {}

theorem ofSteps_concat (steps : List (String × List String)) (step : String × List String) :
    ofSteps (steps ++ [step]) = (ofSteps steps).add step.1 step.2 := by
  rw [ofSteps, List.foldl_append]
  rfl

theorem nodup_records_ofSteps (steps : List (String × List String)) :
    (ofSteps steps).records.Nodup := by
  induction steps using List.reverseRecOn with
  | nil => exact List.nodup_nil
  | append_singleton steps step ih => rw [ofSteps_concat]; exact nodup_records_add _ _ ih

theorem mem_records_ofSteps {steps : List (String × List String)} {name : String} :
    name ∈ (ofSteps steps).records ↔ ∃ step ∈ steps, step.1 = name := by
  induction steps using List.reverseRecOn with
  | nil => simp [ofSteps, records]
  | append_singleton steps step ih =>
    rw [ofSteps_concat, mem_records_add, ih]
    constructor
    · rintro (⟨other, hother, rfl⟩ | rfl)
      · exact ⟨other, List.mem_append_left _ hother, rfl⟩
      · exact ⟨step, by simp, rfl⟩
    · rintro ⟨other, hother, rfl⟩
      rcases List.mem_append.mp hother with hother | hother
      · exact Or.inl ⟨other, hother, rfl⟩
      · exact Or.inr (by rw [List.mem_singleton.mp hother])

theorem mem_targets_ofSteps {steps : List (String × List String)} {name target : String} :
    target ∈ (ofSteps steps).targets name ↔
      ∃ step ∈ steps, step.1 = name ∧ target ∈ step.2.map TypeExpr.lastSegment := by
  induction steps using List.reverseRecOn with
  | nil => simp [ofSteps, mem_targets]
  | append_singleton steps step ih =>
    rw [ofSteps_concat, mem_targets_add, ih]
    constructor
    · rintro (⟨other, hother, htarget⟩ | ⟨rfl, htarget⟩)
      · exact ⟨other, List.mem_append_left _ hother, htarget⟩
      · exact ⟨step, by simp, rfl, htarget⟩
    · rintro ⟨other, hother, rfl, htarget⟩
      rcases List.mem_append.mp hother with hother | hother
      · exact Or.inl ⟨other, hother, rfl, htarget⟩
      · rw [List.mem_singleton.mp hother] at htarget ⊢
        exact Or.inr ⟨rfl, htarget⟩

/-! ### Walks -/

/-- From a record the walk along the given names leads back to `start`. -/
inductive Returns (graph : DelegationGraph) (start : String) : String → List String → Prop
  | close {name : String} : start ∈ graph.targets name → Returns graph start name []
  | step {name target : String} {walk : List String} :
      target ∈ graph.targets name → Returns graph start target walk →
        Returns graph start name (target :: walk)

def Calls (graph : DelegationGraph) (name target : String) : Prop :=
  target ∈ graph.targets name ∧ target ∈ graph.records

/-- A walk that passes a name has a walk from there in it. -/
theorem Returns.exists_suffix {start name passed : String} {walk : List String}
    (h : graph.Returns start name walk) (hmem : passed ∈ walk) :
    ∃ rest, graph.Returns start passed rest ∧ (passed :: rest) <:+ walk := by
  induction h with
  | close _ => simp at hmem
  | @step name target walk _ hrest ih =>
    rcases List.mem_cons.mp hmem with rfl | hmem
    · exact ⟨walk, hrest, List.suffix_rfl⟩
    · obtain ⟨rest, hreturns, hsuffix⟩ := ih hmem
      exact ⟨rest, hreturns, hsuffix.trans (List.suffix_cons _ _)⟩

theorem Returns.transGen {start name : String} {walk : List String}
    (h : graph.Returns start name walk) (hstart : start ∈ graph.records)
    (hwalk : walk ⊆ graph.records) : Relation.TransGen graph.Calls name start := by
  induction h with
  | close htarget => exact .single ⟨htarget, hstart⟩
  | step htarget _ ih =>
    exact .head ⟨htarget, hwalk (List.mem_cons_self ..)⟩
      (ih fun passed hpassed => hwalk (List.mem_cons_of_mem _ hpassed))

theorem Returns.transGen_of_mem {start name passed : String} {walk : List String}
    (h : graph.Returns start name walk) (hwalk : walk ⊆ graph.records) (hmem : passed ∈ walk) :
    Relation.TransGen graph.Calls name passed := by
  induction h with
  | close _ => simp at hmem
  | @step name target walk htarget _ ih =>
    have hcalls : graph.Calls name target := ⟨htarget, hwalk (List.mem_cons_self ..)⟩
    rcases List.mem_cons.mp hmem with rfl | hmem
    · exact .single hcalls
    · exact .head hcalls (ih (fun other hother => hwalk (List.mem_cons_of_mem _ hother)) hmem)

/-- Whoever leads to `start` does so by a walk that meets no name twice. -/
theorem exists_returns_of_transGen {start name : String}
    (h : Relation.TransGen graph.Calls name start) :
    ∃ walk, graph.Returns start name walk ∧ walk.Nodup ∧ walk ⊆ graph.records ∧
      name ∉ walk ∧ start ∉ walk := by
  induction h using Relation.TransGen.head_induction_on with
  | single hcalls =>
    exact ⟨[], .close hcalls.1, List.nodup_nil, List.nil_subset _, by simp, by simp⟩
  | @head name target hcalls _ ih =>
    obtain ⟨walk, hreturns, hnodup, hsubset, htarget, hstart⟩ := ih
    by_cases hclose : target = start
    · subst hclose
      exact ⟨[], .close hcalls.1, List.nodup_nil, List.nil_subset _, by simp, by simp⟩
    by_cases hname : name ∈ target :: walk
    · -- the walk comes by `name` again, and from there it is shorter
      rcases List.mem_cons.mp hname with rfl | hmem
      · exact ⟨walk, hreturns, hnodup, hsubset, htarget, hstart⟩
      · obtain ⟨rest, hrest, hsuffix⟩ := hreturns.exists_suffix hmem
        have hrestwalk : rest ⊆ walk := fun other hother =>
          hsuffix.subset (List.mem_cons_of_mem _ hother)
        exact ⟨rest, hrest, (List.nodup_cons.mp (hnodup.sublist hsuffix.sublist)).2,
          List.Subset.trans hrestwalk hsubset, (List.nodup_cons.mp (hnodup.sublist hsuffix.sublist)).1,
          fun hmem => hstart (hrestwalk hmem)⟩
    · refine ⟨target :: walk, .step hcalls.1 hreturns, List.nodup_cons.mpr ⟨htarget, hnodup⟩,
        List.cons_subset.mpr ⟨hcalls.2, hsubset⟩, hname, ?_⟩
      rw [List.mem_cons, not_or]
      exact ⟨fun heq => hclose heq.symm, hstart⟩

/-! ### The search -/

theorem fromLeast_perm (names : List String) : (fromLeast names).Perm names := by
  cases names with
  | nil => exact .refl _
  | cons name rest =>
    unfold fromLeast
    exact List.perm_append_comm.trans (.of_eq List.takeWhile_append_dropWhile)

/-- The step of the search, without the proofs that it ends. -/
theorem cyclesThrough_eq (start : String) (unmet path : List String) (node : String) :
    cyclesThrough graph start unmet path node =
      (if (graph.targets node).contains start then [fromLeast path] else []) ++
        ((graph.targets node).filter unmet.contains).reverse.flatMap fun target =>
          cyclesThrough graph start (unmet.erase target) (path ++ [target]) target := by
  rw [cyclesThrough, ← List.filter_reverse, List.flatMap_subtype (fun _ _ => rfl),
    List.unattach_attach]

theorem length_erase_lt {target : String} {unmet : List String} (h : target ∈ unmet) :
    (unmet.erase target).length < unmet.length := by
  rw [List.length_erase_of_mem h]
  have := List.length_pos_of_mem h
  omega

/-- **What the search finds**: the cycles of the walks back to `start` that go along names not met
yet, none of them twice. -/
theorem mem_cyclesThrough {start node : String} {unmet path cycle : List String}
    (hunmet : unmet.Nodup) :
    cycle ∈ cyclesThrough graph start unmet path node ↔
      ∃ walk, graph.Returns start node walk ∧ walk.Nodup ∧ walk ⊆ unmet ∧
        cycle = fromLeast (path ++ walk) := by
  induction hlength : unmet.length using Nat.strong_induction_on generalizing unmet path node with
  | _ size ih =>
    rw [cyclesThrough_eq, List.mem_append, List.mem_flatMap]
    constructor
    · rintro (hclose | ⟨target, hnext, hcycle⟩)
      · split at hclose
        · next hstart =>
          rw [List.mem_singleton] at hclose
          exact ⟨[], .close (by simpa using hstart), List.nodup_nil, List.nil_subset _,
            by rw [List.append_nil, hclose]⟩
        · simp at hclose
      · have htarget : target ∈ graph.targets node ∧ target ∈ unmet := by simpa using hnext
        have hlt : (unmet.erase target).length < size := hlength ▸ length_erase_lt htarget.2
        obtain ⟨walk, hreturns, hnodup, hsubset, rfl⟩ :=
          (ih _ hlt (hunmet.erase target) rfl).mp hcycle
        refine ⟨target :: walk, .step htarget.1 hreturns, List.nodup_cons.mpr ⟨?_, hnodup⟩,
          List.cons_subset.mpr ⟨htarget.2, fun other hother => List.erase_subset (hsubset hother)⟩,
          by simp⟩
        exact fun hmem => hunmet.not_mem_erase (hsubset hmem)
    · rintro ⟨walk, hreturns, hnodup, hsubset, rfl⟩
      cases hreturns with
      | close hstart =>
        left
        rw [if_pos (by simpa using hstart), List.append_nil, List.mem_singleton]
      | @step _ target walk htarget hreturns =>
        right
        have hmem : target ∈ unmet := hsubset (List.mem_cons_self ..)
        have hlt : (unmet.erase target).length < size := hlength ▸ length_erase_lt hmem
        obtain ⟨hnotmem, hnodup⟩ := List.nodup_cons.mp hnodup
        refine ⟨target, by simpa using ⟨htarget, hmem⟩, ?_⟩
        refine (ih _ hlt (hunmet.erase target) rfl).mpr ⟨walk, hreturns, hnodup, ?_, by simp⟩
        intro other hother
        have hne : other ≠ target := fun heq => hnotmem (heq ▸ hother)
        exact (List.mem_erase_of_ne hne).mpr (hsubset (List.mem_cons_of_mem _ hother))

theorem mem_cycles {cycle : List String} (hrecords : graph.records.Nodup) :
    cycle ∈ graph.cycles ↔ ∃ start ∈ graph.records, ∃ walk, graph.Returns start start walk ∧
      (start :: walk).Nodup ∧ walk ⊆ graph.records ∧ cycle = fromLeast (start :: walk) := by
  unfold cycles
  simp only [List.mem_eraseDups, List.mem_flatMap, Text.mem_sortedSet]
  constructor
  · rintro ⟨start, hstart, hcycle⟩
    obtain ⟨walk, hreturns, hnodup, hsubset, rfl⟩ :=
      (mem_cyclesThrough (hrecords.erase start)).mp hcycle
    refine ⟨start, hstart, walk, hreturns, List.nodup_cons.mpr ⟨?_, hnodup⟩,
      List.Subset.trans hsubset List.erase_subset, rfl⟩
    exact fun hmem => hrecords.not_mem_erase (hsubset hmem)
  · rintro ⟨start, hstart, walk, hreturns, hnodup, hsubset, rfl⟩
    obtain ⟨hnotmem, hnodup⟩ := List.nodup_cons.mp hnodup
    refine ⟨start, hstart, (mem_cyclesThrough (hrecords.erase start)).mpr
      ⟨walk, hreturns, hnodup, fun other hother => ?_, rfl⟩⟩
    have hne : other ≠ start := fun heq => hnotmem (heq ▸ hother)
    exact (List.mem_erase_of_ne hne).mpr (hsubset hother)

theorem ne_nil_of_mem_cycles {cycle : List String} (hrecords : graph.records.Nodup)
    (h : cycle ∈ graph.cycles) : cycle ≠ [] := by
  obtain ⟨start, -, walk, -, -, -, rfl⟩ := (mem_cycles hrecords).mp h
  exact fun hnil => List.cons_ne_nil _ _ ((fromLeast_perm _).symm.trans (.of_eq hnil)).eq_nil

/-- **A record is on a cycle that was found iff it leads back to itself.** -/
theorem exists_mem_cycles_iff {name : String} (hrecords : graph.records.Nodup) :
    (∃ cycle ∈ graph.cycles, name ∈ cycle) ↔
      name ∈ graph.records ∧ Relation.TransGen graph.Calls name name := by
  constructor
  · rintro ⟨cycle, hcycle, hname⟩
    obtain ⟨start, hstart, walk, hreturns, -, hsubset, rfl⟩ := (mem_cycles hrecords).mp hcycle
    have hback := hreturns.transGen hstart hsubset
    rcases List.mem_cons.mp ((fromLeast_perm _).subset hname) with rfl | hmem
    · exact ⟨hstart, hback⟩
    · obtain ⟨rest, hrest, hsuffix⟩ := hreturns.exists_suffix hmem
      have hrestsubset : rest ⊆ graph.records := fun other hother =>
        hsubset (hsuffix.subset (List.mem_cons_of_mem _ hother))
      exact ⟨hsubset hmem, (hrest.transGen hstart hrestsubset).trans
        (hreturns.transGen_of_mem hsubset hmem)⟩
  · rintro ⟨hname, hback⟩
    obtain ⟨walk, hreturns, hnodup, hsubset, hnotmem, -⟩ := exists_returns_of_transGen hback
    refine ⟨fromLeast (name :: walk), (mem_cycles hrecords).mpr ⟨name, hname, walk, hreturns,
      List.nodup_cons.mpr ⟨hnotmem, hnodup⟩, hsubset, rfl⟩, ?_⟩
    exact (fromLeast_perm _).symm.subset (List.mem_cons_self ..)

/-! ### The first cycle of a record -/

theorem lookup_foldl_names (cycle names : List String) (name : String)
    (found : List (String × List String)) :
    (names.foldl (fun found name =>
        if found.any (·.1 == name) then found else found ++ [(name, cycle)]) found).lookup name =
      (found.lookup name).or (if name ∈ names then some cycle else none) := by
  induction names generalizing found with
  | nil => simp
  | cons first rest ih =>
    rw [List.foldl_cons, ih]
    by_cases hany : found.any (·.1 == first) = true
    · rw [if_pos hany]
      by_cases hname : name = first
      · subst hname
        obtain ⟨old, hold⟩ :=
          lookup_isSome_of_mem (mem_records.mpr hany : name ∈ (DelegationGraph.mk found).records)
        have hold : found.lookup name = some old := hold
        simp [hold]
      · simp [hname]
    · rw [if_neg hany, List.lookup_append]
      by_cases hname : name = first
      · subst hname
        have hnone : found.lookup name = none := lookup_eq_none_of_notMem
          (mt mem_records.mp hany : name ∉ (DelegationGraph.mk found).records)
        simp [hnone]
      · have hne : (name == first) = false := by simpa using hname
        simp [List.lookup_cons, hne, hname]

/-- For every record the first cycle that it is on is kept. -/
theorem lookup_recordsInCycles (name : String) :
    graph.recordsInCycles.lookup name = graph.cycles.find? (·.contains name) := by
  have hfold : ∀ (cycles : List (List String)) (found : List (String × List String)),
      (cycles.foldl (fun found cycle => cycle.foldl (fun found name =>
        if found.any (·.1 == name) then found else found ++ [(name, cycle)]) found) found).lookup
          name = (found.lookup name).or (cycles.find? (·.contains name)) := by
    intro cycles
    induction cycles with
    | nil => simp
    | cons cycle rest ih =>
      intro found
      rw [List.foldl_cons, ih, lookup_foldl_names, List.find?_cons, Option.or_assoc]
      by_cases hname : name ∈ cycle <;> simp [hname]
  rw [recordsInCycles, hfold]
  rfl

end FluentBuilder.DelegationGraph
