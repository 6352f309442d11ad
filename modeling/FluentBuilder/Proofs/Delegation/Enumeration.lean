import FluentBuilder.Proofs.Delegation.Walk
import Mathlib.Data.List.Cycle
import Mathlib.Data.List.TakeWhile

/-!
# The search for cycles finds each of them once

`IsElementary` says what a cycle is, apart from any search: names that are all different, each of
them a record whose defaults call the builder of the next one, and the last one that of the first.
A ring of names has as many rows as names; the one that starts with the least name stands for it.

`cycles_ofSteps_exact`: the search finds exactly these rows, so it finds each ring once, and the
records on a ring are those that lead back to themselves. Every row is met because its least name is
one of the starts, and no two of the rows found are the same ring: a row without repetitions is
settled by the ring and its first name (`eq_of_isRotated`).
-/

namespace FluentBuilder

/-! ### The least of some names -/

namespace Text

theorem leastOf_mem (name : String) (others : List String) :
    leastOf name others ∈ name :: others := by
  unfold leastOf
  induction others generalizing name with
  | nil => simp
  | cons other rest ih =>
    rw [List.foldl_cons]
    by_cases hlt : other < name
    · rw [if_pos hlt]
      exact List.mem_cons_of_mem _ (ih other)
    · rw [if_neg hlt]
      rcases List.mem_cons.mp (ih name) with heq | hmem
      · rw [heq]
        exact List.mem_cons_self ..
      · exact List.mem_cons_of_mem _ (List.mem_cons_of_mem _ hmem)

theorem leastOf_le {name other : String} {others : List String} (h : other ∈ name :: others) :
    leastOf name others ≤ other := by
  unfold leastOf
  induction others generalizing name other with
  | nil =>
    rw [List.mem_singleton] at h
    exact h.ge
  | cons next rest ih =>
    rw [List.foldl_cons]
    by_cases hlt : next < name
    · rw [if_pos hlt]
      rcases List.mem_cons.mp h with rfl | hmem
      · exact (ih (List.mem_cons_self ..)).trans hlt.le
      · exact ih hmem
    · rw [if_neg hlt]
      have hname : List.foldl _ name rest ≤ name := ih (List.mem_cons_self ..)
      rcases List.mem_cons.mp h with rfl | hmem
      · exact hname
      · rcases List.mem_cons.mp hmem with rfl | hmem
        · exact hname.trans (not_lt.mp hlt)
        · exact ih (List.mem_cons_of_mem _ hmem)

end Text

namespace DelegationGraph

/-! ### Rings and their rows -/

/-- The first of the names is the least. -/
def StartsLeast (names : List String) : Prop :=
  ∃ first rest, names = first :: rest ∧ ∀ name ∈ rest, first ≤ name

theorem StartsLeast.head_le {first name : String} {rest : List String}
    (h : StartsLeast (first :: rest)) (hname : name ∈ first :: rest) : first ≤ name := by
  obtain ⟨first', rest', heq, hle⟩ := h
  obtain ⟨rfl, rfl⟩ := List.cons.inj heq
  rcases List.mem_cons.mp hname with rfl | hmem
  · exact le_rfl
  · exact hle name hmem

theorem fromLeast_isRotated (names : List String) : fromLeast names ~r names := by
  cases names with
  | nil => exact List.IsRotated.refl _
  | cons name rest =>
    unfold fromLeast
    have hcut : (name :: rest).dropWhile (· != Text.leastOf name rest) ++
        (name :: rest).takeWhile (· != Text.leastOf name rest) ~r
        (name :: rest).takeWhile (· != Text.leastOf name rest) ++
          (name :: rest).dropWhile (· != Text.leastOf name rest) := List.isRotated_append
    rwa [List.takeWhile_append_dropWhile] at hcut

theorem startsLeast_fromLeast (name : String) (rest : List String) :
    StartsLeast (fromLeast (name :: rest)) := by
  have hmem := Text.leastOf_mem name rest
  have hperm := (fromLeast_isRotated (name :: rest)).perm
  -- what is dropped ends in front of the least name, which is in the row
  cases hdrop : (name :: rest).dropWhile (· != Text.leastOf name rest) with
  | nil =>
    have hall := List.dropWhile_eq_nil_iff.mp hdrop _ hmem
    simp at hall
  | cons first tail =>
    have hfirst : first = Text.leastOf name rest := by
      have hhead := List.head?_dropWhile_not (· != Text.leastOf name rest) (name :: rest)
      rw [hdrop] at hhead
      simpa using hhead
    refine ⟨first, tail ++ (name :: rest).takeWhile (· != Text.leastOf name rest), ?_, ?_⟩
    · unfold fromLeast
      simp only [hdrop, List.cons_append]
    · intro other hother
      rw [hfirst]
      refine Text.leastOf_le (hperm.subset ?_)
      unfold fromLeast
      simp only [hdrop, List.cons_append]
      exact List.mem_cons_of_mem _ hother

theorem fromLeast_eq_self {names : List String} (h : StartsLeast names) :
    fromLeast names = names := by
  obtain ⟨first, rest, rfl, hle⟩ := h
  have hleast : Text.leastOf first rest = first := by
    apply le_antisymm
    · exact Text.leastOf_le (List.mem_cons_self ..)
    · exact StartsLeast.head_le ⟨first, rest, rfl, hle⟩ (Text.leastOf_mem first rest)
  simp [fromLeast, hleast]

/-- A ring has one row that starts with its least name. -/
theorem eq_of_isRotated {names others : List String} (h : names ~r others) (hnodup : names.Nodup)
    (hnames : StartsLeast names) (hothers : StartsLeast others) : names = others := by
  obtain ⟨first, rest, rfl, -⟩ := id hnames
  obtain ⟨first', rest', rfl, -⟩ := id hothers
  have hhead : first = first' := by
    apply le_antisymm
    · exact hnames.head_le (h.mem_iff.mpr (List.mem_cons_self ..))
    · exact hothers.head_le (h.mem_iff.mp (List.mem_cons_self ..))
  subst hhead
  obtain ⟨n, hn, hrotate⟩ := List.isRotated_iff_mod.mp h
  by_cases hlast : n = (first :: rest).length
  · rw [hlast, List.rotate_length] at hrotate
    exact hrotate
  · have hlt : n < (first :: rest).length := by omega
    have hget : (first :: rest)[n]? = (first :: rest)[0]? := by
      rw [← List.head?_rotate hlt, hrotate]
      rfl
    have hzero : n = 0 := (List.getElem?_inj hlt hnodup).mp hget
    rw [hzero, List.rotate_zero] at hrotate
    exact hrotate

/-! ### Elementary cycles -/

section

variable {steps : List (String × List String)}

/-- One of the steps adds the record. -/
def Added (steps : List (String × List String)) (name : String) : Prop :=
  ∃ step ∈ steps, step.1 = name

/-- One of the steps gives the record the target. -/
def HasTarget (steps : List (String × List String)) (name target : String) : Prop :=
  ∃ step ∈ steps, step.1 = name ∧ target ∈ step.2.map TypeExpr.lastSegment

/-- The target of a record, where both are added. -/
def Links (steps : List (String × List String)) (name target : String) : Prop :=
  Added steps name ∧ HasTarget steps name target ∧ Added steps target

/-- The names are all different, each has the next for its target, and the last the first. -/
structure IsElementary (steps : List (String × List String)) (cycle : List String) : Prop where
  ne_nil : cycle ≠ []
  nodup : cycle.Nodup
  chain : (cycle : Cycle String).Chain (Links steps)

theorem HasTarget.added {name target : String} (h : HasTarget steps name target) :
    Added steps name := by
  obtain ⟨step, hstep, hname, -⟩ := h
  exact ⟨step, hstep, hname⟩

theorem links_eq_calls : Links steps = (ofSteps steps).Calls := by
  funext name target
  rw [eq_iff_iff, Calls, mem_targets_ofSteps, mem_records_ofSteps]
  constructor
  · rintro ⟨-, htarget, hadded⟩
    exact ⟨htarget, hadded⟩
  · rintro ⟨htarget, hadded⟩
    exact ⟨HasTarget.added htarget, htarget, hadded⟩

/-- What is a cycle in one row of a ring is one in all of its rows. -/
theorem IsElementary.of_isRotated {cycle other : List String} (h : IsElementary steps cycle)
    (hrotated : cycle ~r other) : IsElementary steps other := by
  refine ⟨?_, hrotated.nodup_iff.mp h.nodup, ?_⟩
  · intro hnil
    rw [hnil, List.isRotated_nil_iff] at hrotated
    exact h.ne_nil hrotated
  · have hring : (cycle : Cycle String) = other := Cycle.coe_eq_coe.mpr hrotated
    rw [← hring]
    exact h.chain

/-- A walk along records that returns is a chain up to where it began. -/
theorem returns_iff_isChain {graph : DelegationGraph} {start name : String} {walk : List String}
    (hstart : start ∈ graph.records) :
    (graph.Returns start name walk ∧ walk ⊆ graph.records) ↔
      (name :: (walk ++ [start])).IsChain graph.Calls := by
  induction walk generalizing name with
  | nil =>
    rw [List.nil_append, List.isChain_pair]
    constructor
    · rintro ⟨hreturns, -⟩
      cases hreturns with
      | close htarget => exact ⟨htarget, hstart⟩
    · rintro ⟨htarget, -⟩
      exact ⟨.close htarget, List.nil_subset _⟩
  | cons target walk ih =>
    rw [List.cons_append, List.isChain_cons_cons, ← ih, List.cons_subset]
    constructor
    · rintro ⟨hreturns, htarget, hwalk⟩
      cases hreturns with
      | step hedge hrest => exact ⟨⟨hedge, htarget⟩, hrest, hwalk⟩
    · rintro ⟨⟨hedge, htarget⟩, hrest, hwalk⟩
      exact ⟨.step hedge hrest, htarget, hwalk⟩

theorem isElementary_cons_iff {start : String} {walk : List String} :
    IsElementary steps (start :: walk) ↔
      start ∈ (ofSteps steps).records ∧ (ofSteps steps).Returns start start walk ∧
        (start :: walk).Nodup ∧ walk ⊆ (ofSteps steps).records := by
  constructor
  · rintro ⟨-, hnodup, hchain⟩
    rw [Cycle.chain_coe_cons, links_eq_calls] at hchain
    -- the chain comes back to the start, which is therefore a target and a record
    have hstart : start ∈ (ofSteps steps).records := by
      rw [← List.cons_append, List.isChain_append] at hchain
      obtain ⟨last, hlast⟩ := List.getLast?_isSome.mpr (List.cons_ne_nil start walk)
        |> Option.isSome_iff_exists.mp
      exact (hchain.2.2 last hlast start rfl).2
    obtain ⟨hreturns, hsubset⟩ := (returns_iff_isChain hstart).mpr hchain
    exact ⟨hstart, hreturns, hnodup, hsubset⟩
  · rintro ⟨hstart, hreturns, hnodup, hsubset⟩
    refine ⟨List.cons_ne_nil _ _, hnodup, ?_⟩
    rw [Cycle.chain_coe_cons, links_eq_calls]
    exact (returns_iff_isChain hstart).mp ⟨hreturns, hsubset⟩

/-! ### What is found -/

theorem mem_cycles_ofSteps {cycle : List String} :
    cycle ∈ (ofSteps steps).cycles ↔ IsElementary steps cycle ∧ StartsLeast cycle := by
  rw [mem_cycles (nodup_records_ofSteps steps)]
  constructor
  · rintro ⟨start, hstart, walk, hreturns, hnodup, hsubset, rfl⟩
    have helementary : IsElementary steps (start :: walk) :=
      isElementary_cons_iff.mpr ⟨hstart, hreturns, hnodup, hsubset⟩
    exact ⟨helementary.of_isRotated (fromLeast_isRotated _).symm, startsLeast_fromLeast _ _⟩
  · rintro ⟨helementary, hleast⟩
    obtain ⟨start, walk, rfl, -⟩ := id hleast
    obtain ⟨hstart, hreturns, hnodup, hsubset⟩ := isElementary_cons_iff.mp helementary
    exact ⟨start, hstart, walk, hreturns, hnodup, hsubset, (fromLeast_eq_self hleast).symm⟩

theorem nodup_cycles (graph : DelegationGraph) : graph.cycles.Nodup := by
  unfold cycles
  exact Text.nodup_eraseDups _

/-- Of the rows of a ring exactly one is found. -/
theorem existsUnique_mem_cycles {cycle : List String} (h : IsElementary steps cycle) :
    ∃! found, found ∈ (ofSteps steps).cycles ∧ found ~r cycle := by
  obtain ⟨first, rest, rfl⟩ := List.exists_cons_of_ne_nil h.ne_nil
  have hrotated := fromLeast_isRotated (first :: rest)
  refine ⟨fromLeast (first :: rest), ⟨?_, hrotated⟩, ?_⟩
  · exact mem_cycles_ofSteps.mpr ⟨h.of_isRotated hrotated.symm, startsLeast_fromLeast _ _⟩
  · rintro other ⟨hother, hring⟩
    obtain ⟨helementary, hleast⟩ := mem_cycles_ofSteps.mp hother
    exact eq_of_isRotated (hring.trans hrotated.symm) helementary.nodup hleast
      (startsLeast_fromLeast _ _)

/-! ### The records on cycles -/

/-- No name has two entries. -/
def DistinctKeys (found : List (String × List String)) : Prop := (found.map (·.1)).Nodup

theorem distinctKeys_recordsInCycles (graph : DelegationGraph) :
    DistinctKeys graph.recordsInCycles := by
  have hname (cycle : List String) (found : List (String × List String)) (name : String)
      (hfound : DistinctKeys found) :
      DistinctKeys (if found.any (·.1 == name) then found else found ++ [(name, cycle)]) := by
    by_cases hany : found.any (·.1 == name) = true
    · rwa [if_pos hany]
    · rw [if_neg hany, DistinctKeys, List.map_append, List.map_singleton]
      refine List.Nodup.append hfound (List.nodup_singleton _)
        (List.disjoint_singleton.mpr fun hmem => hany ?_)
      obtain ⟨entry, hentry, hkey⟩ := List.mem_map.mp hmem
      exact List.any_eq_true.mpr ⟨entry, hentry, by simpa using hkey⟩
  unfold recordsInCycles
  refine List.foldlRecOn (motive := DistinctKeys) graph.cycles _ List.nodup_nil
    fun found hfound cycle _ => ?_
  exact List.foldlRecOn (motive := DistinctKeys) cycle _ hfound
    fun found hfound name _ => hname cycle found name hfound

theorem mem_iff_lookup_eq_some {found : List (String × List String)} {name : String}
    {cycle : List String} (hdistinct : DistinctKeys found) :
    (name, cycle) ∈ found ↔ found.lookup name = some cycle := by
  rw [List.lookup_eq_some_iff]
  constructor
  · intro hmem
    obtain ⟨before, after, rfl⟩ := List.append_of_mem hmem
    refine ⟨before, after, rfl, fun entry hentry => ?_⟩
    rw [DistinctKeys, List.map_append, List.nodup_append] at hdistinct
    have hne := hdistinct.2.2 entry.1 (List.mem_map_of_mem hentry) name (by simp)
    simpa using Ne.symm hne
  · rintro ⟨before, after, rfl, -⟩
    simp

/-- A chain of targets that ends in a record goes along records only. -/
theorem transGen_links {name last : String} (h : Relation.TransGen (HasTarget steps) name last)
    (hlast : Added steps last) : Relation.TransGen (Links steps) name last := by
  induction h using Relation.TransGen.head_induction_on with
  | single htarget => exact .single ⟨htarget.added, htarget, hlast⟩
  | head htarget _ ih =>
    obtain ⟨_, hnext, -⟩ := Relation.TransGen.head'_iff.mp ih
    exact .head ⟨htarget.added, htarget, hnext.1⟩ ih

theorem mem_keys_recordsInCycles {name : String} :
    name ∈ (ofSteps steps).recordsInCycles.map (·.1) ↔
      Relation.TransGen (HasTarget steps) name name := by
  have hkey : name ∈ (ofSteps steps).recordsInCycles.map (·.1) ↔
      ∃ cycle ∈ (ofSteps steps).cycles, name ∈ cycle := by
    have hlookup : name ∈ (ofSteps steps).recordsInCycles.map (·.1) ↔
        ((ofSteps steps).recordsInCycles.lookup name).isSome := by
      rw [List.lookup_isSome_iff, List.mem_map]
      simp only [beq_iff_eq, @eq_comm _ name]
    rw [hlookup, lookup_recordsInCycles, List.find?_isSome]
    simp only [List.contains_eq_mem, decide_eq_true_eq]
  rw [hkey, exists_mem_cycles_iff (nodup_records_ofSteps steps), ← links_eq_calls]
  constructor
  · rintro ⟨-, hback⟩
    exact Relation.TransGen.mono (fun _ _ hlink => hlink.2.1) _ _ hback
  · intro hback
    obtain ⟨_, hfirst, -⟩ := Relation.TransGen.head'_iff.mp hback
    exact ⟨mem_records_ofSteps.mpr hfirst.added, transGen_links hback hfirst.added⟩

/-- **The search for cycles is exact.** For records added in any number of steps it finds the
elementary cycles along added records, each in the row that starts with its least name, and nothing
else; of every ring it finds exactly one row. The records on cycles are, each once, those that a
chain of targets leads back to, and each has the first of the cycles found that it is in. -/
theorem cycles_ofSteps_exact (steps : List (String × List String)) :
    (∀ cycle, cycle ∈ (ofSteps steps).cycles ↔ IsElementary steps cycle ∧ StartsLeast cycle) ∧
    (ofSteps steps).cycles.Nodup ∧
    (∀ cycle, IsElementary steps cycle →
      ∃! found, found ∈ (ofSteps steps).cycles ∧ found ~r cycle) ∧
    ((ofSteps steps).recordsInCycles.map (·.1)).Nodup ∧
    (∀ name, name ∈ (ofSteps steps).recordsInCycles.map (·.1) ↔
      Relation.TransGen (HasTarget steps) name name) ∧
    ∀ name cycle, (name, cycle) ∈ (ofSteps steps).recordsInCycles ↔
      (ofSteps steps).cycles.find? (·.contains name) = some cycle := by
  refine ⟨fun cycle => mem_cycles_ofSteps, nodup_cycles _, fun cycle => existsUnique_mem_cycles,
    distinctKeys_recordsInCycles _, fun name => mem_keys_recordsInCycles, fun name cycle => ?_⟩
  rw [mem_iff_lookup_eq_some (distinctKeys_recordsInCycles _), lookup_recordsInCycles]

/-- Two rings that share a record, and an edge to a name that was not added. -/
example : (ofSteps [("B", ["A"]), ("C", ["Gone", "B"]), ("A", ["N.B", "A<T>"])]).cycles =
    [["A"], ["A", "B"]] := by
  cbv

end

end DelegationGraph

end FluentBuilder
