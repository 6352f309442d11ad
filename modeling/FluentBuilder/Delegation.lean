import FluentBuilder.Text.Sorted
import FluentBuilder.TypeExpr.Basic

/-!
Which records' builders call each other. A record on a cycle would be built by building it
again, without end, so the cycles are looked for: a walk from every record, along targets that it
has not met, gives the paths that lead back to where it began.
-/

namespace FluentBuilder

/-- The records, in the order in which they were added, with the records whose builders their
defaults call. -/
structure DelegationGraph where
  edges : List (String × List String) := []
deriving Repr, Inhabited

namespace DelegationGraph

/-- The graph with further targets of a record, by the last segments of their names. -/
def add (graph : DelegationGraph) (record : String) (targets : List String) : DelegationGraph :=
  let segments := targets.map TypeExpr.lastSegment
  if graph.edges.any (·.1 == record) then
    { edges := graph.edges.map fun edge =>
        if edge.1 == record then (record, edge.2 ++ segments) else edge }
  else { edges := graph.edges ++ [(record, segments)] }

def records (graph : DelegationGraph) : List String := graph.edges.map (·.1)

/-- The targets of a record, in ascending order. -/
def targets (graph : DelegationGraph) (record : String) : List String :=
  Text.sortedSet ((graph.edges.lookup record).getD [])

/-! ### Cycles -/

/-- The names in a ring from the least one on. -/
def fromLeast : List String → List String
  | [] => []
  | name :: rest =>
    let least := Text.leastOf name rest
    (name :: rest).dropWhile (· != least) ++ (name :: rest).takeWhile (· != least)

/-- The cycles through `start` that go on from `node`, to which the names in `path` lead. The walk
goes on to records in `unmet` only, the greatest name first. -/
def cyclesThrough (graph : DelegationGraph) (start : String) (unmet path : List String)
    (node : String) : List (List String) :=
  let next := (graph.targets node).reverse.filter unmet.contains
  (if (graph.targets node).contains start then [fromLeast path] else []) ++
    next.attach.flatMap fun ⟨target, _⟩ =>
      cyclesThrough graph start (unmet.erase target) (path ++ [target]) target
termination_by unmet.length
decreasing_by
  have hmem : target ∈ unmet := by
    have := List.mem_filter.1 ‹_›
    simpa using this.2
  have := List.length_erase_of_mem hmem
  have := List.length_pos_of_mem hmem
  omega

/-- The cycles of the graph, each once and from its least name on. -/
def cycles (graph : DelegationGraph) : List (List String) :=
  let records := graph.records
  ((Text.sortedSet records).flatMap fun start =>
    cyclesThrough graph start (records.erase start) [start] start).eraseDups

/-- The records that lie on a cycle, each with the first cycle through it. -/
def recordsInCycles (graph : DelegationGraph) : List (String × List String) :=
  graph.cycles.foldl (fun found cycle =>
    cycle.foldl (fun found name =>
      if found.any (·.1 == name) then found else found ++ [(name, cycle)]) found) []

end DelegationGraph

end FluentBuilder
