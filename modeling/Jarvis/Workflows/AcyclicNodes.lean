/-
  Jarvis.Workflows.AcyclicNodes — `_acyclic_nodes`, on which the cycle checks of the validator
  and its depth limit rest.

  For any nodes and edges between them, in any order, with repeated edges and loops: visited are
  the nodes that no cycle leads to, and the depth is the number of nodes on a longest path of
  the visited part (`acyclicNodes_exact`). So in a workflow that passes the checks only bounded
  edges close a cycle, and no path without them has more than 500 nodes.
-/
import Jarvis.Lib.Levels
import Jarvis.Workflows.Regions

namespace Jarvis.Workflows

open Jarvis.TopoSort (Edge Behind Path LongestPath)
open Relation (TransGen)

/-- `_acyclic_nodes`: the visited nodes and the depth. The checks of the validator call it as
    `TopoSort.sort` on the pairs. -/
def acyclicNodes (nodes : List String) (edges : List WorkflowEdge) : List String × Nat := TopoSort.sort (pairs edges) nodes

theorem pairs_mem {nodes : List String} {edges : List WorkflowEdge}
    (hedges : ∀ edge ∈ edges, edge.source ∈ nodes ∧ edge.target ∈ nodes) : ∀ e ∈ pairs edges, e.1 ∈ nodes ∧ e.2 ∈ nodes := by
  intro e he
  obtain ⟨edge, hedge, rfl⟩ := List.mem_map.mp he
  exact hedges edge hedge

/-- The loop ends; it has visited the nodes that no cycle leads to, all of them exactly when there is
    no cycle; and the depth is the number of nodes on a longest path of the visited part. -/
theorem acyclicNodes_exact {nodes : List String} {edges : List WorkflowEdge} (hnodup : nodes.Nodup)
    (hedges : ∀ edge ∈ edges, edge.source ∈ nodes ∧ edge.target ∈ nodes) :
    (TopoSort.loop (pairs edges) nodes.length (TopoSort.start (pairs edges) nodes)).pending = [] ∧
    (∀ id, id ∈ (acyclicNodes nodes edges).1 ↔ id ∈ nodes ∧ ¬ Behind (pairs edges) id) ∧
    ((∀ id, id ∈ (acyclicNodes nodes edges).1 ↔ id ∈ nodes) ↔ ∀ id, ¬ TransGen (Edge (pairs edges)) id id) ∧
    LongestPath (pairs edges) (acyclicNodes nodes edges).1 (acyclicNodes nodes edges).2 := by
  have hpairs := pairs_mem hedges
  have hvisited : ∀ id, id ∈ (acyclicNodes nodes edges).1 ↔ id ∈ nodes ∧ ¬ Behind (pairs edges) id := fun _ =>
    TopoSort.mem_sort hnodup hpairs
  refine ⟨TopoSort.sort_pending hnodup hpairs, hvisited, ?_, TopoSort.sort_depth hnodup hpairs⟩
  rw [← TopoSort.sort_complete_iff hnodup hpairs]
  constructor
  · exact fun hall id hid => (hall id).mpr hid
  · exact fun hall id => ⟨fun hid => ((hvisited id).mp hid).1, hall id⟩

def alwaysEdge (id source target : String) : WorkflowEdge := { id, source, target, kind := .always }

/-- An edge twice, a node with an edge to itself, and one behind it. -/
def loopedEdges : List WorkflowEdge :=
  [alwaysEdge "e1" "c" "d", alwaysEdge "e2" "c" "c", alwaysEdge "e3" "a" "b", alwaysEdge "e4" "a" "b"]

theorem acyclicNodes_exact_looped : acyclicNodes ["d", "c", "b", "a"] loopedEdges = (["a", "b"], 2) ∧
    Behind (pairs loopedEdges) "d" ∧ LongestPath (pairs loopedEdges) ["a", "b"] 2 := by
  have hsort : acyclicNodes ["d", "c", "b", "a"] loopedEdges = (["a", "b"], 2) := by decide +kernel
  obtain ⟨-, hvisited, -, hdepth⟩ := @acyclicNodes_exact ["d", "c", "b", "a"] loopedEdges (by decide) (by decide)
  rw [hsort] at hvisited hdepth
  refine ⟨hsort, ?_, hdepth⟩
  by_contra hfree
  exact absurd ((hvisited "d").mpr ⟨by decide, hfree⟩) (by decide)

/-! ## Workflows that pass the checks -/

variable {spec : WorkflowSpec} {snapshot : WorkflowResolvedSnapshot}

theorem unboundedEdges_mem (edge : WorkflowEdge) (h : edge ∈ unboundedEdges spec) :
    edge.source ∈ spec.nodeIds ∧ edge.target ∈ spec.nodeIds :=
  spec.endpoints_mem edge (List.mem_of_mem_filter h)

/-- The nodes that `graph.unbounded_cycle` names are those that a cycle of unbounded edges leads to. -/
theorem mem_unboundedOrder {id : String} :
    id ∈ unboundedOrder spec ↔ id ∈ spec.nodeIds ∧ ¬ Behind (pairs (unboundedEdges spec)) id :=
  TopoSort.mem_sort spec.node_ids (pairs_mem unboundedEdges_mem)

/-- Every cycle has a bounded edge. -/
theorem Checked.no_unbounded_cycle (h : Checked spec snapshot) (id : String) :
    ¬ TransGen (Edge (pairs (unboundedEdges spec))) id id :=
  (TopoSort.sort_complete_iff spec.node_ids (pairs_mem unboundedEdges_mem)).mp (fun _ hid => h.ordered hid) id

/-- A path of unbounded edges has at most as many nodes as the limit on the depth. -/
theorem Checked.path_length_le (h : Checked spec snapshot) {path : List String}
    (hpath : Path (pairs (unboundedEdges spec)) spec.nodeIds path) : path.length ≤ maxGraphDepth := by
  have hlongest := TopoSort.sort_depth spec.node_ids (pairs_mem unboundedEdges_mem)
  have hle := hlongest.2 path ⟨hpath.chain, fun id hid => h.ordered (hpath.inside hid)⟩
  have hlimit : ¬ maxGraphDepth < (TopoSort.sort (pairs (unboundedEdges spec)) spec.nodeIds).2 := by
    have hg := h.graph
    unfold graphIssues at hg
    simp only [List.append_eq_nil_iff, check_eq_nil, decide_eq_false_iff_not] at hg
    exact hg.1.2.2
  exact Nat.le_trans hle (Nat.not_lt.mp hlimit)

/-- The region of a child has no cycle at all. -/
theorem RegionChecked.no_cycle {fanoutId joinId child : String} (h : RegionChecked spec fanoutId joinId child) (id : String) :
    ¬ TransGen (Edge (pairs (branchEdges spec (region spec joinId child)))) id id := by
  have hnodup : (region spec joinId child).Nodup := Explore.reachable_nodup _ _ _
  refine (TopoSort.sort_complete_iff hnodup (pairs_mem fun edge hedge => ?_)).mp h.acyclic id
  simpa using (List.mem_filter.mp hedge).2

end Jarvis.Workflows
