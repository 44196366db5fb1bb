/-
  Jarvis.Workflows.Regions — what the validator's fan-out and cycle checks say of the graph.

  Without the bounded edges the graph is acyclic, which gives every node a rank that falls
  along each remaining edge. A child's region is acyclic with all its edges, holds no
  fan-out, join or finalize node, and leaves only to the fan-out's own join; following
  unbounded edges through it therefore ends at the join, whose rank is below the child's.
-/
import Jarvis.Workflows.ProtectedPaths
import Jarvis.Workflows.Routing

namespace Jarvis.Workflows

open Jarvis.Explore (reachable targets)

variable {spec : WorkflowSpec} {snapshot : WorkflowResolvedSnapshot}

theorem mem_pairs {edges : List WorkflowEdge} {a b : String} :
    (a, b) ∈ pairs edges ↔ ∃ edge ∈ edges, edge.source = a ∧ edge.target = b := by
  simp [pairs]

/-! ## The rank of a node -/

/-- The nodes in an order in which every unbounded edge points forward. -/
def unboundedOrder (spec : WorkflowSpec) : List String := (TopoSort.sort (pairs (unboundedEdges spec)) spec.nodeIds).1

/-- How many steps along unbounded edges a node is at most from the end. -/
def rank (spec : WorkflowSpec) (id : String) : Nat := TopoSort.rank (unboundedOrder spec) id

theorem unbounded_targets : ∀ id ∈ spec.nodeIds, targets (pairs (unboundedEdges spec)) id ⊆ spec.nodeIds := by
  intro id _ target ht
  obtain ⟨edge, hmem, -, rfl⟩ := mem_pairs.mp (Explore.mem_targets.mp ht)
  exact (spec.endpoints_mem edge (List.mem_filter.mp hmem).1).2

theorem Checked.ordered (h : Checked spec snapshot) {id : String} (hid : id ∈ spec.nodeIds) : id ∈ unboundedOrder spec := by
  have hg := h.graph
  unfold graphIssues at hg
  simp only [List.append_eq_nil_iff, List.map_eq_nil_iff] at hg
  have hcycle := hg.1.2.1
  by_contra hn
  have hmem : id ∈ (spec.nodeIds.filter fun id => id ∉ unboundedOrder spec).insertionSort fun a b => stringLe a b :=
    (List.perm_insertionSort _ _).mem_iff.mpr (List.mem_filter.mpr ⟨hid, decide_eq_true hn⟩)
  rw [unboundedOrder, hcycle] at hmem
  cases hmem

theorem Checked.rank_pos (h : Checked spec snapshot) {id : String} (hid : id ∈ spec.nodeIds) : 0 < rank spec id :=
  TopoSort.rank_pos (h.ordered hid)

theorem rank_le (id : String) : rank spec id ≤ spec.nodes.length := by
  have hlen := TopoSort.sort_length_le spec.node_ids (@unbounded_targets spec)
  have hrank := TopoSort.rank_le_length (unboundedOrder spec) id
  unfold rank
  unfold unboundedOrder at hrank ⊢
  simp only [WorkflowSpec.nodeIds, List.length_map] at hlen hrank ⊢
  omega

theorem Checked.rank_lt (h : Checked spec snapshot) {edge : WorkflowEdge} (he : edge ∈ spec.edges)
    (hb : edge.kind.bounded = false) : rank spec edge.target < rank spec edge.source := by
  have hmem : (edge.source, edge.target) ∈ pairs (unboundedEdges spec) :=
    mem_pairs.mpr ⟨edge, List.mem_filter.mpr ⟨he, by simp [hb]⟩, rfl, rfl⟩
  exact (TopoSort.sort_ordered spec.node_ids unbounded_targets).rank_lt hmem (h.ordered (spec.endpoints_mem edge he).2)

/-! ## Fan-outs -/

theorem fanoutLoop_nil {claimed owned : List String} : ∀ {nodes : List WorkflowNode},
    fanoutLoop spec claimed owned nodes = [] → ∀ node ∈ nodes, ∀ {children joinId maxFanout},
      node.config = .fanout children joinId maxFanout →
      ∃ claimed owned, (fanoutNodeIssues spec claimed owned node.id children joinId maxFanout).1 = [] := by
  intro nodes
  induction nodes generalizing claimed owned with
  | nil => intro _ node hn; cases hn
  | cons first nodes ih =>
    intro h node hn children joinId maxFanout hc
    rw [fanoutLoop] at h
    rcases List.mem_cons.mp hn with rfl | hn
    · rw [hc] at h
      simp only [List.append_eq_nil_iff] at h
      exact ⟨claimed, owned, h.1⟩
    · split at h
      · simp only [List.append_eq_nil_iff] at h
        exact ih h.2 node hn hc
      · exact ih h node hn hc

theorem childrenIssues_nil {fanoutId joinId : String} {allOwned : List String} : ∀ {children owned : List String},
    (childrenIssues spec fanoutId joinId allOwned owned children).1 = [] → ∀ child ∈ children,
      badChild spec joinId child = false ∧ ∃ owned, childIssues spec fanoutId joinId child owned = [] := by
  intro children
  induction children with
  | nil => intro _ _ child hc; cases hc
  | cons first children ih =>
    intro owned h child hc
    rw [childrenIssues] at h
    split at h
    · cases h
    · rename_i hbad
      simp only [List.append_eq_nil_iff] at h
      rcases List.mem_cons.mp hc with rfl | hc
      · exact ⟨by simpa using hbad, _, h.1⟩
      · exact ih h.2 child hc

/-- What the checks say of a child of a fan-out and its region. -/
structure RegionChecked (spec : WorkflowSpec) (fanoutId joinId child : String) : Prop where
  child_mem : child ∈ spec.nodeIds
  child_ne : child ≠ joinId
  acyclic : ∀ id ∈ region spec joinId child,
    id ∈ (TopoSort.sort (pairs (branchEdges spec (region spec joinId child))) (region spec joinId child)).1
  nodes : ∀ id ∈ region spec joinId child, ∀ node, spec.node? id = some node →
    regionNodeIssues spec fanoutId joinId child (region spec joinId child) node = []
  reentry : fanoutId ∉ reachable (pairs spec.edges) joinId none

/-- What the checks say of a fan-out. -/
structure FanoutChecked (spec : WorkflowSpec) (fanoutId : String) (children : List String) (joinId : String) : Prop where
  nonempty : children ≠ []
  nodup : children.Nodup
  join : ∃ node, spec.node? joinId = some node ∧ node.config = .join fanoutId
  edges : ∀ child ∈ children, ∃ edge ∈ spec.edges, edge.source = fanoutId ∧ edge.target = child ∧ edge.kind = .always
  regions : ∀ child ∈ children, RegionChecked spec fanoutId joinId child
  join_entry : ∀ edge ∈ spec.edges, edge.target = joinId → ∃ child ∈ children, edge.source ∈ region spec joinId child

/-- Without issues, the children own their regions, which are disjoint from each other and from
    what was owned before. -/
theorem childrenIssues_owned {fanoutId joinId : String} {allOwned : List String} : ∀ {children owned : List String},
    (childrenIssues spec fanoutId joinId allOwned owned children).1 = [] →
    (childrenIssues spec fanoutId joinId allOwned owned children).2 = owned ++ children.flatMap (region spec joinId) ∧
    (∀ child ∈ children, ∀ id ∈ region spec joinId child, id ∉ owned ++ allOwned) ∧
    children.Pairwise fun a b => ∀ id ∈ region spec joinId a, id ∉ region spec joinId b := by
  intro children
  induction children with
  | nil => intro owned _; exact ⟨by simp [childrenIssues], by simp, .nil⟩
  | cons child children ih =>
    intro owned h
    rw [childrenIssues] at h ⊢
    split at h
    · cases h
    · rename_i hbad
      simp only [List.append_eq_nil_iff] at h
      obtain ⟨howned, hdisjoint, hpairs⟩ := ih h.2
      have hown : ∀ id ∈ region spec joinId child, id ∉ owned ++ allOwned := by
        have hissues := h.1
        unfold childIssues at hissues
        simp only [List.append_eq_nil_iff, check_eq_nil, List.any_eq_false, decide_eq_true_eq] at hissues
        exact hissues.1.1.1
      refine ⟨?_, ?_, List.pairwise_cons.mpr ⟨fun other hother id hid hid' => ?_, hpairs⟩⟩
      · simp only [if_neg hbad]
        rw [howned, List.flatMap_cons, List.append_assoc]
      · intro c hc id hid hmem
        rcases List.mem_cons.mp hc with rfl | hc
        · exact hown id hid hmem
        · refine hdisjoint c hc id hid ?_
          rcases List.mem_append.mp hmem with hmem | hmem
          · exact List.mem_append_left _ (List.mem_append_left _ hmem)
          · exact List.mem_append_right _ hmem
      · exact hdisjoint other hother id hid' (List.mem_append_left _ (List.mem_append_right _ hid))

theorem Checked.fanoutChecked (h : Checked spec snapshot) {node : WorkflowNode} (hn : node ∈ spec.nodes)
    {children : List String} {joinId : String} {maxFanout : Nat} (hc : node.config = .fanout children joinId maxFanout) :
    FanoutChecked spec node.id children joinId := by
  obtain ⟨claimed, owned, hi⟩ := fanoutLoop_nil h.fanout node hn hc
  unfold fanoutNodeIssues at hi
  simp only [List.append_eq_nil_iff, check_eq_nil, Bool.or_eq_false_iff, Bool.not_eq_false', decide_eq_true_eq,
    List.any_eq_false] at hi
  obtain ⟨⟨⟨⟨⟨⟨hne, hnodup⟩, -⟩, hjoin, -⟩, hperm, hkinds⟩, hchildren⟩, hentry⟩ := hi
  refine ⟨by simpa using hne, hnodup, ?_, ?_, ?_, fun edge he ht => ?_⟩
  · cases hj : spec.node? joinId with
    | none => rw [hj] at hjoin; cases hjoin
    | some join =>
      rw [hj] at hjoin
      exact ⟨join, rfl, by simpa using hjoin⟩
  · intro child hchild
    have hmem := (List.isPerm_iff.mp hperm).mem_iff.mpr hchild
    obtain ⟨edge, hedge, rfl⟩ := List.mem_map.mp hmem
    obtain ⟨hin, hsource⟩ := List.mem_filter.mp hedge
    have hkind := hkinds edge hedge
    simp only [Bool.or_eq_true, bne_iff_ne, ne_eq, not_or, Decidable.not_not] at hkind
    exact ⟨edge, hin, by simpa using hsource, rfl, hkind.1⟩
  · intro child hchild
    obtain ⟨hbad, owned', hissues⟩ := childrenIssues_nil hchildren child (List.mem_eraseDups.mpr hchild)
    unfold badChild at hbad
    simp only [Bool.or_eq_false_iff, decide_eq_false_iff_not, Decidable.not_not, beq_eq_false_iff_ne] at hbad
    unfold childIssues at hissues
    simp only [List.append_eq_nil_iff, check_eq_nil, Bool.not_eq_false', List.all_eq_true, decide_eq_true_eq,
      List.flatMap_eq_nil_iff] at hissues
    refine ⟨hbad.1, hbad.2, hissues.1.1.2, fun id hid node hnode => ?_, by simpa using hissues.2⟩
    have := hissues.1.2 id hid
    rw [hnode] at this
    exact this
  · simp only [List.flatMap_eq_nil_iff, check_eq_nil, Bool.and_eq_false_iff, beq_eq_false_iff_ne,
      decide_eq_false_iff_not, Decidable.not_not] at hentry
    have hin := (hentry edge he).resolve_left fun hn => hn ht
    rw [(childrenIssues_owned hchildren).1, List.nil_append, List.mem_flatMap] at hin
    obtain ⟨child, hchild, hsource⟩ := hin
    exact ⟨child, List.mem_eraseDups.mp hchild, hsource⟩

namespace RegionChecked

variable {fanoutId joinId child : String}

theorem mem_nodeIds (h : RegionChecked spec fanoutId joinId child) {id : String} (hid : id ∈ region spec joinId child) :
    id ∈ spec.nodeIds := by
  obtain ⟨w, hw, -⟩ := mem_reachable_edges.mp hid
  exact Walk.mem_nodeIds hw h.child_mem

theorem child_mem_region (h : RegionChecked spec fanoutId joinId child) : child ∈ region spec joinId child :=
  mem_reachable_edges.mpr ⟨[], .nil, by simpa using h.child_ne.symm⟩

theorem join_not_mem : joinId ∉ region spec joinId child := by
  intro h
  obtain ⟨w, -, hstop⟩ := mem_reachable_edges.mp h
  exact hstop joinId (by simp) rfl

/-- A region's node is neither a fan-out, a join nor a finalize node, and writes only reduced
    channels. -/
theorem node_type (h : RegionChecked spec fanoutId joinId child) {node : WorkflowNode}
    (hid : node.id ∈ region spec joinId child) (hn : node ∈ spec.nodes) :
    node.type ≠ .fanout ∧ node.type ≠ .join ∧ ∀ c ∈ (nodeDefinitions node.type).outputs, c ∈ reducedChannels := by
  have hi := h.nodes node.id hid node (WorkflowSpec.node?_of_mem hn)
  unfold regionNodeIssues at hi
  simp only [List.append_eq_nil_iff, check_eq_nil, Bool.or_eq_false_iff, beq_eq_false_iff_ne, List.any_eq_false,
    decide_eq_true_eq, Decidable.not_not] at hi
  exact ⟨hi.1.1.1.1.1, hi.1.1.1.1.2, hi.1.1.1.2⟩

theorem not_finalize (h : RegionChecked spec fanoutId joinId child) {node : WorkflowNode}
    (hid : node.id ∈ region spec joinId child) (hn : node ∈ spec.nodes) : node.type ≠ .finalize := by
  intro hf
  have hreduced := (h.node_type hid hn).2.2
  rw [hf] at hreduced
  exact absurd (hreduced .final (by decide)) (by decide)

/-- A region's node has edges, and they stay in the region or enter the join. -/
theorem routes (h : RegionChecked spec fanoutId joinId child) {node : WorkflowNode}
    (hid : node.id ∈ region spec joinId child) (hn : node ∈ spec.nodes) :
    spec.outgoing node.id ≠ [] ∧
      ∀ edge ∈ spec.outgoing node.id, edge.target ∈ region spec joinId child ∨ edge.target = joinId := by
  have hi := h.nodes node.id hid node (WorkflowSpec.node?_of_mem hn)
  unfold regionNodeIssues at hi
  simp only [List.append_eq_nil_iff, check_eq_nil, Bool.or_eq_false_iff, List.any_eq_false] at hi
  obtain ⟨⟨-, hne, htargets⟩, -⟩ := hi
  refine ⟨fun he => ?_, fun edge he => ?_⟩
  · rw [WorkflowSpec.adjacency, he] at hne
    cases hne
  · have ht := htargets edge.target (List.mem_map.mpr ⟨edge, he, rfl⟩)
    simp only [Bool.and_eq_true, decide_eq_true_eq, bne_iff_ne, not_and, Decidable.not_not] at ht
    by_cases hr : edge.target ∈ region spec joinId child
    · exact .inl hr
    · exact .inr (ht hr)

end RegionChecked

/-! ## The rank of a node in its region -/

/-- How many nodes of the region a branch at `id` has left at most. -/
def regionRank (spec : WorkflowSpec) (joinId child id : String) : Nat :=
  TopoSort.rank (TopoSort.sort (pairs (branchEdges spec (region spec joinId child))) (region spec joinId child)).1 id

theorem branch_targets {nodes : List String} : ∀ id ∈ nodes, targets (pairs (branchEdges spec nodes)) id ⊆ nodes := by
  intro id _ target ht
  obtain ⟨edge, hmem, -, rfl⟩ := mem_pairs.mp (Explore.mem_targets.mp ht)
  have hin := (List.mem_filter.mp hmem).2
  rw [Bool.and_eq_true] at hin
  exact of_decide_eq_true hin.2

theorem regionRank_le (joinId child id : String) : regionRank spec joinId child id ≤ (region spec joinId child).length :=
  Nat.le_trans (TopoSort.rank_le_length _ id)
    (TopoSort.sort_length_le (Explore.reachable_nodup _ _ _) (branch_targets))

namespace RegionChecked

variable {fanoutId joinId child : String}

theorem regionRank_pos (h : RegionChecked spec fanoutId joinId child) {id : String}
    (hid : id ∈ region spec joinId child) : 0 < regionRank spec joinId child id :=
  TopoSort.rank_pos (h.acyclic id hid)

theorem regionRank_lt (h : RegionChecked spec fanoutId joinId child) {edge : WorkflowEdge} (he : edge ∈ spec.edges)
    (hs : edge.source ∈ region spec joinId child) (ht : edge.target ∈ region spec joinId child) :
    regionRank spec joinId child edge.target < regionRank spec joinId child edge.source := by
  have hmem : (edge.source, edge.target) ∈ pairs (branchEdges spec (region spec joinId child)) :=
    mem_pairs.mpr ⟨edge, List.mem_filter.mpr ⟨he, by simp [hs, ht]⟩, rfl, rfl⟩
  exact (TopoSort.sort_ordered (Explore.reachable_nodup _ _ _) branch_targets).rank_lt hmem (h.acyclic _ ht)

/-- A region leaves room for its join. -/
theorem region_length (h : RegionChecked spec fanoutId joinId child) (hj : joinId ∈ spec.nodeIds) :
    (region spec joinId child).length + 1 ≤ spec.nodes.length := by
  have hnodup : (joinId :: region spec joinId child).Nodup :=
    List.nodup_cons.mpr ⟨join_not_mem, Explore.reachable_nodup _ _ _⟩
  have hsub : (joinId :: region spec joinId child) ⊆ spec.nodeIds := by
    intro id hid
    rcases List.mem_cons.mp hid with rfl | hid
    · exact hj
    · exact h.mem_nodeIds hid
  have hlen := (List.subperm_of_subset hnodup hsub).length_le
  simpa [WorkflowSpec.nodeIds] using hlen

end RegionChecked

/-- A routed node has an edge that no counter bounds. -/
theorem Checked.unbounded_edge (h : Checked spec snapshot) {node : WorkflowNode} (hn : node ∈ spec.nodes)
    (hf : node.type ≠ .fanout) (hz : node.type ≠ .finalize) (ho : spec.outgoing node.id ≠ []) :
    ∃ edge ∈ spec.outgoing node.id, edge.kind.bounded = false := by
  obtain ⟨edge, hedge, -, hk⟩ | ⟨edge, hedge, -, hb⟩ := h.route_cases hn hf hz ho
  · exact ⟨edge, hedge, by rw [hk]; rfl⟩
  · exact ⟨edge, hedge, hb⟩

/-- The join stands below every node of the regions that lead to it. -/
theorem Checked.rank_join_lt (h : Checked spec snapshot) {fanoutId joinId child : String}
    (hr : RegionChecked spec fanoutId joinId child) : ∀ id ∈ region spec joinId child, rank spec joinId < rank spec id := by
  intro id hid
  -- by induction on the rank: some unbounded edge leaves the node, to the join or lower down
  induction hk : rank spec id using Nat.strongRecOn generalizing id with
  | _ k ih =>
    subst hk
    obtain ⟨node, hnode⟩ := WorkflowSpec.exists_node (hr.mem_nodeIds hid)
    obtain ⟨hn, rfl⟩ := WorkflowSpec.node?_eq_some.mp hnode
    obtain ⟨ho, htargets⟩ := hr.routes hid hn
    obtain ⟨edge, hedge, hb⟩ := h.unbounded_edge hn (hr.node_type hid hn).1 (hr.not_finalize hid hn) ho
    obtain ⟨hin, hsource⟩ := List.mem_filter.mp hedge
    have hlt := h.rank_lt hin hb
    rw [of_decide_eq_true hsource] at hlt
    rcases htargets edge hedge with ht | ht
    · exact Nat.lt_trans (ih _ hlt edge.target ht rfl) hlt
    · rw [← ht]
      exact hlt

theorem Checked.rank_fanout (h : Checked spec snapshot) {fanoutId joinId : String} {children : List String}
    (hf : FanoutChecked spec fanoutId children joinId) : rank spec joinId + 2 ≤ rank spec fanoutId := by
  obtain ⟨child, hchild⟩ := List.exists_mem_of_ne_nil _ hf.nonempty
  obtain ⟨edge, hin, hsource, htarget, hkind⟩ := hf.edges child hchild
  have hr := hf.regions child hchild
  have hjoin := h.rank_join_lt hr child hr.child_mem_region
  have hlt := h.rank_lt hin (by rw [hkind]; rfl)
  rw [hsource, htarget] at hlt
  omega

end Jarvis.Workflows
