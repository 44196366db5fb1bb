/-
  Jarvis.Workflows.Routing — `_choose_route` and `_superstep_limit` are total on validated
  workflows.

  `Checked` is what a valid report says of the normalized workflow. A node with conditional
  routes has exactly one fallback, so the loop always ends in a route; a node without has
  one unconditional edge, which is taken. A RETRY edge's policy reference resolves to a
  retry policy with a rule for its class, so no lookup fails.
-/
import Jarvis.Workflows.Compiler

namespace Jarvis.Workflows

/-- What `validate_workflow` has checked of a normalized workflow it reports as valid. -/
structure Checked (spec : WorkflowSpec) (snapshot : WorkflowResolvedSnapshot) : Prop where
  graph : graphIssues spec = []
  fanout : fanoutIssues spec = []
  policy : policyIssues spec (some snapshot) = []
  guarded : protectedPaths spec = []
  revisions : (snapshot.revisions.map (·.revisionId)).Nodup

theorem checked_of_valid {digests : Digests} {spec : WorkflowSpec} {snapshot : WorkflowResolvedSnapshot}
    (h : (validateWorkflow digests spec (some snapshot)).1 = true) : Checked (normalizeWorkflow spec) snapshot := by
  have hnil : workflowIssues digests spec (some snapshot) = [] := by
    unfold validateWorkflow at h
    cases hi : workflowIssues digests spec (some snapshot) with
    | nil => rfl
    | cons issue issues =>
      rw [hi] at h
      simp [List.eraseDups_cons] at h
  unfold workflowIssues at hnil
  simp only [List.append_eq_nil_iff] at hnil
  obtain ⟨⟨⟨⟨⟨-, hgraph⟩, hfanout⟩, hpolicy⟩, hguarded⟩, hsnapshot⟩ := hnil
  unfold snapshotIssues at hsnapshot
  simp only [List.append_eq_nil_iff, check_eq_nil, Bool.not_eq_false', decide_eq_true_eq] at hsnapshot
  exact ⟨hgraph, hfanout, hpolicy, hguarded, hsnapshot.1.2⟩

namespace Checked

variable {spec : WorkflowSpec} {snapshot : WorkflowResolvedSnapshot}

theorem nodeGraph (h : Checked spec snapshot) {node : WorkflowNode} (hn : node ∈ spec.nodes) :
    nodeGraphIssues spec node = [] := by
  have hg := h.graph
  unfold graphIssues at hg
  simp only [List.append_eq_nil_iff, List.flatMap_eq_nil_iff] at hg
  exact hg.1.1.2 node hn

/-- The routing rules hold at every node that is routed. -/
theorem routing (h : Checked spec snapshot) {node : WorkflowNode} (hn : node ∈ spec.nodes) (hf : node.type ≠ .fanout)
    (hz : node.type ≠ .finalize) (hc : conditional (spec.outgoing node.id) = true) :
    ((spec.outgoing node.id).filter (·.fallback)).length = 1 ∧ ∀ edge ∈ spec.outgoing node.id, routeIssues edge = [] := by
  have hg := h.nodeGraph hn
  unfold nodeGraphIssues at hg
  simp only [List.append_eq_nil_iff] at hg
  have hr := hg.2
  have hne : (spec.outgoing node.id).isEmpty = false := by
    cases ho : spec.outgoing node.id with
    | nil => rw [ho] at hc; cases hc
    | cons _ _ => rfl
  unfold nodeRoutingIssues at hr
  have hcond : (node.type == .fanout || node.type == .finalize || (spec.outgoing node.id).isEmpty ||
      !conditional (spec.outgoing node.id)) = false := by
    simp [hf, hz, hne, hc]
  simp only [hcond, Bool.false_eq_true, if_false, List.append_eq_nil_iff, check_eq_nil, bne_eq_false_iff_eq,
    List.flatMap_eq_nil_iff] at hr
  exact ⟨hr.1.1, hr.2⟩

/-- No counter bounds the fallback of a node with conditional routes. -/
theorem fallback_unbounded (h : Checked spec snapshot) {node : WorkflowNode} (hn : node ∈ spec.nodes)
    (hf : node.type ≠ .fanout) (hz : node.type ≠ .finalize) (hc : conditional (spec.outgoing node.id) = true)
    {edge : WorkflowEdge} (he : edge ∈ spec.outgoing node.id) (hfb : edge.fallback = true) :
    edge.kind.bounded = false := by
  have hr := (h.routing hn hf hz hc).2 edge he
  unfold routeIssues at hr
  by_contra hb
  simp [hfb, Bool.not_eq_false] at hr hb
  simp [hb] at hr

/-- The node's policy references resolve to revisions of their kind. -/
theorem ref (h : Checked spec snapshot) {node : WorkflowNode} (hn : node ∈ spec.nodes)
    {reference : Option RevisionId × ConfigurationKind × String}
    (hr : reference ∈ policyRefs (effectivePolicy spec node)) {id : RevisionId} (hid : reference.1 = some id) :
    ∃ revision, snapshot.revision? id = some revision ∧ revision.spec.kind = reference.2.1 := by
  have hp := h.policy
  unfold policyIssues at hp
  simp only [List.append_eq_nil_iff, List.flatMap_eq_nil_iff] at hp
  have hnode := hp.1 node hn
  unfold nodePolicyIssues at hnode
  simp only [List.append_eq_nil_iff] at hnode
  have hs := hnode.2
  unfold nodeSnapshotIssues at hs
  simp only [List.append_eq_nil_iff, List.flatMap_eq_nil_iff] at hs
  have hi := hs.1.1.1 reference hr
  unfold refIssues at hi
  rw [hid] at hi
  simp only at hi
  cases hrev : snapshot.revision? id with
  | none => rw [hrev] at hi; cases hi
  | some revision =>
    rw [hrev] at hi
    refine ⟨revision, rfl, ?_⟩
    by_contra hk
    simp [hk] at hi

theorem revision_first (h : Checked spec snapshot) {id : RevisionId} {revision : WorkflowResolvedRevision}
    (hr : snapshot.revision? id = some revision) :
    snapshot.revisions.find? (fun r => some r.revisionId = some id) = some revision := by
  have hrev : (snapshot.revisions.reverse.map (·.revisionId)).Nodup := by
    rw [List.map_reverse, List.nodup_reverse]
    exact h.revisions
  obtain ⟨hmem, hid⟩ := (find?_key hrev).mp hr
  simp only [Option.some.injEq]
  exact (find?_key h.revisions).mpr ⟨by simpa using hmem, hid⟩

/-- A retry edge has a policy with a rule for its class. -/
theorem retry (h : Checked spec snapshot) {edge : WorkflowEdge} (he : edge ∈ spec.edges) (hk : edge.kind = .retry)
    {node : WorkflowNode} (hn : node ∈ spec.nodes) (hs : edge.source = node.id) :
    ∃ id revision policy rule, (effectivePolicy spec node).retryPolicyRef = some id ∧
      snapshot.revision? id = some revision ∧ revision.spec = .retryPolicy policy ∧
      retryPolicyOf (some snapshot) (policyOf spec edge.source) = some policy ∧
      policy.rule? edge.retryClass = some rule := by
  have hpolicy : policyOf spec edge.source = effectivePolicy spec node := by
    simp [policyOf, hs, WorkflowSpec.node?_of_mem hn]
  have hp := h.policy
  unfold policyIssues at hp
  simp only [List.append_eq_nil_iff, List.flatMap_eq_nil_iff] at hp
  have hi := hp.2 edge (List.mem_filter.mpr ⟨he, decide_eq_true hk⟩)
  unfold retryIssues at hi
  rw [hpolicy] at hi
  simp only [List.append_eq_nil_iff] at hi
  replace hi := hi.2
  cases hid : (effectivePolicy spec node).retryPolicyRef with
  | none => rw [hid] at hi; cases hi
  | some id =>
    have href : (some id, ConfigurationKind.retryPolicy, "retry_policy_ref") ∈ policyRefs (effectivePolicy spec node) := by
      simp [policyRefs, hid]
    obtain ⟨revision, hrev, hkind⟩ := h.ref hn href rfl
    cases hspec : revision.spec with
    | retryPolicy policy =>
      have hof : retryPolicyOf (some snapshot) (effectivePolicy spec node) = some policy := by
        simp only [retryPolicyOf, hid, Option.bind_some, revisionOf, hrev]
        obtain ⟨_, _, _, _, _, _, _, _, _⟩ := revision
        cases hspec
        rfl
      simp only [hid, hof] at hi
      unfold retryRuleIssues at hi
      cases hrule : policy.rule? edge.retryClass with
      | none => rw [hrule] at hi; cases hi
      | some rule => exact ⟨id, revision, policy, rule, rfl, hrev, hspec, hpolicy ▸ hof, hrule⟩
    | _ => rw [hspec] at hkind; cases hkind

end Checked

/-! ## Routes -/

theorem mem_routeEdges {spec : WorkflowSpec} {id : String} {edge : WorkflowEdge} :
    edge ∈ routeEdges spec id ↔ edge ∈ spec.outgoing id :=
  (List.perm_insertionSort _ _).mem_iff

/-- A route along one of the edges of a node, or one of the two errors of an iterator. -/
def Routed (edges : List WorkflowEdge) (result : Except Raised Route) : Prop :=
  (∃ edge ∈ edges, ∃ counters, result = .ok (edge.target, counters)) ∨
  ∃ edge ∈ edges, edge.kind = .iterate ∧
    (result = .error (.invariant ("Iterator " ++ edge.id ++ " did not make monotonic progress")) ∨
      result = .error (.invariant ("Iterator " ++ edge.id ++ " exceeded its hard bound")))

theorem iterateRoute_routed {edges : List WorkflowEdge} {edge : WorkflowEdge} (he : edge ∈ edges) (hk : edge.kind = .iterate)
    (state : WorkflowStateV1) : Routed edges (iterateRoute state edge) := by
  unfold iterateRoute
  dsimp only
  split
  · split
    · exact .inr ⟨edge, he, hk, .inl rfl⟩
    · split
      · split
        · exact .inr ⟨edge, he, hk, .inr rfl⟩
        · exact .inl ⟨edge, he, _, rfl⟩
      · exact .inr ⟨edge, he, hk, .inr rfl⟩
  · exact .inr ⟨edge, he, hk, .inl rfl⟩

theorem retryRoute_routed {spec : WorkflowSpec} {snapshot : WorkflowResolvedSnapshot} (h : Checked spec snapshot)
    {node : WorkflowNode} (hn : node ∈ spec.nodes) {edges : List WorkflowEdge} {edge fallback : WorkflowEdge}
    (he : edge ∈ edges) (hmem : edge ∈ spec.edges) (hs : edge.source = node.id) (hk : edge.kind = .retry)
    (hf : fallback ∈ edges) {cls : FailureClass} (hc : edge.retryClass = some cls) (state : WorkflowStateV1) :
    Routed edges (retryRoute spec snapshot node (some fallback) state edge cls) := by
  obtain ⟨id, revision, policy, rule, hid, hrev, hspec, -, hrule⟩ := h.retry hmem hk hn hs
  rw [hc] at hrule
  unfold retryRoute
  rw [hid, h.revision_first hrev]
  simp only [hspec, hrule]
  split
  · exact .inl ⟨fallback, hf, _, rfl⟩
  · exact .inl ⟨edge, he, _, rfl⟩

/-- With a fallback the loop always finds a route. -/
theorem chooseFrom_routed {spec : WorkflowSpec} {snapshot : WorkflowResolvedSnapshot} (h : Checked spec snapshot)
    {node : WorkflowNode} (hn : node ∈ spec.nodes) {edges : List WorkflowEdge} {fallback : WorkflowEdge}
    (hf : fallback ∈ edges) (state : WorkflowStateV1) : ∀ left : List WorkflowEdge, left ⊆ edges →
    (∀ edge ∈ left, edge ∈ spec.outgoing node.id) →
    Routed edges (chooseFrom spec snapshot node (some fallback) state left) := by
  intro left
  induction left with
  | nil => intro _ _; exact .inl ⟨fallback, hf, _, rfl⟩
  | cons edge left ih =>
    intro hsub hout
    have he : edge ∈ edges := hsub List.mem_cons_self
    obtain ⟨hmem, hs⟩ := List.mem_filter.mp (hout edge List.mem_cons_self)
    rw [decide_eq_true_eq] at hs
    unfold chooseFrom
    split
    · exact ih (fun e h => hsub (List.mem_cons_of_mem _ h)) fun e h => hout e (List.mem_cons_of_mem _ h)
    · split
      · rename_i hk hc
        exact retryRoute_routed h hn he hmem hs hk hf hc state
      · rename_i hk
        exact iterateRoute_routed he hk state
      · exact .inl ⟨edge, he, _, rfl⟩

/-- Without a condition the one edge is taken. -/
theorem chooseRoute_single {spec : WorkflowSpec} {snapshot : WorkflowResolvedSnapshot} {node : WorkflowNode}
    {edge : WorkflowEdge} (hk : edge.kind = .always) (state : WorkflowStateV1) :
    chooseRoute spec snapshot node [edge] state = .ok (edge.target, []) := by
  have hw := edge.always_when hk
  cases hf : edge.fallback with
  | true => simp [chooseRoute, chooseFrom, skips, hf]
  | false => simp [chooseRoute, chooseFrom, skips, hf, hw, hk]

/-- A routed node has one unconditional edge, or a fallback that no counter bounds. -/
theorem Checked.route_cases {spec : WorkflowSpec} {snapshot : WorkflowResolvedSnapshot} (h : Checked spec snapshot)
    {node : WorkflowNode} (hn : node ∈ spec.nodes) (hf : node.type ≠ .fanout) (hz : node.type ≠ .finalize)
    (ho : spec.outgoing node.id ≠ []) :
    (∃ edge ∈ spec.outgoing node.id, routeEdges spec node.id = [edge] ∧ edge.kind = .always) ∨
    ∃ edge ∈ spec.outgoing node.id, (routeEdges spec node.id).find? (·.fallback) = some edge ∧
      edge.kind.bounded = false := by
  cases hc : conditional (spec.outgoing node.id) with
  | true =>
    right
    obtain ⟨edge, hmem⟩ := List.exists_mem_of_length_pos ((h.routing hn hf hz hc).1 ▸ Nat.one_pos)
    obtain ⟨hedge, hfb⟩ := List.mem_filter.mp hmem
    have hsome : ((routeEdges spec node.id).find? (·.fallback)).isSome := by
      rw [List.find?_isSome]
      exact ⟨edge, mem_routeEdges.mpr hedge, hfb⟩
    obtain ⟨fallback, hfind⟩ := Option.isSome_iff_exists.mp hsome
    have hfallback := mem_routeEdges.mp (List.mem_of_find?_eq_some hfind)
    exact ⟨fallback, hfallback, hfind, h.fallback_unbounded hn hf hz hc hfallback (List.find?_some hfind)⟩
  | false =>
    left
    unfold conditional at hc
    simp only [Bool.or_eq_false_iff, decide_eq_false_iff_not, List.any_eq_false, bne_iff_ne, ne_eq,
      Decidable.not_not] at hc
    cases hl : spec.outgoing node.id with
    | nil => exact absurd hl ho
    | cons edge rest =>
      cases rest with
      | nil => exact ⟨edge, by simp, by simp [routeEdges, hl], hc.2 edge (by simp [hl])⟩
      | cons _ _ => rw [hl] at hc; simp at hc

theorem Checked.routed {spec : WorkflowSpec} {snapshot : WorkflowResolvedSnapshot} (h : Checked spec snapshot)
    {node : WorkflowNode} (hn : node ∈ spec.nodes) (hf : node.type ≠ .fanout) (hz : node.type ≠ .finalize)
    (ho : spec.outgoing node.id ≠ []) (state : WorkflowStateV1) :
    Routed (spec.outgoing node.id) (chooseRoute spec snapshot node (routeEdges spec node.id) state) := by
  obtain ⟨edge, hedge, hr, hk⟩ | ⟨edge, hedge, hfind, -⟩ := h.route_cases hn hf hz ho
  · rw [hr, chooseRoute_single hk]
    exact .inl ⟨edge, hedge, _, rfl⟩
  · unfold chooseRoute
    rw [hfind]
    refine chooseFrom_routed h hn hedge state _ ?_ ?_
    all_goals exact fun e he => mem_routeEdges.mp he

theorem Checked.edgeLimit_retry {spec : WorkflowSpec} {snapshot : WorkflowResolvedSnapshot} (h : Checked spec snapshot)
    {edge : WorkflowEdge} (he : edge ∈ spec.edges) (hk : edge.kind = .retry) :
    ∃ policy rule, retryPolicyOf (some snapshot) (policyOf spec edge.source) = some policy ∧
      policy.rule? edge.retryClass = some rule ∧
      edgeLimit spec snapshot edge = .ok (some (retryKey edge.source rule.failureClass, rule.maxRetries)) := by
  obtain ⟨node, hnode⟩ := WorkflowSpec.exists_node (spec.endpoints_mem edge he).1
  obtain ⟨hn, hid⟩ := WorkflowSpec.node?_eq_some.mp hnode
  obtain ⟨-, -, policy, rule, -, -, -, hpolicy, hrule⟩ := h.retry he hk hn hid.symm
  exact ⟨policy, rule, hpolicy, hrule, by simp [edgeLimit, hk, hpolicy, hrule]⟩

theorem Checked.limits {spec : WorkflowSpec} {snapshot : WorkflowResolvedSnapshot} (h : Checked spec snapshot) :
    ∀ edges : List WorkflowEdge, edges ⊆ spec.edges → ∀ limits, ∃ limits', limitsFrom spec snapshot limits edges = .ok limits' := by
  intro edges
  induction edges with
  | nil => intro _ limits; exact ⟨limits, rfl⟩
  | cons edge edges ih =>
    intro hsub limits
    have hrest : edges ⊆ spec.edges := fun e he => hsub (List.mem_cons_of_mem _ he)
    have hlimit : ∃ limit, edgeLimit spec snapshot edge = .ok limit := by
      by_cases hk : edge.kind = .retry
      · obtain ⟨_, _, -, -, hl⟩ := h.edgeLimit_retry (hsub List.mem_cons_self) hk
        exact ⟨_, hl⟩
      · unfold edgeLimit
        split
        · exact ⟨_, rfl⟩
        · contradiction
        · exact ⟨_, rfl⟩
    obtain ⟨limit, hlimit⟩ := hlimit
    unfold limitsFrom
    rw [hlimit]
    cases limit with
    | none => exact ih hrest _
    | some entry => exact ih hrest _

theorem Checked.superstepLimit {spec : WorkflowSpec} {snapshot : WorkflowResolvedSnapshot} (h : Checked spec snapshot) :
    ∃ limits, limitsFrom spec snapshot .empty spec.edges = .ok limits ∧
      superstepLimit spec snapshot = .ok (spec.nodes.length * (1 + (limits.entries.map Prod.snd).sum) + 2) := by
  obtain ⟨limits, hl⟩ := h.limits spec.edges (fun _ he => he) .empty
  exact ⟨limits, hl, by simp [Workflows.superstepLimit, hl]⟩

/-! ## The edge a route takes -/

section

variable {spec : WorkflowSpec} {snapshot : WorkflowResolvedSnapshot}

theorem progressKey_ne (key : String) : progressKey key ≠ iterateKey key := by
  intro h
  have hl := congrArg String.length h
  simp [progressKey, String.length_append] at hl

theorem rule?_class {policy : RetryRegistrySpec} {cls : Option FailureClass} {rule : RetryRule}
    (h : policy.rule? cls = some rule) : cls = some rule.failureClass := by
  have := List.find?_some h
  simpa using Eq.symm (of_decide_eq_true this)

variable (spec snapshot) in
/-- A route along an edge of a node: an unbounded one, or one whose counter it raises. -/
structure Takes (node : WorkflowNode) (state : WorkflowStateV1) (route : Route) (edge : WorkflowEdge) : Prop where
  mem : edge ∈ spec.edges
  source : edge.source = node.id
  target : edge.target = route.1
  raises : edge.kind.bounded = false ∨ ∃ key bound, edgeLimit spec snapshot edge = .ok (some (key, bound)) ∧
    state.counter key < bound ∧ ∀ d : Dict String Int, (d.update route.2).get? key = some (state.counter key + 1)

theorem retryRoute_takes (h : Checked spec snapshot) {node : WorkflowNode} (hn : node ∈ spec.nodes)
    {edge fallback : WorkflowEdge} (he : edge ∈ spec.edges) (hs : edge.source = node.id) (hk : edge.kind = .retry)
    {cls : FailureClass} (hc : edge.retryClass = some cls) {state : WorkflowStateV1} {route : Route}
    (hr : retryRoute spec snapshot node (some fallback) state edge cls = .ok route) :
    (fallback.target = route.1) ∨ Takes spec snapshot node state route edge := by
  obtain ⟨id, revision, policy, rule, hid, hrev, hspec, hpolicy, hrule⟩ := h.retry he hk hn hs
  have hcls : rule.failureClass = cls := by
    have := rule?_class hrule
    rw [hc] at this
    exact (Option.some.inj this).symm
  rw [hc] at hrule
  unfold retryRoute at hr
  rw [hid, h.revision_first hrev] at hr
  simp only [hspec, hrule] at hr
  split at hr
  · cases hr
    exact .inl rfl
  · rename_i hlt
    cases hr
    refine .inr ⟨he, hs, rfl, .inr ⟨retryKey node.id cls, rule.maxRetries, ?_, by omega, fun d => ?_⟩⟩
    · rw [hs] at hpolicy
      simp [edgeLimit, hk, hpolicy, hc, hrule, hs, hcls]
    · simp [Dict.update]

theorem iterateRoute_takes {node : WorkflowNode} {edge : WorkflowEdge} (he : edge ∈ spec.edges)
    (hs : edge.source = node.id) (hk : edge.kind = .iterate) {state : WorkflowStateV1} {route : Route}
    (hr : iterateRoute state edge = .ok route) : Takes spec snapshot node state route edge := by
  unfold iterateRoute at hr
  dsimp only at hr
  split at hr
  · split at hr
    · cases hr
    · split at hr
      · rename_i bound hb
        split at hr
        · cases hr
        · cases hr
          refine ⟨he, hs, rfl, .inr ⟨iterateKey (edge.iterationKey.getD ""), bound, ?_, by omega, fun d => ?_⟩⟩
          · simp [edgeLimit, hk, hb]
          · simp only [Dict.update, List.foldl_cons, List.foldl_nil]
            rw [Dict.get?_insert_of_ne _ _ (progressKey_ne _).symm, Dict.get?_insert_self]
      · cases hr
  · cases hr

theorem chooseFrom_takes (h : Checked spec snapshot) {node : WorkflowNode} (hn : node ∈ spec.nodes)
    {fallback : WorkflowEdge} (hf : fallback ∈ spec.outgoing node.id) (hfb : fallback.kind.bounded = false)
    {state : WorkflowStateV1} {route : Route} : ∀ {left : List WorkflowEdge}, left ⊆ spec.outgoing node.id →
    chooseFrom spec snapshot node (some fallback) state left = .ok route →
    ∃ edge, Takes spec snapshot node state route edge := by
  obtain ⟨hfmem, hfs⟩ := List.mem_filter.mp hf
  have hfall : fallback.target = route.1 → ∃ edge, Takes spec snapshot node state route edge := fun ht =>
    ⟨fallback, hfmem, of_decide_eq_true hfs, ht, .inl hfb⟩
  intro left
  induction left with
  | nil =>
    intro _ hr
    cases hr
    exact hfall rfl
  | cons edge left ih =>
    intro hsub hr
    obtain ⟨he, hs⟩ := List.mem_filter.mp (hsub List.mem_cons_self)
    rw [decide_eq_true_eq] at hs
    unfold chooseFrom at hr
    split at hr
    · exact ih (fun e h => hsub (List.mem_cons_of_mem _ h)) hr
    · split at hr
      · rename_i hk hc
        exact (retryRoute_takes h hn he hs hk hc hr).elim hfall fun ht => ⟨edge, ht⟩
      · rename_i hk
        exact ⟨edge, iterateRoute_takes he hs hk hr⟩
      · rename_i hiter hretry
        cases hr
        refine ⟨edge, he, hs, rfl, .inl ?_⟩
        cases hk : edge.kind with
        | retry =>
          obtain ⟨cls, hc⟩ := Option.isSome_iff_exists.mp (edge.retry_class hk)
          exact absurd hc (hretry cls hk)
        | iterate => exact absurd hk hiter
        | _ => rfl

theorem Checked.finalize_outgoing (h : Checked spec snapshot) {node : WorkflowNode} (hn : node ∈ spec.nodes)
    (hz : node.type = .finalize) : spec.outgoing node.id = [] := by
  have hg := h.graph
  unfold graphIssues at hg
  simp only [List.append_eq_nil_iff, List.flatMap_eq_nil_iff, check_eq_nil, Bool.not_eq_false'] at hg
  have hempty := hg.1.1.1 node (List.mem_filter.mpr ⟨hn, decide_eq_true hz⟩)
  simpa [WorkflowSpec.adjacency] using hempty

theorem Checked.takes (h : Checked spec snapshot) {node : WorkflowNode} (hn : node ∈ spec.nodes)
    (hf : node.type ≠ .fanout) {state : WorkflowStateV1} {route : Route}
    (hr : chooseRoute spec snapshot node (routeEdges spec node.id) state = .ok route) :
    ∃ edge, Takes spec snapshot node state route edge := by
  have ho : spec.outgoing node.id ≠ [] := by
    intro ho
    simp [routeEdges, ho, chooseRoute, chooseFrom] at hr
  have hz : node.type ≠ .finalize := fun hz => ho (h.finalize_outgoing hn hz)
  obtain ⟨edge, hedge, he, hk⟩ | ⟨edge, hedge, hfind, hb⟩ := h.route_cases hn hf hz ho
  · rw [he, chooseRoute_single hk] at hr
    cases hr
    obtain ⟨hmem, hs⟩ := List.mem_filter.mp hedge
    exact ⟨edge, hmem, of_decide_eq_true hs, rfl, .inl (by rw [hk]; rfl)⟩
  · unfold chooseRoute at hr
    rw [hfind] at hr
    exact chooseFrom_takes h hn hedge hb (fun e he => mem_routeEdges.mp he) hr

end

/-! ## Totality -/

/-- On a validated workflow every routed node has a route, or an iterator's own error, in every
    state, and the step budget is defined. -/
theorem routing_total {digests : Digests} {spec : WorkflowSpec} {snapshot : WorkflowResolvedSnapshot}
    (h : (validateWorkflow digests spec (some snapshot)).1 = true) :
    (∀ node ∈ (normalizeWorkflow spec).nodes, node.type ≠ .fanout → node.type ≠ .finalize →
      (normalizeWorkflow spec).outgoing node.id ≠ [] → ∀ state,
        Routed ((normalizeWorkflow spec).outgoing node.id)
          (chooseRoute (normalizeWorkflow spec) snapshot node (routeEdges (normalizeWorkflow spec) node.id) state)) ∧
    ∃ limit, superstepLimit (normalizeWorkflow spec) snapshot = .ok limit := by
  have hc := checked_of_valid h
  refine ⟨fun node hn hf hz ho state => hc.routed hn hf hz ho state, ?_⟩
  obtain ⟨limits, -, hl⟩ := hc.superstepLimit
  exact ⟨_, hl⟩

/-! ## A validated workflow -/

/-- A snapshot of active revisions with the given specifications, numbered from `1`. -/
def snapshotOf (specs : List RegistrySpec) : WorkflowResolvedSnapshot where
  workflowContentHash := "content"
  compilerVersion := "1.0.0"
  revisions := specs.mapIdx fun index spec =>
    { revisionId := index + 1, key := "entry", revision := 1, displayName := "Entry", description := "",
      enabled := true, archived := false, spec := spec, contentHash := "revision" }

/-- Digests that agree with `snapshotOf`. -/
def sampleDigests : Digests where
  content := fun _ => "content"
  revision := fun _ => "revision"

/-- One timeout retry for a failing node, which ends the workflow as failed. -/
def timeoutRetry : RetryRegistrySpec where
  rules := [{ failureClass := .infrastructureTimeout, maxRetries := 1, exhaustionAction := .fail }]
  unique_classes := by decide

/-- The revisions the sample workflows refer to: a retry policy, a permission policy, a worker,
    and a model route with its profile and provider. -/
def sampleSnapshot : WorkflowResolvedSnapshot := snapshotOf
  [.retryPolicy timeoutRetry,
    .permissionPolicy
      { allowedCapabilities := ["code", "git", "tests"], deniedCapabilities := [], approvalRequiredActions := [],
        shell := .allow, git := .allow },
    .worker
      { adapterKind := .demo, capabilities := ["code", "git", "tests"], maxConcurrency := 1, bindingMode := .none,
        allowedProfileRevisionIds := [] },
    .routePolicy { candidates := [5], requiredCapabilities := [], purposes := ["reviewer"] },
    .modelProfile
      { providerRevisionId := 6, purposes := ["reviewer"], capabilities := ["chat"], structuredJson := false,
        toolCalls := false, streaming := false, locality := .localHost, parameters := [] },
    .provider { providerKind := .demo, locality := .localHost, retryPolicyRevisionId := none }]

/-- The policy defaults of the sample workflows. -/
def sampleDefaults : NodePolicy where
  workerSelector := some { revisionId := 3, requires := [] }
  modelRouteRef := none
  retryPolicyRef := some 1
  permissionPolicyRef := some 2
  verification := some { required := true, executionProfileRevisionIds := [], requiredAcceptanceChecks := [] }
  timeoutSeconds := some 60

/-- The node reported no failure. -/
def noFailure : Predicate := .not (.exists_ "$.outcome.failure_class") .null

/-- Build, verify, review: the build is retried once after a timeout. -/
def retriedBuild : WorkflowSpec where
  entrypoint := "build"
  defaults := sampleDefaults
  nodes := [{ id := "build", config := .worker }, { id := "check", config := .verify },
    { id := "review", config := .reviewer, policy := { modelRouteRef := some 4 } },
    { id := "done", config := .finalize .derive }, { id := "stop", config := .finalize .failed }]
  edges := [
    { id := "again", source := "build", target := "build", kind := .retry, retryClass := some .infrastructureTimeout },
    { id := "built", source := "build", target := "check", kind := .onResult, when := some noFailure, priority := 1 },
    { id := "given-up", source := "build", target := "stop", kind := .always, fallback := true, priority := 2 },
    { id := "checked", source := "check", target := "review", kind := .always },
    { id := "reviewed", source := "review", target := "done", kind := .always }]
  node_ids := by decide
  edge_ids := by decide
  entrypoint_mem := by decide
  endpoints_mem := by decide

theorem routing_total_retriedBuild :
    (validateWorkflow sampleDigests retriedBuild (some sampleSnapshot)).1 = true ∧
    ∃ limit, superstepLimit (normalizeWorkflow retriedBuild) sampleSnapshot = .ok limit := by
  have h : (validateWorkflow sampleDigests retriedBuild (some sampleSnapshot)).1 = true := by decide
  exact ⟨h, (routing_total h).2⟩

end Jarvis.Workflows
