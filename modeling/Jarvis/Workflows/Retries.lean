/-
  Jarvis.Workflows.Retries — the compiler's RETRY routes and the policy's decisions agree.

  A route that sets a retry counter is a RETRY edge taken below the rule's maximum, for a
  class the validation lets be retried (`Checked.retries`); `evaluate_retry` on the count
  before it decides the same (`evaluateRetry_retries`). So the observer's loop over an
  update's counters never finds a disagreement and moves one row, by one (`consumed_rows`).
  A branch has no RETRY edge: its fallback would have to end the workflow or ask for an
  approval (`RegionChecked.not_retry`).
-/
import Jarvis.Workflows.Durable
import Jarvis.Workflows.Joins

namespace Jarvis.Workflows

variable {spec : WorkflowSpec} {snapshot : WorkflowResolvedSnapshot} {node : WorkflowNode}

/-! ## Keys -/

theorem ofValue_value (cls : FailureClass) : FailureClass.ofValue cls.value = some cls := by
  cases cls <;> decide

theorem afterColon_append {xs ys : List Char} (h : ':' ∉ xs) : afterColon (xs ++ ':' :: ys) = some ys := by
  have hdrop : (xs ++ ':' :: ys).dropWhile (· ≠ ':') = ':' :: ys := by
    rw [List.dropWhile_append_of_pos fun c hc => by simpa using fun he : c = ':' => h (he ▸ hc)]
    rfl
  unfold afterColon
  rw [hdrop]

theorem retryClassOf_retryKey (node : WorkflowNode) (cls : FailureClass) : retryClassOf (retryKey node.id cls) = some cls := by
  have htext : (retryKey node.id cls).toList = "retry".toList ++ ':' :: (node.id.toList ++ ':' :: cls.value.toList) := by
    have hcolon : ":".toList = [':'] := rfl
    have hretry : "retry:".toList = "retry".toList ++ [':'] := rfl
    simp [retryKey, String.toList_append, hcolon, hretry]
  unfold retryClassOf
  rw [htext, afterColon_append (by decide), Option.bind_some, afterColon_append (colon_not_mem node), Option.bind_some,
    String.ofList_toList, ofValue_value]

/-- Whether the observer counts a key as a retry. -/
def isRetryKey (key : String) : Bool := "retry:".isPrefixOf key

theorem isRetryKey_retryKey (id : String) (cls : FailureClass) : isRetryKey (retryKey id cls) = true := by
  rw [isRetryKey, isPrefixOf_iff, retryKey, String.toList_append, String.toList_append, String.toList_append,
    List.append_assoc, List.append_assoc]
  exact List.prefix_append _ _

theorem isRetryKey_of_head {key : String} (h : key.toList.head? ≠ some 'r') : isRetryKey key = false := by
  rw [← Bool.not_eq_true, isRetryKey, isPrefixOf_iff]
  rintro ⟨t, ht⟩
  rw [← ht] at h
  exact h rfl

theorem isRetryKey_iterate (k : String) : isRetryKey (iterateKey k) = false :=
  isRetryKey_of_head (by simp [iterateKey, String.toList_append])

theorem isRetryKey_progress (k : String) : isRetryKey (progressKey k) = false :=
  isRetryKey_of_head (by simp [progressKey, iterateKey, String.toList_append])

theorem isRetryKey_invocation (state : WorkflowStateV1) (id : String) : isRetryKey (invocationKey state id) = false :=
  isRetryKey_of_head (by simp [invocationKey, String.toList_append])

/-! ## Routes that consume a retry -/

variable (spec snapshot node) in
/-- A route that takes a RETRY edge: its one counter goes up by one, below the rule's maximum. -/
structure Retries (edges : List WorkflowEdge) (state : WorkflowStateV1) (route : Route) (cls : FailureClass)
    (policy : RetryRegistrySpec) (rule : RetryRule) (edge : WorkflowEdge) : Prop where
  mem : edge ∈ edges
  kind : edge.kind = .retry
  retryClass : edge.retryClass = some cls
  observed : observedPolicy spec snapshot node = some policy
  ruled : policy.rule? (some cls) = some rule
  left : state.counter (retryKey node.id cls) < rule.maxRetries
  route : route = (edge.target, [(retryKey node.id cls, state.counter (retryKey node.id cls) + 1)])

/-- A route sets no retry counter, or takes a RETRY edge. -/
theorem chooseFrom_retries {fallback : Option WorkflowEdge} {state : WorkflowStateV1} {route : Route} :
    ∀ {edges : List WorkflowEdge}, chooseFrom spec snapshot node fallback state edges = .ok route →
      (∀ entry ∈ route.2, isRetryKey entry.1 = false) ∨
      ∃ cls policy rule edge, Retries spec snapshot node edges state route cls policy rule edge := by
  intro edges
  induction edges with
  | nil =>
    intro h
    unfold chooseFrom at h
    split at h <;> cases h
    left
    simp
  | cons edge edges ih =>
    intro h
    unfold chooseFrom at h
    split at h
    · obtain hnone | ⟨cls, policy, rule, edge', ht⟩ := ih h
      · exact .inl hnone
      · exact .inr ⟨cls, policy, rule, edge', List.mem_cons_of_mem _ ht.mem, ht.kind, ht.retryClass, ht.observed, ht.ruled,
          ht.left, ht.route⟩
    · split at h
      · rename_i cls hk hc
        unfold retryRoute at h
        split at h
        · cases h
        · rename_i revision hrev
          split at h
          · rename_i policy hpolicy
            split at h
            · cases h
            · rename_i rule hrule
              dsimp only at h
              split at h
              · split at h <;> cases h
                left
                simp
              · rename_i hlt
                cases h
                refine .inr ⟨cls, policy, rule, edge, List.mem_cons_self, hk, hc, ?_, hrule, by omega, rfl⟩
                unfold observedPolicy
                rw [hrev]
                obtain ⟨_, _, _, _, _, _, _, _, _⟩ := revision
                cases hpolicy
                rfl
          · cases h
      · unfold iterateRoute at h
        dsimp only at h
        split at h
        · split at h
          · cases h
          · split at h
            · split at h
              · cases h
              · cases h
                left
                intro entry he
                rcases List.mem_cons.mp he with rfl | he
                · exact isRetryKey_iterate _
                · rw [List.mem_singleton.mp he]
                  exact isRetryKey_progress _
            · cases h
        · cases h
      · cases h
        left
        simp

theorem Checked.retryable (h : Checked spec snapshot) {edge : WorkflowEdge} (he : edge ∈ spec.edges) (hk : edge.kind = .retry)
    {cls : FailureClass} (hc : edge.retryClass = some cls) : cls.retryable = true := by
  have hp := h.policy
  unfold policyIssues at hp
  simp only [List.append_eq_nil_iff, List.flatMap_eq_nil_iff] at hp
  have hi := hp.2 edge (List.mem_filter.mpr ⟨he, decide_eq_true hk⟩)
  unfold retryIssues at hi
  simp only [List.append_eq_nil_iff, check_eq_nil, hc, Option.any_some, Bool.not_eq_false'] at hi
  exact hi.1

/-- Below the rule's maximum, `evaluate_retry` retries a class that may be retried. -/
theorem evaluateRetry_retries {policy : RetryRegistrySpec} {cls : FailureClass} {rule : RetryRule}
    (hrule : policy.rule? (some cls) = some rule) (hcls : cls.retryable = true) {counters : FailureClass → Int}
    (hused : 0 ≤ counters cls) (hleft : counters cls < rule.maxRetries) :
    ∃ decision, evaluateRetry policy cls counters = some decision ∧ decision.retry = true ∧
      decision.usedRetries = counters cls + 1 := by
  have hblocked : cls ∉ [.securityPolicyDenied, .configurationInvalid, .userCancelled, .approvalRejected] := by
    intro h
    cases cls <;> simp [FailureClass.retryable] at hcls h
  unfold evaluateRetry
  simp only [hrule, if_neg (by omega : ¬ counters cls < 0), hblocked, false_or,
    if_neg (by omega : ¬ (rule.maxRetries : Int) ≤ counters cls)]
  exact ⟨_, rfl, rfl, rfl⟩

/-- Whenever the compiler retries, the policy decides to retry on the count before. -/
theorem Checked.retries (h : Checked spec snapshot) {state : WorkflowStateV1} {route : Route}
    (hr : chooseRoute spec snapshot node (routeEdges spec node.id) state = .ok route) :
    (∀ entry ∈ route.2, isRetryKey entry.1 = false) ∨
    ∃ cls policy rule edge, Retries spec snapshot node (routeEdges spec node.id) state route cls policy rule edge ∧
      cls.retryable = true := by
  obtain hnone | ⟨cls, policy, rule, edge, ht⟩ := chooseFrom_retries hr
  · exact .inl hnone
  · obtain ⟨hmem, -⟩ := List.mem_filter.mp (mem_routeEdges.mp ht.mem)
    exact .inr ⟨cls, policy, rule, edge, ht, h.retryable hmem ht.kind ht.retryClass⟩

/-! ## Branches -/

/-- A RETRY edge has a fallback that ends the workflow or asks for an approval. -/
theorem Checked.retry_fallback (h : Checked spec snapshot) {edge : WorkflowEdge} (he : edge ∈ spec.edges)
    (hk : edge.kind = .retry) : ∃ fallback ∈ spec.outgoing edge.source, ∃ target, spec.node? fallback.target = some target ∧
      (target.type = .approval ∨ target.type = .finalize) := by
  obtain ⟨node, hnode⟩ := WorkflowSpec.exists_node (spec.endpoints_mem edge he).1
  obtain ⟨hn, hid⟩ := WorkflowSpec.node?_eq_some.mp hnode
  obtain ⟨_, _, policy, rule, href, -, -, hpolicy, hrule⟩ := h.retry he hk hn hid.symm
  have hp := h.policy
  unfold policyIssues at hp
  simp only [List.append_eq_nil_iff, List.flatMap_eq_nil_iff] at hp
  have hi := hp.2 edge (List.mem_filter.mpr ⟨he, decide_eq_true hk⟩)
  have hsource : policyOf spec edge.source = effectivePolicy spec node := by
    simp [policyOf, ← hid, WorkflowSpec.node?_of_mem hn]
  rw [hsource] at hpolicy
  unfold retryIssues at hi
  simp only [List.append_eq_nil_iff, hsource, href, hpolicy] at hi
  replace hi := hi.2
  unfold retryRuleIssues at hi
  rw [hrule] at hi
  dsimp only at hi
  split at hi
  · cases hi
  · rw [check_eq_nil, Bool.not_eq_false', Option.any_eq_true] at hi
    obtain ⟨target, htarget, hmatch⟩ := hi
    obtain ⟨fallback, hfallback, htarget⟩ := Option.bind_eq_some_iff.mp htarget
    refine ⟨fallback, List.mem_of_find?_eq_some hfallback, target, htarget, ?_⟩
    unfold exhaustionMatches at hmatch
    split at hmatch
    · exact .inl (by simpa using hmatch)
    · right
      rw [beq_iff_eq] at hmatch
      simp [WorkflowNode.type, hmatch]
    · right
      rw [beq_iff_eq] at hmatch
      simp [WorkflowNode.type, hmatch]

/-- No node of a region has a RETRY edge. -/
theorem RegionChecked.not_retry (h : Checked spec snapshot) {fanoutId joinId child : String} {children : List String}
    (hf : FanoutChecked spec fanoutId children joinId) (hr : RegionChecked spec fanoutId joinId child)
    (hid : node.id ∈ region spec joinId child) (hn : node ∈ spec.nodes) {edge : WorkflowEdge}
    (he : edge ∈ spec.outgoing node.id) : edge.kind ≠ .retry := by
  intro hk
  obtain ⟨hmem, hs⟩ := List.mem_filter.mp he
  rw [decide_eq_true_eq] at hs
  obtain ⟨fallback, hfb, target, htarget, htype⟩ := h.retry_fallback hmem hk
  rw [hs] at hfb
  obtain ⟨htn, htid⟩ := WorkflowSpec.node?_eq_some.mp htarget
  rcases (hr.routes hid hn).2 fallback hfb with hin | hjoin
  · rw [← htid] at hin
    obtain ⟨-, -, hout⟩ := hr.node_type hin htn
    rcases htype with ht | ht
    · rw [ht] at hout
      exact absurd (hout .approval (by decide)) (by decide)
    · exact hr.not_finalize hin htn ht
  · obtain ⟨join, hj, hconfig⟩ := hf.join
    rw [hjoin, hj] at htarget
    cases htarget
    rcases htype with ht | ht
    all_goals
      simp [WorkflowNode.type, hconfig] at ht

/-! ## What the observer consumes -/

/-- The update sets no retry counter. -/
def Quiet (update : WorkflowStateV1) : Prop :=
  ∀ key value, (update.counters.getD .empty).get? key = some value → isRetryKey key = false

/-- The value a merge leaves in a counter. -/
theorem mergedState_counter {state update next : WorkflowStateV1} (h : mergedState state update = .ok next) (key : String) :
    next.counter key =
      (((update.counters.getD .empty).get? key).map (max (state.counter key))).getD (state.counter key) := by
  obtain ⟨⟨counters, hc, hmax⟩, -⟩ := mergedState_ok h
  unfold WorkflowStateV1.counter
  rw [hc, Option.getD_some]
  exact maxMap_getD hmax key

theorem routedUpdate_cases {state update routed : WorkflowStateV1}
    (h : routedUpdate spec snapshot node state update = .ok routed) :
    (routed = update ∧ (routeEdges spec node.id = [] ∨ node.type = .fanout)) ∨
    ∃ merged route, mergedState state update = .ok merged ∧
      chooseRoute spec snapshot node (routeEdges spec node.id) merged = .ok route ∧
      routeEdges spec node.id ≠ [] ∧ node.type ≠ .fanout ∧
      routed = { update with
        route := some route.1
        counters := some ((update.counters.getD .empty).update route.2) } := by
  unfold routedUpdate at h
  dsimp only at h
  split at h
  · rename_i he
    cases h
    exact .inl ⟨rfl, by simpa using he⟩
  · rename_i he
    obtain ⟨merged, hm, h⟩ := bind_eq_ok.mp h
    obtain ⟨route, hr, h⟩ := bind_eq_ok.mp h
    cases h
    simp only [Bool.or_eq_true, List.isEmpty_iff, beq_iff_eq, not_or] at he
    exact .inr ⟨merged, route, hm, hr, he.1, he.2, rfl⟩

/-- The retry a routed update consumes, if it consumes one: the class, its rule and the new count. -/
structure Consumes (spec : WorkflowSpec) (snapshot : WorkflowResolvedSnapshot) (node : WorkflowNode)
    (state routed : WorkflowStateV1) (cls : FailureClass) (policy : RetryRegistrySpec) (rule : RetryRule) : Prop where
  edge : ∃ edge ∈ routeEdges spec node.id, edge.kind = .retry
  observed : observedPolicy spec snapshot node = some policy
  ruled : policy.rule? (some cls) = some rule
  retryable : cls.retryable = true
  left : state.counter (retryKey node.id cls) < rule.maxRetries
  count : (routed.counters.getD .empty).get? (retryKey node.id cls) = some (state.counter (retryKey node.id cls) + 1)
  only : ∀ key value, (routed.counters.getD .empty).get? key = some value → isRetryKey key = true →
    key = retryKey node.id cls

theorem routed_consumes (h : Checked spec snapshot) {state update routed : WorkflowStateV1} (hvisit : Quiet update)
    (hr : routedUpdate spec snapshot node state update = .ok routed) :
    Quiet routed ∨ ∃ cls policy rule, Consumes spec snapshot node state routed cls policy rule := by
  rcases routedUpdate_cases hr with ⟨rfl, -⟩ | ⟨merged, route, hm, hroute, -, -, rfl⟩
  · exact .inl hvisit
  · obtain hnone | ⟨cls, policy, rule, edge, ht, hcls⟩ := h.retries hroute
    · left
      intro key value hk
      by_cases hin : ∃ entry ∈ route.2, entry.1 = key
      · obtain ⟨entry, he, rfl⟩ := hin
        exact hnone entry he
      · simp only [Option.getD_some] at hk
        rw [Dict.get?_update_of_not_mem _ _ fun e he hek => hin ⟨e, he, hek⟩] at hk
        exact hvisit key value hk
    · -- the update has no retry counter, so the merged state has the state's
      have hsame : merged.counter (retryKey node.id cls) = state.counter (retryKey node.id cls) := by
        rw [mergedState_counter hm]
        cases hg : (update.counters.getD .empty).get? (retryKey node.id cls) with
        | none => rfl
        | some value =>
          have := hvisit _ _ hg
          rw [isRetryKey_retryKey] at this
          cases this
      have hupdate : (update.counters.getD .empty).update route.2 =
          (update.counters.getD .empty).insert (retryKey node.id cls) (state.counter (retryKey node.id cls) + 1) := by
        rw [ht.route, ← hsame]
        rfl
      refine .inr ⟨cls, policy, rule, ⟨edge, ht.mem, ht.kind⟩, ht.observed, ht.ruled, hcls, hsame ▸ ht.left, ?_,
        fun key value hk hretry => ?_⟩
      · simp only [Option.getD_some, hupdate, Dict.get?_insert_self]
      · simp only [Option.getD_some, hupdate, Dict.get?_insert] at hk
        split at hk
        · rename_i he
          exact he
        · rw [hvisit key value hk] at hretry
          cases hretry

theorem consumeRetry_other {state : WorkflowStateV1} {counters : Dict (String × FailureClass) RetryCounter}
    {entry : String × Int} (h : isRetryKey entry.1 = false) :
    consumeRetry spec snapshot node state counters entry = .ok counters := by
  unfold isRetryKey at h
  simp [consumeRetry, h]

theorem foldlM_consumeRetry_other {state : WorkflowStateV1} : ∀ {entries : List (String × Int)}
    {counters : Dict (String × FailureClass) RetryCounter}, (∀ entry ∈ entries, isRetryKey entry.1 = false) →
    entries.foldlM (consumeRetry spec snapshot node state) counters = .ok counters := by
  intro entries
  induction entries with
  | nil => intro _ _; rfl
  | cons entry entries ih =>
    intro counters h
    rw [List.foldlM_cons, consumeRetry_other (h entry List.mem_cons_self)]
    exact ih fun e he => h e (List.mem_cons_of_mem _ he)

/-- The loop does what it does for the one retry counter there is. -/
theorem foldlM_consumeRetry {state : WorkflowStateV1} {entry : String × Int} : ∀ {entries : List (String × Int)}
    {counters : Dict (String × FailureClass) RetryCounter}, (entries.map Prod.fst).Nodup → entry ∈ entries →
    (∀ e ∈ entries, isRetryKey e.1 = true → e.1 = entry.1) →
    entries.foldlM (consumeRetry spec snapshot node state) counters = consumeRetry spec snapshot node state counters entry := by
  intro entries
  induction entries with
  | nil => intro _ _ hmem; exact absurd hmem List.not_mem_nil
  | cons first entries ih =>
    intro counters hnodup hmem honly
    obtain ⟨hfirst, hnodup⟩ := List.nodup_cons.mp hnodup
    rw [List.foldlM_cons]
    rcases List.mem_cons.mp hmem with rfl | hmem
    · have hrest : ∀ e ∈ entries, isRetryKey e.1 = false := by
        intro e he
        rw [← Bool.not_eq_true]
        exact fun hr => hfirst (List.mem_map.mpr ⟨e, he, honly e (List.mem_cons_of_mem _ he) hr⟩)
      cases consumeRetry spec snapshot node state counters entry with
      | error e => rfl
      | ok counters' => exact foldlM_consumeRetry_other hrest
    · have hother : isRetryKey first.1 = false := by
        rw [← Bool.not_eq_true]
        exact fun hr => hfirst (List.mem_map.mpr ⟨entry, hmem, (honly first List.mem_cons_self hr).symm⟩)
      rw [consumeRetry_other hother]
      exact ih hnodup hmem fun e he => honly e (List.mem_cons_of_mem _ he)

/-- The observer's loop never fails: it leaves the rows, or sets one to the new count. -/
theorem consumed_rows {state routed : WorkflowStateV1} (counters : Dict (String × FailureClass) RetryCounter)
    (hr : Quiet routed ∨ ∃ cls policy rule, Consumes spec snapshot node state routed cls policy rule)
    (hnonneg : ∀ cls, 0 ≤ state.counter (retryKey node.id cls)) :
    (routed.counters.getD .empty).entries.foldlM (consumeRetry spec snapshot node state) counters = .ok counters ∧
      Quiet routed ∨
    ∃ cls policy rule, Consumes spec snapshot node state routed cls policy rule ∧
      (routed.counters.getD .empty).entries.foldlM (consumeRetry spec snapshot node state) counters =
        .ok (counters.insert (node.id, cls) ⟨state.counter (retryKey node.id cls) + 1,
          ((counters.get? (node.id, cls)).map (·.maximum)).getD rule.maxRetries⟩) := by
  obtain hnone | ⟨cls, policy, rule, hc⟩ := hr
  · exact .inl ⟨foldlM_consumeRetry_other fun entry he => hnone entry.1 entry.2 (Dict.get?_eq_some.mpr he), hnone⟩
  · right
    refine ⟨cls, policy, rule, hc, ?_⟩
    rw [foldlM_consumeRetry (routed.counters.getD .empty).nodup (Dict.get?_eq_some.mp hc.count)
      fun e he hretry => hc.only e.1 e.2 (Dict.get?_eq_some.mpr he) hretry]
    obtain ⟨decision, hdecide, hretry, -⟩ := @evaluateRetry_retries policy cls rule hc.ruled hc.retryable
      (fun c => if c = cls then state.counter (retryKey node.id cls) + 1 - 1 else 0)
      (by have := hnonneg cls; simpa using this) (by simpa using hc.left)
    have hstarts : "retry:".isPrefixOf (retryKey node.id cls) = true := isRetryKey_retryKey node.id cls
    unfold consumeRetry
    simp only [hstarts, Bool.not_true, Bool.false_or, decide_eq_true_eq, if_neg (by omega :
      ¬ state.counter (retryKey node.id cls) + 1 ≤ state.counter (retryKey node.id cls)), retryClassOf_retryKey,
      hc.observed, hdecide, hretry, hc.ruled]
    rfl

end Jarvis.Workflows
