/-
  Jarvis.Workflows.RetryAccounts — one node's retry, from the observer's commit to the checkpoint.

  The rows are even with the graph's counters until the observer commits, and say what the
  update's counters say after it (`Observes.committed`); the checkpoint of that update makes
  them even again (`Committed.checkpoint`). An execution's key is made of its node and its
  visit and determines both (`execKey_inj`), so a result found in the rows is the result of
  the visit it was recorded for (`RowLive.visit`).
-/
import Jarvis.Workflows.Retries

namespace Jarvis.Workflows

variable {spec : WorkflowSpec} {snapshot : WorkflowResolvedSnapshot} {node : WorkflowNode}

/-! ## Keys -/

/-- The key determines the node, whatever its identity is. -/
theorem retryKey_unique {id id' : String} {cls cls' : FailureClass} (h : retryKey id cls = retryKey id' cls') :
    id = id' ∧ cls = cls' := by
  have hcolon : ":".toList = [':'] := rfl
  have hl := congrArg String.toList h
  simp only [retryKey, String.toList_append, hcolon, List.append_assoc, List.append_cancel_left_eq,
    List.singleton_append] at hl
  obtain ⟨hid, hcls⟩ := append_cons_inj_right (colon_not_mem_value cls) (colon_not_mem_value cls') hl
  exact ⟨String.toList_inj.mp hid, value_inj (String.toList_inj.mp hcls)⟩

theorem appliedKey_eq (state : WorkflowStateV1) (id : String) :
    appliedKey state id = "route:" ++ execKey (state.childIdentity.getD "main") id (visitOf state id) := rfl

theorem appliedKey_inj {state : WorkflowStateV1} {i id id' : String} {v : Int} (hid : ':' ∉ id.toList) (hid' : ':' ∉ id'.toList)
    (h : appliedKey state id = "route:" ++ execKey i id' v) :
    state.childIdentity.getD "main" = i ∧ id = id' ∧ visitOf state id = v := by
  have hl := congrArg String.toList h
  rw [appliedKey_eq, String.toList_append, String.toList_append] at hl
  exact execKey_inj hid hid' (String.toList_inj.mp (List.append_cancel_left hl))

/-! ## Recorded results -/

/-- What the accounts need of a recorded result that is not a cancellation. -/
structure RowLive (key : String) (update : WorkflowStateV1) : Prop where
  live : update.cancelled ≠ some true
  identity : update.childIdentity = none
  quiet : Quiet update
  visit : ∀ id visit, ':' ∉ id.toList → key = execKey "main" id visit →
    (update.counters.getD .empty).get? (visitKey id) = some visit

/-- A child's identity is told from the main graph's. -/
def Identified (state : WorkflowStateV1) : Prop :=
  ∀ i, state.childIdentity = some i → ':' ∈ i.toList

theorem Identified.main {state : WorkflowStateV1} (h : Identified state) (hi : state.childIdentity.getD "main" = "main") :
    state.childIdentity = none := by
  cases hc : state.childIdentity with
  | none => rfl
  | some i =>
    rw [hc] at hi
    have hcolon := h i hc
    rw [show i = "main" from hi] at hcolon
    exact absurd hcolon (by decide)

theorem wrap_rowLive {state update : WorkflowStateV1} {attempt : Attempt} (hs : Identified state)
    (h : wrap spec node state attempt = .ok update) :
    update = cancelUpdate ∨ RowLive (executionId state node.id) update := by
  rcases wrap_cancelled h with rfl | hnone
  · exact .inl rfl
  · right
    have hlive : update.cancelled ≠ some true := by simp [hnone]
    obtain ⟨hcounters, -⟩ := (wrap_marks h).finished hlive
    have hget : ∀ key, (update.counters.getD .empty).get? key =
        if key = invocationKey state node.id then some (visitOf state node.id) else none := by
      intro key
      rw [hcounters, Option.getD_some]
      exact Dict.get?_insert Dict.empty (invocationKey state node.id) key (visitOf state node.id)
    refine ⟨hlive, (wrap_writes h).childIdentity, fun key value hk => ?_, fun id visit hid hkey => ?_⟩
    · rw [hget] at hk
      split at hk
      · rename_i he
        rw [he]
        exact isRetryKey_invocation state node.id
      · cases hk
    · obtain ⟨hi, rfl, rfl⟩ := execKey_inj (colon_not_mem node) hid hkey
      rw [hget, if_pos (invocationKey_main (hs.main hi) node.id).symm]

/-- A result in the rows that the middleware returns and that goes on. -/
structure Kept (store : Store) (key : String) (update : WorkflowStateV1) : Prop where
  result : store.result? key = some update
  checks : reportedChecks update = .ok ()
  live : update.cancelled ≠ some true

/-- The results of one store are in another. -/
def Grows (store later : Store) : Prop := ∀ key update, store.result? key = some update → later.result? key = some update

theorem Kept.grows {store later : Store} {key : String} {update : WorkflowStateV1} (h : Kept store key update)
    (hg : Grows store later) : Kept later key update := ⟨hg key update h.result, h.checks, h.live⟩

theorem Kept.unique {store : Store} {key : String} {update update' : WorkflowStateV1} (h : Kept store key update)
    (h' : Kept store key update') : update = update' := Option.some_inj.mp (h.result.symm.trans h'.result)

theorem RecordsResult.grows {state : WorkflowStateV1} {result : HandlerResult} {cancelled : Bool} {store later : Store}
    (h : RecordsResult spec node state result cancelled store later) : Grows store later := by
  intro key update hr
  rcases h.results with hsame | ⟨hnone, recorded, hput, -⟩
  · rw [hsame]
    exact hr
  · rw [hput]
    dsimp only
    split
    · rename_i hkey
      rw [hkey, hnone] at hr
      cases hr
    · exact hr

/-! ## Counts -/

/-- The rows say what the graph says. -/
def Even (store : Store) (state : WorkflowStateV1) : Prop :=
  ∀ id cls, store.consumed id cls = state.counter (retryKey id cls)

variable (spec snapshot node) in
/-- The observer of the node has committed: the rows say what the checkpoint will say. -/
def Committed (store : Store) (state : WorkflowStateV1) : Prop :=
  ∃ kept routed, Kept store (executionId state node.id) kept ∧
    routedUpdate spec snapshot node state kept = .ok routed ∧
    ∀ id cls, store.consumed id cls =
      ((routed.counters.getD .empty).get? (retryKey id cls)).getD (state.counter (retryKey id cls))

/-- A row within the rule of its policy. -/
def Limited (spec : WorkflowSpec) (snapshot : WorkflowResolvedSnapshot) (id : String) (cls : FailureClass)
    (row : RetryCounter) : Prop :=
  ∃ node policy rule, spec.node? id = some node ∧ observedPolicy spec snapshot node = some policy ∧
    policy.rule? (some cls) = some rule ∧ 0 ≤ row.consumed ∧ row.consumed ≤ rule.maxRetries ∧
    row.maximum = rule.maxRetries

/-- Every row is within its rule. -/
def Limits (spec : WorkflowSpec) (snapshot : WorkflowResolvedSnapshot) (store : Store) : Prop :=
  ∀ id cls row, store.retryCounters.get? (id, cls) = some row → Limited spec snapshot id cls row

theorem Limits.nonneg {store : Store} (h : Limits spec snapshot store) (id : String) (cls : FailureClass) :
    0 ≤ store.consumed id cls := by
  unfold Store.consumed
  cases hr : store.retryCounters.get? (id, cls) with
  | none => exact le_refl _
  | some row =>
    obtain ⟨-, -, -, -, -, -, hrow, -⟩ := h id cls row hr
    exact hrow

theorem consumed_insert {store : Store} {id : String} {cls : FailureClass} {row : RetryCounter} {counters : Dict (String × FailureClass) RetryCounter}
    (h : store.retryCounters = counters.insert (id, cls) row) (id' : String) (cls' : FailureClass) :
    store.consumed id' cls' = if (id', cls') = (id, cls) then row.consumed else
      ((counters.get? (id', cls')).map (·.consumed)).getD 0 := by
  unfold Store.consumed
  rw [h, Dict.get?_insert]
  split <;> rfl

/-! ## The observer -/

variable (spec snapshot node) in
/-- What the observer does to the rows for a routed update whose key is new. -/
structure Observes (state routed : WorkflowStateV1) (store later : Store) : Prop where
  result? : later.result? = store.result?
  routes : later.routes = store.routes.drop (store.routes.length - 999) ++ [appliedKey state node.id]
  counters : later.retryCounters = store.retryCounters ∧ Quiet routed ∨
    ∃ cls policy rule, Consumes spec snapshot node state routed cls policy rule ∧
      later.retryCounters = store.retryCounters.insert (node.id, cls) ⟨state.counter (retryKey node.id cls) + 1,
        ((store.retryCounters.get? (node.id, cls)).map (·.maximum)).getD rule.maxRetries⟩

theorem result?_observed (store : Store) (routes : List String) (counters : Dict (String × FailureClass) RetryCounter) :
    Store.result? { store with routes := routes, retryCounters := counters } = store.result? := rfl

/-- The observer never finds a disagreement. -/
theorem routeRows_ok (h : Checked spec snapshot) {state update routed : WorkflowStateV1} {store : Store} (hquiet : Quiet update)
    (hnonneg : ∀ cls, 0 ≤ state.counter (retryKey node.id cls))
    (hrouted : routedUpdate spec snapshot node state update = .ok routed) :
    ∃ outcome later, routeRows spec snapshot node state routed store = .ok ({ routed with outcome := outcome }, later) ∧
      (appliedKey state node.id ∈ store.routes ∧ later = store ∨
        appliedKey state node.id ∉ store.routes ∧ Observes spec snapshot node state routed store later) := by
  by_cases hkey : appliedKey state node.id ∈ store.routes
  · refine ⟨routed.outcome, store, ?_, .inl ⟨hkey, rfl⟩⟩
    unfold routeRows
    rw [if_pos hkey]
  · obtain ⟨outcome, hobserved⟩ := observeRoute_eq spec snapshot node state routed
    have hloop := consumed_rows store.retryCounters (routed_consumes h hquiet hrouted) hnonneg
    have hrows : ∀ {counters}, (routed.counters.getD .empty).entries.foldlM (consumeRetry spec snapshot node state)
        store.retryCounters = .ok counters → routeRows spec snapshot node state routed store =
          .ok ({ routed with outcome := outcome }, { store with
            routes := store.routes.drop (store.routes.length - 999) ++ [appliedKey state node.id]
            retryCounters := counters }) := by
      intro counters hfold
      unfold routeRows
      dsimp only
      rw [if_neg hkey, hobserved]
      dsimp only
      rw [hfold]
      rfl
    rcases hloop with ⟨hfold, hq⟩ | ⟨cls, policy, rule, hc, hfold⟩
    · refine ⟨outcome, _, hrows hfold, .inr ⟨hkey, ?_⟩⟩
      exact ⟨result?_observed _ _ _, rfl, .inl ⟨rfl, hq⟩⟩
    · refine ⟨outcome, _, hrows hfold, .inr ⟨hkey, ?_⟩⟩
      exact ⟨result?_observed _ _ _, rfl, .inr ⟨cls, policy, rule, hc, rfl⟩⟩

theorem observeRows_ok (h : Checked spec snapshot) {state update observed : WorkflowStateV1} {store later : Store}
    (hquiet : Quiet update) (hlive : update.cancelled ≠ some true)
    (hnonneg : ∀ cls, 0 ≤ state.counter (retryKey node.id cls))
    (ho : observeRows spec snapshot node state update store = .ok (observed, later)) :
    ∃ routed outcome, routedUpdate spec snapshot node state update = .ok routed ∧
      observed = { routed with outcome := outcome } ∧
      (appliedKey state node.id ∈ store.routes ∧ later = store ∨
        appliedKey state node.id ∉ store.routes ∧ Observes spec snapshot node state routed store later) := by
  unfold observeRows at ho
  rw [if_neg hlive] at ho
  obtain ⟨routed, hrouted, ho⟩ := bind_eq_ok.mp ho
  obtain ⟨outcome, later', hrows, hcases⟩ := @routeRows_ok _ _ _ h state update routed store hquiet hnonneg hrouted
  rw [hrows] at ho
  cases ho
  exact ⟨routed, outcome, hrouted, rfl, hcases⟩

/-- The rows after the observer's commit say what the update's counters say. -/
theorem Observes.consumed {state routed : WorkflowStateV1} {store later : Store}
    (ho : Observes spec snapshot node state routed store later) (heven : Even store state) (id : String) (cls : FailureClass) :
    later.consumed id cls =
      ((routed.counters.getD .empty).get? (retryKey id cls)).getD (state.counter (retryKey id cls)) := by
  rcases ho.counters with ⟨hsame, hquiet⟩ | ⟨cls', policy, rule, hc, hinsert⟩
  · have hnone : (routed.counters.getD .empty).get? (retryKey id cls) = none := by
      cases hg : (routed.counters.getD .empty).get? (retryKey id cls) with
      | none => rfl
      | some value =>
        have hfalse := hquiet _ _ hg
        rw [isRetryKey_retryKey] at hfalse
        cases hfalse
    rw [hnone, Option.getD_none, ← heven id cls]
    unfold Store.consumed
    rw [hsame]
  · rw [consumed_insert hinsert]
    split
    · rename_i he
      cases he
      rw [hc.count]
      rfl
    · rename_i hne
      have hnone : (routed.counters.getD .empty).get? (retryKey id cls) = none := by
        cases hg : (routed.counters.getD .empty).get? (retryKey id cls) with
        | none => rfl
        | some value =>
          obtain ⟨rfl, rfl⟩ := retryKey_unique (hc.only _ _ hg (isRetryKey_retryKey id cls))
          exact absurd rfl hne
      rw [hnone]
      exact heven id cls

theorem Observes.limits {state routed : WorkflowStateV1} {store later : Store} (hnode : spec.node? node.id = some node)
    (ho : Observes spec snapshot node state routed store later) (hl : Limits spec snapshot store)
    (hnonneg : ∀ cls, 0 ≤ state.counter (retryKey node.id cls)) : Limits spec snapshot later := by
  rcases ho.counters with ⟨hsame, -⟩ | ⟨cls, policy, rule, hc, hinsert⟩
  · intro id cls row hrow
    rw [hsame] at hrow
    exact hl id cls row hrow
  · intro id cls' row hrow
    rw [hinsert, Dict.get?_insert] at hrow
    split at hrow
    · rename_i he
      cases he
      cases hrow
      refine ⟨node, policy, rule, hnode, hc.observed, hc.ruled, ?_, ?_, ?_⟩
      · have := hnonneg cls
        show 0 ≤ state.counter (retryKey node.id cls) + 1
        omega
      · have := hc.left
        show state.counter (retryKey node.id cls) + 1 ≤ (rule.maxRetries : Int)
        omega
      · -- the maximum of a row that was there is the rule's
        dsimp only
        cases hold : store.retryCounters.get? (node.id, cls) with
        | none => rfl
        | some old =>
          obtain ⟨node', policy', rule', hnode', hpolicy', hrule', -, -, hmax⟩ := hl node.id cls old hold
          rw [hnode] at hnode'
          cases hnode'
          rw [hc.observed] at hpolicy'
          cases hpolicy'
          rw [hc.ruled] at hrule'
          cases hrule'
          exact hmax
    · exact hl id cls' row hrow

/-- After the observer's commit for a node of the main graph. -/
theorem Observes.committed {state update routed : WorkflowStateV1} {store later : Store}
    (ho : Observes spec snapshot node state routed store later) (heven : Even store state)
    (hkept : Kept store (executionId state node.id) update)
    (hrouted : routedUpdate spec snapshot node state update = .ok routed) : Committed spec snapshot node later state :=
  ⟨update, routed, ⟨by rw [ho.result?]; exact hkept.result, hkept.checks, hkept.live⟩, hrouted, ho.consumed heven⟩

/-- The checkpoint of an applied node makes the counts even. -/
theorem Committed.checkpoint (h : Checked spec snapshot) {state next kept routed : WorkflowStateV1} {store : Store}
    {outcome : Option (Dict String Json)} (hc : Committed spec snapshot node store state)
    (hkept : Kept store (executionId state node.id) kept) (hquiet : Quiet kept)
    (hrouted : routedUpdate spec snapshot node state kept = .ok routed)
    (hm : mergedState state { routed with outcome := outcome } = .ok next) : Even store next := by
  obtain ⟨kept', routed', hkept', hrouted', hcount⟩ := hc
  cases hkept.unique hkept'
  rw [hrouted] at hrouted'
  cases hrouted'
  intro id cls
  rw [hcount, mergedState_counter hm]
  dsimp only
  cases hg : (routed.counters.getD .empty).get? (retryKey id cls) with
  | none => rfl
  | some value =>
    rcases routed_consumes h hquiet hrouted with hq | ⟨cls', policy, rule, hcon⟩
    · have hfalse := hq _ _ hg
      rw [isRetryKey_retryKey] at hfalse
      cases hfalse
    · obtain ⟨rfl, rfl⟩ := retryKey_unique (hcon.only _ _ hg (isRetryKey_retryKey id cls))
      rw [hcon.count] at hg
      cases hg
      simp only [Option.map_some, Option.getD_some]
      omega

/-- Before the checkpoint a row is at most one ahead. -/
theorem Committed.ahead (h : Checked spec snapshot) {state : WorkflowStateV1} {store : Store}
    (hrows : ∀ update, Kept store (executionId state node.id) update → Quiet update)
    (hc : Committed spec snapshot node store state) (id : String) (cls : FailureClass) :
    store.consumed id cls = state.counter (retryKey id cls) ∨
      id = node.id ∧ store.consumed id cls = state.counter (retryKey id cls) + 1 := by
  obtain ⟨kept, routed, hkept, hrouted, hcount⟩ := hc
  rw [hcount]
  cases hg : (routed.counters.getD .empty).get? (retryKey id cls) with
  | none => exact .inl rfl
  | some value =>
    rcases routed_consumes h (hrows kept hkept) hrouted with hq | ⟨cls', policy, rule, hcon⟩
    · have hfalse := hq _ _ hg
      rw [isRetryKey_retryKey] at hfalse
      cases hfalse
    · obtain ⟨rfl, rfl⟩ := retryKey_unique (hcon.only _ _ hg (isRetryKey_retryKey id cls))
      rw [hcon.count] at hg
      cases hg
      exact .inr ⟨rfl, rfl⟩

end Jarvis.Workflows
