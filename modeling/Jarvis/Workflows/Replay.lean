/-
  Jarvis.Workflows.Replay — executing a node again after its process stopped between the
  observer's commit and the checkpoint.

  The node finds its recorded result, routes on the same merged state and finds its key
  applied, so the observer returns at once. All it did on the first pass is in the rows or
  is computed again, but for one thing: where the retries of a reported class were used up
  it had overwritten the status of the outcome, in the update alone. The replay is the same
  execution when that overwrite changed nothing (`StatusKept`) and no command was applied in
  between (`replay_transparent_iff`); `replay_loses_exhaustion` is the run that differs.
-/
import Jarvis.Workflows.Durable
import Jarvis.Workflows.Routing

namespace Jarvis.Workflows

variable {spec : WorkflowSpec} {snapshot : WorkflowResolvedSnapshot} {node : WorkflowNode}

/-- The status the observer gives an outcome whose retries are used up. -/
def exhaustedStatus (rule : RetryRule) : String := if rule.exhaustionAction = .fail then "failed" else "blocked"

variable (spec snapshot node) in
/-- Where the observer would overwrite the outcome's status, it is that status already. -/
def StatusKept (state : WorkflowStateV1) (outcome : Option (Dict String Json)) : Prop :=
  ∀ reported rule, member outcome "failure_class" = some (.str reported) → reported ≠ "" →
    reportedRule spec snapshot node reported = some rule →
    (rule.maxRetries : Int) ≤ state.counter ("retry:" ++ node.id ++ ":" ++ reported) →
    member outcome "status" = some (.str (exhaustedStatus rule))

theorem with_outcome_eq_self {update : WorkflowStateV1} {outcome : Option (Dict String Json)} :
    { update with outcome := outcome } = update ↔ outcome = update.outcome :=
  ⟨congrArg WorkflowStateV1.outcome, fun h => by cases h; rfl⟩

theorem observeRoute_eq_self {state update : WorkflowStateV1} :
    observeRoute spec snapshot node state update = update ↔ StatusKept spec snapshot node state update.outcome := by
  unfold StatusKept observeRoute
  split
  · rename_i reported hreported
    rw [Option.filter_eq_some_iff] at hreported
    obtain ⟨hmem, htruthy⟩ := hreported
    have hne : reported ≠ "" := by simpa [Json.truthy] using htruthy
    have hof : ∀ r, member update.outcome "failure_class" = some (.str r) → r = reported := by
      intro r hr
      rw [hmem] at hr
      cases hr
      rfl
    split
    · rename_i rule hrule
      split
      · rename_i hle
        have hsome : ∃ outcome, update.outcome = some outcome := by
          cases ho : update.outcome with
          | none => rw [ho] at hmem; cases hmem
          | some outcome => exact ⟨outcome, rfl⟩
        obtain ⟨outcome, ho⟩ := hsome
        rw [with_outcome_eq_self, ho, Option.getD_some, Option.some.injEq, Dict.insert_eq_self]
        constructor
        · intro h r rule' hr _ hrule' _
          rw [← ho] at hr
          cases hof r hr
          rw [hrule] at hrule'
          cases hrule'
          exact h
        · intro h
          exact h reported rule (ho ▸ hmem) hne hrule hle
      · rename_i hgt
        refine iff_of_true rfl fun r rule' hr _ hrule' hle => ?_
        cases hof r hr
        rw [hrule] at hrule'
        cases hrule'
        exact absurd hle hgt
    · rename_i hnone
      refine iff_of_true rfl fun r rule' hr _ hrule' _ => ?_
      cases hof r hr
      rw [hnone] at hrule'
      cases hrule'
  · rename_i hother
    refine iff_of_true rfl fun r rule hr hne _ _ => ?_
    refine (hother r ?_).elim
    rw [Option.filter_eq_some_iff]
    exact ⟨hr, by simpa [Json.truthy] using hne⟩

/-- Routing keeps the outcome and the cancellation of an update. -/
theorem routedUpdate_keeps {state update routed : WorkflowStateV1}
    (h : routedUpdate spec snapshot node state update = .ok routed) :
    routed.outcome = update.outcome ∧ routed.cancelled = update.cancelled := by
  unfold routedUpdate at h
  dsimp only at h
  split at h
  · cases h
    exact ⟨rfl, rfl⟩
  · obtain ⟨merged, -, h⟩ := bind_eq_ok.mp h
    obtain ⟨route, -, h⟩ := bind_eq_ok.mp h
    cases h
    exact ⟨rfl, rfl⟩

/-! ## The outcome a node reports -/

/-- The outcome of an execution's result: as recorded, or as its handler reports it. -/
def reportedOutcome (node : WorkflowNode) (state : WorkflowStateV1) (result : HandlerResult) (store : Store) :
    Option (Dict String Json) :=
  match store.result? (executionId state node.id) with
  | some recorded => recorded.outcome
  | none =>
    if (nodeDefinitions node.type).external then
      match result with
      | .returns update => update.outcome
      | .raises cls => (failureUpdate node state cls).outcome
      | _ => none
    else none

theorem complete_outcome {state raw update : WorkflowStateV1} (h : complete spec node state raw = .ok update) :
    update.outcome = raw.outcome := by
  have hresets : (resets spec node state raw).outcome = raw.outcome := by
    unfold resets
    split
    · split <;> rfl
    · rfl
    · rfl
  unfold complete at h
  obtain ⟨_, -, h⟩ := bind_eq_ok.mp h
  unfold completed at h
  dsimp only at h
  split at h
  · cases h
  · cases h
    exact hresets

theorem internal_outcome {state raw : WorkflowStateV1} (h : internal state node = .ok raw) : raw.outcome = none := by
  unfold internal at h
  split at h
  · unfold dispatch at h
    dsimp only at h
    split at h
    · obtain ⟨ready, -, h⟩ := bind_eq_ok.mp h
      cases h
      rfl
    · cases h
      rfl
  · cases h
    rfl
  · unfold joinUpdate at h
    dsimp only at h
    split at h
    · cases h
    · cases h
      rfl
  · obtain ⟨status, -, h⟩ := bind_eq_ok.mp h
    cases h
    rfl
  · cases h
    rfl

theorem of_ne_failed {x : Except Raised WorkflowStateV1} {cls : FailureClass} : Executed.of x ≠ .failed cls := by
  cases x <;> simp [Executed.of]

theorem wrap_outcome {state update : WorkflowStateV1} {result : HandlerResult} {cancelled : Bool}
    (h : wrap spec node state (.handled result cancelled) = .ok update) (hc : update.cancelled ≠ some true) :
    update.outcome = reportedOutcome node state result {} := by
  rcases wrap_ok h with rfl | ⟨result', cls, ha, he, rfl⟩ | ⟨result', ha, he⟩
  · exact absurd rfl hc
  · cases ha
    unfold execute at he
    split at he
    · cases he
    · split at he
      · rename_i hext
        cases result with
        | raises c => cases he; simp [reportedOutcome, Store.result?, hext]
        | returns u => exact absurd he of_ne_failed
        | breaks => cases he
        | cancels => cases he
      · exact absurd he of_ne_failed
  · cases ha
    obtain ⟨-, raw, hcomplete, ⟨hext, rfl, -⟩ | ⟨hint, hinternal⟩⟩ := execute_finished he
    · simp [reportedOutcome, Store.result?, hext, complete_outcome hcomplete]
    · simp [reportedOutcome, Store.result?, hint, complete_outcome hcomplete, internal_outcome hinternal]

/-! ## The replay -/

variable (spec snapshot node) in
/-- The node executed, routed and observed in one go: what it leaves, if it leaves anything. -/
def executed (state : WorkflowStateV1) (desired : Desired) (result : HandlerResult) (cancelled : Bool) (store : Store) :
    Option (WorkflowStateV1 × Store) :=
  match wrapRows spec node state desired result cancelled store with
  | (.returned update, store) => (observeRows spec snapshot node state update store).toOption
  | _ => none

/-- The rows of an execution are still there: its result and its applied key, which only a thousand later
    executions would push out of the list. -/
structure RowsPersist (state : WorkflowStateV1) (id : String) (store later : Store) : Prop where
  result : later.result? (executionId state id) = store.result? (executionId state id)
  applied : appliedKey state id ∈ later.routes

/-- The update of an execution whose observer went through for the first time. -/
theorem executed_observed {state final : WorkflowStateV1} {desired : Desired} {result : HandlerResult} {cancelled : Bool}
    {store store' : Store} (hnew : appliedKey state node.id ∉ store.routes)
    (h : executed spec snapshot node state desired result cancelled store = some (final, store'))
    (hlive : final.cancelled ≠ some true) :
    ∃ update routed, update.cancelled ≠ some true ∧ reportedChecks update = .ok () ∧
      update.outcome = reportedOutcome node state result store ∧
      store'.result? (executionId state node.id) = some update ∧
      routedUpdate spec snapshot node state update = .ok routed ∧
      final = observeRoute spec snapshot node state routed := by
  unfold executed at h
  split at h
  · rename_i update store₁ hwrap
    have hobserve := Steps.toOption_ok h
    unfold observeRows at hobserve
    split at hobserve
    · rename_i hc
      cases hobserve
      exact absurd hc hlive
    · rename_i hc
      obtain ⟨routed, hrouted, hroute⟩ := bind_eq_ok.mp hobserve
      have hrecorded := wrapRows_recorded spec node state desired result cancelled store
      rw [hwrap] at hrecorded
      unfold routeRows at hroute
      dsimp only at hroute
      rw [if_neg (hrecorded.routes ▸ hnew)] at hroute
      obtain ⟨counters, -, hroute⟩ := bind_eq_ok.mp hroute
      cases hroute
      obtain ⟨-, rfl, -⟩ | ⟨rfl, hresult, hchecks, hsource⟩ := wrapRows_returned hwrap
      · exact absurd rfl hc
      · refine ⟨update, routed, hc, hchecks, ?_, by simpa only [Store.result?] using hresult, hrouted, rfl⟩
        rcases hsource with ⟨hsome, -⟩ | ⟨hnone, hw⟩
        · simp only [reportedOutcome, hsome]
        · rw [wrap_outcome hw hc]
          simp only [reportedOutcome, hnone]
          rfl
  · cases h

/-- Executing the node again after its observer's commit leaves the same update, with the same route and
    counters, and changes no row, exactly when no command waits for the run and the overwrite of the
    outcome's status had changed nothing. -/
theorem replay_transparent_iff {state final : WorkflowStateV1}
    {desired desired' : Desired} {result result' : HandlerResult} {cancelled cancelled' : Bool} {store store' later : Store}
    (hnew : appliedKey state node.id ∉ store.routes)
    (h : executed spec snapshot node state desired result cancelled store = some (final, store'))
    (hlive : final.cancelled ≠ some true) (hlater : RowsPersist state node.id store' later) :
    executed spec snapshot node state desired' result' cancelled' later = some (final, later) ↔
      desired' = .running ∧
        StatusKept spec snapshot node state (reportedOutcome node state result store) := by
  obtain ⟨update, routed, hc, hchecks, houtcome, hresult, hrouted, rfl⟩ := executed_observed hnew h hlive
  have hkeeps := routedUpdate_keeps hrouted
  have hcached : later.result? (executionId state node.id) = some update := hlater.result.trans hresult
  -- the replay of a run that goes on leaves the routed update itself
  have hrunning : executed spec snapshot node state .running result' cancelled' later =
      some (routed, later) := by
    have hrow := @result?_getD later (executionId state node.id) { node := node.id } rfl
    have hwrap : wrapRows spec node state .running result' cancelled' later =
        (.returned update, later) := by
      simp only [wrapRows, hrow, hcached, hchecks]
      rfl
    unfold executed
    rw [hwrap]
    simp only [observeRows, if_neg hc, hrouted, bind, Except.bind, routeRows, if_pos hlater.applied]
    rfl
  rw [← houtcome, ← hkeeps.1, ← observeRoute_eq_self]
  cases desired' with
  | running =>
    rw [hrunning]
    simp [eq_comm]
  | paused =>
    simp [executed, wrapRows]
  | cancelled =>
    have hcancel : executed spec snapshot node state .cancelled result' cancelled' later =
        some (cancelUpdate, later) := rfl
    rw [hcancel]
    refine iff_of_false (fun he => ?_) (by simp)
    have hfinal := (Prod.mk.inj (Option.some.inj he)).1
    rw [← hfinal] at hlive
    exact hlive rfl

def build : WorkflowNode := { id := "build", config := .worker }

theorem exists_executed {workflow : WorkflowSpec} {snapshot : WorkflowResolvedSnapshot} {node : WorkflowNode}
    {result : HandlerResult} {store : Store}
    (h : (executed workflow snapshot node {} .running result false store).isSome = true) :
    executed workflow snapshot node {} .running result false store = some
      (((executed workflow snapshot node {} .running result false store).get h).1,
        ((executed workflow snapshot node {} .running result false store).get h).2) :=
  (Option.some_get h).symm

/-- A timeout with a retry left replays as it was. -/
theorem replay_transparent_retriedBuild :
    ∃ final store,
      executed retriedBuild sampleSnapshot build {} .running (.raises .infrastructureTimeout) false {} = some (final, store) ∧
      executed retriedBuild sampleSnapshot build {} .running .breaks false store = some (final, store) := by
  have hfirst := @exists_executed retriedBuild sampleSnapshot build (.raises .infrastructureTimeout) {} (by decide +kernel)
  refine ⟨_, _, hfirst, (replay_transparent_iff (by decide +kernel) hfirst (by decide +kernel) ⟨rfl, by decide +kernel⟩).mpr ⟨rfl, ?_⟩⟩
  intro reported rule hmem _ hrule hle
  cases hmem
  cases hrule
  exact absurd hle (by decide)

/-- A transport failure is never retried and blocks the run. -/
def blockingRetry : RetryRegistrySpec where
  rules := [{ failureClass := .infrastructureWorkerTransport, maxRetries := 0, exhaustionAction := .block }]
  unique_classes := by decide

def blockingSnapshot : WorkflowResolvedSnapshot := snapshotOf
  (.retryPolicy blockingRetry :: sampleSnapshot.revisions.tail.map (·.spec))

/-- One worker, whose outcome is the run's. -/
def loneBuild : WorkflowSpec := oneWorker { sampleDefaults with verification := none }

/-- The observer reports the failure as blocked; the replay after a crash reports it as failed. -/
theorem replay_loses_exhaustion :
    (validateWorkflow sampleDigests loneBuild (some blockingSnapshot)).1 = true ∧
    ((executed loneBuild blockingSnapshot build {} .running (.raises .infrastructureWorkerTransport) false {}).any
      fun first =>
        (executed loneBuild blockingSnapshot build {} .running (.raises .infrastructureWorkerTransport) false first.2).any
          fun again => isText first.1.outcome "status" "blocked" && isText again.1.outcome "status" "failed") = true := by
  constructor
  · decide +kernel
  · decide +kernel

end Jarvis.Workflows
