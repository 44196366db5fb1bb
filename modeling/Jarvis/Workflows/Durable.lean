/-
  Jarvis.Workflows.Durable — a node under `NodeRuntime` with the rows it leaves, and runs
  whose process can stop between any two commits (`runtime/nodes.py`, `evaluate_retry` of
  `routing/policies.py`).

  An execution commits twice before its checkpoint: `wrap` records the node's result, and
  the route observer records the route and the retries consumed. A process that stops loses
  what was in flight and nothing else; the node is then executed again, finds its recorded
  result, and the observer finds its key applied. `Jarvis.Workflows.Factories` has the same
  node without the rows (`wrapRows_fresh`, `routeRows_fresh`).

  An execution's rows are found by its key. Times, events, the delay of a retry and the
  profiles a failover excludes are left out: a run is claimed only when its delay has passed.
-/
import Jarvis.Workflows.Run

namespace Jarvis.Workflows

/-! ## Retry decisions -/

/-- `RetryDecision`, less its delay and its failover. -/
structure RetryDecision where
  failureClass : FailureClass
  retry : Bool
  usedRetries : Int
  exhaustionAction : ExhaustionAction
  consumesSemanticAttempt : Bool
  deriving DecidableEq

/-- `evaluate_retry`; `none` where a counter is negative. -/
def evaluateRetry (policy : RetryRegistrySpec) (failure : FailureClass) (counters : FailureClass → Int) :
    Option RetryDecision :=
  let used := counters failure
  if used < 0 then none
  else
    let blocked := failure ∈ [.securityPolicyDenied, .configurationInvalid, .userCancelled, .approvalRejected]
    match policy.rule? (some failure) with
    | none => some ⟨failure, false, used, .block, false⟩
    | some rule =>
      if blocked ∨ (rule.maxRetries : Int) ≤ used then some ⟨failure, false, used, rule.exhaustionAction, false⟩
      else some ⟨failure, true, used + 1, rule.exhaustionAction, "code.".isPrefixOf failure.value⟩

/-! ## Rows -/

inductive NodeStatus where
  | queued
  | running
  | waiting
  | succeeded
  | failed
  | cancelled
  deriving DecidableEq, Repr

/-- `NodeExecutionModel`. -/
structure NodeRow where
  node : String
  status : NodeStatus := .queued
  result : Option WorkflowStateV1 := none

/-- `RetryCounterModel`. -/
structure RetryCounter where
  consumed : Int
  maximum : Nat
  deriving DecidableEq

/-- The rows of a run that its nodes write. -/
structure Store where
  executions : Dict String NodeRow := .empty
  /-- The classified failures, with the execution each belongs to. -/
  failures : List (String × FailureClass) := []
  /-- `runtime_json["routes"]`. -/
  routes : List String := []
  retryCounters : Dict (String × FailureClass) RetryCounter := .empty

/-- The result recorded for an execution. -/
def Store.result? (store : Store) (key : String) : Option WorkflowStateV1 :=
  (store.executions.get? key).bind (·.result)

def Store.put (store : Store) (key : String) (row : NodeRow) : Store :=
  { store with executions := store.executions.insert key row }

def Store.fail (store : Store) (key : String) (cls : FailureClass) : Store :=
  { store with failures := store.failures ++ [(key, cls)] }

/-- The retries consumed: `0` without a row. -/
def Store.consumed (store : Store) (id : String) (cls : FailureClass) : Int :=
  ((store.retryCounters.get? (id, cls)).map (·.consumed)).getD 0

/-! ## The middleware -/

/-- `run.desired_state`. -/
inductive Desired where
  | running
  | paused
  | cancelled
  deriving DecidableEq, Repr

/-- How a call of the middleware ends. -/
inductive NodeEnd where
  | returned (update : WorkflowStateV1)
  | raised (error : Raised)
  /-- At a wait; the node is executed again when the run resumes. -/
  | interrupted

def NodeEnd.of : Except Raised WorkflowStateV1 → NodeEnd
  | .ok update => .returned update
  | .error e => .raised e

/-- The class `wrap` records for a handler that raised. -/
def Executed.failure : Executed → Option FailureClass
  | .failed cls => some cls
  | .refused _ => some .orchestrationRuntimeError
  | .broken (.missingHandler _) => some .configurationInvalid
  | .broken _ => some .orchestrationRuntimeError
  | _ => none

/-- `row.status` of a result. -/
def resultStatus (update : WorkflowStateV1) : NodeStatus :=
  if update.cancelled = some true then .cancelled
  else if (member update.outcome "failure_class").any Json.truthy then .failed
  else .succeeded

/-- `FailureClass(str(reported))`, for an update that reports a failure. -/
def reportedClass (update : WorkflowStateV1) : Except Raised (Option FailureClass) :=
  match (member update.outcome "failure_class").filter Json.truthy with
  | none => .ok none
  | some (.scalar (.str value)) =>
    match FailureClass.ofValue value with
    | some cls => .ok (some cls)
    | none => .error (.blocked "Not a failure class")
  | some _ => .error (.blocked "Not a failure class")

/-- The commit of a result, with the failure it reports unless the execution has one already. -/
def recordResult (store : Store) (key : String) (row : NodeRow) (update : WorkflowStateV1) : Except Raised Store := do
  let done := store.put key { row with status := resultStatus update, result := some update }
  if store.failures.any (·.1 == key) then return done
  match ← reportedClass update with
  | some cls => return done.fail key cls
  | none => return done

/-- The rows while the node executes, with the failure its handler raised. -/
def Store.started (store : Store) (key : String) (row : NodeRow) (executed : Executed) : Store :=
  let running := store.put key { row with status := .running }
  match executed.failure with
  | some cls => running.fail key cls
  | none => running

/-- `NodeRuntime.wrap(...).invoke`: `cancelled` says whether a cancellation is found when the node has
    ended. -/
def wrapRows (spec : WorkflowSpec) (node : WorkflowNode) (state : WorkflowStateV1) (desired : Desired)
    (result : HandlerResult) (cancelled : Bool) (store : Store) : NodeEnd × Store :=
  let key := executionId state node.id
  let row := (store.executions.get? key).getD { node := node.id }
  match desired with
  | .cancelled => (.returned cancelUpdate, store)
  | .paused => (.interrupted, store.put key { row with status := .waiting })
  | .running =>
    match row.result with
    | some cached => (.of ((reportedChecks cached).map fun _ => cached), store)
    | none =>
      let executed := execute spec node state result
      let started := store.started key row executed
      match classify node state executed with
      | .error e => (.raised e, started)
      | .ok update =>
        let update := if cancelled then cancelUpdate else update
        match recordResult started key row update with
        | .error e => (.raised e, started)
        | .ok recorded => (.of ((reportedChecks update).map fun _ => update), recorded)

/-! ## The route observer -/

/-- The key under which the observer notes an execution as applied. -/
def appliedKey (state : WorkflowStateV1) (id : String) : String := "route:" ++ executionId state id

/-- What follows the first `:`. -/
def afterColon (text : List Char) : Option (List Char) :=
  match text.dropWhile (· ≠ ':') with
  | [] => none
  | _ :: rest => some rest

/-- `FailureClass(counter_key.split(":", 2)[2])`. -/
def retryClassOf (key : String) : Option FailureClass :=
  ((afterColon key.toList).bind afterColon).bind fun rest => FailureClass.ofValue (String.ofList rest)

/-- The retry policy of a node, found as the observer does. -/
def observedPolicy (spec : WorkflowSpec) (snapshot : WorkflowResolvedSnapshot) (node : WorkflowNode) :
    Option RetryRegistrySpec :=
  match snapshot.revisions.find? fun revision => some revision.revisionId = (effectivePolicy spec node).retryPolicyRef with
  | some { spec := .retryPolicy policy, .. } => some policy
  | _ => none

def disagreement : Raised := .blocked "Compiler and retry policy disagree"

/-- The loop of the observer over the counters of an update, for one of them. -/
def consumeRetry (spec : WorkflowSpec) (snapshot : WorkflowResolvedSnapshot) (node : WorkflowNode)
    (state : WorkflowStateV1) (counters : Dict (String × FailureClass) RetryCounter) (entry : String × Int) :
    Except Raised (Dict (String × FailureClass) RetryCounter) :=
  if !"retry:".isPrefixOf entry.1 || decide (entry.2 ≤ state.counter entry.1) then .ok counters
  else
    match retryClassOf entry.1 with
    | none => .error (.blocked "Not a failure class")
    | some failure =>
      match observedPolicy spec snapshot node with
      | none => .error (.blocked "Missing immutable retry policy")
      | some policy =>
        match evaluateRetry policy failure fun cls => if cls = failure then entry.2 - 1 else 0 with
        | none => .error (.blocked "retry counters cannot be negative")
        | some decision =>
          if decision.retry = false then .error disagreement
          else
            match policy.rule? (some failure) with
            | none => .error .stopIteration
            | some rule =>
              let maximum := ((counters.get? (node.id, failure)).map (·.maximum)).getD rule.maxRetries
              .ok (counters.insert (node.id, failure) ⟨entry.2, maximum⟩)

/-- `NodeRuntime.route`: nothing where the key is applied. -/
def routeRows (spec : WorkflowSpec) (snapshot : WorkflowResolvedSnapshot) (node : WorkflowNode)
    (state update : WorkflowStateV1) (store : Store) : Except Raised (WorkflowStateV1 × Store) :=
  let key := appliedKey state node.id
  if key ∈ store.routes then .ok (update, store)
  else do
    let observed := observeRoute spec snapshot node state update
    let counters ← (observed.counters.getD .empty).entries.foldlM (consumeRetry spec snapshot node state) store.retryCounters
    return (observed, { store with
      routes := store.routes.drop (store.routes.length - 999) ++ [key]
      retryCounters := counters })

/-- The update with its route, chosen on the merged state, where the node has edges to route along. -/
def routedUpdate (spec : WorkflowSpec) (snapshot : WorkflowResolvedSnapshot) (node : WorkflowNode)
    (state update : WorkflowStateV1) : Except Raised WorkflowStateV1 :=
  let edges := routeEdges spec node.id
  if edges.isEmpty || node.type == .fanout then .ok update
  else do
    let merged ← mergedState state update
    let route ← chooseRoute spec snapshot node edges merged
    return { update with route := some route.1, counters := some ((update.counters.getD .empty).update route.2) }

/-- The compiled node after its execution (`invoke` of `add_node`): route, observe. -/
def observeRows (spec : WorkflowSpec) (snapshot : WorkflowResolvedSnapshot) (node : WorkflowNode)
    (state update : WorkflowStateV1) (store : Store) : Except Raised (WorkflowStateV1 × Store) :=
  if update.cancelled = some true then .ok (update, store)
  else do
    let routed ← routedUpdate spec snapshot node state update
    routeRows spec snapshot node state routed store

/-! ## What the rows do not change -/

theorem reportedChecks_error {update : WorkflowStateV1} {e : Raised} (h : reportedClass update = .error e) :
    reportedChecks update = .error e := by
  cases hv : (member update.outcome "failure_class").filter Json.truthy with
  | none =>
    simp only [reportedClass, hv] at h
    cases h
  | some other =>
    simp only [reportedClass, hv] at h
    simp only [reportedChecks, hv]
    cases other with
    | scalar s =>
      cases s with
      | str value =>
        simp only at h ⊢
        cases hcls : FailureClass.ofValue value with
        | none =>
          rw [hcls] at h
          cases h
          rfl
        | some cls =>
          rw [hcls] at h
          cases h
      | _ =>
        cases h
        rfl
    | _ =>
      cases h
      rfl

theorem recordResult_error {store : Store} {key : String} {row : NodeRow} {update : WorkflowStateV1} {e : Raised}
    (h : recordResult store key row update = .error e) : reportedChecks update = .error e := by
  unfold recordResult at h
  dsimp only at h
  split at h
  · cases h
  · cases hc : reportedClass update with
    | error e' =>
      rw [hc] at h
      cases h
      exact reportedChecks_error hc
    | ok cls =>
      rw [hc] at h
      cases cls <;> cases h

/-- Without a recorded result the middleware does what it does without rows. -/
theorem wrapRows_fresh {spec : WorkflowSpec} {node : WorkflowNode} {state : WorkflowStateV1} {store : Store}
    (h : store.result? (executionId state node.id) = none) (result : HandlerResult) (cancelled : Bool) :
    (wrapRows spec node state .running result cancelled store).1 = .of (wrap spec node state (.handled result cancelled)) := by
  have hrow : ((store.executions.get? (executionId state node.id)).getD { node := node.id }).result = none := by
    unfold Store.result? at h
    cases hg : store.executions.get? (executionId state node.id) with
    | none => rfl
    | some row =>
      rw [hg] at h
      exact h
  unfold wrapRows wrap
  simp only [hrow]
  cases classify node state (execute spec node state result) with
  | error e => rfl
  | ok update =>
    dsimp only
    split
    · rename_i e hrecord
      simp only [bind, Except.bind, recordResult_error hrecord]
      rfl
    · cases hchecks : reportedChecks (if cancelled = true then cancelUpdate else update) with
      | error e => simp only [bind, Except.bind, hchecks]; rfl
      | ok u => simp only [bind, Except.bind, hchecks]; rfl

/-- What the middleware does to the rows: it records at most one result, where there was none, and
    leaves what the observer writes. -/
structure RecordsResult (spec : WorkflowSpec) (node : WorkflowNode) (state : WorkflowStateV1) (result : HandlerResult)
    (cancelled : Bool) (store store' : Store) : Prop where
  routes : store'.routes = store.routes
  retryCounters : store'.retryCounters = store.retryCounters
  results : store'.result? = store.result? ∨
    store.result? (executionId state node.id) = none ∧ ∃ update,
      store'.result? = (fun key => if key = executionId state node.id then some update else store.result? key) ∧
      (reportedChecks update = .ok () → wrap spec node state (.handled result cancelled) = .ok update)

theorem result?_put (store : Store) (key : String) (row : NodeRow) :
    (store.put key row).result? = fun k => if k = key then row.result else store.result? k := by
  funext k
  simp only [Store.result?, Store.put, Dict.get?_insert]
  split <;> rfl

theorem result?_getD {store : Store} {key : String} (row : NodeRow) (h : row.result = none) :
    ((store.executions.get? key).getD row).result = store.result? key := by
  unfold Store.result?
  cases store.executions.get? key with
  | none => exact h
  | some _ => rfl

/-- Writing a row with the result it has changes no result. -/
theorem result?_put_self {store : Store} {key : String} {row : NodeRow} (h : row.result = store.result? key) :
    (store.put key row).result? = store.result? := by
  rw [result?_put, h]
  funext k
  split
  · rename_i hk
    rw [hk]
  · rfl

theorem recordResult_ok {store store' : Store} {key : String} {row : NodeRow} {update : WorkflowStateV1}
    (h : recordResult store key row update = .ok store') :
    store'.result? = (fun k => if k = key then some update else store.result? k) ∧
    store'.routes = store.routes ∧ store'.retryCounters = store.retryCounters := by
  have hput := result?_put store key { row with status := resultStatus update, result := some update }
  unfold recordResult at h
  dsimp only at h
  split at h
  · cases h
    exact ⟨hput, rfl, rfl⟩
  · obtain ⟨cls, -, h⟩ := bind_eq_ok.mp h
    cases cls with
    | none => cases h; exact ⟨hput, rfl, rfl⟩
    | some cls => cases h; exact ⟨hput, rfl, rfl⟩

theorem started_keeps {store : Store} {key : String} {row : NodeRow} (h : row.result = store.result? key)
    (executed : Executed) : (store.started key row executed).result? = store.result? ∧
    (store.started key row executed).routes = store.routes ∧
    (store.started key row executed).retryCounters = store.retryCounters := by
  have hput : (store.put key { row with status := .running }).result? = store.result? := result?_put_self h
  unfold Store.started
  split
  · exact ⟨hput, rfl, rfl⟩
  · exact ⟨hput, rfl, rfl⟩

theorem wrapRows_recorded (spec : WorkflowSpec) (node : WorkflowNode) (state : WorkflowStateV1) (desired : Desired)
    (result : HandlerResult) (cancelled : Bool) (store : Store) :
    RecordsResult spec node state result cancelled store (wrapRows spec node state desired result cancelled store).2 := by
  have hrow := @result?_getD store (executionId state node.id) { node := node.id } rfl
  unfold wrapRows
  cases desired with
  | cancelled => exact ⟨rfl, rfl, .inl rfl⟩
  | paused => exact ⟨rfl, rfl, .inl (result?_put_self hrow)⟩
  | running =>
    dsimp only
    split
    · exact ⟨rfl, rfl, .inl rfl⟩
    · rename_i hnone
      obtain ⟨hresults, hroutes, hcounters⟩ := started_keeps hrow (execute spec node state result)
      split
      · exact ⟨hroutes, hcounters, .inl hresults⟩
      · rename_i update hclassify
        split
        · exact ⟨hroutes, hcounters, .inl hresults⟩
        · rename_i recorded hrecord
          obtain ⟨hr, hrt, hk⟩ := recordResult_ok hrecord
          refine ⟨hrt.trans hroutes, hk.trans hcounters, .inr ⟨hrow.symm.trans hnone,
            if cancelled = true then cancelUpdate else update, ?_, fun hchecks => ?_⟩⟩
          · rw [hr, hresults]
          · simp only [wrap, hclassify, bind, Except.bind, hchecks]
            rfl

/-- A result the middleware returns is the cancellation it found first, or recorded. -/
theorem wrapRows_returned {spec : WorkflowSpec} {node : WorkflowNode} {state update : WorkflowStateV1} {desired : Desired}
    {result : HandlerResult} {cancelled : Bool} {store store' : Store}
    (h : wrapRows spec node state desired result cancelled store = (.returned update, store')) :
    (desired = .cancelled ∧ update = cancelUpdate ∧ store' = store) ∨
    desired = .running ∧ store'.result? (executionId state node.id) = some update ∧ reportedChecks update = .ok () ∧
      (store.result? (executionId state node.id) = some update ∧ store' = store ∨
        store.result? (executionId state node.id) = none ∧ wrap spec node state (.handled result cancelled) = .ok update) := by
  have hof : ∀ {x : WorkflowStateV1}, NodeEnd.of ((reportedChecks x).map fun _ => x) = .returned update →
      x = update ∧ reportedChecks x = .ok () := by
    intro x hx
    cases hchecks : reportedChecks x with
    | error e => rw [hchecks] at hx; cases hx
    | ok u => rw [hchecks] at hx; cases hx; exact ⟨rfl, rfl⟩
  have hrow := @result?_getD store (executionId state node.id) { node := node.id } rfl
  cases desired with
  | cancelled =>
    cases h
    exact .inl ⟨rfl, rfl, rfl⟩
  | paused => cases h
  | running =>
    right
    cases hresult : store.result? (executionId state node.id) with
    | some cached =>
      simp only [wrapRows, hrow, hresult, Prod.mk.injEq] at h
      obtain ⟨hend, rfl⟩ := h
      obtain ⟨rfl, hchecks⟩ := hof hend
      exact ⟨rfl, hresult, hchecks, .inl ⟨rfl, rfl⟩⟩
    | none =>
      simp only [wrapRows, hrow, hresult] at h
      split at h
      · cases h
      · rename_i u hclassify
        split at h
        · cases h
        · rename_i recorded hrecord
          obtain ⟨hend, rfl⟩ := Prod.mk.inj h
          obtain ⟨rfl, hchecks⟩ := hof hend
          refine ⟨rfl, ?_, hchecks, .inr ⟨rfl, ?_⟩⟩
          · rw [(recordResult_ok hrecord).1]
            exact if_pos rfl
          · simp only [wrap, hclassify, bind, Except.bind, hchecks]
            rfl

/-- An observer that finds its key new leaves what the compiled node leaves without rows. -/
theorem observeRows_fresh {spec : WorkflowSpec} {snapshot : WorkflowResolvedSnapshot} {node : WorkflowNode}
    {state update final : WorkflowStateV1} {attempt : Attempt} {store store' : Store}
    (hw : wrap spec node state attempt = .ok update) (hnew : appliedKey state node.id ∉ store.routes)
    (h : observeRows spec snapshot node state update store = .ok (final, store')) :
    invokeNode spec snapshot node state attempt = .ok final := by
  unfold observeRows at h
  unfold invokeNode
  rw [hw]
  by_cases hc : update.cancelled = some true
  · simp only [hc, if_true] at h
    cases h
    simp [bind, Except.bind, hc, pure, Except.pure]
  · rw [if_neg hc] at h
    obtain ⟨routed, hrouted, h⟩ := bind_eq_ok.mp h
    have hfinal : observeRoute spec snapshot node state routed = final := by
      unfold routeRows at h
      dsimp only at h
      rw [if_neg hnew] at h
      obtain ⟨counters, -, h⟩ := bind_eq_ok.mp h
      cases h
      rfl
    unfold routedUpdate at hrouted
    dsimp only at hrouted
    simp only [bind, Except.bind, hc, if_false]
    split at hrouted
    · rename_i he
      cases hrouted
      rw [if_pos he, hfinal]
      rfl
    · rename_i he
      obtain ⟨merged, hm, hrouted⟩ := bind_eq_ok.mp hrouted
      obtain ⟨route, hr, hrouted⟩ := bind_eq_ok.mp hrouted
      cases hrouted
      simp only [if_neg he, hm, hr, hfinal]
      rfl

/-! ## Runs that stop and resume -/

/-- What an execution has committed before its checkpoint. -/
inductive Flight where
  /-- Its result is recorded. -/
  | recorded (update : WorkflowStateV1)
  /-- Its route is observed. -/
  | observed (update : WorkflowStateV1)

/-- The graph's checkpoint, the rows, and what the process that runs it has in flight: for the main
    graph (`none`) and for each child graph. -/
structure Durable where
  run : Run
  store : Store
  flight : Option String → Option Flight

def Durable.init : Durable := ⟨Run.init, {}, fun _ => none⟩

/-- The node a graph is at and the state it is executed in. -/
def site (spec : WorkflowSpec) (r : Run) : Option String → Option (WorkflowNode × WorkflowStateV1)
  | none =>
    match r.place with
    | .node id => (spec.node? id).map fun node => (node, r.state)
    | _ => none
  | some child =>
    match r.branches.find? fun b => b.child = child with
    | some b =>
      match b.place with
      | .node id => (spec.node? id).map fun node => (node, b.state)
      | _ => none
    | none => none

/-- The checkpoint after a node of the main graph. -/
def arrive (spec : WorkflowSpec) (r : Run) (node : WorkflowNode) (state : WorkflowStateV1) (log : List Execution) : Run :=
  match advance spec node state with
  | .ended => ⟨state, .ended, r.supersteps + 2, log⟩
  | place => ⟨state, place, r.supersteps + 1, log⟩

/-- The checkpoint after a node of a child graph. -/
def arriveBranch (spec : WorkflowSpec) (joinId : String) (b : Branch) (node : WorkflowNode) (state : WorkflowStateV1) :
    Branch :=
  match advanceBranch spec joinId node state with
  | .ended => ⟨b.child, state, .ended, b.supersteps + 2⟩
  | place => ⟨b.child, state, place, b.supersteps + 1⟩

/-- The checkpoint of an update, if the reducers take it. -/
def checkpoint (spec : WorkflowSpec) (r : Run) (who : Option String) (node : WorkflowNode) (update : WorkflowStateV1) :
    Option Run :=
  let log := r.log ++ [⟨node.id, who, some update⟩]
  match who with
  | none => (mergedState r.state update).toOption.map fun state => arrive spec r node state log
  | some child =>
    match r.place with
    | .parallel fanoutId joinId branches =>
      (branches.find? fun b => b.child = child).bind fun b =>
        (mergedState b.state update).toOption.map fun state =>
          ⟨r.state, .parallel fanoutId joinId (replaceBranch branches (arriveBranch spec joinId b node state)),
            r.supersteps, log⟩
    | _ => none

inductive DurableAction where
  /-- A step of the graph that executes no node. -/
  | graph (action : Action)
  | execute (who : Option String) (desired : Desired) (result : HandlerResult) (cancelled : Bool)
  | observe (who : Option String)
  | checkpoint (who : Option String)
  /-- The process stops; another owner claims the run. -/
  | crash

/-- `flight` with another entry for one graph. -/
def setFlight (flight : Option String → Option Flight) (who : Option String) (f : Option Flight) :
    Option String → Option Flight := fun other => if other = who then f else flight other

/-- A step of a run with its rows. A computation that raises leaves its node to be executed again. -/
def durableStep (spec : WorkflowSpec) (snapshot : WorkflowResolvedSnapshot) (s : Durable) : DurableAction → Option Durable
  | .graph (.exec _) => none
  | .graph (.child _ _) => none
  | .graph action => (step spec snapshot s.run action).map fun run => { s with run }
  | .execute who desired result cancelled =>
    match s.flight who, site spec s.run who with
    | none, some (node, state) =>
      match wrapRows spec node state desired result cancelled s.store with
      | (.returned update, store) => some { s with store, flight := setFlight s.flight who (some (.recorded update)) }
      | (_, store) => some { s with store }
    | _, _ => none
  | .observe who =>
    match s.flight who, site spec s.run who with
    | some (.recorded update), some (node, state) =>
      match observeRows spec snapshot node state update s.store with
      | .ok (observed, store) => some { s with store, flight := setFlight s.flight who (some (.observed observed)) }
      | .error _ => some { s with flight := setFlight s.flight who none }
    | _, _ => none
  | .checkpoint who =>
    match s.flight who, site spec s.run who with
    | some (.observed update), some (node, _) =>
      some { s with
        run := (checkpoint spec s.run who node update).getD s.run
        flight := setFlight s.flight who none }
    | _, _ => none
  | .crash => some { s with flight := fun _ => none }

end Jarvis.Workflows
