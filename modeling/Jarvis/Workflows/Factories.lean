/-
  Jarvis.Workflows.Factories — executing one node: the guards, the handler's contract and the
  channels a completion sets (`workflows/factories.py`), under the middleware that turns a
  boundary error into a classified outcome (`NodeRuntime.wrap` and `route` of
  `runtime/nodes.py`).

  What a handler does is an input (`HandlerResult`), with its update as `safe_result`
  returns it; so is whether a cancellation is seen before or after the handler runs
  (`Attempt`). The rows, events and waits the middleware also writes are in
  `Jarvis.Runtime`.
-/
import Jarvis.Workflows.Compiler

namespace Jarvis.Workflows

/-- `invocation_key`. -/
def invocationKey (state : WorkflowStateV1) (id : String) : String :=
  "visit:" ++ state.childIdentity.getD "main" ++ ":" ++ id

/-- `child_id`. -/
def childId (fanoutId : String) (visit : Int) (child : String) : String :=
  fanoutId ++ ":" ++ toString visit ++ ":" ++ child

/-- The number of the visit that is starting. -/
def visitOf (state : WorkflowStateV1) (id : String) : Int := state.counter (invocationKey state id) + 1

/-- `NodeContext.execution_id`. -/
def executionId (state : WorkflowStateV1) (id : String) : String :=
  state.childIdentity.getD "main" ++ ":" ++ id ++ ":" ++ toString (visitOf state id)

/-- Whether the state is a branch's: `state.get("child_identity")` is not empty. -/
def inBranch (state : WorkflowStateV1) : Bool := state.childIdentity.any (· != "")

/-! ## Internal nodes -/

def Json.member? (value : Json) (key : String) : Option Json :=
  match value with
  | .obj members => members.lookup key
  | _ => none

/-- The text at `key` of an object. -/
def textOf (value : Json) (key : String) : Option String :=
  match Json.member? value key with
  | some (.scalar (.str s)) => some s
  | _ => none

/-- The keys of the items whose status is one of `statuses`. -/
def withStatus (items : List (String × Json)) (statuses : List String) : List String :=
  (items.filter fun item => (textOf item.2 "status").any fun s => s ∈ statuses).map Prod.fst

/-- The dependencies of an item, when they are a list of planned task keys. -/
def dependenciesOf (items : List (String × Json)) (members : List (String × Json)) : Option (List String) :=
  match members.lookup "dependencies" with
  | none => some []
  | some (.list values) =>
    values.mapM fun value =>
      match value with
      | .scalar (.str key) => if key ∈ items.map Prod.fst then some key else none
      | _ => none
  | some _ => none

/-- The ready tasks, by key. -/
def readyTasks (items : List (String × Json)) (completed : List String) :
    List (String × Json) → Except Raised (List String)
  | [] => .ok []
  | (key, item) :: rest =>
    match item with
    | .obj members =>
      match dependenciesOf items members with
      | none => .error (.invariant "Task dependencies must name planned task keys")
      | some dependencies => do
        let ready ← readyTasks items completed rest
        let pending :=
          match members.lookup "status" with
          | none => true
          | some status => status.pyEq (.str "pending")
        return if pending && dependencies.all (· ∈ completed) then key :: ready else ready
    | _ => .error (.invariant "Task entries must be objects")

/-- `_dispatch`. -/
def dispatch (state : WorkflowStateV1) : Except Raised WorkflowStateV1 :=
  let tasks := state.tasks.getD .empty
  match tasks.get? "items" with
  | some (.obj items) => do
    let terminal := withStatus items ["completed", "failed", "cancelled"]
    let completed := withStatus items ["completed"]
    let ready ← readyTasks items completed (items.insertionSort fun a b => stringLe a.1 b.1)
    return { tasks := some (tasks.update
      [("terminal_count", .int terminal.length), ("total_count", .int items.length),
        ("current_task", (ready.head?.map Json.str).getD .null)]) }
  | _ => .ok { tasks := some tasks }

/-- The join's expected children of its current activation. -/
def expectedOf (state : WorkflowStateV1) (fanoutId : String) : List String :=
  (state.expectedChildren.getD []).filter fun key => (joinPrefix state fanoutId).isPrefixOf key
where
  /-- The identities of one activation of the fan-out start with it and its visit. -/
  joinPrefix (state : WorkflowStateV1) (fanoutId : String) : String :=
    fanoutId ++ ":" ++ toString (state.counter ("visit:main:" ++ fanoutId)) ++ ":"

/-- The JOIN branch of `_internal`. -/
def joinUpdate (state : WorkflowStateV1) (id fanoutId : String) : Except Raised WorkflowStateV1 :=
  let expected := expectedOf state fanoutId
  let completed := state.completedChildren.getD []
  let results := state.childResults.getD .empty
  if expected.isEmpty || expected.any (fun key => key ∉ completed || (results.get? key).isNone) then
    .error (.invariant ("Join " ++ id ++ " received incomplete child results"))
  else
    let members := (expected.insertionSort fun a b => stringLe a b).map fun key => (key, (results.get? key).getD .null)
    .ok { results := some (Dict.ofList [("join:" ++ expectedOf.joinPrefix state fanoutId, .obj members)]) }

/-- The failures the children reported. -/
def childFailures (state : WorkflowStateV1) : List String :=
  (state.childResults.getD .empty).entries.flatMap fun branch =>
    match branch.2 with
    | .obj results =>
      results.flatMap fun result =>
        match result.2 with
        | .obj _ =>
          if (Json.member? result.2 "failure_class").any Json.truthy then ["failed"]
          else ((textOf result.2 "status").filter fun s => s ∈ ["failed", "blocked", "cancelled"]).toList
        | _ => []
    | _ => []

/-- The status a deriving finalize node starts from. -/
def derivedStatus (state : WorkflowStateV1) : Json :=
  (member state.outcome "status").getD
    (.str (if (member state.outcome "failure_class").any Json.truthy then "failed" else "completed"))

/-- The FINALIZE branch of `_internal`. -/
def finalStatus (state : WorkflowStateV1) (outcome : FinalizeOutcome) : Except Raised String :=
  let failures := childFailures state
  let status := ["blocked", "failed", "cancelled"].foldl
    (fun status s => if s ∈ failures then Json.str s else status) (derivedStatus state)
  let status := if outcome = .derive then status else .str outcome.value
  let status := if state.cancelled = some true then .str "cancelled" else status
  match status with
  | .scalar (.str s) =>
    let s := if s = "succeeded" then "completed" else s
    if s ∈ ["completed", "failed", "blocked", "cancelled"] then .ok s
    else .error (.invariant "Finalize received an unknown classified outcome")
  | _ => .error (.invariant "Finalize received an unknown classified outcome")

/-- `_internal`. -/
def internal (state : WorkflowStateV1) (node : WorkflowNode) : Except Raised WorkflowStateV1 :=
  match node.config with
  | .taskDispatch => dispatch state
  | .fanout children _ _ =>
    .ok { expectedChildren := some (children.map fun child => childId node.id (visitOf state node.id) child) }
  | .join fanoutId => joinUpdate state node.id fanoutId
  | .finalize outcome => do
    let status ← finalStatus state outcome
    return { final := some (Dict.ofList [("status", .str status)]) }
  | _ => .ok {}

/-! ## The factory -/

/-- The grant a protected node finds in the state: decision, action type and granting node. -/
def grantMatches (approval : ApprovalPolicy) (state : WorkflowStateV1) : Bool :=
  isText state.approval "decision" "approved" &&
  (match approval.actionType with
    | some action => isText state.approval "action_type" action.value
    | none => (member state.approval "action_type").all fun v => match v with | .scalar .null => true | _ => false) &&
  (approval.requiredGrantFrom.any fun grant => isText state.approval "granted_by" grant)

def protectedMessage : String := "Protected action has no matching approved grant"

/-- The first guard that refuses the node, if any. -/
def guard (spec : WorkflowSpec) (node : WorkflowNode) (state : WorkflowStateV1) : Option String :=
  if (effectivePolicy spec node).approval.any fun approval => approval.grantFrom.isSome && !grantMatches approval state then
    some protectedMessage
  else if (node.type == .reviewer || node.type == .githubPublish) && !isTrue state.verification "passed" then
    some "Required verification has not passed"
  else if node.type == .githubPublish && !isTrue state.review "passed" then
    some "Required review has not passed"
  else if node.config == .finalize .derive && state.needsVerification == some true && state.cancelled != some true &&
      !(member state.outcome "failure_class").any Json.truthy &&
      !(["failed", "blocked", "cancelled"].any fun s => isText state.outcome "status" s) then
    some "Final success cannot bypass required verification"
  else none

/-- What an external handler may have written. -/
def handlerChecks (node : WorkflowNode) (state update : WorkflowStateV1) : Except Raised Unit :=
  if update.channels.any fun c => c ∉ (nodeDefinitions node.type).outputs ++ [.node, .outcome] then
    .error (.invariant ("Node " ++ node.id ++ " wrote channels outside its declared contract"))
  else if inBranch state && update.channels.any fun c => c ≠ .results then
    .error (.invariant "Parallel children may only write reduced results")
  else .ok ()

/-- The channels a main-graph WORKER and a VERIFY set when they complete. -/
def resets (spec : WorkflowSpec) (node : WorkflowNode) (state update : WorkflowStateV1) : WorkflowStateV1 :=
  match node.type with
  | .worker =>
    if inBranch state then update
    else
      { update with
        verification := some .empty
        review := some .empty
        approval := some .empty
        needsVerification := some (requiresVerification spec node) }
  | .verify => { update with needsVerification := some (!isTrue update.verification "passed") }
  | _ => update

/-- The architect's declared bound on its tasks. -/
def architectChecks (node : WorkflowNode) (update : WorkflowStateV1) : Except Raised Unit :=
  match node.config with
  | .architect maxTasks =>
    let tasks := update.tasks.getD .empty
    match (tasks.get? "items").getD (.obj []) with
    | .obj items =>
      match (tasks.get? "total_count").getD (.int items.length) with
      | .scalar (.int count) =>
        if count < 0 ∨ (maxTasks : Int) < count ∨ maxTasks < items.length ∨
            ((tasks.get? "items").isSome ∧ (items.length : Int) ≠ count) then
          .error (.invariant "Architect output exceeds its declared task bound")
        else .ok ()
      | _ => .error (.invariant "Architect output exceeds its declared task bound")
    | _ => .error (.invariant "Architect task entries must be an object")
  | _ => .ok ()

/-- The results and the visit counter of a completion. -/
def completed (node : WorkflowNode) (state update : WorkflowStateV1) : Except Raised WorkflowStateV1 :=
  let results := update.results.getD .empty
  let key := executionId state node.id
  if (nodeDefinitions node.type).external && results.keys.any (· ≠ key) then
    .error (.invariant "Handler results must use the supplied execution identity")
  else
    .ok { update with
      results := some (if (results.get? key).isSome then results
        else results.insert key (.obj [("node_id", .str node.id)]))
      counters := some (Dict.ofList [(invocationKey state node.id, visitOf state node.id)]) }

/-- What the factory does after the handler or the internal node returned. -/
def complete (spec : WorkflowSpec) (node : WorkflowNode) (state update : WorkflowStateV1) :
    Except Raised WorkflowStateV1 := do
  let update := resets spec node state update
  architectChecks node update
  completed node state update

/-- What an external handler does. -/
inductive HandlerResult where
  | returns (update : WorkflowStateV1)
  /-- It raises a boundary error that declares the class. -/
  | raises (cls : FailureClass)
  /-- It raises any other error, or there is no handler. -/
  | breaks
  /-- It observes a cancellation. -/
  | cancels

/-- How the call of a factory's node ends. -/
inductive Executed where
  | refused (message : String)
  | finished (update : WorkflowStateV1)
  | failed (cls : FailureClass)
  | broken (error : Raised)
  | cancelled

def Executed.of : Except Raised WorkflowStateV1 → Executed
  | .ok update => .finished update
  | .error e => .broken e

/-- `_factory(...).invoke`. -/
def execute (spec : WorkflowSpec) (node : WorkflowNode) (state : WorkflowStateV1) (result : HandlerResult) : Executed :=
  match guard spec node state with
  | some message => .refused message
  | none =>
    if (nodeDefinitions node.type).external then
      match result with
      | .returns update =>
        Executed.of do
          handlerChecks node state update
          complete spec node state update
      | .raises cls => .failed cls
      | .breaks => .broken (.missingHandler ("Node " ++ node.id ++ " has no bound service handler"))
      | .cancels => .cancelled
    else
      Executed.of do
        let update ← internal state node
        complete spec node state update

/-! ## The middleware -/

/-- One attempt of a node under `NodeRuntime`. -/
inductive Attempt where
  /-- The run is cancelled before the node starts. -/
  | cancelledBefore
  /-- The node runs; `cancelled` says whether a cancellation is found when it has ended. -/
  | handled (result : HandlerResult) (cancelled : Bool)

def cancelUpdate : WorkflowStateV1 :=
  { cancelled := some true, final := some (Dict.ofList [("status", .str "cancelled")]) }

/-- The update of a classified failure: an outcome and the visit, nothing else. -/
def failureUpdate (node : WorkflowNode) (state : WorkflowStateV1) (cls : FailureClass) : WorkflowStateV1 :=
  { outcome := some (Dict.ofList [("status", .str "failed"), ("failure_class", .str cls.value)])
    counters := some (Dict.ofList [(invocationKey state node.id, visitOf state node.id)]) }

/-- The checks of a reported failure class. -/
def reportedChecks (update : WorkflowStateV1) : Except Raised Unit :=
  match (member update.outcome "failure_class").filter Json.truthy with
  | none => .ok ()
  | some (.scalar (.str value)) =>
    match FailureClass.ofValue value with
    | none => .error (.blocked "Not a failure class")
    | some cls =>
      if !cls.retryable then .error (.blocked "Non-transient node failure")
      else if cls = .unknown then .error (.blocked "Unknown node outcome")
      else .ok ()
  | some _ => .error (.blocked "Not a failure class")

/-- What the middleware makes of a call that has ended, before it looks at cancellation. -/
def classify (node : WorkflowNode) (state : WorkflowStateV1) : Executed → Except Raised WorkflowStateV1
  | .finished update => .ok update
  | .cancelled => .ok cancelUpdate
  | .failed cls =>
    if cls = .unknown ∨ !cls.retryable then .error (.blocked "Node requires configuration or outcome reconciliation")
    else .ok (failureUpdate node state cls)
  | .refused _ => .error (.blocked "Node requires configuration or outcome reconciliation")
  | .broken _ => .error (.blocked "Node requires configuration or outcome reconciliation")

/-- `NodeRuntime.wrap(...).invoke`. -/
def wrap (spec : WorkflowSpec) (node : WorkflowNode) (state : WorkflowStateV1) : Attempt → Except Raised WorkflowStateV1
  | .cancelledBefore => .ok cancelUpdate
  | .handled result cancelled => do
    let update ← classify node state (execute spec node state result)
    let update := if cancelled then cancelUpdate else update
    reportedChecks update
    return update

/-- The retry rule the middleware finds for a reported class. -/
def reportedRule (spec : WorkflowSpec) (snapshot : WorkflowResolvedSnapshot) (node : WorkflowNode) (reported : String) :
    Option RetryRule :=
  match snapshot.revisions.find? fun revision => some revision.revisionId = (effectivePolicy spec node).retryPolicyRef with
  | some { spec := .retryPolicy policy, .. } => policy.rules.find? fun rule => rule.failureClass.value = reported
  | _ => none

/-- `NodeRuntime.route`: an exhausted retry overwrites the status of the outcome. -/
def observeRoute (spec : WorkflowSpec) (snapshot : WorkflowResolvedSnapshot) (node : WorkflowNode)
    (state update : WorkflowStateV1) : WorkflowStateV1 :=
  match (member update.outcome "failure_class").filter Json.truthy with
  | some (.scalar (.str reported)) =>
    match reportedRule spec snapshot node reported with
    | some rule =>
      if (rule.maxRetries : Int) ≤ state.counter ("retry:" ++ node.id ++ ":" ++ reported) then
        { update with
          outcome := some ((update.outcome.getD .empty).insert "status"
            (.str (if rule.exhaustionAction = .fail then "failed" else "blocked"))) }
      else update
    | none => update
  | _ => update

/-- The compiled node (`invoke` of `add_node`): execute, route on the merged state, observe. -/
def invokeNode (spec : WorkflowSpec) (snapshot : WorkflowResolvedSnapshot) (node : WorkflowNode) (state : WorkflowStateV1)
    (attempt : Attempt) : Except Raised WorkflowStateV1 := do
  let update ← wrap spec node state attempt
  if update.cancelled = some true then return update
  let edges := routeEdges spec node.id
  if edges.isEmpty || node.type == .fanout then return observeRoute spec snapshot node state update
  let merged ← mergedState state update
  let route ← chooseRoute spec snapshot node edges merged
  return observeRoute spec snapshot node state
    { update with route := some route.1, counters := some ((update.counters.getD .empty).update route.2) }

/-! ## What a node can write -/

/-- The channels besides the results that only the middleware, the compiler or a few node types
    write, absent from an update. -/
structure Plain (update : WorkflowStateV1) : Prop where
  verification : update.verification = none
  review : update.review = none
  approval : update.approval = none
  cancelled : update.cancelled = none
  childIdentity : update.childIdentity = none
  route : update.route = none

theorem internal_plain {state update : WorkflowStateV1} {node : WorkflowNode} (h : internal state node = .ok update) :
    Plain update := by
  unfold internal at h
  split at h
  · unfold dispatch at h
    dsimp only at h
    split at h
    · obtain ⟨ready, -, h⟩ := bind_eq_ok.mp h
      cases h
      exact ⟨rfl, rfl, rfl, rfl, rfl, rfl⟩
    · cases h
      exact ⟨rfl, rfl, rfl, rfl, rfl, rfl⟩
  · cases h
    exact ⟨rfl, rfl, rfl, rfl, rfl, rfl⟩
  · unfold joinUpdate at h
    dsimp only at h
    split at h
    · cases h
    · cases h
      exact ⟨rfl, rfl, rfl, rfl, rfl, rfl⟩
  · obtain ⟨status, -, h⟩ := bind_eq_ok.mp h
    cases h
    exact ⟨rfl, rfl, rfl, rfl, rfl, rfl⟩
  · cases h
    exact ⟨rfl, rfl, rfl, rfl, rfl, rfl⟩

/-- What a node of the given type may write, in the main graph or in a branch. -/
structure Writes (node : WorkflowNode) (state update : WorkflowStateV1) : Prop where
  childIdentity : update.childIdentity = none
  route : update.route = none
  verification : ∀ v, update.verification = some v →
    inBranch state = false ∧ (node.type = .verify ∨ node.type = .worker ∧ v = .empty)
  approval : ∀ v, update.approval = some v →
    inBranch state = false ∧ (node.type = .approval ∨ node.type = .worker ∧ v = .empty)

theorem Plain.writes {node : WorkflowNode} {state update : WorkflowStateV1} (h : Plain update) :
    Writes node state update := by
  refine ⟨h.childIdentity, h.route, fun v hv => ?_, fun v hv => ?_⟩
  · rw [h.verification] at hv
    cases hv
  · rw [h.approval] at hv
    cases hv

/-- A channel the handler wrote is declared for its node's type; in a branch only results are. -/
theorem handlerChecks_ok {node : WorkflowNode} {state update : WorkflowStateV1}
    (h : handlerChecks node state update = .ok ()) {c : Channel} (hc : update.has c = true) :
    c ∈ (nodeDefinitions node.type).outputs ++ [.node, .outcome] ∧ (inBranch state = true → c = .results) := by
  have hmem := WorkflowStateV1.mem_channels.mpr hc
  unfold handlerChecks at h
  split at h
  · cases h
  · rename_i hallowed
    split at h
    · cases h
    · rename_i hbranch
      simp only [Bool.and_eq_true, List.any_eq_true, decide_eq_true_eq, not_and, not_exists] at hallowed hbranch
      constructor
      · by_contra hn
        exact hallowed c hmem hn
      · intro hb
        by_contra hn
        exact hbranch hb c hmem hn

theorem declared_verification {type : WorkflowNodeType} :
    Channel.verification ∈ (nodeDefinitions type).outputs ++ [.node, .outcome] → type = .verify := by
  cases type <;> decide

theorem declared_approval {type : WorkflowNodeType} :
    Channel.approval ∈ (nodeDefinitions type).outputs ++ [.node, .outcome] → type = .approval := by
  cases type <;> decide

theorem handler_writes {node : WorkflowNode} {state update : WorkflowStateV1}
    (h : handlerChecks node state update = .ok ()) :
    Writes node state update ∧ update.cancelled = none ∧ (node.type = .worker → Plain update) := by
  have habsent : ∀ c, c ∉ (nodeDefinitions node.type).outputs ++ [.node, .outcome] → update.has c = false := by
    intro c hc
    rw [← Bool.not_eq_true]
    exact fun hp => hc (handlerChecks_ok h hp).1
  have hcancelled : update.cancelled = none := by
    have := habsent .cancelled (by cases node.type <;> decide)
    simpa [WorkflowStateV1.has] using this
  have hidentity : update.childIdentity = none := by
    have := habsent .childIdentity (by cases node.type <;> decide)
    simpa [WorkflowStateV1.has] using this
  have hroute : update.route = none := by
    have := habsent .route (by cases node.type <;> decide)
    simpa [WorkflowStateV1.has] using this
  have hmain : ∀ c, c ≠ .results → update.has c = true → inBranch state = false := by
    intro c hne hc
    rw [← Bool.not_eq_true]
    exact fun hb => hne ((handlerChecks_ok h hc).2 hb)
  refine ⟨⟨hidentity, hroute, fun v hv => ?_, fun v hv => ?_⟩, hcancelled, fun hw => ?_⟩
  · have hp : update.has .verification = true := by simp [WorkflowStateV1.has, hv]
    refine ⟨hmain _ (by decide) hp, ?_⟩
    exact .inl (declared_verification (handlerChecks_ok h hp).1)
  · have hp : update.has .approval = true := by simp [WorkflowStateV1.has, hv]
    refine ⟨hmain _ (by decide) hp, ?_⟩
    exact .inl (declared_approval (handlerChecks_ok h hp).1)
  · rw [hw] at habsent
    refine ⟨?_, ?_, ?_, hcancelled, hidentity, hroute⟩
    · simpa [WorkflowStateV1.has] using habsent .verification (by decide)
    · simpa [WorkflowStateV1.has] using habsent .review (by decide)
    · simpa [WorkflowStateV1.has] using habsent .approval (by decide)

/-- A completion keeps what was written and adds the results and the visit. -/
theorem complete_ok {spec : WorkflowSpec} {node : WorkflowNode} {state raw update : WorkflowStateV1}
    (h : complete spec node state raw = .ok update) :
    update.verification = (resets spec node state raw).verification ∧
    update.approval = (resets spec node state raw).approval ∧
    update.cancelled = (resets spec node state raw).cancelled ∧
    update.childIdentity = (resets spec node state raw).childIdentity ∧
    update.route = (resets spec node state raw).route := by
  unfold complete at h
  obtain ⟨_, -, h⟩ := bind_eq_ok.mp h
  unfold completed at h
  dsimp only at h
  split at h
  · cases h
  · cases h
    exact ⟨rfl, rfl, rfl, rfl, rfl⟩

/-- The handler returned, or the internal node did, and the factory completed the update. -/
theorem execute_finished {spec : WorkflowSpec} {node : WorkflowNode} {state update : WorkflowStateV1}
    {result : HandlerResult} (h : execute spec node state result = .finished update) :
    guard spec node state = none ∧ ∃ raw, complete spec node state raw = .ok update ∧
      ((nodeDefinitions node.type).external = true ∧ result = .returns raw ∧ handlerChecks node state raw = .ok () ∨
        (nodeDefinitions node.type).external = false ∧ internal state node = .ok raw) := by
  have hof : ∀ {x : Except Raised WorkflowStateV1}, Executed.of x = .finished update → x = .ok update := by
    intro x hx
    cases x with
    | error e => cases hx
    | ok u => cases hx; rfl
  unfold execute at h
  split at h
  · cases h
  · rename_i hg
    refine ⟨hg, ?_⟩
    split at h
    · rename_i hexternal
      cases result with
      | returns raw =>
        obtain ⟨_, hchecks, hcomplete⟩ := bind_eq_ok.mp (hof h)
        exact ⟨raw, hcomplete, .inl ⟨hexternal, rfl, hchecks⟩⟩
      | raises cls => cases h
      | breaks => cases h
      | cancels => cases h
    · rename_i hexternal
      obtain ⟨raw, hinternal, hcomplete⟩ := bind_eq_ok.mp (hof h)
      exact ⟨raw, hcomplete, .inr ⟨by simpa using hexternal, hinternal⟩⟩

theorem finished_writes {spec : WorkflowSpec} {node : WorkflowNode} {state update : WorkflowStateV1}
    {result : HandlerResult} (h : execute spec node state result = .finished update) :
    Writes node state update ∧ update.cancelled = none ∧
    (node.type = .worker → inBranch state = false →
      update.verification = some .empty ∧ update.approval = some .empty) := by
  obtain ⟨-, raw, hcomplete, hraw⟩ := execute_finished h
  obtain ⟨hver, happ, hcan, hident, hroute⟩ := complete_ok hcomplete
  have hwrites : Writes node state raw ∧ raw.cancelled = none ∧ (node.type = .worker → Plain raw) := by
    rcases hraw with ⟨-, -, hchecks⟩ | ⟨-, hinternal⟩
    · exact handler_writes hchecks
    · have hplain := internal_plain hinternal
      exact ⟨hplain.writes, hplain.cancelled, fun _ => hplain⟩
  obtain ⟨hw, hc, hplain⟩ := hwrites
  unfold resets at hver happ hcan hident hroute
  cases ht : node.type with
  | worker =>
    have hp := hplain ht
    rw [ht] at hver happ hcan hident hroute
    cases hb : inBranch state with
    | true =>
      simp only [hb, if_true] at hver happ hcan hident hroute
      refine ⟨⟨hident.trans hp.childIdentity, hroute.trans hp.route, fun v hv => ?_, fun v hv => ?_⟩, hcan.trans hc,
        fun _ hf => nomatch hf⟩
      · rw [hver, hp.verification] at hv
        cases hv
      · rw [happ, hp.approval] at hv
        cases hv
    | false =>
      simp only [hb, Bool.false_eq_true, if_false] at hver happ hcan hident hroute
      refine ⟨⟨hident.trans hp.childIdentity, hroute.trans hp.route, fun v hv => ?_, fun v hv => ?_⟩, hcan.trans hc,
        fun _ _ => ⟨hver, happ⟩⟩
      · rw [hver] at hv
        cases hv
        exact ⟨hb, .inr ⟨ht, rfl⟩⟩
      · rw [happ] at hv
        cases hv
        exact ⟨hb, .inr ⟨ht, rfl⟩⟩
  | _ =>
    rw [ht] at hver happ hcan hident hroute
    refine ⟨⟨hident.trans hw.childIdentity, hroute.trans hw.route, fun v hv => ?_, fun v hv => ?_⟩, hcan.trans hc,
      fun hf => nomatch hf⟩
    · exact ht ▸ hw.verification v (hver ▸ hv)
    · exact ht ▸ hw.approval v (happ ▸ hv)

/-- A wrapped node was cancelled, failed with a class, or finished. -/
theorem wrap_ok {spec : WorkflowSpec} {node : WorkflowNode} {state update : WorkflowStateV1} {attempt : Attempt}
    (h : wrap spec node state attempt = .ok update) :
    update = cancelUpdate ∨
    (∃ result cls, attempt = .handled result false ∧ execute spec node state result = .failed cls ∧
      update = failureUpdate node state cls) ∨
    ∃ result, attempt = .handled result false ∧ execute spec node state result = .finished update := by
  cases attempt with
  | cancelledBefore =>
    cases h
    exact .inl rfl
  | handled result cancelled =>
    obtain ⟨u, hu, h⟩ := bind_eq_ok.mp h
    obtain ⟨_, -, h⟩ := bind_eq_ok.mp h
    cases h
    cases cancelled with
    | true => exact .inl rfl
    | false =>
      simp only [Bool.false_eq_true, if_false]
      cases he : execute spec node state result with
      | finished update =>
        rw [he] at hu
        cases hu
        exact .inr (.inr ⟨result, rfl, he⟩)
      | failed cls =>
        rw [he] at hu
        simp only [classify] at hu
        split at hu
        · cases hu
        · cases hu
          exact .inr (.inl ⟨result, cls, rfl, he, rfl⟩)
      | cancelled =>
        rw [he] at hu
        cases hu
        exact .inl rfl
      | refused message => rw [he] at hu; cases hu
      | broken error => rw [he] at hu; cases hu

theorem failureUpdate_plain (node : WorkflowNode) (state : WorkflowStateV1) (cls : FailureClass) :
    Plain (failureUpdate node state cls) := ⟨rfl, rfl, rfl, rfl, rfl, rfl⟩

theorem wrap_writes {spec : WorkflowSpec} {node : WorkflowNode} {state update : WorkflowStateV1} {attempt : Attempt}
    (h : wrap spec node state attempt = .ok update) : Writes node state update := by
  rcases wrap_ok h with rfl | ⟨_, cls, -, -, rfl⟩ | ⟨_, -, hf⟩
  · exact ⟨rfl, rfl, by simp [cancelUpdate], by simp [cancelUpdate]⟩
  · exact (failureUpdate_plain node state cls).writes
  · exact (finished_writes hf).1

/-- Only a cancellation writes `cancelled`. -/
theorem wrap_cancelled {spec : WorkflowSpec} {node : WorkflowNode} {state update : WorkflowStateV1} {attempt : Attempt}
    (h : wrap spec node state attempt = .ok update) : update = cancelUpdate ∨ update.cancelled = none := by
  rcases wrap_ok h with rfl | ⟨_, cls, -, -, rfl⟩ | ⟨_, -, hf⟩
  · exact .inl rfl
  · exact .inr rfl
  · exact .inr (finished_writes hf).2.1

/-- The observer changes nothing but the outcome. -/
theorem observeRoute_eq (spec : WorkflowSpec) (snapshot : WorkflowResolvedSnapshot) (node : WorkflowNode)
    (state update : WorkflowStateV1) :
    ∃ outcome, observeRoute spec snapshot node state update = { update with outcome := outcome } := by
  unfold observeRoute
  split
  · split
    · split
      · exact ⟨_, rfl⟩
      · exact ⟨update.outcome, rfl⟩
    · exact ⟨update.outcome, rfl⟩
  · exact ⟨update.outcome, rfl⟩

/-- A compiled node leaves the wrapped node's update, with a route and its counters where it has
    edges to route along. -/
theorem invokeNode_ok {spec : WorkflowSpec} {snapshot : WorkflowResolvedSnapshot} {node : WorkflowNode}
    {state final : WorkflowStateV1} {attempt : Attempt} (h : invokeNode spec snapshot node state attempt = .ok final) :
    ∃ update, wrap spec node state attempt = .ok update ∧
      (final = update ∧ update.cancelled = some true ∨
        ∃ outcome, update.cancelled ≠ some true ∧
          (final = { update with outcome := outcome } ∧ (routeEdges spec node.id = [] ∨ node.type = .fanout) ∨
            ∃ merged route, mergedState state update = .ok merged ∧
              chooseRoute spec snapshot node (routeEdges spec node.id) merged = .ok route ∧
              routeEdges spec node.id ≠ [] ∧ node.type ≠ .fanout ∧
              final = { update with
                outcome := outcome
                route := some route.1
                counters := some ((update.counters.getD .empty).update route.2) })) := by
  unfold invokeNode at h
  obtain ⟨update, hw, h⟩ := bind_eq_ok.mp h
  refine ⟨update, hw, ?_⟩
  split at h
  · rename_i hc
    cases h
    exact .inl ⟨rfl, hc⟩
  · rename_i hc
    right
    dsimp only at h
    split at h
    · rename_i hedges
      obtain ⟨outcome, ho⟩ := observeRoute_eq spec snapshot node state update
      cases h
      exact ⟨outcome, hc, .inl ⟨ho, by simpa using hedges⟩⟩
    · rename_i hedges
      simp only [Bool.or_eq_true, List.isEmpty_iff, beq_iff_eq, not_or] at hedges
      obtain ⟨merged, hm, h⟩ := bind_eq_ok.mp h
      obtain ⟨route, hr, h⟩ := bind_eq_ok.mp h
      obtain ⟨outcome, ho⟩ := observeRoute_eq spec snapshot node state
        { update with route := some route.1, counters := some ((update.counters.getD .empty).update route.2) }
      cases h
      exact ⟨outcome, hc, .inr ⟨merged, route, hm, hr, hedges.1, hedges.2, ho⟩⟩

end Jarvis.Workflows
