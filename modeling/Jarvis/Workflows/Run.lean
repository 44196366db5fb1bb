/-
  Jarvis.Workflows.Run — runs of a compiled workflow under `NodeRuntime` (the graph
  `compile_workflow` builds).

  The main graph executes the routed node once per superstep. A fan-out sends a copy of the
  state to each child; the children run as graphs of their own, in any interleaving, all in
  one superstep of the main graph, and when every one has ended their reduced channels are
  merged and the join executes. An action carries what the environment decides: which
  branch moves and what the node's handler does. A run starts from the empty state and is
  not interrupted: a resumed run re-executes the interrupted step. `log` is the history of
  the executions: the nodes whose guards passed, with the update each left.
-/
import Jarvis.Lib.Steps
import Jarvis.Workflows.Factories

namespace Jarvis.Workflows

/-- Where a child graph is. -/
inductive BranchPlace where
  | node (id : String)
  /-- Before its `__complete__` node. -/
  | complete
  | ended
  deriving DecidableEq

structure Branch where
  child : String
  state : WorkflowStateV1
  place : BranchPlace
  supersteps : Nat

/-- Where the main graph is. -/
inductive Place where
  | start
  | node (id : String)
  | parallel (fanoutId joinId : String) (branches : List Branch)
  | ended
  | raised (error : Raised)

/-- One execution of a node: `update` is what it left, if it left anything. -/
structure Execution where
  node : String
  branch : Option String
  update : Option WorkflowStateV1

structure Run where
  state : WorkflowStateV1
  place : Place
  supersteps : Nat
  log : List Execution

/-- The child graphs that are running. -/
def Run.branches (r : Run) : List Branch :=
  match r.place with
  | .parallel _ _ branches => branches
  | _ => []

/-- The node that executes next. -/
def Run.node? (r : Run) : Option String :=
  match r.place with
  | .node id => some id
  | _ => none

theorem Run.node?_eq_some {r : Run} {id : String} : r.node? = some id ↔ r.place = .node id := by
  unfold Run.node?
  split <;> simp_all

def Run.ended (r : Run) : Bool :=
  match r.place with
  | .ended => true
  | _ => false

theorem Run.ended_iff {r : Run} : r.ended = true ↔ r.place = .ended := by
  unfold Run.ended
  split <;> simp_all

def Run.init : Run := ⟨{}, .start, 0, []⟩

inductive Action where
  | start
  | exec (attempt : Attempt)
  | child (child : String) (attempt : Attempt)
  | complete (child : String)
  | join

variable (spec : WorkflowSpec) (snapshot : WorkflowResolvedSnapshot)

/-- The node's update, applied to the state it ran in. -/
def nodeResult (node : WorkflowNode) (state : WorkflowStateV1) (attempt : Attempt) : Except Raised WorkflowStateV1 :=
  match invokeNode spec snapshot node state attempt with
  | .error e => .error e
  | .ok update => mergedState state update

/-- What an attempt adds to the history: nothing where it did not pass the guards. -/
def executions (node : WorkflowNode) (state : WorkflowStateV1) (branch : Option String) : Attempt → List Execution
  | .cancelledBefore => []
  | .handled result cancelled =>
    if (guard spec node state).isSome then []
    else [⟨node.id, branch, (wrap spec node state (.handled result cancelled)).toOption⟩]

/-- The branch a fan-out sends to one child. -/
def sendTo (state : WorkflowStateV1) (fanoutId child : String) : Branch where
  child := child
  state := { state with childIdentity := some (childId fanoutId (state.counter (invocationKey state fanoutId)) child) }
  place := .node child
  supersteps := 1

/-- Where the main graph goes after a node. -/
def advance (node : WorkflowNode) (state : WorkflowStateV1) : Place :=
  if state.cancelled = some true then .ended
  else
    match node.config with
    | .fanout children joinId maxFanout =>
      if children.isEmpty || decide (maxFanout < children.length) then
        .raised (.invariant "Fanout exceeded its snapshotted child bound")
      else .parallel node.id joinId (children.map (sendTo state node.id))
    | _ => if (routeEdges spec node.id).isEmpty then .ended else .node (state.route.getD "")

/-- A node of the main graph. Reaching the end is a step of its own. -/
def execMain (r : Run) (node : WorkflowNode) (attempt : Attempt) : Run :=
  let log := r.log ++ executions spec node r.state none attempt
  match nodeResult spec snapshot node r.state attempt with
  | .error e => ⟨r.state, .raised e, r.supersteps + 1, log⟩
  | .ok state =>
    match advance spec node state with
    | .ended => ⟨state, .ended, r.supersteps + 2, log⟩
    | place => ⟨state, place, r.supersteps + 1, log⟩

/-- Where a child graph goes after a node: its join is the end of the branch. -/
def advanceBranch (joinId : String) (node : WorkflowNode) (state : WorkflowStateV1) : BranchPlace :=
  if state.cancelled = some true ∨ (routeEdges spec node.id).isEmpty then .ended
  else if state.route = some joinId then .complete
  else .node (state.route.getD "")

/-- A node of a child graph. -/
def execBranch (joinId : String) (b : Branch) (node : WorkflowNode) (attempt : Attempt) : Except Raised Branch :=
  match nodeResult spec snapshot node b.state attempt with
  | .error e => .error e
  | .ok state =>
    match advanceBranch spec joinId node state with
    | .ended => .ok ⟨b.child, state, .ended, b.supersteps + 2⟩
    | place => .ok ⟨b.child, state, place, b.supersteps + 1⟩

/-- The update of a branch's `__complete__` node: the results of its own executions. -/
def completeUpdate (state : WorkflowStateV1) : WorkflowStateV1 :=
  let identity := state.childIdentity.getD ""
  let values := (state.results.getD .empty).entries.filter fun entry => (identity ++ ":").isPrefixOf entry.1
  { childResults := some (Dict.ofList [(identity, .obj values)]), completedChildren := some [identity] }

def completeBranch (b : Branch) : Except Raised Branch :=
  match mergedState b.state (completeUpdate b.state) with
  | .error e => .error e
  | .ok state => .ok ⟨b.child, state, .ended, b.supersteps + 2⟩

/-- `BranchOutput`: what a child graph hands to the main graph. -/
def branchOutput (state : WorkflowStateV1) : WorkflowStateV1 where
  results := state.results
  childResults := state.childResults
  expectedChildren := state.expectedChildren
  completedChildren := state.completedChildren
  counters := state.counters

/-- The outputs of the branches, merged into the main state. -/
def mergeBranches : WorkflowStateV1 → List Branch → Except Raised WorkflowStateV1
  | state, [] => .ok state
  | state, b :: branches =>
    match mergedState state (branchOutput b.state) with
    | .error e => .error e
    | .ok state => mergeBranches state branches

def replaceBranch (branches : List Branch) (b : Branch) : List Branch :=
  branches.map fun other => if other.child = b.child then b else other

/-- The run after a branch moved, or after it raised. -/
def moveBranch (r : Run) (fanoutId joinId : String) (branches : List Branch) (log : List Execution) :
    Except Raised Branch → Run
  | .error e => ⟨r.state, .raised e, r.supersteps + 1, log⟩
  | .ok b => ⟨r.state, .parallel fanoutId joinId (replaceBranch branches b), r.supersteps, log⟩

def step (r : Run) : Action → Option Run
  | .start =>
    match r.place with
    | .start => some ⟨r.state, .node spec.entrypoint, r.supersteps + 1, r.log⟩
    | _ => none
  | .exec attempt =>
    match r.place with
    | .node id => (spec.node? id).map fun node => execMain spec snapshot r node attempt
    | _ => none
  | .child child attempt =>
    match r.place with
    | .parallel fanoutId joinId branches =>
      match branches.find? fun b => b.child = child with
      | some b =>
        match b.place with
        | .node id =>
          (spec.node? id).map fun node =>
            moveBranch r fanoutId joinId branches (r.log ++ executions spec node b.state (some child) attempt)
              (execBranch spec snapshot joinId b node attempt)
        | _ => none
      | none => none
    | _ => none
  | .complete child =>
    match r.place with
    | .parallel fanoutId joinId branches =>
      match branches.find? fun b => b.child = child with
      | some b =>
        if b.place = .complete then some (moveBranch r fanoutId joinId branches r.log (completeBranch b)) else none
      | none => none
    | _ => none
  | .join =>
    match r.place with
    | .parallel _ joinId branches =>
      if branches.all fun b => b.place = .ended then
        match mergeBranches r.state branches with
        | .error e => some ⟨r.state, .raised e, r.supersteps + 1, r.log⟩
        | .ok state => some ⟨state, .node joinId, r.supersteps + 1, r.log⟩
      else none
    | _ => none

/-- The node an action calls and the state it is called in, unless a cancellation is seen first. -/
def called (r : Run) : Action → Option (WorkflowNode × WorkflowStateV1)
  | .exec (.handled _ _) =>
    match r.place with
    | .node id => (spec.node? id).map fun node => (node, r.state)
    | _ => none
  | .child child (.handled _ _) =>
    match r.place with
    | .parallel _ _ branches =>
      match branches.find? fun b => b.child = child with
      | some b =>
        match b.place with
        | .node id => (spec.node? id).map fun node => (node, b.state)
        | _ => none
      | none => none
    | _ => none
  | _ => none

/-! ## What a step can do -/

/-- The keys of the counters a route sets. -/
def routeKey (key : String) : Prop := (∃ id cls, key = retryKey id cls) ∨ ∃ k, key = iterateKey k ∨ key = progressKey k

/-- The channels with a reducer after a node: its update's merged in, with the counters of a route. -/
structure Reduced (state update next : WorkflowStateV1) : Prop where
  expected : next.expectedChildren = some (setUnion (state.expectedChildren.getD []) (update.expectedChildren.getD []))
  completed : next.completedChildren =
    some (setUnion (state.completedChildren.getD []) (update.completedChildren.getD []))
  childResults : ∃ m, next.childResults = some m ∧
    mergeById (state.childResults.getD .empty) (update.childResults.getD .empty) = .ok m
  counters : ∃ counters m, next.counters = some m ∧ (∀ entry ∈ counters, routeKey entry.1) ∧
    maxMap (state.counters.getD .empty) ((update.counters.getD .empty).update counters) = .ok m

/-- The state a node leaves: its update over the state before, and a route along its edges. -/
structure Left (node : WorkflowNode) (state : WorkflowStateV1) (attempt : Attempt) (update next : WorkflowStateV1) :
    Prop where
  wrapped : wrap spec node state attempt = .ok update
  verification : next.verification = update.verification.or state.verification
  approval : next.approval = update.approval.or state.approval
  cancelled : next.cancelled = update.cancelled.or state.cancelled
  childIdentity : next.childIdentity = state.childIdentity
  counters : ∀ key, state.counter key ≤ next.counter key
  reduced : Reduced state update next
  routed : next.cancelled = some true ∨ routeEdges spec node.id = [] ∨ node.type = .fanout ∨
    ∃ merged route, mergedState state update = .ok merged ∧
      chooseRoute spec snapshot node (routeEdges spec node.id) merged = .ok route ∧ next.route = some route.1 ∧
      ∀ key value, ((update.counters.getD .empty).update route.2).get? key = some value → value ≤ next.counter key

variable {spec snapshot}

/-- A node is called in the main graph or in a child graph. -/
theorem called_cases {r : Run} {action : Action} {node : WorkflowNode} {state : WorkflowStateV1}
    (h : called spec r action = some (node, state)) :
    (∃ id, r.place = .node id ∧ spec.node? id = some node ∧ state = r.state) ∨
    ∃ fanoutId joinId branches b id, r.place = .parallel fanoutId joinId branches ∧ b ∈ branches ∧ b.place = .node id ∧
      spec.node? id = some node ∧ state = b.state := by
  unfold called at h
  split at h
  · split at h
    · rename_i id hplace
      obtain ⟨_, hnode, he⟩ := Option.map_eq_some_iff.mp h
      cases he
      exact .inl ⟨id, hplace, hnode, rfl⟩
    · cases h
  · split at h
    · rename_i fanoutId joinId branches hplace
      split at h
      · rename_i b hfind
        split at h
        · rename_i id hbplace
          obtain ⟨_, hnode, he⟩ := Option.map_eq_some_iff.mp h
          cases he
          exact .inr ⟨fanoutId, joinId, branches, b, id, hplace, List.mem_of_find?_eq_some hfind, hbplace, hnode, rfl⟩
        · cases h
      · cases h
    · cases h
  · cases h

theorem chooseFrom_keys {node : WorkflowNode} {fallback : Option WorkflowEdge} {state : WorkflowStateV1} {route : Route} :
    ∀ {edges : List WorkflowEdge}, chooseFrom spec snapshot node fallback state edges = .ok route →
      ∀ entry ∈ route.2, routeKey entry.1 := by
  intro edges
  induction edges with
  | nil =>
    intro h
    unfold chooseFrom at h
    split at h <;> cases h
    simp
  | cons edge edges ih =>
    intro h
    unfold chooseFrom at h
    split at h
    · exact ih h
    · split at h
      · rename_i cls hk hc
        unfold retryRoute at h
        split at h
        · cases h
        · split at h
          · split at h
            · cases h
            · dsimp only at h
              split at h
              · split at h <;> cases h
                simp
              · cases h
                simpa using .inl ⟨node.id, cls, rfl⟩
          · cases h
      · unfold iterateRoute at h
        dsimp only at h
        split at h
        · split at h
          · cases h
          · split at h
            · split at h
              · cases h
              · cases h
                intro entry he
                rcases List.mem_cons.mp he with rfl | he
                · exact .inr ⟨_, .inl rfl⟩
                · rw [List.mem_singleton.mp he]
                  exact .inr ⟨_, .inr rfl⟩
            · cases h
        · cases h
      · cases h
        simp

/-- A merged state's reduced channels, for an update that keeps another's. -/
theorem reduced_of_merged {state update final next : WorkflowStateV1} (counters : List (String × Int)) (h : mergedState state final = .ok next)
    (hexpected : final.expectedChildren = update.expectedChildren)
    (hcompleted : final.completedChildren = update.completedChildren)
    (hresults : final.childResults = update.childResults)
    (hcounters : final.counters.getD .empty = (update.counters.getD .empty).update counters)
    (hkeys : ∀ entry ∈ counters, routeKey entry.1) : Reduced state update next := by
  unfold mergedState at h
  obtain ⟨results, -, h⟩ := bind_eq_ok.mp h
  obtain ⟨childResults, hc, h⟩ := bind_eq_ok.mp h
  obtain ⟨merged, hk, h⟩ := bind_eq_ok.mp h
  cases h
  rw [hresults] at hc
  rw [hcounters] at hk
  exact ⟨by simp only [hexpected], by simp only [hcompleted], ⟨_, rfl, hc⟩, counters, _, rfl, hkeys, hk⟩

theorem nodeResult_ok {node : WorkflowNode} {state next : WorkflowStateV1} {attempt : Attempt}
    (h : nodeResult spec snapshot node state attempt = .ok next) :
    ∃ update, Left spec snapshot node state attempt update next := by
  unfold nodeResult at h
  split at h
  · cases h
  · rename_i final hi
    obtain ⟨update, hw, hfinal⟩ := invokeNode_ok hi
    have hwrites := wrap_writes hw
    obtain ⟨-, hver, -, happ, hcan, hident, hroute⟩ := mergedState_ok h
    -- routing and observing leave these channels of the update as they are
    have hsame : final.verification = update.verification ∧ final.approval = update.approval ∧
        final.cancelled = update.cancelled ∧ final.childIdentity = update.childIdentity := by
      rcases hfinal with ⟨rfl, -⟩ | ⟨_, -, ⟨rfl, -⟩ | ⟨_, _, -, -, -, -, rfl⟩⟩
      all_goals exact ⟨rfl, rfl, rfl, rfl⟩
    obtain ⟨sver, sapp, scan, sident⟩ := hsame
    rw [sver] at hver
    rw [sapp] at happ
    rw [scan] at hcan
    rw [sident, hwrites.childIdentity] at hident
    have hreduced : Reduced state update next := by
      rcases hfinal with ⟨rfl, -⟩ | ⟨_, -, ⟨rfl, -⟩ | ⟨_, route, -, hr, -, -, rfl⟩⟩
      · exact reduced_of_merged [] h rfl rfl rfl rfl (by simp)
      · exact reduced_of_merged [] h rfl rfl rfl rfl (by simp)
      · exact reduced_of_merged route.2 h rfl rfl rfl rfl (chooseFrom_keys hr)
    refine ⟨update, hw, hver, happ, hcan, hident, counter_le_mergedState h, hreduced, ?_⟩
    rcases hfinal with ⟨-, hc⟩ | ⟨_, -, ⟨-, hnone | hfanout⟩ | ⟨merged, route, hm, hr, -, -, rfl⟩⟩
    · left
      rw [hcan, hc]
      rfl
    · exact .inr (.inl hnone)
    · exact .inr (.inr (.inl hfanout))
    · exact .inr (.inr (.inr ⟨merged, route, hm, hr, hroute, fun key value hv => update_counter_le_mergedState h hv⟩))

variable (spec snapshot)

/-- One move of a child graph that raises nothing. -/
inductive BranchMove (joinId : String) (b : Branch) : Action → List Execution → Branch → Prop
  | finish {id : String} {node : WorkflowNode} {attempt : Attempt} {update next : WorkflowStateV1}
      (hplace : b.place = .node id) (hnode : spec.node? id = some node)
      (left : Left spec snapshot node b.state attempt update next)
      (hend : next.cancelled = some true ∨ routeEdges spec node.id = []) :
      BranchMove joinId b (.child b.child attempt) (executions spec node b.state (some b.child) attempt)
        ⟨b.child, next, .ended, b.supersteps + 2⟩
  | route {id : String} {node : WorkflowNode} {attempt : Attempt} {update next merged : WorkflowStateV1} {route : Route}
      (hplace : b.place = .node id) (hnode : spec.node? id = some node)
      (left : Left spec snapshot node b.state attempt update next) (hc : next.cancelled ≠ some true)
      (hroute : chooseRoute spec snapshot node (routeEdges spec node.id) merged = .ok route) :
      BranchMove joinId b (.child b.child attempt) (executions spec node b.state (some b.child) attempt)
        ⟨b.child, next, if route.1 = joinId then .complete else .node route.1, b.supersteps + 1⟩
  /-- A fan-out inside a branch, which no validated workflow has. -/
  | nested {id : String} {node : WorkflowNode} {action : Action} {log : List Execution} {b' : Branch}
      (hplace : b.place = .node id) (hnode : spec.node? id = some node) (hf : node.type = .fanout) :
      BranchMove joinId b action log b'
  | complete {next : WorkflowStateV1} (hplace : b.place = .complete)
      (hmerged : mergedState b.state (completeUpdate b.state) = .ok next) :
      BranchMove joinId b (.complete b.child) [] ⟨b.child, next, .ended, b.supersteps + 2⟩

/-- One move of a run: every step is one of these. -/
inductive Move (r : Run) : Action → Run → Prop
  | start (hplace : r.place = .start) : Move r .start ⟨r.state, .node spec.entrypoint, r.supersteps + 1, r.log⟩
  | finish {id : String} {node : WorkflowNode} {attempt : Attempt} {update next : WorkflowStateV1}
      (hplace : r.place = .node id) (hnode : spec.node? id = some node)
      (left : Left spec snapshot node r.state attempt update next)
      (hend : next.cancelled = some true ∨ routeEdges spec node.id = []) :
      Move r (.exec attempt) ⟨next, .ended, r.supersteps + 2, r.log ++ executions spec node r.state none attempt⟩
  | route {id : String} {node : WorkflowNode} {attempt : Attempt} {update next merged : WorkflowStateV1} {route : Route}
      (hplace : r.place = .node id) (hnode : spec.node? id = some node) (hf : node.type ≠ .fanout)
      (left : Left spec snapshot node r.state attempt update next) (hc : next.cancelled ≠ some true)
      (hmerged : mergedState r.state update = .ok merged)
      (hroute : chooseRoute spec snapshot node (routeEdges spec node.id) merged = .ok route)
      (hcounters : ∀ key value, ((update.counters.getD .empty).update route.2).get? key = some value →
        value ≤ next.counter key) :
      Move r (.exec attempt)
        ⟨next, .node route.1, r.supersteps + 1, r.log ++ executions spec node r.state none attempt⟩
  | fanout {id : String} {node : WorkflowNode} {attempt : Attempt} {update next : WorkflowStateV1}
      {children : List String} {joinId : String} {maxFanout : Nat}
      (hplace : r.place = .node id) (hnode : spec.node? id = some node)
      (hconfig : node.config = .fanout children joinId maxFanout)
      (left : Left spec snapshot node r.state attempt update next) (hc : next.cancelled ≠ some true) :
      Move r (.exec attempt) ⟨next, .parallel node.id joinId (children.map (sendTo next node.id)), r.supersteps + 1,
        r.log ++ executions spec node r.state none attempt⟩
  | branch {action : Action} {fanoutId joinId : String} {branches : List Branch} {b b' : Branch} {log : List Execution}
      (hplace : r.place = .parallel fanoutId joinId branches) (hb : b ∈ branches)
      (hmove : BranchMove spec snapshot joinId b action log b') :
      Move r action ⟨r.state, .parallel fanoutId joinId (replaceBranch branches b'), r.supersteps, r.log ++ log⟩
  | join {fanoutId joinId : String} {branches : List Branch} {next : WorkflowStateV1}
      (hplace : r.place = .parallel fanoutId joinId branches) (hended : ∀ b ∈ branches, b.place = .ended)
      (hmerged : mergeBranches r.state branches = .ok next) :
      Move r .join ⟨next, .node joinId, r.supersteps + 1, r.log⟩
  | raise {action : Action} {state : WorkflowStateV1} {error : Raised} {log : List Execution}
      (hplace : (∃ id node, r.place = .node id ∧ spec.node? id = some node ∧
          (state = r.state ∨ ∃ attempt update, Left spec snapshot node r.state attempt update state)) ∨
        (∃ fanoutId joinId branches, r.place = .parallel fanoutId joinId branches) ∧ state = r.state) :
      Move r action ⟨state, .raised error, r.supersteps + 1, log⟩

variable {spec snapshot}

theorem execMain_move {r : Run} {id : String} {node : WorkflowNode} (attempt : Attempt) (hplace : r.place = .node id)
    (hnode : spec.node? id = some node) : Move spec snapshot r (.exec attempt) (execMain spec snapshot r node attempt) := by
  unfold execMain
  dsimp only
  split
  · exact .raise (.inl ⟨id, node, hplace, hnode, .inl rfl⟩)
  · rename_i next hn
    obtain ⟨update, left⟩ := nodeResult_ok hn
    by_cases hc : next.cancelled = some true
    · have ha : advance spec node next = .ended := by simp [advance, hc]
      rw [ha]
      exact .finish hplace hnode left (.inl hc)
    · cases hconfig : node.config with
      | fanout children joinId maxFanout =>
        cases hbound : children.isEmpty || decide (maxFanout < children.length) with
        | true =>
          have ha : advance spec node next = .raised (.invariant "Fanout exceeded its snapshotted child bound") := by
            simp only [advance, hc, if_false, hconfig, hbound, if_true]
          rw [ha]
          exact .raise (.inl ⟨id, node, hplace, hnode, .inr ⟨attempt, update, left⟩⟩)
        | false =>
          have ha : advance spec node next = .parallel node.id joinId (children.map (sendTo next node.id)) := by
            simp only [advance, hc, if_false, hconfig, hbound, Bool.false_eq_true]
          rw [ha]
          exact .fanout hplace hnode hconfig left hc
      | _ =>
        have hf : node.type ≠ .fanout := by simp [WorkflowNode.type, hconfig]
        by_cases he : routeEdges spec node.id = []
        · have ha : advance spec node next = .ended := by simp [advance, hc, hconfig, he]
          rw [ha]
          exact .finish hplace hnode left (.inr he)
        · obtain hc' | he' | hf' | ⟨merged, route, hm, hr, hnext, hcounters⟩ := left.routed
          · exact absurd hc' hc
          · exact absurd he' he
          · exact absurd hf' hf
          · have ha : advance spec node next = .node route.1 := by
              simp [advance, hc, hconfig, he, hnext]
            rw [ha]
            exact .route hplace hnode hf left hc hm hr hcounters

theorem execBranch_move (joinId : String) {id : String} {b : Branch} {node : WorkflowNode} (attempt : Attempt)
    (hplace : b.place = .node id) (hnode : spec.node? id = some node) :
    (∃ e, execBranch spec snapshot joinId b node attempt = .error e) ∨
    ∃ b', execBranch spec snapshot joinId b node attempt = .ok b' ∧
      BranchMove spec snapshot joinId b (.child b.child attempt) (executions spec node b.state (some b.child) attempt)
        b' := by
  unfold execBranch
  split
  · exact .inl ⟨_, rfl⟩
  · rename_i next hn
    right
    obtain ⟨update, left⟩ := nodeResult_ok hn
    by_cases hend : next.cancelled = some true ∨ routeEdges spec node.id = []
    · have ha : advanceBranch spec joinId node next = .ended := by
        unfold advanceBranch
        rw [if_pos (by simpa using hend)]
      rw [ha]
      exact ⟨_, rfl, .finish hplace hnode left hend⟩
    · have hnend : ¬ (next.cancelled = some true ∨ (routeEdges spec node.id).isEmpty = true) := by simpa using hend
      rw [not_or] at hend
      obtain hc' | he' | hf | ⟨merged, route, hm, hr, hnext, -⟩ := left.routed
      · exact absurd hc' hend.1
      · exact absurd he' hend.2
      · split
        all_goals exact ⟨_, rfl, .nested hplace hnode hf⟩
      · have ha : advanceBranch spec joinId node next = if route.1 = joinId then .complete else .node route.1 := by
          unfold advanceBranch
          rw [if_neg hnend, hnext]
          simp
        refine ⟨⟨b.child, next, if route.1 = joinId then .complete else .node route.1, b.supersteps + 1⟩, ?_,
          .route hplace hnode left hend.1 hr⟩
        rw [ha]
        by_cases hj : route.1 = joinId <;> simp [hj]

theorem execBranch_error {joinId : String} {b : Branch} {node : WorkflowNode} {attempt : Attempt} {e : Raised}
    (h : execBranch spec snapshot joinId b node attempt = .error e) :
    nodeResult spec snapshot node b.state attempt = .error e := by
  unfold execBranch at h
  split at h
  · rename_i e' he
    cases h
    exact he
  · split at h <;> cases h

/-- Every step of a run is a move. -/
theorem step_move {r r' : Run} {action : Action} (h : step spec snapshot r action = some r') :
    Move spec snapshot r action r' := by
  cases action with
  | start =>
    unfold step at h
    dsimp only at h
    split at h
    · rename_i hplace
      cases h
      exact .start hplace
    · cases h
  | exec attempt =>
    unfold step at h
    dsimp only at h
    split at h
    · rename_i id hplace
      obtain ⟨node, hnode, rfl⟩ := Option.map_eq_some_iff.mp h
      exact execMain_move attempt hplace hnode
    · cases h
  | child child attempt =>
    unfold step at h
    dsimp only at h
    split at h
    · rename_i fanoutId joinId branches hplace
      split at h
      · rename_i b hfind
        have hb := List.mem_of_find?_eq_some hfind
        have hchild : b.child = child := by simpa using List.find?_some hfind
        subst hchild
        split at h
        · rename_i id hbplace
          obtain ⟨node, hnode, rfl⟩ := Option.map_eq_some_iff.mp h
          obtain ⟨e, he⟩ | ⟨b', he, hmove⟩ := execBranch_move joinId attempt hbplace hnode
          · rw [he]
            exact .raise (.inr ⟨⟨fanoutId, joinId, branches, hplace⟩, rfl⟩)
          · rw [he]
            exact .branch hplace hb hmove
        · cases h
      · cases h
    · cases h
  | complete child =>
    unfold step at h
    dsimp only at h
    split at h
    · rename_i fanoutId joinId branches hplace
      split at h
      · rename_i b hfind
        have hb := List.mem_of_find?_eq_some hfind
        have hchild : b.child = child := by simpa using List.find?_some hfind
        subst hchild
        split at h
        · rename_i hbplace
          cases h
          unfold completeBranch
          cases hm : mergedState b.state (completeUpdate b.state) with
          | error e => exact .raise (.inr ⟨⟨fanoutId, joinId, branches, hplace⟩, rfl⟩)
          | ok next =>
            have hmove : Move spec snapshot r (.complete b.child) _ := .branch hplace hb (.complete hbplace hm)
            simpa [moveBranch] using hmove
        · cases h
      · cases h
    · cases h
  | join =>
    unfold step at h
    dsimp only at h
    split at h
    · rename_i fanoutId joinId branches hplace
      split at h
      · rename_i hended
        simp only [List.all_eq_true, decide_eq_true_eq] at hended
        split at h
        · cases h
          exact .raise (.inr ⟨⟨fanoutId, joinId, branches, hplace⟩, rfl⟩)
        · rename_i next hm
          cases h
          exact .join hplace hended hm
      · cases h
    · cases h

end Jarvis.Workflows
