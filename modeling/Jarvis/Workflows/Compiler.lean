/-
  Jarvis.Workflows.Compiler — routing and the step budget of a compiled workflow
  (`_choose_route`, `_branch_regions` and `_superstep_limit` of `workflows/compiler.py`).
-/
import Mathlib.Algebra.GroupWithZero.Nat
import Jarvis.Workflows.Validation

namespace Jarvis.Workflows

/-- `_failure_class`. -/
def failureClass (state : WorkflowStateV1) : Json :=
  ((member state.outcome "failure_class").or (member state.node "failure_class")).getD .null

/-- `failure_class == cls.value`. -/
def isFailure (failure : Json) (cls : FailureClass) : Bool :=
  match failure with
  | .scalar (.str value) => value == cls.value
  | _ => false

def retryKey (id : String) (cls : FailureClass) : String := "retry:" ++ id ++ ":" ++ cls.value

def iterateKey (key : String) : String := "iterate:" ++ key

def progressKey (key : String) : String := iterateKey key ++ ":progress"

/-- `outgoing[node.id]` of the compiler: the edges of a node by `(priority, id)`. -/
def routeEdges (spec : WorkflowSpec) (id : String) : List WorkflowEdge :=
  (spec.outgoing id).insertionSort fun a b =>
    if a.priority ≠ b.priority then decide (a.priority < b.priority) else stringLe a.id b.id

/-- A route: the target and the counters it sets. -/
abbrev Route := String × List (String × Int)

/-- The RETRY branch, for an edge whose class is the failure's. -/
def retryRoute (spec : WorkflowSpec) (snapshot : WorkflowResolvedSnapshot) (node : WorkflowNode)
    (fallback : Option WorkflowEdge) (state : WorkflowStateV1) (edge : WorkflowEdge) (cls : FailureClass) :
    Except Raised Route :=
  match snapshot.revisions.find? fun revision => some revision.revisionId = (effectivePolicy spec node).retryPolicyRef with
  | none => .error .stopIteration
  | some revision =>
    match revision.spec with
    | .retryPolicy policy =>
      match policy.rule? (some cls) with
      | none => .error .stopIteration
      | some rule =>
        let consumed := state.counter (retryKey node.id cls)
        if (rule.maxRetries : Int) ≤ consumed then
          match fallback with
          | none => .error (.invariant "Exhausted retry has no fallback")
          | some edge => .ok (edge.target, [])
        else .ok (edge.target, [(retryKey node.id cls, consumed + 1)])
    | _ => .error (.invariant "Retry policy snapshot has an incompatible type")

/-- The ITERATE branch. -/
def iterateRoute (state : WorkflowStateV1) (edge : WorkflowEdge) : Except Raised Route :=
  let key := edge.iterationKey.getD ""
  let previous := (state.counters.getD .empty).getD (progressKey key) (-1)
  let count := state.counter (iterateKey key)
  let stuck : Raised := .invariant ("Iterator " ++ edge.id ++ " did not make monotonic progress")
  match getPath state (edge.progressPath.getD "") with
  | .scalar (.int progress) =>
    if progress < 0 ∨ progress ≤ previous then .error stuck
    else
      match edge.maxIterations with
      | some bound =>
        if (bound : Int) ≤ count then .error (.invariant ("Iterator " ++ edge.id ++ " exceeded its hard bound"))
        else .ok (edge.target, [(iterateKey key, count + 1), (progressKey key, progress)])
      | none => .error (.invariant ("Iterator " ++ edge.id ++ " exceeded its hard bound"))
  | _ => .error stuck

/-- Whether the loop passes over an edge: the `continue` branches. -/
def skips (state : WorkflowStateV1) (edge : WorkflowEdge) : Bool :=
  edge.fallback ||
  (edge.when.any fun predicate => !evaluatePredicate state predicate) ||
  (edge.kind == .onFailure && !(failureClass state).truthy) ||
  (edge.kind == .onFailure && edge.retryClass.any fun cls => !isFailure (failureClass state) cls) ||
  (edge.kind == .retry && !edge.retryClass.any fun cls => isFailure (failureClass state) cls)

/-- The loop of `_choose_route` over the edges left. -/
def chooseFrom (spec : WorkflowSpec) (snapshot : WorkflowResolvedSnapshot) (node : WorkflowNode)
    (fallback : Option WorkflowEdge) (state : WorkflowStateV1) : List WorkflowEdge → Except Raised Route
  | [] =>
    match fallback with
    | none => .error (.invariant ("Node " ++ node.id ++ " has no matching route"))
    | some edge => .ok (edge.target, [])
  | edge :: edges =>
    if skips state edge then chooseFrom spec snapshot node fallback state edges
    else
      match edge.kind, edge.retryClass with
      | .retry, some cls => retryRoute spec snapshot node fallback state edge cls
      | .iterate, _ => iterateRoute state edge
      | _, _ => .ok (edge.target, [])

/-- `_choose_route`. -/
def chooseRoute (spec : WorkflowSpec) (snapshot : WorkflowResolvedSnapshot) (node : WorkflowNode)
    (edges : List WorkflowEdge) (state : WorkflowStateV1) : Except Raised Route :=
  chooseFrom spec snapshot node (edges.find? (·.fallback)) state edges

/-- The budget one edge adds to `limits`, if any. -/
def edgeLimit (spec : WorkflowSpec) (snapshot : WorkflowResolvedSnapshot) (edge : WorkflowEdge) :
    Except Raised (Option (String × Nat)) :=
  match edge.kind with
  | .iterate => .ok (some (iterateKey (edge.iterationKey.getD ""), edge.maxIterations.getD 0))
  | .retry =>
    match retryPolicyOf (some snapshot) (policyOf spec edge.source) with
    | some policy =>
      match policy.rule? edge.retryClass with
      | some rule => .ok (some (retryKey edge.source rule.failureClass, rule.maxRetries))
      | none => .error .stopIteration
    | none => .ok none
  | _ => .ok none

/-- The loop of `_superstep_limit`: `limits`, one entry for each counter. -/
def limitsFrom (spec : WorkflowSpec) (snapshot : WorkflowResolvedSnapshot) :
    Dict String Nat → List WorkflowEdge → Except Raised (Dict String Nat)
  | limits, [] => .ok limits
  | limits, edge :: edges =>
    match edgeLimit spec snapshot edge with
    | .error e => .error e
    | .ok none => limitsFrom spec snapshot limits edges
    | .ok (some (key, bound)) => limitsFrom spec snapshot (limits.insert key bound) edges

/-- `_superstep_limit`. -/
def superstepLimit (spec : WorkflowSpec) (snapshot : WorkflowResolvedSnapshot) : Except Raised Nat :=
  match limitsFrom spec snapshot .empty spec.edges with
  | .error e => .error e
  | .ok limits => .ok (spec.nodes.length * (1 + (limits.entries.map Prod.snd).sum) + 2)

/-- The loop of `_branch_regions` for one child: `pending` is the stack, top first. -/
def branchRegion (spec : WorkflowSpec) (joinId : String) : Nat → List String → List String → List String
  | 0, _, visited => visited
  | _ + 1, [], visited => visited
  | fuel + 1, current :: pending, visited =>
    if current = joinId ∨ current ∈ visited then branchRegion spec joinId fuel pending visited
    else branchRegion spec joinId fuel ((spec.adjacency current).reverse ++ pending) (visited ++ [current])

/-- `_branch_regions`: for each fan-out, the region of each of its children. Every edge is pushed at
    most once, so as many rounds as there are edges and one empty the stack. -/
def branchRegions (spec : WorkflowSpec) : List (String × List (String × List String)) :=
  spec.nodes.filterMap fun node =>
    match node.config with
    | .fanout children joinId _ =>
      some (node.id, (childKeys children).map fun child =>
        (child, branchRegion spec joinId (spec.edges.length + 1) [child] []))
    | _ => none

end Jarvis.Workflows
