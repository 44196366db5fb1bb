/-
  Jarvis.Workflows.Validation — `validate_workflow` on a schema-valid specification: the
  graph, fan-out, policy, protected-path and snapshot checks, in the source's order, with
  the code, message and address of every issue.

  A set of the source is a list whose order no check reads; `dict.fromkeys` at the end only
  drops repeated issues, so a workflow is valid when the list is empty. The two digests
  (`content_hash`, `sha256_digest` of a revision) are parameters. The limits on the JSON text
  are in `Workflows.DepthGuard`; the reports on input the schema rejects are not modelled.
-/
import Mathlib.Data.List.Dedup
import Jarvis.Lib.Explore
import Jarvis.Lib.TopoSort
import Jarvis.Workflows.State

namespace Jarvis.Workflows

open Jarvis.Explore (reachable)

structure WorkflowIssue where
  code : String
  message : String
  node : Option String := none
  edge : Option String := none
  path : Option String := none
  deriving DecidableEq, Repr

/-- Report `issue` when the check failed. -/
def check (failed : Bool) (issue : WorkflowIssue) : List WorkflowIssue := if failed then [issue] else []

@[simp]
theorem check_eq_nil {failed : Bool} {issue : WorkflowIssue} : check failed issue = [] ↔ failed = false := by
  cases failed <;> simp [check]

@[simp]
theorem mem_check {failed : Bool} {issue i : WorkflowIssue} : i ∈ check failed issue ↔ failed = true ∧ i = issue := by
  cases failed <;> simp [check]

/-- `_BOUNDED`. -/
def WorkflowEdgeKind.bounded : WorkflowEdgeKind → Bool
  | .retry | .iterate => true
  | _ => false

/-- `_MODEL_NODES`. -/
def WorkflowNodeType.model : WorkflowNodeType → Bool
  | .organizer | .architect | .reviewer => true
  | _ => false

/-- `_WORKER_NODES`. -/
def WorkflowNodeType.usesWorker : WorkflowNodeType → Bool
  | .worker | .verify => true
  | _ => false

/-- `_ACTION_TYPES`. -/
def WorkflowNodeType.action : WorkflowNodeType → Option ActionType
  | .worker => some .workerExecute
  | .integrate => some .gitIntegrate
  | .githubPublish => some .githubPushAndPr
  | _ => none

/-- `effective_policy`. -/
def effectivePolicy (spec : WorkflowSpec) (node : WorkflowNode) : NodePolicy :=
  let values := spec.defaults
  let own := node.policy
  let type := node.type
  { workerSelector := own.workerSelector.or (if type.usesWorker then values.workerSelector else none)
    modelRouteRef := own.modelRouteRef.or (if type.model || type == .worker then values.modelRouteRef else none)
    retryPolicyRef := own.retryPolicyRef.or values.retryPolicyRef
    permissionPolicyRef := own.permissionPolicyRef.or values.permissionPolicyRef
    verification := own.verification.or (if type.usesWorker then values.verification else none)
    approval := own.approval.or (if type.action.isSome then values.approval else none)
    timeoutSeconds := own.timeoutSeconds.or values.timeoutSeconds
    maxConcurrency := own.maxConcurrency.or values.maxConcurrency }

/-- The sort key `(source, priority, id)`. -/
def edgeLe (a b : WorkflowEdge) : Bool :=
  if a.source ≠ b.source then decide (a.source < b.source)
  else if a.priority ≠ b.priority then decide (a.priority < b.priority)
  else decide (a.id ≤ b.id)

/-- The nodes of a normalized workflow, sorted, each with its effective policy. -/
def normalizedNodes (spec : WorkflowSpec) : List WorkflowNode :=
  (spec.nodes.insertionSort fun a b => stringLe a.id b.id).map fun node =>
    { node with policy := effectivePolicy spec node }

theorem normalizedNodes_ids (spec : WorkflowSpec) :
    ((normalizedNodes spec).map (·.id)).Perm (spec.nodes.map (·.id)) := by
  unfold normalizedNodes
  rw [List.map_map]
  exact (List.perm_insertionSort _ spec.nodes).map _

/-- `normalize_workflow`. -/
def normalizeWorkflow (spec : WorkflowSpec) : WorkflowSpec where
  specVersion := spec.specVersion
  reducers := spec.reducers
  entrypoint := spec.entrypoint
  defaults := spec.defaults
  nodes := normalizedNodes spec
  edges := spec.edges.insertionSort fun a b => edgeLe a b
  node_ids := (normalizedNodes_ids spec).nodup_iff.mpr spec.node_ids
  edge_ids := ((List.perm_insertionSort _ spec.edges).map _).nodup_iff.mpr spec.edge_ids
  entrypoint_mem := (normalizedNodes_ids spec).mem_iff.mpr spec.entrypoint_mem
  endpoints_mem := by
    intro edge h
    have hmem := spec.endpoints_mem edge ((List.perm_insertionSort _ spec.edges).mem_iff.mp h)
    exact ⟨(normalizedNodes_ids spec).mem_iff.mpr hmem.1, (normalizedNodes_ids spec).mem_iff.mpr hmem.2⟩

/-! ## Graph checks -/

/-- The `(source, target)` pairs of a list of edges. -/
def pairs (edges : List WorkflowEdge) : List (String × String) := edges.map fun edge => (edge.source, edge.target)

def maxPredicateDepth : Nat := 8
def maxPredicateCount : Nat := 64
def maxGraphDepth : Nat := 500

/-- The checks of one predicate of the tree, not of its arguments. -/
def predicateOwnIssues (edge : WorkflowEdge) : Predicate → List WorkflowIssue
  | .and _ value | .or _ value | .not _ value =>
    check (match value with | .scalar .null => false | _ => true)
      { code := "predicate.value", message := "Logical predicates cannot contain values", edge := edge.id }
  | .exists_ path =>
    check (path ∉ allowedPaths) { code := "predicate.path", message := "Predicate path is not approved", edge := edge.id }
  | .compare op path value =>
    check (path ∉ allowedPaths) { code := "predicate.path", message := "Predicate path is not approved", edge := edge.id } ++
    check (op == .in_ && (match value with | .list items => decide (64 < items.length) | _ => true))
      { code := "predicate.value", message := "in requires at most 64 JSON values", edge := edge.id } ++
    check ((op == .lt || op == .lte || op == .gt || op == .gte) && value.ordered.isNone)
      { code := "predicate.value", message := "Ordering requires a number", edge := edge.id }

def Predicate.arguments : Predicate → List Predicate
  | .and args _ | .or args _ => args
  | .not arg _ => [arg]
  | _ => []

/-- The loop of `_predicate_issues`, on a stack with its top first. `left` counts the
    predicates it may still pop, so the break at the limit also ends the recursion. -/
def predicateLoop (edge : WorkflowEdge) : Nat → List (Predicate × Nat) → List WorkflowIssue
  | _, [] => []
  | 0, _ :: _ => [{ code := "predicate.limit", message := "Predicate exceeds AST limits", edge := edge.id }]
  | left + 1, (current, depth) :: pending =>
    if maxPredicateDepth < depth then
      [{ code := "predicate.limit", message := "Predicate exceeds AST limits", edge := edge.id }]
    else
      predicateOwnIssues edge current ++
        predicateLoop edge left ((current.arguments.map fun arg => (arg, depth + 1)).reverse ++ pending)

/-- `_predicate_issues`. -/
def predicateIssues (predicate : Predicate) (edge : WorkflowEdge) : List WorkflowIssue :=
  predicateLoop edge maxPredicateCount [(predicate, 1)]

/-- The nodes from which some finalize node can be reached. -/
def terminalReached (spec : WorkflowSpec) : List String :=
  (spec.nodes.filter fun node => node.type = .finalize).flatMap fun node =>
    reachable ((pairs spec.edges).map Prod.swap) node.id none

/-- The routing rules of one edge of a conditional node. -/
def routeIssues (edge : WorkflowEdge) : List WorkflowIssue :=
  if edge.fallback && (edge.when.isSome || edge.kind.bounded || edge.retryClass.isSome) then
    [{ code := "routing.fallback_condition", message := "Fallback cannot have a condition or bound", edge := edge.id }]
  else if !edge.fallback && edge.kind == .always then
    [{ code := "routing.unconditional_overlap", message := "An unconditional route must be the fallback", edge := edge.id }]
  else if !edge.fallback && edge.kind == .onResult && edge.when.isNone then
    [{ code := "routing.condition", message := "Result route requires a predicate", edge := edge.id }]
  else []

/-- `conditional` of `_graph_issues`. -/
def conditional (outgoing : List WorkflowEdge) : Bool :=
  decide (1 < outgoing.length) || outgoing.any fun edge => edge.kind != .always

/-- The routing rules of one node. -/
def nodeRoutingIssues (spec : WorkflowSpec) (node : WorkflowNode) : List WorkflowIssue :=
  let outgoing := spec.outgoing node.id
  if node.type == .fanout || node.type == .finalize || outgoing.isEmpty || !conditional outgoing then []
  else
    check ((outgoing.filter (·.fallback)).length != 1)
      { code := "routing.fallback", message := "Conditional routes require exactly one fallback", node := node.id } ++
    check (!decide ((outgoing.filter fun edge => !edge.fallback).map (·.priority)).Nodup)
      { code := "routing.priority", message := "Conditional priorities must be distinct", node := node.id } ++
    outgoing.flatMap routeIssues

def nodeGraphIssues (spec : WorkflowSpec) (node : WorkflowNode) : List WorkflowIssue :=
  check (node.id ∉ reachable (pairs spec.edges) spec.entrypoint none)
    { code := "graph.unreachable", message := "Node is unreachable", node := node.id } ++
  check (node.id ∉ terminalReached spec)
    { code := "graph.no_terminal", message := "Node has no terminal path", node := node.id } ++
  nodeRoutingIssues spec node

/-- `nodes[id].type is type`. -/
def isType (spec : WorkflowSpec) (type : WorkflowNodeType) (id : String) : Bool :=
  match spec.node? id with
  | some node => node.type == type
  | none => false

/-- The edges that touch no integrate node. -/
def withoutProgress (spec : WorkflowSpec) : List WorkflowEdge :=
  spec.edges.filter fun edge => !isType spec .integrate edge.source && !isType spec .integrate edge.target

/-- The checks of one ITERATE edge; `seen` are the iteration keys of the edges before it. -/
def iterateIssues (spec : WorkflowSpec) (seen : List String) (edge : WorkflowEdge) : List WorkflowIssue :=
  check (!isType spec .taskDispatch edge.source || edge.progressPath != some "$.tasks.terminal_count")
    { code := "cycle.progress",
      message := "Only task_dispatch can iterate strictly increasing task terminal_count", edge := edge.id } ++
  check (match edge.iterationKey with | some key => decide (key ∈ seen) | none => false)
    { code := "cycle.iteration_key", message := "Iterator keys must be unique", edge := edge.id } ++
  check (edge.source ∈ reachable (pairs (withoutProgress spec)) edge.target none)
    { code := "cycle.nonprogressing",
      message := "Every task iteration cycle must integrate terminal task progress", edge := edge.id } ++
  spec.nodes.flatMap fun node =>
    match node.config with
    | .architect maxTasks =>
      check (decide (edge.maxIterations.getD 0 < maxTasks))
        { code := "cycle.task_bound", message := "Architect task bound exceeds iterator bound",
          node := node.id, edge := edge.id }
    | _ => []

def unusedBoundIssues (edge : WorkflowEdge) : List WorkflowIssue :=
  check ((edge.kind != .iterate && (edge.iterationKey.isSome || edge.progressPath.isSome || edge.maxIterations.isSome)) ||
      (edge.kind != .retry && edge.kind != .onFailure && edge.retryClass.isSome))
    { code := "routing.unused_bound", message := "Bounds belong only to their declared edge kind", edge := edge.id }

/-- The last loop of `_graph_issues`, with the iteration keys seen so far. -/
def edgeGraphIssues (spec : WorkflowSpec) : List String → List WorkflowEdge → List WorkflowIssue
  | _, [] => []
  | seen, edge :: edges =>
    (match edge.when with | some predicate => predicateIssues predicate edge | none => []) ++
    (if edge.kind = .iterate then iterateIssues spec seen edge else []) ++
    unusedBoundIssues edge ++
    edgeGraphIssues spec (if edge.kind = .iterate then edge.iterationKey.getD "" :: seen else seen) edges

/-- The edges that no counter bounds. -/
def unboundedEdges (spec : WorkflowSpec) : List WorkflowEdge := spec.edges.filter fun edge => !edge.kind.bounded

/-- `_graph_issues`. -/
def graphIssues (spec : WorkflowSpec) : List WorkflowIssue :=
  (spec.nodes.filter fun node => node.type = .finalize).flatMap (fun node =>
    check (!(spec.adjacency node.id).isEmpty)
      { code := "graph.terminal_edges", message := "Finalize cannot have outgoing edges", node := node.id }) ++
  spec.nodes.flatMap (nodeGraphIssues spec) ++
  (let acyclic := TopoSort.sort (pairs (unboundedEdges spec)) spec.nodeIds
   ((spec.nodeIds.filter fun id => id ∉ acyclic.1).insertionSort fun a b => stringLe a b).map (fun id =>
      { code := "graph.unbounded_cycle", message := "Cycle has no bounded retry or iterator edge", node := id }) ++
   check (decide (maxGraphDepth < acyclic.2))
      { code := "resource.graph_depth", message := "Graph depth exceeds its limit" }) ++
  edgeGraphIssues spec [] spec.edges

/-! ## Fan-out checks -/

/-- The region of a child: what it reaches before its join. -/
def region (spec : WorkflowSpec) (joinId child : String) : List String :=
  reachable (pairs spec.edges) child (some joinId)

/-- The edges inside a region. -/
def branchEdges (spec : WorkflowSpec) (nodes : List String) : List WorkflowEdge :=
  spec.edges.filter fun edge => edge.source ∈ nodes && edge.target ∈ nodes

/-- The checks of one node of the region `nodes` of `child`. -/
def regionNodeIssues (spec : WorkflowSpec) (fanoutId joinId child : String) (nodes : List String) (node : WorkflowNode) :
    List WorkflowIssue :=
  check (node.type == .fanout || node.type == .join)
    { code := "fanout.nested", message := "Nested fanout/join is unsupported", node := node.id } ++
  check ((nodeDefinitions node.type).outputs.any fun channel => channel ∉ reducedChannels)
    { code := "fanout.scalar_write", message := "Parallel node writes an unreduced state channel", node := node.id } ++
  check (node.type == .worker && (effectivePolicy spec node).verification.any (·.required))
    { code := "fanout.verification", message := "Parallel workers cannot require branch-local scalar verification",
      node := node.id } ++
  check ((spec.adjacency node.id).isEmpty ||
      (spec.adjacency node.id).any fun target => target ∉ nodes && target != joinId)
    { code := "fanout.escape", message := "Every branch route must reach its matching join", node := node.id } ++
  spec.edges.flatMap fun edge =>
    check (edge.target == node.id && edge.source ∉ nodes && !(edge.source == fanoutId && node.id == child))
      { code := "fanout.external_entry", message := "Parallel branches cannot have external incoming edges",
        node := node.id, edge := edge.id }

/-- The checks of one child, given the nodes its siblings and the earlier fan-outs own. -/
def childIssues (spec : WorkflowSpec) (fanoutId joinId child : String) (owned : List String) : List WorkflowIssue :=
  let nodes := region spec joinId child
  check (nodes.any fun id => id ∈ owned)
    { code := "fanout.overlap", message := "Parallel child regions cannot overlap", node := fanoutId } ++
  check (!(nodes.all fun id => id ∈ (TopoSort.sort (pairs (branchEdges spec nodes)) nodes).1))
    { code := "fanout.cycle", message := "Parallel branches cannot contain cycles", node := fanoutId } ++
  nodes.flatMap (fun id =>
    match spec.node? id with
    | some node => regionNodeIssues spec fanoutId joinId child nodes node
    | none => []) ++
  check (fanoutId ∈ reachable (pairs spec.edges) joinId none)
    { code := "fanout.reentry", message := "Fanout activations cannot overlap through a cycle", node := fanoutId }

/-- `child not in nodes or child == join_id`. -/
def badChild (spec : WorkflowSpec) (joinId child : String) : Bool := child ∉ spec.nodeIds || child == joinId

/-- The loop over the children of a fan-out; the second list is what they own. -/
def childrenIssues (spec : WorkflowSpec) (fanoutId joinId : String) (allOwned : List String) :
    List String → List String → List WorkflowIssue × List String
  | owned, [] => ([], owned)
  | owned, child :: children =>
    if badChild spec joinId child then
      let rest := childrenIssues spec fanoutId joinId allOwned owned children
      ({ code := "fanout.child", message := "Child must reference a distinct entry node", node := fanoutId } :: rest.1,
        rest.2)
    else
      let rest := childrenIssues spec fanoutId joinId allOwned (owned ++ region spec joinId child) children
      (childIssues spec fanoutId joinId child (owned ++ allOwned) ++ rest.1, rest.2)

/-- The declared children in order, each once: the keys of the dictionary of regions. -/
def childKeys (children : List String) : List String := children.eraseDups

/-- `fanout_regions`: for each fan-out, the region of each of its children. -/
def fanoutRegions (spec : WorkflowSpec) : List (String × List (String × List String)) :=
  spec.nodes.filterMap fun node =>
    match node.config with
    | .fanout children joinId _ => some (node.id, (childKeys children).map fun child => (child, region spec joinId child))
    | _ => none

/-- The checks of one fan-out, and the nodes it owns. -/
def fanoutNodeIssues (spec : WorkflowSpec) (claimedJoins allOwned : List String) (fanoutId : String)
    (children : List String) (joinId : String) (maxFanout : Nat) : List WorkflowIssue × List String :=
  let branches := childrenIssues spec fanoutId joinId allOwned [] (childKeys children)
  (check (children.isEmpty || !decide children.Nodup || decide (maxFanout < children.length))
      { code := "fanout.children", message := "Fanout needs unique children within its configured bound",
        node := fanoutId } ++
    check (!(match spec.node? joinId with
        | some node => node.config == .join fanoutId
        | none => false) || joinId ∈ claimedJoins)
      { code := "fanout.join", message := "Fanout needs its own matching join", node := fanoutId } ++
    check (!((spec.outgoing fanoutId).map (·.target)).isPerm children ||
        (spec.outgoing fanoutId).any fun edge => edge.kind != .always || edge.fallback)
      { code := "fanout.edges", message := "Fanout edges must match all configured child entries", node := fanoutId } ++
    branches.1 ++
    spec.edges.flatMap (fun edge =>
      check (edge.target == joinId && edge.source ∉ branches.2)
        { code := "fanout.join_entry", message := "Join can receive only its own branch completions", edge := edge.id }),
    branches.2)

/-- The loop over the fan-outs, then the joins nobody claimed. -/
def fanoutLoop (spec : WorkflowSpec) : List String → List String → List WorkflowNode → List WorkflowIssue
  | claimedJoins, _, [] =>
    spec.nodes.flatMap fun node =>
      check (node.type == .join && node.id ∉ claimedJoins)
        { code := "fanout.orphan_join", message := "Join must have a matching fanout", node := node.id }
  | claimedJoins, allOwned, node :: nodes =>
    match node.config with
    | .fanout children joinId maxFanout =>
      let own := fanoutNodeIssues spec claimedJoins allOwned node.id children joinId maxFanout
      own.1 ++ fanoutLoop spec (joinId :: claimedJoins) (allOwned ++ own.2) nodes
    | _ => fanoutLoop spec claimedJoins allOwned nodes

/-- `_fanout_issues`. -/
def fanoutIssues (spec : WorkflowSpec) : List WorkflowIssue := fanoutLoop spec [] [] spec.nodes

/-! ## Policy checks -/

/-- `revisions.get(id)`; without a snapshot there are none. -/
def revisionOf (snapshot : Option WorkflowResolvedSnapshot) (id : RevisionId) : Option WorkflowResolvedRevision :=
  snapshot.bind fun s => s.revision? id

/-- The effective fields a node must have, with whether each is missing. -/
def requiredFields (node : WorkflowNode) (policy : NodePolicy) : List (String × Bool) :=
  (if (nodeDefinitions node.type).external then
    [("timeout_seconds", policy.timeoutSeconds.isNone), ("retry_policy_ref", policy.retryPolicyRef.isNone),
      ("permission_policy_ref", policy.permissionPolicyRef.isNone)]
  else []) ++
  (if node.type.model then [("model_route_ref", policy.modelRouteRef.isNone)] else []) ++
  (if node.type.usesWorker then [("worker_selector", policy.workerSelector.isNone)] else [])

/-- The permission policy of a node, when its reference resolves to one. -/
def permissionOf (snapshot : Option WorkflowResolvedSnapshot) (policy : NodePolicy) : Option PermissionPolicySpec :=
  match policy.permissionPolicyRef.bind (revisionOf snapshot) with
  | some { spec := .permissionPolicy permission, .. } => some permission
  | _ => none

def requiredCapabilities (node : WorkflowNode) (policy : NodePolicy) : List String :=
  (nodeDefinitions node.type).capabilities ++ (policy.workerSelector.map (·.requires)).getD []

/-- `operation_decisions`. -/
def operationDecisions (type : WorkflowNodeType) (permission : PermissionPolicySpec) : List PermissionDecision :=
  (if type.action.isSome then [permission.git] else []) ++ (if type.usesWorker then [permission.shell] else [])

def permissionIssues (node : WorkflowNode) (policy : NodePolicy) (permission : PermissionPolicySpec) : List WorkflowIssue :=
  check ((requiredCapabilities node policy).any fun capability =>
      capability ∈ permission.deniedCapabilities || capability ∉ permission.allowedCapabilities)
    { code := "policy.capability_denied", message := "Permission policy does not allow required node capabilities",
      node := node.id } ++
  check ((operationDecisions node.type permission).any (· == .deny))
    { code := "policy.action_denied", message := "Permission policy denies a required shell or Git operation",
      node := node.id }

/-- Whether the node's action needs a grant. -/
def approvalRequired (snapshot : Option WorkflowResolvedSnapshot) (node : WorkflowNode) (policy : NodePolicy) : Bool :=
  node.type == .githubPublish ||
    match permissionOf snapshot policy with
    | some permission =>
      (node.type.action.any fun action => action.value ∈ permission.approvalRequiredActions) ||
        (operationDecisions node.type permission).any (· == .requireApproval)
    | none => false

/-- `approval.required_grant_from`, when it names a node. -/
def ApprovalPolicy.grantFrom (approval : ApprovalPolicy) : Option String :=
  approval.requiredGrantFrom.bind fun id => if id = "" then none else some id

/-- An approval policy that does not name an approval node for the node's own action. -/
def badApproval (spec : WorkflowSpec) (node : WorkflowNode) (approval : ApprovalPolicy) : Bool :=
  match node.type.action, approval.grantFrom.bind spec.node? with
  | some action, some grant => approval.actionType != some action || grant.config != .approval action
  | _, _ => true

def approvalIssues (spec : WorkflowSpec) (snapshot : Option WorkflowResolvedSnapshot) (node : WorkflowNode) :
    List WorkflowIssue :=
  let policy := effectivePolicy spec node
  check (approvalRequired snapshot node policy && (policy.approval.bind (·.grantFrom)).isNone)
    { code := "policy.approval", message := "Protected action requires a named approval grant", node := node.id } ++
  check (policy.approval.any (badApproval spec node))
    { code := "policy.approval", message := "Approval policy must name a matching typed granting node", node := node.id }

/-- `refs`: the revisions a policy names, the kind each must have and its field. -/
def policyRefs (policy : NodePolicy) : List (Option RevisionId × ConfigurationKind × String) :=
  [(policy.workerSelector.map (·.revisionId), .worker, "worker_selector"),
    (policy.modelRouteRef, .routePolicy, "model_route_ref"),
    (policy.retryPolicyRef, .retryPolicy, "retry_policy_ref"),
    (policy.permissionPolicyRef, .permissionPolicy, "permission_policy_ref")] ++
  ((policy.verification.map (·.executionProfileRevisionIds)).getD []).map fun id =>
    (some id, .executionProfile, "verification.execution_profile_revision_ids")

def refIssues (snapshot : WorkflowResolvedSnapshot) (node : WorkflowNode)
    (ref : Option RevisionId × ConfigurationKind × String) : List WorkflowIssue :=
  match ref.1 with
  | none => []
  | some id =>
    match snapshot.revision? id with
    | none =>
      [{ code := "reference.invalid", message := ref.2.2 ++ " revision is missing or has an incompatible type",
         node := node.id, path := some ("policy." ++ ref.2.2) }]
    | some revision =>
      if revision.spec.kind ≠ ref.2.1 then
        [{ code := "reference.invalid", message := ref.2.2 ++ " revision is missing or has an incompatible type",
           node := node.id, path := some ("policy." ++ ref.2.2) }]
      else
        check (!revision.enabled || revision.archived)
          { code := "reference.inactive", message := ref.2.2 ++ " revision is inactive", node := node.id,
            path := some ("policy." ++ ref.2.2) }

/-- The purpose a model route must serve for a node. -/
def purpose (type : WorkflowNodeType) : String := if type = .worker then "developer" else type.value

def routeOf (snapshot : WorkflowResolvedSnapshot) (policy : NodePolicy) : Option RoutePolicySpec :=
  match policy.modelRouteRef.bind snapshot.revision? with
  | some { spec := .routePolicy route, .. } => some route
  | _ => none

def workerOf (snapshot : WorkflowResolvedSnapshot) (policy : NodePolicy) : Option WorkerSpec :=
  match policy.workerSelector.bind fun selector => snapshot.revision? selector.revisionId with
  | some { spec := .worker worker, .. } => some worker
  | _ => none

/-- The checks of the selected worker. -/
def workerIssues (snapshot : WorkflowResolvedSnapshot) (node : WorkflowNode) (policy : NodePolicy) (worker : WorkerSpec) :
    List WorkflowIssue :=
  check ((requiredCapabilities node policy).any fun capability => capability ∉ worker.capabilities)
    { code := "reference.worker_capabilities", message := "Selected worker lacks required capabilities", node := node.id } ++
  check (policy.maxConcurrency.any fun n => decide (worker.maxConcurrency < n))
    { code := "reference.worker_concurrency", message := "Node concurrency exceeds selected worker capacity",
      node := node.id } ++
  check (node.type == .worker && worker.bindingMode == .controlPlane && policy.modelRouteRef.isNone)
    { code := "policy.required", message := "Control-plane worker requires a model route", node := node.id } ++
  check (node.type == .worker && worker.bindingMode == .none && worker.adapterKind != .demo)
    { code := "reference.worker_model", message := "Non-demo worker requires an explicit model binding",
      node := node.id } ++
  check (node.type == .worker && !worker.allowedProfileRevisionIds.isEmpty &&
      (routeOf snapshot policy).any fun route =>
        route.candidates.any fun candidate => candidate ∉ worker.allowedProfileRevisionIds)
    { code := "reference.worker_model", message := "Model route exceeds worker's declared model binding",
      node := node.id }

/-- Whether an acceptance check names a command its profile does not support. -/
def unsupportedCommand (snapshot : WorkflowResolvedSnapshot) (acceptance : AcceptanceCheck) : Bool :=
  match snapshot.revision? acceptance.profileRevisionId with
  | some { spec := .executionProfile profile, .. } => acceptance.command ∉ profile.supportedCommands
  | _ => false

/-- The checks of a node's policy against the snapshot. -/
def nodeSnapshotIssues (snapshot : WorkflowResolvedSnapshot) (node : WorkflowNode) (policy : NodePolicy) :
    List WorkflowIssue :=
  (policyRefs policy).flatMap (refIssues snapshot node) ++
  check ((routeOf snapshot policy).any fun route => purpose node.type ∉ route.purposes)
    { code := "reference.route_purpose", message := "Model route does not support this node's purpose",
      node := node.id } ++
  (match workerOf snapshot policy with
    | some worker => workerIssues snapshot node policy worker
    | none => []) ++
  ((policy.verification.map (·.requiredAcceptanceChecks)).getD []).flatMap fun acceptance =>
    check (unsupportedCommand snapshot acceptance)
      { code := "profile.command_unsupported", message := "Required acceptance command is unsupported by its profile",
        node := node.id, path := "policy.verification.required_acceptance_checks" }

/-- The checks of one node's policy. -/
def nodePolicyIssues (spec : WorkflowSpec) (snapshot : Option WorkflowResolvedSnapshot) (node : WorkflowNode) :
    List WorkflowIssue :=
  let policy := effectivePolicy spec node
  check (node.policy.workerSelector.isSome && !node.type.usesWorker)
    { code := "policy.inapplicable", message := "This node type cannot select a worker", node := node.id,
      path := "policy.worker_selector" } ++
  check (node.policy.modelRouteRef.isSome && !(node.type.model || node.type == .worker))
    { code := "policy.inapplicable", message := "This node type cannot select a model route", node := node.id,
      path := "policy.model_route_ref" } ++
  (requiredFields node policy).flatMap (fun field =>
    check field.2
      { code := "policy.required", message := "Node requires an effective " ++ field.1, node := node.id,
        path := some ("policy." ++ field.1) }) ++
  check (node.type == .verify && !policy.verification.any (·.required))
    { code := "policy.verification", message := "Verify requires enabled task verification policy", node := node.id } ++
  (match permissionOf snapshot policy with
    | some permission => permissionIssues node policy permission
    | none => []) ++
  approvalIssues spec snapshot node ++
  (match snapshot with
    | some s => nodeSnapshotIssues s node policy
    | none => [])

/-- The retry policy a node's reference resolves to in the snapshot. -/
def retryPolicyOf (snapshot : Option WorkflowResolvedSnapshot) (policy : NodePolicy) : Option RetryRegistrySpec :=
  match policy.retryPolicyRef.bind (revisionOf snapshot) with
  | some { spec := .retryPolicy retry, .. } => some retry
  | _ => none

/-- `next((rule for rule in rules if rule.failure_class == edge.retry_class), None)`. -/
def RetryRegistrySpec.rule? (retry : RetryRegistrySpec) (failureClass : Option FailureClass) : Option RetryRule :=
  retry.rules.find? fun rule => some rule.failureClass = failureClass

/-- Whether the fallback's target matches the rule's exhaustion action. -/
def exhaustionMatches (action : ExhaustionAction) (target : WorkflowNode) : Bool :=
  match action with
  | .approval => target.type == .approval
  | .fail => target.config == .finalize .failed
  | .block => target.config == .finalize .blocked

def retryRuleIssues (spec : WorkflowSpec) (retry : RetryRegistrySpec) (edge : WorkflowEdge) : List WorkflowIssue :=
  match retry.rule? edge.retryClass with
  | none =>
    [{ code := "cycle.retry_bound", message := "Retry requires a positive class-specific finite budget", edge := edge.id }]
  | some rule =>
    if rule.maxRetries < 1 then
      [{ code := "cycle.retry_bound", message := "Retry requires a positive class-specific finite budget", edge := edge.id }]
    else
      check (!(((spec.outgoing edge.source).find? (·.fallback)).bind fun fallback => spec.node? fallback.target).any
          (exhaustionMatches rule.exhaustionAction))
        { code := "cycle.retry_exhaustion",
          message := "Retry fallback must match the policy's terminal exhaustion action", edge := edge.id }

/-- `effective_policy(spec, nodes[id])`. -/
def policyOf (spec : WorkflowSpec) (id : String) : NodePolicy := ((spec.node? id).map (effectivePolicy spec)).getD {}

/-- The checks of one RETRY edge. -/
def retryIssues (spec : WorkflowSpec) (snapshot : Option WorkflowResolvedSnapshot) (edge : WorkflowEdge) :
    List WorkflowIssue :=
  check (edge.retryClass.any fun c => !c.retryable)
    { code := "cycle.nonretryable", message := "This failure class cannot be retried", edge := edge.id } ++
  (match (policyOf spec edge.source).retryPolicyRef with
    | none =>
      [{ code := "cycle.retry_bound", message := "Retry requires an immutable retry policy", edge := edge.id }]
    | some _ =>
      match retryPolicyOf snapshot (policyOf spec edge.source) with
      | some retry => retryRuleIssues spec retry edge
      | none => [])

/-- `_policy_issues`. -/
def policyIssues (spec : WorkflowSpec) (snapshot : Option WorkflowResolvedSnapshot) : List WorkflowIssue :=
  spec.nodes.flatMap (nodePolicyIssues spec snapshot) ++
  (spec.edges.filter fun edge => edge.kind = .retry).flatMap (retryIssues spec snapshot)

/-! ## Protected paths -/

/-- What a path carries at a node: `verified`, `reviewed`, `verification_required`. -/
structure Evidence where
  verified : Bool
  reviewed : Bool
  required : Bool
  deriving DecidableEq

/-- Whether a node's effective policy requires verification. -/
def requiresVerification (spec : WorkflowSpec) (node : WorkflowNode) : Bool :=
  (effectivePolicy spec node).verification.any (·.required)

/-- The evidence after a node. -/
def Evidence.after (spec : WorkflowSpec) (id : String) (evidence : Evidence) : Evidence :=
  match spec.node? id with
  | none => evidence
  | some node =>
    match node.type with
    | .worker => { verified := false, reviewed := false, required := requiresVerification spec node }
    | .verify => { evidence with verified := true }
    | .reviewer => { evidence with reviewed := true }
    | _ => evidence

/-- The issues one visit of the exploration reports. -/
def evidenceIssues (spec : WorkflowSpec) (visit : String × Evidence) : List WorkflowIssue :=
  match spec.node? visit.1 with
  | none => []
  | some node =>
    match node.config with
    | .reviewer =>
      check (!visit.2.verified)
        { code := "security.verification_bypass", message := "Review path bypasses required verification",
          node := visit.1 }
    | .githubPublish =>
      check (!visit.2.verified)
        { code := "security.verification_bypass", message := "Publication path bypasses current verification",
          node := visit.1 } ++
      check (!visit.2.reviewed)
        { code := "security.review_bypass", message := "Publication path bypasses current independent review",
          node := visit.1 }
    | .finalize .derive =>
      check (visit.2.required && !visit.2.verified)
        { code := "security.verification_bypass", message := "Success path bypasses required verification",
          node := visit.1 }
    | _ => []

/-- The visits a visit pushes. -/
def evidenceNext (spec : WorkflowSpec) (visit : String × Evidence) : List (String × Evidence) :=
  (spec.adjacency visit.1).map fun target => (target, visit.2.after spec visit.1)

def Evidence.none : Evidence := ⟨false, false, false⟩

/-- `seen` of `_protected_paths`, in the order of the visits. -/
def evidenceVisits (spec : WorkflowSpec) : List (String × Evidence) :=
  Explore.explore (evidenceNext spec) (fun _ => false) (8 * spec.edges.length + 1) [(spec.entrypoint, .none)] []

/-- The node a protected node needs its grant from. -/
def grantOf (spec : WorkflowSpec) (node : WorkflowNode) : Option String :=
  (effectivePolicy spec node).approval.bind (·.grantFrom)

/-- `after_grant`. -/
def afterGrant (spec : WorkflowSpec) (grant : String) : List String :=
  ((spec.adjacency grant).flatMap fun target => reachable (pairs spec.edges) target (some grant)).dedup

def grantIssues (spec : WorkflowSpec) (node : WorkflowNode) : List WorkflowIssue :=
  match grantOf spec node with
  | none => []
  | some grant =>
    check (node.id ∈ reachable (pairs spec.edges) spec.entrypoint (some grant))
      { code := "security.approval_bypass",
        message := "Protected action has a path that bypasses its named approval", node := node.id } ++
    (afterGrant spec grant).flatMap fun candidate =>
      check (candidate != node.id && isType spec .worker candidate &&
          node.id ∈ reachable (pairs spec.edges) candidate (some grant))
        { code := "security.stale_approval",
          message := "A new worker invalidates the grant before this protected action", node := node.id }

/-- `_protected_paths`: the loop reports a visit's issues when it first makes the visit. -/
def protectedPaths (spec : WorkflowSpec) : List WorkflowIssue :=
  (evidenceVisits spec).flatMap (evidenceIssues spec) ++ spec.nodes.flatMap (grantIssues spec)

/-! ## Snapshot checks -/

structure Digests where
  /-- `WorkflowSpec.content_hash`. -/
  content : WorkflowSpec → String
  /-- `sha256_digest` of the payload a revision's `content_hash` covers. -/
  revision : WorkflowResolvedRevision → String

/-- `COMPILER_VERSION`. -/
def compilerVersion : String := "1.0.0"

/-- `_revision_dependencies`. -/
def revisionDependencies : RegistrySpec → List (RevisionId × ConfigurationKind)
  | .routePolicy route => route.candidates.map fun id => (id, .modelProfile)
  | .modelProfile profile => [(profile.providerRevisionId, .providerConnection)]
  | .worker worker => worker.allowedProfileRevisionIds.map fun id => (id, .modelProfile)
  | .provider provider => (provider.retryPolicyRevisionId.map fun id => (id, ConfigurationKind.retryPolicy)).toList
  | _ => []

/-- The capabilities a profile offers, its support flags included. -/
def profileCapabilities (profile : ModelProfileSpec) : List String :=
  profile.capabilities ++ (if profile.structuredJson then ["structured_json"] else []) ++
    (if profile.toolCalls then ["tool_calls"] else []) ++ (if profile.streaming then ["streaming"] else [])

def allowedParameters : ProviderKind → List String
  | .openai => ["temperature", "top_p", "reasoning_effort"]
  | .ollama => ["temperature", "top_p", "seed", "keep_alive"]
  | .demo => ["temperature", "top_p", "reasoning_effort", "seed", "keep_alive"]

def dependencyIssues (snapshot : WorkflowResolvedSnapshot) (spec : RegistrySpec) : List WorkflowIssue :=
  (revisionDependencies spec).flatMap fun dependency =>
    check ((snapshot.revision? dependency.1).all fun revision => revision.spec.kind != dependency.2)
      { code := "reference.dependency", message := "Snapshot dependency is missing or has an incompatible type" }

def compatibilityIssues (snapshot : WorkflowResolvedSnapshot) : RegistrySpec → List WorkflowIssue
  | .routePolicy route =>
    route.candidates.flatMap fun candidate =>
      match snapshot.revision? candidate with
      | some { spec := .modelProfile profile, .. } =>
        check ((route.requiredCapabilities.any fun capability => capability ∉ profileCapabilities profile) ||
            route.purposes.any fun p => p ∉ profile.purposes)
          { code := "reference.model_capabilities",
            message := "Route candidate has incompatible capabilities or purposes" }
      | _ => []
  | .modelProfile profile =>
    match snapshot.revision? profile.providerRevisionId with
    | some { spec := .provider provider, .. } =>
      check (profile.locality != provider.locality ||
          profile.parameters.any fun parameter => parameter ∉ allowedParameters provider.providerKind)
        { code := "reference.provider_compatibility",
          message := "Profile is incompatible with provider locality or parameters" }
    | _ => []
  | _ => []

def revisionIssues (digests : Digests) (snapshot : WorkflowResolvedSnapshot) (revision : WorkflowResolvedRevision) :
    List WorkflowIssue :=
  check (revision.contentHash != digests.revision revision)
    { code := "snapshot.revision_hash", message := "Snapshot configuration content hash is invalid" } ++
  check (!revision.enabled || revision.archived)
    { code := "reference.inactive", message := "Snapshot contains an inactive configuration revision" } ++
  dependencyIssues snapshot revision.spec ++ compatibilityIssues snapshot revision.spec

/-- `_snapshot_issues`. -/
def snapshotIssues (digests : Digests) (spec : WorkflowSpec) (snapshot : WorkflowResolvedSnapshot) : List WorkflowIssue :=
  check (snapshot.compilerVersion != compilerVersion)
    { code := "snapshot.compiler_version", message := "Snapshot compiler version is unsupported" } ++
  check (snapshot.workflowContentHash != digests.content spec)
    { code := "snapshot.workflow_hash", message := "Snapshot does not match normalized workflow hash" } ++
  check (!decide (snapshot.revisions.map (·.revisionId)).Nodup)
    { code := "snapshot.duplicate_revision", message := "Snapshot revision IDs must be unique" } ++
  snapshot.revisions.flatMap (revisionIssues digests snapshot)

/-! ## The report -/

/-- The issues of `validate_workflow`, before repeated ones are dropped. -/
def workflowIssues (digests : Digests) (spec : WorkflowSpec) (snapshot : Option WorkflowResolvedSnapshot) :
    List WorkflowIssue :=
  let normalized := normalizeWorkflow spec
  check (spec.specVersion != .v1_1)
    { code := "schema.unsupported_version", message := "Compiler requires workflow spec 1.1" } ++
  check (!spec.reducers.isPerm defaultReducers)
    { code := "state.reducers", message := "Workflow reducers must match the versioned state contract" } ++
  graphIssues normalized ++ fanoutIssues normalized ++ policyIssues normalized snapshot ++
  protectedPaths normalized ++
  (match snapshot with
    | some s => snapshotIssues digests normalized s
    | none => [])

/-- `validate_workflow`: `valid` and the distinct issues. -/
def validateWorkflow (digests : Digests) (spec : WorkflowSpec) (snapshot : Option WorkflowResolvedSnapshot) :
    Bool × List WorkflowIssue :=
  let unique := (workflowIssues digests spec snapshot).eraseDups
  (unique.isEmpty, unique)

end Jarvis.Workflows
