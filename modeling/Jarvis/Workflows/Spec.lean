/-
  Jarvis.Workflows.Spec — the workflow contracts: nodes, edges, policies and the resolved
  registry snapshot (`jarvis_contracts.workflow`, `workflow_nodes`, `workflow_api`,
  `registry`, `failures`).

  What the schema rejects cannot be built: an edge carries the fields its kind requires, a
  specification has distinct identifiers and no dangling reference, a node's configuration
  is the one of its type (`NODE_DEFINITIONS[type].config_model`). Fields that no modelled
  function reads (labels, descriptions, outputs) are left out. Revision identifiers are
  numbers.
-/
import Mathlib.Data.List.Nodup
import Mathlib.Data.List.Sort
import Mathlib.Tactic.Common
import Jarvis.Lib.Dict
import Jarvis.Lib.Json

namespace Jarvis.Workflows

abbrev RevisionId := Nat

/-- `FailureClass`. -/
inductive FailureClass where
  | codeBuildFailure
  | infrastructureTimeout
  | unknown
  | codeImplementationFailure
  | codeTestFailure
  | codeReviewFailure
  | codeGitConflict
  | infrastructureWorkerUnavailable
  | infrastructureWorkerTransport
  | infrastructureServiceUnavailable
  | providerRateLimited
  | providerTransient
  | providerContractFailure
  | configurationInvalid
  | securityPolicyDenied
  | approvalRejected
  | orchestrationRuntimeError
  | userCancelled
  deriving DecidableEq, Repr

def FailureClass.value : FailureClass → String
  | .codeBuildFailure => "code.build_failure"
  | .infrastructureTimeout => "infrastructure.timeout"
  | .unknown => "unknown"
  | .codeImplementationFailure => "code.implementation_failure"
  | .codeTestFailure => "code.test_failure"
  | .codeReviewFailure => "code.review_failure"
  | .codeGitConflict => "code.git_conflict"
  | .infrastructureWorkerUnavailable => "infrastructure.worker_unavailable"
  | .infrastructureWorkerTransport => "infrastructure.worker_transport"
  | .infrastructureServiceUnavailable => "infrastructure.service_unavailable"
  | .providerRateLimited => "provider.rate_limited"
  | .providerTransient => "provider.transient"
  | .providerContractFailure => "provider.contract_failure"
  | .configurationInvalid => "configuration.invalid"
  | .securityPolicyDenied => "security.policy_denied"
  | .approvalRejected => "approval.rejected"
  | .orchestrationRuntimeError => "orchestration.runtime_error"
  | .userCancelled => "user.cancelled"

def FailureClass.all : List FailureClass :=
  [.codeBuildFailure, .infrastructureTimeout, .unknown, .codeImplementationFailure, .codeTestFailure,
    .codeReviewFailure, .codeGitConflict, .infrastructureWorkerUnavailable, .infrastructureWorkerTransport,
    .infrastructureServiceUnavailable, .providerRateLimited, .providerTransient, .providerContractFailure,
    .configurationInvalid, .securityPolicyDenied, .approvalRejected, .orchestrationRuntimeError, .userCancelled]

/-- `FailureClass(value)`. -/
def FailureClass.ofValue (value : String) : Option FailureClass := all.find? fun c => c.value = value

/-- `classify_failure(...).retryable` for an explicit class. -/
def FailureClass.retryable : FailureClass → Bool
  | .configurationInvalid | .securityPolicyDenied | .approvalRejected | .userCancelled => false
  | _ => true

inductive WorkflowNodeType where
  | organizer
  | architect
  | taskDispatch
  | worker
  | verify
  | reviewer
  | integrate
  | router
  | fanout
  | join
  | approval
  | githubPublish
  | finalize
  deriving DecidableEq, Repr

def WorkflowNodeType.value : WorkflowNodeType → String
  | .organizer => "organizer"
  | .architect => "architect"
  | .taskDispatch => "task_dispatch"
  | .worker => "worker"
  | .verify => "verify"
  | .reviewer => "reviewer"
  | .integrate => "integrate"
  | .router => "router"
  | .fanout => "fanout"
  | .join => "join"
  | .approval => "approval"
  | .githubPublish => "github_publish"
  | .finalize => "finalize"

inductive WorkflowEdgeKind where
  | always
  | onResult
  | retry
  | iterate
  | onFailure
  deriving DecidableEq, Repr

/-- The operators of a predicate that compares the value at a path. -/
inductive Comparison where
  | eq
  | neq
  | in_
  | lt
  | lte
  | gt
  | gte
  deriving DecidableEq, Repr

/-- `Predicate`, one constructor for each shape `validate_shape` admits. A logical predicate
    may still carry a `value`, which publication rejects. -/
inductive Predicate where
  | and (args : List Predicate) (value : Json)
  | or (args : List Predicate) (value : Json)
  | not (arg : Predicate) (value : Json)
  | exists_ (path : String)
  | compare (op : Comparison) (path : String) (value : Json)

/-! ## Policies -/

inductive ActionType where
  | githubPushAndPr
  | gitIntegrate
  | workerExecute
  deriving DecidableEq, Repr

def ActionType.value : ActionType → String
  | .githubPushAndPr => "github.push_and_pr"
  | .gitIntegrate => "git.integrate"
  | .workerExecute => "worker.execute"

structure ApprovalPolicy where
  requiredGrantFrom : Option String
  actionType : Option ActionType
  deriving DecidableEq

/-- `RequiredAcceptanceCheck`: its profile and the first word of its command. -/
structure AcceptanceCheck where
  profileRevisionId : RevisionId
  command : String
  deriving DecidableEq

structure VerificationPolicy where
  required : Bool
  executionProfileRevisionIds : List RevisionId
  requiredAcceptanceChecks : List AcceptanceCheck
  deriving DecidableEq

structure WorkerSelector where
  revisionId : RevisionId
  requires : List String
  deriving DecidableEq

/-- `NodePolicy`; an unset field and `None` are both `none`. -/
structure NodePolicy where
  workerSelector : Option WorkerSelector := none
  modelRouteRef : Option RevisionId := none
  retryPolicyRef : Option RevisionId := none
  permissionPolicyRef : Option RevisionId := none
  verification : Option VerificationPolicy := none
  approval : Option ApprovalPolicy := none
  timeoutSeconds : Option Nat := none
  maxConcurrency : Option Nat := none
  deriving DecidableEq

/-! ## Nodes -/

inductive FinalizeOutcome where
  | derive
  | failed
  | blocked
  | cancelled
  deriving DecidableEq, Repr

def FinalizeOutcome.value : FinalizeOutcome → String
  | .derive => "derive"
  | .failed => "failed"
  | .blocked => "blocked"
  | .cancelled => "cancelled"

/-- A node's validated configuration; its constructor is the node's type. -/
inductive NodeConfig where
  | organizer
  | architect (maxTasks : Nat)
  | taskDispatch
  | worker
  | verify
  | reviewer
  | integrate
  | router
  | fanout (children : List String) (joinId : String) (maxFanout : Nat)
  | join (fanoutId : String)
  | approval (actionType : ActionType)
  | githubPublish
  | finalize (outcome : FinalizeOutcome)
  deriving DecidableEq

/-- The identifier pattern `^[a-z][a-z0-9_-]*$`. -/
def idPattern (id : String) : Bool :=
  match id.toList with
  | [] => false
  | first :: rest => first.isLower && rest.all fun c => c.isLower || c.isDigit || c == '_' || c == '-'

structure WorkflowNode where
  id : String
  config : NodeConfig
  policy : NodePolicy := {}
  id_pattern : idPattern id := by exact Eq.refl true
  deriving DecidableEq

def WorkflowNode.type (node : WorkflowNode) : WorkflowNodeType :=
  match node.config with
  | .organizer => .organizer
  | .architect _ => .architect
  | .taskDispatch => .taskDispatch
  | .worker => .worker
  | .verify => .verify
  | .reviewer => .reviewer
  | .integrate => .integrate
  | .router => .router
  | .fanout .. => .fanout
  | .join _ => .join
  | .approval _ => .approval
  | .githubPublish => .githubPublish
  | .finalize _ => .finalize

/-- The state channels of `WorkflowStateV1`. -/
inductive Channel where
  | results
  | childResults
  | expectedChildren
  | completedChildren
  | counters
  | node
  | outcome
  | tasks
  | verification
  | review
  | approval
  | final
  | cancelled
  | childIdentity
  | route
  | needsVerification
  deriving DecidableEq, Repr

def Channel.all : List Channel :=
  [.results, .childResults, .expectedChildren, .completedChildren, .counters, .node, .outcome, .tasks, .verification,
    .review, .approval, .final, .cancelled, .childIdentity, .route, .needsVerification]

/-- The channels of `default_reducers()`. -/
def reducedChannels : List Channel := [.results, .childResults, .expectedChildren, .completedChildren, .counters]

/-- The part of `NodeDefinition` that validation and execution read. -/
structure NodeDefinition where
  capabilities : List String := []
  outputs : List Channel := [.results]
  external : Bool := false

/-- `NODE_DEFINITIONS`. -/
def nodeDefinitions : WorkflowNodeType → NodeDefinition
  | .organizer => { external := true }
  | .architect => { outputs := [.results, .tasks], external := true }
  | .taskDispatch => { outputs := [.results, .tasks] }
  | .worker => { capabilities := ["code", "git"], external := true }
  | .verify => { capabilities := ["tests"], outputs := [.results, .verification], external := true }
  | .reviewer => { outputs := [.results, .review], external := true }
  | .integrate => { outputs := [.results, .tasks], external := true }
  | .router => {}
  | .fanout => { outputs := [.expectedChildren] }
  | .join => { outputs := [.results] }
  | .approval => { outputs := [.results, .approval], external := true }
  | .githubPublish => { external := true }
  | .finalize => { outputs := [.results, .final] }

/-! ## Edges and the specification -/

/-! What the fields of an edge without bounds meet. -/

theorem alwaysWhen_none (kind : WorkflowEdgeKind) : kind = .always → (none : Option Predicate) = none := fun _ => rfl
theorem alwaysWhen_onResult (test : Predicate) : WorkflowEdgeKind.onResult = .always → some test = none := nofun
theorem retryClass_some (kind : WorkflowEdgeKind) (cls : FailureClass) : kind = .retry → (some cls).isSome := fun _ => rfl
theorem retryClass_always : WorkflowEdgeKind.always = .retry → (none : Option FailureClass).isSome := nofun
theorem retryClass_onResult : WorkflowEdgeKind.onResult = .retry → (none : Option FailureClass).isSome := nofun
theorem retryClass_onFailure : WorkflowEdgeKind.onFailure = .retry → (none : Option FailureClass).isSome := nofun
theorem retryClass_iterate : WorkflowEdgeKind.iterate = .retry → (none : Option FailureClass).isSome := nofun
theorem unbounded_always : WorkflowEdgeKind.always = .iterate →
    (none : Option String).any (· ≠ "") ∧ (none : Option String).isSome ∧ (none : Option Nat).isSome := nofun
theorem unbounded_onResult : WorkflowEdgeKind.onResult = .iterate →
    (none : Option String).any (· ≠ "") ∧ (none : Option String).isSome ∧ (none : Option Nat).isSome := nofun
theorem unbounded_onFailure : WorkflowEdgeKind.onFailure = .iterate →
    (none : Option String).any (· ≠ "") ∧ (none : Option String).isSome ∧ (none : Option Nat).isSome := nofun
theorem unbounded_retry : WorkflowEdgeKind.retry = .iterate →
    (none : Option String).any (· ≠ "") ∧ (none : Option String).isSome ∧ (none : Option Nat).isSome := nofun

/-- `WorkflowEdge`, with `validate_kind_fields` as its last three fields. -/
structure WorkflowEdge where
  id : String
  source : String
  target : String
  kind : WorkflowEdgeKind
  when : Option Predicate := none
  priority : Int := 0
  fallback : Bool := false
  retryClass : Option FailureClass := none
  iterationKey : Option String := none
  progressPath : Option String := none
  maxIterations : Option Nat := none
  always_when : kind = .always → when = none := by
    first
      | exact Jarvis.Workflows.alwaysWhen_none _
      | exact Jarvis.Workflows.alwaysWhen_onResult _
      | (intro h; cases h)
  retry_class : kind = .retry → retryClass.isSome := by
    first
      | exact Jarvis.Workflows.retryClass_some _ _
      | exact Jarvis.Workflows.retryClass_always
      | exact Jarvis.Workflows.retryClass_onResult
      | exact Jarvis.Workflows.retryClass_onFailure
      | exact Jarvis.Workflows.retryClass_iterate
  iterate_bound : kind = .iterate → iterationKey.any (· ≠ "") ∧ progressPath.isSome ∧ maxIterations.isSome := by
    first
      | exact Jarvis.Workflows.unbounded_always
      | exact Jarvis.Workflows.unbounded_onResult
      | exact Jarvis.Workflows.unbounded_onFailure
      | exact Jarvis.Workflows.unbounded_retry
      | (intro h; first | exact ⟨rfl, rfl, rfl⟩ | cases h)

inductive SpecVersion where
  | v1_0
  | v1_1
  deriving DecidableEq, Repr

inductive ReducerKind where
  | mergeById
  | setUnion
  | maxMap
  deriving DecidableEq, Repr

/-- `default_reducers`. -/
def defaultReducers : List (String × ReducerKind) :=
  [("results", .mergeById), ("child_results", .mergeById), ("expected_children", .setUnion),
    ("completed_children", .setUnion), ("counters", .maxMap)]

/-- `WorkflowSpec`, with `validate_references` as its last four fields. -/
structure WorkflowSpec where
  specVersion : SpecVersion := .v1_1
  reducers : List (String × ReducerKind) := defaultReducers
  entrypoint : String
  defaults : NodePolicy := {}
  nodes : List WorkflowNode
  edges : List WorkflowEdge
  node_ids : (nodes.map (·.id)).Nodup
  edge_ids : (edges.map (·.id)).Nodup
  entrypoint_mem : entrypoint ∈ nodes.map (·.id)
  endpoints_mem : ∀ edge ∈ edges, edge.source ∈ nodes.map (·.id) ∧ edge.target ∈ nodes.map (·.id)

namespace WorkflowSpec

def nodeIds (spec : WorkflowSpec) : List String := spec.nodes.map (·.id)

/-- `nodes.get(id)`. -/
def node? (spec : WorkflowSpec) (id : String) : Option WorkflowNode := spec.nodes.find? fun node => node.id = id

/-- `[edge for edge in spec.edges if edge.source == id]`. -/
def outgoing (spec : WorkflowSpec) (id : String) : List WorkflowEdge := spec.edges.filter fun edge => edge.source = id

/-- `_adjacency(spec.edges).get(id, ())`. -/
def adjacency (spec : WorkflowSpec) (id : String) : List String := (spec.outgoing id).map (·.target)

theorem node?_eq_some {spec : WorkflowSpec} {id : String} {node : WorkflowNode} :
    spec.node? id = some node ↔ node ∈ spec.nodes ∧ node.id = id := find?_key spec.node_ids

theorem node?_of_mem {spec : WorkflowSpec} {node : WorkflowNode} (h : node ∈ spec.nodes) : spec.node? node.id = some node :=
  node?_eq_some.mpr ⟨h, rfl⟩

theorem exists_node {spec : WorkflowSpec} {id : String} (h : id ∈ spec.nodeIds) : ∃ node, spec.node? id = some node := by
  obtain ⟨node, hmem, hid⟩ := List.mem_map.mp h
  exact ⟨node, node?_eq_some.mpr ⟨hmem, hid⟩⟩

@[simp]
theorem mem_adjacency {spec : WorkflowSpec} {a b : String} :
    b ∈ spec.adjacency a ↔ ∃ edge ∈ spec.edges, edge.source = a ∧ edge.target = b := by
  simp only [adjacency, outgoing, List.mem_map, List.mem_filter, decide_eq_true_eq]
  exact ⟨fun ⟨e, ⟨h, hs⟩, ht⟩ => ⟨e, h, hs, ht⟩, fun ⟨e, h, hs, ht⟩ => ⟨e, ⟨h, hs⟩, ht⟩⟩

theorem adjacency_subset (spec : WorkflowSpec) (id : String) : spec.adjacency id ⊆ spec.nodeIds := by
  intro target h
  obtain ⟨edge, hmem, -, rfl⟩ := mem_adjacency.mp h
  exact (spec.endpoints_mem edge hmem).2

end WorkflowSpec

/-- The workflow of one worker, then the end. -/
def oneWorker (defaults : NodePolicy) : WorkflowSpec where
  entrypoint := "build"
  defaults := defaults
  nodes := [{ id := "build", config := .worker }, { id := "done", config := .finalize .derive }]
  edges := [{ id := "built", source := "build", target := "done", kind := .always }]
  node_ids := by decide
  edge_ids := by decide
  entrypoint_mem := by decide
  endpoints_mem := by decide

/-! ## The resolved snapshot -/

inductive ConfigurationKind where
  | agentRole
  | teamTemplate
  | worker
  | providerConnection
  | modelProfile
  | routePolicy
  | retryPolicy
  | permissionPolicy
  | executionProfile
  | workerPool
  deriving DecidableEq, Repr

inductive ExhaustionAction where
  | fail
  | block
  | approval
  deriving DecidableEq, Repr

structure RetryRule where
  failureClass : FailureClass
  maxRetries : Nat
  exhaustionAction : ExhaustionAction
  deriving DecidableEq

/-- `RetryRegistrySpec`, with `unique_classes`. -/
structure RetryRegistrySpec where
  rules : List RetryRule
  unique_classes : (rules.map (·.failureClass)).Nodup

inductive PermissionDecision where
  | allow
  | deny
  | requireApproval
  deriving DecidableEq, Repr

structure PermissionPolicySpec where
  allowedCapabilities : List String
  deniedCapabilities : List String
  approvalRequiredActions : List String
  shell : PermissionDecision
  git : PermissionDecision

structure RoutePolicySpec where
  candidates : List RevisionId
  requiredCapabilities : List String
  purposes : List String

inductive Locality where
  | localHost
  | localLan
  | remote
  deriving DecidableEq, Repr

structure ModelProfileSpec where
  providerRevisionId : RevisionId
  purposes : List String
  capabilities : List String
  structuredJson : Bool
  toolCalls : Bool
  streaming : Bool
  locality : Locality
  parameters : List String

inductive ProviderKind where
  | openai
  | ollama
  | demo
  deriving DecidableEq, Repr

structure ProviderSpec where
  providerKind : ProviderKind
  locality : Locality
  retryPolicyRevisionId : Option RevisionId

inductive BindingMode where
  | none
  | controlPlane
  | workerManaged
  deriving DecidableEq, Repr

inductive AdapterKind where
  | demo
  | openhandsSshV1
  deriving DecidableEq, Repr

structure WorkerSpec where
  adapterKind : AdapterKind
  capabilities : List String
  maxConcurrency : Nat
  bindingMode : BindingMode
  allowedProfileRevisionIds : List RevisionId

structure ExecutionProfileSpec where
  supportedCommands : List String

/-- `RegistrySpec`. -/
inductive RegistrySpec where
  | agentRole
  | teamTemplate
  | worker (spec : WorkerSpec)
  | provider (spec : ProviderSpec)
  | modelProfile (spec : ModelProfileSpec)
  | routePolicy (spec : RoutePolicySpec)
  | retryPolicy (spec : RetryRegistrySpec)
  | permissionPolicy (spec : PermissionPolicySpec)
  | executionProfile (spec : ExecutionProfileSpec)
  | workerPool

def RegistrySpec.kind : RegistrySpec → ConfigurationKind
  | .agentRole => .agentRole
  | .teamTemplate => .teamTemplate
  | .worker _ => .worker
  | .provider _ => .providerConnection
  | .modelProfile _ => .modelProfile
  | .routePolicy _ => .routePolicy
  | .retryPolicy _ => .retryPolicy
  | .permissionPolicy _ => .permissionPolicy
  | .executionProfile _ => .executionProfile
  | .workerPool => .workerPool

structure WorkflowResolvedRevision where
  revisionId : RevisionId
  key : String
  revision : Nat
  displayName : String
  description : String
  enabled : Bool
  archived : Bool
  spec : RegistrySpec
  contentHash : String

structure WorkflowResolvedSnapshot where
  workflowContentHash : String
  compilerVersion : String
  revisions : List WorkflowResolvedRevision

/-- `revisions.get(id)` for `revisions = {r.revision_id: r for r in snapshot.revisions}`: the
    last revision with the identifier. -/
def WorkflowResolvedSnapshot.revision? (snapshot : WorkflowResolvedSnapshot) (id : RevisionId) :
    Option WorkflowResolvedRevision :=
  snapshot.revisions.reverse.find? fun revision => revision.revisionId = id

end Jarvis.Workflows
