/-
  Jarvis.Registry.Contracts — the registry's specifications, rows, requests and answers
  (`jarvis_contracts.registry`, the registry's tables), and what of them is hashed or checked as text.

  What no function of the registry reads of a specification is its `rest`. Identifiers are numbers; times
  and revisions from before the typed schema are left out. A locator is not empty (its pattern), so it is
  set where there is one.
-/
import Jarvis.Lib.Once
import Jarvis.Providers.RoutePolicies
import Jarvis.Workflows.Publication

namespace Jarvis.Registry

open Workflows (RevisionId ConfigurationKind)
open Workflows.Documents (Problem Tools)
open Providers (HealthStatus CircuitState SecretStatus)

/-! ## Specifications -/

inductive Responsibility where
  | manager
  | developer
  | reviewer
  | specialist
  deriving DecidableEq, Repr

structure AgentRoleSpec where
  responsibility : Responsibility

inductive TeamMode where
  | demo
  | real
  deriving DecidableEq, Repr

structure TeamMemberSpec where
  roleRevisionId : RevisionId
  modelRouteRevisionId : RevisionId
  workerPoolRevisionIds : List RevisionId
  permissionPolicyRevisionId : RevisionId

structure TeamTemplateSpec where
  mode : TeamMode
  managerRoleRevisionId : RevisionId
  managerProfileRevisionId : RevisionId
  developerRoleRevisionId : RevisionId
  developerWorkerRevisionId : RevisionId
  reviewerRoleRevisionId : RevisionId
  reviewerProfileRevisionId : RevisionId
  workflowVersionId : Nat
  members : List TeamMemberSpec := []

structure WorkerPoolSpec where
  workerRevisionIds : List RevisionId
  requiredCapabilities : List String := []

structure WorkerSpec extends Workflows.WorkerSpec where
  executionHostLabel : String := "Local demo"
  deploymentConfigured : Bool := false

structure ProviderSpec extends Workflows.ProviderSpec where
  baseUrl : Option String := none

structure ModelProfileSpec extends Workflows.ModelProfileSpec where
  contextLimit : Nat

structure RoutePolicySpec extends Workflows.RoutePolicySpec where
  allowRemote : Bool := false

/-- `RegistrySpec`. -/
inductive RegistrySpec where
  | agentRole (spec : AgentRoleSpec)
  | teamTemplate (spec : TeamTemplateSpec)
  | worker (spec : WorkerSpec)
  | provider (spec : ProviderSpec)
  | modelProfile (spec : ModelProfileSpec)
  | routePolicy (spec : RoutePolicySpec)
  | retryPolicy (spec : Workflows.RetryRegistrySpec)
  | permissionPolicy (spec : Workflows.PermissionPolicySpec)
  | executionProfile (spec : Workflows.ExecutionProfileSpec)
  | workerPool (spec : WorkerPoolSpec)

namespace RegistrySpec

def kind : RegistrySpec → ConfigurationKind
  | .agentRole _ => .agentRole
  | .teamTemplate _ => .teamTemplate
  | .worker _ => .worker
  | .provider _ => .providerConnection
  | .modelProfile _ => .modelProfile
  | .routePolicy _ => .routePolicy
  | .retryPolicy _ => .retryPolicy
  | .permissionPolicy _ => .permissionPolicy
  | .executionProfile _ => .executionProfile
  | .workerPool _ => .workerPool

/-! `isinstance`. -/

def role? : RegistrySpec → Option AgentRoleSpec
  | .agentRole spec => some spec
  | _ => none

def worker? : RegistrySpec → Option WorkerSpec
  | .worker spec => some spec
  | _ => none

def provider? : RegistrySpec → Option ProviderSpec
  | .provider spec => some spec
  | _ => none

def profile? : RegistrySpec → Option ModelProfileSpec
  | .modelProfile spec => some spec
  | _ => none

end RegistrySpec

/-! ## Rows -/

/-- `ConfigurationModel`. -/
structure Configuration where
  id : Nat
  kind : ConfigurationKind
  key : String
  displayName : String := ""
  description : String := ""
  enabled : Bool := true
  archived : Bool := false
  version : Nat := 0
  currentRevision : Option RevisionId := none

/-- `spec_json` of a revision. -/
structure Envelope where
  spec : RegistrySpec
  rest : Json
  displayName : String
  description : String
  enabled : Bool
  archived : Bool

/-- `ConfigurationRevisionModel`. -/
structure Revision where
  id : RevisionId
  configuration : Nat
  revision : Nat
  envelope : Envelope
  contentHash : String
  createdBy : Nat

/-- `ConfigurationPrivateRefModel`. -/
structure PrivateRef where
  revision : RevisionId
  secretRef : Option String
  deploymentRef : Option String

/-- `ProviderHealthModel`. -/
structure ProviderHealth where
  revision : RevisionId
  status : HealthStatus
  circuitState : CircuitState := .closed

/-! ## Requests and answers -/

/-- `RegistryWrite`. -/
structure RegistryWrite where
  key : String
  displayName : String
  description : String := ""
  enabled : Bool := true
  archived : Bool := false
  expectedVersion : Nat := 0
  idempotencyKey : String
  spec : RegistrySpec
  rest : Json := .obj []
  secretRef : Option String := none
  deploymentRef : Option String := none
  clearSecret : Bool := false

/-- What is observed of a worker's slots and its last validation. -/
structure WorkerRuntimeFacts where
  slotsInUse : Nat
  lastHeartbeatAt : Option Nat
  possiblyStalled : Bool
  validatedAt : Option Nat
  validationIssues : List String

/-- `WorkerHealthModel`. -/
structure WorkerHealth where
  status : HealthStatus
  issues : List String
  observedAt : Nat

structure Outside where
  allowedEndpoints : List String
  publishedWorkflows : List Nat
  workerHealth : RevisionId → Option WorkerHealth
  /-- The leases that are held, the last heartbeat and whether one is stalled, of a worker. -/
  slots : Nat → Nat × Option Nat × Bool

structure RegistryRecord where
  id : Nat
  revisionId : RevisionId
  revision : Nat
  version : Nat
  key : String
  displayName : String
  description : String
  enabled : Bool
  archived : Bool
  spec : RegistrySpec
  rest : Json
  contentHash : String
  createdBy : Nat
  secretStatus : SecretStatus
  secretLabel : Option String
  health : HealthStatus
  circuitState : CircuitState
  workerRuntime : Option WorkerRuntimeFacts

structure ValidationReport where
  valid : Bool
  health : HealthStatus
  issues : List String
  networkChecked : Bool
  demo : Bool

inductive Response where
  | record (record : RegistryRecord)
  | report (report : ValidationReport)

/-- `registry:{actor}:{kind}:{configuration or 'create'}` and `validate:{actor}:{identity}`, with the key. -/
inductive Scope where
  | write (actor : Nat) (kind : ConfigurationKind) (configuration : Option Nat) (key : String)
  | validate (actor : Nat) (configuration : Nat) (key : String)
  deriving DecidableEq

structure Store where
  configurations : List Configuration
  revisions : List Revision
  privateRefs : List PrivateRef
  providerHealth : List ProviderHealth
  idempotency : List (Once.Entry Scope String Response)
  /-- How many identities were drawn. -/
  issued : Nat

def Store.empty : Store := ⟨[], [], [], [], [], 0⟩

/-- What a request raises: a problem, or an assertion that failed. -/
inductive Raised where
  | problem (problem : Problem)
  | assertion
  deriving DecidableEq

/-- `_problem`. -/
def raise {α : Type} (status : Nat) (code message : String) : Except Raised α :=
  .error (.problem { status, code := "registry." ++ code, message })

def require (condition : Bool) (status : Nat) (code message : String) : Except Raised Unit :=
  if condition then .ok () else raise status code message

def some? {α : Type} (value : Option α) (status : Nat) (code message : String) : Except Raised α :=
  match value with
  | some value => .ok value
  | none => raise status code message

def asserted {α : Type} : Option α → Except Raised α
  | some value => .ok value
  | none => .error .assertion

/-! ## What the service is set up with -/

structure Service where
  tools : Tools
  /-- `model_dump(mode="json")` of a specification. -/
  dump : RegistrySpec → Json → Json
  /-- `\w` and `\d`. -/
  word : Char → Bool
  digit : Char → Bool
  uuid7 : Nat → Nat
  uuid7_injective : Function.Injective uuid7

variable (svc : Service)

/-! ### The label of a worker's host -/

/-- `[a-z]`, whatever the case: these are the letters that Unicode folds to one. -/
def letter (c : Char) : Bool := c.isAlpha || c ∈ ['\u0130', '\u0131', '\u017f', '\u212a']

/-- `\b` after a word's character. -/
def boundary (rest : List Char) : Bool := rest.head?.all fun c => !svc.word c

/-- `\d{1,3}(?:\.\d{1,3}){n}\b`, at the start. -/
def addressAt : Nat → List Char → Bool
  | n, chars =>
    let digits := chars.takeWhile svc.digit
    let rest := chars.dropWhile svc.digit
    digits ≠ [] && digits.length ≤ 3 &&
      match n, rest with
      | 0, rest => boundary svc rest
      | n + 1, '.' :: rest => addressAt n rest
      | _ + 1, _ => false

/-- `\b\d{1,3}(?:\.\d{1,3}){3}\b`, after `before`. -/
def hasAddress : Option Char → List Char → Bool
  | _, [] => false
  | before, c :: rest => (before.all (fun b => !svc.word b) && addressAt svc 3 (c :: rest)) || hasAddress (some c) rest

/-- `[a-z0-9-]+\.[a-z]{2,}\b`, after `before`. -/
def hasDomain : Option Char → List Char → Bool
  | _, [] => false
  | before, c :: rest =>
    (c == '.' && before.any (fun b => letter b || b.isDigit || b == '-') && 2 ≤ (rest.takeWhile letter).length &&
      boundary svc (rest.dropWhile letter)) || hasDomain (some c) rest

/-- The `re.search` of `write`: the label names a host. -/
def namesHost (label : String) : Bool :=
  label.toList.any (fun c => c ∈ ['/', '\\', '@', ':']) || hasAddress svc none label.toList || hasDomain svc none label.toList

/-! ### Digests and dumps -/

def Envelope.dump (envelope : Envelope) : Json := .obj [
  ("spec", svc.dump envelope.spec envelope.rest), ("display_name", .str envelope.displayName),
  ("description", .str envelope.description), ("enabled", .bool envelope.enabled), ("archived", .bool envelope.archived)]

def kindName : ConfigurationKind → String
  | .agentRole => "agent_role"
  | .teamTemplate => "team_template"
  | .worker => "worker"
  | .providerConnection => "provider_connection"
  | .modelProfile => "model_profile"
  | .routePolicy => "route_policy"
  | .retryPolicy => "retry_policy"
  | .permissionPolicy => "permission_policy"
  | .executionProfile => "execution_profile"
  | .workerPool => "worker_pool"

/-- What the content hash of a revision covers. -/
def payload (kind : ConfigurationKind) (key : String) (revision : Nat) (envelope : Envelope) : Json := .obj [
  ("kind", .str (kindName kind)), ("key", .str key), ("revision", .int revision), ("schema_version", .str "1.0"),
  ("spec", envelope.dump svc)]

def RegistryWrite.publicMembers (body : RegistryWrite) : List (String × Json) := [
  ("key", .str body.key), ("display_name", .str body.displayName), ("description", .str body.description),
  ("enabled", .bool body.enabled), ("archived", .bool body.archived), ("expected_version", .int body.expectedVersion),
  ("idempotency_key", .str body.idempotencyKey), ("spec", svc.dump body.spec body.rest), ("clear_secret", .bool body.clearSecret)]

def locator (ref : Option String) : Json := (ref.map Json.str).getD .null

/-- `body.model_dump(mode="json")`. -/
def RegistryWrite.dump (body : RegistryWrite) : Json :=
  .obj (body.publicMembers svc ++ [("secret_ref", locator body.secretRef), ("deployment_ref", locator body.deploymentRef)])

mutual

/-- `_safe_strings`: what it finds first. -/
def unsafeText (tools : Tools) : Json → Option String
  | .scalar (.str s) => if tools.credential s then some "Credential-like configuration input is rejected" else none
  | .scalar _ => none
  | .list items => unsafeItem tools items
  | .obj members => unsafeMember tools members

def unsafeItem (tools : Tools) : List Json → Option String
  | [] => none
  | item :: items => (unsafeText tools item).or (unsafeItem tools items)

def unsafeMember (tools : Tools) : List (String × Json) → Option String
  | [] => none
  | (key, item) :: members =>
    if key != "clear_secret" && tools.credentialKey key then some "Credential-like field names are rejected"
    else if tools.credential key then some "Credential-like configuration input is rejected"
    else (unsafeText tools item).or (unsafeMember tools members)

end

def safe (value : Json) : Except Raised Unit :=
  match unsafeText svc.tools value with
  | some message => raise 422 "unsafe_input" message
  | none => .ok ()

end Jarvis.Registry
