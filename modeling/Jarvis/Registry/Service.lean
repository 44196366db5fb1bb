/-
  Jarvis.Registry.Service — `RegistryService`: configurations and their revisions.

  A write takes the registry's lock for its whole transaction, so requests come one after another and
  one that raises leaves nothing behind. A specification is read back as the one that was stored. Audit
  events are left out.
-/
import Jarvis.Lib.Keyed
import Jarvis.Registry.Contracts

namespace Jarvis.Registry

open Workflows (RevisionId ConfigurationKind profileCapabilities allowedParameters)
open Providers (SecretStatus)

variable (svc : Service) (o : Outside) (s : Store)

/-! ## Reading -/

def Store.revision? (id : RevisionId) : Option Revision := s.revisions.find? fun revision => revision.id = id

def Store.configuration? (id : Nat) : Option Configuration := s.configurations.find? fun row => row.id = id

def Store.privateRef? (id : RevisionId) : Option PrivateRef := s.privateRefs.find? fun ref => ref.revision = id

def Store.providerHealth? (id : RevisionId) : Option ProviderHealth := s.providerHealth.find? fun health => health.revision = id

/-- `_identity`. -/
def identity (kind : ConfigurationKind) (id : Nat) : Except Raised Configuration :=
  some? ((s.configuration? id).filter fun row => row.kind = kind) 404 "not_found" "Configuration was not found"

def secretStatus (ref : Option PrivateRef) (spec : RegistrySpec) : SecretStatus :=
  match spec.provider? with
  | some provider =>
    if ref.any fun ref => ref.secretRef.isSome then .configured else if provider.providerKind = .openai then .missing else .notRequired
  | none => .notRequired

def workerRuntime (configuration : Nat) (health : Option WorkerHealth) : WorkerRuntimeFacts where
  slotsInUse := (o.slots configuration).1
  lastHeartbeatAt := (o.slots configuration).2.1
  possiblyStalled := (o.slots configuration).2.2
  validatedAt := health.map (·.observedAt)
  validationIssues := (health.map (·.issues)).getD []

/-- `_record`. -/
def record (row : Configuration) (revision : Revision) : RegistryRecord :=
  let spec := revision.envelope.spec
  let status := secretStatus (s.privateRef? revision.id) spec
  let workerHealth := spec.worker?.bind fun _ => o.workerHealth revision.id
  let health := s.providerHealth? revision.id
  { id := row.id, revisionId := revision.id, revision := revision.revision, version := revision.revision, key := row.key,
    displayName := revision.envelope.displayName, description := revision.envelope.description, enabled := revision.envelope.enabled,
    archived := revision.envelope.archived, spec, rest := revision.envelope.rest, contentHash := revision.contentHash,
    createdBy := revision.createdBy, secretStatus := status,
    secretLabel := if status = .configured then some "Server-managed credential" else none,
    health := (workerHealth.map (·.status)).getD ((health.map (·.status)).getD .unknown),
    circuitState := (health.map (·.circuitState)).getD .closed,
    workerRuntime := spec.worker?.map fun _ => workerRuntime o row.id workerHealth }

/-- The revision of an identity, with its configuration. -/
def Store.owned? (id : RevisionId) : Option (Configuration × Revision) :=
  (s.revision? id).bind fun revision => (s.configuration? revision.configuration).map fun row => (row, revision)

/-- `_revision`. -/
def revision (id : RevisionId) (kind : Option ConfigurationKind) (active : Bool) : Except Raised RegistryRecord := do
  let found ← some? ((s.owned? id).filter fun found => kind.all fun kind => found.1.kind = kind)
    422 "invalid_reference" "Referenced revision has an incompatible kind"
  let result := record o s found.1 found.2
  require (!(active && (!result.enabled || result.archived || !found.1.enabled || found.1.archived)))
    422 "inactive_reference" "Referenced configuration is disabled or archived"
  return result

/-- `get_revision`. -/
def getRevision (id : RevisionId) : Except Raised RegistryRecord := revision o s id none false

/-- `get`. -/
def get (kind : ConfigurationKind) (id : Nat) : Except Raised RegistryRecord := do
  let row ← identity s kind id
  let current ← some? row.currentRevision 503 "unavailable" "Configuration has no current revision"
  revision o s current none false

/-! ## What a specification has to fit -/

/-- The specification of `_revision(id, kind, active=True)`. -/
def reference (kind : ConfigurationKind) (id : RevisionId) : Except Raised RegistrySpec := do
  let record ← revision o s id (some kind) true
  return record.spec

/-- `_revision(id, kind, active=True)`, for what it raises. -/
def refer (kind : ConfigurationKind) (id : RevisionId) : Except Raised Unit := do
  let _ ← reference o s kind id

/-- `_compatible` of a model profile. -/
def compatibleProfile (spec : ModelProfileSpec) : Except Raised Unit := do
  let found ← reference o s .providerConnection spec.providerRevisionId
  let provider ← asserted found.provider?
  require (spec.parameters.all fun name => name ∈ allowedParameters provider.providerKind)
    422 "incompatible_parameters" "Model parameters are not supported by the configured provider"
  require (provider.locality = spec.locality) 422 "incompatible_locality" "Model and provider locality must agree"

/-- A role of a team. -/
def teamRole (message : String) (fits : AgentRoleSpec → Bool) (id : RevisionId) : Except Raised Unit := do
  let found ← reference o s .agentRole id
  require (found.role?.any fits) 422 "incompatible_role" message

/-- A model profile of a team, with its provider. -/
def teamProfile (mode : TeamMode) (purpose : String) (id : RevisionId) : Except Raised Unit := do
  let found ← reference o s .modelProfile id
  let profile ← some? (found.profile?.filter fun profile =>
      purpose ∈ profile.purposes && profile.structuredJson && 16384 ≤ profile.contextLimit)
    422 "incompatible_profile" "Team profile purpose mismatch"
  compatibleProfile o s profile
  let found ← reference o s .providerConnection profile.providerRevisionId
  let provider ← asserted found.provider?
  require ((provider.providerKind = .demo) = (mode = .demo)) 422 "mode_mismatch" "Team provider mode mismatch"

/-- The worker of a team. -/
def teamWorker (mode : TeamMode) (id : RevisionId) : Except Raised Unit := do
  let found ← reference o s .worker id
  let worker ← some? found.worker? 422 "incompatible_worker" "Team worker is invalid"
  require ((worker.adapterKind = .demo) = (mode = .demo)) 422 "mode_mismatch" "Team worker mode mismatch"

def teamMember (member : TeamMemberSpec) : Except Raised Unit := do
  teamRole o s "Team member role is invalid" (fun _ => true) member.roleRevisionId
  refer o s .routePolicy member.modelRouteRevisionId
  refer o s .permissionPolicy member.permissionPolicyRevisionId
  member.workerPoolRevisionIds.forM (refer o s .workerPool)

/-- The roles of a team, with the responsibilities they have to have. -/
def TeamTemplateSpec.roles (spec : TeamTemplateSpec) : List (RevisionId × Responsibility) :=
  [(spec.managerRoleRevisionId, .manager), (spec.developerRoleRevisionId, .developer), (spec.reviewerRoleRevisionId, .reviewer)]

/-- The profiles of a team, with the purposes they have to serve. -/
def TeamTemplateSpec.profiles (spec : TeamTemplateSpec) : List (RevisionId × String) :=
  [(spec.managerProfileRevisionId, "mission_manager"), (spec.reviewerProfileRevisionId, "reviewer")]

/-- `_compatible` of a team template. -/
def compatibleTeam (spec : TeamTemplateSpec) : Except Raised Unit := do
  spec.roles.forM fun role =>
    teamRole o s "Team role responsibility mismatch" (fun found => found.responsibility = role.2) role.1
  spec.profiles.forM fun profile => teamProfile o s spec.mode profile.2 profile.1
  teamWorker o s spec.mode spec.developerWorkerRevisionId
  spec.members.forM (teamMember o s)
  require (spec.workflowVersionId ∈ o.publishedWorkflows) 422 "incompatible_workflow" "Team workflow must be published"

/-- A worker of a pool. -/
def poolWorker (required : List String) (id : RevisionId) : Except Raised Unit := do
  let found ← reference o s .worker id
  let worker ← asserted found.worker?
  require (required.all fun capability => capability ∈ worker.capabilities)
    422 "incompatible_worker" "Worker lacks pool-required capabilities"

/-- `_compatible` of a provider. -/
def compatibleProvider (spec : ProviderSpec) : Except Raised Unit := do
  require (spec.baseUrl.all fun url => url ∈ o.allowedEndpoints)
    422 "endpoint_denied" "Endpoint is not in the server-managed allowlist"
  spec.retryPolicyRevisionId.toList.forM (refer o s .retryPolicy)

/-- A model profile of a worker. What `_compatible` would go on with where the specification is no
    profile's is taken as a failed assertion. -/
def workerProfile (id : RevisionId) : Except Raised Unit := do
  let found ← reference o s .modelProfile id
  let profile ← asserted found.profile?
  compatibleProfile o s profile

/-- A candidate of a route. -/
def routeCandidate (spec : RoutePolicySpec) (id : RevisionId) : Except Raised Unit := do
  let found ← reference o s .modelProfile id
  let profile ← asserted found.profile?
  compatibleProfile o s profile
  require (spec.requiredCapabilities.all (fun capability => capability ∈ profileCapabilities profile.toModelProfileSpec) &&
      spec.purposes.all fun purpose => purpose ∈ profile.purposes)
    422 "incompatible_profile" "Candidate lacks route capabilities or purposes"
  let found ← reference o s .providerConnection profile.providerRevisionId
  let _ ← asserted found.provider?
  require (!(profile.locality = .remote && !spec.allowRemote))
    422 "incompatible_egress" "Remote candidate requires explicit route permission"

/-- `_compatible`. -/
def compatible : RegistrySpec → Except Raised Unit
  | .teamTemplate spec => compatibleTeam o s spec
  | .workerPool spec => spec.workerRevisionIds.forM (poolWorker o s spec.requiredCapabilities)
  | .provider spec => compatibleProvider o s spec
  | .modelProfile spec => compatibleProfile o s spec
  | .worker spec => spec.allowedProfileRevisionIds.forM (workerProfile o s)
  | .routePolicy spec => spec.candidates.forM (routeCandidate o s spec)
  | _ => .ok ()

/-! ## Writing -/

def RegistrySpec.demoProvider (spec : RegistrySpec) : Bool := spec.provider?.any fun provider => provider.providerKind = .demo

def RegistrySpec.demoWorker (spec : RegistrySpec) : Bool := spec.worker?.any fun worker => worker.adapterKind = .demo

/-- The checks of a write before its transaction. -/
def admissible (kind : ConfigurationKind) (body : RegistryWrite) : Except Raised Unit := do
  require (body.spec.kind = kind) 422 "kind_mismatch" "Configuration kind does not match the route"
  safe svc (.obj (body.publicMembers svc))
  require (!(body.secretRef.isSome && (body.spec.provider?.isNone || body.spec.demoProvider)))
    422 "invalid_secret" "This configuration cannot use a credential"
  require (!(body.clearSecret && body.secretRef.isSome)) 422 "invalid_secret" "Credential update is ambiguous"
  require (!(body.deploymentRef.isSome && (body.spec.worker?.isNone || body.spec.demoWorker)))
    422 "invalid_deployment" "This configuration cannot use a deployment locator"
  safe svc (locator body.secretRef)
  safe svc (locator body.deploymentRef)

/-- The configuration that is written, the private row of its current revision and the identities drawn. -/
structure Target where
  row : Configuration
  previous : Option PrivateRef := none
  issued : Nat

def target (kind : ConfigurationKind) (body : RegistryWrite) : Option Nat → Except Raised Target
  | none => do
    require (body.expectedVersion = 0) 409 "version_conflict" "New configurations require version zero"
    require (s.configurations.all fun row => !(row.kind = kind && row.key = body.key))
      409 "duplicate_key" "Configuration key is already in use"
    return { row := { id := svc.uuid7 s.issued, kind, key := body.key }, issued := s.issued + 1 }
  | some id => do
    let row ← identity s kind id
    require (body.key = row.key) 422 "immutable_key" "Configuration keys are immutable"
    require (row.version = body.expectedVersion) 409 "version_conflict" "Configuration has changed; reload before saving"
    return { row, previous := row.currentRevision.bind s.privateRef?, issued := s.issued }

section Target

variable (found : Target) (body : RegistryWrite)

/-- The identity of the new revision. -/
def Target.id : RevisionId := svc.uuid7 found.issued

/-- The private row of the new revision. -/
def Target.ref : PrivateRef where
  revision := found.id svc
  secretRef := if body.clearSecret then none else body.secretRef.or (found.previous.bind (·.secretRef))
  deploymentRef := if body.spec.demoWorker then none else body.deploymentRef.or (found.previous.bind (·.deploymentRef))

/-- The specification that is stored. -/
def storedSpec (deployment : Option String) : RegistrySpec → RegistrySpec
  | .worker spec => .worker { spec with
      deploymentConfigured := deployment.isSome,
      executionHostLabel := if namesHost svc spec.executionHostLabel then "Server-managed execution host" else spec.executionHostLabel }
  | spec => spec

def Target.envelope : Envelope where
  spec := storedSpec svc (found.ref svc body).deploymentRef body.spec
  rest := body.rest
  displayName := body.displayName
  description := body.description
  enabled := body.enabled
  archived := body.archived

def Target.revision (actor : Nat) : Revision where
  id := found.id svc
  configuration := found.row.id
  revision := found.row.version + 1
  envelope := found.envelope svc body
  contentHash := svc.tools.sha256 (payload svc found.row.kind found.row.key (found.row.version + 1) (found.envelope svc body))
  createdBy := actor

/-- The configuration as it is written. -/
def Target.written : Configuration :=
  { found.row with
    displayName := body.displayName, description := body.description, enabled := body.enabled, archived := body.archived,
    version := found.row.version + 1, currentRevision := some (found.id svc) }

end Target

/-- The tables with a new revision; a configuration that is new is added. -/
def revise (found : Target) (body : RegistryWrite) (actor : Nat) (configuration : Option Nat) : Store :=
  let row := found.written svc body
  { s with
    configurations :=
      if configuration.isSome then Keyed.replace Configuration.id row.id (fun _ => row) s.configurations else s.configurations ++ [row],
    revisions := s.revisions ++ [found.revision svc body actor],
    privateRefs := s.privateRefs ++ [found.ref svc body],
    issued := found.issued + 1 }

/-- The body of `write` where the request is fresh. -/
def writeFresh (kind : ConfigurationKind) (body : RegistryWrite) (actor : Nat) (configuration : Option Nat) :
    Except Raised (Response × Store) := do
  compatible o s body.spec
  let found ← target svc s kind body configuration
  require (!(body.spec.demoProvider && (found.ref svc body).secretRef.isSome))
    422 "invalid_secret" "Clear the credential before selecting DEMO"
  let t := revise svc s found body actor configuration
  return (.record (record o t (found.written svc body) (found.revision svc body actor)), t)

def records : Once.Table Store Scope String Response where
  entries := Store.idempotency
  record s entry := { s with idempotency := s.idempotency ++ [entry] }
  entries_record _ _ := rfl

def idempotencyConflict (message : String) : Raised :=
  .problem { status := 409, code := "registry.idempotency_conflict", message }

/-- `write`. -/
def write (kind : ConfigurationKind) (body : RegistryWrite) (actor : Nat) (configuration : Option Nat) : Except Raised (Response × Store) := do
  admissible svc kind body
  Once.serve records s (.write actor kind configuration body.idempotencyKey) (svc.tools.sha256 (body.dump svc))
    (idempotencyConflict "Idempotency key was reused with changed input") (writeFresh svc o s kind body actor configuration)

/-! ## Validating -/

def issue (found : Bool) (text : String) : List String := if found then [text] else []

def raises {α : Type} : Except Raised α → Bool
  | .ok _ => false
  | .error _ => true

/-- The issues of a configuration's current revision. -/
def validationIssues (found : RegistryRecord) : List String :=
  issue (raises (compatible o s found.spec)) "Configuration references or endpoint policy require attention" ++
    issue (found.secretStatus = .missing) "A server-managed credential reference is required" ++
    issue (found.spec.worker?.any fun worker => worker.adapterKind ≠ .demo && !worker.deploymentConfigured)
      "A server-managed deployment reference is required" ++
    issue (!found.enabled || found.archived) "Configuration is disabled or archived"

def report (found : RegistryRecord) : ValidationReport :=
  let issues := validationIssues o s found
  { valid := issues.isEmpty, health := if issues.isEmpty then .unknown else .misconfigured, issues, networkChecked := false,
    demo := found.spec.demoProvider }

/-- The health of a provider's revision, written or added. -/
def observed (id : RevisionId) (change : ProviderHealth → ProviderHealth) (rows : List ProviderHealth) : List ProviderHealth :=
  if rows.any fun health => health.revision = id then Keyed.replace ProviderHealth.revision id change rows
  else rows ++ [change { revision := id, status := .unknown }]

/-- The body of `validate` where the request is fresh. -/
def validateFresh (current : RevisionId) : Except Raised (Response × Store) := do
  let found ← revision o s current none false
  let result := report o s found
  let health := fun row : ProviderHealth => { row with status := result.health }
  return (.report result,
    if found.spec.provider?.isSome then { s with providerHealth := observed found.revisionId health s.providerHealth } else s)

/-- `validate`. -/
def validate (kind : ConfigurationKind) (id : Nat) (idempotencyKey : String) (actor : Nat) : Except Raised (Response × Store) := do
  safe svc (.str idempotencyKey)
  let row ← identity s kind id
  let current ← some? row.currentRevision 503 "unavailable" "Configuration has no current revision"
  Once.serve records s (.validate actor id idempotencyKey) (svc.tools.sha256 (.obj [("id", .int id)]))
    (idempotencyConflict "Idempotency key conflicts") (validateFresh o s current)

/-! ## Requests -/

inductive Call where
  | write (kind : ConfigurationKind) (body : RegistryWrite) (actor : Nat) (configuration : Option Nat)
  | validate (kind : ConfigurationKind) (configuration : Nat) (idempotencyKey : String) (actor : Nat)

/-- A request. -/
def handle : Call → Except Raised (Response × Store)
  | .write kind body actor configuration => write svc o s kind body actor configuration
  | .validate kind configuration idempotencyKey actor => validate svc o s kind configuration idempotencyKey actor

end Jarvis.Registry
