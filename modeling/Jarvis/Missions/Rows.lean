/-
  Jarvis.Missions.Rows — the rows of missions, their work items, turns, wakeups and resource
  ledger (`jarvis_persistence.models`, `jarvis_contracts.missions`).

  Times are clock readings in seconds. Identities drawn fresh (`uuid7`) are numbers; those
  derived with `uuid5` are constructors over what they are derived from.
-/
import Mathlib.Data.Fintype.Defs
import Jarvis.Lib.Decimal
import Jarvis.Runtime.Rows

namespace Jarvis.Missions

open Jarvis.Runtime (RunStatus DesiredState Mode)

/-- `MissionLifecycle`. -/
inductive MissionLifecycle where
  | active
  | idle
  | waitingForCapacity
  | waitingForApproval
  | blocked
  | paused
  | cancelling
  | cancelled
  | completed
  | archived
  deriving DecidableEq, Repr

/-- `WorkItemLifecycle`. -/
inductive WorkItemLifecycle where
  | pending
  | ready
  | started
  | accepted
  | blocked
  | cancelled
  deriving DecidableEq, Repr

/-- `RunModel.id`: the assignment of a work item derives its run, anything else draws a fresh one. -/
inductive RunId where
  | fresh (n : Nat)
  | assignment (item : Nat)
  deriving DecidableEq, Repr

/-- `JobModel.id`. -/
inductive JobId where
  | fresh (n : Nat)
  | assignment (item : Nat)
  deriving DecidableEq, Repr

/-- `ManagementTurnModel.id`. -/
inductive TurnId where
  | fresh (n : Nat)
  | wakeup (id : Nat)
  deriving DecidableEq, Repr

/-! ## Resources -/

/-- The amounts of a reservation, an absent one being null. -/
structure Amounts where
  calls : Option Nat := none
  inputTokens : Option Nat := none
  outputTokens : Option Nat := none
  activeJobs : Option Nat := none
  wallSeconds : Option Nat := none
  iterations : Option Nat := none
  newWorkItems : Option Nat := none
  costAmount : Option ℚ≥0 := none
  deriving DecidableEq

structure MissionResourceLimits where
  windowSeconds : Nat := 86400
  maxCalls : Nat := 20
  maxInputTokens : Nat := 500000
  maxOutputTokens : Nat := 100000
  maxActiveJobs : Nat := 1
  maxWallSeconds : Nat := 86400
  maxIterations : Nat := 20
  maxNewWorkItems : Nat := 20
  maxCost : Option ℚ≥0 := none
  currency : String := "USD"
  deriving DecidableEq

/-- `SHARED_RESOURCE_LIMITS`. -/
def sharedResourceLimits : MissionResourceLimits where
  maxCalls := 1000000
  maxInputTokens := 1000000000
  maxOutputTokens := 1000000000
  maxActiveJobs := 128
  maxWallSeconds := 31536000
  maxIterations := 100000
  maxNewWorkItems := 100000

/-- `scope_key`: `global`, `team:{id}` or `mission:{id}`. -/
inductive ScopeKey where
  | global
  | mission (id : Nat)
  | team (id : Nat)
  deriving DecidableEq, Repr

/-- `MissionAdmissionControlModel.state`. -/
inductive ControlState where
  | open
  | paused
  | draining
  | cancelling
  deriving DecidableEq, Repr

structure ControlRow where
  scopeKey : ScopeKey
  state : ControlState := .open
  limits : MissionResourceLimits
  safePointInstruction : Option String := none
  version : Nat := 0
  deriving DecidableEq

/-- `action_id`: `manager:{call}`, `decision:{turn}` or `job:{item}`; a turn has one call. -/
inductive ActionId where
  | manager (turn : TurnId)
  | decision (turn : TurnId)
  | job (item : Nat)
  deriving DecidableEq, Repr

inductive ReservationKind where
  | managerInference
  | newWorkItems
  | jobExecution
  deriving DecidableEq, Repr

inductive ReservationStatus where
  | reserved
  | reconciled
  | unknown
  | released
  deriving DecidableEq, Repr

/-- `MissionResourceReservationModel`, over the identities of actions. -/
structure ReservationRow (α : Type) where
  missionId : Nat
  scopeKey : ScopeKey
  actionId : α
  kind : ReservationKind
  liability : Amounts
  actual : Option Amounts := none
  status : ReservationStatus := .reserved
  currency : String
  priceUnit : String
  windowStartedAt : Nat
  reconciledAt : Option Nat := none
  deriving DecidableEq

/-- `COUNT_FIELDS`. -/
inductive CountField where
  | calls
  | inputTokens
  | outputTokens
  | activeJobs
  | wallSeconds
  | iterations
  | newWorkItems
  deriving DecidableEq, Repr

/-- `MissionBudgetDeniedError`. -/
inductive BudgetDenied where
  | currencyMismatch
  | identityMismatch
  | priceUnitMismatch
  | exceeded (field : CountField)
  | costExceeded
  | reservationMissing
  | paidPricingUnknown
  | teamInferenceCalls
  deriving DecidableEq, Repr

/-- `MissionAdmissionDeniedError`. -/
inductive AdmissionDenied where
  /-- Some scope's control is not open. -/
  | paused (denied : List (ScopeKey × ControlState))
  | mission (lifecycle : MissionLifecycle)
  deriving DecidableEq, Repr

/-! ## Missions -/

structure MissionRow where
  id : Nat
  projectId : Nat
  mode : Mode
  constraints : List String := []
  lifecycle : MissionLifecycle := .active
  autonomous : Bool := false
  waitingReason : Option String := none
  nextAction : Option String := none
  nextActionBasis : Option String := none
  userActionRequired : Option String := none
  resourceLimits : MissionResourceLimits := {}
  directiveVersion : Nat := 1
  selectedTeamVersionId : Nat
  nextMessageSequence : Nat := 0
  version : Nat := 1
  updatedAt : Nat := 0
  deriving DecidableEq

/-- `MissionTeamVersionModel`, with the parts of its selection that the scheduler reads. -/
structure TeamVersionRow where
  id : Nat
  missionId : Nat
  workflowVersionId : Nat
  maxActiveAssignments : Nat
  maxExecutionSeconds : Nat
  maxInferenceCalls : Nat
  deriving DecidableEq, Repr

structure WorkItemRow where
  id : Nat
  missionId : Nat
  key : String
  title : String
  objective : String
  acceptanceCriteria : List String
  priority : Int := 0
  lifecycle : WorkItemLifecycle
  directiveVersion : Nat
  teamVersionId : Nat
  jobId : Option JobId := none
  runId : Option RunId := none
  sourceWakeupId : Option Nat := none
  acceptedEventCursor : Option Nat := none
  version : Nat := 0
  deriving DecidableEq

/-- `MissionWorkItemDependencyModel`. -/
structure DependencyRow where
  workItemId : Nat
  dependsOnWorkItemId : Nat
  deriving DecidableEq, Repr

/-! ## Runs -/

structure JobRow where
  id : JobId
  objective : String
  deriving DecidableEq, Repr

/-- `runtime_json` of a run that the scheduler assigned. -/
structure Assignment where
  missionId : Nat
  workItemId : Nat
  teamVersionId : Nat
  governingDirectiveVersion : Nat
  deriving DecidableEq, Repr

structure RunRow where
  id : RunId
  jobId : JobId
  assignment : Option Assignment := none
  runNumber : Nat := 1
  parentRunId : Option RunId := none
  status : RunStatus := .queued
  desiredState : DesiredState := .running
  startedAt : Option Nat := none
  completedAt : Option Nat := none
  version : Nat := 0
  deriving DecidableEq, Repr

/-- `RunCommandKind`. -/
inductive RunCommandKind where
  | pause
  | resume
  | cancel
  | retry
  | instruction
  deriving DecidableEq, Repr

structure RunCommandRow where
  runId : RunId
  kind : RunCommandKind
  idempotencyKey : String
  instruction : Option String := none
  deriving DecidableEq, Repr

/-! ## Decisions -/

/-- `ManagerAction`. -/
inductive ManagerAction where
  | explain
  | propose
  | clarify
  | wait
  | complete
  deriving DecidableEq, Repr

/-- The lifecycles a decision can ask for. -/
inductive DecisionLifecycle where
  | active
  | idle
  | waitingForApproval
  | blocked
  | completed
  deriving DecidableEq, Repr

def DecisionLifecycle.lifecycle : DecisionLifecycle → MissionLifecycle
  | .active => .active
  | .idle => .idle
  | .waitingForApproval => .waitingForApproval
  | .blocked => .blocked
  | .completed => .completed

structure WorkItemProposal where
  key : String
  title : String
  objective : String
  acceptanceCriteria : List String
  priority : Int := 0
  dependencies : List String := []
  deriving DecidableEq, Repr

/-- `edges[key]`. -/
def dependenciesOf (items : List WorkItemProposal) (key : String) : List String :=
  ((items.find? (·.key = key)).map (·.dependencies)).getD []

/-- `visit`: the visited keys, or nothing where a dependency leads back; `fuel` bounds the depth. -/
def visit (items : List WorkItemProposal) : Nat → List String → List String → String → Option (List String)
  | 0, _, _, _ => none
  | fuel + 1, visiting, visited, key =>
    if key ∈ visiting then none
    else if key ∈ visited then some visited
    else ((dependenciesOf items key).foldlM (visit items fuel (key :: visiting)) visited).map (key :: ·)

def acyclicItems (items : List WorkItemProposal) : Bool :=
  ((items.map (·.key)).foldlM (visit items (items.length + 1) []) []).isSome

/-- `ManagerDecision`, with what `bounded_action` checks. -/
structure ManagerDecision where
  action : ManagerAction
  message : String
  workItems : List WorkItemProposal := []
  lifecycle : DecisionLifecycle := .active
  scheduledWakeupAt : Option Nat := none
  propose_iff : action = .propose ↔ workItems ≠ []
  complete_lifecycle : action = .complete → lifecycle = .completed
  keys_nodup : (workItems.map (·.key)).Nodup
  dependencies_mem : ∀ item ∈ workItems, ∀ dependency ∈ item.dependencies, dependency ∈ workItems.map (·.key)
  acyclic : acyclicItems workItems = true
  deriving DecidableEq

/-! ## Turns -/

/-- `ManagementTurnModel.status`. -/
inductive TurnStatus where
  | queued
  | running
  | applied
  | stale
  | failed
  deriving DecidableEq, Repr

/-- The failure codes of a turn: `failure_code` of what `execute` caught. -/
inductive FailureCode where
  | admission (denied : AdmissionDenied)
  | budget (denied : BudgetDenied)
  | managementTurnClaimLost
  | managementContextMissing
  | managerProfileMissing
  | managerRoleMissing
  | managerProviderMissing
  | managementReceiptMismatch
  | managementReceiptReconciliationRequired
  | paidInferenceNotAuthorized
  | realManagerProviderUnavailable
  | managementResponseTooLarge
  | workItemUpdateNotAllowed
  | managementContextTooLarge
  | missionTeamMissing
  | managerResponseInvalid
  deriving DecidableEq, Repr

structure TurnRow where
  id : TurnId
  missionId : Nat
  inputMessageId : Nat
  directiveVersion : Nat
  teamVersionId : Nat
  wakeupId : Option Nat := none
  sourceEventCursor : Nat := 0
  status : TurnStatus := .queued
  mode : Mode
  allowPaidInference : Bool := false
  /-- `model_call_id` is set; it is derived from the turn. -/
  called : Bool := false
  response : Option ManagerDecision := none
  failureCode : Option FailureCode := none
  claimableAt : Nat
  leaseUntil : Option Nat := none
  claimedBy : Option Nat := none
  attemptCount : Nat := 0
  createdAt : Nat
  completedAt : Option Nat := none
  deriving DecidableEq

inductive MessageRole where
  | user
  | manager
  | system
  deriving DecidableEq, Repr

inductive Disposition where
  | queued
  | delivered
  | stale
  | failed
  deriving DecidableEq, Repr

structure MessageRow where
  id : Nat
  missionId : Nat
  sequence : Nat
  role : MessageRole
  body : String
  directiveVersion : Nat
  managementTurnId : Option TurnId := none
  disposition : Disposition := .delivered
  deriving DecidableEq

inductive WakeupKind where
  | userDirection
  | jobCompleted
  | jobFailed
  | deadline
  deriving DecidableEq, Repr

/-- `deduplication_key`. -/
inductive DeduplicationKey where
  | userDirection (message : Nat)
  | runTerminal (run : Option RunId) (lifecycle : WorkItemLifecycle)
  | deadline (turn : TurnId) (at_ : Nat)
  deriving DecidableEq, Repr

inductive WakeupStatus where
  | pending
  | turnQueued
  | committed
  | stale
  | failed
  deriving DecidableEq, Repr

structure WakeupRow where
  id : Nat
  missionId : Nat
  kind : WakeupKind
  deduplicationKey : DeduplicationKey
  directiveVersion : Nat
  teamVersionId : Nat
  sourceEventCursor : Nat
  /-- The work item a terminal run's wakeup is about, and its run. -/
  acceptedTarget : Option Nat := none
  acceptedSource : Option RunId := none
  status : WakeupStatus := .pending
  managementTurnId : Option TurnId := none
  scheduledFor : Nat
  createdAt : Nat
  deriving DecidableEq

/-- `record_json["outcome"]`. -/
inductive CallOutcome where
  | unknown
  | failed
  | completed
  | denied
  | requireApproval
  deriving DecidableEq, Repr

/-- Who made a model call, its `correlation_id` being the turn or the run node's own. -/
inductive CallSource where
  | turn (id : TurnId)
  | run (id : RunId) (correlation : Nat)
  deriving DecidableEq, Repr

structure ModelCallRow where
  source : CallSource
  outcome : CallOutcome
  deriving DecidableEq, Repr

/-- `ProviderResult`: the decision its structured part validates to, and what it used. -/
structure ProviderResult where
  decision : Option ManagerDecision
  failure : Bool := false
  inputTokens : Option Nat := none
  outputTokens : Option Nat := none
  costAmount : Option ℚ≥0 := none
  unknownUsage : Bool := false
  /-- More than 2097152 bytes of canonical JSON. -/
  tooLarge : Bool := false
  deriving DecidableEq

structure ReceiptRow where
  turnId : TurnId
  requestDigest : Nat
  response : ProviderResult
  deriving DecidableEq

/-! ## Requests -/

inductive ControlScope where
  | mission
  | team
  | global
  deriving DecidableEq, Repr

inductive ControlAction where
  | pause
  | resume
  | drain
  | safePoint
  | cancel
  deriving DecidableEq, Repr

structure MissionControlRequest where
  scope : ControlScope := .mission
  action : ControlAction
  instruction : Option String := none
  limits : Option MissionResourceLimits := none
  expectedVersion : Nat
  idempotencyKey : String
  instruction_iff : action = .safePoint ↔ instruction.isSome = true
  deriving DecidableEq

structure JobCreate where
  workflowVersionId : Nat
  objective : String
  priority : Int
  mode : Mode
  deriving DecidableEq, Repr

/-- What an idempotency key was used for. -/
inductive RequestBody where
  | control (body : MissionControlRequest)
  | autonomy (enabled : Bool) (expectedVersion : Nat)
  | directive (constraints : List String) (expectedVersion : Nat)
  | team (workflowVersionId maxActiveAssignments maxExecutionSeconds maxInferenceCalls expectedVersion : Nat)
  | message (body : String) (expectedVersion : Nat) (allowPaidInference : Bool)
  | job (body : JobCreate)
  deriving DecidableEq

inductive IdempotencyScope where
  | autonomy (mission : Nat)
  | control (mission : Nat)
  | directive (mission : Nat)
  | team (mission : Nat)
  | message (mission : Nat)
  | enqueue (project : Nat)
  deriving DecidableEq, Repr

/-- A caller's own key, or the one `start_item` derives from the work item. -/
inductive IdempotencyKey where
  | given (text : String)
  | workItem (id : Nat)
  deriving DecidableEq, Repr

structure IdempotencyRecord where
  scope : IdempotencyScope
  key : IdempotencyKey
  request : RequestBody
  /-- The job and run of the stored response of `create_job`. -/
  launched : Option (JobId × RunId) := none
  deriving DecidableEq

end Jarvis.Missions
