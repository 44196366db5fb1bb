/-
  Jarvis.Missions.Manager — the management turns of `MissionManagerService`.

  A service claims a turn under a lease, loads its request, receives the provider's result
  and applies the decision; each part is a transaction of its own, and only the first two
  compare the turn's owner. `received` commits a marker before it calls the provider
  (`beginCall`) and a receipt afterwards (`storeReceipt`).
-/
import Jarvis.Missions.Launch

namespace Jarvis.Missions

open Jarvis.Runtime (RunStatus DesiredState Mode)

/-- `MissionManagerService`. -/
structure Service where
  owner : Nat
  mode : Mode
  leaseSeconds : Nat := 360
  maxAttempts : Nat := 2
  deriving DecidableEq, Repr

/-- What `load` takes from the frozen configuration of the turn's team. -/
structure ManagerRequest where
  requestDigest : Nat
  /-- The provider needs authorization to be paid. -/
  paid : Bool := false
  /-- A provider of kind `demo`, or none configured. -/
  unavailable : Bool := false
  inputTokens : Nat
  outputTokens : Nat
  maximumCost : Option ℚ≥0 := none
  currency : String := "USD"
  deriving DecidableEq

/-! ## Claims -/

/-- The turns a service can claim. -/
def claimable (service : Service) (now : Nat) (turn : TurnRow) : Bool :=
  decide (turn.mode = service.mode) && decide (turn.claimableAt ≤ now) &&
    (decide (turn.status = .queued) || (decide (turn.status = .running) && turn.leaseUntil.any (· < now)))

def turnLe (a b : TurnRow) : Bool := decide (a.createdAt ≤ b.createdAt)

/-- `claim`; turns that other transactions hold locked are skipped. -/
def claim (db : Db) (service : Service) (locked : List TurnId) (now : Nat) : Option (Db × TurnId) :=
  (first turnLe (db.turns.filter fun turn => claimable service now turn && turn.id ∉ locked)).map fun turn =>
    ((db.writeTurn
      { turn with
        status := .running
        claimedBy := some service.owner
        leaseUntil := some (now + service.leaseSeconds)
        attemptCount := turn.attemptCount + 1 }).emit, turn.id)

/-- `load`: the turn must still be the service's; `configured` is the rest of it. -/
def load (db : Db) (service : Service) (turnId : TurnId) (configured : Except FailureCode ManagerRequest) :
    Except FailureCode ManagerRequest :=
  match db.turn? turnId with
  | none => .error .managementTurnClaimLost
  | some turn =>
    if turn.claimedBy ≠ some service.owner ∨ turn.status ≠ .running then .error .managementTurnClaimLost else configured

/-! ## The provider call -/

/-- `inference_calls`: the distinct logical calls under a mission's team version. -/
def inferenceCalls (db : Db) (missionId teamVersionId : Nat) : Nat :=
  ((db.modelCalls.map (·.source)).filter fun source =>
    match source with
    | .turn id => db.turns.any fun turn => turn.id = id ∧ turn.missionId = missionId ∧ turn.teamVersionId = teamVersionId
    | .run id _ => db.runs.any fun run => run.id = id ∧
        run.assignment.any fun a => a.missionId = missionId ∧ a.teamVersionId = teamVersionId).dedup.length

/-- The turn has a call whose outcome is not known. -/
def started (db : Db) (turnId : TurnId) : Bool :=
  db.modelCalls.any fun call => call.source = .turn turnId ∧ call.outcome = .unknown

def receipt? (db : Db) (turnId : TurnId) : Option ReceiptRow := db.receipts.find? (·.turnId = turnId)

/-- What a manager call reserves. -/
def managerCall (mission : MissionRow) (turnId : TurnId) (request : ManagerRequest) (now : Nat) : ReserveCall ActionId where
  missionId := mission.id
  actionId := .manager turnId
  kind := .managerInference
  liability :=
    { calls := some 1, inputTokens := some request.inputTokens, outputTokens := some request.outputTokens,
      iterations := some 1, costAmount := some (request.maximumCost.getD 0) }
  currency := request.currency
  now := now

/-- How the first transaction of `received` ends: with the stored result, or before the call. -/
inductive CallReply where
  | stored (result : ProviderResult)
  | call
  deriving DecidableEq

/-- The first transaction of `received`. -/
def beginCall (db : Db) (service : Service) (turnId : TurnId) (request : ManagerRequest) (now : Nat) :
    Except FailureCode (Db × CallReply) :=
  match db.turn? turnId with
  | none => .error .managementTurnClaimLost
  | some turn =>
    if request.paid ∧ !turn.allowPaidInference then .error .paidInferenceNotAuthorized
    else if turn.claimedBy ≠ some service.owner then .error .managementTurnClaimLost
    else
      match db.mission? turn.missionId with
      | none => .error .managementContextMissing
      | some mission =>
        let controls := ensureControls db.ledger.controls mission
        match requireAdmission controls mission with
        | .error denied => .error (.admission denied)
        | .ok () =>
          if request.paid ∧ request.maximumCost.isNone then .error (.budget .paidPricingUnknown)
          else
            match reserve { db.ledger with controls } mission (managerCall mission turnId request now) with
            | (_, .error denied) => .error (.budget denied)
            | (session, .ok _) =>
              let db := Db.writeTurn { db with ledger := session } { turn with called := true }
              match receipt? db turnId with
              | some receipt =>
                if receipt.requestDigest ≠ request.requestDigest then .error .managementReceiptMismatch
                else .ok (db, .stored receipt.response)
              | none =>
                if started db turnId then .error .managementReceiptReconciliationRequired
                else
                  match db.team? turn.teamVersionId with
                  | none => .error .missionTeamMissing
                  | some team =>
                    if team.maxInferenceCalls ≤ inferenceCalls db mission.id team.id then
                      .error (.budget .teamInferenceCalls)
                    else .ok ({ db with modelCalls := db.modelCalls ++ [{ source := .turn turnId, outcome := .unknown }] }, .call)

/-- The second transaction of `received`: the receipt, the accounting row and the actual use. -/
def storeReceipt (db : Db) (turnId : TurnId) (request : ManagerRequest) (result : ProviderResult) (now : Nat) :
    Except FailureCode Db :=
  if result.tooLarge then .error .managementResponseTooLarge
  else
    match db.turn? turnId with
    | none => .error .managerResponseInvalid
    | some turn =>
      match db.team? turn.teamVersionId, db.mission? turn.missionId with
      | none, _ => .error .missionTeamMissing
      | _, none => .error .managerResponseInvalid
      | some _, some mission =>
        -- the receipt's key is the call's, so a second one is refused
        if (receipt? db turnId).isSome then .error .managerResponseInvalid
        else
          let actual : Amounts :=
            { calls := some 1, inputTokens := result.inputTokens, outputTokens := result.outputTokens,
              iterations := some 1, costAmount := result.costAmount }
          match reconcile db.ledger mission (.manager turnId) (some actual) result.unknownUsage now with
          | .error denied => .error (.budget denied)
          | .ok ledger =>
            .ok { db with
              receipts := db.receipts ++ [{ turnId, requestDigest := request.requestDigest, response := result }]
              modelCalls := db.modelCalls ++
                [{ source := .turn turnId, outcome := if result.failure then .failed else .completed }]
              ledger }

/-! ## Decisions -/

/-- `wakeup_valid`: a terminal run's wakeup is still about the item's state. -/
def wakeupValid (db : Db) (mission : MissionRow) (wakeup : Option WakeupRow) : Bool :=
  match wakeup with
  | none => true
  | some wakeup =>
    if wakeup.kind = .jobCompleted ∨ wakeup.kind = .jobFailed then
      match wakeup.acceptedTarget.bind db.item? with
      | none => false
      | some target =>
        decide (target.missionId = mission.id ∧ target.runId = wakeup.acceptedSource ∧
          target.acceptedEventCursor = some wakeup.sourceEventCursor ∧
          target.lifecycle ∈ [WorkItemLifecycle.accepted, .blocked, .cancelled])
    else true

/-- One work item of a decision: created, or updated while it has not been started. -/
def applyItem (turn : TurnRow) (db : Db) (proposal : WorkItemProposal) : Except FailureCode Db :=
  let lifecycle := if proposal.dependencies = [] then WorkItemLifecycle.ready else .pending
  match db.items.find? fun item => item.missionId = turn.missionId ∧ item.key = proposal.key with
  | none =>
    .ok (Db.emit
      { db with
        items := db.items ++
          [{ id := db.nextId, missionId := turn.missionId, key := proposal.key, title := proposal.title,
             objective := proposal.objective, acceptanceCriteria := proposal.acceptanceCriteria,
             priority := proposal.priority, lifecycle, directiveVersion := turn.directiveVersion,
             teamVersionId := turn.teamVersionId, sourceWakeupId := turn.wakeupId }]
        nextId := db.nextId + 1 })
  | some item =>
    if item.lifecycle ≠ .pending ∧ item.lifecycle ≠ .ready then .error .workItemUpdateNotAllowed
    else
      let db := db.writeItem
        { item with
          title := proposal.title
          objective := proposal.objective
          acceptanceCriteria := proposal.acceptanceCriteria
          priority := proposal.priority
          lifecycle
          directiveVersion := turn.directiveVersion
          teamVersionId := turn.teamVersionId
          sourceWakeupId := turn.wakeupId
          version := item.version + 1 }
      .ok (Db.emit { db with dependencies := db.dependencies.filter (·.workItemId ≠ item.id) })

/-- The dependencies of a decision's items, among themselves. -/
def proposedDependencies (db : Db) (missionId : Nat) (decision : ManagerDecision) : List DependencyRow :=
  decision.workItems.flatMap fun proposal => proposal.dependencies.filterMap fun dependency =>
    match db.items.find? (fun item => item.missionId = missionId ∧ item.key = proposal.key),
        db.items.find? (fun item => item.missionId = missionId ∧ item.key = dependency) with
    | some item, some other => some ⟨item.id, other.id⟩
    | _, _ => none

/-- The mission row that a decision leaves. -/
def MissionRow.decided (mission : MissionRow) (turn : TurnRow) (decision : ManagerDecision) (basis : String) : MissionRow :=
  { mission with
    nextMessageSequence := mission.nextMessageSequence + 1
    lifecycle := decision.lifecycle.lifecycle
    waitingReason :=
      if decision.lifecycle = .waitingForApproval then some "manager_requested_approval"
      else if decision.lifecycle = .idle then some "manager_waiting"
      else none
    nextAction :=
      if decision.workItems ≠ [] then some "Launch highest-priority ready work"
      else if decision.scheduledWakeupAt.isSome then some "Wait for the scheduled deadline"
      else none
    nextActionBasis := some ("Management turn " ++ basis ++ " under directive v" ++ toString turn.directiveVersion)
    userActionRequired :=
      if decision.lifecycle = .waitingForApproval ∨ decision.lifecycle = .blocked then some decision.message else none
    version := mission.version + 1 }

def TurnId.text : TurnId → String
  | .fresh n => toString n
  | .wakeup id => "wakeup:" ++ toString id

/-- The deadline wakeup a decision schedules, unless it is there. -/
def scheduleDeadline (db : Db) (mission : MissionRow) (turn : TurnRow) (decision : ManagerDecision) (now : Nat) : Db :=
  match decision.scheduledWakeupAt with
  | none => db
  | some at_ =>
    let key := DeduplicationKey.deadline turn.id at_
    if db.wakeups.any fun wakeup => wakeup.missionId = mission.id ∧ wakeup.deduplicationKey = key then db
    else
      { db with
        wakeups := db.wakeups ++
          [{ id := db.nextId, missionId := mission.id, kind := .deadline, deduplicationKey := key,
             directiveVersion := mission.directiveVersion, teamVersionId := mission.selectedTeamVersionId,
             sourceEventCursor := turn.sourceEventCursor, scheduledFor := at_, createdAt := now }]
        nextId := db.nextId + 1 }

/-- The decision of a turn that has been overtaken. -/
def applyStale (db : Db) (turn : TurnRow) (decision : ManagerDecision) (now : Nat) : Db :=
  (((db.writeTurn { turn with status := .stale, response := some decision, completedAt := some now }).dispose
    turn.inputMessageId .stale).settleWakeup turn.wakeupId .stale).emit

/-- The work items of a decision that the mission does not have. -/
def newItems (db : Db) (mission : MissionRow) (decision : ManagerDecision) : Nat :=
  (decision.workItems.filter fun proposal =>
    !(db.items.any fun item => item.missionId = mission.id ∧ item.key = proposal.key)).length

/-- The reservation of a decision's new work items. -/
def reserveItems (ledger : Ledger ActionId) (mission : MissionRow) (turn : TurnRow) (created now : Nat) :
    Except FailureCode (Ledger ActionId) :=
  if created = 0 then .ok ledger
  else
    let call : ReserveCall ActionId :=
      { missionId := mission.id, actionId := .decision turn.id, kind := .newWorkItems,
        liability := { newWorkItems := some created }, currency := mission.resourceLimits.currency, now := now }
    match reserve ledger mission call with
    | (_, .error denied) => .error (.budget denied)
    | (session, .ok _) => .ok session

/-- The settlement of that reservation. -/
def settleNewItems (ledger : Ledger ActionId) (mission : MissionRow) (turn : TurnRow) (created now : Nat) :
    Except FailureCode (Ledger ActionId) :=
  if created = 0 then .ok ledger
  else
    match reconcile ledger mission (.decision turn.id) (some { newWorkItems := some created }) false now with
    | .error denied => .error (.budget denied)
    | .ok ledger => .ok ledger

/-- What a decision writes besides its work items: dependencies, message, mission, turn, wakeups. -/
def recordDecision (db : Db) (mission : MissionRow) (turn : TurnRow) (decision : ManagerDecision) (now : Nat) : Db :=
  let db : Db :=
    { db with
      dependencies := db.dependencies ++ proposedDependencies db mission.id decision
      messages := db.messages ++
        [{ id := db.nextId, missionId := mission.id, sequence := mission.nextMessageSequence + 1, role := .manager,
           body := decision.message, directiveVersion := turn.directiveVersion, managementTurnId := some turn.id }]
      nextId := db.nextId + 1 }
  let db := db.writeMission now (mission.decided turn decision turn.id.text)
  let db := db.writeTurn { turn with status := .applied, response := some decision, completedAt := some now }
  let db := (db.dispose turn.inputMessageId .delivered).settleWakeup turn.wakeupId .committed
  scheduleDeadline db mission turn decision now

/-- `apply` for a turn that is current. -/
def applyCurrent (db : Db) (mission : MissionRow) (turn : TurnRow) (decision : ManagerDecision) (now : Nat) :
    Except FailureCode Db :=
  match reserveItems db.ledger mission turn (newItems db mission decision) now with
  | .error code => .error code
  | .ok ledger =>
    match decision.workItems.foldlM (applyItem turn) { db with ledger } with
    | .error code => .error code
    | .ok proposed =>
      let decided := recordDecision proposed mission turn decision now
      match settleNewItems decided.ledger mission turn (newItems db mission decision) now with
      | .error code => .error code
      | .ok ledger => .ok (Db.emit { decided with ledger })

/-- `apply`. It does not look at the turn's owner or status. -/
def apply (db : Db) (turnId : TurnId) (decision : ManagerDecision) (now : Nat) : Except FailureCode Db :=
  match db.turn? turnId with
  | none => .error .managerResponseInvalid
  | some turn =>
    match db.mission? turn.missionId with
    | none => .error .managerResponseInvalid
    | some mission =>
      if mission.directiveVersion ≠ turn.directiveVersion ∨ mission.selectedTeamVersionId ≠ turn.teamVersionId ∨
          !wakeupValid db mission (turn.wakeupId.bind db.wakeup?) then
        .ok (applyStale db turn decision now)
      else applyCurrent db mission turn decision now

/-! ## Failures -/

/-- `code.startswith("budget_")`. -/
def FailureCode.budgeted : FailureCode → Bool
  | .budget .teamInferenceCalls => false
  | .budget _ => true
  | _ => false

/-- The texts of the codes. -/
def FailureCode.text : FailureCode → String
  | .admission denied => denied.message "inference"
  | .budget denied => denied.message
  | .managementTurnClaimLost => "management_turn_claim_lost"
  | .managementContextMissing => "management_context_missing"
  | .managerProfileMissing => "manager_profile_missing"
  | .managerRoleMissing => "manager_role_missing"
  | .managerProviderMissing => "manager_provider_missing"
  | .managementReceiptMismatch => "management_receipt_mismatch"
  | .managementReceiptReconciliationRequired => "management_receipt_reconciliation_required"
  | .paidInferenceNotAuthorized => "paid_inference_not_authorized"
  | .realManagerProviderUnavailable => "real_manager_provider_unavailable"
  | .managementResponseTooLarge => "management_response_too_large"
  | .workItemUpdateNotAllowed => "work_item_update_not_allowed"
  | .managementContextTooLarge => "management_context_too_large"
  | .missionTeamMissing => "mission_team_missing"
  | .managerResponseInvalid => "manager_response_invalid"

/-- The liability of a call that was started and has no receipt is kept. -/
def keepLiability (db : Db) (mission : MissionRow) (turn : TurnRow) (now : Nat) : Db :=
  if turn.called && started db turn.id && (receipt? db turn.id).isNone then
    match reconcile db.ledger mission (.manager turn.id) none true now with
    | .error _ => db
    | .ok ledger => { db with ledger }
  else db

/-- The turn has failed for good. -/
def failTurn (db : Db) (mission : MissionRow) (turn : TurnRow) (code : FailureCode) (now : Nat) : Db :=
  let db := db.writeTurn { turn with status := .failed, failureCode := some code, completedAt := some now }
  let db :=
    if code.budgeted then
      db.writeMission now
        { mission with
          lifecycle := .blocked
          waitingReason := some code.text
          userActionRequired := some "Review or increase the applicable resource limit." }
    else db
  ((db.dispose turn.inputMessageId .failed).settleWakeup turn.wakeupId .failed).emit

/-- `fail`. It does not look at the turn's owner. -/
def fail (db : Db) (service : Service) (turnId : TurnId) (code : FailureCode) (now : Nat) : Db :=
  match db.turn? turnId with
  | none => db
  | some turn =>
    if turn.status = .applied ∨ turn.status = .stale then db
    else
      match db.mission? turn.missionId with
      | none => db
      | some mission =>
        match code with
        | .admission (.paused _) =>
          (db.writeTurn
            { turn with
              status := .queued, claimableAt := now + 5, leaseUntil := none, claimedBy := none,
              attemptCount := turn.attemptCount - 1 }).writeMission now
            { mission with waitingReason := some code.text }
        | _ =>
          let db := keepLiability db mission turn now
          if turn.attemptCount < service.maxAttempts ∧ code ≠ .paidInferenceNotAuthorized ∧
              code ≠ .managementReceiptReconciliationRequired then
            db.writeTurn
              { turn with
                status := .queued, claimableAt := now + 2 ^ turn.attemptCount, leaseUntil := none, claimedBy := none }
          else failTurn db mission turn code now

/-! ## Wakeups -/

def wakeupLe (a b : WakeupRow) : Bool :=
  decide (a.scheduledFor < b.scheduledFor ∨ (a.scheduledFor = b.scheduledFor ∧ a.createdAt ≤ b.createdAt))

/-- The wakeups `materialize_wakeup` selects from. -/
def due (db : Db) (mode : Mode) (now : Nat) (wakeup : WakeupRow) : Bool :=
  decide (wakeup.status = .pending ∧ wakeup.scheduledFor ≤ now) &&
    db.missions.any fun mission => mission.id = wakeup.missionId ∧ mission.mode = mode ∧ mission.autonomous = true

def WakeupKind.name : WakeupKind → String
  | .userDirection => "user_direction"
  | .jobCompleted => "job_completed"
  | .jobFailed => "job_failed"
  | .deadline => "deadline"

/-- The turn of a wakeup, with its message. -/
def queueTurn (db : Db) (mission : MissionRow) (wakeup : WakeupRow) (now : Nat) : Db :=
  let turnId := TurnId.wakeup wakeup.id
  let message : MessageRow :=
    { id := db.nextId, missionId := mission.id, sequence := mission.nextMessageSequence + 1, role := .system,
      body := "Durable wakeup: " ++ wakeup.kind.name, directiveVersion := mission.directiveVersion, managementTurnId := some turnId,
      disposition := .queued }
  let turn : TurnRow :=
    { id := turnId, missionId := mission.id, inputMessageId := message.id, directiveVersion := mission.directiveVersion,
      teamVersionId := mission.selectedTeamVersionId, wakeupId := some wakeup.id,
      sourceEventCursor := wakeup.sourceEventCursor, mode := mission.mode, claimableAt := now, createdAt := now }
  let db : Db :=
    { db with
      messages := db.messages ++ [message]
      turns := if db.turns.any (·.id = turnId) then db.turns else db.turns ++ [turn]
      wakeups := db.wakeups.map fun old =>
        if old.id = wakeup.id then { old with status := .turnQueued, managementTurnId := some turnId } else old
      nextId := db.nextId + 1 }
  db.writeMission now
    { mission with
      nextMessageSequence := mission.nextMessageSequence + 1
      nextAction := some "Run a finite management turn"
      nextActionBasis := some ("Persisted " ++ wakeup.kind.name ++ " wakeup " ++ toString wakeup.id) }

/-- `materialize_wakeup`; wakeups that other transactions hold locked are skipped. -/
def materializeWakeup (db : Db) (mode : Mode) (locked : List Nat) (now : Nat) : Db :=
  match first wakeupLe (db.wakeups.filter fun wakeup => due db mode now wakeup && wakeup.id ∉ locked) with
  | none => db
  | some wakeup =>
    match db.mission? wakeup.missionId with
    | none => db
    | some mission =>
      let db := { db with ledger := { db.ledger with controls := ensureControls db.ledger.controls mission } }
      match requireAdmission db.ledger.controls mission with
      | .error _ => db
      | .ok () =>
        if mission.directiveVersion ≠ wakeup.directiveVersion ∨ mission.selectedTeamVersionId ≠ wakeup.teamVersionId then
          db.settleWakeup (some wakeup.id) .stale
        else if db.turns.any fun turn => turn.missionId = mission.id ∧ (turn.status = .queued ∨ turn.status = .running) then db
        else queueTurn db mission wakeup now

end Jarvis.Missions
