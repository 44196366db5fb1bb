/-
  Jarvis.Missions.Controls — what the owner does to a mission (`jarvis_api.missions`):
  creation, direction, team, autonomy, messages and admission controls.

  Each request is one transaction. All but a team change look up their idempotency key before
  they compare the mission's version.
-/
import Jarvis.Missions.Store

namespace Jarvis.Missions

open Jarvis.Runtime (RunStatus DesiredState Mode)

/-- The common frame of the requests: the mission, the idempotency key, the expected version. -/
def withMission (db : Db) (missionId : Nat) (scope : IdempotencyScope) (key : String) (request : RequestBody)
    (expectedVersion : Nat) (change : MissionRow → Except Problem Db) : Except Problem Db :=
  match db.mission? missionId with
  | none => .error .notFound
  | some mission =>
    match begin_ db scope (.given key) request with
    | .conflict => .error .idempotencyConflict
    | .replay _ => .ok db
    | .fresh => if mission.version ≠ expectedVersion then .error .versionConflict else change mission

section WithMission

variable {db db' : Db} {missionId : Nat} {scope : IdempotencyScope} {key : String} {request : RequestBody} {expectedVersion : Nat}
  {change : MissionRow → Except Problem Db}

/-- A request that succeeds was a replay, or its key was new and it made its change to the mission. -/
theorem withMission_new (h : withMission db missionId scope key request expectedVersion change = .ok db') :
    (db' = db ∧ ∃ record, begin_ db scope (.given key) request = .replay record) ∨
      (begin_ db scope (.given key) request = .fresh ∧
        ∃ mission, db.mission? missionId = some mission ∧ change mission = .ok db') := by
  unfold withMission at h
  split at h
  · cases h
  · rename_i mission hmission
    split at h
    · cases h
    · rename_i record hreplay
      cases h
      exact .inl ⟨rfl, record, hreplay⟩
    · rename_i hfresh
      split at h
      · cases h
      · exact .inr ⟨hfresh, mission, hmission, h⟩

theorem withMission_ok (h : withMission db missionId scope key request expectedVersion change = .ok db') :
    db' = db ∨ ∃ mission, db.mission? missionId = some mission ∧ change mission = .ok db' :=
  (withMission_new h).imp And.left And.right

end WithMission

/-- The idempotency record of a request that has been answered. -/
def Db.record (db : Db) (scope : IdempotencyScope) (key : String) (request : RequestBody) : Db :=
  { db with records := db.records ++ [{ scope, key := .given key, request }] }

/-- `create_mission`: the mission, its first team version and its controls. -/
def createMission (db : Db) (mission : MissionRow) (team : TeamVersionRow) (now : Nat) : Db :=
  let teamId := db.nextId + 1
  let row : MissionRow :=
    { id := db.nextId, projectId := mission.projectId, mode := mission.mode, constraints := mission.constraints,
      autonomous := mission.autonomous, resourceLimits := mission.resourceLimits, selectedTeamVersionId := teamId,
      updatedAt := now }
  Db.emit
    { db with
      missions := db.missions ++ [row]
      teams := db.teams ++ [{ team with id := teamId, missionId := row.id }]
      ledger := { db.ledger with controls := ensureControls db.ledger.controls row }
      nextId := db.nextId + 2 }

/-- `update_autonomy`; `unpaid` is `autonomous_unpaid_only` of the selected team. -/
def updateAutonomy (db : Db) (missionId : Nat) (enabled : Bool) (expectedVersion : Nat) (key : String) (unpaid : Bool)
    (now : Nat) : Except Problem Db :=
  let request := RequestBody.autonomy enabled expectedVersion
  withMission db missionId (.autonomy missionId) key request expectedVersion fun mission =>
    if enabled && !unpaid then .error .paidUnattendedDisabled
    else
      .ok ((db.record (.autonomy missionId) key request).writeMission now
        { mission with
          autonomous := enabled
          version := mission.version + 1
          lifecycle := if enabled = true ∧ mission.lifecycle = .idle then .active else mission.lifecycle }).emit

/-- The lifecycles in which a mission accepts no direction and no messages. -/
def MissionLifecycle.ended : MissionLifecycle → Bool
  | .cancelling | .cancelled | .completed | .archived => true
  | _ => false

/-- `update_directive`. -/
def updateDirective (db : Db) (missionId : Nat) (constraints : List String) (expectedVersion : Nat) (key : String)
    (now : Nat) : Except Problem Db :=
  let request := RequestBody.directive constraints expectedVersion
  withMission db missionId (.directive missionId) key request expectedVersion fun mission =>
    if mission.lifecycle.ended then .error .terminal
    else
      .ok ((db.record (.directive missionId) key request).writeMission now
        { mission with
          directiveVersion := mission.directiveVersion + 1
          version := mission.version + 1
          constraints }).emit

/-- `update_team`, which compares the version first. -/
def updateTeam (db : Db) (missionId : Nat) (team : TeamVersionRow) (expectedVersion : Nat) (key : String) (now : Nat) :
    Except Problem Db :=
  let request := RequestBody.team team.workflowVersionId team.maxActiveAssignments team.maxExecutionSeconds
    team.maxInferenceCalls expectedVersion
  match db.mission? missionId with
  | none => .error .notFound
  | some mission =>
    if mission.version ≠ expectedVersion then .error .versionConflict
    else
      match begin_ db (.team missionId) (.given key) request with
      | .conflict => .error .idempotencyConflict
      | .replay _ => .ok db
      | .fresh =>
        let teamId := db.nextId
        let db := db.record (.team missionId) key request
        let db :=
          { db with
            teams := db.teams ++ [{ team with id := teamId, missionId := mission.id }]
            nextId := db.nextId + 1 }
        .ok (db.writeMission now
          { mission with selectedTeamVersionId := teamId, version := mission.version + 1 }).emit

/-- `create_message`: the message, its wakeup and the turn that answers it. -/
def createMessage (db : Db) (missionId : Nat) (body : String) (expectedVersion : Nat) (allowPaidInference : Bool)
    (key : String) (now : Nat) : Except Problem Db :=
  let request := RequestBody.message body expectedVersion allowPaidInference
  withMission db missionId (.message missionId) key request expectedVersion fun mission =>
    if mission.lifecycle.ended then .error .terminal
    else
      let messageId := db.nextId
      let wakeupId := db.nextId + 1
      let turnId := TurnId.fresh (db.nextId + 2)
      let message : MessageRow :=
        { id := messageId, missionId, sequence := mission.nextMessageSequence + 1, role := .user, body,
          directiveVersion := mission.directiveVersion, managementTurnId := some turnId, disposition := .queued }
      let wakeup : WakeupRow :=
        { id := wakeupId, missionId, kind := .userDirection, deduplicationKey := .userDirection messageId,
          directiveVersion := mission.directiveVersion, teamVersionId := mission.selectedTeamVersionId,
          sourceEventCursor := db.lastPosition, status := .turnQueued, managementTurnId := some turnId,
          scheduledFor := now, createdAt := now }
      let turn : TurnRow :=
        { id := turnId, missionId, inputMessageId := messageId, directiveVersion := mission.directiveVersion,
          teamVersionId := mission.selectedTeamVersionId, wakeupId := some wakeupId,
          sourceEventCursor := db.lastPosition, mode := mission.mode, allowPaidInference, claimableAt := now,
          createdAt := now }
      let db := db.record (.message missionId) key request
      let db :=
        { db with
          messages := db.messages ++ [message]
          wakeups := db.wakeups ++ [wakeup]
          turns := db.turns ++ [turn]
          nextId := db.nextId + 3 }
      .ok (db.writeMission now
        { mission with
          nextMessageSequence := mission.nextMessageSequence + 1, version := mission.version + 1 }).emit

/-! ## Admission controls -/

def commandKind : ControlAction → Option RunCommandKind
  | .pause => some .pause
  | .resume => some .resume
  | .cancel => some .cancel
  | .safePoint => some .instruction
  | .drain => none

def controlKey (mission : MissionRow) : ControlScope → ScopeKey
  | .global => .global
  | .team => .team mission.selectedTeamVersionId
  | .mission => .mission mission.id

/-- The control row that a request leaves. -/
def ControlRow.controlled (control : ControlRow) (body : MissionControlRequest) : ControlRow :=
  { control with
    state :=
      match body.action with
      | .pause => .paused
      | .resume => .open
      | .drain => .draining
      | .cancel => .cancelling
      | .safePoint => control.state
    safePointInstruction := if body.action = .safePoint then body.instruction else control.safePointInstruction
    limits := body.limits.getD control.limits
    version := control.version + 1 }

/-- `CommandRepository.enqueue`, for a run whose version was just read. -/
def enqueue (db : Db) (run : RunRow) (kind : RunCommandKind) (key : String) (instruction : Option String) :
    Except Problem Db :=
  match db.commands.find? fun command => command.runId = run.id ∧ command.idempotencyKey = key with
  | some existing =>
    if existing.kind = kind ∧ existing.instruction = instruction then .ok db else .error .commandConflict
  | none =>
    .ok (Db.writeRun { db with commands := db.commands ++ [{ runId := run.id, kind, idempotencyKey := key, instruction }] }
      { run with version := run.version + 1 }).emit

/-- The mission's own row after a control; only a control of its own scope changes its lifecycle. -/
def MissionRow.controlled (mission : MissionRow) (body : MissionControlRequest) (active : Bool) : MissionRow :=
  let mission :=
    if body.scope = .mission then { mission with resourceLimits := body.limits.getD mission.resourceLimits } else mission
  let mission :=
    if body.scope = .mission then
      match body.action with
      | .pause => { mission with lifecycle := .paused, waitingReason := some "admission_paused" }
      | .resume => { mission with lifecycle := .active, waitingReason := none }
      | .cancel =>
        { mission with
          lifecycle := if active then .cancelling else .cancelled
          waitingReason := if active then some "cancellation_requested" else none }
      | .drain =>
        { mission with
          nextAction := some "Wait for active work to reach a terminal safe point"
          nextActionBasis := some "Mission admission is draining" }
      | .safePoint => mission
    else mission
  { mission with version := mission.version + 1 }

/-- `control_mission`. The one active run it finds is the first the query returns, in an order
    the query leaves open (`order`). -/
def controlMission (db : Db) (missionId : Nat) (body : MissionControlRequest) (order now : Nat) : Except Problem Db :=
  withMission db missionId (.control missionId) body.idempotencyKey (.control body) body.expectedVersion fun mission =>
    let key := controlKey mission body.scope
    let controls := (ensureControls db.ledger.controls mission).map fun control =>
      if control.scopeKey = key then control.controlled body else control
    let active := ((activeRuns db missionId).rotate order).head?
    let commanded :=
      match active, commandKind body.action with
      | some run, some kind => enqueue db run kind ("mission-control:" ++ body.idempotencyKey) body.instruction
      | _, _ => .ok db
    match commanded with
    | .error e => .error e
    | .ok db' =>
      let db' := { db' with ledger := { db'.ledger with controls } }
      .ok ((db'.record (.control missionId) body.idempotencyKey (.control body)).writeMission now
        (mission.controlled body active.isSome)).emit

end Jarvis.Missions
