/-
  Jarvis.Missions.Settle — work items settled by their runs (`reconcile_items` of
  `MissionManagerService`), and what happens to runs meanwhile: execution, capacity waiting
  (`jarvis_orchestrator.workers.runtime`), a requeue for reconciliation (`jarvis_api.runtime`)
  and a retry command (`jarvis_orchestrator.runtime.commands`).
-/
import Jarvis.Missions.Store

namespace Jarvis.Missions

open Jarvis.Runtime (RunStatus DesiredState Mode)

/-! ## Reconciliation of items -/

/-- The first loop: a started item's run that waits for approval, or no longer does. -/
def awaitApproval (now : Nat) (db : Db) (active : WorkItemRow × RunRow) : Db :=
  match db.mission? active.1.missionId with
  | none => db
  | some mission =>
    if active.2.status = .approvalRequired then
      db.writeMission now
        { mission with
          lifecycle := .waitingForApproval
          waitingReason := some "active_run_requires_approval"
          userActionRequired := some "Review the active run approval request." }
    else if mission.lifecycle = .waitingForApproval then
      db.writeMission now { mission with lifecycle := .active, waitingReason := none, userActionRequired := none }
    else db

/-- The lifecycle of an item whose run has ended. -/
def settledLifecycle (status : RunStatus) : WorkItemLifecycle :=
  match status with
  | .completed => .accepted
  | .blocked | .failed => .blocked
  | _ => .cancelled

/-- `max(0, completed_at - started_at)`. -/
def RunRow.wallSeconds (run : RunRow) : Nat :=
  match run.startedAt, run.completedAt with
  | some startedAt, some completedAt => completedAt - startedAt
  | _, _ => 0

/-- The second loop: the item of a run that has ended, and its reservation. -/
def settleItem (now : Nat) (db : Db) (ended : WorkItemRow × RunRow) : Db :=
  let db := db.writeItem
    { ended.1 with lifecycle := settledLifecycle ended.2.status, version := ended.1.version + 1 }
  match db.mission? ended.1.missionId with
  | none => db
  | some mission =>
    let actual : Amounts := { activeJobs := some 0, wallSeconds := some ended.2.wallSeconds }
    -- only a missing reservation can be refused, and it is ignored
    match reconcile db.ledger mission (.job ended.1.id) (some actual) false now with
    | .error _ => db
    | .ok ledger => { db with ledger }

/-- The third loop: a pending item whose dependencies have all been accepted. -/
def readyItem (db : Db) (item : WorkItemRow) : Db :=
  if dependsOnIncomplete db item.id then db
  else db.writeItem { item with lifecycle := .ready, version := item.version + 1 }

def RunId.text : RunId → String
  | .fresh n => toString n
  | .assignment item => "run:" ++ toString item

/-- A terminal run's wakeup, unless it is there. -/
def wakeMission (db : Db) (mission : MissionRow) (item : WorkItemRow) (cursor now : Nat) : Db :=
  let key := DeduplicationKey.runTerminal item.runId item.lifecycle
  if db.wakeups.any fun wakeup => wakeup.missionId = mission.id ∧ wakeup.deduplicationKey = key then db
  else
    let db : Db :=
      { db with
        wakeups := db.wakeups ++
          [{ id := db.nextId, missionId := mission.id,
             kind := if item.lifecycle = .accepted then .jobCompleted else .jobFailed, deduplicationKey := key,
             directiveVersion := mission.directiveVersion, teamVersionId := mission.selectedTeamVersionId,
             sourceEventCursor := cursor, acceptedTarget := some item.id, acceptedSource := item.runId,
             scheduledFor := now, createdAt := now }]
        nextId := db.nextId + 1 }
    db.writeMission now
      { mission with
        nextAction := some "Evaluate the accepted run evidence"
        nextActionBasis :=
          some ("Terminal run " ++ (item.runId.map RunId.text).getD "None" ++ " at event " ++ toString cursor)
        version := mission.version + 1 }

/-- The lifecycles in which a settled item makes no wakeup. -/
def MissionLifecycle.silent : MissionLifecycle → Bool
  | .paused | .cancelled | .completed | .archived => true
  | _ => false

/-- The last loop: the event of a change, and what a settled item does to its mission. -/
def announce (now : Nat) (db : Db) (itemId : Nat) : Db :=
  match db.item? itemId with
  | none => db
  | some item =>
    let db := db.emit
    if item.lifecycle = .accepted ∨ item.lifecycle = .blocked ∨ item.lifecycle = .cancelled then
      let cursor := db.lastPosition
      let db := db.writeItem { item with acceptedEventCursor := some cursor }
      match db.mission? item.missionId with
      | none => db
      | some mission =>
        if mission.lifecycle = .cancelling then
          db.writeMission now { mission with lifecycle := .cancelled, waitingReason := none }
        else if mission.autonomous && !mission.lifecycle.silent then wakeMission db mission item cursor now
        else db
    else db

/-- `reconcile_items`. -/
def reconcileItems (db : Db) (now : Nat) : Db :=
  let active := (startedRuns db).filter fun (_, run) => !run.terminal
  let db := active.foldl (awaitApproval now) db
  let ended := (startedRuns db).filter fun (_, run) => run.terminal
  let db := ended.foldl (settleItem now) db
  let pending := db.items.filter (·.lifecycle = .pending)
  let ready := pending.filter fun item => !dependsOnIncomplete db item.id
  let db := pending.foldl readyItem db
  ((ended.map (·.1.id)) ++ (ready.map (·.id))).foldl (announce now) db

/-! ## Runs -/

/-- A run's executor moves it; it leaves a terminal status only through a request, and a
    cancellation it was asked for stays. -/
def executeRun (db : Db) (runId : RunId) (status : RunStatus) (desired : DesiredState) (now : Nat) : Option Db :=
  match db.run? runId with
  | none => none
  | some run =>
    if run.terminal ∨ (run.desiredState = .cancelled ∧ desired ≠ .cancelled) then none
    else
      some (db.writeRun
        { run with
          status
          desiredState := desired
          startedAt := run.startedAt.or (some now)
          completedAt := if status.terminal then some now else run.completedAt
          version := run.version + 1 }).emit

/-- The mission whose work item records the run. -/
def missionOfRun (db : Db) (runId : RunId) : Option MissionRow :=
  (db.items.find? (·.runId = some runId)).bind fun item => db.mission? item.missionId

/-- A worker finds no slot for a task attempt: the run's mission waits for capacity. -/
def waitForCapacity (db : Db) (runId : RunId) (attempt now : Nat) : Option Db :=
  match db.run? runId with
  | none => none
  | some run =>
    if run.terminal ∨ run.desiredState = .cancelled then none
    else
      match missionOfRun db runId with
      | none => some db.emit
      | some mission =>
        some (db.writeMission now
          { mission with
            lifecycle := .waitingForCapacity
            waitingReason := some "worker_capacity_unavailable"
            nextAction := some "Wait for the reserved worker slot"
            nextActionBasis := some ("Logical task assignment " ++ toString attempt ++ " is queued") }).emit

/-- The worker gets its slot. -/
def leaveCapacity (db : Db) (runId : RunId) (now : Nat) : Option Db :=
  match db.run? runId with
  | none => none
  | some run =>
    if run.terminal then none
    else
      match missionOfRun db runId with
      | none => some db.emit
      | some mission =>
        if mission.lifecycle = .waitingForCapacity then
          some (db.writeMission now { mission with lifecycle := .active, waitingReason := none }).emit
        else some db.emit

/-- `request_reconciliation` of an effect of the run: a blocked run is queued again. -/
def requestReconciliation (db : Db) (runId : RunId) : Option Db :=
  (db.run? runId).map fun run =>
    (db.writeRun
      { run with
        status := if run.status = .blocked then .queued else run.status
        completedAt := if run.status = .blocked then none else run.completedAt
        version := run.version + 1 }).emit

/-- The largest run number of a job. -/
def lastRunNumber (db : Db) (jobId : JobId) : Nat :=
  ((db.runs.filter (·.jobId = jobId)).map (·.runNumber)).foldl max 0

/-- A retry command on a failed or blocked run (`CommandProcessor._retry`): a linked successor. -/
def retryRun (db : Db) (runId : RunId) : Option Db :=
  match db.run? runId with
  | none => none
  | some run =>
    if run.status = .failed ∨ run.status = .blocked then
      some (Db.emit
        { db with
          runs := db.runs ++
            [{ id := .fresh db.nextId, jobId := run.jobId, runNumber := lastRunNumber db run.jobId + 1,
               parentRunId := some run.id }]
          nextId := db.nextId + 1 })
    else none

/-- A model call of a run's node. -/
def runModelCall (db : Db) (runId : RunId) (correlation : Nat) (outcome : CallOutcome) : Option Db :=
  (db.run? runId).map fun _ =>
    { db with modelCalls := db.modelCalls ++ [{ source := .run runId correlation, outcome }] }

end Jarvis.Missions
