/-
  Jarvis.Missions.Launch — the two ways a work item gets a run: the scheduler's
  `dispatch_ready` (`jarvis_orchestrator.missions`), one transaction, and the owner's
  `start_item` (`jarvis_api.missions`), which checks and reserves, creates the job through
  `create_job`, and links it in three transactions.
-/
import Jarvis.Missions.Store
import Mathlib.Data.List.Sort

namespace Jarvis.Missions

open Jarvis.Runtime (RunStatus DesiredState Mode)

/-- The first row of an ordered query. -/
def first {β : Type} (le : β → β → Bool) (rows : List β) : Option β := (rows.insertionSort fun a b => le a b).head?

theorem first_mem {β : Type} {le : β → β → Bool} {rows : List β} {row : β} (h : first le rows = some row) : row ∈ rows :=
  (List.perm_insertionSort _ rows).mem_iff.mp (List.mem_of_head? h)

/-- The objective of a work item's job. -/
def jobObjective (item : WorkItemRow) (constraints : List String) : String :=
  item.objective ++ "\n\nAcceptance criteria:\n- " ++ "\n- ".intercalate item.acceptanceCriteria ++
    "\n\nMission constraints:\n- " ++
    "\n- ".intercalate (if constraints = [] then ["No additional constraints"] else constraints)

/-- What a work item's job reserves. -/
def jobCallOf (mission : MissionRow) (itemId wallSeconds now : Nat) : ReserveCall ActionId where
  missionId := mission.id
  actionId := .job itemId
  kind := .jobExecution
  liability := { activeJobs := some 1, wallSeconds := some wallSeconds }
  currency := mission.resourceLimits.currency
  now := now

/-! ## The scheduler -/

/-- The missions `dispatch_ready` selects from. -/
def dispatchable (db : Db) (mode : Mode) (mission : MissionRow) : Bool :=
  decide (mission.mode = mode) && mission.autonomous &&
    decide (mission.lifecycle ∈ [MissionLifecycle.active, .idle, .waitingForCapacity]) &&
    db.items.any fun item =>
      item.missionId = mission.id ∧ item.lifecycle = .ready ∧ item.directiveVersion = mission.directiveVersion

/-- `ORDER BY updated_at, id`. -/
def missionLe (a b : MissionRow) : Bool := decide (a.updatedAt < b.updatedAt ∨ (a.updatedAt = b.updatedAt ∧ a.id ≤ b.id))

/-- `ORDER BY priority DESC, id`. -/
def itemLe (a b : WorkItemRow) : Bool := decide (b.priority < a.priority ∨ (a.priority = b.priority ∧ a.id ≤ b.id))

/-- The end of `dispatch_ready`: the item's job and run, unless they exist, and the item started. -/
def assign (db : Db) (mission : MissionRow) (item : WorkItemRow) (now : Nat) : Db :=
  let jobId := JobId.assignment item.id
  let runId := RunId.assignment item.id
  let db :=
    if db.jobs.any (·.id = jobId) then db
    else { db with jobs := db.jobs ++ [{ id := jobId, objective := jobObjective item mission.constraints }] }
  let db :=
    if (db.run? runId).isSome then db
    else
      let run : RunRow :=
        { id := runId, jobId,
          assignment := some
            { missionId := mission.id, workItemId := item.id, teamVersionId := item.teamVersionId,
              governingDirectiveVersion := item.directiveVersion } }
      Db.emit (Db.emit { db with runs := db.runs ++ [run] })
  let db := db.writeItem
    { item with jobId := some jobId, runId := some runId, lifecycle := .started, version := item.version + 1 }
  (db.writeMission now
    { mission with
      lifecycle := .active
      waitingReason := none
      nextAction := some ("Run " ++ item.key ++ ": " ++ item.title)
      nextActionBasis := some ("Ready work item governed by directive v" ++ toString item.directiveVersion)
      version := mission.version + 1 }).emit

/-- `dispatch_ready` for an item of an admitted mission. -/
def dispatchItem (db : Db) (mission : MissionRow) (item : WorkItemRow) (now : Nat) : Db :=
  match db.team? item.teamVersionId with
  | none =>
    db.writeMission now { mission with lifecycle := .blocked, waitingReason := some "dispatch_team_snapshot_missing" }
  | some team =>
    if min mission.resourceLimits.maxActiveJobs team.maxActiveAssignments ≤ (activeRuns db mission.id).length then
      db.writeMission now
        { mission with lifecycle := .waitingForCapacity, waitingReason := some "team_active_assignment_capacity" }
    else
      let wallSeconds := min (min 7200 mission.resourceLimits.maxWallSeconds) team.maxExecutionSeconds
      let (session, reserved) := reserve db.ledger mission (jobCallOf mission item.id wallSeconds now)
      -- a denial is caught here, so the session is committed either way
      let db := { db with ledger := session }
      match reserved with
      | .error denied =>
        db.writeMission now
          { mission with
            lifecycle := .blocked
            waitingReason := some denied.message
            userActionRequired := some "Increase the applicable resource limit or resume manually." }
      | .ok _ =>
        if team.workflowVersionId ∈ db.workflowVersions then assign db mission item now
        else
          db.writeMission now
            { mission with lifecycle := .blocked, waitingReason := some "dispatch_workflow_snapshot_missing" }

/-- `dispatch_ready`; rows that other transactions hold locked are skipped. -/
def dispatchReady (db : Db) (mode : Mode) (lockedMissions lockedItems : List Nat) (now : Nat) : Db :=
  match first missionLe (db.missions.filter fun mission => dispatchable db mode mission && mission.id ∉ lockedMissions) with
  | none => db
  | some mission =>
    let db := { db with ledger := { db.ledger with controls := ensureControls db.ledger.controls mission } }
    match requireAdmission db.ledger.controls mission with
    | .error denied => db.writeMission now { mission with waitingReason := some (denied.message "dispatch") }
    | .ok () =>
      let ready := db.items.filter fun item =>
        item.missionId = mission.id ∧ item.lifecycle = .ready ∧ item.directiveVersion = mission.directiveVersion ∧
          item.id ∉ lockedItems
      match first itemLe ready with
      | none =>
        if mission.lifecycle = .active then
          db.writeMission now { mission with lifecycle := .idle, waitingReason := some "no_ready_work" }
        else db
      | some item => dispatchItem db mission item now

/-! ## The owner -/

/-- The answer of the first transaction of `start_item`. -/
inductive StartReply where
  /-- The item records a run. -/
  | existing (run : RunRow)
  /-- The request that `create_job` will get. -/
  | launch (project : Nat) (body : JobCreate)

/-- The first transaction of `start_item`: the checks and the reservation. -/
def startItem (db : Db) (missionId itemId expectedVersion now : Nat) : Except Problem (Db × StartReply) :=
  match db.mission? missionId with
  | none => .error .notFound
  | some mission =>
    match db.team? mission.selectedTeamVersionId, db.items.find? fun item => item.id = itemId ∧ item.missionId = missionId with
    | some team, some item =>
      match item.runId with
      | some runId =>
        match db.run? runId with
        | some run => .ok (db, .existing run)
        | none => .error .notFound
      | none =>
        if mission.version ≠ expectedVersion then .error .versionConflict
        else if item.lifecycle ≠ .ready then .error .itemNotReady
        else if item.directiveVersion ≠ mission.directiveVersion then .error .itemStale
        else if dependsOnIncomplete db item.id then .error .dependenciesIncomplete
        else
          let controls := ensureControls db.ledger.controls mission
          match requireAdmission controls mission with
          | .error denied => .error (.admissionPaused denied)
          | .ok () =>
            let wallSeconds := min 7200 mission.resourceLimits.maxWallSeconds
            match reserve { db.ledger with controls } mission (jobCallOf mission item.id wallSeconds now) with
            | (_, .error denied) => .error (.budgetDenied denied)
            | (session, .ok _) =>
              .ok ({ db with ledger := session },
                .launch mission.projectId
                  { workflowVersionId := team.workflowVersionId, objective := jobObjective item mission.constraints,
                    priority := item.priority, mode := mission.mode })
    | _, _ => .error .notFound

/-- `create_job` with the key of a work item; `projectActive` and `configured` say whether the
    project and the published configuration are there. -/
def createJob (db : Db) (project itemId : Nat) (body : JobCreate) (projectActive configured : Bool) :
    Except Problem (Db × JobId × RunId) :=
  if !projectActive then .error .notFound
  else
    match begin_ db (.enqueue project) (.workItem itemId) (.job body) with
    | .conflict => .error .runIdempotencyConflict
    | .replay record =>
      match record.launched with
      | some (jobId, runId) => .ok (db, jobId, runId)
      | none => .error .runUnavailable
    | .fresh =>
      if !configured then .error .runUnavailable
      else
        let jobId := JobId.fresh db.nextId
        let runId := RunId.fresh (db.nextId + 1)
        let db : Db :=
          { db with
            jobs := db.jobs ++ [{ id := jobId, objective := body.objective }]
            runs := db.runs ++ [{ id := runId, jobId }]
            records := db.records ++
              [{ scope := .enqueue project, key := .workItem itemId, request := .job body, launched := some (jobId, runId) }]
            nextId := db.nextId + 2 }
        .ok (db.emit.emit.emit, jobId, runId)

/-- The transaction that releases the reservation of a job that could not be created. -/
def releaseItem (db : Db) (missionId itemId now : Nat) : Except Problem Db :=
  match db.mission? missionId with
  | none => .error .notFound
  | some mission => .ok { db with ledger := release db.ledger mission (.job itemId) now }

/-- The last transaction of `start_item`: the item records the job and the run. -/
def linkItem (db : Db) (missionId itemId : Nat) (jobId : JobId) (runId : RunId) (now : Nat) : Except Problem Db :=
  match db.mission? missionId, db.items.find? fun item => item.id = itemId ∧ item.missionId = missionId with
  | some mission, some item =>
    if item.runId.isSome ∧ item.runId ≠ some runId then .error .launchConflict
    else
      let db := db.writeItem
        { item with jobId := some jobId, runId := some runId, lifecycle := .started, version := item.version + 1 }
      .ok (db.writeMission now { mission with version := mission.version + 1 }).emit
  | _, _ => .error .notFound

end Jarvis.Missions
