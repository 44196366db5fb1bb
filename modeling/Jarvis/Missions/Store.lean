/-
  Jarvis.Missions.Store — the tables that missions live in, and the small reads and writes
  that every transaction is made of.

  A transaction is one function on the database; one that raises leaves it as it was. Rows
  are looked up by their identity and updated in place. A mission row that a transaction
  changes gets a new `updated_at`; one that it writes back unchanged does not.
-/
import Jarvis.Lib.Keyed
import Jarvis.Missions.Resources

namespace Jarvis.Missions

open Jarvis.Runtime (RunStatus DesiredState Mode)

structure Db where
  missions : List MissionRow := []
  teams : List TeamVersionRow := []
  /-- The published workflow versions with a resolved snapshot. -/
  workflowVersions : List Nat := []
  items : List WorkItemRow := []
  dependencies : List DependencyRow := []
  jobs : List JobRow := []
  runs : List RunRow := []
  commands : List RunCommandRow := []
  ledger : Ledger ActionId := {}
  turns : List TurnRow := []
  messages : List MessageRow := []
  wakeups : List WakeupRow := []
  modelCalls : List ModelCallRow := []
  receipts : List ReceiptRow := []
  records : List IdempotencyRecord := []
  /-- The last global position of the event log. -/
  lastPosition : Nat := 0
  /-- The next fresh identity. -/
  nextId : Nat := 0

namespace Db

def mission? (db : Db) (id : Nat) : Option MissionRow := db.missions.find? (·.id = id)

def team? (db : Db) (id : Nat) : Option TeamVersionRow := db.teams.find? (·.id = id)

def item? (db : Db) (id : Nat) : Option WorkItemRow := db.items.find? (·.id = id)

def run? (db : Db) (id : RunId) : Option RunRow := db.runs.find? (·.id = id)

def turn? (db : Db) (id : TurnId) : Option TurnRow := db.turns.find? (·.id = id)

def wakeup? (db : Db) (id : Nat) : Option WakeupRow := db.wakeups.find? (·.id = id)

/-- A mission row written back at time `now`. -/
def writeMission (db : Db) (now : Nat) (mission : MissionRow) : Db :=
  { db with
    missions := db.missions.map fun old =>
      if old.id = mission.id then (if mission = old then old else { mission with updatedAt := now }) else old }

def writeItem (db : Db) (item : WorkItemRow) : Db :=
  { db with items := db.items.map fun old => if old.id = item.id then item else old }

def writeRun (db : Db) (run : RunRow) : Db :=
  { db with runs := db.runs.map fun old => if old.id = run.id then run else old }

def writeTurn (db : Db) (turn : TurnRow) : Db :=
  { db with turns := db.turns.map fun old => if old.id = turn.id then turn else old }

/-- The disposition of a message, changed. -/
def dispose (db : Db) (id : Nat) (disposition : Disposition) : Db :=
  { db with
    messages := db.messages.map fun message => if message.id = id then { message with disposition } else message }

/-- The status of a wakeup, changed. -/
def settleWakeup (db : Db) (id : Option Nat) (status : WakeupStatus) : Db :=
  { db with
    wakeups := db.wakeups.map fun wakeup => if some wakeup.id = id then { wakeup with status } else wakeup }

/-- `emit`: the event takes the next position. -/
def emit (db : Db) : Db := { db with lastPosition := db.lastPosition + 1 }

end Db

/-- The statuses a run does not leave by executing. -/
def RunRow.terminal (run : RunRow) : Bool := run.status.terminal

/-- The run that an item records, if there is one. -/
def itemRun (db : Db) (item : WorkItemRow) : Option RunRow := item.runId.bind db.run?

/-- The work items that have been started, with their runs. -/
def startedRuns (db : Db) : List (WorkItemRow × RunRow) :=
  db.items.filterMap fun item =>
    if item.lifecycle = .started then (itemRun db item).map fun run => (item, run) else none

/-- The runs of a mission's started items that have not ended. -/
def activeRuns (db : Db) (missionId : Nat) : List RunRow :=
  (startedRuns db).filterMap fun (item, run) => if item.missionId = missionId ∧ !run.terminal then some run else none

/-- Some dependency of the item has not been accepted. -/
def dependsOnIncomplete (db : Db) (itemId : Nat) : Bool :=
  db.dependencies.any fun dependency =>
    dependency.workItemId = itemId ∧
      db.items.any fun item => item.id = dependency.dependsOnWorkItemId ∧ item.lifecycle ≠ .accepted

/-! ## Idempotency -/

/-- `IdempotencyRepository.begin`. -/
inductive Begun where
  | fresh
  | replay (record : IdempotencyRecord)
  | conflict

def begin_ (db : Db) (scope : IdempotencyScope) (key : IdempotencyKey) (request : RequestBody) : Begun :=
  match db.records.find? fun record => record.scope = scope ∧ record.key = key with
  | none => .fresh
  | some record => if record.request = request then .replay record else .conflict

theorem begin_fresh {db : Db} {scope : IdempotencyScope} {key : IdempotencyKey} {request : RequestBody}
    (h : begin_ db scope key request = .fresh) : ∀ record ∈ db.records, record.scope = scope → record.key ≠ key := by
  intro record hrecord hscope hkey
  unfold begin_ at h
  split at h
  · rename_i hnone
    exact List.find?_eq_none.mp hnone record hrecord (decide_eq_true ⟨hscope, hkey⟩)
  · split at h <;> cases h

theorem begin_replay {db : Db} {scope : IdempotencyScope} {key : IdempotencyKey} {request : RequestBody} {record : IdempotencyRecord}
    (h : begin_ db scope key request = .replay record) : record ∈ db.records ∧ record.scope = scope ∧ record.key = key := by
  unfold begin_ at h
  split at h
  · cases h
  · rename_i found hfind
    split at h <;> cases h
    have hkey := List.find?_some hfind
    simp only [decide_eq_true_eq] at hkey
    exact ⟨List.mem_of_find?_eq_some hfind, hkey⟩

/-- `ApiProblemError`, by its code. -/
inductive Problem where
  | notFound
  | idempotencyConflict
  | versionConflict
  | terminal
  | paidUnattendedDisabled
  | itemNotReady
  | itemStale
  | dependenciesIncomplete
  | admissionPaused (denied : AdmissionDenied)
  | budgetDenied (denied : BudgetDenied)
  | launchConflict
  | runIdempotencyConflict
  | runUnavailable
  | commandConflict
  deriving DecidableEq, Repr

/-! ## Lookups -/

section Lookups

variable {db : Db}

theorem Db.mission?_eq_some {id : Nat} {mission : MissionRow} (h : db.mission? id = some mission) :
    mission ∈ db.missions ∧ mission.id = id :=
  ⟨List.mem_of_find?_eq_some h, by simpa using List.find?_some h⟩

theorem Db.mission?_writeMission (db : Db) (now : Nat) (mission : MissionRow) (id : Nat) :
    (db.writeMission now mission).mission? id = (db.mission? id).map fun old =>
      if old.id = mission.id then (if mission = old then old else { mission with updatedAt := now }) else old := by
  refine Keyed.find?_replace (f := fun old => if mission = old then old else { mission with updatedAt := now }) ?_ id
  intro old hold
  split
  · exact hold
  · rfl

theorem Db.item?_eq_some {id : Nat} {item : WorkItemRow} (h : db.item? id = some item) : item ∈ db.items ∧ item.id = id :=
  ⟨List.mem_of_find?_eq_some h, by simpa using List.find?_some h⟩

theorem Db.run?_eq_some {id : RunId} {run : RunRow} (h : db.run? id = some run) : run ∈ db.runs ∧ run.id = id :=
  ⟨List.mem_of_find?_eq_some h, by simpa using List.find?_some h⟩

theorem Db.turn?_eq_some {id : TurnId} {turn : TurnRow} (h : db.turn? id = some turn) : turn ∈ db.turns ∧ turn.id = id :=
  ⟨List.mem_of_find?_eq_some h, by simpa using List.find?_some h⟩

theorem Db.turn?_writeTurn_self (turn : TurnRow) {old : TurnRow} (h : db.turn? turn.id = some old) :
    (db.writeTurn turn).turn? turn.id = some turn :=
  Keyed.find?_replace_self (f := fun _ => turn) (fun _ _ => rfl) h

theorem Db.turn?_writeTurn_of_ne {turn : TurnRow} {id : TurnId} (h : id ≠ turn.id) :
    (db.writeTurn turn).turn? id = db.turn? id :=
  Keyed.find?_replace_of_ne (f := fun _ => turn) (fun _ _ => rfl) h

theorem Db.item?_writeItem_self (item : WorkItemRow) {old : WorkItemRow} (h : db.item? item.id = some old) :
    (db.writeItem item).item? item.id = some item :=
  Keyed.find?_replace_self (f := fun _ => item) (fun _ _ => rfl) h

theorem Db.item?_writeItem_of_ne {item : WorkItemRow} {id : Nat} (h : id ≠ item.id) :
    (db.writeItem item).item? id = db.item? id :=
  Keyed.find?_replace_of_ne (f := fun _ => item) (fun _ _ => rfl) h

theorem Db.run?_writeRun_self (run : RunRow) {old : RunRow} (h : db.run? run.id = some old) :
    (db.writeRun run).run? run.id = some run :=
  Keyed.find?_replace_self (f := fun _ => run) (fun _ _ => rfl) h

theorem Db.run?_writeRun_of_ne {run : RunRow} {id : RunId} (h : id ≠ run.id) : (db.writeRun run).run? id = db.run? id :=
  Keyed.find?_replace_of_ne (f := fun _ => run) (fun _ _ => rfl) h

theorem itemRun_eq_some {item : WorkItemRow} {run : RunRow} (h : itemRun db item = some run) :
    item.runId = some run.id ∧ run ∈ db.runs := by
  obtain ⟨id, hid, hrun⟩ := Option.bind_eq_some_iff.mp h
  obtain ⟨hmem, rfl⟩ := Db.run?_eq_some hrun
  exact ⟨hid, hmem⟩

theorem mem_startedRuns {item : WorkItemRow} {run : RunRow} :
    (item, run) ∈ startedRuns db ↔ item ∈ db.items ∧ item.lifecycle = .started ∧ itemRun db item = some run := by
  unfold startedRuns
  rw [List.mem_filterMap]
  constructor
  · rintro ⟨old, hmem, h⟩
    split at h
    · rename_i hstarted
      obtain ⟨r, hrun, heq⟩ := Option.map_eq_some_iff.mp h
      cases heq
      exact ⟨hmem, hstarted, hrun⟩
    · cases h
  · rintro ⟨hmem, hstarted, hrun⟩
    exact ⟨item, hmem, by rw [if_pos hstarted, hrun]; rfl⟩

/-- Each started item is there once. -/
theorem startedRuns_sublist (db : Db) : ((startedRuns db).map (·.1)).Sublist db.items := by
  unfold startedRuns
  induction db.items with
  | nil => exact .slnil
  | cons item items ih =>
    rw [List.filterMap_cons]
    split
    · exact ih.cons item
    · rename_i pair hpair
      split at hpair
      · obtain ⟨run, -, rfl⟩ := Option.map_eq_some_iff.mp hpair
        exact ih.cons_cons item
      · cases hpair

theorem startedRuns_congr {db' : Db} (hitems : db'.items = db.items) (hruns : db'.runs = db.runs) :
    startedRuns db' = startedRuns db := by
  unfold startedRuns itemRun Db.run?
  rw [hitems, hruns]

theorem mem_activeRuns {missionId : Nat} {run : RunRow} :
    run ∈ activeRuns db missionId ↔ run.terminal = false ∧
      ∃ item ∈ db.items, item.missionId = missionId ∧ item.lifecycle = .started ∧ itemRun db item = some run := by
  unfold activeRuns
  rw [List.mem_filterMap]
  constructor
  · rintro ⟨⟨item, r⟩, hmem, h⟩
    obtain ⟨hitem, hstarted, hrun⟩ := mem_startedRuns.mp hmem
    dsimp only at h
    split at h
    · rename_i hcond
      cases h
      exact ⟨by simpa using hcond.2, item, hitem, hcond.1, hstarted, hrun⟩
    · cases h
  · rintro ⟨hterminal, item, hitem, hmission, hstarted, hrun⟩
    exact ⟨(item, run), mem_startedRuns.mpr ⟨hitem, hstarted, hrun⟩, by simp [hmission, hterminal]⟩

end Lookups

end Jarvis.Missions
