/-
  Jarvis.Missions.Frames — which tables each transaction writes.

  `Writes tables db db'` says that the two databases agree outside the given tables. Each
  transaction has its footprint, and `step_writes` gives the footprint of every action of
  the system, so that an invariant has to look only at the actions that write its tables.
-/
import Jarvis.Missions.System

namespace Jarvis.Missions

open Jarvis.Runtime (RunStatus DesiredState Mode)

/-- The columns of the database, the two parts of the ledger apart. -/
inductive Table where
  | missions
  | teams
  | workflowVersions
  | items
  | dependencies
  | jobs
  | runs
  | commands
  | controls
  | reservations
  | turns
  | messages
  | wakeups
  | modelCalls
  | receipts
  | records
  | lastPosition
  | nextId
  deriving DecidableEq

def Table.Same (db db' : Db) : Table → Prop
  | .missions => db'.missions = db.missions
  | .teams => db'.teams = db.teams
  | .workflowVersions => db'.workflowVersions = db.workflowVersions
  | .items => db'.items = db.items
  | .dependencies => db'.dependencies = db.dependencies
  | .jobs => db'.jobs = db.jobs
  | .runs => db'.runs = db.runs
  | .commands => db'.commands = db.commands
  | .controls => db'.ledger.controls = db.ledger.controls
  | .reservations => db'.ledger.reservations = db.ledger.reservations
  | .turns => db'.turns = db.turns
  | .messages => db'.messages = db.messages
  | .wakeups => db'.wakeups = db.wakeups
  | .modelCalls => db'.modelCalls = db.modelCalls
  | .receipts => db'.receipts = db.receipts
  | .records => db'.records = db.records
  | .lastPosition => db'.lastPosition = db.lastPosition
  | .nextId => db'.nextId = db.nextId

/-- The databases agree outside the tables. -/
def Writes (tables : List Table) (db db' : Db) : Prop := ∀ table, table ∉ tables → table.Same db db'

namespace Writes

variable {tables tables' : List Table} {db db₁ db₂ : Db}

theorem refl (tables : List Table) (db : Db) : Writes tables db db := by
  intro table _
  cases table <;> rfl

theorem trans (h : Writes tables db db₁) (h' : Writes tables db₁ db₂) : Writes tables db db₂ := by
  intro table hnot
  have h₁ := h table hnot
  have h₂ := h' table hnot
  cases table <;> exact Eq.trans h₂ h₁

theorem mono (h : Writes tables db db₁) (hsub : tables ⊆ tables') : Writes tables' db db₁ :=
  fun table hnot => h table fun hin => hnot (hsub hin)

theorem foldl {β : Type} {g : Db → β → Db} (h : ∀ db x, Writes tables db (g db x)) :
    ∀ (xs : List β) (db : Db), Writes tables db (xs.foldl g db) := by
  intro xs
  induction xs with
  | nil => intro db; exact refl _ _
  | cons x xs ih => intro db; exact (h db x).trans (ih _)

theorem foldlM {β : Type} {ε : Type} {g : Db → β → Except ε Db} (h : ∀ db x db', g db x = .ok db' → Writes tables db db') :
    ∀ (xs : List β) (db db' : Db), xs.foldlM g db = .ok db' → Writes tables db db' :=
  fun _ db _ hok => Steps.foldlM_invariant (fun _ _ _ hbefore hx => hbefore.trans (h _ _ _ hx)) (refl tables db) hok

end Writes

/-! ## The basic writes -/

section Basic

variable (db : Db)

theorem writeMission_writes (now : Nat) (mission : MissionRow) : Writes [.missions] db (db.writeMission now mission) := by
  intro table hnot
  cases table <;> first | rfl | simp at hnot

theorem writeItem_writes (item : WorkItemRow) : Writes [.items] db (db.writeItem item) := by
  intro table hnot
  cases table <;> first | rfl | simp at hnot

theorem writeTurn_writes (turn : TurnRow) : Writes [.turns] db (db.writeTurn turn) := by
  intro table hnot
  cases table <;> first | rfl | simp at hnot

theorem emit_writes : Writes [.lastPosition] db db.emit := by
  intro table hnot
  cases table <;> first | rfl | simp at hnot

theorem ledger_writes (ledger : Ledger ActionId) : Writes [.controls, .reservations] db { db with ledger } := by
  intro table hnot
  cases table <;> first | rfl | simp at hnot

end Basic

/-! ## The owner's requests -/

section Owner

variable {db db' : Db}

theorem createMission_writes (db : Db) (mission : MissionRow) (team : TeamVersionRow) (now : Nat) :
    Writes [.missions, .teams, .controls, .lastPosition, .nextId] db (createMission db mission team now) := by
  intro table hnot
  cases table <;> first | rfl | simp at hnot

theorem updateAutonomy_writes {mission version now : Nat} {enabled unpaid : Bool} {key : String}
    (h : updateAutonomy db mission enabled version key unpaid now = .ok db') :
    Writes [.records, .missions, .lastPosition] db db' := by
  obtain rfl | ⟨mission, -, h⟩ := withMission_ok h
  · exact Writes.refl _ _
  · split at h
    · cases h
    · cases h
      intro table hnot
      cases table <;> first | rfl | simp at hnot

theorem updateDirective_writes {mission version now : Nat} {constraints : List String} {key : String}
    (h : updateDirective db mission constraints version key now = .ok db') :
    Writes [.records, .missions, .lastPosition] db db' := by
  obtain rfl | ⟨mission, -, h⟩ := withMission_ok h
  · exact Writes.refl _ _
  · split at h
    · cases h
    · cases h
      intro table hnot
      cases table <;> first | rfl | simp at hnot

theorem updateTeam_writes {mission version now : Nat} {team : TeamVersionRow} {key : String}
    (h : updateTeam db mission team version key now = .ok db') :
    Writes [.records, .teams, .nextId, .missions, .lastPosition] db db' := by
  unfold updateTeam at h
  dsimp only at h
  repeat' split at h
  all_goals cases h
  · exact Writes.refl _ _
  · intro table hnot
    cases table <;> first | rfl | simp at hnot

theorem createMessage_writes {mission version now : Nat} {body key : String} {paid : Bool}
    (h : createMessage db mission body version paid key now = .ok db') :
    Writes [.records, .messages, .wakeups, .turns, .nextId, .missions, .lastPosition] db db' := by
  obtain rfl | ⟨mission, -, h⟩ := withMission_ok h
  · exact Writes.refl _ _
  · split at h
    · cases h
    · cases h
      intro table hnot
      cases table <;> first | rfl | simp at hnot

theorem enqueue_writes {run : RunRow} {kind : RunCommandKind} {key : String} {instruction : Option String}
    (h : enqueue db run kind key instruction = .ok db') : Writes [.commands, .runs, .lastPosition] db db' := by
  unfold enqueue at h
  repeat' split at h
  all_goals cases h
  · exact Writes.refl _ _
  · intro table hnot
    cases table <;> first | rfl | simp at hnot

theorem controlMission_writes {mission order now : Nat} {body : MissionControlRequest}
    (h : controlMission db mission body order now = .ok db') :
    Writes [.commands, .runs, .lastPosition, .controls, .records, .missions] db db' := by
  obtain rfl | ⟨mission, -, h⟩ := withMission_ok h
  · exact Writes.refl _ _
  · dsimp only at h
    split at h
    · cases h
    · rename_i commanded hcommand
      cases h
      have hfirst : Writes [.commands, .runs, .lastPosition] db commanded := by
        split at hcommand
        · exact enqueue_writes hcommand
        · cases hcommand
          exact Writes.refl _ _
      refine (hfirst.mono (by decide)).trans ?_
      intro table hnot
      cases table <;> first | rfl | simp at hnot

theorem startItem_writes {mission item version now : Nat} {reply : StartReply}
    (h : startItem db mission item version now = .ok (db', reply)) : Writes [.controls, .reservations] db db' := by
  unfold startItem at h
  dsimp only at h
  repeat' split at h
  all_goals cases h
  · exact Writes.refl _ _
  · exact ledger_writes _ _

theorem createJob_writes {project item : Nat} {body : JobCreate} {projectActive configured : Bool} {jobId : JobId} {runId : RunId}
    (h : createJob db project item body projectActive configured = .ok (db', jobId, runId)) :
    Writes [.jobs, .runs, .records, .nextId, .lastPosition] db db' := by
  unfold createJob at h
  dsimp only at h
  repeat' split at h
  all_goals cases h
  · exact Writes.refl _ _
  · intro table hnot
    cases table <;> first | rfl | simp at hnot

theorem releaseItem_writes {mission item now : Nat} (h : releaseItem db mission item now = .ok db') :
    Writes [.reservations] db db' := by
  unfold releaseItem at h
  split at h
  · cases h
  · cases h
    intro table hnot
    cases table <;> first | rfl | simp at hnot

theorem linkItem_writes {mission item now : Nat} {jobId : JobId} {runId : RunId}
    (h : linkItem db mission item jobId runId now = .ok db') : Writes [.items, .missions, .lastPosition] db db' := by
  unfold linkItem at h
  dsimp only at h
  repeat' split at h
  all_goals cases h
  intro table hnot
  cases table <;> first | rfl | simp at hnot

end Owner

/-! ## The manager services -/

section Services

variable {db db' : Db}

theorem assign_writes (db : Db) (mission : MissionRow) (item : WorkItemRow) (now : Nat) :
    Writes [.jobs, .runs, .lastPosition, .items, .missions] db (assign db mission item now) := by
  unfold assign
  dsimp only
  split <;> split <;> (intro table hnot; cases table <;> first | rfl | simp at hnot)

theorem dispatchItem_writes (db : Db) (mission : MissionRow) (item : WorkItemRow) (now : Nat) :
    Writes [.jobs, .runs, .lastPosition, .items, .missions, .controls, .reservations] db
      (dispatchItem db mission item now) := by
  unfold dispatchItem
  dsimp only
  split
  · exact (writeMission_writes _ _ _).mono (by decide)
  · split
    · exact (writeMission_writes _ _ _).mono (by decide)
    · split
      · refine Writes.trans ?_ ((writeMission_writes _ _ _).mono (by decide))
        exact (ledger_writes db _).mono (by decide)
      · split
        · refine Writes.trans ?_ ((assign_writes _ _ _ _).mono (by decide))
          exact (ledger_writes db _).mono (by decide)
        · refine Writes.trans ?_ ((writeMission_writes _ _ _).mono (by decide))
          exact (ledger_writes db _).mono (by decide)

theorem dispatchReady_writes (db : Db) (mode : Mode) (lockedMissions lockedItems : List Nat) (now : Nat) :
    Writes [.jobs, .runs, .lastPosition, .items, .missions, .controls, .reservations] db
      (dispatchReady db mode lockedMissions lockedItems now) := by
  unfold dispatchReady
  split
  · exact Writes.refl _ _
  · dsimp only
    split
    · refine Writes.trans ?_ ((writeMission_writes _ _ _).mono (by decide))
      exact (ledger_writes db _).mono (by decide)
    · split
      · split
        · refine Writes.trans ?_ ((writeMission_writes _ _ _).mono (by decide))
          exact (ledger_writes db _).mono (by decide)
        · exact (ledger_writes db _).mono (by decide)
      · refine Writes.trans ?_ (dispatchItem_writes _ _ _ _)
        exact (ledger_writes db _).mono (by decide)

theorem claim_writes {service : Service} {locked : List TurnId} {now : Nat} {turnId : TurnId}
    (h : claim db service locked now = some (db', turnId)) : Writes [.turns, .lastPosition] db db' := by
  unfold claim at h
  obtain ⟨turn, -, heq⟩ := Option.map_eq_some_iff.mp h
  cases heq
  intro table hnot
  cases table <;> first | rfl | simp at hnot

theorem beginCall_writes {service : Service} {turnId : TurnId} {request : ManagerRequest} {now : Nat} {reply : CallReply}
    (h : beginCall db service turnId request now = .ok (db', reply)) :
    Writes [.controls, .reservations, .turns, .modelCalls] db db' := by
  unfold beginCall at h
  dsimp only at h
  repeat' split at h
  all_goals cases h
  all_goals (intro table hnot; cases table <;> first | rfl | simp at hnot)

theorem storeReceipt_writes {turnId : TurnId} {request : ManagerRequest} {result : ProviderResult} {now : Nat}
    (h : storeReceipt db turnId request result now = .ok db') :
    Writes [.receipts, .modelCalls, .controls, .reservations] db db' := by
  unfold storeReceipt at h
  dsimp only at h
  repeat' split at h
  all_goals cases h
  all_goals (intro table hnot; cases table <;> first | rfl | simp at hnot)

theorem applyItem_writes {turn : TurnRow} {proposal : WorkItemProposal} (h : applyItem turn db proposal = .ok db') :
    Writes [.items, .dependencies, .lastPosition, .nextId] db db' := by
  unfold applyItem at h
  dsimp only at h
  repeat' split at h
  all_goals cases h
  all_goals (intro table hnot; cases table <;> first | rfl | simp at hnot)

theorem scheduleDeadline_writes (db : Db) (mission : MissionRow) (turn : TurnRow) (decision : ManagerDecision) (now : Nat) :
    Writes [.wakeups, .nextId] db (scheduleDeadline db mission turn decision now) := by
  unfold scheduleDeadline
  dsimp only
  repeat' split
  · exact Writes.refl _ _
  · exact Writes.refl _ _
  · intro table hnot
    cases table <;> first | rfl | simp at hnot

theorem applyStale_writes (db : Db) (turn : TurnRow) (decision : ManagerDecision) (now : Nat) :
    Writes [.turns, .messages, .wakeups, .lastPosition] db (applyStale db turn decision now) := by
  intro table hnot
  cases table <;> first | rfl | simp at hnot

theorem recordDecision_writes (db : Db) (mission : MissionRow) (turn : TurnRow) (decision : ManagerDecision) (now : Nat) :
    Writes [.turns, .messages, .wakeups, .dependencies, .nextId, .missions] db
      (recordDecision db mission turn decision now) := by
  unfold recordDecision
  dsimp only
  refine Writes.trans ?_ ((scheduleDeadline_writes _ _ _ _ _).mono (by decide))
  intro table hnot
  cases table <;> first | rfl | simp at hnot

/-- What an applied decision went through. -/
theorem applyCurrent_ok {mission : MissionRow} {turn : TurnRow} {decision : ManagerDecision} {now : Nat}
    (h : applyCurrent db mission turn decision now = .ok db') :
    ∃ (ledger ledger' : Ledger ActionId) (proposed : Db),
      decision.workItems.foldlM (applyItem turn) { db with ledger } = .ok proposed ∧
      db' = Db.emit { recordDecision proposed mission turn decision now with ledger := ledger' } := by
  unfold applyCurrent at h
  split at h
  · cases h
  · rename_i ledger hledger
    split at h
    · cases h
    · rename_i proposed hproposed
      dsimp only at h
      split at h
      · cases h
      · rename_i ledger' hledger'
        cases h
        exact ⟨ledger, ledger', proposed, hproposed, rfl⟩

theorem applyCurrent_writes {mission : MissionRow} {turn : TurnRow} {decision : ManagerDecision} {now : Nat}
    (h : applyCurrent db mission turn decision now = .ok db') :
    Writes [.turns, .messages, .wakeups, .lastPosition, .controls, .reservations, .items, .dependencies, .nextId, .missions]
      db db' := by
  obtain ⟨ledger, ledger', proposed, hproposed, rfl⟩ := applyCurrent_ok h
  have hitems := Writes.foldlM (fun _ _ _ => applyItem_writes) _ _ _ hproposed
  refine ((ledger_writes db ledger).mono (by decide)).trans ((hitems.mono (by decide)).trans ?_)
  refine Writes.trans ?_ ((emit_writes _).mono (by decide))
  refine Writes.trans ?_ ((ledger_writes _ _).mono (by decide))
  exact (recordDecision_writes _ _ _ _ _).mono (by decide)

theorem apply_writes {turnId : TurnId} {decision : ManagerDecision} {now : Nat} (h : apply db turnId decision now = .ok db') :
    Writes [.turns, .messages, .wakeups, .lastPosition, .controls, .reservations, .items, .dependencies, .nextId, .missions]
      db db' := by
  unfold apply at h
  split at h
  · cases h
  · split at h
    · cases h
    · split at h
      · cases h
        exact (applyStale_writes _ _ _ _).mono (by decide)
      · exact applyCurrent_writes h

theorem keepLiability_writes (db : Db) (mission : MissionRow) (turn : TurnRow) (now : Nat) :
    Writes [.controls, .reservations] db (keepLiability db mission turn now) := by
  unfold keepLiability
  repeat' split
  · exact Writes.refl _ _
  · exact ledger_writes _ _
  · exact Writes.refl _ _

theorem failTurn_writes (db : Db) (mission : MissionRow) (turn : TurnRow) (code : FailureCode) (now : Nat) :
    Writes [.turns, .missions, .messages, .wakeups, .lastPosition] db (failTurn db mission turn code now) := by
  unfold failTurn
  dsimp only
  split <;> (intro table hnot; cases table <;> first | rfl | simp at hnot)

theorem fail_writes (db : Db) (service : Service) (turnId : TurnId) (code : FailureCode) (now : Nat) :
    Writes [.turns, .missions, .controls, .reservations, .messages, .wakeups, .lastPosition] db
      (fail db service turnId code now) := by
  unfold fail
  split
  · exact Writes.refl _ _
  · split
    · exact Writes.refl _ _
    · split
      · exact Writes.refl _ _
      · split
        · refine Writes.trans ?_ ((writeMission_writes _ _ _).mono (by decide))
          exact (writeTurn_writes _ _).mono (by decide)
        · dsimp only
          split
          · refine Writes.trans ?_ ((writeTurn_writes _ _).mono (by decide))
            exact (keepLiability_writes _ _ _ _).mono (by decide)
          · refine Writes.trans ?_ ((failTurn_writes _ _ _ _ _).mono (by decide))
            exact (keepLiability_writes _ _ _ _).mono (by decide)

theorem materializeWakeup_writes (db : Db) (mode : Mode) (locked : List Nat) (now : Nat) :
    Writes [.controls, .messages, .turns, .wakeups, .nextId, .missions] db (materializeWakeup db mode locked now) := by
  unfold materializeWakeup
  split
  · exact Writes.refl _ _
  · split
    · exact Writes.refl _ _
    · dsimp only
      repeat' split
      all_goals (intro table hnot; cases table <;> first | rfl | simp at hnot)

theorem awaitApproval_writes (now : Nat) (db : Db) (active : WorkItemRow × RunRow) :
    Writes [.missions] db (awaitApproval now db active) := by
  unfold awaitApproval
  repeat' split
  · exact Writes.refl _ _
  · exact writeMission_writes _ _ _
  · exact writeMission_writes _ _ _
  · exact Writes.refl _ _

theorem settleItem_writes (now : Nat) (db : Db) (ended : WorkItemRow × RunRow) :
    Writes [.items, .controls, .reservations] db (settleItem now db ended) := by
  unfold settleItem
  dsimp only
  repeat' split
  all_goals (intro table hnot; cases table <;> first | rfl | simp at hnot)

theorem readyItem_writes (db : Db) (item : WorkItemRow) : Writes [.items] db (readyItem db item) := by
  unfold readyItem
  split
  · exact Writes.refl _ _
  · exact writeItem_writes _ _

theorem wakeMission_writes (db : Db) (mission : MissionRow) (item : WorkItemRow) (cursor now : Nat) :
    Writes [.wakeups, .nextId, .missions] db (wakeMission db mission item cursor now) := by
  unfold wakeMission
  dsimp only
  split
  · exact Writes.refl _ _
  · intro table hnot
    cases table <;> first | rfl | simp at hnot

theorem announce_writes (now : Nat) (db : Db) (itemId : Nat) :
    Writes [.lastPosition, .items, .missions, .wakeups, .nextId] db (announce now db itemId) := by
  unfold announce
  split
  · exact Writes.refl _ _
  · dsimp only
    split
    · split
      · intro table hnot
        cases table <;> first | rfl | simp at hnot
      · split
        · intro table hnot
          cases table <;> first | rfl | simp at hnot
        · split
          · refine Writes.trans ?_ ((wakeMission_writes _ _ _ _ _).mono (by decide))
            intro table hnot
            cases table <;> first | rfl | simp at hnot
          · intro table hnot
            cases table <;> first | rfl | simp at hnot
    · exact (emit_writes _).mono (by decide)

theorem reconcileItems_writes (db : Db) (now : Nat) :
    Writes [.missions, .items, .controls, .reservations, .wakeups, .nextId, .lastPosition] db (reconcileItems db now) := by
  unfold reconcileItems
  dsimp only
  refine Writes.trans ?_ (Writes.foldl (fun db id => (announce_writes now db id).mono (by decide)) _ _)
  refine Writes.trans ?_ (Writes.foldl (fun db item => (readyItem_writes db item).mono (by decide)) _ _)
  refine Writes.trans ?_ (Writes.foldl (fun db ended => (settleItem_writes now db ended).mono (by decide)) _ _)
  exact Writes.foldl (fun db active => (awaitApproval_writes now db active).mono (by decide)) _ _

end Services

/-! ## Runs -/

section Runs

variable {db db' : Db} {runId : RunId}

theorem executeRun_writes {status : RunStatus} {desired : DesiredState} {now : Nat}
    (h : executeRun db runId status desired now = some db') : Writes [.runs, .lastPosition] db db' := by
  unfold executeRun at h
  repeat' split at h
  all_goals cases h
  all_goals (intro table hnot; cases table <;> first | rfl | simp at hnot)

theorem waitForCapacity_writes {attempt now : Nat} (h : waitForCapacity db runId attempt now = some db') :
    Writes [.missions, .lastPosition] db db' := by
  unfold waitForCapacity at h
  repeat' split at h
  all_goals cases h
  all_goals (intro table hnot; cases table <;> first | rfl | simp at hnot)

theorem leaveCapacity_writes {now : Nat} (h : leaveCapacity db runId now = some db') :
    Writes [.missions, .lastPosition] db db' := by
  unfold leaveCapacity at h
  repeat' split at h
  all_goals cases h
  all_goals (intro table hnot; cases table <;> first | rfl | simp at hnot)

theorem requestReconciliation_writes (h : requestReconciliation db runId = some db') :
    Writes [.runs, .lastPosition] db db' := by
  unfold requestReconciliation at h
  obtain ⟨run, -, rfl⟩ := Option.map_eq_some_iff.mp h
  intro table hnot
  cases table <;> first | rfl | simp at hnot

theorem retryRun_writes (h : retryRun db runId = some db') : Writes [.runs, .nextId, .lastPosition] db db' := by
  unfold retryRun at h
  repeat' split at h
  all_goals cases h
  intro table hnot
  cases table <;> first | rfl | simp at hnot

theorem runModelCall_writes {correlation : Nat} {outcome : CallOutcome}
    (h : runModelCall db runId correlation outcome = some db') : Writes [.modelCalls] db db' := by
  unfold runModelCall at h
  obtain ⟨run, -, rfl⟩ := Option.map_eq_some_iff.mp h
  intro table hnot
  cases table <;> first | rfl | simp at hnot

end Runs

/-! ## The system -/

/-- The tables an action can write. -/
def footprint : Action → List Table
  | .createMission _ _ _ => [.missions, .teams, .controls, .lastPosition, .nextId]
  | .updateAutonomy _ _ _ _ _ _ | .updateDirective _ _ _ _ _ => [.records, .missions, .lastPosition]
  | .updateTeam _ _ _ _ _ => [.records, .teams, .nextId, .missions, .lastPosition]
  | .createMessage _ _ _ _ _ _ => [.records, .messages, .wakeups, .turns, .nextId, .missions, .lastPosition]
  | .controlMission _ _ _ _ => [.commands, .runs, .lastPosition, .controls, .records, .missions]
  | .startItem _ _ _ _ => [.controls, .reservations]
  | .createJob _ _ _ => [.jobs, .runs, .records, .nextId, .lastPosition]
  | .releaseItem _ _ => [.reservations]
  | .linkItem _ _ => [.items, .missions, .lastPosition]
  | .reconcileItems _ => [.missions, .items, .controls, .reservations, .wakeups, .nextId, .lastPosition]
  | .materializeWakeup _ _ _ => [.controls, .messages, .turns, .wakeups, .nextId, .missions]
  | .dispatchReady _ _ _ _ => [.jobs, .runs, .lastPosition, .items, .missions, .controls, .reservations]
  | .claim _ _ _ => [.turns, .lastPosition]
  | .beginCall _ _ => [.controls, .reservations, .turns, .modelCalls]
  | .storeReceipt _ _ => [.receipts, .modelCalls, .controls, .reservations]
  | .apply _ _ =>
    [.turns, .messages, .wakeups, .lastPosition, .controls, .reservations, .items, .dependencies, .nextId, .missions]
  | .fail _ _ => [.turns, .missions, .controls, .reservations, .messages, .wakeups, .lastPosition]
  | .executeRun _ _ _ _ | .requestReconciliation _ => [.runs, .lastPosition]
  | .waitForCapacity _ _ _ | .leaveCapacity _ _ => [.missions, .lastPosition]
  | .retryRun _ => [.runs, .nextId, .lastPosition]
  | .runModelCall _ _ _ => [.modelCalls]
  | .emit => [.lastPosition]
  | .crashStart _ | .load _ _ | .invoke _ _ | .crash _ => []

/-- A request of the owner that is answered. -/
theorem toOption_map {ε : Type} {x : Except ε Db} {f : Db → Sys} {s' : Sys} (h : x.toOption.map f = some s') :
    ∃ db, x = .ok db ∧ s' = f db := by
  cases x with
  | error e => cases h
  | ok db => exact ⟨db, rfl, (Option.some.inj h).symm⟩

variable {s s' : Sys} {action : Action}

theorem startStep_writes {call : StartCall} (h : startStep s call action = some s') :
    Writes (footprint action) s.db s'.db := by
  unfold startStep at h
  split at h
  · split at h
    · split at h <;> cases h
      · rename_i hjob
        exact createJob_writes hjob
      · exact Writes.refl _ _
    · cases h
  · split at h
    · split at h <;> cases h
      · rename_i hrelease
        exact releaseItem_writes hrelease
      · exact Writes.refl _ _
    · cases h
  · split at h
    · split at h <;> cases h
      · rename_i hlink
        exact linkItem_writes hlink
      · exact Writes.refl _ _
    · cases h
  · cases h
    exact Writes.refl _ _
  · cases h

theorem executionStep_writes {e : Execution} (h : executionStep s e action = some s') :
    Writes (footprint action) s.db s'.db := by
  unfold executionStep at h
  split at h
  · split at h
    · split at h <;> cases h <;> exact Writes.refl _ _
    · cases h
  · split at h
    · split at h <;> cases h
      · rename_i hbegin
        exact beginCall_writes hbegin
      · rename_i hbegin
        exact beginCall_writes hbegin
      · exact Writes.refl _ _
    · cases h
  · split at h
    · dsimp only at h
      repeat' split at h
      all_goals cases h
      all_goals exact Writes.refl _ _
    · cases h
  · split at h
    · split at h <;> cases h
      · rename_i hstore
        exact storeReceipt_writes hstore
      · exact Writes.refl _ _
    · cases h
  · split at h
    · split at h
      · rename_i happly
        cases h
        exact apply_writes happly
      · cases h
        exact Writes.refl _ _
    · cases h
  · split at h
    · cases h
      exact fail_writes _ _ _ _ _
    · cases h
  · cases h
    exact Writes.refl _ _
  · cases h

/-- An action writes only its footprint. -/
theorem step_writes (h : step s action = some s') : Writes (footprint action) s.db s'.db := by
  cases action with
  | createMission mission team now =>
    cases h
    exact createMission_writes _ _ _ _
  | updateAutonomy mission enabled version key unpaid now =>
    obtain ⟨db, hdb, rfl⟩ := toOption_map h
    exact updateAutonomy_writes hdb
  | updateDirective mission constraints version key now =>
    obtain ⟨db, hdb, rfl⟩ := toOption_map h
    exact updateDirective_writes hdb
  | updateTeam mission team version key now =>
    obtain ⟨db, hdb, rfl⟩ := toOption_map h
    exact updateTeam_writes hdb
  | createMessage mission body version paid key now =>
    obtain ⟨db, hdb, rfl⟩ := toOption_map h
    exact createMessage_writes hdb
  | controlMission mission body order now =>
    obtain ⟨db, hdb, rfl⟩ := toOption_map h
    exact controlMission_writes hdb
  | startItem mission item version now =>
    simp only [step] at h
    split at h <;> cases h
    · rename_i hstart
      exact startItem_writes hstart
    · exact Writes.refl _ _
  | createJob call projectActive configured =>
    obtain ⟨c, -, hc⟩ := Option.bind_eq_some_iff.mp h
    exact startStep_writes hc
  | releaseItem call now =>
    obtain ⟨c, -, hc⟩ := Option.bind_eq_some_iff.mp h
    exact startStep_writes hc
  | linkItem call now =>
    obtain ⟨c, -, hc⟩ := Option.bind_eq_some_iff.mp h
    exact startStep_writes hc
  | crashStart call =>
    obtain ⟨c, -, hc⟩ := Option.bind_eq_some_iff.mp h
    exact startStep_writes hc
  | reconcileItems now =>
    cases h
    exact reconcileItems_writes _ _
  | materializeWakeup mode locked now =>
    cases h
    exact materializeWakeup_writes _ _ _ _
  | dispatchReady mode lockedMissions lockedItems now =>
    cases h
    exact dispatchReady_writes _ _ _ _ _
  | claim service locked now =>
    obtain ⟨⟨db, turnId⟩, hclaim, rfl⟩ := Option.map_eq_some_iff.mp h
    exact claim_writes hclaim
  | load e configured =>
    obtain ⟨execution, -, he⟩ := Option.bind_eq_some_iff.mp h
    exact executionStep_writes he
  | beginCall e now =>
    obtain ⟨execution, -, he⟩ := Option.bind_eq_some_iff.mp h
    exact executionStep_writes he
  | invoke e result =>
    obtain ⟨execution, -, he⟩ := Option.bind_eq_some_iff.mp h
    exact executionStep_writes he
  | storeReceipt e now =>
    obtain ⟨execution, -, he⟩ := Option.bind_eq_some_iff.mp h
    exact executionStep_writes he
  | apply e now =>
    obtain ⟨execution, -, he⟩ := Option.bind_eq_some_iff.mp h
    exact executionStep_writes he
  | fail e now =>
    obtain ⟨execution, -, he⟩ := Option.bind_eq_some_iff.mp h
    exact executionStep_writes he
  | crash e =>
    obtain ⟨execution, -, he⟩ := Option.bind_eq_some_iff.mp h
    exact executionStep_writes he
  | executeRun run status desired now =>
    obtain ⟨db, hdb, rfl⟩ := Option.map_eq_some_iff.mp h
    exact executeRun_writes hdb
  | waitForCapacity run attempt now =>
    obtain ⟨db, hdb, rfl⟩ := Option.map_eq_some_iff.mp h
    exact waitForCapacity_writes hdb
  | leaveCapacity run now =>
    obtain ⟨db, hdb, rfl⟩ := Option.map_eq_some_iff.mp h
    exact leaveCapacity_writes hdb
  | requestReconciliation run =>
    obtain ⟨db, hdb, rfl⟩ := Option.map_eq_some_iff.mp h
    exact requestReconciliation_writes hdb
  | retryRun run =>
    obtain ⟨db, hdb, rfl⟩ := Option.map_eq_some_iff.mp h
    exact retryRun_writes hdb
  | runModelCall run correlation outcome =>
    obtain ⟨db, hdb, rfl⟩ := Option.map_eq_some_iff.mp h
    exact runModelCall_writes hdb
  | emit =>
    cases h
    exact emit_writes _

end Jarvis.Missions
