/-
  Jarvis.Missions.Lifecycle — how the lifecycle of a mission ends.

  A mission that is cancelled, completed or archived should only be archived any more, and one
  that is cancelling should only become cancelled, once no run of a started item is left. Most
  writers of the lifecycle do not look at what it was: a decision, a budget failure, a run
  that waits for approval or capacity and the owner's pause, resume and cancel all overwrite
  an ended one (`cancelled_mission_reactivated`). In runs in which none of them meets an ended
  mission the lifecycle ends monotonically (`lifecycle_ends`).
-/
import Jarvis.Missions.Moves
import Jarvis.Missions.Turns

namespace Jarvis.Missions

open Jarvis.Runtime (RunStatus DesiredState Mode)
open Jarvis.Steps

def Db.lifecycle? (db : Db) (id : Nat) : Option MissionLifecycle := (db.mission? id).map (·.lifecycle)

/-- The changes of a lifecycle that respect its end; `quiet` says that no run is left. -/
def MissionLifecycle.Allows (quiet : Prop) : MissionLifecycle → MissionLifecycle → Prop
  | .cancelled, after => after = .cancelled ∨ after = .archived
  | .completed, after => after = .completed ∨ after = .archived
  | .archived, after => after = .archived
  | .cancelling, after => after = .cancelling ∨ (after = .cancelled ∧ quiet)
  | _, _ => True

/-- From `db` to `db'` the lifecycles of missions change as their ends allow. -/
def RespectsEnds (db db' : Db) : Prop :=
  ∀ id before, db.lifecycle? id = some before →
    ∃ after, db'.lifecycle? id = some after ∧ before.Allows (activeRuns db id = []) after

section Allows

variable {quiet : Prop} {lifecycle after : MissionLifecycle}

theorem MissionLifecycle.Allows.rfl : lifecycle.Allows quiet lifecycle := by
  cases lifecycle <;> simp [MissionLifecycle.Allows]

theorem MissionLifecycle.allows_of_open (h : lifecycle.ended = false) : lifecycle.Allows quiet after := by
  cases lifecycle <;> first | exact trivial | cases h

end Allows

/-! ## Writes -/

section Writes

variable {db base db' : Db} {now : Nat}

theorem Db.lifecycle?_congr (h : db'.missions = db.missions) (id : Nat) : db'.lifecycle? id = db.lifecycle? id := by
  unfold Db.lifecycle? Db.mission?
  rw [h]

theorem Db.lifecycle?_writeMission (db : Db) (now : Nat) (mission : MissionRow) (id : Nat) :
    (db.writeMission now mission).lifecycle? id =
      if id = mission.id then (db.lifecycle? id).map fun _ => mission.lifecycle else db.lifecycle? id := by
  unfold Db.lifecycle?
  rw [Db.mission?_writeMission]
  cases hold : db.mission? id with
  | none => simp
  | some old =>
    have hid := (Db.mission?_eq_some hold).2
    simp only [Option.map_some]
    rw [hid]
    split
    · split
      · rename_i heq
        rw [← heq]
      · rfl
    · rfl

theorem RespectsEnds.of_missions (h : db'.missions = db.missions) : RespectsEnds db db' :=
  fun id before hb => ⟨before, (Db.lifecycle?_congr h id).trans hb, .rfl⟩

theorem RespectsEnds.then (h : RespectsEnds db base) (hmissions : db'.missions = base.missions) : RespectsEnds db db' := by
  intro id before hb
  rw [Db.lifecycle?_congr hmissions]
  exact h id before hb

theorem RespectsEnds.emit (h : RespectsEnds db db') : RespectsEnds db db'.emit := h.then rfl

theorem RespectsEnds.dispose {id : Nat} {disposition : Disposition} (h : RespectsEnds db db') :
    RespectsEnds db (db'.dispose id disposition) := h.then rfl

theorem RespectsEnds.settleWakeup {id : Option Nat} {status : WakeupStatus} (h : RespectsEnds db db') :
    RespectsEnds db (db'.settleWakeup id status) := h.then rfl

/-- A mission written over the row it was read from. -/
theorem respectsEnds_write {key : Nat} {old mission : MissionRow} (hold : db.mission? key = some old) (hid : mission.id = old.id)
    (hallows : old.lifecycle.Allows (activeRuns db old.id = []) mission.lifecycle)
    (hbase : base.missions = db.missions) : RespectsEnds db (base.writeMission now mission) := by
  intro id before hb
  obtain ⟨-, rfl⟩ := Db.mission?_eq_some hold
  rw [Db.lifecycle?_writeMission, Db.lifecycle?_congr hbase, hb]
  split
  · rename_i heq
    refine ⟨_, rfl, ?_⟩
    rw [heq, hid, Db.lifecycle?, hold] at hb
    cases hb
    rw [heq, hid]
    exact hallows
  · exact ⟨before, rfl, .rfl⟩

end Writes

/-! ## When the ends are respected -/

/-- The decision an execution is about to apply, and the failure it is about to record. -/
def ExecPc.decision? : ExecPc → Option ManagerDecision
  | .apply decision => some decision
  | _ => none

def ExecPc.failure? : ExecPc → Option FailureCode
  | .fail code => some code
  | _ => none

/-- The turn has been overtaken by a directive, a team or its wakeup's item. -/
def overtaken (db : Db) (mission : MissionRow) (turn : TurnRow) : Bool :=
  decide (mission.directiveVersion ≠ turn.directiveVersion ∨ mission.selectedTeamVersionId ≠ turn.teamVersionId ∨
    !wakeupValid db mission (turn.wakeupId.bind db.wakeup?))

/-- What a control of a mission's own scope may do to an ended mission. -/
def MissionControlRequest.sparesEnded (body : MissionControlRequest) (db : Db) (mission : MissionRow) : Prop :=
  body.action = .drain ∨ body.action = .safePoint ∨
    (body.action = .cancel ∧ (mission.lifecycle = .cancelling ∨ (mission.lifecycle = .cancelled ∧ activeRuns db mission.id = [])))

/-- The writers that overwrite a lifecycle meet no mission that has ended. -/
def sparesEnded (s : Sys) : Action → Prop
  | .controlMission id body _ _ => body.scope = .mission →
      (∀ record ∈ s.db.records, record.scope = .control id → record.key ≠ .given body.idempotencyKey) →
        ∀ mission ∈ s.db.mission? id, mission.lifecycle.ended = true → body.sparesEnded s.db mission
  | .apply id _ => ∀ e ∈ s.executions, e.id = id → ∀ decision ∈ e.pc.decision?, ∀ turn ∈ s.db.turn? e.turnId,
      ∀ mission ∈ s.db.mission? turn.missionId, mission.lifecycle.ended = true →
        overtaken s.db mission turn = true ∨ (mission.lifecycle = .completed ∧ decision.lifecycle = .completed)
  | .fail id _ => ∀ e ∈ s.executions, e.id = id → ∀ code ∈ e.pc.failure?, code.budgeted = true →
      ∀ turn ∈ s.db.turn? e.turnId, turn.status ≠ .applied → turn.status ≠ .stale → e.service.maxAttempts ≤ turn.attemptCount →
        ∀ mission ∈ s.db.mission? turn.missionId, mission.lifecycle.ended = false
  | .reconcileItems _ => ∀ mission ∈ s.db.missions, mission.lifecycle.ended = true →
      (∀ run ∈ activeRuns s.db mission.id, run.status ≠ .approvalRequired) ∧
        (mission.lifecycle = .cancelling → activeRuns s.db mission.id = [] ∨
          ∀ ended ∈ endedRuns s.db, ended.1.missionId ≠ mission.id)
  | .waitForCapacity run _ _ => ∀ mission ∈ missionOfRun s.db run, mission.lifecycle.ended = false
  | _ => True

instance (s : Sys) (action : Action) : Decidable (sparesEnded s action) := by
  induction action using Action.casesOn <;> dsimp only [sparesEnded, MissionControlRequest.sparesEnded] <;> infer_instance

/-! ## One step -/

section Step

variable {db db' : Db} {now : Nat}

theorem createMission_respectsEnds (db : Db) (mission : MissionRow) (team : TeamVersionRow) (now : Nat) :
    RespectsEnds db (createMission db mission team now) := by
  intro id before hb
  obtain ⟨old, hold, rfl⟩ := Option.map_eq_some_iff.mp hb
  have hfind : (createMission db mission team now).mission? id = some old := Keyed.find?_append_of_some hold
  exact ⟨old.lifecycle, by rw [Db.lifecycle?, hfind]; rfl, .rfl⟩

theorem updateAutonomy_respectsEnds {mission version : Nat} {enabled unpaid : Bool} {key : String}
    (h : updateAutonomy db mission enabled version key unpaid now = .ok db') : RespectsEnds db db' := by
  obtain rfl | ⟨old, hold, h⟩ := withMission_ok h
  · exact .of_missions rfl
  · split at h <;> cases h
    obtain ⟨-, rfl⟩ := Db.mission?_eq_some hold
    refine RespectsEnds.emit (respectsEnds_write hold rfl ?_ rfl)
    dsimp only
    split
    · rename_i hidle
      exact MissionLifecycle.allows_of_open (by rw [hidle.2]; rfl)
    · exact .rfl

theorem updateDirective_respectsEnds {mission version : Nat} {constraints : List String} {key : String}
    (h : updateDirective db mission constraints version key now = .ok db') : RespectsEnds db db' := by
  obtain rfl | ⟨old, hold, h⟩ := withMission_ok h
  · exact .of_missions rfl
  · split at h <;> cases h
    obtain ⟨-, rfl⟩ := Db.mission?_eq_some hold
    exact RespectsEnds.emit (respectsEnds_write hold rfl .rfl rfl)

theorem updateTeam_respectsEnds {mission version : Nat} {team : TeamVersionRow} {key : String}
    (h : updateTeam db mission team version key now = .ok db') : RespectsEnds db db' := by
  unfold updateTeam at h
  dsimp only at h
  split at h
  · cases h
  · rename_i old hold
    repeat' split at h
    all_goals cases h
    · exact .of_missions rfl
    · obtain ⟨-, rfl⟩ := Db.mission?_eq_some hold
      exact RespectsEnds.emit (respectsEnds_write hold rfl .rfl rfl)

theorem createMessage_respectsEnds {mission version : Nat} {body key : String} {paid : Bool}
    (h : createMessage db mission body version paid key now = .ok db') : RespectsEnds db db' := by
  obtain rfl | ⟨old, hold, h⟩ := withMission_ok h
  · exact .of_missions rfl
  · split at h <;> cases h
    obtain ⟨-, rfl⟩ := Db.mission?_eq_some hold
    exact RespectsEnds.emit (respectsEnds_write hold rfl .rfl rfl)

theorem linkItem_respectsEnds {mission item : Nat} {jobId : JobId} {runId : RunId}
    (h : linkItem db mission item jobId runId now = .ok db') : RespectsEnds db db' := by
  unfold linkItem at h
  dsimp only at h
  split at h
  · rename_i old row hold hrow
    split at h <;> cases h
    obtain ⟨-, rfl⟩ := Db.mission?_eq_some hold
    exact RespectsEnds.emit (respectsEnds_write hold rfl .rfl rfl)
  · cases h

theorem queueTurn_respectsEnds (mission : MissionRow) (wakeup : WakeupRow) (now : Nat) (hbase : db'.missions = db.missions)
    {id : Nat} (hmission : db.mission? id = some mission) : RespectsEnds db (queueTurn db' mission wakeup now) :=
  respectsEnds_write hmission rfl .rfl hbase

theorem materializeWakeup_respectsEnds (db : Db) (mode : Mode) (locked : List Nat) (now : Nat) :
    RespectsEnds db (materializeWakeup db mode locked now) := by
  unfold materializeWakeup
  split
  · exact .of_missions rfl
  · split
    · exact .of_missions rfl
    · rename_i mission hmission
      dsimp only
      repeat' split
      · exact .of_missions rfl
      · exact .of_missions rfl
      · exact .of_missions rfl
      · exact queueTurn_respectsEnds mission _ now rfl hmission

/-- The scheduler only writes missions that have not ended. -/
theorem dispatchReady_respectsEnds (hk : db.keys.Distinct) (mode : Mode) (lockedMissions lockedItems : List Nat) (now : Nat) :
    RespectsEnds db (dispatchReady db mode lockedMissions lockedItems now) := by
  unfold dispatchReady
  split
  · exact .of_missions rfl
  · rename_i mission hfirst
    obtain ⟨hmem, hfilter⟩ := List.mem_filter.mp (first_mem hfirst)
    have hmission : db.mission? mission.id = some mission := (find?_key hk.missions.nodup).mpr ⟨hmem, rfl⟩
    have hopen : mission.lifecycle.ended = false := by
      simp only [dispatchable, Bool.and_eq_true, decide_eq_true_eq] at hfilter
      have hlife := hfilter.1.1.2
      simp only [List.mem_cons, List.not_mem_nil, or_false] at hlife
      obtain h | h | h := hlife <;> rw [h] <;> rfl
    have hwrite : ∀ (base : Db) (row : MissionRow), base.missions = db.missions → row.id = mission.id →
        RespectsEnds db (base.writeMission now row) := fun base row hbase hid =>
      respectsEnds_write hmission hid (MissionLifecycle.allows_of_open hopen) hbase
    dsimp only
    split
    · exact hwrite _ _ rfl rfl
    · split
      · split
        · exact hwrite _ _ rfl rfl
        · exact .of_missions rfl
      · unfold dispatchItem
        dsimp only
        split
        · exact hwrite _ _ rfl rfl
        · split
          · exact hwrite _ _ rfl rfl
          · split
            · exact hwrite _ _ rfl rfl
            · split
              · unfold assign
                dsimp only
                refine RespectsEnds.emit (hwrite _ _ ?_ rfl)
                show Db.missions (ite _ _ _) = _
                repeat' split
                all_goals rfl
              · exact hwrite _ _ rfl rfl

theorem controlled_lifecycle (mission : MissionRow) (body : MissionControlRequest) (active : Bool) :
    (mission.controlled body active).lifecycle =
      if body.scope = .mission then
        match body.action with
        | .pause => .paused
        | .resume => .active
        | .cancel => if active then .cancelling else .cancelled
        | .drain | .safePoint => mission.lifecycle
      else mission.lifecycle := by
  unfold MissionRow.controlled
  by_cases hscope : body.scope = .mission
  · simp only [if_pos hscope]
    cases body.action <;> rfl
  · simp only [if_neg hscope]

theorem rotate_head?_isSome {β : Type} {rows : List β} {n : Nat} (h : (rows.rotate n).head?.isSome = false) : rows = [] := by
  cases hr : rows.rotate n with
  | nil => exact List.rotate_eq_nil_iff.mp hr
  | cons row rest => rw [hr] at h; cases h

theorem controlMission_respectsEnds {s : Sys} {mission order : Nat} {body : MissionControlRequest}
    (hok : sparesEnded s (.controlMission mission body order now))
    (h : controlMission s.db mission body order now = .ok db') : RespectsEnds s.db db' := by
  obtain ⟨rfl, -⟩ | ⟨hfresh, old, hold, h⟩ := withMission_new h
  · exact .of_missions rfl
  · dsimp only at h
    split at h
    · cases h
    · rename_i commanded hcommand
      cases h
      obtain ⟨-, hid⟩ := Db.mission?_eq_some hold
      have hmissions : commanded.missions = s.db.missions := by
        split at hcommand
        · exact enqueue_writes hcommand .missions (by decide)
        · cases hcommand
          rfl
      refine RespectsEnds.emit (respectsEnds_write hold (controlled_id _ _ _) ?_ hmissions)
      rw [controlled_lifecycle]
      split
      · rename_i hscope
        cases hended : old.lifecycle.ended with
        | false => exact MissionLifecycle.allows_of_open hended
        | true =>
          obtain hact | hact | ⟨hact, hcancel⟩ := hok hscope (begin_fresh hfresh) old hold hended
          · rw [hact]
            exact .rfl
          · rw [hact]
            exact .rfl
          · rw [hact]
            show MissionLifecycle.Allows _ _ (if _ then _ else _)
            obtain hlife | ⟨hlife, hquiet⟩ := hcancel
            · rw [hlife]
              split
              · exact .inl rfl
              · rename_i hnone
                exact .inr ⟨rfl, hid ▸ rotate_head?_isSome (Bool.eq_false_of_not_eq_true hnone)⟩
            · rw [← hid, hquiet, hlife]
              exact .inl rfl
      · exact .rfl

theorem apply_respectsEnds {turnId : TurnId} {decision : ManagerDecision}
    (hok : ∀ turn ∈ db.turn? turnId, ∀ mission ∈ db.mission? turn.missionId, mission.lifecycle.ended = true →
      overtaken db mission turn = true ∨ (mission.lifecycle = .completed ∧ decision.lifecycle = .completed))
    (h : apply db turnId decision now = .ok db') : RespectsEnds db db' := by
  unfold apply at h
  split at h
  · cases h
  · rename_i turn hturn
    split at h
    · cases h
    · rename_i mission hmission
      split at h
      · cases h
        exact .of_missions rfl
      · rename_i hcurrent
        obtain ⟨-, hid⟩ := Db.mission?_eq_some hmission
        obtain ⟨ledger, ledger', proposed, hproposed, rfl⟩ := applyCurrent_ok h
        have hmissions : proposed.missions = db.missions :=
          Writes.foldlM (fun _ _ _ => applyItem_writes) _ _ _ hproposed .missions (by decide)
        have hallows : mission.lifecycle.Allows (activeRuns db mission.id = []) decision.lifecycle.lifecycle := by
          cases hended : mission.lifecycle.ended with
          | false => exact MissionLifecycle.allows_of_open hended
          | true =>
            obtain hstale | ⟨hlife, hdecision⟩ := hok turn hturn mission hmission hended
            · exact absurd (of_decide_eq_true hstale) hcurrent
            · rw [hlife, hdecision]
              exact .inl rfl
        have hwrite : RespectsEnds db (proposed.writeMission now (mission.decided turn decision turn.id.text)) :=
          respectsEnds_write hmission rfl hallows hmissions
        exact RespectsEnds.emit (hwrite.then (recordDecision_missions _ _ _ _ _))

theorem fail_respectsEnds {service : Service} {turnId : TurnId} {code : FailureCode}
    (hok : code.budgeted = true → ∀ turn ∈ db.turn? turnId, turn.status ≠ .applied → turn.status ≠ .stale →
      service.maxAttempts ≤ turn.attemptCount → ∀ mission ∈ db.mission? turn.missionId, mission.lifecycle.ended = false) :
    RespectsEnds db (fail db service turnId code now) := by
  unfold fail
  split
  · exact .of_missions rfl
  · rename_i turn hturn
    split
    · exact .of_missions rfl
    · rename_i hopen
      obtain ⟨happlied, hstale⟩ := not_or.mp hopen
      split
      · exact .of_missions rfl
      · rename_i mission hmission
        obtain ⟨-, hid⟩ := Db.mission?_eq_some hmission
        have hkeep : (keepLiability db mission turn now).missions = db.missions :=
          keepLiability_writes db mission turn now .missions (by decide)
        split
        · exact respectsEnds_write hmission rfl .rfl rfl
        · dsimp only
          split
          · exact .of_missions hkeep
          · rename_i hfinal
            unfold failTurn
            dsimp only
            split
            · rename_i hbudgeted
              have hattempts : service.maxAttempts ≤ turn.attemptCount := by
                by_contra hlt
                refine hfinal ⟨Nat.not_le.mp hlt, ?_, ?_⟩
                · rintro rfl
                  cases hbudgeted
                · rintro rfl
                  cases hbudgeted
              have hended := hok hbudgeted turn hturn happlied hstale hattempts mission hmission
              exact RespectsEnds.emit (RespectsEnds.settleWakeup (RespectsEnds.dispose
                (respectsEnds_write hmission rfl (MissionLifecycle.allows_of_open hended) hkeep)))
            · exact RespectsEnds.emit (.of_missions hkeep)

theorem waitForCapacity_respectsEnds {runId : RunId} {attempt : Nat}
    (hok : ∀ mission ∈ missionOfRun db runId, mission.lifecycle.ended = false)
    (h : waitForCapacity db runId attempt now = some db') : RespectsEnds db db' := by
  unfold waitForCapacity at h
  repeat' split at h
  all_goals cases h
  · exact .of_missions rfl
  · rename_i mission hmission
    obtain ⟨item, -, hfind⟩ := Option.bind_eq_some_iff.mp hmission
    obtain ⟨-, hid⟩ := Db.mission?_eq_some hfind
    exact RespectsEnds.emit (respectsEnds_write hfind rfl (MissionLifecycle.allows_of_open (hok mission hmission)) rfl)

theorem leaveCapacity_respectsEnds {runId : RunId} (h : leaveCapacity db runId now = some db') : RespectsEnds db db' := by
  unfold leaveCapacity at h
  repeat' split at h
  all_goals cases h
  · exact .of_missions rfl
  · rename_i mission hmission hwaiting
    obtain ⟨item, -, hfind⟩ := Option.bind_eq_some_iff.mp hmission
    obtain ⟨-, hid⟩ := Db.mission?_eq_some hfind
    have hopen : mission.lifecycle.ended = false := by rw [hwaiting]; rfl
    exact RespectsEnds.emit (respectsEnds_write hfind rfl (MissionLifecycle.allows_of_open hopen) rfl)
  · exact .of_missions rfl

/-! ### Reconciliation -/

/-- The first loop leaves a mission whose active runs do not wait for approval, and that does not
    either. -/
theorem awaited_lifecycle? {id : Nat} {lifecycle : MissionLifecycle} (hwaiting : lifecycle ≠ .waitingForApproval) :
    ∀ (pairs : List (WorkItemRow × RunRow)) (db : Db),
      (∀ pair ∈ pairs, pair.1.missionId = id → pair.2.status ≠ .approvalRequired) → db.lifecycle? id = some lifecycle →
        (pairs.foldl (awaitApproval now) db).lifecycle? id = some lifecycle := by
  intro pairs
  induction pairs with
  | nil => intro db _ hlife; exact hlife
  | cons head pairs ih =>
    intro db hpairs hlife
    rw [List.foldl_cons]
    refine ih _ (fun pair hpair => hpairs pair (List.mem_cons_of_mem _ hpair)) ?_
    unfold awaitApproval
    split
    · exact hlife
    · rename_i mission hmission
      obtain ⟨-, hid⟩ := Db.mission?_eq_some hmission
      by_cases heq : head.1.missionId = id
      · rw [if_neg (hpairs head List.mem_cons_self heq), if_neg]
        · exact hlife
        · rw [← heq, Db.lifecycle?, hmission] at hlife
          cases hlife
          exact hwaiting
      · have hne : id ≠ mission.id := fun h => heq (hid.symm.trans h.symm)
        repeat' split
        · rw [Db.lifecycle?_writeMission, if_neg hne]
          exact hlife
        · rw [Db.lifecycle?_writeMission, if_neg hne]
          exact hlife
        · exact hlife

/-- A wakeup leaves the lifecycle of its mission. -/
theorem wakeMission_lifecycle? {mission : MissionRow} {key : Nat} (hmission : db.mission? key = some mission)
    (item : WorkItemRow) (cursor now id : Nat) : (wakeMission db mission item cursor now).lifecycle? id = db.lifecycle? id := by
  unfold wakeMission
  dsimp only
  split
  · rfl
  · rw [Db.lifecycle?_writeMission]
    split
    · rename_i heq
      obtain ⟨-, rfl⟩ := Db.mission?_eq_some hmission
      subst heq
      show (Db.lifecycle? db mission.id).map _ = _
      rw [Db.lifecycle?, hmission]
      rfl
    · rfl

/-- An announcement leaves the lifecycle of a mission, or ends its cancellation for a settled item. -/
theorem announce_lifecycle? (now : Nat) (db : Db) (itemId id : Nat) :
    (announce now db itemId).lifecycle? id = db.lifecycle? id ∨
      (db.lifecycle? id = some .cancelling ∧ (announce now db itemId).lifecycle? id = some .cancelled ∧
        ∃ item, db.item? itemId = some item ∧ item.missionId = id ∧ item.lifecycle.settled) := by
  unfold announce
  split
  · exact .inl rfl
  · rename_i item hitem
    dsimp only
    split
    · rename_i hsettled
      split
      · exact .inl rfl
      · rename_i mission hmission
        have hid := (Db.mission?_eq_some hmission).2
        have hlife : db.lifecycle? item.missionId = some mission.lifecycle := by
          show (Db.mission? _ _).map _ = _
          rw [show db.mission? item.missionId = some mission from hmission]
          rfl
        split
        · rename_i hcancelling
          rw [Db.lifecycle?_writeMission]
          split
          · rename_i heq
            refine .inr ⟨?_, ?_, item, hitem, (heq.trans hid).symm, hsettled⟩
            · rw [heq, hid, hlife, hcancelling]
            · show Option.map _ (db.lifecycle? id) = _
              rw [heq, hid, hlife]
              rfl
          · exact .inl rfl
        · split
          · exact .inl (wakeMission_lifecycle? hmission _ _ _ _)
          · exact .inl rfl
    · exact .inl rfl

theorem announced_lifecycle? (now : Nat) {id : Nat} {lifecycle : MissionLifecycle} : ∀ (ids : List Nat) (db : Db),
    db.lifecycle? id = some lifecycle →
      (ids.foldl (announce now) db).lifecycle? id = some lifecycle ∨
        (lifecycle = .cancelling ∧ (ids.foldl (announce now) db).lifecycle? id = some .cancelled ∧
          ∃ itemId ∈ ids, ∃ item, db.item? itemId = some item ∧ item.missionId = id ∧ item.lifecycle.settled) := by
  intro ids
  induction ids generalizing lifecycle with
  | nil => intro db hlife; exact .inl hlife
  | cons head ids ih =>
    intro db hlife
    rw [List.foldl_cons]
    obtain hsame | ⟨hcancelling, hcancelled, hitem⟩ := announce_lifecycle? now db head id
    · obtain hrest | ⟨hlife', hrest, itemId, hin, item, hitem, hmission, hsettled⟩ := ih _ (hsame.trans hlife)
      · exact .inl hrest
      · -- the item of a later announcement is the one that is there now
        obtain ⟨cursor, hcursor⟩ := announce_item? now db head itemId
        rw [hcursor] at hitem
        obtain ⟨old, hold, rfl⟩ := Option.map_eq_some_iff.mp hitem
        exact .inr ⟨hlife', hrest, itemId, List.mem_cons_of_mem _ hin, old, hold, hmission, hsettled⟩
    · rw [hlife] at hcancelling
      cases hcancelling
      obtain hrest | ⟨hlife', -⟩ := ih _ hcancelled
      · exact .inr ⟨rfl, hrest, head, List.mem_cons_self, hitem⟩
      · cases hlife'

theorem readied_missions (db : Db) (now : Nat) : (readied db now).missions = (awaited db now).missions := by
  have hsettled : (settledItems db now).missions = (awaited db now).missions :=
    Writes.foldl (settleItem_writes now) _ _ .missions (by decide)
  rw [← hsettled]
  exact Writes.foldl readyItem_writes _ _ .missions (by decide)

theorem Db.lifecycle?_isSome {id : Nat} : (∃ lifecycle, db.lifecycle? id = some lifecycle) ↔ id ∈ db.keys.missions := by
  constructor
  · rintro ⟨lifecycle, h⟩
    obtain ⟨mission, hmission, -⟩ := Option.map_eq_some_iff.mp h
    obtain ⟨hmem, rfl⟩ := Db.mission?_eq_some hmission
    exact List.mem_map_of_mem hmem
  · intro h
    obtain ⟨mission, hmem, hid⟩ := List.mem_map.mp h
    have hsome : (db.mission? id).isSome = true := List.find?_isSome.mpr ⟨mission, hmem, decide_eq_true hid⟩
    obtain ⟨row, hrow⟩ := Option.isSome_iff_exists.mp hsome
    exact ⟨row.lifecycle, by rw [Db.lifecycle?, hrow]; rfl⟩

theorem announce_missionKeys (now : Nat) (db : Db) (itemId : Nat) : (announce now db itemId).keys.missions = db.keys.missions := by
  unfold announce
  split
  · rfl
  · dsimp only
    repeat' split
    · rw [keys_writeItem, keys_emit]
    · rw [keys_writeMission, keys_writeItem, keys_emit]
    · unfold wakeMission
      dsimp only
      split
      · rw [keys_writeItem, keys_emit]
      · rw [keys_writeMission]
        rfl
    · rw [keys_writeItem, keys_emit]
    · rfl

theorem reconcileItems_missionKeys (db : Db) (now : Nat) : (reconcileItems db now).keys.missions = db.keys.missions := by
  have hannounce : ∀ (ids : List Nat) (db : Db), (ids.foldl (announce now) db).keys.missions = db.keys.missions := by
    intro ids
    induction ids with
    | nil => intro db; rfl
    | cons id ids ih => intro db; rw [List.foldl_cons, ih, announce_missionKeys]
  have hready : ∀ (items : List WorkItemRow) (db : Db), (items.foldl readyItem db).keys.missions = db.keys.missions := by
    intro items
    induction items with
    | nil => intro db; rfl
    | cons item items ih => intro db; rw [List.foldl_cons, ih, readyItem_keys]
  rw [reconcileItems_eq, hannounce]
  unfold readied
  rw [hready, settledItems_keys]

/-- The first loops of a pass leave an ended mission as it is, if no active run of it needs an
approval. -/
theorem readied_lifecycle? (now : Nat) {mission : MissionRow} (hmission : db.mission? mission.id = some mission)
    (hended : mission.lifecycle.ended = true) (hnone : ∀ run ∈ activeRuns db mission.id, run.status ≠ .approvalRequired) :
    (readied db now).lifecycle? mission.id = some mission.lifecycle := by
  have hlife : db.lifecycle? mission.id = some mission.lifecycle := by
    unfold Db.lifecycle?
    rw [hmission]
    rfl
  have hwaiting : mission.lifecycle ≠ .waitingForApproval := by
    intro h
    rw [h] at hended
    cases hended
  have hawaited : (awaited db now).lifecycle? mission.id = some mission.lifecycle := by
    refine awaited_lifecycle? hwaiting _ _ (fun pair hpair hid => ?_) hlife
    obtain ⟨item, run⟩ := pair
    obtain ⟨hstarted, hactive⟩ := List.mem_filter.mp hpair
    obtain ⟨hitem, hitemLife, hrun⟩ := mem_startedRuns.mp hstarted
    exact hnone run (mem_activeRuns.mpr ⟨by simpa using hactive, item, hitem, hid, hitemLife, hrun⟩)
  exact (Db.lifecycle?_congr (readied_missions db now) _).trans hawaited

theorem reconcileItems_respectsEnds {s : Sys} (hk : s.db.keys.Distinct) (hok : sparesEnded s (.reconcileItems now)) :
    RespectsEnds s.db (reconcileItems s.db now) := by
  intro id before hb
  cases hended : before.ended with
  | false =>
    obtain ⟨after, ha⟩ := Db.lifecycle?_isSome.mpr
      ((reconcileItems_missionKeys s.db now).symm ▸ Db.lifecycle?_isSome.mp ⟨before, hb⟩)
    exact ⟨after, ha, MissionLifecycle.allows_of_open hended⟩
  | true =>
    obtain ⟨mission, hmission, rfl⟩ := Option.map_eq_some_iff.mp hb
    obtain ⟨hmem, rfl⟩ := Db.mission?_eq_some hmission
    obtain ⟨happroval, hcancel⟩ := hok mission hmem hended
    have hreadied := readied_lifecycle? now hmission hended happroval
    rw [reconcileItems_eq]
    obtain hsame | ⟨hcancelling, hcancelled, itemId, hin, row, hrow, hrowMission, hsettled⟩ :=
      announced_lifecycle? now (announced s.db now) _ hreadied
    · exact ⟨_, hsame, .rfl⟩
    · refine ⟨_, hcancelled, ?_⟩
      rw [hcancelling]
      refine .inr ⟨rfl, (hcancel hcancelling).resolve_right fun hnone => ?_⟩
      obtain ⟨item, run, hpair, rfl⟩ := announced_settled hk hin hrow hsettled
      exact hnone _ hpair hrowMission

theorem step_respectsEnds {s s' : Sys} {action : Action} (hk : s.db.keys.Distinct) (hok : sparesEnded s action)
    (h : step s action = some s') : RespectsEnds s.db s'.db := by
  by_cases hframe : Table.missions ∈ footprint action
  · cases action with
    | createMission =>
      cases h
      exact createMission_respectsEnds _ _ _ _
    | updateAutonomy =>
      obtain ⟨db, hdb, rfl⟩ := toOption_map h
      exact updateAutonomy_respectsEnds hdb
    | updateDirective =>
      obtain ⟨db, hdb, rfl⟩ := toOption_map h
      exact updateDirective_respectsEnds hdb
    | updateTeam =>
      obtain ⟨db, hdb, rfl⟩ := toOption_map h
      exact updateTeam_respectsEnds hdb
    | createMessage =>
      obtain ⟨db, hdb, rfl⟩ := toOption_map h
      exact createMessage_respectsEnds hdb
    | controlMission =>
      obtain ⟨db, hdb, rfl⟩ := toOption_map h
      exact controlMission_respectsEnds hok hdb
    | linkItem id now =>
      obtain ⟨call, -, hmove⟩ := Option.bind_eq_some_iff.mp h
      simp only [startStep] at hmove
      split at hmove
      · split at hmove <;> cases hmove
        · rename_i hlink
          exact linkItem_respectsEnds hlink
        · exact .of_missions rfl
      · cases hmove
    | reconcileItems now =>
      cases h
      exact reconcileItems_respectsEnds hk hok
    | materializeWakeup =>
      cases h
      exact materializeWakeup_respectsEnds _ _ _ _
    | dispatchReady =>
      cases h
      exact dispatchReady_respectsEnds hk _ _ _ _
    | apply id now =>
      obtain ⟨e, hfind, hmove⟩ := Option.bind_eq_some_iff.mp h
      have he := hok e (List.mem_of_find?_eq_some hfind) (by simpa using List.find?_some hfind)
      simp only [executionStep] at hmove
      split at hmove
      · rename_i decision hpc
        split at hmove <;> cases hmove
        · rename_i happly
          exact apply_respectsEnds (he decision (by rw [hpc]; rfl)) happly
        · exact .of_missions rfl
      · cases hmove
    | fail id now =>
      obtain ⟨e, hfind, hmove⟩ := Option.bind_eq_some_iff.mp h
      have he := hok e (List.mem_of_find?_eq_some hfind) (by simpa using List.find?_some hfind)
      simp only [executionStep] at hmove
      split at hmove
      · rename_i code hpc
        cases hmove
        exact fail_respectsEnds (he code (by rw [hpc]; rfl))
      · cases hmove
    | waitForCapacity =>
      obtain ⟨db, hdb, rfl⟩ := Option.map_eq_some_iff.mp h
      exact waitForCapacity_respectsEnds hok hdb
    | leaveCapacity =>
      obtain ⟨db, hdb, rfl⟩ := Option.map_eq_some_iff.mp h
      exact leaveCapacity_respectsEnds hdb
    | _ => simp [footprint] at hframe
  · exact .of_missions (step_writes h .missions hframe)

end Step

/-! ## Runs -/

/-- What is left to a mission whose lifecycle has come to its end. -/
def MissionLifecycle.Ends : MissionLifecycle → MissionLifecycle → Prop
  | .cancelled, after => after = .cancelled ∨ after = .archived
  | .completed, after => after = .completed ∨ after = .archived
  | .archived, after => after = .archived
  | .cancelling, after => after = .cancelling ∨ after = .cancelled ∨ after = .archived
  | _, _ => True

theorem MissionLifecycle.Ends.trans {quiet : Prop} {first then_ after : MissionLifecycle} (h : first.Ends then_)
    (h' : then_.Allows quiet after) : first.Ends after := by
  cases first <;> first | exact trivial | skip
  · -- a cancellation in progress
    obtain rfl | rfl | rfl := h
    · exact h'.imp_right fun hdone => .inl hdone.1
    · exact .inr h'
    · exact .inr (.inr h')
  · obtain rfl | rfl := h
    · exact h'
    · exact .inr h'
  · obtain rfl | rfl := h
    · exact h'
    · exact .inr h'
  · cases h
    exact h'

theorem MissionLifecycle.Ends.rfl {lifecycle : MissionLifecycle} : lifecycle.Ends lifecycle := by
  cases lifecycle <;> simp [MissionLifecycle.Ends]

/-- In a run whose writers spare ended missions, every step respects the ends of lifecycles, and
    an end that was reached stays. -/
theorem lifecycle_ends {versions : List Nat} {s : Sys} (h : ReachIf step sparesEnded (Sys.init versions) s) :
    (∀ action s', sparesEnded s action → step s action = some s' → RespectsEnds s.db s'.db) ∧
      ∀ t, ReachIf step sparesEnded s t → ∀ id before, s.db.lifecycle? id = some before →
        ∃ after, t.db.lifecycle? id = some after ∧ before.Ends after := by
  refine ⟨fun action s' hok hstep => step_respectsEnds (reach_distinct h) hok hstep, fun t ht id before hb => ?_⟩
  induction ht with
  | init => exact ⟨before, hb, .rfl⟩
  | step action hr hok hstep ih =>
    obtain ⟨middle, hm, hends⟩ := ih
    obtain ⟨after, ha, hallows⟩ := step_respectsEnds (reach_distinct (h.trans hr)) hok hstep id middle hm
    exact ⟨after, ha, hends.trans hallows⟩

/-- The owner cancels the mission while its first turn is being answered; the decision makes it
    active again. -/
theorem cancelled_mission_reactivated :
    ¬ ∀ s s' action, Reach step (Sys.init [7]) s → step s action = some s' → RespectsEnds s.db s'.db := by
  let actions := opening ++ callOf 0 1 0 ++ answerOf 0 0 ++ [.controlMission 0 (controlOf .cancel 2 (by decide)) 0 1]
  have hrun : (run step (Sys.init [7]) actions).any (fun s => s.db.lifecycle? 0 = some .cancelled ∧
      (step s (.apply 0 2)).any fun s' => s'.db.lifecycle? 0 = some .active) = true := by decide +kernel
  obtain ⟨s, hs, hend⟩ := (Option.any_eq_true _ _).mp hrun
  obtain ⟨hcancelled, hany⟩ := of_decide_eq_true hend
  obtain ⟨s', hs', hactive⟩ := (Option.any_eq_true _ _).mp hany
  intro hall
  obtain ⟨after, ha, hallows⟩ := hall s s' _ (run_reach actions hs) hs' 0 .cancelled hcancelled
  rw [of_decide_eq_true hactive] at ha
  cases ha
  obtain h | h := hallows <;> cases h

/-- The cancelled run of a cancelling mission ends, and with it the cancellation. -/
theorem lifecycle_ends_cancellation :
    ∃ s s', ReachIf step sparesEnded (Sys.init [7]) s ∧ s.db.lifecycle? 0 = some .cancelling ∧
      step s (.reconcileItems 5) = some s' ∧ s'.db.lifecycle? 0 = some .cancelled ∧ RespectsEnds s.db s'.db := by
  let actions := planned ++ [.dispatchReady .real [] [] 2, .controlMission 0 (controlOf .cancel 4 (by decide)) 0 3,
    .executeRun (.assignment 5) .cancelled .cancelled 4]
  have hrun : (runIf step sparesEnded (Sys.init [7]) actions).any (fun s => s.db.lifecycle? 0 = some .cancelling ∧
      sparesEnded s (.reconcileItems 5) ∧
      (step s (.reconcileItems 5)).any fun s' => s'.db.lifecycle? 0 = some .cancelled) = true := by decide +kernel
  obtain ⟨s, hs, hend⟩ := (Option.any_eq_true _ _).mp hrun
  obtain ⟨hcancelling, hok, hany⟩ := of_decide_eq_true hend
  obtain ⟨s', hs', hcancelled⟩ := (Option.any_eq_true _ _).mp hany
  have hreach := runIf_reachIf actions hs
  exact ⟨s, s', hreach, hcancelling, hs', of_decide_eq_true hcancelled, (lifecycle_ends hreach).1 _ _ hok hs'⟩

end Jarvis.Missions
