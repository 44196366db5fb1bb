/-
  Jarvis.Missions.Materialize — consecutive calls of `materialize_wakeup`.

  A call considers one wakeup: the oldest due one of all missions of the service. If its versions
  have moved on, it becomes stale and the next call goes on to the one behind it. If its mission
  is not admitted, or has a turn already, the call returns and leaves it where it is, and every
  later call considers it again: the wakeups of all other missions stay behind it. So the calls
  queue a turn for a wakeup that is ready exactly when the oldest due wakeup that does not become
  stale is itself ready (`wakeups_materialize_iff`).
-/
import Jarvis.Missions.Headroom
import Jarvis.Missions.Manager
import Jarvis.Missions.Selection

namespace Jarvis.Missions

open Jarvis.Runtime (Mode)

/-! ## One call -/

/-- What a call makes of the wakeup it considers. -/
inductive Verdict where
  /-- There is no such mission. -/
  | missing
  /-- `require_admission` raises. -/
  | denied
  /-- The directive or the team of the mission has moved on. -/
  | stale
  /-- The mission has a queued or running turn. -/
  | busy
  | ready
  deriving DecidableEq, Repr

/-- `require_admission` of the mission returns. -/
def Db.admits (db : Db) (mission : MissionRow) : Bool :=
  (requireAdmission (ensureControls db.ledger.controls mission) mission).toBool

def Db.managing (db : Db) (mission : MissionRow) : Bool :=
  db.turns.any fun turn => turn.missionId = mission.id ∧ (turn.status = .queued ∨ turn.status = .running)

def verdict (db : Db) (wakeup : WakeupRow) : Verdict :=
  match db.mission? wakeup.missionId with
  | none => .missing
  | some mission =>
    if !db.admits mission then .denied
    else if mission.directiveVersion ≠ wakeup.directiveVersion ∨ mission.selectedTeamVersionId ≠ wakeup.teamVersionId then .stale
    else if db.managing mission then .busy
    else .ready

/-- The controls that a call leaves for the mission of a wakeup. -/
def Db.controlled (db : Db) (wakeup : WakeupRow) : Db :=
  match db.mission? wakeup.missionId with
  | none => db
  | some mission => { db with ledger := { db.ledger with controls := ensureControls db.ledger.controls mission } }

/-- The wakeup has its turn: a queued one, unless a turn of its identity was there before. -/
def TurnQueued (before after : Db) (wakeup : WakeupRow) : Prop :=
  (∃ row ∈ after.wakeups, row.id = wakeup.id ∧ row.status = .turnQueued ∧ row.managementTurnId = some (.wakeup wakeup.id)) ∧
    ∃ turn ∈ after.turns, turn.id = .wakeup wakeup.id ∧
      (turn ∈ before.turns ∨ turn.status = .queued ∧ turn.missionId = wakeup.missionId ∧ turn.wakeupId = some wakeup.id)

/-- The pending wakeups. -/
def Db.pending (db : Db) : List WakeupRow := db.wakeups.filter fun wakeup => wakeup.status = .pending

/-- The due wakeups that a call would not make stale. -/
def Db.standing (db : Db) (mode : Mode) (now : Nat) : List WakeupRow :=
  db.wakeups.filter fun wakeup => due db mode now wakeup && decide (verdict db wakeup ≠ .stale)

/-- The state after `k` consecutive calls, at the times that the clock gives them. -/
def calls (db : Db) (mode : Mode) (clock : Nat → Nat) : Nat → Db
  | 0 => db
  | k + 1 => calls (materializeWakeup db mode [] (clock 0)) mode (fun i => clock (i + 1)) k

section Call

variable {db : Db} {mode : Mode} {now : Nat} {wakeup : WakeupRow}

theorem admits_iff {mission : MissionRow} :
    db.admits mission = true ↔ requireAdmission (ensureControls db.ledger.controls mission) mission = .ok () := by
  unfold Db.admits
  cases requireAdmission (ensureControls db.ledger.controls mission) mission with
  | ok => simp [Except.toBool]
  | error => simp [Except.toBool]

theorem due_iff : due db mode now wakeup = true ↔ wakeup.status = .pending ∧ wakeup.scheduledFor ≤ now ∧
    ∃ mission ∈ db.missions, mission.id = wakeup.missionId ∧ mission.mode = mode ∧ mission.autonomous = true := by
  unfold due
  simp [List.any_eq_true, and_assoc]

/-- A due wakeup has its mission. -/
theorem verdict_ne_missing (h : due db mode now wakeup = true) : verdict db wakeup ≠ .missing := by
  obtain ⟨-, -, mission, hmission, hid, -⟩ := due_iff.mp h
  unfold verdict
  cases hfind : db.mission? wakeup.missionId with
  | none => exact absurd (decide_eq_true hid) (List.find?_eq_none.mp hfind mission hmission)
  | some found =>
    dsimp only
    split <;> try split <;> try split
    all_goals exact Verdict.noConfusion

/-- What a call does, by the wakeup it considers. -/
theorem materializeWakeup_eq (h : first wakeupLe (db.wakeups.filter (due db mode now)) = some wakeup) :
    materializeWakeup db mode [] now =
      match verdict db wakeup with
      | .stale => (db.controlled wakeup).settleWakeup (some wakeup.id) .stale
      | .ready =>
        match db.mission? wakeup.missionId with
        | none => db
        | some mission => queueTurn (db.controlled wakeup) mission wakeup now
      | _ => db.controlled wakeup := by
  have hselect : (db.wakeups.filter fun wakeup => due db mode now wakeup && decide (wakeup.id ∉ ([] : List Nat))) =
      db.wakeups.filter (due db mode now) := by simp
  unfold materializeWakeup verdict Db.controlled
  rw [hselect, h]
  dsimp only
  cases hmission : db.mission? wakeup.missionId with
  | none => rfl
  | some mission =>
    dsimp only
    cases hadmission : requireAdmission (ensureControls db.ledger.controls mission) mission with
    | error denied =>
      have hdenied : db.admits mission = false := by
        unfold Db.admits
        rw [hadmission]
        rfl
      rw [hdenied]
      rfl
    | ok =>
      rw [admits_iff.mpr hadmission]
      by_cases hmoved : mission.directiveVersion ≠ wakeup.directiveVersion ∨ mission.selectedTeamVersionId ≠ wakeup.teamVersionId
      · simp only [Bool.not_true, Bool.false_eq_true, if_false, if_pos hmoved]
      · simp only [Bool.not_true, Bool.false_eq_true, if_false, if_neg hmoved]
        unfold Db.managing
        split <;> rfl

end Call

/-! ## Calls that queue nothing -/

/-- Nothing that verdicts rest on has changed. -/
structure Calm (db db' : Db) : Prop where
  missions : db'.missions = db.missions
  turns : db'.turns = db.turns
  admits : ∀ mission, db'.admits mission = db.admits mission

section Calm

variable {db db' : Db} {wakeup : WakeupRow}

theorem Calm.due (h : Calm db db') (mode : Mode) (now : Nat) : due db' mode now = due db mode now := by
  unfold Missions.due
  rw [h.missions]

theorem Calm.verdict (h : Calm db db') : verdict db' = verdict db := by
  funext wakeup
  unfold Missions.verdict Db.mission? Db.managing
  rw [h.missions, h.turns]
  simp only [h.admits]

theorem Db.controlled_wakeups : (db.controlled wakeup).wakeups = db.wakeups := by
  unfold Db.controlled
  split <;> rfl

theorem controlled_calm (db : Db) (wakeup : WakeupRow) : Calm db (db.controlled wakeup) := by
  unfold Db.controlled
  split
  · exact ⟨rfl, rfl, fun _ => rfl⟩
  · refine ⟨rfl, rfl, fun mission => Bool.eq_iff_iff.mpr ?_⟩
    rw [admits_iff, admits_iff, requireAdmission_ensured, requireAdmission_ensured, requireAdmission_ensured]

theorem stale_calm (db : Db) (wakeup : WakeupRow) (id : Option Nat) (status : WakeupStatus) :
    Calm db ((db.controlled wakeup).settleWakeup id status) :=
  have h := controlled_calm db wakeup
  ⟨h.missions, h.turns, h.admits⟩

end Calm

/-! ## The selected wakeup -/

theorem wakeupLe_total (a b : WakeupRow) : wakeupLe a b = true ∨ wakeupLe b a = true := by
  simp only [wakeupLe, decide_eq_true_eq]
  omega

theorem wakeupLe_trans (a b c : WakeupRow) (hab : wakeupLe a b = true) (hbc : wakeupLe b c = true) : wakeupLe a c = true := by
  simp only [wakeupLe, decide_eq_true_eq] at *
  omega

section Selected

variable {db : Db} {mode : Mode} {since now : Nat} {wakeup : WakeupRow}

/-- What becomes due later comes behind what is due. -/
theorem selected_later (hsince : since ≤ now) (h : first wakeupLe (db.wakeups.filter (due db mode since)) = some wakeup) :
    first wakeupLe (db.wakeups.filter (due db mode now)) = some wakeup := by
  obtain ⟨-, hdue⟩ := List.mem_filter.mp (first_mem h)
  obtain ⟨hpending, hscheduled, hmission⟩ := due_iff.mp hdue
  refine first_filter wakeupLe_total wakeupLe_trans h (due_iff.mpr ⟨hpending, hscheduled.trans hsince, hmission⟩) fun other _ hother => ?_
  obtain ⟨hpending', -, hmission'⟩ := due_iff.mp hother
  by_cases hlate : other.scheduledFor ≤ since
  · exact .inl (due_iff.mpr ⟨hpending', hlate, hmission'⟩)
  · refine .inr (decide_eq_false ?_)
    omega

/-- A selected wakeup that does not become stale is the oldest of those. -/
theorem selected_standing (h : first wakeupLe (db.wakeups.filter (due db mode since)) = some wakeup) (hstale : verdict db wakeup ≠ .stale) :
    first wakeupLe (db.standing mode since) = some wakeup := by
  obtain ⟨-, hdue⟩ := List.mem_filter.mp (first_mem h)
  refine first_filter wakeupLe_total wakeupLe_trans h (by simp [hdue, hstale]) fun other _ hother => ?_
  rw [Bool.and_eq_true] at hother
  exact .inl hother.1

theorem mem_standing : wakeup ∈ db.standing mode since ↔
    wakeup ∈ db.wakeups ∧ due db mode since wakeup = true ∧ verdict db wakeup ≠ .stale := by
  unfold Db.standing
  rw [List.mem_filter, Bool.and_eq_true, decide_eq_true_eq]

/-- Where a wakeup stands, a call has one to consider. -/
theorem exists_selected (h : first wakeupLe (db.standing mode since) = some wakeup) :
    ∃ front, first wakeupLe (db.wakeups.filter (due db mode since)) = some front := by
  obtain ⟨hmem, hdue, -⟩ := mem_standing.mp (first_mem h)
  cases hfront : first wakeupLe (db.wakeups.filter (due db mode since)) with
  | some front => exact ⟨front, rfl⟩
  | none =>
    have hnil := first_eq_none.mp hfront
    exact absurd (List.mem_filter.mpr ⟨hmem, hdue⟩) (by rw [hnil]; exact List.not_mem_nil)

end Selected

/-! ## Steps -/

/-- A call that has queued nothing: what stood still stands. -/
structure Stands (mode : Mode) (since : Nat) (db db' : Db) : Prop where
  calm : Calm db db'
  ids : db'.wakeups.map (·.id) = db.wakeups.map (·.id)
  standing : db'.standing mode since = db.standing mode since

section Steps

variable {db : Db} {mode : Mode} {since now : Nat} {wakeup : WakeupRow}

theorem controlled_stands (mode : Mode) (since : Nat) (db : Db) (wakeup : WakeupRow) : Stands mode since db (db.controlled wakeup) := by
  have hcalm := controlled_calm db wakeup
  refine ⟨hcalm, by rw [Db.controlled_wakeups], ?_⟩
  unfold Db.standing
  rw [hcalm.due, hcalm.verdict, Db.controlled_wakeups]

theorem settleWakeup_ids (db : Db) (id : Option Nat) (status : WakeupStatus) :
    (db.settleWakeup id status).wakeups.map (·.id) = db.wakeups.map (·.id) := by
  unfold Db.settleWakeup
  rw [List.map_map]
  refine List.map_congr_left fun old _ => ?_
  simp only [Function.comp_apply]
  split <;> rfl

theorem stale_stands (hids : (db.wakeups.map (·.id)).Nodup) (hmem : wakeup ∈ db.wakeups) (hstale : verdict db wakeup = .stale) :
    Stands mode since db ((db.controlled wakeup).settleWakeup (some wakeup.id) .stale) := by
  have hcalm := stale_calm db wakeup (some wakeup.id) .stale
  refine ⟨hcalm, by rw [settleWakeup_ids, Db.controlled_wakeups], ?_⟩
  unfold Db.standing
  rw [hcalm.due, hcalm.verdict]
  unfold Db.settleWakeup
  rw [Db.controlled_wakeups]
  refine filter_map_eq fun row hrow => ?_
  by_cases hid : row.id = wakeup.id
  · -- the row is the stale wakeup itself
    obtain rfl := List.inj_on_of_nodup_map hids hrow hmem hid
    refine .inr ⟨?_, by simp [hstale]⟩
    rw [if_pos rfl]
    simp [due]
  · exact .inl ⟨if_neg fun h => hid (Option.some.inj h), rfl⟩

theorem stale_pending (hmem : wakeup ∈ db.wakeups) (hpending : wakeup.status = .pending) :
    ((db.controlled wakeup).settleWakeup (some wakeup.id) .stale).pending.length < db.pending.length := by
  have hfilter : ((db.controlled wakeup).settleWakeup (some wakeup.id) .stale).pending =
      db.pending.filter fun row => row.id ≠ wakeup.id := by
    unfold Db.pending Db.settleWakeup
    rw [Db.controlled_wakeups, List.filter_filter]
    refine filter_map_eq fun row _ => ?_
    by_cases hid : row.id = wakeup.id
    · refine .inr ⟨?_, by simp [hid]⟩
      rw [if_pos (congrArg some hid)]
      rfl
    · exact .inl ⟨if_neg fun h => hid (Option.some.inj h), by simp [hid]⟩
  rw [hfilter]
  refine List.length_filter_lt_length_iff_exists.mpr ⟨wakeup, ?_, by simp⟩
  exact List.mem_filter.mpr ⟨hmem, decide_eq_true hpending⟩

/-- A call that does not find its wakeup ready queues nothing. -/
theorem call_stands (hids : (db.wakeups.map (·.id)).Nodup)
    (h : first wakeupLe (db.wakeups.filter (due db mode now)) = some wakeup) (hready : verdict db wakeup ≠ .ready) :
    Stands mode since db (materializeWakeup db mode [] now) := by
  rw [materializeWakeup_eq h]
  cases hverdict : verdict db wakeup with
  | missing | denied | busy => exact controlled_stands mode since db wakeup
  | stale => exact stale_stands hids (List.mem_filter.mp (first_mem h)).1 hverdict
  | ready => exact absurd hverdict hready

/-- A call queues the turn of a wakeup that it finds ready. -/
theorem call_queues (h : first wakeupLe (db.wakeups.filter (due db mode now)) = some wakeup) (hready : verdict db wakeup = .ready) :
    TurnQueued db (materializeWakeup db mode [] now) wakeup := by
  obtain ⟨hmem, -⟩ := List.mem_filter.mp (first_mem h)
  rw [materializeWakeup_eq h, hready]
  dsimp only
  cases hmission : db.mission? wakeup.missionId with
  | none =>
    unfold verdict at hready
    rw [hmission] at hready
    cases hready
  | some mission =>
    have hid := (Db.mission?_eq_some hmission).2
    have hturns : (db.controlled wakeup).turns = db.turns := (controlled_calm db wakeup).turns
    have hin : wakeup ∈ (db.controlled wakeup).wakeups := by
      rw [Db.controlled_wakeups]
      exact hmem
    unfold queueTurn
    refine ⟨⟨_, List.mem_map.mpr ⟨wakeup, hin, rfl⟩, ?_⟩, ?_⟩
    · rw [if_pos rfl]
      exact ⟨rfl, rfl, rfl⟩
    · dsimp only [Db.writeMission]
      rw [hturns]
      split
      · rename_i hany
        obtain ⟨turn, hturn, hkey⟩ := List.any_eq_true.mp hany
        exact ⟨turn, hturn, of_decide_eq_true hkey, .inl hturn⟩
      · exact ⟨_, List.mem_append_right _ (List.mem_singleton.mpr rfl), rfl, .inr ⟨rfl, hid, rfl⟩⟩

end Steps

/-! ## Consecutive calls -/

section Runs

variable {mode : Mode} {since : Nat} {wakeup : WakeupRow}

theorem Stands.trans {db db' db'' : Db} (h : Stands mode since db db') (h' : Stands mode since db' db'') : Stands mode since db db'' where
  calm := ⟨h'.calm.missions.trans h.calm.missions, h'.calm.turns.trans h.calm.turns, fun mission => (h'.calm.admits mission).trans (h.calm.admits mission)⟩
  ids := h'.ids.trans h.ids
  standing := h'.standing.trans h.standing

/-- While the oldest standing wakeup is not ready, no call queues anything. -/
theorem calls_stand {db : Db} (clock : Nat → Nat) (hclock : ∀ i, since ≤ clock i) (hids : (db.wakeups.map (·.id)).Nodup)
    (hfirst : first wakeupLe (db.standing mode since) = some wakeup) (hblocked : verdict db wakeup ≠ .ready) (k : Nat) :
    Stands mode since db (calls db mode clock k) := by
  induction k generalizing db clock with
  | zero => exact ⟨⟨rfl, rfl, fun _ => rfl⟩, rfl, rfl⟩
  | succ k ih =>
    obtain ⟨front, hfront⟩ := exists_selected hfirst
    have hready : verdict db front ≠ .ready := by
      intro hready
      have hstanding := selected_standing hfront (by rw [hready]; exact Verdict.noConfusion)
      rw [hfirst] at hstanding
      cases hstanding
      exact hblocked hready
    have hcall : Stands mode since db (materializeWakeup db mode [] (clock 0)) :=
      call_stands hids (selected_later (hclock 0) hfront) hready
    refine hcall.trans (ih (fun i => clock (i + 1)) (fun i => hclock (i + 1)) ?_ ?_ ?_)
    · rw [hcall.ids]
      exact hids
    · rw [hcall.standing]
      exact hfirst
    · rw [hcall.calm.verdict]
      exact hblocked

/-- A ready wakeup that is the oldest standing one has its turn after at most as many calls as wakeups are pending. -/
theorem calls_queue {db : Db} (clock : Nat → Nat) (hclock : ∀ i, since ≤ clock i) (hids : (db.wakeups.map (·.id)).Nodup)
    (hfirst : first wakeupLe (db.standing mode since) = some wakeup) (hready : verdict db wakeup = .ready) :
    ∃ k ≤ db.pending.length, TurnQueued db (calls db mode clock k) wakeup := by
  generalize hn : db.pending.length = n
  induction n using Nat.strong_induction_on generalizing db clock with
  | _ n ih =>
    obtain ⟨front, hfront⟩ := exists_selected hfirst
    obtain ⟨hmem, hdue⟩ := List.mem_filter.mp (first_mem hfront)
    have hpending := (due_iff.mp hdue).1
    have hlater := selected_later (hclock 0) hfront
    by_cases hstale : verdict db front = .stale
    · have hcall : Stands mode since db (materializeWakeup db mode [] (clock 0)) :=
        call_stands hids hlater (by rw [hstale]; exact Verdict.noConfusion)
      have hless : (materializeWakeup db mode [] (clock 0)).pending.length < n := by
        rw [materializeWakeup_eq hlater, hstale, ← hn]
        exact stale_pending hmem hpending
      obtain ⟨k, hk, hqueued⟩ := ih _ hless (fun i => clock (i + 1)) (fun i => hclock (i + 1))
        (by rw [hcall.ids]; exact hids) (by rw [hcall.standing]; exact hfirst) (by rw [hcall.calm.verdict]; exact hready) rfl
      refine ⟨k + 1, by omega, ?_⟩
      unfold TurnQueued at hqueued ⊢
      rw [hcall.calm.turns] at hqueued
      exact hqueued
    · have hstanding := selected_standing hfront hstale
      rw [hfirst] at hstanding
      cases hstanding
      have hlength : 0 < db.pending.length := List.length_pos_of_mem (List.mem_filter.mpr ⟨hmem, decide_eq_true hpending⟩)
      exact ⟨1, by omega, call_queues hlater hready⟩

end Runs

/-- Some due and ready wakeup gets its turn within as many calls as wakeups are pending, exactly when
    the oldest due wakeup that does not become stale is ready (where none is ready, neither holds). -/
theorem wakeups_materialize_iff (db : Db) (mode : Mode) (clock : Nat → Nat) (hclock : ∀ i, clock 0 ≤ clock i)
    (hids : (db.wakeups.map (·.id)).Nodup) :
    (∃ k ≤ db.pending.length, ∃ wakeup ∈ db.wakeups, due db mode (clock 0) wakeup = true ∧ verdict db wakeup = .ready ∧
      TurnQueued db (calls db mode clock k) wakeup) ↔
    ∃ wakeup, first wakeupLe (db.standing mode (clock 0)) = some wakeup ∧ verdict db wakeup = .ready := by
  constructor
  · rintro ⟨k, -, wakeup, hmem, hdue, hverdict, ⟨row, hrow, hid, hstatus, -⟩, -⟩
    have hin : wakeup ∈ db.standing mode (clock 0) := mem_standing.mpr ⟨hmem, hdue, by rw [hverdict]; exact Verdict.noConfusion⟩
    cases hfirst : first wakeupLe (db.standing mode (clock 0)) with
    | none =>
      rw [first_eq_none.mp hfirst] at hin
      cases hin
    | some front =>
      by_contra hblocked
      have hstands := calls_stand clock hclock hids hfirst (fun hfront => hblocked ⟨front, rfl, hfront⟩) k
      -- the ready wakeup is still pending
      rw [← hstands.standing] at hin
      obtain ⟨hkept, hdue', -⟩ := mem_standing.mp hin
      have hnodup := hids
      rw [← hstands.ids] at hnodup
      obtain rfl := List.inj_on_of_nodup_map hnodup hrow hkept hid
      rw [(due_iff.mp hdue').1] at hstatus
      cases hstatus
  · rintro ⟨wakeup, hfirst, hverdict⟩
    obtain ⟨hmem, hdue, -⟩ := mem_standing.mp (first_mem hfirst)
    obtain ⟨k, hk, hqueued⟩ := calls_queue clock hclock hids hfirst hverdict
    exact ⟨k, hk, wakeup, hmem, hdue, hverdict, hqueued⟩

def wakingMission (id : Nat) (lifecycle : MissionLifecycle) (directiveVersion : Nat) : MissionRow :=
  { id, projectId := 0, mode := .real, lifecycle, autonomous := true, directiveVersion, selectedTeamVersionId := id }

def wakeupOf (mission scheduledFor : Nat) : WakeupRow :=
  { id := mission, missionId := mission, kind := .userDirection, deduplicationKey := .userDirection mission, directiveVersion := 1,
    teamVersionId := mission, sourceEventCursor := 0, scheduledFor, createdAt := scheduledFor }

/-- The wakeup of the first mission is older than the second's. -/
def twoWaiting (lifecycle : MissionLifecycle) (directiveVersion : Nat) : Db :=
  { missions := [wakingMission 1 lifecycle directiveVersion, wakingMission 2 .active 1], wakeups := [wakeupOf 1 5, wakeupOf 2 6] }

/-- The directive of the first mission has moved on: its wakeup gives way. -/
theorem wakeups_materialize_iff_behind_stale : ∃ k ≤ 2, ∃ wakeup ∈ (twoWaiting .active 2).wakeups,
    due (twoWaiting .active 2) .real 10 wakeup = true ∧ verdict (twoWaiting .active 2) wakeup = .ready ∧
      TurnQueued (twoWaiting .active 2) (calls (twoWaiting .active 2) .real (fun _ => 10) k) wakeup :=
  (wakeups_materialize_iff (twoWaiting .active 2) .real (fun _ => 10) (fun _ => le_refl _) (by decide)).mpr
    ⟨wakeupOf 2 6, by decide +kernel, by decide +kernel⟩

/-- The wakeup of a paused mission keeps a ready wakeup of another mission waiting, however often
    `materialize_wakeup` is called. -/
theorem paused_mission_blocks_wakeups :
    (due (twoWaiting .paused 1) .real 10 (wakeupOf 2 6) = true ∧ verdict (twoWaiting .paused 1) (wakeupOf 2 6) = .ready) ∧
    ∀ k, ∀ wakeup ∈ (twoWaiting .paused 1).wakeups,
      ¬ TurnQueued (twoWaiting .paused 1) (calls (twoWaiting .paused 1) .real (fun _ => 10) k) wakeup := by
  refine ⟨by decide +kernel, fun k wakeup hmem => ?_⟩
  have hstands := calls_stand (fun _ => 10) (fun _ => le_refl _) (by decide)
    (show first wakeupLe ((twoWaiting .paused 1).standing .real 10) = some (wakeupOf 1 5) by decide +kernel) (by decide +kernel) k
  rintro ⟨-, turn, hturn, -⟩
  rw [hstands.calm.turns] at hturn
  cases hturn

end Jarvis.Missions
