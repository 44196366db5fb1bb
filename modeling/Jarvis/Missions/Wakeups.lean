/-
  Jarvis.Missions.Wakeups — the wakeups of work items that their runs have settled.

  `reconcile_items` records the wakeup in the pass that settles the item, and only if the
  mission is neither paused nor at its end; no later pass looks at the item again. What settles
  while the mission is paused is never told to the manager, also after a resume
  (`wakeup_lost`). In runs in which nothing settles under a pause, and ended missions are not
  revived, every item settled while its mission was autonomous has its wakeup exactly once
  (`completion_wakeups`).
-/
import Jarvis.Missions.Lifecycle

namespace Jarvis.Missions

open Jarvis.Runtime (RunStatus DesiredState Mode)
open Jarvis.Steps

/-- What a wakeup is recorded under. -/
def Db.wakeupKeys (db : Db) : List (Nat × DeduplicationKey) := db.wakeups.map fun wakeup => (wakeup.missionId, wakeup.deduplicationKey)

/-- The key of a settled item's wakeup. -/
def Settlement.key (entry : Settlement) : Nat × DeduplicationKey := (entry.missionId, .runTerminal (some entry.runId) entry.lifecycle)

/-- Nothing settles while its mission is paused, unless a run of the mission waits for approval, and
    missions that have ended are not revived. -/
def keepsTelling (s : Sys) : Action → Prop
  | .reconcileItems _ => ∀ mission ∈ s.db.missions,
      (mission.lifecycle.ended = true → ∀ run ∈ activeRuns s.db mission.id, run.status ≠ .approvalRequired) ∧
        (mission.lifecycle = .paused → mission.autonomous = true →
          (∀ ended ∈ endedRuns s.db, ended.1.missionId ≠ mission.id) ∨
            ∃ run ∈ activeRuns s.db mission.id, run.status = .approvalRequired)
  | action => sparesEnded s action

instance (s : Sys) (action : Action) : Decidable (keepsTelling s action) := by
  induction action using Action.casesOn <;> dsimp only [keepsTelling] <;> infer_instance

/-! ## Other actions -/

/-- Keys are added, none of them a terminal run's. -/
def Grows (keys keys' : List (Nat × DeduplicationKey)) : Prop :=
  ∃ new, keys' = keys ++ new ∧ ∀ key ∈ new, ∀ run lifecycle, key.2 ≠ .runTerminal run lifecycle

theorem Grows.of_eq {keys keys' : List (Nat × DeduplicationKey)} (h : keys' = keys) : Grows keys keys' :=
  ⟨[], by simp [h], by simp⟩

section Writes

variable {db db' : Db}

theorem wakeupKeys_congr (h : db'.wakeups = db.wakeups) : db'.wakeupKeys = db.wakeupKeys := by
  unfold Db.wakeupKeys
  rw [h]

@[simp] theorem wakeupKeys_settleWakeup (db : Db) (id : Option Nat) (status : WakeupStatus) :
    (db.settleWakeup id status).wakeupKeys = db.wakeupKeys := by
  unfold Db.wakeupKeys Db.settleWakeup
  rw [List.map_map]
  refine List.map_congr_left fun wakeup _ => ?_
  simp only [Function.comp_apply]
  split <;> rfl

theorem createMessage_grows {mission version now : Nat} {body key : String} {paid : Bool}
    (h : createMessage db mission body version paid key now = .ok db') : Grows db.wakeupKeys db'.wakeupKeys := by
  rcases withMission_ok h with rfl | ⟨old, -, h⟩
  · exact .of_eq rfl
  · split at h <;> cases h
    refine ⟨[_], List.map_append, ?_⟩
    simp

theorem materializeWakeup_wakeupKeys (db : Db) (mode : Mode) (locked : List Nat) (now : Nat) :
    (materializeWakeup db mode locked now).wakeupKeys = db.wakeupKeys := by
  unfold materializeWakeup
  split
  · rfl
  · split
    · rfl
    · dsimp only
      split
      · rfl
      · split
        · exact wakeupKeys_settleWakeup _ _ _
        · split
          · rfl
          · unfold queueTurn Db.wakeupKeys Db.writeMission
            dsimp only
            rw [List.map_map]
            refine List.map_congr_left fun wakeup _ => ?_
            simp only [Function.comp_apply]
            split <;> rfl

theorem scheduleDeadline_grows (db : Db) (mission : MissionRow) (turn : TurnRow) (decision : ManagerDecision) (now : Nat) :
    Grows db.wakeupKeys (scheduleDeadline db mission turn decision now).wakeupKeys := by
  unfold scheduleDeadline
  split
  · exact .of_eq rfl
  · dsimp only
    split
    · exact .of_eq rfl
    · refine ⟨[_], List.map_append, ?_⟩
      simp

theorem apply_grows {turnId : TurnId} {decision : ManagerDecision} {now : Nat} (h : apply db turnId decision now = .ok db') :
    Grows db.wakeupKeys db'.wakeupKeys := by
  unfold apply at h
  split at h
  · cases h
  · split at h
    · cases h
    · rename_i turn _ _ mission _
      split at h
      · cases h
        exact .of_eq (wakeupKeys_settleWakeup _ _ _)
      · obtain ⟨ledger, ledger', proposed, hproposed, rfl⟩ := applyCurrent_ok h
        have hitems : proposed.wakeupKeys = db.wakeupKeys :=
          wakeupKeys_congr (Writes.foldlM (fun _ _ _ => applyItem_writes) _ _ _ hproposed .wakeups (by decide))
        have hgrows : Grows proposed.wakeupKeys (recordDecision proposed mission turn decision now).wakeupKeys := by
          obtain ⟨new, hnew, hkeys⟩ := scheduleDeadline_grows _ mission turn decision now
          exact ⟨new, hnew.trans (by rw [wakeupKeys_settleWakeup]; rfl), hkeys⟩
        rw [hitems] at hgrows
        exact hgrows

theorem fail_wakeupKeys (db : Db) (service : Service) (turnId : TurnId) (code : FailureCode) (now : Nat) :
    (fail db service turnId code now).wakeupKeys = db.wakeupKeys := by
  unfold fail
  split
  · rfl
  · rename_i turn _
    split
    · rfl
    · split
      · rfl
      · rename_i mission _
        split
        · rfl
        · have hkeep : (keepLiability db mission turn now).wakeupKeys = db.wakeupKeys :=
            wakeupKeys_congr (keepLiability_writes db mission turn now .wakeups (by decide))
          dsimp only
          split
          · exact hkeep
          · unfold failTurn
            dsimp only
            refine (wakeupKeys_settleWakeup _ _ _).trans ?_
            split <;> exact hkeep

end Writes

section Step

variable {s s' : Sys} {action : Action}

/-- Only a pass records the wakeups of terminal runs. -/
theorem step_grows (h : step s action = some s') (haction : ∀ now, action ≠ .reconcileItems now) :
    Grows s.db.wakeupKeys s'.db.wakeupKeys := by
  by_cases hframe : Table.wakeups ∈ footprint action
  · cases action with
    | reconcileItems now => exact absurd rfl (haction now)
    | createMessage mission body version paid key now =>
      obtain ⟨db, hdb, rfl⟩ := toOption_map h
      exact createMessage_grows hdb
    | materializeWakeup mode locked now =>
      cases h
      exact .of_eq (materializeWakeup_wakeupKeys _ _ _ _)
    | apply id now =>
      obtain ⟨e, -, hmove⟩ := Option.bind_eq_some_iff.mp h
      simp only [executionStep] at hmove
      split at hmove
      · split at hmove <;> cases hmove
        · rename_i happly
          exact apply_grows happly
        · exact .of_eq rfl
      · cases hmove
    | fail id now =>
      obtain ⟨e, -, hmove⟩ := Option.bind_eq_some_iff.mp h
      simp only [executionStep] at hmove
      split at hmove
      · cases hmove
        exact .of_eq (fail_wakeupKeys _ _ _ _ _)
      · cases hmove
    | _ => simp [footprint] at hframe
  · exact .of_eq (wakeupKeys_congr (step_writes h .wakeups hframe))

/-- Only a pass settles items. -/
theorem settled_cases (h : step s action = some s') :
    s'.settled = s.settled ∨ ∃ now, action = .reconcileItems now ∧ s'.settled = s.settled ++ settlements s.db := by
  cases action with
  | reconcileItems now =>
    cases h
    exact .inr ⟨now, rfl, rfl⟩
  | createMission | materializeWakeup | dispatchReady | emit =>
    cases h
    exact .inl rfl
  | updateAutonomy | updateDirective | updateTeam | createMessage | controlMission =>
    obtain ⟨db, -, rfl⟩ := toOption_map h
    exact .inl rfl
  | startItem mission item version now =>
    simp only [step] at h
    split at h <;> cases h <;> exact .inl rfl
  | createJob | releaseItem | linkItem | crashStart =>
    obtain ⟨call, -, hmove⟩ := Option.bind_eq_some_iff.mp h
    unfold startStep at hmove
    repeat' split at hmove
    all_goals cases hmove
    all_goals exact .inl rfl
  | claim service locked now =>
    obtain ⟨⟨db, turnId⟩, -, rfl⟩ := Option.map_eq_some_iff.mp h
    exact .inl rfl
  | load | beginCall | invoke | storeReceipt | apply | fail | crash =>
    obtain ⟨e, -, hmove⟩ := Option.bind_eq_some_iff.mp h
    unfold executionStep at hmove
    dsimp only at hmove
    repeat' split at hmove
    all_goals cases hmove
    all_goals exact .inl rfl
  | executeRun | waitForCapacity | leaveCapacity | requestReconciliation | retryRun | runModelCall =>
    obtain ⟨db, -, rfl⟩ := Option.map_eq_some_iff.mp h
    exact .inl rfl

end Step

/-! ## A pass -/

/-- The mission is autonomous and listens to its runs. -/
def Db.awake (db : Db) (missionId : Nat) : Prop :=
  ∃ mission, db.mission? missionId = some mission ∧ mission.autonomous = true ∧ mission.lifecycle.closed = false

section Pass

variable {db : Db} {missionId : Nat}

theorem awake_congr {db' : Db} (h : db'.missions = db.missions) (hawake : db.awake missionId) : db'.awake missionId := by
  obtain ⟨mission, hmission, hrest⟩ := hawake
  refine ⟨mission, ?_, hrest⟩
  unfold Db.mission? at hmission ⊢
  rw [h]
  exact hmission

/-- A mission after a row has been written over its own: as it was, or as the row is. -/
theorem mission?_written {base : Db} {key : Nat} (now : Nat) {old row mission : MissionRow} (hold : base.mission? key = some old)
    (hid : row.id = old.id) (hmission : base.mission? missionId = some mission) :
    ∃ after, (base.writeMission now row).mission? missionId = some after ∧
      ((after.autonomous = mission.autonomous ∧ after.lifecycle = mission.lifecycle) ∨
        (mission = old ∧ after.autonomous = row.autonomous ∧ after.lifecycle = row.lifecycle)) := by
  obtain ⟨-, hof⟩ := Db.mission?_eq_some hold
  obtain ⟨-, hmissionId⟩ := Db.mission?_eq_some hmission
  refine ⟨_, by rw [Db.mission?_writeMission, hmission]; rfl, ?_⟩
  dsimp only
  by_cases heq : mission.id = row.id
  · rw [if_pos heq]
    have hsame : mission = old := by
      rw [← hmissionId, heq, hid, hof, hold] at hmission
      exact (Option.some.inj hmission).symm
    split
    · exact .inl ⟨rfl, rfl⟩
    · exact .inr ⟨hsame, rfl, rfl⟩
  · rw [if_neg heq]
    exact .inl ⟨rfl, rfl⟩

/-- A mission written over its own row, autonomous as it was and listening if it did. -/
theorem awake_writeMission {base : Db} {key now : Nat} {old row : MissionRow} (hold : base.mission? key = some old)
    (hid : row.id = old.id) (hauto : row.autonomous = old.autonomous)
    (hlife : old.lifecycle.closed = false → row.lifecycle.closed = false) (hawake : base.awake missionId) :
    (base.writeMission now row).awake missionId := by
  obtain ⟨mission, hmission, hautonomous, hopen⟩ := hawake
  obtain ⟨after, hafter, ⟨ha, hl⟩ | ⟨rfl, ha, hl⟩⟩ := mission?_written now hold hid hmission
  · exact ⟨after, hafter, ha.trans hautonomous, by rw [hl]; exact hopen⟩
  · exact ⟨after, hafter, ha.trans (hauto.trans hautonomous), by rw [hl]; exact hlife hopen⟩

theorem awaitApproval_awake (now : Nat) (active : WorkItemRow × RunRow) (h : db.awake missionId) :
    (awaitApproval now db active).awake missionId := by
  unfold awaitApproval
  split
  · exact h
  · rename_i mission hmission
    repeat' split
    · exact awake_writeMission hmission rfl rfl (fun _ => rfl) h
    · exact awake_writeMission hmission rfl rfl (fun _ => rfl) h
    · exact h

/-- A run that waits for approval wakes its mission. -/
theorem awaitApproval_wakes (now : Nat) {item : WorkItemRow} {run : RunRow} (hrun : run.status = .approvalRequired)
    {mission : MissionRow} (hmission : db.mission? item.missionId = some mission) (hauto : mission.autonomous = true) :
    (awaitApproval now db (item, run)).awake item.missionId := by
  obtain ⟨-, hid⟩ := Db.mission?_eq_some hmission
  unfold awaitApproval
  rw [hmission]
  dsimp only
  rw [if_pos hrun]
  refine ⟨_, by rw [Db.mission?_writeMission, hmission]; rfl, ?_⟩
  dsimp only
  rw [if_pos rfl]
  split
  · rename_i hsame
    rw [← hsame]
    exact ⟨hauto, rfl⟩
  · exact ⟨hauto, rfl⟩

/-- The first loop leaves missions autonomous. -/
theorem awaitApproval_autonomous (now : Nat) (active : WorkItemRow × RunRow)
    (h : ∃ mission, db.mission? missionId = some mission ∧ mission.autonomous = true) :
    ∃ mission, (awaitApproval now db active).mission? missionId = some mission ∧ mission.autonomous = true := by
  obtain ⟨mission, hmission, hauto⟩ := h
  have hwrite : ∀ old row : MissionRow, db.mission? active.1.missionId = some old → row.id = old.id →
      row.autonomous = old.autonomous → ∃ mission, (db.writeMission now row).mission? missionId = some mission ∧
        mission.autonomous = true := by
    intro old row hold hid hsame
    obtain ⟨after, hafter, ⟨ha, -⟩ | ⟨rfl, ha, -⟩⟩ := mission?_written now hold hid hmission
    · exact ⟨after, hafter, ha.trans hauto⟩
    · exact ⟨after, hafter, ha.trans (hsame.trans hauto)⟩
  unfold awaitApproval
  split
  · exact ⟨mission, hmission, hauto⟩
  · rename_i old hold
    repeat' split
    · exact hwrite old _ hold rfl rfl
    · exact hwrite old _ hold rfl rfl
    · exact ⟨mission, hmission, hauto⟩

theorem awaited_fold_awake (now : Nat) : ∀ (pairs : List (WorkItemRow × RunRow)) (db : Db),
    (∃ mission, db.mission? missionId = some mission ∧ mission.autonomous = true) →
    (db.awake missionId ∨ ∃ pair ∈ pairs, pair.1.missionId = missionId ∧ pair.2.status = .approvalRequired) →
    (pairs.foldl (awaitApproval now) db).awake missionId := by
  intro pairs
  induction pairs with
  | nil =>
    rintro db - (hawake | ⟨pair, hpair, -⟩)
    · exact hawake
    · cases hpair
  | cons head pairs ih =>
    intro db hauto h
    rw [List.foldl_cons]
    refine ih _ (awaitApproval_autonomous now head hauto) ?_
    rcases h with hawake | ⟨pair, hpair, hof, hrun⟩
    · exact .inl (awaitApproval_awake now head hawake)
    · rcases List.mem_cons.mp hpair with rfl | hpair
      · obtain ⟨mission, hmission, hautonomous⟩ := hauto
        obtain ⟨item, run⟩ := pair
        subst hof
        exact .inl (awaitApproval_wakes now hrun hmission hautonomous)
      · exact .inr ⟨pair, hpair, hof, hrun⟩

/-! ### Announcements -/

theorem wakeMission_wakeupKeys (mission : MissionRow) (item : WorkItemRow) (cursor now : Nat) :
    (wakeMission db mission item cursor now).wakeupKeys =
      if (mission.id, DeduplicationKey.runTerminal item.runId item.lifecycle) ∈ db.wakeupKeys then db.wakeupKeys
      else db.wakeupKeys ++ [(mission.id, .runTerminal item.runId item.lifecycle)] := by
  have hmem : (db.wakeups.any fun wakeup => wakeup.missionId = mission.id ∧
      wakeup.deduplicationKey = .runTerminal item.runId item.lifecycle) = true ↔
      (mission.id, DeduplicationKey.runTerminal item.runId item.lifecycle) ∈ db.wakeupKeys := by
    simp [Db.wakeupKeys, List.any_eq_true]
  unfold wakeMission
  dsimp only
  by_cases hin : (mission.id, DeduplicationKey.runTerminal item.runId item.lifecycle) ∈ db.wakeupKeys
  · rw [if_pos hin, if_pos (hmem.mpr hin)]
  · rw [if_neg hin, if_neg fun h => hin (hmem.mp h)]
    exact List.map_append

/-- An announcement records one key at most, and none that is there. -/
theorem announce_wakeupKeys (now : Nat) (db : Db) (itemId : Nat) :
    (announce now db itemId).wakeupKeys = db.wakeupKeys ∨
      ∃ key, key ∉ db.wakeupKeys ∧ (announce now db itemId).wakeupKeys = db.wakeupKeys ++ [key] := by
  unfold announce
  split
  · exact .inl rfl
  · rename_i item hitem
    dsimp only
    split
    · split
      · exact .inl rfl
      · rename_i mission hmission
        split
        · exact .inl rfl
        · split
          · rw [wakeMission_wakeupKeys]
            split
            · exact .inl rfl
            · rename_i hnew
              exact .inr ⟨_, hnew, rfl⟩
          · exact .inl rfl
    · exact .inl rfl

theorem paused_of_closed {lifecycle : MissionLifecycle} (h : lifecycle.closed = true) (hended : lifecycle.ended = false) :
    lifecycle = .paused := by
  cases lifecycle <;> simp_all [MissionLifecycle.closed, MissionLifecycle.ended]

theorem not_ended_of_open {lifecycle : MissionLifecycle} (h : lifecycle.closed = false) : lifecycle.ended = false := by
  cases lifecycle <;> simp_all [MissionLifecycle.closed, MissionLifecycle.ended]

theorem closed_silent {lifecycle : MissionLifecycle} (h : lifecycle.closed = false) :
    lifecycle.silent = false ∧ lifecycle ≠ .cancelling := by
  cases lifecycle <;> simp_all [MissionLifecycle.closed, MissionLifecycle.silent]

/-- A settled item of a mission that listens is told. -/
theorem announce_wakes (now : Nat) {itemId : Nat} {item : WorkItemRow} (hitem : db.item? itemId = some item)
    (hsettled : item.lifecycle.settled) (hawake : db.awake item.missionId) :
    (item.missionId, .runTerminal item.runId item.lifecycle) ∈ (announce now db itemId).wakeupKeys := by
  obtain ⟨mission, hmission, hauto, hopen⟩ := hawake
  obtain ⟨hsilent, hcancelling⟩ := closed_silent hopen
  obtain ⟨-, hid⟩ := Db.mission?_eq_some hmission
  unfold announce
  rw [hitem]
  dsimp only
  rw [if_pos (show _ ∨ _ ∨ _ from hsettled), show (db.emit.writeItem _).mission? item.missionId = some mission from hmission]
  dsimp only
  rw [if_neg hcancelling, if_pos (by simp [hauto, hsilent]), wakeMission_wakeupKeys, hid]
  split
  · rename_i hin
    exact hin
  · exact List.mem_append_right _ (List.mem_singleton.mpr rfl)

theorem announce_awake (now itemId : Nat) (h : db.awake missionId) : (announce now db itemId).awake missionId := by
  unfold announce
  split
  · exact h
  · rename_i item hitem
    dsimp only
    split
    · have hbase : (db.emit.writeItem { item with acceptedEventCursor := some db.emit.lastPosition }).awake missionId :=
        awake_congr rfl h
      split
      · exact hbase
      · rename_i mission hmission
        split
        · rename_i hcancelling
          refine awake_writeMission hmission rfl rfl (fun hopen => ?_) hbase
          exact absurd hcancelling (closed_silent hopen).2
        · split
          · unfold wakeMission
            dsimp only
            split
            · exact hbase
            · exact awake_writeMission hmission rfl rfl (fun hopen => hopen) hbase
          · exact hbase
    · exact awake_congr rfl h

theorem announced_keys (now : Nat) : ∀ (ids : List Nat) (db : Db) {key : Nat × DeduplicationKey}, key ∈ db.wakeupKeys →
    key ∈ (ids.foldl (announce now) db).wakeupKeys := by
  intro ids
  induction ids with
  | nil => exact fun _ _ hin => hin
  | cons head ids ih =>
    intro db key hin
    rw [List.foldl_cons]
    refine ih _ ?_
    rcases announce_wakeupKeys now db head with hsame | ⟨_, -, happend⟩
    · rwa [hsame]
    · rw [happend]
      exact List.mem_append_left _ hin

theorem announced_wakes (now : Nat) {itemId : Nat} : ∀ (ids : List Nat) (db : Db) {item : WorkItemRow}, itemId ∈ ids →
    db.item? itemId = some item → item.lifecycle.settled → db.awake item.missionId →
      (item.missionId, .runTerminal item.runId item.lifecycle) ∈ (ids.foldl (announce now) db).wakeupKeys := by
  intro ids
  induction ids with
  | nil => exact fun _ _ hin => (List.not_mem_nil hin).elim
  | cons head ids ih =>
    intro db item hin hitem hsettled hawake
    rw [List.foldl_cons]
    rcases List.mem_cons.mp hin with rfl | hin
    · exact announced_keys now ids _ (announce_wakes now hitem hsettled hawake)
    · -- an announcement changes no more than the item's cursor
      obtain ⟨cursor, hcursor⟩ := announce_item? now db head itemId
      rw [hitem, Option.map_some] at hcursor
      have hlater := ih _ hin hcursor hsettled (announce_awake now head hawake)
      exact hlater

/-- A terminal run's key is there once at most. -/
def Single (keys : List (Nat × DeduplicationKey)) : Prop :=
  ∀ missionId run lifecycle, keys.count (missionId, DeduplicationKey.runTerminal run lifecycle) ≤ 1

theorem announced_single (now : Nat) : ∀ (ids : List Nat) (db : Db), Single db.wakeupKeys →
    Single (ids.foldl (announce now) db).wakeupKeys := by
  intro ids
  induction ids with
  | nil => exact fun _ h => h
  | cons head ids ih =>
    intro db h
    rw [List.foldl_cons]
    refine ih _ ?_
    rcases announce_wakeupKeys now db head with hsame | ⟨key, hnew, happend⟩
    · rwa [hsame]
    · rw [happend]
      intro missionId run lifecycle
      rw [List.count_append]
      by_cases heq : key = (missionId, .runTerminal run lifecycle)
      · subst heq
        simp [List.count_eq_zero_of_not_mem hnew]
      · simpa [List.count_singleton, heq] using h missionId run lifecycle

theorem readied_wakeupKeys (db : Db) (now : Nat) : (readied db now).wakeupKeys = db.wakeupKeys := by
  have hawaited : (awaited db now).wakeups = db.wakeups := awaited_writes db now .wakeups (by decide)
  have hsettled : (settledItems db now).wakeups = (awaited db now).wakeups :=
    Writes.foldl (settleItem_writes now) _ _ .wakeups (by decide)
  have hreadied : (readied db now).wakeups = (settledItems db now).wakeups :=
    Writes.foldl readyItem_writes _ _ .wakeups (by decide)
  exact wakeupKeys_congr (hreadied.trans (hsettled.trans hawaited))

/-- An item that a pass settles is told, if its mission is awake after the first loop. -/
theorem reconcileItems_wakes (hk : db.keys.Distinct) (now : Nat) {item : WorkItemRow} {run : RunRow} (hended : (item, run) ∈ endedRuns db)
    (hawake : (awaited db now).awake item.missionId) :
    (item.missionId, .runTerminal (some run.id) (settledLifecycle run.status)) ∈ (reconcileItems db now).wakeupKeys := by
  obtain ⟨-, -, hitemRun, -⟩ := mem_endedRuns.mp hended
  rw [reconcileItems_eq, ← (itemRun_eq_some hitemRun).1]
  have hin : item.id ∈ announced db now := List.mem_append_left _ (List.mem_map.mpr ⟨_, hended, rfl⟩)
  have hready : (readied db now).awake item.missionId := awake_congr (readied_missions db now) hawake
  exact announced_wakes now (announced db now) (readied db now) hin (readied_ended hk now hended)
    (settledLifecycle_settled run.status) hready

/-- A pass leaves an ended mission ended, if no run of it waits for approval. -/
theorem reconcileItems_ended (now : Nat) {mission : MissionRow} (hmission : db.mission? missionId = some mission)
    (hended : mission.lifecycle.ended = true) (hnone : ∀ run ∈ activeRuns db mission.id, run.status ≠ .approvalRequired) :
    ∃ after, (reconcileItems db now).lifecycle? missionId = some after ∧ after.ended = true := by
  obtain ⟨-, rfl⟩ := Db.mission?_eq_some hmission
  rw [reconcileItems_eq]
  rcases announced_lifecycle? now (announced db now) _ (readied_lifecycle? now hmission hended hnone) with
    hsame | ⟨-, hcancelled, -⟩
  · exact ⟨_, hsame, hended⟩
  · exact ⟨_, hcancelled, rfl⟩

end Pass

/-! ## The invariant -/

structure Woken (s : Sys) : Prop where
  single : Single s.db.wakeupKeys
  /-- What was settled has been told, or its mission has ended. -/
  told : ∀ entry ∈ s.settled, entry.key ∈ s.db.wakeupKeys ∨
    ∃ mission, s.db.mission? entry.missionId = some mission ∧ mission.lifecycle.ended = true

section Invariant

variable {s s' : Sys} {action : Action}

theorem ended_allows {quiet : Prop} {before after : MissionLifecycle} (hended : before.ended = true)
    (h : before.Allows quiet after) : after.ended = true := by
  cases before <;> first | cases hended; done | skip
  · rcases h with rfl | ⟨rfl, -⟩ <;> rfl
  · rcases h with rfl | rfl <;> rfl
  · rcases h with rfl | rfl <;> rfl
  · cases h
    rfl

theorem Single.grows {keys keys' : List (Nat × DeduplicationKey)} (h : Single keys) (hgrows : Grows keys keys') : Single keys' := by
  obtain ⟨new, rfl, hnew⟩ := hgrows
  intro missionId run lifecycle
  have hnone : (missionId, DeduplicationKey.runTerminal run lifecycle) ∉ new := fun hin => hnew _ hin run lifecycle rfl
  rw [List.count_append, List.count_eq_zero_of_not_mem hnone]
  exact h missionId run lifecycle

/-- An item that a pass settles is told, unless its mission has ended. -/
theorem settlement_told (hk : s.db.keys.Distinct) {now : Nat} (hok : keepsTelling s (.reconcileItems now)) {entry : Settlement}
    (hentry : entry ∈ settlements s.db) : entry.key ∈ (reconcileItems s.db now).wakeupKeys ∨
      ∃ mission, (reconcileItems s.db now).mission? entry.missionId = some mission ∧ mission.lifecycle.ended = true := by
  obtain ⟨⟨item, run⟩, hpair, heq⟩ := List.mem_filterMap.mp hentry
  dsimp only at heq
  split at heq
  · rename_i hcond
    cases heq
    obtain ⟨hterminal, hany⟩ := hcond
    obtain ⟨mission, hmission, hauto⟩ := (Option.any_eq_true _ _).mp hany
    have hended : (item, run) ∈ endedRuns s.db := List.mem_filter.mpr ⟨hpair, hterminal⟩
    obtain ⟨hmem, hid⟩ := Db.mission?_eq_some hmission
    obtain ⟨hends, hpaused⟩ := hok mission hmem
    have hwakes : (s.db.awake item.missionId ∨ ∃ active ∈ (startedRuns s.db).filter fun pair => !pair.2.terminal,
        active.1.missionId = item.missionId ∧ active.2.status = .approvalRequired) →
        (item.missionId, DeduplicationKey.runTerminal (some run.id) (settledLifecycle run.status)) ∈ (reconcileItems s.db now).wakeupKeys :=
      fun h => reconcileItems_wakes hk now hended (awaited_fold_awake now _ _ ⟨mission, hmission, hauto⟩ h)
    cases hclosed : mission.lifecycle.closed with
    | false => exact .inl (hwakes (.inl ⟨mission, hmission, hauto, hclosed⟩))
    | true =>
      cases hend : mission.lifecycle.ended with
      | true =>
        obtain ⟨after, hafter, hafterEnded⟩ := reconcileItems_ended now hmission hend (hends hend)
        obtain ⟨row, hrow, rfl⟩ := Option.map_eq_some_iff.mp hafter
        exact .inr ⟨row, hrow, hafterEnded⟩
      | false =>
        rcases hpaused (paused_of_closed hclosed hend) hauto with hnone | ⟨active, hactive, happroval⟩
        · exact absurd hid.symm (hnone _ hended)
        · obtain ⟨hgoes, other, hother, hof, hstarted, hrun⟩ := mem_activeRuns.mp hactive
          refine .inl (hwakes (.inr ⟨(other, active), ?_, hof.trans hid, happroval⟩))
          exact List.mem_filter.mpr ⟨mem_startedRuns.mpr ⟨hother, hstarted, hrun⟩, by simp [hgoes]⟩
  · cases heq

theorem Woken.pass (hk : s.db.keys.Distinct) (hs : Woken s) {now : Nat} (hok : keepsTelling s (.reconcileItems now))
    (h : Jarvis.Missions.step s (.reconcileItems now) = some s') : Woken s' := by
  cases h
  have hkeys : ∀ {key}, key ∈ s.db.wakeupKeys → key ∈ (reconcileItems s.db now).wakeupKeys := by
    intro key hin
    rw [reconcileItems_eq]
    exact announced_keys now _ _ ((readied_wakeupKeys s.db now).symm ▸ hin)
  refine ⟨?_, fun entry hentry => ?_⟩
  · show Single (reconcileItems s.db now).wakeupKeys
    rw [reconcileItems_eq]
    exact announced_single now _ _ ((readied_wakeupKeys s.db now).symm ▸ hs.single)
  · rcases List.mem_append.mp hentry with hentry | hentry
    · rcases hs.told entry hentry with htold | ⟨mission, hmission, hended⟩
      · exact .inl (hkeys htold)
      · obtain ⟨after, hafter, hafterEnded⟩ :=
          reconcileItems_ended now hmission hended ((hok mission (Db.mission?_eq_some hmission).1).1 hended)
        obtain ⟨row, hrow, rfl⟩ := Option.map_eq_some_iff.mp hafter
        exact .inr ⟨row, hrow, hafterEnded⟩
    · exact settlement_told hk hok hentry

theorem Woken.step (hk : s.db.keys.Distinct) (hs : Woken s) (hok : keepsTelling s action)
    (h : Jarvis.Missions.step s action = some s') : Woken s' := by
  rcases settled_cases h with hsettled | ⟨now, rfl, -⟩
  · by_cases hpass : ∃ now, action = .reconcileItems now
    · obtain ⟨now, rfl⟩ := hpass
      exact hs.pass hk hok h
    · have haction : ∀ now, action ≠ .reconcileItems now := fun now heq => hpass ⟨now, heq⟩
      have hspares : sparesEnded s action := by
        unfold keepsTelling at hok
        split at hok
        · exact absurd rfl (haction _)
        · exact hok
      have hgrows := step_grows h haction
      refine ⟨hs.single.grows hgrows, fun entry hentry => ?_⟩
      rw [hsettled] at hentry
      rcases hs.told entry hentry with htold | ⟨mission, hmission, hended⟩
      · obtain ⟨new, hnew, -⟩ := hgrows
        exact .inl (hnew ▸ List.mem_append_left _ htold)
      · obtain ⟨after, hafter, hallows⟩ :=
          step_respectsEnds hk hspares h entry.missionId mission.lifecycle (by unfold Db.lifecycle?; rw [hmission]; rfl)
        obtain ⟨row, hrow, rfl⟩ := Option.map_eq_some_iff.mp hafter
        exact .inr ⟨row, hrow, ended_allows hended hallows⟩
  · exact hs.pass hk hok h

theorem Woken.init (versions : List Nat) : Woken (Sys.init versions) :=
  ⟨fun _ _ _ => Nat.zero_le _, by simp [Sys.init]⟩

/-- In a run in which nothing settles while its mission is paused and ended missions are not revived,
    what a run settled while its mission was autonomous has its wakeup exactly once, in every state
    in which the mission listens. -/
theorem completion_wakeups {versions : List Nat} (h : ReachIf step keepsTelling (Sys.init versions) s) :
    ∀ entry ∈ s.settled, ∀ mission, s.db.mission? entry.missionId = some mission → mission.lifecycle.closed = false →
      s.db.wakeupKeys.count entry.key = 1 := by
  have hwoken : Woken s := h.invariant_with (fun s => s.db.keys.Distinct) Woken (fun _ hr => reach_distinct hr) (.init versions)
    fun _ _ _ hk hs hok hstep => hs.step hk hok hstep
  intro entry hentry mission hmission hopen
  rcases hwoken.told entry hentry with htold | ⟨row, hrow, hended⟩
  · exact Nat.le_antisymm (hwoken.single _ _ _) (List.one_le_count_iff.mpr htold)
  · rw [hmission] at hrow
    cases hrow
    rw [not_ended_of_open hopen] at hended
    cases hended

end Invariant

/-! ## An item that finishes under a pause -/

/-- The owner pauses the mission, item 5's run completes and a pass accepts the item; after the resume
    and another pass there is no wakeup. -/
theorem wakeup_lost :
    ∃ s s' entry, Reach step (Sys.init [7]) s ∧ step s (.reconcileItems 8) = some s' ∧ entry ∈ s'.settled ∧
      entry.itemId = 5 ∧ entry.lifecycle = .accepted ∧
      (∃ mission, s'.db.mission? entry.missionId = some mission ∧ mission.lifecycle.closed = false) ∧
      s'.db.wakeupKeys.count entry.key = 0 := by
  let actions := planned ++ [.dispatchReady .real [] [] 2, .controlMission 0 (controlOf .pause 4 (by decide)) 0 3,
    .executeRun (.assignment 5) .running .running 4, .executeRun (.assignment 5) .completed .running 5, .reconcileItems 6,
    .controlMission 0 (controlOf .resume 5 (by decide)) 0 7]
  have hrun : (run step (Sys.init [7]) actions).any (fun s => (step s (.reconcileItems 8)).any fun s' =>
      s'.settled.any fun entry => entry.itemId = 5 ∧ entry.lifecycle = .accepted ∧
        ((s'.db.mission? entry.missionId).any fun mission => mission.lifecycle.closed = false) ∧
        s'.db.wakeupKeys.count entry.key = 0) = true := by decide +kernel
  obtain ⟨s, hs, hany⟩ := (Option.any_eq_true _ _).mp hrun
  obtain ⟨s', hs', hany⟩ := (Option.any_eq_true _ _).mp hany
  obtain ⟨entry, hentry, hend⟩ := List.any_eq_true.mp hany
  obtain ⟨hitem, hlife, hmission, hcount⟩ := of_decide_eq_true hend
  obtain ⟨mission, hmission, hopen⟩ := (Option.any_eq_true _ _).mp hmission
  exact ⟨s, s', entry, run_reach actions hs, hs', hentry, hitem, hlife, ⟨mission, hmission, of_decide_eq_true hopen⟩, hcount⟩

/-- The pass comes before the pause: the wakeup is there after the resume, once. -/
theorem completion_wakeups_resumed :
    ∃ s entry mission, ReachIf step keepsTelling (Sys.init [7]) s ∧ entry ∈ s.settled ∧
      s.db.mission? entry.missionId = some mission ∧ mission.lifecycle.closed = false ∧ s.db.wakeupKeys.count entry.key = 1 := by
  let actions := planned ++ [.dispatchReady .real [] [] 2, .executeRun (.assignment 5) .running .running 3,
    .executeRun (.assignment 5) .completed .running 4, .reconcileItems 5, .controlMission 0 (controlOf .pause 5 (by decide)) 0 6,
    .controlMission 0 (controlOf .resume 6 (by decide)) 0 7, .reconcileItems 8]
  have hrun : (runIf step keepsTelling (Sys.init [7]) actions).any (fun s => s.settled.any fun entry =>
      (s.db.mission? entry.missionId).any fun mission => mission.lifecycle.closed = false) = true := by decide +kernel
  obtain ⟨s, hs, hany⟩ := (Option.any_eq_true _ _).mp hrun
  obtain ⟨entry, hentry, hmission⟩ := List.any_eq_true.mp hany
  obtain ⟨mission, hmission, hopen⟩ := (Option.any_eq_true _ _).mp hmission
  have hopen := of_decide_eq_true hopen
  have hreach := runIf_reachIf actions hs
  exact ⟨s, entry, mission, hreach, hentry, hmission, hopen, completion_wakeups hreach entry hentry mission hmission hopen⟩

end Jarvis.Missions
