/-
  Jarvis.Missions.Identities — missions, work items, runs and turns have identities of their
  own in every reachable state.

  Rows are rewritten in place and new ones take a fresh identity, or a derived one that was
  looked for before. So it is enough to follow the keys of the four tables (`Db.keys`):
  most writes leave them alone.
-/
import Jarvis.Missions.Frames

namespace Jarvis.Missions

open Jarvis.Runtime (RunStatus DesiredState Mode)
open Jarvis.Steps
open Jarvis.Keyed (Allotted)

/-- The identities in use, and the next fresh one. -/
structure Keys where
  missions : List Nat
  items : List Nat
  runs : List RunId
  turns : List TurnId
  nextId : Nat

def Db.keys (db : Db) : Keys where
  missions := db.missions.map (·.id)
  items := db.items.map (·.id)
  runs := db.runs.map (·.id)
  turns := db.turns.map (·.id)
  nextId := db.nextId

/-- Identities are distinct, and the next fresh ones are not in use. -/
structure Keys.Distinct (keys : Keys) : Prop where
  missions : Allotted id keys.missions keys.nextId
  items : Allotted id keys.items keys.nextId
  runs : Allotted .fresh keys.runs keys.nextId
  turns : Allotted .fresh keys.turns keys.nextId

theorem Keys.Distinct.grow {keys : Keys} (h : keys.Distinct) {n : Nat} (hn : keys.nextId ≤ n) :
    { keys with nextId := n }.Distinct :=
  ⟨h.missions.grow hn, h.items.grow hn, h.runs.grow hn, h.turns.grow hn⟩

namespace Keys.Distinct

variable {keys : Keys} {n : Nat} (h : keys.Distinct) (hn : keys.nextId ≤ n)

include h hn

theorem addMission {m : Nat} (hm : m ∉ keys.missions) (hlt : m < n) :
    { keys with missions := keys.missions ++ [m], nextId := n }.Distinct :=
  { h.grow hn with missions := h.missions.add hm hn fun _ heq => Nat.lt_of_le_of_lt (Nat.le_of_eq heq) hlt }

theorem addItem {m : Nat} (hm : m ∉ keys.items) (hlt : m < n) :
    { keys with items := keys.items ++ [m], nextId := n }.Distinct :=
  { h.grow hn with items := h.items.add hm hn fun _ heq => Nat.lt_of_le_of_lt (Nat.le_of_eq heq) hlt }

theorem addRun {id : RunId} (hid : id ∉ keys.runs) (hlt : ∀ m, .fresh m = id → m < n) :
    { keys with runs := keys.runs ++ [id], nextId := n }.Distinct :=
  { h.grow hn with runs := h.runs.add hid hn hlt }

theorem addTurn {id : TurnId} (hid : id ∉ keys.turns) (hlt : ∀ m, .fresh m = id → m < n) :
    { keys with turns := keys.turns ++ [id], nextId := n }.Distinct :=
  { h.grow hn with turns := h.turns.add hid hn hlt }

end Keys.Distinct

/-! ## Writes that keep the identities -/

section Writes

variable (db : Db)

@[simp] theorem keys_writeMission (now : Nat) (mission : MissionRow) : (db.writeMission now mission).keys = db.keys := by
  unfold Db.keys Db.writeMission
  congr 1
  refine Keyed.map_key_replace (f := fun old => if mission = old then old else { mission with updatedAt := now }) ?_
  intro old hold
  split
  · exact hold
  · rfl

@[simp] theorem keys_writeItem (item : WorkItemRow) : (db.writeItem item).keys = db.keys := by
  unfold Db.keys Db.writeItem
  congr 1
  exact Keyed.map_key_replace (f := fun _ => item) fun _ _ => rfl

@[simp] theorem keys_writeRun (run : RunRow) : (db.writeRun run).keys = db.keys := by
  unfold Db.keys Db.writeRun
  congr 1
  exact Keyed.map_key_replace (f := fun _ => run) fun _ _ => rfl

@[simp] theorem keys_writeTurn (turn : TurnRow) : (db.writeTurn turn).keys = db.keys := by
  unfold Db.keys Db.writeTurn
  congr 1
  exact Keyed.map_key_replace (f := fun _ => turn) fun _ _ => rfl

@[simp] theorem keys_dispose (id : Nat) (disposition : Disposition) : (db.dispose id disposition).keys = db.keys := rfl

@[simp] theorem keys_settleWakeup (id : Option Nat) (status : WakeupStatus) : (db.settleWakeup id status).keys = db.keys := rfl

@[simp] theorem keys_emit : db.emit.keys = db.keys := rfl

@[simp] theorem keys_record (scope : IdempotencyScope) (key : String) (request : RequestBody) :
    (db.record scope key request).keys = db.keys := rfl

@[simp] theorem keys_ledger (ledger : Ledger ActionId) : ({ db with ledger } : Db).keys = db.keys := rfl

end Writes

/-! ## Transactions -/

section Transactions

variable {db db' : Db}

theorem createMission_distinct (h : db.keys.Distinct) (mission : MissionRow) (team : TeamVersionRow) (now : Nat) :
    (createMission db mission team now).keys.Distinct := by
  have hkeys : (createMission db mission team now).keys =
      { db.keys with missions := db.keys.missions ++ [db.nextId], nextId := db.nextId + 2 } := by
    simp [createMission, Db.keys, Db.emit]
  rw [hkeys]
  exact h.addMission (Nat.le_add_right _ _) (h.missions.unused (Nat.le_refl _)) (Nat.lt_add_of_pos_right (by decide))

theorem updateAutonomy_keys {mission version now : Nat} {enabled unpaid : Bool} {key : String}
    (h : updateAutonomy db mission enabled version key unpaid now = .ok db') : db'.keys = db.keys := by
  obtain rfl | ⟨mission, -, h⟩ := withMission_ok h
  · rfl
  · split at h <;> cases h
    simp

theorem updateDirective_keys {mission version now : Nat} {constraints : List String} {key : String}
    (h : updateDirective db mission constraints version key now = .ok db') : db'.keys = db.keys := by
  obtain rfl | ⟨mission, -, h⟩ := withMission_ok h
  · rfl
  · split at h <;> cases h
    simp

theorem updateTeam_distinct {mission version now : Nat} {team : TeamVersionRow} {key : String} (hk : db.keys.Distinct)
    (h : updateTeam db mission team version key now = .ok db') : db'.keys.Distinct := by
  unfold updateTeam at h
  dsimp only at h
  repeat' split at h
  all_goals cases h
  · exact hk
  · rw [keys_emit, keys_writeMission]
    exact hk.grow (Nat.le_succ _)

theorem createMessage_distinct {mission version now : Nat} {body key : String} {paid : Bool} (hk : db.keys.Distinct)
    (h : createMessage db mission body version paid key now = .ok db') : db'.keys.Distinct := by
  obtain rfl | ⟨mission, -, h⟩ := withMission_ok h
  · exact hk
  · split at h <;> cases h
    rw [keys_emit, keys_writeMission]
    have hadd := hk.addTurn (n := db.nextId + 3) (Nat.le_add_right _ _)
      (hk.turns.unused (n := db.nextId + 2) (Nat.le_add_right _ _)) (fun m hm => by cases hm; omega)
    simpa [Db.keys, Db.record] using hadd

theorem enqueue_keys {run : RunRow} {kind : RunCommandKind} {key : String} {instruction : Option String}
    (h : enqueue db run kind key instruction = .ok db') : db'.keys = db.keys := by
  unfold enqueue at h
  repeat' split at h
  all_goals cases h
  · rfl
  · rw [keys_emit, keys_writeRun]
    rfl

theorem controlMission_keys {mission order now : Nat} {body : MissionControlRequest}
    (h : controlMission db mission body order now = .ok db') : db'.keys = db.keys := by
  obtain rfl | ⟨mission, -, h⟩ := withMission_ok h
  · rfl
  · dsimp only at h
    split at h
    · cases h
    · rename_i commanded hcommand
      cases h
      rw [keys_emit, keys_writeMission, keys_record, keys_ledger]
      split at hcommand
      · exact enqueue_keys hcommand
      · cases hcommand
        rfl

theorem createJob_distinct {project item : Nat} {body : JobCreate} {projectActive configured : Bool} {jobId : JobId}
    {runId : RunId} (hk : db.keys.Distinct)
    (h : createJob db project item body projectActive configured = .ok (db', jobId, runId)) : db'.keys.Distinct := by
  unfold createJob at h
  dsimp only at h
  repeat' split at h
  all_goals cases h
  · exact hk
  · have hadd := hk.addRun (n := db.nextId + 2) (Nat.le_add_right _ _)
      (hk.runs.unused (n := db.nextId + 1) (Nat.le_add_right _ _)) (fun m hm => by cases hm; omega)
    simpa [Db.keys, Db.emit] using hadd

theorem linkItem_keys {mission item now : Nat} {jobId : JobId} {runId : RunId}
    (h : linkItem db mission item jobId runId now = .ok db') : db'.keys = db.keys := by
  unfold linkItem at h
  dsimp only at h
  repeat' split at h
  all_goals cases h
  simp

/-- The run of an assignment is new unless it is there. -/
theorem assign_distinct (hk : db.keys.Distinct) (mission : MissionRow) (item : WorkItemRow) (now : Nat) :
    (assign db mission item now).keys.Distinct := by
  have hjobs : ∀ jobs, ({ db with jobs } : Db).keys = db.keys := fun _ => rfl
  unfold assign
  dsimp only
  rw [keys_emit, keys_writeMission, keys_writeItem]
  have hnone : ∀ (base : Db), base.keys = db.keys → ¬ (base.run? (.assignment item.id)).isSome = true →
      RunId.assignment item.id ∉ db.keys.runs := by
    intro base hbase hrun hin
    rw [← hbase] at hin
    obtain ⟨run, hmem, hid⟩ := List.mem_map.mp hin
    exact hrun (List.find?_isSome.mpr ⟨run, hmem, decide_eq_true hid⟩)
  split <;> split
  · exact hk
  · rename_i hrun
    have hadd := hk.addRun (n := db.nextId) (Nat.le_refl _) (hnone db rfl hrun) nofun
    simpa [Db.keys, Db.emit] using hadd
  · exact hk
  · rename_i hrun
    have hadd := hk.addRun (n := db.nextId) (Nat.le_refl _) (hnone _ (hjobs _) hrun) nofun
    simpa [Db.keys, Db.emit] using hadd

theorem dispatchReady_distinct (hk : db.keys.Distinct) (mode : Mode) (lockedMissions lockedItems : List Nat) (now : Nat) :
    (dispatchReady db mode lockedMissions lockedItems now).keys.Distinct := by
  unfold dispatchReady
  split
  · exact hk
  · dsimp only
    split
    · rw [keys_writeMission]
      exact hk
    · split
      · split
        · rw [keys_writeMission]
          exact hk
        · exact hk
      · unfold dispatchItem
        dsimp only
        split
        · rw [keys_writeMission]
          exact hk
        · split
          · rw [keys_writeMission]
            exact hk
          · split
            · rw [keys_writeMission]
              exact hk
            · split
              · exact assign_distinct (by exact hk) _ _ _
              · rw [keys_writeMission]
                exact hk

theorem claim_keys {service : Service} {locked : List TurnId} {now : Nat} {turnId : TurnId}
    (h : claim db service locked now = some (db', turnId)) : db'.keys = db.keys := by
  obtain ⟨turn, -, heq⟩ := Option.map_eq_some_iff.mp h
  cases heq
  simp

theorem beginCall_keys {service : Service} {turnId : TurnId} {request : ManagerRequest} {now : Nat} {reply : CallReply}
    (h : beginCall db service turnId request now = .ok (db', reply)) : db'.keys = db.keys := by
  unfold beginCall at h
  dsimp only at h
  repeat' split at h
  all_goals cases h
  · rw [keys_writeTurn, keys_ledger]
  · exact (keys_writeTurn _ _).trans (keys_ledger _ _)

theorem applyItem_distinct {turn : TurnRow} {proposal : WorkItemProposal} (hk : db.keys.Distinct)
    (h : applyItem turn db proposal = .ok db') : db'.keys.Distinct := by
  have hnew : ∀ lifecycle, (Db.emit
      { db with
        items := db.items ++
          [{ id := db.nextId, missionId := turn.missionId, key := proposal.key, title := proposal.title,
             objective := proposal.objective, acceptanceCriteria := proposal.acceptanceCriteria,
             priority := proposal.priority, lifecycle, directiveVersion := turn.directiveVersion,
             teamVersionId := turn.teamVersionId, sourceWakeupId := turn.wakeupId }]
        nextId := db.nextId + 1 }).keys.Distinct := by
    intro lifecycle
    have hadd := hk.addItem (Nat.le_succ _) (hk.items.unused (Nat.le_refl _)) (Nat.lt_succ_self _)
    simpa [Db.keys, Db.emit] using hadd
  unfold applyItem at h
  dsimp only at h
  repeat' split at h
  all_goals cases h
  -- the lifecycle of the proposal is split as well
  all_goals first | exact hnew _ | exact (keys_writeItem db _).symm ▸ hk

theorem applyItems_distinct {turn : TurnRow} : ∀ (proposals : List WorkItemProposal) {db db' : Db}, db.keys.Distinct →
    proposals.foldlM (applyItem turn) db = .ok db' → db'.keys.Distinct :=
  fun _ _ _ => Steps.foldlM_invariant fun _ _ _ => applyItem_distinct

theorem scheduleDeadline_distinct (hk : db.keys.Distinct) (mission : MissionRow) (turn : TurnRow) (decision : ManagerDecision)
    (now : Nat) : (scheduleDeadline db mission turn decision now).keys.Distinct := by
  unfold scheduleDeadline
  dsimp only
  repeat' split
  · exact hk
  · exact hk
  · exact hk.grow (Nat.le_succ _)

theorem apply_distinct {turnId : TurnId} {decision : ManagerDecision} {now : Nat} (hk : db.keys.Distinct)
    (h : apply db turnId decision now = .ok db') : db'.keys.Distinct := by
  unfold apply at h
  split at h
  · cases h
  · split at h
    · cases h
    · split at h
      · cases h
        unfold applyStale
        rw [keys_emit, keys_settleWakeup, keys_dispose, keys_writeTurn]
        exact hk
      · obtain ⟨ledger, ledger', proposed, hproposed, rfl⟩ := applyCurrent_ok h
        have hitems := applyItems_distinct _ (by exact hk) hproposed
        rw [keys_emit, keys_ledger]
        unfold recordDecision
        dsimp only
        refine scheduleDeadline_distinct ?_ _ _ _ _
        rw [keys_settleWakeup, keys_dispose, keys_writeTurn, keys_writeMission]
        exact hitems.grow (Nat.le_succ _)

theorem fail_keys (db : Db) (service : Service) (turnId : TurnId) (code : FailureCode) (now : Nat) :
    (fail db service turnId code now).keys = db.keys := by
  have hkeep : ∀ mission turn, (keepLiability db mission turn now).keys = db.keys := by
    intro mission turn
    unfold keepLiability
    repeat' split
    all_goals rfl
  unfold fail
  repeat' split
  · rfl
  · rfl
  · rfl
  · rw [keys_writeMission, keys_writeTurn]
  · rw [keys_writeTurn, hkeep]
  · unfold failTurn
    dsimp only
    rw [keys_emit, keys_settleWakeup, keys_dispose]
    split
    · rw [keys_writeMission, keys_writeTurn, hkeep]
    · rw [keys_writeTurn, hkeep]

theorem materializeWakeup_distinct (hk : db.keys.Distinct) (mode : Mode) (locked : List Nat) (now : Nat) :
    (materializeWakeup db mode locked now).keys.Distinct := by
  unfold materializeWakeup
  split
  · exact hk
  · split
    · exact hk
    · dsimp only
      split
      · exact hk
      · split
        · exact hk
        · split
          · exact hk
          · rename_i wakeup _ _ _ _ _ _ _ _
            unfold queueTurn
            dsimp only
            rw [keys_writeMission]
            split
            · exact hk.grow (Nat.le_succ _)
            · rename_i hany
              have hnot : TurnId.wakeup wakeup.id ∉ db.keys.turns := by
                intro hin
                obtain ⟨turn, hmem, hid⟩ := List.mem_map.mp hin
                exact hany (List.any_eq_true.mpr ⟨turn, hmem, decide_eq_true hid⟩)
              have hadd := hk.addTurn (Nat.le_succ _) hnot nofun
              simpa [Db.keys] using hadd

/-- A fold of writes that keep identities distinct. -/
theorem foldl_distinct {β : Type} {g : Db → β → Db} (h : ∀ db x, db.keys.Distinct → (g db x).keys.Distinct) :
    ∀ (xs : List β) {db : Db}, db.keys.Distinct → (xs.foldl g db).keys.Distinct := by
  intro xs
  induction xs with
  | nil => intro db hk; exact hk
  | cons x xs ih => intro db hk; exact ih (h db x hk)

theorem announce_distinct (now : Nat) (db : Db) (itemId : Nat) (hk : db.keys.Distinct) :
    (announce now db itemId).keys.Distinct := by
  unfold announce
  split
  · exact hk
  · dsimp only
    split
    · split
      · rw [keys_writeItem]
        exact hk
      · split
        · rw [keys_writeMission, keys_writeItem]
          exact hk
        · split
          · unfold wakeMission
            dsimp only
            split
            · rw [keys_writeItem]
              exact hk
            · rw [keys_writeMission]
              have hgrow := hk.grow (Nat.le_succ _)
              rw [← keys_emit, ← keys_writeItem] at hgrow
              exact hgrow
          · rw [keys_writeItem]
            exact hk
    · exact hk

theorem reconcileItems_distinct (hk : db.keys.Distinct) (now : Nat) : (reconcileItems db now).keys.Distinct := by
  unfold reconcileItems
  dsimp only
  refine foldl_distinct (announce_distinct now) _ ?_
  refine foldl_distinct (fun db item hk => ?_) _ ?_
  · unfold readyItem
    split
    · exact hk
    · rw [keys_writeItem]
      exact hk
  · refine foldl_distinct (fun db ended hk => ?_) _ ?_
    · unfold settleItem
      dsimp only
      repeat' split
      all_goals exact (keys_writeItem db _).symm ▸ hk
    · refine foldl_distinct (fun db active hk => ?_) _ hk
      unfold awaitApproval
      repeat' split
      all_goals first | exact hk | (rw [keys_writeMission]; exact hk)

theorem retryRun_distinct {runId : RunId} (hk : db.keys.Distinct) (h : retryRun db runId = some db') : db'.keys.Distinct := by
  unfold retryRun at h
  repeat' split at h
  all_goals cases h
  have hadd := hk.addRun (Nat.le_succ _) (hk.runs.unused (Nat.le_refl _)) (fun m hm => by cases hm; exact Nat.lt_succ_self _)
  simpa [Db.keys, Db.emit] using hadd

end Transactions

/-! ## Runs -/

theorem startStep_distinct {s s' : Sys} {call : StartCall} {action : Action} (hk : s.db.keys.Distinct)
    (h : startStep s call action = some s') : s'.db.keys.Distinct := by
  unfold startStep at h
  split at h
  · split at h
    · split at h <;> cases h
      · rename_i hjob
        exact createJob_distinct hk hjob
      · exact hk
    · cases h
  · split at h
    · split at h <;> cases h
      · rename_i hrelease
        unfold releaseItem at hrelease
        split at hrelease <;> cases hrelease
        exact hk
      · exact hk
    · cases h
  · split at h
    · split at h <;> cases h
      · rename_i hlink
        exact linkItem_keys hlink ▸ hk
      · exact hk
    · cases h
  · cases h
    exact hk
  · cases h

theorem executionStep_distinct {s s' : Sys} {e : Execution} {action : Action} (hk : s.db.keys.Distinct)
    (h : executionStep s e action = some s') : s'.db.keys.Distinct := by
  unfold executionStep at h
  split at h
  · split at h
    · split at h <;> cases h <;> exact hk
    · cases h
  · split at h
    · split at h <;> cases h
      · rename_i hbegin
        exact beginCall_keys hbegin ▸ hk
      · rename_i hbegin
        exact beginCall_keys hbegin ▸ hk
      · exact hk
    · cases h
  · split at h
    · dsimp only at h
      repeat' split at h
      all_goals cases h
      all_goals exact hk
    · cases h
  · split at h
    · split at h <;> cases h
      · rename_i hstore
        unfold storeReceipt at hstore
        dsimp only at hstore
        repeat' split at hstore
        all_goals cases hstore
        all_goals exact hk
      · exact hk
    · cases h
  · split at h
    · split at h <;> cases h
      · rename_i happly
        exact apply_distinct hk happly
      · exact hk
    · cases h
  · split at h
    · cases h
      exact (fail_keys s.db _ _ _ _).symm ▸ hk
    · cases h
  · cases h
    exact hk
  · cases h

theorem step_distinct {s s' : Sys} {action : Action} (hk : s.db.keys.Distinct) (h : step s action = some s') :
    s'.db.keys.Distinct := by
  cases action with
  | createMission mission team now =>
    cases h
    exact createMission_distinct hk _ _ _
  | updateAutonomy =>
    obtain ⟨db, hdb, rfl⟩ := toOption_map h
    exact updateAutonomy_keys hdb ▸ hk
  | updateDirective =>
    obtain ⟨db, hdb, rfl⟩ := toOption_map h
    exact updateDirective_keys hdb ▸ hk
  | updateTeam =>
    obtain ⟨db, hdb, rfl⟩ := toOption_map h
    exact updateTeam_distinct hk hdb
  | createMessage =>
    obtain ⟨db, hdb, rfl⟩ := toOption_map h
    exact createMessage_distinct hk hdb
  | controlMission =>
    obtain ⟨db, hdb, rfl⟩ := toOption_map h
    exact controlMission_keys hdb ▸ hk
  | startItem mission item version now =>
    simp only [step] at h
    split at h <;> cases h
    · rename_i hstart
      unfold startItem at hstart
      dsimp only at hstart
      repeat' split at hstart
      all_goals cases hstart
      exact hk
    · exact hk
  | createJob | releaseItem | linkItem | crashStart =>
    obtain ⟨c, -, hc⟩ := Option.bind_eq_some_iff.mp h
    exact startStep_distinct hk hc
  | reconcileItems now =>
    cases h
    exact reconcileItems_distinct hk _
  | materializeWakeup =>
    cases h
    exact materializeWakeup_distinct hk _ _ _
  | dispatchReady =>
    cases h
    exact dispatchReady_distinct hk _ _ _ _
  | claim =>
    obtain ⟨⟨db, turnId⟩, hclaim, rfl⟩ := Option.map_eq_some_iff.mp h
    exact claim_keys hclaim ▸ hk
  | load | beginCall | invoke | storeReceipt | apply | fail | crash =>
    obtain ⟨e, -, he⟩ := Option.bind_eq_some_iff.mp h
    exact executionStep_distinct hk he
  | executeRun =>
    obtain ⟨db, hdb, rfl⟩ := Option.map_eq_some_iff.mp h
    unfold executeRun at hdb
    repeat' split at hdb
    all_goals cases hdb
    all_goals exact (keys_writeRun s.db _).symm ▸ hk
  | waitForCapacity =>
    obtain ⟨db, hdb, rfl⟩ := Option.map_eq_some_iff.mp h
    unfold waitForCapacity at hdb
    repeat' split at hdb
    all_goals cases hdb
    · exact hk
    · exact (keys_writeMission s.db _ _).symm ▸ hk
  | leaveCapacity =>
    obtain ⟨db, hdb, rfl⟩ := Option.map_eq_some_iff.mp h
    unfold leaveCapacity at hdb
    repeat' split at hdb
    all_goals cases hdb
    · exact hk
    · exact (keys_writeMission s.db _ _).symm ▸ hk
    · exact hk
  | requestReconciliation =>
    obtain ⟨db, hdb, rfl⟩ := Option.map_eq_some_iff.mp h
    obtain ⟨run, -, rfl⟩ := Option.map_eq_some_iff.mp hdb
    exact (keys_writeRun s.db _).symm ▸ hk
  | retryRun =>
    obtain ⟨db, hdb, rfl⟩ := Option.map_eq_some_iff.mp h
    exact retryRun_distinct hk hdb
  | runModelCall =>
    obtain ⟨db, hdb, rfl⟩ := Option.map_eq_some_iff.mp h
    obtain ⟨run, -, rfl⟩ := Option.map_eq_some_iff.mp hdb
    exact hk
  | emit =>
    cases h
    exact hk

theorem init_distinct (versions : List Nat) : (Sys.init versions).db.keys.Distinct :=
  ⟨⟨List.nodup_nil, nofun⟩, ⟨List.nodup_nil, nofun⟩, ⟨List.nodup_nil, nofun⟩, ⟨List.nodup_nil, nofun⟩⟩

/-- Identities are distinct in every reachable state. -/
theorem reach_distinct {versions : List Nat} {ok : Sys → Action → Prop} {s : Sys}
    (h : ReachIf step ok (Sys.init versions) s) : s.db.keys.Distinct :=
  h.invariant (·.db.keys.Distinct) (init_distinct versions) fun _ _ _ hs _ hstep => step_distinct hs hstep

end Jarvis.Missions
