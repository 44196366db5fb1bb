/-
  Jarvis.Missions.Moves — what each action does to work items and to runs.

  `item_moves` and `run_moves` say once, for every action, how a row can come out of it: a
  work item gets its run from the last transaction of `start_item` or from `dispatch_ready`
  and from nothing else, a run is created by `create_job`, `dispatch_ready` or a retry, and it
  leaves a terminal status only when it is requeued for reconciliation.
-/
import Jarvis.Missions.Reconcile
import Mathlib.Data.List.Rotate

namespace Jarvis.Missions

open Jarvis.Runtime (RunStatus DesiredState Mode)

/-! ## The scheduler's choice -/

/-- The mission and the item that `dispatch_ready` looks at. -/
def selectedItem (db : Db) (mode : Mode) (lockedMissions lockedItems : List Nat) : Option (MissionRow × WorkItemRow) :=
  (first missionLe (db.missions.filter fun mission => dispatchable db mode mission && mission.id ∉ lockedMissions)).bind fun mission =>
    (first itemLe (db.items.filter fun item =>
      item.missionId = mission.id ∧ item.lifecycle = .ready ∧ item.directiveVersion = mission.directiveVersion ∧
        item.id ∉ lockedItems)).map fun item => (mission, item)

/-- An item that has got its job and run. -/
def WorkItemRow.launched (item : WorkItemRow) (jobId : JobId) (runId : RunId) : WorkItemRow :=
  { item with jobId := some jobId, runId := some runId, lifecycle := .started, version := item.version + 1 }

section Dispatch

variable {db : Db} {mode : Mode} {lockedMissions lockedItems : List Nat} {now : Nat}

theorem selectedItem_mem {mission : MissionRow} {item : WorkItemRow}
    (h : selectedItem db mode lockedMissions lockedItems = some (mission, item)) :
    mission ∈ db.missions ∧ item ∈ db.items ∧ item.missionId = mission.id ∧ item.lifecycle = .ready := by
  obtain ⟨m, hm, hmap⟩ := Option.bind_eq_some_iff.mp h
  obtain ⟨i, hi, heq⟩ := Option.map_eq_some_iff.mp hmap
  cases heq
  obtain ⟨hitem, hready⟩ := List.mem_filter.mp (first_mem hi)
  have hready := of_decide_eq_true hready
  exact ⟨(List.mem_filter.mp (first_mem hm)).1, hitem, hready.1, hready.2.1⟩

/-- Everything that `dispatch_ready` asks before it launches an item. -/
def launchable (db : Db) (mission : MissionRow) (item : WorkItemRow) (now : Nat) : Prop :=
  requireAdmission (ensureControls db.ledger.controls mission) mission = .ok () ∧
    ∃ team ∈ db.team? item.teamVersionId,
      (activeRuns db mission.id).length < min mission.resourceLimits.maxActiveJobs team.maxActiveAssignments ∧
      (reserve { db.ledger with controls := ensureControls db.ledger.controls mission } mission
        (jobCallOf mission item.id (min (min 7200 mission.resourceLimits.maxWallSeconds) team.maxExecutionSeconds) now)).2.isOk ∧
      team.workflowVersionId ∈ db.workflowVersions

instance (db : Db) (mission : MissionRow) (item : WorkItemRow) (now : Nat) : Decidable (launchable db mission item now) := by
  unfold launchable
  infer_instance

/-- `dispatch_ready` launches the selected item, or touches neither items nor runs. -/
theorem dispatchReady_launches (db : Db) (mode : Mode) (lockedMissions lockedItems : List Nat) (now : Nat) :
    Writes [.missions, .controls, .reservations] db (dispatchReady db mode lockedMissions lockedItems now) ∨
      ∃ mission item ledger, selectedItem db mode lockedMissions lockedItems = some (mission, item) ∧
        launchable db mission item now ∧
        dispatchReady db mode lockedMissions lockedItems now = assign { db with ledger } mission item now := by
  have hwrite : ∀ ledger row, Writes [.missions, .controls, .reservations] db (Db.writeMission { db with ledger } now row) :=
    fun ledger row => ((ledger_writes db ledger).mono (by decide)).trans ((writeMission_writes _ _ _).mono (by decide))
  unfold dispatchReady
  split
  · exact .inl (Writes.refl _ _)
  · rename_i mission hmission
    dsimp only
    split
    · exact .inl (hwrite _ _)
    · rename_i hadmitted
      split
      · split
        · exact .inl (hwrite _ _)
        · exact .inl ((ledger_writes db _).mono (by decide))
      · rename_i item hitem
        have hselected : selectedItem db mode lockedMissions lockedItems = some (mission, item) := by
          unfold selectedItem
          rw [hmission]
          show Option.map _ (first itemLe _) = _
          rw [show first itemLe _ = some item from hitem]
          rfl
        unfold dispatchItem
        dsimp only
        split
        · exact .inl (hwrite _ _)
        · rename_i team hteam
          split
          · exact .inl (hwrite _ _)
          · rename_i hcapacity
            split
            · exact .inl (hwrite _ _)
            · rename_i created hreserved
              split
              · rename_i hworkflow
                have hok : Except.isOk (Except.ok created : Except BudgetDenied _) = true := rfl
                exact .inr ⟨mission, item, _, hselected,
                  ⟨hadmitted, team, hteam, Nat.not_le.mp hcapacity, hreserved ▸ hok, hworkflow⟩, rfl⟩
              · exact .inl (hwrite _ _)

theorem dispatchReady_cases (db : Db) (mode : Mode) (lockedMissions lockedItems : List Nat) (now : Nat) :
    Writes [.missions, .controls, .reservations] db (dispatchReady db mode lockedMissions lockedItems now) ∨
      ∃ mission item ledger, selectedItem db mode lockedMissions lockedItems = some (mission, item) ∧
        requireAdmission (ensureControls db.ledger.controls mission) mission = .ok () ∧
        dispatchReady db mode lockedMissions lockedItems now = assign { db with ledger } mission item now := by
  rcases dispatchReady_launches db mode lockedMissions lockedItems now with hwrites | ⟨mission, item, ledger, hselected, hlaunch, heq⟩
  · exact .inl hwrites
  · exact .inr ⟨mission, item, ledger, hselected, hlaunch.1, heq⟩

theorem assign_items (db : Db) (mission : MissionRow) (item : WorkItemRow) (now : Nat) :
    (assign db mission item now).items =
      (db.writeItem (item.launched (.assignment item.id) (.assignment item.id))).items := by
  unfold assign
  dsimp only
  split <;> split <;> rfl

/-- The run that an assignment creates. -/
def assignedRun (mission : MissionRow) (item : WorkItemRow) : RunRow where
  id := .assignment item.id
  jobId := .assignment item.id
  assignment := some
    { missionId := mission.id, workItemId := item.id, teamVersionId := item.teamVersionId,
      governingDirectiveVersion := item.directiveVersion }

theorem assign_runs (db : Db) (mission : MissionRow) (item : WorkItemRow) (now : Nat) :
    ((db.run? (.assignment item.id)).isSome = true ∧ (assign db mission item now).runs = db.runs) ∨
      (db.run? (.assignment item.id) = none ∧ (assign db mission item now).runs = db.runs ++ [assignedRun mission item]) := by
  unfold assign
  dsimp only
  split <;> split
  · rename_i hsome
    exact .inl ⟨hsome, rfl⟩
  · rename_i hnone
    exact .inr ⟨Option.not_isSome_iff_eq_none.mp hnone, rfl⟩
  · rename_i hsome
    exact .inl ⟨hsome, rfl⟩
  · rename_i hnone
    exact .inr ⟨Option.not_isSome_iff_eq_none.mp hnone, rfl⟩

end Dispatch

/-! ## Work items -/

/-- The row is of the same item, with the same job and run. -/
def WorkItemRow.SameLink (item row : WorkItemRow) : Prop :=
  row.id = item.id ∧ row.missionId = item.missionId ∧ row.jobId = item.jobId ∧ row.runId = item.runId

/-- An item that no run has been launched for. -/
def WorkItemLifecycle.unstarted (lifecycle : WorkItemLifecycle) : Prop := lifecycle = .pending ∨ lifecycle = .ready

/-- How an item comes out of an action. -/
inductive ItemMove (s : Sys) (action : Action) (item : WorkItemRow) : WorkItemRow → Prop
  | kept {row : WorkItemRow} : item.SameLink row → row.lifecycle = item.lifecycle → ItemMove s action item row
  /-- A decision rewrites it, or its dependencies are accepted. -/
  | planned {row : WorkItemRow} : item.SameLink row → item.lifecycle.unstarted → row.lifecycle.unstarted →
      ItemMove s action item row
  | settled {row : WorkItemRow} (run : RunRow) : item.SameLink row → item.lifecycle = .started →
      itemRun s.db item = some run → run.terminal = true → row.lifecycle = settledLifecycle run.status →
      ItemMove s action item row
  /-- The last transaction of `start_item`. -/
  | linked (call : StartCall) (now : Nat) (jobId : JobId) (runId : RunId) : action = .linkItem call.id now →
      call ∈ s.starts → call.itemId = item.id → call.missionId = item.missionId → call.pc = .link jobId runId →
      (item.runId = none ∨ item.runId = some runId) → ItemMove s action item (item.launched jobId runId)
  | assigned (mode : Mode) (lockedMissions lockedItems : List Nat) (now : Nat) (mission : MissionRow) :
      action = .dispatchReady mode lockedMissions lockedItems now →
      selectedItem s.db mode lockedMissions lockedItems = some (mission, item) →
      requireAdmission (ensureControls s.db.ledger.controls mission) mission = .ok () →
      ItemMove s action item (item.launched (.assignment item.id) (.assignment item.id))

theorem WorkItemRow.SameLink.refl (item : WorkItemRow) : item.SameLink item := ⟨rfl, rfl, rfl, rfl⟩

theorem WorkItemRow.SameLink.trans {a b c : WorkItemRow} (h : a.SameLink b) (h' : b.SameLink c) : a.SameLink c :=
  ⟨h'.1.trans h.1, h'.2.1.trans h.2.1, h'.2.2.1.trans h.2.2.1, h'.2.2.2.trans h.2.2.2⟩

/-- Items are rewritten while they are not started, and new ones have no run. -/
structure Replanned (db db' : Db) : Prop where
  old : ∀ id item, db.item? id = some item → ∃ row, db'.item? id = some row ∧ item.SameLink row ∧
    (row.lifecycle = item.lifecycle ∨ (item.lifecycle.unstarted ∧ row.lifecycle.unstarted))
  new : ∀ id, db.item? id = none → ∀ row, db'.item? id = some row →
    row.jobId = none ∧ row.runId = none ∧ row.lifecycle.unstarted

namespace Replanned

variable {db db₁ db₂ : Db}

theorem of_items (h : db₁.items = db.items) : Replanned db db₁ := by
  have hitem : ∀ id, db₁.item? id = db.item? id := by
    intro id
    unfold Db.item?
    rw [h]
  refine ⟨fun id item hold => ⟨item, (hitem id).trans hold, .refl item, .inl rfl⟩, fun id hnone row hrow => ?_⟩
  rw [hitem, hnone] at hrow
  cases hrow

theorem trans (h : Replanned db db₁) (h' : Replanned db₁ db₂) : Replanned db db₂ := by
  refine ⟨fun id item hitem => ?_, fun id hnone row hrow => ?_⟩
  · obtain ⟨middle, hmiddle, hlink, hlife⟩ := h.old id item hitem
    obtain ⟨row, hrow, hlink', hlife'⟩ := h'.old id middle hmiddle
    refine ⟨row, hrow, hlink.trans hlink', ?_⟩
    obtain hlife | ⟨hopen, hopen'⟩ := hlife
    · rw [← hlife]
      exact hlife'
    · obtain hlife' | ⟨-, hlife'⟩ := hlife'
      · exact .inr ⟨hopen, hlife' ▸ hopen'⟩
      · exact .inr ⟨hopen, hlife'⟩
  · cases hmiddle : db₁.item? id with
    | none => exact h'.new id hmiddle row hrow
    | some middle =>
      obtain ⟨hjob, hrun, hopen⟩ := h.new id hnone middle hmiddle
      obtain ⟨row', hrow', ⟨-, -, hjob', hrun'⟩, hlife⟩ := h'.old id middle hmiddle
      rw [hrow] at hrow'
      cases hrow'
      refine ⟨hjob'.trans hjob, hrun'.trans hrun, ?_⟩
      obtain hlife | ⟨-, hlife⟩ := hlife
      · exact hlife ▸ hopen
      · exact hlife

/-- A row written over the item it was read from. -/
theorem write {item row : WorkItemRow} (hitems : db₁.items = (db.writeItem row).items)
    (hitem : db.item? item.id = some item) (hlink : item.SameLink row)
    (hlife : row.lifecycle = item.lifecycle ∨ (item.lifecycle.unstarted ∧ row.lifecycle.unstarted)) : Replanned db db₁ := by
  have hfind : ∀ id, db₁.item? id = (db.writeItem row).item? id := by
    intro id
    unfold Db.item?
    rw [hitems]
  have hrow : (db.writeItem row).item? item.id = some row := hlink.1 ▸ Db.item?_writeItem_self row (hlink.1 ▸ hitem)
  refine ⟨fun id old hold => ?_, fun id hnone found hfound => ?_⟩
  · rw [hfind]
    by_cases hid : id = item.id
    · subst hid
      rw [hitem] at hold
      cases hold
      exact ⟨row, hrow, hlink, hlife⟩
    · exact ⟨old, (Db.item?_writeItem_of_ne (hlink.1 ▸ hid)).trans hold, .refl old, .inl rfl⟩
  · have hne : id ≠ item.id := by
      rintro rfl
      rw [hitem] at hnone
      cases hnone
    rw [hfind, Db.item?_writeItem_of_ne (hlink.1 ▸ hne), hnone] at hfound
    cases hfound

end Replanned

section Decisions

variable {db db' : Db}

theorem applyItem_replanned (hk : db.keys.Distinct) {turn : TurnRow} {proposal : WorkItemProposal}
    (h : applyItem turn db proposal = .ok db') : Replanned db db' := by
  have hlife : (if proposal.dependencies = [] then WorkItemLifecycle.ready else .pending).unstarted := by
    unfold WorkItemLifecycle.unstarted
    split
    · exact .inr rfl
    · exact .inl rfl
  unfold applyItem at h
  dsimp only at h
  split at h
  · cases h
    refine ⟨fun id item hitem => ⟨item, ?_, .refl item, .inl rfl⟩, fun id hnone row hrow => ?_⟩
    · exact Keyed.find?_append_of_some hitem
    · have hfind : (db.items ++ [_]).find? (fun item => item.id = id) = some row := hrow
      rw [List.find?_append, show db.items.find? (fun item => item.id = id) = none from hnone, Option.none_or] at hfind
      have hmem := List.mem_of_find?_eq_some hfind
      cases List.mem_singleton.mp hmem
      exact ⟨rfl, rfl, hlife⟩
  · rename_i item hfind
    split at h
    · cases h
    · rename_i hopen
      cases h
      have hitem : db.item? item.id = some item := item?_of_mem hk (List.mem_of_find?_eq_some hfind)
      have hunstarted : item.lifecycle.unstarted := by
        unfold WorkItemLifecycle.unstarted
        by_contra hnot
        exact hopen (not_or.mp hnot)
      exact .write rfl hitem ⟨rfl, rfl, rfl, rfl⟩ (.inr ⟨hunstarted, hlife⟩)

theorem applyItems_replanned {turn : TurnRow} : ∀ (proposals : List WorkItemProposal) {db db' : Db}, db.keys.Distinct →
    proposals.foldlM (applyItem turn) db = .ok db' → Replanned db db' := by
  intro proposals db db' hk h
  -- an item is applied to distinct rows, and leaves them distinct
  let Kept (mid : Db) : Prop := mid.keys.Distinct ∧ Replanned db mid
  suffices hkept : Kept db' from hkept.2
  refine Steps.foldlM_invariant (fun mid proposal next hmid hnext => ?_) ⟨hk, .of_items rfl⟩ h
  exact ⟨applyItem_distinct hmid.1 hnext, hmid.2.trans (applyItem_replanned hmid.1 hnext)⟩

theorem apply_replanned (hk : db.keys.Distinct) {turnId : TurnId} {decision : ManagerDecision} {now : Nat}
    (h : apply db turnId decision now = .ok db') : Replanned db db' := by
  unfold apply at h
  split at h
  · cases h
  · split at h
    · cases h
    · split at h
      · cases h
        exact .of_items rfl
      · obtain ⟨ledger, ledger', proposed, hproposed, rfl⟩ := applyCurrent_ok h
        have hitems : Replanned { db with ledger } proposed := applyItems_replanned _ (by exact hk) hproposed
        have hledger : Replanned db { db with ledger } := .of_items rfl
        refine hledger.trans (hitems.trans (.of_items ?_))
        exact recordDecision_writes proposed _ _ _ _ .items (by decide)

end Decisions

section Items

variable {s s' : Sys} {action : Action}

theorem startStep_linkItem {call : StartCall} {id now : Nat} (h : startStep s call (.linkItem id now) = some s') :
    s'.db = s.db ∨ ∃ jobId runId, call.pc = .link jobId runId ∧
      linkItem s.db call.missionId call.itemId jobId runId now = .ok s'.db := by
  simp only [startStep] at h
  split at h
  · rename_i jobId runId hpc
    split at h <;> cases h
    · rename_i hlink
      exact .inr ⟨jobId, runId, hpc, hlink⟩
    · exact .inl rfl
  · cases h

/-- What the last transaction of `start_item` writes. -/
theorem linkItem_ok {db db' : Db} {missionId itemId now : Nat} {jobId : JobId} {runId : RunId}
    (h : linkItem db missionId itemId jobId runId now = .ok db') :
    ∃ item ∈ db.items, item.id = itemId ∧ item.missionId = missionId ∧ (item.runId = none ∨ item.runId = some runId) ∧
      db'.items = (db.writeItem (item.launched jobId runId)).items := by
  unfold linkItem at h
  dsimp only at h
  split at h
  · rename_i mission item hmission hitem
    split at h
    · cases h
    · rename_i hrun
      cases h
      have hfound := List.find?_some hitem
      simp only [decide_eq_true_eq] at hfound
      obtain ⟨hid, hm⟩ := hfound
      refine ⟨item, List.mem_of_find?_eq_some hitem, hid, hm, ?_, rfl⟩
      cases hitemRun : item.runId with
      | none => exact .inl rfl
      | some other =>
        rw [hitemRun] at hrun
        by_contra hne
        exact hrun ⟨rfl, fun heq => hne (.inr heq)⟩
  · cases h

/-- An item launched, and the others. -/
theorem launched_moves (hk : s.db.keys.Distinct) {item : WorkItemRow} {jobId : JobId} {runId : RunId} (hitem : item ∈ s.db.items)
    (hitems : s'.db.items = (s.db.writeItem (item.launched jobId runId)).items)
    (hmove : ItemMove s action item (item.launched jobId runId)) (id : Nat) :
    (∀ old, s.db.item? id = some old → ∃ row, s'.db.item? id = some row ∧ ItemMove s action old row) ∧
      (s.db.item? id = none → ∀ row, s'.db.item? id = some row →
        row.jobId = none ∧ row.runId = none ∧ row.lifecycle.unstarted) := by
  have hfind : s'.db.item? id = (s.db.writeItem (item.launched jobId runId)).item? id := by
    unfold Db.item?
    rw [hitems]
  have hitem? := item?_of_mem hk hitem
  rw [hfind]
  by_cases hid : id = item.id
  · subst hid
    refine ⟨fun old hold => ?_, fun hnone => ?_⟩
    · rw [hitem?] at hold
      cases hold
      exact ⟨_, Db.item?_writeItem_self (item.launched jobId runId) hitem?, hmove⟩
    · rw [hitem?] at hnone
      cases hnone
  · rw [Db.item?_writeItem_of_ne (show id ≠ (item.launched jobId runId).id from hid)]
    refine ⟨fun old hold => ⟨old, hold, .kept (.refl old) rfl⟩, fun hnone row hrow => ?_⟩
    rw [hnone] at hrow
    cases hrow

theorem replanned_moves {db : Db} (hs : Replanned s.db db) (id : Nat) :
    (∀ old, s.db.item? id = some old → ∃ row, db.item? id = some row ∧ ItemMove s action old row) ∧
      (s.db.item? id = none → ∀ row, db.item? id = some row →
        row.jobId = none ∧ row.runId = none ∧ row.lifecycle.unstarted) := by
  refine ⟨fun old hold => ?_, hs.new id⟩
  obtain ⟨row, hrow, hlink, hlife | ⟨hopen, hopen'⟩⟩ := hs.old id old hold
  · exact ⟨row, hrow, .kept hlink hlife⟩
  · exact ⟨row, hrow, .planned hlink hopen hopen'⟩

/-- What an action does to an item, and what a new item is like. -/
theorem item_moves (hk : s.db.keys.Distinct) (h : step s action = some s') (id : Nat) :
    (∀ item, s.db.item? id = some item → ∃ row, s'.db.item? id = some row ∧ ItemMove s action item row) ∧
      (s.db.item? id = none → ∀ row, s'.db.item? id = some row →
        row.jobId = none ∧ row.runId = none ∧ row.lifecycle.unstarted) := by
  by_cases hframe : Table.items ∈ footprint action
  · cases action with
    | linkItem callId now =>
      obtain ⟨call, hcall, hmove⟩ := Option.bind_eq_some_iff.mp h
      obtain hsame | ⟨jobId, runId, hpc, hlink⟩ := startStep_linkItem hmove
      · exact replanned_moves (.of_items (congrArg Db.items hsame)) id
      · obtain ⟨item, hitem, hid, hmission, hrun, hitems⟩ := linkItem_ok hlink
        have hcallId : call.id = callId := by simpa using List.find?_some hcall
        refine launched_moves hk hitem hitems ?_ id
        exact .linked call now jobId runId (by rw [hcallId]) (List.mem_of_find?_eq_some hcall) hid.symm hmission.symm hpc hrun
    | reconcileItems now =>
      cases h
      refine ⟨fun item hitem => ?_, fun hnone row hrow => ?_⟩
      · obtain ⟨hmem, rfl⟩ := Db.item?_eq_some hitem
        obtain ⟨row, cursor, hpassed, hrow⟩ := reconcileItems_item? hk now hmem
        refine ⟨_, hrow, ?_⟩
        cases hpassed with
        | settled run hstarted hrun hterminal => exact .settled run ⟨rfl, rfl, rfl, rfl⟩ hstarted hrun hterminal rfl
        | readied hpending => exact .planned ⟨rfl, rfl, rfl, rfl⟩ (.inl hpending) (.inr rfl)
        | kept hgoes hwaits => exact .kept ⟨rfl, rfl, rfl, rfl⟩ rfl
      · have hnone' : (reconcileItems s.db now).item? id = none := reconcileItems_item?_none hk now hnone
        rw [show (reconcileItems s.db now).item? id = some row from hrow] at hnone'
        cases hnone'
    | dispatchReady mode lockedMissions lockedItems now =>
      cases h
      obtain hwrites | ⟨mission, item, ledger, hselected, hadmitted, heq⟩ :=
        dispatchReady_cases s.db mode lockedMissions lockedItems now
      · exact replanned_moves (.of_items (hwrites .items (by decide))) id
      · obtain ⟨-, hitem, -, -⟩ := selectedItem_mem hselected
        refine launched_moves hk hitem ?_ (.assigned mode lockedMissions lockedItems now mission rfl hselected hadmitted) id
        show (dispatchReady s.db mode lockedMissions lockedItems now).items = _
        rw [heq, assign_items]
        rfl
    | apply eid now =>
      obtain ⟨e, -, hmove⟩ := Option.bind_eq_some_iff.mp h
      simp only [executionStep] at hmove
      split at hmove
      · split at hmove <;> cases hmove
        · rename_i happly
          exact replanned_moves (apply_replanned hk happly) id
        · exact replanned_moves (.of_items rfl) id
      · cases hmove
    | _ => simp [footprint] at hframe
  · exact replanned_moves (.of_items (step_writes h .items hframe)) id

end Items

/-! ## Runs -/

/-- The row is of the same run: its job, its place among the job's runs and its assignment. -/
def RunRow.SameRun (run row : RunRow) : Prop :=
  row.id = run.id ∧ row.jobId = run.jobId ∧ row.runNumber = run.runNumber ∧ row.parentRunId = run.parentRunId ∧
    row.assignment = run.assignment

/-- How a run comes out of an action. -/
inductive RunMove (action : Action) (run : RunRow) : RunRow → Prop
  | kept {row : RunRow} : run.SameRun row → row.status = run.status → row.desiredState = run.desiredState → RunMove action run row
  | executed {row : RunRow} (status : RunStatus) (desired : DesiredState) (now : Nat) :
      action = .executeRun run.id status desired now → run.SameRun row → run.terminal = false →
      (run.desiredState = .cancelled → desired = .cancelled) → row.status = status → row.desiredState = desired →
      RunMove action run row
  | requeued {row : RunRow} : action = .requestReconciliation run.id → run.SameRun row → run.status = .blocked →
      row.status = .queued → row.desiredState = run.desiredState → RunMove action run row

/-- Where a new run comes from. -/
inductive NewRun (s : Sys) (action : Action) (row : RunRow) : Prop
  | created (call : StartCall) (projectActive configured : Bool) : action = .createJob call.id projectActive configured →
      call ∈ s.starts → row.id = .fresh (s.db.nextId + 1) → row.jobId = .fresh s.db.nextId → row.status = .queued →
      row.parentRunId = none → NewRun s action row
  | assigned (mode : Mode) (lockedMissions lockedItems : List Nat) (now : Nat) (mission : MissionRow) (item : WorkItemRow) :
      action = .dispatchReady mode lockedMissions lockedItems now →
      selectedItem s.db mode lockedMissions lockedItems = some (mission, item) → row = assignedRun mission item →
      NewRun s action row
  | retried (run : RunRow) : action = .retryRun run.id → s.db.run? run.id = some run → row.id = .fresh s.db.nextId →
      row.jobId = run.jobId → row.parentRunId = some run.id → row.status = .queued → NewRun s action row

section Runs

variable {s s' : Sys} {action : Action}

/-- A run written over, and the others. -/
theorem writeRun_moves {db : Db} {run row : RunRow} (hruns : db.runs = (s.db.writeRun row).runs)
    (hrun : s.db.run? run.id = some run) (hid : row.id = run.id) (hmove : RunMove action run row) (id : RunId) :
    (∀ old, s.db.run? id = some old → ∃ new, db.run? id = some new ∧ RunMove action old new) ∧
      (s.db.run? id = none → ∀ new, db.run? id = some new → NewRun s action new) := by
  have hfind : db.run? id = (s.db.writeRun row).run? id := by
    unfold Db.run?
    rw [hruns]
  rw [hfind]
  by_cases heq : id = run.id
  · subst heq
    refine ⟨fun old hold => ?_, fun hnone => ?_⟩
    · rw [hrun] at hold
      cases hold
      exact ⟨row, hid ▸ Db.run?_writeRun_self row (hid ▸ hrun), hmove⟩
    · rw [hrun] at hnone
      cases hnone
  · rw [Db.run?_writeRun_of_ne (hid ▸ heq)]
    refine ⟨fun old hold => ⟨old, hold, .kept ⟨rfl, rfl, rfl, rfl, rfl⟩ rfl rfl⟩, fun hnone new hnew => ?_⟩
    rw [hnone] at hnew
    cases hnew

theorem sameRuns_moves {db : Db} (hruns : db.runs = s.db.runs) (id : RunId) :
    (∀ old, s.db.run? id = some old → ∃ new, db.run? id = some new ∧ RunMove action old new) ∧
      (s.db.run? id = none → ∀ new, db.run? id = some new → NewRun s action new) := by
  have hfind : db.run? id = s.db.run? id := by
    unfold Db.run?
    rw [hruns]
  rw [hfind]
  refine ⟨fun old hold => ⟨old, hold, .kept ⟨rfl, rfl, rfl, rfl, rfl⟩ rfl rfl⟩, fun hnone new hnew => ?_⟩
  rw [hnone] at hnew
  cases hnew

theorem newRun_moves {db : Db} {row : RunRow} (hruns : db.runs = s.db.runs ++ [row]) (hnew : NewRun s action row) (id : RunId) :
    (∀ old, s.db.run? id = some old → ∃ new, db.run? id = some new ∧ RunMove action old new) ∧
      (s.db.run? id = none → ∀ new, db.run? id = some new → NewRun s action new) := by
  have hfind : db.run? id = (s.db.run? id).or ([row].find? fun run => run.id = id) := by
    unfold Db.run?
    rw [hruns, List.find?_append]
  rw [hfind]
  refine ⟨fun old hold => ⟨old, by rw [hold]; rfl, .kept ⟨rfl, rfl, rfl, rfl, rfl⟩ rfl rfl⟩, fun hnone new hnew' => ?_⟩
  rw [hnone, Option.none_or] at hnew'
  cases List.mem_singleton.mp (List.mem_of_find?_eq_some hnew')
  exact hnew

theorem executeRun_ok {db db' : Db} {runId : RunId} {status : RunStatus} {desired : DesiredState} {now : Nat}
    (h : executeRun db runId status desired now = some db') :
    ∃ run row, db.run? runId = some run ∧ db'.runs = (db.writeRun row).runs ∧ run.terminal = false ∧
      (run.desiredState = .cancelled → desired = .cancelled) ∧ run.SameRun row ∧ row.status = status ∧
      row.desiredState = desired := by
  unfold executeRun at h
  split at h
  · cases h
  · rename_i run hrun
    split at h
    · cases h
    · rename_i hopen
      cases h
      obtain ⟨hterminal, hdesired⟩ := not_or.mp hopen
      refine ⟨run, _, hrun, rfl, Bool.eq_false_of_not_eq_true hterminal, fun hc => ?_, ⟨rfl, rfl, rfl, rfl, rfl⟩, rfl, rfl⟩
      by_contra hne
      exact hdesired ⟨hc, hne⟩

theorem requestReconciliation_ok {db db' : Db} {runId : RunId} (h : requestReconciliation db runId = some db') :
    ∃ run row, db.run? runId = some run ∧ db'.runs = (db.writeRun row).runs ∧ run.SameRun row ∧
      row.status = (if run.status = .blocked then .queued else run.status) ∧ row.desiredState = run.desiredState := by
  obtain ⟨run, hrun, rfl⟩ := Option.map_eq_some_iff.mp h
  exact ⟨run, _, hrun, rfl, ⟨rfl, rfl, rfl, rfl, rfl⟩, rfl, rfl⟩

theorem retryRun_ok {db db' : Db} {runId : RunId} (h : retryRun db runId = some db') :
    ∃ run row, db.run? runId = some run ∧ db'.runs = db.runs ++ [row] ∧ row.id = .fresh db.nextId ∧ row.jobId = run.jobId ∧
      row.parentRunId = some run.id ∧ row.status = .queued := by
  unfold retryRun at h
  split at h
  · cases h
  · rename_i run hrun
    split at h <;> cases h
    exact ⟨run, _, hrun, rfl, rfl, rfl, rfl, rfl⟩

/-- What an action does to a run, and where new runs come from. -/
theorem run_moves (hk : s.db.keys.Distinct) (h : step s action = some s') (id : RunId) :
    (∀ run, s.db.run? id = some run → ∃ row, s'.db.run? id = some row ∧ RunMove action run row) ∧
      (s.db.run? id = none → ∀ row, s'.db.run? id = some row → NewRun s action row) := by
  by_cases hframe : Table.runs ∈ footprint action
  · cases action with
    | controlMission mission body order now =>
      obtain ⟨db, hdb, rfl⟩ := toOption_map h
      obtain rfl | ⟨old, -, hdb⟩ := withMission_ok hdb
      · exact sameRuns_moves rfl id
      · dsimp only at hdb
        split at hdb
        · cases hdb
        · rename_i commanded hcommand
          cases hdb
          split at hcommand
          · rename_i run kind hactive _
            have hmem : run ∈ activeRuns s.db mission := List.mem_rotate.mp (List.mem_of_head? hactive)
            obtain ⟨-, item, -, -, -, hitemRun⟩ := mem_activeRuns.mp hmem
            have hrun : s.db.run? run.id = some run := (find?_key hk.runs.nodup).mpr ⟨(itemRun_eq_some hitemRun).2, rfl⟩
            unfold enqueue at hcommand
            split at hcommand
            · split at hcommand <;> cases hcommand
              exact sameRuns_moves rfl id
            · cases hcommand
              have hruns : Db.runs _ = (s.db.writeRun { run with version := run.version + 1 }).runs := rfl
              exact writeRun_moves hruns hrun rfl (.kept ⟨rfl, rfl, rfl, rfl, rfl⟩ rfl rfl) id
          · cases hcommand
            exact sameRuns_moves rfl id
    | createJob callId projectActive configured =>
      obtain ⟨call, hcall, hmove⟩ := Option.bind_eq_some_iff.mp h
      have hcallId : call.id = callId := by simpa using List.find?_some hcall
      simp only [startStep] at hmove
      split at hmove
      · split at hmove <;> cases hmove
        · rename_i hjob
          unfold createJob at hjob
          dsimp only at hjob
          repeat' split at hjob
          all_goals cases hjob
          · exact sameRuns_moves rfl id
          · refine newRun_moves rfl (.created call projectActive configured (by rw [hcallId])
              (List.mem_of_find?_eq_some hcall) rfl rfl rfl rfl) id
        · exact sameRuns_moves rfl id
      · cases hmove
    | dispatchReady mode lockedMissions lockedItems now =>
      cases h
      obtain hwrites | ⟨mission, item, ledger, hselected, hadmitted, heq⟩ :=
        dispatchReady_cases s.db mode lockedMissions lockedItems now
      · exact sameRuns_moves (hwrites .runs (by decide)) id
      · obtain ⟨-, hruns⟩ | ⟨-, hruns⟩ := assign_runs { s.db with ledger } mission item now
        · exact sameRuns_moves (heq ▸ hruns) id
        · exact newRun_moves (heq ▸ hruns) (.assigned mode lockedMissions lockedItems now mission item rfl hselected rfl) id
    | executeRun runId status desired now =>
      obtain ⟨db, hdb, rfl⟩ := Option.map_eq_some_iff.mp h
      obtain ⟨run, row, hrun, hruns, hterminal, hdesired, hsame, hstatus, hrowDesired⟩ := executeRun_ok hdb
      obtain ⟨-, rfl⟩ := Db.run?_eq_some hrun
      exact writeRun_moves hruns hrun hsame.1
        (.executed status desired now rfl hsame hterminal hdesired hstatus hrowDesired) id
    | requestReconciliation runId =>
      obtain ⟨db, hdb, rfl⟩ := Option.map_eq_some_iff.mp h
      obtain ⟨run, row, hrun, hruns, hsame, hstatus, hdesired⟩ := requestReconciliation_ok hdb
      obtain ⟨-, rfl⟩ := Db.run?_eq_some hrun
      refine writeRun_moves hruns hrun hsame.1 ?_ id
      by_cases hblocked : run.status = .blocked
      · rw [if_pos hblocked] at hstatus
        exact .requeued rfl hsame hblocked hstatus hdesired
      · rw [if_neg hblocked] at hstatus
        exact .kept hsame hstatus hdesired
    | retryRun runId =>
      obtain ⟨db, hdb, rfl⟩ := Option.map_eq_some_iff.mp h
      obtain ⟨run, row, hrun, hruns, hid, hjob, hparent, hstatus⟩ := retryRun_ok hdb
      obtain ⟨-, rfl⟩ := Db.run?_eq_some hrun
      exact newRun_moves hruns (.retried run rfl hrun hid hjob hparent hstatus) id
    | _ => simp [footprint] at hframe
  · exact sameRuns_moves (step_writes h .runs hframe) id

theorem newRun_queued {row : RunRow} (h : NewRun s action row) : row.status = .queued := by
  cases h with
  | created _ _ _ _ _ _ _ hstatus => exact hstatus
  | assigned _ _ _ _ _ _ _ _ hrow => rw [hrow]; rfl
  | retried _ _ _ _ _ _ hstatus => exact hstatus

theorem runMove_same {run row : RunRow} (h : RunMove action run row) : run.SameRun row := by
  cases h with
  | kept hsame => exact hsame
  | executed _ _ _ _ hsame => exact hsame
  | requeued _ hsame => exact hsame

theorem run?_of_mem {db : Db} (hk : db.keys.Distinct) {run : RunRow} (h : run ∈ db.runs) : db.run? run.id = some run :=
  (find?_key hk.runs.nodup).mpr ⟨h, rfl⟩

/-- A run that `dispatch_ready` creates is the selected item's, and the item records it. -/
theorem assigned_item (hk : s.db.keys.Distinct) {mode : Mode} {lockedMissions lockedItems : List Nat} {now : Nat} {id : RunId} {row : RunRow}
    (h : step s (.dispatchReady mode lockedMissions lockedItems now) = some s') (hnone : s.db.run? id = none)
    (hrow : s'.db.run? id = some row) :
    ∃ mission item, selectedItem s.db mode lockedMissions lockedItems = some (mission, item) ∧ row = assignedRun mission item ∧
      s'.db.item? item.id = some (item.launched (.assignment item.id) (.assignment item.id)) ∧
      launchable s.db mission item now := by
  cases h
  rcases dispatchReady_launches s.db mode lockedMissions lockedItems now with hwrites | ⟨mission, item, ledger, hselected, hlaunch, heq⟩
  · have hsame : (dispatchReady s.db mode lockedMissions lockedItems now).run? id = s.db.run? id := by
      unfold Db.run?
      rw [hwrites .runs (by decide)]
    rw [show (dispatchReady s.db mode lockedMissions lockedItems now).run? id = some row from hrow, hnone] at hsame
    cases hsame
  · obtain ⟨-, hitem, -, -⟩ := selectedItem_mem hselected
    refine ⟨mission, item, hselected, ?_, ?_, hlaunch⟩
    · have hfind : (assign { s.db with ledger } mission item now).runs.find? (fun run => run.id = id) = some row := heq ▸ hrow
      obtain ⟨-, hruns⟩ | ⟨-, hruns⟩ := assign_runs { s.db with ledger } mission item now
      · rw [hruns] at hfind
        rw [show s.db.runs.find? (fun run => run.id = id) = none from hnone] at hfind
        cases hfind
      · rw [hruns, List.find?_append, show s.db.runs.find? (fun run => run.id = id) = none from hnone, Option.none_or] at hfind
        exact List.mem_singleton.mp (List.mem_of_find?_eq_some hfind)
    · have hitems : (dispatchReady s.db mode lockedMissions lockedItems now).items =
          (s.db.writeItem (item.launched (.assignment item.id) (.assignment item.id))).items := by
        rw [heq, assign_items]
        rfl
      show (dispatchReady s.db mode lockedMissions lockedItems now).item? item.id = _
      unfold Db.item?
      rw [hitems]
      have hitem? : s.db.item? item.id = some item := item?_of_mem hk hitem
      exact Db.item?_writeItem_self (item.launched (.assignment item.id) (.assignment item.id)) hitem?

/-- An item that `dispatch_ready` launches has its run and was launchable. -/
theorem assigned_run {mode : Mode} {lockedMissions lockedItems : List Nat} {now : Nat} {mission : MissionRow} {item row : WorkItemRow}
    (h : step s (.dispatchReady mode lockedMissions lockedItems now) = some s')
    (hselected : selectedItem s.db mode lockedMissions lockedItems = some (mission, item)) (hitem : s.db.item? item.id = some item)
    (hrow : s'.db.item? item.id = some row) (hstarted : row.lifecycle = .started) :
    .assignment item.id ∈ s'.db.keys.runs ∧ launchable s.db mission item now := by
  cases h
  rcases dispatchReady_launches s.db mode lockedMissions lockedItems now with
    hwrites | ⟨mission', item', ledger, hselected', hlaunch, heq⟩
  · have hsame : (dispatchReady s.db mode lockedMissions lockedItems now).item? item.id = s.db.item? item.id := by
      unfold Db.item?
      rw [hwrites .items (by decide)]
    rw [show (dispatchReady s.db mode lockedMissions lockedItems now).item? item.id = some row from hrow, hitem] at hsame
    cases hsame
    obtain ⟨-, -, -, hready⟩ := selectedItem_mem hselected
    rw [hstarted] at hready
    cases hready
  · rw [hselected] at hselected'
    cases hselected'
    refine ⟨?_, hlaunch⟩
    show RunId.assignment item.id ∈ (dispatchReady s.db mode lockedMissions lockedItems now).runs.map (·.id)
    rw [heq]
    rcases assign_runs { s.db with ledger } mission item now with ⟨hsome, hruns⟩ | ⟨-, hruns⟩
    · obtain ⟨run, hrun⟩ := Option.isSome_iff_exists.mp hsome
      obtain ⟨hmem, hid⟩ := Db.run?_eq_some hrun
      rw [hruns]
      exact List.mem_map.mpr ⟨run, hmem, hid⟩
    · rw [hruns]
      simp [assignedRun]

end Runs

/-! ## Missions -/

/-- Missions stay, in their projects. -/
def SameProjects (db db' : Db) : Prop :=
  ∀ id mission, db.mission? id = some mission → ∃ row, db'.mission? id = some row ∧ row.projectId = mission.projectId

namespace SameProjects

variable {db base db' : Db} {now : Nat}

theorem of_missions (h : db'.missions = db.missions) : SameProjects db db' := by
  intro id mission hmission
  refine ⟨mission, ?_, rfl⟩
  unfold Db.mission?
  rw [h]
  exact hmission

theorem trans (h : SameProjects db base) (h' : SameProjects base db') : SameProjects db db' := by
  intro id mission hmission
  obtain ⟨middle, hmiddle, hproject⟩ := h id mission hmission
  obtain ⟨row, hrow, hproject'⟩ := h' id middle hmiddle
  exact ⟨row, hrow, hproject'.trans hproject⟩

/-- A mission written over the row it was read from. -/
theorem write {key : Nat} {old row : MissionRow} (hold : db.mission? key = some old) (hid : row.id = old.id)
    (hproject : row.projectId = old.projectId) (hbase : base.missions = db.missions) :
    SameProjects db (base.writeMission now row) := by
  obtain ⟨-, rfl⟩ := Db.mission?_eq_some hold
  intro id mission hmission
  have hmission' : base.mission? id = some mission := by
    unfold Db.mission?
    rw [hbase]
    exact hmission
  rw [Db.mission?_writeMission, hmission']
  refine ⟨_, rfl, ?_⟩
  obtain ⟨-, rfl⟩ := Db.mission?_eq_some hmission
  dsimp only
  split
  · rename_i heq
    rw [heq, hid, hold] at hmission
    cases hmission
    split
    · rfl
    · exact hproject
  · rfl

theorem emit (h : SameProjects db db') : SameProjects db db'.emit := h.trans (.of_missions rfl)

theorem dispose {id : Nat} {disposition : Disposition} (h : SameProjects db db') : SameProjects db (db'.dispose id disposition) :=
  h.trans (.of_missions rfl)

theorem settleWakeup {id : Option Nat} {status : WakeupStatus} (h : SameProjects db db') :
    SameProjects db (db'.settleWakeup id status) :=
  h.trans (.of_missions rfl)

theorem foldl {β : Type} {g : Db → β → Db} (h : ∀ db x, SameProjects db (g db x)) :
    ∀ (xs : List β) (db : Db), SameProjects db (xs.foldl g db) := by
  intro xs
  induction xs with
  | nil => intro db; exact of_missions rfl
  | cons x xs ih => intro db; exact (h db x).trans (ih _)

end SameProjects

section Projects

variable {db db' : Db} {now : Nat}

theorem awaitApproval_projects (now : Nat) (db : Db) (active : WorkItemRow × RunRow) : SameProjects db (awaitApproval now db active) := by
  unfold awaitApproval
  split
  · exact .of_missions rfl
  · rename_i mission hmission
    repeat' split
    · exact .write hmission rfl rfl rfl
    · exact .write hmission rfl rfl rfl
    · exact .of_missions rfl

theorem announce_projects (now : Nat) (db : Db) (itemId : Nat) : SameProjects db (announce now db itemId) := by
  unfold announce
  split
  · exact .of_missions rfl
  · rename_i item hitem
    dsimp only
    split
    · have hbase : SameProjects db (db.emit.writeItem { item with acceptedEventCursor := some db.emit.lastPosition }) :=
        .of_missions rfl
      split
      · exact hbase
      · rename_i mission hmission
        split
        · exact hbase.trans (.write hmission rfl rfl rfl)
        · split
          · refine hbase.trans ?_
            unfold wakeMission
            dsimp only
            split
            · exact .of_missions rfl
            · exact .write hmission rfl rfl rfl
          · exact hbase
    · exact .of_missions rfl

theorem reconcileItems_projects (db : Db) (now : Nat) : SameProjects db (reconcileItems db now) := by
  rw [reconcileItems_eq]
  refine SameProjects.trans ?_ (.foldl (announce_projects now) _ _)
  refine SameProjects.trans ?_ (.foldl (fun db item => .of_missions (readyItem_writes db item .missions (by decide))) _ _)
  refine SameProjects.trans ?_ (.foldl (fun db ended => .of_missions (settleItem_writes now db ended .missions (by decide))) _ _)
  exact .foldl (awaitApproval_projects now) _ _

theorem dispatchReady_projects (hk : db.keys.Distinct) (mode : Mode) (lockedMissions lockedItems : List Nat) (now : Nat) :
    SameProjects db (dispatchReady db mode lockedMissions lockedItems now) := by
  unfold dispatchReady
  split
  · exact .of_missions rfl
  · rename_i mission hfirst
    have hmem := (List.mem_filter.mp (first_mem hfirst)).1
    have hmission : db.mission? mission.id = some mission := (find?_key hk.missions.nodup).mpr ⟨hmem, rfl⟩
    have hwrite : ∀ (base : Db) (row : MissionRow), base.missions = db.missions → row.id = mission.id →
        row.projectId = mission.projectId → SameProjects db (base.writeMission now row) :=
      fun base row hbase hid hproject => .write hmission hid hproject hbase
    dsimp only
    split
    · exact hwrite _ _ rfl rfl rfl
    · split
      · split
        · exact hwrite _ _ rfl rfl rfl
        · exact .of_missions rfl
      · unfold dispatchItem
        dsimp only
        split
        · exact hwrite _ _ rfl rfl rfl
        · split
          · exact hwrite _ _ rfl rfl rfl
          · split
            · exact hwrite _ _ rfl rfl rfl
            · split
              · unfold assign
                dsimp only
                refine SameProjects.emit (hwrite _ _ ?_ rfl rfl)
                show Db.missions (ite _ _ _) = _
                repeat' split
                all_goals rfl
              · exact hwrite _ _ rfl rfl rfl

theorem controlled_id (mission : MissionRow) (body : MissionControlRequest) (active : Bool) :
    (mission.controlled body active).id = mission.id := by
  unfold MissionRow.controlled
  by_cases hscope : body.scope = .mission
  · simp only [if_pos hscope]
    cases body.action <;> rfl
  · simp only [if_neg hscope]

theorem controlled_project (mission : MissionRow) (body : MissionControlRequest) (active : Bool) :
    (mission.controlled body active).projectId = mission.projectId := by
  unfold MissionRow.controlled
  by_cases hscope : body.scope = .mission
  · simp only [if_pos hscope]
    cases body.action <;> rfl
  · simp only [if_neg hscope]

theorem linkItem_projects {missionId itemId : Nat} {jobId : JobId} {runId : RunId}
    (h : linkItem db missionId itemId jobId runId now = .ok db') : SameProjects db db' := by
  unfold linkItem at h
  dsimp only at h
  split at h
  · rename_i mission item hmission hitem
    split at h <;> cases h
    exact SameProjects.emit (.write hmission rfl rfl rfl)
  · cases h

theorem materializeWakeup_projects (db : Db) (mode : Mode) (locked : List Nat) (now : Nat) :
    SameProjects db (materializeWakeup db mode locked now) := by
  unfold materializeWakeup
  split
  · exact .of_missions rfl
  · split
    · exact .of_missions rfl
    · rename_i mission hmission
      dsimp only
      repeat' split
      · exact .of_missions rfl
      · exact .of_missions rfl
      · exact .of_missions rfl
      · unfold queueTurn
        exact .write hmission rfl rfl rfl

theorem recordDecision_missions (proposed : Db) (mission : MissionRow) (turn : TurnRow) (decision : ManagerDecision) (now : Nat) :
    (recordDecision proposed mission turn decision now).missions =
      (proposed.writeMission now (mission.decided turn decision turn.id.text)).missions := by
  unfold recordDecision
  dsimp only
  exact scheduleDeadline_writes _ _ _ _ _ .missions (by decide)

theorem apply_projects {turnId : TurnId} {decision : ManagerDecision} (h : apply db turnId decision now = .ok db') :
    SameProjects db db' := by
  unfold apply at h
  split at h
  · cases h
  · split at h
    · cases h
    · rename_i mission hmission
      split at h
      · cases h
        exact .of_missions rfl
      · obtain ⟨ledger, ledger', proposed, hproposed, rfl⟩ := applyCurrent_ok h
        have hmissions : proposed.missions = db.missions :=
          Writes.foldlM (fun _ _ _ => applyItem_writes) _ _ _ hproposed .missions (by decide)
        refine SameProjects.trans ?_ (.of_missions (recordDecision_missions proposed mission _ decision now))
        exact .write hmission rfl rfl hmissions

theorem fail_projects (db : Db) (service : Service) (turnId : TurnId) (code : FailureCode) (now : Nat) :
    SameProjects db (fail db service turnId code now) := by
  unfold fail
  split
  · exact .of_missions rfl
  · rename_i turn hturn
    split
    · exact .of_missions rfl
    · split
      · exact .of_missions rfl
      · rename_i mission hmission
        have hkeep : (keepLiability db mission turn now).missions = db.missions :=
          keepLiability_writes db mission turn now .missions (by decide)
        split
        · exact .write hmission rfl rfl rfl
        · dsimp only
          split
          · exact .of_missions hkeep
          · unfold failTurn
            dsimp only
            split
            · exact SameProjects.emit (SameProjects.settleWakeup (SameProjects.dispose (.write hmission rfl rfl hkeep)))
            · exact SameProjects.emit (.of_missions hkeep)

/-- Missions stay in their projects. -/
theorem step_projects {s s' : Sys} {action : Action} (hk : s.db.keys.Distinct) (h : step s action = some s') :
    SameProjects s.db s'.db := by
  by_cases hframe : Table.missions ∈ footprint action
  · cases action with
    | createMission mission team now =>
      cases h
      exact fun id old hold => ⟨old, Keyed.find?_append_of_some hold, rfl⟩
    | updateAutonomy | updateDirective | createMessage =>
      obtain ⟨db, hdb, rfl⟩ := toOption_map h
      obtain rfl | ⟨old, hold, hdb⟩ := withMission_ok hdb
      · exact .of_missions rfl
      · split at hdb <;> cases hdb
        exact SameProjects.emit (.write hold rfl rfl rfl)
    | updateTeam =>
      obtain ⟨db, hdb, rfl⟩ := toOption_map h
      unfold updateTeam at hdb
      dsimp only at hdb
      split at hdb
      · cases hdb
      · rename_i old hold
        repeat' split at hdb
        all_goals cases hdb
        · exact .of_missions rfl
        · exact SameProjects.emit (.write hold rfl rfl rfl)
    | controlMission =>
      obtain ⟨db, hdb, rfl⟩ := toOption_map h
      obtain rfl | ⟨old, hold, hdb⟩ := withMission_ok hdb
      · exact .of_missions rfl
      · dsimp only at hdb
        split at hdb
        · cases hdb
        · rename_i commanded hcommand
          cases hdb
          have hmissions : commanded.missions = s.db.missions := by
            split at hcommand
            · exact enqueue_writes hcommand .missions (by decide)
            · cases hcommand
              rfl
          exact SameProjects.emit (.write hold (controlled_id _ _ _) (controlled_project _ _ _) hmissions)
    | linkItem id now =>
      obtain ⟨call, -, hmove⟩ := Option.bind_eq_some_iff.mp h
      obtain hsame | ⟨jobId, runId, -, hlink⟩ := startStep_linkItem hmove
      · exact .of_missions (congrArg Db.missions hsame)
      · exact linkItem_projects hlink
    | reconcileItems now =>
      cases h
      exact reconcileItems_projects _ _
    | materializeWakeup mode locked now =>
      cases h
      exact materializeWakeup_projects _ _ _ _
    | dispatchReady =>
      cases h
      exact dispatchReady_projects hk _ _ _ _
    | apply id now =>
      obtain ⟨e, -, hmove⟩ := Option.bind_eq_some_iff.mp h
      simp only [executionStep] at hmove
      split at hmove
      · split at hmove <;> cases hmove
        · rename_i happly
          exact apply_projects happly
        · exact .of_missions rfl
      · cases hmove
    | fail id now =>
      obtain ⟨e, -, hmove⟩ := Option.bind_eq_some_iff.mp h
      simp only [executionStep] at hmove
      split at hmove
      · cases hmove
        exact fail_projects _ _ _ _ _
      · cases hmove
    | waitForCapacity =>
      obtain ⟨db, hdb, rfl⟩ := Option.map_eq_some_iff.mp h
      unfold waitForCapacity at hdb
      repeat' split at hdb
      all_goals cases hdb
      · exact .of_missions rfl
      · rename_i mission hmission
        obtain ⟨item, -, hfind⟩ := Option.bind_eq_some_iff.mp hmission
        exact SameProjects.emit (.write hfind rfl rfl rfl)
    | leaveCapacity =>
      obtain ⟨db, hdb, rfl⟩ := Option.map_eq_some_iff.mp h
      unfold leaveCapacity at hdb
      repeat' split at hdb
      all_goals cases hdb
      · exact .of_missions rfl
      · rename_i mission hmission hwaiting
        obtain ⟨item, -, hfind⟩ := Option.bind_eq_some_iff.mp hmission
        exact SameProjects.emit (.write hfind rfl rfl rfl)
      · exact .of_missions rfl
    | _ => simp [footprint] at hframe
  · exact .of_missions (step_writes h .missions hframe)

end Projects

end Jarvis.Missions
