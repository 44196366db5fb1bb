/-
  Jarvis.Missions.Starts — calls of `start_item` between their transactions, and the runs that
  are made for a work item.

  A call carries the project and the request from its first transaction to `create_job`, and
  the job and the run from there to its link. `create_job` answers every call of an item from
  one idempotency record, so all calls at their link carry the same run (`Launches`). The
  scheduler's run has an identity of its own.
-/
import Jarvis.Missions.Moves

namespace Jarvis.Missions

open Jarvis.Runtime (RunStatus DesiredState Mode)
open Jarvis.Steps
open Jarvis.Keyed (Allotted)

variable {s s' : Sys} {action : Action}

/-! ## Calls -/

/-- The job and the run that a call is about to link. -/
def StartPc.target : StartPc → Option (JobId × RunId)
  | .link jobId runId => some (jobId, runId)
  | _ => none

/-- A transaction of a call, or its end. -/
inductive StartMove (s s' : Sys) (call : StartCall) : Action → Prop
  | created (projectActive configured : Bool) (project : Nat) (body : JobCreate) (jobId : JobId) (runId : RunId) :
      call.pc = .launch project body →
      createJob s.db project call.itemId body projectActive configured = .ok (s'.db, jobId, runId) →
      s'.starts = (s.setStart { call with pc := .link jobId runId }).starts →
      StartMove s s' call (.createJob call.id projectActive configured)
  | refused (projectActive configured : Bool) (project : Nat) (body : JobCreate) : call.pc = .launch project body →
      s'.db = s.db → s'.starts = (s.setStart { call with pc := .release }).starts →
      StartMove s s' call (.createJob call.id projectActive configured)
  | released (now : Nat) : call.pc = .release → s'.starts = (s.dropStart call.id).starts →
      StartMove s s' call (.releaseItem call.id now)
  | linked (now : Nat) (jobId : JobId) (runId : RunId) : call.pc = .link jobId runId →
      linkItem s.db call.missionId call.itemId jobId runId now = .ok s'.db → s'.starts = (s.dropStart call.id).starts →
      StartMove s s' call (.linkItem call.id now)
  | unlinked (now : Nat) (jobId : JobId) (runId : RunId) (problem : Problem) : call.pc = .link jobId runId →
      linkItem s.db call.missionId call.itemId jobId runId now = .error problem → s'.db = s.db →
      s'.starts = (s.dropStart call.id).starts → StartMove s s' call (.linkItem call.id now)
  | crashed : s'.db = s.db → s'.starts = (s.dropStart call.id).starts → StartMove s s' call (.crashStart call.id)

theorem start?_eq_some {id : Nat} {call : StartCall} (h : s.start? id = some call) : call ∈ s.starts ∧ call.id = id :=
  ⟨List.mem_of_find?_eq_some h, by simpa using List.find?_some h⟩

/-- The call whose transaction the action is. -/
def Action.call? : Action → Option Nat
  | .createJob call _ _ | .releaseItem call _ | .linkItem call _ | .crashStart call => some call
  | _ => none

theorem call_move {id : Nat} (hid : action.call? = some id) (h : step s action = some s') :
    ∃ call ∈ s.starts, StartMove s s' call action ∧ s'.next = s.next := by
  cases action with
  | createJob id projectActive configured =>
    obtain ⟨call, hcall, hmove⟩ := Option.bind_eq_some_iff.mp h
    obtain ⟨hmem, rfl⟩ := start?_eq_some hcall
    refine ⟨call, hmem, ?_⟩
    simp only [startStep] at hmove
    split at hmove
    · rename_i project body hpc
      split at hmove <;> cases hmove
      · rename_i jobId runId hjob
        exact ⟨.created projectActive configured project body jobId runId hpc hjob rfl, rfl⟩
      · exact ⟨.refused projectActive configured project body hpc rfl rfl, rfl⟩
    · cases hmove
  | releaseItem id now =>
    obtain ⟨call, hcall, hmove⟩ := Option.bind_eq_some_iff.mp h
    obtain ⟨hmem, rfl⟩ := start?_eq_some hcall
    refine ⟨call, hmem, ?_⟩
    simp only [startStep] at hmove
    split at hmove
    · rename_i hpc
      split at hmove <;> cases hmove
      · exact ⟨.released now hpc rfl, rfl⟩
      · exact ⟨.released now hpc rfl, rfl⟩
    · cases hmove
  | linkItem id now =>
    obtain ⟨call, hcall, hmove⟩ := Option.bind_eq_some_iff.mp h
    obtain ⟨hmem, rfl⟩ := start?_eq_some hcall
    refine ⟨call, hmem, ?_⟩
    simp only [startStep] at hmove
    split at hmove
    · rename_i jobId runId hpc
      split at hmove <;> cases hmove
      · rename_i hlink
        exact ⟨.linked now jobId runId hpc hlink rfl, rfl⟩
      · rename_i problem hlink
        exact ⟨.unlinked now jobId runId problem hpc hlink rfl rfl, rfl⟩
    · cases hmove
  | crashStart id =>
    obtain ⟨call, hcall, hmove⟩ := Option.bind_eq_some_iff.mp h
    obtain ⟨hmem, rfl⟩ := start?_eq_some hcall
    cases hmove
    exact ⟨call, hmem, .crashed rfl rfl, rfl⟩
  | _ => cases hid

/-- Nothing, a new call, or a move of one call. -/
theorem starts_cases (h : step s action = some s') :
    (s'.starts = s.starts ∧ s.next ≤ s'.next ∧ action.call? = none) ∨
    (∃ mission item version now project body, action = .startItem mission item version now ∧
      startItem s.db mission item version now = .ok (s'.db, .launch project body) ∧
      s'.starts = s.starts ++ [⟨s.next, mission, item, .launch project body⟩] ∧ s'.next = s.next + 1) ∨
    ∃ call ∈ s.starts, StartMove s s' call action ∧ s'.next = s.next := by
  have hexec : ∀ {id : Nat}, (s.execution? id).bind (fun e => executionStep s e action) = some s' →
      s'.starts = s.starts ∧ s.next ≤ s'.next := by
    intro id hid
    obtain ⟨e, -, hstep⟩ := Option.bind_eq_some_iff.mp hid
    unfold executionStep at hstep
    dsimp only at hstep
    repeat' split at hstep
    all_goals cases hstep
    all_goals exact ⟨rfl, Nat.le_refl _⟩
  cases action with
  | createMission | reconcileItems | materializeWakeup | dispatchReady | emit =>
    cases h
    exact .inl ⟨rfl, Nat.le_refl _, rfl⟩
  | updateAutonomy | updateDirective | updateTeam | createMessage | controlMission =>
    obtain ⟨db, -, rfl⟩ := toOption_map h
    exact .inl ⟨rfl, Nat.le_refl _, rfl⟩
  | startItem mission item version now =>
    simp only [step] at h
    split at h <;> cases h
    · rename_i project body hstart
      exact .inr (.inl ⟨mission, item, version, now, project, body, rfl, hstart, rfl, rfl⟩)
    · exact .inl ⟨rfl, Nat.le_refl _, rfl⟩
  | createJob | releaseItem | linkItem | crashStart => exact .inr (.inr (call_move rfl h))
  | claim service locked now =>
    obtain ⟨⟨db, turnId⟩, -, rfl⟩ := Option.map_eq_some_iff.mp h
    exact .inl ⟨rfl, Nat.le_succ _, rfl⟩
  | load | beginCall | invoke | storeReceipt | apply | fail | crash =>
    obtain ⟨hsame, hnext⟩ := hexec h
    exact .inl ⟨hsame, hnext, rfl⟩
  | executeRun | waitForCapacity | leaveCapacity | requestReconciliation | retryRun | runModelCall =>
    obtain ⟨db, -, rfl⟩ := Option.map_eq_some_iff.mp h
    exact .inl ⟨rfl, Nat.le_refl _, rfl⟩

theorem mem_setStart {call x : StartCall} :
    x ∈ (s.setStart call).starts ↔ (x ∈ s.starts ∧ x.id ≠ call.id) ∨ ∃ old ∈ s.starts, old.id = call.id ∧ x = call :=
  Keyed.mem_replace (f := fun _ => call)

theorem map_id_setStart (call : StartCall) : (s.setStart call).starts.map (·.id) = s.starts.map (·.id) :=
  Keyed.map_key_replace (f := fun _ => call) fun _ _ => rfl

theorem mem_dropStart {id : Nat} {x : StartCall} : x ∈ (s.dropStart id).starts ↔ x ∈ s.starts ∧ x.id ≠ id := by
  simp [Sys.dropStart]

/-- A move changes its call or ends it. -/
theorem StartMove.starts {call : StartCall} (h : StartMove s s' call action) :
    (∃ pc, s'.starts = (s.setStart { call with pc }).starts) ∨ s'.starts = (s.dropStart call.id).starts := by
  cases h with
  | created _ _ _ _ _ _ _ _ hset => exact .inl ⟨_, hset⟩
  | refused _ _ _ _ _ _ hset => exact .inl ⟨_, hset⟩
  | released _ _ hdrop => exact .inr hdrop
  | linked _ _ _ _ _ hdrop => exact .inr hdrop
  | unlinked _ _ _ _ _ _ _ hdrop => exact .inr hdrop
  | crashed _ hdrop => exact .inr hdrop

/-- Calls have numbers of their own, given out in order. -/
theorem reach_startIds {versions : List Nat} {ok : Sys → Action → Prop} (h : ReachIf step ok (Sys.init versions) s) :
    Allotted id (s.starts.map (·.id)) s.next := by
  refine h.invariant (fun s => Allotted id (s.starts.map (·.id)) s.next) ⟨List.nodup_nil, by simp [Sys.init]⟩ ?_
  intro s action s' hs _ hstep
  rcases starts_cases hstep with ⟨hsame, hnext, -⟩ | ⟨_, _, _, _, _, _, -, -, hnew, hnext⟩ | ⟨call, -, hmove, hnext⟩
  · rw [hsame]
    exact hs.grow hnext
  · rw [hnew, hnext, List.map_append]
    refine hs.add (hs.unused (Nat.le_refl _)) (Nat.le_succ _) fun m hm => ?_
    rw [show m = s.next from hm]
    exact Nat.lt_succ_self _
  · rw [hnext]
    rcases hmove.starts with ⟨pc, hset⟩ | hdrop
    · rwa [hset, map_id_setStart]
    · have hsub : (s'.starts.map (·.id)).Sublist (s.starts.map (·.id)) := by
        rw [hdrop]
        exact List.filter_sublist.map _
      exact ⟨hs.nodup.sublist hsub, fun n hn => hs.lt n (hsub.subset hn)⟩

/-- A call that moved is not the one it was. -/
theorem StartMove.others {call x : StartCall} (h : StartMove s s' call action) (hids : (s.starts.map (·.id)).Nodup)
    (hcall : call ∈ s.starts) (hx : x ∈ s.starts) (hne : x ≠ call) : x ∈ s'.starts := by
  have hid : x.id ≠ call.id := fun heq => hne (Keyed.unique hids hx hcall heq)
  rcases h.starts with ⟨pc, hset⟩ | hdrop
  · rw [hset]
    exact mem_setStart.mpr (.inl ⟨hx, hid⟩)
  · rw [hdrop]
    exact mem_dropStart.mpr ⟨hx, hid⟩

/-! ## Idempotency records -/

/-- `create_job` answers from the record of the item's key, or makes the record, the job and the run. -/
theorem createJob_ok {db db' : Db} {project itemId : Nat} {body : JobCreate} {projectActive configured : Bool} {jobId : JobId}
    {runId : RunId} (h : createJob db project itemId body projectActive configured = .ok (db', jobId, runId)) :
    (db' = db ∧ ∃ record ∈ db.records, record.key = .workItem itemId ∧ record.launched = some (jobId, runId)) ∨
      (projectActive = true ∧ configured = true ∧ begin_ db (.enqueue project) (.workItem itemId) (.job body) = .fresh ∧
        jobId = .fresh db.nextId ∧ runId = .fresh (db.nextId + 1) ∧ db'.runs = db.runs ++ [{ id := runId, jobId }] ∧
        db'.records = db.records ++
          [{ scope := .enqueue project, key := .workItem itemId, request := .job body, launched := some (jobId, runId) }]) := by
  unfold createJob at h
  dsimp only at h
  split at h
  · cases h
  · rename_i hactive
    split at h
    · cases h
    · rename_i record hbegin
      split at h
      · rename_i hlaunched
        cases h
        obtain ⟨hmem, -, hkey⟩ := begin_replay hbegin
        exact .inl ⟨rfl, record, hmem, hkey, hlaunched⟩
      · cases h
    · rename_i hfresh
      split at h
      · cases h
      · rename_i hconfigured
        cases h
        exact .inr ⟨by simpa using hactive, by simpa using hconfigured, hfresh, rfl, rfl, rfl, rfl⟩

/-- What an action records: the answer to a caller's own key, or that of `create_job`. -/
inductive NewRecord (s s' : Sys) (action : Action) (record : IdempotencyRecord) : Prop
  | given (text : String) : record.key = .given text → NewRecord s s' action record
  | launched (call : StartCall) (project : Nat) (body : JobCreate) : call ∈ s.starts →
      action = .createJob call.id true true → call.pc = .launch project body →
      begin_ s.db (.enqueue project) (.workItem call.itemId) (.job body) = .fresh →
      s'.db.runs = s.db.runs ++ [{ id := .fresh (s.db.nextId + 1), jobId := .fresh s.db.nextId }] →
      s'.starts = (s.setStart { call with pc := .link (.fresh s.db.nextId) (.fresh (s.db.nextId + 1)) }).starts →
      record =
        { scope := .enqueue project, key := .workItem call.itemId, request := .job body,
          launched := some (.fresh s.db.nextId, .fresh (s.db.nextId + 1)) } →
      NewRecord s s' action record

/-- Records stay, and at most one is added. -/
theorem record_moves (h : step s action = some s') :
    s'.db.records = s.db.records ∨ ∃ record, s'.db.records = s.db.records ++ [record] ∧ NewRecord s s' action record := by
  by_cases hframe : Table.records ∈ footprint action
  · cases action with
    | updateAutonomy | updateDirective | createMessage =>
      obtain ⟨db, hdb, rfl⟩ := toOption_map h
      obtain rfl | ⟨old, -, hdb⟩ := withMission_ok hdb
      · exact .inl rfl
      · split at hdb <;> cases hdb
        exact .inr ⟨_, rfl, .given _ rfl⟩
    | updateTeam =>
      obtain ⟨db, hdb, rfl⟩ := toOption_map h
      unfold updateTeam at hdb
      dsimp only at hdb
      repeat' split at hdb
      all_goals cases hdb
      · exact .inl rfl
      · exact .inr ⟨_, rfl, .given _ rfl⟩
    | controlMission =>
      obtain ⟨db, hdb, rfl⟩ := toOption_map h
      obtain rfl | ⟨old, -, hdb⟩ := withMission_ok hdb
      · exact .inl rfl
      · dsimp only at hdb
        split at hdb
        · cases hdb
        · rename_i commanded hcommand
          cases hdb
          have hrecords : commanded.records = s.db.records := by
            split at hcommand
            · exact enqueue_writes hcommand .records (by decide)
            · cases hcommand
              rfl
          exact .inr ⟨_, congrArg (· ++ [_]) hrecords, .given _ rfl⟩
    | createJob id projectActive configured =>
      obtain ⟨call, hcall, hmove, -⟩ := call_move rfl h
      cases hmove with
      | created _ _ project body jobId runId hpc hjob hset =>
        rcases createJob_ok hjob with ⟨hsame, -⟩ | ⟨rfl, rfl, hfresh, rfl, rfl, hruns, hrecords⟩
        · exact .inl (congrArg Db.records hsame)
        · exact .inr ⟨_, hrecords, .launched call project body hcall rfl hpc hfresh hruns hset rfl⟩
      | refused _ _ _ _ _ hsame => exact .inl (congrArg Db.records hsame)
    | _ => simp [footprint] at hframe
  · exact .inl (step_writes h .records hframe)

/-! ## Where an item is at home -/

/-- The item is of the mission, and the mission of the project. -/
def Db.home (db : Db) (itemId missionId project : Nat) : Prop :=
  ∃ item mission, db.item? itemId = some item ∧ item.missionId = missionId ∧ db.mission? missionId = some mission ∧
    mission.projectId = project

theorem home_unique {db : Db} {itemId missionId missionId' project project' : Nat} (h : db.home itemId missionId project)
    (h' : db.home itemId missionId' project') : project = project' := by
  obtain ⟨item, mission, hitem, rfl, hmission, rfl⟩ := h
  obtain ⟨item', mission', hitem', rfl, hmission', rfl⟩ := h'
  rw [hitem] at hitem'
  cases hitem'
  rw [hmission] at hmission'
  cases hmission'
  rfl

theorem ItemMove.same_mission {item row : WorkItemRow} (h : ItemMove s action item row) : row.missionId = item.missionId := by
  cases h with
  | kept hlink => exact hlink.2.1
  | planned hlink => exact hlink.2.1
  | settled _ hlink => exact hlink.2.1
  | linked => rfl
  | assigned => rfl

theorem home_kept (hk : s.db.keys.Distinct) (h : step s action = some s') {itemId missionId project : Nat}
    (hhome : s.db.home itemId missionId project) : s'.db.home itemId missionId project := by
  obtain ⟨item, mission, hitem, rfl, hmission, rfl⟩ := hhome
  obtain ⟨row, hrow, hmove⟩ := (item_moves hk h itemId).1 item hitem
  obtain ⟨mission', hmission', hproject⟩ := step_projects hk h _ mission hmission
  exact ⟨row, mission', hrow, hmove.same_mission, hmission', hproject⟩

theorem startItem_home {db db' : Db} (hk : db.keys.Distinct) {missionId itemId version now project : Nat} {body : JobCreate}
    (h : startItem db missionId itemId version now = .ok (db', .launch project body)) : db.home itemId missionId project := by
  unfold startItem at h
  split at h
  · cases h
  · rename_i mission hmission
    split at h
    · rename_i team item _ hfind
      have hfound := List.find?_some hfind
      simp only [decide_eq_true_eq] at hfound
      obtain ⟨rfl, hof⟩ := hfound
      have hitem := item?_of_mem hk (List.mem_of_find?_eq_some hfind)
      dsimp only at h
      repeat' split at h
      all_goals cases h
      exact ⟨item, mission, hitem, hof, hmission, rfl⟩
    · cases h

theorem run_kept (hk : s.db.keys.Distinct) (h : step s action = some s') {id : RunId} (hid : id ∈ s.db.keys.runs) :
    id ∈ s'.db.keys.runs := by
  obtain ⟨run, hrun, rfl⟩ := List.mem_map.mp hid
  obtain ⟨row, hrow, -⟩ := (run_moves hk h run.id).1 run ((find?_key hk.runs.nodup).mpr ⟨hrun, rfl⟩)
  obtain ⟨hmem, hrowId⟩ := Db.run?_eq_some hrow
  exact List.mem_map.mpr ⟨row, hmem, hrowId⟩

theorem record_kept (h : step s action = some s') {record : IdempotencyRecord} (hrecord : record ∈ s.db.records) :
    record ∈ s'.db.records := by
  rcases record_moves h with hsame | ⟨new, happend, -⟩
  · rwa [hsame]
  · rw [happend]
    exact List.mem_append_left _ hrecord

/-! ## Runs made for an item -/

/-- A call after an action: as it was, just begun, or moved by `create_job`. -/
theorem call_cases (h : step s action = some s') {x : StartCall} (hx : x ∈ s'.starts) :
    x ∈ s.starts ∨
    (∃ version now project body, startItem s.db x.missionId x.itemId version now = .ok (s'.db, .launch project body) ∧
      x.pc = .launch project body) ∨
    ∃ call ∈ s.starts, x.missionId = call.missionId ∧ x.itemId = call.itemId ∧
      (x.pc = .release ∨ ∃ project body projectActive configured jobId runId, x.pc = .link jobId runId ∧
        createJob s.db project call.itemId body projectActive configured = .ok (s'.db, jobId, runId)) := by
  rcases starts_cases h with ⟨hsame, -⟩ | ⟨mission, item, version, now, project, body, -, hstart, hnew, -⟩ | ⟨call, hcall, hmove, -⟩
  · exact .inl (hsame ▸ hx)
  · rw [hnew] at hx
    rcases List.mem_append.mp hx with hx | hx
    · exact .inl hx
    · cases List.mem_singleton.mp hx
      exact .inr (.inl ⟨version, now, project, body, hstart, rfl⟩)
  · cases hmove with
    | created projectActive configured project body jobId runId _ hjob hset =>
      rcases mem_setStart.mp (hset ▸ hx) with ⟨hx, -⟩ | ⟨-, -, -, rfl⟩
      · exact .inl hx
      · exact .inr (.inr ⟨call, hcall, rfl, rfl, .inr ⟨project, body, projectActive, configured, jobId, runId, rfl, hjob⟩⟩)
    | refused _ _ _ _ _ _ hset =>
      rcases mem_setStart.mp (hset ▸ hx) with ⟨hx, -⟩ | ⟨-, -, -, rfl⟩
      · exact .inl hx
      · exact .inr (.inr ⟨call, hcall, rfl, rfl, .inl rfl⟩)
    | released _ _ hdrop => exact .inl (mem_dropStart.mp (hdrop ▸ hx)).1
    | linked _ _ _ _ _ hdrop => exact .inl (mem_dropStart.mp (hdrop ▸ hx)).1
    | unlinked _ _ _ _ _ _ _ hdrop => exact .inl (mem_dropStart.mp (hdrop ▸ hx)).1
    | crashed _ hdrop => exact .inl (mem_dropStart.mp (hdrop ▸ hx)).1

/-- The run was made for the item: by the scheduler, or by `create_job` with the item's key. -/
def Db.created (db : Db) (itemId : Nat) (runId : RunId) : Prop :=
  runId ∈ db.keys.runs ∧ (runId = .assignment itemId ∨
    ∃ record ∈ db.records, record.key = .workItem itemId ∧ record.launched.map (·.2) = some runId)

instance (db : Db) (itemId : Nat) (runId : RunId) : Decidable (db.created itemId runId) := by unfold Db.created; infer_instance

theorem created_kept (hk : s.db.keys.Distinct) (h : step s action = some s') {itemId : Nat} {runId : RunId}
    (hc : s.db.created itemId runId) : s'.db.created itemId runId := by
  obtain ⟨hrun, hmade⟩ := hc
  refine ⟨run_kept hk h hrun, ?_⟩
  rcases hmade with hassigned | ⟨record, hrecord, hlaunched⟩
  · exact .inl hassigned
  · exact .inr ⟨record, record_kept h hrecord, hlaunched⟩

structure Launches (s : Sys) : Prop where
  /-- A call is about an item of its mission, and creates the job in the mission's project. -/
  calls : ∀ call ∈ s.starts, ∃ home, s.db.home call.itemId call.missionId home ∧
    ∀ project body, call.pc = .launch project body → project = home
  records : ∀ record ∈ s.db.records, ∀ itemId, record.key = .workItem itemId → ∃ missionId project,
    s.db.home itemId missionId project ∧ record.scope = .enqueue project ∧
      ∃ jobId runId, record.launched = some (jobId, runId) ∧ runId ∈ s.db.keys.runs
  /-- The calls of an item are answered from one record. -/
  one : ∀ a ∈ s.db.records, ∀ b ∈ s.db.records, ∀ itemId, a.key = .workItem itemId → b.key = .workItem itemId → a = b
  links : ∀ call ∈ s.starts, ∀ jobId runId, call.pc = .link jobId runId →
    ∃ record ∈ s.db.records, record.key = .workItem call.itemId ∧ record.launched = some (jobId, runId)
  items : ∀ itemId item, s.db.item? itemId = some item → ∀ runId, item.runId = some runId → s.db.created itemId runId

namespace Launches

variable (hk : s.db.keys.Distinct) (hs : Launches s) (h : step s action = some s')

include hk hs h

theorem calls_step : ∀ call ∈ s'.starts, ∃ home, s'.db.home call.itemId call.missionId home ∧
    ∀ project body, call.pc = .launch project body → project = home := by
  intro x hx
  rcases call_cases h hx with hx | ⟨version, now, project, body, hstart, hpc⟩ | ⟨call, hcall, hmission, hitem, hpc⟩
  · obtain ⟨home, hhome, hproject⟩ := hs.calls x hx
    exact ⟨home, home_kept hk h hhome, hproject⟩
  · refine ⟨project, home_kept hk h (startItem_home hk hstart), fun _ _ hpc' => ?_⟩
    rw [hpc] at hpc'
    cases hpc'
    rfl
  · obtain ⟨home, hhome, -⟩ := hs.calls call hcall
    refine ⟨home, hmission ▸ hitem ▸ home_kept hk h hhome, fun _ _ hpc' => ?_⟩
    rcases hpc with hpc | ⟨_, _, _, _, _, _, hpc, -⟩ <;> rw [hpc] at hpc' <;> cases hpc'

theorem records_step : ∀ record ∈ s'.db.records, ∀ itemId, record.key = .workItem itemId → ∃ missionId project,
    s'.db.home itemId missionId project ∧ record.scope = .enqueue project ∧
      ∃ jobId runId, record.launched = some (jobId, runId) ∧ runId ∈ s'.db.keys.runs := by
  intro record hrecord itemId hkey
  have hold : record ∈ s.db.records → ∃ missionId project, s'.db.home itemId missionId project ∧ record.scope = .enqueue project ∧
      ∃ jobId runId, record.launched = some (jobId, runId) ∧ runId ∈ s'.db.keys.runs := by
    intro hin
    obtain ⟨missionId, project, hhome, hscope, jobId, runId, hlaunched, hrun⟩ := hs.records record hin itemId hkey
    exact ⟨missionId, project, home_kept hk h hhome, hscope, jobId, runId, hlaunched, run_kept hk h hrun⟩
  rcases record_moves h with hsame | ⟨new, happend, hnew⟩
  · exact hold (hsame ▸ hrecord)
  · rw [happend] at hrecord
    rcases List.mem_append.mp hrecord with hrecord | hrecord
    · exact hold hrecord
    · cases List.mem_singleton.mp hrecord
      cases hnew with
      | given text hgiven =>
        rw [hkey] at hgiven
        cases hgiven
      | launched call project body hcall _ hpc _ hruns _ heq =>
        subst heq
        cases hkey
        obtain ⟨home, hhome, hproject⟩ := hs.calls call hcall
        cases hproject project body hpc
        refine ⟨call.missionId, project, home_kept hk h hhome, rfl, _, _, rfl, ?_⟩
        show _ ∈ s'.db.runs.map (·.id)
        rw [hruns]
        simp

omit hk in
theorem one_step : ∀ a ∈ s'.db.records, ∀ b ∈ s'.db.records, ∀ itemId, a.key = .workItem itemId →
    b.key = .workItem itemId → a = b := by
  rcases record_moves h with hsame | ⟨new, happend, hnew⟩
  · rw [hsame]
    exact hs.one
  · -- the key of a new record was free in the project that all records of the item are in
    have hfree : ∀ old ∈ s.db.records, ∀ itemId, old.key = .workItem itemId → new.key ≠ .workItem itemId := by
      intro old hold itemId hkey hkey'
      cases hnew with
      | given text hgiven =>
        rw [hkey'] at hgiven
        cases hgiven
      | launched call project body hcall _ hpc hfresh _ _ heq =>
        subst heq
        cases hkey'
        obtain ⟨home, hhome, hproject⟩ := hs.calls call hcall
        cases hproject project body hpc
        obtain ⟨_, _, hhome', hscope, -⟩ := hs.records old hold _ hkey
        cases home_unique hhome hhome'
        exact begin_fresh hfresh old hold hscope hkey
    rw [happend]
    intro a ha b hb itemId hka hkb
    rcases List.mem_append.mp ha with ha | ha <;> rcases List.mem_append.mp hb with hb | hb
    · exact hs.one a ha b hb itemId hka hkb
    · cases List.mem_singleton.mp hb
      exact absurd hkb (hfree a ha itemId hka)
    · cases List.mem_singleton.mp ha
      exact absurd hka (hfree b hb itemId hkb)
    · cases List.mem_singleton.mp ha
      cases List.mem_singleton.mp hb
      rfl

omit hk in
theorem links_step : ∀ call ∈ s'.starts, ∀ jobId runId, call.pc = .link jobId runId →
    ∃ record ∈ s'.db.records, record.key = .workItem call.itemId ∧ record.launched = some (jobId, runId) := by
  intro x hx jobId runId hpc
  rcases call_cases h hx with hx | ⟨_, _, _, _, -, hpc'⟩ | ⟨call, hcall, -, hitem, hpc' | ⟨_, _, _, _, _, _, hpc', hjob⟩⟩
  · obtain ⟨record, hrecord, hlaunched⟩ := hs.links x hx jobId runId hpc
    exact ⟨record, record_kept h hrecord, hlaunched⟩
  · rw [hpc] at hpc'
    cases hpc'
  · rw [hpc] at hpc'
    cases hpc'
  · rw [hpc] at hpc'
    cases hpc'
    rw [hitem]
    rcases createJob_ok hjob with ⟨-, record, hrecord, hlaunched⟩ | ⟨-, -, -, -, -, -, hrecords⟩
    · exact ⟨record, record_kept h hrecord, hlaunched⟩
    · rw [hrecords]
      exact ⟨_, List.mem_append_right _ (List.mem_singleton.mpr rfl), rfl, rfl⟩

theorem items_step : ∀ itemId item, s'.db.item? itemId = some item → ∀ runId, item.runId = some runId →
    s'.db.created itemId runId := by
  intro itemId row hrow runId hrun
  cases hitem : s.db.item? itemId with
  | none =>
    obtain ⟨-, hnone, -⟩ := (item_moves hk h itemId).2 hitem row hrow
    rw [hrun] at hnone
    cases hnone
  | some item =>
    obtain ⟨row', hrow', hmove⟩ := (item_moves hk h itemId).1 item hitem
    rw [hrow] at hrow'
    cases hrow'
    have hid : item.id = itemId := (Db.item?_eq_some hitem).2
    have hsame : row.runId = item.runId → s'.db.created itemId runId := fun heq =>
      created_kept hk h (hs.items itemId item hitem runId (heq.symm.trans hrun))
    cases hmove with
    | kept hlink => exact hsame hlink.2.2.2
    | planned hlink => exact hsame hlink.2.2.2
    | settled _ hlink => exact hsame hlink.2.2.2
    | linked call now jobId runId' _ hcall hcallItem _ hpc =>
      cases hrun
      obtain ⟨record, hrecord, hkey, hlaunched⟩ := hs.links call hcall jobId runId hpc
      rw [hcallItem, hid] at hkey
      obtain ⟨_, _, -, -, _, _, hlaunched', hexists⟩ := hs.records record hrecord itemId hkey
      rw [hlaunched] at hlaunched'
      cases hlaunched'
      exact created_kept hk h ⟨hexists, .inr ⟨record, hrecord, hkey, by rw [hlaunched]; rfl⟩⟩
    | assigned mode lockedMissions lockedItems now mission haction hselected =>
      cases hrun
      subst haction hid
      exact ⟨(assigned_run h hselected hitem hrow rfl).1, .inl rfl⟩

protected theorem step : Launches s' :=
  ⟨calls_step hk hs h, records_step hk hs h, one_step hs h, links_step hs h, items_step hk hs h⟩

end Launches

theorem Launches.init (versions : List Nat) : Launches (Sys.init versions) :=
  ⟨by simp [Sys.init], by simp [Sys.init], by simp [Sys.init], by simp [Sys.init], by simp [Sys.init, Db.item?]⟩

theorem reach_launches {versions : List Nat} {ok : Sys → Action → Prop} (h : ReachIf step ok (Sys.init versions) s) : Launches s :=
  h.invariant_with (fun s => s.db.keys.Distinct) Launches (fun _ hr => reach_distinct hr) (.init versions)
    fun _ _ _ hk hs _ hstep => hs.step hk hstep

end Jarvis.Missions
