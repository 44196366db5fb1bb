/-
  Jarvis.Missions.SingleRun — how many runs are made for a work item.

  `create_job` and the scheduler know of each other only through the run that the item records,
  and `start_item` writes that last. Between `create_job` and the link the scheduler can select
  the same item and make a second run, and the link is then refused (`two_runs`). In runs in
  which neither makes a run while the other's is there, an item gets one run at most, and
  unless a call is lost on the way to its link the item records it (`single_run`).
-/
import Jarvis.Missions.Starts
import Jarvis.Missions.Turns

namespace Jarvis.Missions

open Jarvis.Runtime (RunStatus DesiredState Mode)
open Jarvis.Steps

variable {s s' : Sys} {action : Action}

/-- `create_job` has answered a call of the item. -/
def Db.launchRecorded (db : Db) (itemId : Nat) : Prop := ∃ record ∈ db.records, record.key = .workItem itemId

instance (db : Db) (itemId : Nat) : Decidable (db.launchRecorded itemId) := by unfold Db.launchRecorded; infer_instance

/-- The scheduler launches an item that `create_job` has made no run for, and `create_job` makes a
    run for an item that the scheduler has made none for. -/
def oneLauncher (s : Sys) : Action → Prop
  | .dispatchReady mode lockedMissions lockedItems now =>
    ∀ selected ∈ selectedItem s.db mode lockedMissions lockedItems, launchable s.db selected.1 selected.2 now →
      ¬ s.db.launchRecorded selected.2.id
  | .createJob id projectActive configured =>
    projectActive = true → configured = true → ∀ call ∈ s.starts, call.id = id → ¬ s.db.launchRecorded call.itemId →
      .assignment call.itemId ∉ s.db.keys.runs
  | _ => True

/-- A call is lost before its link only if the item records the run or another call carries it. -/
def keepsLink (s : Sys) : Action → Prop
  | .crashStart id =>
    ∀ call ∈ s.starts, call.id = id → ∀ target ∈ call.pc.target,
      (∃ item ∈ s.db.items, item.id = call.itemId ∧ item.runId = some target.2) ∨
        ∃ other ∈ s.starts, other.id ≠ id ∧ other.itemId = call.itemId ∧ other.pc.target = some target
  | _ => True

instance (s : Sys) (action : Action) : Decidable (oneLauncher s action) := by
  induction action using Action.casesOn <;> dsimp only [oneLauncher] <;> infer_instance

instance (s : Sys) (action : Action) : Decidable (keepsLink s action) := by
  induction action using Action.casesOn <;> dsimp only [keepsLink] <;> infer_instance

/-! ## One run -/

/-- Only one of the two has made a run for an item. -/
def OneSource (s : Sys) : Prop := ∀ itemId, s.db.launchRecorded itemId → .assignment itemId ∉ s.db.keys.runs

theorem launchRecorded_step (hs : Launches s) (h : step s action = some s') {itemId : Nat} (hrec : s'.db.launchRecorded itemId) :
    s.db.launchRecorded itemId ∨ (¬ s.db.launchRecorded itemId ∧ ∃ call ∈ s.starts, call.itemId = itemId ∧
      action = .createJob call.id true true) := by
  obtain ⟨record, hrecord, hkey⟩ := hrec
  rcases record_moves h with hsame | ⟨new, happend, hnew⟩
  · exact .inl ⟨record, hsame ▸ hrecord, hkey⟩
  · rw [happend] at hrecord
    rcases List.mem_append.mp hrecord with hrecord | hrecord
    · exact .inl ⟨record, hrecord, hkey⟩
    · cases List.mem_singleton.mp hrecord
      cases hnew with
      | given text hgiven =>
        rw [hkey] at hgiven
        cases hgiven
      | launched call project body hcall haction hpc hfresh _ _ heq =>
        subst heq
        cases hkey
        refine .inr ⟨?_, call, hcall, rfl, haction⟩
        rintro ⟨old, hold, holdKey⟩
        -- the item's records are all in the project of the call
        obtain ⟨home, hhome, hproject⟩ := hs.calls call hcall
        cases hproject project body hpc
        obtain ⟨_, _, hhome', hscope, -⟩ := hs.records old hold _ holdKey
        cases home_unique hhome hhome'
        exact begin_fresh hfresh old hold hscope holdKey

/-- The scheduler's run of an item was there, or it has just made it. -/
theorem assignment_step (hk : s.db.keys.Distinct) (hk' : s'.db.keys.Distinct) (h : step s action = some s') {itemId : Nat}
    (hrun : .assignment itemId ∈ s'.db.keys.runs) :
    .assignment itemId ∈ s.db.keys.runs ∨ ∃ mode lockedMissions lockedItems now mission item,
      action = .dispatchReady mode lockedMissions lockedItems now ∧
      selectedItem s.db mode lockedMissions lockedItems = some (mission, item) ∧ launchable s.db mission item now ∧
      item.id = itemId ∧ s'.db.item? itemId = some (item.launched (.assignment itemId) (.assignment itemId)) := by
  obtain ⟨row, hrow, hid⟩ := List.mem_map.mp hrun
  have hrow? : s'.db.run? (.assignment itemId) = some row := (find?_key hk'.runs.nodup).mpr ⟨hrow, hid⟩
  cases hold : s.db.run? (.assignment itemId) with
  | some old =>
    obtain ⟨hmem, hid⟩ := Db.run?_eq_some hold
    exact .inl (List.mem_map.mpr ⟨old, hmem, hid⟩)
  | none =>
    cases (run_moves hk h _).2 hold row hrow? with
    | created _ _ _ _ _ hfresh =>
      rw [hid] at hfresh
      cases hfresh
    | retried _ _ _ hfresh =>
      rw [hid] at hfresh
      cases hfresh
    | assigned mode lockedMissions lockedItems now _ _ haction =>
      subst haction
      obtain ⟨mission, item, hselected, rfl, hitem, hlaunch⟩ := assigned_item hk h hold hrow?
      cases hid
      exact .inr ⟨mode, lockedMissions, lockedItems, now, mission, item, rfl, hselected, hlaunch, rfl, hitem⟩

theorem OneSource.step (hk : s.db.keys.Distinct) (hk' : s'.db.keys.Distinct) (hl : Launches s) (hs : OneSource s)
    (hok : oneLauncher s action) (h : Jarvis.Missions.step s action = some s') : OneSource s' := by
  intro itemId hrec hrun
  rcases launchRecorded_step hl h hrec with hrec | ⟨hnew, call, hcall, rfl, rfl⟩
  · rcases assignment_step hk hk' h hrun with hrun | ⟨mode, lockedMissions, lockedItems, now, mission, item, rfl, hselected, hlaunch, rfl, -⟩
    · exact hs itemId hrec hrun
    · exact hok _ hselected hlaunch hrec
  · rcases assignment_step hk hk' h hrun with hrun | ⟨_, _, _, _, _, _, haction, -⟩
    · exact hok rfl rfl call hcall rfl hnew hrun
    · cases haction

theorem created_unique (hl : Launches s) (hs : OneSource s) {itemId : Nat} {a b : RunId} (ha : s.db.created itemId a)
    (hb : s.db.created itemId b) : a = b := by
  obtain ⟨harun, rfl | ⟨record, hrecord, hkey, hlaunched⟩⟩ := ha
  · obtain ⟨-, rfl | ⟨record, hrecord, hkey, -⟩⟩ := hb
    · rfl
    · exact absurd harun (hs itemId ⟨record, hrecord, hkey⟩)
  · obtain ⟨hbrun, rfl | ⟨other, hother, hkey', hlaunched'⟩⟩ := hb
    · exact absurd hbrun (hs itemId ⟨record, hrecord, hkey⟩)
    · cases hl.one record hrecord other hother itemId hkey hkey'
      rw [hlaunched] at hlaunched'
      exact Option.some.inj hlaunched'

/-! ## The run is recorded -/

/-- The item records the run. -/
def Db.records? (db : Db) (itemId : Nat) (runId : RunId) : Prop := ∃ item ∈ db.item? itemId, item.runId = some runId

instance (db : Db) (itemId : Nat) (runId : RunId) : Decidable (db.records? itemId runId) := by unfold Db.records?; infer_instance

/-- A call of the item is about to link the run. -/
def linking (s : Sys) (itemId : Nat) (runId : RunId) : Prop :=
  ∃ call ∈ s.starts, call.itemId = itemId ∧ ∃ jobId, call.pc = .link jobId runId

def Recorded (s : Sys) : Prop :=
  ∀ itemId runId, s.db.created itemId runId → s.db.records? itemId runId ∨ linking s itemId runId

/-- A run that an action makes for an item is recorded, or a call is about to link it. -/
theorem created_step (hk : s.db.keys.Distinct) (hk' : s'.db.keys.Distinct) (hl : Launches s) (h : step s action = some s')
    {itemId : Nat} {runId : RunId} (hc : s'.db.created itemId runId) :
    s.db.created itemId runId ∨ s'.db.records? itemId runId ∨ linking s' itemId runId := by
  obtain ⟨hrun, rfl | ⟨record, hrecord, hkey, hlaunched⟩⟩ := hc
  · rcases assignment_step hk hk' h hrun with hrun | ⟨_, _, _, _, _, item, -, -, -, -, hitem⟩
    · exact .inl ⟨hrun, .inl rfl⟩
    · exact .inr (.inl ⟨_, hitem, rfl⟩)
  · have hold : record ∈ s.db.records → s.db.created itemId runId := by
      intro hin
      obtain ⟨_, _, -, -, jobId, runId', hlaunched', hexists⟩ := hl.records record hin itemId hkey
      rw [hlaunched'] at hlaunched
      cases hlaunched
      exact ⟨hexists, .inr ⟨record, hin, hkey, by rw [hlaunched']; rfl⟩⟩
    rcases record_moves h with hsame | ⟨new, happend, hnew⟩
    · exact .inl (hold (hsame ▸ hrecord))
    · rw [happend] at hrecord
      rcases List.mem_append.mp hrecord with hrecord | hrecord
      · exact .inl (hold hrecord)
      · cases List.mem_singleton.mp hrecord
        cases hnew with
        | given text hgiven =>
          rw [hkey] at hgiven
          cases hgiven
        | launched call project body hcall _ _ _ _ hset heq =>
          subst heq
          cases hkey
          cases hlaunched
          refine .inr (.inr ⟨{ call with pc := .link (.fresh s.db.nextId) (.fresh (s.db.nextId + 1)) }, ?_, rfl, _, rfl⟩)
          rw [hset]
          exact mem_setStart.mpr (.inr ⟨call, hcall, rfl, rfl⟩)

/-- A call whose item is free for its run links it. -/
theorem linkItem_of_free {db : Db} (hk : db.keys.Distinct) {missionId itemId now project : Nat} {jobId : JobId} {runId : RunId}
    (hhome : db.home itemId missionId project)
    (hfree : ∀ item, db.item? itemId = some item → item.runId = none ∨ item.runId = some runId) :
    ∃ db', linkItem db missionId itemId jobId runId now = .ok db' := by
  obtain ⟨item, mission, hitem, hof, hmission, -⟩ := hhome
  obtain ⟨hmem, hid⟩ := Db.item?_eq_some hitem
  have hsome : (db.items.find? fun item => item.id = itemId ∧ item.missionId = missionId).isSome := by
    rw [List.find?_isSome]
    exact ⟨item, hmem, decide_eq_true ⟨hid, hof⟩⟩
  obtain ⟨found, hfound⟩ := Option.isSome_iff_exists.mp hsome
  have hkey := List.find?_some hfound
  simp only [decide_eq_true_eq] at hkey
  have hfree := hfree found ((find?_key hk.items.nodup).mpr ⟨List.mem_of_find?_eq_some hfound, hkey.1⟩)
  unfold linkItem
  rw [hmission, hfound]
  dsimp only
  rw [if_neg (by rcases hfree with hfree | hfree <;> simp [hfree])]
  exact ⟨_, rfl⟩

theorem records?_kept (hk : s.db.keys.Distinct) (hok : oneLauncher s action) (h : step s action = some s') {itemId : Nat}
    {runId : RunId} (hc : s.db.created itemId runId) (hrec : s.db.records? itemId runId) : s'.db.records? itemId runId := by
  obtain ⟨item, hitem, hrun⟩ := hrec
  obtain ⟨row, hrow, hmove⟩ := (item_moves hk h itemId).1 item hitem
  refine ⟨row, hrow, ?_⟩
  cases hmove with
  | kept hlink => exact hlink.2.2.2.trans hrun
  | planned hlink => exact hlink.2.2.2.trans hrun
  | settled _ hlink => exact hlink.2.2.2.trans hrun
  | linked call now jobId runId' _ _ _ _ _ hfree =>
    rw [hrun] at hfree
    rcases hfree with hfree | hfree
    · cases hfree
    · exact hfree.symm
  | assigned mode lockedMissions lockedItems now mission haction hselected =>
    subst haction
    obtain rfl := (Db.item?_eq_some hitem).2
    have hlaunch := (assigned_run h hselected hitem hrow rfl).2
    obtain ⟨-, rfl | ⟨record, hrecord, hkey, -⟩⟩ := hc
    · rfl
    · exact absurd ⟨record, hrecord, hkey⟩ (hok _ hselected hlaunch)

theorem linking_kept (hk : s.db.keys.Distinct) (hids : (s.starts.map (·.id)).Nodup) (hl : Launches s) (hone : OneSource s)
    (hkeep : keepsLink s action) (h : step s action = some s') {itemId : Nat} {runId : RunId} (hc : s.db.created itemId runId)
    (hlinking : linking s itemId runId) : s'.db.records? itemId runId ∨ linking s' itemId runId := by
  obtain ⟨call, hcall, rfl, jobId, hpc⟩ := hlinking
  have hstays : call ∈ s'.starts → linking s' call.itemId runId := fun hin => ⟨call, hin, rfl, jobId, hpc⟩
  rcases starts_cases h with ⟨hsame, -⟩ | ⟨_, _, _, _, _, _, -, -, hnew, -⟩ | ⟨moved, hmoved, hmove, -⟩
  · exact .inr (hstays (hsame ▸ hcall))
  · exact .inr (hstays (hnew ▸ List.mem_append_left _ hcall))
  · by_cases heq : call = moved
    · subst heq
      cases hmove with
      | created _ _ _ _ _ _ hlaunch => rw [hpc] at hlaunch; cases hlaunch
      | refused _ _ _ _ hlaunch => rw [hpc] at hlaunch; cases hlaunch
      | released _ hrelease => rw [hpc] at hrelease; cases hrelease
      | linked now _ _ hpc' hlink =>
        rw [hpc] at hpc'
        cases hpc'
        obtain ⟨item, hitem, hid, -, -, hitems⟩ := linkItem_ok hlink
        refine .inl ⟨item.launched jobId runId, ?_, rfl⟩
        have hitem? : s.db.item? (item.launched jobId runId).id = some item := item?_of_mem hk hitem
        unfold Db.item?
        rw [hitems, ← hid]
        exact Db.item?_writeItem_self (item.launched jobId runId) hitem?
      | unlinked now _ _ problem hpc' hlink =>
        -- the item would have to record a run made for it, and there is no other
        rw [hpc] at hpc'
        cases hpc'
        obtain ⟨home, hhome, -⟩ := hl.calls call hcall
        have hfree : ∀ item, s.db.item? call.itemId = some item → item.runId = none ∨ item.runId = some runId := by
          intro item hitem
          cases hrun : item.runId with
          | none => exact .inl rfl
          | some other => exact .inr (congrArg some (created_unique hl hone (hl.items _ item hitem other hrun) hc))
        obtain ⟨db', hdb'⟩ := linkItem_of_free hk hhome hfree
        rw [hdb'] at hlink
        cases hlink
      | crashed hsame hdrop =>
        rcases hkeep call hcall rfl (jobId, runId) (by rw [hpc]; rfl) with ⟨item, hitem, hid, hrun⟩ | ⟨other, hother, hne, hof, htarget⟩
        · refine .inl ⟨item, ?_, hrun⟩
          rw [hsame, ← hid]
          exact item?_of_mem hk hitem
        · refine .inr ⟨other, ?_, hof, jobId, ?_⟩
          · rw [hdrop]
            exact mem_dropStart.mpr ⟨hother, hne⟩
          · cases hotherPc : other.pc <;> rw [hotherPc] at htarget <;> cases htarget
            rfl
    · exact .inr (hstays (hmove.others hids hmoved hcall heq))

theorem Recorded.step (hk : s.db.keys.Distinct) (hk' : s'.db.keys.Distinct) (hids : (s.starts.map (·.id)).Nodup)
    (hl : Launches s) (hone : OneSource s) (hs : Recorded s) (hok : oneLauncher s action) (hkeep : keepsLink s action)
    (h : Jarvis.Missions.step s action = some s') : Recorded s' := by
  intro itemId runId hc
  rcases created_step hk hk' hl h hc with hc | hdone
  · rcases hs itemId runId hc with hrec | hlinking
    · exact .inl (records?_kept hk hok h hc hrec)
    · exact linking_kept hk hids hl hone hkeep h hc hlinking
  · exact hdone

/-! ## Runs of the system -/

theorem reach_oneSource {versions : List Nat} (h : ReachIf step oneLauncher (Sys.init versions) s) : OneSource s := by
  refine h.invariant_with (fun s => s.db.keys.Distinct ∧ Launches s) OneSource
    (fun _ hr => ⟨reach_distinct hr, reach_launches hr⟩) ?_ ?_
  · rintro itemId ⟨record, hrecord, -⟩
    cases hrecord
  · exact fun _ _ _ hi hs hok hstep => hs.step hi.1 (step_distinct hi.1 hstep) hi.2 hok hstep

/-- In a run in which the scheduler and `create_job` do not both make a run for an item, at most one
    run is made for it. If moreover no call is lost between `create_job` and its link, the item
    records the run, or a call is about to make it do so. -/
theorem single_run {versions : List Nat} (h : ReachIf step oneLauncher (Sys.init versions) s) :
    (∀ itemId a b, s.db.created itemId a → s.db.created itemId b → a = b) ∧
      (ReachIf step (fun s action => oneLauncher s action ∧ keepsLink s action) (Sys.init versions) s →
        ∀ itemId runId, s.db.created itemId runId → s.db.records? itemId runId ∨ linking s itemId runId) := by
  refine ⟨fun itemId a b => created_unique (reach_launches h) (reach_oneSource h), fun hkeep => ?_⟩
  refine hkeep.invariant_with (fun s => s.db.keys.Distinct ∧ (s.starts.map (·.id)).Nodup ∧ Launches s ∧ OneSource s) Recorded
    (fun _ hr => ⟨reach_distinct hr, (reach_startIds hr).nodup, reach_launches hr, reach_oneSource (hr.mono fun _ _ hok => hok.1)⟩)
    ?_ ?_
  · rintro itemId runId ⟨hrun, -⟩
    cases hrun
  · intro s action s' hi hs hok hstep
    exact hs.step hi.1 (step_distinct hi.1 hstep) hi.2.1 hi.2.2.1 hi.2.2.2 hok.1 hok.2 hstep

/-- As `planned`, for a mission and a team with the default limits on time: items 5 and 6 are ready. -/
def roomy : List Action :=
  [.createMission { sampleMission with resourceLimits := { maxActiveJobs := 2 } } { sampleTeam with maxExecutionSeconds := 14400 } 0,
    .createMessage 0 "go" 1 false "message" 0] ++ callOf 0 1 0 ++ answerOf 0 0 ++ [.apply 0 1]

/-- The owner starts the first item and the job is created. -/
def startedFirst : List Action := roomy ++ [.startItem 0 5 3 2, .createJob 1 true true]

/-- Before the call links its run the scheduler selects the item, and the call is refused; or the
    call is lost, and the item records no run. -/
theorem two_runs :
    (∃ s, Reach step (Sys.init [7]) s ∧ s.starts = [] ∧ s.db.created 5 (.fresh 9) ∧ s.db.created 5 (.assignment 5) ∧
      ¬ s.db.records? 5 (.fresh 9)) ∧
    ∃ s, Reach step (Sys.init [7]) s ∧ s.starts = [] ∧ s.db.created 5 (.fresh 9) ∧ ¬ s.db.records? 5 (.fresh 9) := by
  constructor
  · let actions := startedFirst ++ [.dispatchReady .real [] [] 3, .linkItem 1 4]
    have hrun : (run step (Sys.init [7]) actions).any (fun s => s.starts = [] ∧ s.db.created 5 (.fresh 9) ∧
        s.db.created 5 (.assignment 5) ∧ ¬ s.db.records? 5 (.fresh 9)) = true := by decide +kernel
    obtain ⟨s, hs, htwo⟩ := (Option.any_eq_true _ _).mp hrun
    exact ⟨s, run_reach actions hs, of_decide_eq_true htwo⟩
  · let actions := startedFirst ++ [.crashStart 1]
    have hrun : (run step (Sys.init [7]) actions).any (fun s => s.starts = [] ∧ s.db.created 5 (.fresh 9) ∧
        ¬ s.db.records? 5 (.fresh 9)) = true := by decide +kernel
    obtain ⟨s, hs, hlost⟩ := (Option.any_eq_true _ _).mp hrun
    exact ⟨s, run_reach actions hs, of_decide_eq_true hlost⟩

/-- A second call of the item gets the first one's run and links it when the first is lost; the
    scheduler takes the other item. -/
theorem single_run_repeated :
    ∃ s, ReachIf step oneLauncher (Sys.init [7]) s ∧ s.db.created 6 (.assignment 6) ∧ s.db.created 5 (.fresh 9) ∧
      (∀ run, s.db.created 5 run → run = .fresh 9) ∧ (s.db.records? 5 (.fresh 9) ∨ linking s 5 (.fresh 9)) := by
  let actions := startedFirst ++ [.startItem 0 5 3 2, .createJob 2 true true, .crashStart 1, .linkItem 2 4,
    .dispatchReady .real [] [] 5]
  have hrun : (runIf step (fun s action => oneLauncher s action ∧ keepsLink s action) (Sys.init [7]) actions).any (fun s =>
      s.db.created 6 (.assignment 6) ∧ s.db.created 5 (.fresh 9)) = true := by decide +kernel
  obtain ⟨s, hs, hend⟩ := (Option.any_eq_true _ _).mp hrun
  obtain ⟨hsecond, hfirst⟩ := of_decide_eq_true hend
  have hboth := runIf_reachIf actions hs
  have hreach : ReachIf step oneLauncher (Sys.init [7]) s := hboth.mono fun _ _ hok => hok.1
  exact ⟨s, hreach, hsecond, hfirst, fun run hc => (single_run hreach).1 5 run _ hc hfirst, (single_run hreach).2 hboth 5 _ hfirst⟩

end Jarvis.Missions
