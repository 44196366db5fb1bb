/-
  Jarvis.Missions.Acceptance — work items follow their runs.

  `reconcile_items` looks at started items and at the run an item records. Once it has made an
  item blocked, a requeue or a retry that completes the item's job no longer reaches the item
  (`completion_lost`): the item is not started any more, and a retry's run is not the one it
  records. In runs in which the latest run of a job completes only while the job's item is
  started with it, an item is accepted from the pass after the completion on
  (`items_follow_runs`).
-/
import Jarvis.Missions.Starts
import Jarvis.Missions.Turns

namespace Jarvis.Missions

open Jarvis.Runtime (RunStatus DesiredState Mode)
open Jarvis.Steps

/-- No run of the job has a larger number. -/
def Db.latest (db : Db) (run : RunRow) : Prop := ∀ other ∈ db.runs, other.jobId = run.jobId → other.runNumber ≤ run.runNumber

instance (db : Db) (run : RunRow) : Decidable (db.latest run) := by unfold Db.latest; infer_instance

/-- The latest run of the item's job has completed. -/
def Db.jobCompleted (db : Db) (item : WorkItemRow) : Prop :=
  ∃ run ∈ db.runs, item.jobId = some run.jobId ∧ db.latest run ∧ run.status = .completed

instance (db : Db) (item : WorkItemRow) : Decidable (db.jobCompleted item) := by unfold Db.jobCompleted; infer_instance

/-- The item records a run that has completed. -/
def hasCompleted (db : Db) (item : WorkItemRow) : Prop := (itemRun db item).any (·.status = .completed) = true

instance (db : Db) (item : WorkItemRow) : Decidable (hasCompleted db item) := by unfold hasCompleted; infer_instance

/-- A job's latest run completes while the job's item is started with it, or with a run that has
    completed; an item is linked before it is accepted, and to the completed run if there is one. -/
def completesItems (s : Sys) : Action → Prop
  | .executeRun id status _ _ =>
    status = .completed → ∀ run ∈ s.db.runs, run.id = id → s.db.latest run → ∀ item ∈ s.db.items, item.jobId = some run.jobId →
      item.lifecycle = .accepted ∨ (item.lifecycle = .started ∧ (item.runId = some id ∨ hasCompleted s.db item))
  | .linkItem id _ =>
    ∀ call ∈ s.starts, call.id = id → ∀ target ∈ call.pc.target, ∀ item ∈ s.db.items, item.id = call.itemId →
      (item.runId = none ∨ item.runId = some target.2) →
      item.lifecycle ≠ .accepted ∧
        ∀ run ∈ s.db.runs, run.jobId = target.1 → s.db.latest run → run.status = .completed →
          (s.db.run? target.2).any (·.status = .completed) = true
  | _ => True

instance (s : Sys) (action : Action) : Decidable (completesItems s action) := by
  induction action using Action.casesOn <;> dsimp only [completesItems] <;> infer_instance

/-! ## Runs -/

section Runs

variable {s s' : Sys} {action : Action}

/-- A run that has completed stays so. -/
theorem run_completed_kept (hk : s.db.keys.Distinct) (h : step s action = some s') {id : RunId}
    (hdone : (s.db.run? id).any (·.status = .completed) = true) : (s'.db.run? id).any (·.status = .completed) = true := by
  obtain ⟨run, hrun, hstatus⟩ := (Option.any_eq_true _ _).mp hdone
  have hstatus : run.status = .completed := of_decide_eq_true hstatus
  obtain ⟨row, hrow, hmove⟩ := (run_moves hk h id).1 run hrun
  refine (Option.any_eq_true _ _).mpr ⟨row, hrow, decide_eq_true ?_⟩
  cases hmove with
  | kept _ hsame => exact hsame.trans hstatus
  | executed _ _ _ _ _ hterminal =>
    unfold RunRow.terminal at hterminal
    rw [hstatus] at hterminal
    cases hterminal
  | requeued _ _ hblocked =>
    rw [hstatus] at hblocked
    cases hblocked

theorem hasCompleted_iff {db : Db} {item : WorkItemRow} :
    hasCompleted db item ↔ ∃ id, item.runId = some id ∧ (db.run? id).any (·.status = .completed) = true := by
  unfold hasCompleted itemRun
  cases item.runId with
  | none => simp
  | some id => simp

theorem hasCompleted_kept (hk : s.db.keys.Distinct) (h : step s action = some s') {item row : WorkItemRow}
    (hrun : row.runId = item.runId) (hdone : hasCompleted s.db item) : hasCompleted s'.db row := by
  obtain ⟨id, hid, hcompleted⟩ := hasCompleted_iff.mp hdone
  exact hasCompleted_iff.mpr ⟨id, hrun.trans hid, run_completed_kept hk h hcompleted⟩

/-- A run that is the latest after an action was the latest before, if it was there. -/
theorem latest_before (hk : s.db.keys.Distinct) (h : step s action = some s') {run row : RunRow} (hsame : run.SameRun row)
    (hlatest : s'.db.latest row) : s.db.latest run := by
  intro other hother hjob
  obtain ⟨other', hother', hmove⟩ := (run_moves hk h other.id).1 other (run?_of_mem hk hother)
  obtain ⟨-, hjob', hnumber', -⟩ := runMove_same hmove
  obtain ⟨-, hrowJob, hnumber, -⟩ := hsame
  have hle := hlatest other' (Db.run?_eq_some hother').1 (by rw [hjob', hjob, hrowJob])
  rw [hnumber', hnumber] at hle
  exact hle

end Runs

/-! ## The invariant -/

/-- The item is accepted, or will be by the next pass. -/
def Accepting (db : Db) (item : WorkItemRow) : Prop :=
  item.lifecycle = .accepted ∨ (item.lifecycle = .started ∧ hasCompleted db item)

structure Following (s : Sys) : Prop where
  /-- A job that the scheduler assigned has its item. -/
  assigned : ∀ run ∈ s.db.runs, ∀ id, run.jobId = .assignment id →
    ∃ item, s.db.item? id = some item ∧ ¬ item.lifecycle.unstarted
  accepting : ∀ id item, s.db.item? id = some item → s.db.jobCompleted item → Accepting s.db item

section Step

variable {s s' : Sys} {action : Action}

theorem Accepting.not_unstarted {db : Db} {item : WorkItemRow} (h : Accepting db item) : ¬ item.lifecycle.unstarted := by
  rintro (hlife | hlife) <;> obtain h | ⟨h, -⟩ := h <;> rw [hlife] at h <;> cases h

/-- An item that has been started is never unstarted again. -/
theorem not_unstarted_kept (hk : s.db.keys.Distinct) (h : step s action = some s') {id : Nat} {item : WorkItemRow}
    (hitem : s.db.item? id = some item) (hstarted : ¬ item.lifecycle.unstarted) :
    ∃ row, s'.db.item? id = some row ∧ ¬ row.lifecycle.unstarted := by
  obtain ⟨row, hrow, hmove⟩ := (item_moves hk h id).1 item hitem
  refine ⟨row, hrow, ?_⟩
  cases hmove with
  | kept _ hlife => rwa [hlife]
  | planned _ hopen => exact absurd hopen hstarted
  | settled run _ _ _ _ hlife =>
    rw [hlife]
    rintro (hopen | hopen) <;> cases hstatus : run.status <;> rw [hstatus] at hopen <;> cases hopen
  | linked => rintro (hopen | hopen) <;> cases hopen
  | assigned => rintro (hopen | hopen) <;> cases hopen

theorem Following.assigned_step (hk : s.db.keys.Distinct) (hk' : s'.db.keys.Distinct) (hs : Following s)
    (h : step s action = some s') : ∀ run ∈ s'.db.runs, ∀ id, run.jobId = .assignment id →
    ∃ item, s'.db.item? id = some item ∧ ¬ item.lifecycle.unstarted := by
  intro run hrun id hjob
  have hrun? := run?_of_mem hk' hrun
  have hold : ∀ old ∈ s.db.runs, old.jobId = .assignment id → ∃ item, s'.db.item? id = some item ∧ ¬ item.lifecycle.unstarted := by
    intro old hold holdJob
    obtain ⟨item, hitem, hstarted⟩ := hs.assigned old hold id holdJob
    exact not_unstarted_kept hk h hitem hstarted
  cases hbefore : s.db.run? run.id with
  | some old =>
    obtain ⟨row, hrow, hmove⟩ := (run_moves hk h run.id).1 old hbefore
    rw [hrun?] at hrow
    cases hrow
    exact hold old (Db.run?_eq_some hbefore).1 ((runMove_same hmove).2.1.symm.trans hjob)
  | none =>
    cases (run_moves hk h run.id).2 hbefore run hrun? with
    | created _ _ _ _ _ _ hfresh =>
      rw [hfresh] at hjob
      cases hjob
    | assigned mode lockedMissions lockedItems now _ _ haction =>
      subst haction
      obtain ⟨mission, item, -, hrow, hitem, -⟩ := assigned_item hk h hbefore hrun?
      rw [hrow] at hjob
      cases hjob
      exact ⟨_, hitem, by rintro (hopen | hopen) <;> cases hopen⟩
    | retried parent _ hparent _ hsame =>
      exact hold parent (Db.run?_eq_some hparent).1 (hsame.symm.trans hjob)

theorem Following.accepting_step (hk : s.db.keys.Distinct) (hk' : s'.db.keys.Distinct) (hs : Following s)
    (hok : completesItems s action) (h : step s action = some s') :
    ∀ id row, s'.db.item? id = some row → s'.db.jobCompleted row → Accepting s'.db row := by
  rintro id row hrow ⟨run, hrun, hjob, hlatest, hdone⟩
  cases hitem : s.db.item? id with
  | none =>
    obtain ⟨hnojob, -, -⟩ := (item_moves hk h id).2 hitem row hrow
    rw [hnojob] at hjob
    cases hjob
  | some item =>
    obtain ⟨row', hrow', hmove⟩ := (item_moves hk h id).1 item hitem
    rw [hrow] at hrow'
    cases hrow'
    have hrun? := run?_of_mem hk' hrun
    cases hbefore : s.db.run? run.id with
    | none =>
      have hqueued := newRun_queued ((run_moves hk h run.id).2 hbefore run hrun?)
      rw [hdone] at hqueued
      cases hqueued
    | some old =>
      obtain ⟨hold, -⟩ := Db.run?_eq_some hbefore
      obtain ⟨now', hnow', hrunMove⟩ := (run_moves hk h run.id).1 old hbefore
      rw [hrun?] at hnow'
      cases hnow'
      have hsame := runMove_same hrunMove
      have hlatestOld := latest_before hk h hsame hlatest
      cases hrunMove with
      | requeued _ _ _ hqueued =>
        rw [hdone] at hqueued
        cases hqueued
      | executed status desired now haction _ _ _ hstatus =>
        -- the action completes the run, so the items are as they were
        subst haction
        have hitems : s'.db.items = s.db.items := step_writes h .items (by simp [footprint])
        have hrow? : s.db.item? id = some row := by
          unfold Db.item? at hrow ⊢
          rwa [← hitems]
        rw [hitem] at hrow?
        cases hrow?
        have hcase := hok (hstatus.symm.trans hdone) old hold rfl hlatestOld row (Db.item?_eq_some hitem).1
          (hjob.trans (congrArg some hsame.2.1))
        obtain haccepted | ⟨hstarted, hown | hother⟩ := hcase
        · exact .inl haccepted
        · refine .inr ⟨hstarted, hasCompleted_iff.mpr ⟨_, hown, ?_⟩⟩
          rw [← hsame.1, hrun?]
          exact decide_eq_true hdone
        · exact .inr ⟨hstarted, hasCompleted_kept hk h rfl hother⟩
      | kept _ hstatus =>
        have hdoneOld : old.status = .completed := hstatus.symm.trans hdone
        have hinv : item.jobId = row.jobId → Accepting s.db item := fun heq =>
          hs.accepting id item hitem ⟨old, hold, heq.trans (hjob.trans (congrArg some hsame.2.1)), hlatestOld, hdoneOld⟩
        cases hmove with
        | kept hlink hlife =>
          obtain hacc | ⟨hstarted, hcompleted⟩ := hinv hlink.2.2.1.symm
          · exact .inl (hlife.trans hacc)
          · exact .inr ⟨hlife.trans hstarted, hasCompleted_kept hk h hlink.2.2.2 hcompleted⟩
        | planned hlink hopen => exact absurd hopen (hinv hlink.2.2.1.symm).not_unstarted
        | settled ended hlink hstarted hended _ hlife =>
          obtain hacc | ⟨-, hcompleted⟩ := hinv hlink.2.2.1.symm
          · rw [hstarted] at hacc
            cases hacc
          · unfold hasCompleted at hcompleted
            rw [hended] at hcompleted
            have hcompleted : ended.status = .completed := of_decide_eq_true hcompleted
            rw [hcompleted] at hlife
            exact .inl hlife
        | linked call now jobId runId haction hcall hcallItem _ hpc hfree =>
          subst haction
          have htarget := (hok call hcall rfl (jobId, runId) (by rw [hpc]; rfl) item (Db.item?_eq_some hitem).1
            hcallItem.symm hfree).2 old hold (hsame.2.1.symm.trans (Option.some.inj hjob).symm) hlatestOld hdoneOld
          exact .inr ⟨rfl, hasCompleted_iff.mpr ⟨runId, rfl, run_completed_kept hk h htarget⟩⟩
        | assigned mode lockedMissions lockedItems now mission haction hselected =>
          obtain ⟨-, -, -, hready⟩ := selectedItem_mem hselected
          have hassignment : old.jobId = .assignment item.id := hsame.2.1.symm.trans (Option.some.inj hjob).symm
          obtain ⟨other, hother, hstarted⟩ := hs.assigned old hold _ hassignment
          rw [(Db.item?_eq_some hitem).2, hitem] at hother
          cases hother
          exact absurd (.inr hready) hstarted

theorem Following.step (hk : s.db.keys.Distinct) (hk' : s'.db.keys.Distinct) (hs : Following s) (hok : completesItems s action)
    (h : Jarvis.Missions.step s action = some s') : Following s' :=
  ⟨hs.assigned_step hk hk' h, hs.accepting_step hk hk' hok h⟩

theorem Following.init (versions : List Nat) : Following (Sys.init versions) :=
  ⟨by simp [Sys.init], by simp [Sys.init, Db.item?]⟩

/-- An accepted item stays accepted. -/
theorem accepted_kept (hk : s.db.keys.Distinct) (hok : completesItems s action) (h : step s action = some s') {id : Nat}
    {item : WorkItemRow} (hitem : s.db.item? id = some item) (haccepted : item.lifecycle = .accepted) :
    ∃ row, s'.db.item? id = some row ∧ row.lifecycle = .accepted := by
  obtain ⟨row, hrow, hmove⟩ := (item_moves hk h id).1 item hitem
  refine ⟨row, hrow, ?_⟩
  cases hmove with
  | kept _ hlife => exact hlife.trans haccepted
  | planned _ hopen => obtain hopen | hopen := hopen <;> rw [haccepted] at hopen <;> cases hopen
  | settled _ _ hstarted =>
    rw [haccepted] at hstarted
    cases hstarted
  | linked call now jobId runId haction hcall hcallItem _ hpc hfree =>
    subst haction
    have hne := (hok call hcall rfl (jobId, runId) (by rw [hpc]; rfl) item (Db.item?_eq_some hitem).1 hcallItem.symm hfree).1
    exact absurd haccepted hne
  | assigned _ _ _ _ _ _ hselected =>
    obtain ⟨-, -, -, hready⟩ := selectedItem_mem hselected
    rw [haccepted] at hready
    cases hready

end Step

/-! ## Runs of the system -/

theorem reach_following {versions : List Nat} {s : Sys} (h : ReachIf step completesItems (Sys.init versions) s) : Following s := by
  refine h.invariant_with (fun s => s.db.keys.Distinct) Following (fun _ hr => reach_distinct hr) (.init versions) ?_
  exact fun _ _ _ hk hs hok hstep => hs.step hk (step_distinct hk hstep) hok hstep

/-- In a run in which jobs complete through the runs their items record, an item is accepted from
    the pass after the completion of its job's latest run on, and what that pass leaves pending
    waits for an item that has not been accepted. -/
theorem items_follow_runs {versions : List Nat} {s s' : Sys} {now : Nat}
    (h : ReachIf step completesItems (Sys.init versions) s) (hpass : step s (.reconcileItems now) = some s') :
    (∀ item ∈ s.db.items, s.db.jobCompleted item → ∀ t, ReachIf step completesItems s' t →
      ∃ row, t.db.item? item.id = some row ∧ row.lifecycle = .accepted) ∧
      ∀ item ∈ s'.db.items, item.lifecycle = .pending → dependsOnIncomplete s'.db item.id = true := by
  have hk := reach_distinct h
  have hok : completesItems s (.reconcileItems now) := trivial
  have hs' : ReachIf step completesItems (Sys.init versions) s' := .step _ h hok hpass
  refine ⟨fun item hitem hjobDone t ht => ?_, fun row hrow hpending => ?_⟩
  · induction ht with
    | init =>
      obtain hacc | ⟨hstarted, hcompleted⟩ := (reach_following h).accepting item.id item (item?_of_mem hk hitem) hjobDone
      · exact accepted_kept hk hok hpass (item?_of_mem hk hitem) hacc
      · obtain ⟨ended, hended, hstatus⟩ := (Option.any_eq_true _ _).mp hcompleted
        have hstatus : ended.status = .completed := of_decide_eq_true hstatus
        cases hpass
        obtain ⟨row, cursor, hpassed, hrow⟩ := reconcileItems_item? hk now hitem
        refine ⟨_, hrow, ?_⟩
        cases hpassed with
        | settled other _ hother =>
          rw [hended] at hother
          cases hother
          show settledLifecycle ended.status = .accepted
          rw [hstatus]
          rfl
        | readied hpending =>
          rw [hstarted] at hpending
          cases hpending
        | kept hgoes =>
          have hterminal := hgoes hstarted ended hended
          unfold RunRow.terminal at hterminal
          rw [hstatus] at hterminal
          cases hterminal
    | step action hr hok hstep ih =>
      obtain ⟨row, hrow, hacc⟩ := ih
      exact accepted_kept (reach_distinct (hs'.trans hr)) hok hstep hrow hacc
  · cases hpass
    have hrow? := item?_of_mem (reach_distinct hs') hrow
    cases hitem : s.db.item? row.id with
    | none =>
      rw [show (reconcileItems s.db now).item? row.id = none from reconcileItems_item?_none hk now hitem] at hrow?
      cases hrow?
    | some item =>
      obtain ⟨hmem, hid⟩ := Db.item?_eq_some hitem
      obtain ⟨after, cursor, hpassed, hafter⟩ := reconcileItems_item? hk now hmem
      rw [hid] at hafter
      rw [show (reconcileItems s.db now).item? row.id = _ from hafter] at hrow?
      cases hrow?
      cases hpassed with
      | settled run =>
        have hsettled := settledLifecycle_settled run.status
        rw [show settledLifecycle run.status = .pending from hpending] at hsettled
        obtain h | h | h := hsettled <;> cases h
      | readied => cases hpending
      | kept _ hwaits => exact hwaits hpending

/-! ## A run that blocks -/

/-- The first item is dispatched and its run blocks. -/
def blockedRun : List Action :=
  planned ++ [.dispatchReady .real [] [] 2, .executeRun (.assignment 5) .running .running 3,
    .executeRun (.assignment 5) .blocked .running 4]

/-- A run completes. -/
def completion (id : RunId) : List Action := [.executeRun id .running .running 6, .executeRun id .completed .running 7]

/-- A pass makes the item blocked. After `recovery` the latest run of its job is completed, and
    another pass leaves the item blocked. -/
def CompletionLost (recovery : List Action) : Prop :=
  ∃ s s', Reach step (Sys.init [7]) s ∧ run step (Sys.init [7]) (blockedRun ++ [.reconcileItems 5] ++ recovery) = some s ∧
    step s (.reconcileItems 8) = some s' ∧ ∃ item ∈ s.db.items, s.db.jobCompleted item ∧
      ∃ row, s'.db.item? item.id = some row ∧ row.lifecycle = .blocked

theorem completionLost_of_run {recovery : List Action}
    (h : (run step (Sys.init [7]) (blockedRun ++ [.reconcileItems 5] ++ recovery)).any (fun s =>
      (step s (.reconcileItems 8)).any fun s' => s.db.items.any fun item => s.db.jobCompleted item ∧
        (s'.db.item? item.id).any fun row => row.lifecycle = .blocked) = true) : CompletionLost recovery := by
  obtain ⟨s, hs, hpass⟩ := (Option.any_eq_true _ _).mp h
  obtain ⟨s', hs', hitems⟩ := (Option.any_eq_true _ _).mp hpass
  obtain ⟨item, hitem, hend⟩ := List.any_eq_true.mp hitems
  obtain ⟨hdone, hrow⟩ := of_decide_eq_true hend
  obtain ⟨row, hrow, hblocked⟩ := (Option.any_eq_true _ _).mp hrow
  exact ⟨s, s', run_reach _ hs, hs, hs', item, hitem, hdone, row, hrow, of_decide_eq_true hblocked⟩

/-- The run is requeued and completes, or a successor of the run does. -/
theorem completion_lost :
    CompletionLost ([.requestReconciliation (.assignment 5)] ++ completion (.assignment 5)) ∧
      CompletionLost ([.retryRun (.assignment 5)] ++ completion (.fresh 9)) :=
  ⟨completionLost_of_run (by decide +kernel), completionLost_of_run (by decide +kernel)⟩

/-- The run is requeued and completes before a pass sees it blocked. -/
theorem items_follow_runs_requeued :
    ∃ s s' item, ReachIf step completesItems (Sys.init [7]) s ∧ step s (.reconcileItems 8) = some s' ∧ item ∈ s.db.items ∧
      s.db.jobCompleted item ∧ ∀ t, ReachIf step completesItems s' t →
        ∃ row, t.db.item? item.id = some row ∧ row.lifecycle = .accepted := by
  let actions := blockedRun ++ [.requestReconciliation (.assignment 5)] ++ completion (.assignment 5)
  have hrun : (runIf step completesItems (Sys.init [7]) actions).any (fun s =>
      (step s (.reconcileItems 8)).isSome ∧ s.db.items.any fun item => s.db.jobCompleted item) = true := by decide +kernel
  obtain ⟨s, hs, hend⟩ := (Option.any_eq_true _ _).mp hrun
  obtain ⟨hpass, hitems⟩ := of_decide_eq_true hend
  obtain ⟨s', hs'⟩ := Option.isSome_iff_exists.mp hpass
  obtain ⟨item, hitem, hdone⟩ := List.any_eq_true.mp hitems
  have hdone := of_decide_eq_true hdone
  have hreach := runIf_reachIf actions hs
  exact ⟨s, s', item, hreach, hs', hitem, hdone, (items_follow_runs hreach hs').1 item hitem hdone⟩

end Jarvis.Missions
