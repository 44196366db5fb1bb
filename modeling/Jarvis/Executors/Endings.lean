/-
  Jarvis.Executors.Endings — what becomes of the executions of claimed runs.

  `execute` drops an execution that raises `StaleExecutorError` and ends the run as blocked on
  any other exception. A slot lease lasts as long as the run's: an executor that takes over
  from one that crashed in `dispatch` finds the lease of the prepared invocation expired, the
  first renewal in `inspect` raises, and the execution is dropped although its run fence is
  accepted. Nothing is recorded, so the run is claimed and dropped again
  (`expired_slot_drops_executors`).

  When no transaction is taken up on a slot or integration lease that is lost while the run
  fence is accepted (`Keeps`), the exception means what it says: an execution that is dropped
  has lost its run, and every other failure is recorded (`stale_executor_means_lost`).
-/
import Jarvis.Executors.Authority

namespace Jarvis.Executors

open Steps
open Jarvis.Runtime (RunFence RecoveryRow RunStatus)
open Jarvis.Runtime.Ownership (fencedAccepts saverAccepts leaseValid runOf unreleased leaseValid_spec)
open Workflows (FailureClass)

/-! ## The adapters and the ledger -/

namespace Adapter

theorem safe_inspect (x : Executor) (identity : Identity) (adapter : Adapter) : Safe (adapter.inspect x identity) := by
  cases adapter with
  | worker spec => exact WorkerEffectAdapter.safe_inspect x identity
  | verification binding => exact VerificationEffectAdapter.safe_inspect x identity
  | external idempotent =>
    exact (safe_service x).bind fun _ => (safe_ask _).bind fun r => safe_attempt r

theorem safe_dispatch (x : Executor) (kind : Workflows.WorkflowNodeType) (identity : Identity) (adapter : Adapter) :
    Safe (adapter.dispatch x kind identity) := by
  cases adapter with
  | worker spec => exact WorkerEffectAdapter.safe_dispatch x spec identity
  | verification binding => exact VerificationEffectAdapter.safe_dispatch x binding kind identity
  | external idempotent => exact safe_service x

theorem safe_cancel (x : Executor) (identity : Identity) (adapter : Adapter) : Safe (adapter.cancel x identity) := by
  cases adapter with
  | worker spec => exact WorkerEffectAdapter.safe_cancel x identity
  | verification binding => exact VerificationEffectAdapter.safe_cancel x identity
  | external idempotent => exact safe_service x

end Adapter

namespace EffectLedger

theorem safe_record (x : Executor) (effect : Nat) (status : Runtime.Effects.EffectStatus) (external : Bool)
    (result : Option Outcome) : Safe (record x effect status external result) := by
  refine Safe.bind (safe_fenced fun s _ => ?_) fun cancelled => ?_
  · split
    · exact nofun
    · exact ⟨rfl, rfl⟩
  · split
    · exact safe_raise nofun
    · exact safe_pure _

theorem sound_prepared {x : Executor} {s t : Session} {effect : EffectRow}
    (ht : t.rows.nodes = s.rows.nodes ∧ t.rows.failures = s.rows.failures) : Sound s (prepared x t effect) := by
  unfold prepared
  split
  · exact ht
  split
  · exact nofun
  · exact ht

theorem safe_prepare (x : Executor) (context : NodeContext) (request : EffectRequest) : Safe (prepare x context request) := by
  refine safe_fenced fun s _ => ?_
  split
  · split
    · exact nofun
    · exact sound_prepared ⟨rfl, rfl⟩
  split
  · exact nofun
  · apply sound_prepared
    split <;> exact ⟨rfl, rfl⟩

theorem safe_pollCancel (x : Executor) (effect : Nat) : Safe (pollCancel x effect) := by
  refine safe_fenced fun s _ => ?_
  split
  · exact nofun
  split <;> exact ⟨rfl, rfl⟩

/-- A record, and then the exception that tells of it. -/
theorem safe_recordRaise {α : Type} (x : Executor) (effect : Nat) (status : Runtime.Effects.EffectStatus) {e : Raised}
    (he : e.Authorized) : Safe (do
      record x effect status false none
      raise e : Program α) := (safe_record x effect status false none).bind fun _ => safe_raise he

theorem safe_observed (x : Executor) (effect : Nat) (cancel : Bool) (observation : Runtime.Effects.Observation Outcome) :
    Safe (observed x effect cancel observation) := by
  cases observation with
  | succeeded result =>
    show Safe (if cancel then _ else _)
    split
    · exact safe_recordRaise x effect _ nofun
    cases result with
    | none => exact safe_raise nofun
    | some outcome =>
      refine (safe_ask _).bind fun (valid : Bool) => ?_
      split
      · exact safe_raise nofun
      · exact (safe_record x effect _ _ _).bind fun _ => safe_pure _
  | cancelled => exact safe_recordRaise x effect _ nofun
  | unknown => exact safe_recordRaise x effect _ nofun
  | absent => exact safe_recordRaise x effect _ nofun
  | running => exact safe_pure _

theorem safe_poll (x : Executor) (adapter : Adapter) (identity : Identity) (effect : Nat) : Safe (poll x adapter identity effect) := by
  refine Safe.loop ((safe_pollCancel x effect).bind fun cancel => ?_) _
  split
  · exact (adapter.safe_cancel x identity).bind fun _ => (adapter.safe_inspect x identity).bind (safe_observed x effect cancel)
  · exact (adapter.safe_inspect x identity).bind (safe_observed x effect cancel)

theorem safe_settle (x : Executor) (adapter : Adapter) (context : NodeContext) (identity : Identity) (effect : Nat)
    (dispatched : Bool) : Safe (settle x adapter context identity effect dispatched) := by
  refine (adapter.safe_inspect x identity).bind fun observed => ?_
  split
  · exact safe_recordRaise x effect _ nofun
  · split
    · exact safe_recordRaise x effect _ nofun
    · exact (safe_record x effect _ _ _).bind fun _ => (adapter.safe_dispatch x _ identity).bind fun _ =>
        safe_poll x adapter identity effect
  · exact safe_poll x adapter identity effect

theorem safe_handler (x : Executor) (adapter : Adapter) (context : NodeContext) : Safe (handler x adapter context) := by
  refine (safe_ask _).bind fun request => (safe_prepare x context request).bind fun prepared => ?_
  cases prepared with
  | recorded outcome => exact safe_pure _
  | effect effect dispatched => exact (safe_settle x adapter context _ effect dispatched).bind fun _ => safe_pure _

theorem safe_cancelEffect (x : Executor) (effect : EffectRow) : Safe (cancelEffect x effect) := by
  unfold cancelEffect
  split
  · exact safe_record x _ _ _ _
  refine (safe_ask .pendingAdapter).bind fun (adapter : Option Adapter) => ?_
  cases adapter with
  | none => exact safe_raise nofun
  | some adapter =>
    refine Safe.loop ((safe_record x _ _ _ _).bind fun _ => (adapter.safe_cancel x _).bind fun _ => ?_) _
    refine (adapter.safe_inspect x _).bind fun observed => ?_
    cases observed with
    | succeeded result => exact (safe_record x _ _ _ _).bind fun _ => safe_pure _
    | cancelled => exact (safe_record x _ _ _ _).bind fun _ => safe_pure _
    | absent => exact (safe_record x _ _ _ _).bind fun _ => safe_pure _
    | unknown => exact safe_recordRaise x _ _ nofun
    | running => exact safe_pure _

theorem safe_cancelEffects (x : Executor) : ∀ effects : List EffectRow, Safe (cancelEffects x effects)
  | [] => safe_pure _
  | effect :: rest => (safe_cancelEffect x effect).bind fun _ => safe_cancelEffects x rest

theorem safe_cancelPending (x : Executor) : Safe (cancelPending x) :=
  (safe_read x _).bind fun pending => safe_cancelEffects x pending

end EffectLedger

/-! ## The middleware -/

theorem Classified.writeNode {s : Session} {id : Nat} {f : NodeExecution → NodeExecution} (h : Classified s.rows)
    (hf : ∀ n, (f n).id = n.id ∧ (f n).result = n.result) : Classified (s.writeNode id f).rows := by
  intro n hn update hu hfail
  obtain ⟨old, hold, rfl⟩ := List.mem_map.mp hn
  have hkept : (if old.id = id then f old else old).id = old.id ∧ (if old.id = id then f old else old).result = old.result := by
    split
    · exact hf old
    · exact ⟨rfl, rfl⟩
  rw [hkept.2] at hu
  rw [hkept.1]
  exact h old hold update hu hfail

theorem Classified.addFailure {s : Session} (h : Classified s.rows) (id : Nat) (cls : FailureClass) :
    Classified (s.addFailure id cls).rows := by
  intro n hn update hu hfail
  obtain ⟨f, hf, hid⟩ := h n hn update hu hfail
  exact ⟨f, List.mem_append_left _ hf, hid⟩

namespace NodeRuntime

/-- What is waited for leaves the record as it is. -/
theorem wait_rows (s : Session) : (wait s).1.rows.nodes = s.rows.nodes ∧ (wait s).1.rows.failures = s.rows.failures := by
  unfold wait
  split
  · exact ⟨rfl, rfl⟩
  · split <;> exact ⟨rfl, rfl⟩

theorem classified_row {s : Session} {context : NodeContext} (h : Classified s.rows) : Classified (row s context).1.rows := by
  unfold row
  split
  · exact h
  · intro n hn update hu hfail
    rcases List.mem_append.mp hn with hn | hn
    · exact h n hn update hu hfail
    · cases List.mem_singleton.mp hn
      cases hu

theorem safe_enter (x : Executor) (context : NodeContext) : Safe (enter x context) := by
  refine safe_recording fun s _ => ?_
  split
  · exact ⟨fun h => h, trivial⟩
  have hwait : Classified s.rows → Classified (wait s).1.rows := fun h n hn => by
    rw [(wait_rows s).1] at hn
    rw [(wait_rows s).2]
    exact h n hn
  simp only
  split
  · exact ⟨fun h => (classified_row (hwait h)).writeNode fun n => ⟨rfl, rfl⟩, trivial⟩
  · exact ⟨fun h => classified_row (hwait h), trivial⟩

theorem safe_resume (x : Executor) (wait : Runtime.Wait) : Safe (resume x wait) := by
  refine (safe_ask .resumed).bind fun (resumed : Option Runtime.WaitId) => ?_
  cases resumed with
  | none => exact safe_raise nofun
  | some id =>
    show Safe (if id ≠ wait.id then _ else _)
    split
    · exact safe_raise nofun
    · exact safe_fenced fun s _ => ⟨rfl, rfl⟩

theorem safe_reportedChecks (update : Update) : Safe (reportedChecks update) := by
  unfold reportedChecks
  split
  · exact safe_pure _
  split
  · exact safe_raise nofun
  · exact safe_pure _

theorem safe_start (x : Executor) (node : Nat) : Safe (start x node) := by
  refine safe_recording fun s _ => ?_
  split
  · exact nofun
  · exact ⟨fun h => h.writeNode fun n => ⟨rfl, rfl⟩, trivial⟩

theorem safe_execute (x : Executor) (context : NodeContext) : Safe (execute x context) := by
  have hvalid : ∀ update : Update, Safe (do
      let valid : Bool ← ask .valid
      if !valid then raise .runtimeBlocked else pure update : Program Update) := fun update => by
    refine (safe_ask .valid).bind fun (valid : Bool) => ?_
    split
    · exact safe_raise nofun
    · exact safe_pure _
  unfold execute
  split
  · exact (EffectLedger.safe_handler x _ context).bind hvalid
  · exact (safe_service x).bind fun _ => (safe_ask _).bind fun r => (safe_attempt r).bind hvalid

theorem safe_classified (x : Executor) (node : Nat) (e : Raised) : Safe (classified x node e) := by
  refine Safe.bind (safe_recording fun s _ => ⟨fun h => h.addFailure node _, trivial⟩) fun _ => ?_
  split
  · exact safe_raise nofun
  · exact safe_pure _

theorem safe_guarded (x : Executor) (context : NodeContext) (node : Nat) : Safe (guarded x context node) := by
  refine (safe_execute x context).catch_ fun e he => ?_
  cases e with
  | stale lost => exact safe_raise he
  | interrupt => exact safe_raise nofun
  | cooperativeCancel => exact safe_pure _
  | _ => exact safe_classified x node _

/-- The row of a failed visit is written with its failure. -/
theorem classified_complete {s : Session} {node : Nat} {update : Update} {status : NodeStatus} (h : Classified s.rows)
    (hf : update.failureClass ≠ none → s.failed node = true) :
    Classified (s.writeNode node fun n => { n with status, result := some update }).rows := by
  intro n hn u hu hfail
  obtain ⟨old, hold, rfl⟩ := List.mem_map.mp hn
  by_cases hid : old.id = node
  · rw [if_pos hid] at hu ⊢
    cases hu
    obtain ⟨f, hmem, hnode⟩ := List.any_eq_true.mp (hf hfail)
    exact ⟨f, hmem, (of_decide_eq_true hnode).trans hid.symm⟩
  · rw [if_neg hid] at hu ⊢
    exact h old hold u hu hfail

theorem safe_complete (x : Executor) (node : Nat) (update : Update) : Safe (complete x node update) := by
  refine safe_recording fun s _ => ?_
  split
  · exact nofun
  refine ⟨fun h => ?_, trivial⟩
  generalize (if s.cancelled then ({ cancelled := true } : Update) else update) = update'
  cases hcls : update'.failureClass with
  | none => exact classified_complete (by simpa only [hcls] using h) fun hne => absurd hcls hne
  | some cls =>
    dsimp only
    split
    · rename_i hfailed
      exact classified_complete h fun _ => hfailed
    · exact classified_complete (h.addFailure node cls) fun _ => List.any_eq_true.mpr ⟨_, List.mem_append_right _ (.head _), by simp⟩

theorem safe_run (x : Executor) (context : NodeContext) (node : Nat) (cached : Option Update) : Safe (run x context node cached) := by
  cases cached with
  | some update => exact safe_reportedChecks update
  | none =>
    refine (safe_start x node).bind fun _ => (safe_guarded x context node).bind fun update => ?_
    exact (safe_complete x node update).bind safe_reportedChecks

theorem safe_wrap (x : Executor) (context : NodeContext) : Safe (wrap x context) := by
  refine (safe_enter x context).bind fun entry => ?_
  split
  · exact safe_pure _
  · exact safe_run x context _ _
  · refine (safe_resume x _).bind fun cancelled => ?_
    split
    · exact safe_pure _
    · exact safe_run x context _ _

theorem safe_route (x : Executor) (delay : Except External (Option Nat)) : Safe (route x delay) := by
  refine safe_fenced fun s _ => ?_
  split
  · rename_i e
    exact e.authorized
  · exact ⟨rfl, rfl⟩
  · exact ⟨rfl, rfl⟩

end NodeRuntime

/-! ## The executor -/

theorem fencedAccepts_saver {s : Runtime.Ownership.Sys} {f : RunFence} (h : fencedAccepts s f = true) : saverAccepts s f = true := by
  have hvalid : leaseValid s f = true := (Bool.and_eq_true_iff.mp h).1
  obtain ⟨run, l, hrun, hl, hterminal, howner, hgeneration, hnow⟩ := leaseValid_spec hvalid
  obtain ⟨hmem, hlrun, hreleased⟩ := Runtime.Ownership.unreleased_some hl
  have hid : run.id = f.run := by
    have := List.find?_some hrun
    simpa using this
  have hrow : ∃ r ∈ s.runs, r.id = f.run ∧ r.status.terminal = false :=
    ⟨run, List.mem_of_find?_eq_some hrun, hid, hterminal⟩
  refine List.any_eq_true.mpr ⟨l, hmem, ?_⟩
  simpa [hlrun, howner, hgeneration, hreleased, hnow] using hrow

/-- A checkpoint write is refused only if the run fence is. -/
theorem safe_checkpoint (x : Executor) : Safe x.checkpoint := by
  intro db hc _
  by_cases ha : saverAccepts db.own x.fence = true
  · simp only [ha, if_true]
    exact ⟨hc, trivial⟩
  · have hlost : fencedAccepts db.own x.fence = false := by
      by_contra h
      exact ha (fencedAccepts_saver (by simpa using h))
    simp only [ha, Bool.false_eq_true, if_false, hlost]
    exact ⟨hc, nofun⟩

theorem safe_runNode (x : Executor) (context : NodeContext) : Safe (runNode x context) := by
  refine Safe.catch_ ((NodeRuntime.safe_wrap x context).bind fun _ => safe_checkpoint x) fun e he => ?_
  cases e with
  | interrupt => exact safe_pure _
  | _ => exact safe_raise he

theorem safe_stream (x : Executor) : Safe (stream x) := by
  refine Safe.loop ((safe_ask .graph).bind fun (next : Superstep) => ?_) _
  cases next with
  | nodes contexts =>
    have hnodes : ∀ p ∈ contexts.map (runNode x), Safe p := by
      intro p hp
      obtain ⟨context, -, rfl⟩ := List.mem_map.mp hp
      exact safe_runNode x context
    exact Safe.bind (Coroutine.Meets.all hnodes) fun _ => safe_pure _
  | checkpoint => exact (safe_checkpoint x).bind fun _ => safe_pure _
  | route delay => exact (NodeRuntime.safe_route x delay).bind fun _ => safe_pure _
  | finished => exact safe_pure _

theorem Classified.moveNodes {s : Session} (h : Classified s.rows) (statuses : List NodeStatus) (status : NodeStatus) :
    Classified (s.moveNodes statuses status).rows := by
  intro n hn update hu hfail
  obtain ⟨old, hold, rfl⟩ := List.mem_map.mp hn
  split at hu
  all_goals
    split
    all_goals exact h old hold update hu hfail

theorem safe_begin (x : Executor) (preflight : Except External Unit) : Safe (begin_ x preflight) := by
  refine safe_fenced fun s _ => ?_
  split
  · rename_i e
    exact e.authorized
  · exact ⟨rfl, rfl⟩

theorem safe_pausedAgain (x : Executor) : Safe (pausedAgain x) := by
  refine safe_fenced fun s _ => ?_
  split
  · exact ⟨rfl, rfl⟩
  split
  · exact nofun
  · exact ⟨rfl, rfl⟩

theorem safe_project (x : Executor) (projection : Projection) : Safe (project x projection) := by
  refine safe_recording fun s _ => ⟨fun h => ?_, trivial⟩
  by_cases hi : projection.interrupted = true
  · simp only [hi, if_true]
    exact Classified.moveNodes (s := s.setStatus _) h _ _
  · simp only [hi, if_false, Bool.false_eq_true]
    exact h

theorem safe_execute_ (x : Executor) : Safe (execute_ x) := by
  have hrest : ∀ paused : Bool, Safe (if paused then pure () else do
      stream x
      let projection : Projection ← ask .projection
      project x projection : Program Unit) := fun paused => by
    split
    · exact safe_pure _
    · exact (safe_stream x).bind fun _ => (safe_ask .projection).bind fun projection => safe_project x projection
  have hsaved : Safe (do
      let saved : Bool ← ask .saved
      let paused ← if saved then pausedAgain x else pure false
      if paused then pure () else do
        stream x
        let projection : Projection ← ask .projection
        project x projection : Program Unit) := by
    refine (safe_ask .saved).bind fun (saved : Bool) => ?_
    split
    · exact (safe_pausedAgain x).bind hrest
    · exact hrest false
  refine (safe_ask .preflight).bind fun preflight => (safe_begin x preflight).bind fun cancelling => ?_
  refine (safe_service x).bind fun _ => ?_
  split
  · exact (EffectLedger.safe_cancelPending x).bind fun _ => hsaved
  · exact hsaved

/-- An execution that ended otherwise than by losing its run has left a record. -/
def Ending.Accounted : Ending → Prop
  | .finished => True
  | .blocked status => status = .blocked
  | .dropped lost => lost = true

/-- The blocking transaction raises nothing of its own. -/
theorem meets_block (x : Executor) : (block x).Meets (fun db => Classified db.rows) Holds Ending.Accounted (· = .stale true) :=
  meets_fenced rfl fun s _ => ⟨fun h => Classified.moveNodes (s := s.setStatus .blocked) h _ _, rfl⟩

theorem meets_execute (x : Executor) :
    (execute x).Meets (fun db => Classified db.rows) Holds Ending.Accounted (fun _ => False) := by
  have hrun : (do
      execute_ x
      pure .finished : Program Ending).Meets (fun db => Classified db.rows) Holds Ending.Accounted Raised.Authorized :=
    Coroutine.Meets.bind (safe_execute_ x) fun _ _ => trivial
  refine hrun.catch_ fun e he => ?_
  cases e with
  | stale lost =>
    cases lost with
    | true => exact rfl
    | false => exact absurd rfl he
  | _ =>
    refine (meets_block x).catch_ fun e he => ?_
    cases he
    exact rfl

/-! ## Every run -/

/-- What the next transaction of a task relies on. -/
def St.relied (s : St) (i : Nat) : Option (RunFence × Check) :=
  match s.tasks[i]? with
  | some ⟨_, .transaction check _ _⟩ => some check
  | _ => none

/-- No transaction is taken up on a slot or integration lease that is lost while the run fence
    is accepted. -/
def Keeps (s : St) : Act → Prop
  | .transact i => ∀ check, s.relied i = some check → Holds check s.db
  | _ => True

instance (s : St) (a : Act) : Decidable (Keeps s a) := by
  cases a with
  | transact i =>
    refine decidable_of_iff ((s.relied i).all fun check =>
      !fencedAccepts s.db.own check.1 || check.2.live s.db.rows check.1 s.db.own.now) ?_
    simp [Keeps, Holds, Option.all_eq_true, or_iff_not_imp_left]
  | _ => exact inferInstanceAs (Decidable True)

/-- What holds in every state of a run that keeps its leases. -/
structure Inv (s : St) : Prop where
  classified : Classified s.db.rows
  running : ∀ task ∈ s.tasks,
    task.program.Meets (fun db => Classified db.rows) Holds Ending.Accounted (fun _ => False)
  accounted : ∀ e ∈ s.ended, e.2.Accounted

theorem Inv.resume {s : St} (hi : Inv s) {i : Nat} {task : Task} {db : Db} {program : Program Ending} (hdb : Classified db.rows)
    (hp : program.Meets (fun db => Classified db.rows) Holds Ending.Accounted (fun _ => False)) : Inv (s.resume i task db program) := by
  have hset : Inv { s with db, tasks := s.tasks.set i { task with program } } :=
    { classified := hdb
      running := fun t ht => by
        rcases List.mem_or_eq_of_mem_set ht with ht | rfl
        · exact hi.running t ht
        · exact hp
      accounted := hi.accounted }
  cases program with
  | done ending =>
    exact
      { classified := hdb
        running := fun t ht => hi.running t (List.mem_of_mem_eraseIdx ht)
        accounted := fun e he => by
          rcases List.mem_cons.mp he with rfl | he
          · exact hp
          · exact hi.accounted e he }
  | raised e => exact hset
  | hanging => exact hset
  | transaction check update next => exact hset
  | ask q next => exact hset

theorem step_inv {s t : St} (a : Act) (hi : Inv s) (hk : Keeps s a) (h : step s a = some t) : Inv t := by
  cases a with
  | ownership act =>
    obtain ⟨own, -, rfl⟩ := Option.map_eq_some_iff.mp h
    exact ⟨hi.classified, hi.running, hi.accounted⟩
  | publish revision =>
    simp only [step] at h
    split at h <;> cases h
    exact ⟨hi.classified, hi.running, hi.accounted⟩
  | attempt attempt =>
    simp only [step] at h
    split at h <;> cases h
    exact ⟨hi.classified, hi.running, hi.accounted⟩
  | execute x =>
    simp only [step] at h
    split at h <;> cases h
    refine ⟨hi.classified, fun task ht => ?_, hi.accounted⟩
    rcases List.mem_append.mp ht with ht | ht
    · exact hi.running task ht
    · cases List.mem_singleton.mp ht
      exact meets_execute x
  | transact i =>
    obtain ⟨task, htask, h⟩ := Option.bind_eq_some_iff.mp h
    obtain ⟨x, program⟩ := task
    have hp := hi.running _ (List.mem_of_getElem? htask)
    cases program with
    | transaction check update next =>
      simp only at h
      split at h <;> cases h
      obtain ⟨hdb, hnext⟩ := hp s.db hi.classified (hk check (by simp only [St.relied, htask]))
      exact hi.resume hdb hnext
    | _ => cases h
  | answer i q r =>
    obtain ⟨task, htask, h⟩ := Option.bind_eq_some_iff.mp h
    obtain ⟨x, program⟩ := task
    have hp := hi.running _ (List.mem_of_getElem? htask)
    cases program with
    | ask q' next =>
      simp only at h
      split at h <;> cases h
      exact hi.resume hi.classified (hp _)
    | _ => cases h
  | giveBack x fence =>
    simp only [step] at h
    split at h
    · obtain ⟨r, hr, rfl⟩ := Option.map_eq_some_iff.mp h
      refine ⟨?_, hi.running, hi.accounted⟩
      have hok := Steps.toOption_ok hr
      unfold inSession at hok
      split at hok
      · split at hok
        · cases hok
          exact hi.classified
        · cases hok
      · cases hok
    · cases h
  | crash i =>
    simp only [step] at h
    split at h <;> cases h
    exact ⟨hi.classified, fun task ht => hi.running task (List.mem_of_mem_eraseIdx ht), hi.accounted⟩

theorem init_inv (recovery : Option RecoveryRow) : Inv (init recovery) where
  classified _ h := absurd h List.not_mem_nil
  running _ h := absurd h List.not_mem_nil
  accounted _ h := absurd h List.not_mem_nil

theorem keeping_inv {recovery : Option RecoveryRow} {s : St} (h : ReachIf step Keeps (init recovery) s) : Inv s :=
  h.invariant Inv (init_inv recovery) fun _ a _ hi hk hs => step_inv a hi hk hs

/-- As long as no transaction is taken up on a lost slot or integration lease under an accepted
    run fence, `StaleExecutorError` ends executions that have lost their run only. Any other
    failure ends the run as blocked, or its visit with a row of `failures`. -/
theorem stale_executor_means_lost {recovery : Option RecoveryRow} {s : St} (h : ReachIf step Keeps (init recovery) s) :
    (∀ e ∈ s.ended, (∀ lost, e.2 = .dropped lost → lost = true) ∧ (∀ status, e.2 = .blocked status → status = .blocked)) ∧
    ∀ n ∈ s.db.rows.nodes, ∀ update, n.result = some update → update.failureClass ≠ none →
      ∃ f ∈ s.db.rows.failures, f.nodeExecution = n.id := by
  have hi := keeping_inv h
  refine ⟨fun e he => ?_, hi.classified⟩
  have hacc := hi.accounted e he
  constructor
  · intro lost hlost
    rw [hlost] at hacc
    exact hacc
  · intro status hstatus
    rw [hstatus] at hacc
    exact hacc

/-! ## Concrete runs -/

/-- An executor of run 0 in its claim of that generation. -/
def claimed (owner generation : Nat) : Executor := ⟨⟨0, owner, generation, 7⟩, 30, 30, 2⟩

def workerSpec : Workers.Capacity.WorkerSpec := { maxConcurrency := 1 }

/-- Run 0 is created and claimed by executor 1. -/
def setting : List Act :=
  [.ownership (.register 1), .ownership (.register 2), .ownership (.create ⟨0, 9, .real, 0, 0, 0, .queued, .running, 0, {}⟩),
    .publish ⟨10, 5, workerSpec⟩, .attempt ⟨20, 0⟩, .ownership (.claim 1 30 none none 0)]

/-- The execution begins and enters a node. -/
def entering (x : Executor) (context : NodeContext) : List Act :=
  [.execute x, .answer 0 .preflight (.ok ()), .transact 0, .answer 0 .service .returns, .answer 0 .saved false,
    .answer 0 .graph (.nodes [context]), .transact 0, .transact 0]

/-- The class is retried: the visit fails and its failure is recorded. Then the run's lease
    expires, and the next executor ends the run as blocked. -/
def losing : List Act :=
  setting ++ entering (claimed 1 1) ⟨4, .router, 12, .builtin⟩ ++
    [.answer 0 .service .returns, .answer 0 .builtin (.error ⟨.boundary .infrastructureTimeout, rfl⟩), .transact 0, .transact 0,
      .ownership (.tick 30), .transact 0, .ownership (.claim 2 30 none none 0), .execute (claimed 2 2),
      .answer 0 .preflight (.error .other), .transact 0, .transact 0]

/-- In such a run the dropped execution has lost its run. -/
theorem stale_executor_means_lost_takeover : ∃ s : St,
    s.ended = [((claimed 2 2).fence, .blocked .blocked), ((claimed 1 1).fence, .dropped true)] ∧
    (∀ e ∈ s.ended, (∀ lost, e.2 = .dropped lost → lost = true) ∧ (∀ status, e.2 = .blocked status → status = .blocked)) ∧
    ∀ n ∈ s.db.rows.nodes, ∀ update, n.result = some update → update.failureClass ≠ none →
      ∃ f ∈ s.db.rows.failures, f.nodeExecution = n.id := by
  have h : (runIf step Keeps (init (some ⟨7, true⟩)) losing).any (fun s => decide
      (s.ended = [((claimed 2 2).fence, .blocked .blocked), ((claimed 1 1).fence, .dropped true)])) = true := by decide +kernel
  obtain ⟨s, hs, hended⟩ := (Option.any_eq_true _ _).mp h
  exact ⟨s, of_decide_eq_true hended, stale_executor_means_lost (runIf_reachIf losing hs)⟩

/-- The node of a worker. -/
def workerNode : NodeContext := ⟨3, .worker, 11, .effect (.worker workerSpec)⟩

/-- Up to the first renewal in `inspect` of an effect that is dispatched. -/
def inspecting (x : Executor) : List Act :=
  entering x workerNode ++ [.answer 0 .effectRequest { digest := 5 }, .transact 0, .transact 0, .transact 0, .transact 0]

/-- Executor 1 acquires a slot, records the invocation and crashes. When its leases have
    expired, the run is claimed by executor 2, and when those have, again. -/
def abandoning : List Act :=
  setting ++ inspecting (claimed 1 1) ++
    [.answer 0 .service .returns, .answer 0 .requestSource (.ok { workerRevision := 10, taskAttempt := 20 }), .transact 0,
      .answer 0 .passed true, .transact 0, .answer 0 .passed true, .transact 0, .crash 0] ++
  [.ownership (.tick 30), .ownership (.claim 2 30 none none 0)] ++ inspecting (claimed 2 2) ++
  [.ownership (.tick 30), .ownership (.claim 2 30 none none 0)] ++ inspecting (claimed 2 3)

/-- Both executors are dropped under an accepted run fence, and nothing is recorded. -/
theorem expired_slot_drops_executors : ∃ s, Reach (some ⟨7, true⟩) s ∧
    fencedAccepts s.db.own (claimed 2 3).fence = true ∧
    s.ended = [((claimed 2 3).fence, .dropped false), ((claimed 2 2).fence, .dropped false)] ∧
    s.db.own.runs.map (·.status) = [.running] ∧ s.db.rows.failures = [] := by
  have h : (run step (init (some ⟨7, true⟩)) abandoning).any (fun s => decide
      (fencedAccepts s.db.own (claimed 2 3).fence = true ∧
        s.ended = [((claimed 2 3).fence, .dropped false), ((claimed 2 2).fence, .dropped false)] ∧
        s.db.own.runs.map (·.status) = [.running] ∧ s.db.rows.failures = [])) = true := by decide +kernel
  obtain ⟨s, hs, hdropped⟩ := (Option.any_eq_true _ _).mp h
  exact ⟨s, run_reach abandoning hs, of_decide_eq_true hdropped⟩

end Jarvis.Executors
