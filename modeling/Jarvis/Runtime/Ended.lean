/-
  Jarvis.Runtime.Ended — how a run ends, with its effects.

  The run's row is written by commands, by the transactions of its executor, by decisions,
  expiries and requeues (`Control.step`); the effects are written by the handlers and by
  `cancel_pending` (`Effects.step`), which read the run's lease, its desired state and whether
  it has ended. The two move side by side here: what a transaction makes of the row is what the
  ledger's next transaction reads (`follow`).

  A row's status and desired state change in few ways (`RunMove`). None takes a cancel back,
  and none ends a cancelled run but as 'cancelled' or 'blocked'; `_record` turns a dispatch or
  a success of a cancelled run into 'cancelled' (`NoneNew`). So a cancelled run never succeeds
  (`cancelled_never_succeeds`). The check of the recovery generation, which only forbids moves
  of an executor, is the ledger's alone.
-/
import Jarvis.Runtime.Cancellation
import Jarvis.Runtime.Effects

namespace Jarvis.Runtime.Ended

open Control (Node)

/-! ## The run and its ledger -/

structure Sys (R D : Type) where
  control : Control.St
  ledger : Effects.St R D

inductive Action (R D : Type) where
  | claim (owner ttl : Nat)
  /-- What else changes the run or its executor. -/
  | run (act : Control.Act)
  | ledger (act : Effects.Act R D)

variable {R D : Type}

/-- The ledger reads the row and the lease as they are now. -/
def follow (control : Control.St) (ledger : Effects.St R D) : Effects.St R D :=
  { ledger with
    desired := control.run.desiredState
    terminal := control.run.status.terminal
    lease := if control.lease.any (control.now < ·) then ledger.lease else none }

/-- The moves of the ledger that stand for what happens to the run. -/
def ofRun : Effects.Act R D → Bool
  | .claim _ | .expire | .settle | .reconcile | .command _ => true
  | _ => false

def init (run : RunRow) (node : Node) (recovery : RecoveryRow) : Sys R D :=
  ⟨Control.init run node, Effects.init recovery⟩

/-- A claim gives its executor a fence, which the ledger has to know. -/
def claims : Control.Act → Bool
  | .claim _ => true
  | _ => false

/-- An emergency stop also ends the recovery generation and stops its dispatch. -/
def stopDispatch (act : Control.Act) (ledger : Effects.St R D) : Effects.St R D :=
  match act with
  | .emergencyStop => { ledger with recovery := ⟨ledger.recovery.generation + 1, false⟩ }
  | _ => ledger

def move [DecidableEq D] (A : Effects.Adapters R) (s : Sys R D) : Action R D → Option (Sys R D)
  | .claim owner ttl =>
    (Control.step s.control (.claim ttl)).bind fun control =>
      (Effects.claim s.ledger owner).map fun ledger => ⟨control, ledger⟩
  | .run act =>
    if claims act then none
    else (Control.step s.control act).map fun control => ⟨control, stopDispatch act s.ledger⟩
  | .ledger act => if ofRun act then none else (Effects.step A s.ledger act).map fun ledger => { s with ledger }

def step [DecidableEq D] (A : Effects.Adapters R) (s : Sys R D) (action : Action R D) : Option (Sys R D) :=
  (move A s action).map fun s => { s with ledger := follow s.control s.ledger }

/-! ## The row -/

/-- A cancelled run has not succeeded, nor failed. -/
def Sealed (r : RunRow) : Prop := r.desiredState = .cancelled → r.status ≠ .completed ∧ r.status ≠ .failed

/-- What a move may do to the row. -/
structure RunMove (act : Control.Act) (r r' : RunRow) : Prop where
  desired : r.desiredState = .cancelled → r'.desiredState = .cancelled
  seals : Sealed r → Sealed r'
  absorbs : r.status.terminal → r'.status = r.status ∨ (act = .reconcile ∧ r.status = .blocked ∧ r'.status = .queued)

namespace RunMove

variable {act : Control.Act} {r r' : RunRow}

theorem same (hs : r'.status = r.status) (hd : r'.desiredState = r.desiredState) : RunMove act r r' where
  desired h := hd.trans h
  seals h hc := by
    rw [hs]
    exact h (hd.symm.trans hc)
  absorbs _ := .inl hs

/-- A run that has not ended goes on. -/
theorem goes (ht : r.status.terminal = false) (ht' : r'.status.terminal = false)
    (hd : r.desiredState = .cancelled → r'.desiredState = .cancelled) : RunMove act r r' where
  desired := hd
  seals _ _ := by
    constructor
    all_goals
      intro h
      rw [h] at ht'
      cases ht'
  absorbs h := by
    rw [ht] at h
    cases h

/-- A run that has not ended is ended, as 'cancelled' or 'blocked' if a cancel is desired. -/
theorem ends (ht : r.status.terminal = false) (hd : r'.desiredState = r.desiredState)
    (hs : r.desiredState = .cancelled → r'.status = .cancelled ∨ r'.status = .blocked) : RunMove act r r' where
  desired h := hd.trans h
  seals _ hc := by
    obtain h | h := hs (hd.symm.trans hc) <;> rw [h] <;> exact ⟨nofun, nofun⟩
  absorbs h := by
    rw [ht] at h
    cases h

end RunMove

/-! ## Commands -/

variable {now : Nat} {hasReceiver cancelPending : Bool} {fresh : Nat → Nat}

theorem applyOne_desired (b : Batch) (c : RunCommand) (h : b.run.desiredState = .cancelled) :
    (applyOne now hasReceiver cancelPending fresh b c).run.desiredState = .cancelled := by
  obtain ⟨-, hs⟩ := applyKind_cases now hasReceiver cancelPending b.run c
  show (applyKind now hasReceiver cancelPending b.run c).1.desiredState = .cancelled
  obtain ⟨-, hd, -⟩ | ⟨-, -, hd⟩ | ⟨-, hne, -⟩ | ⟨-, hne, -⟩ := hs
  · exact hd.trans h
  · exact hd
  · exact absurd h hne
  · exact absurd h hne

theorem applyOne_seals (b : Batch) (c : RunCommand) (h : Sealed b.run) :
    Sealed (applyOne now hasReceiver cancelPending fresh b c).run := by
  obtain ⟨-, hs⟩ := applyKind_cases now hasReceiver cancelPending b.run c
  show Sealed { (applyKind now hasReceiver cancelPending b.run c).1 with version := _ }
  intro hc
  obtain ⟨hst, hd, -⟩ | ⟨-, hst, -⟩ | ⟨-, -, -, hd⟩ | ⟨-, -, -, hd⟩ := hs
  · show (applyKind now hasReceiver cancelPending b.run c).1.status ≠ _ ∧ _
    rw [hst]
    exact h (hd.symm.trans hc)
  · show (applyKind now hasReceiver cancelPending b.run c).1.status ≠ _ ∧ _
    rw [hst]
    exact ⟨nofun, nofun⟩
  · cases hd.symm.trans hc
  · cases hd.symm.trans hc

/-- The cancels of a batch that were applied so far are desired. -/
def CancelsDesired (b : Batch) : Prop :=
  ∀ d ∈ b.dispositions, d.command.kind = .cancel → d.status = .applied → b.run.desiredState = .cancelled

theorem applyKind_cancel {run : RunRow} {c : RunCommand} (hkind : c.kind = .cancel)
    (happlied : (applyKind now hasReceiver cancelPending run c).2.1 = .applied) :
    (applyKind now hasReceiver cancelPending run c).1.desiredState = .cancelled := by
  by_cases ht : run.status.terminal
  · simp [applyKind, hkind, ht] at happlied
  · simp [applyKind, hkind, ht]

theorem applyOne_cancels (b : Batch) (c : RunCommand) (h : CancelsDesired b) :
    CancelsDesired (applyOne now hasReceiver cancelPending fresh b c) := by
  intro d hd hkind happlied
  obtain hd | hd := List.mem_append.mp hd
  · exact applyOne_desired b c (h d hd hkind happlied)
  · rw [List.mem_singleton.mp hd] at hkind happlied
    exact applyKind_cancel hkind happlied

/-- What a batch does to a row. -/
theorem apply_moves {act : Control.Act} (run : RunRow) (commands : List RunCommand) :
    RunMove act run (apply now hasReceiver fresh run commands).run ∧ CancelsDesired (apply now hasReceiver fresh run commands) := by
  have hkeeps := apply_keeps now hasReceiver fresh run commands
  have habsorbs : run.status.terminal → (apply now hasReceiver fresh run commands).run.status = run.status := by
    intro ht
    have hterm := hkeeps.terminal.trans ht
    obtain hs | hs | hs | hs := hkeeps.moves
    · exact hs
    all_goals rw [hs] at hterm; cases hterm
  let op := applyOne now hasReceiver (commands.any (·.kind == .cancel)) fresh
  have hfold : ∀ P : Batch → Prop, (∀ b c, P b → P (op b c)) → P ⟨run, [], []⟩ → P (commands.foldl op ⟨run, [], []⟩) :=
    fun P hone hrun => List.foldlRecOn commands op hrun fun b hb c _ => hone b c hb
  refine ⟨⟨?_, ?_, fun ht => .inl (habsorbs ht)⟩, ?_⟩
  · exact hfold (fun b => b.run.desiredState = .cancelled) applyOne_desired
  · exact hfold (fun b => Sealed b.run) applyOne_seals
  · exact hfold CancelsDesired applyOne_cancels nofun

/-! ## The run's own moves -/

variable {s t : Control.St}

/-- No transaction of an executor meets a run that has ended. -/
theorem execStep_terminal {pc : Control.Pc} {act : Control.Act} (ht : s.run.status.terminal)
    (h : Control.execStep s pc act = some t) : t.run = s.run := by
  have hf : Control.fenced s = false := by simp [Control.fenced, ht]
  unfold Control.execStep at h
  split at h
  · simp [Control.openRun, hf] at h
  · simp only [Control.resumeGraph, hf] at h
    split at h
    · cases h
      rfl
    · cases h
  · simp [Control.wrapWait, hf] at h
  · cases h
    exact Control.interruptAt_run _ _ _
  · simp [Control.wrapClear, hf] at h
  · simp [Control.decideAsk, hf] at h
  · cases h
    exact Control.interruptAt_run _ _ _
  · simp [Control.decideAnswer, hf] at h
  · split at h <;> cases h
    rfl
  · cases h
    rfl
  · simp [Control.wrapRecord, hf] at h
  · simp [Control.advance, hf] at h
  · simp [hf] at h
  · simp [Control.closeSuspended, hf] at h
  · simp [Control.closeEnded, hf] at h
  · simp [Control.blockRun, hf] at h
  · simp [hf] at h
  · cases h
    rfl
  · simp [hf] at h
  · cases h

/-- An executor leaves the desired state as it is. -/
theorem execStep_desired {pc : Control.Pc} {act : Control.Act} (h : Control.execStep s pc act = some t) :
    t.run.desiredState = s.run.desiredState := by
  unfold Control.execStep at h
  split at h
  · simp only [Control.openRun] at h
    split at h <;> cases h
    rfl
  · simp only [Control.resumeGraph] at h
    repeat' split at h
    all_goals cases h
    all_goals rfl
  · simp only [Control.wrapWait] at h
    repeat' split at h
    all_goals cases h
    all_goals rfl
  · cases h
    rw [Control.interruptAt_run]
  · simp only [Control.wrapClear] at h
    repeat' split at h
    all_goals cases h
    all_goals rfl
  · simp only [Control.decideAsk] at h
    split at h <;> cases h
    exact (Control.request_status _ _ _ _).2
  · cases h
    rw [Control.interruptAt_run]
  · simp only [Control.decideAnswer] at h
    repeat' split at h
    all_goals cases h
    all_goals rfl
  · split at h <;> cases h
    rfl
  · cases h
    rfl
  · simp only [Control.wrapRecord] at h
    repeat' split at h
    all_goals cases h
    all_goals rfl
  · simp only [Control.advance] at h
    split at h <;> cases h
    exact (Control.scheduled_row _ _ _).2
  · split at h <;> cases h
    rfl
  · simp only [Control.closeSuspended] at h
    repeat' split at h
    all_goals cases h
    all_goals rfl
  · simp only [Control.closeEnded] at h
    split at h <;> cases h
    rfl
  · simp only [Control.blockRun] at h
    split at h <;> cases h
    rfl
  · split at h <;> cases h
    rfl
  · cases h
    rfl
  · split at h <;> cases h
    rfl
  · cases h

theorem suspendedStatus_terminal (kind : WaitKind) : (Control.suspendedStatus kind).terminal = false := by
  cases kind <;> rfl

/-- What an executor does to the row of a run that has not ended. -/
theorem rowMove_moves {act : Control.Act} {r : RunRow} (ht : s.run.status.terminal = false)
    (hd : r.desiredState = s.run.desiredState) (h : Control.RowMove s act r) : RunMove act s.run r := by
  cases h with
  | keeps hs _ => exact .same hs hd
  | opens h =>
    subst h
    refine .goes ht ?_ id
    simp only [Control.opening]
    split <;> rfl
  | parks _ h =>
    subst h
    exact .goes ht rfl id
  | suspends w _ _ _ h =>
    subst h
    exact .goes ht (suspendedStatus_terminal w.kind) id
  | ends final h =>
    subst h
    exact .ends ht rfl fun hd => .inl (if_pos hd)
  | blocks h => exact .ends ht hd fun _ => .inr h

theorem execStep_moves {pc : Control.Pc} {act : Control.Act} (hpc : s.pc = some pc) (h : Control.execStep s pc act = some t) :
    RunMove act s.run t.run := by
  cases ht : s.run.status.terminal with
  | false => exact rowMove_moves ht (execStep_desired h) (Control.execStep_row hpc h)
  | true =>
    rw [execStep_terminal ht h]
    exact .same rfl rfl

/-- A run that waits for an approval, and one that is blocked, can be queued again. -/
theorem requeue_moves {act : Control.Act} {now : Nat} {r r' : RunRow} (hs : r.status = .approvalRequired)
    (hd : r'.desiredState = r.desiredState) : RunMove act r (Control.requeue now r') :=
  .goes (by rw [hs]; rfl) rfl fun h => hd.trans h

/-- Every move of the run, except the commands. -/
theorem step_moves {act : Control.Act} (h : Control.step s act = some t) : RunMove act s.run t.run := by
  have hexec : (s.pc.bind fun pc => Control.execStep s pc act) = some t → RunMove act s.run t.run := by
    intro hexec
    obtain ⟨pc, hpc, hexec⟩ := Option.bind_eq_some_iff.mp hexec
    exact execStep_moves hpc hexec
  cases act with
  | tick d | enqueue c =>
    cases h
    exact .same rfl rfl
  | apply hasReceiver fresh =>
    cases h
    exact (apply_moves s.run s.commands).1
  | claim ttl =>
    simp only [Control.step] at h
    split at h
    · rename_i hc
      cases h
      have hclaimable : s.run.status.claimable = true := by
        have := hc.1
        simp only [Control.claimable, Bool.and_eq_true] at this
        exact this.1.1
      refine .goes ?_ rfl id
      cases hs : s.run.status <;> rw [hs] at hclaimable <;> first | rfl | cases hclaimable
    · cases h
  | decideApproval approve =>
    obtain ⟨id, d, -, hs, -, rfl⟩ := Control.decideApproval_spec h
    exact requeue_moves hs rfl
  | decideDemo approve =>
    obtain ⟨id, d, -, hs, -, rfl⟩ := Control.decideDemo_spec h
    exact requeue_moves hs rfl
  | expire corrupt =>
    obtain ⟨hs, rfl | ⟨id, -, rfl⟩⟩ := Control.expireApprovals_spec h
    · exact .ends (by rw [hs]; rfl) rfl fun _ => .inr rfl
    · exact requeue_moves hs rfl
  | reconcile =>
    simp only [Control.step] at h
    split at h
    · rename_i hs
      cases h
      exact ⟨id, fun _ _ => ⟨by rintro ⟨⟩, by rintro ⟨⟩⟩, fun _ => .inr ⟨rfl, hs, rfl⟩⟩
    · cases h
  | emergencyStop =>
    simp only [Control.step] at h
    split at h
    · rename_i hs
      cases h
      refine .goes ?_ rfl fun _ => rfl
      simpa [RunStatus.active] using hs
    · cases h
  | _ => exact hexec h

/-! ## The ledger -/

/-- The effect is dispatched, or has succeeded. -/
def Reached (e : Effects.Effect R D) : Prop := e.status = .dispatched ∨ e.status = .succeeded

/-- No effect is newly dispatched or newly succeeds. -/
def NoneNew (l l' : List (Effects.Effect R D)) : Prop :=
  ∀ e ∈ l', Reached e → ∃ old ∈ l, old.identity = e.identity ∧ old.status = e.status

namespace NoneNew

variable {l l' l'' : List (Effects.Effect R D)}

theorem refl (l : List (Effects.Effect R D)) : NoneNew l l := fun e he _ => ⟨e, he, rfl, rfl⟩

theorem trans (h : NoneNew l l') (h' : NoneNew l' l'') : NoneNew l l'' := by
  intro e he hr
  obtain ⟨mid, hmid, hid, hs⟩ := h' e he hr
  obtain ⟨old, hold, hid', hs'⟩ := h mid hmid (by rwa [Reached, hs])
  exact ⟨old, hold, hid'.trans hid, hs'.trans hs⟩

/-- An effect is prepared. -/
theorem prepares (e : Effects.Effect R D) (h : e.status = .prepared) : NoneNew l (l ++ [e]) := by
  intro x hx hr
  obtain hx | hx := List.mem_append.mp hx
  · exact ⟨x, hx, rfl, rfl⟩
  · rw [List.mem_singleton.mp hx, Reached, h] at hr
    obtain hr | hr := hr <;> cases hr

end NoneNew

variable {e e' : Effects.St R D}

theorem update_noneNew (i : Nat) {g : Effects.Effect R D → Effects.Effect R D}
    (hg : ∀ x, (g x).status = x.status ∨ ¬ Reached (g x)) : NoneNew e.effects (Effects.update e i g).effects := by
  intro x hx hr
  obtain ⟨old, hold, rfl⟩ := List.mem_map.mp hx
  by_cases hid : old.identity = i
  · rw [if_pos hid] at hr ⊢
    obtain hs | hs := hg old
    · exact ⟨old, hold, rfl, hs.symm⟩
    · exact absurd hr hs
  · rw [if_neg hid]
    exact ⟨old, hold, rfl, rfl⟩

/-- `_record` of a cancelled run. -/
theorem record_noneNew (hd : e.desired = .cancelled) (i : Nat) (status : Effects.EffectStatus) (external : Bool)
    (result : Option R) : NoneNew e.effects (Effects.record e i status external result).effects := by
  refine update_noneNew i fun x => .inr ?_
  rw [hd]
  unfold Effects.Effect.record
  split
  · rintro (h | h) <;> cases h
  · rename_i hother
    exact fun h => hother ⟨h.symm, rfl⟩

theorem prepare_noneNew [DecidableEq D] {f : RunFence} {i : Nat} {digest : D} (h : Effects.prepare e f i digest = some e') :
    NoneNew e.effects e'.effects := by
  unfold Effects.prepare at h
  split at h
  · obtain ⟨x, hx, h⟩ := Option.bind_eq_some_iff.mp h
    have hadded : NoneNew e.effects (if (Effects.effectOf e i).isSome then e
        else { e with effects := e.effects ++ [⟨i, digest, .prepared, false, none, f.generation⟩] }).effects := by
      split
      · exact .refl _
      · exact .prepares _ rfl
    generalize (if (Effects.effectOf e i).isSome then e
        else { e with effects := e.effects ++ [⟨i, digest, .prepared, false, none, f.generation⟩] }) = mid at h hadded
    split at h
    · cases h
    split at h
    · cases h
      exact hadded
    split at h
    · cases h
      exact hadded
    · cases h
      exact hadded.trans (update_noneNew i fun _ => .inl rfl)
  · cases h

/-- What an adapter writes to its effect row is no dispatch and no success. -/
theorem adapterWrite_noneNew (p : Effects.Proc R) (result : Option R) :
    NoneNew e.effects (Effects.adapterWrite e p result).effects := by
  cases result with
  | none =>
    refine update_noneNew p.identity fun x => .inr ?_
    rintro (h | h) <;> cases h
  | some result => exact update_noneNew p.identity fun _ => .inl rfl

theorem pollOnce_noneNew (p : Effects.Proc R) : NoneNew e.effects (Effects.pollOnce e p).effects := by
  unfold Effects.pollOnce
  split
  · refine update_noneNew p.identity fun x => .inr ?_
    rintro (h | h) <;> cases h
  · exact .refl _

theorem inspectFirst_effects (A : Effects.Adapters R) (p : Effects.Proc R) (dispatched : Bool) (o : Effects.Observation R) :
    (Effects.inspectFirst A e p dispatched o).effects = e.effects := by
  unfold Effects.inspectFirst
  repeat' split
  all_goals rfl

theorem observed_effects (A : Effects.Adapters R) (p : Effects.Proc R) (cancel : Bool) (o : Effects.Observation R) :
    (Effects.observed A e p cancel o).effects = e.effects := by
  unfold Effects.observed
  repeat' split
  all_goals rfl

theorem procStep_noneNew [DecidableEq D] {A : Effects.Adapters R} (hd : e.desired = .cancelled) {p : Effects.Proc R}
    {act : Effects.Act R D} (h : Effects.procStep A e p act = some e') : NoneNew e.effects e'.effects := by
  unfold Effects.procStep at h
  split at h
  · split at h
    · cases h
      rw [inspectFirst_effects]
      exact .refl _
    · cases h
  · split at h
    · split at h <;> cases h
      simp only [Effects.commitDispatched]
      split
      · exact record_noneNew hd _ _ _ _
      · exact record_noneNew hd _ _ _ _
    · cases h
  · split at h
    · cases h
      exact .refl _
    · cases h
  · split at h
    · split at h <;> cases h
      exact adapterWrite_noneNew p _
    · split at h <;> cases h
      exact adapterWrite_noneNew p _
    · cases h
  · split at h
    · split at h <;> cases h
      exact pollOnce_noneNew p
    · cases h
  · split at h
    · cases h
      rw [observed_effects]
      exact .refl _
    · cases h
  · split at h
    · split at h <;> cases h
      simp only [Effects.commitSucceeded]
      rw [if_pos hd]
      exact record_noneNew hd _ _ _ _
    · cases h
  · split at h
    · split at h <;> cases h
      exact record_noneNew hd _ _ _ _
    · cases h
  · cases h
    exact .refl _
  · cases h

theorem cancelStep_noneNew [DecidableEq D] (hd : e.desired = .cancelled) {c : Effects.CancelProc} {act : Effects.Act R D}
    (h : Effects.cancelStep e c act = some e') : NoneNew e.effects e'.effects := by
  unfold Effects.cancelStep at h
  repeat' split at h
  all_goals cases h
  all_goals first
    | exact .refl _
    | exact record_noneNew hd _ _ _ _
    | exact update_noneNew _ fun _ => .inr fun hr => by obtain hr | hr := hr <;> cases hr

/-- What the ledger does while a cancel is desired. -/
theorem ledger_noneNew [DecidableEq D] {A : Effects.Adapters R} (hd : e.desired = .cancelled) {act : Effects.Act R D}
    (hact : ofRun act = false) (h : Effects.step A e act = some e') : NoneNew e.effects e'.effects := by
  cases act with
  | claim owner => cases hact
  | expire => cases hact
  | settle => cases hact
  | reconcile => cases hact
  | command d => cases hact
  | beginRestore | resumeDispatch =>
    cases h
    exact .refl _
  | prepare f i digest => exact prepare_noneNew h
  | cancelPending f =>
    simp only [Effects.step, Effects.cancelPending] at h
    split at h <;> cases h
    exact .refl _
  | cancelNext f | cancelObserve f o | cancelRecord f | cancelWrites f | cancelCrash f =>
    obtain ⟨c, -, h⟩ := Option.bind_eq_some_iff.mp h
    exact cancelStep_noneNew hd h
  | _ =>
    obtain ⟨p, -, h⟩ := Option.bind_eq_some_iff.mp h
    exact procStep_noneNew hd h

/-! ## Runs -/

/-- A cancel is applied: a command's, or an emergency stop's. -/
def Cancels (s : Sys R D) : Action R D → Prop
  | .run (.apply hasReceiver fresh) =>
    ∃ d ∈ (apply s.control.now hasReceiver fresh s.control.run s.control.commands).dispositions,
      d.command.kind = .cancel ∧ d.status = .applied
  | .run .emergencyStop => True
  | _ => False

section Runs

variable [DecidableEq D] {A : Effects.Adapters R} {s t : Sys R D} {action : Action R D}

/-- What a move does to the run's row. -/
theorem step_row (h : step A s action = some t) :
    t.control.run = s.control.run ∨ ∃ act, RunMove act s.control.run t.control.run ∧ (act = .reconcile → action = .run .reconcile) := by
  obtain ⟨mid, hmove, rfl⟩ := Option.map_eq_some_iff.mp h
  cases action with
  | claim owner ttl =>
    obtain ⟨control, hclaim, hmove⟩ := Option.bind_eq_some_iff.mp hmove
    obtain ⟨ledger, -, rfl⟩ := Option.map_eq_some_iff.mp hmove
    exact .inr ⟨_, step_moves hclaim, nofun⟩
  | ledger act =>
    simp only [move] at hmove
    split at hmove
    · cases hmove
    · obtain ⟨ledger, -, rfl⟩ := Option.map_eq_some_iff.mp hmove
      exact .inl rfl
  | run act =>
    simp only [move] at hmove
    split at hmove
    · cases hmove
    · obtain ⟨control, hstep, rfl⟩ := Option.map_eq_some_iff.mp hmove
      exact .inr ⟨act, step_moves hstep, fun hact => by rw [hact]⟩

/-- What a move does to the effects of a cancelled run. -/
theorem step_effects (hd : s.ledger.desired = .cancelled) (h : step A s action = some t) :
    NoneNew s.ledger.effects t.ledger.effects := by
  obtain ⟨mid, hmove, rfl⟩ := Option.map_eq_some_iff.mp h
  cases action with
  | claim owner ttl =>
    obtain ⟨control, -, hmove⟩ := Option.bind_eq_some_iff.mp hmove
    obtain ⟨ledger, hledger, rfl⟩ := Option.map_eq_some_iff.mp hmove
    unfold Effects.claim at hledger
    split at hledger <;> cases hledger
    exact .refl _
  | ledger act =>
    simp only [move] at hmove
    split at hmove
    · cases hmove
    · rename_i hact
      obtain ⟨ledger, hledger, rfl⟩ := Option.map_eq_some_iff.mp hmove
      exact (ledger_noneNew hd (by simpa using hact) hledger : NoneNew s.ledger.effects ledger.effects)
  | run act =>
    simp only [move] at hmove
    split at hmove
    · cases hmove
    · obtain ⟨control, -, rfl⟩ := Option.map_eq_some_iff.mp hmove
      have heffects : (stopDispatch act s.ledger).effects = s.ledger.effects := by cases act <;> rfl
      show NoneNew s.ledger.effects (stopDispatch act s.ledger).effects
      rw [heffects]
      exact .refl _

/-- A cancel that is applied is desired. -/
theorem cancels_desired (h : step A s action = some t) (hc : Cancels s action) : t.control.run.desiredState = .cancelled := by
  obtain ⟨mid, hmove, rfl⟩ := Option.map_eq_some_iff.mp h
  cases action with
  | claim owner ttl => cases hc
  | ledger act => cases hc
  | run act =>
    cases act with
    | apply hasReceiver fresh =>
      obtain ⟨d, hd, hkind, happlied⟩ := hc
      cases hmove
      exact (@apply_moves _ _ _ .reconcile s.control.run s.control.commands).2 d hd hkind happlied
    | emergencyStop =>
      obtain ⟨control, hstop, rfl⟩ := Option.map_eq_some_iff.mp hmove
      simp only [Control.step] at hstop
      split at hstop <;> cases hstop
      rfl
    | _ => cases hc

theorem step_synced (h : step A s action = some t) : t.ledger.desired = t.control.run.desiredState := by
  obtain ⟨mid, -, rfl⟩ := Option.map_eq_some_iff.mp h
  rfl

theorem reach_sealed {run : RunRow} {node : Node} {recovery : RecoveryRow}
    (h : Steps.Reach (step A) (init run node recovery) s) : Sealed s.control.run := by
  refine h.invariant (fun s => Sealed s.control.run) (fun hd => ?_) fun s action t hs _ hstep => ?_
  · cases hd
  · obtain heq | ⟨act, hmove, -⟩ := step_row hstep
    · rw [heq]
      exact hs
    · exact hmove.seals hs

/-- An ended run stays as it ended, unless it is blocked and reconciled. Once a cancel was applied it
    stays desired, the run ends only as 'cancelled' or 'blocked', and none of its effects is newly
    dispatched or succeeds. -/
theorem cancelled_never_succeeds {run : RunRow} {node : Node} {recovery : RecoveryRow}
    (h : Steps.Reach (step A) (init run node recovery) s) (hstep : step A s action = some t) :
    (s.control.run.status.terminal → t.control.run.status = s.control.run.status ∨
      (action = .run .reconcile ∧ s.control.run.status = .blocked ∧ t.control.run.status = .queued)) ∧
    (Cancels s action → ∀ u, Steps.Reach (step A) t u → u.control.run.desiredState = .cancelled ∧
      (u.control.run.status.terminal → u.control.run.status = .cancelled ∨ u.control.run.status = .blocked) ∧
      NoneNew t.ledger.effects u.ledger.effects) := by
  constructor
  · intro ht
    obtain heq | ⟨act, hmove, hact⟩ := step_row hstep
    · exact .inl (by rw [heq])
    · obtain hs | ⟨hrec, hs⟩ := hmove.absorbs ht
      · exact .inl hs
      · exact .inr ⟨hact hrec, hs⟩
  intro hc u hu
  have hsealed : Sealed t.control.run := reach_sealed (.step action h trivial hstep)
  let Holds (u : Sys R D) : Prop := u.ledger.desired = u.control.run.desiredState ∧ u.control.run.desiredState = .cancelled ∧
    Sealed u.control.run ∧ NoneNew t.ledger.effects u.ledger.effects
  have hholds : Holds u := by
    refine hu.invariant Holds ⟨step_synced hstep, cancels_desired hstep hc, hsealed, .refl _⟩ ?_
    rintro v action w ⟨hsync, hd, hv, hnone⟩ - hvw
    have hrow : w.control.run.desiredState = .cancelled ∧ Sealed w.control.run := by
      obtain heq | ⟨act, hmove, -⟩ := step_row hvw
      · rw [heq]
        exact ⟨hd, hv⟩
      · exact ⟨hmove.desired hd, hmove.seals hv⟩
    exact ⟨step_synced hvw, hrow.1, hrow.2, hnone.trans (step_effects (hsync.trans hd) hvw)⟩
  obtain ⟨-, hd, hu, hnone⟩ := hholds
  refine ⟨hd, fun ht => ?_, hnone⟩
  obtain ⟨hcompleted, hfailed⟩ := hu hd
  cases hst : u.control.run.status with
  | cancelled => exact .inl rfl
  | blocked => exact .inr rfl
  | completed => exact absurd hst hcompleted
  | failed => exact absurd hst hfailed
  | _ => rw [hst] at ht; cases ht

end Runs

/-- A node's effect is dispatched when the cancel comes. -/
def dispatchedRun : List (Action Nat Nat) :=
  [.claim 1 60, .run .opening, .run .resume, .run .invoke, .ledger (.prepare ⟨0, 1, 1, 7⟩ 3 0), .ledger (.inspect 0 .absent),
    .ledger (.recordDispatched 0), .ledger (.call 0), .run (.enqueue ⟨2, 2, .cancel⟩)]

/-- The effect succeeds, and is recorded as cancelled; the run ends as cancelled. -/
theorem cancelled_never_succeeds_dispatched : ∃ s t u : Sys Nat Nat,
    Steps.Reach (step ⟨fun _ => false, fun _ r => some r⟩) (init Control.sampleRun .plain ⟨7, true⟩) s ∧
      s.ledger.effects.map (·.status) = [.dispatched] ∧ Steps.Reach (step ⟨fun _ => false, fun _ r => some r⟩) t u ∧
      u.control.run.desiredState = .cancelled ∧ u.control.run.status = .cancelled ∧
      u.ledger.effects.map (·.status) = [.cancelled] ∧ NoneNew t.ledger.effects u.ledger.effects := by
  let A : Effects.Adapters Nat := ⟨fun _ => false, fun _ r => some r⟩
  obtain ⟨s, hs⟩ : ∃ s, Steps.run (step A) (init Control.sampleRun .plain ⟨7, true⟩) dispatchedRun = some s := ⟨_, rfl⟩
  obtain ⟨t, ht⟩ : ∃ t, step A s (.run (.apply false id)) = some t := by
    cases hs
    exact ⟨_, rfl⟩
  have hcancels : Cancels s (.run (.apply false id)) := by
    cases hs
    exact ⟨⟨⟨2, 2, .cancel⟩, .applied, .applied⟩, by decide, rfl, rfl⟩
  obtain ⟨u, hu⟩ : ∃ u, Steps.run (step A) t [.ledger (.poll 0), .ledger (.observe 0 (.succeeded (some 1))), .ledger (.recordStop 0),
      .run (.handle .cancelled), .run .record, .run .closing] = some u := by
    cases hs
    cases ht
    exact ⟨_, rfl⟩
  have hend : s.ledger.effects.map (·.status) = [.dispatched] ∧ u.control.run.status = .cancelled ∧
      u.ledger.effects.map (·.status) = [.cancelled] := by
    cases hs
    cases ht
    cases hu
    decide
  have hreach := Steps.run_reach _ hs
  have hu := Steps.run_reach _ hu
  have hnever := (cancelled_never_succeeds hreach ht).2 hcancels u hu
  exact ⟨s, t, u, hreach, hend.1, hu, hnever.1, hend.2.1, hend.2.2, hnever.2.2⟩

end Jarvis.Runtime.Ended
