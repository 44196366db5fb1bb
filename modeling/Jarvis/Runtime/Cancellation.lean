/-
  Jarvis.Runtime.Cancellation — what becomes of a run once a cancel was applied.

  Every transaction but one leaves a cancelled run that has not ended in a status
  `RunOwnership.claim` selects (`CancelClaimable`). The exception is the closing
  transaction of `_execute` on a suspended graph: it takes the status from the kind of the
  wait and does not look at `desired_state`, as its branch for an ended graph does. A cancel
  applied between the interrupt and the closing transaction is then parked
  (`cancel_parked`): the run stands in 'paused' or 'approval_required', with no lease, and
  nothing claims it (`closing_parks`).
-/
import Jarvis.Runtime.Control

namespace Jarvis.Runtime.Control

/-! ## What the executor does to the row -/

theorem interruptAt_run (s : St) (w : Wait) (next : Pc) : (interruptAt s w next).run = s.run := by
  unfold interruptAt
  split
  · rfl
  · split <;> rfl

theorem request_status (now execution : Nat) (expiresIn : Option Nat) (r : RunRow) :
    (request now execution expiresIn r).status = r.status ∧
      (request now execution expiresIn r).desiredState = r.desiredState := by
  unfold request
  cases r.mode with
  | real => dsimp only; split <;> exact ⟨rfl, rfl⟩
  | demo => exact ⟨rfl, rfl⟩

/-- What an executor's move may do to the row. -/
inductive RowMove (s : St) (a : Act) (r : RunRow) : Prop
  | keeps : r.status = s.run.status → r.desiredState = s.run.desiredState → RowMove s a r
  | opens : r = opening s.run → RowMove s a r
  | parks : s.run.desiredState = .paused → r = settle s.run .paused → RowMove s a r
  | suspends (w : Wait) : a = .closing → s.pc = some .suspended → s.run.runtime.wait = some w →
      r = settle s.run (suspendedStatus w.kind) → RowMove s a r
  | ends (final : RunStatus) : r = settle s.run (endedStatus s.run final) → RowMove s a r
  | blocks : r.status = .blocked → RowMove s a r

theorem RowMove.same {s : St} {a : Act} {r : RunRow} (h : r = s.run) : RowMove s a r := .keeps (by rw [h]) (by rw [h])

theorem resumeGraph_row {s t : St} {a : Act} (h : resumeGraph s = some t) : RowMove s a t.run := by
  unfold resumeGraph at h
  split at h
  · cases h
    exact .same rfl
  split at h
  · cases h
  split at h
  · rename_i hp
    cases h
    exact .parks hp rfl
  · split at h <;> cases h <;> exact .same rfl

theorem wrapWait_row {s t : St} {a : Act} (h : wrapWait s = some t) : RowMove s a t.run := by
  unfold wrapWait at h
  split at h
  · cases h
  split at h
  · cases h
    exact .same rfl
  split at h
  · cases h
    exact .same rfl
  · split at h
    · cases h
      exact .keeps rfl rfl
    · cases h
      exact .same rfl

theorem wrapClear_row {s t : St} {a : Act} (h : wrapClear s = some t) : RowMove s a t.run := by
  unfold wrapClear at h
  split at h
  · cases h
  split at h <;> cases h <;> exact .keeps rfl rfl

theorem decideAnswer_row {s t : St} {a : Act} {w : Wait} (h : decideAnswer s w = some t) : RowMove s a t.run := by
  unfold decideAnswer at h
  split at h
  · cases h
  split at h
  · cases h
    exact .same rfl
  · cases h
    exact .keeps rfl rfl

theorem wrapRecord_row {s t : St} {a : Act} {o : Outcome} (h : wrapRecord s o = some t) : RowMove s a t.run := by
  unfold wrapRecord at h
  split at h
  · cases h
  split at h <;> cases h <;> exact .same rfl

theorem scheduled_row (now : Nat) (delay : Option Nat) (r : RunRow) :
    (scheduled now delay r).status = r.status ∧ (scheduled now delay r).desiredState = r.desiredState := by
  cases delay <;> exact ⟨rfl, rfl⟩

theorem closeSuspended_row {s t : St} (hpc : s.pc = some .suspended) (h : closeSuspended s = some t) :
    RowMove s .closing t.run := by
  unfold closeSuspended at h
  split at h
  · cases h
  split at h
  · cases h
    exact .same rfl
  · rename_i w hw
    cases h
    exact .suspends w rfl hpc hw rfl

theorem execStep_row {s t : St} {pc : Pc} {a : Act} (hpc : s.pc = some pc) (h : execStep s pc a = some t) :
    RowMove s a t.run := by
  unfold execStep at h
  split at h
  · simp only [openRun] at h
    split at h <;> cases h
    exact .opens rfl
  · exact resumeGraph_row h
  · exact wrapWait_row h
  · cases h
    exact .same (interruptAt_run _ _ _)
  · exact wrapClear_row h
  · simp only [decideAsk] at h
    split at h <;> cases h
    exact .keeps (request_status _ _ _ _).1 (request_status _ _ _ _).2
  · cases h
    exact .same (interruptAt_run _ _ _)
  · exact decideAnswer_row h
  · split at h <;> cases h
    exact .same rfl
  · cases h
    exact .same rfl
  · exact wrapRecord_row h
  · simp only [advance] at h
    split at h <;> cases h
    exact .keeps (scheduled_row _ _ _).1 (scheduled_row _ _ _).2
  · split at h <;> cases h
    exact .same rfl
  · exact closeSuspended_row hpc h
  · simp only [closeEnded] at h
    split at h <;> cases h
    exact .ends _ rfl
  · simp only [blockRun] at h
    split at h <;> cases h
    exact .blocks rfl
  · split at h <;> cases h
    exact .keeps rfl rfl
  · cases h
    exact .same rfl
  · split at h <;> cases h
    exact .same rfl
  · cases h

/-! ## The condition and the invariant -/

/-- A closing transaction on a suspended graph does not meet a cancelled run, unless its wait
    is a retry backoff. -/
def ClosesUncancelled (s : St) : Act → Prop
  | .closing => s.pc = some .suspended → s.run.desiredState = .cancelled →
      s.run.runtime.wait.all (·.kind == .backoff) = true
  | _ => True

instance (s : St) (a : Act) : Decidable (ClosesUncancelled s a) := by
  unfold ClosesUncancelled
  split <;> infer_instance

theorem RowMove.cancelClaimable {s : St} {a : Act} {r : RunRow} (hi : CancelClaimable s.run)
    (hok : ClosesUncancelled s a) (h : RowMove s a r) : CancelClaimable r := by
  intro hd ht
  cases h with
  | keeps h1 h2 =>
    rw [h1] at ht ⊢
    exact hi (h2 ▸ hd) ht
  | opens h =>
    subst h
    have hd : s.run.desiredState = .cancelled := hd
    simp [opening, hd, RunStatus.claimable]
  | parks hp h =>
    subst h
    have hd : s.run.desiredState = .cancelled := hd
    rw [hp] at hd
    cases hd
  | suspends w ha hpc hw h =>
    subst h ha
    have hk := hok hpc hd
    rw [hw] at hk
    have hk : w.kind = .backoff := by simpa using hk
    simp [settle, suspendedStatus, hk, RunStatus.claimable]
  | ends final h =>
    subst h
    have hd : s.run.desiredState = .cancelled := hd
    simp [settle, endedStatus, hd, RunStatus.terminal] at ht
  | blocks h =>
    rw [h] at ht
    cases ht

theorem requeue_cancelClaimable (now : Nat) (r : RunRow) : CancelClaimable (requeue now r) := fun _ _ => rfl

theorem decideApproval_spec {s t : St} {approve : Bool} (h : decideApproval s approve = some t) :
    ∃ id d, s.run.runtime.wait = some ⟨.approval, id⟩ ∧ s.run.status = .approvalRequired ∧ d ≠ .pending ∧
      t = { s with run := requeue s.now (setDecision s.run id d) } := by
  unfold decideApproval at h
  split at h
  · rename_i id hw
    split at h
    · split at h
      · rename_i hc
        refine ⟨id, if approve then .approved else .rejected, hw, hc.2.1, ?_, by simpa using h.symm⟩
        split <;> decide
      · cases h
    · cases h
  · cases h

theorem decideDemo_spec {s t : St} {approve : Bool} (h : decideDemo s approve = some t) :
    ∃ id d, s.run.runtime.demoDecision = some (id, .pending) ∧ s.run.status = .approvalRequired ∧
      (d = .approved ∨ d = .rejected) ∧ t = { s with run := requeue s.now { s.run with runtime := { s.run.runtime with
        demoDecision := some (id, d) } } } := by
  unfold decideDemo at h
  split at h
  · rename_i id hd
    split at h
    · rename_i hc
      refine ⟨id, if approve then .approved else .rejected, hd, hc.2.1, ?_, by simpa using h.symm⟩
      split <;> decide
    · cases h
  · cases h

theorem expireApprovals_spec {s t : St} {corrupt : Bool} (h : expireApprovals s corrupt = some t) :
    s.run.status = .approvalRequired ∧
    (t = { s with run := { s.run with status := .blocked, version := s.run.version + 1 } } ∨
      ∃ id, s.run.runtime.wait = some ⟨.approval, id⟩ ∧
        t = { s with run := requeue s.now (setDecision s.run id .expired) }) := by
  unfold expireApprovals at h
  split at h
  · rename_i hc
    refine ⟨hc.2, ?_⟩
    split at h
    · rename_i id hw
      split at h
      · split at h
        · exact .inl (by simpa using h.symm)
        · split at h
          · exact .inr ⟨id, hw, by simpa using h.symm⟩
          · cases h
      · cases h
    · cases h
  · cases h

theorem step_cancelClaimable {s t : St} (a : Act) (hi : CancelClaimable s.run) (hok : ClosesUncancelled s a)
    (h : step s a = some t) : CancelClaimable t.run := by
  have exec : (s.pc.bind fun pc => execStep s pc a) = some t → CancelClaimable t.run := by
    intro he
    obtain ⟨pc, hpc, he⟩ := Option.bind_eq_some_iff.mp he
    exact (execStep_row hpc he).cancelClaimable hi hok
  cases a with
  | tick d | enqueue c =>
    cases h
    exact hi
  | apply hasReceiver fresh =>
    cases h
    exact (apply_keeps s.now hasReceiver fresh s.run s.commands).claimable hi
  | claim ttl =>
    simp only [step] at h
    split at h
    · cases h
      exact fun _ _ => rfl
    · cases h
  | decideApproval approve =>
    obtain ⟨id, d, -, -, -, rfl⟩ := decideApproval_spec h
    exact requeue_cancelClaimable s.now _
  | decideDemo approve =>
    obtain ⟨id, d, -, -, -, rfl⟩ := decideDemo_spec h
    exact requeue_cancelClaimable s.now _
  | expire corrupt =>
    obtain ⟨-, rfl | ⟨id, -, rfl⟩⟩ := expireApprovals_spec h
    · intro _ ht
      cases ht
    · exact requeue_cancelClaimable s.now _
  | reconcile =>
    simp only [step] at h
    split at h
    · cases h
      exact requeue_cancelClaimable s.now _
    · cases h
  | emergencyStop =>
    simp only [step] at h
    split at h
    · cases h
      exact fun _ _ => rfl
    · cases h
  | _ => exact exec h

/-! ## A cancel is parked by the closing transaction only -/

/-- In every run whose closing transactions meet no cancelled run that is suspended on
    anything but a backoff, a cancelled run that has not ended and is not leased can be
    claimed again. -/
theorem cancel_not_parked {run : RunRow} {node : Node} {s : St}
    (h : Steps.ReachIf step ClosesUncancelled (init run node) s) (hd : s.run.desiredState = .cancelled)
    (ht : s.run.status.terminal = false) (_hl : ∀ x, s.lease = some x → x ≤ s.now) :
    s.run.status.claimable = true ∧ s.run.status ≠ .paused ∧ s.run.status ≠ .approvalRequired := by
  have hi : CancelClaimable s.run :=
    h.invariant (fun s => CancelClaimable s.run) (fun hd => by cases hd)
      fun s a t hi hok hs => step_cancelClaimable a hi hok hs
  have hc := hi hd ht
  refine ⟨hc, ?_, ?_⟩
  · intro hs
    rw [hs] at hc
    cases hc
  · intro hs
    rw [hs] at hc
    cases hc

def sampleRun : RunRow := ⟨5, 9, .real, 0, 0, 0, .queued, .running, 0, {}⟩

/-- The moves of a run that is paused at its first node, up to the interrupt. -/
def pausedAtNode : List Act :=
  [.claim 60, .opening, .resume, .enqueue ⟨1, 1, .pause⟩, .apply false id, .invoke, .interrupt]

/-- A cancel after the closing transaction: the run is requested to cancel and can be claimed. -/
theorem cancel_not_parked_after_closing : ∃ s,
    Steps.ReachIf step ClosesUncancelled (init sampleRun .plain) s ∧ s.run.status = .cancelRequested ∧
      s.run.status.claimable = true := by
  obtain ⟨s, hs⟩ : ∃ s, Steps.runIf step ClosesUncancelled (init sampleRun .plain)
    (pausedAtNode ++ [.closing, .enqueue ⟨2, 2, .cancel⟩, .apply false id]) = some s := ⟨_, rfl⟩
  have hr := Steps.runIf_reachIf _ hs
  have hstatus : s.run.status = .cancelRequested ∧ s.run.desiredState = .cancelled ∧ s.lease = none := by
    cases hs
    decide
  obtain ⟨h1, h2, h3⟩ := hstatus
  refine ⟨s, hr, h1, (cancel_not_parked hr h2 (by rw [h1]; rfl) ?_).1⟩
  intro x hx
  rw [h3] at hx
  cases hx

/-- A cancel between the interrupt and the closing transaction: the run is left in 'paused',
    without a lease, and no claim selects it. -/
theorem cancel_parked : ∃ s, Steps.Reach step (init sampleRun .plain) s ∧ s.run.desiredState = .cancelled ∧
    s.run.status = .paused ∧ s.run.status.terminal = false ∧ s.lease = none ∧ s.run.status.claimable = false := by
  obtain ⟨s, hs⟩ : ∃ s, Steps.run step (init sampleRun .plain)
    (pausedAtNode ++ [.enqueue ⟨2, 2, .cancel⟩, .apply false id, .closing]) = some s := ⟨_, rfl⟩
  refine ⟨s, Steps.run_reach _ hs, ?_⟩
  cases hs
  decide

/-- Every closing transaction outside the condition parks the cancel. -/
theorem closing_parks {s t : St} (hs : ¬ ClosesUncancelled s .closing) (h : step s .closing = some t) :
    t.run.desiredState = .cancelled ∧ (t.run.status = .paused ∨ t.run.status = .approvalRequired) ∧
      t.lease = none := by
  simp only [ClosesUncancelled, Classical.not_imp] at hs
  obtain ⟨hpc, hd, hw⟩ := hs
  simp only [step, hpc, Option.bind_some, execStep, closeSuspended] at h
  split at h
  · cases h
  split at h
  · rename_i hn
    rw [hn] at hw
    exact absurd rfl hw
  · rename_i w hw'
    cases h
    rw [hw'] at hw
    refine ⟨hd, ?_, rfl⟩
    simp only [settle]
    cases hk : w.kind with
    | pause => exact .inl rfl
    | approval | demoDecision => exact .inr rfl
    | backoff => simp [hk] at hw

end Jarvis.Runtime.Control
