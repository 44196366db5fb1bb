/-
  Jarvis.Runtime.Commands — `CommandProcessor.apply` (`runtime/commands.py`): the pending
  commands of a run, applied in sequence in one transaction.

  A pending cancel dominates every pause and resume of the same batch, also those before it
  in sequence. `hasReceiver` says whether a node of the published workflow accepts runtime
  instructions; `fresh` is the identity `_retry` draws for the run it links.

  `apply_keeps` says what a batch can do to the run: it never touches the wait, the approvals
  or the demo decision, and where a cancel is desired afterwards a run that has not ended is
  claimable if it was before.
-/
import Jarvis.Runtime.Rows

namespace Jarvis.Runtime

/-- `RunCommandKind`. -/
inductive CommandKind where
  | pause
  | resume
  | cancel
  | instruction
  | retry
  deriving DecidableEq, Repr

structure RunCommand where
  id : Nat
  sequence : Nat
  kind : CommandKind
  deriving DecidableEq, Repr

inductive CommandStatus where
  | applied
  | rejected
  | superseded
  deriving DecidableEq, Repr

inductive CommandReason where
  | applied
  | retryRequiresFailedOrBlocked
  | terminalRun
  | cancelDominates
  | alreadyPaused
  | resumeRequiresPaused
  | noEligibleInstructionReceiver
  | instructionCapacity
  deriving DecidableEq, Repr

/-- The disposition written to the command row and its event. -/
structure Disposition where
  command : RunCommand
  status : CommandStatus
  reason : CommandReason
  deriving DecidableEq, Repr

/-- What one `apply` transaction leaves behind. -/
structure Batch where
  run : RunRow
  dispositions : List Disposition
  linked : List RunRow
  deriving DecidableEq, Repr

/-- `_retry`: the linked run. -/
def retryRun (now : Nat) (fresh : Nat → Nat) (run : RunRow) (c : RunCommand) : RunRow :=
  { run with
    id := fresh c.id
    createdAt := now
    claimableAt := now
    status := .queued
    desiredState := .running
    version := 0
    runtime := {} }

/-- The body of the loop, before the command row is written. -/
def applyKind (now : Nat) (hasReceiver cancelPending : Bool) (run : RunRow) (c : RunCommand) :
    RunRow × CommandStatus × CommandReason :=
  if c.kind = .retry then
    if run.status ≠ .failed ∧ run.status ≠ .blocked then (run, .rejected, .retryRequiresFailedOrBlocked)
    else (run, .applied, .applied)
  else if run.status.terminal then (run, .rejected, .terminalRun)
  else if (c.kind = .pause ∨ c.kind = .resume) ∧ (cancelPending ∨ run.desiredState = .cancelled) then
    (run, .superseded, .cancelDominates)
  else match c.kind with
    | .cancel =>
      ({ run with desiredState := .cancelled, status := .cancelRequested, claimableAt := now }, .applied, .applied)
    | .pause =>
      if run.status = .paused then (run, .rejected, .alreadyPaused)
      else ({ run with desiredState := .paused, status := .pauseRequested, claimableAt := now }, .applied, .applied)
    | .resume =>
      if run.status ≠ .paused then (run, .rejected, .resumeRequiresPaused)
      else
        ({ run with
          desiredState := .running
          status := .queued
          claimableAt := match run.runtime.retryAt with
            | some t => max now t
            | none => now }, .applied, .applied)
    | .instruction =>
      if run.desiredState = .cancelled ∨ !hasReceiver then (run, .rejected, .noEligibleInstructionReceiver)
      else if 100 ≤ run.runtime.instructions.length then (run, .rejected, .instructionCapacity)
      else
        ({ run with runtime := { run.runtime with instructions := run.runtime.instructions ++ [c.id] } },
          .applied, .applied)
    | .retry => (run, .applied, .applied)

def applyOne (now : Nat) (hasReceiver cancelPending : Bool) (fresh : Nat → Nat) (b : Batch) (c : RunCommand) : Batch :=
  let (run, status, reason) := applyKind now hasReceiver cancelPending b.run c
  { run := { run with version := run.version + 1 }
    dispositions := b.dispositions ++ [⟨c, status, reason⟩]
    linked := if c.kind = .retry ∧ status = .applied then b.linked ++ [retryRun now fresh b.run c] else b.linked }

/-- `CommandProcessor.apply` on the pending commands of a run, in sequence. -/
def apply (now : Nat) (hasReceiver : Bool) (fresh : Nat → Nat) (run : RunRow) (commands : List RunCommand) : Batch :=
  commands.foldl (applyOne now hasReceiver (commands.any (·.kind == .cancel)) fresh) ⟨run, [], []⟩

/-! ## What a batch does to the run -/

/-- Where a cancel is desired, a run that has not ended can be claimed. -/
def CancelClaimable (r : RunRow) : Prop :=
  r.desiredState = .cancelled → r.status.terminal = false → r.status.claimable = true

/-- The parts of a run no command touches. -/
def SameWaits (r r' : RunRow) : Prop :=
  r'.id = r.id ∧ r'.mode = r.mode ∧ r'.runtime.wait = r.runtime.wait ∧ r'.runtime.approvals = r.runtime.approvals ∧
    r'.runtime.demoDecision = r.runtime.demoDecision

theorem SameWaits.trans {a b c : RunRow} (h : SameWaits a b) (h' : SameWaits b c) : SameWaits a c := by
  obtain ⟨h1, h2, h3, h4, h5⟩ := h
  obtain ⟨k1, k2, k3, k4, k5⟩ := h'
  exact ⟨k1.trans h1, k2.trans h2, k3.trans h3, k4.trans h4, k5.trans h5⟩

/-- One command changes the status only by an applied cancel, pause or resume. -/
theorem applyKind_cases (now : Nat) (hasReceiver cancelPending : Bool) (run : RunRow) (c : RunCommand) :
    SameWaits run (applyKind now hasReceiver cancelPending run c).1 ∧
    ((applyKind now hasReceiver cancelPending run c).1.status = run.status ∧
        (applyKind now hasReceiver cancelPending run c).1.desiredState = run.desiredState ∧
        (applyKind now hasReceiver cancelPending run c).1.claimableAt = run.claimableAt ∨
      run.status.terminal = false ∧
        (applyKind now hasReceiver cancelPending run c).1.status = .cancelRequested ∧
        (applyKind now hasReceiver cancelPending run c).1.desiredState = .cancelled ∨
      run.status.terminal = false ∧ run.desiredState ≠ .cancelled ∧
        (applyKind now hasReceiver cancelPending run c).1.status = .pauseRequested ∧
        (applyKind now hasReceiver cancelPending run c).1.desiredState = .paused ∨
      run.status = .paused ∧ run.desiredState ≠ .cancelled ∧
        (applyKind now hasReceiver cancelPending run c).1.status = .queued ∧
        (applyKind now hasReceiver cancelPending run c).1.desiredState = .running) := by
  have same : SameWaits run run := ⟨rfl, rfl, rfl, rfl, rfl⟩
  unfold applyKind
  split
  · split <;> exact ⟨same, .inl ⟨rfl, rfl, rfl⟩⟩
  split
  · exact ⟨same, .inl ⟨rfl, rfl, rfl⟩⟩
  rename_i hterm
  have hterm : run.status.terminal = false := by simpa using hterm
  split
  · exact ⟨same, .inl ⟨rfl, rfl, rfl⟩⟩
  rename_i hdom
  split
  · exact ⟨⟨rfl, rfl, rfl, rfl, rfl⟩, .inr (.inl ⟨hterm, rfl, rfl⟩)⟩
  · rename_i hk
    have hd : run.desiredState ≠ .cancelled := fun h => hdom ⟨.inl hk, .inr h⟩
    split
    · exact ⟨same, .inl ⟨rfl, rfl, rfl⟩⟩
    · exact ⟨⟨rfl, rfl, rfl, rfl, rfl⟩, .inr (.inr (.inl ⟨hterm, hd, rfl, rfl⟩))⟩
  · rename_i hk
    have hd : run.desiredState ≠ .cancelled := fun h => hdom ⟨.inr hk, .inr h⟩
    split
    · exact ⟨same, .inl ⟨rfl, rfl, rfl⟩⟩
    · rename_i hp
      exact ⟨⟨rfl, rfl, rfl, rfl, rfl⟩, .inr (.inr (.inr ⟨by simpa using hp, hd, rfl, rfl⟩))⟩
  · split
    · exact ⟨same, .inl ⟨rfl, rfl, rfl⟩⟩
    · split <;> exact ⟨⟨rfl, rfl, rfl, rfl, rfl⟩, .inl ⟨rfl, rfl, rfl⟩⟩
  · exact ⟨same, .inl ⟨rfl, rfl, rfl⟩⟩

/-- What a batch keeps: the run's waits; `CancelClaimable`; a run that waits for an approval
    or is parked moves only to 'cancel_requested', 'pause_requested' or 'queued'; a
    terminal run stays as it is. -/
structure BatchKeeps (r r' : RunRow) : Prop where
  waits : SameWaits r r'
  claimable : CancelClaimable r → CancelClaimable r'
  moves : r'.status = r.status ∨ r'.status = .cancelRequested ∨ r'.status = .pauseRequested ∨ r'.status = .queued
  terminal : r'.status.terminal = r.status.terminal

theorem BatchKeeps.refl (r : RunRow) : BatchKeeps r r := ⟨⟨rfl, rfl, rfl, rfl, rfl⟩, id, .inl rfl, rfl⟩

theorem BatchKeeps.trans {a b c : RunRow} (h : BatchKeeps a b) (h' : BatchKeeps b c) : BatchKeeps a c := by
  refine ⟨h.waits.trans h'.waits, fun hc => h'.claimable (h.claimable hc), ?_, h'.terminal.trans h.terminal⟩
  rcases h'.moves with hm | hm | hm | hm
  · rw [hm]
    exact h.moves
  · exact .inr (.inl hm)
  · exact .inr (.inr (.inl hm))
  · exact .inr (.inr (.inr hm))

theorem applyOne_keeps (now : Nat) (hasReceiver cancelPending : Bool) (fresh : Nat → Nat) (b : Batch)
    (c : RunCommand) : BatchKeeps b.run (applyOne now hasReceiver cancelPending fresh b c).run := by
  obtain ⟨hw, hs⟩ := applyKind_cases now hasReceiver cancelPending b.run c
  simp only [applyOne]
  generalize applyKind now hasReceiver cancelPending b.run c = k at hw hs
  rcases hs with ⟨h1, h2, -⟩ | ⟨ht, h1, h2⟩ | ⟨ht, hd, h1, h2⟩ | ⟨hp, hd, h1, h2⟩
  · refine ⟨hw, ?_, .inl h1, by rw [h1]⟩
    intro hc
    show k.1.desiredState = .cancelled → k.1.status.terminal = false → k.1.status.claimable = true
    rw [h1, h2]
    exact hc
  · refine ⟨hw, ?_, .inr (.inl h1), by rw [h1, ht]; rfl⟩
    intro _ _ _
    show k.1.status.claimable = true
    rw [h1]
    rfl
  · refine ⟨hw, ?_, .inr (.inr (.inl h1)), by rw [h1, ht]; rfl⟩
    intro _ _ _
    show k.1.status.claimable = true
    rw [h1]
    rfl
  · refine ⟨hw, ?_, .inr (.inr (.inr h1)), by rw [h1, hp]; rfl⟩
    intro _ _ _
    show k.1.status.claimable = true
    rw [h1]
    rfl

theorem apply_keeps (now : Nat) (hasReceiver : Bool) (fresh : Nat → Nat) (run : RunRow) (commands : List RunCommand) :
    BatchKeeps run (apply now hasReceiver fresh run commands).run := by
  unfold apply
  generalize commands.any (·.kind == .cancel) = cancelPending
  suffices ∀ b : Batch, BatchKeeps b.run
      (commands.foldl (applyOne now hasReceiver cancelPending fresh) b).run from this ⟨run, [], []⟩
  induction commands with
  | nil => intro b; exact .refl b.run
  | cons c cs ih => intro b; exact (applyOne_keeps now hasReceiver cancelPending fresh b c).trans (ih _)

end Jarvis.Runtime
