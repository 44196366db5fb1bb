/-
  Jarvis.Runtime.Resume — automatic dispatch, stopped and resumed, with the effects of the runs
  (`operations.py`: `recovery_control`, `emergency_stop`; `runtime/effects.py`: `EffectLedger`).

  `resume_dispatch` is refused while any effect is ambiguous. An effect's status is written only
  in fenced transactions, and no fenced transaction opens while dispatch is stopped. So what is
  ambiguous when dispatch stops stays so (`Stopped.step`): dispatch can be resumed exactly from
  the states in which it is still enabled, no effect is ambiguous, or the one fenced transaction
  that is open will leave none (`recoverable_iff`). An effect that was dispatched before an
  emergency stop is enough for the other case (`stopped_for_good`).
-/
import Jarvis.Runtime.Effects
import Jarvis.Runtime.Recovery

namespace Jarvis.Runtime.Resume

open Jarvis.Runtime.Ownership (RecoveryAction Txn Work)
open Jarvis.Runtime.Effects (EffectStatus)

/-- `_AMBIGUOUS_EFFECTS`. -/
def ambiguous : EffectStatus → Bool
  | .dispatched | .running | .cancelRequested | .unknown => true
  | _ => false

/-- `EffectModel`: its run and its status. -/
structure EffectRow where
  id : Nat
  run : Nat
  status : EffectStatus
  deriving DecidableEq, Repr

/-- What the body of a fenced transaction writes to the effects of its run. -/
inductive Write where
  /-- `EffectRepository.prepare`. -/
  | prepare (id : Nat)
  /-- `_record`, or an adapter's own write. -/
  | record (id : Nat) (status : EffectStatus)
  deriving DecidableEq, Repr

def Write.apply (run : Nat) (effects : List EffectRow) : Write → List EffectRow
  | .prepare id => if effects.any (·.id = id) then effects else effects ++ [⟨id, run, .prepared⟩]
  | .record id status => effects.map fun e => if e.id = id ∧ e.run = run then { e with status } else e

structure State where
  sys : Ownership.Sys
  effects : List EffectRow
  /-- What the open fenced transaction writes when it commits. -/
  writes : List Write

def init (recovery : RecoveryRow) : State := ⟨Ownership.init (some recovery), [], []⟩

def ambiguousEffects (effects : List EffectRow) : Nat := effects.countP (ambiguous ·.status)

/-- The effects as the open transaction will leave them. -/
def written (s : State) (t : Txn) : List EffectRow := s.writes.foldl (Write.apply t.fence.run) s.effects

def enabled (s : State) : Prop := s.sys.recovery.any (·.automaticDispatchEnabled) = true

instance (s : State) : Decidable (enabled s) := inferInstanceAs (Decidable (_ = _))

inductive Act where
  /-- A fenced transaction opens; `writes` is what its body writes to effects. -/
  | openFenced (f : RunFence) (writes : List Write)
  | work (w : Work)
  | commit
  | rollback
  | recovery (a : RecoveryAction) (expected : Nat)
  /-- Any other transaction. -/
  | other (a : Ownership.Act)

/-- The transactions that neither are fenced nor read the effects. -/
def unfenced : Ownership.Act → Bool
  | .openFenced _ | .work _ | .commit | .rollback | .recovery .. => false
  | _ => true

/-- `renew` is a transaction of its own. -/
def renews : Work → Bool
  | .renew _ => true
  | _ => false

def step (s : State) : Act → Option State
  | .openFenced f writes => (Ownership.step s.sys (.openFenced f)).map fun sys => { s with sys, writes }
  | .work w =>
    if renews w ∧ s.writes ≠ [] then none else (Ownership.step s.sys (.work w)).map fun sys => { s with sys }
  | .commit =>
    s.sys.txn.bind fun t => (Ownership.step s.sys .commit).map fun sys =>
      { sys, effects := if t.lease.expiresAt ≤ s.sys.now then s.effects else written s t, writes := [] }
  | .rollback => (Ownership.step s.sys .rollback).map fun sys => { s with sys, writes := [] }
  | .recovery a expected =>
    (Ownership.step s.sys (.recovery a expected (ambiguousEffects s.effects))).map fun sys => { s with sys }
  | .other a => if unfenced a then (Ownership.step s.sys a).map fun sys => { s with sys } else none

/-- Some operations lead to a state in which dispatch is enabled. -/
def Recoverable (s : State) : Prop := ∃ t, Steps.Reach step s t ∧ enabled t

/-! ## Dispatch stays stopped -/

/-- Dispatch is stopped and an effect is ambiguous, also after the open transaction. -/
structure Stopped (s : State) : Prop where
  stopped : ¬ enabled s
  ambiguous : ambiguousEffects s.effects ≠ 0
  writes : ∀ t, s.sys.txn = some t → s.sys.now < t.lease.expiresAt → ambiguousEffects (written s t) ≠ 0

/-- Dispatch is resumed exactly when no effect is ambiguous. -/
theorem resumeDispatch_iff {s s' : Ownership.Sys} {expected n : Nat} :
    Ownership.recoveryControl s .resumeDispatch expected n = some s' ↔ ∃ row, s.recovery = some row ∧
      row.generation = expected ∧ n = 0 ∧ s' = { s with recovery := some { row with automaticDispatchEnabled := true } } := by
  simp only [Ownership.recoveryControl, Option.bind_eq_bind, Option.bind_eq_some_iff]
  refine exists_congr fun row => and_congr_right fun _ => ?_
  by_cases hgeneration : row.generation = expected
  · by_cases hn : n = 0
    · simp [hgeneration, hn, eq_comm]
    · simp [hgeneration, hn]
  · simp [hgeneration]

/-- What the other transactions do to the recovery row, the open transaction and the clock. -/
theorem other_kept {s s' : Ownership.Sys} {a : Ownership.Act} (ha : unfenced a = true)
    (hstopped : ¬ s.recovery.any (·.automaticDispatchEnabled) = true) (h : Ownership.step s a = some s') :
    ¬ s'.recovery.any (·.automaticDispatchEnabled) = true ∧ s'.txn = s.txn ∧ s.now ≤ s'.now := by
  cases a with
  | tick d =>
    cases h
    exact ⟨hstopped, rfl, Nat.le_add_right _ _⟩
  | claim owner ttl capacity mode late =>
    simp only [Ownership.step] at h
    split at h
    · obtain ⟨⟨f, t⟩, hclaim, -⟩ := Option.map_eq_some_iff.mp h
      obtain ⟨-, -, -, row, hrow, henabled, -⟩ := Ownership.claim_spec hclaim
      exact absurd (by rw [hrow]; exact henabled) hstopped
    · cases h
  | emergencyStop user expected =>
    obtain ⟨row, -, rfl⟩ := Ownership.emergencyStop_spec h
    exact ⟨by simp, rfl, Nat.le_refl _⟩
  | openFenced | work | commit | rollback | recovery => cases ha
  | register | create | control | openCursor | commitCursor | rollbackCursor | drain =>
    simp only [Ownership.step] at h
    repeat' split at h
    all_goals cases h
    all_goals exact ⟨hstopped, rfl, Nat.le_refl _⟩

theorem Stopped.step {s s' : State} {a : Act} (hs : Stopped s) (h : step s a = some s') : Stopped s' := by
  cases a with
  | openFenced f writes =>
    -- it is refused while dispatch is stopped
    obtain ⟨sys, hsys, -⟩ := Option.map_eq_some_iff.mp h
    simp only [Ownership.step] at hsys
    split at hsys
    · rename_i hok
      obtain ⟨-, hvalid⟩ := (Bool.and_eq_true _ _).mp hok.2.2.2
      have hrow := Ownership.recoveryValid_iff.mp hvalid
      exact absurd (by rw [enabled, hrow]; rfl) hs.stopped
    · cases hsys
  | work w =>
    simp only [Resume.step] at h
    split at h
    · cases h
    · rename_i hrenew
      obtain ⟨sys, hsys, rfl⟩ := Option.map_eq_some_iff.mp h
      obtain ⟨t, ht, rfl⟩ := Option.map_eq_some_iff.mp hsys
      refine ⟨hs.stopped, hs.ambiguous, fun t' ht' halive => ?_⟩
      cases ht'
      cases w with
      | renew ttl =>
        have hnone : s.writes = [] := by simpa [renews] using hrenew
        show ambiguousEffects (s.writes.foldl _ s.effects) ≠ 0
        rw [hnone]
        exact hs.ambiguous
      | release => exact hs.writes t ht halive
      | write f => exact hs.writes t ht halive
  | commit =>
    obtain ⟨t, ht, h⟩ := Option.bind_eq_some_iff.mp h
    obtain ⟨sys, hsys, rfl⟩ := Option.map_eq_some_iff.mp h
    obtain ⟨t', ht', hsys⟩ := Option.map_eq_some_iff.mp hsys
    obtain rfl : t' = t := Option.some.inj (ht'.symm.trans ht)
    split at hsys
    · rename_i hexpired
      cases hsys
      rw [if_pos hexpired]
      exact ⟨hs.stopped, hs.ambiguous, fun _ hnone => by cases hnone⟩
    · rename_i halive
      cases hsys
      rw [if_neg halive]
      exact ⟨hs.stopped, hs.writes t' ht (Nat.not_le.mp halive), fun _ hnone => by cases hnone⟩
  | rollback =>
    obtain ⟨sys, hsys, rfl⟩ := Option.map_eq_some_iff.mp h
    obtain ⟨t, -, rfl⟩ := Option.map_eq_some_iff.mp hsys
    exact ⟨hs.stopped, hs.ambiguous, fun _ hnone => by cases hnone⟩
  | recovery a expected =>
    obtain ⟨sys, hsys, rfl⟩ := Option.map_eq_some_iff.mp h
    cases a with
    | beginRestore =>
      have hcontrol : Ownership.recoveryControl s.sys .beginRestore expected (ambiguousEffects s.effects) = some sys := hsys
      obtain ⟨row, -, ⟨-, rfl⟩ | ⟨hresume, -⟩⟩ := Ownership.recoveryControl_spec hcontrol
      · exact ⟨by simp [enabled], hs.ambiguous, hs.writes⟩
      · cases hresume
    | resumeDispatch =>
      obtain ⟨-, -, -, hnone, -⟩ := resumeDispatch_iff.mp hsys
      exact absurd hnone hs.ambiguous
  | other a =>
    simp only [Resume.step] at h
    split at h
    · rename_i ha
      obtain ⟨sys, hsys, rfl⟩ := Option.map_eq_some_iff.mp h
      obtain ⟨hstopped, htxn, hnow⟩ := other_kept ha hs.stopped hsys
      exact ⟨hstopped, hs.ambiguous, fun t ht halive => hs.writes t (htxn.symm.trans ht) (Nat.lt_of_le_of_lt hnow halive)⟩
    · cases h

/-! ## Where dispatch can be resumed -/

/-- The open fenced transaction can commit, and leaves no effect ambiguous. -/
def Settles (s : State) : Prop := ∃ t, s.sys.txn = some t ∧ s.sys.now < t.lease.expiresAt ∧ ambiguousEffects (written s t) = 0

theorem resumes {s : State} {row : RecoveryRow} (hrow : s.sys.recovery = some row) (hnone : ambiguousEffects s.effects = 0) :
    Recoverable s := by
  have hresume := resumeDispatch_iff.mpr ⟨row, hrow, rfl, hnone, rfl⟩
  have hstep : step s (.recovery .resumeDispatch row.generation) =
      some { s with sys := { s.sys with recovery := some { row with automaticDispatchEnabled := true } } } :=
    Option.map_eq_some_iff.mpr ⟨_, hresume, rfl⟩
  exact ⟨_, .step _ .init trivial hstep, rfl⟩

theorem settles_resumes {s : State} {row : RecoveryRow} (hrow : s.sys.recovery = some row) (h : Settles s) : Recoverable s := by
  obtain ⟨t, ht, halive, hnone⟩ := h
  have hlive : ¬ t.lease.expiresAt ≤ s.sys.now := Nat.not_le.mpr halive
  have hcommit : step s .commit = some { sys := Ownership.flush s.sys t, effects := written s t, writes := [] } := by
    simp [step, Ownership.step, ht, hlive]
  obtain ⟨resumed, hreach, henabled⟩ := resumes (s := { sys := Ownership.flush s.sys t, effects := written s t, writes := [] })
    hrow hnone
  exact ⟨resumed, Steps.ReachIf.trans (.step _ .init trivial hcommit) hreach, henabled⟩

/-- Every operation is one of the ownership system. -/
theorem step_ownership {s s' : State} {a : Act} (h : step s a = some s') : ∃ b, Ownership.step s.sys b = some s'.sys := by
  cases a with
  | openFenced f writes =>
    obtain ⟨sys, hsys, rfl⟩ := Option.map_eq_some_iff.mp h
    exact ⟨_, hsys⟩
  | work w =>
    simp only [step] at h
    split at h
    · cases h
    · obtain ⟨sys, hsys, rfl⟩ := Option.map_eq_some_iff.mp h
      exact ⟨_, hsys⟩
  | commit =>
    obtain ⟨t, -, h⟩ := Option.bind_eq_some_iff.mp h
    obtain ⟨sys, hsys, rfl⟩ := Option.map_eq_some_iff.mp h
    exact ⟨_, hsys⟩
  | rollback =>
    obtain ⟨sys, hsys, rfl⟩ := Option.map_eq_some_iff.mp h
    exact ⟨_, hsys⟩
  | recovery a expected =>
    obtain ⟨sys, hsys, rfl⟩ := Option.map_eq_some_iff.mp h
    exact ⟨_, hsys⟩
  | other a =>
    simp only [step] at h
    split at h
    · obtain ⟨sys, hsys, rfl⟩ := Option.map_eq_some_iff.mp h
      exact ⟨_, hsys⟩
    · cases h

/-- The recovery row does not go away. -/
theorem recovery_kept {s s' : Ownership.Sys} {a : Ownership.Act} (hs : s.recovery.isSome = true)
    (h : Ownership.step s a = some s') : s'.recovery.isSome = true := by
  cases a with
  | claim owner ttl capacity mode late =>
    simp only [Ownership.step] at h
    split at h
    · obtain ⟨⟨f, t⟩, hclaim, rfl⟩ := Option.map_eq_some_iff.mp h
      obtain ⟨-, -, -, -, -, -, -, -, -, rfl⟩ := Ownership.claim_spec hclaim
      exact hs
    · cases h
  | recovery a expected ambiguous =>
    obtain ⟨row, -, ⟨-, rfl⟩ | ⟨-, rfl⟩⟩ := Ownership.recoveryControl_spec h <;> rfl
  | emergencyStop user expected =>
    obtain ⟨row, -, rfl⟩ := Ownership.emergencyStop_spec h
    rfl
  | commit =>
    obtain ⟨t, -, hcommit⟩ := Option.map_eq_some_iff.mp h
    split at hcommit <;> cases hcommit <;> exact hs
  | tick | register | create | control | openCursor | commitCursor | rollbackCursor | drain | openFenced =>
    simp only [Ownership.step] at h
    repeat' split at h
    all_goals cases h
    all_goals exact hs
  | work | rollback =>
    obtain ⟨t, -, rfl⟩ := Option.map_eq_some_iff.mp h
    exact hs

theorem Stopped.not_recoverable {s : State} (hs : Stopped s) : ¬ Recoverable s := by
  rintro ⟨t, hreach, henabled⟩
  exact (hreach.invariant Stopped hs fun _ _ _ hs _ hstep => hs.step hstep).stopped henabled

/-- From a reachable state dispatch can be enabled again exactly if it is enabled, no effect is
    ambiguous, or the open fenced transaction can still commit and leaves none. -/
theorem recoverable_iff {recovery : RecoveryRow} {s : State} (h : Steps.Reach step (init recovery) s) :
    Recoverable s ↔ enabled s ∨ ambiguousEffects s.effects = 0 ∨ Settles s := by
  have hrow : s.sys.recovery.isSome = true := by
    refine h.invariant (·.sys.recovery.isSome = true) rfl fun _ _ _ hs _ hstep => ?_
    obtain ⟨b, hb⟩ := step_ownership hstep
    exact recovery_kept hs hb
  obtain ⟨row, hrow⟩ := Option.isSome_iff_exists.mp hrow
  constructor
  · intro hrecoverable
    by_contra hnot
    obtain ⟨hstopped, hambiguous, hsettles⟩ := by simpa only [not_or] using hnot
    exact Stopped.not_recoverable ⟨hstopped, hambiguous, fun t ht halive hnone => hsettles ⟨t, ht, halive, hnone⟩⟩ hrecoverable
  · rintro (henabled | hnone | hsettles)
    · exact ⟨s, .init, henabled⟩
    · exact resumes hrow hnone
    · exact settles_resumes hrow hsettles

/-! ## An emergency stop -/

/-- Owner 1 claims run 5 and dispatches effect 3. -/
def dispatching : List Act :=
  [.other (.register 1), .other (.create ⟨5, 9, .real, 0, 0, 0, .queued, .running, 0, {}⟩), .other (.claim 1 30 none none 0),
    .openFenced ⟨5, 1, 1, 7⟩ [.prepare 3, .record 3 .dispatched], .commit]

/-- The effect is settled before the stop. -/
theorem recoverable_iff_settled :
    ∃ s, Steps.Reach step (init ⟨7, true⟩) s ∧ s.effects = [⟨3, 5, .succeeded⟩] ∧ ¬ enabled s ∧ Recoverable s := by
  let acts := dispatching ++ [.openFenced ⟨5, 1, 1, 7⟩ [.record 3 .succeeded], .commit, .other (.emergencyStop 9 7)]
  have hrun : (Steps.run step (init ⟨7, true⟩) acts).any (fun s => s.effects = [⟨3, 5, .succeeded⟩] ∧ ¬ enabled s) = true := by
    decide +kernel
  obtain ⟨s, hs, hend⟩ := (Option.any_eq_true _ _).mp hrun
  obtain ⟨heffects, hstopped⟩ := of_decide_eq_true hend
  have hreach := Steps.run_reach acts hs
  exact ⟨s, hreach, heffects, hstopped, (recoverable_iff hreach).mpr (.inr (.inl (by rw [heffects]; rfl)))⟩

/-- The effect is still dispatched when everything is stopped: dispatch cannot be resumed while it
    is, and its executor cannot settle it while dispatch is stopped. -/
theorem stopped_for_good :
    ∃ s s', Steps.Reach step (init ⟨7, true⟩) s ∧ step s (.other (.emergencyStop 9 7)) = some s' ∧ ¬ Recoverable s' := by
  have hrun : (Steps.run step (init ⟨7, true⟩) dispatching).any (fun s => (step s (.other (.emergencyStop 9 7))).any fun s' =>
      ¬ enabled s' ∧ ambiguousEffects s'.effects ≠ 0 ∧ s'.sys.txn = none) = true := by
    decide +kernel
  obtain ⟨s, hs, hstop⟩ := (Option.any_eq_true _ _).mp hrun
  obtain ⟨s', hs', hend⟩ := (Option.any_eq_true _ _).mp hstop
  obtain ⟨hstopped, hambiguous, hnone⟩ := of_decide_eq_true hend
  refine ⟨s, s', Steps.run_reach _ hs, hs', Stopped.not_recoverable ⟨hstopped, hambiguous, fun t ht => ?_⟩⟩
  rw [hnone] at ht
  cases ht

end Jarvis.Runtime.Resume
