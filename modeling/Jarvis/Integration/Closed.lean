/-
  Jarvis.Integration.Closed — candidates that are out of line.

  A candidate that is accepted, conflicted or rejected is not written again (`step_later`);
  `reject` and `advance` make the fence's candidate one. Only `queue`, and `acquire` for an
  effect without a candidate, add one (`step_source`).
-/
import Jarvis.Integration.Chain

namespace Jarvis.Integration

/-- The candidate is neither queued nor integrating. -/
def MergeCandidate.closed (row : MergeCandidate) : Prop := row.status ≠ .queued ∧ row.status ≠ .integrating

instance (row : MergeCandidate) : Decidable row.closed := inferInstanceAs (Decidable (_ ∧ _))

/-! ## What an operation leaves of candidates -/

section Rows

variable {q q' : Queue} {inserts : MergeCandidate → Prop} {row row' : MergeCandidate}

theorem writeCandidates_closed (h : Chained q) {candidate : MergeCandidate} (hmem : candidate ∈ q.candidates)
    {g : MergeCandidate → MergeCandidate} (hopen : ¬ candidate.closed) (hrow : row ∈ q.candidates) (hclosed : row.closed) :
    row ∈ writeCandidates candidate g q := by
  refine (Keyed.mem_replace_of_mem h.candidates hmem).mpr (.inl ⟨hrow, fun hid => hopen ?_⟩)
  rwa [← Keyed.unique h.candidates hrow hmem hid]

theorem Owns.open {accepted : AcceptedTargetHead} (h : Owns q accepted row) : ¬ row.closed := fun hclosed => hclosed.2 h.integrating

/-- A closed candidate is not written any more. -/
theorem Move.closed (h : Chained q) (hm : Move inserts q q') (hrow : row ∈ q.candidates) (hclosed : row.closed) :
    row ∈ q'.candidates := by
  cases hm with
  | target => exact hrow
  | candidate => exact List.mem_append_left _ hrow
  | extend => exact hrow
  | bind _ _ _ haccepted hmem howner => exact writeCandidates_closed h hmem (h.owns haccepted hmem howner).open hrow hclosed
  | drop _ _ _ haccepted hmem howner => exact writeCandidates_closed h hmem (h.owns haccepted hmem howner).open hrow hclosed
  | grant _ _ _ _ _ hmem _ hqueued => exact writeCandidates_closed h hmem (fun hopen => hopen.1 hqueued) hrow hclosed

theorem Moves.closed (h : Chained q) (hm : Moves inserts q q') (hrow : row ∈ q.candidates) (hclosed : row.closed) :
    row ∈ q'.candidates := by
  induction hm with
  | refl => exact hrow
  | tail hmoves hmove ih => exact hmove.closed (h.moves hmoves) ih hclosed

theorem writeCandidates_source {candidate : MergeCandidate} {g : MergeCandidate → MergeCandidate}
    (hrow : row' ∈ writeCandidates candidate g q) (hg : Keeps g) : ∃ row ∈ q.candidates, row.effect = row'.effect ∧ row.run = row'.run := by
  rcases Keyed.mem_replace.mp hrow with ⟨hold, -⟩ | ⟨old, hold, -, rfl⟩
  · exact ⟨row', hold, rfl, rfl⟩
  · exact ⟨old, hold, (hg.effect old).symm, (hg.run old).symm⟩

/-- A candidate was there, or the operation has added it. -/
theorem Move.source (hm : Move inserts q q') (hrow : row' ∈ q'.candidates) :
    (∃ row ∈ q.candidates, row.effect = row'.effect ∧ row.run = row'.run) ∨
      ∃ row, inserts row ∧ row.effect = row'.effect ∧ row.run = row'.run := by
  cases hm with
  | target => exact .inl ⟨row', hrow, rfl, rfl⟩
  | candidate row _ _ _ hinserts =>
    rcases List.mem_append.mp hrow with hold | hnew
    · exact .inl ⟨row', hold, rfl, rfl⟩
    · rw [List.mem_singleton.mp hnew]
      exact .inr ⟨row, hinserts, rfl, rfl⟩
  | extend => exact .inl ⟨row', hrow, rfl, rfl⟩
  | bind => exact .inl (writeCandidates_source hrow ⟨fun _ => rfl, fun _ => rfl, fun _ => rfl, fun _ => rfl⟩)
  | drop _ _ _ _ _ _ hkeeps => exact .inl (writeCandidates_source hrow hkeeps)
  | grant => exact .inl (writeCandidates_source hrow ⟨fun _ => rfl, fun _ => rfl, fun _ => rfl, fun _ => rfl⟩)

theorem Moves.source (hm : Moves inserts q q') (hrow : row' ∈ q'.candidates) :
    (∃ row ∈ q.candidates, row.effect = row'.effect ∧ row.run = row'.run) ∨
      ∃ row, inserts row ∧ row.effect = row'.effect ∧ row.run = row'.run := by
  induction hm generalizing row' with
  | refl => exact .inl ⟨row', hrow, rfl, rfl⟩
  | tail _ hmove ih =>
    rcases hmove.source hrow with ⟨mid, hmid, heffect, hrun⟩ | hnew
    · rcases ih hmid with ⟨row, hold, heffect', hrun'⟩ | ⟨row, hinserts, heffect', hrun'⟩
      · exact .inl ⟨row, hold, heffect'.trans heffect, hrun'.trans hrun⟩
      · exact .inr ⟨row, hinserts, heffect'.trans heffect, hrun'.trans hrun⟩
    · exact .inr hnew

end Rows

section Operations

variable {s t : State} {op : Op}

/-- Later in a run: closed candidates are as they were, and no candidate is gone. -/
structure Later (s t : State) : Prop where
  closed : ∀ row ∈ s.candidates, row.closed → row ∈ t.candidates
  stays : ∀ row ∈ s.candidates, ∃ row' ∈ t.candidates, row'.effect = row.effect

theorem Later.refl (s : State) : Later s s := ⟨fun _ hrow _ => hrow, fun row hrow => ⟨row, hrow, rfl⟩⟩

theorem Later.of_candidates_eq (h : t.candidates = s.candidates) : Later s t :=
  ⟨fun _ hrow _ => h ▸ hrow, fun row hrow => ⟨row, h ▸ hrow, rfl⟩⟩

theorem step_later (h : Chained s.toQueue) (hs : step s op = some t) : Later s t := by
  rcases step_cases h hs with hmoves | ⟨run, now, fence, advancement, -, hadvance⟩
  · refine ⟨fun row hrow hclosed => hmoves.closed h hrow hclosed, fun row hrow => ?_⟩
    obtain ⟨row', hrow', -, heffect⟩ := hmoves.candidate_stays hrow
    exact ⟨row', hrow', heffect⟩
  · obtain ⟨head, accepted, candidate, hlocked, hqueue⟩ := advance_spec hadvance
    have hl := locked_spec hlocked
    have hcandidates := congrArg Queue.candidates hqueue
    refine ⟨fun row hrow hclosed => ?_, fun row hrow => ?_⟩
    · rw [hcandidates]
      exact writeCandidates_closed h hl.candidateRow (h.owns hl.targetRow hl.candidateRow hl.owner).open hrow hclosed
    · rw [hcandidates]
      have hkeeps : Keeps fun row : MergeCandidate =>
          { row with status := .accepted, acceptedGeneration := some (accepted.generation + 1), completedAt := some now } :=
        ⟨fun _ => rfl, fun _ => rfl, fun _ => rfl, fun _ => rfl⟩
      obtain ⟨row', hrow', -, heffect⟩ := mem_writeCandidates hkeeps hrow
      exact ⟨row', hrow', heffect⟩

theorem step_source (h : Chained s.toQueue) (hs : step s op = some t) {row' : MergeCandidate} (hrow : row' ∈ t.candidates) :
    (∃ row ∈ s.candidates, row.effect = row'.effect ∧ row.run = row'.run) ∨
      ∃ row, op.mayInsert s row ∧ row.effect = row'.effect ∧ row.run = row'.run := by
  rcases step_cases h hs with hmoves | ⟨run, now, fence, advancement, -, hadvance⟩
  · exact hmoves.source hrow
  · obtain ⟨head, accepted, candidate, -, hqueue⟩ := advance_spec hadvance
    rw [congrArg Queue.candidates hqueue] at hrow
    exact .inl (writeCandidates_source hrow ⟨fun _ => rfl, fun _ => rfl, fun _ => rfl, fun _ => rfl⟩)

theorem ensureCandidate_effects {id createdAt : Nat} {head : IntegrationHead} {effect : Effect} {candidate : MergeCandidate}
    (h : ensureCandidate s id createdAt head effect = .ok (t, candidate)) : t.effects = s.effects := by
  unfold ensureCandidate at h
  split at h
  · cases h
    rfl
  · split at h
    · cases h
    · obtain ⟨u, hinsert, heq⟩ := Steps.map_ok h
      cases heq
      unfold State.insertCandidate at hinsert
      split at hinsert <;> cases hinsert
      rfl

theorem expire_effects (s : State) (target : Target) (now : Nat) : (expire s target now).effects = s.effects := by
  unfold expire
  split
  · split <;> rfl
  · rfl

theorem acquire_effects {id createdAt now ttl run repository effectId : Nat} {granted : Option IntegrationFence}
    (h : acquire s id createdAt now ttl run repository effectId = .ok (t, granted)) : t.effects = s.effects := by
  unfold acquire at h
  split at h
  · rename_i head effect _ _
    split at h
    · cases h
    · rename_i u candidate hensure
      have heffects : (expire u (repository, head.targetBranch) now).effects = s.effects :=
        (expire_effects u _ now).trans (ensureCandidate_effects hensure)
      split at h
      · cases h
      · dsimp only at h
        split at h
        · cases h
        · split at h
          · cases h
            exact heffects
          · split at h <;> cases h <;> exact heffects
  · cases h

/-- The effect ledger's own operations. -/
def Op.ofEffects : Op → Bool
  | .prepareEffect _ | .recordEffect _ _ => true
  | _ => false

/-- The other operations leave effects alone, except for the receipt of `advance`. -/
theorem step_effects_eq (hs : step s op = some t) (hop : op.ofEffects = false)
    (hadvance : ∀ run now fence advancement, op ≠ .advance run now fence advancement) : t.effects = s.effects := by
  cases op with
  | prepareEffect | recordEffect => cases hop
  | advance run now fence advancement => exact absurd rfl (hadvance run now fence advancement)
  | putArtifact artifact =>
    simp only [step] at hs
    split at hs <;> cases hs
    rfl
  | initializeTarget run repository baseSha branch =>
    have h := Steps.toOption_ok hs
    have hensure : (ensureTarget s repository baseSha branch).1.effects = s.effects := by
      unfold ensureTarget
      split <;> rfl
    unfold initializeTarget at h
    dsimp only at h
    split at h
    · cases h
      exact hensure
    · split at h <;> cases h
      exact hensure
  | queue id createdAt run repository effect request =>
    have h := Steps.toOption_ok hs
    unfold queue at h
    split at h
    · split at h
      · cases h
      · split at h
        · split at h <;> cases h
          rfl
        · unfold State.insertCandidate at h
          split at h <;> cases h
          rfl
    · cases h
  | acquire id createdAt now ttl run repository effect =>
    obtain ⟨⟨u, granted⟩, hok, rfl⟩ := Option.map_eq_some_iff.mp hs
    exact acquire_effects (Steps.toOption_ok hok)
  | renew run now ttl fence =>
    have h := Steps.toOption_ok hs
    unfold renew at h
    split at h <;> cases h
    rfl
  | release run now fence =>
    cases hs
    unfold release
    split <;> rfl
  | reject run now fence conflict =>
    have h := Steps.toOption_ok hs
    unfold reject at h
    split at h <;> cases h
    rfl
  | bindReview run now fence reviewIdentity =>
    have h := Steps.toOption_ok hs
    unfold bindReview at h
    split at h <;> cases h
    rfl

/-- The candidate of the effect has been disposed of. -/
def Disposed (s : State) (effect : Nat) : Prop := ∃ row ∈ s.candidates, row.effect = effect ∧ row.closed

theorem Disposed.later {effect : Nat} (h : Disposed s effect) (hl : Later s t) : Disposed t effect := by
  obtain ⟨row, hrow, heffect, hclosed⟩ := h
  exact ⟨row, hl.closed row hrow hclosed, heffect, hclosed⟩

/-- With one candidate for each effect, it is the one that has been disposed of. -/
theorem Disposed.closed {row : MergeCandidate} (h : Disposed s row.effect) (hc : Chained s.toQueue)
    (hrow : row ∈ s.candidates) : row.closed := by
  obtain ⟨other, hother, heffect, hclosed⟩ := h
  rwa [Keyed.unique hc.effects hother hrow heffect] at hclosed

theorem reject_disposes {run now : Nat} {fence : IntegrationFence} {conflict : Option Conflict}
    (h : reject s run now fence conflict = .ok t) : Disposed t fence.effect := by
  unfold reject at h
  split at h
  · cases h
  · rename_i hlocked
    cases h
    have hl := locked_spec hlocked
    refine ⟨_, Keyed.mem_replace_self hl.candidateRow, hl.effect, ?_⟩
    cases conflict <;> exact ⟨(nomatch ·), (nomatch ·)⟩

theorem advance_disposes {run now : Nat} {fence : IntegrationFence} {advancement : Advancement}
    (h : advance s run now fence advancement = .ok t) : Disposed t fence.effect := by
  unfold advance at h
  split at h
  · cases h
  · rename_i hlocked
    split at h
    · cases h
    · cases h
      have hl := locked_spec hlocked
      refine ⟨_, Keyed.mem_replace_self hl.candidateRow, hl.effect, ?_⟩
      exact ⟨(nomatch ·), (nomatch ·)⟩

theorem advance_effects {run now : Nat} {fence : IntegrationFence} {advancement : Advancement}
    (h : advance s run now fence advancement = .ok t) {effect : Effect} (he : effect ∈ t.effects) :
    ∃ old ∈ s.effects, old.id = effect.id ∧ old.status = effect.status ∧
      (effect.integrationCommitted = old.integrationCommitted ∨ effect.id = fence.effect) := by
  unfold advance at h
  split at h
  · cases h
  · split at h
    · cases h
    · cases h
      rcases Keyed.mem_replace.mp he with ⟨hold, -⟩ | ⟨old, hold, hid, rfl⟩
      · exact ⟨effect, hold, rfl, rfl, .inl rfl⟩
      · exact ⟨old, hold, rfl, rfl, .inr hid⟩

/-- An effect keeps its status, and a receipt is written when its candidate is disposed of. -/
theorem step_effect (hs : step s op = some t) (hop : op.ofEffects = false) {effect : Effect} (he : effect ∈ t.effects) :
    ∃ old ∈ s.effects, old.id = effect.id ∧ old.status = effect.status ∧
      (effect.integrationCommitted = old.integrationCommitted ∨ Disposed t effect.id) := by
  by_cases hadvance : ∃ run now fence advancement, op = .advance run now fence advancement
  · obtain ⟨run, now, fence, advancement, rfl⟩ := hadvance
    have hok := Steps.toOption_ok hs
    obtain ⟨old, hold, hid, hstatus, hsame | hfence⟩ := advance_effects hok he
    · exact ⟨old, hold, hid, hstatus, .inl hsame⟩
    · exact ⟨old, hold, hid, hstatus, .inr (hfence ▸ advance_disposes hok)⟩
  · rw [step_effects_eq hs hop fun run now fence advancement heq => hadvance ⟨run, now, fence, advancement, heq⟩] at he
    exact ⟨effect, he, rfl, rfl, .inl rfl⟩

end Operations

end Jarvis.Integration
