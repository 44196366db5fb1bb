/-
  Jarvis.Integration.Blocking — when a finished integration leaves the line.

  Of the exits of `integrate` the conflict, the refused review and the completion close the
  candidate before they return. The `finally` only releases the lease, which puts the
  candidate back in line: an exit with failed gates or a changed candidate leaves it there
  (`failed_gates_block`), and so does a cancellation or a terminal run that finds it there.
  In runs without those, whatever is finished is out of line (`finished_leaves_line`).
-/
import Jarvis.Integration.Closed
import Jarvis.Integration.Integrator

namespace Jarvis.Integration.Sys

open Jarvis.Runtime (RunStatus DesiredState)

/-- The effect's integration is over: `integrate` has returned something other than 'queued',
    or the effect is cancelled, or its run is terminal. -/
def Over (s : Sys) (effect run : Nat) : Prop :=
  (∃ entry ∈ s.returned, entry.1 = effect ∧ entry.2 ≠ .queued) ∨
  (∃ row ∈ s.state.effects, row.id = effect ∧ row.status = .cancelled) ∨
  ∃ row ∈ s.runs, row.id = run ∧ row.status.terminal

/-- The effect's candidate is in line or integrating. -/
def InLine (s : Sys) (effect : Nat) : Prop := ∃ row ∈ s.state.candidates, row.effect = effect ∧ ¬ row.closed

/-! ## The invariant -/

/-- What a call knows of the candidate of its effect. -/
def PcOk (s : Sys) (effect : Nat) : Pc → Prop
  | .acquiring => ∃ row ∈ s.state.candidates, row.effect = effect
  | .restoring | .releasing _ (some _) => Disposed s.state effect
  | .merging fence | .rejecting fence _ _ | .testing fence | .reviewing fence | .binding fence | .confirming fence
  | .advancing fence => fence.effect = effect
  | _ => True

structure Orderly (s : Sys) : Prop where
  chained : Chained s.state.toQueue
  ids : (s.calls.map (·.id)).Nodup
  receipts : ∀ effect ∈ s.state.effects, effect.integrationCommitted.isSome → Disposed s.state effect.id
  calls : ∀ call ∈ s.calls, s.PcOk call.effect call.pc
  quiet : ∀ row ∈ s.state.candidates, s.Over row.effect row.run → row.closed

variable {s t : Sys} {call : Call} {pc : Pc} {status : IntegrationStatus}

theorem orderly_empty : Orderly {} where
  chained := chained_empty
  ids := List.nodup_nil
  receipts _ h := nomatch h
  calls _ h := nomatch h
  quiet _ h := nomatch h

theorem PcOk.later {effect : Nat} (h : s.PcOk effect pc) (hl : Later s.state t.state) : t.PcOk effect pc := by
  cases pc with
  | acquiring =>
    obtain ⟨row, hrow, rfl⟩ := h
    exact hl.stays row hrow
  | restoring => exact h.later hl
  | releasing fence status =>
    cases status with
    | none => trivial
    | some status => exact h.later hl
  | _ => exact h

/-- Everything that keeps the invariant: the rows are later ones, and whatever is newly over
    has been disposed of. -/
theorem Orderly.of_later (h : Orderly s) (hchained : Chained t.state.toQueue) (hids : (t.calls.map (·.id)).Nodup)
    (hl : Later s.state t.state)
    (hreceipts : ∀ effect ∈ t.state.effects, effect.integrationCommitted.isSome →
      (∃ old ∈ s.state.effects, old.id = effect.id ∧ old.integrationCommitted.isSome) ∨ Disposed t.state effect.id)
    (hcalls : ∀ call ∈ t.calls, call ∈ s.calls ∨ t.PcOk call.effect call.pc)
    (hquiet : ∀ row' ∈ t.state.candidates, t.Over row'.effect row'.run →
      (∃ row ∈ s.state.candidates, row.effect = row'.effect ∧ s.Over row.effect row.run) ∨ row'.closed) : Orderly t where
  chained := hchained
  ids := hids
  receipts effect heffect hsome := by
    rcases hreceipts effect heffect hsome with ⟨old, hold, hid, hsome'⟩ | hdisposed
    · exact hid ▸ (h.receipts old hold hsome').later hl
    · exact hdisposed
  calls call hcall := by
    rcases hcalls call hcall with hold | hok
    · exact (h.calls call hold).later hl
    · exact hok
  quiet row' hrow' hover := by
    rcases hquiet row' hrow' hover with ⟨row, hrow, heffect, hover'⟩ | hclosed
    · have hclosed := h.quiet row hrow hover'
      have hdisposed : Disposed t.state row'.effect := ⟨row, hl.closed row hrow hclosed, heffect, hclosed⟩
      exact hdisposed.closed hchained hrow'
    · exact hclosed

/-! ## Steps that leave the rows alone -/

theorem Orderly.mem_setPc (h : Orderly s) (hcall : call ∈ s.calls) {other : Call} (hother : other ∈ (s.setPc call pc).calls) :
    other ∈ s.calls ∨ other = { call with pc } :=
  ((Keyed.mem_replace_of_mem h.ids hcall).mp hother).imp_left And.left

theorem Orderly.setPc_ids (h : Orderly s) (call : Call) (pc : Pc) : ((s.setPc call pc).calls.map (·.id)).Nodup := by
  rw [show (s.setPc call pc).calls.map (·.id) = _ from Keyed.map_key_replace fun _ hrow => hrow]
  exact h.ids

theorem Orderly.setPc (h : Orderly s) (hcall : call ∈ s.calls) (hpc : s.PcOk call.effect pc) : Orderly (s.setPc call pc) := by
  refine h.of_later h.chained (h.setPc_ids call _) (.refl _) (fun effect heffect hsome => .inl ⟨effect, heffect, rfl, hsome⟩)
    (fun other hother => ?_) fun row hrow hover => .inl ⟨row, hrow, rfl, hover⟩
  rcases h.mem_setPc hcall hother with hold | rfl
  · exact .inl hold
  · exact .inr hpc

theorem Orderly.drop (h : Orderly s) : Orderly (s.drop call) :=
  h.of_later h.chained (h.ids.sublist (List.filter_sublist.map _)) (.refl _)
    (fun effect heffect hsome => .inl ⟨effect, heffect, rfl, hsome⟩)
    (fun _ hother => .inl (List.mem_of_mem_filter hother)) fun row hrow hover => .inl ⟨row, hrow, rfl, hover⟩

/-- `integrate` returns after its candidate is out of line. -/
theorem Orderly.return_ (h : Orderly s) (hcall : call ∈ s.calls) (hout : status = .queued ∨ ¬ s.InLine call.effect) :
    Orderly (s.return_ call status) := by
  have hpc : s.PcOk call.effect (if status = .queued then .waiting else .settling status) := by
    split <;> trivial
  refine h.of_later h.chained (h.setPc_ids call _) (.refl _) (fun effect heffect hsome => .inl ⟨effect, heffect, rfl, hsome⟩)
    (fun other hother => ?_) fun row hrow hover => ?_
  · rcases h.mem_setPc hcall hother with hold | rfl
    · exact .inl hold
    · exact .inr hpc
  · rcases hover with ⟨entry, hmem, heffect, hne⟩ | hrest
    · rcases List.mem_append.mp hmem with hold | hnew
      · exact .inl ⟨row, hrow, rfl, .inl ⟨entry, hold, heffect, hne⟩⟩
      · obtain rfl := List.mem_singleton.mp hnew
        rcases hout with hqueued | hout
        · exact absurd hqueued hne
        · exact .inr (not_not.mp fun hopen => hout ⟨row, hrow, heffect.symm, hopen⟩)
    · exact .inl ⟨row, hrow, rfl, .inr hrest⟩

theorem Orderly.not_inLine (h : Orderly s) {effect : Nat} (hd : Disposed s.state effect) : ¬ s.InLine effect := by
  rintro ⟨row, hrow, rfl, hopen⟩
  exact hopen (hd.closed h.chained hrow)

/-! ## Steps that write rows -/

/-- An operation that is not of the effect ledger. -/
theorem Orderly.operate (h : Orderly s) {op : Op} {state : State} (hs : Integration.step s.state op = some state)
    (hop : op.ofEffects = false) (hinsert : ∀ row, op.mayInsert s.state row → ¬ s.Over row.effect row.run) :
    Orderly { s with state } := by
  refine h.of_later (h.chained.step hs) h.ids (step_later h.chained hs) (fun effect heffect hsome => ?_)
    (fun _ hcall => .inl hcall) fun row' hrow' hover => .inl ?_
  · obtain ⟨old, hold, hid, -, hsame | hdisposed⟩ := step_effect hs hop heffect
    · exact .inl ⟨old, hold, hid, hsame ▸ hsome⟩
    · exact .inr hdisposed
  · have hbefore : s.Over row'.effect row'.run := by
      rcases hover with hreturned | ⟨effect, heffect, hid, hstatus⟩ | hterminal
      · exact .inl hreturned
      · obtain ⟨old, hold, hid', hstatus', -⟩ := step_effect hs hop heffect
        exact .inr (.inl ⟨old, hold, hid'.trans hid, hstatus'.trans hstatus⟩)
      · exact .inr (.inr hterminal)
    rcases step_source h.chained hs hrow' with ⟨row, hrow, heffect, hrun⟩ | ⟨row, hmay, heffect, hrun⟩
    · exact ⟨row, hrow, heffect, by rwa [heffect, hrun]⟩
    · exact absurd (by rwa [heffect, hrun]) (hinsert row hmay)

/-- A status or a result is recorded for an effect. -/
theorem Orderly.writeEffect (h : Orderly s) {id : Nat} {f : Effect → Effect}
    (hf : ∀ effect, (f effect).id = effect.id ∧ (f effect).integrationCommitted = effect.integrationCommitted)
    (hcancel : (∀ effect, (f effect).status = .cancelled → effect.status = .cancelled) ∨ ¬ s.InLine id) :
    Orderly { s with state := s.state.writeEffect id f } := by
  have hl : Later s.state (s.state.writeEffect id f) := .of_candidates_eq rfl
  refine h.of_later h.chained h.ids hl (fun effect heffect hsome => .inl ?_) (fun _ hcall => .inl hcall) fun row hrow hover => ?_
  · rcases Keyed.mem_replace.mp heffect with ⟨hold, -⟩ | ⟨old, hold, -, rfl⟩
    · exact ⟨effect, hold, rfl, hsome⟩
    · exact ⟨old, hold, (hf old).1.symm, (hf old).2 ▸ hsome⟩
  · rcases hover with hreturned | ⟨effect, heffect, hid, hstatus⟩ | hterminal
    · exact .inl ⟨row, hrow, rfl, .inl hreturned⟩
    · rcases Keyed.mem_replace.mp heffect with ⟨hold, -⟩ | ⟨old, hold, hold_id, rfl⟩
      · exact .inl ⟨row, hrow, rfl, .inr (.inl ⟨effect, hold, hid, hstatus⟩)⟩
      · rcases hcancel with hcancel | hout
        · exact .inl ⟨row, hrow, rfl, .inr (.inl ⟨old, hold, (hf old).1.symm.trans hid, hcancel old hstatus⟩)⟩
        · refine .inr (not_not.mp fun hopen => hout ⟨row, hrow, ?_, hopen⟩)
          exact hid.symm.trans ((hf old).1.trans hold_id)
    · exact .inl ⟨row, hrow, rfl, .inr (.inr hterminal)⟩

/-! ## Runs that dispose of what they finish -/

/-- A call does not fail its gates or find its candidate changed while that is in line, does
    not queue a candidate when the integration is over, and does not cancel what is in line. -/
def CallDisposes (s : Sys) (call : Call) : CallMove → Prop
  | .capture false => ¬ s.InLine call.effect
  | .queue _ _ => ¬ s.Over call.effect call.run
  | .gates false | .confirm false => Disposed s.state call.effect
  | .poll | .settle => s.cancelling call.run → ¬ s.InLine call.effect
  | _ => True

/-- Nor does the ledger cancel an effect, or the runtime end a run, whose candidate is in line. -/
def Disposes (s : Sys) : Action → Prop
  | .ledger (.recordEffect id .cancelled) => ¬ s.InLine id
  | .control run status _ => status.terminal → ∀ row ∈ s.state.candidates, row.run = run → row.closed
  | .call id move => ∀ call ∈ s.calls, call.id = id → s.CallDisposes call move
  | _ => True

instance (s : Sys) (effect run : Nat) : Decidable (s.Over effect run) := inferInstanceAs (Decidable (_ ∨ _ ∨ _))

instance (s : Sys) (effect : Nat) : Decidable (s.InLine effect) := inferInstanceAs (Decidable (∃ _ ∈ _, _))

instance (s : State) (effect : Nat) : Decidable (Disposed s effect) := inferInstanceAs (Decidable (∃ _ ∈ _, _))

instance (s : Sys) (call : Call) (move : CallMove) : Decidable (s.CallDisposes call move) := by
  unfold CallDisposes
  split <;> infer_instance

instance (s : Sys) (action : Action) : Decidable (s.Disposes action) := by
  unfold Disposes
  split <;> infer_instance

theorem Orderly.ledger (h : Orderly s) {op : Op} (hop : op.ofLedger) {state : State} (hd : s.Disposes (.ledger op))
    (hs : Integration.step s.state op = some state) : Orderly { s with state } := by
  cases op with
  | prepareEffect effect =>
    simp only [Integration.step] at hs
    split at hs
    · cases hs
    · cases hs
      refine h.of_later h.chained h.ids (.of_candidates_eq rfl) (fun other hother hsome => .inl ?_) (fun _ hcall => .inl hcall)
        fun row hrow hover => .inl ⟨row, hrow, rfl, ?_⟩
      · rcases List.mem_append.mp hother with hold | hnew
        · exact ⟨other, hold, rfl, hsome⟩
        · rw [List.mem_singleton.mp hnew] at hsome
          cases hsome
      · rcases hover with hreturned | ⟨other, hother, hid, hstatus⟩ | hterminal
        · exact .inl hreturned
        · rcases List.mem_append.mp hother with hold | hnew
          · exact .inr (.inl ⟨other, hold, hid, hstatus⟩)
          · rw [List.mem_singleton.mp hnew] at hstatus
            cases hstatus
        · exact .inr (.inr hterminal)
  | recordEffect id status =>
    cases hs
    refine h.writeEffect (fun _ => ⟨rfl, rfl⟩) ?_
    by_cases hcancelled : status = .cancelled
    · subst hcancelled
      exact .inr hd
    · exact .inl fun _ hstatus => absurd hstatus hcancelled
  | putArtifact artifact => exact h.operate hs rfl fun _ hmay => hmay.elim
  | initializeTarget run repository baseSha branch => exact h.operate hs rfl fun _ hmay => hmay.elim
  | _ => cases hop

theorem Orderly.control (h : Orderly s) {run : Nat} {status : RunStatus} {desiredState : DesiredState}
    (hd : s.Disposes (.control run status desiredState)) :
    Orderly { s with runs := Keyed.replace (·.id) run (fun row => { row with status, desiredState }) s.runs } := by
  refine h.of_later h.chained h.ids (.refl _) (fun effect heffect hsome => .inl ⟨effect, heffect, rfl, hsome⟩)
    (fun _ hcall => .inl hcall) fun row hrow hover => ?_
  rcases hover with hreturned | hcancelled | ⟨other, hother, hid, hterminal⟩
  · exact .inl ⟨row, hrow, rfl, .inl hreturned⟩
  · exact .inl ⟨row, hrow, rfl, .inr (.inl hcancelled)⟩
  · rcases Keyed.mem_replace.mp hother with ⟨hold, -⟩ | ⟨old, -, hrun, rfl⟩
    · exact .inl ⟨row, hrow, rfl, .inr (.inr ⟨other, hold, hid, hterminal⟩)⟩
    · exact .inr (hd hterminal row hrow (hid.symm.trans hrun))

theorem acquire_fence {state state' : State} {id createdAt now ttl run repository effect : Nat} {fence : IntegrationFence}
    (h : acquire state id createdAt now ttl run repository effect = .ok (state', some fence)) : fence.effect = effect := by
  unfold acquire at h
  split at h
  · split at h
    · cases h
    · split at h
      · cases h
      · dsimp only at h
        split at h
        · cases h
        · split at h
          · cases h
          · split at h <;> cases h
            rfl
  · cases h

/-- After `queue` the effect has a candidate. -/
theorem queue_candidate {state state' : State} {id createdAt run repository effect : Nat} {request : QueueRequest}
    (h : queue state id createdAt run repository effect request = .ok state') :
    ∃ row ∈ state'.candidates, row.effect = effect := by
  unfold queue at h
  split at h
  · split at h
    · cases h
    · split at h
      · rename_i hexisting
        split at h <;> cases h
        exact ⟨_, candidateOf_spec hexisting⟩
      · unfold State.insertCandidate at h
        split at h <;> cases h
        exact ⟨_, List.mem_append_right _ (List.mem_singleton_self _), rfl⟩
  · cases h

theorem candidateOf_ne_none {state : State} {effect : Nat} (h : ∃ row ∈ state.candidates, row.effect = effect) :
    state.candidateOf effect ≠ none := by
  obtain ⟨row, hrow, heffect⟩ := h
  intro hnone
  simpa [heffect] using List.find?_eq_none.mp hnone row hrow

/-- The `finally` of a lease, whatever becomes of the lease itself. -/
theorem Orderly.leave (h : Orderly s) (hcall : call ∈ s.calls) {result : Option IntegrationStatus}
    (hout : ∀ status, result = some status → Disposed s.state call.effect) : Orderly (leave s call result) := by
  cases result with
  | none => exact h.drop
  | some status => exact h.return_ hcall (.inr (h.not_inLine (hout status rfl)))

/-- The effect's receipt says that its candidate was accepted. -/
theorem Orderly.readReceipt_disposed (h : Orderly s) {receipt : Option Receipt} (hread : readReceipt s call = some receipt)
    (hsome : receipt.isSome) : Disposed s.state call.effect := by
  unfold readReceipt at hread
  split at hread
  · cases hread
  · rename_i effect heffect
    split at hread
    · cases hread
    · cases hread
      have hid : effect.id = call.effect := by simpa using List.find?_some heffect
      exact hid ▸ h.receipts effect (List.mem_of_find?_eq_some heffect) hsome

theorem Orderly.callStep {move : CallMove} (h : Orderly s) (hcall : call ∈ s.calls) (hd : s.CallDisposes call move)
    (hs : callStep s call move = some t) : Orderly t := by
  have hpc := h.calls call hcall
  cases move with
  | read =>
    simp only [Integration.callStep] at hs
    split at hs
    · obtain ⟨receipt, hreceipt, rfl⟩ := Option.map_eq_some_iff.mp hs
      refine h.setPc hcall ?_
      split
      · rename_i hsome
        exact h.readReceipt_disposed hreceipt hsome
      · trivial
    · cases hs
  | restore =>
    simp only [Integration.callStep] at hs
    split at hs
    · rename_i hrestoring
      cases hs
      rw [hrestoring] at hpc
      exact h.return_ hcall (.inr (h.not_inLine hpc))
    · cases hs
  | capture valid =>
    simp only [Integration.callStep] at hs
    split at hs
    · cases hs
    · cases valid with
      | true =>
        cases hs
        exact h.setPc hcall trivial
      | false =>
        split at hs
        · contradiction
        · split at hs <;> cases hs
          exact h.return_ hcall (.inr hd)
  | queue id createdAt =>
    simp only [Integration.callStep] at hs
    split at hs
    · obtain ⟨state, hok, rfl⟩ := Option.map_eq_some_iff.mp hs
      have hop : Integration.step s.state (.queue id createdAt call.run call.repository call.effect call.request) = some state := hok
      have hnext := h.operate hop rfl fun row hmay => by
        rw [hmay.1, hmay.2.1]
        exact hd
      exact hnext.setPc hcall (queue_candidate (Steps.toOption_ok hok))
    · cases hs
  | acquire id createdAt now ttl =>
    simp only [Integration.callStep] at hs
    split at hs
    · rename_i hacquiring
      obtain ⟨⟨state, granted⟩, hok, heq⟩ := Option.map_eq_some_iff.mp hs
      rw [hacquiring.1] at hpc
      have hop : Integration.step s.state (.acquire id createdAt now ttl call.run call.repository call.effect) = some state := by
        simp only [Integration.step, hok, Option.map_some]
      have hnext := h.operate hop rfl fun row hmay => absurd hmay.2.2 (candidateOf_ne_none hpc)
      cases granted with
      | none =>
        cases heq
        exact hnext.return_ hcall (.inl rfl)
      | some fence =>
        cases heq
        exact hnext.setPc hcall (acquire_fence (Steps.toOption_ok hok))
    · cases hs
  | merge conflictingPaths =>
    simp only [Integration.callStep] at hs
    split at hs
    · rename_i fence hmerging
      rw [hmerging] at hpc
      split at hs <;> cases hs <;> exact h.setPc hcall hpc
    · cases hs
  | gates passed =>
    simp only [Integration.callStep] at hs
    split at hs
    · rename_i fence htesting
      rw [htesting] at hpc
      cases passed with
      | false =>
        cases hs
        exact h.setPc hcall hd
      | true =>
        split at hs
        · contradiction
        · split at hs <;> cases hs <;> exact h.setPc hcall hpc
    · cases hs
  | review passed =>
    simp only [Integration.callStep] at hs
    split at hs
    · rename_i fence hreviewing
      rw [hreviewing] at hpc
      cases hs
      cases passed <;> exact h.setPc hcall hpc
    · cases hs
  | reject now =>
    simp only [Integration.callStep] at hs
    split at hs
    · rename_i fence status conflict hrejecting
      rw [hrejecting] at hpc
      split at hs
      · obtain ⟨state, hok, rfl⟩ := Option.map_eq_some_iff.mp hs
        have hop : Integration.step s.state (.reject call.run now fence conflict) = some state := hok
        have hdisposed : Disposed state call.effect := (show fence.effect = call.effect from hpc) ▸ reject_disposes (Steps.toOption_ok hok)
        exact (h.operate hop rfl fun _ hmay => hmay.elim).setPc hcall hdisposed
      · cases hs
    · cases hs
  | bindReview now reviewIdentity =>
    simp only [Integration.callStep] at hs
    split at hs
    · rename_i fence hbinding
      rw [hbinding] at hpc
      split at hs
      · obtain ⟨state, hok, rfl⟩ := Option.map_eq_some_iff.mp hs
        have hop : Integration.step s.state (.bindReview call.run now fence reviewIdentity) = some state := hok
        exact (h.operate hop rfl fun _ hmay => hmay.elim).setPc hcall hpc
      · cases hs
    · cases hs
  | confirm valid =>
    simp only [Integration.callStep] at hs
    split at hs
    · rename_i fence hconfirming
      rw [hconfirming] at hpc
      cases valid with
      | true =>
        cases hs
        exact h.setPc hcall hpc
      | false =>
        split at hs
        · contradiction
        · split at hs <;> cases hs
          exact h.setPc hcall hd
    · cases hs
  | advance now advancement =>
    simp only [Integration.callStep] at hs
    split at hs
    · rename_i fence hadvancing
      rw [hadvancing] at hpc
      split at hs
      · obtain ⟨state, hok, rfl⟩ := Option.map_eq_some_iff.mp hs
        have hop : Integration.step s.state (.advance call.run now fence advancement) = some state := hok
        have hdisposed : Disposed state call.effect := (show fence.effect = call.effect from hpc) ▸ advance_disposes (Steps.toOption_ok hok)
        exact (h.operate hop rfl fun _ hmay => hmay.elim).setPc hcall hdisposed
      · cases hs
    · cases hs
  | renew now ttl =>
    simp only [Integration.callStep] at hs
    split at hs
    · rename_i fence _
      split at hs
      · obtain ⟨state, hok, rfl⟩ := Option.map_eq_some_iff.mp hs
        have hop : Integration.step s.state (.renew call.run now ttl fence) = some state := hok
        exact h.operate hop rfl fun _ hmay => hmay.elim
      · cases hs
    · cases hs
  | release now =>
    simp only [Integration.callStep] at hs
    split at hs
    · rename_i fence result hreleasing
      rw [hreleasing] at hpc
      split at hs
      · cases hs
        have hop : Integration.step s.state (.release call.run now fence) = some (release s.state call.run now fence) := rfl
        refine (h.operate hop rfl fun _ hmay => hmay.elim).leave hcall fun status hsome => ?_
        rw [hsome] at hpc
        exact hpc.later (step_later h.chained hop)
      · cases hs
    · cases hs
  | abandon =>
    simp only [Integration.callStep] at hs
    split at hs
    · rename_i result hreleasing
      rw [hreleasing] at hpc
      cases hs
      refine h.leave hcall fun status hsome => ?_
      rw [hsome] at hpc
      exact hpc
    · cases hs
  | poll =>
    simp only [Integration.callStep] at hs
    split at hs
    · split at hs
      · rename_i hcancelling
        cases hs
        refine Orderly.drop (h.writeEffect (fun _ => ?_) (.inr (hd hcancelling)))
        exact ⟨rfl, rfl⟩
      · cases hs
        exact h.setPc hcall trivial
    · cases hs
  | settle =>
    simp only [Integration.callStep] at hs
    split at hs
    · split at hs
      · cases hs
        refine Orderly.drop (h.writeEffect (fun effect => ?_) ?_)
        · split <;> exact ⟨rfl, rfl⟩
        · by_cases hcancelling : s.cancelling call.run
          · exact .inr (hd hcancelling)
          · refine .inl fun effect hstatus => ?_
            rwa [if_neg hcancelling] at hstatus
      · cases hs
    · cases hs
  | raise =>
    simp only [Integration.callStep] at hs
    split at hs
    · cases hs
      exact h.setPc hcall trivial
    · cases hs
      exact h.drop
  | crash =>
    cases hs
    exact h.drop

theorem Orderly.step {action : Action} (h : Orderly s) (hd : s.Disposes action) (hs : s.step action = some t) : Orderly t := by
  cases action with
  | ledger op =>
    simp only [Sys.step] at hs
    split at hs
    · rename_i hop
      obtain ⟨state, hstate, rfl⟩ := Option.map_eq_some_iff.mp hs
      exact h.ledger hop hd hstate
    · cases hs
  | createRun id =>
    simp only [Sys.step] at hs
    split at hs
    · cases hs
    · cases hs
      refine h.of_later h.chained h.ids (.refl _) (fun effect heffect hsome => .inl ⟨effect, heffect, rfl, hsome⟩)
        (fun _ hcall => .inl hcall) fun row hrow hover => .inl ⟨row, hrow, rfl, ?_⟩
      rcases hover with hreturned | hcancelled | ⟨other, hother, hid, hterminal⟩
      · exact .inl hreturned
      · exact .inr (.inl hcancelled)
      · rcases List.mem_append.mp hother with hold | hnew
        · exact .inr (.inr ⟨other, hold, hid, hterminal⟩)
        · rw [List.mem_singleton.mp hnew] at hterminal
          cases hterminal
  | control run status desiredState =>
    cases hs
    exact h.control hd
  | dispatch call =>
    simp only [Sys.step] at hs
    split at hs
    · rename_i hfresh
      cases hs
      have hnew : ∀ old ∈ s.calls, old.id ≠ call.id := fun old hold heq => by
        have hnone := List.find?_eq_none.mp (Option.isNone_iff_eq_none.mp hfresh.1) old hold
        exact hnone (decide_eq_true heq)
      refine h.of_later h.chained (Keyed.nodup_append h.ids hnew) (.refl _) (fun effect heffect hsome => .inl ⟨effect, heffect, rfl, hsome⟩)
        (fun other hother => ?_) fun row hrow hover => .inl ⟨row, hrow, rfl, hover⟩
      rcases List.mem_append.mp hother with hold | hnew
      · exact .inl hold
      · rw [List.mem_singleton.mp hnew]
        exact .inr trivial
    · cases hs
  | call id move =>
    obtain ⟨call, hcall, hs⟩ := Option.bind_eq_some_iff.mp hs
    have hmem := List.mem_of_find?_eq_some hcall
    exact h.callStep hmem (hd call hmem (by simpa using List.find?_some hcall)) hs

theorem reach_orderly (h : Steps.ReachIf step Disposes {} s) : Orderly s :=
  h.invariant Orderly orderly_empty fun _ _ _ ho hd hs => ho.step hd hs

/-- No integration that is over is queued, or integrating under a live lease. -/
def Unblocked (s : Sys) : Prop :=
  ∀ row ∈ s.state.candidates, s.Over row.effect row.run →
    row.status ≠ .queued ∧ ∀ now, ¬ (row.status = .integrating ∧ Holds s.state.toQueue now row)

/-- In runs that dispose of what they finish, no integration that is over is in line, and the
    first in line of a target is never one. -/
theorem finished_leaves_line (h : Steps.ReachIf step Disposes {} s) :
    s.Unblocked ∧ ∀ target row, first s.state target = some row → ¬ s.Over row.effect row.run := by
  have ho := reach_orderly h
  refine ⟨fun row hrow hover => ?_, fun target row hfirst hover => ?_⟩
  · have hclosed := ho.quiet row hrow hover
    exact ⟨hclosed.1, fun _ hintegrating => hclosed.2 hintegrating.1⟩
  · obtain ⟨hrow, -, hqueued⟩ := first_spec hfirst
    exact (ho.quiet row hrow hover).1 hqueued

/-! ## Two exits -/

/-- Two runs with an integrate effect for one branch; the first is dispatched and gets the lease. -/
def leased : List Action :=
  [.createRun 1, .createRun 2,
    .ledger (.prepareEffect { id := 1, run := 1, taskAttempt := some 7, kind := .integrate }),
    .ledger (.prepareEffect { id := 2, run := 2, taskAttempt := some 8, kind := .integrate }),
    .ledger (.initializeTarget 1 10 100 "main"), .ledger (.initializeTarget 2 10 100 "main"),
    .dispatch { id := 1, run := 1, effect := 1, repository := 10, request := ⟨7, 100, 201, 0, 0, 0, 0⟩, latestBaseSha := 100 },
    .call 1 .read, .call 1 (.capture true), .call 1 (.queue 1 0), .call 1 (.acquire 0 0 5 30)]

/-- The second asks for the lease after the first has returned. -/
def second : List Action :=
  [.dispatch { id := 2, run := 2, effect := 2, repository := 10, request := ⟨8, 100, 202, 0, 0, 0, 0⟩, latestBaseSha := 100 },
    .call 2 .read, .call 2 (.capture true), .call 2 (.queue 2 9), .call 2 (.acquire 0 0 20 30)]

/-- A merge conflict leaves the line, and the second gets the lease. -/
def conflicted : List Action :=
  leased ++ [.call 1 (.merge (some ["main.py"])), .call 1 (.reject 8), .call 1 (.release 9), .call 1 .settle] ++ second

theorem finished_leaves_line_conflict : ∃ s, Steps.runIf step Disposes {} conflicted = some s ∧
    s.returned = [(1, .gitConflict)] ∧ (s.call? 2).map (·.pc) = some (.merging ⟨10, 2, 2, 100⟩) ∧ s.Unblocked := by
  obtain ⟨s, hs⟩ : ∃ s, Steps.runIf step Disposes {} conflicted = some s := ⟨_, rfl⟩
  have hreturned : s.returned = [(1, .gitConflict)] ∧ (s.call? 2).map (·.pc) = some (.merging ⟨10, 2, 2, 100⟩) := by
    cases hs
    decide
  exact ⟨s, hs, hreturned.1, hreturned.2, (finished_leaves_line (Steps.runIf_reachIf conflicted hs)).1⟩

/-- Failed gates leave the candidate at the head of the line. -/
def failedGates : List Action :=
  leased ++ [.call 1 (.merge none), .call 1 (.gates false), .call 1 (.release 9), .call 1 .settle] ++ second

/-- `integrate` has returned a test failure for the first, and the second has to wait behind it. -/
theorem failed_gates_block : ∃ s, Reach s ∧ ¬ s.Unblocked ∧ s.returned = [(1, .testFailure), (2, .queued)] ∧
    (first s.state (10, "main")).map (·.effect) = some 1 := by
  obtain ⟨s, hs⟩ : ∃ s, Steps.run step {} failedGates = some s := ⟨_, rfl⟩
  have hdead : (∃ row ∈ s.state.candidates, s.Over row.effect row.run ∧ row.status = .queued) ∧
      s.returned = [(1, .testFailure), (2, .queued)] ∧ (first s.state (10, "main")).map (·.effect) = some 1 := by
    cases hs
    decide
  obtain ⟨⟨row, hrow, hover, hqueued⟩, hreturned, hfirst⟩ := hdead
  exact ⟨s, Steps.run_reach failedGates hs, fun h => (h row hrow hover).1 hqueued, hreturned, hfirst⟩

end Jarvis.Integration.Sys
