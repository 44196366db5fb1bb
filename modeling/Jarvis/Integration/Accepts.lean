/-
  Jarvis.Integration.Accepts — the accepted heads of a target, one after another, and the heads
  that runs have recorded of it.

  Both are written by `initialize` and `advance` only (`step_pinned`). `seen` is the generation
  of the target when a run's head was written last. In every state (`Recorded`) the target's row
  holds the head of its generation and a run's row the head of the generation it has seen.
-/
import Jarvis.Integration.Chain

namespace Jarvis.Integration

/-- The heads of a target: what it was before anything was accepted, then what was accepted. -/
def Queue.accepts (q : Queue) (seed : Sha) (target : Target) : List Sha := seed :: (q.completedOf target).map (·.headSha)

def IntegrationHead.target (row : IntegrationHead) : Target := (row.repository, row.targetBranch)

/-- The generation a target is at. -/
def State.generation (s : State) (target : Target) : Nat := ((s.target? target).map (·.generation)).getD 0

/-- The generation of the target of a run's head. -/
def State.headGeneration (s : State) (key : Nat × Nat) : Nat :=
  ((s.head? key.1 key.2).map fun head => s.generation head.target).getD 0

/-- The run's head that an operation writes. -/
def Op.records (s : State) : Op → Option (Nat × Nat)
  | .initializeTarget run repository _ _ => if (s.head? run repository).isNone then some (run, repository) else none
  | .advance run _ fence _ => some (run, fence.repository)
  | _ => none

/-- The generations that runs have seen, the newest first, after an operation. -/
def seenAfter (s t : State) (op : Op) (seen : List ((Nat × Nat) × Nat)) : List ((Nat × Nat) × Nat) :=
  match op.records s with
  | none => seen
  | some key => (key, t.headGeneration key) :: seen

section Seen

variable {s t : State} {seen : List ((Nat × Nat) × Nat)} {run repository : Nat} {baseSha : Sha} {branch : String}

theorem seenAfter_new (h : s.head? run repository = none) :
    seenAfter s t (.initializeTarget run repository baseSha branch) seen =
      ((run, repository), t.headGeneration (run, repository)) :: seen := by
  simp [seenAfter, Op.records, h]

theorem seenAfter_old (h : (s.head? run repository).isSome) :
    seenAfter s t (.initializeTarget run repository baseSha branch) seen = seen := by
  simp [seenAfter, Op.records, Option.isNone_eq_false_iff.mpr h]

end Seen

/-! ## What leases leave alone -/

def AcceptedTargetHead.pin (row : AcceptedTargetHead) : Target × Sha × Nat := (row.target, row.headSha, row.generation)

def IntegrationHead.pin (row : IntegrationHead) : (Nat × Nat) × Target × Sha := (row.key, row.target, row.headSha)

/-- Heads and what was accepted stay as they are. -/
structure Pinned (s t : State) : Prop where
  targets : t.targets.map (·.pin) = s.targets.map (·.pin)
  heads : t.heads.map (·.pin) = s.heads.map (·.pin)
  completed : t.completed = s.completed

section Pinned

variable {s t u : State} {run now : Nat} {fence : IntegrationFence} {target : Target}

theorem Pinned.refl (s : State) : Pinned s s := ⟨rfl, rfl, rfl⟩

theorem Pinned.trans (h : Pinned s t) (h' : Pinned t u) : Pinned s u :=
  ⟨h'.targets.trans h.targets, h'.heads.trans h.heads, h'.completed.trans h.completed⟩

theorem pinned_writeCandidate {id : Nat} {f : MergeCandidate → MergeCandidate} : Pinned s (s.writeCandidate id f) :=
  ⟨rfl, rfl, rfl⟩

theorem pinned_insertCandidate {row : MergeCandidate} (h : s.insertCandidate row = .ok t) : Pinned s t := by
  unfold State.insertCandidate at h
  split at h <;> cases h
  exact ⟨rfl, rfl, rfl⟩

theorem pinned_ensureCandidate {id createdAt : Nat} {head : IntegrationHead} {effect : Effect} {candidate : MergeCandidate}
    (h : ensureCandidate s id createdAt head effect = .ok (t, candidate)) : Pinned s t := by
  unfold ensureCandidate at h
  split at h
  · cases h
    exact .refl s
  · split at h
    · cases h
    · obtain ⟨u, hinsert, heq⟩ := Steps.map_ok h
      cases heq
      exact pinned_insertCandidate hinsert

theorem pinned_expire : Pinned s (expire s target now) := by
  unfold expire
  split
  · split
    · exact ⟨Keyed.map_replace_of_eq fun _ => rfl, rfl, rfl⟩
    · exact .refl s
  · exact .refl s

theorem pinned_grant {repository effectId ttl : Nat} {candidate : MergeCandidate} {accepted : AcceptedTargetHead} :
    Pinned s (grant s run repository effectId now ttl candidate accepted).1 :=
  ⟨Keyed.map_replace_of_eq fun _ => rfl, Keyed.map_replace_of_eq fun _ => rfl, rfl⟩

theorem pinned_acquire {id createdAt ttl repository effectId : Nat} {granted : Option IntegrationFence}
    (h : acquire s id createdAt now ttl run repository effectId = .ok (t, granted)) : Pinned s t := by
  unfold acquire at h
  split at h
  · split at h
    · cases h
    · rename_i head _ _ _ _ u candidate hensure
      have hexpired : Pinned s (expire u (repository, head.targetBranch) now) := (pinned_ensureCandidate hensure).trans pinned_expire
      split at h
      · cases h
      · dsimp only at h
        split at h
        · cases h
        · split at h
          · cases h
            exact hexpired
          · split at h <;> cases h
            · exact hexpired
            · exact hexpired.trans pinned_grant
  · cases h

theorem pinned_dropLease : Pinned s (dropLease s run now fence target) :=
  ⟨Keyed.map_replace_of_eq fun _ => rfl, Keyed.map_replace_of_eq fun _ => rfl, rfl⟩

/-- Only `initialize` and `advance` write a head. -/
def Op.recordsHead : Op → Bool
  | .initializeTarget _ _ _ _ | .advance _ _ _ _ => true
  | _ => false

theorem step_pinned {op : Op} (hs : step s op = some t) (hop : op.recordsHead = false) : Pinned s t := by
  cases op with
  | initializeTarget | advance => cases hop
  | prepareEffect effect =>
    simp only [step] at hs
    split at hs <;> cases hs
    exact ⟨rfl, rfl, rfl⟩
  | recordEffect id status =>
    cases hs
    exact ⟨rfl, rfl, rfl⟩
  | putArtifact artifact =>
    simp only [step] at hs
    split at hs <;> cases hs
    exact ⟨rfl, rfl, rfl⟩
  | queue id createdAt run repository effect request =>
    have h := Steps.toOption_ok hs
    unfold queue at h
    split at h
    · split at h
      · cases h
      · split at h
        · split at h <;> cases h
          exact .refl s
        · exact pinned_insertCandidate h
    · cases h
  | acquire id createdAt now ttl run repository effect =>
    obtain ⟨⟨u, granted⟩, hok, rfl⟩ := Option.map_eq_some_iff.mp hs
    exact pinned_acquire (Steps.toOption_ok hok)
  | renew run now ttl fence =>
    have h := Steps.toOption_ok hs
    unfold renew at h
    split at h <;> cases h
    exact ⟨Keyed.map_replace_of_eq fun _ => rfl, Keyed.map_replace_of_eq fun _ => rfl, rfl⟩
  | release run now fence =>
    cases hs
    unfold release
    split
    · exact .refl s
    · exact pinned_dropLease.trans pinned_writeCandidate
  | reject run now fence conflict =>
    have h := Steps.toOption_ok hs
    unfold reject at h
    split at h <;> cases h
    exact pinned_dropLease.trans pinned_writeCandidate
  | bindReview run now fence reviewIdentity =>
    have h := Steps.toOption_ok hs
    unfold bindReview at h
    split at h <;> cases h
    exact pinned_writeCandidate

/-! ## The two operations that record heads -/

/-- The row that `initialize` adds to the targets. -/
def newTarget (repository : Nat) (baseSha : Sha) (branch : String) : AcceptedTargetHead where
  repository
  targetBranch := branch
  headSha := baseSha

/-- The row that `initialize` adds for a run. -/
def newHead (run repository : Nat) (branch : String) (accepted : AcceptedTargetHead) : IntegrationHead where
  run
  repository
  branch
  baseSha := accepted.headSha
  headSha := accepted.headSha
  targetBranch := branch
  generation := accepted.generation

theorem ensureTarget_spec {repository : Nat} {baseSha : Sha} {branch : String} {accepted : AcceptedTargetHead}
    (h : ensureTarget s repository baseSha branch = (t, accepted)) :
    accepted ∈ t.targets ∧ accepted.target = (repository, branch) ∧
      (t = s ∨ s.target? (repository, branch) = none ∧ accepted = newTarget repository baseSha branch ∧
        t = { s with targets := s.targets ++ [newTarget repository baseSha branch] }) := by
  unfold ensureTarget at h
  split at h
  · rename_i hfound
    cases h
    exact ⟨(target?_spec hfound).1, (target?_spec hfound).2, .inl rfl⟩
  · rename_i hnone
    cases h
    exact ⟨List.mem_append_right _ (List.mem_singleton_self _), rfl, .inr ⟨hnone, rfl, rfl⟩⟩

theorem initializeTarget_spec {repository : Nat} {baseSha : Sha} {branch : String}
    (h : initializeTarget s run repository baseSha branch = .ok t) :
    ∃ u accepted, ensureTarget s repository baseSha branch = (u, accepted) ∧
      ((s.head? run repository = none ∧ t = { u with heads := u.heads ++ [newHead run repository branch accepted] }) ∨
        ((s.head? run repository).isSome ∧ t = u)) := by
  cases hensure : ensureTarget s repository baseSha branch with
  | mk u accepted =>
    have hheads : u.head? run repository = s.head? run repository := by
      rcases (ensureTarget_spec hensure).2.2 with rfl | ⟨-, -, rfl⟩ <;> rfl
    refine ⟨u, accepted, rfl, ?_⟩
    unfold initializeTarget at h
    rw [hensure] at h
    dsimp only at h
    split at h
    · rename_i hnone
      cases h
      exact .inl ⟨hheads ▸ hnone, rfl⟩
    · rename_i row hrow
      split at h <;> cases h
      exact .inr ⟨by rw [← hheads, hrow]; rfl, rfl⟩

/-- `advance` moves the head of its target and of its run. -/
theorem advance_heads {advancement : Advancement} (h : advance s run now fence advancement = .ok t) :
    ∃ f : IntegrationHead → IntegrationHead, (∀ row, (f row).key = row.key ∧ (f row).target = row.target ∧ (f row).headSha = advancement.headSha) ∧
      t.heads = Keyed.replace (·.key) (run, fence.repository) f s.heads := by
  unfold advance at h
  split at h
  · cases h
  · split at h <;> cases h
    refine ⟨_, fun row => ?_, rfl⟩
    exact ⟨rfl, rfl, rfl⟩

end Pinned

/-! ## The heads are those of their generations -/

/-- A row holds the head that its target had at a generation. -/
def HeadAt (seed : Target → Sha) (s : State) (target : Target) (generation : Nat) (headSha : Sha) : Prop :=
  (s.accepts (seed target) target)[generation]? = some headSha

/-- `seed` is what a target started from. -/
structure Recorded (seed : Target → Sha) (s : State) (seen : List ((Nat × Nat) × Nat)) : Prop where
  chained : Chained s.toQueue
  keys : (s.heads.map (·.key)).Nodup
  target : ∀ row ∈ s.targets, HeadAt seed s row.target row.generation row.headSha
  known : ∀ head ∈ s.heads, ∃ row ∈ s.targets, row.target = head.target
  head : ∀ head ∈ s.heads, ∃ generation, seen.lookup head.key = some generation ∧ HeadAt seed s head.target generation head.headSha

variable {seed : Target → Sha} {s t : State} {seen : List ((Nat × Nat) × Nat)} {run now : Nat} {fence : IntegrationFence}

theorem recorded_empty : Recorded seed {} [] where
  chained := chained_empty
  keys := List.nodup_nil
  target _ h := nomatch h
  known _ h := nomatch h
  head _ h := nomatch h

/-- There is one head for each generation that the target has been at. -/
theorem Chained.accepts_length (h : Chained s.toQueue) {row : AcceptedTargetHead} (hrow : row ∈ s.targets) (sha : Sha) :
    (s.accepts sha row.target).length = row.generation + 1 := by
  have hlength := congrArg List.length (h.target row hrow).generations
  rw [List.length_map, List.length_range'] at hlength
  unfold Queue.accepts
  rw [List.length_cons, List.length_map, hlength]

theorem HeadAt.of_completed {target : Target} {generation : Nat} {sha : Sha} (h : HeadAt seed s target generation sha)
    (hc : t.completed = s.completed) : HeadAt seed t target generation sha := by
  unfold HeadAt Queue.accepts Queue.completedOf at h ⊢
  rwa [hc]

theorem Pinned.target_from (h : Pinned s t) {row : AcceptedTargetHead} (hrow : row ∈ t.targets) :
    ∃ old ∈ s.targets, old.pin = row.pin := by
  have hmem : row.pin ∈ t.targets.map (·.pin) := List.mem_map_of_mem hrow
  rw [h.targets] at hmem
  exact List.mem_map.mp hmem

theorem Pinned.head_from (h : Pinned s t) {head : IntegrationHead} (hhead : head ∈ t.heads) :
    ∃ old ∈ s.heads, old.pin = head.pin := by
  have hmem : head.pin ∈ t.heads.map (·.pin) := List.mem_map_of_mem hhead
  rw [h.heads] at hmem
  exact List.mem_map.mp hmem

theorem Pinned.symm (h : Pinned s t) : Pinned t s := ⟨h.targets.symm, h.heads.symm, h.completed.symm⟩

theorem Pinned.keys (h : Pinned s t) : t.heads.map (·.key) = s.heads.map (·.key) := by
  have hkeys := congrArg (List.map Prod.fst) h.heads
  rwa [List.map_map, List.map_map] at hkeys

theorem Recorded.pinned (h : Recorded seed s seen) (hp : Pinned s t) (hc : Chained t.toQueue) : Recorded seed t seen where
  chained := hc
  keys := hp.keys ▸ h.keys
  target row hrow := by
    obtain ⟨old, hold, hpin⟩ := hp.target_from hrow
    obtain ⟨htarget, hhead, hgeneration⟩ : old.target = row.target ∧ old.headSha = row.headSha ∧ old.generation = row.generation := by
      simpa [AcceptedTargetHead.pin] using hpin
    rw [← htarget, ← hhead, ← hgeneration]
    exact (h.target old hold).of_completed hp.completed
  known head hhead := by
    obtain ⟨old, hold, hpin⟩ := hp.head_from hhead
    obtain ⟨row, hrow, htarget⟩ := h.known old hold
    obtain ⟨row', hrow', hpin'⟩ := hp.symm.target_from hrow
    exact ⟨row', hrow', (congrArg Prod.fst hpin').trans (htarget.trans (congrArg (·.2.1) hpin))⟩
  head head hhead := by
    obtain ⟨old, hold, hpin⟩ := hp.head_from hhead
    obtain ⟨hkey, htarget, hsha⟩ : old.key = head.key ∧ old.target = head.target ∧ old.headSha = head.headSha := by
      simpa [IntegrationHead.pin] using hpin
    obtain ⟨generation, hseen, hat⟩ := h.head old hold
    rw [hkey] at hseen
    rw [htarget, hsha] at hat
    exact ⟨generation, hseen, hat.of_completed hp.completed⟩

/-- A target that is new starts from its seed. -/
theorem Recorded.ensureTarget {u : State} {repository : Nat} {baseSha : Sha} {branch : String} {accepted : AcceptedTargetHead}
    (h : Recorded seed s seen) (hseed : s.target? (repository, branch) = none → baseSha = seed (repository, branch))
    (hensure : ensureTarget s repository baseSha branch = (u, accepted)) : Recorded seed u seen := by
  have hchained : Chained u.toQueue := by
    have hmoves : Moves (fun _ => False) s.toQueue (Integration.ensureTarget s repository baseSha branch).1.toQueue := ensureTarget_moves
    rw [hensure] at hmoves
    exact h.chained.moves hmoves
  rcases (ensureTarget_spec hensure).2.2 with rfl | ⟨hnone, -, rfl⟩
  · exact h
  · have hnew : ∀ old ∈ s.targets, old.target ≠ (repository, branch) := fun old hold => by
      simpa using List.find?_eq_none.mp hnone old hold
    refine ⟨hchained, h.keys, fun row hrow => ?_, fun head hhead => ?_, fun head hhead => ?_⟩
    · rcases List.mem_append.mp hrow with hold | hrow
      · exact (h.target row hold).of_completed rfl
      · rw [List.mem_singleton.mp hrow]
        exact congrArg some (hseed hnone).symm
    · obtain ⟨row, hrow, htarget⟩ := h.known head hhead
      exact ⟨row, List.mem_append_left _ hrow, htarget⟩
    · obtain ⟨generation, hseen, hat⟩ := h.head head hhead
      exact ⟨generation, hseen, hat.of_completed rfl⟩

theorem generation_of_mem (h : Chained s.toQueue) {row : AcceptedTargetHead} (hrow : row ∈ s.targets) :
    s.generation row.target = row.generation := by
  unfold State.generation State.target?
  rw [Keyed.find?_of_mem h.targets hrow]
  rfl

theorem headGeneration_of_head {key : Nat × Nat} {head : IntegrationHead} (h : s.head? key.1 key.2 = some head) :
    s.headGeneration key = s.generation head.target := by
  unfold State.headGeneration
  rw [h]
  rfl

theorem head?_spec {repository : Nat} {head : IntegrationHead} (h : s.head? run repository = some head) :
    head ∈ s.heads ∧ head.key = (run, repository) :=
  ⟨List.mem_of_find?_eq_some h, by simpa using List.find?_some h⟩

theorem lookup_cons_ne {key other : Nat × Nat} {generation : Nat} (h : other ≠ key) :
    ((key, generation) :: seen).lookup other = seen.lookup other := by
  rw [List.lookup_cons, beq_false_of_ne h]

theorem Recorded.initializeTarget {repository : Nat} {baseSha : Sha} {branch : String} (h : Recorded seed s seen)
    (hseed : s.target? (repository, branch) = none → baseSha = seed (repository, branch))
    (hs : initializeTarget s run repository baseSha branch = .ok t) :
    Recorded seed t (seenAfter s t (.initializeTarget run repository baseSha branch) seen) := by
  obtain ⟨u, accepted, hensure, hcase⟩ := initializeTarget_spec hs
  have hu := h.ensureTarget hseed hensure
  obtain ⟨hmem, htarget, hsame⟩ := ensureTarget_spec hensure
  have hheads : u.heads = s.heads := by rcases hsame with rfl | ⟨-, -, rfl⟩ <;> rfl
  rcases hcase with ⟨hnone, rfl⟩ | ⟨hsome, rfl⟩
  · have hfree : ∀ old ∈ u.heads, old.key ≠ (run, repository) := fun old hold => by
      simpa using List.find?_eq_none.mp hnone old (hheads ▸ hold)
    have hfound : ({ u with heads := u.heads ++ [newHead run repository branch accepted] } : State).head? run repository =
        some (newHead run repository branch accepted) := by
      unfold State.head?
      rw [List.find?_append, hheads, show s.heads.find? _ = none from hnone]
      simp [newHead, IntegrationHead.key]
    have hgeneration : ({ u with heads := u.heads ++ [newHead run repository branch accepted] } : State).headGeneration (run, repository) =
        accepted.generation := by
      rw [headGeneration_of_head hfound, show (newHead run repository branch accepted).target = accepted.target from htarget.symm]
      exact generation_of_mem hu.chained hmem
    rw [seenAfter_new hnone, hgeneration]
    refine ⟨hu.chained, Keyed.nodup_append hu.keys hfree, fun row hrow => (hu.target row hrow).of_completed rfl,
      fun head hhead => ?_, fun head hhead => ?_⟩
    · rcases List.mem_append.mp hhead with hold | hnew
      · exact hu.known head hold
      · rw [List.mem_singleton.mp hnew]
        exact ⟨accepted, hmem, htarget⟩
    · rcases List.mem_append.mp hhead with hold | hnew
      · obtain ⟨generation, hseen, hat⟩ := hu.head head hold
        exact ⟨generation, (lookup_cons_ne (hfree head hold)).trans hseen, hat.of_completed rfl⟩
      · rw [List.mem_singleton.mp hnew]
        refine ⟨accepted.generation, List.lookup_cons_self, ?_⟩
        rw [show (newHead run repository branch accepted).target = accepted.target from htarget.symm]
        exact (hu.target accepted hmem).of_completed rfl
  · rw [seenAfter_old hsome]
    exact hu

/-! ## An integration -/

theorem accepts_append {event : IntegrationCompleted} (hc : t.completed = s.completed ++ [event]) (sha : Sha) (target : Target) :
    t.accepts sha target = s.accepts sha target ++ if event.target = target then [event.headSha] else [] := by
  unfold Queue.accepts Queue.completedOf
  rw [hc, List.filter_append, List.map_append, ← List.cons_append]
  congr 1
  by_cases h : event.target = target <;> simp [h]

theorem HeadAt.append {event : IntegrationCompleted} {target : Target} {generation : Nat} {sha : Sha}
    (h : HeadAt seed s target generation sha) (hc : t.completed = s.completed ++ [event]) : HeadAt seed t target generation sha := by
  unfold HeadAt at h ⊢
  rw [accepts_append hc]
  obtain ⟨hlt, -⟩ := List.getElem?_eq_some_iff.mp h
  rw [List.getElem?_append_left hlt]
  exact h

theorem locked_head {head : IntegrationHead} {accepted : AcceptedTargetHead} {candidate : MergeCandidate}
    (h : locked s run now fence = some (head, accepted, candidate)) : s.head? run fence.repository = some head := by
  unfold locked at h
  split at h
  · cases h
  · rename_i hhead
    split at h
    · split at h <;> cases h
      exact hhead
    · cases h

theorem Recorded.advance {advancement : Advancement} (h : Recorded seed s seen) (hchained : Chained t.toQueue)
    (hs : advance s run now fence advancement = .ok t) :
    Recorded seed t (seenAfter s t (.advance run now fence advancement) seen) := by
  obtain ⟨head, accepted, candidate, hlocked, hqueue⟩ := advance_spec hs
  obtain ⟨f, hf, hheads⟩ := advance_heads hs
  have hl := locked_spec hlocked
  obtain ⟨hhead, hkey⟩ := head?_spec (locked_head hlocked)
  have hon : head.target = accepted.target := by
    rw [hl.target]
    exact congrArg (·, head.targetBranch) (congrArg Prod.snd hkey)
  have hcompleted : t.completed = s.completed ++ [completionEvent accepted candidate advancement.headSha] :=
    congrArg Queue.completed hqueue
  have htargets := congrArg Queue.targets hqueue
  -- the target's row, at its next generation
  let written : AcceptedTargetHead :=
    { accepted with
      headSha := advancement.headSha
      generation := accepted.generation + 1
      leaseOwner := none
      leaseExpiresAt := none }
  have hwritten : written ∈ t.targets := by
    rw [htargets]
    exact Keyed.mem_replace_self hl.targetRow
  have hnew : HeadAt seed t accepted.target (accepted.generation + 1) advancement.headSha := by
    unfold HeadAt
    have hevent : (completionEvent accepted candidate advancement.headSha).target = accepted.target := rfl
    rw [accepts_append hcompleted, if_pos hevent, ← h.chained.accepts_length hl.targetRow (seed accepted.target)]
    exact List.getElem?_concat_length
  have hgeneration : t.headGeneration (run, fence.repository) = accepted.generation + 1 := by
    have hfound : t.head? run fence.repository = some (f head) := by
      unfold State.head?
      rw [hheads]
      exact Keyed.find?_replace_self (fun row hrow => (hf row).1.trans hrow) (locked_head hlocked)
    rw [headGeneration_of_head hfound, (hf head).2.1, hon]
    exact generation_of_mem hchained hwritten
  refine ⟨hchained, ?_, fun row hrow => ?_, fun row hrow => ?_, fun row hrow => ?_⟩
  · rw [hheads, Keyed.map_key_replace fun row hrow => (hf row).1.trans hrow]
    exact h.keys
  · rw [htargets] at hrow
    rcases (Keyed.mem_replace_of_mem h.chained.targets hl.targetRow).mp hrow with ⟨hold, -⟩ | rfl
    · exact (h.target row hold).append hcompleted
    · exact hnew
  · have hthere : ∀ old ∈ s.heads, ∃ row ∈ t.targets, row.target = old.target := fun old hold => by
      obtain ⟨row, hrow, htarget⟩ := h.known old hold
      rw [← htarget, htargets]
      exact h.chained.mem_writeTargets hl.targetRow (by exact fun _ => rfl) hrow
    rw [hheads] at hrow
    rcases Keyed.mem_replace.mp hrow with ⟨hold, -⟩ | ⟨old, hold, -, rfl⟩
    · exact hthere row hold
    · rw [(hf old).2.1]
      exact hthere old hold
  · show ∃ generation, (((run, fence.repository), t.headGeneration (run, fence.repository)) :: seen).lookup row.key = some generation ∧ _
    rw [hgeneration]
    rw [hheads] at hrow
    rcases Keyed.mem_replace.mp hrow with ⟨hold, hother⟩ | ⟨old, hold, hsame, rfl⟩
    · obtain ⟨generation, hseen, hat⟩ := h.head row hold
      exact ⟨generation, (lookup_cons_ne hother).trans hseen, hat.append hcompleted⟩
    · obtain rfl := Keyed.unique h.keys hold hhead (hsame.trans hkey.symm)
      rw [(hf old).1, (hf old).2.1, (hf old).2.2, hsame, hon]
      exact ⟨accepted.generation + 1, List.lookup_cons_self, hnew⟩

theorem Recorded.step {op : Op} (h : Recorded seed s seen) (hs : step s op = some t)
    (hseed : ∀ run repository baseSha branch, op = .initializeTarget run repository baseSha branch →
      s.target? (repository, branch) = none → baseSha = seed (repository, branch)) :
    Recorded seed t (seenAfter s t op seen) := by
  have hchained := h.chained.step hs
  cases op with
  | initializeTarget run repository baseSha branch =>
    exact h.initializeTarget (hseed run repository baseSha branch rfl) (Steps.toOption_ok hs)
  | advance run now fence advancement => exact h.advance hchained (Steps.toOption_ok hs)
  | _ => exact h.pinned (step_pinned hs rfl) hchained

end Jarvis.Integration
