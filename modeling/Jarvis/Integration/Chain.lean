/-
  Jarvis.Integration.Chain — the chain of accepted heads of a target.

  Whatever an operation does to targets, candidates and the events of both is a sequence of
  `Move`s (`step_moves`): a lease is granted to the first queued candidate, extended, taken
  away, or used up by the head that its holder advances to. The invariant (`Chained`) ties
  the lease of a target to its one integrating candidate and to the last lease acquired, and
  each accepted candidate to the event of its acceptance; the accepted heads of a target are
  linked, each replacing the one before it.
-/
import Jarvis.Integration.Leases
import Jarvis.Lib.Linked
import Mathlib.Logic.Relation

namespace Jarvis.Integration

namespace Queue

/-- The leases of a target, in the order they were acquired. -/
def acquiredOf (q : Queue) (target : Target) : List LeaseAcquired := q.acquired.filter (·.target = target)

/-- The integrations of a target, in the order they were completed. -/
def completedOf (q : Queue) (target : Target) : List IntegrationCompleted := q.completed.filter (·.target = target)

end Queue

/-- The targets of a queue, one of them rewritten. -/
def writeTargets (accepted : AcceptedTargetHead) (f : AcceptedTargetHead → AcceptedTargetHead) (q : Queue) : List AcceptedTargetHead :=
  Keyed.replace (·.target) accepted.target f q.targets

/-- The candidates of a queue, one of them rewritten. -/
def writeCandidates (candidate : MergeCandidate) (g : MergeCandidate → MergeCandidate) (q : Queue) : List MergeCandidate :=
  Keyed.replace (·.id) candidate.id g q.candidates

/-- A rewrite of a candidate that keeps what it is. -/
structure Keeps (f : MergeCandidate → MergeCandidate) : Prop where
  id : ∀ row, (f row).id = row.id
  effect : ∀ row, (f row).effect = row.effect
  run : ∀ row, (f row).run = row.run
  target : ∀ row, (f row).target = row.target

/-- The event of a lease that is granted. -/
def leaseEvent (accepted : AcceptedTargetHead) (candidate : MergeCandidate) (generation : Nat) : LeaseAcquired where
  repository := accepted.repository
  targetBranch := accepted.targetBranch
  effect := candidate.effect
  generation
  baseSha := accepted.headSha

/-- The event of a head that is advanced. -/
def completionEvent (accepted : AcceptedTargetHead) (candidate : MergeCandidate) (headSha : Sha) : IntegrationCompleted where
  repository := accepted.repository
  targetBranch := accepted.targetBranch
  generation := accepted.generation + 1
  effect := candidate.effect
  baseSha := accepted.headSha
  headSha

/-! ## What an operation does -/

/-- One change of the queue that leaves the accepted heads as they are; `inserts` says which
    candidates it may add. -/
inductive Move (inserts : MergeCandidate → Prop) (q : Queue) : Queue → Prop
  | target (row : AcceptedTargetHead) (hnew : ∀ old ∈ q.targets, old.target ≠ row.target)
      (hidle : row.leaseOwner = none ∧ row.leaseGeneration = 0 ∧ row.generation = 0) :
      Move inserts q { q with targets := q.targets ++ [row] }
  | candidate (row : MergeCandidate) (hid : ∀ old ∈ q.candidates, old.id ≠ row.id)
      (heffect : ∀ old ∈ q.candidates, old.effect ≠ row.effect) (hqueued : row.status = .queued) (hinserts : inserts row) :
      Move inserts q { q with candidates := q.candidates ++ [row] }
  /-- The lease is extended. -/
  | extend (accepted : AcceptedTargetHead) (candidate : MergeCandidate) (expiresAt : Nat)
      (haccepted : accepted ∈ q.targets) (hmem : candidate ∈ q.candidates) (howner : accepted.leaseOwner = some candidate.id) :
      Move inserts q { q with targets := writeTargets accepted (fun row => { row with leaseExpiresAt := some expiresAt }) q }
  /-- The owner of the lease gets another review. -/
  | bind (accepted : AcceptedTargetHead) (candidate : MergeCandidate) (reviewIdentity : Nat)
      (haccepted : accepted ∈ q.targets) (hmem : candidate ∈ q.candidates) (howner : accepted.leaseOwner = some candidate.id) :
      Move inserts q { q with candidates := writeCandidates candidate (fun row => { row with reviewIdentity }) q }
  /-- The lease is taken from its owner, which is queued again, conflicted or rejected. -/
  | drop (accepted : AcceptedTargetHead) (candidate : MergeCandidate) (g : MergeCandidate → MergeCandidate)
      (haccepted : accepted ∈ q.targets) (hmem : candidate ∈ q.candidates) (howner : accepted.leaseOwner = some candidate.id)
      (hkeeps : Keeps g) (hstatus : ∀ row, row.status = .integrating → (g row).status ≠ .integrating ∧ (g row).status ≠ .accepted) :
      Move inserts q { q with
        targets := writeTargets accepted (fun row => { row with leaseOwner := none, leaseExpiresAt := none }) q
        candidates := writeCandidates candidate g q }
  /-- The lease is granted to a queued candidate. -/
  | grant (accepted : AcceptedTargetHead) (candidate : MergeCandidate) (expiresAt : Nat)
      (haccepted : accepted ∈ q.targets) (hfree : accepted.leaseOwner = none)
      (hmem : candidate ∈ q.candidates) (htarget : candidate.target = accepted.target) (hqueued : candidate.status = .queued) :
      Move inserts q { q with
        targets := writeTargets accepted (fun row =>
          { row with
            leaseGeneration := accepted.leaseGeneration + 1
            leaseOwner := some candidate.id
            leaseExpiresAt := some expiresAt }) q
        candidates := writeCandidates candidate (fun row =>
          { row with status := .integrating, expectedHeadSha := some accepted.headSha }) q
        acquired := q.acquired ++ [leaseEvent accepted candidate (accepted.leaseGeneration + 1)] }

abbrev Moves (inserts : MergeCandidate → Prop) : Queue → Queue → Prop := Relation.ReflTransGen (Move inserts)

/-! ## The invariant -/

/-- The owner of a target's lease. -/
structure Owns (q : Queue) (accepted : AcceptedTargetHead) (candidate : MergeCandidate) : Prop where
  target : candidate.target = accepted.target
  integrating : candidate.status = .integrating
  expected : candidate.expectedHeadSha = some accepted.headSha
  last : (q.acquiredOf accepted.target).getLast? = some (leaseEvent accepted candidate accepted.leaseGeneration)

/-- The event of a candidate's acceptance. -/
structure Accepted (candidate : MergeCandidate) (event : IntegrationCompleted) : Prop where
  status : candidate.status = .accepted
  effect : event.effect = candidate.effect
  target : event.target = candidate.target
  expected : candidate.expectedHeadSha = some event.baseSha
  generation : candidate.acceptedGeneration = some event.generation

/-- The lease of a target and what was accepted of it. -/
structure TargetChained (q : Queue) (accepted : AcceptedTargetHead) : Prop where
  owner : ∀ id, accepted.leaseOwner = some id →
    accepted.leaseExpiresAt.isSome ∧ ∃ candidate ∈ q.candidates, candidate.id = id ∧ Owns q accepted candidate
  leases : (q.acquiredOf accepted.target).map (·.generation) = List.range' 1 accepted.leaseGeneration
  generations : (q.completedOf accepted.target).map (·.generation) = List.range' 1 accepted.generation
  linked : ∃ start,
    Linked start ((q.completedOf accepted.target).map fun event => (event.baseSha, event.headSha)) accepted.headSha

/-- A candidate that integrates owns the lease, one that is accepted was completed. -/
structure CandidateChained (q : Queue) (candidate : MergeCandidate) : Prop where
  integrating : candidate.status = .integrating →
    ∃ accepted ∈ q.targets, accepted.target = candidate.target ∧ accepted.leaseOwner = some candidate.id
  accepted : candidate.status = .accepted → ∃ event ∈ q.completed, Accepted candidate event

structure Chained (q : Queue) : Prop where
  targets : (q.targets.map (·.target)).Nodup
  candidates : (q.candidates.map (·.id)).Nodup
  effects : (q.candidates.map (·.effect)).Nodup
  target : ∀ accepted ∈ q.targets, TargetChained q accepted
  candidate : ∀ candidate ∈ q.candidates, CandidateChained q candidate
  acquired : ∀ event ∈ q.acquired, ∃ accepted ∈ q.targets, accepted.target = event.target
  completed : ∀ event ∈ q.completed, ∃ accepted ∈ q.targets, accepted.target = event.target
  kept : ∀ event ∈ q.completed, ∃ candidate ∈ q.candidates, Accepted candidate event

theorem chained_empty : Chained {} where
  targets := List.nodup_nil
  candidates := List.nodup_nil
  effects := List.nodup_nil
  target _ h := nomatch h
  candidate _ h := nomatch h
  acquired _ h := nomatch h
  completed _ h := nomatch h
  kept _ h := nomatch h

variable {q q' : Queue} {accepted : AcceptedTargetHead} {candidate : MergeCandidate} {inserts : MergeCandidate → Prop}

theorem Chained.owns (h : Chained q) (haccepted : accepted ∈ q.targets) (hmem : candidate ∈ q.candidates)
    (howner : accepted.leaseOwner = some candidate.id) : Owns q accepted candidate := by
  obtain ⟨-, other, hother, hid, howns⟩ := (h.target accepted haccepted).owner _ howner
  rwa [Keyed.unique h.candidates hother hmem hid] at howns

/-- A target that is not written keeps its chain if its owner stays as it is. -/
theorem TargetChained.frame (h : TargetChained q accepted)
    (hacquired : q'.acquiredOf accepted.target = q.acquiredOf accepted.target)
    (hcompleted : q'.completedOf accepted.target = q.completedOf accepted.target)
    (howner : ∀ row ∈ q.candidates, accepted.leaseOwner = some row.id → Owns q accepted row → row ∈ q'.candidates) :
    TargetChained q' accepted where
  owner id hid := by
    obtain ⟨hexpires, row, hrow, rfl, howns⟩ := h.owner id hid
    refine ⟨hexpires, row, howner row hrow hid howns, rfl, howns.target, howns.integrating, howns.expected, ?_⟩
    rw [hacquired]
    exact howns.last
  leases := hacquired ▸ h.leases
  generations := hcompleted ▸ h.generations
  linked := hcompleted ▸ h.linked

/-! ## Every move keeps the chain -/

theorem acquiredOf_nil (h : Chained q) {target : Target} (hnew : ∀ old ∈ q.targets, old.target ≠ target) :
    q.acquiredOf target = [] := by
  refine List.filter_eq_nil_iff.mpr fun event hevent => ?_
  obtain ⟨old, hold, htarget⟩ := h.acquired event hevent
  simpa [htarget] using hnew old hold

theorem completedOf_nil (h : Chained q) {target : Target} (hnew : ∀ old ∈ q.targets, old.target ≠ target) :
    q.completedOf target = [] := by
  refine List.filter_eq_nil_iff.mpr fun event hevent => ?_
  obtain ⟨old, hold, htarget⟩ := h.completed event hevent
  simpa [htarget] using hnew old hold

theorem Chained.newTarget (h : Chained q) {row : AcceptedTargetHead} (hnew : ∀ old ∈ q.targets, old.target ≠ row.target)
    (hidle : row.leaseOwner = none ∧ row.leaseGeneration = 0 ∧ row.generation = 0) :
    Chained { q with targets := q.targets ++ [row] } where
  targets := Keyed.nodup_append h.targets hnew
  candidates := h.candidates
  effects := h.effects
  target accepted hmem := by
    rcases List.mem_append.mp hmem with hold | hrow
    · exact (h.target accepted hold).frame rfl rfl fun _ hrow _ _ => hrow
    · rw [List.mem_singleton.mp hrow]
      refine ⟨fun id hid => ?_, ?_, ?_, row.headSha, ?_⟩
      · rw [hidle.1] at hid
        cases hid
      · show (q.acquiredOf row.target).map _ = _
        rw [acquiredOf_nil h hnew, hidle.2.1]
        rfl
      · show (q.completedOf row.target).map _ = _
        rw [completedOf_nil h hnew, hidle.2.2]
        rfl
      · show Linked _ ((q.completedOf row.target).map _) _
        rw [completedOf_nil h hnew]
        rfl
  candidate candidate hmem := by
    refine ⟨fun hstatus => ?_, (h.candidate candidate hmem).accepted⟩
    obtain ⟨accepted, haccepted, howner⟩ := (h.candidate candidate hmem).integrating hstatus
    exact ⟨accepted, List.mem_append_left _ haccepted, howner⟩
  acquired event hevent := by
    obtain ⟨accepted, haccepted, htarget⟩ := h.acquired event hevent
    exact ⟨accepted, List.mem_append_left _ haccepted, htarget⟩
  completed event hevent := by
    obtain ⟨accepted, haccepted, htarget⟩ := h.completed event hevent
    exact ⟨accepted, List.mem_append_left _ haccepted, htarget⟩
  kept := h.kept

theorem Chained.newCandidate (h : Chained q) {row : MergeCandidate} (hid : ∀ old ∈ q.candidates, old.id ≠ row.id)
    (heffect : ∀ old ∈ q.candidates, old.effect ≠ row.effect) (hqueued : row.status = .queued) :
    Chained { q with candidates := q.candidates ++ [row] } where
  targets := h.targets
  candidates := Keyed.nodup_append h.candidates hid
  effects := Keyed.nodup_append h.effects heffect
  target accepted hmem := (h.target accepted hmem).frame rfl rfl fun _ hrow _ _ => List.mem_append_left _ hrow
  candidate candidate hmem := by
    rcases List.mem_append.mp hmem with hold | hrow
    · exact ⟨(h.candidate candidate hold).integrating, (h.candidate candidate hold).accepted⟩
    · rw [List.mem_singleton.mp hrow]
      refine ⟨fun hstatus => ?_, fun hstatus => ?_⟩ <;> rw [hqueued] at hstatus <;> cases hstatus
  acquired := h.acquired
  completed := h.completed
  kept event hevent := by
    obtain ⟨candidate, hmem, haccepted⟩ := h.kept event hevent
    exact ⟨candidate, List.mem_append_left _ hmem, haccepted⟩

section Written

variable {f : AcceptedTargetHead → AcceptedTargetHead} {g : MergeCandidate → MergeCandidate}

/-- Each target is still there after one is rewritten. -/
theorem Chained.mem_writeTargets (h : Chained q) (haccepted : accepted ∈ q.targets) (hf : ∀ row, (f row).target = row.target)
    {row : AcceptedTargetHead} (hrow : row ∈ q.targets) :
    ∃ row' ∈ writeTargets accepted f q, row'.target = row.target := by
  by_cases heq : row.target = accepted.target
  · exact ⟨f accepted, (Keyed.mem_replace_of_mem h.targets haccepted).mpr (.inr rfl), (hf accepted).trans heq.symm⟩
  · exact ⟨row, (Keyed.mem_replace_of_mem h.targets haccepted).mpr (.inl ⟨hrow, heq⟩), rfl⟩

theorem Chained.ids_writeCandidates (h : Chained q) (hg : Keeps g) :
    ((writeCandidates candidate g q).map (·.id)).Nodup ∧ ((writeCandidates candidate g q).map (·.effect)).Nodup := by
  have heffects : (writeCandidates candidate g q).map (·.effect) = q.candidates.map (·.effect) := by
    unfold writeCandidates Keyed.replace
    rw [List.map_map]
    refine List.map_congr_left fun row _ => ?_
    show (if _ then g row else row).effect = row.effect
    split
    · exact hg.effect row
    · rfl
  rw [heffects, show (writeCandidates candidate g q).map (·.id) = _ from Keyed.map_key_replace fun row hrow => (hg.id row).trans hrow]
  exact ⟨h.candidates, h.effects⟩

/-- A rewrite of a target and of its owner, or of the candidate that becomes it, keeps the
    chains of all others. -/
theorem Chained.written (h : Chained q) {leases : List LeaseAcquired} {heads : List IntegrationCompleted}
    (ht : q'.targets = writeTargets accepted f q) (hc : q'.candidates = writeCandidates candidate g q)
    (hl : q'.acquired = q.acquired ++ leases) (hd : q'.completed = q.completed ++ heads)
    (haccepted : accepted ∈ q.targets) (hmem : candidate ∈ q.candidates)
    (htarget : candidate.target = accepted.target) (howner : ∀ id, accepted.leaseOwner = some id → id = candidate.id)
    (hopen : candidate.status ≠ .accepted) (hf : ∀ row, (f row).target = row.target) (hg : Keeps g)
    (hleases : ∀ event ∈ leases, event.target = accepted.target) (hheads : ∀ event ∈ heads, event.target = accepted.target)
    (hnewTarget : TargetChained q' (f accepted)) (hnewCandidate : CandidateChained q' (g candidate))
    (hnewHeads : ∀ event ∈ heads, Accepted (g candidate) event) : Chained q' := by
  have hmemT : ∀ {row}, row ∈ q'.targets ↔ (row ∈ q.targets ∧ row.target ≠ accepted.target) ∨ row = f accepted :=
    ht ▸ Keyed.mem_replace_of_mem h.targets haccepted
  have hmemC : ∀ {row}, row ∈ q'.candidates ↔ (row ∈ q.candidates ∧ row.id ≠ candidate.id) ∨ row = g candidate :=
    hc ▸ Keyed.mem_replace_of_mem h.candidates hmem
  have hmemL : ∀ {event}, event ∈ q'.acquired ↔ event ∈ q.acquired ∨ event ∈ leases := by
    rw [hl]
    exact List.mem_append
  have hmemD : ∀ {event}, event ∈ q'.completed ↔ event ∈ q.completed ∨ event ∈ heads := by
    rw [hd]
    exact List.mem_append
  have hacquired : ∀ row : AcceptedTargetHead, row.target ≠ accepted.target → q'.acquiredOf row.target = q.acquiredOf row.target := by
    intro row hrow
    have hnone : leases.filter (·.target = row.target) = [] :=
      List.filter_eq_nil_iff.mpr fun event hevent => by simpa [hleases event hevent] using Ne.symm hrow
    unfold Queue.acquiredOf
    rw [hl, List.filter_append, hnone, List.append_nil]
  have hcompleted : ∀ row : AcceptedTargetHead, row.target ≠ accepted.target → q'.completedOf row.target = q.completedOf row.target := by
    intro row hrow
    have hnone : heads.filter (·.target = row.target) = [] :=
      List.filter_eq_nil_iff.mpr fun event hevent => by simpa [hheads event hevent] using Ne.symm hrow
    unfold Queue.completedOf
    rw [hd, List.filter_append, hnone, List.append_nil]
  have hthere : ∀ row ∈ q.targets, ∃ row' ∈ q'.targets, row'.target = row.target := fun row hrow => by
    rw [ht]
    exact h.mem_writeTargets haccepted hf hrow
  have hids : ((writeCandidates candidate g q).map (·.id)).Nodup ∧ ((writeCandidates candidate g q).map (·.effect)).Nodup :=
    h.ids_writeCandidates hg
  rw [← hc] at hids
  refine ⟨?_, hids.1, hids.2, fun row hrow => ?_, fun row hrow => ?_, fun event hevent => ?_, fun event hevent => ?_, fun event hevent => ?_⟩
  · rw [ht, show (writeTargets accepted f q).map (·.target) = _ from Keyed.map_key_replace fun row hrow => (hf row).trans hrow]
    exact h.targets
  · rcases hmemT.mp hrow with ⟨hold, hother⟩ | rfl
    · refine (h.target row hold).frame (hacquired row hother) (hcompleted row hother) fun owner howner' _ howns => ?_
      refine hmemC.mpr (.inl ⟨howner', fun hid => hother ?_⟩)
      rw [← howns.target, Keyed.unique h.candidates howner' hmem hid, htarget]
    · exact hnewTarget
  · rcases hmemC.mp hrow with ⟨hold, hother⟩ | rfl
    · refine ⟨fun hstatus => ?_, fun hstatus => ?_⟩
      · obtain ⟨lease, hlease, hleaseTarget, hleaseOwner⟩ := (h.candidate row hold).integrating hstatus
        refine ⟨lease, hmemT.mpr (.inl ⟨hlease, fun hsame => hother ?_⟩), hleaseTarget, hleaseOwner⟩
        rw [Keyed.unique h.targets hlease haccepted hsame] at hleaseOwner
        exact howner _ hleaseOwner
      · obtain ⟨event, hevent, hrest⟩ := (h.candidate row hold).accepted hstatus
        exact ⟨event, hmemD.mpr (.inl hevent), hrest⟩
    · exact hnewCandidate
  · rcases hmemL.mp hevent with hold | hnew
    · obtain ⟨row, hrow, heq⟩ := h.acquired event hold
      obtain ⟨row', hrow', heq'⟩ := hthere row hrow
      exact ⟨row', hrow', heq'.trans heq⟩
    · obtain ⟨row', hrow', heq'⟩ := hthere accepted haccepted
      exact ⟨row', hrow', heq'.trans (hleases event hnew).symm⟩
  · rcases hmemD.mp hevent with hold | hnew
    · obtain ⟨row, hrow, heq⟩ := h.completed event hold
      obtain ⟨row', hrow', heq'⟩ := hthere row hrow
      exact ⟨row', hrow', heq'.trans heq⟩
    · obtain ⟨row', hrow', heq'⟩ := hthere accepted haccepted
      exact ⟨row', hrow', heq'.trans (hheads event hnew).symm⟩
  · rcases hmemD.mp hevent with hold | hnew
    · obtain ⟨row, hrow, hrest⟩ := h.kept event hold
      refine ⟨row, hmemC.mpr (.inl ⟨hrow, fun hid => hopen ?_⟩), hrest⟩
      rw [← Keyed.unique h.candidates hrow hmem hid]
      exact hrest.status
    · exact ⟨g candidate, hmemC.mpr (.inr rfl), hnewHeads event hnew⟩

end Written

/-- The owner of the lease is not accepted yet. -/
theorem Owns.not_accepted (h : Owns q accepted candidate) : candidate.status ≠ .accepted := by
  rw [h.integrating]
  decide

theorem keeps_id : Keeps fun row => row := ⟨fun _ => rfl, fun _ => rfl, fun _ => rfl, fun _ => rfl⟩

section Owner

variable (h : Chained q) (haccepted : accepted ∈ q.targets) (hmem : candidate ∈ q.candidates)
  (howner : accepted.leaseOwner = some candidate.id)

include h haccepted hmem howner

theorem Chained.extend (expiresAt : Nat) :
    Chained { q with targets := writeTargets accepted (fun row => { row with leaseExpiresAt := some expiresAt }) q } := by
  have howns := h.owns haccepted hmem howner
  have hold := h.target accepted haccepted
  refine h.written rfl Keyed.replace_id.symm (List.append_nil _).symm (List.append_nil _).symm haccepted hmem howns.target
    (fun id hid => Option.some.inj (hid.symm.trans howner)) howns.not_accepted (fun _ => rfl) keeps_id
    (fun _ h => nomatch h) (fun _ h => nomatch h) ⟨fun id hid => ?_, hold.leases, hold.generations, hold.linked⟩
    ⟨fun _ => ?_, fun hstatus => absurd hstatus howns.not_accepted⟩ (fun _ h => nomatch h)
  · have hsame : candidate.id = id := Option.some.inj (howner.symm.trans hid)
    exact ⟨rfl, candidate, hmem, hsame, howns.target, howns.integrating, howns.expected, howns.last⟩
  · exact ⟨_, Keyed.mem_replace_self haccepted, howns.target.symm, howner⟩

theorem Chained.bind (reviewIdentity : Nat) :
    Chained { q with candidates := writeCandidates candidate (fun row => { row with reviewIdentity }) q } := by
  have howns := h.owns haccepted hmem howner
  have hold := h.target accepted haccepted
  refine h.written Keyed.replace_id.symm rfl (List.append_nil _).symm (List.append_nil _).symm haccepted hmem howns.target
    (fun id hid => Option.some.inj (hid.symm.trans howner)) howns.not_accepted (fun _ => rfl)
    ⟨fun _ => rfl, fun _ => rfl, fun _ => rfl, fun _ => rfl⟩ (fun _ h => nomatch h) (fun _ h => nomatch h)
    ⟨fun id hid => ?_, hold.leases, hold.generations, hold.linked⟩
    ⟨fun _ => ⟨accepted, haccepted, howns.target.symm, howner⟩, fun hstatus => absurd hstatus howns.not_accepted⟩
    (fun _ h => nomatch h)
  have hsame : candidate.id = id := Option.some.inj (howner.symm.trans hid)
  exact ⟨(hold.owner id hid).1, _, Keyed.mem_replace_self hmem, hsame, howns.target, howns.integrating, howns.expected, howns.last⟩

theorem Chained.drop {g : MergeCandidate → MergeCandidate} (hkeeps : Keeps g)
    (hstatus : ∀ row, row.status = .integrating → (g row).status ≠ .integrating ∧ (g row).status ≠ .accepted) :
    Chained { q with
      targets := writeTargets accepted (fun row => { row with leaseOwner := none, leaseExpiresAt := none }) q
      candidates := writeCandidates candidate g q } := by
  have howns := h.owns haccepted hmem howner
  have hold := h.target accepted haccepted
  obtain ⟨hidle, hopen⟩ := hstatus candidate howns.integrating
  exact h.written rfl rfl (List.append_nil _).symm (List.append_nil _).symm haccepted hmem howns.target
    (fun id hid => Option.some.inj (hid.symm.trans howner)) howns.not_accepted (fun _ => rfl) hkeeps
    (fun _ h => nomatch h) (fun _ h => nomatch h)
    ⟨(fun _ hid => nomatch hid), hold.leases, hold.generations, hold.linked⟩
    ⟨fun hstatus => absurd hstatus hidle, fun hstatus => absurd hstatus hopen⟩ (fun _ h => nomatch h)

theorem Chained.accept (headSha : Sha) (now : Nat) :
    Chained { q with
      targets := writeTargets accepted (fun row =>
        { row with
          headSha
          generation := accepted.generation + 1
          leaseOwner := none
          leaseExpiresAt := none }) q
      candidates := writeCandidates candidate (fun row =>
        { row with status := .accepted, acceptedGeneration := some (accepted.generation + 1), completedAt := some now }) q
      completed := q.completed ++ [completionEvent accepted candidate headSha] } := by
  have howns := h.owns haccepted hmem howner
  have hold := h.target accepted haccepted
  obtain ⟨start, hlinked⟩ := hold.linked
  have hevents : (q.completed ++ [completionEvent accepted candidate headSha]).filter (·.target = accepted.target) =
      q.completedOf accepted.target ++ [completionEvent accepted candidate headSha] := by
    rw [List.filter_append]
    simp [Queue.completedOf, completionEvent, IntegrationCompleted.target, AcceptedTargetHead.target]
  have hevent : Accepted { candidate with
      status := .accepted, acceptedGeneration := some (accepted.generation + 1), completedAt := some now }
      (completionEvent accepted candidate headSha) := ⟨rfl, rfl, howns.target.symm, howns.expected, rfl⟩
  refine h.written rfl rfl (List.append_nil _).symm rfl haccepted hmem howns.target
    (fun id hid => Option.some.inj (hid.symm.trans howner)) howns.not_accepted (fun _ => rfl)
    ⟨fun _ => rfl, fun _ => rfl, fun _ => rfl, fun _ => rfl⟩ (fun _ h => nomatch h) (fun event hmem => ?_)
    ⟨(fun _ hid => nomatch hid), hold.leases, ?_, start, ?_⟩
    ⟨(fun hstatus => nomatch hstatus), fun _ => ⟨_, List.mem_append_right _ (List.mem_singleton_self _), hevent⟩⟩ fun event hmem => ?_
  · rw [List.mem_singleton.mp hmem]
    rfl
  · show List.map _ ((q.completed ++ [_]).filter fun event : IntegrationCompleted => event.target = accepted.target) = List.range' 1 (accepted.generation + 1)
    rw [hevents, List.map_append, hold.generations, List.range'_concat]
    simp [completionEvent, Nat.add_comm]
  · show Linked start (List.map _ ((q.completed ++ [_]).filter fun event : IntegrationCompleted => event.target = accepted.target)) headSha
    rw [hevents, List.map_append]
    exact hlinked.concat
  · rw [List.mem_singleton.mp hmem]
    exact hevent

end Owner

theorem Chained.grant (h : Chained q) (haccepted : accepted ∈ q.targets) (hfree : accepted.leaseOwner = none)
    (hmem : candidate ∈ q.candidates) (htarget : candidate.target = accepted.target) (hqueued : candidate.status = .queued)
    (expiresAt : Nat) :
    Chained { q with
      targets := writeTargets accepted (fun row =>
        { row with
          leaseGeneration := accepted.leaseGeneration + 1
          leaseOwner := some candidate.id
          leaseExpiresAt := some expiresAt }) q
      candidates := writeCandidates candidate (fun row =>
        { row with status := .integrating, expectedHeadSha := some accepted.headSha }) q
      acquired := q.acquired ++ [leaseEvent accepted candidate (accepted.leaseGeneration + 1)] } := by
  have hold := h.target accepted haccepted
  have hevents : (q.acquired ++ [leaseEvent accepted candidate (accepted.leaseGeneration + 1)]).filter (·.target = accepted.target) =
      q.acquiredOf accepted.target ++ [leaseEvent accepted candidate (accepted.leaseGeneration + 1)] := by
    rw [List.filter_append]
    simp [Queue.acquiredOf, leaseEvent, LeaseAcquired.target, AcceptedTargetHead.target]
  refine h.written rfl rfl rfl (List.append_nil _).symm haccepted hmem htarget
    (fun id hid => nomatch hfree.symm.trans hid) (by rw [hqueued]; decide) (fun _ => rfl)
    ⟨fun _ => rfl, fun _ => rfl, fun _ => rfl, fun _ => rfl⟩ (fun event hmem => ?_) (fun _ h => nomatch h)
    ⟨fun id hid => ⟨rfl, _, Keyed.mem_replace_self hmem, Option.some.inj hid, htarget, rfl, rfl, ?_⟩, ?_, hold.generations, hold.linked⟩
    ⟨fun _ => ⟨_, Keyed.mem_replace_self haccepted, htarget.symm, rfl⟩, (fun hstatus => nomatch hstatus)⟩ (fun _ h => nomatch h)
  · rw [List.mem_singleton.mp hmem]
    rfl
  · show ((q.acquired ++ [_]).filter fun event : LeaseAcquired => event.target = accepted.target).getLast? = _
    rw [hevents, List.getLast?_concat]
    rfl
  · show List.map _ ((q.acquired ++ [_]).filter fun event : LeaseAcquired => event.target = accepted.target) = List.range' 1 (accepted.leaseGeneration + 1)
    rw [hevents, List.map_append, hold.leases, List.range'_concat]
    simp [leaseEvent, Nat.add_comm]

theorem Chained.move (h : Chained q) (hm : Move inserts q q') : Chained q' := by
  cases hm with
  | target row hnew hidle => exact h.newTarget hnew hidle
  | candidate row hid heffect hqueued _ => exact h.newCandidate hid heffect hqueued
  | extend accepted candidate expiresAt haccepted hmem howner => exact h.extend haccepted hmem howner expiresAt
  | bind accepted candidate reviewIdentity haccepted hmem howner => exact h.bind haccepted hmem howner reviewIdentity
  | drop accepted candidate g haccepted hmem howner hkeeps hstatus => exact h.drop haccepted hmem howner hkeeps hstatus
  | grant accepted candidate expiresAt haccepted hfree hmem htarget hqueued =>
    exact h.grant haccepted hfree hmem htarget hqueued expiresAt

theorem Chained.moves (h : Chained q) (hm : Moves inserts q q') : Chained q' := by
  induction hm with
  | refl => exact h
  | tail _ hmove ih => exact ih.move hmove

/-! ## Every operation is made of moves -/

variable {s t : State} {run now : Nat} {fence : IntegrationFence}

theorem target?_spec {target : Target} (h : s.target? target = some accepted) :
    accepted ∈ s.targets ∧ accepted.target = target :=
  ⟨List.mem_of_find?_eq_some h, by simpa using List.find?_some h⟩

theorem candidateOf_spec {effect : Nat} (h : s.candidateOf effect = some candidate) :
    candidate ∈ s.candidates ∧ candidate.effect = effect :=
  ⟨List.mem_of_find?_eq_some h, by simpa using List.find?_some h⟩

/-- What `_locked` has checked. -/
structure Locked (s : State) (now : Nat) (fence : IntegrationFence) (head : IntegrationHead) (accepted : AcceptedTargetHead)
    (candidate : MergeCandidate) : Prop where
  targetRow : accepted ∈ s.targets
  candidateRow : candidate ∈ s.candidates
  target : accepted.target = (fence.repository, head.targetBranch)
  effect : candidate.effect = fence.effect
  owner : accepted.leaseOwner = some candidate.id
  generation : accepted.leaseGeneration = fence.generation
  live : accepted.leaseExpiresAt.any (now < ·)
  base : accepted.headSha = fence.baseSha

theorem locked_spec {head : IntegrationHead} (h : locked s run now fence = some (head, accepted, candidate)) :
    Locked s now fence head accepted candidate := by
  unfold locked at h
  split at h
  · cases h
  · split at h
    · rename_i haccepted hcandidate
      split at h
      · rename_i hcheck
        cases h
        obtain ⟨howner, hgeneration, hlive, hbase, -, -⟩ := hcheck
        exact ⟨(target?_spec haccepted).1, (candidateOf_spec hcandidate).1, (target?_spec haccepted).2,
          (candidateOf_spec hcandidate).2, howner, hgeneration, hlive, hbase⟩
      · cases h
    · cases h

theorem ensureTarget_moves {repository : Nat} {baseSha : Sha} {branch : String} :
    Moves inserts s.toQueue (ensureTarget s repository baseSha branch).1.toQueue := by
  unfold ensureTarget
  split
  · exact .refl
  · rename_i hnone
    refine .single (.target _ (fun old hold => ?_) ⟨rfl, rfl, rfl⟩)
    show old.target ≠ (repository, branch)
    simpa using List.find?_eq_none.mp hnone old hold

theorem initializeTarget_moves {repository : Nat} {baseSha : Sha} {branch : String}
    (h : initializeTarget s run repository baseSha branch = .ok t) : Moves inserts s.toQueue t.toQueue := by
  unfold initializeTarget at h
  dsimp only at h
  split at h
  · cases h
    exact ensureTarget_moves
  · split at h
    · cases h
    · cases h
      exact ensureTarget_moves

theorem insertCandidate_move {row : MergeCandidate} (hqueued : row.status = .queued) (hinserts : inserts row)
    (h : s.insertCandidate row = .ok t) : t = { s with candidates := s.candidates ++ [row] } ∧ Move inserts s.toQueue t.toQueue := by
  unfold State.insertCandidate at h
  split at h
  · cases h
  · rename_i hfree
    cases h
    have hfree : ∀ old ∈ s.candidates, old.id ≠ row.id ∧ old.effect ≠ row.effect := by
      intro old hold
      have := fun hclash => hfree (List.any_eq_true.mpr ⟨old, hold, decide_eq_true hclash⟩)
      tauto
    exact ⟨rfl, .candidate row (fun old hold => (hfree old hold).1) (fun old hold => (hfree old hold).2) hqueued hinserts⟩

/-- The candidate that an operation may add: the first of its effect, for its run. -/
def Inserted (s : State) (run effect : Nat) (row : MergeCandidate) : Prop :=
  row.effect = effect ∧ row.run = run ∧ s.candidateOf effect = none

theorem head?_run {repository : Nat} {head : IntegrationHead} (h : s.head? run repository = some head) : head.run = run := by
  have hkey : head.key = (run, repository) := by simpa using List.find?_some h
  exact congrArg Prod.fst hkey

theorem queue_moves {id createdAt repository effect : Nat} {request : QueueRequest}
    (h : queue s id createdAt run repository effect request = .ok t) : Moves (Inserted s run effect) s.toQueue t.toQueue := by
  unfold queue at h
  split at h
  · rename_i head _ hhead _
    split at h
    · cases h
    · split at h
      · split at h
        · cases h
        · cases h
          exact .refl
      · rename_i hnone
        exact .single (insertCandidate_move rfl ⟨rfl, head?_run hhead, hnone⟩ h).2
  · cases h

theorem mem_writeCandidates {g : MergeCandidate → MergeCandidate} (hg : Keeps g) {row : MergeCandidate} (hrow : row ∈ q.candidates) :
    ∃ row' ∈ writeCandidates candidate g q, row'.id = row.id ∧ row'.effect = row.effect := by
  by_cases hid : row.id = candidate.id
  · exact ⟨g row, Keyed.mem_replace.mpr (.inr ⟨row, hrow, hid, rfl⟩), hg.id row, hg.effect row⟩
  · exact ⟨row, Keyed.mem_replace.mpr (.inl ⟨hrow, hid⟩), rfl, rfl⟩

/-- A candidate stays, with its identity and its effect. -/
theorem Move.candidate_stays (hm : Move inserts q q') {row : MergeCandidate} (hrow : row ∈ q.candidates) :
    ∃ row' ∈ q'.candidates, row'.id = row.id ∧ row'.effect = row.effect := by
  cases hm with
  | target => exact ⟨row, hrow, rfl, rfl⟩
  | candidate => exact ⟨row, List.mem_append_left _ hrow, rfl, rfl⟩
  | extend => exact ⟨row, hrow, rfl, rfl⟩
  | bind => refine mem_writeCandidates ?_ hrow; exact ⟨fun _ => rfl, fun _ => rfl, fun _ => rfl, fun _ => rfl⟩
  | drop _ _ _ _ _ _ hkeeps => exact mem_writeCandidates hkeeps hrow
  | grant => refine mem_writeCandidates ?_ hrow; exact ⟨fun _ => rfl, fun _ => rfl, fun _ => rfl, fun _ => rfl⟩

theorem Moves.candidate_stays (hm : Moves inserts q q') {row : MergeCandidate} (hrow : row ∈ q.candidates) :
    ∃ row' ∈ q'.candidates, row'.id = row.id ∧ row'.effect = row.effect := by
  induction hm with
  | refl => exact ⟨row, hrow, rfl, rfl⟩
  | tail _ hmove ih =>
    obtain ⟨mid, hmid, hid, heffect⟩ := ih
    obtain ⟨row', hrow', hid', heffect'⟩ := hmove.candidate_stays hmid
    exact ⟨row', hrow', hid'.trans hid, heffect'.trans heffect⟩

theorem ensureCandidate_moves {id createdAt : Nat} {head : IntegrationHead} {effect : Effect}
    (h : ensureCandidate s id createdAt head effect = .ok (t, candidate)) :
    Moves (Inserted s head.run effect.id) s.toQueue t.toQueue ∧ candidate ∈ t.candidates ∧ candidate.effect = effect.id := by
  unfold ensureCandidate at h
  split at h
  · rename_i hcandidate
    cases h
    exact ⟨.refl, candidateOf_spec hcandidate⟩
  · rename_i hnone
    split at h
    · cases h
    · rename_i taskAttempt _
      obtain ⟨u, hinsert, heq⟩ := Steps.map_ok h
      cases heq
      have hinserted : Inserted s head.run effect.id (effectCandidate id createdAt head effect taskAttempt) := ⟨rfl, rfl, hnone⟩
      obtain ⟨rfl, hmove⟩ := insertCandidate_move rfl hinserted hinsert
      exact ⟨.single hmove, List.mem_append_right _ (List.mem_singleton_self _), rfl⟩

theorem expire_moves (inserts : MergeCandidate → Prop) (h : Chained s.toQueue) (target : Target) (now : Nat) :
    Moves inserts s.toQueue (expire s target now).toQueue := by
  unfold expire
  split
  · rename_i owner expiresAt howner _
    split
    · obtain ⟨accepted, haccepted, howned⟩ := Option.bind_eq_some_iff.mp howner
      obtain ⟨hmemT, rfl⟩ := target?_spec haccepted
      obtain ⟨-, candidate, hmem, rfl, -⟩ := (h.target accepted hmemT).owner owner howned
      refine .single (.drop accepted candidate _ hmemT hmem howned
        ⟨fun row => ?_, fun row => ?_, fun row => ?_, fun row => ?_⟩ fun row hrow => ?_)
      · split <;> rfl
      · split <;> rfl
      · split <;> rfl
      · split <;> rfl
      · rw [if_pos hrow]
        exact ⟨(nomatch ·), (nomatch ·)⟩
    · exact .refl
  · exact .refl

/-- A target whose lease has been looked at for expiry has no owner unless the lease is live. -/
theorem expire_free (h : Chained s.toQueue) {target : Target} (haccepted : (expire s target now).target? target = some accepted)
    (hlive : accepted.live now = false) : accepted.leaseOwner = none := by
  by_contra hne
  obtain ⟨owner, howner⟩ := Option.ne_none_iff_exists'.mp hne
  have hchained := h.moves (expire_moves (fun _ => False) h target now)
  have hexpires := ((hchained.target accepted (target?_spec haccepted).1).owner owner howner).1
  obtain ⟨expiresAt, hexpiresAt⟩ := Option.isSome_iff_exists.mp hexpires
  have hpast : expiresAt ≤ now := by
    unfold AcceptedTargetHead.live at hlive
    rw [howner, hexpiresAt] at hlive
    simpa using hlive
  unfold expire at haccepted
  split at haccepted
  · split at haccepted
    · -- the lease was taken from its owner
      obtain ⟨old, hold, -⟩ := Option.bind_eq_some_iff.mp (by assumption)
      have hwritten : some _ = some accepted := (Keyed.find?_replace_self (fun row hrow => ?_) hold).symm.trans haccepted
      · cases hwritten
        cases howner
      · exact hrow
    · rename_i howner' hexpiresAt' hfuture
      rw [haccepted] at hexpiresAt'
      rw [show expiresAt = _ from Option.some.inj (hexpiresAt.symm.trans hexpiresAt')] at hpast
      exact hfuture hpast
  · rename_i hnone
    rw [haccepted] at hnone
    exact hnone owner expiresAt howner hexpiresAt

theorem first_spec {target : Target} (h : first s target = some candidate) :
    candidate ∈ s.candidates ∧ candidate.target = target ∧ candidate.status = .queued := by
  have hmem := List.mem_of_mem_head? h
  rw [List.mem_insertionSort, List.mem_filter] at hmem
  exact ⟨hmem.1, of_decide_eq_true hmem.2⟩

theorem acquire_moves (h : Chained s.toQueue) {id createdAt ttl repository effectId : Nat} {granted : Option IntegrationFence}
    (hok : acquire s id createdAt now ttl run repository effectId = .ok (t, granted)) :
    Moves (Inserted s run effectId) s.toQueue t.toQueue := by
  unfold acquire at hok
  split at hok
  · rename_i head effect hhead heffect
    have hid : effect.id = effectId := by simpa using List.find?_some heffect
    split at hok
    · cases hok
    · rename_i u candidate hensure
      obtain ⟨hensured, hmem, heffectId⟩ := ensureCandidate_moves hensure
      rw [head?_run hhead, hid] at hensured
      have hchained := h.moves hensured
      split at hok
      · cases hok
      · have hexpired := expire_moves (Inserted s run effectId) hchained (repository, head.targetBranch) now
        dsimp only at hok
        split at hok
        · cases hok
        · rename_i accepted haccepted
          split at hok
          · cases hok
            exact hensured.trans hexpired
          · split at hok
            · cases hok
              exact hensured.trans hexpired
            · rename_i hlive hfirst
              -- the first queued candidate is the one of the effect
              obtain ⟨row, hrow, hrowId⟩ := Option.map_eq_some_iff.mp (not_not.mp hfirst)
              obtain ⟨hrowMem, hrowTarget, hqueued⟩ := first_spec hrow
              obtain ⟨row', hrow', hid', heffect'⟩ := hexpired.candidate_stays hmem
              obtain rfl : row' = row := Keyed.unique (hchained.moves hexpired).candidates hrow' hrowMem (hid'.trans hrowId.symm)
              obtain ⟨hacceptedMem, hacceptedTarget⟩ := target?_spec haccepted
              have hfree := expire_free hchained haccepted (by simpa using hlive)
              have hgrant : Move (Inserted s run effectId) _ _ :=
                .grant accepted row' (now + ttl) hacceptedMem hfree hrowMem (hrowTarget.trans hacceptedTarget.symm) hqueued
              cases hok
              refine (hensured.trans hexpired).tail ?_
              have hevent : leaseEvent accepted row' (accepted.leaseGeneration + 1) =
                  ⟨repository, accepted.targetBranch, effectId, accepted.leaseGeneration + 1, accepted.headSha⟩ := by
                unfold leaseEvent
                rw [heffect', heffectId, hid, show accepted.repository = repository from congrArg Prod.fst hacceptedTarget]
              rw [hevent, hid'] at hgrant
              unfold writeCandidates at hgrant
              rw [hid'] at hgrant
              exact hgrant
  · cases hok

theorem renew_moves {ttl : Nat} (h : renew s run now ttl fence = .ok t) : Moves inserts s.toQueue t.toQueue := by
  unfold renew at h
  split at h
  · cases h
  · rename_i hlocked
    cases h
    have hl := locked_spec hlocked
    exact .single (.extend _ _ _ hl.targetRow hl.candidateRow hl.owner)

theorem release_moves : Moves inserts s.toQueue (release s run now fence).toQueue := by
  unfold release
  split
  · exact .refl
  · rename_i hlocked
    have hl := locked_spec hlocked
    exact .single (.drop _ _ _ hl.targetRow hl.candidateRow hl.owner ⟨fun _ => rfl, fun _ => rfl, fun _ => rfl, fun _ => rfl⟩
      fun _ _ => ⟨(nomatch ·), (nomatch ·)⟩)

theorem reject_moves {conflict : Option Conflict} (h : reject s run now fence conflict = .ok t) :
    Moves inserts s.toQueue t.toQueue := by
  unfold reject at h
  split at h
  · cases h
  · rename_i hlocked
    cases h
    have hl := locked_spec hlocked
    refine .single (.drop _ _ _ hl.targetRow hl.candidateRow hl.owner ⟨fun _ => rfl, fun _ => rfl, fun _ => rfl, fun _ => rfl⟩ fun _ _ => ?_)
    cases conflict <;> exact ⟨(nomatch ·), (nomatch ·)⟩

theorem bindReview_moves {reviewIdentity : Nat} (h : bindReview s run now fence reviewIdentity = .ok t) :
    Moves inserts s.toQueue t.toQueue := by
  unfold bindReview at h
  split at h
  · cases h
  · rename_i hlocked
    cases h
    have hl := locked_spec hlocked
    exact .single (.bind _ _ _ hl.targetRow hl.candidateRow hl.owner)

/-- An operation that advances the head holds the lease. -/
theorem advance_spec {advancement : Advancement} (h : advance s run now fence advancement = .ok t) :
    ∃ head accepted candidate, locked s run now fence = some (head, accepted, candidate) ∧
      t.toQueue = { s.toQueue with
        targets := writeTargets accepted (fun row =>
          { row with
            headSha := advancement.headSha
            generation := accepted.generation + 1
            leaseOwner := none
            leaseExpiresAt := none }) s.toQueue
        candidates := writeCandidates candidate (fun row =>
          { row with status := .accepted, acceptedGeneration := some (accepted.generation + 1), completedAt := some now }) s.toQueue
        completed := s.completed ++ [completionEvent accepted candidate advancement.headSha] } := by
  unfold advance at h
  split at h
  · cases h
  · rename_i head accepted candidate hlocked
    split at h
    · cases h
    · cases h
      have hl := locked_spec hlocked
      refine ⟨head, accepted, candidate, hlocked, ?_⟩
      unfold completionEvent
      rw [hl.effect, hl.base, show accepted.repository = fence.repository from congrArg Prod.fst hl.target]
      rfl

/-- The candidates that an operation may add. -/
def Op.mayInsert (s : State) : Op → MergeCandidate → Prop
  | .queue _ _ run _ effect _ | .acquire _ _ _ _ run _ effect => Inserted s run effect
  | _ => fun _ => False

theorem step_cases (h : Chained s.toQueue) {op : Op} (hs : step s op = some t) :
    Moves (op.mayInsert s) s.toQueue t.toQueue ∨ ∃ run now fence advancement, op = .advance run now fence advancement ∧
      advance s run now fence advancement = .ok t := by
  cases op with
  | prepareEffect effect =>
    simp only [step] at hs
    split at hs <;> cases hs
    exact .inl .refl
  | recordEffect id status =>
    cases hs
    exact .inl .refl
  | putArtifact artifact =>
    simp only [step] at hs
    split at hs <;> cases hs
    exact .inl .refl
  | initializeTarget run repository baseSha branch => exact .inl (initializeTarget_moves (Steps.toOption_ok hs))
  | queue id createdAt run repository effect request => exact .inl (queue_moves (Steps.toOption_ok hs))
  | acquire id createdAt now ttl run repository effect =>
    obtain ⟨⟨u, granted⟩, hok, rfl⟩ := Option.map_eq_some_iff.mp hs
    exact .inl (acquire_moves h (Steps.toOption_ok hok))
  | renew run now ttl fence => exact .inl (renew_moves (Steps.toOption_ok hs))
  | release run now fence =>
    cases hs
    exact .inl release_moves
  | reject run now fence conflict => exact .inl (reject_moves (Steps.toOption_ok hs))
  | bindReview run now fence reviewIdentity => exact .inl (bindReview_moves (Steps.toOption_ok hs))
  | advance run now fence advancement => exact .inr ⟨run, now, fence, advancement, rfl, Steps.toOption_ok hs⟩

theorem Chained.step (h : Chained s.toQueue) {op : Op} (hs : step s op = some t) : Chained t.toQueue := by
  rcases step_cases h hs with hmoves | ⟨run, now, fence, advancement, -, hadvance⟩
  · exact h.moves hmoves
  · obtain ⟨head, accepted, candidate, hlocked, hqueue⟩ := advance_spec hadvance
    have hl := locked_spec hlocked
    rw [hqueue]
    exact h.accept hl.targetRow hl.candidateRow hl.owner advancement.headSha now

theorem reach_chained (h : Reach s) : Chained s.toQueue :=
  h.invariant (fun s => Chained s.toQueue) chained_empty fun _ _ _ hc _ hs => hc.step hs

/-! ## The chain of a target -/

theorem Move.heads (hm : Move inserts q q') (haccepted : accepted ∈ q.targets) :
    ∃ accepted' ∈ q'.targets, accepted'.target = accepted.target ∧ accepted'.headSha = accepted.headSha := by
  have hwrite : ∀ (row : AcceptedTargetHead) (f : AcceptedTargetHead → AcceptedTargetHead),
      (∀ old, (f old).target = old.target ∧ (f old).headSha = old.headSha) →
      ∃ accepted' ∈ writeTargets row f q, accepted'.target = accepted.target ∧ accepted'.headSha = accepted.headSha := by
    intro row f hf
    by_cases htarget : accepted.target = row.target
    · exact ⟨f accepted, Keyed.mem_replace.mpr (.inr ⟨accepted, haccepted, htarget, rfl⟩), hf accepted⟩
    · exact ⟨accepted, Keyed.mem_replace.mpr (.inl ⟨haccepted, htarget⟩), rfl, rfl⟩
  cases hm with
  | target => exact ⟨accepted, List.mem_append_left _ haccepted, rfl, rfl⟩
  | candidate => exact ⟨accepted, haccepted, rfl, rfl⟩
  | extend => exact hwrite _ _ fun _ => ⟨rfl, rfl⟩
  | bind => exact ⟨accepted, haccepted, rfl, rfl⟩
  | drop => exact hwrite _ _ fun _ => ⟨rfl, rfl⟩
  | grant => exact hwrite _ _ fun _ => ⟨rfl, rfl⟩

theorem Moves.heads (hm : Moves inserts q q') (haccepted : accepted ∈ q.targets) :
    ∃ accepted' ∈ q'.targets, accepted'.target = accepted.target ∧ accepted'.headSha = accepted.headSha := by
  induction hm with
  | refl => exact ⟨accepted, haccepted, rfl, rfl⟩
  | tail _ hmove ih =>
    obtain ⟨mid, hmid, htarget, hhead⟩ := ih
    obtain ⟨accepted', haccepted', htarget', hhead'⟩ := hmove.heads hmid
    exact ⟨accepted', haccepted', htarget'.trans htarget, hhead'.trans hhead⟩

/-- A candidate holds the lease of its target, live by a clock that reads `now`. -/
def Holds (q : Queue) (now : Nat) (candidate : MergeCandidate) : Prop :=
  ∃ accepted ∈ q.targets, accepted.target = candidate.target ∧ accepted.leaseOwner = some candidate.id ∧
    accepted.leaseExpiresAt.any (now < ·)

theorem Locked.holds {head : IntegrationHead} (h : Chained s.toQueue) (hl : Locked s now fence head accepted candidate) :
    Holds s.toQueue now candidate :=
  ⟨accepted, hl.targetRow, (h.owns hl.targetRow hl.candidateRow hl.owner).target.symm, hl.owner, hl.live⟩

theorem Chained.holder_unique (h : Chained q) {now now' : Nat} {a b : MergeCandidate} (ha : a ∈ q.candidates) (hb : b ∈ q.candidates)
    (htarget : a.target = b.target) (holdsA : Holds q now a) (holdsB : Holds q now' b) : a = b := by
  obtain ⟨accepted, haccepted, hacceptedA, howner, -⟩ := holdsA
  obtain ⟨accepted', haccepted', hacceptedB, howner', -⟩ := holdsB
  obtain rfl := Keyed.unique h.targets haccepted haccepted' (hacceptedA.trans (htarget.trans hacceptedB.symm))
  exact Keyed.unique h.candidates ha hb (Option.some.inj (howner.symm.trans howner'))

theorem Chained.leases_increase (h : Chained q) (target : Target) :
    ((q.acquiredOf target).map (·.generation)).Pairwise (· < ·) := by
  by_cases hthere : ∃ accepted ∈ q.targets, accepted.target = target
  · obtain ⟨accepted, haccepted, rfl⟩ := hthere
    rw [(h.target accepted haccepted).leases]
    exact List.pairwise_lt_range'
  · rw [acquiredOf_nil h fun old hold htarget => hthere ⟨old, hold, htarget⟩]
    exact List.Pairwise.nil

/-- In every state that any runs and effects reach together:
    (1) one candidate at most holds a live lease of a target, whatever the clocks read;
    (2) the lease generations of a target strictly increase, and a fence that is accepted is
        the one of the last lease acquired;
    (3) an operation that changes a target's head is an `advance` by the holder of its lease;
    (4) the accepted heads of a target are linked up to its present head;
    (5) the accepted candidates are those of the completed integrations, each with the head it
        expected as the head it replaced. -/
theorem integration_chain (h : Reach s) :
    (∀ now now' a b, a ∈ s.candidates → b ∈ s.candidates → a.target = b.target →
      Holds s.toQueue now a → Holds s.toQueue now' b → a = b) ∧
    (∀ target, ((s.acquiredOf target).map (·.generation)).Pairwise (· < ·)) ∧
    (∀ run now fence head accepted candidate, locked s run now fence = some (head, accepted, candidate) →
      (s.acquiredOf accepted.target).getLast? =
        some ⟨fence.repository, head.targetBranch, fence.effect, fence.generation, fence.baseSha⟩) ∧
    (∀ op t, step s op = some t → ∀ accepted ∈ s.targets, ∃ accepted' ∈ t.targets, accepted'.target = accepted.target ∧
      (accepted'.headSha = accepted.headSha ∨ ∃ run now fence advancement head candidate,
        op = .advance run now fence advancement ∧ locked s run now fence = some (head, accepted, candidate) ∧
          Holds s.toQueue now candidate ∧ accepted'.headSha = advancement.headSha)) ∧
    (∀ accepted ∈ s.targets,
      (s.completedOf accepted.target).map (·.generation) = List.range' 1 accepted.generation ∧
      ∃ start, Linked start ((s.completedOf accepted.target).map fun event => (event.baseSha, event.headSha)) accepted.headSha) ∧
    (∀ candidate ∈ s.candidates, candidate.status = .accepted → ∃ event ∈ s.completed, Accepted candidate event) ∧
    ∀ event ∈ s.completed, ∃ candidate ∈ s.candidates, Accepted candidate event := by
  have hchained := reach_chained h
  refine ⟨fun now now' a b ha hb => hchained.holder_unique ha hb, hchained.leases_increase,
    fun run now fence head accepted candidate hlocked => ?_, fun op t hs accepted haccepted => ?_, fun accepted haccepted => ?_,
    fun candidate hmem => (hchained.candidate candidate hmem).accepted, hchained.kept⟩
  · have hl := locked_spec hlocked
    rw [(hchained.owns hl.targetRow hl.candidateRow hl.owner).last]
    unfold leaseEvent
    rw [hl.effect, hl.generation, hl.base, show accepted.repository = fence.repository from congrArg Prod.fst hl.target,
      show accepted.targetBranch = head.targetBranch from congrArg Prod.snd hl.target]
  · rcases step_cases hchained hs with hmoves | ⟨run, now, fence, advancement, rfl, hadvance⟩
    · obtain ⟨accepted', haccepted', htarget, hhead⟩ := hmoves.heads haccepted
      exact ⟨accepted', haccepted', htarget, .inl hhead⟩
    · obtain ⟨head, holder, candidate, hlocked, hqueue⟩ := advance_spec hadvance
      have hl := locked_spec hlocked
      have htargets := congrArg Queue.targets hqueue
      by_cases htarget : accepted.target = holder.target
      · obtain rfl := Keyed.unique hchained.targets haccepted hl.targetRow htarget
        let written : AcceptedTargetHead :=
          { accepted with
            headSha := advancement.headSha
            generation := accepted.generation + 1
            leaseOwner := none
            leaseExpiresAt := none }
        have hwritten : written ∈ t.targets := by
          rw [htargets]
          exact Keyed.mem_replace_self haccepted
        exact ⟨written, hwritten, rfl, .inr ⟨run, now, fence, advancement, head, candidate, rfl, hlocked, hl.holds hchained, rfl⟩⟩
      · refine ⟨accepted, ?_, rfl, .inl rfl⟩
        rw [htargets]
        exact Keyed.mem_replace.mpr (.inl ⟨haccepted, htarget⟩)
  · exact ⟨(hchained.target accepted haccepted).generations, (hchained.target accepted haccepted).linked⟩

/-- Two runs queue a candidate for one branch; the lease of the first expires before it advances. -/
def twoIntegrations : List Op :=
  [.putArtifact ⟨1, 1, none, .redacted⟩, .putArtifact ⟨2, 1, some 7, .owner⟩,
    .putArtifact ⟨3, 2, none, .redacted⟩, .putArtifact ⟨4, 2, some 8, .owner⟩,
    .prepareEffect { id := 1, run := 1, taskAttempt := some 7, kind := .integrate },
    .prepareEffect { id := 2, run := 2, taskAttempt := some 8, kind := .integrate },
    .initializeTarget 1 10 100 "main", .initializeTarget 2 10 100 "main",
    .queue 1 0 1 10 1 ⟨7, 100, 201, 0, 0, 0, 0⟩, .queue 2 1 2 10 2 ⟨8, 100, 202, 0, 0, 0, 0⟩,
    .acquire 0 0 5 30 1 10 1, .acquire 0 0 40 30 2 10 2, .acquire 0 0 41 30 1 10 1,
    .advance 1 50 ⟨10, 1, 2, 100⟩ ⟨101, "jarvis/1", 1, "/work/1", some 2⟩,
    .acquire 0 0 51 30 2 10 2,
    .advance 2 60 ⟨10, 2, 3, 101⟩ ⟨102, "jarvis/2", 3, "/work/2", some 4⟩]

theorem integration_chain_two : ∃ s, Steps.run step {} twoIntegrations = some s ∧
    s.completed.map (fun event => (event.baseSha, event.headSha)) = [(100, 101), (101, 102)] ∧
    ∀ accepted ∈ s.targets, ∃ start,
      Linked start ((s.completedOf accepted.target).map fun event => (event.baseSha, event.headSha)) accepted.headSha := by
  obtain ⟨s, hs⟩ : ∃ s, Steps.run step {} twoIntegrations = some s := ⟨_, rfl⟩
  have hcompleted : s.completed.map (fun event => (event.baseSha, event.headSha)) = [(100, 101), (101, 102)] := by
    cases hs
    decide
  have hchain := (integration_chain (Steps.run_reach twoIntegrations hs)).2.2.2.2.1
  exact ⟨s, hs, hcompleted, fun accepted haccepted => (hchain accepted haccepted).2⟩

-- The fence of the lease that expired advances nothing.
example : Steps.run step {} (twoIntegrations.take 13 ++
    [.advance 1 50 ⟨10, 1, 1, 100⟩ ⟨101, "jarvis/1", 1, "/work/1", some 2⟩]) = none := by decide

end Jarvis.Integration
