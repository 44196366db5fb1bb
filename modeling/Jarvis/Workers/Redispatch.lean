/-
  Jarvis.Workers.Redispatch — a failed worker execution and the next visit of the node.

  The request source refuses a visit while the task's latest attempt is neither failed nor
  cancelled. Of the exits an execution can fail through, only one moves its attempt: a worker
  result that is collected and says that the work failed. A boundary error raised while the
  adapter is asked (`validate`, `prepare`, `start`, `reconcile`, `inspect`, `collect`) leaves
  the attempt queued or running, and the next visit is refused (`boundary_failure_refused`).

  `Spares` are the moves of the runs in which a retried boundary error comes before the request
  source has inserted an attempt, and the lease of a failed result does not run out before it is
  released. In those runs the next visit is served (`failed_executions_retriable`).
-/
import Jarvis.Workers.Attempts

namespace Jarvis.Workers

open Steps
open Workflows (FailureClass)

variable {E T : Type}

/-- The stored result says that the work did not succeed. -/
def Invocation.failed (i : Invocation E T) : Bool := i.result.any fun r => r.status != .succeeded

/-- The lease of an invocation is released, or its attempt would get it again. -/
def LeaseOver (s : St E T) (now : Nat) (i : Invocation E T) : Prop :=
  s.pool.Released i.lease ∨ s.pool.Reenterable now i.lease i.id

/-- The execution stands between the terminal transaction and the release of its slot. -/
def Releasing (s : St E T) (e : E) : Prop := ∃ x, s.exec = some x ∧ x.key = e ∧ x.pc.releases = true

/-- The class of the boundary error a move brings. -/
def raised : Act E T → Option FailureClass
  | .inspect (.error cls) => some cls
  | .inspect (.ok (.live error)) => error
  | .inspect (.ok (.terminal (.error cls))) => some cls
  | .prepareWorkspace error => error
  | .validate (.error cls) => some cls
  | .validate (.ok report) => if report.valid then none else some (validationFailure report)
  | .prepare error => error
  | .start error => error
  | _ => none

/-- The moves after which a failed execution can be visited again. -/
structure Spares (s : St E T) (act : Act E T) : Prop where
  early : ∀ x cls, s.exec = some x → raised act = some cls → retried cls = true → ∀ a ∈ s.attempts, a.id ≠ x.key
  lasts : ∀ d, act = .tick d → ∀ i ∈ s.invocations, i.failed = true → ¬ Releasing s i.id → LeaseOver s (s.now + d) i
  stops : act = .stop → ∀ i ∈ s.invocations, i.failed = true → Releasing s i.id → LeaseOver s s.now i

section Decide

variable [DecidableEq E]

instance (s : St E T) (now : Nat) (i : Invocation E T) : Decidable (LeaseOver s now i) :=
  inferInstanceAs (Decidable (_ ∨ _))

instance (s : St E T) (e : E) : Decidable (Releasing s e) :=
  decidable_of_iff (s.exec.any (fun x => decide (x.key = e) && x.pc.releases) = true) <| by
    simp [Option.any_eq_true, Releasing]

/-- `Spares`, move by move. -/
def spares (s : St E T) (act : Act E T) : Bool :=
  (match s.exec, raised act with
    | some x, some cls => !retried cls || s.attempts.all fun a => a.id ≠ x.key
    | _, _ => true) &&
  match act with
  | .tick d => s.invocations.all fun i => !i.failed || decide (Releasing s i.id) || decide (LeaseOver s (s.now + d) i)
  | .stop => s.invocations.all fun i => !i.failed || !decide (Releasing s i.id) || decide (LeaseOver s s.now i)
  | _ => true

theorem spares_of {s : St E T} {act : Act E T} (h : spares s act = true) : Spares s act := by
  unfold spares at h
  rw [Bool.and_eq_true] at h
  refine ⟨fun x cls hx hr hcls a ha => ?_, fun d hd i hi hf hrel => ?_, fun hs i hi hf hrel => ?_⟩
  · have hall := h.1
    rw [hx, hr] at hall
    simp only [hcls, Bool.not_true, Bool.false_or, List.all_eq_true, decide_eq_true_eq] at hall
    exact hall a ha
  · have hall := h.2
    subst hd
    simp only [List.all_eq_true, Bool.or_eq_true, Bool.not_eq_true', decide_eq_true_eq] at hall
    obtain (hnf | hin) | hover := hall i hi
    · rw [hf] at hnf; cases hnf
    · exact absurd hin hrel
    · exact hover
  · have hall := h.2
    subst hs
    simp only [List.all_eq_true, Bool.or_eq_true, Bool.not_eq_true', decide_eq_true_eq, decide_eq_false_iff_not] at hall
    obtain (hnf | hout) | hover := hall i hi
    · rw [hf] at hnf; cases hnf
    · exact absurd hrel hout
    · exact hover

end Decide

/-- What the node has to leave behind: when the visit `e'` follows an execution that failed, the
    failed attempt is over, its slot is free or still its own, and the request is served. -/
def Retriable [DecidableEq E] [DecidableEq T] (B : Binding) (s : St E T) : Prop :=
  ∀ e' t' e t rest cls, s.visits = (e', t') :: (e, t) :: rest → (e, some cls) ∈ s.ended →
    ∀ a ∈ s.attempts, a.id = e →
      a.status.over = true ∧ (∀ i ∈ s.invocations, i.id = e → LeaseOver s s.now i) ∧
        (t' = a.task → ∀ profile, ∃ u, request B s e' t' profile = .ok u)

/-! ## The rows of the failed executions -/

/-- An outcome the execution holds. -/
def Pc.holds : Pc E T → Option Outcome
  | .releasing outcome | .settling outcome | .recorded outcome => some outcome
  | _ => none

def HasFailed (s : St E T) (e : E) : Prop := ∃ i ∈ s.invocations, i.id = e ∧ i.failed = true

structure Spared (s : St E T) : Prop where
  ended : ∀ e cls, (e, some cls) ∈ s.ended → (∀ a ∈ s.attempts, a.id ≠ e) ∨ HasFailed s e
  recorded : ∀ e cls, (e, some cls) ∈ s.effects → retried cls = true → HasFailed s e
  held : ∀ x cls, s.exec = some x → x.pc.holds = some (some cls) → retried cls = true → HasFailed s x.key
  leases : ∀ i ∈ s.invocations, i.failed = true → LeaseOver s s.now i ∨ Releasing s i.id

namespace Spared

variable {B : Binding} {s t : St E T} {x : Execution E T}

theorem init : Spared (Workers.init E T) where
  ended _ _ hv := absurd hv List.not_mem_nil
  recorded _ _ hv := absurd hv List.not_mem_nil
  held _ _ hx := by cases hx
  leases _ hi := absurd hi List.not_mem_nil

/-- The execution moves on without an outcome, and not from the release of its slot. -/
theorem proceed (h : Spared s) (hx : s.exec = some x) {pc : Pc E T} (hfrom : x.pc.releases = false)
    (hto : ∀ cls, pc.holds = some (some cls) → retried cls = true → HasFailed s x.key) : Spared (s.at x pc) where
  ended := h.ended
  recorded := h.recorded
  held y cls hy hpc hcls := by
    cases hy
    exact hto cls hpc hcls
  leases i hi hf := by
    obtain hl | ⟨y, hy, -, hpc⟩ := h.leases i hi hf
    · exact .inl hl
    · rw [hx] at hy
      cases hy
      rw [hfrom] at hpc
      cases hpc

theorem halt (h : Spared s) (hfrom : ∀ i ∈ s.invocations, i.failed = true → Releasing s i.id → LeaseOver s s.now i) :
    Spared s.halt where
  ended := h.ended
  recorded := h.recorded
  held _ _ hx := by cases hx
  leases i hi hf := .inl ((h.leases i hi hf).elim (fun hl => hl) (hfrom i hi hf))

/-- An execution that is not releasing a slot stops. -/
theorem notReleasing (hx : s.exec = some x) (hfrom : x.pc.releases = false) (e : E) : ¬ Releasing s e := by
  rintro ⟨y, hy, -, hpc⟩
  rw [hx] at hy
  cases hy
  rw [hfrom] at hpc
  cases hpc

theorem finish (h : Spared s) (hx : s.exec = some x) {outcome : Outcome} (hfrom : x.pc.releases = false)
    (hto : ∀ cls, outcome = some cls → (∀ a ∈ s.attempts, a.id ≠ x.key) ∨ HasFailed s x.key) :
    Spared (s.finish x outcome) where
  ended e cls hin := by
    obtain heq | hin := List.mem_cons.mp hin
    · cases heq
      exact hto cls rfl
    · exact h.ended e cls hin
  recorded := h.recorded
  held _ _ hx := by cases hx
  leases i hi hf := .inl ((h.leases i hi hf).elim (fun hl => hl) fun hr => absurd hr (notReleasing hx hfrom _))

theorem fail (h : Spared s) (hx : s.exec = some x) {cls : FailureClass} (hfrom : x.pc.releases = false)
    (hto : retried cls = true → (∀ a ∈ s.attempts, a.id ≠ x.key) ∨ HasFailed s x.key) : Spared (s.fail x cls) := by
  unfold St.fail
  split
  · rename_i hcls
    exact h.finish hx hfrom fun _ _ => hto hcls
  · exact h.halt fun _ _ _ hr => absurd hr (notReleasing hx hfrom _)

/-- The slots move on; the leases that are over stay so. -/
theorem slots (h : Spared s) {q : Pool E}
    (hq : ∀ i ∈ s.invocations, i.failed = true → LeaseOver s s.now i → ¬ Releasing s i.id →
      LeaseOver { s with pool := q } s.now i) : Spared { s with pool := q } where
  ended := h.ended
  recorded := h.recorded
  held := h.held
  leases i hi hf := by
    by_cases hr : Releasing s i.id
    · exact .inr hr
    · exact .inl (hq i hi hf ((h.leases i hi hf).resolve_right hr) hr)

/-- What is written to the lease of the execution's own invocation, while that has not failed or
    its slot is still to be released. -/
theorem ownLease (h : Spared s) [DecidableEq E] (hinv : Inv s) {i : Invocation E T} (hi : i ∈ s.invocations)
    {g : Lease E → Lease E} (hid : ∀ l, (g l).id = l.id) (hrel : ∀ l, l.released = true → (g l).released = true)
    (hattempt : ∀ l, (g l).attempt = l.attempt ∧ (g l).generation = l.generation)
    (hown : i.failed = true → Releasing s i.id) : Spared { s with pool := s.pool.update i.lease.lease g } := by
  refine h.slots fun j hj hf hover hr => ?_
  have hext := Pool.update_extends i.lease.lease hid (p := s.pool) fun l => ⟨(hattempt l).1, (hattempt l).2, hrel l⟩
  obtain hreleased | hlive := hover
  · exact .inl (hreleased.extends hext)
  · refine .inr (hlive.update hid (hinv.rows.prepared i hi).2.2 fun heq => hr ?_)
    obtain rfl := Keyed.unique hinv.rows.invoked hi hj heq
    exact hown hf

theorem renew (h : Spared s) [DecidableEq E] (hinv : Inv s) {i : Invocation E T} (hi : i ∈ s.invocations) (ttl : Nat)
    (hown : i.failed = true → Releasing s i.id) : Spared { s with pool := s.pool.renew s.now ttl i.lease } :=
  h.ownLease hinv hi (g := fun l => { l with expires := s.now + ttl }) (fun _ => rfl) (fun _ h => h) (fun _ => ⟨rfl, rfl⟩) hown

theorem freed (h : Spared s) [DecidableEq E] (hinv : Inv s) {i : Invocation E T} (hi : i ∈ s.invocations) {q : Pool E}
    (hq : s.pool.release i.lease = some q) (hown : i.failed = true → Releasing s i.id) : Spared { s with pool := q } := by
  rw [Pool.release_eq hq]
  exact h.ownLease hinv hi (fun _ => rfl) (fun _ _ => rfl) (fun _ => ⟨rfl, rfl⟩) hown

theorem keeps (h : Spared s) {q : Pool E} (hq : s.pool.Keeps q) : Spared { s with pool := q } :=
  h.slots fun _ _ _ hover _ => hover.imp (·.extends hq.extends) (·.keeps hq)

theorem enter [DecidableEq E] (h : Spared s) (hexec : s.exec = none) (e : E) (task : T) : Spared (s.enter e task) where
  ended := h.ended
  recorded := h.recorded
  held y cls hy hpc hcls := by
    cases hy
    simp only at hpc
    split at hpc
    · rename_i outcome hlook
      cases hpc
      obtain ⟨newer, older, heq, -⟩ := List.lookup_eq_some_iff.mp hlook
      exact h.recorded e cls (by rw [heq]; exact List.mem_append_right _ List.mem_cons_self) hcls
    · cases hpc
  leases i hi hf := by
    obtain hl | ⟨y, hy, -⟩ := h.leases i hi hf
    · exact .inl hl
    · rw [hexec] at hy
      cases hy

/-- Attempts are rewritten or inserted, invocations prepared, and what has failed stays so. -/
theorem rewrite (h : Spared s) (hx : s.exec = some x) (hfrom : x.pc.releases = false) {pc : Pc E T}
    {attempts : List (Attempt E T)} {invocations : List (Invocation E T)}
    (ha : ∀ e cls, (e, some cls) ∈ s.ended → (∀ a ∈ s.attempts, a.id ≠ e) → ∀ a ∈ attempts, a.id ≠ e)
    (hmono : ∀ i ∈ s.invocations, i.failed = true → i ∈ invocations)
    (hnew : ∀ i ∈ invocations, i.failed = true → i ∈ s.invocations ∨ i.id = x.key ∧ pc.releases = true)
    (hto : ∀ cls, pc.holds = some (some cls) → retried cls = true → ∃ i ∈ invocations, i.id = x.key ∧ i.failed = true) :
    Spared { s with attempts, invocations, exec := some { x with pc } } := by
  have hkept : ∀ e, HasFailed s e → HasFailed { s with attempts, invocations, exec := some { x with pc } } e := by
    rintro e ⟨i, hi, hid, hf⟩
    exact ⟨i, hmono i hi hf, hid, hf⟩
  refine ⟨fun e cls hin => (h.ended e cls hin).imp (ha e cls hin) (hkept e),
    fun e cls hin hcls => hkept e (h.recorded e cls hin hcls), fun y cls hy hpc hcls => ?_, fun i hi hf => ?_⟩
  · cases hy
    exact hto cls hpc hcls
  · obtain hi | ⟨hid, hpc⟩ := hnew i hi hf
    · exact .inl ((h.leases i hi hf).resolve_right (notReleasing hx hfrom _))
    · exact .inr ⟨_, rfl, hid.symm, hpc⟩

theorem outcome_failed {r : WorkerResult E T} {cls : FailureClass} (h : r.outcome = some cls) : (r.status != .succeeded) = true := by
  unfold WorkerResult.outcome at h
  split at h
  · cases h
  · rename_i hne
    simpa using hne

variable [DecidableEq E]

theorem store (h : Spared s) (hinv : Inv s) (hx : s.exec = some x) (hfrom : x.pc.releases = false) {i : Invocation E T}
    (hi : s.invocation? x.key = some i) (hres : i.result = none) {r : WorkerResult E T} : Spared (s.store x r) := by
  obtain ⟨hin, hid⟩ := mem_of_invocation? hi
  refine h.rewrite hx hfrom (fun e cls _ hno a ha heq => ?_) (fun j hj hf => ?_) (fun j hj hf => ?_) fun cls hpc _ => ?_
  · obtain ⟨ha, -⟩ | ⟨old, hold, -, rfl⟩ := Keyed.mem_replace.mp ha
    · exact hno a ha heq
    · exact hno old hold heq
  · refine Keyed.mem_replace.mpr (.inl ⟨hj, fun hjd => ?_⟩)
    obtain rfl := Keyed.unique hinv.rows.invoked hin hj (hid.trans hjd.symm)
    rw [Invocation.failed, hres] at hf
    cases hf
  · obtain ⟨hj, -⟩ | ⟨old, -, hold, rfl⟩ := Keyed.mem_replace.mp hj
    · exact .inl hj
    · exact .inr ⟨hold, rfl⟩
  · exact ⟨{ i with result := some r }, Keyed.mem_replace.mpr (.inr ⟨i, hin, hid, rfl⟩), hid,
      outcome_failed (Option.some.inj hpc)⟩

/-- The slot of a terminal invocation is released. -/
theorem release (h : Spared s) (hinv : Inv s) (hx : s.exec = some x) {outcome : Outcome} (hpc : x.pc = .releasing outcome) :
    Spared (Workers.release s x outcome) := by
  obtain ⟨i, hi, hid⟩ : ∃ i ∈ s.invocations, i.id = x.key := by
    simpa only [Standing, hpc] using (hinv.current x hx).2.2
  have hfound : (s.invocation? x.key).isSome = true := List.find?_isSome.mpr ⟨i, hi, by simp [hid]⟩
  obtain ⟨j, hj⟩ := Option.isSome_iff_exists.mp hfound
  obtain ⟨hjin, hjd⟩ := mem_of_invocation? hj
  obtain ⟨q, hq, hreleased⟩ := (hinv.rows.prepared j hjin).2.2.release
  have hfreed : Spared { s with pool := q } := h.freed hinv hjin hq fun _ => ⟨x, hx, hjd.symm, by rw [hpc]; rfl⟩
  unfold Workers.release
  rw [hj, Option.bind_some, hq]
  refine ⟨h.ended, h.recorded, fun y cls hy hholds hcls => ?_, fun k hk hf => .inl ?_⟩
  · cases hy
    exact h.held x cls hx (by rw [hpc]; exact hholds) hcls
  · obtain hl | ⟨y, hy, hkey, -⟩ := hfreed.leases k hk hf
    · exact hl
    · rw [hx] at hy
      cases hy
      obtain rfl := Keyed.unique hinv.rows.invoked hk hjin (hkey.symm.trans hjd.symm)
      exact .inl hreleased

theorem activate (h : Spared s) (hx : s.exec = some x) {r : Request E T} {lease : SlotFence}
    (hpc : x.pc = .acquired r lease) (digest : String) : Spared (Workers.activate s x r lease digest) := by
  have hfrom : x.pc.releases = false := by rw [hpc]; rfl
  unfold Workers.activate
  split
  · refine h.rewrite hx hfrom (fun e cls _ hno a ha heq => ?_) (fun i hi _ => List.mem_cons_of_mem _ hi) (fun i hi hf => ?_)
      fun cls hholds _ => by cases hholds
    · obtain ⟨ha, -⟩ | ⟨old, hold, -, rfl⟩ := Keyed.mem_replace.mp ha
      · exact hno a ha heq
      · exact hno old hold heq
    · obtain rfl | hi := List.mem_cons.mp hi
      · cases hf
      · exact .inl hi
  · exact h.halt fun _ _ _ hr => absurd hr (notReleasing hx hfrom _)

variable [DecidableEq T]

theorem inspect (h : Spared s) (hinv : Inv s) (hx : s.exec = some x) (hfrom : x.pc.releases = false)
    {answer : Except FailureClass (Reconciled E T)}
    (hearly : ∀ cls, raised (.inspect answer : Act E T) = some cls → retried cls = true → ∀ a ∈ s.attempts, a.id ≠ x.key) :
    Spared (Workers.inspect B s x answer) := by
  have hhalt : ∀ {u : St E T}, Spared u → u.exec = some x → Spared u.halt :=
    fun hu hux => hu.halt fun _ _ _ hr => absurd hr (notReleasing hux hfrom _)
  unfold Workers.inspect
  split
  · split
    · exact h.proceed hx hfrom fun _ hpc => by cases hpc
    · exact hhalt h hx
  · rename_i i hi
    obtain ⟨hin, hid⟩ := mem_of_invocation? hi
    split
    · rename_i r hres
      refine h.proceed hx hfrom fun cls hpc _ => ⟨i, hin, hid, ?_⟩
      rw [Invocation.failed, hres]
      exact outcome_failed (Option.some.inj hpc)
    · rename_i hres
      have hopen : ∀ j ∈ s.invocations, j.id = x.key → j.failed = false := by
        intro j hj hjd
        obtain rfl := Keyed.unique hinv.rows.invoked hin hj (hid.trans hjd.symm)
        rw [Invocation.failed, hres]
        rfl
      have hown : i.failed = true → Releasing s i.id := fun hf => by rw [hopen i hin hid] at hf; cases hf
      split
      · have hs : Spared { s with pool := s.pool.renew s.now B.ttl i.lease } := h.renew hinv hin B.ttl hown
        have hsinv : Inv { s with pool := s.pool.renew s.now B.ttl i.lease } :=
          hinv.slots (hinv.rows.numbered.renew _ _ _) (Pool.renew_extends _ _)
        unfold inspectPrepared
        split
        · exact hs.fail hx hfrom fun hcls => .inl (hearly _ rfl hcls)
        · split
          · exact hs.proceed hx hfrom fun _ hpc => by cases hpc
          · exact hhalt hs hx
        · exact hhalt hs hx
        · split
          · rename_i pool hrel
            exact hhalt (hs.freed hsinv hin hrel hown) hx
          · exact hhalt hs hx
        · exact hs.fail hx hfrom fun hcls => .inl (hearly _ rfl hcls)
        · exact hs.proceed hx hfrom fun _ hpc => by cases hpc
        · refine hs.proceed hx hfrom fun cls hpc hcls => ?_
          obtain ⟨a, ha, haid⟩ := (hinv.rows.prepared i hin).2.1
          exact absurd (haid.trans hid) (hearly cls (Option.some.inj hpc) hcls a ha)
        · split
          · exact hs.store hsinv hx hfrom hi hres
          · exact hhalt hs hx
      · exact hhalt h hx

/-- The attempt that is inserted is that of an execution that has not ended. -/
theorem request (h : Spared s) (hinv : Inv s) (hx : s.exec = some x) (hpc : x.pc = .requesting) {profile : Nat}
    {r : Request E T} (hr : Workers.request B s x.key x.task profile = .ok (t, r)) : Spared (t.at x (.requested r)) := by
  have hfrom : x.pc.releases = false := by rw [hpc]; rfl
  obtain ⟨rfl, -⟩ | ⟨a, -, rfl, -, haid, -⟩ := request_ok hr
  · exact h.proceed hx hfrom fun _ hholds => by cases hholds
  · refine h.rewrite hx hfrom (fun e cls hin hno b hb heq => ?_) (fun i hi _ => hi) (fun i hi _ => .inl hi)
      fun _ hholds _ => by cases hholds
    obtain rfl | hb := List.mem_cons.mp hb
    · refine hinv.not_ended hx (some cls) ?_
      rw [← haid, heq]
      exact hin
    · exact hno b hb heq

theorem verified (h : Spared s) {task : T} {status : AttemptStatus} (hv : Workers.verified s task status = some t) :
    Spared t := by
  obtain ⟨a, -, -, -, -, -, -, rfl⟩ := verified_cases hv
  refine ⟨fun e cls hin => (h.ended e cls hin).imp_left fun hno b hb heq => ?_, h.recorded, h.held, h.leases⟩
  obtain ⟨hb, -⟩ | ⟨old, hold, -, rfl⟩ := Keyed.mem_replace.mp hb
  · exact hno b hb heq
  · exact hno old hold heq

theorem execStep (h : Spared s) (hinv : Inv s) (hx : s.exec = some x) {act : Act E T} (hok : Spares s act)
    (hs : Workers.execStep B s x act = some t) : Spared t := by
  have hearly : ∀ cls, raised act = some cls → retried cls = true → ∀ a ∈ s.attempts, a.id ≠ x.key :=
    fun cls hr hcls => hok.early x cls hx hr hcls
  have hhalt : x.pc.releases = false → Spared s.halt :=
    fun hfrom => h.halt fun _ _ _ hr => absurd hr (notReleasing hx hfrom _)
  cases act with
  | tick | visit | resume | verified | grant | giveBack => cases hs
  | stop =>
    cases hs
    exact h.halt (hok.stops rfl)
  | inspect answer =>
    simp only [Workers.execStep] at hs
    split at hs
    · rename_i hpc
      cases hs
      have hfrom : x.pc.releases = false := by obtain hpc | hpc := hpc <;> rw [hpc] <;> rfl
      exact h.inspect hinv hx hfrom hearly
    · cases hs
  | prepareWorkspace error =>
    simp only [Workers.execStep] at hs
    split at hs
    · rename_i hpc
      have hfrom : x.pc.releases = false := by rw [hpc]; rfl
      split at hs <;> cases hs
      · exact h.fail hx hfrom fun hcls => .inl (hearly _ rfl hcls)
      · exact h.proceed hx hfrom fun _ hholds => by cases hholds
    · cases hs
  | request profile admitted =>
    simp only [Workers.execStep] at hs
    split at hs
    · rename_i hpc
      have hfrom : x.pc.releases = false := by rw [hpc]; rfl
      split at hs
      · rename_i u r hr
        split at hs <;> cases hs
        · exact h.request hinv hx hpc hr
        · exact hhalt hfrom
      · cases hs
        exact hhalt hfrom
    · cases hs
  | acquire =>
    simp only [Workers.execStep] at hs
    split at hs
    · rename_i r hpc
      have hfrom : x.pc.releases = false := by rw [hpc]; rfl
      split at hs <;> cases hs
      · rename_i pool lease hacq
        exact (h.keeps (hinv.rows.numbered.acquire hacq).1).proceed hx hfrom fun _ hholds => by cases hholds
      · exact h
    · cases hs
  | activate digest =>
    simp only [Workers.execStep] at hs
    split at hs
    · rename_i hpc
      cases hs
      exact h.activate hx hpc digest
    · cases hs
  | validate report =>
    simp only [Workers.execStep] at hs
    split at hs
    · rename_i hpc
      have hfrom : x.pc.releases = false := by rw [hpc]; rfl
      cases hs
      unfold validated
      split
      · exact h.fail hx hfrom fun hcls => .inl (hearly _ rfl hcls)
      · rename_i report
        split
        · exact h.proceed hx hfrom fun _ hholds => by cases hholds
        · rename_i hvalid
          exact h.fail hx hfrom fun hcls => .inl (hearly _ (if_neg hvalid) hcls)
    · cases hs
  | prepare error =>
    simp only [Workers.execStep] at hs
    split at hs
    · rename_i hpc
      have hfrom : x.pc.releases = false := by rw [hpc]; rfl
      split at hs <;> cases hs
      · exact h.fail hx hfrom fun hcls => .inl (hearly _ rfl hcls)
      · exact h.proceed hx hfrom fun _ hholds => by cases hholds
    · cases hs
  | start error =>
    simp only [Workers.execStep] at hs
    split at hs
    · rename_i hpc
      have hfrom : x.pc.releases = false := by rw [hpc]; rfl
      split at hs
      · cases hs
        exact h.fail hx hfrom fun hcls => .inl (hearly _ rfl hcls)
      · split at hs <;> cases hs
        · exact h.proceed hx hfrom fun _ hholds => by cases hholds
        · exact hhalt hfrom
    · cases hs
  | renew =>
    simp only [Workers.execStep, Workers.renew] at hs
    split at hs
    · cases hs
    · rename_i i hi
      obtain ⟨hin, hid⟩ := mem_of_invocation? hi
      split at hs <;> cases hs
      rename_i hguard
      refine h.renew hinv hin B.ttl fun hf => ?_
      simp only [Bool.and_eq_true, Bool.or_eq_true] at hguard
      obtain hnone | hrel := hguard.1
      · rw [Invocation.failed, Option.isNone_iff_eq_none.mp hnone] at hf
        cases hf
      · exact ⟨x, hx, hid.symm, hrel⟩
  | release =>
    simp only [Workers.execStep] at hs
    split at hs
    · rename_i hpc
      cases hs
      exact h.release hinv hx hpc
    · cases hs
  | record =>
    simp only [Workers.execStep] at hs
    split at hs
    · rename_i outcome hpc
      have hfrom : x.pc.releases = false := by rw [hpc]; rfl
      have hheld : ∀ cls, outcome = some cls → retried cls = true → HasFailed s x.key :=
        fun cls ho hcls => h.held x cls hx (by rw [hpc, ho]; rfl) hcls
      cases hs
      have hrecorded : Spared { s with effects := (x.key, outcome) :: s.effects } := by
        refine ⟨h.ended, fun e cls hin hcls => ?_, h.held, h.leases⟩
        obtain heq | hin := List.mem_cons.mp hin
        · cases heq
          exact hheld cls rfl hcls
        · exact h.recorded e cls hin hcls
      exact hrecorded.proceed hx hfrom fun cls hholds hcls => hheld cls (Option.some.inj hholds) hcls
    · cases hs
  | complete =>
    simp only [Workers.execStep] at hs
    split at hs
    · rename_i outcome hpc
      have hfrom : x.pc.releases = false := by rw [hpc]; rfl
      cases hs
      cases outcome with
      | none => exact h.finish hx hfrom fun _ ho => by cases ho
      | some cls => exact h.fail hx hfrom fun hcls => .inr (h.held x cls hx (by rw [hpc]; rfl) hcls)
    · cases hs

theorem step (h : Spared s) (hinv : Inv s) {act : Act E T} (hok : Spares s act) (hs : Workers.step B s act = some t) :
    Spared t := by
  unfold Workers.step at hs
  split at hs
  · cases hs
    refine ⟨h.ended, h.recorded, h.held, fun i hi hf => ?_⟩
    by_cases hr : Releasing s i.id
    · exact .inr hr
    · exact .inl (hok.lasts _ rfl i hi hf hr)
  · split at hs
    · rename_i e task hguard
      cases hs
      have hexec : s.exec = none := by
        simp only [Bool.and_eq_true, idle, Option.isNone_iff_eq_none] at hguard
        exact hguard.1.1
      have hvisited : Spared { s with visits := (e, task) :: s.visits } := ⟨h.ended, h.recorded, h.held, h.leases⟩
      exact hvisited.enter hexec e task
    · cases hs
  · split at hs
    · rename_i hexec hhead
      split at hs <;> cases hs
      exact h.enter hexec _ _
    · cases hs
  · exact h.verified hs
  · split at hs <;> cases hs
    exact h.keeps (Pool.grant_keeps _ _ _)
  · cases hs
    exact h.slots fun _ _ _ hover _ => hover.imp (·.extends (Pool.giveBack_extends _)) (·.giveBack _)
  · obtain ⟨x, hx, hs⟩ := Option.bind_eq_some_iff.mp hs
    exact h.execStep hinv hx hok hs

theorem reach (h : ReachIf (Workers.step B) Spares (Workers.init E T) s) : Spared s :=
  h.invariant_with Inv Spared (fun _ hr => Inv.reach hr) init fun _ _ _ hinv hs hok hstep => hs.step hinv hok hstep

end Spared

/-! ## The next visit -/

section Next

variable [DecidableEq E] [DecidableEq T] {B : Binding} {s t : St E T}

omit [DecidableEq T] in
/-- The attempt of the last visit that inserted one is the newest. -/
theorem newest_attempt (h : Inv s) {keys : List E} {e : E} (hsub : (s.attempts.map Attempt.id).Sublist (e :: keys))
    (hkeys : e ∉ keys) {a : Attempt E T} (ha : a ∈ s.attempts) (hid : a.id = e) : ∃ older, s.attempts = a :: older := by
  have hnodup : (s.attempts.map Attempt.id).Nodup := h.rows.visited.sublist h.rows.attempted
  cases hattempts : s.attempts with
  | nil => rw [hattempts] at ha; cases ha
  | cons b older =>
    rw [hattempts] at ha hsub hnodup
    obtain hsub | ⟨hb, -⟩ := List.cons_sublist_cons'.mp hsub
    · exact absurd (hsub.subset (hid ▸ List.mem_map_of_mem ha)) hkeys
    · obtain rfl := Keyed.unique hnodup ha List.mem_cons_self (hid.trans hb.symm)
      exact ⟨older, rfl⟩

theorem latest?_newest (h : Inv s) {a : Attempt E T} {older : List (Attempt E T)} (heq : s.attempts = a :: older) :
    s.latest? a.task = some a := by
  obtain ⟨latest, hlatest, hle⟩ := le_latest? (s := s) (b := a) (by rw [heq]; exact List.mem_cons_self) rfl
  obtain ⟨hin, htask⟩ := mem_of_latest? hlatest
  rw [hlatest]
  have hinc := h.rows.increasing
  rw [heq] at hin hinc
  obtain rfl | hin := List.mem_cons.mp hin
  · rfl
  · have hlt := (List.pairwise_cons.mp hinc).1 latest hin htask.symm
    omega

/-- Until the visit has an attempt of its own, the latest attempt of the task is that of the
    visit before. -/
theorem latest?_previous (h : Inv s) {e' e : E} {t' task : T} {rest : List (E × T)}
    (hvisits : s.visits = (e', t') :: (e, task) :: rest) (hnone : s.attempt? e' = none) {a : Attempt E T}
    (ha : a ∈ s.attempts) (hid : a.id = e) : s.latest? a.task = some a := by
  have hsub := h.rows.attempted
  have hvisited := h.rows.visited
  rw [hvisits] at hsub hvisited
  have hsub : (s.attempts.map Attempt.id).Sublist (e :: rest.map Prod.fst) := by
    obtain hsub | ⟨ids, hids, -⟩ := List.sublist_cons_iff.mp hsub
    · exact hsub
    · obtain ⟨b, hb, hbid⟩ := List.mem_map.mp (hids ▸ List.mem_cons_self : e' ∈ s.attempts.map Attempt.id)
      exact absurd hbid (attempt?_none hnone b hb)
  obtain ⟨older, heq⟩ := newest_attempt h hsub (List.nodup_cons.mp (List.nodup_cons.mp hvisited).2).1 ha hid
  exact latest?_newest h heq

/-- The next visit is served when the attempt before it is over. -/
theorem request_served (h : Inv s) {e' e : E} {t' task : T} {rest : List (E × T)}
    (hvisits : s.visits = (e', t') :: (e, task) :: rest) {a : Attempt E T} (ha : a ∈ s.attempts) (hid : a.id = e)
    (hover : a.status.over = true) (profile : Nat) : ∃ u, request B s e' a.task profile = .ok u := by
  unfold request
  split
  · exact ⟨_, rfl⟩
  · rename_i hnone
    rw [latest?_previous h hvisits hnone ha hid, if_neg (by simp [hover])]
    exact ⟨_, rfl⟩

omit [DecidableEq E] [DecidableEq T] in
theorem fail_invocations {x : Execution E T} {cls : FailureClass} : (s.fail x cls).invocations = s.invocations := by
  unfold St.fail
  split <;> rfl

omit [DecidableEq E] [DecidableEq T] in
theorem fail_visits {x : Execution E T} {cls : FailureClass} : (s.fail x cls).visits = s.visits := by
  unfold St.fail
  split <;> rfl

/-- An execution that holds no outcome ends by a boundary error, before it has a result. -/
theorem execStep_ended {x : Execution E T} {act : Act E T} (hs : execStep B s x act = some t) :
    t.ended = s.ended ∨ x.pc.holds.isSome = true ∨
      t.invocations = s.invocations ∧ t.visits = s.visits ∧
        (x.pc = .entered → ∀ i, s.invocation? x.key = some i → i.result = none) := by
  cases act with
  | tick | visit | resume | verified | grant | giveBack => cases hs
  | stop => cases hs; exact .inl rfl
  | inspect answer =>
    simp only [execStep] at hs
    split at hs <;> cases hs
    unfold inspect
    split
    · split <;> exact .inl rfl
    rename_i i hi
    split
    · exact .inl rfl
    rename_i hres
    have hnone : ∀ j, s.invocation? x.key = some j → j.result = none := fun j hj => by
      rw [hi] at hj
      cases hj
      exact hres
    split
    · unfold inspectPrepared
      split
      · exact .inr (.inr ⟨fail_invocations, fail_visits, fun _ => hi ▸ hnone⟩)
      · split <;> exact .inl rfl
      · exact .inl rfl
      · split <;> exact .inl rfl
      · exact .inr (.inr ⟨fail_invocations, fail_visits, fun _ => hi ▸ hnone⟩)
      · exact .inl rfl
      · exact .inl rfl
      · split <;> exact .inl rfl
    · exact .inl rfl
  | prepareWorkspace error =>
    simp only [execStep] at hs
    split at hs
    · rename_i hpc
      split at hs <;> cases hs
      · exact .inr (.inr ⟨fail_invocations, fail_visits, fun he => by rw [hpc] at he; cases he⟩)
      · exact .inl rfl
    · cases hs
  | request profile admitted =>
    simp only [execStep] at hs
    split at hs
    · split at hs
      · rename_i u r hr
        have hu : u.ended = s.ended := by obtain ⟨rfl, -⟩ | ⟨a, -, rfl, -⟩ := request_ok hr <;> rfl
        split at hs <;> cases hs
        · exact .inl hu
        · exact .inl rfl
      · cases hs
        exact .inl rfl
    · cases hs
  | acquire =>
    simp only [execStep] at hs
    split at hs
    · split at hs <;> cases hs <;> exact .inl rfl
    · cases hs
  | activate digest =>
    simp only [execStep] at hs
    split at hs <;> cases hs
    unfold activate
    split <;> exact .inl rfl
  | validate report =>
    simp only [execStep] at hs
    split at hs <;> cases hs
    rename_i hpc
    unfold validated
    split
    · exact .inr (.inr ⟨fail_invocations, fail_visits, fun he => by rw [hpc] at he; cases he⟩)
    · split
      · exact .inl rfl
      · exact .inr (.inr ⟨fail_invocations, fail_visits, fun he => by rw [hpc] at he; cases he⟩)
  | prepare error =>
    simp only [execStep] at hs
    split at hs
    · rename_i hpc
      split at hs <;> cases hs
      · exact .inr (.inr ⟨fail_invocations, fail_visits, fun he => by rw [hpc] at he; cases he⟩)
      · exact .inl rfl
    · cases hs
  | start error =>
    simp only [execStep] at hs
    split at hs
    · rename_i hpc
      split at hs
      · cases hs
        exact .inr (.inr ⟨fail_invocations, fail_visits, fun he => by rw [hpc] at he; cases he⟩)
      · split at hs <;> cases hs <;> exact .inl rfl
    · cases hs
  | renew =>
    simp only [execStep, renew] at hs
    split at hs
    · cases hs
    · split at hs <;> cases hs
      exact .inl rfl
  | release =>
    simp only [execStep] at hs
    split at hs <;> cases hs
    unfold release
    split <;> exact .inl rfl
  | record =>
    simp only [execStep] at hs
    split at hs <;> cases hs
    exact .inl rfl
  | complete =>
    simp only [execStep] at hs
    split at hs <;> cases hs
    rename_i hpc
    exact .inr (.inl (by rw [hpc]; rfl))

omit [DecidableEq T] in
theorem without_result (h : Inv s) {x : Execution E T} (hx : s.exec = some x) (hpc : x.pc.holds = none)
    (hentered : x.pc = .entered → ∀ i, s.invocation? x.key = some i → i.result = none) :
    ∀ i ∈ s.invocations, i.id = x.key → i.result = none := by
  intro i hi hid
  have hstand := (h.current x hx).2.2
  have hopen : (∃ j ∈ s.invocations, j.id = x.key ∧ j.result = none) → i.result = none := by
    rintro ⟨j, hj, hjd, hnone⟩
    obtain rfl := Keyed.unique h.rows.invoked hi hj (hid.trans hjd.symm)
    exact hnone
  cases hp : x.pc with
  | entered =>
    have hfound : (s.invocation? x.key).isSome = true := List.find?_isSome.mpr ⟨i, hi, by simp [hid]⟩
    obtain ⟨j, hj⟩ := Option.isSome_iff_exists.mp hfound
    exact hopen ⟨j, (mem_of_invocation? hj).1, (mem_of_invocation? hj).2, hentered hp j hj⟩
  | dispatching | requesting => rw [Standing, hp] at hstand; exact absurd hid (hstand i hi)
  | requested | acquired => rw [Standing, hp] at hstand; exact absurd hid (hstand.1 i hi)
  | validating | preparing | starting | polling => rw [Standing, hp] at hstand; exact hopen hstand
  | releasing | settling | recorded => rw [hp] at hpc; cases hpc

/-- A retried boundary error after the request source has inserted the attempt: the attempt stays
    queued or running, and the next visit for its task is refused. -/
theorem boundary_failure_refused {ok : St E T → Act E T → Prop} {x : Execution E T} {act : Act E T} {cls : FailureClass}
    (h : ReachIf (step B) ok (init E T) s) (hx : s.exec = some x) (hpc : x.pc.holds = none)
    (hs : execStep B s x act = some t) (hend : (x.key, some cls) ∈ t.ended) {a : Attempt E T} (ha : a ∈ t.attempts)
    (hid : a.id = x.key) {e' : E} (hnext : t.attempt? e' = none) (profile : Nat) :
    a.status.over = false ∧
      request B t e' a.task profile = .error "task already has an active or completed attempt" := by
  have hinv : Inv s := Inv.reach h
  have hinv' : Inv t := hinv.execStep hx hs
  obtain hsame | hsome | ⟨hsame, hvisits, hentered⟩ := execStep_ended hs
  · exact absurd (hsame ▸ hend) (hinv.not_ended hx (some cls))
  · rw [hpc] at hsome
    cases hsome
  have hover : a.status.over = false := by
    obtain hq | hr := hinv'.rows.opened a ha fun i hi hie =>
      without_result hinv hx hpc hentered i (hsame ▸ hi) (hie.trans hid)
    · rw [hq]; rfl
    · rw [hr]; rfl
  have hlatest : t.latest? a.task = some a := by
    obtain ⟨rest, hfirst⟩ := (hinv.current x hx).1
    have hsub := hinv'.rows.attempted
    have hvisited := hinv'.rows.visited
    rw [hvisits, hfirst] at hsub hvisited
    obtain ⟨older, heq⟩ := newest_attempt hinv' hsub (List.nodup_cons.mp hvisited).1 ha hid
    exact latest?_newest hinv' heq
  refine ⟨hover, ?_⟩
  unfold request
  rw [hnext, hlatest]
  simp [hover]

end Next

/-! ## Two runs -/

/-- One exclusive worker. -/
def exclusive : Binding := ⟨1, 30, "/work/site", "main", "base"⟩

/-- The moves of a visit up to its start. -/
def launch (e : Nat) : List (Act Nat Nat) :=
  [.visit e 0, .inspect (.ok .absent), .prepareWorkspace none, .request 0 true, .acquire, .activate "digest",
    .validate (.ok ⟨true, false, []⟩), .prepare none, .start none]

/-- A result that says the work failed is collected; the node is visited again. -/
def failedResult : List (Act Nat Nat) :=
  launch 1 ++
    [.tick 5, .renew,
      .inspect (.ok (.terminal (.ok ⟨1, 1, "digest", 1, 0, 0, "/work/site", "main", "base", "head", .failed⟩))), .tick 60,
      .release, .record, .complete, .visit 2 0]

/-- The worker is unreachable when it is validated: 'infrastructure.worker_transport'. The node is
    visited again and asks the request source. -/
def unreachable : List (Act Nat Nat) :=
  [.visit 1 0, .inspect (.ok .absent), .prepareWorkspace none, .request 0 true, .acquire, .activate "digest",
    .validate (.ok ⟨false, true, []⟩), .visit 2 0, .inspect (.ok .absent), .prepareWorkspace none]

end Jarvis.Workers
