/-
  Jarvis.Runtime.Dispatch — what the effect ledger guarantees in every reachable state of
  `Effects.step`: a non-idempotent effect is dispatched at most once, every dispatch follows a
  committed 'dispatched' record, and a recorded success is what later executions return.

  The invariant holds an execution to the fence of the live lease. Only that executor's
  transactions commit, one execution of an effect runs in it at a time and `cancel_pending`
  is over before, so what `prepare` read stays true until the execution itself changes it.
  An execution about to record 'dispatched' for a non-idempotent effect therefore finds it
  'prepared' still, and 'prepared' says that nobody has ever recorded 'dispatched': no call
  was made and none is about to be made.
-/
import Mathlib.Data.List.Nodup
import Jarvis.Runtime.Effects

namespace Jarvis.Runtime.Effects

variable {R D : Type}

/-! ## Lookups -/

theorem effectOf_update (s : St R D) (i j : Nat) (g : Effect R D → Effect R D) :
    effectOf (update s i g) j =
      if j = i then (effectOf s j).map fun e => { g e with identity := e.identity } else effectOf s j := by
  unfold effectOf update
  induction s.effects with
  | nil => simp
  | cons e es ih =>
    simp only [List.map_cons, List.find?_cons]
    by_cases he : e.identity = j
    · subst he
      by_cases hi : e.identity = i
      · simp [hi]
      · simp [hi]
    · by_cases hi : e.identity = i
      · simp only [hi, if_true]
        have : (i == j) = false := by
          rw [← hi]
          simpa using he
        simp only [this]
        exact ih
      · have : (e.identity == j) = false := by simpa using he
        simp only [hi, if_false, this]
        exact ih

theorem update_ids (s : St R D) (i : Nat) (g : Effect R D → Effect R D) :
    (update s i g).effects.map (·.identity) = s.effects.map (·.identity) := by
  unfold update
  rw [List.map_map]
  refine List.map_congr_left fun e _ => ?_
  simp only [Function.comp]
  split <;> rfl

theorem effectOf_identity {s : St R D} {i : Nat} {e : Effect R D} (h : effectOf s i = some e) : e.identity = i := by
  simpa using List.find?_some h

theorem procOf_mem {s : St R D} {x : Nat} {p : Proc R} (h : procOf s x = some p) : p ∈ s.procs ∧ p.id = x :=
  ⟨List.mem_of_find?_eq_some h, by simpa using List.find?_some h⟩

theorem cancelOf_mem {s : St R D} {f : RunFence} {c : CancelProc} (h : cancelOf s f = some c) :
    c ∈ s.cancels ∧ c.fence = f :=
  ⟨List.mem_of_find?_eq_some h, by simpa using List.find?_some h⟩

theorem lease_of_fenced {s : St R D} {f : RunFence} (h : fenced s f = true) : s.lease = some f := by
  simp only [fenced, Bool.and_eq_true, beq_iff_eq] at h
  exact h.1.1.1

/-! ## Counting calls -/

def isCall (i : Nat) : Ev R → Bool
  | .called _ j => j == i
  | _ => false

def Pc.isDispatching : Pc R → Bool
  | .dispatching => true
  | _ => false

def isDispatching (i : Nat) (p : Proc R) : Bool := p.pc.isDispatching && p.identity == i

/-- The calls of `adapter.dispatch` for effect `i` so far, and those about to be made. -/
def dispatches (s : St R D) (i : Nat) : Nat := s.log.countP (isCall i) + s.procs.countP (isDispatching i)

/-- An execution that found its effect 'prepared' and has not recorded anything yet. -/
def Pc.fresh : Pc R → Bool
  | .inspect dispatched => !dispatched
  | .recordDispatched dispatched => !dispatched
  | _ => false

/-! ## The invariant -/

/-- A success is never followed by a preparation that finds anything else. -/
def Ordered (e e' : Ev R) : Prop := ∀ i r x st, e = .succeeded i r → e' = .prepared x i st → st = .succeeded

structure Inv (A : Adapters R) (s : St R D) : Prop where
  leaseNewest : ∀ f, s.lease = some f → f.generation = s.generation
  fencesLe : ∀ f ∈ s.fences, f.generation ≤ s.generation
  procFence : ∀ p ∈ s.procs, p.fence ∈ s.fences
  cancelFence : ∀ c ∈ s.cancels, c.fence ∈ s.fences
  effectIds : (s.effects.map (·.identity)).Nodup
  ids : (s.procs.map (·.id)).Nodup
  procLt : ∀ p ∈ s.procs, p.id < s.next
  /-- One execution of an effect at a time in an executor, none beside `cancel_pending`. -/
  one : s.procs.Pairwise fun p q => p.fence = q.fence → p.identity ≠ q.identity
  apart : ∀ p ∈ s.procs, ∀ c ∈ s.cancels, p.fence ≠ c.fence
  idempotent : ∀ p ∈ s.procs, p.pc = .recordDispatched true → A.idempotent p.identity = true
  /-- What the live executor's executions and cancellations know of their effects. -/
  fresh : ∀ p ∈ s.procs, s.lease = some p.fence → p.pc.fresh = true →
    ∃ e, effectOf s p.identity = some e ∧ e.status = .prepared
  unfinished : ∀ p ∈ s.procs, s.lease = some p.fence → ∃ e, effectOf s p.identity = some e ∧ e.status ≠ .succeeded
  cancelling : ∀ c ∈ s.cancels, s.lease = some c.fence → ∀ t ∈ c.todo, ∀ e, effectOf s t.1 = some e →
    e.status ≠ .succeeded
  once : ∀ i, A.idempotent i = false → dispatches s i ≤ 1
  begun : ∀ i, 0 < dispatches s i → ∃ e, effectOf s i = some e ∧ e.status ≠ .prepared
  recorded : ∀ p ∈ s.procs, p.pc = .dispatching →
    ∃ d, d ≠ .cancelled ∧ .dispatchRecorded p.id p.identity true d ∈ s.log
  preceded : ∀ (k x i : Nat), s.log[k]? = some (.called x i) →
    ∃ j d, j < k ∧ d ≠ .cancelled ∧ s.log[j]? = some (.dispatchRecorded x i true d)
  stored : ∀ i r, (.succeeded i r ∈ s.log ∨ ∃ x, .returned x i r ∈ s.log) →
    ∃ e, effectOf s i = some e ∧ e.status = .succeeded ∧ e.result = some r
  succeeded : ∀ i e, effectOf s i = some e → e.status = .succeeded → ∃ r, e.result = some r ∧ .succeeded i r ∈ s.log
  ordered : s.log.Pairwise Ordered
  /-- An execution that found a success made no call and returned. -/
  settled : ∀ x i, .prepared x i .succeeded ∈ s.log → (∀ j, .called x j ∉ s.log) ∧ (∀ p ∈ s.procs, p.id ≠ x) ∧
    ∃ r, .returned x i r ∈ s.log
  logLt : ∀ x i, (.called x i ∈ s.log ∨ ∃ st, .prepared x i st ∈ s.log) → x < s.next

theorem init_inv (A : Adapters R) (recovery : RecoveryRow) : Inv A (init recovery : St R D) := by
  constructor <;> simp [init, dispatches, effectOf]

/-! ## Claims, losses and requeues -/

/-- Only the lease and the run's own state change, and no earlier fence becomes live. -/
theorem Inv.env {A : Adapters R} {s t : St R D} (hi : Inv A s) (he : t.effects = s.effects)
    (hp : t.procs = s.procs) (hc : t.cancels = s.cancels) (hn : t.next = s.next) (hlog : t.log = s.log)
    (hnew : ∀ f, t.lease = some f → f.generation = t.generation)
    (hle : ∀ f ∈ t.fences, f.generation ≤ t.generation) (hsub : ∀ f ∈ s.fences, f ∈ t.fences)
    (hl : ∀ f ∈ s.fences, t.lease = some f → s.lease = some f) : Inv A t := by
  have hef : ∀ i, effectOf t i = effectOf s i := fun i => by unfold effectOf; rw [he]
  have hd : ∀ i, dispatches t i = dispatches s i := fun i => by unfold dispatches; rw [hlog, hp]
  refine ⟨hnew, hle, ?_, ?_, he ▸ hi.effectIds, hp ▸ hi.ids, ?_, hp ▸ hi.one, ?_, hp ▸ hi.idempotent, ?_, ?_, ?_, ?_, ?_, ?_, ?_, ?_, ?_,
    hlog ▸ hi.ordered, ?_, ?_⟩
  · intro p hpm
    exact hsub _ (hi.procFence p (hp ▸ hpm))
  · intro c hcm
    exact hsub _ (hi.cancelFence c (hc ▸ hcm))
  · rw [hp, hn]
    exact hi.procLt
  · rw [hp, hc]
    exact hi.apart
  · intro p hpm hlease
    rw [hp] at hpm
    rw [hef]
    exact hi.fresh p hpm (hl _ (hi.procFence p hpm) hlease)
  · intro p hpm hlease
    rw [hp] at hpm
    rw [hef]
    exact hi.unfinished p hpm (hl _ (hi.procFence p hpm) hlease)
  · intro c hcm hlease tt htt e
    rw [hc] at hcm
    rw [hef]
    exact hi.cancelling c hcm (hl _ (hi.cancelFence c hcm) hlease) tt htt e
  · intro i
    rw [hd]
    exact hi.once i
  · intro i
    rw [hd, hef]
    exact hi.begun i
  · rw [hp, hlog]
    exact hi.recorded
  · rw [hlog]
    exact hi.preceded
  · intro i r
    rw [hlog, hef]
    exact hi.stored i r
  · intro i e
    rw [hlog, hef]
    exact hi.succeeded i e
  · rw [hlog, hp]
    exact hi.settled
  · rw [hlog, hn]
    exact hi.logLt

/-! ## Executions move on and end -/

theorem mem_setPc {s : St R D} {x : Nat} {pc : Pc R} {q : Proc R} (h : q ∈ (setPc s x pc).procs) :
    ∃ p ∈ s.procs, q.id = p.id ∧ q.fence = p.fence ∧ q.identity = p.identity ∧
      (q = p ∧ p.id ≠ x ∨ p.id = x ∧ q.pc = pc) := by
  obtain ⟨p, hp, rfl⟩ := List.mem_map.mp h
  refine ⟨p, hp, ?_⟩
  split
  · rename_i hx
    exact ⟨rfl, rfl, rfl, .inr ⟨hx, rfl⟩⟩
  · rename_i hx
    exact ⟨rfl, rfl, rfl, .inl ⟨rfl, hx⟩⟩

/-- Counting after one execution moved. -/
theorem countP_setPc (P : Proc R → Bool) : ∀ (l : List (Proc R)), (l.map (·.id)).Nodup → ∀ p ∈ l, ∀ pc,
    (l.map fun q => if q.id = p.id then { q with pc := pc } else q).countP P + (if P p then 1 else 0) =
      l.countP P + (if P { p with pc := pc } then 1 else 0) := by
  intro l
  induction l with
  | nil => intro _ p hp; cases hp
  | cons q l ih =>
    intro hn p hp pc
    obtain ⟨hq, hl⟩ := List.nodup_cons.mp hn
    simp only [List.map_cons, List.countP_cons]
    rcases List.mem_cons.mp hp with rfl | hp
    · have hrest : (l.map fun q => if q.id = p.id then { q with pc := pc } else q) = l := by
        conv_rhs => rw [← List.map_id l]
        refine List.map_congr_left fun q' hq' => ?_
        have hne : q'.id ≠ p.id := fun h => hq (List.mem_map.mpr ⟨q', hq', h⟩)
        simp [hne]
      rw [hrest, if_pos rfl]
      omega
    · have hne : q.id ≠ p.id := fun h => hq (List.mem_map.mpr ⟨p, hp, h.symm⟩)
      rw [if_neg hne]
      have := ih hl p hp pc
      omega

theorem dispatches_setPc {s : St R D} (hn : (s.procs.map (·.id)).Nodup) {p : Proc R} (hp : p ∈ s.procs) (pc : Pc R)
    (i : Nat) : dispatches (setPc s p.id pc) i + (if isDispatching i p then 1 else 0) =
      dispatches s i + (if isDispatching i { p with pc := pc } then 1 else 0) := by
  have := countP_setPc (isDispatching i) s.procs hn p hp pc
  unfold dispatches setPc
  dsimp only
  omega

/-- Execution `p` moves to `pc`: not to the call, not back to a fresh state, and to a second
    'dispatched' record only if the adapter is idempotent. -/
theorem Inv.moves {A : Adapters R} {s : St R D} (hi : Inv A s) {p : Proc R} (hp : p ∈ s.procs) {pc : Pc R}
    (hd : pc ≠ .dispatching) (hf : pc.fresh = true → p.pc.fresh = true)
    (hr : pc = .recordDispatched true → A.idempotent p.identity = true) : Inv A (setPc s p.id pc) := by
  have hids : ((setPc s p.id pc).procs.map (·.id)) = s.procs.map (·.id) := by
    unfold setPc
    rw [List.map_map]
    refine List.map_congr_left fun q _ => ?_
    simp only [Function.comp]
    split <;> rfl
  have hsame : ∀ q ∈ s.procs, q.id = p.id → q = p := fun q hq h =>
    List.inj_on_of_nodup_map hi.ids hq hp h
  have hle : ∀ i, dispatches (setPc s p.id pc) i ≤ dispatches s i := by
    intro i
    have := dispatches_setPc hi.ids hp pc i
    have hnd : isDispatching i { p with pc := pc } = false := by
      unfold isDispatching
      cases pc with
      | dispatching => exact absurd rfl hd
      | _ => rfl
    rw [hnd] at this
    simp only [Bool.false_eq_true, if_false] at this
    omega
  refine ⟨hi.leaseNewest, hi.fencesLe, ?_, hi.cancelFence, hi.effectIds, hids ▸ hi.ids, ?_, ?_, ?_, ?_, ?_, ?_, hi.cancelling,
    ?_, ?_, ?_, hi.preceded, hi.stored, hi.succeeded, hi.ordered, ?_, hi.logLt⟩
  · intro q hq
    obtain ⟨q₀, hq₀, -, h, -⟩ := mem_setPc hq
    rw [h]
    exact hi.procFence q₀ hq₀
  · intro q hq
    obtain ⟨q₀, hq₀, h, -⟩ := mem_setPc hq
    rw [h]
    exact hi.procLt q₀ hq₀
  · refine List.pairwise_map.mpr (hi.one.imp fun {a b} hab => ?_)
    split <;> split <;> exact hab
  · intro q hq
    obtain ⟨q₀, hq₀, -, h, -⟩ := mem_setPc hq
    rw [h]
    exact hi.apart q₀ hq₀
  · intro q hq hpc
    obtain ⟨q₀, hq₀, -, -, h, ⟨rfl, -⟩ | ⟨hid, hpc'⟩⟩ := mem_setPc hq
    · exact hi.idempotent q hq₀ hpc
    · rw [h, hsame q₀ hq₀ hid]
      exact hr (hpc'.symm.trans hpc)
  · intro q hq hl hfr
    obtain ⟨q₀, hq₀, -, h1, h2, ⟨rfl, -⟩ | ⟨hid, hpc'⟩⟩ := mem_setPc hq
    · exact hi.fresh q hq₀ hl hfr
    · rw [h2]
      rw [h1] at hl
      rw [hpc'] at hfr
      exact hi.fresh q₀ hq₀ hl (by rw [hsame q₀ hq₀ hid]; exact hf hfr)
  · intro q hq hl
    obtain ⟨q₀, hq₀, -, h1, h2, -⟩ := mem_setPc hq
    rw [h2]
    rw [h1] at hl
    exact hi.unfinished q₀ hq₀ hl
  · intro i hid
    have h1 := hi.once i hid
    have h2 := hle i
    omega
  · intro i hpos
    have h2 := hle i
    exact hi.begun i (by omega)
  · intro q hq hpc
    obtain ⟨q₀, hq₀, -, -, -, ⟨rfl, -⟩ | ⟨-, hpc'⟩⟩ := mem_setPc hq
    · exact hi.recorded q hq₀ hpc
    · exact absurd (hpc'.symm.trans hpc) hd
  · intro x i hx
    obtain ⟨h1, h2, h3⟩ := hi.settled x i hx
    refine ⟨h1, ?_, h3⟩
    intro q hq
    obtain ⟨q₀, hq₀, h, -⟩ := mem_setPc hq
    rw [h]
    exact h2 q₀ hq₀

/-- An execution ends. -/
theorem Inv.drops {A : Adapters R} {s : St R D} (hi : Inv A s) (x : Nat) : Inv A (drop s x) := by
  have hmem : ∀ q ∈ (drop s x).procs, q ∈ s.procs := fun q hq => (List.mem_filter.mp hq).1
  have hsub : (drop s x).procs.Sublist s.procs := List.filter_sublist
  have hle : ∀ i, dispatches (drop s x) i ≤ dispatches s i := fun i =>
    Nat.add_le_add_left (hsub.countP_le) _
  refine ⟨hi.leaseNewest, hi.fencesLe, fun q hq => hi.procFence q (hmem q hq), hi.cancelFence,
    hi.effectIds, hi.ids.sublist (hsub.map _), fun q hq => hi.procLt q (hmem q hq), hi.one.sublist hsub,
    fun q hq => hi.apart q (hmem q hq), fun q hq => hi.idempotent q (hmem q hq),
    fun q hq => hi.fresh q (hmem q hq), fun q hq => hi.unfinished q (hmem q hq), hi.cancelling, ?_, ?_,
    fun q hq => hi.recorded q (hmem q hq), hi.preceded, hi.stored, hi.succeeded, hi.ordered, ?_, hi.logLt⟩
  · intro i hid
    exact Nat.le_trans (hle i) (hi.once i hid)
  · intro i hpos
    exact hi.begun i (Nat.lt_of_lt_of_le hpos (hle i))
  · intro y i hy
    obtain ⟨h1, h2, h3⟩ := hi.settled y i hy
    exact ⟨h1, fun q hq => h2 q (hmem q hq), h3⟩

/-! ## Writes to an effect row -/

/-- A write to effect `i` by the live executor: the effect has not succeeded and does not now,
    it does not become 'prepared', and no execution still relies on it being 'prepared'. -/
theorem Inv.write {A : Adapters R} {s : St R D} (hi : Inv A s) {i : Nat} {g : Effect R D → Effect R D}
    (hg : ∀ e, effectOf s i = some e → e.status ≠ .succeeded ∧ (g e).status ≠ .succeeded ∧
      ((g e).status = .prepared → e.status = .prepared))
    (hf : (∀ p ∈ s.procs, s.lease = some p.fence → p.identity = i → p.pc.fresh = false) ∨
      ∀ e, (g e).status = e.status) : Inv A (update s i g) := by
  have hother : ∀ j, j ≠ i → effectOf (update s i g) j = effectOf s j := fun j hj => by
    rw [effectOf_update, if_neg hj]
  have hown : ∀ e, effectOf s i = some e → effectOf (update s i g) i = some { g e with identity := e.identity } :=
    fun e he => by rw [effectOf_update, if_pos rfl, he]; rfl
  have hback : ∀ e', effectOf (update s i g) i = some e' → ∃ e, effectOf s i = some e ∧ e'.status = (g e).status := by
    intro e' he'
    rw [effectOf_update, if_pos rfl] at he'
    obtain ⟨e, he, rfl⟩ := Option.map_eq_some_iff.mp he'
    exact ⟨e, he, rfl⟩
  refine ⟨hi.leaseNewest, hi.fencesLe, hi.procFence, hi.cancelFence, update_ids s i g ▸ hi.effectIds, hi.ids, hi.procLt,
    hi.one, hi.apart, hi.idempotent, ?_, ?_, ?_, hi.once, ?_, hi.recorded, hi.preceded, ?_, ?_, hi.ordered, hi.settled, hi.logLt⟩
  · intro p hp hl hfr
    obtain ⟨e, he, hst⟩ := hi.fresh p hp hl hfr
    by_cases hj : p.identity = i
    · rw [hj] at he ⊢
      refine ⟨_, hown e he, ?_⟩
      rcases hf with hf | hf
      · rw [hf p hp hl hj] at hfr
        cases hfr
      · exact (hf e).trans hst
    · rw [hother _ hj]
      exact ⟨e, he, hst⟩
  · intro p hp hl
    obtain ⟨e, he, hst⟩ := hi.unfinished p hp hl
    by_cases hj : p.identity = i
    · rw [hj] at he ⊢
      exact ⟨_, hown e he, (hg e he).2.1⟩
    · rw [hother _ hj]
      exact ⟨e, he, hst⟩
  · intro c hc hl t ht e he
    by_cases hj : t.1 = i
    · rw [hj] at he
      obtain ⟨e₀, he₀, hst⟩ := hback e he
      rw [hst]
      exact (hg e₀ he₀).2.1
    · rw [hother _ hj] at he
      exact hi.cancelling c hc hl t ht e he
  · intro j hpos
    obtain ⟨e, he, hst⟩ := hi.begun j hpos
    by_cases hj : j = i
    · subst hj
      exact ⟨_, hown e he, fun h => hst ((hg e he).2.2 h)⟩
    · rw [hother _ hj]
      exact ⟨e, he, hst⟩
  · intro j r hlog
    obtain ⟨e, he, hst, hres⟩ := hi.stored j r hlog
    by_cases hj : j = i
    · subst hj
      exact absurd hst (hg e he).1
    · rw [hother _ hj]
      exact ⟨e, he, hst, hres⟩
  · intro j e he hst
    by_cases hj : j = i
    · subst hj
      obtain ⟨e₀, he₀, hst₀⟩ := hback e he
      exact absurd (hst₀.symm.trans hst) (hg e₀ he₀).2.1
    · rw [hother _ hj] at he
      exact hi.succeeded j e he hst

/-- `_record` of anything but 'succeeded' and 'prepared', by an executor that holds the live
    fence and whose executions of the effect are past their record of 'dispatched'. -/
theorem Inv.records {A : Adapters R} {s : St R D} (hi : Inv A s) {i : Nat} {status : EffectStatus} {external : Bool}
    {result : Option R} (hs : status ≠ .succeeded) (hp : status ≠ .prepared)
    (hne : ∀ e, effectOf s i = some e → e.status ≠ .succeeded)
    (hf : ∀ p ∈ s.procs, s.lease = some p.fence → p.identity = i → p.pc.fresh = false) :
    Inv A (record s i status external result) := by
  refine hi.write (fun e he => ⟨hne e he, ?_⟩) (.inl hf)
  unfold Effect.record
  split
  · exact ⟨by simp, fun h => by cases h⟩
  · exact ⟨hs, fun h => absurd h hp⟩

/-- The live executor's only execution of an effect. -/
theorem Inv.alone {A : Adapters R} {s : St R D} (hi : Inv A s) {p q : Proc R} (hp : p ∈ s.procs) (hq : q ∈ s.procs)
    (hl : s.lease = some p.fence) (hl' : s.lease = some q.fence) (hid : q.identity = p.identity) : q = p := by
  have hfe : q.fence = p.fence := Option.some.inj (hl'.symm.trans hl)
  have h : q.fence = p.fence → q.identity = p.identity → q = p :=
    List.Pairwise.forall_of_forall_of_flip
      (R := fun q p : Proc R => q.fence = p.fence → q.identity = p.identity → q = p) (fun _ _ _ _ => rfl)
      (hi.one.imp fun {a b} h h1 h2 => absurd h2 (h h1))
      (hi.one.imp fun {a b} h h1 h2 => absurd h2.symm (h h1.symm)) hq hp
  exact h hfe hid

/-! ## `cancel_pending` -/

/-- A cancellation moves on, starts or ends: what it has left to do is known to be unfinished. -/
theorem Inv.cancelsTo {A : Adapters R} {s : St R D} (hi : Inv A s) {cs : List CancelProc}
    (hfe : ∀ c ∈ cs, c.fence ∈ s.fences) (hap : ∀ p ∈ s.procs, ∀ c ∈ cs, p.fence ≠ c.fence)
    (hto : ∀ c ∈ cs, s.lease = some c.fence → ∀ t ∈ c.todo, ∀ e, effectOf s t.1 = some e → e.status ≠ .succeeded) :
    Inv A { s with cancels := cs } :=
  ⟨hi.leaseNewest, hi.fencesLe, hi.procFence, hfe, hi.effectIds, hi.ids, hi.procLt, hi.one, hap, hi.idempotent, hi.fresh,
    hi.unfinished, hto, hi.once, hi.begun, hi.recorded, hi.preceded, hi.stored, hi.succeeded, hi.ordered, hi.settled,
    hi.logLt⟩

theorem Inv.cancelMoves {A : Adapters R} {s : St R D} (hi : Inv A s) {c : CancelProc} (hc : c ∈ s.cancels)
    {todo : List (Nat × Bool)} {pc : CancelPc} (hsub : ∀ t ∈ todo, t ∈ c.todo) :
    Inv A (setCancel s c.fence todo pc) := by
  have hmem : ∀ c' ∈ (setCancel s c.fence todo pc).cancels,
      c' ∈ s.cancels ∨ c' = ⟨c.fence, todo, pc⟩ := by
    intro c' hc'
    obtain ⟨c₀, hc₀, rfl⟩ := List.mem_map.mp hc'
    split
    · exact .inr rfl
    · exact .inl hc₀
  refine hi.cancelsTo ?_ ?_ ?_
  · intro c' hc'
    rcases hmem c' hc' with h | rfl
    · exact hi.cancelFence c' h
    · exact hi.cancelFence c hc
  · intro p hp c' hc'
    rcases hmem c' hc' with h | rfl
    · exact hi.apart p hp c' h
    · exact hi.apart p hp c hc
  · intro c' hc' hl
    rcases hmem c' hc' with h | rfl
    · exact hi.cancelling c' h hl
    · intro t ht
      exact hi.cancelling c hc hl t (hsub t ht)

theorem Inv.cancelEnds {A : Adapters R} {s : St R D} (hi : Inv A s) (f : RunFence) : Inv A (dropCancel s f) :=
  hi.cancelsTo (fun c hc => hi.cancelFence c (List.mem_filter.mp hc).1)
    (fun p hp c hc => hi.apart p hp c (List.mem_filter.mp hc).1)
    (fun c hc => hi.cancelling c (List.mem_filter.mp hc).1)

/-- `_record` by a cancellation: no execution of its executor is under way. -/
theorem Inv.cancelRecord {A : Adapters R} {s : St R D} (hi : Inv A s) {c : CancelProc} (hc : c ∈ s.cancels)
    (hl : s.lease = some c.fence) {t : Nat × Bool} (ht : t ∈ c.todo) {status : EffectStatus} (hs : status ≠ .succeeded)
    (hp : status ≠ .prepared) : Inv A (record s t.1 status false none) := by
  refine hi.records hs hp (hi.cancelling c hc hl t ht) ?_
  intro p hp' hl' _
  exact absurd (Option.some.inj (hl'.symm.trans hl)) (hi.apart p hp' c hc)

theorem Stop.status_ne (stop : Stop) : stop.status ≠ .succeeded ∧ stop.status ≠ .prepared := by
  cases stop <;> exact ⟨by decide, by decide⟩

theorem cancelPending_inv {A : Adapters R} {s t : St R D} {f : RunFence} (hi : Inv A s)
    (h : cancelPending s f = some t) : Inv A t := by
  unfold cancelPending at h
  split at h
  · rename_i hg
    obtain ⟨hff, hfe, hpr, -⟩ := hg
    cases h
    refine hi.cancelsTo ?_ ?_ ?_
    · intro c hc
      rcases List.mem_append.mp hc with hc | hc
      · exact hi.cancelFence c hc
      · rw [List.mem_singleton.mp hc]
        exact hff
    · intro p hp c hc
      rcases List.mem_append.mp hc with hc | hc
      · exact hi.apart p hp c hc
      · rw [List.mem_singleton.mp hc]
        simpa using List.all_eq_true.mp hpr p hp
    · intro c hc hl t ht e he
      rcases List.mem_append.mp hc with hc | hc
      · exact hi.cancelling c hc hl t ht e he
      · rw [List.mem_singleton.mp hc] at ht
        obtain ⟨e', he', rfl⟩ := List.mem_map.mp ht
        obtain ⟨he', hpend⟩ := List.mem_filter.mp he'
        rw [List.inj_on_of_nodup_map hi.effectIds (List.mem_of_find?_eq_some he) he' (effectOf_identity he)]
        intro hst
        rw [hst] at hpend
        cases hpend
  · cases h

theorem cancelStep_inv {A : Adapters R} {s t : St R D} [DecidableEq D] {c : CancelProc} {a : Act R D} (hi : Inv A s)
    (hc : c ∈ s.cancels) (h : cancelStep s c a = some t) : Inv A t := by
  unfold cancelStep at h
  split at h
  · split at h
    · cases h
      exact hi.cancelEnds c.fence
    · rename_i i external rest hpc htodo
      split at h
      · cases h
      rename_i hfe
      have hl := lease_of_fenced (s := s) (f := c.fence) (by simpa using hfe)
      have hmem : (i, external) ∈ c.todo := by rw [htodo]; exact List.mem_cons_self
      have hsub : ∀ t ∈ rest, t ∈ c.todo := fun t ht => by rw [htodo]; exact List.mem_cons_of_mem _ ht
      split at h
      · cases h
        exact (hi.cancelRecord hc hl hmem (by decide) (by decide)).cancelMoves hc hsub
      · cases h
        exact (hi.cancelRecord hc hl hmem (by decide) (by decide)).cancelMoves hc
          (fun t ht => by rw [htodo]; exact ht)
    · cases h
  · split at h
    all_goals first
      | cases h; exact hi.cancelMoves hc fun t ht => ht
      | cases h
  · split at h
    · rename_i stop i external rest hpc htodo
      split at h
      · cases h
      rename_i hfe
      have hl := lease_of_fenced (s := s) (f := c.fence) (by simpa using hfe)
      have hmem : (i, external) ∈ c.todo := by rw [htodo]; exact List.mem_cons_self
      have hr := hi.cancelRecord hc hl hmem (Stop.status_ne stop).1 (Stop.status_ne stop).2
      split at h
      · cases h
        exact hr.cancelEnds c.fence
      · cases h
        exact hr.cancelMoves hc fun t ht => by
          rw [htodo]
          exact List.mem_cons_of_mem _ ht
    · cases h
  · split at h
    · rename_i i external rest hpc htodo
      split at h
      · rename_i hfe
        cases h
        have hl := lease_of_fenced hfe
        have hmem : (i, external) ∈ c.todo := by rw [htodo]; exact List.mem_cons_self
        refine hi.write (fun e he => ⟨hi.cancelling c hc hl _ hmem e he, by simp, fun h => by cases h⟩) (.inl ?_)
        intro p hp hl' _
        exact absurd (Option.some.inj (hl'.symm.trans hl)) (hi.apart p hp c hc)
      · cases h
    · cases h
  · cases h
    exact hi.cancelEnds c.fence
  · cases h

/-! ## The dispatch protocol -/

/-- Appending an event leaves the earlier ones in place. -/
theorem getElem?_append_one {α : Type} (l : List α) (e : α) (k : Nat) (a : α) :
    (l ++ [e])[k]? = some a ↔ l[k]? = some a ∨ k = l.length ∧ a = e := by
  by_cases hk : k < l.length
  · rw [List.getElem?_append_left hk]
    constructor
    · exact .inl
    · rintro (h | ⟨h, -⟩)
      · exact h
      · omega
  · rw [List.getElem?_append_right (by omega), List.getElem?_eq_none (by omega : l.length ≤ k)]
    by_cases he : k = l.length
    · simp [he, eq_comm]
    · rw [List.getElem?_eq_none (by simp; omega)]
      simp [he]

theorem preceded_append {l : List (Ev R)} {e : Ev R}
    (h : ∀ (k x i : Nat), l[k]? = some (.called x i) →
      ∃ j d, j < k ∧ d ≠ .cancelled ∧ l[j]? = some (.dispatchRecorded x i true d))
    (he : ∀ x i, e = .called x i → ∃ d, d ≠ .cancelled ∧ .dispatchRecorded x i true d ∈ l) (k x i : Nat)
    (hk : (l ++ [e])[k]? = some (.called x i)) :
    ∃ j d, j < k ∧ d ≠ .cancelled ∧ (l ++ [e])[j]? = some (.dispatchRecorded x i true d) := by
  rcases (getElem?_append_one _ _ _ _).mp hk with hk | ⟨rfl, hke⟩
  · obtain ⟨j, d, hj, hd, hr⟩ := h k x i hk
    exact ⟨j, d, hj, hd, (getElem?_append_one _ _ _ _).mpr (.inl hr)⟩
  · obtain ⟨d, hd, hm⟩ := he x i hke.symm
    obtain ⟨j, hj, hr⟩ := List.getElem_of_mem hm
    exact ⟨j, d, hj, hd, (getElem?_append_one _ _ _ _).mpr (.inl (List.getElem?_eq_some_iff.mpr ⟨hj, hr⟩))⟩

/-- `adapter.dispatch` is called: what was about to be made is made. -/
theorem Inv.call {A : Adapters R} {s : St R D} (hi : Inv A s) {p : Proc R} (hp : p ∈ s.procs)
    (hpc : p.pc = .dispatching) :
    Inv A { setPc s p.id .polling with log := s.log ++ [.called p.id p.identity] } := by
  have hm : Inv A (setPc s p.id .polling) := hi.moves hp (by simp) (by simp [Pc.fresh]) (by simp)
  have hcount : ∀ i, dispatches { setPc s p.id .polling with log := s.log ++ [.called p.id p.identity] } i =
      dispatches s i := by
    intro i
    have h := dispatches_setPc hi.ids hp .polling i
    have hnew : isDispatching i { p with pc := (.polling : Pc R) } = false := rfl
    have happ : dispatches { setPc s p.id .polling with log := s.log ++ [.called p.id p.identity] } i =
        dispatches (setPc s p.id .polling) i + if p.identity = i then 1 else 0 := by
      unfold dispatches
      dsimp only
      rw [List.countP_append]
      by_cases hid : p.identity = i
      · simp [isCall, hid, setPc]
        omega
      · simp [isCall, hid, setPc]
    rw [happ]
    by_cases hid : p.identity = i
    · have hold : isDispatching i p = true := by simp [isDispatching, hpc, hid, Pc.isDispatching]
      simp only [hold, hnew, if_true, Bool.false_eq_true, if_false] at h
      simp only [hid, if_true]
      omega
    · have hold : isDispatching i p = false := by simp [isDispatching, hid]
      simp only [hold, hnew, Bool.false_eq_true, if_false] at h
      simp only [hid, if_false]
      omega
  have hmem : ∀ {e : Ev R}, e ∈ s.log ++ [Ev.called p.id p.identity] → (∀ x i, e ≠ .called x i) → e ∈ s.log := by
    intro e he hne
    rcases List.mem_append.mp he with he | he
    · exact he
    · exact absurd (List.mem_singleton.mp he) (hne _ _)
  refine ⟨hm.leaseNewest, hm.fencesLe, hm.procFence, hm.cancelFence, hm.effectIds, hm.ids, hm.procLt, hm.one, hm.apart,
    hm.idempotent, hm.fresh, hm.unfinished, hm.cancelling, ?_, ?_, ?_, ?_, ?_, ?_, ?_, ?_, ?_⟩
  · intro i hid
    rw [hcount]
    exact hi.once i hid
  · intro i
    rw [hcount]
    exact hi.begun i
  · intro q hq hqpc
    obtain ⟨d, hd, hr⟩ := hm.recorded q hq hqpc
    exact ⟨d, hd, List.mem_append_left _ hr⟩
  · refine preceded_append hi.preceded ?_
    intro x i hx
    cases hx
    exact hi.recorded p hp hpc
  · rintro i r (h | ⟨x, h⟩)
    · exact hi.stored i r (.inl (hmem h (by simp)))
    · exact hi.stored i r (.inr ⟨x, hmem h (by simp)⟩)
  · intro i e he hst
    obtain ⟨r, hr, hl⟩ := hi.succeeded i e he hst
    exact ⟨r, hr, List.mem_append_left _ hl⟩
  · refine List.pairwise_append.mpr ⟨hi.ordered, List.pairwise_singleton _ _, ?_⟩
    intro a _ b hb i r x st _ hb'
    rw [List.mem_singleton.mp hb] at hb'
    cases hb'
  · intro x i hx
    obtain ⟨h1, h2, r, h3⟩ := hi.settled x i (hmem hx (by simp))
    refine ⟨?_, (hm.settled x i (hmem hx (by simp))).2.1, r, List.mem_append_left _ h3⟩
    intro j hj
    rcases List.mem_append.mp hj with hj | hj
    · exact h1 j hj
    · cases List.mem_singleton.mp hj
      exact h2 p hp rfl
  · rintro x i (h | ⟨st, h⟩)
    · rcases List.mem_append.mp h with h | h
      · exact hi.logLt x i (.inl h)
      · cases List.mem_singleton.mp h
        exact hi.procLt p hp
    · exact hi.logLt x i (.inr ⟨st, hmem h (by simp)⟩)

theorem setPc_setPc (s : St R D) (x : Nat) (pc pc' : Pc R) : setPc (setPc s x pc) x pc' = setPc s x pc' := by
  unfold setPc
  simp only [List.map_map]
  congr 1
  refine List.map_congr_left fun p _ => ?_
  simp only [Function.comp]
  by_cases hp : p.id = x
  · simp [hp]
  · simp [hp]

/-- 'dispatched' is on record and the call is next: for a non-idempotent effect it is the first. -/
theorem Inv.arm {A : Adapters R} {s : St R D} (hi : Inv A s) {p : Proc R} (hp : p ∈ s.procs) {d : DesiredState}
    (hpc : p.pc.isDispatching = false) (hd : d ≠ .cancelled)
    (hst : ∃ e, effectOf s p.identity = some e ∧ e.status ≠ .prepared)
    (hone : A.idempotent p.identity = false → dispatches s p.identity = 0) :
    Inv A { setPc s p.id .dispatching with log := s.log ++ [.dispatchRecorded p.id p.identity true d] } := by
  have hm : Inv A (setPc s p.id .polling) := hi.moves hp (by simp) (by simp [Pc.fresh]) (by simp)
  have hsame : ∀ q ∈ s.procs, q.id = p.id → q = p := fun q hq h => List.inj_on_of_nodup_map hi.ids hq hp h
  have hcount : ∀ i, dispatches { setPc s p.id .dispatching with
      log := s.log ++ [.dispatchRecorded p.id p.identity true d] } i =
      dispatches s i + if p.identity = i then 1 else 0 := by
    intro i
    have h := dispatches_setPc hi.ids hp .dispatching i
    have hold : isDispatching i p = false := by simp [isDispatching, hpc]
    have happ : dispatches { setPc s p.id .dispatching with
        log := s.log ++ [.dispatchRecorded p.id p.identity true d] } i = dispatches (setPc s p.id .dispatching) i := by
      unfold dispatches
      dsimp only
      rw [List.countP_append]
      simp [isCall, setPc]
    rw [happ]
    by_cases hid : p.identity = i
    · have hnew : isDispatching i { p with pc := (.dispatching : Pc R) } = true := by
        simp [isDispatching, hid, Pc.isDispatching]
      simp only [hold, hnew, Bool.false_eq_true, if_false, if_true] at h
      simp only [hid, if_true]
      omega
    · have hnew : isDispatching i { p with pc := (.dispatching : Pc R) } = false := by simp [isDispatching, hid]
      simp only [hold, hnew, Bool.false_eq_true, if_false] at h
      simp only [hid, if_false]
      omega
  have hmem : ∀ {e : Ev R}, e ∈ s.log ++ [Ev.dispatchRecorded p.id p.identity true d] →
      (∀ x i b d, e ≠ .dispatchRecorded x i b d) → e ∈ s.log := by
    intro e he hne
    rcases List.mem_append.mp he with he | he
    · exact he
    · exact absurd (List.mem_singleton.mp he) (hne _ _ _ _)
  have hq : ∀ q ∈ (setPc s p.id .dispatching).procs, ∃ q' ∈ (setPc s p.id .polling).procs, q.id = q'.id ∧
      q.fence = q'.fence ∧ q.identity = q'.identity ∧ (q = q' ∨ q.id = p.id ∧ q.pc = .dispatching) := by
    intro q hq
    obtain ⟨q₀, hq₀, rfl⟩ := List.mem_map.mp hq
    refine ⟨_, List.mem_map_of_mem hq₀, ?_⟩
    by_cases hx : q₀.id = p.id
    · simp [hx]
    · simp [hx]
  refine ⟨hi.leaseNewest, hi.fencesLe, ?_, hi.cancelFence, hi.effectIds, ?_, ?_, ?_, ?_, ?_, ?_, ?_, hi.cancelling, ?_,
    ?_, ?_, ?_, ?_, ?_, ?_, ?_, ?_⟩
  · intro q hqm
    obtain ⟨q', hq', -, h, -⟩ := hq q hqm
    rw [h]
    exact hm.procFence q' hq'
  · have hids : (setPc s p.id .dispatching).procs.map (·.id) = (setPc s p.id .polling).procs.map (·.id) := by
      unfold setPc
      simp only [List.map_map]
      refine List.map_congr_left fun q _ => ?_
      simp only [Function.comp]
      split <;> rfl
    exact hids ▸ hm.ids
  · intro q hqm
    obtain ⟨q', hq', h, -⟩ := hq q hqm
    rw [h]
    exact hm.procLt q' hq'
  · refine List.pairwise_map.mpr (hi.one.imp fun {a b} hab => ?_)
    split <;> split <;> exact hab
  · intro q hqm
    obtain ⟨q', hq', -, h, -⟩ := hq q hqm
    rw [h]
    exact hm.apart q' hq'
  · intro q hqm hqpc
    obtain ⟨q', hq', -, -, -, rfl | ⟨-, h⟩⟩ := hq q hqm
    · exact hm.idempotent q hq' hqpc
    · rw [h] at hqpc
      cases hqpc
  · intro q hqm hl hfr
    obtain ⟨q', hq', -, -, -, rfl | ⟨-, h⟩⟩ := hq q hqm
    · exact hm.fresh q hq' hl hfr
    · rw [h] at hfr
      cases hfr
  · intro q hqm hl
    obtain ⟨q', hq', -, h1, h2, -⟩ := hq q hqm
    rw [h2]
    rw [h1] at hl
    exact hm.unfinished q' hq' hl
  · intro i hid
    rw [hcount]
    by_cases he : p.identity = i
    · subst he
      have := hone hid
      simp only [if_true]
      omega
    · simp only [he, if_false]
      exact hi.once i hid
  · intro i hpos
    by_cases he : p.identity = i
    · exact he ▸ hst
    · rw [hcount] at hpos
      simp only [he, if_false, Nat.add_zero] at hpos
      exact hi.begun i hpos
  · intro q hqm hqpc
    obtain ⟨q₀, hq₀, h1, -, h2, ⟨rfl, -⟩ | ⟨hid, -⟩⟩ := mem_setPc hqm
    · obtain ⟨d', hd', hr⟩ := hi.recorded q hq₀ hqpc
      exact ⟨d', hd', List.mem_append_left _ hr⟩
    · rw [h1, h2, hsame q₀ hq₀ hid]
      exact ⟨d, hd, List.mem_append_right _ (List.mem_singleton.mpr rfl)⟩
  · exact preceded_append hi.preceded fun x i hx => by cases hx
  · rintro i r (h | ⟨x, h⟩)
    · exact hi.stored i r (.inl (hmem h (by simp)))
    · exact hi.stored i r (.inr ⟨x, hmem h (by simp)⟩)
  · intro i e he hse
    obtain ⟨r, hr, hl⟩ := hi.succeeded i e he hse
    exact ⟨r, hr, List.mem_append_left _ hl⟩
  · refine List.pairwise_append.mpr ⟨hi.ordered, List.pairwise_singleton _ _, ?_⟩
    intro a _ b hb i r x st _ hb'
    rw [List.mem_singleton.mp hb] at hb'
    cases hb'
  · intro x i hx
    obtain ⟨h1, h2, r, h3⟩ := hi.settled x i (hmem hx (by simp))
    refine ⟨fun j hj => h1 j (hmem hj (by simp)), ?_, r, List.mem_append_left _ h3⟩
    intro q hqm
    obtain ⟨q₀, hq₀, h, -⟩ := mem_setPc hqm
    rw [h]
    exact h2 q₀ hq₀
  · rintro x i (h | ⟨st, h⟩)
    · exact hi.logLt x i (.inl (hmem h (by simp)))
    · exact hi.logLt x i (.inr ⟨st, hmem h (by simp)⟩)

/-- The commit of 'dispatched'. -/
theorem Inv.commitDispatched {A : Adapters R} {s : St R D} (hi : Inv A s) {p : Proc R} (hp : p ∈ s.procs) {b : Bool}
    (hpc : p.pc = .recordDispatched b) (hfe : fenced s p.fence = true) : Inv A (commitDispatched s p) := by
  have hl := lease_of_fenced hfe
  obtain ⟨e, he, hne⟩ := hi.unfinished p hp hl
  have hne' : ∀ e', effectOf s p.identity = some e' → e'.status ≠ .succeeded := fun e' he' => by
    cases he.symm.trans he'
    exact hne
  unfold Effects.commitDispatched
  dsimp only
  split
  · refine (hi.drops p.id).records (by decide) (by decide) hne' ?_
    intro q hq hl' hid
    obtain ⟨hq, hqx⟩ := List.mem_filter.mp hq
    rw [hi.alone hp hq hl hl' hid] at hqx
    simp at hqx
  · rename_i hnc
    -- first park the execution, write the row, and then arm the call
    have h1 : Inv A (setPc s p.id .polling) := hi.moves hp (by simp) (by simp [Pc.fresh]) (by simp)
    have hp1 : { p with pc := (.polling : Pc R) } ∈ (setPc s p.id .polling).procs :=
      List.mem_map.mpr ⟨p, hp, by simp⟩
    have h2 : Inv A (record (setPc s p.id .polling) p.identity .dispatched true none) := by
      refine h1.records (by decide) (by decide) hne' ?_
      intro q hq hl' hid
      rw [h1.alone hp1 hq hl hl' hid]
      rfl
    have hzero : A.idempotent p.identity = false → dispatches s p.identity = 0 := by
      intro hid
      have hb : b = false := by
        cases b with
        | false => rfl
        | true =>
          rw [hi.idempotent p hp hpc] at hid
          cases hid
      subst hb
      obtain ⟨e', he', hst⟩ := hi.fresh p hp hl (by rw [hpc]; rfl)
      by_contra h
      obtain ⟨e'', he'', hst'⟩ := hi.begun p.identity (by omega)
      cases he'.symm.trans he''
      exact hst' hst
    have hcnt : dispatches (record (setPc s p.id .polling) p.identity .dispatched true none) p.identity =
        dispatches s p.identity := by
      have h := dispatches_setPc hi.ids hp .polling p.identity
      have hold : isDispatching p.identity p = false := by simp [isDispatching, hpc, Pc.isDispatching]
      have hnew : isDispatching p.identity { p with pc := (.polling : Pc R) } = false := rfl
      simp only [hold, hnew, Bool.false_eq_true, if_false] at h
      have hr : dispatches (record (setPc s p.id .polling) p.identity .dispatched true none) p.identity =
          dispatches (setPc s p.id .polling) p.identity := rfl
      omega
    have h3 := h2.arm hp1 (d := s.desired) rfl hnc ?_ (fun h => by rw [hcnt]; exact hzero h)
    · have hset : setPc (record (setPc s p.id .polling) p.identity .dispatched true none) p.id .dispatching =
          setPc (record s p.identity .dispatched true none) p.id .dispatching :=
        setPc_setPc (record s p.identity .dispatched true none) p.id .polling .dispatching
      dsimp only at h3
      rw [hset] at h3
      rw [hfe]
      exact h3
    · refine ⟨_, by rw [record, effectOf_update, if_pos rfl]; exact congrArg _ he, ?_⟩
      unfold Effect.record
      split <;> simp

/-- The commit of 'succeeded': the execution that commits is the live executor's only one for
    the effect, and it ends. -/
theorem Inv.commitSucceeded {A : Adapters R} {s : St R D} (hi : Inv A s) {p : Proc R} (hp : p ∈ s.procs) {r : R}
    (hfe : fenced s p.fence = true) : Inv A (commitSucceeded s p r) := by
  have hl := lease_of_fenced hfe
  obtain ⟨e, he, hne⟩ := hi.unfinished p hp hl
  have hlive : ∀ q ∈ (drop s p.id).procs, s.lease = some q.fence → q.identity ≠ p.identity := by
    intro q hq hl' hid
    obtain ⟨hq, hqx⟩ := List.mem_filter.mp hq
    rw [hi.alone hp hq hl hl' hid] at hqx
    simp at hqx
  unfold Effects.commitSucceeded
  dsimp only
  split
  · rename_i hc
    -- a cancelled run records 'cancelled' instead
    refine (hi.drops p.id).write (fun e' he' => ?_) (.inl fun q hq hl' hid => absurd hid (hlive q hq hl'))
    cases he.symm.trans he'
    have hcan : (Effect.record s.desired .succeeded false (some r) e).status = .cancelled := by
      simp [Effect.record, hc]
    rw [hcan]
    exact ⟨hne, by simp, fun h => by cases h⟩
  rename_i hc
  have hd := hi.drops p.id
  have hg : ∀ e : Effect R D, (Effect.record s.desired .succeeded false (some r) e).status = .succeeded ∧
      (Effect.record s.desired .succeeded false (some r) e).result = some r := by
    intro e
    simp [Effect.record, hc]
  have hother : ∀ j, j ≠ p.identity →
      effectOf (update s p.identity (Effect.record s.desired .succeeded false (some r))) j = effectOf s j :=
    fun j hj => by rw [effectOf_update, if_neg hj]
  have hown : ∃ e', effectOf (update s p.identity (Effect.record s.desired .succeeded false (some r))) p.identity =
      some e' ∧ e'.status = .succeeded ∧ e'.result = some r := by
    rw [effectOf_update, if_pos rfl, he]
    exact ⟨_, rfl, (hg e).1, (hg e).2⟩
  have hmem : ∀ {ev : Ev R}, ev ∈ s.log ++ [.succeeded p.identity r, .returned p.id p.identity r] →
      ev ∈ s.log ∨ ev = .succeeded p.identity r ∨ ev = .returned p.id p.identity r := by
    intro ev hev
    simpa using hev
  have hsplit : s.log ++ [Ev.succeeded p.identity r, .returned p.id p.identity r] =
      (s.log ++ [.succeeded p.identity r]) ++ [.returned p.id p.identity r] := by simp
  have hcount : ∀ i, dispatches { drop (record s p.identity .succeeded false (some r)) p.id with
      log := s.log ++ [.succeeded p.identity r, .returned p.id p.identity r] } i = dispatches (drop s p.id) i := by
    intro i
    unfold dispatches
    dsimp only
    rw [List.countP_append]
    simp [isCall, drop, record, update]
  refine ⟨hd.leaseNewest, hd.fencesLe, hd.procFence, hd.cancelFence, ?_, hd.ids, hd.procLt, hd.one, hd.apart,
    hd.idempotent, ?_, ?_, ?_, ?_, ?_, ?_, ?_, ?_, ?_, ?_, ?_, ?_⟩
  · exact update_ids s _ _ ▸ hi.effectIds
  · intro q hq hl' hfr
    obtain ⟨e', he', hst⟩ := hd.fresh q hq hl' hfr
    exact ⟨e', (hother _ (hlive q hq hl')).trans he', hst⟩
  · intro q hq hl'
    obtain ⟨e', he', hst⟩ := hd.unfinished q hq hl'
    exact ⟨e', (hother _ (hlive q hq hl')).trans he', hst⟩
  · intro c hcm hl'
    exact absurd (Option.some.inj (hl.symm.trans hl')) (hi.apart p hp c hcm)
  · intro i hid
    rw [hcount]
    exact hd.once i hid
  · intro i hpos
    rw [hcount] at hpos
    by_cases hj : i = p.identity
    · subst hj
      obtain ⟨e', he', hst, -⟩ := hown
      exact ⟨e', he', by simp [hst]⟩
    · obtain ⟨e', he', hst⟩ := hd.begun i hpos
      exact ⟨e', (hother i hj).trans he', hst⟩
  · intro q hq hqpc
    obtain ⟨d, hdd, hr⟩ := hd.recorded q hq hqpc
    exact ⟨d, hdd, List.mem_append_left _ hr⟩
  · rw [hsplit]
    exact preceded_append (preceded_append hi.preceded (fun x i hx => by cases hx)) (fun x i hx => by cases hx)
  · intro i r' h
    have hcase : i = p.identity ∧ r' = r ∨ (.succeeded i r' ∈ s.log ∨ ∃ x, .returned x i r' ∈ s.log) := by
      rcases h with h | ⟨x, h⟩
      · rcases hmem h with h | h | h
        · exact .inr (.inl h)
        · cases h
          exact .inl ⟨rfl, rfl⟩
        · cases h
      · rcases hmem h with h | h | h
        · exact .inr (.inr ⟨x, h⟩)
        · cases h
        · cases h
          exact .inl ⟨rfl, rfl⟩
    rcases hcase with ⟨rfl, rfl⟩ | h
    · exact hown
    · obtain ⟨e', he', hst, hres⟩ := hi.stored i r' h
      by_cases hj : i = p.identity
      · subst hj
        cases he.symm.trans he'
        exact absurd hst hne
      · exact ⟨e', (hother i hj).trans he', hst, hres⟩
  · intro i e' he' hst
    by_cases hj : i = p.identity
    · subst hj
      obtain ⟨e'', he'', -, hres⟩ := hown
      cases he''.symm.trans he'
      exact ⟨r, hres, by simp⟩
    · obtain ⟨r', hr', hlog⟩ := hi.succeeded i e' ((hother i hj).symm.trans he') hst
      exact ⟨r', hr', List.mem_append_left _ hlog⟩
  · refine List.pairwise_append.mpr ⟨hi.ordered, ?_, ?_⟩
    · refine List.pairwise_cons.mpr ⟨?_, List.pairwise_singleton _ _⟩
      intro b hb i r' x st _ hb'
      rw [List.mem_singleton.mp hb] at hb'
      cases hb'
    · intro a _ b hb i r' x st _ hb'
      rcases List.mem_cons.mp hb with rfl | hb
      · cases hb'
      · rw [List.mem_singleton.mp hb] at hb'
        cases hb'
  · intro x i hx
    have hx : .prepared x i .succeeded ∈ s.log := by
      rcases hmem hx with h | h | h
      · exact h
      all_goals cases h
    obtain ⟨h1, h2, r', h3⟩ := hd.settled x i hx
    refine ⟨?_, h2, r', List.mem_append_left _ h3⟩
    intro j hj
    rcases hmem hj with h | h | h
    · exact h1 j h
    all_goals cases h
  · rintro x i (h | ⟨st, h⟩)
    · rcases hmem h with h | h | h
      · exact hi.logLt x i (.inl h)
      all_goals cases h
    · rcases hmem h with h | h | h
      · exact hi.logLt x i (.inr ⟨st, h⟩)
      all_goals cases h

/-! ## Preparing an effect -/

theorem effectOf_append (s : St R D) (e : Effect R D) (j : Nat) :
    effectOf { s with effects := s.effects ++ [e] } j =
      (effectOf s j).or (if e.identity = j then some e else none) := by
  unfold effectOf
  rw [List.find?_append]
  by_cases h : e.identity = j
  · simp [h]
  · simp [h]

/-- A new row, 'prepared'. -/
theorem Inv.addEffect {A : Adapters R} {s : St R D} (hi : Inv A s) {e : Effect R D} (hn : effectOf s e.identity = none)
    (hst : e.status = .prepared) : Inv A { s with effects := s.effects ++ [e] } := by
  have hkeep : ∀ {j e'}, effectOf s j = some e' → effectOf { s with effects := s.effects ++ [e] } j = some e' := by
    intro j e' he'
    rw [effectOf_append, he']
    rfl
  have hback : ∀ {j e'}, effectOf { s with effects := s.effects ++ [e] } j = some e' →
      effectOf s j = some e' ∨ e'.status = .prepared := by
    intro j e' he'
    rw [effectOf_append] at he'
    cases hj : effectOf s j with
    | some e₀ =>
      rw [hj] at he'
      exact .inl he'
    | none =>
      rw [hj] at he'
      by_cases h : e.identity = j
      · simp [h] at he'
        exact .inr (he' ▸ hst)
      · simp [h] at he'
  refine ⟨hi.leaseNewest, hi.fencesLe, hi.procFence, hi.cancelFence, ?_, hi.ids, hi.procLt, hi.one, hi.apart,
    hi.idempotent, ?_, ?_, ?_, hi.once, ?_, hi.recorded, hi.preceded, ?_, ?_, hi.ordered, hi.settled, hi.logLt⟩
  · simp only [List.map_append, List.map_cons, List.map_nil]
    refine List.nodup_append.mpr ⟨hi.effectIds, List.nodup_singleton _, ?_⟩
    intro j hj k hk hjk
    obtain ⟨e', he', rfl⟩ := List.mem_map.mp hj
    rw [List.mem_singleton.mp hk] at hjk
    have := List.find?_eq_none.mp hn e' he'
    simp [hjk] at this
  · intro p hp hl hfr
    obtain ⟨e', he', h⟩ := hi.fresh p hp hl hfr
    exact ⟨e', hkeep he', h⟩
  · intro p hp hl
    obtain ⟨e', he', h⟩ := hi.unfinished p hp hl
    exact ⟨e', hkeep he', h⟩
  · intro c hc hl t ht e' he'
    rcases hback he' with h | h
    · exact hi.cancelling c hc hl t ht e' h
    · simp [h]
  · intro i hpos
    obtain ⟨e', he', h⟩ := hi.begun i hpos
    exact ⟨e', hkeep he', h⟩
  · intro i r h
    obtain ⟨e', he', h'⟩ := hi.stored i r h
    exact ⟨e', hkeep he', h'⟩
  · intro i e' he' hse
    rcases hback he' with h | h
    · exact hi.succeeded i e' h hse
    · rw [h] at hse
      cases hse

/-- An execution prepared effect `i` and found it in a state other than 'succeeded'. -/
theorem Inv.note {A : Adapters R} {s : St R D} (hi : Inv A s) {i : Nat} {e : Effect R D} (he : effectOf s i = some e)
    (hne : e.status ≠ .succeeded) :
    Inv A { s with next := s.next + 1, log := s.log ++ [.prepared s.next i e.status] } := by
  have hmem : ∀ {ev : Ev R}, ev ∈ s.log ++ [Ev.prepared s.next i e.status] →
      ev ∈ s.log ∨ ev = .prepared s.next i e.status := by
    intro ev hev
    simpa using hev
  have hcount : ∀ j, dispatches { s with next := s.next + 1, log := s.log ++ [.prepared s.next i e.status] } j =
      dispatches s j := by
    intro j
    unfold dispatches
    dsimp only
    rw [List.countP_append]
    simp [isCall]
  refine ⟨hi.leaseNewest, hi.fencesLe, hi.procFence, hi.cancelFence, hi.effectIds, hi.ids,
    fun p hp => Nat.lt_succ_of_lt (hi.procLt p hp), hi.one, hi.apart, hi.idempotent, hi.fresh, hi.unfinished,
    hi.cancelling, ?_, ?_, ?_, ?_, ?_, ?_, ?_, ?_, ?_⟩
  · intro j
    rw [hcount]
    exact hi.once j
  · intro j
    rw [hcount]
    exact hi.begun j
  · intro p hp hpc
    obtain ⟨d, hd, hr⟩ := hi.recorded p hp hpc
    exact ⟨d, hd, List.mem_append_left _ hr⟩
  · exact preceded_append hi.preceded fun x j hx => by cases hx
  · rintro j r (h | ⟨x, h⟩)
    · rcases hmem h with h | h
      · exact hi.stored j r (.inl h)
      · cases h
    · rcases hmem h with h | h
      · exact hi.stored j r (.inr ⟨x, h⟩)
      · cases h
  · intro j e' he' hse
    obtain ⟨r, hr, hl⟩ := hi.succeeded j e' he' hse
    exact ⟨r, hr, List.mem_append_left _ hl⟩
  · refine List.pairwise_append.mpr ⟨hi.ordered, List.pairwise_singleton _ _, ?_⟩
    intro a ha b hb j r x st ha' hb'
    rw [List.mem_singleton.mp hb] at hb'
    cases hb'
    subst ha'
    obtain ⟨e', he', hse, -⟩ := hi.stored i r (.inl ha)
    cases he.symm.trans he'
    exact hse
  · intro x j hx
    rcases hmem hx with hx | hx
    · obtain ⟨h1, h2, r, h3⟩ := hi.settled x j hx
      refine ⟨?_, h2, r, List.mem_append_left _ h3⟩
      intro k hk
      rcases hmem hk with hk | hk
      · exact h1 k hk
      · cases hk
    · simp only [Ev.prepared.injEq] at hx
      exact absurd hx.2.2.symm hne
  · rintro x j (h | ⟨st, h⟩)
    · rcases hmem h with h | h
      · exact Nat.lt_succ_of_lt (hi.logLt x j (.inl h))
      · cases h
    · rcases hmem h with h | h
      · exact Nat.lt_succ_of_lt (hi.logLt x j (.inr ⟨st, h⟩))
      · cases h
        exact Nat.lt_succ_self _

/-- An execution prepared an effect that had succeeded: it returns the stored result. -/
theorem Inv.replay {A : Adapters R} {s : St R D} (hi : Inv A s) {i : Nat} {e : Effect R D} {r : R}
    (he : effectOf s i = some e) (hst : e.status = .succeeded) (hr : e.result = some r) :
    Inv A { s with
      next := s.next + 1
      log := s.log ++ [.prepared s.next i .succeeded, .returned s.next i r] } := by
  have hmem : ∀ {ev : Ev R}, ev ∈ s.log ++ [Ev.prepared s.next i .succeeded, .returned s.next i r] →
      ev ∈ s.log ∨ ev = .prepared s.next i .succeeded ∨ ev = .returned s.next i r := by
    intro ev hev
    simpa using hev
  have hsplit : s.log ++ [Ev.prepared s.next i .succeeded, .returned s.next i r] =
      (s.log ++ [.prepared s.next i .succeeded]) ++ [.returned s.next i r] := by simp
  have hcount : ∀ j, dispatches { s with
      next := s.next + 1
      log := s.log ++ [.prepared s.next i .succeeded, .returned s.next i r] } j = dispatches s j := by
    intro j
    unfold dispatches
    dsimp only
    rw [List.countP_append]
    simp [isCall]
  have hnew : ∀ x j, .called x j ∈ s.log → x ≠ s.next := fun x j h hx => by
    have := hi.logLt x j (.inl h)
    omega
  refine ⟨hi.leaseNewest, hi.fencesLe, hi.procFence, hi.cancelFence, hi.effectIds, hi.ids,
    fun p hp => Nat.lt_succ_of_lt (hi.procLt p hp), hi.one, hi.apart, hi.idempotent, hi.fresh, hi.unfinished,
    hi.cancelling, ?_, ?_, ?_, ?_, ?_, ?_, ?_, ?_, ?_⟩
  · intro j
    rw [hcount]
    exact hi.once j
  · intro j
    rw [hcount]
    exact hi.begun j
  · intro p hp hpc
    obtain ⟨d, hd, hrec⟩ := hi.recorded p hp hpc
    exact ⟨d, hd, List.mem_append_left _ hrec⟩
  · rw [hsplit]
    exact preceded_append (preceded_append hi.preceded (fun x j hx => by cases hx)) (fun x j hx => by cases hx)
  · rintro j r' (h | ⟨x, h⟩)
    · rcases hmem h with h | h | h
      · exact hi.stored j r' (.inl h)
      all_goals cases h
    · rcases hmem h with h | h | h
      · exact hi.stored j r' (.inr ⟨x, h⟩)
      · cases h
      · cases h
        exact ⟨e, he, hst, hr⟩
  · intro j e' he' hse
    obtain ⟨r', hr', hl⟩ := hi.succeeded j e' he' hse
    exact ⟨r', hr', List.mem_append_left _ hl⟩
  · refine List.pairwise_append.mpr ⟨hi.ordered, ?_, ?_⟩
    · refine List.pairwise_cons.mpr ⟨?_, List.pairwise_singleton _ _⟩
      intro b _ j r' x st ha' _
      cases ha'
    · intro a _ b hb j r' x st _ hb'
      rcases List.mem_cons.mp hb with rfl | hb
      · cases hb'
        rfl
      · rw [List.mem_singleton.mp hb] at hb'
        cases hb'
  · intro x j hx
    rcases hmem hx with hx | hx | hx
    · obtain ⟨h1, h2, r', h3⟩ := hi.settled x j hx
      refine ⟨?_, h2, r', List.mem_append_left _ h3⟩
      intro k hk
      rcases hmem hk with hk | hk | hk
      · exact h1 k hk
      all_goals cases hk
    · cases hx
      refine ⟨?_, fun p hp => Nat.ne_of_lt (hi.procLt p hp), r, by simp⟩
      intro k hk
      rcases hmem hk with hk | hk | hk
      · exact hnew _ k hk rfl
      all_goals cases hk
    · cases hx
  · rintro x j (h | ⟨st, h⟩)
    · rcases hmem h with h | h | h
      · exact Nat.lt_succ_of_lt (hi.logLt x j (.inl h))
      all_goals cases h
    · rcases hmem h with h | h | h
      · exact Nat.lt_succ_of_lt (hi.logLt x j (.inr ⟨st, h⟩))
      · cases h
        exact Nat.lt_succ_self _
      · cases h

/-- A new execution of the live executor. -/
theorem Inv.spawn {A : Adapters R} {s : St R D} (hi : Inv A s) {p : Proc R} {e : Effect R D} {b : Bool}
    (hpc : p.pc = .inspect b) (hid : p.id < s.next) (hnew : ∀ q ∈ s.procs, q.id ≠ p.id) (hf : p.fence ∈ s.fences)
    (halone : ∀ q ∈ s.procs, q.fence = p.fence → q.identity ≠ p.identity)
    (hapart : ∀ c ∈ s.cancels, p.fence ≠ c.fence) (he : effectOf s p.identity = some e)
    (hne : e.status ≠ .succeeded) (hb : b = false → e.status = .prepared)
    (hx : ∀ i, .prepared p.id i .succeeded ∉ s.log) : Inv A { s with procs := s.procs ++ [p] } := by
  have hmem : ∀ {q}, q ∈ s.procs ++ [p] → q ∈ s.procs ∨ q = p := by
    intro q hq
    simpa using hq
  have hcount : ∀ i, dispatches { s with procs := s.procs ++ [p] } i = dispatches s i := by
    intro i
    have hnd : isDispatching i p = false := by simp [isDispatching, hpc, Pc.isDispatching]
    unfold dispatches
    dsimp only
    rw [List.countP_append]
    simp [hnd]
  refine ⟨hi.leaseNewest, hi.fencesLe, ?_, hi.cancelFence, hi.effectIds, ?_, ?_, ?_, ?_, ?_, ?_, ?_, hi.cancelling, ?_,
    ?_, ?_, hi.preceded, hi.stored, hi.succeeded, hi.ordered, ?_, hi.logLt⟩
  · intro q hq
    rcases hmem hq with hq | rfl
    · exact hi.procFence q hq
    · exact hf
  · simp only [List.map_append, List.map_cons, List.map_nil]
    refine List.nodup_append.mpr ⟨hi.ids, List.nodup_singleton _, ?_⟩
    intro x hx y hy hxy
    obtain ⟨q, hq, rfl⟩ := List.mem_map.mp hx
    exact hnew q hq (hxy.trans (List.mem_singleton.mp hy))
  · intro q hq
    rcases hmem hq with hq | rfl
    · exact hi.procLt q hq
    · exact hid
  · refine List.pairwise_append.mpr ⟨hi.one, List.pairwise_singleton _ _, ?_⟩
    intro a ha b' hb'
    rw [List.mem_singleton.mp hb']
    exact halone a ha
  · intro q hq c hc
    rcases hmem hq with hq | rfl
    · exact hi.apart q hq c hc
    · exact hapart c hc
  · intro q hq hqpc
    rcases hmem hq with hq | rfl
    · exact hi.idempotent q hq hqpc
    · rw [hpc] at hqpc
      cases hqpc
  · intro q hq hl hfr
    rcases hmem hq with hq | rfl
    · exact hi.fresh q hq hl hfr
    · rw [hpc] at hfr
      have hb' : b = false := by
        cases b with
        | false => rfl
        | true => cases hfr
      exact ⟨e, he, hb hb'⟩
  · intro q hq hl
    rcases hmem hq with hq | rfl
    · exact hi.unfinished q hq hl
    · exact ⟨e, he, hne⟩
  · intro i
    rw [hcount]
    exact hi.once i
  · intro i
    rw [hcount]
    exact hi.begun i
  · intro q hq hqpc
    rcases hmem hq with hq | rfl
    · exact hi.recorded q hq hqpc
    · rw [hpc] at hqpc
      cases hqpc
  · intro x i hxi
    obtain ⟨h1, h2, h3⟩ := hi.settled x i hxi
    refine ⟨h1, ?_, h3⟩
    intro q hq
    rcases hmem hq with hq | rfl
    · exact h2 q hq
    · intro h
      subst h
      exact hx i hxi

theorem prepare_inv {A : Adapters R} [DecidableEq D] {s t : St R D} {f : RunFence} {i : Nat} {digest : D} (hi : Inv A s)
    (h : prepare s f i digest = some t) : Inv A t := by
  unfold prepare at h
  split at h
  · rename_i hg
    obtain ⟨hff, hfe, halone, hapart⟩ := hg
    -- the table after `prepare` found or added the row
    obtain ⟨u, hu, hui, hun⟩ : ∃ u, u = (if (effectOf s i).isSome then s
        else { s with effects := s.effects ++ [⟨i, digest, .prepared, false, none, f.generation⟩] }) ∧ Inv A u ∧
        (u.log = s.log ∧ u.next = s.next ∧ u.procs = s.procs ∧ u.fences = s.fences ∧ u.cancels = s.cancels) := by
      refine ⟨_, rfl, ?_⟩
      split
      · exact ⟨hi, rfl, rfl, rfl, rfl, rfl⟩
      · rename_i hn
        exact ⟨hi.addEffect (by simpa using hn) rfl, rfl, rfl, rfl, rfl, rfl⟩
    obtain ⟨hlog, hnext, hprocs, hfences, hcancels⟩ := hun
    dsimp only at h
    rw [← hu, ← hlog, ← hnext, ← hprocs] at h
    obtain ⟨e, he, h⟩ := Option.bind_eq_some_iff.mp h
    split at h
    · cases h
    split at h
    · rename_i hst
      obtain ⟨r, hr, -⟩ := hui.succeeded i e he hst
      rw [hr, hst] at h
      cases h
      exact hui.replay he hst hr
    split at h
    · rename_i hne _
      cases h
      exact hui.note he hne
    · rename_i hne _
      cases h
      have hw := hui.write (i := i) (g := fun e => { e with fenceGeneration := f.generation })
        (fun e' he' => by cases he.symm.trans he'; exact ⟨hne, hne, id⟩) (.inr fun _ => rfl)
      have he' : effectOf (update u i fun e => { e with fenceGeneration := f.generation }) i =
          some { e with fenceGeneration := f.generation } := by
        rw [effectOf_update, if_pos rfl, he]
        rfl
      have hnote := hw.note he' hne
      refine hnote.spawn (p := ⟨u.next, f, i, .inspect (e.status != .prepared)⟩) rfl (Nat.lt_succ_self _) ?_ ?_ ?_ ?_ he' hne
        ?_ ?_
      · intro q hq
        exact Nat.ne_of_lt (hui.procLt q hq)
      · show f ∈ u.fences
        rw [hfences]
        exact hff
      · intro q hq hqf
        have hq : q ∈ s.procs := hprocs ▸ hq
        have := List.all_eq_true.mp halone q hq
        simp only [Bool.not_eq_true', Bool.and_eq_false_iff, beq_eq_false_iff_ne] at this
        exact this.resolve_left fun hne => hne hqf
      · intro c hc
        have hc : c ∈ s.cancels := hcancels ▸ hc
        have := List.all_eq_true.mp hapart c hc
        simp only [bne_iff_ne] at this
        exact fun heq => this heq.symm
      · intro hb
        simpa using hb
      · intro j hj
        rcases List.mem_append.mp hj with hj | hj
        · have := hui.logLt u.next j (.inr ⟨_, hj⟩)
          omega
        · simp only [List.mem_singleton, Ev.prepared.injEq] at hj
          exact hne hj.2.2.symm
  · cases h

/-! ## Every move keeps the invariant -/

theorem Inv.adapterWrite {A : Adapters R} {s : St R D} (hi : Inv A s) {p : Proc R} (hp : p ∈ s.procs)
    (hnf : p.pc.fresh = false) (hfe : fenced s p.fence = true) {result : Option R} :
    Inv A (adapterWrite s p result) := by
  have hl := lease_of_fenced hfe
  obtain ⟨e, he, hne⟩ := hi.unfinished p hp hl
  have hne' : ∀ e', effectOf s p.identity = some e' → e'.status ≠ .succeeded := fun e' he' => by
    cases he.symm.trans he'
    exact hne
  cases result with
  | some r => exact hi.write (fun e' he' => ⟨hne' e' he', hne' e' he', id⟩) (.inr fun _ => rfl)
  | none =>
    refine hi.write (fun e' he' => ⟨hne' e' he', by simp, fun h => by cases h⟩) (.inl ?_)
    intro q hq hl' hid
    rw [hi.alone hp hq hl hl' hid]
    exact hnf

theorem procStep_inv {A : Adapters R} [DecidableEq D] {s t : St R D} {p : Proc R} {a : Act R D} (hi : Inv A s)
    (hp : p ∈ s.procs) (h : procStep A s p a = some t) : Inv A t := by
  -- moves to a program counter that no longer relies on the row being 'prepared'
  have park : ∀ {pc : Pc R}, pc ≠ .dispatching → pc.fresh = false → pc ≠ .recordDispatched true →
      Inv A (setPc s p.id pc) := by
    intro pc h1 h2 h3
    exact hi.moves hp h1 (fun hf => by rw [h2] at hf; cases hf) (fun hr => absurd hr h3)
  unfold procStep at h
  split at h
  · split at h
    · rename_i dispatched hpc
      cases h
      unfold inspectFirst
      split
      · exact park (by simp) rfl (by simp)
      · split
        · exact park (by simp) rfl (by simp)
        · rename_i hcond
          refine hi.moves hp (by simp) ?_ ?_
          · intro hf
            rw [hpc]
            exact hf
          · intro hd
            simp only [Pc.recordDispatched.injEq] at hd
            subst hd
            simpa using hcond
      · exact park (by simp) rfl (by simp)
    · cases h
  · split at h
    · rename_i b hpc
      split at h
      · rename_i hfe
        cases h
        exact hi.commitDispatched hp hpc hfe
      · cases h
    · cases h
  · split at h
    · rename_i hpc
      cases h
      exact hi.call hp hpc
    · cases h
  · split at h
    · rename_i hpc
      split at h
      · rename_i hfe
        cases h
        exact hi.adapterWrite hp (by rw [hpc]; rfl) hfe
      · cases h
    · rename_i hpc
      split at h
      · rename_i hfe
        cases h
        exact hi.adapterWrite hp (by rw [hpc]; rfl) hfe
      · cases h
    · cases h
  · split at h
    · rename_i hpc
      split at h
      · rename_i hfe
        cases h
        unfold pollOnce
        split
        · have hl := lease_of_fenced hfe
          obtain ⟨e, he, hne⟩ := hi.unfinished p hp hl
          have hm : Inv A (setPc s p.id (.polled true)) := park (by simp) rfl (by simp)
          refine hm.write (g := fun e => { e with status := .cancelRequested }) (fun e' he' => ?_) (.inl ?_)
          · cases he.symm.trans he'
            exact ⟨hne, by simp, fun h => by cases h⟩
          · intro q hq hl' hid
            obtain ⟨q₀, hq₀, -, h1, h2, ⟨rfl, hne⟩ | ⟨-, h3⟩⟩ := mem_setPc hq
            · rw [hi.alone hp hq₀ hl hl' hid] at hne
              exact absurd rfl hne
            · rw [h3]
              rfl
        · exact park (by simp) rfl (by simp)
      · cases h
    · cases h
  · split at h
    · cases h
      unfold observed
      split
      · split
        · exact park (by simp) rfl (by simp)
        · split
          · exact hi.drops p.id
          · exact park (by simp) rfl (by simp)
      all_goals exact park (by simp) rfl (by simp)
    · cases h
  · split at h
    · split at h
      · rename_i hfe
        cases h
        exact hi.commitSucceeded hp hfe
      · cases h
    · cases h
  · split at h
    · rename_i stop hpc
      split at h
      · rename_i hfe
        cases h
        have hl := lease_of_fenced hfe
        obtain ⟨e, he, hne⟩ := hi.unfinished p hp hl
        refine (hi.drops p.id).records (Stop.status_ne stop).1 (Stop.status_ne stop).2 (fun e' he' => ?_) ?_
        · cases he.symm.trans he'
          exact hne
        · intro q hq hl' hid
          obtain ⟨hq, hqx⟩ := List.mem_filter.mp hq
          rw [hi.alone hp hq hl hl' hid] at hqx
          simp at hqx
      · cases h
    · cases h
  · cases h
    exact hi.drops p.id
  · cases h

theorem step_inv {A : Adapters R} [DecidableEq D] {s t : St R D} (a : Act R D) (hi : Inv A s)
    (h : step A s a = some t) : Inv A t := by
  have proc : ∀ x, ((procOf s x).bind fun p => procStep A s p a) = some t → Inv A t := by
    intro x he
    obtain ⟨p, hp, he⟩ := Option.bind_eq_some_iff.mp he
    exact procStep_inv hi (procOf_mem hp).1 he
  have canc : ∀ f, ((cancelOf s f).bind fun c => cancelStep s c a) = some t → Inv A t := by
    intro f he
    obtain ⟨c, hc, he⟩ := Option.bind_eq_some_iff.mp he
    exact cancelStep_inv hi (cancelOf_mem hc).1 he
  have lost : ∀ {u : St R D}, u.lease = none → ∀ f, u.lease = some f → f.generation = u.generation :=
    fun hu f hf => by rw [hu] at hf; cases hf
  cases a with
  | claim owner =>
    simp only [step, claim] at h
    split at h
    · rename_i hg
      cases h
      have hnew : (⟨0, owner, s.generation + 1, s.recovery.generation⟩ : RunFence) ∉ s.fences := fun hm => by
        have := hi.fencesLe _ hm
        simp only at this
        omega
      refine hi.env rfl rfl rfl rfl rfl ?_ ?_ (fun f hf => List.mem_append_left _ hf) ?_
      · intro f hf
        cases hf
        rfl
      · intro f hf
        rcases List.mem_append.mp hf with hf | hf
        · exact Nat.le_succ_of_le (hi.fencesLe f hf)
        · obtain rfl := List.mem_singleton.mp hf
          exact Nat.le_refl _
      · intro f hf hl
        cases hl
        exact absurd hf hnew
    · cases h
  | expire =>
    cases h
    exact hi.env rfl rfl rfl rfl rfl (lost rfl) hi.fencesLe (fun _ hf => hf) (fun _ _ hl => by cases hl)
  | settle =>
    cases h
    exact hi.env rfl rfl rfl rfl rfl (lost rfl) hi.fencesLe (fun _ hf => hf) (fun _ _ hl => by cases hl)
  | reconcile | command d | beginRestore | resumeDispatch =>
    cases h
    exact hi.env rfl rfl rfl rfl rfl hi.leaseNewest hi.fencesLe (fun _ hf => hf) (fun _ _ hl => hl)
  | prepare f i digest => exact prepare_inv hi h
  | cancelPending f => exact cancelPending_inv hi h
  | inspect x | recordDispatched x | call x | adapterWrites x | poll x | observe x | recordSucceeded x | recordStop x
  | crash x => exact proc x h
  | cancelNext f | cancelObserve f | cancelRecord f | cancelWrites f | cancelCrash f => exact canc f h

/-! ## The guarantees -/

/-- The effect ledger. A non-idempotent effect is dispatched at most once; every call of
    `adapter.dispatch` follows a 'dispatched' record of the same execution, committed under a
    valid fence while the run was not cancelled; and an execution that prepares an effect after
    its success was recorded returns the stored result and makes no call. -/
theorem effects_dispatched_once {A : Adapters R} [DecidableEq D] {recovery : RecoveryRow} {s : St R D}
    (h : Steps.Reach (step A) (init recovery) s) :
    (∀ i, A.idempotent i = false → s.log.countP (isCall i) ≤ 1) ∧
    (∀ (k x i : Nat), s.log[k]? = some (.called x i) →
      ∃ j d, j < k ∧ d ≠ .cancelled ∧ s.log[j]? = some (.dispatchRecorded x i true d)) ∧
    (∀ (j k x i : Nat) (r : R) (st : EffectStatus), j < k → s.log[j]? = some (.succeeded i r) →
      s.log[k]? = some (.prepared x i st) →
      (∀ i', .called x i' ∉ s.log) ∧ .returned x i r ∈ s.log ∧ ∀ r', .returned x i r' ∈ s.log → r' = r) := by
  have hi : Inv A s := h.invariant (Inv A) (init_inv A recovery) fun _ a _ hi _ hs => step_inv a hi hs
  refine ⟨?_, hi.preceded, ?_⟩
  · intro i hid
    have := hi.once i hid
    unfold dispatches at this
    omega
  · intro j k x i r st hjk hj hk
    obtain ⟨hj', hje⟩ := List.getElem?_eq_some_iff.mp hj
    obtain ⟨hk', hke⟩ := List.getElem?_eq_some_iff.mp hk
    have hst : st = .succeeded := List.pairwise_iff_getElem.mp hi.ordered j k hj' hk' hjk i r x st hje hke
    subst hst
    obtain ⟨hcalls, -, r', hr'⟩ := hi.settled x i (hke ▸ List.getElem_mem hk')
    obtain ⟨e, he, -, hres⟩ := hi.stored i r (.inl (hje ▸ List.getElem_mem hj'))
    have huniq : ∀ r'', .returned x i r'' ∈ s.log → r'' = r := by
      intro r'' h''
      obtain ⟨e', he', -, hres'⟩ := hi.stored i r'' (.inr ⟨x, h''⟩)
      cases he.symm.trans he'
      exact Option.some.inj (hres'.symm.trans hres)
    exact ⟨hcalls, huniq r' hr' ▸ hr', huniq⟩

/-- Two executors and a non-idempotent adapter whose results are kept as they are. -/
def sampleAdapters : Adapters Nat := ⟨fun _ => false, fun _ r => some r⟩

/-- The first executor records 'dispatched' and is superseded before it calls; the second finds
    the effect absent and stops; the first wakes up and calls. -/
def supersededCall : List (Act Nat Nat) :=
  [.claim 1, .prepare ⟨0, 1, 1, 7⟩ 3 0, .inspect 0 .absent, .recordDispatched 0, .expire,
    .claim 2, .prepare ⟨0, 2, 2, 7⟩ 3 0, .inspect 1 .absent, .recordStop 1, .call 0]

theorem effects_dispatched_once_supersededCall : ∃ s : St Nat Nat,
    Steps.Reach (step sampleAdapters) (init ⟨7, true⟩) s ∧ .called 0 3 ∈ s.log ∧ s.log.countP (isCall 3) ≤ 1 := by
  obtain ⟨s, hs⟩ : ∃ s, Steps.run (step sampleAdapters) (init ⟨7, true⟩) supersededCall = some s := ⟨_, rfl⟩
  have hr := Steps.run_reach _ hs
  refine ⟨s, hr, ?_, (effects_dispatched_once hr).1 3 rfl⟩
  cases hs
  decide

end Jarvis.Runtime.Effects
