/-
  Jarvis.Workers.Leaks — whether a slot of the worker can be lost (`workers/leases.py`:
  `WorkerSlots.acquire`, `release`; `workers/runtime.py`: `WorkerEffectAdapter.dispatch`, `inspect`).

  An expired lease is not reclaimed, so a lease that is not released needs a holder who can still
  release it: an invocation whose inspection would (`Reconcilable`), or the attempt itself, which
  gets the lease again when its node is taken up again (`GrantedAgain`). An executor that is lost
  between the three transactions (the lease, the invocation, the result with the release after it)
  leaves a lease that runs out with no such holder: `acquire` skips it, also for its own attempt,
  and `inspect` renews the lease before it asks (`refused_by_own_lease`).

  `Secures` are the moves of the runs in which no lease runs out before its release, the executor
  is not lost between a stored result and the release, no lower slot becomes free while a lease
  waits for its invocation, and no such lease is left by a visit that ends. In those runs no slot
  is leaked (`no_slot_leaked`).
-/
import Jarvis.Workers.Redispatch

namespace Jarvis.Workers

open Steps
open Workflows (FailureClass)

variable {E T : Type}

/-! ## The slots -/

/-- The attempt an unreleased lease is held for. -/
def Lease.holder (l : Lease E) : Option E := if l.released then none else l.attempt

/-- `WorkerSlots.contract`. -/
def Lease.fence (l : Lease E) : SlotFence := ⟨l.id, l.slot, l.generation⟩

theorem Lease.holder_eq_some {l : Lease E} {e : E} : l.holder = some e ↔ l.released = false ∧ l.attempt = some e := by
  unfold Lease.holder
  cases l.released <;> simp

namespace Pool

/-- The slots are numbered in their order, and each has one lease that is not released. -/
structure Sound (capacity : Nat) (p : Pool E) : Prop where
  numbers : p.slots = [] ∨ p.slots.map Slot.number = List.range capacity
  placed : ∀ l ∈ p.leases, l.released = false → ⟨l.slot, l.generation⟩ ∈ p.slots
  single : ∀ l ∈ p.leases, ∀ l' ∈ p.leases, l.released = false → l'.released = false → l.slot = l'.slot → l = l'

/-- No slot below `n` is free. -/
def Full (p : Pool E) (n : Nat) : Prop := ∀ m < n, ∃ l ∈ p.leases, l.released = false ∧ l.slot = m

variable {p q : Pool E} {capacity : Nat}

theorem current_eq_none {n : Nat} : p.current n = none ↔ ∀ l ∈ p.leases, l.released = false → l.slot ≠ n := by
  simp only [current, List.find?_eq_none, Bool.and_eq_true, decide_eq_true_eq, Bool.not_eq_true', not_and]
  exact ⟨fun h l hl hr hn => h l hl hn hr, fun h l hl hn hr => h l hl hr hn⟩

theorem current_eq_some {n : Nat} {l : Lease E} (h : p.current n = some l) : l ∈ p.leases ∧ l.released = false ∧ l.slot = n := by
  have hfound := List.find?_some h
  simp only [Bool.and_eq_true, decide_eq_true_eq, Bool.not_eq_true'] at hfound
  exact ⟨current_mem h, hfound.2, hfound.1⟩

theorem Sound.current (h : p.Sound capacity) {l : Lease E} (hl : l ∈ p.leases) (hr : l.released = false) :
    p.current l.slot = some l := by
  cases hcur : p.current l.slot with
  | none => exact absurd rfl (current_eq_none.mp hcur l hl hr)
  | some l' =>
    obtain ⟨hl', hr', hslot⟩ := current_eq_some hcur
    rw [h.single l' hl' l hl hr' hr hslot]

theorem register_numbers (h : p.Sound capacity) : (p.register capacity).slots.map Slot.number = List.range capacity := by
  obtain hnil | hrange := h.numbers
  · simp only [register, hnil, List.nil_append, List.any_nil, Bool.not_false, List.map_map]
    rw [List.filter_eq_self.mpr fun _ _ => rfl]
    exact List.map_id _
  · have hnone : ((List.range capacity).filter fun n => !p.slots.any (·.number == n)) = [] := by
      refine List.filter_eq_nil_iff.mpr fun n hn => ?_
      obtain ⟨slot, hslot, rfl⟩ := List.mem_map.mp (hrange ▸ hn)
      simp only [Bool.not_eq_true', Bool.not_eq_false, List.any_eq_true, beq_iff_eq]
      exact ⟨slot, hslot, rfl⟩
    simp only [register, hnone, List.map_nil, List.append_nil]
    exact hrange

theorem Sound.register (h : p.Sound capacity) : (p.register capacity).Sound capacity :=
  ⟨.inr (register_numbers h), fun l hl hr => List.mem_append_left _ (h.placed l hl hr), h.single⟩

/-- The slots before one are those with a lower number. -/
theorem numbers_split {before after : List Slot} {slot : Slot}
    (h : (before ++ slot :: after).map Slot.number = List.range capacity) :
    slot.number < capacity ∧ ∀ m, m < slot.number ↔ ∃ s ∈ before, s.number = m := by
  have hsorted : (before ++ slot :: after).Pairwise fun a b => a.number < b.number :=
    List.pairwise_map.mp (h ▸ List.pairwise_lt_range)
  obtain ⟨-, hafter, hbefore⟩ := List.pairwise_append.mp hsorted
  have hin : slot.number < capacity := List.mem_range.mp (h ▸ List.mem_map_of_mem (by simp))
  refine ⟨hin, fun m => ⟨fun hm => ?_, ?_⟩⟩
  · obtain ⟨s, hs, rfl⟩ := List.mem_map.mp (h.symm ▸ List.mem_range.mpr (hm.trans hin) : m ∈ _)
    obtain hs | hs := List.mem_append.mp hs
    · exact ⟨s, hs, rfl⟩
    · obtain rfl | hs := List.mem_cons.mp hs
      · omega
      · have := (List.pairwise_cons.mp hafter).1 s hs
        omega
  · rintro ⟨s, hs, rfl⟩
    exact hbefore s hs slot List.mem_cons_self

theorem Full.mono {n : Nat} (h : p.Full n)
    (hkept : ∀ l ∈ p.leases, l.released = false → l.slot < n → ∃ l' ∈ q.leases, l'.released = false ∧ l'.slot = l.slot) :
    q.Full n := by
  intro m hm
  obtain ⟨l, hl, hr, rfl⟩ := h m hm
  exact hkept l hl hr hm

theorem mem_update {id : Nat} {g : Lease E → Lease E} {l : Lease E} :
    l ∈ (p.update id g).leases ↔ ∃ old ∈ p.leases, (if old.id = id then g old else old) = l :=
  List.mem_map

/-- What is written to a lease that stays on its slot, and is not taken back once released. -/
theorem Sound.update (h : p.Sound capacity) {g : Lease E → Lease E}
    (hg : ∀ l, (g l).slot = l.slot ∧ (g l).generation = l.generation ∧ ((g l).released = false → l.released = false))
    (id : Nat) : (p.update id g).Sound capacity := by
  have hsame : ∀ l : Lease E, (if l.id = id then g l else l).slot = l.slot ∧
      (if l.id = id then g l else l).generation = l.generation ∧
      ((if l.id = id then g l else l).released = false → l.released = false) := by
    intro l
    split
    · exact hg l
    · exact ⟨rfl, rfl, fun h => h⟩
  refine ⟨h.numbers, fun l hl hr => ?_, fun l hl l' hl' hr hr' hslot => ?_⟩
  · obtain ⟨old, hold, rfl⟩ := mem_update.mp hl
    rw [(hsame old).1, (hsame old).2.1]
    exact h.placed old hold ((hsame old).2.2 hr)
  · obtain ⟨old, hold, rfl⟩ := mem_update.mp hl
    obtain ⟨old', hold', rfl⟩ := mem_update.mp hl'
    rw [(hsame old).1, (hsame old').1] at hslot
    rw [h.single old hold old' hold' ((hsame old).2.2 hr) ((hsame old').2.2 hr') hslot]

/-- A lease on a free slot. -/
theorem Sound.grant (h : p.Sound capacity) {slot : Slot} (hslot : slot ∈ p.slots)
    (hnumbers : p.slots.map Slot.number = List.range capacity) (hfree : p.current slot.number = none) (attempt : Option E)
    (expires : Nat) : (p.grant slot attempt expires).1.Sound capacity := by
  have hnone := current_eq_none.mp hfree
  refine ⟨.inr ?_, fun l hl hr => ?_, fun l hl l' hl' hr hr' heq => ?_⟩
  · show (Keyed.replace Slot.number slot.number _ p.slots).map Slot.number = _
    have hkeys := @Keyed.map_key_replace _ _ Slot.number p.slots _ slot.number
      (fun s => { s with generation := s.generation + 1 }) fun _ hid => hid
    exact hkeys.trans hnumbers
  · obtain hl | hl := List.mem_append.mp hl
    · exact Keyed.mem_replace.mpr (.inl ⟨h.placed l hl hr, hnone l hl hr⟩)
    · obtain rfl := List.mem_singleton.mp hl
      exact Keyed.mem_replace.mpr (.inr ⟨slot, hslot, rfl, rfl⟩)
  · obtain hl | hl := List.mem_append.mp hl <;> obtain hl' | hl' := List.mem_append.mp hl'
    · exact h.single l hl l' hl' hr hr' heq
    · obtain rfl := List.mem_singleton.mp hl'
      exact absurd heq (hnone l hl hr)
    · obtain rfl := List.mem_singleton.mp hl
      exact absurd heq.symm (hnone l' hl' hr')
    · rw [List.mem_singleton.mp hl, List.mem_singleton.mp hl']

/-- The fence of a live lease of the run passes. -/
theorem Sound.require (h : p.Sound capacity) (hn : p.Numbered) {l : Lease E} (hl : l ∈ p.leases) (hr : l.released = false) {e : E}
    (hattempt : l.attempt = some e) {now : Nat} (hlive : now < l.expires) : p.require now l.fence = true := by
  have hplaced := h.placed l hl hr
  have hnodup : (p.slots.map Slot.number).Nodup := by
    obtain hnil | hrange := h.numbers
    · rw [hnil]
      exact List.nodup_nil
    · rw [hrange]
      exact List.nodup_range
  have hlease : p.lease? l.id = some l := Keyed.find?_of_mem hn.nodup hl
  have hslot : p.slots.find? (fun s => s.number = l.slot) = some ⟨l.slot, l.generation⟩ := Keyed.find?_of_mem hnodup hplaced
  simp [Pool.require, Lease.fence, hlease, hslot, hattempt, hr, hlive]

section Acquire

variable [DecidableEq E] {now ttl : Nat} {e : E} {f : SlotFence}

/-- What `acquire` does at the slot it stops at. -/
def Taken (p q : Pool E) (now ttl : Nat) (e : E) (f : SlotFence) (slot : Slot) : Prop :=
  (∃ l, p.current slot.number = some l ∧ l.attempt = some e ∧ now < l.expires) ∨
    (p.current slot.number = none ∧ (q, f) = p.grant slot (some e) (now + ttl))

/-- The loop of `acquire` stops at the first slot that is free or holds the attempt's live lease. -/
theorem acquireFrom_cases {slots : List Slot} (h : p.acquireFrom capacity now ttl e slots = some (q, f)) :
    ∃ before slot after, slots = before ++ slot :: after ∧ slot.number < capacity ∧
      (∀ s ∈ before, s.number < capacity → ∃ l, p.current s.number = some l) ∧ p.Taken q now ttl e f slot := by
  induction slots with
  | nil => cases h
  | cons slot rest ih =>
    have hlater (hslot : slot.number < capacity → ∃ l, p.current slot.number = some l)
        (hrest : p.acquireFrom capacity now ttl e rest = some (q, f)) :
        ∃ before next after, slot :: rest = before ++ next :: after ∧ next.number < capacity ∧
          (∀ s ∈ before, s.number < capacity → ∃ l, p.current s.number = some l) ∧ p.Taken q now ttl e f next := by
      obtain ⟨before, next, after, rfl, hlt, hbefore, htaken⟩ := ih hrest
      refine ⟨slot :: before, next, after, rfl, hlt, fun s hs hcap => ?_, htaken⟩
      obtain rfl | hs := List.mem_cons.mp hs
      · exact hslot hcap
      · exact hbefore s hs hcap
    unfold acquireFrom at h
    split at h
    · rename_i hcap
      exact hlater (fun hlt => absurd hlt (by omega)) h
    rename_i hcap
    split at h
    · rename_i l hcur
      split at h
      · rename_i hown
        cases h
        exact ⟨[], slot, rest, rfl, by omega, fun _ hs => absurd hs List.not_mem_nil, .inl ⟨l, hcur, hown⟩⟩
      · exact hlater (fun _ => ⟨l, hcur⟩) h
    · rename_i hfree
      cases h
      exact ⟨[], slot, rest, rfl, by omega, fun _ hs => absurd hs List.not_mem_nil, .inr ⟨hfree, rfl⟩⟩

/-- The loop comes to the attempt's own lease when every slot before it is another's. -/
theorem acquireFrom_own {before after : List Slot} {slot : Slot} {l : Lease E}
    (hbefore : ∀ s ∈ before, ∃ l', p.current s.number = some l' ∧ l'.attempt ≠ some e) (hslot : slot.number < capacity)
    (hcur : p.current slot.number = some l) (hown : l.attempt = some e) (hlive : now < l.expires) :
    p.acquireFrom capacity now ttl e (before ++ slot :: after) = some (p, ⟨l.id, slot.number, l.generation⟩) := by
  induction before with
  | nil =>
    rw [List.nil_append, acquireFrom, if_neg (by omega), hcur]
    exact if_pos ⟨hown, hlive⟩
  | cons s before ih =>
    obtain ⟨l', hl', hne⟩ := hbefore s List.mem_cons_self
    have hrest := ih fun s hs => hbefore s (List.mem_cons_of_mem _ hs)
    rw [List.cons_append, acquireFrom]
    split
    · exact hrest
    · rw [hl']
      exact (if_neg fun h => hne h.1).trans hrest

/-- The attempt's only lease is found again, while it is live and no slot before it is free. -/
theorem Sound.acquire_own (h : p.Sound capacity) {l : Lease E} (hl : l ∈ p.leases) (hown : l.holder = some e)
    (honce : ∀ l' ∈ p.leases, l'.holder = some e → l' = l) (hlive : now < l.expires) (hfull : p.Full l.slot) :
    p.acquire capacity now ttl e = some (p.register capacity, l.fence) := by
  obtain ⟨hr, hattempt⟩ := Lease.holder_eq_some.mp hown
  obtain ⟨before, after, hsplit⟩ := List.append_of_mem (h.register.placed l hl hr)
  have hnumbers := register_numbers h
  rw [hsplit] at hnumbers
  obtain ⟨hlt, hlower⟩ := numbers_split hnumbers
  have hcur : (p.register capacity).current l.slot = some l := h.register.current hl hr
  unfold acquire
  rw [hsplit]
  refine @acquireFrom_own _ _ capacity _ _ _ _ before after ⟨l.slot, l.generation⟩ l (fun s hs => ?_) hlt hcur hattempt hlive
  have hslt : s.number < l.slot := (hlower s.number).mpr ⟨s, hs, rfl⟩
  obtain ⟨l', hl', hr', hslot⟩ := hfull s.number hslt
  refine ⟨l', hslot ▸ h.register.current hl' hr', fun hattempt' => ?_⟩
  rw [honce l' hl' (Lease.holder_eq_some.mpr ⟨hr', hattempt'⟩)] at hslot
  omega

/-- What `acquire` gives an attempt that has no lease: one on the lowest free slot. -/
theorem Sound.acquire_new (h : p.Sound capacity) (hnone : ∀ l ∈ p.leases, l.holder ≠ some e)
    (hacq : p.acquire capacity now ttl e = some (q, f)) :
    q.Sound capacity ∧ ∃ l, q.leases = p.leases ++ [l] ∧ l.holder = some e ∧ l.expires = now + ttl ∧ f = l.fence ∧
      p.Full l.slot := by
  obtain ⟨before, slot, after, hsplit, hlt, hbefore, ⟨l, hcur, hattempt, -⟩ | ⟨hfree, hgrant⟩⟩ := acquireFrom_cases hacq
  · obtain ⟨hl, hr, -⟩ := current_eq_some hcur
    exact absurd (Lease.holder_eq_some.mpr ⟨hr, hattempt⟩) (hnone l hl)
  · have hnumbers := register_numbers h
    have hslot : slot ∈ (p.register capacity).slots := hsplit ▸ by simp
    obtain ⟨rfl, rfl⟩ := Prod.mk.injEq .. ▸ hgrant
    refine ⟨h.register.grant hslot hnumbers hfree _ _,
      ⟨p.nextLease, slot.number, slot.generation + 1, some e, now + ttl, false⟩, rfl, rfl, rfl, rfl, fun m hm => ?_⟩
    rw [hsplit] at hnumbers
    obtain ⟨s, hs, rfl⟩ := ((numbers_split hnumbers).2 m).mp hm
    obtain ⟨l, hcur⟩ := hbefore s hs (hm.trans hlt)
    exact ⟨l, current_eq_some hcur⟩

end Acquire

end Pool

/-! ## Leases and their holders -/

section Property

variable [DecidableEq E] [DecidableEq T]

/-- The execution is still to be taken up, or in progress. -/
def Open (s : St E T) (e : E) : Prop := (∃ task, s.visits.head? = some (e, task)) ∧ hasEnded s e = false

/-- The lease is that of a persisted invocation, and the executor is about to release it, or an
    inspection that finds the worker's work over would. -/
def Reconcilable (B : Binding) (s : St E T) (e : E) (l : Lease E) : Prop :=
  ∃ i ∈ s.invocations, i.id = e ∧ i.lease = l.fence ∧
    ((∃ x outcome, s.exec = some x ∧ x.key = e ∧ x.pc = .releasing outcome ∧
        (release s x outcome).pool.Released i.lease) ∨
      (inspect B s ⟨e, i.request.task, .entered⟩ (.ok .cancelled)).pool.Released i.lease)

/-- The attempt's node is still to be executed, and would be granted the lease. -/
def GrantedAgain (B : Binding) (s : St E T) (e : E) (l : Lease E) : Prop :=
  Open s e ∧ ∃ q, s.pool.acquire B.capacity s.now B.ttl e = some (q, l.fence) ∧ q.leases = s.pool.leases

structure NoLeak (B : Binding) (s : St E T) : Prop where
  held : ∀ l ∈ s.pool.leases, l.released = false → ∀ e, l.attempt = some e → Reconcilable B s e l ∨ GrantedAgain B s e l
  /-- An attempt is not refused capacity because of its own lease. -/
  served : ∀ x r, s.exec = some x → x.pc = .requested r → s.pool.acquire B.capacity s.now B.ttl r.attempt = none →
    ∀ l ∈ s.pool.leases, l.released = false → l.attempt ≠ some r.attempt

end Property

/-- The moves after which every lease keeps its holder. -/
structure Secures (s : St E T) (act : Act E T) : Prop where
  /-- No lease runs out, unless its slot is just to be released. -/
  lasts : ∀ d, act = .tick d → ∀ l ∈ s.pool.leases, ∀ e, l.holder = some e → ¬ Releasing s e → s.now + d < l.expires
  /-- The executor is not lost before the release that follows a stored result. -/
  stops : act = .stop → ∀ i ∈ s.invocations, Releasing s i.id → ∀ l ∈ s.pool.leases, l.holder = some i.id →
    i.result = none ∧ s.now < l.expires
  /-- No slot becomes free below that of a lease that has no invocation. -/
  frees : ∀ id, act = .giveBack id → ∀ l ∈ s.pool.leases, ∀ e, l.holder = some e → NoInvocation s e →
    ∀ other ∈ s.pool.leases, other.id = id → other.attempt = none → other.released = false → ¬ other.slot < l.slot
  /-- The workspace is prepared, or has never failed with a retried class, while the attempt holds a lease. -/
  prepares : ∀ cls x, act = .prepareWorkspace (some cls) → s.exec = some x → retried cls = true →
    ∀ l ∈ s.pool.leases, l.holder ≠ some x.key

section Decide

variable [DecidableEq E]

/-- `Secures`, move by move. -/
def secures (s : St E T) (act : Act E T) : Bool :=
  match act with
  | .tick d => s.pool.leases.all fun l => l.holder.all fun e => decide (Releasing s e) || decide (s.now + d < l.expires)
  | .stop => s.invocations.all fun i => !decide (Releasing s i.id) || s.pool.leases.all fun l =>
      l.holder != some i.id || (i.result.isNone && decide (s.now < l.expires))
  | .giveBack id => s.pool.leases.all fun l => l.holder.all fun e => s.invocations.any (fun i => i.id = e) ||
      s.pool.leases.all fun other => other.id != id || other.attempt.isSome || other.released || !decide (other.slot < l.slot)
  | .prepareWorkspace (some cls) => s.exec.all fun x => !retried cls || s.pool.leases.all fun l => l.holder != some x.key
  | _ => true

theorem secures_of {s : St E T} {act : Act E T} (h : secures s act = true) : Secures s act := by
  refine ⟨fun d hact l hl e he hrel => ?_, fun hact i hi hrel l hl he => ?_,
    fun id hact l hl e he hbare other ho hid hattempt hr hlt => ?_, fun cls x hact hx hcls l hl he => ?_⟩
  · subst hact
    have hall := List.all_eq_true.mp h l hl
    simpa [he, hrel] using hall
  · subst hact
    have hall := List.all_eq_true.mp h i hi
    simp only [hrel, decide_true, Bool.not_true, Bool.false_or] at hall
    simpa [he] using List.all_eq_true.mp hall l hl
  · subst hact
    have hall := List.all_eq_true.mp h l hl
    have hnone : s.invocations.any (fun i => i.id = e) = false := by simpa [NoInvocation] using hbare
    simp only [he, Option.all_some, hnone, Bool.false_or] at hall
    simpa [hid, hattempt, hr, hlt] using List.all_eq_true.mp hall other ho
  · subst hact
    simp only [secures, hx, Option.all_some, hcls, Bool.not_true, Bool.false_or] at h
    simpa [he] using List.all_eq_true.mp h l hl

end Decide

/-! ## What holds in those runs -/

/-- The lease is that of an invocation that is not reconciled, or whose slot is to be released. -/
def Attached (s : St E T) (e : E) (l : Lease E) : Prop :=
  ∃ i ∈ s.invocations, i.id = e ∧ i.lease = l.fence ∧ (Releasing s e ∨ i.result = none ∧ s.now < l.expires)

/-- The lease waits for its invocation. -/
structure Pending (s : St E T) (e : E) (l : Lease E) : Prop where
  bare : NoInvocation s e
  live : s.now < l.expires
  first : ∃ task, s.visits.head? = some (e, task)
  unended : ∀ o, (e, o) ∉ s.ended
  full : s.pool.Full l.slot

structure Kept (B : Binding) (s : St E T) : Prop where
  sound : s.pool.Sound B.capacity
  once : ∀ l ∈ s.pool.leases, ∀ l' ∈ s.pool.leases, ∀ e, l.holder = some e → l'.holder = some e → l = l'
  held : ∀ l ∈ s.pool.leases, ∀ e, l.holder = some e → Attached s e l ∨ Pending s e l
  acquired : ∀ x r f, s.exec = some x → x.pc = .acquired r f → ∃ l ∈ s.pool.leases, l.holder = some x.key ∧ f = l.fence
  recorded : ∀ e outcome, (e, outcome) ∈ s.effects → ∃ i ∈ s.invocations, i.id = e
  concluded : ∀ x, s.exec = some x → x.pc.holds.isSome = true → ∃ i ∈ s.invocations, i.id = x.key

section Release

variable [DecidableEq E] {s : St E T} {x : Execution E T}

theorem Inv.releasing (hinv : Inv s) (hx : s.exec = some x) (hpc : x.pc.releases = true) : ∃ i ∈ s.invocations, i.id = x.key := by
  have hstand := (hinv.current x hx).2.2
  unfold Pc.releases at hpc
  split at hpc
  · rename_i outcome heq
    rw [Standing, heq] at hstand
    exact hstand
  · cases hpc

theorem Inv.invocation? (hinv : Inv s) {i : Invocation E T} (hi : i ∈ s.invocations) : s.invocation? i.id = some i :=
  Keyed.find?_of_mem hinv.rows.invoked hi

theorem release_eq (hinv : Inv s) {i : Invocation E T} (hi : i ∈ s.invocations) (hid : i.id = x.key) {q : Pool E}
    (hq : s.pool.release i.lease = some q) (outcome : Outcome) :
    release s x outcome = { s with pool := q, exec := some { x with pc := .settling outcome } } := by
  unfold release
  rw [← hid, hinv.invocation? hi, Option.bind_some, hq]

end Release

namespace Kept

variable {B : Binding} {s t : St E T} {x : Execution E T}

theorem init : Kept B (Workers.init E T) where
  sound := ⟨.inl rfl, fun _ hl => absurd hl List.not_mem_nil, fun _ hl => absurd hl List.not_mem_nil⟩
  once _ hl := absurd hl List.not_mem_nil
  held _ hl := absurd hl List.not_mem_nil
  acquired _ _ _ hx := by cases hx
  recorded _ _ he := absurd he List.not_mem_nil
  concluded _ hx := by cases hx

/-- The tables of the slots, the invocations and the effects stay. -/
theorem move (h : Kept B s) (hpool : t.pool = s.pool) (hinvocations : t.invocations = s.invocations)
    (heffects : t.effects = s.effects) (hheld : ∀ l ∈ s.pool.leases, ∀ e, l.holder = some e → Attached s e l ∨ Pending s e l →
      Attached t e l ∨ Pending t e l)
    (hacquired : ∀ x r f, t.exec = some x → x.pc = .acquired r f → ∃ l ∈ s.pool.leases, l.holder = some x.key ∧ f = l.fence)
    (hconcluded : ∀ x, t.exec = some x → x.pc.holds.isSome = true → ∃ i ∈ s.invocations, i.id = x.key) : Kept B t where
  sound := hpool ▸ h.sound
  once := hpool ▸ h.once
  held l hl e he := hheld l (hpool ▸ hl) e he (h.held l (hpool ▸ hl) e he)
  acquired := hpool ▸ hacquired
  recorded := by rw [heffects, hinvocations]; exact h.recorded
  concluded := hinvocations ▸ hconcluded

/-- The execution moves on, and not from the release of its slot. -/
theorem goOn (h : Kept B s) (hx : s.exec = some x) (hfrom : x.pc.releases = false) (hpool : t.pool = s.pool)
    (hinvocations : t.invocations = s.invocations) (heffects : t.effects = s.effects) (hnow : t.now = s.now)
    (hpending : ∀ l ∈ s.pool.leases, ∀ e, l.holder = some e → Pending s e l → t.visits = s.visits ∧ ∀ o, (e, o) ∉ t.ended)
    (hexec : ∀ y, t.exec = some y → y.key = x.key ∧ (∀ r f, y.pc ≠ .acquired r f) ∧
      (y.pc.holds.isSome = true → ∃ i ∈ s.invocations, i.id = x.key)) : Kept B t := by
  refine h.move hpool hinvocations heffects (fun l hl e he hcases => ?_) (fun y r f hy hpc => absurd hpc ((hexec y hy).2.1 r f))
    fun y hy hpc => (hexec y hy).1 ▸ (hexec y hy).2.2 hpc
  obtain ⟨i, hi, hid, hfence, hrel | hlive⟩ | hwaits := hcases
  · exact absurd hrel (Spared.notReleasing hx hfrom e)
  · exact .inl ⟨i, hinvocations ▸ hi, hid, hfence, .inr (hnow ▸ hlive)⟩
  · obtain ⟨hvisits, hended⟩ := hpending l hl e he hwaits
    exact .inr ⟨by rw [NoInvocation, hinvocations]; exact hwaits.bare, hnow ▸ hwaits.live, hvisits ▸ hwaits.first, hended,
      hpool ▸ hwaits.full⟩

theorem proceed (h : Kept B s) (hx : s.exec = some x) (hfrom : x.pc.releases = false) {pc : Pc E T}
    (hto : ∀ r f, pc ≠ .acquired r f) (hconcluded : pc.holds.isSome = true → ∃ i ∈ s.invocations, i.id = x.key) :
    Kept B (s.at x pc) := by
  refine h.goOn hx hfrom rfl rfl rfl rfl (fun _ _ _ _ hp => ⟨rfl, hp.unended⟩) fun y hy => ?_
  cases hy
  exact ⟨rfl, hto, hconcluded⟩

theorem halt (h : Kept B s) (hx : s.exec = some x) (hfrom : x.pc.releases = false) : Kept B s.halt :=
  h.goOn hx hfrom rfl rfl rfl rfl (fun _ _ _ _ hp => ⟨rfl, hp.unended⟩) fun _ hy => by cases hy

/-- The visit ends, with no lease left that waits for its invocation. -/
theorem finish (h : Kept B s) (hx : s.exec = some x) (hfrom : x.pc.releases = false)
    (hnone : ∀ l ∈ s.pool.leases, l.holder = some x.key → ¬ Pending s x.key l) (outcome : Outcome) :
    Kept B (s.finish x outcome) := by
  refine h.goOn hx hfrom rfl rfl rfl rfl (fun l hl e he hp => ⟨rfl, fun o hin => ?_⟩) fun _ hy => by cases hy
  obtain heq | hin := List.mem_cons.mp hin
  · cases heq
    exact hnone l hl he hp
  · exact hp.unended o hin

theorem fail (h : Kept B s) (hx : s.exec = some x) (hfrom : x.pc.releases = false) {cls : FailureClass}
    (hnone : retried cls = true → ∀ l ∈ s.pool.leases, l.holder = some x.key → ¬ Pending s x.key l) :
    Kept B (s.fail x cls) := by
  unfold St.fail
  split
  · rename_i hcls
    exact h.finish hx hfrom (hnone hcls) _
  · exact h.halt hx hfrom

/-- A handler begins. -/
theorem enter [DecidableEq E] (h : Kept B s) (hexec : s.exec = none) (e : E) (task : T) : Kept B (s.enter e task) := by
  refine h.move rfl rfl rfl (fun l _ e' _ hcases => ?_) (fun y r f hy hpc => ?_) fun y hy hpc => ?_
  · obtain ⟨i, hi, hid, hfence, ⟨y, hy, -⟩ | hlive⟩ | hwaits := hcases
    · rw [hexec] at hy
      cases hy
    · exact .inl ⟨i, hi, hid, hfence, .inr hlive⟩
    · exact .inr ⟨hwaits.bare, hwaits.live, hwaits.first, hwaits.unended, hwaits.full⟩
  · cases hy
    simp only at hpc
    split at hpc <;> cases hpc
  · cases hy
    simp only at hpc
    split at hpc
    · rename_i outcome hlook
      obtain ⟨newer, older, heq, -⟩ := List.lookup_eq_some_iff.mp hlook
      exact h.recorded e outcome (by rw [heq]; exact List.mem_append_right _ List.mem_cons_self)
    · cases hpc

/-! ### The slots -/

/-- Leases are rewritten, for the same holders and not to an earlier end. -/
theorem rewrite (h : Kept B s) {id : Nat} {g : Lease E → Lease E}
    (hg : ∀ l, (g l).fence = l.fence ∧ (g l).holder = l.holder ∧ ((g l).released = false → l.released = false) ∧
      (s.now < l.expires → s.now < (g l).expires))
    (hfull : ∀ l ∈ s.pool.leases, ∀ e, l.holder = some e → Pending s e l → (s.pool.update id g).Full l.slot) :
    Kept B { s with pool := s.pool.update id g } := by
  have hsame : ∀ l : Lease E, (if l.id = id then g l else l).fence = l.fence ∧ (if l.id = id then g l else l).holder = l.holder ∧
      (s.now < l.expires → s.now < (if l.id = id then g l else l).expires) := by
    intro l
    split
    · exact ⟨(hg l).1, (hg l).2.1, (hg l).2.2.2⟩
    · exact ⟨rfl, rfl, fun h => h⟩
  have hfence : ∀ l, (g l).slot = l.slot ∧ (g l).generation = l.generation := fun l =>
    ⟨congrArg SlotFence.slot (hg l).1, congrArg SlotFence.generation (hg l).1⟩
  refine ⟨h.sound.update (fun l => ⟨(hfence l).1, (hfence l).2, (hg l).2.2.1⟩) id, fun l hl l' hl' e he he' => ?_,
    fun l hl e he => ?_, fun y r f hy hpc => ?_, h.recorded, h.concluded⟩
  · obtain ⟨old, hold, rfl⟩ := Pool.mem_update.mp hl
    obtain ⟨old', hold', rfl⟩ := Pool.mem_update.mp hl'
    rw [(hsame old).2.1] at he
    rw [(hsame old').2.1] at he'
    rw [h.once old hold old' hold' e he he']
  · obtain ⟨old, hold, rfl⟩ := Pool.mem_update.mp hl
    rw [(hsame old).2.1] at he
    obtain ⟨i, hi, hid, hif, hcases⟩ | hwaits := h.held old hold e he
    · exact .inl ⟨i, hi, hid, hif.trans (hsame old).1.symm, hcases.imp_right fun hlive => ⟨hlive.1, (hsame old).2.2 hlive.2⟩⟩
    · refine .inr ⟨hwaits.bare, (hsame old).2.2 hwaits.live, hwaits.first, hwaits.unended, ?_⟩
      rw [show (if old.id = id then g old else old).slot = old.slot from congrArg SlotFence.slot (hsame old).1]
      exact hfull old hold e he hwaits
  · obtain ⟨l, hl, hholder, hf⟩ := h.acquired y r f hy hpc
    exact ⟨_, Pool.mem_update.mpr ⟨l, hl, rfl⟩, (hsame l).2.1.trans hholder, hf.trans (hsame l).1.symm⟩

theorem renew (h : Kept B s) (httl : 0 < B.ttl) (f : SlotFence) :
    Kept B { s with pool := s.pool.renew s.now B.ttl f } := by
  refine h.rewrite (g := fun l => { l with expires := s.now + B.ttl })
    (fun l => ⟨rfl, rfl, fun h => h, fun _ => Nat.lt_add_of_pos_right httl⟩) fun l _ e _ hwaits => ?_
  refine hwaits.full.mono fun l' hl' hr _ => ⟨_, Pool.mem_update.mpr ⟨l', hl', rfl⟩, ?_⟩
  split <;> exact ⟨hr, rfl⟩

theorem giveBack (h : Kept B s) {id : Nat} (hok : Secures s (.giveBack id)) : Kept B { s with pool := s.pool.giveBack id } := by
  refine h.rewrite (g := fun l => { l with released := l.released || l.attempt.isNone }) (fun l => ⟨rfl, ?_, ?_, fun h => h⟩)
    fun l hl e he hwaits => ?_
  · cases ha : l.attempt <;> simp [Lease.holder, ha]
  · simp only [Bool.or_eq_false_iff, and_imp]
    exact fun hr _ => hr
  · refine hwaits.full.mono fun l' hl' hr hlt => ⟨_, Pool.mem_update.mpr ⟨l', hl', rfl⟩, ?_⟩
    split
    · rename_i hid
      -- The lease of another run: had it been given back, a slot below would be free.
      cases ha : l'.attempt with
      | none => exact absurd hlt (hok.frees id rfl l hl e he hwaits.bare l' hl' hid ha hr)
      | some _ => simp [hr]
    · exact ⟨hr, rfl⟩

/-- Another run takes a free slot. -/
theorem grant (h : Kept B s) {slot : Slot} (hslot : slot ∈ (s.pool.register B.capacity).slots)
    (hfree : s.pool.current slot.number = none) (expires : Nat) :
    Kept B { s with pool := ((s.pool.register B.capacity).grant slot none expires).1 } := by
  have hsound := h.sound.register.grant hslot (Pool.register_numbers h.sound) hfree none expires
  have hnew : ∀ {l : Lease E} {e : E}, l ∈ ((s.pool.register B.capacity).grant slot none expires).1.leases → l.holder = some e →
      l ∈ s.pool.leases := by
    intro l e hl he
    obtain hl | hl := List.mem_append.mp hl
    · exact hl
    · obtain rfl := List.mem_singleton.mp hl
      cases he
  refine ⟨hsound, fun l hl l' hl' e he he' => h.once l (hnew hl he) l' (hnew hl' he') e he he', fun l hl e he => ?_,
    fun y r f hy hpc => ?_, h.recorded, h.concluded⟩
  · obtain hattached | hwaits := h.held l (hnew hl he) e he
    · exact .inl hattached
    · exact .inr ⟨hwaits.bare, hwaits.live, hwaits.first, hwaits.unended,
        hwaits.full.mono fun l' hl' hr _ => ⟨l', List.mem_append_left _ hl', hr, rfl⟩⟩
  · obtain ⟨l, hl, hholder, hf⟩ := h.acquired y r f hy hpc
    exact ⟨l, List.mem_append_left _ hl, hholder, hf⟩

variable [DecidableEq E]

/-- While the execution has an invocation, no lease waits for one. -/
theorem not_pending (hinv : Inv s) (hx : s.exec = some x) (hi : ∃ i ∈ s.invocations, i.id = x.key) (e : E) (l : Lease E) :
    ¬ Pending s e l := by
  intro hwaits
  obtain ⟨rest, hvisits⟩ := (hinv.current x hx).1
  obtain ⟨task, hfirst⟩ := hwaits.first
  rw [hvisits] at hfirst
  cases hfirst
  obtain ⟨i, hi, hid⟩ := hi
  exact hwaits.bare i hi hid

/-- The lease of the execution's invocation is released, and the execution moves on from there. -/
theorem release (h : Kept B s) (hinv : Inv s) (hx : s.exec = some x) {i : Invocation E T} (hi : i ∈ s.invocations)
    (hid : i.id = x.key) {q : Pool E} (hq : s.pool.release i.lease = some q) {exec : Option (Execution E T)}
    (hexec : ∀ y, exec = some y → y.key = x.key ∧ ∀ r f, y.pc ≠ .acquired r f) : Kept B { s with pool := q, exec } := by
  have hnone := not_pending hinv hx ⟨i, hi, hid⟩
  have hown : ∀ l ∈ s.pool.leases, l.holder = some x.key → l.id = i.lease.lease := by
    intro l hl he
    obtain ⟨j, hj, hjd, hfence, -⟩ | hwaits := h.held l hl x.key he
    · obtain rfl := Keyed.unique hinv.rows.invoked hj hi (hjd.trans hid.symm)
      rw [hfence]
      rfl
    · exact absurd hwaits (hnone _ _)
  have hkept : ∀ {l : Lease E} {e : E}, l ∈ q.leases → l.holder = some e → l ∈ s.pool.leases ∧ l.id ≠ i.lease.lease := by
    intro l e hl he
    rw [Pool.release_eq hq] at hl
    obtain ⟨old, hold, rfl⟩ := Pool.mem_update.mp hl
    split at he
    · cases he
    · rename_i hne
      rw [if_neg hne]
      exact ⟨hold, hne⟩
  refine ⟨?_, fun l hl l' hl' e he he' => h.once l (hkept hl he).1 l' (hkept hl' he').1 e he he', fun l hl e he => ?_,
    fun y r f hy hpc => absurd hpc ((hexec y hy).2 r f), h.recorded, fun y hy _ => ⟨i, hi, hid.trans (hexec y hy).1.symm⟩⟩
  · show q.Sound B.capacity
    rw [Pool.release_eq hq]
    exact h.sound.update (g := Lease.free) (fun l => ⟨rfl, rfl, fun h => by cases h⟩) _
  · obtain ⟨hold, hne⟩ := hkept hl he
    obtain ⟨j, hj, hjd, hfence, ⟨y, hy, hkey, -⟩ | hlive⟩ | hwaits := h.held l hold e he
    · rw [hx] at hy
      cases hy
      subst hkey
      exact absurd (hown l hold he) hne
    · exact .inl ⟨j, hj, hjd, hfence, .inr hlive⟩
    · exact absurd hwaits (hnone _ _)

/-! ### The execution -/

/-- `acquire` finds the lease that waits for its invocation, or grants one that does. -/
theorem acquire (h : Kept B s) (hinv : Inv s) (httl : 0 < B.ttl) (hx : s.exec = some x) {r : Request E T}
    (hpc : x.pc = .requested r) {q : Pool E} {f : SlotFence}
    (hacq : s.pool.acquire B.capacity s.now B.ttl r.attempt = some (q, f)) :
    Kept B { s with pool := q, exec := some { x with pc := .acquired r f } } := by
  obtain ⟨⟨rest, hvisits⟩, hended, hstand⟩ := hinv.current x hx
  obtain ⟨hbare, hattempt, -⟩ : NoInvocation s x.key ∧ r.attempt = x.key ∧ ∃ a ∈ s.attempts, a.id = x.key := by
    simpa only [Standing, hpc] using hstand
  rw [hattempt] at hacq
  have hconcluded : ∀ y, some { x with pc := Pc.acquired r f } = some y → y.pc.holds.isSome = true →
      ∃ i ∈ s.invocations, i.id = y.key := fun y hy hholds => by cases hy; cases hholds
  have hwaiting : ∀ l ∈ s.pool.leases, l.holder = some x.key → Pending s x.key l := by
    intro l hl he
    obtain ⟨i, hi, hid, -⟩ | hwaits := h.held l hl x.key he
    · exact absurd hid (hbare i hi)
    · exact hwaits
  have hmoved : ∀ {l : Lease E} {e : E}, Attached s e l →
      Attached { s with pool := q, exec := some { x with pc := Pc.acquired r f } } e l := by
    rintro l e ⟨i, hi, hid, hfence, ⟨y, hy, -, hrel⟩ | hlive⟩
    · rw [hx] at hy
      cases hy
      rw [hpc] at hrel
      cases hrel
    · exact ⟨i, hi, hid, hfence, .inr hlive⟩
  by_cases hown : ∃ l ∈ s.pool.leases, l.holder = some x.key
  · obtain ⟨l, hl, he⟩ := hown
    have hwaits := hwaiting l hl he
    have hfound : s.pool.acquire B.capacity s.now B.ttl x.key = some (s.pool.register B.capacity, l.fence) :=
      h.sound.acquire_own hl he (fun l' hl' he' => h.once l' hl' l hl x.key he' he) hwaits.live hwaits.full
    rw [hfound] at hacq
    cases hacq
    refine ⟨h.sound.register, h.once, fun l hl e he => ?_, fun y r' f' hy hpc' => ?_, h.recorded, hconcluded⟩
    · obtain hattached | hwaits := h.held l hl e he
      · exact .inl (hmoved hattached)
      · exact .inr ⟨hwaits.bare, hwaits.live, hwaits.first, hwaits.unended, hwaits.full⟩
    · cases hy
      cases hpc'
      exact ⟨l, hl, he, rfl⟩
  · have hnone : ∀ l ∈ s.pool.leases, l.holder ≠ some x.key := fun l hl he => hown ⟨l, hl, he⟩
    obtain ⟨hsound, new, hleases, hnew, hexpires, hf, hfull⟩ := h.sound.acquire_new hnone hacq
    have hfull' : ∀ {n : Nat}, s.pool.Full n → q.Full n := fun hn =>
      hn.mono fun l hl hr _ => ⟨l, hleases ▸ List.mem_append_left _ hl, hr, rfl⟩
    refine ⟨hsound, fun l hl l' hl' e he he' => ?_, fun l hl e he => ?_, fun y r' f' hy hpc' => ?_, h.recorded, hconcluded⟩
    · change l ∈ q.leases at hl
      change l' ∈ q.leases at hl'
      rw [hleases] at hl hl'
      obtain hin | hin := List.mem_append.mp hl <;> obtain hin' | hin' := List.mem_append.mp hl'
      · exact h.once l hin l' hin' e he he'
      · obtain rfl := List.mem_singleton.mp hin'
        cases hnew.symm.trans he'
        exact absurd he (hnone l hin)
      · obtain rfl := List.mem_singleton.mp hin
        cases hnew.symm.trans he
        exact absurd he' (hnone l' hin')
      · rw [List.mem_singleton.mp hin, List.mem_singleton.mp hin']
    · change l ∈ q.leases at hl
      rw [hleases] at hl
      obtain hl | hl := List.mem_append.mp hl
      · obtain hattached | hwaits := h.held l hl e he
        · exact .inl (hmoved hattached)
        · exact .inr ⟨hwaits.bare, hwaits.live, hwaits.first, hwaits.unended, hfull' hwaits.full⟩
      · obtain rfl := List.mem_singleton.mp hl
        cases hnew.symm.trans he
        have hlive : s.now < l.expires := by omega
        refine .inr ⟨hbare, hlive, ⟨x.task, ?_⟩, fun o hin => hinv.not_ended hx o hin, hfull' hfull⟩
        show s.visits.head? = _
        rw [hvisits]
        rfl
    · cases hy
      cases hpc'
      exact ⟨new, hleases ▸ List.mem_append_right _ List.mem_cons_self, hnew, hf⟩

/-- The invocation is recorded with the lease that waited for it. -/
theorem activate (h : Kept B s) (hinv : Inv s) (hx : s.exec = some x) {r : Request E T} {f : SlotFence}
    (hpc : x.pc = .acquired r f) (digest : String) : Kept B (Workers.activate s x r f digest) := by
  have hfrom : x.pc.releases = false := by rw [hpc]; rfl
  obtain ⟨hbare, -⟩ : NoInvocation s x.key ∧ _ := by simpa only [Standing, hpc] using (hinv.current x hx).2.2
  obtain ⟨own, hown, hholder, hf⟩ := h.acquired x r f hx hpc
  have hlive : s.now < own.expires := by
    obtain ⟨i, hi, hid, -⟩ | hwaits := h.held own hown x.key hholder
    · exact absurd hid (hbare i hi)
    · exact hwaits.live
  unfold Workers.activate
  split
  · refine ⟨h.sound, h.once, fun l hl e he => ?_, fun y r' f' hy hpc' => ?_, fun e o he => ?_, fun y hy hholds => ?_⟩
    · by_cases hkey : e = x.key
      · subst hkey
        obtain rfl := h.once l hl own hown _ he hholder
        exact .inl ⟨_, List.mem_cons_self, rfl, hf, .inr ⟨rfl, hlive⟩⟩
      · obtain ⟨i, hi, hid, hfence, hrel | hopen⟩ | hwaits := h.held l hl e he
        · exact absurd hrel (Spared.notReleasing hx hfrom e)
        · exact .inl ⟨i, List.mem_cons_of_mem _ hi, hid, hfence, .inr hopen⟩
        · refine .inr ⟨fun i hi => ?_, hwaits.live, hwaits.first, hwaits.unended, hwaits.full⟩
          obtain rfl | hi := List.mem_cons.mp hi
          · exact fun hid => hkey hid.symm
          · exact hwaits.bare i hi
    · cases hy
      cases hpc'
    · obtain ⟨i, hi, hid⟩ := h.recorded e o he
      exact ⟨i, List.mem_cons_of_mem _ hi, hid⟩
    · cases hy
      cases hholds
  · exact h.halt hx hfrom

/-- The result is stored; the release of the slot comes next. -/
theorem store (h : Kept B s) (hinv : Inv s) (hx : s.exec = some x) (hfrom : x.pc.releases = false) {i : Invocation E T}
    (hi : i ∈ s.invocations) (hid : i.id = x.key) (r : WorkerResult E T) : Kept B (s.store x r) := by
  have hstored : ∀ {e : E}, (∃ j ∈ s.invocations, j.id = e) → ∃ j ∈ (s.store x r).invocations, j.id = e := by
    rintro e ⟨j, hj, rfl⟩
    by_cases hkey : j.id = x.key
    · exact ⟨_, Keyed.mem_replace.mpr (.inr ⟨j, hj, hkey, rfl⟩), rfl⟩
    · exact ⟨j, Keyed.mem_replace.mpr (.inl ⟨hj, hkey⟩), rfl⟩
  refine ⟨h.sound, h.once, fun l hl e he => .inl ?_, fun y r' f' hy hpc' => ?_, fun e o he => hstored (h.recorded e o he),
    fun y hy _ => ?_⟩
  · obtain ⟨j, hj, hjd, hfence, hrel | hopen⟩ | hwaits := h.held l hl e he
    · exact absurd hrel (Spared.notReleasing hx hfrom e)
    · by_cases hkey : j.id = x.key
      · exact ⟨_, Keyed.mem_replace.mpr (.inr ⟨j, hj, hkey, rfl⟩), hjd, hfence, .inl ⟨_, rfl, hkey.symm.trans hjd, rfl⟩⟩
      · exact ⟨j, Keyed.mem_replace.mpr (.inl ⟨hj, hkey⟩), hjd, hfence, .inr hopen⟩
    · exact absurd hwaits (not_pending hinv hx ⟨i, hi, hid⟩ _ _)
  · cases hy
    cases hpc'
  · cases hy
    exact hstored ⟨i, hi, hid⟩

variable [DecidableEq T]

theorem inspect (h : Kept B s) (hinv : Inv s) (httl : 0 < B.ttl) (hx : s.exec = some x) (hfrom : x.pc.releases = false)
    (answer : Except FailureClass (Reconciled E T)) : Kept B (Workers.inspect B s x answer) := by
  unfold Workers.inspect
  split
  · split
    · exact h.proceed hx hfrom (fun _ _ hto => by cases hto) fun hto => by cases hto
    · exact h.halt hx hfrom
  rename_i i hi
  obtain ⟨hin, hid⟩ := mem_of_invocation? hi
  split
  · exact h.proceed hx hfrom (fun _ _ hto => by cases hto) fun _ => ⟨i, hin, hid⟩
  split
  · have hrenewed : Kept B { s with pool := s.pool.renew s.now B.ttl i.lease } := h.renew httl i.lease
    have hinv' : Inv { s with pool := s.pool.renew s.now B.ttl i.lease } :=
      hinv.slots (hinv.rows.numbered.renew _ _ _) (Pool.renew_extends _ _)
    have hnone := not_pending hinv' hx ⟨i, hin, hid⟩
    unfold inspectPrepared
    split
    · exact hrenewed.fail hx hfrom fun _ l _ _ => hnone _ l
    · split
      · exact hrenewed.proceed hx hfrom (fun _ _ hto => by cases hto) fun hto => by cases hto
      · exact hrenewed.halt hx hfrom
    · exact hrenewed.halt hx hfrom
    · split
      · rename_i pool hpool
        exact hrenewed.release hinv' hx hin hid hpool fun _ hy => by cases hy
      · exact hrenewed.halt hx hfrom
    · exact hrenewed.fail hx hfrom fun _ l _ _ => hnone _ l
    · exact hrenewed.proceed hx hfrom (fun _ _ hto => by cases hto) fun hto => by cases hto
    · -- The slot is released although no result is stored: the lease is still live here.
      exact hrenewed.proceed hx hfrom (fun _ _ hto => by cases hto) fun _ => ⟨i, hin, hid⟩
    · split
      · exact hrenewed.store hinv' hx hfrom hin hid _
      · exact hrenewed.halt hx hfrom
  · exact h.halt hx hfrom

omit [DecidableEq E] [DecidableEq T] in
/-- The executor is lost, or its handler returns. -/
theorem stop (h : Kept B s) (hok : Secures s .stop) : Kept B s.halt := by
  refine h.move rfl rfl rfl (fun l hl e he hcases => ?_) (fun _ _ _ hy => by cases hy) fun _ hy => by cases hy
  obtain ⟨i, hi, rfl, hfence, hrel | hopen⟩ | hwaits := hcases
  · exact .inl ⟨i, hi, rfl, hfence, .inr (hok.stops rfl i hi hrel l hl he)⟩
  · exact .inl ⟨i, hi, rfl, hfence, .inr hopen⟩
  · exact .inr ⟨hwaits.bare, hwaits.live, hwaits.first, hwaits.unended, hwaits.full⟩

omit [DecidableEq T] in
theorem tick (h : Kept B s) (hinv : Inv s) {d : Nat} (hok : Secures s (.tick d)) : Kept B { s with now := s.now + d } := by
  refine h.move rfl rfl rfl (fun l hl e he hcases => ?_) h.acquired h.concluded
  by_cases hrel : Releasing s e
  · obtain ⟨i, hi, hid, hfence, -⟩ | hwaits := hcases
    · exact .inl ⟨i, hi, hid, hfence, .inl hrel⟩
    · obtain ⟨x, hx, -, hpc⟩ := hrel
      exact absurd hwaits (not_pending hinv hx (hinv.releasing hx hpc) _ _)
  · have hlive := hok.lasts d rfl l hl e he hrel
    obtain ⟨i, hi, hid, hfence, hrel' | hopen⟩ | hwaits := hcases
    · exact absurd hrel' hrel
    · exact .inl ⟨i, hi, hid, hfence, .inr ⟨hopen.1, hlive⟩⟩
    · exact .inr ⟨hwaits.bare, hlive, hwaits.first, hwaits.unended, hwaits.full⟩

omit [DecidableEq E] [DecidableEq T] in
theorem recordEffect (h : Kept B s) {e : E} (hdone : ∃ i ∈ s.invocations, i.id = e) (outcome : Outcome) :
    Kept B { s with effects := (e, outcome) :: s.effects } where
  sound := h.sound
  once := h.once
  held l hl e' he := (h.held l hl e' he).imp_right fun hwaits =>
    ⟨hwaits.bare, hwaits.live, hwaits.first, hwaits.unended, hwaits.full⟩
  acquired := h.acquired
  recorded e' o he := by
    obtain heq | he := List.mem_cons.mp he
    · cases heq
      exact hdone
    · exact h.recorded e' o he
  concluded := h.concluded

/-- A move of the execution. -/
theorem execStep (h : Kept B s) (hinv : Inv s) (httl : 0 < B.ttl) (hx : s.exec = some x) {act : Act E T}
    (hok : Secures s act) (hs : Workers.execStep B s x act = some t) : Kept B t := by
  have hstand := (hinv.current x hx).2.2
  cases act with
  | tick | visit | resume | verified | grant | giveBack => cases hs
  | stop => cases hs; exact h.stop hok
  | inspect answer =>
    simp only [Workers.execStep] at hs
    split at hs <;> cases hs
    rename_i hpc
    exact h.inspect hinv httl hx (by obtain hp | hp := hpc <;> rw [hp] <;> rfl) answer
  | prepareWorkspace error =>
    simp only [Workers.execStep] at hs
    split at hs
    · rename_i hpc
      have hfrom : x.pc.releases = false := by rw [hpc]; rfl
      split at hs <;> cases hs
      · exact h.fail hx hfrom fun hcls l hl he => absurd he (hok.prepares _ x rfl hx hcls l hl)
      · exact h.proceed hx hfrom (fun _ _ hto => by cases hto) fun hto => by cases hto
    · cases hs
  | request profile admitted =>
    simp only [Workers.execStep] at hs
    split at hs
    · rename_i hpc
      have hfrom : x.pc.releases = false := by rw [hpc]; rfl
      split at hs
      · rename_i u r hr
        have hsame : u.pool = s.pool ∧ u.invocations = s.invocations ∧ u.effects = s.effects ∧ u.now = s.now ∧
            u.visits = s.visits ∧ u.ended = s.ended := by
          obtain ⟨rfl, -⟩ | ⟨a, -, rfl, -⟩ := request_ok hr <;> exact ⟨rfl, rfl, rfl, rfl, rfl, rfl⟩
        obtain ⟨hpool, hinvocations, heffects, hnow, hvisits, hended⟩ := hsame
        split at hs <;> cases hs
        · refine h.goOn hx hfrom hpool hinvocations heffects hnow
            (fun _ _ _ _ hp => ⟨hvisits, by rw [St.at, hended]; exact hp.unended⟩) fun y hy => ?_
          cases hy
          exact ⟨rfl, (fun _ _ hto => by cases hto), fun hto => by cases hto⟩
        · exact h.halt hx hfrom
      · cases hs
        exact h.halt hx hfrom
    · cases hs
  | acquire =>
    simp only [Workers.execStep] at hs
    split at hs
    · rename_i r hpc
      split at hs
      · rename_i pool lease hacq
        cases hs
        exact h.acquire hinv httl hx hpc hacq
      · cases hs
        exact h
    · cases hs
  | activate digest =>
    simp only [Workers.execStep] at hs
    split at hs
    · rename_i hpc
      cases hs
      exact h.activate hinv hx hpc digest
    · cases hs
  | validate report =>
    simp only [Workers.execStep] at hs
    split at hs
    · rename_i hpc
      have hfrom : x.pc.releases = false := by rw [hpc]; rfl
      obtain ⟨i, hi, hid, -⟩ : ∃ i ∈ s.invocations, i.id = x.key ∧ i.result = none := by simpa only [Standing, hpc] using hstand
      have hnone := not_pending hinv hx ⟨i, hi, hid⟩
      cases hs
      unfold validated
      split
      · exact h.fail hx hfrom fun _ l _ _ => hnone _ l
      · split
        · exact h.proceed hx hfrom (fun _ _ hto => by cases hto) fun hto => by cases hto
        · exact h.fail hx hfrom fun _ l _ _ => hnone _ l
    · cases hs
  | prepare error =>
    simp only [Workers.execStep] at hs
    split at hs
    · rename_i hpc
      have hfrom : x.pc.releases = false := by rw [hpc]; rfl
      obtain ⟨i, hi, hid, -⟩ : ∃ i ∈ s.invocations, i.id = x.key ∧ i.result = none := by simpa only [Standing, hpc] using hstand
      split at hs <;> cases hs
      · exact h.fail hx hfrom fun _ l _ _ => not_pending hinv hx ⟨i, hi, hid⟩ _ l
      · exact h.proceed hx hfrom (fun _ _ hto => by cases hto) fun hto => by cases hto
    · cases hs
  | start error =>
    simp only [Workers.execStep] at hs
    split at hs
    · rename_i hpc
      have hfrom : x.pc.releases = false := by rw [hpc]; rfl
      obtain ⟨i, hi, hid, -⟩ : ∃ i ∈ s.invocations, i.id = x.key ∧ i.result = none := by simpa only [Standing, hpc] using hstand
      split at hs
      · cases hs
        exact h.fail hx hfrom fun _ l _ _ => not_pending hinv hx ⟨i, hi, hid⟩ _ l
      · split at hs <;> cases hs
        · exact h.proceed hx hfrom (fun _ _ hto => by cases hto) fun hto => by cases hto
        · exact h.halt hx hfrom
    · cases hs
  | renew =>
    simp only [Workers.execStep, Workers.renew] at hs
    split at hs
    · cases hs
    · split at hs <;> cases hs
      exact h.renew httl _
  | release =>
    simp only [Workers.execStep] at hs
    split at hs
    · rename_i outcome hpc
      cases hs
      obtain ⟨i, hi, hid⟩ := hinv.releasing hx (by rw [hpc]; rfl)
      obtain ⟨q, hq, -⟩ := (hinv.rows.prepared i hi).2.2.release
      rw [release_eq hinv hi hid hq]
      refine h.release hinv hx hi hid hq fun y hy => ?_
      cases hy
      exact ⟨rfl, fun _ _ hto => by cases hto⟩
    · cases hs
  | record =>
    simp only [Workers.execStep] at hs
    split at hs
    · rename_i outcome hpc
      have hfrom : x.pc.releases = false := by rw [hpc]; rfl
      have hdone : ∃ i ∈ s.invocations, i.id = x.key := h.concluded x hx (by rw [hpc]; rfl)
      cases hs
      refine (h.recordEffect hdone outcome).proceed (x := x) hx hfrom (fun _ _ hto => by cases hto) fun _ => hdone
    · cases hs
  | complete =>
    simp only [Workers.execStep] at hs
    split at hs
    · rename_i outcome hpc
      have hfrom : x.pc.releases = false := by rw [hpc]; rfl
      have hnone := not_pending hinv hx (h.concluded x hx (by rw [hpc]; rfl)) x.key
      cases hs
      cases outcome with
      | none => exact h.finish hx hfrom (fun l _ _ => hnone l) _
      | some cls => exact h.fail hx hfrom fun _ l _ _ => hnone l
    · cases hs

theorem step (h : Kept B s) (hinv : Inv s) (httl : 0 < B.ttl) {act : Act E T} (hok : Secures s act)
    (hs : Workers.step B s act = some t) : Kept B t := by
  unfold Workers.step at hs
  split at hs
  · cases hs
    exact h.tick hinv hok
  · split at hs
    · rename_i e task hguard
      cases hs
      simp only [Bool.and_eq_true, idle, Option.isNone_iff_eq_none, List.all_eq_true] at hguard
      obtain ⟨⟨hexec, hidle⟩, -⟩ := hguard
      -- Every visit before has ended, so no lease waits for its invocation.
      have hvisited : Kept B { s with visits := (e, task) :: s.visits } := by
        refine h.move rfl rfl rfl (fun l _ e' _ hcases => ?_) h.acquired h.concluded
        obtain hattached | hwaits := hcases
        · exact .inl hattached
        · obtain ⟨task', hfirst⟩ := hwaits.first
          obtain ⟨⟨_, o⟩, hv, heq⟩ := List.any_eq_true.mp (hidle _ (List.mem_of_mem_head? hfirst))
          simp only [decide_eq_true_eq] at heq
          subst heq
          exact absurd hv (hwaits.unended o)
      exact hvisited.enter hexec e task
    · cases hs
  · split at hs
    · rename_i hexec hhead
      split at hs <;> cases hs
      exact h.enter hexec _ _
    · cases hs
  · obtain ⟨a, i, r, -, -, -, -, rfl⟩ := verified_cases hs
    refine h.move rfl rfl rfl (fun l _ e _ hcases => hcases.imp_right fun hwaits => ?_) h.acquired h.concluded
    exact ⟨hwaits.bare, hwaits.live, hwaits.first, hwaits.unended, hwaits.full⟩
  · split at hs
    · rename_i slot hguard
      cases hs
      simp only [Bool.and_eq_true, List.contains_eq_mem, decide_eq_true_eq, Option.isNone_iff_eq_none] at hguard
      exact h.grant hguard.1 hguard.2 _
    · cases hs
  · cases hs
    exact h.giveBack hok
  · obtain ⟨x, hx, hs⟩ := Option.bind_eq_some_iff.mp hs
    exact h.execStep hinv httl hx hok hs

theorem reach (httl : 0 < B.ttl) (h : ReachIf (Workers.step B) Secures (Workers.init E T) s) : Kept B s :=
  h.invariant_with Inv (Kept B) (fun _ hr => Inv.reach hr) init fun _ _ _ hinv hs hok hstep => hs.step hinv httl hok hstep

/-- An inspection that finds the worker's work over releases the lease of the invocation. -/
theorem inspect_releases (h : Kept B s) (hinv : Inv s) {i : Invocation E T} (hi : i ∈ s.invocations) (hresult : i.result = none)
    {l : Lease E} (hl : l ∈ s.pool.leases) (he : l.holder = some i.id) (hfence : i.lease = l.fence) (hlive : s.now < l.expires)
    {task : T} : (Workers.inspect B s ⟨i.id, task, .entered⟩ (.ok .cancelled)).pool.Released i.lease := by
  obtain ⟨hr, hattempt⟩ := Lease.holder_eq_some.mp he
  have hrequire : s.pool.require s.now i.lease = true :=
    hfence ▸ h.sound.require hinv.rows.numbered hl hr hattempt hlive
  have hheld := (hinv.slots (hinv.rows.numbered.renew s.now B.ttl i.lease) (Pool.renew_extends s.now B.ttl)).rows.prepared i hi
  obtain ⟨q, hq, hreleased⟩ := hheld.2.2.release
  unfold Workers.inspect
  rw [hinv.invocation? hi]
  simp only [hresult, hrequire, if_true, inspectPrepared, hq]
  exact hreleased

/-- Every lease that is not released has a holder who can release it. -/
theorem noLeak (h : Kept B s) (hinv : Inv s) : NoLeak B s := by
  have hgranted : ∀ l ∈ s.pool.leases, ∀ e, l.holder = some e → Pending s e l → 
      s.pool.acquire B.capacity s.now B.ttl e = some (s.pool.register B.capacity, l.fence) := fun l hl e he hwaits =>
    h.sound.acquire_own hl he (fun l' hl' he' => h.once l' hl' l hl e he' he) hwaits.live hwaits.full
  refine ⟨fun l hl hr e hattempt => ?_, fun x r hx hpc hrefused l hl hr hattempt => ?_⟩
  · have he : l.holder = some e := Lease.holder_eq_some.mpr ⟨hr, hattempt⟩
    obtain ⟨i, hi, rfl, hfence, ⟨x, hx, hkey, hpc⟩ | ⟨hresult, hlive⟩⟩ | hwaits := h.held l hl e he
    · obtain ⟨q, hq, hreleased⟩ := (hinv.rows.prepared i hi).2.2.release
      obtain ⟨outcome, hout⟩ : ∃ outcome, x.pc = .releasing outcome := by
        unfold Pc.releases at hpc
        split at hpc
        · exact ⟨_, by assumption⟩
        · cases hpc
      exact .inl ⟨i, hi, rfl, hfence, .inl ⟨x, outcome, hx, hkey, hout, by rw [release_eq hinv hi hkey.symm hq]; exact hreleased⟩⟩
    · exact .inl ⟨i, hi, rfl, hfence, .inr (h.inspect_releases hinv hi hresult hl he hfence hlive)⟩
    · refine .inr ⟨⟨hwaits.first, Bool.eq_false_iff.mpr fun hended => ?_⟩, _, hgranted l hl e he hwaits, rfl⟩
      obtain ⟨⟨_, o⟩, hv, heq⟩ := List.any_eq_true.mp hended
      simp only [decide_eq_true_eq] at heq
      subst heq
      exact hwaits.unended o hv
  · obtain ⟨hbare, hkey, -⟩ : NoInvocation s x.key ∧ r.attempt = x.key ∧ _ := by
      simpa only [Standing, hpc] using (hinv.current x hx).2.2
    have he : l.holder = some r.attempt := Lease.holder_eq_some.mpr ⟨hr, hattempt⟩
    obtain ⟨i, hi, hid, -⟩ | hwaits := h.held l hl _ he
    · exact hbare i hi (hid.trans hkey)
    · rw [hgranted l hl _ he hwaits] at hrefused
      cases hrefused

end Kept

/-- When no lease runs out before its release, the executor is not lost between a stored result and
    the release, no lower slot becomes free while a lease waits for its invocation, and no visit
    ends with such a lease, every slot lease has a holder who can release it. -/
theorem no_slot_leaked [DecidableEq E] [DecidableEq T] {B : Binding} {s : St E T} (httl : 0 < B.ttl)
    (h : ReachIf (step B) Secures (init E T) s) : NoLeak B s :=
  (Kept.reach httl h).noLeak (Inv.reach h)

/-! ## Two runs -/

/-- The executor is lost between the lease and the invocation; the next one takes the visit up to
    its request when `d` has passed. -/
def lostBeforeInvocation (d : Nat) : List (Act Nat Nat) :=
  [.visit 1 0, .inspect (.ok .absent), .prepareWorkspace none, .request 0 true, .acquire, .stop, .tick d, .resume,
    .inspect (.ok .absent), .prepareWorkspace none, .request 0 true]

/-- Taken up in time, the attempt gets its lease again; the invocation outlives the next loss. -/
theorem no_slot_leaked_in_time :
    ∃ s, ReachIf (step exclusive) Secures (init Nat Nat) s ∧ s.pool.leases = [⟨0, 0, 1, some 1, 30, false⟩] ∧
      s.exec = none ∧ NoLeak exclusive s := by
  have hrun : (runIf (step exclusive) (fun s act => secures s act = true) (init Nat Nat)
      (lostBeforeInvocation 10 ++ [.acquire, .activate "digest", .stop, .tick 5])).any
      (fun s => s.pool.leases = [⟨0, 0, 1, some 1, 30, false⟩] && s.exec = none) = true := by
    decide +kernel
  obtain ⟨s, hs, hfacts⟩ := (Option.any_eq_true _ _).mp hrun
  simp only [Bool.and_eq_true, decide_eq_true_eq] at hfacts
  have hreach : ReachIf (step exclusive) Secures (init Nat Nat) s := (runIf_reachIf _ hs).mono fun _ _ => secures_of
  exact ⟨s, hreach, hfacts.1, hfacts.2, no_slot_leaked (by decide) hreach⟩

/-- Taken up after the lease has run out, the attempt is refused the only slot, which is its own. -/
theorem refused_by_own_lease :
    ∃ s, Reach (step exclusive) (init Nat Nat) s ∧ s.pool.leases = [⟨0, 0, 1, some 1, 30, false⟩] ∧ s.invocations = [] ∧
      s.pool.acquire exclusive.capacity s.now exclusive.ttl 1 = none ∧ ¬ NoLeak exclusive s := by
  have hrun : (run (step exclusive) (init Nat Nat) (lostBeforeInvocation 40)).any (fun s =>
      s.pool.leases = [⟨0, 0, 1, some 1, 30, false⟩] && s.invocations = [] &&
      s.exec = some ⟨1, 0, .requested ⟨1, 0, 0, "/work/site", "main", "base"⟩⟩ &&
      s.pool.acquire exclusive.capacity s.now exclusive.ttl 1 = none) = true := by
    decide +kernel
  obtain ⟨s, hs, hfacts⟩ := (Option.any_eq_true _ _).mp hrun
  simp only [Bool.and_eq_true, decide_eq_true_eq] at hfacts
  obtain ⟨⟨⟨hleases, hinvocations⟩, hexec⟩, hrefused⟩ := hfacts
  refine ⟨s, run_reach _ hs, hleases, hinvocations, hrefused, fun hno => ?_⟩
  exact hno.served _ _ hexec rfl hrefused ⟨0, 0, 1, some 1, 30, false⟩ (by rw [hleases]; exact List.mem_cons_self) rfl rfl

end Jarvis.Workers
