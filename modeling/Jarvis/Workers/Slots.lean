/-
  Jarvis.Workers.Slots — the numbered slots of a worker and their leases (`workers/leases.py`:
  `WorkerSlots.acquire`, `require`, `renew`, `release`), as the run that holds the fence uses
  them. `E` names the attempts of that run.

  The rows are those of one physical resource. A lease of another run has no attempt here; such
  a run takes a free slot (`grant`) and gives it back (`giveBack`). The identity and
  specification checks of `acquire` raise 'configuration.invalid' and change no row.
-/
import Jarvis.Lib.Keyed

namespace Jarvis.Workers

/-- `WorkerSlotModel`. -/
structure Slot where
  number : Nat
  generation : Nat
  deriving DecidableEq, Repr

/-- `WorkerLeaseModel`. -/
structure Lease (E : Type) where
  id : Nat
  slot : Nat
  generation : Nat
  /-- The attempt it is held for; `none` if the lease is another run's. -/
  attempt : Option E
  expires : Nat
  released : Bool
  deriving DecidableEq, Repr

/-- `WorkerSlotFence`. -/
structure SlotFence where
  lease : Nat
  slot : Nat
  generation : Nat
  deriving DecidableEq, Repr

/-- `released_at` is set. -/
def Lease.free {E : Type} (l : Lease E) : Lease E := { l with released := true }

structure Pool (E : Type) where
  slots : List Slot
  leases : List (Lease E)
  nextLease : Nat
  deriving DecidableEq, Repr

namespace Pool

variable {E : Type}

def lease? (p : Pool E) (id : Nat) : Option (Lease E) := p.leases.find? fun l => l.id = id

/-- The unreleased lease of a slot. -/
def current (p : Pool E) (slot : Nat) : Option (Lease E) := p.leases.find? fun l => l.slot = slot && !l.released

/-- The rows of the slots that are not registered yet. -/
def register (capacity : Nat) (p : Pool E) : Pool E :=
  { p with
    slots := p.slots ++ ((List.range capacity).filter fun n => !p.slots.any (·.number == n)).map fun n => ⟨n, 0⟩ }

/-- A lease on a slot that has none. -/
def grant (p : Pool E) (slot : Slot) (attempt : Option E) (expires : Nat) : Pool E × SlotFence :=
  ({ slots := Keyed.replace Slot.number slot.number (fun s => { s with generation := s.generation + 1 }) p.slots
     leases := p.leases ++ [⟨p.nextLease, slot.number, slot.generation + 1, attempt, expires, false⟩]
     nextLease := p.nextLease + 1 },
    ⟨p.nextLease, slot.number, slot.generation + 1⟩)

/-- The loop of `acquire` over the slots. -/
def acquireFrom [DecidableEq E] (p : Pool E) (capacity now ttl : Nat) (attempt : E) :
    List Slot → Option (Pool E × SlotFence)
  | [] => none
  | slot :: rest =>
    if capacity ≤ slot.number then p.acquireFrom capacity now ttl attempt rest
    else
      match p.current slot.number with
      | some lease =>
        -- Expiry does not prove that the remote writer stopped.
        if lease.attempt = some attempt ∧ now < lease.expires then some (p, ⟨lease.id, slot.number, lease.generation⟩)
        else p.acquireFrom capacity now ttl attempt rest
      | none => some (p.grant slot (some attempt) (now + ttl))

/-- `WorkerSlots.acquire`; `none` is `WorkerCapacityUnavailableError`. -/
def acquire [DecidableEq E] (p : Pool E) (capacity now ttl : Nat) (attempt : E) : Option (Pool E × SlotFence) :=
  (p.register capacity).acquireFrom capacity now ttl attempt (p.register capacity).slots

/-- `WorkerSlots.require`: the fence is that of a live lease of this run. -/
def require (p : Pool E) (now : Nat) (f : SlotFence) : Bool :=
  match p.lease? f.lease with
  | none => false
  | some lease =>
    match p.slots.find? fun s => s.number = lease.slot with
    | none => false
    | some slot =>
      lease.attempt.isSome && lease.generation == f.generation && slot.generation == f.generation &&
        slot.number == f.slot && !lease.released && decide (now < lease.expires)

def update (p : Pool E) (id : Nat) (g : Lease E → Lease E) : Pool E :=
  { p with leases := Keyed.replace Lease.id id g p.leases }

/-- `WorkerSlots.renew`, after `require`. -/
def renew (p : Pool E) (now ttl : Nat) (f : SlotFence) : Pool E := p.update f.lease fun l => { l with expires := now + ttl }

/-- `WorkerSlots.release` of a reconciled invocation; `none` is `StaleExecutorError`. -/
def release (p : Pool E) (f : SlotFence) : Option (Pool E) :=
  match p.lease? f.lease with
  | none => none
  | some lease =>
    if lease.attempt.isNone ∨ lease.generation ≠ f.generation then none
    else some (p.update f.lease Lease.free)

/-- Another run releases a lease of its own. -/
def giveBack (p : Pool E) (id : Nat) : Pool E :=
  p.update id fun l => { l with released := l.released || l.attempt.isNone }

/-! ## What happens to a lease -/

/-- The row of a fence, as its run wrote it. -/
def Held (p : Pool E) (f : SlotFence) (attempt : E) : Prop :=
  ∃ l, p.lease? f.lease = some l ∧ l.attempt = some attempt ∧ l.generation = f.generation

def Released (p : Pool E) (f : SlotFence) : Prop := ∃ l, p.lease? f.lease = some l ∧ l.released = true

/-- `acquire` would find the attempt's lease live. -/
def Reenterable (p : Pool E) (now : Nat) (f : SlotFence) (attempt : E) : Prop :=
  ∃ l, p.lease? f.lease = some l ∧ l.released = false ∧ l.attempt = some attempt ∧ now < l.expires

instance (p : Pool E) (f : SlotFence) : Decidable (p.Released f) :=
  decidable_of_iff ((p.lease? f.lease).any (·.released) = true) (Option.any_eq_true _ _)

instance [DecidableEq E] (p : Pool E) (now : Nat) (f : SlotFence) (attempt : E) : Decidable (p.Reenterable now f attempt) :=
  decidable_of_iff
    ((p.lease? f.lease).any (fun l => !l.released && l.attempt = some attempt && decide (now < l.expires)) = true) <| by
      simp [Option.any_eq_true, Reenterable, and_assoc]

/-- The rows of `p` are rows of `q`, for the same attempts, and released if they were. -/
def Extends (p q : Pool E) : Prop :=
  ∀ id l, p.lease? id = some l →
    ∃ l', q.lease? id = some l' ∧ l'.attempt = l.attempt ∧ l'.generation = l.generation ∧ (l.released = true → l'.released = true)

/-- The rows of `p` are rows of `q` as they were. -/
def Keeps (p q : Pool E) : Prop := ∀ id l, p.lease? id = some l → q.lease? id = some l

variable {p q r : Pool E} {f : SlotFence} {attempt : E}

theorem Keeps.extends (h : Keeps p q) : Extends p q := fun id l hl => ⟨l, h id l hl, rfl, rfl, fun h => h⟩

theorem Extends.refl : Extends p p := fun _ l h => ⟨l, h, rfl, rfl, fun h => h⟩

theorem Held.extends (h : p.Held f attempt) (hq : Extends p q) : q.Held f attempt := by
  obtain ⟨l, hl, ha, hg⟩ := h
  obtain ⟨l', hl', ha', hg', -⟩ := hq _ l hl
  exact ⟨l', hl', ha'.trans ha, hg'.trans hg⟩

theorem Released.extends (h : p.Released f) (hq : Extends p q) : q.Released f := by
  obtain ⟨l, hl, hr⟩ := h
  obtain ⟨l', hl', -, -, hr'⟩ := hq _ l hl
  exact ⟨l', hl', hr' hr⟩

theorem lease?_update {g : Lease E → Lease E} (hg : ∀ l, (g l).id = l.id) (id j : Nat) :
    (p.update id g).lease? j = (p.lease? j).map fun l => if l.id = id then g l else l :=
  Keyed.find?_replace (fun row h => (hg row).trans h) j

theorem update_extends {g : Lease E → Lease E} (id : Nat) (hid : ∀ l, (g l).id = l.id)
    (hg : ∀ l, (g l).attempt = l.attempt ∧ (g l).generation = l.generation ∧ (l.released = true → (g l).released = true)) :
    Extends p (p.update id g) := by
  intro j l hl
  refine ⟨if l.id = id then g l else l, by rw [lease?_update hid, hl]; rfl, ?_⟩
  split
  · exact hg l
  · exact ⟨rfl, rfl, fun h => h⟩

theorem renew_extends (now ttl : Nat) : Extends p (p.renew now ttl f) :=
  update_extends _ (fun _ => rfl) fun _ => ⟨rfl, rfl, fun h => h⟩

theorem giveBack_extends (id : Nat) : Extends p (p.giveBack id) :=
  update_extends _ (fun _ => rfl) fun _ => ⟨rfl, rfl, fun h => by simp [h]⟩

theorem register_keeps (capacity : Nat) : Keeps p (p.register capacity) := fun _ _ h => h

theorem grant_keeps (slot : Slot) (owner : Option E) (expires : Nat) : Keeps p (p.grant slot owner expires).1 :=
  fun _ _ h => Keyed.find?_append_of_some h

theorem release_eq (h : p.release f = some q) : q = p.update f.lease Lease.free := by
  unfold release at h
  split at h
  · cases h
  split at h <;> cases h
  rfl

theorem release_extends (h : p.release f = some q) : Extends p q :=
  release_eq h ▸ update_extends _ (fun _ => rfl) fun _ => ⟨rfl, rfl, fun _ => rfl⟩

theorem Reenterable.keeps {now : Nat} (h : p.Reenterable now f attempt) (hk : Keeps p q) : q.Reenterable now f attempt := by
  obtain ⟨l, hl, hr⟩ := h
  exact ⟨l, hk _ l hl, hr⟩

/-- What is written to a lease of another attempt. -/
theorem Reenterable.update {now : Nat} {g : Lease E → Lease E} {f' : SlotFence} {other : E} (h : p.Reenterable now f attempt)
    (hg : ∀ l, (g l).id = l.id) (hother : p.Held f' other) (hne : other ≠ attempt) :
    (p.update f'.lease g).Reenterable now f attempt := by
  obtain ⟨l, hl, hr, ha, hlt⟩ := h
  obtain ⟨l', hl', ha', -⟩ := hother
  refine ⟨l, ?_, hr, ha, hlt⟩
  have hid : l.id = f.lease := by simpa using List.find?_some hl
  rw [lease?_update hg, hl, Option.map_some, if_neg]
  intro heq
  rw [← heq, hid, hl] at hl'
  cases hl'
  exact hne (Option.some.inj (ha'.symm.trans ha))

/-- What another run writes to its leases. -/
theorem Reenterable.giveBack {now : Nat} (h : p.Reenterable now f attempt) (id : Nat) :
    (p.giveBack id).Reenterable now f attempt := by
  obtain ⟨l, hl, hr, ha, hlt⟩ := h
  have hsame : ({ l with released := l.released || l.attempt.isNone } : Lease E) = l := by
    cases l
    simp_all
  refine ⟨l, ?_, hr, ha, hlt⟩
  unfold Pool.giveBack
  rw [lease?_update (g := fun l => { l with released := l.released || l.attempt.isNone }) fun _ => rfl, hl, Option.map_some, hsame,
    ite_self]

/-- A lease the run holds is released when it asks. -/
theorem Held.release (h : p.Held f attempt) : ∃ q, p.release f = some q ∧ q.Released f := by
  obtain ⟨l, hl, ha, hg⟩ := h
  have hid : l.id = f.lease := by simpa using List.find?_some hl
  refine ⟨p.update f.lease Lease.free, ?_, l.free, ?_, rfl⟩
  · unfold Pool.release
    rw [hl]
    simp [ha, hg]
  · rw [lease?_update (g := Lease.free) fun _ => rfl, hl, Option.map_some, if_pos hid]

/-! ## Acquiring -/

/-- Lease numbers are drawn in order. -/
def Numbered (p : Pool E) : Prop := Keyed.Allotted (fun n => n) (p.leases.map Lease.id) p.nextLease

theorem Numbered.fresh (h : p.Numbered) : p.lease? p.nextLease = none := by
  refine List.find?_eq_none.mpr fun l hl => ?_
  have hlt : l.id < p.nextLease := h.lt _ (List.mem_map_of_mem hl)
  simp only [decide_eq_true_eq]
  omega

theorem Numbered.grant (h : p.Numbered) (slot : Slot) (owner : Option E) (expires : Nat) :
    (p.grant slot owner expires).1.Numbered := by
  show Keyed.Allotted _ ((p.leases ++ [_]).map Lease.id) _
  rw [List.map_append]
  exact h.add (h.unused (Nat.le_refl _)) (Nat.le_succ _) fun m hm => Nat.lt_succ_of_le (Nat.le_of_eq hm)

theorem Numbered.update (h : p.Numbered) {g : Lease E → Lease E} (hg : ∀ l, (g l).id = l.id) (id : Nat) :
    (p.update id g).Numbered := by
  show Keyed.Allotted _ ((Keyed.replace Lease.id id g p.leases).map Lease.id) _
  rw [Keyed.map_key_replace fun l hl => (hg l).trans hl]
  exact h

theorem Numbered.renew (h : p.Numbered) (now ttl : Nat) (f : SlotFence) : (p.renew now ttl f).Numbered :=
  Numbered.update (g := fun l => { l with expires := now + ttl }) h (fun _ => rfl) _

theorem Numbered.giveBack (h : p.Numbered) (id : Nat) : (p.giveBack id).Numbered :=
  Numbered.update (g := fun l => { l with released := l.released || l.attempt.isNone }) h (fun _ => rfl) _

theorem Numbered.release (h : p.Numbered) (hr : p.release f = some q) : q.Numbered :=
  release_eq hr ▸ Numbered.update (g := Lease.free) h (fun _ => rfl) _

theorem Numbered.granted (h : p.Numbered) (slot : Slot) (attempt : E) (expires : Nat) :
    (p.grant slot (some attempt) expires).1.Held (p.grant slot (some attempt) expires).2 attempt := by
  refine ⟨⟨p.nextLease, slot.number, slot.generation + 1, some attempt, expires, false⟩, ?_, rfl, rfl⟩
  show (p.leases ++ [_]).find? (fun l : Lease E => l.id = p.nextLease) = _
  rw [List.find?_append, show p.leases.find? (fun l => l.id = p.nextLease) = none from h.fresh]
  simp

theorem current_mem {slot : Nat} {l : Lease E} (h : p.current slot = some l) : l ∈ p.leases := List.mem_of_find?_eq_some h

variable [DecidableEq E]

/-- What the loop returns: the pool is extended and the fence is the attempt's. -/
theorem Numbered.acquireFrom {capacity now ttl : Nat} (hn : p.Numbered) :
    ∀ {slots : List Slot}, p.acquireFrom capacity now ttl attempt slots = some (q, f) →
      Keeps p q ∧ q.Numbered ∧ q.Held f attempt := by
  intro slots
  induction slots with
  | nil => intro h; cases h
  | cons slot rest ih =>
    intro h
    unfold Pool.acquireFrom at h
    split at h
    · exact ih h
    split at h
    · rename_i lease hcur
      split at h
      · rename_i hown
        cases h
        refine ⟨fun _ _ h => h, hn, lease, ?_, hown.1, rfl⟩
        have hfound : (p.lease? lease.id).isSome = true :=
          List.find?_isSome.mpr ⟨lease, current_mem hcur, by simp⟩
        obtain ⟨l, hl⟩ := Option.isSome_iff_exists.mp hfound
        have hid : l.id = lease.id := by simpa using List.find?_some hl
        rw [hl, Keyed.unique hn.nodup (List.mem_of_find?_eq_some hl) (current_mem hcur) hid]
      · exact ih h
    · cases h
      exact ⟨grant_keeps slot _ _, hn.grant slot _ _, hn.granted slot attempt _⟩

theorem Numbered.acquire {capacity now ttl : Nat} (hn : p.Numbered) (h : p.acquire capacity now ttl attempt = some (q, f)) :
    Keeps p q ∧ q.Numbered ∧ q.Held f attempt := by
  have hr : (p.register capacity).Numbered := hn
  obtain ⟨hk, hq, hf⟩ := hr.acquireFrom h
  exact ⟨fun id l hl => hk id l (register_keeps capacity id l hl), hq, hf⟩

end Pool

end Jarvis.Workers
