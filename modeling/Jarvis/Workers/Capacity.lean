/-
  Jarvis.Workers.Capacity — the slots of every worker on every physical resource, and their
  leases (`workers/leases.py`: `WorkerSlots`), under the run leases of `RunOwnership`.

  A slot is looked up by its resource: the physical resource that the specification names, or
  else the worker itself. Its row is inserted under two unique keys, (worker, number) and
  (resource, number), so a worker that another revision moves to another resource meets its own
  rows (`registration_fails_iff`).

  Every operation is one fenced transaction, and such transactions hold the event counter's row:
  they happen one after another, at one reading of the clock. One that raises changes nothing,
  a refused `acquire` with its new slots too. `own` is the system of run leases, where runs are
  claimed, lost and ended. Assignments and events are left out.
-/
import Mathlib.Data.List.Pairwise
import Mathlib.Data.List.Sort
import Jarvis.Lib.Keyed
import Jarvis.Runtime.Ownership

namespace Jarvis.Workers.Capacity

open Jarvis.Runtime (RunFence RecoveryRow)
open Jarvis.Runtime.Ownership (Sys fencedAccepts rowLocked)

/-! ## Rows -/

theorem concurrency_one : 1 ≤ 1 ∧ 1 ≤ 128 := by decide

/-- The part of `WorkerSpec` that `acquire` reads. -/
structure WorkerSpec where
  maxConcurrency : Nat
  physicalResourceId : Option String := none
  concurrency_bounds : 1 ≤ maxConcurrency ∧ maxConcurrency ≤ 128 := by first | exact Jarvis.Workers.Capacity.concurrency_one | decide
  deriving DecidableEq

/-- `ConfigurationRevisionModel` of a worker. -/
structure ConfigurationRevision where
  id : Nat
  configuration : Nat
  spec : WorkerSpec
  deriving DecidableEq

/-- `TaskAttemptModel` with the run of its task. -/
structure TaskAttempt where
  id : Nat
  run : Nat
  deriving DecidableEq

/-- `WorkerSlotModel`. -/
structure WorkerSlot where
  id : Nat
  worker : Nat
  physicalResourceId : String
  slotNumber : Nat
  generation : Nat
  deriving DecidableEq

/-- `WorkerLeaseModel`. -/
structure WorkerLease where
  id : Nat
  slot : Nat
  workerRevision : Nat
  run : Nat
  taskAttempt : Nat
  ownerInstance : Nat
  generation : Nat
  runGeneration : Nat
  acquiredAt : Nat
  renewedAt : Nat
  expiresAt : Nat
  releasedAt : Option Nat
  deriving DecidableEq

/-- `WorkerSlotFence`. -/
structure WorkerSlotFence where
  lease : Nat
  workerRevision : Nat
  slot : Nat
  generation : Nat
  runGeneration : Nat
  expiresAt : Nat
  physicalResourceId : String
  deriving DecidableEq

structure Tables where
  revisions : List ConfigurationRevision := []
  attempts : List TaskAttempt := []
  slots : List WorkerSlot := []
  leases : List WorkerLease := []
  /-- The identities of slots and leases are drawn in order. -/
  nextId : Nat := 0
  deriving DecidableEq

inductive SlotError where
  /-- 'worker_lease_identity_invalid' -/
  | identityInvalid
  /-- 'worker_revision_spec_mismatch' -/
  | specMismatch
  /-- A unique constraint of `worker_slots` is violated. -/
  | duplicateRow
  /-- `WorkerCapacityUnavailableError` -/
  | capacityUnavailable
  /-- `StaleExecutorError` -/
  | stale
  /-- 'worker_release_requires_reconciliation' -/
  | unreconciled
  deriving DecidableEq, Repr

/-- `spec.physical_resource_id or str(revision.configuration_id)`. -/
def resourceId (spec : WorkerSpec) (configuration : Nat) : String :=
  spec.physicalResourceId.getD (toString configuration)

namespace Tables

variable (t : Tables)

def revision? (id : Nat) : Option ConfigurationRevision := t.revisions.find? (·.id = id)

def attempt? (id : Nat) : Option TaskAttempt := t.attempts.find? (·.id = id)

def slot? (id : Nat) : Option WorkerSlot := t.slots.find? (·.id = id)

def lease? (id : Nat) : Option WorkerLease := t.leases.find? (·.id = id)

/-- The unreleased lease of a slot. -/
def current (slot : Nat) : Option WorkerLease := t.leases.find? fun l => l.slot = slot && l.releasedAt.isNone

def writeLease (id : Nat) (f : WorkerLease → WorkerLease) : Tables :=
  { t with leases := Keyed.replace WorkerLease.id id f t.leases }

/-! ## Registration -/

/-- The numbers that the resource has no slot for. -/
def missing (resource : String) (maxConcurrency : Nat) : List Nat :=
  (List.range maxConcurrency).filter fun n => !t.slots.any fun s => s.physicalResourceId = resource ∧ s.slotNumber = n

/-- The slots that the registration adds. -/
def newSlots (worker : Nat) (resource : String) (maxConcurrency : Nat) : List WorkerSlot :=
  (t.missing resource maxConcurrency).mapIdx fun i n => ⟨t.nextId + i, worker, resource, n, 0⟩

end Tables

/-- The unique constraints of `worker_slots` tell the rows apart. -/
def WorkerSlot.apart (a b : WorkerSlot) : Bool :=
  a.id ≠ b.id && !(a.worker = b.worker && a.slotNumber = b.slotNumber) &&
    !(a.physicalResourceId = b.physicalResourceId && a.slotNumber = b.slotNumber)

/-- Rows are inserted one after another. -/
def insertSlots : List WorkerSlot → List WorkerSlot → Except SlotError (List WorkerSlot)
  | slots, [] => .ok slots
  | slots, row :: rows => if slots.all row.apart then insertSlots (slots ++ [row]) rows else .error .duplicateRow

namespace Tables

variable (t : Tables)

/-- The new slots are flushed. -/
def register (worker : Nat) (resource : String) (maxConcurrency : Nat) : Except SlotError Tables :=
  let rows := t.newSlots worker resource maxConcurrency
  match insertSlots t.slots rows with
  | .error e => .error e
  | .ok slots => .ok { t with slots, nextId := t.nextId + rows.length }

/-- The slots as `acquire` goes through them: those of the resource by number, then the new ones. -/
def ordered (worker : Nat) (resource : String) (maxConcurrency : Nat) : List WorkerSlot :=
  (t.slots.filter fun s => s.physicalResourceId = resource).insertionSort (fun a b => a.slotNumber ≤ b.slotNumber) ++
    t.newSlots worker resource maxConcurrency

end Tables

/-! ## Acquiring -/

/-- `contract`. -/
def contract (lease : WorkerLease) (slot : WorkerSlot) : WorkerSlotFence :=
  ⟨lease.id, lease.workerRevision, slot.slotNumber, lease.generation, lease.runGeneration, lease.expiresAt,
    slot.physicalResourceId⟩

/-- What a call of `acquire` brings. -/
structure Acquisition where
  fence : RunFence
  now : Nat
  ttl : Nat
  revision : Nat
  attempt : Nat
  spec : WorkerSpec
  deriving DecidableEq

/-- The lease that is granted on a slot. -/
def Acquisition.lease (a : Acquisition) (id : Nat) (slot : WorkerSlot) : WorkerLease where
  id
  slot := slot.id
  workerRevision := a.revision
  run := a.fence.run
  taskAttempt := a.attempt
  ownerInstance := a.fence.owner
  generation := slot.generation + 1
  runGeneration := a.fence.generation
  acquiredAt := a.now
  renewedAt := a.now
  expiresAt := a.now + a.ttl
  releasedAt := none

/-- The lease is the attempt's own and live. -/
def Acquisition.owns (a : Acquisition) (lease : WorkerLease) : Bool :=
  lease.taskAttempt = a.attempt && lease.run = a.fence.run && decide (a.now < lease.expiresAt)

namespace Tables

/-- A lease on a slot that has none. -/
def grant (t : Tables) (a : Acquisition) (slot : WorkerSlot) : Tables :=
  { t with
    slots := Keyed.replace WorkerSlot.id slot.id (fun s => { s with generation := s.generation + 1 }) t.slots
    leases := t.leases ++ [a.lease t.nextId slot]
    nextId := t.nextId + 1 }

/-- The loop of `acquire` over the slots. -/
def scan (t : Tables) (a : Acquisition) : List WorkerSlot → Except SlotError (Tables × WorkerSlotFence)
  | [] => .error .capacityUnavailable
  | slot :: rest =>
    if a.spec.maxConcurrency ≤ slot.slotNumber then t.scan a rest
    else
      match t.current slot.id with
      | some lease =>
        -- Expiry does not prove that the remote writer stopped.
        if a.owns lease then .ok (t, contract lease slot) else t.scan a rest
      | none => .ok (t.grant a slot, contract (a.lease t.nextId slot) slot)

/-- `WorkerSlots.acquire`. -/
def acquire (t : Tables) (a : Acquisition) : Except SlotError (Tables × WorkerSlotFence) :=
  match t.revision? a.revision, t.attempt? a.attempt with
  | some revision, some attempt =>
    if attempt.run ≠ a.fence.run then .error .identityInvalid
    else if revision.spec ≠ a.spec then .error .specMismatch
    else
      let resource := resourceId a.spec revision.configuration
      match t.register revision.configuration resource a.spec.maxConcurrency with
      | .error e => .error e
      | .ok registered =>
        registered.scan a (t.ordered revision.configuration resource a.spec.maxConcurrency)
  | _, _ => .error .identityInvalid

/-! ## Under the lease -/

/-- `WorkerSlots.require`. -/
def require (t : Tables) (fence : RunFence) (now : Nat) (lease : WorkerSlotFence) : Bool :=
  match t.lease? lease.lease with
  | none => false
  | some row =>
    match t.slot? row.slot with
    | none => false
    | some slot =>
      row.run = fence.run && row.workerRevision = lease.workerRevision && row.generation = lease.generation &&
        slot.generation = lease.generation && slot.slotNumber = lease.slot &&
        slot.physicalResourceId = lease.physicalResourceId && row.releasedAt.isNone && decide (now < row.expiresAt)

/-- `WorkerSlots.renew`. -/
def renew (t : Tables) (fence : RunFence) (now ttl : Nat) (lease : WorkerSlotFence) : Except SlotError Tables :=
  if t.require fence now lease then
    .ok (t.writeLease lease.lease fun row => { row with renewedAt := now, expiresAt := now + ttl })
  else .error .stale

/-- `WorkerSlots.release`. -/
def release (t : Tables) (fence : RunFence) (now : Nat) (lease : WorkerSlotFence) (reconciledTerminal : Bool) :
    Except SlotError Tables :=
  if !reconciledTerminal then .error .unreconciled
  else
    match t.lease? lease.lease with
    | none => .error .stale
    | some row =>
      if row.run ≠ fence.run ∨ row.generation ≠ lease.generation then .error .stale
      else if row.releasedAt.isSome then .ok t
      else .ok (t.writeLease lease.lease fun row => { row with releasedAt := some now })

end Tables

/-! ## Any interleaving -/

structure St where
  own : Sys
  tables : Tables := {}

def init (recovery : Option RecoveryRow) : St := { own := Runtime.Ownership.init recovery }

inductive Act where
  /-- Time passes; runs are claimed, renewed, released, ended. -/
  | ownership (act : Runtime.Ownership.Act)
  | publish (revision : ConfigurationRevision)
  | attempt (attempt : TaskAttempt)
  | acquire (fence : RunFence) (ttl revision attempt : Nat) (spec : WorkerSpec)
  | renew (fence : RunFence) (ttl : Nat) (lease : WorkerSlotFence)
  | release (fence : RunFence) (lease : WorkerSlotFence) (reconciledTerminal : Bool)

/-- A fenced transaction of the fence may commit. -/
def St.fenced (s : St) (fence : RunFence) : Bool :=
  decide (.granted fence ∈ s.own.log) && s.own.txn.isNone && !rowLocked s.own fence.run && fencedAccepts s.own fence

/-- A call of `acquire` now. -/
def St.acquisition (s : St) (fence : RunFence) (ttl revision attempt : Nat) (spec : WorkerSpec) : Acquisition :=
  ⟨fence, s.own.now, ttl, revision, attempt, spec⟩

/-- One committed transaction. -/
def step (s : St) : Act → Option St
  | .ownership act => (Runtime.Ownership.step s.own act).map fun own => { s with own }
  | .publish revision =>
    if (s.tables.revision? revision.id).isSome then none
    else some { s with tables.revisions := s.tables.revisions ++ [revision] }
  | .attempt attempt =>
    if (s.tables.attempt? attempt.id).isSome then none
    else some { s with tables.attempts := s.tables.attempts ++ [attempt] }
  | .acquire fence ttl revision attempt spec =>
    if s.fenced fence then
      (s.tables.acquire (s.acquisition fence ttl revision attempt spec)).toOption.map fun r => { s with tables := r.1 }
    else none
  | .renew fence ttl lease =>
    if s.fenced fence then (s.tables.renew fence s.own.now ttl lease).toOption.map fun tables => { s with tables } else none
  | .release fence lease reconciledTerminal =>
    if s.fenced fence then
      (s.tables.release fence s.own.now lease reconciledTerminal).toOption.map fun tables => { s with tables }
    else none

abbrev Reach (recovery : Option RecoveryRow) : St → Prop := Steps.Reach step (init recovery)

/-! ## Inserting slots -/

theorem apart_iff {a b : WorkerSlot} : a.apart b = true ↔
    a.id ≠ b.id ∧ ¬ (a.worker = b.worker ∧ a.slotNumber = b.slotNumber) ∧
      ¬ (a.physicalResourceId = b.physicalResourceId ∧ a.slotNumber = b.slotNumber) := by
  simp only [WorkerSlot.apart, Bool.and_eq_true, Bool.not_eq_true', decide_eq_true_eq, Bool.and_eq_false_iff,
    decide_eq_false_iff_not, not_and_or, and_assoc]

theorem apart_comm {a b : WorkerSlot} : a.apart b = true ↔ b.apart a = true := by
  rw [apart_iff, apart_iff, ne_comm, eq_comm (a := a.worker), eq_comm (a := a.slotNumber),
    eq_comm (a := a.physicalResourceId)]

instance : Std.Symm fun a b : WorkerSlot => a.apart b = true := ⟨fun _ _ => apart_comm.mp⟩

/-- Rows are inserted unless two of them violate a constraint. -/
theorem insertSlots_ok : ∀ {rows slots result : List WorkerSlot}, insertSlots slots rows = .ok result →
    result = slots ++ rows ∧ (∀ row ∈ rows, ∀ old ∈ slots, row.apart old = true) := by
  intro rows
  induction rows with
  | nil =>
    intro slots result h
    cases h
    exact ⟨(List.append_nil _).symm, fun _ hrow => absurd hrow List.not_mem_nil⟩
  | cons row rows ih =>
    intro slots result h
    unfold insertSlots at h
    split at h
    · rename_i hall
      obtain ⟨rfl, hrows⟩ := ih h
      refine ⟨by simp, fun other hother old hold => ?_⟩
      rcases List.mem_cons.mp hother with rfl | hother
      · exact List.all_eq_true.mp hall old hold
      · exact hrows other hother old (List.mem_append_left _ hold)
    · cases h

theorem insertSlots_error : ∀ {rows slots : List WorkerSlot} {e : SlotError},
    rows.Pairwise (fun a b => b.apart a = true) → insertSlots slots rows = .error e →
      e = .duplicateRow ∧ ∃ row ∈ rows, ∃ old ∈ slots, row.apart old = false := by
  intro rows
  induction rows with
  | nil =>
    intro slots e _ h
    cases h
  | cons row rows ih =>
    intro slots e hapart h
    obtain ⟨hrow, hapart⟩ := List.pairwise_cons.mp hapart
    unfold insertSlots at h
    split at h
    · obtain ⟨he, other, hother, old, hold, hclash⟩ := ih hapart h
      rcases List.mem_append.mp hold with hold | hold
      · exact ⟨he, other, List.mem_cons_of_mem row hother, old, hold, hclash⟩
      · obtain rfl := List.mem_singleton.mp hold
        rw [hrow other hother] at hclash
        cases hclash
    · rename_i hall
      cases h
      rw [List.all_eq_true] at hall
      push Not at hall
      obtain ⟨old, hold, hclash⟩ := hall
      exact ⟨rfl, row, List.mem_cons_self, old, hold, Bool.not_eq_true _ ▸ hclash⟩

namespace Tables

variable {t t' : Tables} {worker : Nat} {resource : String} {maxConcurrency : Nat}

theorem mem_missing {n : Nat} : n ∈ t.missing resource maxConcurrency ↔
    n < maxConcurrency ∧ ∀ s ∈ t.slots, s.physicalResourceId = resource → s.slotNumber ≠ n := by
  simp [missing]

theorem missing_nodup : (t.missing resource maxConcurrency).Nodup := List.nodup_range.filter _

theorem mem_newSlots {slot : WorkerSlot} (h : slot ∈ t.newSlots worker resource maxConcurrency) :
    slot.worker = worker ∧ slot.physicalResourceId = resource ∧ slot.slotNumber ∈ t.missing resource maxConcurrency ∧
      t.nextId ≤ slot.id ∧ slot.id < t.nextId + (t.newSlots worker resource maxConcurrency).length := by
  obtain ⟨i, hi, rfl⟩ := List.mem_mapIdx.mp h
  refine ⟨rfl, rfl, List.getElem_mem _, Nat.le_add_right _ _, ?_⟩
  show t.nextId + i < _
  rw [newSlots, List.length_mapIdx]
  omega

theorem exists_newSlots (worker : Nat) {n : Nat} (h : n ∈ t.missing resource maxConcurrency) :
    ∃ slot ∈ t.newSlots worker resource maxConcurrency, slot.slotNumber = n := by
  obtain ⟨i, hi, rfl⟩ := List.getElem_of_mem h
  exact ⟨⟨t.nextId + i, worker, resource, _, 0⟩, List.mem_mapIdx.mpr ⟨i, hi, rfl⟩, rfl⟩

/-- The new rows do not violate a constraint among themselves. -/
theorem newSlots_apart : (t.newSlots worker resource maxConcurrency).Pairwise fun a b => b.apart a = true := by
  refine List.pairwise_iff_getElem.mpr fun i j hi hj hij => ?_
  simp only [newSlots, List.length_mapIdx] at hi hj
  have hnumber := List.pairwise_iff_getElem.mp (missing_nodup (t := t)) i j hi hj hij
  simp only [newSlots, List.getElem_mapIdx]
  refine apart_iff.mpr ⟨?_, fun h => hnumber h.2.symm, fun h => hnumber h.2.symm⟩
  show t.nextId + j ≠ t.nextId + i
  omega

/-! ## The keys -/

/-- What the tables keep: the unique keys, the identities in order, and of each resource the
    slots from number `0` on. -/
structure Keys (t : Tables) : Prop where
  apart : t.slots.Pairwise fun a b => a.apart b = true
  slotIds : ∀ s ∈ t.slots, s.id < t.nextId
  leases : (t.leases.map WorkerLease.id).Nodup
  leaseIds : ∀ l ∈ t.leases, l.id < t.nextId
  attempts : (t.attempts.map TaskAttempt.id).Nodup
  contiguous : ∀ s ∈ t.slots, ∀ n < s.slotNumber, ∃ s' ∈ t.slots, s'.physicalResourceId = s.physicalResourceId ∧ s'.slotNumber = n
  placed : ∀ l ∈ t.leases, ∃ s ∈ t.slots, s.id = l.slot
  owned : ∀ l ∈ t.leases, ∃ a ∈ t.attempts, a.id = l.taskAttempt ∧ a.run = l.run

theorem Keys.eq_of_clash (h : t.Keys) {a b : WorkerSlot} (ha : a ∈ t.slots) (hb : b ∈ t.slots) (hclash : a.apart b = false) :
    a = b := by
  by_contra hne
  rw [h.apart.forall ha hb hne] at hclash
  cases hclash

theorem Keys.slot_eq (h : t.Keys) {a b : WorkerSlot} (ha : a ∈ t.slots) (hb : b ∈ t.slots) (hid : a.id = b.id) : a = b :=
  h.eq_of_clash ha hb (Bool.eq_false_iff.mpr fun hapart => (apart_iff.mp hapart).1 hid)

theorem Keys.slot_number_eq (h : t.Keys) {a b : WorkerSlot} (ha : a ∈ t.slots) (hb : b ∈ t.slots)
    (hresource : a.physicalResourceId = b.physicalResourceId) (hnumber : a.slotNumber = b.slotNumber) : a = b :=
  h.eq_of_clash ha hb (Bool.eq_false_iff.mpr fun hapart => (apart_iff.mp hapart).2.2 ⟨hresource, hnumber⟩)

theorem register_ok (h : t.register worker resource maxConcurrency = .ok t') :
    t' = { t with
      slots := t.slots ++ t.newSlots worker resource maxConcurrency
      nextId := t.nextId + (t.newSlots worker resource maxConcurrency).length } := by
  unfold register at h
  dsimp only at h
  split at h
  · cases h
  · rename_i slots hslots
    cases h
    rw [(insertSlots_ok hslots).1]

/-- The registration fails where the worker has a slot, on another resource, of a number that is
    missing here. -/
theorem Keys.register_error (h : t.Keys) {e : SlotError} : t.register worker resource maxConcurrency = .error e ↔
    e = .duplicateRow ∧ ∃ s ∈ t.slots, s.worker = worker ∧ s.slotNumber ∈ t.missing resource maxConcurrency := by
  unfold register
  dsimp only
  constructor
  · intro hr
    split at hr
    · rename_i e' he
      cases hr
      obtain ⟨rfl, row, hrow, old, hold, hclash⟩ := insertSlots_error newSlots_apart he
      obtain ⟨hworker, hresource, hmissing, hid, -⟩ := mem_newSlots hrow
      refine ⟨rfl, old, hold, ?_⟩
      by_contra hne
      refine absurd (apart_iff.mpr ⟨?_, ?_, ?_⟩) (Bool.eq_false_iff.mp hclash)
      · have := h.slotIds old hold
        omega
      · rintro ⟨hw, hn⟩
        exact hne ⟨hw.symm.trans hworker, hn ▸ hmissing⟩
      · rintro ⟨hr, hn⟩
        exact (mem_missing.mp hmissing).2 old hold (hr.symm.trans hresource) hn.symm
    · cases hr
  · rintro ⟨rfl, s, hs, hworker, hnumber⟩
    split
    · rename_i e' he
      rw [(insertSlots_error newSlots_apart he).1]
    · rename_i slots hslots
      obtain ⟨row, hrow, hsame⟩ := exists_newSlots worker hnumber
      have hapart := (insertSlots_ok hslots).2 row hrow s hs
      exact absurd ⟨(mem_newSlots hrow).1.trans hworker.symm, hsame⟩ (apart_iff.mp hapart).2.1

theorem Keys.register (h : t.Keys) (hr : t.register worker resource maxConcurrency = .ok t') : t'.Keys := by
  have hnew : ∀ slot ∈ t.newSlots worker resource maxConcurrency, ∀ old ∈ t.slots, old.apart slot = true := by
    intro slot hslot old hold
    unfold Tables.register at hr
    dsimp only at hr
    split at hr
    · cases hr
    · rename_i slots hslots
      exact apart_comm.mp ((insertSlots_ok hslots).2 slot hslot old hold)
  rw [register_ok hr]
  refine ⟨?_, ?_, h.leases, ?_, h.attempts, ?_, ?_, h.owned⟩
  · refine List.pairwise_append.mpr ⟨h.apart, newSlots_apart.imp fun hab => apart_comm.mp hab, fun old hold slot hslot => ?_⟩
    exact hnew slot hslot old hold
  · intro slot hslot
    show slot.id < t.nextId + _
    rcases List.mem_append.mp hslot with hslot | hslot
    · have := h.slotIds slot hslot
      omega
    · exact (mem_newSlots hslot).2.2.2.2
  · intro l hl
    have := h.leaseIds l hl
    show l.id < t.nextId + _
    omega
  · intro slot hslot n hn
    rcases List.mem_append.mp hslot with hslot | hslot
    · obtain ⟨other, hother, hsame⟩ := h.contiguous slot hslot n hn
      exact ⟨other, List.mem_append_left _ hother, hsame⟩
    · obtain ⟨-, hresource, hmissing, -⟩ := mem_newSlots hslot
      rw [hresource]
      by_cases hfound : ∃ other ∈ t.slots, other.physicalResourceId = resource ∧ other.slotNumber = n
      · obtain ⟨other, hother, hsame⟩ := hfound
        exact ⟨other, List.mem_append_left _ hother, hsame⟩
      · push Not at hfound
        have hlt := (mem_missing.mp hmissing).1
        obtain ⟨other, hother, rfl⟩ := exists_newSlots worker
          (mem_missing.mpr ⟨lt_trans hn hlt, fun other hother hr => hfound other hother hr⟩)
        exact ⟨other, List.mem_append_right _ hother, (mem_newSlots hother).2.1, rfl⟩
  · intro l hl
    obtain ⟨slot, hslot, hid⟩ := h.placed l hl
    exact ⟨slot, List.mem_append_left _ hslot, hid⟩

/-! ## Acquiring -/

variable {a : Acquisition} {f : WorkerSlotFence}

/-- The loop passes over a slot: it is not declared, or its lease is not the attempt's live one. -/
def passes (t : Tables) (a : Acquisition) (slot : WorkerSlot) : Prop :=
  a.spec.maxConcurrency ≤ slot.slotNumber ∨ ∃ lease, t.current slot.id = some lease ∧ a.owns lease = false

/-- Where the loop stops, and with what. -/
theorem scan_ok : ∀ {slots : List WorkerSlot}, t.scan a slots = .ok (t', f) →
    ∃ before slot after, slots = before ++ slot :: after ∧ (∀ s ∈ before, t.passes a s) ∧
      slot.slotNumber < a.spec.maxConcurrency ∧
      ((∃ lease, t.current slot.id = some lease ∧ a.owns lease = true ∧ t' = t ∧ f = contract lease slot) ∨
        (t.current slot.id = none ∧ t' = t.grant a slot ∧ f = contract (a.lease t.nextId slot) slot)) := by
  intro slots
  induction slots with
  | nil =>
    intro h
    cases h
  | cons slot rest ih =>
    intro h
    have hlater (hpass : t.passes a slot) (hrest : t.scan a rest = .ok (t', f)) :
        ∃ before slot' after, slot :: rest = before ++ slot' :: after ∧ (∀ s ∈ before, t.passes a s) ∧
          slot'.slotNumber < a.spec.maxConcurrency ∧
          ((∃ lease, t.current slot'.id = some lease ∧ a.owns lease = true ∧ t' = t ∧ f = contract lease slot') ∨
            (t.current slot'.id = none ∧ t' = t.grant a slot' ∧ f = contract (a.lease t.nextId slot') slot')) := by
      obtain ⟨before, slot', after, rfl, hbefore, hfound⟩ := ih hrest
      exact ⟨slot :: before, slot', after, rfl, List.forall_mem_cons.mpr ⟨hpass, hbefore⟩, hfound⟩
    unfold scan at h
    split at h
    · rename_i hover
      exact hlater (.inl hover) h
    · rename_i hunder
      split at h
      · rename_i lease hcurrent
        split at h
        · rename_i howns
          cases h
          exact ⟨[], slot, rest, rfl, fun _ hs => absurd hs List.not_mem_nil, by omega, .inl ⟨lease, hcurrent, howns, rfl, rfl⟩⟩
        · rename_i howns
          exact hlater (.inr ⟨lease, hcurrent, by simpa using howns⟩) h
      · rename_i hfree
        cases h
        exact ⟨[], slot, rest, rfl, fun _ hs => absurd hs List.not_mem_nil, by omega, .inr ⟨hfree, rfl, rfl⟩⟩

/-- Without a slot to stop at there is no capacity. -/
theorem scan_error : ∀ {slots : List WorkerSlot} {e : SlotError}, t.scan a slots = .error e →
    e = .capacityUnavailable ∧ ∀ s ∈ slots, t.passes a s := by
  intro slots
  induction slots with
  | nil =>
    intro e h
    cases h
    exact ⟨rfl, fun _ hs => absurd hs List.not_mem_nil⟩
  | cons slot rest ih =>
    intro e h
    have hlater (hpass : t.passes a slot) (hrest : t.scan a rest = .error e) :
        e = .capacityUnavailable ∧ ∀ s ∈ slot :: rest, t.passes a s :=
      ⟨(ih hrest).1, List.forall_mem_cons.mpr ⟨hpass, (ih hrest).2⟩⟩
    unfold scan at h
    split at h
    · rename_i hover
      exact hlater (.inl hover) h
    · split at h
      · rename_i lease hcurrent
        split at h
        · cases h
        · rename_i howns
          exact hlater (.inr ⟨lease, hcurrent, by simpa using howns⟩) h
      · cases h

/-- The checks that `acquire` makes before it looks at slots. -/
structure Admits (t : Tables) (a : Acquisition) (revision : ConfigurationRevision) : Prop where
  found : t.revision? a.revision = some revision
  spec : revision.spec = a.spec
  attempt : ∃ attempt ∈ t.attempts, attempt.id = a.attempt ∧ attempt.run = a.fence.run

/-- The resource of an admitted call. -/
def resourceOf (a : Acquisition) (revision : ConfigurationRevision) : String := resourceId a.spec revision.configuration

theorem acquire_ok (h : t.acquire a = .ok (t', f)) : ∃ revision registered, t.Admits a revision ∧
    t.register revision.configuration (resourceOf a revision) a.spec.maxConcurrency = .ok registered ∧
    registered.scan a (t.ordered revision.configuration (resourceOf a revision) a.spec.maxConcurrency) = .ok (t', f) := by
  unfold acquire at h
  split at h
  · rename_i revision attempt hrevision hattempt
    split at h
    · cases h
    · rename_i hrun
      split at h
      · cases h
      · rename_i hspec
        dsimp only at h
        split at h
        · cases h
        · rename_i registered hregister
          have hfound : attempt.id = a.attempt := by simpa using List.find?_some hattempt
          exact ⟨revision, registered, ⟨hrevision, not_not.mp hspec, attempt, List.mem_of_find?_eq_some hattempt, hfound,
            not_not.mp hrun⟩, hregister, h⟩
  · cases h

theorem acquire_duplicate (h : t.acquire a = .error .duplicateRow) : ∃ revision, t.Admits a revision := by
  unfold acquire at h
  split at h
  · rename_i revision attempt hrevision hattempt
    split at h
    · cases h
    · rename_i hrun
      split at h
      · cases h
      · rename_i hspec
        have hfound : attempt.id = a.attempt := by simpa using List.find?_some hattempt
        exact ⟨revision, hrevision, not_not.mp hspec, attempt, List.mem_of_find?_eq_some hattempt, hfound, not_not.mp hrun⟩
  · cases h

theorem Admits.acquire_eq {revision : ConfigurationRevision} (h : t.Admits a revision) (hkeys : t.Keys) :
    t.acquire a =
      match t.register revision.configuration (resourceOf a revision) a.spec.maxConcurrency with
      | .error e => .error e
      | .ok registered =>
        registered.scan a (t.ordered revision.configuration (resourceOf a revision) a.spec.maxConcurrency) := by
  obtain ⟨attempt, hattempt, hid, hrun⟩ := h.attempt
  have hfound : t.attempt? a.attempt = some attempt := by
    rw [← hid]
    exact Keyed.find?_of_mem hkeys.attempts hattempt
  unfold acquire
  rw [h.found, hfound]
  dsimp only
  rw [if_neg (not_not.mpr hrun), if_neg (not_not.mpr h.spec)]
  rfl

/-- Every slot that the loop goes through is a registered slot of the resource. -/
theorem mem_ordered {slot : WorkerSlot} (hr : t.register worker resource maxConcurrency = .ok t')
    (h : slot ∈ t.ordered worker resource maxConcurrency) : slot ∈ t'.slots ∧ slot.physicalResourceId = resource := by
  rw [register_ok hr]
  rcases List.mem_append.mp h with h | h
  · have hold := (List.perm_insertionSort _ _).mem_iff.mp h
    obtain ⟨hmem, hresource⟩ := List.mem_filter.mp hold
    exact ⟨List.mem_append_left _ hmem, by simpa using hresource⟩
  · exact ⟨List.mem_append_right _ h, (mem_newSlots h).2.1⟩

theorem Keys.grant (h : t.Keys) {slot : WorkerSlot} (hslot : slot ∈ t.slots)
    (howned : ∃ attempt ∈ t.attempts, attempt.id = a.attempt ∧ attempt.run = a.fence.run) : (t.grant a slot).Keys := by
  have hkept {P : WorkerSlot → Prop} (hP : ∀ s, P s → P { s with generation := s.generation + 1 })
      (hall : ∀ s ∈ t.slots, P s) : ∀ s ∈ (t.grant a slot).slots, P s := by
    intro s hs
    obtain ⟨old, hold, rfl⟩ := List.mem_map.mp hs
    split
    · exact hP old (hall old hold)
    · exact hall old hold
  have hwritten {P : WorkerSlot → Prop} (hP : ∀ s, P s → P { s with generation := s.generation + 1 })
      (hsome : ∃ s ∈ t.slots, P s) : ∃ s ∈ (t.grant a slot).slots, P s := by
    obtain ⟨s, hs, hp⟩ := hsome
    refine ⟨if s.id = slot.id then { s with generation := s.generation + 1 } else s, List.mem_map.mpr ⟨s, hs, rfl⟩, ?_⟩
    split
    · exact hP s hp
    · exact hp
  refine ⟨?_, ?_, ?_, ?_, h.attempts, ?_, ?_, ?_⟩
  · refine List.pairwise_map.mpr (h.apart.imp fun hab => ?_)
    split <;> split <;> exact hab
  · intro s hs
    have := hkept (P := fun s => s.id < t.nextId) (fun _ h => h) h.slotIds s hs
    exact Nat.lt_succ_of_lt this
  · exact Keyed.nodup_append h.leases fun l hl heq => by
      have := h.leaseIds l hl
      rw [heq] at this
      exact lt_irrefl _ this
  · intro l hl
    show l.id < t.nextId + 1
    rcases List.mem_append.mp hl with hl | hl
    · exact Nat.lt_succ_of_lt (h.leaseIds l hl)
    · obtain rfl := List.mem_singleton.mp hl
      exact Nat.lt_succ_self _
  · intro s hs n hn
    obtain ⟨old, hold, hsame⟩ : ∃ old ∈ t.slots, s.physicalResourceId = old.physicalResourceId ∧ s.slotNumber = old.slotNumber :=
      hkept (P := fun s => ∃ old ∈ t.slots, s.physicalResourceId = old.physicalResourceId ∧ s.slotNumber = old.slotNumber)
        (fun _ h => h) (fun s hs => ⟨s, hs, rfl, rfl⟩) s hs
    rw [hsame.1]
    exact hwritten (fun _ h => h) (h.contiguous old hold n (hsame.2 ▸ hn))
  · intro l hl
    rcases List.mem_append.mp hl with hl | hl
    · exact hwritten (fun _ h => h) (h.placed l hl)
    · obtain rfl := List.mem_singleton.mp hl
      exact hwritten (fun _ h => h) ⟨slot, hslot, rfl⟩
  · intro l hl
    rcases List.mem_append.mp hl with hl | hl
    · exact h.owned l hl
    · obtain rfl := List.mem_singleton.mp hl
      exact howned

theorem Keys.acquire (h : t.Keys) (hacquire : t.acquire a = .ok (t', f)) : t'.Keys := by
  obtain ⟨revision, registered, hadmits, hregister, hscan⟩ := acquire_ok hacquire
  have hkeys := h.register hregister
  obtain ⟨before, slot, after, hordered, -, -, ⟨-, -, -, rfl, -⟩ | ⟨-, rfl, -⟩⟩ := scan_ok hscan
  · exact hkeys
  · have hmem : slot ∈ t.ordered revision.configuration (resourceOf a revision) a.spec.maxConcurrency := by
      rw [hordered]
      simp
    refine hkeys.grant (mem_ordered hregister hmem).1 ?_
    rw [register_ok hregister]
    exact hadmits.attempt

/-- What is written to a lease leaves its identity, slot and attempt. -/
theorem Keys.writeLease (h : t.Keys) {g : WorkerLease → WorkerLease}
    (hg : ∀ l, (g l).id = l.id ∧ (g l).slot = l.slot ∧ (g l).taskAttempt = l.taskAttempt ∧ (g l).run = l.run) (id : Nat) :
    (t.writeLease id g).Keys := by
  have hkept {P : WorkerLease → Prop} (hP : ∀ l, P l → P (g l)) (hall : ∀ l ∈ t.leases, P l) :
      ∀ l ∈ (t.writeLease id g).leases, P l := by
    intro l hl
    obtain ⟨old, hold, rfl⟩ := List.mem_map.mp hl
    split
    · exact hP old (hall old hold)
    · exact hall old hold
  refine ⟨h.apart, h.slotIds, ?_, ?_, h.attempts, h.contiguous, ?_, ?_⟩
  · show ((Keyed.replace WorkerLease.id id g t.leases).map WorkerLease.id).Nodup
    rw [Keyed.map_key_replace fun l hl => (hg l).1.trans hl]
    exact h.leases
  · exact hkept (fun l hl => (hg l).1 ▸ hl) h.leaseIds
  · exact hkept (fun l hl => (hg l).2.1 ▸ hl) h.placed
  · exact hkept (fun l hl => (hg l).2.2.1 ▸ (hg l).2.2.2 ▸ hl) h.owned

theorem renew_ok {fence : RunFence} {now ttl : Nat} (h : t.renew fence now ttl f = .ok t') :
    t.require fence now f = true ∧ t' = t.writeLease f.lease fun row => { row with renewedAt := now, expiresAt := now + ttl } := by
  unfold renew at h
  split at h
  · cases h
    exact ⟨by assumption, rfl⟩
  · cases h

theorem release_ok {fence : RunFence} {now : Nat} {reconciledTerminal : Bool} (h : t.release fence now f reconciledTerminal = .ok t') :
    t' = t ∨ t' = t.writeLease f.lease fun row => { row with releasedAt := some now } := by
  unfold release at h
  split at h
  · cases h
  · split at h
    · cases h
    · split at h
      · cases h
      · split at h <;> cases h
        · exact .inl rfl
        · exact .inr rfl

end Tables

open Tables

theorem keys_step {s s' : St} {act : Act} (h : s.tables.Keys) (hs : step s act = some s') : s'.tables.Keys := by
  cases act with
  | ownership act =>
    obtain ⟨own, -, rfl⟩ := Option.map_eq_some_iff.mp hs
    exact h
  | publish revision =>
    simp only [step] at hs
    split at hs <;> cases hs
    exact ⟨h.apart, h.slotIds, h.leases, h.leaseIds, h.attempts, h.contiguous, h.placed, h.owned⟩
  | attempt attempt =>
    simp only [step] at hs
    split at hs <;> cases hs
    rename_i hnew
    refine ⟨h.apart, h.slotIds, h.leases, h.leaseIds, ?_, h.contiguous, h.placed, fun l hl => ?_⟩
    · refine Keyed.nodup_append h.attempts fun old hold heq => hnew ?_
      exact List.find?_isSome.mpr ⟨old, hold, by simpa using heq⟩
    · obtain ⟨owner, howner, hsame⟩ := h.owned l hl
      exact ⟨owner, List.mem_append_left _ howner, hsame⟩
  | acquire fence ttl revision attempt spec =>
    simp only [step] at hs
    split at hs
    · obtain ⟨⟨tables, f⟩, hacquire, rfl⟩ := Option.map_eq_some_iff.mp hs
      exact h.acquire (Steps.toOption_ok hacquire)
    · cases hs
  | renew fence ttl lease =>
    simp only [step] at hs
    split at hs
    · obtain ⟨tables, hrenew, rfl⟩ := Option.map_eq_some_iff.mp hs
      obtain ⟨-, rfl⟩ := renew_ok (Steps.toOption_ok hrenew)
      exact h.writeLease (g := fun row => { row with renewedAt := s.own.now, expiresAt := s.own.now + ttl })
        (fun _ => ⟨rfl, rfl, rfl, rfl⟩) lease.lease
    · cases hs
  | release fence lease reconciledTerminal =>
    simp only [step] at hs
    split at hs
    · obtain ⟨tables, hrelease, rfl⟩ := Option.map_eq_some_iff.mp hs
      rcases release_ok (Steps.toOption_ok hrelease) with rfl | rfl
      · exact h
      · exact h.writeLease (g := fun row => { row with releasedAt := some s.own.now }) (fun _ => ⟨rfl, rfl, rfl, rfl⟩) lease.lease
    · cases hs

theorem reach_keys {recovery : Option RecoveryRow} {s : St} (h : Reach recovery s) : s.tables.Keys := by
  refine h.invariant (fun s => s.tables.Keys) ?_ fun _ _ _ hk _ hs => keys_step hk hs
  refine ⟨List.Pairwise.nil, ?_, List.nodup_nil, ?_, List.nodup_nil, ?_, ?_, ?_⟩ <;> exact fun _ hmem => absurd hmem List.not_mem_nil

/-! ## Registration and the keys -/

/-- The worker has a slot, on another resource, of a declared number that the resource has no
    slot for. -/
def Displaced (t : Tables) (a : Acquisition) (revision : ConfigurationRevision) : Prop :=
  ∃ s ∈ t.slots, s.worker = revision.configuration ∧ s.slotNumber ∈ t.missing (resourceOf a revision) a.spec.maxConcurrency

instance (t : Tables) (a : Acquisition) (revision : ConfigurationRevision) : Decidable (Displaced t a revision) :=
  inferInstanceAs (Decidable (∃ s ∈ t.slots, _))

/-- The slots of every state have unique keys, and `acquire` raises a constraint error exactly if
    its worker was displaced: it left slots on another resource that this one has no slots for. -/
theorem registration_fails_iff {recovery : Option RecoveryRow} {s : St} (h : Reach recovery s) :
    (∀ x ∈ s.tables.slots, ∀ y ∈ s.tables.slots, x.slotNumber = y.slotNumber →
      x.worker = y.worker ∨ x.physicalResourceId = y.physicalResourceId → x = y) ∧
    ∀ a, s.tables.acquire a = .error .duplicateRow ↔
      ∃ revision, s.tables.Admits a revision ∧ Displaced s.tables a revision := by
  have hkeys := reach_keys h
  refine ⟨fun x hx y hy hnumber hsame => ?_, fun a => ⟨fun hacquire => ?_, fun ⟨revision, hadmits, hdisplaced⟩ => ?_⟩⟩
  · refine hkeys.eq_of_clash hx hy (Bool.eq_false_iff.mpr fun hapart => ?_)
    obtain ⟨-, hworker, hresource⟩ := apart_iff.mp hapart
    rcases hsame with hsame | hsame
    · exact hworker ⟨hsame, hnumber⟩
    · exact hresource ⟨hsame, hnumber⟩
  · obtain ⟨revision, hadmits⟩ := acquire_duplicate hacquire
    rw [hadmits.acquire_eq hkeys] at hacquire
    refine ⟨revision, hadmits, ?_⟩
    split at hacquire
    · rename_i e he
      exact (hkeys.register_error.mp he).2
    · cases (scan_error hacquire).1
  · rw [hadmits.acquire_eq hkeys, hkeys.register_error.mpr ⟨rfl, hdisplaced⟩]

/-- A run that owner `7` claims, and the fence it gets. -/
def claimed : List Act :=
  [.ownership (.register 7), .ownership (.create ⟨5, 9, .real, 0, 0, 0, .queued, .running, 0, {}⟩),
    .ownership (.claim 7 60 none none 0), .attempt ⟨31, 5⟩, .attempt ⟨32, 5⟩]

def claimedFence : RunFence := ⟨5, 7, 1, 1⟩

/-- Two slots of the worker itself, and one of a machine. -/
def ownSlots : WorkerSpec := { maxConcurrency := 2 }

def machine : WorkerSpec := { maxConcurrency := 1, physicalResourceId := some "machine" }

/-- Worker `1` works for itself; then worker `2`, and a second revision of worker `1`, on the machine. -/
def published : List Act := [.publish ⟨1, 1, ownSlots⟩, .publish ⟨2, 2, machine⟩, .publish ⟨3, 1, machine⟩]

/-- When the machine has its slot, worker `1` can move there. -/
theorem registration_fails_iff_shared : ∃ s, Reach (some ⟨1, true⟩) s ∧ ∃ a, a.revision = 3 ∧
    s.tables.acquire a ≠ .error .duplicateRow := by
  have hrun : (Steps.run step (init (some ⟨1, true⟩)) (claimed ++ published ++
      [.acquire claimedFence 60 1 31 ownSlots, .acquire claimedFence 60 2 32 machine])).any
        (fun s => decide (¬ ∃ slot ∈ s.tables.slots, slot.slotNumber ∈ s.tables.missing "machine" 1)) = true := by
    decide +kernel
  obtain ⟨s, hs, hshared⟩ := (Option.any_eq_true _ _).mp hrun
  have hreach := Steps.run_reach _ hs
  refine ⟨s, hreach, s.acquisition claimedFence 60 3 31 machine, rfl, fun hfails => ?_⟩
  obtain ⟨revision, hadmits, slot, hslot, -, hnumber⟩ := ((registration_fails_iff hreach).2 _).mp hfails
  exact of_decide_eq_true hshared ⟨slot, hslot, hnumber⟩

/-- Worker `1` moves to a machine that has no slots yet. -/
theorem moved_worker_fails : ∃ s, Reach (some ⟨1, true⟩) s ∧
    s.tables.acquire (s.acquisition claimedFence 60 3 32 machine) = .error .duplicateRow := by
  have hrun : (Steps.run step (init (some ⟨1, true⟩)) (claimed ++ published ++
      [.acquire claimedFence 60 1 31 ownSlots])).any
        (fun s => match s.tables.acquire (s.acquisition claimedFence 60 3 32 machine) with
          | .error e => e == .duplicateRow
          | .ok _ => false) = true := by
    decide +kernel
  obtain ⟨s, hs, hfails⟩ := (Option.any_eq_true _ _).mp hrun
  refine ⟨s, Steps.run_reach _ hs, ?_⟩
  split at hfails
  · rename_i e he
    rw [he, beq_iff_eq.mp hfails]
  · cases hfails

end Jarvis.Workers.Capacity
