/-
  Jarvis.Workers.Exclusivity — who holds the slots of a resource.

  A lease is granted only on a slot without an unreleased one, so a slot never has two
  (`Exclusive`). An attempt can have two: the loop of `acquire` takes the first free slot, also
  one before the slot that the attempt holds, and it does not count an expired lease as the
  attempt's own. `Recognises` says when neither happens, and `slot_exclusivity` that this is
  exactly when an attempt is left with one lease.
-/
import Jarvis.Workers.Capacity

namespace Jarvis.Workers.Capacity

open Jarvis.Runtime (RunFence RecoveryRow)
open Tables

namespace Tables

variable {t t' : Tables} {a : Acquisition} {f : WorkerSlotFence} {resource : String} {worker maxConcurrency n : Nat}

/-! ## Holders -/

/-- The lease is on the slot of the resource with the number. -/
def On (t : Tables) (l : WorkerLease) (resource : String) (n : Nat) : Prop :=
  ∃ s ∈ t.slots, s.id = l.slot ∧ s.physicalResourceId = resource ∧ s.slotNumber = n

/-- No slot has two unreleased leases. -/
def Exclusive (t : Tables) : Prop :=
  ∀ l ∈ t.leases, ∀ l' ∈ t.leases, l.slot = l'.slot → l.releasedAt = none → l'.releasedAt = none → l = l'

/-- An unreleased lease of the attempt on the resource. -/
structure Holds (t : Tables) (l : WorkerLease) (attempt : Nat) (resource : String) : Prop where
  mem : l ∈ t.leases
  unreleased : l.releasedAt = none
  own : l.taskAttempt = attempt
  on : ∃ n, t.On l resource n

/-- The attempt has at most one unreleased lease on the resource. -/
def Sole (t : Tables) (attempt : Nat) (resource : String) : Prop :=
  ∀ l l', t.Holds l attempt resource → t.Holds l' attempt resource → l = l'

/-- No unreleased lease is on the slot with the number, which may be not registered yet. -/
def Free (t : Tables) (resource : String) (n : Nat) : Prop :=
  ∀ l ∈ t.leases, l.releasedAt = none → ¬ t.On l resource n

/-- A live lease of the attempt is on the slot with the number. -/
def Own (t : Tables) (a : Acquisition) (resource : String) (n : Nat) : Prop :=
  ∃ l ∈ t.leases, l.releasedAt = none ∧ a.owns l = true ∧ t.On l resource n

/-- Where the attempt holds a lease on the resource, a live one comes before every declared slot
    that is free. -/
def Recognises (t : Tables) (a : Acquisition) (resource : String) : Prop :=
  (∃ l, t.Holds l a.attempt resource) →
    ∀ n < a.spec.maxConcurrency, t.Free resource n → ∃ m < n, t.Own a resource m

theorem current_eq_none {slot : Nat} : t.current slot = none ↔ ∀ l ∈ t.leases, l.slot = slot → l.releasedAt ≠ none := by
  simp only [current, List.find?_eq_none, Bool.and_eq_true, decide_eq_true_eq, Option.isNone_iff_eq_none, not_and]

theorem current_mem {slot : Nat} {l : WorkerLease} (h : t.current slot = some l) :
    l ∈ t.leases ∧ l.slot = slot ∧ l.releasedAt = none := by
  have hfound := List.find?_some h
  rw [Bool.and_eq_true, decide_eq_true_eq, Option.isNone_iff_eq_none] at hfound
  exact ⟨List.mem_of_find?_eq_some h, hfound⟩

theorem Exclusive.current_eq (he : t.Exclusive) {l : WorkerLease} (hl : l ∈ t.leases) (hr : l.releasedAt = none) :
    t.current l.slot = some l := by
  cases hc : t.current l.slot with
  | none => exact absurd hr (current_eq_none.mp hc l hl rfl)
  | some other =>
    obtain ⟨hmem, hslot, hother⟩ := current_mem hc
    rw [he other hmem l hl hslot hother hr]

/-! ## The order of the slots -/

theorem ordered_mem {slot : WorkerSlot} (hr : t.register worker resource maxConcurrency = .ok t') :
    slot ∈ t.ordered worker resource maxConcurrency ↔ slot ∈ t'.slots ∧ slot.physicalResourceId = resource := by
  refine ⟨mem_ordered hr, fun ⟨hmem, hresource⟩ => ?_⟩
  rw [register_ok hr] at hmem
  rcases List.mem_append.mp hmem with hmem | hmem
  · refine List.mem_append_left _ ((List.perm_insertionSort _ _).mem_iff.mpr ?_)
    exact List.mem_filter.mpr ⟨hmem, by simpa using hresource⟩
  · exact List.mem_append_right _ hmem

/-- The loop goes through the slots by their numbers. -/
theorem Keys.ordered_sorted (h : t.Keys) :
    (t.ordered worker resource maxConcurrency).Pairwise fun x y => x.slotNumber ≤ y.slotNumber := by
  refine List.pairwise_append.mpr ⟨?_, ?_, fun old hold new hnew => ?_⟩
  · have : Std.Total fun x y : WorkerSlot => x.slotNumber ≤ y.slotNumber := ⟨fun x y => Nat.le_total _ _⟩
    have : IsTrans WorkerSlot fun x y => x.slotNumber ≤ y.slotNumber := ⟨fun _ _ _ => Nat.le_trans⟩
    exact List.pairwise_insertionSort _ _
  · refine List.pairwise_iff_getElem.mpr fun i j hi hj hij => ?_
    simp only [newSlots, List.length_mapIdx] at hi hj
    simp only [newSlots, List.getElem_mapIdx]
    have hsorted : (t.missing resource maxConcurrency).Pairwise (· < ·) := List.pairwise_lt_range.filter _
    exact Nat.le_of_lt (List.pairwise_iff_getElem.mp hsorted i j hi hj hij)
  · obtain ⟨hmem, hresource⟩ := List.mem_filter.mp ((List.perm_insertionSort _ _).mem_iff.mp hold)
    obtain ⟨-, -, hmissing, -⟩ := mem_newSlots hnew
    by_contra hlt
    -- below a registered number no number is missing
    obtain ⟨other, hother, hsame, hnumber⟩ := h.contiguous old hmem new.slotNumber (by omega)
    exact (mem_missing.mp hmissing).2 other hother (hsame.trans (by simpa using hresource)) hnumber

/-! ## Where the loop stops -/

/-- What the loop did: it stopped at the first slot that is free or under a live lease of the
    attempt. -/
inductive Stopped (t : Tables) (a : Acquisition) (resource : String) (t' : Tables) (f : WorkerSlotFence) : Prop
  | returned (l : WorkerLease) (n : Nat) (hn : n < a.spec.maxConcurrency) (hl : l ∈ t.leases) (hr : l.releasedAt = none)
      (howns : a.owns l = true) (hon : t.On l resource n) (hbefore : ∀ m < n, ¬ t.Free resource m ∧ ¬ t.Own a resource m)
      (ht : t' = t) (hf : f.lease = l.id)
  | granted (slot : WorkerSlot) (hslot : slot ∈ t.slots) (hresource : slot.physicalResourceId = resource)
      (hn : slot.slotNumber < a.spec.maxConcurrency) (hfree : t.current slot.id = none)
      (hbefore : ∀ m < slot.slotNumber, ¬ t.Free resource m ∧ ¬ t.Own a resource m)
      (ht : t' = t.grant a slot) (hf : f.lease = t.nextId)

/-- A slot that the loop passes over is neither free nor the attempt's. -/
theorem Keys.not_free_of_passes (h : t.Keys) (he : t.Exclusive) {slot : WorkerSlot} (hslot : slot ∈ t.slots)
    (hresource : slot.physicalResourceId = resource) (hn : slot.slotNumber < a.spec.maxConcurrency) (hpass : t.passes a slot) :
    ¬ t.Free resource slot.slotNumber ∧ ¬ t.Own a resource slot.slotNumber := by
  obtain hover | ⟨lease, hcurrent, howns⟩ := hpass
  · omega
  · obtain ⟨hmem, hon, hr⟩ := current_mem hcurrent
    refine ⟨fun hfree => hfree lease hmem hr ⟨slot, hslot, hon.symm, hresource, rfl⟩, ?_⟩
    rintro ⟨l, hl, hlr, hlowns, other, hother, hid, hres, hnum⟩
    obtain rfl := h.slot_number_eq hother hslot (hres.trans hresource.symm) hnum
    have := he.current_eq hl hlr
    rw [← hid, hcurrent] at this
    cases this
    rw [howns] at hlowns
    cases hlowns

theorem Keys.stopped (h : t.Keys) (he : t.Exclusive) {slots : List WorkerSlot}
    (hmem : ∀ s, s ∈ slots ↔ s ∈ t.slots ∧ s.physicalResourceId = resource)
    (hsorted : slots.Pairwise fun x y => x.slotNumber ≤ y.slotNumber) (hscan : t.scan a slots = .ok (t', f)) :
    t.Stopped a resource t' f := by
  obtain ⟨before, slot, after, rfl, hpasses, hn, hstop⟩ := scan_ok hscan
  obtain ⟨hslot, hresource⟩ := (hmem slot).mp (by simp)
  -- every number below the slot's is one of a slot that was passed over
  have hbefore : ∀ m < slot.slotNumber, ¬ t.Free resource m ∧ ¬ t.Own a resource m := by
    intro m hm
    obtain ⟨other, hother, hsame, rfl⟩ := h.contiguous slot hslot m hm
    have hin := (hmem other).mpr ⟨hother, hsame.trans hresource⟩
    obtain ⟨-, htail, hcross⟩ := List.pairwise_append.mp hsorted
    rcases List.mem_append.mp hin with hin | hin
    · exact h.not_free_of_passes he hother (hsame.trans hresource) (by omega) (hpasses other hin)
    · rcases List.mem_cons.mp hin with rfl | hin
      · omega
      · have := (List.pairwise_cons.mp htail).1 other hin
        omega
  rcases hstop with ⟨lease, hcurrent, howns, rfl, rfl⟩ | ⟨hfree, rfl, rfl⟩
  · obtain ⟨hl, hon, hr⟩ := current_mem hcurrent
    exact .returned lease slot.slotNumber hn hl hr howns ⟨slot, hslot, hon.symm, hresource, rfl⟩ hbefore rfl rfl
  · exact .granted slot hslot hresource hn hfree hbefore rfl rfl

/-! ## Leases and registrations -/

/-- A registration moves no lease. -/
theorem Keys.on_register (h : t.Keys) (hr : t.register worker resource maxConcurrency = .ok t') {l : WorkerLease}
    (hl : l ∈ t.leases) {name : String} : t'.On l name n ↔ t.On l name n := by
  have hkeys := h.register hr
  obtain ⟨placed, hplaced, hid⟩ := h.placed l hl
  rw [register_ok hr] at hkeys ⊢
  have hmem : placed ∈ t.slots ++ t.newSlots worker resource maxConcurrency := List.mem_append_left _ hplaced
  constructor
  · rintro ⟨s, hs, hslot, hsame⟩
    obtain rfl := hkeys.slot_eq hs hmem (hslot.trans hid.symm)
    exact ⟨s, hplaced, hslot, hsame⟩
  · rintro ⟨s, hs, hsame⟩
    exact ⟨s, List.mem_append_left _ hs, hsame⟩

theorem register_leases (hr : t.register worker resource maxConcurrency = .ok t') : t'.leases = t.leases := by
  rw [register_ok hr]

theorem Keys.holds_register (h : t.Keys) (hr : t.register worker resource maxConcurrency = .ok t') {l : WorkerLease}
    {attempt : Nat} {name : String} : t'.Holds l attempt name ↔ t.Holds l attempt name := by
  constructor
  · rintro ⟨hmem, hu, ho, m, hon⟩
    rw [register_leases hr] at hmem
    exact ⟨hmem, hu, ho, m, (h.on_register hr hmem).mp hon⟩
  · rintro ⟨hmem, hu, ho, m, hon⟩
    exact ⟨register_leases hr ▸ hmem, hu, ho, m, (h.on_register hr hmem).mpr hon⟩

theorem Keys.sole_register (h : t.Keys) (hr : t.register worker resource maxConcurrency = .ok t') {attempt : Nat}
    {name : String} : t'.Sole attempt name ↔ t.Sole attempt name := by
  simp only [Sole, h.holds_register hr]

theorem Keys.free_register (h : t.Keys) (hr : t.register worker resource maxConcurrency = .ok t') {name : String} :
    t'.Free name n ↔ t.Free name n := by
  simp only [Free, register_leases hr]
  exact forall₃_congr fun l hl _ => not_congr (h.on_register hr hl)

theorem Keys.own_register (h : t.Keys) (hr : t.register worker resource maxConcurrency = .ok t') {name : String} :
    t'.Own a name n ↔ t.Own a name n := by
  simp only [Own, register_leases hr]
  refine exists_congr fun l => and_congr_right fun hl => ?_
  rw [h.on_register hr hl]

theorem Keys.recognises_register (h : t.Keys) (hr : t.register worker resource maxConcurrency = .ok t') {name : String} :
    t'.Recognises a name ↔ t.Recognises a name := by
  simp only [Recognises, h.holds_register hr, h.free_register hr, h.own_register hr]

/-! ## Leases and grants -/

theorem on_grant {slot : WorkerSlot} {l : WorkerLease} {name : String} : (t.grant a slot).On l name n ↔ t.On l name n := by
  constructor
  · rintro ⟨s, hs, hslot, hsame⟩
    obtain ⟨old, hold, rfl⟩ := List.mem_map.mp hs
    refine ⟨old, hold, ?_⟩
    split at hslot <;> exact ⟨hslot, by split at hsame <;> exact hsame⟩
  · rintro ⟨s, hs, hslot, hsame⟩
    refine ⟨_, List.mem_map.mpr ⟨s, hs, rfl⟩, ?_⟩
    split <;> exact ⟨hslot, hsame⟩

/-- The leases after a grant are those before it, and the new one. -/
theorem Keys.holds_grant (h : t.Keys) {slot : WorkerSlot} (hslot : slot ∈ t.slots) {l : WorkerLease} {attempt : Nat}
    {name : String} : (t.grant a slot).Holds l attempt name ↔
      t.Holds l attempt name ∨ l = a.lease t.nextId slot ∧ attempt = a.attempt ∧ name = slot.physicalResourceId := by
  constructor
  · rintro ⟨hmem, hu, ho, m, hon⟩
    rw [on_grant] at hon
    rcases List.mem_append.mp hmem with hmem | hmem
    · exact .inl ⟨hmem, hu, ho, m, hon⟩
    · obtain rfl := List.mem_singleton.mp hmem
      obtain ⟨s, hs, hid, hresource, -⟩ := hon
      obtain rfl := h.slot_eq hs hslot hid
      exact .inr ⟨rfl, ho.symm, hresource.symm⟩
  · rintro (⟨hmem, hu, ho, m, hon⟩ | ⟨rfl, rfl, rfl⟩)
    · exact ⟨List.mem_append_left _ hmem, hu, ho, m, on_grant.mpr hon⟩
    · exact ⟨List.mem_append_right _ (List.mem_singleton.mpr rfl), rfl, rfl, slot.slotNumber,
        on_grant.mpr ⟨slot, hslot, rfl, rfl, rfl⟩⟩

theorem Exclusive.grant (he : t.Exclusive) {slot : WorkerSlot} (hfree : t.current slot.id = none) : (t.grant a slot).Exclusive := by
  have hnone := current_eq_none.mp hfree
  intro l hl l' hl' hslot hr hr'
  rcases List.mem_append.mp hl with hl | hl <;> rcases List.mem_append.mp hl' with hl' | hl'
  · exact he l hl l' hl' hslot hr hr'
  · obtain rfl := List.mem_singleton.mp hl'
    exact absurd hr (hnone l hl hslot)
  · obtain rfl := List.mem_singleton.mp hl
    exact absurd hr' (hnone l' hl' hslot.symm)
  · rw [List.mem_singleton.mp hl, List.mem_singleton.mp hl']

theorem Keys.free_of_current (h : t.Keys) {slot : WorkerSlot} (hslot : slot ∈ t.slots) (hfree : t.current slot.id = none) :
    t.Free slot.physicalResourceId slot.slotNumber := by
  rintro l hl hr ⟨s, hs, hid, hresource, hnumber⟩
  obtain rfl := h.slot_number_eq hs hslot hresource hnumber
  exact current_eq_none.mp hfree l hl hid.symm hr

/-- A call leaves the attempt with one lease exactly if it had one and recognised it. -/
theorem Keys.sole_stopped (h : t.Keys) (hs : t.Stopped a resource t' f) :
    t'.Sole a.attempt resource ↔ t.Sole a.attempt resource ∧ t.Recognises a resource := by
  cases hs with
  | returned l k hk hl hr howns hon hbefore ht hf =>
    rw [ht]
    refine ⟨fun hsole => ⟨hsole, fun _ n hn hfree => ?_⟩, And.left⟩
    rcases lt_trichotomy n k with hlt | rfl | hlt
    · exact absurd hfree (hbefore n hlt).1
    · exact absurd hon (hfree l hl hr)
    · exact ⟨k, hlt, l, hl, hr, howns, hon⟩
  | granted slot hslot hresource hn hfree hbefore ht hf =>
    subst hresource
    have hnew : (t.grant a slot).Holds (a.lease t.nextId slot) a.attempt slot.physicalResourceId :=
      (h.holds_grant hslot).mpr (.inr ⟨rfl, rfl, rfl⟩)
    rw [ht]
    constructor
    · intro hsole
      have hnone : ∀ l, ¬ t.Holds l a.attempt slot.physicalResourceId := by
        intro l hl
        obtain rfl := hsole l _ ((h.holds_grant hslot).mpr (.inl hl)) hnew
        exact lt_irrefl _ (h.leaseIds _ hl.mem)
      exact ⟨fun l _ hl => absurd hl (hnone l), fun ⟨l, hl⟩ => absurd hl (hnone l)⟩
    · rintro ⟨-, hrecognises⟩
      have hnone : ∀ l, ¬ t.Holds l a.attempt slot.physicalResourceId := by
        intro l hl
        obtain ⟨m, hm, hown⟩ := hrecognises ⟨l, hl⟩ slot.slotNumber hn (h.free_of_current hslot hfree)
        exact (hbefore m hm).2 hown
      intro l l' hl hl'
      obtain hl | ⟨rfl, -⟩ := (h.holds_grant hslot).mp hl
      · exact absurd hl (hnone l)
      · obtain hl' | ⟨rfl, -⟩ := (h.holds_grant hslot).mp hl'
        · exact absurd hl' (hnone l')
        · rfl

theorem Keys.acquire_stopped (h : t.Keys) (he : t.Exclusive) (hacquire : t.acquire a = .ok (t', f)) :
    ∃ revision registered, t.Admits a revision ∧
      t.register revision.configuration (resourceOf a revision) a.spec.maxConcurrency = .ok registered ∧
      registered.Exclusive ∧ registered.Stopped a (resourceOf a revision) t' f := by
  obtain ⟨revision, registered, hadmits, hregister, hscan⟩ := acquire_ok hacquire
  have hexclusive : registered.Exclusive := by
    rw [register_ok hregister]
    exact he
  exact ⟨revision, registered, hadmits, hregister, hexclusive,
    (h.register hregister).stopped hexclusive (fun _ => ordered_mem hregister) h.ordered_sorted hscan⟩

/-! ## What is written to a lease -/

/-- A write that moves no lease and releases none again. -/
structure Releases (g : WorkerLease → WorkerLease) : Prop where
  slot : ∀ l, (g l).slot = l.slot
  own : ∀ l, (g l).taskAttempt = l.taskAttempt
  unreleased : ∀ l, (g l).releasedAt = none → l.releasedAt = none

theorem Releases.written {g : WorkerLease → WorkerLease} (hg : Releases g) {id : Nat} {l : WorkerLease}
    (h : l ∈ (t.writeLease id g).leases) : ∃ old ∈ t.leases, l = (if old.id = id then g old else old) ∧ l.slot = old.slot ∧
      l.taskAttempt = old.taskAttempt ∧ (l.releasedAt = none → old.releasedAt = none) := by
  obtain ⟨old, hold, rfl⟩ := List.mem_map.mp h
  refine ⟨old, hold, rfl, ?_⟩
  split
  · exact ⟨hg.slot old, hg.own old, hg.unreleased old⟩
  · exact ⟨rfl, rfl, fun h => h⟩

theorem Exclusive.writeLease (he : t.Exclusive) {g : WorkerLease → WorkerLease} (hg : Releases g) (id : Nat) :
    (t.writeLease id g).Exclusive := by
  intro l hl l' hl' hslot hr hr'
  obtain ⟨old, hold, heq, hs, -, hu⟩ := hg.written hl
  obtain ⟨old', hold', heq', hs', -, hu'⟩ := hg.written hl'
  rw [heq, heq', he old hold old' hold' (by rw [← hs, ← hs', hslot]) (hu hr) (hu' hr')]

theorem Sole.writeLease {attempt : Nat} (hsole : t.Sole attempt resource) {g : WorkerLease → WorkerLease} (hg : Releases g)
    (id : Nat) : (t.writeLease id g).Sole attempt resource := by
  have hkept {l : WorkerLease} (hl : (t.writeLease id g).Holds l attempt resource) :
      ∃ old, t.Holds old attempt resource ∧ l = if old.id = id then g old else old := by
    obtain ⟨old, hold, heq, hs, ho, hu⟩ := hg.written hl.mem
    obtain ⟨m, s, hmem, hid, hsame⟩ := hl.on
    exact ⟨old, ⟨hold, hu hl.unreleased, ho.symm.trans hl.own, m, s, hmem, hid.trans hs, hsame⟩, heq⟩
  intro l l' hl hl'
  obtain ⟨old, hold, rfl⟩ := hkept hl
  obtain ⟨old', hold', rfl⟩ := hkept hl'
  rw [hsole old old' hold hold']

theorem releases_renewed (now ttl : Nat) : Releases fun row => { row with renewedAt := now, expiresAt := now + ttl } :=
  ⟨fun _ => rfl, fun _ => rfl, fun _ h => h⟩

theorem releases_released (now : Nat) : Releases fun row => { row with releasedAt := some now } :=
  ⟨fun _ => rfl, fun _ => rfl, fun _ h => nomatch h⟩

end Tables

/-! ## Calling again -/

namespace Tables

variable {t t' : Tables} {a : Acquisition} {f : WorkerSlotFence} {revision : ConfigurationRevision} {l : WorkerLease} {n : Nat}

theorem owns_attempt (h : a.owns l = true) : l.taskAttempt = a.attempt := by
  simp only [Acquisition.owns, Bool.and_eq_true, decide_eq_true_eq] at h
  exact h.1.1

/-- An attempt that holds a lease and recognises it is given that lease. -/
theorem Keys.reacquire (h : t.Keys) (he : t.Exclusive) (hadmits : t.Admits a revision)
    (hsole : t.Sole a.attempt (resourceOf a revision)) (hrecognises : t.Recognises a (resourceOf a revision))
    (hl : t.Holds l a.attempt (resourceOf a revision)) (hacquire : t.acquire a = .ok (t', f)) :
    t'.leases = t.leases ∧ f.lease = l.id := by
  obtain ⟨revision', registered, hadmits', hregister, -, hstopped⟩ := h.acquire_stopped he hacquire
  obtain rfl : revision' = revision := Option.some.inj (hadmits'.found.symm.trans hadmits.found)
  cases hstopped with
  | returned l' m hm hl' hr howns hon _ ht hf =>
    have hmem : l' ∈ t.leases := register_leases hregister ▸ hl'
    have hholds : t.Holds l' a.attempt (resourceOf a revision') :=
      ⟨hmem, hr, owns_attempt howns, m, (h.on_register hregister hmem).mp hon⟩
    exact ⟨ht ▸ register_leases hregister, hf.trans (congrArg WorkerLease.id (hsole l' l hholds hl))⟩
  | granted slot hslot hresource hm hfree hbefore _ _ =>
    have hregistered := h.register hregister
    have hnone := hregistered.free_of_current hslot hfree
    rw [hresource] at hnone
    obtain ⟨m, hlt, hown⟩ := hrecognises ⟨l, hl⟩ slot.slotNumber hm ((h.free_register hregister).mp hnone)
    exact absurd ((h.own_register hregister).mpr hown) (hbefore m hlt).2

/-- An attempt with a live lease on a declared slot is not refused. -/
theorem Keys.not_refused (h : t.Keys) (he : t.Exclusive) (hadmits : t.Admits a revision) (hplaced : ¬ Displaced t a revision)
    (hn : n < a.spec.maxConcurrency) (hown : t.Own a (resourceOf a revision) n) : ∃ t' f, t.acquire a = .ok (t', f) := by
  cases hregister : t.register revision.configuration (resourceOf a revision) a.spec.maxConcurrency with
  | error e => exact absurd (h.register_error.mp hregister).2 hplaced
  | ok registered =>
    have hacquire := hadmits.acquire_eq h
    rw [hregister] at hacquire
    rw [hacquire]
    dsimp only
    cases hscan : registered.scan a (t.ordered revision.configuration (resourceOf a revision) a.spec.maxConcurrency) with
    | ok result => exact ⟨result.1, result.2, rfl⟩
    | error e =>
      have hregistered := h.register hregister
      have hexclusive : registered.Exclusive := by
        rw [register_ok hregister]
        exact he
      have hown' := (h.own_register hregister).mpr hown
      obtain ⟨l, hl, hr, howns, slot, hslot, hid, hresource, rfl⟩ := hown'
      have hpass := (scan_error hscan).2 slot ((ordered_mem hregister).mpr ⟨hslot, hresource⟩)
      refine absurd ?_ (hregistered.not_free_of_passes hexclusive hslot hresource hn hpass).2
      exact ⟨l, hl, hr, howns, slot, hslot, hid, hresource, rfl⟩

end Tables

/-! ## Runs -/

variable {recovery : Option RecoveryRow} {s s' : St} {act : Act}

theorem exclusive_step (hkeys : s.tables.Keys) (he : s.tables.Exclusive) (hs : step s act = some s') : s'.tables.Exclusive := by
  cases act with
  | ownership act =>
    obtain ⟨own, -, rfl⟩ := Option.map_eq_some_iff.mp hs
    exact he
  | publish revision =>
    simp only [step] at hs
    split at hs <;> cases hs
    exact he
  | attempt attempt =>
    simp only [step] at hs
    split at hs <;> cases hs
    exact he
  | acquire fence ttl revision attempt spec =>
    simp only [step] at hs
    split at hs
    · obtain ⟨⟨tables, f⟩, hacquire, rfl⟩ := Option.map_eq_some_iff.mp hs
      obtain ⟨_, registered, -, -, hexclusive, hstopped⟩ := hkeys.acquire_stopped he (Steps.toOption_ok hacquire)
      cases hstopped with
      | returned l n _ _ _ _ _ _ ht _ => exact ht ▸ hexclusive
      | granted slot _ _ _ hfree _ ht _ => exact ht ▸ hexclusive.grant hfree
    · cases hs
  | renew fence ttl lease =>
    simp only [step] at hs
    split at hs
    · obtain ⟨tables, hrenew, rfl⟩ := Option.map_eq_some_iff.mp hs
      obtain ⟨-, rfl⟩ := renew_ok (Steps.toOption_ok hrenew)
      exact he.writeLease (releases_renewed s.own.now ttl) lease.lease
    · cases hs
  | release fence lease reconciledTerminal =>
    simp only [step] at hs
    split at hs
    · obtain ⟨tables, hrelease, rfl⟩ := Option.map_eq_some_iff.mp hs
      rcases release_ok (Steps.toOption_ok hrelease) with rfl | rfl
      · exact he
      · exact he.writeLease (releases_released s.own.now) lease.lease
    · cases hs

theorem reach_exclusive (h : Reach recovery s) : s.tables.Exclusive := by
  refine Steps.ReachIf.invariant_with (fun s => s.tables.Keys) (fun s => s.tables.Exclusive) (fun _ hr => reach_keys hr) ?_
    (fun _ _ _ hk he _ hs => exclusive_step hk he hs) h
  exact fun _ hl => absurd hl List.not_mem_nil

/-- Every call of `acquire` recognises what its attempt holds. -/
def RecognisesOwn (s : St) : Act → Prop
  | .acquire fence ttl revision attempt spec => ∀ row, s.tables.Admits (s.acquisition fence ttl revision attempt spec) row →
      s.tables.Recognises (s.acquisition fence ttl revision attempt spec)
        (resourceOf (s.acquisition fence ttl revision attempt spec) row)
  | _ => True

theorem sole_step (hkeys : s.tables.Keys) (he : s.tables.Exclusive) (hsole : ∀ attempt resource, s.tables.Sole attempt resource)
    (hok : RecognisesOwn s act) (hs : step s act = some s') : ∀ attempt resource, s'.tables.Sole attempt resource := by
  intro attempt' resource'
  cases act with
  | ownership act =>
    obtain ⟨own, -, rfl⟩ := Option.map_eq_some_iff.mp hs
    exact hsole attempt' resource'
  | publish revision =>
    simp only [step] at hs
    split at hs <;> cases hs
    intro l l' hl hl'
    exact hsole attempt' resource' l l' ⟨hl.mem, hl.unreleased, hl.own, hl.on⟩ ⟨hl'.mem, hl'.unreleased, hl'.own, hl'.on⟩
  | attempt attempt =>
    simp only [step] at hs
    split at hs <;> cases hs
    intro l l' hl hl'
    exact hsole attempt' resource' l l' ⟨hl.mem, hl.unreleased, hl.own, hl.on⟩ ⟨hl'.mem, hl'.unreleased, hl'.own, hl'.on⟩
  | acquire fence ttl revision attempt spec =>
    simp only [step] at hs
    split at hs
    · obtain ⟨⟨tables, f⟩, hacquire, rfl⟩ := Option.map_eq_some_iff.mp hs
      obtain ⟨row, registered, hadmits, hregister, hexclusive, hstopped⟩ :=
        hkeys.acquire_stopped he (Steps.toOption_ok hacquire)
      have hregistered := hkeys.register hregister
      have hcaller := (hregistered.sole_stopped hstopped).mpr
        ⟨(hkeys.sole_register hregister).mpr (hsole _ _), (hkeys.recognises_register hregister).mpr (hok row hadmits)⟩
      have hothers : registered.Sole attempt' resource' := (hkeys.sole_register hregister).mpr (hsole _ _)
      cases hstopped with
      | returned l n _ _ _ _ _ _ ht _ => exact ht ▸ hothers
      | granted slot hslot hresource _ _ _ ht _ =>
        subst ht
        by_cases hsame : attempt' = attempt ∧ resource' = slot.physicalResourceId
        · obtain ⟨rfl, rfl⟩ := hsame
          rw [← hresource] at hcaller
          exact hcaller
        · intro l l' hl hl'
          obtain hl | ⟨-, rfl, rfl⟩ := (hregistered.holds_grant hslot).mp hl
          · obtain hl' | ⟨-, rfl, rfl⟩ := (hregistered.holds_grant hslot).mp hl'
            · exact hothers l l' hl hl'
            · exact absurd ⟨rfl, rfl⟩ hsame
          · exact absurd ⟨rfl, rfl⟩ hsame
    · cases hs
  | renew fence ttl lease =>
    simp only [step] at hs
    split at hs
    · obtain ⟨tables, hrenew, rfl⟩ := Option.map_eq_some_iff.mp hs
      obtain ⟨-, rfl⟩ := renew_ok (Steps.toOption_ok hrenew)
      exact (hsole attempt' resource').writeLease (releases_renewed s.own.now ttl) lease.lease
    · cases hs
  | release fence lease reconciledTerminal =>
    simp only [step] at hs
    split at hs
    · obtain ⟨tables, hrelease, rfl⟩ := Option.map_eq_some_iff.mp hs
      rcases release_ok (Steps.toOption_ok hrelease) with rfl | rfl
      · exact hsole attempt' resource'
      · exact (hsole attempt' resource').writeLease (releases_released s.own.now) lease.lease
    · cases hs

/-- A slot never has two unreleased leases. A call of `acquire` leaves its attempt with at most one
    lease on the resource exactly if the attempt had at most one and the call recognises it. In
    runs where every call does, no attempt has two, and an attempt that calls again is given the
    lease it has. -/
theorem slot_exclusivity (recovery : Option RecoveryRow) :
    (∀ s, Reach recovery s → s.tables.Exclusive) ∧
    (∀ s, Reach recovery s → ∀ a revision t' f, s.tables.Admits a revision → s.tables.acquire a = .ok (t', f) →
      (t'.Sole a.attempt (resourceOf a revision) ↔
        s.tables.Sole a.attempt (resourceOf a revision) ∧ s.tables.Recognises a (resourceOf a revision))) ∧
    ∀ s, Steps.ReachIf step RecognisesOwn (init recovery) s →
      (∀ attempt resource, s.tables.Sole attempt resource) ∧
      ∀ a revision l, s.tables.Admits a revision → s.tables.Recognises a (resourceOf a revision) →
        s.tables.Holds l a.attempt (resourceOf a revision) →
        (∀ t' f, s.tables.acquire a = .ok (t', f) → t'.leases = s.tables.leases ∧ f.lease = l.id) ∧
        ∀ n < a.spec.maxConcurrency, a.owns l = true → s.tables.On l (resourceOf a revision) n →
          ¬ Displaced s.tables a revision → ∃ t' f, s.tables.acquire a = .ok (t', f) := by
  refine ⟨fun s => reach_exclusive, fun s hs a revision t' f hadmits hacquire => ?_, fun s hs => ?_⟩
  · have hkeys := reach_keys hs
    obtain ⟨revision', registered, hadmits', hregister, -, hstopped⟩ := hkeys.acquire_stopped (reach_exclusive hs) hacquire
    obtain rfl : revision' = revision := Option.some.inj (hadmits'.found.symm.trans hadmits.found)
    rw [(hkeys.register hregister).sole_stopped hstopped, hkeys.sole_register hregister, hkeys.recognises_register hregister]
  · have hkeys := reach_keys hs.reach
    have hexclusive := reach_exclusive hs.reach
    have hsole : ∀ attempt resource, s.tables.Sole attempt resource := by
      refine Steps.ReachIf.invariant_with (fun s => s.tables.Keys ∧ s.tables.Exclusive)
        (fun s => ∀ attempt resource, s.tables.Sole attempt resource)
        (fun _ hr => ⟨reach_keys hr.reach, reach_exclusive hr.reach⟩) ?_
        (fun _ _ _ hi hp hok hs => sole_step hi.1 hi.2 hp hok hs) hs
      exact fun _ _ l _ hl => absurd hl.mem List.not_mem_nil
    refine ⟨hsole, fun a revision l hadmits hrecognises hl => ⟨fun t' f hacquire => ?_, fun n hn howns hon hplaced => ?_⟩⟩
    · exact hkeys.reacquire hexclusive hadmits (hsole _ _) hrecognises hl hacquire
    · exact hkeys.not_refused hexclusive hadmits hplaced hn ⟨l, hl.mem, hl.unreleased, howns, hon⟩

/-- Attempt `32` holds slot `1`; slot `0` is released; the attempt calls again. -/
theorem attempt_holds_two : ∃ s, Reach (some ⟨1, true⟩) s ∧ ¬ s.tables.Sole 32 "1" := by
  have hrun : (Steps.run step (init (some ⟨1, true⟩)) (claimed ++ published ++
      [.acquire claimedFence 60 1 31 ownSlots, .acquire claimedFence 60 1 32 ownSlots,
        .release claimedFence ⟨2, 1, 0, 1, 1, 60, "1"⟩ true, .acquire claimedFence 60 1 32 ownSlots])).any
        (fun s => decide (∃ l ∈ s.tables.leases, ∃ l' ∈ s.tables.leases, l ≠ l' ∧ (l.releasedAt = none ∧ l.taskAttempt = 32 ∧
          ∃ slot ∈ s.tables.slots, slot.id = l.slot ∧ slot.physicalResourceId = "1") ∧ l'.releasedAt = none ∧
          l'.taskAttempt = 32 ∧ ∃ slot ∈ s.tables.slots, slot.id = l'.slot ∧ slot.physicalResourceId = "1")) = true := by
    decide +kernel
  obtain ⟨s, hs, hheld⟩ := (Option.any_eq_true _ _).mp hrun
  obtain ⟨l, hl, l', hl', hne, ⟨hr, ho, slot, hslot, hid, hresource⟩, hr', ho', slot', hslot', hid', hresource'⟩ :=
    of_decide_eq_true hheld
  refine ⟨s, Steps.run_reach _ hs, fun hsole => hne (hsole l l' ?_ ?_)⟩
  · exact ⟨hl, hr, ho, slot.slotNumber, slot, hslot, hid, hresource, rfl⟩
  · exact ⟨hl', hr', ho', slot'.slotNumber, slot', hslot', hid', hresource', rfl⟩

end Jarvis.Workers.Capacity
