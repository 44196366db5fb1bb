/-
  Jarvis.Runtime.Fencing — what run leases guarantee in every reachable state of
  `Ownership.step`: one unreleased lease a run, strictly increasing generations, and no
  fenced transaction committed by a superseded executor or on an expired lease.

  The invariant relates the lease table, the open transaction and the log. Rows of one
  run stand in the table by increasing generation (`acquire` appends the next one), an
  unreleased row is its run's newest, and the transaction that is open works on the
  unreleased row of its run. A claim cannot run while the transaction is open, so at a
  commit the transaction's generation is still the newest that was granted.
-/
import Jarvis.Runtime.Ownership

namespace Jarvis.Runtime.Ownership

/-! ## Lease tables -/

theorem activeOf_iff {r : Nat} {l : RunLease} : activeOf r l = true ↔ l.run = r ∧ l.releasedAt = none := by
  simp [activeOf]

theorem unreleased_some {ls : List RunLease} {r : Nat} {l : RunLease} (h : unreleased ls r = some l) :
    l ∈ ls ∧ l.run = r ∧ l.releasedAt = none :=
  ⟨List.mem_of_find?_eq_some h, activeOf_iff.mp (List.find?_some h)⟩

theorem le_foldl_max : ∀ (l : List Nat) (m : Nat), m ≤ l.foldl max m ∧ ∀ x ∈ l, x ≤ l.foldl max m := by
  intro l
  induction l with
  | nil => intro m; simp
  | cons y l ih =>
    intro m
    obtain ⟨h1, h2⟩ := ih (max m y)
    simp only [List.foldl_cons]
    refine ⟨by omega, fun x hx => ?_⟩
    rcases List.mem_cons.mp hx with rfl | hx
    · omega
    · exact h2 x hx

theorem le_maxGeneration {ls : List RunLease} {l : RunLease} (h : l ∈ ls) :
    l.generation ≤ maxGeneration ls l.run :=
  (le_foldl_max _ 0).2 _ (List.mem_map.mpr ⟨l, List.mem_filter.mpr ⟨h, by simp [ofRun]⟩, rfl⟩)

/-- A run with no unreleased lease has nothing to release. -/
theorem releaseActive_of_none {ls : List RunLease} {r : Nat} (now : Nat) (h : unreleased ls r = none) :
    releaseActive ls r now = ls := by
  unfold releaseActive
  conv_rhs => rw [← List.map_id ls]
  refine List.map_congr_left fun l hl => ?_
  have := List.find?_eq_none.mp h l hl
  simp [this]

/-- A row after the release: the same key, and unreleased only if it was and is of another run. -/
theorem mem_releaseActive {ls : List RunLease} {r now : Nat} {l : RunLease} (h : l ∈ releaseActive ls r now) :
    ∃ l₀ ∈ ls, l₀.run = l.run ∧ l₀.generation = l.generation ∧
      (l.releasedAt = none → l = l₀ ∧ l.run ≠ r) := by
  obtain ⟨l₀, hl₀, rfl⟩ := List.mem_map.mp h
  refine ⟨l₀, hl₀, ?_⟩
  by_cases ha : activeOf r l₀ = true
  · simp [ha]
  · rw [if_neg ha]
    exact ⟨rfl, rfl, fun hn => ⟨rfl, fun hr => ha (activeOf_iff.mpr ⟨hr, hn⟩)⟩⟩

/-- `acquire` for a run without a live lease grants the next generation: the expired lease,
    if there is one, is released, and the new row is appended. -/
theorem acquire_fresh {now ttl owner r : Nat} {ls ls' : List RunLease} {l : RunLease}
    (hexp : ∀ a, unreleased ls r = some a → a.expiresAt ≤ now) (h : acquire now ttl owner r ls = some (l, ls')) :
    l = ⟨r, owner, maxGeneration ls r + 1, now, now + ttl, none⟩ ∧ ls' = releaseActive ls r now ++ [l] := by
  unfold acquire at h
  split at h
  · rename_i a ha
    have := hexp a ha
    rw [if_neg (by omega)] at h
    cases h
    exact ⟨rfl, rfl⟩
  · rename_i ha
    cases h
    exact ⟨rfl, by rw [releaseActive_of_none now ha]⟩

/-! ## What a claim does -/

theorem firstInOrder_mem : ∀ {rs : List RunRow} {r : RunRow}, firstInOrder rs = some r → r ∈ rs := by
  intro rs
  induction rs with
  | nil => intro r h; cases h
  | cons x xs ih =>
    intro r h
    simp only [firstInOrder] at h
    split at h
    · cases h; exact List.mem_cons_self
    · rename_i b hb
      split at h
      · cases h; exact List.mem_cons_of_mem _ (ih hb)
      · cases h; exact List.mem_cons_self

/-- The lease a claim for run `r` grants at time `now`. -/
def freshLease (s : Sys) (r owner ttl now : Nat) : RunLease :=
  ⟨r, owner, maxGeneration s.leases r + 1, now, now + ttl, none⟩

/-- Everything a successful claim did: the run it took was claimable and due, the fence
    carries the next lease generation and the recovery generation that was read, and
    dispatch was enabled. -/
theorem claim_spec {s t : Sys} {owner ttl late : Nat} {capacity : Option Nat} {mode : Option Mode} {f : RunFence}
    (h : claim s owner ttl capacity mode late = some (f, t)) :
    ∃ run ∈ s.runs, ∃ run' : RunRow, ∃ rec : RecoveryRow, s.recovery = some rec ∧
      rec.automaticDispatchEnabled = true ∧ run.status.claimable = true ∧ run'.id = run.id ∧
      f = ⟨run.id, owner, maxGeneration s.leases run.id + 1, rec.generation⟩ ∧
      t = { s with
        now := s.now + late
        runs := setRun s.runs run'
        leases := releaseActive s.leases run.id (s.now + late) ++
          [freshLease s run.id owner ttl (s.now + late)]
        log := s.log ++ [.granted f] } := by
  simp only [claim, Option.bind_eq_bind, Option.bind_none, Option.bind_eq_some_iff, Option.ite_none_left_eq_some,
    Option.some.injEq, Prod.mk.injEq] at h
  obtain ⟨inst, -, -, rec, hrec, hen, -, run, hrun, ⟨lease, leases⟩, hacq, h⟩ := h
  obtain ⟨hf, ht⟩ := h
  have hmem := List.mem_filter.mp (firstInOrder_mem hrun)
  simp only [Bool.and_eq_true, decide_eq_true_eq, Bool.not_eq_true'] at hmem
  have hlive : live s run.id = false := hmem.2.1.2
  have hexp : ∀ a, unreleased s.leases run.id = some a → a.expiresAt ≤ s.now + late := by
    intro a ha
    obtain ⟨hm, hr, hn⟩ := unreleased_some ha
    have := List.any_eq_false.mp hlive a hm
    simp only [Bool.and_eq_true, decide_eq_true_eq, not_and, Nat.not_lt] at this
    have := this (activeOf_iff.mpr ⟨hr, hn⟩)
    omega
  obtain ⟨hl, hls⟩ := acquire_fresh hexp hacq
  subst hl hls
  refine ⟨run, hmem.1, { run with
    status := .claiming
    version := run.version + 1
    runtime := { run.runtime with
      recovering := decide (0 < maxGeneration s.leases run.id) && run.status != .queued } },
    rec, hrec, by simpa using hen, hmem.2.1.1.1.1, rfl, hf.symm, ?_⟩
  rw [← ht, ← hf]
  rfl

/-! ## What the recovery actions do -/

theorem recoveryControl_spec {s t : Sys} {a : RecoveryAction} {expected ambiguous : Nat}
    (h : recoveryControl s a expected ambiguous = some t) : ∃ row, s.recovery = some row ∧
      (a = .beginRestore ∧ t = { s with
          recovery := some ⟨row.generation + 1, false⟩
          log := s.log ++ [.bumped (row.generation + 1)] } ∨
        a = .resumeDispatch ∧ t = { s with recovery := some { row with automaticDispatchEnabled := true } }) := by
  simp only [recoveryControl, Option.bind_eq_bind, Option.bind_eq_some_iff] at h
  obtain ⟨row, hrow, h⟩ := h
  refine ⟨row, hrow, ?_⟩
  split at h
  · simp at h
  cases a with
  | beginRestore => exact .inl ⟨rfl, by simpa using h.symm⟩
  | resumeDispatch =>
    simp only at h
    split at h
    · cases h
    · exact .inr ⟨rfl, by simpa using h.symm⟩

theorem emergencyStop_spec {s t : Sys} {user expected : Nat} (h : emergencyStop s user expected = some t) :
    ∃ row, s.recovery = some row ∧ t = { s with
      runs := s.runs.map fun r =>
        if r.user == user && r.status.active then
          { r with desiredState := .cancelled, status := .cancelRequested, version := r.version + 1 }
        else r
      recovery := some ⟨row.generation + 1, false⟩
      log := s.log ++ [.bumped (row.generation + 1)] } := by
  simp only [emergencyStop, Option.bind_eq_bind, Option.bind_eq_some_iff] at h
  obtain ⟨row, hrow, h⟩ := h
  refine ⟨row, hrow, ?_⟩
  split at h
  · simp at h
  split at h
  · simp at h
  simpa using h.symm

/-! ## The invariant -/

/-- What two events of the log owe to their order: a run's later grant has a higher
    generation, and a commit after a grant carries at least that generation. -/
def Ordered : Event → Event → Prop
  | .granted f, .granted f' => f.run = f'.run → f.generation < f'.generation
  | .granted f, .committed f' _ _ => f.run = f'.run → f.generation ≤ f'.generation
  | _, _ => True

structure Inv (s : Sys) : Prop where
  increasing : s.leases.Pairwise fun a b => a.run = b.run → a.generation < b.generation
  newest : ∀ a ∈ s.leases, a.releasedAt = none → ∀ b ∈ s.leases, b.run = a.run → b.generation ≤ a.generation
  granted : ∀ f, .granted f ∈ s.log → ∃ l ∈ s.leases, l.run = f.run ∧ l.generation = f.generation
  held : ∀ t, s.txn = some t → t.lease.run = t.fence.run ∧ t.lease.generation = t.fence.generation ∧
    ∃ l ∈ s.leases, l.run = t.fence.run ∧ l.generation = t.fence.generation ∧ l.releasedAt = none
  ordered : s.log.Pairwise Ordered
  unexpired : ∀ f x now, .committed f x now ∈ s.log → now < x

theorem init_inv (recovery : Option RecoveryRow) : Inv (init recovery) := by
  refine ⟨?_, ?_, ?_, ?_, ?_, ?_⟩ <;> simp [init]

/-- Rows of one key are one row. -/
theorem Inv.same_key {s : Sys} (hi : Inv s) {a b : RunLease} (ha : a ∈ s.leases) (hb : b ∈ s.leases)
    (hr : a.run = b.run) (hg : a.generation = b.generation) : a = b := by
  have h : a.run = b.run → a.generation = b.generation → a = b :=
    List.Pairwise.forall_of_forall_of_flip
      (R := fun a b : RunLease => a.run = b.run → a.generation = b.generation → a = b) (fun _ _ _ _ => rfl)
      (hi.increasing.imp fun {a b} h h1 h2 => by have := h h1; omega)
      (hi.increasing.imp fun {a b} h h1 h2 => by have := h h1.symm; omega) ha hb
  exact h hr hg

/-- A run has one unreleased lease at most. -/
theorem Inv.one_unreleased {s : Sys} (hi : Inv s) {a b : RunLease} (ha : a ∈ s.leases) (hb : b ∈ s.leases)
    (hr : a.run = b.run) (hna : a.releasedAt = none) (hnb : b.releasedAt = none) : a = b := by
  have h1 := hi.newest a ha hna b hb hr.symm
  have h2 := hi.newest b hb hnb a ha hr
  exact hi.same_key ha hb hr (by omega)

/-! ## Each move keeps it -/

/-- A move that keeps the leases, adds to the log at most an event that is neither a grant
    nor a commit, and keeps or closes the open transaction. -/
theorem Inv.frame {s t : Sys} (hi : Inv s) (hl : t.leases = s.leases)
    (hx : ∀ x, t.txn = some x → ∃ y, s.txn = some y ∧ x.fence = y.fence ∧ x.lease.run = y.lease.run ∧
      x.lease.generation = y.lease.generation)
    (hlog : t.log = s.log ∨ ∃ e, t.log = s.log ++ [e] ∧ (∀ f, e ≠ .granted f) ∧ ∀ f x n, e ≠ .committed f x n) :
    Inv t := by
  have hmem : ∀ e ∈ t.log, ((∃ f, e = .granted f) ∨ ∃ f x n, e = .committed f x n) → e ∈ s.log := by
    intro e he hk
    rcases hlog with h | ⟨e', h, h1, h2⟩
    · exact h ▸ he
    · rw [h] at he
      rcases List.mem_append.mp he with he | he
      · exact he
      · rcases hk with ⟨f, rfl⟩ | ⟨f, x, n, rfl⟩
        · exact absurd (List.mem_singleton.mp he).symm (h1 f)
        · exact absurd (List.mem_singleton.mp he).symm (h2 f x n)
  refine ⟨hl ▸ hi.increasing, hl ▸ hi.newest, ?_, ?_, ?_, ?_⟩
  · intro f hf
    rw [hl]
    exact hi.granted f (hmem _ hf (.inl ⟨f, rfl⟩))
  · intro x hxt
    obtain ⟨y, hy, h1, h2, h3⟩ := hx x hxt
    rw [hl, h1, h2, h3]
    exact hi.held y hy
  · rcases hlog with h | ⟨e', h, h1, h2⟩
    · exact h ▸ hi.ordered
    · rw [h]
      refine List.pairwise_append.mpr ⟨hi.ordered, List.pairwise_singleton _ _, ?_⟩
      intro a _ b hb
      rw [List.mem_singleton.mp hb]
      cases e' with
      | granted f => exact absurd rfl (h1 f)
      | committed f x n => exact absurd rfl (h2 f x n)
      | checkpointed f x n => cases a <;> trivial
      | bumped g => cases a <;> trivial
  · intro f x n hf
    exact hi.unexpired f x n (hmem _ hf (.inr ⟨f, x, n, rfl⟩))

/-- A claim: the new row is its run's only unreleased one and the newest. -/
theorem Inv.grant {s t : Sys} (hi : Inv s) {owner ttl late : Nat} {capacity : Option Nat} {mode : Option Mode}
    {f : RunFence} (hx : s.txn = none) (h : claim s owner ttl capacity mode late = some (f, t)) : Inv t := by
  obtain ⟨run, -, run', rec, -, -, -, -, rfl, rfl⟩ := claim_spec h
  have hle : ∀ l ∈ s.leases, l.run = run.id → l.generation < maxGeneration s.leases run.id + 1 := by
    intro l hl hr
    have := le_maxGeneration hl
    rw [hr] at this
    omega
  have hold : ∀ l ∈ releaseActive s.leases run.id (s.now + late), l.run = run.id →
      l.generation < maxGeneration s.leases run.id + 1 := by
    intro l hl hr
    obtain ⟨l₀, hl₀, h1, h2, -⟩ := mem_releaseActive hl
    have := hle l₀ hl₀ (h1.trans hr)
    omega
  refine ⟨?_, ?_, ?_, ?_, ?_, ?_⟩
  · refine List.pairwise_append.mpr ⟨?_, List.pairwise_singleton _ _, ?_⟩
    · refine List.pairwise_map.mpr (hi.increasing.imp fun {a b} hab => ?_)
      split <;> split <;> exact hab
    · intro a ha b hb
      rw [List.mem_singleton.mp hb]
      exact hold a ha
  · intro a ha hn b hb hr
    rcases List.mem_append.mp ha with ha | ha
    · obtain ⟨a₀, ha₀, -, -, h⟩ := mem_releaseActive ha
      obtain ⟨rfl, hne⟩ := h hn
      rcases List.mem_append.mp hb with hb | hb
      · obtain ⟨b₀, hb₀, h1, h2, -⟩ := mem_releaseActive hb
        rw [← h2]
        exact hi.newest a ha₀ hn b₀ hb₀ (h1.trans hr)
      · rw [List.mem_singleton.mp hb] at hr
        exact absurd hr.symm hne
    · rw [List.mem_singleton.mp ha] at hr ⊢
      rcases List.mem_append.mp hb with hb | hb
      · exact Nat.le_of_lt (hold b hb hr)
      · obtain rfl := List.mem_singleton.mp hb
        exact Nat.le_refl _
  · intro f hf
    rcases List.mem_append.mp hf with hf | hf
    · obtain ⟨l, hl, h1, h2⟩ := hi.granted f hf
      refine ⟨_, List.mem_append_left _ (List.mem_map_of_mem hl), ?_⟩
      split <;> exact ⟨h1, h2⟩
    · cases List.mem_singleton.mp hf
      exact ⟨_, List.mem_append_right _ (List.mem_singleton.mpr rfl), rfl, rfl⟩
  · intro x hxt
    rw [hx] at hxt
    cases hxt
  · refine List.pairwise_append.mpr ⟨hi.ordered, List.pairwise_singleton _ _, ?_⟩
    intro a ha b hb
    rw [List.mem_singleton.mp hb]
    cases a with
    | granted f =>
      intro hr
      obtain ⟨l, hl, h1, h2⟩ := hi.granted f ha
      have := hle l hl (h1.trans hr)
      show f.generation < maxGeneration s.leases run.id + 1
      omega
    | committed | checkpointed | bumped => trivial
  · intro f x n hf
    rcases List.mem_append.mp hf with hf | hf
    · exact hi.unexpired f x n hf
    · cases List.mem_singleton.mp hf

/-- The row a flush writes stands where the transaction's row stood. -/
theorem mem_flush {s : Sys} {x : Txn} (hx : x.lease.run = x.fence.run ∧ x.lease.generation = x.fence.generation)
    {l : RunLease} (h : l ∈ (flush s x).leases) :
    ∃ l₀ ∈ s.leases, l₀.run = l.run ∧ l₀.generation = l.generation ∧
      (l = l₀ ∨ l.run = x.fence.run ∧ l.generation = x.fence.generation) := by
  obtain ⟨l₀, hl₀, rfl⟩ := List.mem_map.mp h
  refine ⟨l₀, hl₀, ?_⟩
  split
  · rename_i hk
    exact ⟨hk.1.trans hx.1.symm, hk.2.trans hx.2.symm, .inr hx⟩
  · exact ⟨rfl, rfl, .inl rfl⟩

/-- A commit: the transaction still holds its run's newest lease. -/
theorem Inv.flush {s : Sys} (hi : Inv s) {x : Txn} (hx : s.txn = some x) (hexp : s.now < x.lease.expiresAt) :
    Inv (flush s x) := by
  obtain ⟨hr, hg, l, hl, hlr, hlg, hln⟩ := hi.held x hx
  have hkey : ∀ l : RunLease, l.run = (if l.run = x.fence.run ∧ l.generation = x.fence.generation then x.lease else
      l).run ∧ l.generation = (if l.run = x.fence.run ∧ l.generation = x.fence.generation then x.lease else
      l).generation := by
    intro l
    split
    · rename_i hk
      exact ⟨hk.1.trans hr.symm, hk.2.trans hg.symm⟩
    · exact ⟨rfl, rfl⟩
  refine ⟨?_, ?_, ?_, ?_, ?_, ?_⟩
  · refine List.pairwise_map.mpr (hi.increasing.imp fun {a b} hab => ?_)
    rw [← (hkey a).1, ← (hkey b).1, ← (hkey a).2, ← (hkey b).2]
    exact hab
  · intro a ha hn b hb hrun
    obtain ⟨a₀, ha₀, h1, h2, h3⟩ := mem_flush ⟨hr, hg⟩ ha
    obtain ⟨b₀, hb₀, k1, k2, -⟩ := mem_flush ⟨hr, hg⟩ hb
    rw [← k2]
    rcases h3 with rfl | ⟨h3, h4⟩
    · exact hi.newest a ha₀ hn b₀ hb₀ (k1.trans hrun)
    · rw [h4, ← hlg]
      exact hi.newest l hl hln b₀ hb₀ (by rw [k1, hrun, h3, hlr])
  · intro f hf
    rcases List.mem_append.mp hf with hf | hf
    · obtain ⟨l, hl, h1, h2⟩ := hi.granted f hf
      exact ⟨_, List.mem_map_of_mem hl, (hkey l).1.symm.trans h1, (hkey l).2.symm.trans h2⟩
    · cases List.mem_singleton.mp hf
  · intro y hy
    cases hy
  · refine List.pairwise_append.mpr ⟨hi.ordered, List.pairwise_singleton _ _, ?_⟩
    intro a ha b hb
    rw [List.mem_singleton.mp hb]
    cases a with
    | granted f =>
      intro hrun
      obtain ⟨l', hl', h1, h2⟩ := hi.granted f ha
      have := hi.newest l hl hln l' hl' (by rw [h1, hrun, hlr])
      show f.generation ≤ x.fence.generation
      omega
    | committed | checkpointed | bumped => trivial
  · intro f y n hf
    rcases List.mem_append.mp hf with hf | hf
    · exact hi.unexpired f y n hf
    · cases List.mem_singleton.mp hf
      exact hexp

/-- The lease a fence was checked against is the run's unreleased one, and the fence's own. -/
theorem leaseValid_spec {s : Sys} {f : RunFence} (h : leaseValid s f = true) :
    ∃ run l, runOf s f.run = some run ∧ unreleased s.leases f.run = some l ∧ run.status.terminal = false ∧
      l.owner = f.owner ∧ l.generation = f.generation ∧ s.now < l.expiresAt := by
  unfold leaseValid at h
  split at h
  · rename_i run l hrun hl
    simp only [Bool.and_eq_true, Bool.not_eq_true', beq_iff_eq, decide_eq_true_eq] at h
    exact ⟨run, l, hrun, hl, h.1.1.1, h.1.1.2, h.1.2, h.2⟩
  · cases h

theorem Inv.openFenced {s : Sys} (hi : Inv s) {f : RunFence} {run : RunRow} {l : RunLease}
    (hf : fencedAccepts s f = true) (hl : unreleased s.leases f.run = some l) :
    Inv { s with txn := some ⟨f, run, l⟩ } := by
  simp only [fencedAccepts, Bool.and_eq_true] at hf
  obtain ⟨_, l', -, hl', -, -, hg, -⟩ := leaseValid_spec hf.1
  cases hl.symm.trans hl'
  obtain ⟨hm, hr, hn⟩ := unreleased_some hl
  refine ⟨hi.increasing, hi.newest, hi.granted, ?_, hi.ordered, hi.unexpired⟩
  intro x hx
  cases hx
  exact ⟨hr, hg, l, hm, hr, hg, hn⟩

theorem Txn.work_key (now : Nat) (x : Txn) (w : Work) : (x.work now w).fence = x.fence ∧
    (x.work now w).lease.run = x.lease.run ∧ (x.work now w).lease.generation = x.lease.generation := by
  cases w <;> exact ⟨rfl, rfl, rfl⟩

theorem step_inv {s t : Sys} (a : Act) (hi : Inv s) (h : step s a = some t) : Inv t := by
  have keep : ∀ {u : Sys}, u.txn = s.txn → ∀ x, u.txn = some x → ∃ y, s.txn = some y ∧ x.fence = y.fence ∧
      x.lease.run = y.lease.run ∧ x.lease.generation = y.lease.generation :=
    fun hu x hx => ⟨x, hu ▸ hx, rfl, rfl, rfl⟩
  have shut : ∀ {u : Sys}, u.txn = none → ∀ x, u.txn = some x → ∃ y, s.txn = some y ∧ x.fence = y.fence ∧
      x.lease.run = y.lease.run ∧ x.lease.generation = y.lease.generation :=
    fun hu x hx => by rw [hu] at hx; cases hx
  cases a with
  | tick d | drain owner =>
    cases h
    exact hi.frame rfl (keep rfl) (.inl rfl)
  | register owner =>
    simp only [step] at h
    split at h
    · cases h
    · cases h
      exact hi.frame rfl (keep rfl) (.inl rfl)
  | create r =>
    simp only [step] at h
    split at h
    · cases h
      exact hi.frame rfl (keep rfl) (.inl rfl)
    · cases h
  | claim owner ttl capacity mode late =>
    simp only [step] at h
    split at h
    · rename_i hx
      obtain ⟨⟨f, u⟩, hc, rfl⟩ := Option.map_eq_some_iff.mp h
      exact hi.grant (Option.isNone_iff_eq_none.mp hx.1) hc
    · cases h
  | openFenced f =>
    simp only [step] at h
    split at h
    · rename_i hg
      split at h
      · rename_i run l hrun hl
        cases h
        exact hi.openFenced hg.2.2.2 hl
      · cases h
    · cases h
  | work w =>
    obtain ⟨x, hx, rfl⟩ := Option.map_eq_some_iff.mp h
    refine hi.frame rfl (fun y hy => ?_) (.inl rfl)
    cases hy
    exact ⟨x, hx, Txn.work_key s.now x w⟩
  | commit =>
    obtain ⟨x, hx, rfl⟩ := Option.map_eq_some_iff.mp h
    split
    · exact hi.frame rfl (shut rfl) (.inl rfl)
    · exact hi.flush hx (by omega)
  | rollback =>
    obtain ⟨x, hx, rfl⟩ := Option.map_eq_some_iff.mp h
    exact hi.frame rfl (shut rfl) (.inl rfl)
  | control r f =>
    simp only [step] at h
    split at h
    · cases h
      exact hi.frame rfl (keep rfl) (.inl rfl)
    · cases h
  | openCursor f =>
    simp only [step] at h
    split at h
    · cases h
      exact hi.frame rfl (keep rfl) (.inl rfl)
    · cases h
  | commitCursor f =>
    simp only [step] at h
    split at h
    · split at h
      · cases h
        exact hi.frame rfl (keep rfl) (.inr ⟨_, rfl, by simp, by simp⟩)
      · cases h
        exact hi.frame rfl (keep rfl) (.inl rfl)
    · cases h
  | rollbackCursor f =>
    simp only [step] at h
    split at h
    · cases h
      exact hi.frame rfl (keep rfl) (.inl rfl)
    · cases h
  | recovery action expected ambiguous =>
    obtain ⟨row, -, ⟨-, rfl⟩ | ⟨-, rfl⟩⟩ := recoveryControl_spec h
    · exact hi.frame rfl (keep rfl) (.inr ⟨_, rfl, by simp, by simp⟩)
    · exact hi.frame rfl (keep rfl) (.inl rfl)
  | emergencyStop user expected =>
    obtain ⟨row, -, rfl⟩ := emergencyStop_spec h
    exact hi.frame rfl (keep rfl) (.inr ⟨_, rfl, by simp, by simp⟩)

theorem reach_inv {recovery : Option RecoveryRow} {s : Sys} (h : Reach recovery s) : Inv s :=
  h.invariant Inv (init_inv recovery) fun _ a _ hi _ hs => step_inv a hi hs

/-! ## The guarantees -/

theorem Inv.unreleased_length {s : Sys} (hi : Inv s) (r : Nat) : (s.leases.filter (activeOf r)).length ≤ 1 := by
  have hd : (s.leases.filter (activeOf r)).Pairwise fun _ _ => False := by
    refine (hi.increasing.filter _).imp_of_mem fun {a b} ha hb h => ?_
    obtain ⟨ha, hra⟩ := List.mem_filter.mp ha
    obtain ⟨hb, hrb⟩ := List.mem_filter.mp hb
    obtain ⟨hra, hna⟩ := activeOf_iff.mp hra
    obtain ⟨hrb, hnb⟩ := activeOf_iff.mp hrb
    have hlt := h (hra.trans hrb.symm)
    rw [hi.one_unreleased ha hb (hra.trans hrb.symm) hna hnb] at hlt
    omega
  match hl : s.leases.filter (activeOf r), hd with
  | [], _ => exact Nat.zero_le 1
  | [_], _ => exact Nat.le_refl 1
  | _ :: b :: _, hd => exact ((List.pairwise_cons.mp hd).1 b List.mem_cons_self).elim

theorem Inv.ordered_get {s : Sys} (hi : Inv s) {i j : Nat} {e e' : Event} (hij : i < j) (h : s.log[i]? = some e)
    (h' : s.log[j]? = some e') : Ordered e e' := by
  obtain ⟨hi', rfl⟩ := List.getElem?_eq_some_iff.mp h
  obtain ⟨hj', rfl⟩ := List.getElem?_eq_some_iff.mp h'
  exact List.pairwise_iff_getElem.mp hi.ordered i j hi' hj' hij

/-- Run-lease fencing. In every reachable state each run has one unreleased lease at most;
    of two grants for a run the later has the higher generation; what commits after a grant
    for its run carries at least the granted generation; and no fenced transaction has
    committed on a lease that had expired at its last check. -/
theorem lease_fencing {recovery : Option RecoveryRow} {s : Sys} (h : Reach recovery s) :
    (∀ r, (s.leases.filter (activeOf r)).length ≤ 1) ∧
    (∀ (i j : Nat) (f f' : RunFence), i < j → s.log[i]? = some (.granted f) → s.log[j]? = some (.granted f') →
      f.run = f'.run → f.generation < f'.generation) ∧
    (∀ (i j : Nat) (f f' : RunFence) (x now : Nat), i < j → s.log[i]? = some (.granted f) → s.log[j]? = some (.committed f' x now) →
      f.run = f'.run → f.generation ≤ f'.generation) ∧
    (∀ f x now, .committed f x now ∈ s.log → now < x) := by
  have hi := reach_inv h
  refine ⟨hi.unreleased_length, ?_, ?_, hi.unexpired⟩
  · intro i j f f' hij h h'
    exact hi.ordered_get hij h h'
  · intro i j f f' x now hij h h'
    exact hi.ordered_get hij h h'

/-- Owner 1 claims run 5 and renews; its lease expires while a later transaction is open,
    which is rejected; owner 2 takes the run over and commits. -/
def takeover : List Act :=
  [.register 1, .register 2, .create ⟨5, 9, .real, 0, 0, 0, .queued, .running, 0, {}⟩,
    .claim 1 30 none none 0, .openFenced ⟨5, 1, 1, 7⟩, .work (.renew 60), .commit,
    .tick 50, .openFenced ⟨5, 1, 1, 7⟩, .tick 10, .commit,
    .claim 2 30 (some 4) (some .real) 0, .openFenced ⟨5, 2, 2, 7⟩, .commit]

theorem lease_fencing_takeover : ∃ s, Reach (some ⟨7, true⟩) s ∧
    s.log = [.granted ⟨5, 1, 1, 7⟩, .committed ⟨5, 1, 1, 7⟩ 60 0, .granted ⟨5, 2, 2, 7⟩,
      .committed ⟨5, 2, 2, 7⟩ 90 60] ∧
    step s (.openFenced ⟨5, 1, 1, 7⟩) = none ∧ (s.leases.filter (activeOf 5)).length ≤ 1 := by
  obtain ⟨s, hs⟩ : ∃ s, Steps.run step (init (some ⟨7, true⟩)) takeover = some s := ⟨_, rfl⟩
  have hr := Steps.run_reach takeover hs
  refine ⟨s, hr, ?_, ?_, (lease_fencing hr).1 5⟩ <;> · cases hs; decide

end Jarvis.Runtime.Ownership
