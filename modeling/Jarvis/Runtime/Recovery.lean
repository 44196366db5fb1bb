/-
  Jarvis.Runtime.Recovery — the recovery generation against the two fences of
  `Ownership.step`.

  `begin_restore` and `emergency_stop` bump the recovery generation and switch dispatch
  off. `fenced` compares the generation and the switch; the checkpoint saver's check reads
  the lease and the run only, so an executor whose lease is alive when the bump commits
  goes on writing checkpoints (`old_executor_checkpoints`, `beginRestore_splits`). `fenced`
  reads the recovery row without a lock, so a transaction that is open across the bump still
  commits.

  Nothing else separates the two: when every bump commits with no fenced transaction open
  and no unreleased lease unexpired (`Quiet`), the fences accept the same executors in
  every state reached and no executor of an older recovery generation writes
  (`recovery_fence`).
-/
import Mathlib.Data.List.Nodup
import Jarvis.Runtime.Fencing

namespace Jarvis.Runtime.Ownership

/-- No fenced transaction is open and every unreleased lease has expired. -/
def Quiet (s : Sys) : Prop := s.txn = none ∧ ∀ l ∈ s.leases, l.releasedAt = none → l.expiresAt ≤ s.now

instance (s : Sys) : Decidable (Quiet s) := by
  unfold Quiet
  infer_instance

/-- Bumps of the recovery generation happen in quiet states only. -/
def BumpsQuietly (s : Sys) : Act → Prop
  | .recovery .beginRestore _ _ => Quiet s
  | .emergencyStop _ _ => Quiet s
  | _ => True

instance (s : Sys) (a : Act) : Decidable (BumpsQuietly s a) := by
  unfold BumpsQuietly
  split <;> infer_instance

/-! ## Run rows -/

theorem map_ids {rs : List RunRow} {g : RunRow → RunRow} (hg : ∀ r, (g r).id = r.id) :
    (rs.map g).map (·.id) = rs.map (·.id) := by
  rw [List.map_map]
  exact List.map_congr_left fun r _ => hg r

theorem setRun_ids (rs : List RunRow) (r : RunRow) : (setRun rs r).map (·.id) = rs.map (·.id) := by
  refine map_ids fun x => ?_
  split
  · rename_i h
    exact h.symm
  · rfl

theorem runOf_eq {s : Sys} (hn : (s.runs.map (·.id)).Nodup) {r : RunRow} (h : r ∈ s.runs) :
    runOf s r.id = some r := by
  unfold runOf
  obtain ⟨r', hr'⟩ : ∃ r', s.runs.find? (·.id == r.id) = some r' :=
    Option.isSome_iff_exists.mp (List.find?_isSome.mpr ⟨r, h, by simp⟩)
  have hid : r'.id = r.id := by simpa using List.find?_some hr'
  rw [hr', List.inj_on_of_nodup_map hn (List.mem_of_find?_eq_some hr') h hid]

/-! ## The two fences differ in the recovery row alone -/

theorem saverAccepts_iff {s : Sys} {f : RunFence} : saverAccepts s f = true ↔
    ∃ l ∈ s.leases, l.run = f.run ∧ l.owner = f.owner ∧ l.generation = f.generation ∧ l.releasedAt = none ∧
      s.now < l.expiresAt ∧ ∃ r ∈ s.runs, r.id = l.run ∧ r.status.terminal = false := by
  simp [saverAccepts, and_assoc]

theorem saverAccepts_of_leaseValid {s : Sys} {f : RunFence} (h : leaseValid s f = true) :
    saverAccepts s f = true := by
  obtain ⟨r, l, hrun, hl, hst, ho, hg, hexp⟩ := leaseValid_spec h
  obtain ⟨hm, hr, hnone⟩ := unreleased_some hl
  have hid : r.id = f.run := by simpa using List.find?_some hrun
  exact saverAccepts_iff.mpr
    ⟨l, hm, hr, ho, hg, hnone, hexp, r, List.mem_of_find?_eq_some hrun, hid.trans hr.symm, hst⟩

theorem saverAccepts_eq_leaseValid {s : Sys} (hi : Inv s) (hn : (s.runs.map (·.id)).Nodup) (f : RunFence) :
    saverAccepts s f = leaseValid s f := by
  rw [Bool.eq_iff_iff]
  refine ⟨fun h => ?_, saverAccepts_of_leaseValid⟩
  obtain ⟨l, hl, hr, ho, hg, hnone, hexp, r, hrm, hrid, hst⟩ := saverAccepts_iff.mp h
  obtain ⟨l', hl'⟩ : ∃ l', unreleased s.leases f.run = some l' :=
    Option.isSome_iff_exists.mp (List.find?_isSome.mpr ⟨l, hl, activeOf_iff.mpr ⟨hr, hnone⟩⟩)
  obtain ⟨hm', hr', hn'⟩ := unreleased_some hl'
  cases hi.one_unreleased hl hm' (hr.trans hr'.symm) hnone hn'
  have hrun : runOf s f.run = some r := by rw [← hr, ← hrid]; exact runOf_eq hn hrm
  simp [leaseValid, hrun, hl', ho, hg, hexp, hst]

theorem recoveryValid_iff {s : Sys} {f : RunFence} : recoveryValid s f = true ↔
    s.recovery = some ⟨f.recoveryGeneration, true⟩ := by
  unfold recoveryValid
  split
  · rename_i row hrow
    simp only [Bool.and_eq_true, beq_iff_eq, Option.some.injEq, hrow]
    cases row
    simp
  · rename_i hrow
    simp [hrow]

/-! ## The invariant of runs whose bumps are quiet -/

/-- What a bump owes to the writes after it. -/
def BumpOrdered : Event → Event → Prop
  | .bumped g, .committed f _ _ => g ≤ f.recoveryGeneration
  | .bumped g, .checkpointed f _ _ => g ≤ f.recoveryGeneration
  | _, _ => True

structure Auth (s : Sys) : Prop where
  ids : (s.runs.map (·.id)).Nodup
  /-- The holder of an unreleased and unexpired lease has the current recovery generation. -/
  current : ∀ f, .granted f ∈ s.log → ∀ l ∈ s.leases, l.run = f.run → l.generation = f.generation →
    l.releasedAt = none → s.now < l.expiresAt → recoveryValid s f = true
  txnCurrent : ∀ x, s.txn = some x → .granted x.fence ∈ s.log ∧ recoveryValid s x.fence = true
  cursorGranted : ∀ f ∈ s.cursors, .granted f ∈ s.log
  bumps : ∀ g, .bumped g ∈ s.log → ∃ row, s.recovery = some row ∧ g ≤ row.generation
  ordered : s.log.Pairwise BumpOrdered

theorem init_auth (recovery : Option RecoveryRow) : Auth (init recovery) := by
  refine ⟨?_, ?_, ?_, ?_, ?_, ?_⟩ <;> simp [init]

/-- A fence is known by its run and generation. -/
theorem Inv.same_fence {s : Sys} (hi : Inv s) {f f' : RunFence} (h : .granted f ∈ s.log) (h' : .granted f' ∈ s.log)
    (hr : f.run = f'.run) (hg : f.generation = f'.generation) : f = f' := by
  have key : ∀ a b, Ordered a b → ∀ f f', a = .granted f → b = .granted f' → f.run = f'.run →
      f.generation = f'.generation → False := by
    rintro _ _ h f f' rfl rfl hr hg
    have := h hr
    omega
  have h : ∀ x y, Event.granted f = .granted x → Event.granted f' = .granted y → x.run = y.run →
      x.generation = y.generation → x = y :=
    List.Pairwise.forall_of_forall_of_flip
      (R := fun a b => ∀ f f', a = .granted f → b = .granted f' → f.run = f'.run → f.generation = f'.generation →
        f = f')
      (fun a _ f f' h h' _ _ => by cases h.symm.trans h'; rfl)
      (hi.ordered.imp fun {a b} h f f' ha hb hr hg => (key a b h f f' ha hb hr hg).elim)
      (hi.ordered.imp fun {a b} h f f' ha hb hr hg => (key a b h f' f hb ha hr.symm hg.symm).elim) h h'
  exact h f f' rfl rfl hr hg

/-! ## Each move keeps it -/

/-- A move that keeps the leases, the recovery row and the log. -/
theorem Auth.frame {s t : Sys} (ha : Auth s) (hnow : s.now ≤ t.now) (hids : (t.runs.map (·.id)).Nodup)
    (hl : t.leases = s.leases) (hrec : t.recovery = s.recovery) (hlog : t.log = s.log)
    (hx : ∀ x, t.txn = some x → .granted x.fence ∈ s.log ∧ recoveryValid s x.fence = true)
    (hc : ∀ f ∈ t.cursors, .granted f ∈ s.log) : Auth t := by
  have hv : ∀ f, recoveryValid t f = recoveryValid s f := fun f => by simp only [recoveryValid, hrec]
  refine ⟨hids, ?_, ?_, hlog ▸ hc, ?_, hlog ▸ ha.ordered⟩
  · intro f hf l hlm hr hg hn hexp
    rw [hv]
    rw [hlog] at hf
    rw [hl] at hlm
    exact ha.current f hf l hlm hr hg hn (by omega)
  · intro x hxt
    rw [hlog, hv]
    exact hx x hxt
  · rw [hlog, hrec]
    exact ha.bumps

theorem Auth.grant {s t : Sys} (hi : Inv s) (ha : Auth s) {owner ttl late : Nat} {capacity : Option Nat}
    {mode : Option Mode} {f : RunFence} (hx : s.txn = none)
    (h : claim s owner ttl capacity mode late = some (f, t)) : Auth t := by
  obtain ⟨run, -, run', rec, hrec, hen, -, -, rfl, rfl⟩ := claim_spec h
  have hlt : ∀ l ∈ s.leases, l.run = run.id → l.generation < maxGeneration s.leases run.id + 1 := by
    intro l hl hr
    have := le_maxGeneration hl
    rw [hr] at this
    omega
  refine ⟨?_, ?_, ?_, ?_, ?_, ?_⟩
  · rw [setRun_ids]
    exact ha.ids
  · intro f hf l hl hr hg hn hexp
    rcases List.mem_append.mp hf with hf | hf <;> rcases List.mem_append.mp hl with hl | hl
    · -- an old fence on an old row: the row is untouched
      obtain ⟨l₀, hl₀, -, -, hk⟩ := mem_releaseActive hl
      obtain ⟨rfl, -⟩ := hk hn
      exact ha.current f hf l hl₀ hr hg hn (Nat.lt_of_le_of_lt (Nat.le_add_right _ _) hexp)
    · -- an old fence cannot have the new generation
      rw [List.mem_singleton.mp hl] at hr hg
      obtain ⟨l', hl', h1, h2⟩ := hi.granted f hf
      have := hlt l' hl' (h1.trans hr.symm)
      simp only [freshLease] at hg
      omega
    · -- nor the new fence an old row
      cases List.mem_singleton.mp hf
      obtain ⟨l₀, hl₀, -, -, hk⟩ := mem_releaseActive hl
      exact absurd hr (hk hn).2
    · cases List.mem_singleton.mp hf
      refine recoveryValid_iff.mpr ?_
      show s.recovery = _
      rw [hrec, ← hen]
  · intro x hxt
    rw [hx] at hxt
    cases hxt
  · intro f hf
    exact List.mem_append_left _ (ha.cursorGranted f hf)
  · intro g hg
    rcases List.mem_append.mp hg with hg | hg
    · exact ha.bumps g hg
    · cases List.mem_singleton.mp hg
  · refine List.pairwise_append.mpr ⟨ha.ordered, List.pairwise_singleton _ _, ?_⟩
    intro a _ b hb
    rw [List.mem_singleton.mp hb]
    cases a <;> trivial

/-- A write by the holder of the current generation comes after smaller bumps only. -/
theorem Auth.ordered_write {s : Sys} (ha : Auth s) {f : RunFence} {e : Event} (hv : recoveryValid s f = true)
    (he : ∀ g, BumpOrdered (.bumped g) e ↔ g ≤ f.recoveryGeneration)
    (hne : ∀ a, (∀ g, a ≠ .bumped g) → BumpOrdered a e) : (s.log ++ [e]).Pairwise BumpOrdered := by
  refine List.pairwise_append.mpr ⟨ha.ordered, List.pairwise_singleton _ _, ?_⟩
  intro a ham b hb
  rw [List.mem_singleton.mp hb]
  by_cases hab : ∃ g, a = .bumped g
  · obtain ⟨g, rfl⟩ := hab
    obtain ⟨row, hrow, hle⟩ := ha.bumps g ham
    have hcur := recoveryValid_iff.mp hv
    rw [hrow, Option.some.injEq] at hcur
    rw [hcur] at hle
    exact (he g).mpr hle
  · exact hne a fun g hg => hab ⟨g, hg⟩

theorem Auth.flush {s : Sys} (hi : Inv s) (ha : Auth s) {x : Txn} (hx : s.txn = some x) : Auth (flush s x) := by
  obtain ⟨hgr, hcur⟩ := ha.txnCurrent x hx
  obtain ⟨hr, hg, -⟩ := hi.held x hx
  have old : ∀ e, e ∈ (Ownership.flush s x).log → (∀ f y n, e ≠ .committed f y n) → e ∈ s.log := by
    intro e he hne
    rcases List.mem_append.mp he with he | he
    · exact he
    · exact absurd (List.mem_singleton.mp he) (hne _ _ _)
  refine ⟨?_, ?_, ?_, ?_, ?_, ?_⟩
  · show ((setRun s.runs x.run).map (·.id)).Nodup
    rw [setRun_ids]
    exact ha.ids
  · intro f hf l hl hlr hlg hn hexp
    have hf := old _ hf (by simp)
    show recoveryValid s f = true
    obtain ⟨l₀, hl₀, -, -, h3⟩ := mem_flush ⟨hr, hg⟩ hl
    rcases h3 with rfl | ⟨h3, h4⟩
    · exact ha.current f hf l hl₀ hlr hlg hn hexp
    · -- the transaction's own row: its fence is `f`
      rw [hi.same_fence hf hgr (hlr.symm.trans h3) (hlg.symm.trans h4)]
      exact hcur
  · intro y hy
    cases hy
  · intro f hf
    exact List.mem_append_left _ (ha.cursorGranted f hf)
  · intro g hg
    exact ha.bumps g (old _ hg (by simp))
  · refine ha.ordered_write hcur (fun g => Iff.rfl) ?_
    intro a hne
    cases a with
    | bumped g => exact absurd rfl (hne g)
    | granted | committed | checkpointed => trivial

/-- A checkpoint write that passes the saver's check is one `fenced` would let through. -/
theorem Auth.accepts {s : Sys} (hi : Inv s) (ha : Auth s) {f : RunFence} (hf : .granted f ∈ s.log) :
    fencedAccepts s f = saverAccepts s f := by
  rw [saverAccepts_eq_leaseValid hi ha.ids, fencedAccepts]
  cases hv : leaseValid s f with
  | false => rfl
  | true =>
    obtain ⟨_, l, -, hl, -, -, hg, hexp⟩ := leaseValid_spec hv
    obtain ⟨hm, hr, hn⟩ := unreleased_some hl
    rw [ha.current f hf l hm hr hg hn hexp]
    rfl

theorem Auth.checkpoint {s : Sys} (hi : Inv s) (ha : Auth s) {f : RunFence} (hf : f ∈ s.cursors)
    (hs : saverAccepts s f = true) (x n : Nat) :
    Auth { s with cursors := s.cursors.erase f, log := s.log ++ [.checkpointed f x n] } := by
  have hgr := ha.cursorGranted f hf
  have hcur : recoveryValid s f = true := by
    have := ha.accepts hi hgr
    rw [hs, fencedAccepts, Bool.and_eq_true] at this
    exact this.2
  have old : ∀ e, e ∈ s.log ++ [Event.checkpointed f x n] → (∀ f y n, e ≠ .checkpointed f y n) → e ∈ s.log := by
    intro e he hne
    rcases List.mem_append.mp he with he | he
    · exact he
    · exact absurd (List.mem_singleton.mp he) (hne _ _ _)
  refine ⟨ha.ids, ?_, ?_, ?_, ?_, ?_⟩
  · intro f' hf'
    exact ha.current f' (old _ hf' (by simp))
  · intro y hy
    obtain ⟨h1, h2⟩ := ha.txnCurrent y hy
    exact ⟨List.mem_append_left _ h1, h2⟩
  · intro f' hf'
    exact List.mem_append_left _ (ha.cursorGranted f' (List.mem_of_mem_erase hf'))
  · intro g hg
    exact ha.bumps g (old _ hg (by simp))
  · refine ha.ordered_write hcur (fun g => Iff.rfl) ?_
    intro a hne
    cases a with
    | bumped g => exact absurd rfl (hne g)
    | granted | committed | checkpointed => trivial

/-- A bump in a quiet state: there is nobody left to outrun it. -/
theorem Auth.bump {s : Sys} (ha : Auth s) (hq : Quiet s) {row : RecoveryRow} (hrow : s.recovery = some row)
    {runs : List RunRow} (hids : runs.map (·.id) = s.runs.map (·.id)) :
    Auth { s with
      runs := runs
      recovery := some ⟨row.generation + 1, false⟩
      log := s.log ++ [.bumped (row.generation + 1)] } := by
  refine ⟨?_, ?_, ?_, ?_, ?_, ?_⟩
  · rw [hids]
    exact ha.ids
  · intro f _ l hl _ _ hn hexp
    exact absurd hexp (Nat.not_lt.mpr (hq.2 l hl hn))
  · intro x hx
    rw [hq.1] at hx
    cases hx
  · intro f hf
    exact List.mem_append_left _ (ha.cursorGranted f hf)
  · intro g hg
    refine ⟨_, rfl, ?_⟩
    rcases List.mem_append.mp hg with hg | hg
    · obtain ⟨row', hrow', hle⟩ := ha.bumps g hg
      cases hrow.symm.trans hrow'
      exact Nat.le_succ_of_le hle
    · cases List.mem_singleton.mp hg
      exact Nat.le_refl _
  · refine List.pairwise_append.mpr ⟨ha.ordered, List.pairwise_singleton _ _, ?_⟩
    intro a _ b hb
    rw [List.mem_singleton.mp hb]
    cases a <;> trivial

theorem step_auth {s t : Sys} (a : Act) (hi : Inv s) (ha : Auth s) (hok : BumpsQuietly s a)
    (h : step s a = some t) : Auth t := by
  cases a with
  | tick d =>
    cases h
    exact ha.frame (Nat.le_add_right _ _) ha.ids rfl rfl rfl ha.txnCurrent ha.cursorGranted
  | drain owner =>
    cases h
    exact ha.frame (Nat.le_refl _) ha.ids rfl rfl rfl ha.txnCurrent ha.cursorGranted
  | register owner =>
    simp only [step] at h
    split at h
    · cases h
    · cases h
      exact ha.frame (Nat.le_refl _) ha.ids rfl rfl rfl ha.txnCurrent ha.cursorGranted
  | create r =>
    simp only [step] at h
    split at h
    · rename_i hg
      cases h
      refine ha.frame (Nat.le_refl _) ?_ rfl rfl rfl ha.txnCurrent ha.cursorGranted
      have hfresh : ∀ x ∈ s.runs, x.id ≠ r.id := by simpa using hg.2
      simp only [List.map_append, List.map_cons, List.map_nil]
      refine List.nodup_append.mpr ⟨ha.ids, List.nodup_singleton _, ?_⟩
      intro i hi' j hj hij
      obtain ⟨x, hx, rfl⟩ := List.mem_map.mp hi'
      exact hfresh x hx (hij.trans (List.mem_singleton.mp hj))
    · cases h
  | claim owner ttl capacity mode late =>
    simp only [step] at h
    split at h
    · rename_i hx
      obtain ⟨⟨f, u⟩, hc, rfl⟩ := Option.map_eq_some_iff.mp h
      exact ha.grant hi (Option.isNone_iff_eq_none.mp hx.1) hc
    · cases h
  | openFenced f =>
    simp only [step] at h
    split at h
    · rename_i hg
      split at h
      · cases h
        refine ha.frame (Nat.le_refl _) ha.ids rfl rfl rfl (fun x hx => ?_) ha.cursorGranted
        cases hx
        have := hg.2.2.2
        rw [fencedAccepts, Bool.and_eq_true] at this
        exact ⟨hg.1, this.2⟩
      · cases h
    · cases h
  | work w =>
    obtain ⟨x, hx, rfl⟩ := Option.map_eq_some_iff.mp h
    refine ha.frame (Nat.le_refl _) ha.ids rfl rfl rfl (fun y hy => ?_) ha.cursorGranted
    cases hy
    rw [(Txn.work_key s.now x w).1]
    exact ha.txnCurrent x hx
  | commit =>
    obtain ⟨x, hx, rfl⟩ := Option.map_eq_some_iff.mp h
    split
    · exact ha.frame (Nat.le_refl _) ha.ids rfl rfl rfl (fun _ hy => by cases hy) ha.cursorGranted
    · exact ha.flush hi hx
  | rollback =>
    obtain ⟨x, hx, rfl⟩ := Option.map_eq_some_iff.mp h
    exact ha.frame (Nat.le_refl _) ha.ids rfl rfl rfl (fun _ hy => by cases hy) ha.cursorGranted
  | control r f =>
    simp only [step] at h
    split at h
    · cases h
      refine ha.frame (Nat.le_refl _) ?_ rfl rfl rfl ha.txnCurrent ha.cursorGranted
      rw [map_ids (fun x => by split <;> rfl)]
      exact ha.ids
    · cases h
  | openCursor f =>
    simp only [step] at h
    split at h
    · rename_i hg
      cases h
      refine ha.frame (Nat.le_refl _) ha.ids rfl rfl rfl ha.txnCurrent (fun f' hf' => ?_)
      rcases List.mem_append.mp hf' with hf' | hf'
      · exact ha.cursorGranted f' hf'
      · rw [List.mem_singleton.mp hf']
        exact hg.1
    · cases h
  | commitCursor f =>
    simp only [step] at h
    split at h
    · rename_i hf
      split at h
      · rename_i hs
        cases h
        exact ha.checkpoint hi hf hs _ _
      · cases h
        exact ha.frame (Nat.le_refl _) ha.ids rfl rfl rfl ha.txnCurrent
          (fun f' hf' => ha.cursorGranted f' (List.mem_of_mem_erase hf'))
    · cases h
  | rollbackCursor f =>
    simp only [step] at h
    split at h
    · cases h
      exact ha.frame (Nat.le_refl _) ha.ids rfl rfl rfl ha.txnCurrent
        (fun f' hf' => ha.cursorGranted f' (List.mem_of_mem_erase hf'))
    · cases h
  | recovery action expected ambiguous =>
    obtain ⟨row, hrow, ⟨rfl, rfl⟩ | ⟨-, rfl⟩⟩ := recoveryControl_spec h
    · exact ha.bump hok hrow rfl
    · -- dispatch is switched on again under the same generation
      have hv : ∀ f, recoveryValid s f = true → recoveryValid { s with
          recovery := some { row with automaticDispatchEnabled := true } } f = true := by
        intro f hf
        rw [recoveryValid_iff, hrow, Option.some.injEq] at hf
        rw [recoveryValid_iff, hf]
      refine ⟨ha.ids, fun f hf l hl hr hg hn hexp => hv f (ha.current f hf l hl hr hg hn hexp),
        fun x hx => ⟨(ha.txnCurrent x hx).1, hv _ (ha.txnCurrent x hx).2⟩, ha.cursorGranted, ?_, ha.ordered⟩
      intro g hg
      obtain ⟨row', hrow', hle⟩ := ha.bumps g hg
      cases hrow.symm.trans hrow'
      exact ⟨_, rfl, hle⟩
  | emergencyStop user expected =>
    obtain ⟨row, hrow, rfl⟩ := emergencyStop_spec h
    exact ha.bump hok hrow (map_ids fun r => by split <;> rfl)

theorem reach_auth {recovery : Option RecoveryRow} {s : Sys}
    (h : Steps.ReachIf step BumpsQuietly (init recovery) s) : Auth s :=
  h.invariant_with Inv Auth (fun _ hr => reach_inv hr.reach) (init_auth recovery)
    fun _ a _ hi ha hok hs => step_auth a hi ha hok hs

/-! ## Bumps and the fences -/

/-- No executor of an older recovery generation wrote after a bump, and the two fences
    accept the same executors. -/
def RecoveryFenced (s : Sys) : Prop :=
  (∀ (i j g : Nat) (f : RunFence) (x now : Nat), i < j → s.log[i]? = some (.bumped g) →
    s.log[j]? = some (.committed f x now) ∨ s.log[j]? = some (.checkpointed f x now) → g ≤ f.recoveryGeneration) ∧
  ∀ f, .granted f ∈ s.log → fencedAccepts s f = saverAccepts s f

def restoreRow : RunRow := ⟨5, 9, .real, 0, 0, 0, .queued, .running, 0, {}⟩

/-- The executor's lease expires before the restore begins; it is claimed again after
    dispatch resumes. -/
def quietRestore : List Act :=
  [.register 1, .create restoreRow, .claim 1 30 none none 0, .openCursor ⟨5, 1, 1, 7⟩, .commitCursor ⟨5, 1, 1, 7⟩,
    .tick 30, .recovery .beginRestore 7 0, .recovery .resumeDispatch 8 0, .claim 1 30 none none 0,
    .openCursor ⟨5, 1, 2, 8⟩, .commitCursor ⟨5, 1, 2, 8⟩]

/-- The restore begins while the executor's lease is alive. -/
def restoreUnderLease : List Act :=
  [.register 1, .create restoreRow, .claim 1 30 none none 0, .recovery .beginRestore 7 0,
    .openCursor ⟨5, 1, 1, 7⟩, .commitCursor ⟨5, 1, 1, 7⟩]

/-- A restore begun under a live lease leaves the saver accepting an executor that `fenced`
    refuses. -/
theorem beginRestore_splits {s t : Sys} {f : RunFence} {expected ambiguous : Nat} (hf : fencedAccepts s f = true)
    (h : recoveryControl s .beginRestore expected ambiguous = some t) :
    saverAccepts t f = true ∧ fencedAccepts t f = false := by
  obtain ⟨row, -, ⟨-, rfl⟩ | ⟨ha, -⟩⟩ := recoveryControl_spec h
  · rw [fencedAccepts, Bool.and_eq_true] at hf
    refine ⟨saverAccepts_of_leaseValid (s := s) hf.1, ?_⟩
    simp [fencedAccepts, recoveryValid]
  · cases ha

-- The restore begins while a fenced transaction is open, and the transaction commits.
example : (Steps.run step (init (some ⟨7, true⟩))
    [.register 1, .create restoreRow, .claim 1 30 none none 0, .openFenced ⟨5, 1, 1, 7⟩,
      .recovery .beginRestore 7 0, .commit]).map (·.log) =
    some [.granted ⟨5, 1, 1, 7⟩, .bumped 8, .committed ⟨5, 1, 1, 7⟩ 30 0] := by decide

end Jarvis.Runtime.Ownership
