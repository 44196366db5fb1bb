/-
  Jarvis.Missions.Concurrency — the jobs of a scope that run at one time.

  `reserve` compares `max_active_jobs` with the rows of the present window, as it does for
  limits on consumption. A job that is still unsettled when its window ends is not among them,
  so the next window admits as many jobs again (`window_admits_again`). While a job is only
  reserved in a scope whose unsettled jobs are all of the same window, the unsettled jobs of
  every scope stay within its limit at every time (`active_jobs_bounded`).
-/
import Jarvis.Missions.Launch
import Jarvis.Missions.Liability

namespace Jarvis.Missions

variable {α : Type} [DecidableEq α]

/-! ## A schedule of reservations -/

/-- The ledger, and the latest reading of the clock. -/
structure Schedule (α : Type) where
  clock : Nat := 0
  ledger : Ledger α := {}

def LedgerAction.now : LedgerAction α → Nat
  | .reserve _ _ call => call.now
  | .reconcile _ _ _ _ now | .release _ _ now => now

/-- A job reserves one active job (`start_item`, `dispatch_ready`). -/
def LedgerAction.reservesOneJob : LedgerAction α → Prop
  | .reserve _ _ call => call.kind = .jobExecution → call.liability.activeJobs = some 1
  | _ => True

instance : ∀ action : LedgerAction α, Decidable action.reservesOneJob
  | .reserve _ _ call => inferInstanceAs (Decidable (call.kind = .jobExecution → call.liability.activeJobs = some 1))
  | .reconcile _ _ _ _ _ | .release _ _ _ => isTrue trivial

/-- Any transaction on the ledger, by a clock that does not go back. -/
def Schedule.step (s : Schedule α) (action : LedgerAction α) : Option (Schedule α) :=
  if s.clock ≤ action.now ∧ action.reservesOneJob then
    (ledgerStep s.ledger action).map fun ledger => { clock := action.now, ledger }
  else none

/-- The job reservations of a scope that have been neither reconciled nor released. -/
def unsettledJobs (rows : List (ReservationRow α)) (key : ScopeKey) : List (ReservationRow α) :=
  rows.filter fun row => row.scopeKey = key ∧ row.kind = .jobExecution ∧ row.status = .reserved

/-- A job is newly reserved only in scopes whose unsettled jobs are all of the present window. -/
def jobsOfOneWindow (ledger : Ledger α) : LedgerAction α → Prop
  | .reserve _ mission call =>
    call.kind = .jobExecution → ∀ control ∈ missionControls (ensureControls ledger.controls mission) mission,
      holds ledger.reservations call.actionId control.scopeKey = false →
        ∀ row ∈ unsettledJobs ledger.reservations control.scopeKey, row.windowStartedAt = windowStart call.now control.limits
  | _ => True

instance (ledger : Ledger α) : ∀ action, Decidable (jobsOfOneWindow ledger action)
  | .reserve _ mission call => inferInstanceAs (Decidable (call.kind = .jobExecution →
      ∀ control ∈ missionControls (ensureControls ledger.controls mission) mission,
        holds ledger.reservations call.actionId control.scopeKey = false →
          ∀ row ∈ unsettledJobs ledger.reservations control.scopeKey, row.windowStartedAt = windowStart call.now control.limits))
  | .reconcile _ _ _ _ _ | .release _ _ _ => isTrue trivial

/-! ## The invariant -/

/-- The unsettled jobs of every scope are within its limit. -/
structure Concurrent (ledger : Ledger α) : Prop where
  keys : (ledger.controls.map (·.scopeKey)).Nodup
  jobs : ∀ control ∈ ledger.controls,
    (unsettledJobs ledger.reservations control.scopeKey).length ≤ control.limits.maxActiveJobs
  one : ∀ row ∈ ledger.reservations, row.kind = .jobExecution → row.liability.activeJobs = some 1
  covered : ∀ row ∈ ledger.reservations, ∃ control ∈ ledger.controls, control.scopeKey = row.scopeKey

omit [DecidableEq α] in
theorem mem_unsettledJobs {rows : List (ReservationRow α)} {key : ScopeKey} {row : ReservationRow α} :
    row ∈ unsettledJobs rows key ↔ row ∈ rows ∧ row.scopeKey = key ∧ row.kind = .jobExecution ∧ row.status = .reserved := by
  simp [unsettledJobs]

omit [DecidableEq α] in
theorem unsettledJobs_append (rows : List (ReservationRow α)) (row : ReservationRow α) (key : ScopeKey) :
    (unsettledJobs (rows ++ [row]) key).length = (unsettledJobs rows key).length +
      if row.scopeKey = key ∧ row.kind = .jobExecution ∧ row.status = .reserved then 1 else 0 := by
  unfold unsettledJobs
  rw [List.filter_append, List.length_append, List.filter_cons, List.filter_nil]
  congr 1
  by_cases hjob : row.scopeKey = key ∧ row.kind = .jobExecution ∧ row.status = .reserved <;> simp [hjob]

omit [DecidableEq α] in
/-- Unsettled jobs of one window are among the rows that count in it, each with one job. -/
theorem unsettledJobs_le_counted {rows : List (ReservationRow α)} {key : ScopeKey} {window : Nat}
    (hone : ∀ row ∈ rows, row.kind = .jobExecution → row.liability.activeJobs = some 1)
    (hwindow : ∀ row ∈ unsettledJobs rows key, row.windowStartedAt = window) :
    (unsettledJobs rows key).length ≤ ((counting rows key window).map fun row => row.values.count .activeJobs).sum := by
  induction rows with
  | nil => exact Nat.le_refl _
  | cons row rows ih =>
    have ih := ih (fun other hother => hone other (List.mem_cons_of_mem _ hother)) fun other hother => by
      obtain ⟨hmem, hrest⟩ := mem_unsettledJobs.mp hother
      exact hwindow other (mem_unsettledJobs.mpr ⟨List.mem_cons_of_mem _ hmem, hrest⟩)
    unfold unsettledJobs counting at ih ⊢
    rw [List.filter_cons, List.filter_cons]
    by_cases hjob : row.scopeKey = key ∧ row.kind = .jobExecution ∧ row.status = .reserved
    · have hcounts : row.scopeKey = key ∧ row.windowStartedAt = window ∧ row.status ≠ .released := by
        refine ⟨hjob.1, hwindow row (mem_unsettledJobs.mpr ⟨List.mem_cons_self, hjob⟩), ?_⟩
        rw [hjob.2.2]
        decide
      have hvalue : row.values.count .activeJobs = 1 := by
        simp [ReservationRow.values, Amounts.count, hjob.2.2, hone row List.mem_cons_self hjob.2.1]
      rw [if_pos (decide_eq_true hjob), if_pos (decide_eq_true hcounts), List.length_cons, List.map_cons, List.sum_cons, hvalue]
      omega
    · rw [if_neg (by simpa using hjob)]
      split
      · rw [List.map_cons, List.sum_cons]
        omega
      · exact ih

omit [DecidableEq α] in
theorem Concurrent.ensure {ledger : Ledger α} (h : Concurrent ledger) (mission : MissionRow) :
    Concurrent { ledger with controls := ensureControls ledger.controls mission } := by
  obtain ⟨hkeep, hnodup, hnew⟩ := ensureControls_spec ledger.controls mission
  refine ⟨hnodup h.keys, fun control hc => ?_, h.one, fun row hrow => ?_⟩
  · rcases hnew control hc with hold | hother
    · exact h.jobs control hold
    · -- a scope without a control has no rows
      have hempty : unsettledJobs ledger.reservations control.scopeKey = [] := by
        refine List.filter_eq_nil_iff.mpr fun row hrow => ?_
        obtain ⟨other, hother', hkey⟩ := h.covered row hrow
        have hne := hother other hother'
        simp [← hkey, hne]
      rw [hempty]
      exact Nat.zero_le _
  · obtain ⟨control, hc, hkey⟩ := h.covered row hrow
    exact ⟨control, hkeep control hc, hkey⟩

/-- A job that is newly reserved in a scope is within the limit, the unsettled ones included. -/
theorem Concurrent.scope {controls : List ControlRow} {rows rows' : List (ReservationRow α)} {call : ReserveCall α}
    {control : ControlRow} {row : ReservationRow α} (h : Concurrent ⟨controls, rows⟩) (hc : control ∈ controls)
    (hone : call.kind = .jobExecution → call.liability.activeJobs = some 1)
    (hwindow : call.kind = .jobExecution → holds rows call.actionId control.scopeKey = false →
      ∀ row ∈ unsettledJobs rows control.scopeKey, row.windowStartedAt = windowStart call.now control.limits)
    (hscope : reserveScope call rows control = .ok (rows', row)) : Concurrent (⟨controls, rows'⟩ : Ledger α) := by
  obtain ⟨rfl, -⟩ | ⟨rfl, rfl, hfree, hcheck⟩ := reserveScope_cases hscope
  · exact h
  · refine ⟨h.keys, fun other hother => ?_, fun r hr => ?_, fun r hr => ?_⟩
    · have hold : (unsettledJobs rows other.scopeKey).length ≤ other.limits.maxActiveJobs := h.jobs other hother
      show (unsettledJobs (rows ++ [newRow call control]) other.scopeKey).length ≤ other.limits.maxActiveJobs
      rw [unsettledJobs_append]
      by_cases hnew : control.scopeKey = other.scopeKey ∧ call.kind = .jobExecution
      · obtain rfl : other = control := List.inj_on_of_nodup_map h.keys hother hc hnew.1.symm
        have hrows : ∀ row ∈ rows, row.kind = .jobExecution → row.liability.activeJobs = some 1 := h.one
        have hcounted := unsettledJobs_le_counted hrows (hwindow hnew.2 hfree)
        have htotal := checkTotals_counts hcheck .activeJobs
        rw [show call.liability.count .activeJobs = 1 by simp [Amounts.count, hone hnew.2],
          show other.limits.limit .activeJobs = other.limits.maxActiveJobs from rfl] at htotal
        split <;> omega
      · rw [if_neg fun hall => hnew ⟨hall.1, hall.2.1⟩]
        exact hold
    · rcases List.mem_append.mp hr with hold | hnew
      · exact h.one r hold
      · rw [List.mem_singleton.mp hnew]
        exact hone
    · rcases List.mem_append.mp hr with hold | hnew
      · exact h.covered r hold
      · rw [List.mem_singleton.mp hnew]
        exact ⟨control, hc, rfl⟩

theorem Concurrent.scopes {all : List ControlRow} {call : ReserveCall α}
    (hone : call.kind = .jobExecution → call.liability.activeJobs = some 1) :
    ∀ {controls : List ControlRow} {rows : List (ReservationRow α)}, (∀ control ∈ controls, control ∈ all) →
    controls.Pairwise (fun a b => a.scopeKey ≠ b.scopeKey) →
    (call.kind = .jobExecution → ∀ control ∈ controls, holds rows call.actionId control.scopeKey = false →
      ∀ row ∈ unsettledJobs rows control.scopeKey, row.windowStartedAt = windowStart call.now control.limits) →
    Concurrent (⟨all, rows⟩ : Ledger α) → Concurrent (⟨all, (reserveScopes call rows controls).1⟩ : Ledger α) := by
  intro controls
  induction controls with
  | nil => intro rows _ _ _ h; exact h
  | cons control controls ih =>
    intro rows hall hpairs hwindow h
    obtain ⟨hfirst, hrest⟩ := List.pairwise_cons.mp hpairs
    cases hscope : reserveScope call rows control with
    | error e =>
      rw [reserveScopes_error controls hscope]
      exact h
    | ok result =>
      obtain ⟨rows', row⟩ := result
      rw [reserveScopes_ok controls hscope]
      have hnext := h.scope (hall control List.mem_cons_self) hone (fun hjob => hwindow hjob control List.mem_cons_self) hscope
      refine ih (fun c hc => hall c (List.mem_cons_of_mem _ hc)) hrest (fun hjob other hother => ?_) hnext
      -- the row of this scope is not one of another
      have hother' := hwindow hjob other (List.mem_cons_of_mem _ hother)
      obtain ⟨rfl, -⟩ | ⟨rfl, rfl, -⟩ := reserveScope_cases hscope
      · exact hother'
      · have hne : (newRow call control).scopeKey ≠ other.scopeKey := hfirst other hother
        intro hfree r hr
        refine hother' ?_ r ?_
        · rw [holds, List.any_eq_false] at hfree ⊢
          exact fun r hr => hfree r (List.mem_append_left _ hr)
        · obtain ⟨hmem, hkey, hrest⟩ := mem_unsettledJobs.mp hr
          rcases List.mem_append.mp hmem with hold | hnew
          · exact mem_unsettledJobs.mpr ⟨hold, hkey, hrest⟩
          · rw [List.mem_singleton.mp hnew] at hkey
            exact absurd hkey hne

omit [DecidableEq α] in
/-- Rows that are settled, or stay as they are, do not add jobs. -/
theorem Concurrent.map {ledger : Ledger α} {f : ReservationRow α → ReservationRow α} (h : Concurrent ledger)
    (hf : ∀ row, (f row).scopeKey = row.scopeKey ∧ (f row).kind = row.kind ∧ (f row).liability = row.liability ∧
      ((f row).status = .reserved → row.status = .reserved)) :
    Concurrent { ledger with reservations := ledger.reservations.map f } := by
  refine ⟨h.keys, fun control hc => ?_, fun row hrow hjob => ?_, fun row hrow => ?_⟩
  · refine Nat.le_trans ?_ (h.jobs control hc)
    unfold unsettledJobs
    rw [← List.countP_eq_length_filter, ← List.countP_eq_length_filter, List.countP_map]
    refine List.countP_mono_left fun row _ hjob => ?_
    obtain ⟨hkey, hkind, -, hstatus⟩ := hf row
    simp only [Function.comp_apply, decide_eq_true_eq] at hjob ⊢
    exact ⟨hkey.symm.trans hjob.1, hkind.symm.trans hjob.2.1, hstatus hjob.2.2⟩
  · obtain ⟨old, hold, rfl⟩ := List.mem_map.mp hrow
    rw [(hf old).2.2.1]
    exact h.one old hold ((hf old).2.1.symm.trans hjob)
  · obtain ⟨old, hold, rfl⟩ := List.mem_map.mp hrow
    obtain ⟨control, hc, hkey⟩ := h.covered old hold
    exact ⟨control, hc, hkey.trans (hf old).1.symm⟩

theorem Concurrent.step {ledger ledger' : Ledger α} {action : LedgerAction α} (h : Concurrent ledger)
    (hone : action.reservesOneJob) (hwindow : jobsOfOneWindow ledger action) (hs : ledgerStep ledger action = some ledger') :
    Concurrent ledger' := by
  cases action with
  | reserve caller mission call =>
    cases hs
    have hsession : Concurrent (reserve ledger mission call).1 :=
      Concurrent.scopes hone (fun _ hc => mem_missionControls hc) (missionControls_keys _ mission) hwindow (h.ensure mission)
    unfold committed
    split
    · exact h
    · exact hsession
  | reconcile mission actionId actual unknown now =>
    simp only [ledgerStep, reconcile] at hs
    split at hs
    · cases hs
      refine h.map fun row => ?_
      split
      · unfold ReservationRow.reconciled
        split
        · exact ⟨rfl, rfl, rfl, id⟩
        · refine ⟨rfl, rfl, rfl, fun hstatus => ?_⟩
          cases unknown <;> cases hstatus
      · exact ⟨rfl, rfl, rfl, id⟩
    · cases hs
  | release mission actionId now =>
    cases hs
    refine h.map fun row => ?_
    split
    · unfold ReservationRow.release
      split
      · exact ⟨rfl, rfl, rfl, by rintro ⟨⟩⟩
      · exact ⟨rfl, rfl, rfl, id⟩
    · exact ⟨rfl, rfl, rfl, id⟩

/-- Along any transactions on the ledger, if a job is only reserved in scopes whose unsettled jobs
    are all of the present window, the unsettled jobs of every scope are within its limit. -/
theorem active_jobs_bounded {controls : List ControlRow} (hkeys : (controls.map (·.scopeKey)).Nodup) {s : Schedule α}
    (h : Steps.ReachIf Schedule.step (fun s action => jobsOfOneWindow s.ledger action) { ledger := ⟨controls, []⟩ } s) :
    ∀ control ∈ s.ledger.controls,
      (unsettledJobs s.ledger.reservations control.scopeKey).length ≤ control.limits.maxActiveJobs := by
  have hconcurrent : Concurrent s.ledger := by
    refine h.invariant (fun s => Concurrent s.ledger) ⟨hkeys, fun _ _ => Nat.zero_le _, fun _ hrow => absurd hrow List.not_mem_nil,
      fun _ hrow => absurd hrow List.not_mem_nil⟩ fun s action t hs hwindow hstep => ?_
    unfold Schedule.step at hstep
    split at hstep
    · rename_i hok
      obtain ⟨ledger, hledger, rfl⟩ := Option.map_eq_some_iff.mp hstep
      exact hs.step hok.2 hwindow hledger
    · cases hstep
  exact hconcurrent.jobs

/-! ## A job that outlives its window -/

/-- A mission with one active job. -/
def oneJobMission : MissionRow := { sampleMission with resourceLimits := { maxActiveJobs := 1, maxWallSeconds := 86400 } }

/-- What a work item's job reserves at time `now`. -/
def jobCallAt (item now : Nat) : ReserveCall ActionId := jobCallOf oneJobMission item 7200 now

/-- The first job is settled in the next window, and another starts in it. -/
theorem active_jobs_bounded_settled :
    ∃ s : Schedule ActionId, Steps.ReachIf Schedule.step (fun s action => jobsOfOneWindow s.ledger action)
        { ledger := ⟨[], []⟩ } s ∧ s.ledger.reservations.length = 6 ∧
      ∀ control ∈ s.ledger.controls,
        (unsettledJobs s.ledger.reservations control.scopeKey).length ≤ control.limits.maxActiveJobs := by
  let actions : List (LedgerAction ActionId) := [.reserve .catches oneJobMission (jobCallAt 1 86000),
    .reconcile oneJobMission (.job 1) (some { activeJobs := some 0, wallSeconds := some 600 }) false 86600,
    .reserve .catches oneJobMission (jobCallAt 2 86700)]
  have hrun : (Steps.runIf Schedule.step (fun s action => jobsOfOneWindow s.ledger action) { ledger := ⟨[], []⟩ }
      actions).any (fun s => s.ledger.reservations.length = 6) = true := by decide +kernel
  obtain ⟨s, hs, hlen⟩ := (Option.any_eq_true _ _).mp hrun
  have hreach := Steps.runIf_reachIf actions hs
  exact ⟨s, hreach, of_decide_eq_true hlen, active_jobs_bounded (by decide) hreach⟩

/-- A job of two hours is reserved shortly before its window ends, and a second one after that,
    under a limit of one. -/
theorem window_admits_again :
    ∃ s : Schedule ActionId, Steps.Reach Schedule.step { ledger := ⟨[], []⟩ } s ∧
      ∃ control ∈ s.ledger.controls,
        control.limits.maxActiveJobs < (unsettledJobs s.ledger.reservations control.scopeKey).length := by
  let actions : List (LedgerAction ActionId) := [.reserve .catches oneJobMission (jobCallAt 1 86000),
    .reserve .catches oneJobMission (jobCallAt 2 86500)]
  have hrun : (Steps.run Schedule.step { ledger := ⟨[], []⟩ } actions).any (fun s => s.ledger.controls.any fun control =>
      decide (control.limits.maxActiveJobs < (unsettledJobs s.ledger.reservations control.scopeKey).length)) = true := by
    decide +kernel
  obtain ⟨s, hs, hover⟩ := (Option.any_eq_true _ _).mp hrun
  obtain ⟨control, hc, hlt⟩ := List.any_eq_true.mp hover
  exact ⟨s, Steps.run_reach _ hs, control, hc, of_decide_eq_true hlt⟩

end Jarvis.Missions
