/-
  Jarvis.Missions.Liability — what the maximum-liability ledger admits.

  A new row is written only where the totals of its scope and window, its liability included,
  stay within the limits; reconciling to at most the liability and releasing lower them. So
  the ledger stays within its limits as long as no released row comes back: `reserve` returns
  a released row of its action as if it counted, and `reconcile` counts it again.
  A call that is denied has written the scopes before the denying one into its session, which
  a caller that catches the denial commits.
-/
import Jarvis.Lib.Steps
import Jarvis.Missions.Resources
import Mathlib.Algebra.Order.BigOperators.Group.List
import Mathlib.Data.List.Nodup

namespace Jarvis.Missions

variable {α : Type} [DecidableEq α]

/-! ## Controls -/

theorem control?_key {controls : List ControlRow} {key : ScopeKey} {control : ControlRow}
    (h : control? controls key = some control) : control ∈ controls ∧ control.scopeKey = key :=
  ⟨List.mem_of_find?_eq_some h, by simpa using List.find?_some h⟩

theorem mem_missionControls {controls : List ControlRow} {mission : MissionRow} {control : ControlRow}
    (h : control ∈ missionControls controls mission) : control ∈ controls := by
  obtain ⟨key, -, hkey⟩ := List.mem_filterMap.mp h
  exact (control?_key hkey).1

/-- A mission's controls are those of different scopes. -/
theorem missionControls_keys (controls : List ControlRow) (mission : MissionRow) :
    (missionControls controls mission).Pairwise fun a b => a.scopeKey ≠ b.scopeKey := by
  unfold missionControls
  rw [List.pairwise_filterMap]
  have hkeys : [ScopeKey.global, .mission mission.id, .team mission.selectedTeamVersionId].Pairwise (· ≠ ·) := by simp
  refine hkeys.imp fun hne a ha b hb heq => hne ?_
  rw [← (control?_key ha).2, ← (control?_key hb).2, heq]

theorem missionControls_scope {controls : List ControlRow} {mission : MissionRow} {control : ControlRow}
    (h : control ∈ missionControls controls mission) : control.scopeKey ∈ scopeKeys mission := by
  obtain ⟨key, hmem, hkey⟩ := List.mem_filterMap.mp h
  rw [(control?_key hkey).2]
  simpa [scopeKeys, or_comm] using hmem

/-- `ensure_controls` keeps the controls there are and their keys distinct. -/
theorem ensureControls_spec (controls : List ControlRow) (mission : MissionRow) :
    (∀ control ∈ controls, control ∈ ensureControls controls mission) ∧
    ((controls.map (·.scopeKey)).Nodup → ((ensureControls controls mission).map (·.scopeKey)).Nodup) ∧
    ∀ control ∈ ensureControls controls mission, control ∈ controls ∨ ∀ other ∈ controls, other.scopeKey ≠ control.scopeKey := by
  unfold ensureControls
  generalize scopeKeys mission = keys
  induction keys generalizing controls with
  | nil => exact ⟨fun _ h => h, fun h => h, fun _ h => .inl h⟩
  | cons key keys ih =>
    rw [List.foldl_cons]
    split
    · exact ih controls
    · rename_i hnone
      simp only [List.any_eq_true, decide_eq_true_eq, not_exists, not_and] at hnone
      obtain ⟨hkeep, hnodup, hnew⟩ := ih (controls ++ [{ scopeKey := key, limits := initialLimits mission key }])
      refine ⟨fun control h => hkeep control (List.mem_append_left _ h), fun hn => hnodup ?_, fun control h => ?_⟩
      · rw [List.map_append, List.nodup_append]
        refine ⟨hn, by simp, fun a ha b hb => ?_⟩
        obtain ⟨control, hc, rfl⟩ := List.mem_map.mp ha
        simp only [List.map_cons, List.map_nil, List.mem_singleton] at hb
        rw [hb]
        exact hnone control hc
      · rcases hnew control h with h | h
        · rcases List.mem_append.mp h with h | h
          · exact .inl h
          · rw [List.mem_singleton] at h
            subst h
            exact .inr fun other ho => hnone other ho
        · exact .inr fun other ho => h other (List.mem_append_left _ ho)

/-! ## One scope -/

/-- The row `reserve` writes for a scope. -/
def newRow (call : ReserveCall α) (control : ControlRow) : ReservationRow α :=
  { missionId := call.missionId, scopeKey := control.scopeKey, actionId := call.actionId, kind := call.kind,
    liability := call.liability, currency := call.currency, priceUnit := call.priceUnit,
    windowStartedAt := windowStart call.now control.limits }

/-- The scope holds a row of the action. -/
def holds (rows : List (ReservationRow α)) (actionId : α) (key : ScopeKey) : Bool :=
  rows.any fun row => row.scopeKey = key ∧ row.actionId = actionId

/-- A scope that is reserved has its row already, or the new one is checked against the limits and written. -/
theorem reserveScope_cases {call : ReserveCall α} {rows rows' : List (ReservationRow α)} {control : ControlRow}
    {row : ReservationRow α} (h : reserveScope call rows control = .ok (rows', row)) :
    (rows' = rows ∧ row ∈ rows ∧ row.scopeKey = control.scopeKey ∧ row.actionId = call.actionId ∧
      holds rows call.actionId control.scopeKey = true) ∨
    (rows' = rows ++ [row] ∧ row = newRow call control ∧ holds rows call.actionId control.scopeKey = false ∧
      checkTotals control.limits (counting rows control.scopeKey (windowStart call.now control.limits)) call.liability =
        .ok ()) := by
  unfold reserveScope at h
  split at h
  · cases h
  · split at h
    · rename_i existing hfind
      have hmem := List.mem_of_find?_eq_some hfind
      have hkey := List.find?_some hfind
      simp only [decide_eq_true_eq] at hkey
      split at h
      · cases h
      · cases h
        exact .inl ⟨rfl, hmem, hkey.1, hkey.2, List.any_eq_true.mpr ⟨row, hmem, by simpa using hkey⟩⟩
    · rename_i hfind
      dsimp only at h
      split at h
      · cases h
      · split at h
        · cases h
        · rename_i hcheck
          cases h
          refine .inr ⟨rfl, rfl, ?_, hcheck⟩
          rw [holds, List.any_eq_false]
          intro other ho
          simpa using List.find?_eq_none.mp hfind other ho

/-! ## Denied calls -/

/-- What becomes of a denial: it ends the caller's transaction, or the caller catches it and commits. -/
inductive Caller where
  | propagates
  | catches
  deriving DecidableEq, Repr

/-- The ledger after the caller's transaction. -/
def committed (caller : Caller) (ledger : Ledger α) (mission : MissionRow) (call : ReserveCall α) : Ledger α :=
  match caller, (reserve ledger mission call).2 with
  | .propagates, .error _ => ledger
  | _, _ => (reserve ledger mission call).1

/-- Every scope that `reserve` passes before one denies holds a row of the action already. -/
def HeldBefore (call : ReserveCall α) (rows : List (ReservationRow α)) (controls : List ControlRow) : Prop :=
  ∀ control ∈ controls.takeWhile fun control => (reserveScope call rows control).isOk,
    holds rows call.actionId control.scopeKey = true

instance (call : ReserveCall α) (rows : List (ReservationRow α)) (controls : List ControlRow) :
    Decidable (HeldBefore call rows controls) :=
  inferInstanceAs (Decidable (∀ control ∈ controls.takeWhile fun control => (reserveScope call rows control).isOk,
    holds rows call.actionId control.scopeKey = true))

theorem reserveScopes_ok {call : ReserveCall α} {rows rows' : List (ReservationRow α)} {control : ControlRow}
    {row : ReservationRow α} (controls : List ControlRow) (h : reserveScope call rows control = .ok (rows', row)) :
    reserveScopes call rows (control :: controls) =
      ((reserveScopes call rows' controls).1, (reserveScopes call rows' controls).2.map (row :: ·)) := by
  rw [reserveScopes, h]

theorem reserveScopes_error {call : ReserveCall α} {rows : List (ReservationRow α)} {control : ControlRow} {e : BudgetDenied}
    (controls : List ControlRow) (h : reserveScope call rows control = .error e) :
    reserveScopes call rows (control :: controls) = (rows, .error e) := by
  rw [reserveScopes, h]

theorem map_eq_error {ε β γ : Type} {x : Except ε β} {f : β → γ} {e : ε} (h : x.map f = .error e) : x = .error e := by
  cases x with
  | error e' => cases h; rfl
  | ok b => cases h

/-- A session only appends rows. -/
theorem reserveScopes_append (call : ReserveCall α) : ∀ (controls : List ControlRow) (rows : List (ReservationRow α)),
    ∃ added, (reserveScopes call rows controls).1 = rows ++ added := by
  intro controls
  induction controls with
  | nil => intro rows; exact ⟨[], by simp [reserveScopes]⟩
  | cons control controls ih =>
    intro rows
    cases hscope : reserveScope call rows control with
    | error e => exact ⟨[], by rw [reserveScopes_error controls hscope, List.append_nil]⟩
    | ok result =>
      obtain ⟨rows', row⟩ := result
      obtain ⟨added, heq⟩ := ih rows'
      rw [reserveScopes_ok controls hscope, heq]
      obtain ⟨rfl, -⟩ | ⟨rfl, -⟩ := reserveScope_cases hscope
      · exact ⟨added, rfl⟩
      · exact ⟨row :: added, by simp⟩

/-- A denied session has no new row exactly when every scope before the denying one was held. -/
theorem reserveScopes_denied {call : ReserveCall α} : ∀ {controls : List ControlRow} {rows : List (ReservationRow α)}
    {e : BudgetDenied}, (reserveScopes call rows controls).2 = .error e →
    ((∀ row ∈ (reserveScopes call rows controls).1, row ∈ rows) ↔ HeldBefore call rows controls) := by
  intro controls
  induction controls with
  | nil => intro rows e h; cases h
  | cons control controls ih =>
    intro rows e h
    unfold HeldBefore
    rw [List.takeWhile_cons]
    cases hscope : reserveScope call rows control with
    | error e' =>
      rw [reserveScopes_error controls hscope]
      exact iff_of_true (fun _ h => h) (by simp [Except.isOk, Except.toBool])
    | ok result =>
      obtain ⟨rows', row⟩ := result
      rw [reserveScopes_ok controls hscope] at h ⊢
      have hdenied := map_eq_error h
      rw [show (Except.ok (rows', row) : Except BudgetDenied _).isOk = true from rfl, if_pos rfl]
      obtain ⟨rfl, -, -, -, hheld⟩ | ⟨rfl, hnew, hheld, -⟩ := reserveScope_cases hscope
      · rw [List.forall_mem_cons]
        exact (ih hdenied).trans ⟨fun hall => ⟨hheld, hall⟩, fun hall => hall.2⟩
      · -- the new row stays in the session, and it was not there before
        refine iff_of_false (fun hall => ?_) (fun hall => ?_)
        · obtain ⟨added, heq⟩ := reserveScopes_append call controls (rows ++ [row])
          have hin := hall row (by rw [heq]; simp)
          rw [holds, List.any_eq_false] at hheld
          exact hheld row hin (by simp [hnew, newRow])
        · rw [hall control List.mem_cons_self] at hheld
          cases hheld

/-- After a denied call no scope has a new reservation exactly when the denial ended the
    transaction or every scope before the denying one already held a row of the action. -/
theorem denied_leaves_no_row_iff (caller : Caller) (ledger : Ledger α) (mission : MissionRow) (call : ReserveCall α)
    (e : BudgetDenied) (h : (reserve ledger mission call).2 = .error e) :
    (∀ row ∈ (committed caller ledger mission call).reservations, row ∈ ledger.reservations) ↔
      caller = .propagates ∨
        HeldBefore call ledger.reservations (missionControls (ensureControls ledger.controls mission) mission) := by
  unfold committed
  rw [h]
  cases caller with
  | propagates => exact iff_of_true (fun _ h => h) (.inl rfl)
  | catches =>
    have hdenied := reserveScopes_denied h
    rw [show (Caller.catches = .propagates) = False by simp, false_or]
    exact hdenied

/-! ## Totals -/

section Totals

variable {M : Type} [AddCommMonoid M]

/-- What the rows of a scope and a window count in one field. -/
def spent (field : Amounts → M) (rows : List (ReservationRow α)) (key : ScopeKey) (window : Nat) : M :=
  ((counting rows key window).map fun row => field row.values).sum

omit [DecidableEq α] in
theorem spent_append (field : Amounts → M) (rows : List (ReservationRow α)) (row : ReservationRow α) (key : ScopeKey)
    (window : Nat) : spent field (rows ++ [row]) key window =
      spent field rows key window +
        if row.scopeKey = key ∧ row.windowStartedAt = window ∧ row.status ≠ .released then field row.values else 0 := by
  unfold spent counting
  rw [List.filter_append, List.map_append, List.sum_append, List.filter_cons, List.filter_nil]
  congr 1
  by_cases hc : row.scopeKey = key ∧ row.windowStartedAt = window ∧ row.status ≠ .released
  · rw [if_pos hc, if_pos (by simpa using hc)]
    simp
  · rw [if_neg hc, if_neg (by simpa using hc)]
    rfl

variable [PartialOrder M] [IsOrderedAddMonoid M] [CanonicallyOrderedAdd M]

omit [DecidableEq α] in
/-- Rewriting rows so that none counts more, or counts again, does not raise a total. -/
theorem spent_map_le (field : Amounts → M) {f : ReservationRow α → ReservationRow α} {rows : List (ReservationRow α)}
    (key : ScopeKey) (window : Nat)
    (h : ∀ row ∈ rows, (f row).scopeKey = row.scopeKey ∧ (f row).windowStartedAt = row.windowStartedAt ∧
      ((f row).status ≠ .released → row.status ≠ .released ∧ field (f row).values ≤ field row.values)) :
    spent field (rows.map f) key window ≤ spent field rows key window := by
  induction rows with
  | nil => exact le_refl _
  | cons row rows ih =>
    have hrest := ih fun other ho => h other (List.mem_cons_of_mem _ ho)
    obtain ⟨hkey, hwindow, hstatus⟩ := h row List.mem_cons_self
    unfold spent counting at hrest ⊢
    simp only [List.map_cons, List.filter_cons, hkey, hwindow]
    by_cases hc : row.scopeKey = key ∧ row.windowStartedAt = window ∧ (f row).status ≠ .released
    · obtain ⟨hlive, hle⟩ := hstatus hc.2.2
      have hold : row.scopeKey = key ∧ row.windowStartedAt = window ∧ row.status ≠ .released := ⟨hc.1, hc.2.1, hlive⟩
      simp only [hc, hold, decide_true, if_true, List.map_cons, List.sum_cons, ne_eq, not_false_eq_true, and_self]
      exact add_le_add hle hrest
    · rw [if_neg (by simpa using hc)]
      split
      · rw [List.map_cons, List.sum_cons]
        exact le_trans hrest le_add_self
      · exact hrest

end Totals

/-- The total of each count and of the cost is within the limits of its scope. -/
structure WithinLimits (limits : MissionResourceLimits) (rows : List (ReservationRow α)) (key : ScopeKey) (window : Nat) :
    Prop where
  counts : ∀ field, spent (fun values => values.count field) rows key window ≤ limits.limit field
  cost : spent Amounts.cost rows key window = 0 ∨
    ∃ most, limits.maxCost = some most ∧ spent Amounts.cost rows key window ≤ most

omit [DecidableEq α] in
theorem costAmounts_sum (rows : List (ReservationRow α)) (liability : Amounts) :
    (costAmounts rows liability).sum = (rows.map fun row => row.values.cost).sum + liability.cost := by
  unfold costAmounts
  rw [List.sum_append]
  congr 1
  · induction rows with
    | nil => rfl
    | cons row rows ih =>
      rw [List.map_cons, List.sum_cons, ← ih, List.filterMap_cons, Amounts.cost]
      cases row.values.costAmount with
      | none => simp
      | some amount => simp
  · cases h : liability.costAmount <;> simp [Amounts.cost, h]

omit [DecidableEq α] in
theorem checkTotals_counts {limits : MissionResourceLimits} {rows : List (ReservationRow α)} {liability : Amounts}
    (h : checkTotals limits rows liability = .ok ()) (field : CountField) :
    (rows.map fun row => row.values.count field).sum + liability.count field ≤ limits.limit field := by
  unfold checkTotals at h
  split at h
  · cases h
  · rename_i hnone
    have hle := List.find?_eq_none.mp hnone field field.mem_countFields
    by_contra hlt
    exact hle (decide_eq_true (not_le.mp hlt))

omit [DecidableEq α] in
/-- A check that passes leaves room for the liability, if the cost was added without rounding. -/
theorem checkTotals_ok {limits : MissionResourceLimits} {rows : List (ReservationRow α)} {liability : Amounts}
    (h : checkTotals limits rows liability = .ok ()) (hfits : Decimal.Fits 0 (costAmounts rows liability)) :
    (∀ field, (rows.map fun row => row.values.count field).sum + liability.count field ≤ limits.limit field) ∧
    ((rows.map fun row => row.values.cost).sum + liability.cost = 0 ∨
      ∃ most, limits.maxCost = some most ∧ (rows.map fun row => row.values.cost).sum + liability.cost ≤ most) := by
  refine ⟨checkTotals_counts h, ?_⟩
  unfold checkTotals at h
  split at h
  · cases h
  · rw [Decimal.total_of_fits hfits, zero_add, costAmounts_sum] at h
    dsimp only at h
    split at h
    · cases h
    · rename_i hcost
      by_cases hzero : (rows.map fun row => row.values.cost).sum + liability.cost = 0
      · exact .inl hzero
      · cases hmax : limits.maxCost with
        | none => simp [hmax, hzero] at hcost
        | some most => exact .inr ⟨most, rfl, by simpa [hmax, hzero] using hcost⟩

omit [DecidableEq α] in
theorem WithinLimits.of_le {limits : MissionResourceLimits} {rows rows' : List (ReservationRow α)} {key : ScopeKey}
    {window : Nat} (h : WithinLimits limits rows key window)
    (hcount : ∀ field, spent (fun values => values.count field) rows' key window ≤
      spent (fun values => values.count field) rows key window)
    (hcost : spent Amounts.cost rows' key window ≤ spent Amounts.cost rows key window) :
    WithinLimits limits rows' key window := by
  refine ⟨fun field => (hcount field).trans (h.counts field), ?_⟩
  rcases h.cost with hzero | ⟨most, hmax, hle⟩
  · exact .inl (le_antisymm (hzero ▸ hcost) zero_le)
  · exact .inr ⟨most, hmax, hcost.trans hle⟩

/-! ## The ledger over time -/

inductive LedgerAction (α : Type) where
  | reserve (caller : Caller) (mission : MissionRow) (call : ReserveCall α)
  | reconcile (mission : MissionRow) (actionId : α) (actual : Option Amounts) (unknown : Bool) (now : Nat)
  | release (mission : MissionRow) (actionId : α) (now : Nat)

def ledgerStep (ledger : Ledger α) : LedgerAction α → Option (Ledger α)
  | .reserve caller mission call => some (committed caller ledger mission call)
  | .reconcile mission actionId actual unknown now => (reconcile ledger mission actionId actual unknown now).toOption
  | .release mission actionId now => some (release ledger mission actionId now)

/-- The actual use that is reported is at most what was reserved. -/
def reportsAtMost (ledger : Ledger α) : LedgerAction α → Prop
  | .reconcile mission actionId (some actual) false _ =>
    ∀ row ∈ ledger.reservations, selected mission actionId row = true →
      (∀ field ∈ countFields, actual.count field ≤ row.liability.count field) ∧ actual.cost ≤ row.liability.cost
  | _ => True

instance (ledger : Ledger α) : ∀ action, Decidable (reportsAtMost ledger action)
  | .reconcile mission actionId (some actual) false _ =>
    inferInstanceAs (Decidable (∀ row ∈ ledger.reservations, selected mission actionId row = true →
      (∀ field ∈ countFields, actual.count field ≤ row.liability.count field) ∧ actual.cost ≤ row.liability.cost))
  | .reconcile _ _ none _ _ => isTrue trivial
  | .reconcile _ _ (some _) true _ => isTrue trivial
  | .reserve _ _ _ => isTrue trivial
  | .release _ _ _ => isTrue trivial

/-- No scope of the mission has a released row of the action. -/
def unreleased (ledger : Ledger α) (mission : MissionRow) (actionId : α) : Bool :=
  ledger.reservations.all fun row => !(selected mission actionId row && decide (row.status = .released))

/-- The costs that a reservation adds up need no rounding. -/
def costsFit (ledger : Ledger α) (mission : MissionRow) (call : ReserveCall α) : Prop :=
  ∀ control ∈ missionControls (ensureControls ledger.controls mission) mission,
    Decimal.Fits 0 (costAmounts (counting ledger.reservations control.scopeKey (windowStart call.now control.limits))
      call.liability)

instance (ledger : Ledger α) (mission : MissionRow) (call : ReserveCall α) : Decidable (costsFit ledger mission call) :=
  inferInstanceAs (Decidable (∀ control ∈ missionControls (ensureControls ledger.controls mission) mission,
    Decimal.Fits 0 (costAmounts (counting ledger.reservations control.scopeKey (windowStart call.now control.limits))
      call.liability)))

/-- The action does not meet a released row of its own, nor amounts beyond 28 digits. -/
def keepsReleased (ledger : Ledger α) : LedgerAction α → Prop
  | .reserve _ mission call => unreleased ledger mission call.actionId = true ∧ costsFit ledger mission call
  | .reconcile mission actionId _ _ _ => unreleased ledger mission actionId = true
  | .release _ _ _ => True

instance (ledger : Ledger α) : ∀ action, Decidable (keepsReleased ledger action)
  | .reserve _ mission call =>
    inferInstanceAs (Decidable (unreleased ledger mission call.actionId = true ∧ costsFit ledger mission call))
  | .reconcile mission actionId _ _ _ => inferInstanceAs (Decidable (unreleased ledger mission actionId = true))
  | .release _ _ _ => isTrue trivial

/-- The keys of the controls are distinct and every scope is within its limits in every window. -/
structure Bounded (ledger : Ledger α) : Prop where
  keys : (ledger.controls.map (·.scopeKey)).Nodup
  within : ∀ control ∈ ledger.controls, ∀ window,
    WithinLimits control.limits ledger.reservations control.scopeKey window
  covered : ∀ row ∈ ledger.reservations, ∃ control ∈ ledger.controls, control.scopeKey = row.scopeKey

omit [DecidableEq α] in
/-- A row of one scope leaves the rows that another scope counts as they are. -/
theorem counting_append_other {rows : List (ReservationRow α)} {row : ReservationRow α} {key : ScopeKey} {window : Nat}
    (h : row.scopeKey ≠ key) : counting (rows ++ [row]) key window = counting rows key window := by
  unfold counting
  rw [List.filter_append, List.filter_cons, if_neg (by simp [h]), List.filter_nil, List.append_nil]

omit [DecidableEq α] in
theorem Bounded.ensure {ledger : Ledger α} (h : Bounded ledger) (mission : MissionRow) :
    Bounded { ledger with controls := ensureControls ledger.controls mission } := by
  obtain ⟨hkeep, hnodup, hnew⟩ := ensureControls_spec ledger.controls mission
  refine ⟨hnodup h.keys, fun control hc window => ?_, fun row hrow => ?_⟩
  · rcases hnew control hc with hold | hother
    · exact h.within control hold window
    · -- a scope without a control has no rows
      have hempty : counting ledger.reservations control.scopeKey window = [] := by
        unfold counting
        rw [List.filter_eq_nil_iff]
        intro row hrow
        obtain ⟨other, ho, hkey⟩ := h.covered row hrow
        have hne := hother other ho
        simp [← hkey, hne]
      exact ⟨fun field => by simp [spent, hempty], .inl (by simp [spent, hempty])⟩
  · obtain ⟨control, hc, hkey⟩ := h.covered row hrow
    exact ⟨control, hkeep control hc, hkey⟩

/-- A scope that is reserved stays within its limits, and so do the others. -/
theorem Bounded.scope {controls : List ControlRow} {rows rows' : List (ReservationRow α)} {call : ReserveCall α}
    {control : ControlRow} {row : ReservationRow α} (h : Bounded ⟨controls, rows⟩) (hc : control ∈ controls)
    (hfits : Decimal.Fits 0 (costAmounts (counting rows control.scopeKey (windowStart call.now control.limits)) call.liability))
    (hscope : reserveScope call rows control = .ok (rows', row)) : Bounded (⟨controls, rows'⟩ : Ledger α) := by
  obtain ⟨rfl, -⟩ | ⟨rfl, hnew, -, hcheck⟩ := reserveScope_cases hscope
  · exact h
  · obtain ⟨hcount, hcost⟩ := checkTotals_ok hcheck hfits
    refine ⟨h.keys, fun other ho window => ?_, fun r hr => ?_⟩
    · by_cases hcase : row.scopeKey = other.scopeKey ∧ row.windowStartedAt = window ∧ row.status ≠ .released
      · have hsame : other = control := by
          refine List.inj_on_of_nodup_map h.keys ho hc ?_
          rw [← hcase.1, hnew]
          rfl
        have hwindow : window = windowStart call.now control.limits := by
          rw [← hcase.2.1, hnew]
          rfl
        have hvalues : row.values = call.liability := by
          rw [hnew]
          rfl
        subst hsame hwindow
        refine ⟨fun field => ?_, ?_⟩
        · rw [spent_append, if_pos hcase, hvalues]
          exact hcount field
        · rw [spent_append, if_pos hcase, hvalues]
          exact hcost
      · refine (h.within other ho window).of_le (fun field => ?_) ?_
        all_goals rw [spent_append, if_neg hcase, add_zero]
    · rcases List.mem_append.mp hr with hr | hr
      · exact h.covered r hr
      · rw [List.mem_singleton] at hr
        exact ⟨control, hc, by rw [hr, hnew]; rfl⟩

/-- The loop of `reserve` keeps the ledger within its limits, and what it returns counts. -/
theorem Bounded.scopes {all : List ControlRow} {call : ReserveCall α} {keys : List ScopeKey} :
    ∀ {controls : List ControlRow} {rows : List (ReservationRow α)}, (∀ control ∈ controls, control ∈ all) →
    controls.Pairwise (fun a b => a.scopeKey ≠ b.scopeKey) → (∀ control ∈ controls, control.scopeKey ∈ keys) →
    (∀ control ∈ controls,
      Decimal.Fits 0 (costAmounts (counting rows control.scopeKey (windowStart call.now control.limits)) call.liability)) →
    (∀ row ∈ rows, row.scopeKey ∈ keys → row.actionId = call.actionId → row.status ≠ .released) →
    Bounded (⟨all, rows⟩ : Ledger α) →
    Bounded (⟨all, (reserveScopes call rows controls).1⟩ : Ledger α) ∧
      ∀ created, (reserveScopes call rows controls).2 = .ok created →
        ∀ row ∈ created, row ∈ (reserveScopes call rows controls).1 ∧ row.status ≠ .released := by
  intro controls
  induction controls with
  | nil =>
    intro rows _ _ _ _ _ h
    refine ⟨h, fun created hcreated row hrow => ?_⟩
    cases hcreated
    cases hrow
  | cons control controls ih =>
    intro rows hall hpairs hkeys hfits hlive h
    obtain ⟨hfirst, hrest⟩ := List.pairwise_cons.mp hpairs
    cases hscope : reserveScope call rows control with
    | error e =>
      rw [reserveScopes_error controls hscope]
      exact ⟨h, fun created hcreated => nomatch hcreated⟩
    | ok result =>
      obtain ⟨rows', row⟩ := result
      have hbound := h.scope (hall control List.mem_cons_self) (hfits control List.mem_cons_self) hscope
      -- the rest of the loop sees the same rows in its scopes, and no released row of the action
      have hnext : row ∈ rows' ∧ row.status ≠ .released ∧
          (∀ other ∈ controls, Decimal.Fits 0
            (costAmounts (counting rows' other.scopeKey (windowStart call.now other.limits)) call.liability)) ∧
          ∀ r ∈ rows', r.scopeKey ∈ keys → r.actionId = call.actionId → r.status ≠ .released := by
        obtain ⟨rfl, hmem, hkey, haction, -⟩ | ⟨rfl, hnew, -⟩ := reserveScope_cases hscope
        · refine ⟨hmem, hlive row hmem ?_ haction, fun other ho => hfits other (List.mem_cons_of_mem _ ho), hlive⟩
          rw [hkey]
          exact hkeys control List.mem_cons_self
        · have hreserved : row.status ≠ .released := by simp [hnew, newRow]
          refine ⟨by simp, hreserved, fun other ho => ?_, fun r hr => ?_⟩
          · rw [counting_append_other (by rw [hnew]; exact hfirst other ho)]
            exact hfits other (List.mem_cons_of_mem _ ho)
          · rcases List.mem_append.mp hr with hr | hr
            · exact hlive r hr
            · rw [List.mem_singleton.mp hr]
              exact fun _ _ => hreserved
      obtain ⟨hmem, hcounted, hfits', hlive'⟩ := hnext
      obtain ⟨hfinal, hcreated⟩ := ih (fun c hc => hall c (List.mem_cons_of_mem _ hc)) hrest
        (fun c hc => hkeys c (List.mem_cons_of_mem _ hc)) hfits' hlive' hbound
      rw [reserveScopes_ok controls hscope]
      refine ⟨hfinal, fun created hok => ?_⟩
      cases hsession : (reserveScopes call rows' controls).2 with
      | error e => rw [hsession] at hok; cases hok
      | ok later =>
        rw [hsession] at hok
        cases hok
        intro r hr
        rcases List.mem_cons.mp hr with rfl | hr
        · obtain ⟨added, heq⟩ := reserveScopes_append call controls rows'
          exact ⟨by simp only [heq]; exact List.mem_append_left _ hmem, hcounted⟩
        · exact hcreated later hsession r hr

theorem unreleased_iff {ledger : Ledger α} {mission : MissionRow} {actionId : α} :
    unreleased ledger mission actionId = true ↔
      ∀ row ∈ ledger.reservations, row.scopeKey ∈ scopeKeys mission → row.actionId = actionId → row.status ≠ .released := by
  rw [unreleased, List.all_eq_true]
  refine forall₂_congr fun row _ => ?_
  by_cases hkey : row.scopeKey ∈ scopeKeys mission <;> by_cases haction : row.actionId = actionId <;>
    simp [selected, hkey, haction]

/-- A reservation keeps the ledger within its limits, and a successful one counts. -/
theorem Bounded.reserve {ledger : Ledger α} {mission : MissionRow} {call : ReserveCall α} (h : Bounded ledger)
    (hlive : unreleased ledger mission call.actionId = true) (hfits : costsFit ledger mission call) :
    Bounded (Missions.reserve ledger mission call).1 ∧
      ∀ created, (Missions.reserve ledger mission call).2 = .ok created →
        ∀ row ∈ created, row ∈ (Missions.reserve ledger mission call).1.reservations ∧ row.status ≠ .released :=
  Bounded.scopes (fun _ hc => mem_missionControls hc) (missionControls_keys _ mission)
    (fun _ hc => missionControls_scope hc) hfits (unreleased_iff.mp hlive) (h.ensure mission)

omit [DecidableEq α] in
/-- Rewriting rows so that none counts more, or counts again, keeps the ledger within its limits. -/
theorem Bounded.map {ledger : Ledger α} {f : ReservationRow α → ReservationRow α} (h : Bounded ledger)
    (hf : ∀ row ∈ ledger.reservations, (f row).scopeKey = row.scopeKey ∧ (f row).windowStartedAt = row.windowStartedAt ∧
      ((f row).status ≠ .released → row.status ≠ .released ∧
        (∀ field, (f row).values.count field ≤ row.values.count field) ∧ (f row).values.cost ≤ row.values.cost)) :
    Bounded { ledger with reservations := ledger.reservations.map f } := by
  refine ⟨h.keys, fun control hc window => ?_, fun row hrow => ?_⟩
  · refine (h.within control hc window).of_le (fun field => ?_) ?_
    · refine spent_map_le _ _ _ fun row hrow => ⟨(hf row hrow).1, (hf row hrow).2.1, fun hs => ?_⟩
      exact ⟨((hf row hrow).2.2 hs).1, ((hf row hrow).2.2 hs).2.1 field⟩
    · refine spent_map_le _ _ _ fun row hrow => ⟨(hf row hrow).1, (hf row hrow).2.1, fun hs => ?_⟩
      exact ⟨((hf row hrow).2.2 hs).1, ((hf row hrow).2.2 hs).2.2⟩
  · obtain ⟨old, hold, rfl⟩ := List.mem_map.mp hrow
    obtain ⟨control, hc, hkey⟩ := h.covered old hold
    exact ⟨control, hc, hkey.trans (hf old hold).1.symm⟩

omit [DecidableEq α] in
theorem count_empty (field : CountField) : ({} : Amounts).count field = 0 := by
  cases field <;> rfl

/-- A reconciled row that was not released counts at most what it did. -/
theorem reconciled_values {row : ReservationRow α} {mission : MissionRow} {actionId : α} {actual : Option Amounts}
    {unknown : Bool} {now : Nat} {ledger : Ledger α} (hrow : row ∈ ledger.reservations)
    (hsel : selected mission actionId row = true)
    (hmost : reportsAtMost ledger (.reconcile mission actionId actual unknown now)) :
    (∀ field, (row.reconciled actual unknown now).values.count field ≤ row.values.count field) ∧
      (row.reconciled actual unknown now).values.cost ≤ row.values.cost := by
  unfold ReservationRow.reconciled
  split
  · exact ⟨fun _ => le_refl _, le_refl _⟩
  · rename_i hstatus
    have hreserved : row.values = row.liability := by simp [ReservationRow.values, not_or.mp hstatus]
    rw [hreserved]
    cases unknown with
    | true => exact ⟨fun _ => le_refl _, le_refl _⟩
    | false =>
      cases actual with
      | none => exact ⟨fun field => by simp [ReservationRow.values, count_empty], by simp [ReservationRow.values, Amounts.cost]⟩
      | some actual =>
        obtain ⟨hcount, hcost⟩ := hmost row hrow hsel
        exact ⟨fun field => hcount field field.mem_countFields, hcost⟩

theorem Bounded.step {ledger ledger' : Ledger α} {action : LedgerAction α} (h : Bounded ledger)
    (hmost : reportsAtMost ledger action) (hkeeps : keepsReleased ledger action)
    (hs : ledgerStep ledger action = some ledger') : Bounded ledger' := by
  cases action with
  | reserve caller mission call =>
    cases hs
    have hsession := (h.reserve hkeeps.1 hkeeps.2).1
    unfold committed
    split
    · exact h
    · exact hsession
  | reconcile mission actionId actual unknown now =>
    simp only [ledgerStep, reconcile] at hs
    split at hs
    · cases hs
      refine h.map fun row hrow => ?_
      split
      · rename_i hsel
        have hmem : row.scopeKey ∈ scopeKeys mission ∧ row.actionId = actionId := by simpa [selected] using hsel
        have hlive := unreleased_iff.mp hkeeps row hrow hmem.1 hmem.2
        refine ⟨?_, ?_, fun _ => ⟨hlive, reconciled_values hrow hsel hmost⟩⟩
        all_goals unfold ReservationRow.reconciled; split <;> rfl
      · exact ⟨rfl, rfl, fun hs => ⟨hs, fun _ => le_refl _, le_refl _⟩⟩
    · cases hs
  | release mission actionId now =>
    cases hs
    refine h.map fun row hrow => ?_
    split
    · unfold ReservationRow.release
      split
      · exact ⟨rfl, rfl, fun hs => absurd rfl hs⟩
      · exact ⟨rfl, rfl, fun hs => ⟨hs, fun _ => le_refl _, le_refl _⟩⟩
    · exact ⟨rfl, rfl, fun hs => ⟨hs, fun _ => le_refl _, le_refl _⟩⟩

/-- Along reservations, reconciliations and releases that never meet a released row of their
    action, every scope and window stays within its limits, and what `reserve` returns counts. -/
theorem ledger_within_limits {controls : List ControlRow} (hkeys : (controls.map (·.scopeKey)).Nodup) {ledger : Ledger α}
    (h : Steps.ReachIf ledgerStep (fun ledger action => reportsAtMost ledger action ∧ keepsReleased ledger action)
      ⟨controls, []⟩ ledger) :
    (∀ control ∈ ledger.controls, ∀ window, WithinLimits control.limits ledger.reservations control.scopeKey window) ∧
    ∀ caller mission call created, keepsReleased ledger (.reserve caller mission call) →
      (reserve ledger mission call).2 = .ok created → ∀ row ∈ created,
        row ∈ counting (committed caller ledger mission call).reservations row.scopeKey row.windowStartedAt := by
  have hbounded : Bounded ledger := by
    refine h.invariant _ ⟨hkeys, fun _ _ _ => ⟨fun _ => by simp [spent, counting], .inl (by simp [spent, counting])⟩,
      fun _ hrow => nomatch hrow⟩ fun _ _ _ hb hok hs => hb.step hok.1 hok.2 hs
  refine ⟨hbounded.within, fun caller mission call created hkeeps hok row hrow => ?_⟩
  obtain ⟨hmem, hlive⟩ := (hbounded.reserve hkeeps.1 hkeeps.2).2 created hok row hrow
  have hcommitted : committed caller ledger mission call = (reserve ledger mission call).1 := by
    unfold committed
    rw [hok]
    cases caller <;> rfl
  rw [hcommitted, counting, List.mem_filter]
  exact ⟨hmem, by simpa using hlive⟩

/-! ## A mission with one job's time to spend -/

def sampleMission : MissionRow where
  id := 1
  projectId := 1
  mode := .real
  autonomous := true
  resourceLimits := { maxActiveJobs := 2, maxWallSeconds := 7200 }
  selectedTeamVersionId := 1

/-- What `start_item` and `dispatch_ready` reserve for a work item. -/
def jobCall (item : Nat) : ReserveCall ActionId where
  missionId := 1
  actionId := .job item
  kind := .jobExecution
  liability := { activeJobs := some 1, wallSeconds := some 7200 }
  currency := "USD"
  now := 0

theorem ledger_within_limits_sampleMission :
    ∃ ledger, Steps.ReachIf ledgerStep (fun ledger action => reportsAtMost ledger action ∧ keepsReleased ledger action)
        (⟨[], []⟩ : Ledger ActionId) ledger ∧ ledger.reservations.length = 3 ∧
      ∀ control ∈ ledger.controls, ∀ window,
        WithinLimits control.limits ledger.reservations control.scopeKey window := by
  let actions : List (LedgerAction ActionId) := [.reserve .catches sampleMission (jobCall 1),
    .reserve .propagates sampleMission (jobCall 2),
    .reconcile sampleMission (.job 1) (some { activeJobs := some 0, wallSeconds := some 60 }) false 60]
  have hrun : (Steps.runIf ledgerStep (fun ledger action => reportsAtMost ledger action ∧ keepsReleased ledger action)
      ⟨[], []⟩ actions).any (fun ledger => ledger.reservations.length = 3) = true := by decide +kernel
  obtain ⟨ledger, hledger, hlen⟩ := (Option.any_eq_true _ _).mp hrun
  have hreach := Steps.runIf_reachIf actions hledger
  exact ⟨ledger, hreach, of_decide_eq_true hlen, (ledger_within_limits (by decide) hreach).1⟩

/-- The first item's start fails and releases; the second item takes the time; the first item's
    next start finds the released row, runs, and counts again when it is settled. -/
theorem released_row_counts_again :
    (∃ ledger : Ledger ActionId, Steps.ReachIf ledgerStep reportsAtMost ⟨[], []⟩ ledger ∧
      ∃ control ∈ ledger.controls, ¬ WithinLimits control.limits ledger.reservations control.scopeKey 0) ∧
    ∃ ledger : Ledger ActionId, Steps.ReachIf ledgerStep reportsAtMost ⟨[], []⟩ ledger ∧
      ∃ created, (reserve ledger sampleMission (jobCall 1)).2 = .ok created ∧ ∃ row ∈ created,
        row ∉ counting (reserve ledger sampleMission (jobCall 1)).1.reservations row.scopeKey row.windowStartedAt := by
  let before : List (LedgerAction ActionId) := [.reserve .propagates sampleMission (jobCall 1),
    .release sampleMission (.job 1) 0, .reserve .catches sampleMission (jobCall 2)]
  let after : List (LedgerAction ActionId) := [.reserve .propagates sampleMission (jobCall 1),
    .reconcile sampleMission (.job 1) (some { activeJobs := some 0, wallSeconds := some 7200 }) false 7200]
  refine ⟨?_, ?_⟩
  · have hrun : (Steps.runIf ledgerStep reportsAtMost ⟨[], []⟩ (before ++ after)).any (fun ledger =>
        ledger.controls.any fun control => decide (control.limits.limit .wallSeconds <
          spent (fun values => values.count .wallSeconds) ledger.reservations control.scopeKey 0)) = true := by
      decide +kernel
    obtain ⟨ledger, hledger, hover⟩ := (Option.any_eq_true _ _).mp hrun
    obtain ⟨control, hc, hlt⟩ := List.any_eq_true.mp hover
    exact ⟨ledger, Steps.runIf_reachIf _ hledger, control, hc,
      fun hw => absurd (of_decide_eq_true hlt) (Nat.not_lt.mpr (hw.counts .wallSeconds))⟩
  · have hrun : (Steps.runIf ledgerStep reportsAtMost ⟨[], []⟩ before).any (fun ledger =>
        match (reserve ledger sampleMission (jobCall 1)).2 with
        | .ok created => created.any fun row => decide (row ∉ counting
            (reserve ledger sampleMission (jobCall 1)).1.reservations row.scopeKey row.windowStartedAt)
        | .error _ => false) = true := by
      decide +kernel
    obtain ⟨ledger, hledger, hmissing⟩ := (Option.any_eq_true _ _).mp hrun
    refine ⟨ledger, Steps.runIf_reachIf _ hledger, ?_⟩
    revert hmissing
    split
    · intro hmissing
      rename_i created hcreated
      obtain ⟨row, hrow, hnot⟩ := List.any_eq_true.mp hmissing
      exact ⟨created, hcreated, row, hrow, of_decide_eq_true hnot⟩
    · intro hmissing
      cases hmissing

/-- The global scope has room, the mission's has not: the global row stays. -/
theorem denied_row_committed :
    ∃ ledger : Ledger ActionId, ∃ e, (reserve ledger sampleMission (jobCall 2)).2 = .error e ∧
      ¬ ∀ row ∈ (committed .catches ledger sampleMission (jobCall 2)).reservations, row ∈ ledger.reservations := by
  refine ⟨(reserve ⟨[], []⟩ sampleMission (jobCall 1)).1, .exceeded .wallSeconds, ?_, ?_⟩ <;> decide +kernel

theorem denied_leaves_no_row_iff_sampleMission :
    (reserve (reserve ⟨[], []⟩ sampleMission (jobCall 1)).1 sampleMission (jobCall 2)).2 =
        .error (.exceeded .wallSeconds) ∧
      ∀ row ∈ (committed .propagates (reserve ⟨[], []⟩ sampleMission (jobCall 1)).1 sampleMission (jobCall 2)).reservations,
        row ∈ (reserve ⟨[], []⟩ sampleMission (jobCall 1)).1.reservations := by
  have hdenied : (reserve (reserve ⟨[], []⟩ sampleMission (jobCall 1)).1 sampleMission (jobCall 2)).2 =
      .error (.exceeded .wallSeconds) := by decide +kernel
  exact ⟨hdenied, (denied_leaves_no_row_iff .propagates _ _ _ _ hdenied).mpr (.inl rfl)⟩

end Jarvis.Missions
