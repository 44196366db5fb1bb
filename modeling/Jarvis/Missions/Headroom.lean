/-
  Jarvis.Missions.Headroom — what a mission may still reserve once others have reserved.

  The controls that another mission ensures are those that the mission would ensure itself, so they
  change neither its admission nor its limits (`missionControls_ensured`). What others have reserved
  for their jobs takes up the shared scopes: a reservation that fits beside it fits without it too
  (`reserveScopes_headroom`), but not the other way round.
-/
import Jarvis.Missions.Liability

namespace Jarvis.Missions

/-! ## Controls -/

section Controls

variable {controls : List ControlRow} {mission other : MissionRow}

/-- `ensure_controls` adds the rows that are missing. -/
theorem control?_ensureControls (controls : List ControlRow) (mission : MissionRow) (key : ScopeKey) :
    control? (ensureControls controls mission) key =
      (control? controls key).or
        (if key ∈ scopeKeys mission then some { scopeKey := key, limits := initialLimits mission key } else none) := by
  unfold ensureControls
  generalize scopeKeys mission = keys
  induction keys generalizing controls with
  | nil => simp
  | cons first keys ih =>
    rw [List.foldl_cons, ih]
    by_cases hany : controls.any (·.scopeKey = first)
    · rw [if_pos hany]
      by_cases hkey : key = first
      · -- the row is there already
        subst hkey
        obtain ⟨control, hcontrol⟩ : ∃ control, control? controls key = some control :=
          Option.isSome_iff_exists.mp (List.find?_isSome.mpr (List.any_eq_true.mp hany))
        rw [hcontrol]
        rfl
      · simp [hkey]
    · rw [if_neg hany]
      have hnone : control? controls first = none := by
        refine List.find?_eq_none.mpr fun control hmem hkey => hany (List.any_eq_true.mpr ⟨control, hmem, hkey⟩)
      have hsplit : ∀ row : ControlRow, control? (controls ++ [row]) key =
          (control? controls key).or (if row.scopeKey = key then some row else none) := by
        intro row
        unfold control?
        rw [List.find?_append, List.find?_cons]
        by_cases hrow : row.scopeKey = key <;> simp [hrow]
      rw [hsplit]
      by_cases hkey : key = first
      · subst hkey
        rw [hnone]
        simp
      · simp [hkey, Ne.symm hkey]

/-- Another mission ensures no other controls than the mission itself would. -/
theorem missionControls_ensured (controls : List ControlRow)
    (hlimits : other.id = mission.id → other.resourceLimits = mission.resourceLimits) :
    missionControls (ensureControls (ensureControls controls other) mission) mission =
      missionControls (ensureControls controls mission) mission := by
  unfold missionControls
  refine List.filterMap_congr fun key hkey => ?_
  have hin : key ∈ scopeKeys mission := by simpa [scopeKeys, or_comm] using hkey
  rw [control?_ensureControls, control?_ensureControls, control?_ensureControls, if_pos hin]
  cases control? controls key with
  | some control => rfl
  | none =>
    by_cases hother : key ∈ scopeKeys other
    · rw [if_pos hother]
      cases key with
      | global | team => rfl
      | mission id =>
        simp only [scopeKeys, List.mem_cons, reduceCtorEq, ScopeKey.mission.injEq, List.not_mem_nil, or_false, false_or] at hin hother
        simp [initialLimits, hlimits (hother.symm.trans hin)]
    · rw [if_neg hother]
      rfl

/-- `require_admission` raises at a control that is not open, and at a closed lifecycle. -/
theorem requireAdmission_ok : requireAdmission controls mission = .ok () ↔
    (∀ key ∈ scopeKeys mission, ∀ control, control? controls key = some control → control.state = .open) ∧
      mission.lifecycle.closed = false := by
  have hopen : (missionControls controls mission).filter (fun control => decide (control.state ≠ .open)) = [] ↔
      ∀ key ∈ scopeKeys mission, ∀ control, control? controls key = some control → control.state = .open := by
    rw [List.filter_eq_nil_iff]
    constructor
    · intro h key hkey control hcontrol
      have hmem : control ∈ missionControls controls mission :=
        List.mem_filterMap.mpr ⟨key, by simpa [scopeKeys, or_comm] using hkey, hcontrol⟩
      simpa using h control hmem
    · intro h control hmem
      obtain ⟨key, hkey, hcontrol⟩ := List.mem_filterMap.mp hmem
      simpa using h key (by simpa [scopeKeys, or_comm] using hkey) control hcontrol
  unfold requireAdmission
  dsimp only
  by_cases hdenied : (missionControls controls mission).filter (fun control => decide (control.state ≠ .open)) = []
  · rw [if_neg (not_not.mpr hdenied)]
    cases hclosed : mission.lifecycle.closed with
    | true => simp
    | false => simpa using hopen.mp hdenied
  · rw [if_pos hdenied]
    exact iff_of_false (by rintro ⟨⟩) fun h => hdenied (hopen.mpr h.1)

/-- The rows that one mission's controls are ensured with do not change another's admission. -/
theorem requireAdmission_ensured :
    requireAdmission (ensureControls controls other) mission = .ok () ↔ requireAdmission controls mission = .ok () := by
  rw [requireAdmission_ok, requireAdmission_ok]
  refine and_congr_left fun _ => forall₂_congr fun key _ => ?_
  rw [control?_ensureControls]
  cases control? controls key with
  | some control => rfl
  | none =>
    refine iff_of_true (fun control hcontrol => ?_) nofun
    simp only [Option.none_or] at hcontrol
    split at hcontrol <;> cases hcontrol
    rfl

theorem requireAdmission_congr {controls' : List ControlRow}
    (h : missionControls controls' mission = missionControls controls mission) :
    requireAdmission controls' mission = requireAdmission controls mission := by
  unfold requireAdmission
  rw [h]

end Controls

/-! ## Reservations -/

section Reservations

variable {α : Type} [DecidableEq α] {call : ReserveCall α} {controls : List ControlRow}

/-- Rows that neither belong to the action nor cost anything. -/
def Aside (actionId : α) (rows : List (ReservationRow α)) : Prop :=
  ∀ row ∈ rows, row.actionId ≠ actionId ∧ row.values.costAmount = none

omit [DecidableEq α] in
theorem counting_append (rows rows' : List (ReservationRow α)) (key : ScopeKey) (window : Nat) :
    counting (rows ++ rows') key window = counting rows key window ++ counting rows' key window :=
  List.filter_append ..

omit [DecidableEq α] in
theorem Aside.counting {rows : List (ReservationRow α)} {actionId : α} (h : Aside actionId rows) (key : ScopeKey) (window : Nat) :
    Aside actionId (counting rows key window) := fun row hrow => h row (List.mem_filter.mp hrow).1

omit [DecidableEq α] in
theorem countTotal_le (base extra new : List (ReservationRow α)) (liability : Amounts) (field : CountField) :
    countTotal (base ++ new) liability field ≤ countTotal (base ++ extra ++ new) liability field := by
  unfold countTotal
  simp only [List.map_append, List.sum_append]
  omega

omit [DecidableEq α] in
theorem costAmounts_aside {base extra new : List (ReservationRow α)} {actionId : α} (h : Aside actionId extra) (liability : Amounts) :
    costAmounts (base ++ extra ++ new) liability = costAmounts (base ++ new) liability := by
  have hnil : (extra.filterMap fun row => row.values.costAmount) = [] :=
    List.filterMap_eq_nil_iff.mpr fun row hrow => (h row hrow).2
  unfold costAmounts
  rw [List.filterMap_append, List.filterMap_append, List.filterMap_append, hnil, List.append_nil]

omit [DecidableEq α] in
theorem checkTotals_headroom {limits : MissionResourceLimits} {base extra new : List (ReservationRow α)} {liability : Amounts}
    {actionId : α} (haside : Aside actionId extra) (h : checkTotals limits (base ++ extra ++ new) liability = .ok ()) :
    checkTotals limits (base ++ new) liability = .ok () := by
  unfold checkTotals at h ⊢
  rw [costAmounts_aside haside] at h
  split at h
  · cases h
  · rename_i hnone
    have hcounts : (countFields.find? fun field => limits.limit field < countTotal (base ++ new) liability field) = none := by
      refine List.find?_eq_none.mpr fun field hfield hover => ?_
      have hle := countTotal_le base extra new liability field
      have hwithin := List.find?_eq_none.mp hnone field hfield
      simp only [decide_eq_true_eq] at hover hwithin
      omega
    rw [hcounts]
    exact h

/-- A scope that is reserved beside such rows is reserved without them. -/
theorem reserveScope_headroom {base extra new rows' : List (ReservationRow α)} {control : ControlRow} {row : ReservationRow α}
    (haside : Aside call.actionId extra) (h : reserveScope call (base ++ extra ++ new) control = .ok (rows', row)) :
    ∃ new', rows' = base ++ extra ++ new' ∧ reserveScope call (base ++ new) control = .ok (base ++ new', row) := by
  unfold reserveScope at h ⊢
  split at h
  · cases h
  · rename_i hcurrency
    rw [if_neg hcurrency]
    have hextra : (extra.find? fun row => row.scopeKey = control.scopeKey ∧ row.actionId = call.actionId) = none := by
      refine List.find?_eq_none.mpr fun row hrow hkey => ?_
      exact (haside row hrow).1 (of_decide_eq_true hkey).2
    rw [List.find?_append, List.find?_append, hextra, Option.or_none] at h
    rw [List.find?_append]
    split at h
    · split at h
      · cases h
      · rename_i hsame
        cases h
        rw [if_neg hsame]
        exact ⟨new, rfl, rfl⟩
    · rename_i hnone
      dsimp only at h ⊢
      rw [counting_append, counting_append] at h
      rw [counting_append]
      split at h
      · cases h
      · rename_i hunits
        split at h
        · cases h
        · rename_i hcheck
          cases h
          rw [if_neg, checkTotals_headroom (haside.counting _ _) hcheck]
          · exact ⟨new ++ [_], (List.append_assoc ..), by rw [List.append_assoc]⟩
          · simp only [List.any_append, Bool.or_eq_true, not_or] at hunits ⊢
            exact ⟨hunits.1.1, hunits.2⟩

/-- A reservation that succeeds beside such rows succeeds without them. -/
theorem reserveScopes_headroom {base extra : List (ReservationRow α)} (haside : Aside call.actionId extra) :
    ∀ (controls : List ControlRow) (new : List (ReservationRow α)),
      (reserveScopes call (base ++ extra ++ new) controls).2.isOk = true → (reserveScopes call (base ++ new) controls).2.isOk = true := by
  intro controls
  induction controls with
  | nil => exact fun _ _ => rfl
  | cons control controls ih =>
    intro new h
    cases hscope : reserveScope call (base ++ extra ++ new) control with
    | error e =>
      rw [reserveScopes_error controls hscope] at h
      cases h
    | ok result =>
      obtain ⟨new', hrows, hscope'⟩ := reserveScope_headroom haside hscope
      rw [reserveScopes_ok controls hscope, hrows] at h
      rw [reserveScopes_ok controls hscope']
      have hrest := ih new'
      cases hbeside : (reserveScopes call (base ++ extra ++ new') controls).2 with
      | error e =>
        rw [hbeside] at h
        cases h
      | ok reserved =>
        rw [hbeside] at hrest
        cases halone : (reserveScopes call (base ++ new') controls).2 with
        | error e =>
          rw [halone] at hrest
          exact absurd (hrest rfl) Bool.false_ne_true
        | ok reserved' => rfl

/-- The rows that a session writes are those of its call. -/
theorem reserveScopes_added (call : ReserveCall α) : ∀ (controls : List ControlRow) (rows : List (ReservationRow α)),
    ∃ added, (reserveScopes call rows controls).1 = rows ++ added ∧ ∀ row ∈ added, ∃ control, row = newRow call control := by
  intro controls
  induction controls with
  | nil => exact fun rows => ⟨[], by simp [reserveScopes], by simp⟩
  | cons control controls ih =>
    intro rows
    cases hscope : reserveScope call rows control with
    | error e => exact ⟨[], by rw [reserveScopes_error controls hscope, List.append_nil], by simp⟩
    | ok result =>
      obtain ⟨rows', row⟩ := result
      obtain ⟨added, heq, hadded⟩ := ih rows'
      rw [reserveScopes_ok controls hscope, heq]
      obtain ⟨rfl, -⟩ | ⟨rfl, hnew, -⟩ := reserveScope_cases hscope
      · exact ⟨added, rfl, hadded⟩
      · refine ⟨row :: added, by simp, fun other hother => ?_⟩
        rcases List.mem_cons.mp hother with rfl | hother
        · exact ⟨control, hnew⟩
        · exact hadded other hother

end Reservations

end Jarvis.Missions
