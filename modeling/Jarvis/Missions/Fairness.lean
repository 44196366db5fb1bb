/-
  Jarvis.Missions.Fairness — consecutive calls of `dispatch_ready`.

  A call considers one mission, the one whose row has been written longest ago, and the order is
  fair as long as every call writes the row it has considered: then the missions are considered one
  after the other. A mission that is refused for the reason that its row already names is written
  back unchanged. It stays the first, and later calls consider no other. A mission that is blocked
  for its budget leaves what it has reserved until then in the shared scopes. So the calls start an
  item exactly when, in the order of the missions, one that can start its item within what the ones
  before it leave comes before any whose refusal does not change its row (`dispatch_fair_iff`).
-/
import Jarvis.Missions.Headroom
import Jarvis.Missions.Moves
import Jarvis.Missions.Selection

namespace Jarvis.Missions

open Jarvis.Runtime (Mode)

/-! ## One call -/

/-- The items of its current directive that a mission has ready. -/
def readyItems (db : Db) (mission : MissionRow) : List WorkItemRow :=
  db.items.filter fun item => item.missionId = mission.id ∧ item.lifecycle = .ready ∧ item.directiveVersion = mission.directiveVersion

/-- The mission has as many active runs as it may. -/
def atCapacity (db : Db) (mission : MissionRow) (team : TeamVersionRow) : Bool :=
  decide (min mission.resourceLimits.maxActiveJobs team.maxActiveAssignments ≤ (activeRuns db mission.id).length)

/-- What a call reserves for an item. -/
def dispatchCall (mission : MissionRow) (team : TeamVersionRow) (item : WorkItemRow) (now : Nat) : ReserveCall ActionId :=
  jobCallOf mission item.id (min (min 7200 mission.resourceLimits.maxWallSeconds) team.maxExecutionSeconds) now

/-- What a call makes of the mission it considers. -/
inductive Outcome where
  | refused (denied : AdmissionDenied)
  /-- No item is ready. -/
  | idle
  | unteamed
  | full
  | overBudget (denied : BudgetDenied)
  | unpublished
  | starts (item : WorkItemRow)
  deriving DecidableEq

def outcome (db : Db) (mission : MissionRow) (now : Nat) : Outcome :=
  match requireAdmission (ensureControls db.ledger.controls mission) mission with
  | .error denied => .refused denied
  | .ok () =>
    match first itemLe (readyItems db mission) with
    | none => .idle
    | some item =>
      match db.team? item.teamVersionId with
      | none => .unteamed
      | some team =>
        if atCapacity db mission team then .full
        else
          match (reserve { db.ledger with controls := ensureControls db.ledger.controls mission } mission
            (dispatchCall mission team item now)).2 with
          | .error denied => .overBudget denied
          | .ok _ => if team.workflowVersionId ∈ db.workflowVersions then .starts item else .unpublished

/-- The ledger that a call leaves when it considers the mission. -/
def ledgerAfter (db : Db) (mission : MissionRow) (now : Nat) : Ledger ActionId :=
  let ensured := { db.ledger with controls := ensureControls db.ledger.controls mission }
  match requireAdmission ensured.controls mission with
  | .error _ => ensured
  | .ok () =>
    match first itemLe (readyItems db mission) with
    | none => ensured
    | some item =>
      match db.team? item.teamVersionId with
      | none => ensured
      | some team => if atCapacity db mission team then ensured else (reserve ensured mission (dispatchCall mission team item now)).1

/-- The row that is written of a mission that starts nothing. -/
def Outcome.row (mission : MissionRow) : Outcome → MissionRow
  | .refused denied => { mission with waitingReason := some (denied.message "dispatch") }
  | .idle => if mission.lifecycle = .active then { mission with lifecycle := .idle, waitingReason := some "no_ready_work" } else mission
  | .unteamed => { mission with lifecycle := .blocked, waitingReason := some "dispatch_team_snapshot_missing" }
  | .full => { mission with lifecycle := .waitingForCapacity, waitingReason := some "team_active_assignment_capacity" }
  | .overBudget denied =>
    { mission with
      lifecycle := .blocked
      waitingReason := some denied.message
      userActionRequired := some "Increase the applicable resource limit or resume manually." }
  | .unpublished => { mission with lifecycle := .blocked, waitingReason := some "dispatch_workflow_snapshot_missing" }
  | .starts _ => mission

/-- The mission goes on waiting: it stays among those that a call selects from. -/
def Outcome.waits : Outcome → Bool
  | .refused _ | .full => true
  | _ => false

/-- The mission goes on waiting, and its row says so already. -/
def Outcome.unmoved (mission : MissionRow) (outcome : Outcome) : Bool :=
  outcome.waits && decide (outcome.row mission = mission)

section Call

variable {db : Db} {mode : Mode} {mission : MissionRow} {now : Nat}

/-- A mission that a call selects from has an item ready. -/
theorem outcome_ne_idle (h : dispatchable db mode mission = true) : outcome db mission now ≠ .idle := by
  unfold dispatchable at h
  obtain ⟨item, hitem, hready⟩ := List.any_eq_true.mp (Bool.and_eq_true_iff.mp h).2
  unfold outcome
  split
  · exact Outcome.noConfusion
  · split
    · rename_i hnone
      exact absurd (List.mem_filter.mpr ⟨hitem, hready⟩) (by rw [show db.items.filter _ = [] from first_eq_none.mp hnone]; exact List.not_mem_nil)
    · split
      · exact Outcome.noConfusion
      · split
        · exact Outcome.noConfusion
        · split
          · exact Outcome.noConfusion
          · split <;> exact Outcome.noConfusion

/-- What a call does, by the mission it considers. -/
theorem dispatchReady_eq (h : first missionLe (db.missions.filter (dispatchable db mode)) = some mission) :
    dispatchReady db mode [] [] now =
      match outcome db mission now with
      | .starts item => assign { db with ledger := ledgerAfter db mission now } mission item now
      | other => Db.writeMission { db with ledger := ledgerAfter db mission now } now (other.row mission) := by
  have hselect : (db.missions.filter fun mission => dispatchable db mode mission && decide (mission.id ∉ ([] : List Nat))) =
      db.missions.filter (dispatchable db mode) := by simp
  have hready : (db.items.filter fun item => item.missionId = mission.id ∧ item.lifecycle = .ready ∧
      item.directiveVersion = mission.directiveVersion ∧ item.id ∉ ([] : List Nat)) = readyItems db mission := by
    unfold readyItems
    simp
  have hidle : outcome db mission now ≠ .idle := outcome_ne_idle (List.mem_filter.mp (first_mem h)).2
  unfold dispatchReady
  rw [hselect, h]
  dsimp only
  rw [hready]
  unfold outcome at hidle ⊢
  unfold ledgerAfter
  dsimp only
  cases hadmission : requireAdmission (ensureControls db.ledger.controls mission) mission with
  | error denied => rfl
  | ok =>
    rw [hadmission] at hidle
    dsimp only at hidle ⊢
    cases hitem : first itemLe (readyItems db mission) with
    | none =>
      rw [hitem] at hidle
      exact absurd rfl hidle
    | some item =>
      dsimp only
      unfold dispatchItem
      cases hteam : db.team? item.teamVersionId with
      | none =>
        simp only [Db.team?] at hteam ⊢
        rw [hteam]
        rfl
      | some team =>
        have hsame : Db.team? { db with ledger := { db.ledger with controls := ensureControls db.ledger.controls mission } }
            item.teamVersionId = some team := hteam
        rw [hsame]
        unfold atCapacity
        dsimp only
        have hruns : activeRuns { db with ledger := { db.ledger with controls := ensureControls db.ledger.controls mission } } mission.id =
            activeRuns db mission.id := rfl
        rw [hruns]
        by_cases hfull : min mission.resourceLimits.maxActiveJobs team.maxActiveAssignments ≤ (activeRuns db mission.id).length
        · rw [if_pos hfull, if_pos (decide_eq_true hfull), if_pos (decide_eq_true hfull)]
          rfl
        · have hroom : ¬ decide (min mission.resourceLimits.maxActiveJobs team.maxActiveAssignments ≤ (activeRuns db mission.id).length) = true := by
            simpa using hfull
          rw [if_neg hfull, if_neg hroom, if_neg hroom]
          unfold dispatchCall
          cases (reserve { db.ledger with controls := ensureControls db.ledger.controls mission } mission
            (jobCallOf mission item.id (min (min 7200 mission.resourceLimits.maxWallSeconds) team.maxExecutionSeconds) now)).2 with
          | error denied => rfl
          | ok reserved =>
            by_cases hpublished : team.workflowVersionId ∈ db.workflowVersions
            · simp only [if_pos hpublished]
            · simp only [if_neg hpublished]
              rfl

end Call

/-! ## What an outcome rests on -/

/-- The tables of work are as they were. -/
structure SameWork (db db' : Db) : Prop where
  items : db'.items = db.items
  runs : db'.runs = db.runs
  teams : db'.teams = db.teams
  workflowVersions : db'.workflowVersions = db.workflowVersions

/-- The mission is admitted as before. -/
def SameAdmission (db db' : Db) (mission : MissionRow) : Prop :=
  requireAdmission (ensureControls db'.ledger.controls mission) mission =
    requireAdmission (ensureControls db.ledger.controls mission) mission

section Frame

variable {db db' : Db} {mode : Mode} {mission other : MissionRow} {now later : Nat}

theorem SameWork.ready (h : SameWork db db') : readyItems db' = readyItems db := by
  funext mission
  unfold readyItems
  rw [h.items]

theorem SameWork.dispatchable (h : SameWork db db') : dispatchable db' mode = dispatchable db mode := by
  funext mission
  unfold Missions.dispatchable
  rw [h.items]

theorem SameWork.atCapacity (h : SameWork db db') (mission : MissionRow) (team : TeamVersionRow) :
    atCapacity db' mission team = atCapacity db mission team := by
  unfold Missions.atCapacity activeRuns
  rw [startedRuns_congr h.items h.runs]

theorem SameWork.team? (h : SameWork db db') : db'.team? = db.team? := by
  funext id
  unfold Db.team?
  rw [h.teams]

theorem SameWork.outcome (h : SameWork db db') (hledger : db'.ledger = db.ledger) : outcome db' = outcome db := by
  funext mission now
  unfold Missions.outcome
  simp only [hledger, h.ready, h.team?, h.atCapacity, h.workflowVersions]

theorem SameWork.ledgerAfter (h : SameWork db db') (hledger : db'.ledger = db.ledger) : ledgerAfter db' = ledgerAfter db := by
  funext mission now
  unfold Missions.ledgerAfter
  simp only [hledger, h.ready, h.team?, h.atCapacity]

/-- A mission that goes on waiting does so whatever is reserved, and at any time. -/
theorem SameWork.waits (h : SameWork db db') (hadmission : SameAdmission db db' mission) (hwaits : (Missions.outcome db mission now).waits = true) :
    Missions.outcome db' mission later = Missions.outcome db mission now := by
  unfold Missions.outcome at hwaits ⊢
  rw [show requireAdmission (ensureControls db'.ledger.controls mission) mission = _ from hadmission, h.ready, h.team?]
  simp only [h.atCapacity]
  split
  · rfl
  · rename_i hadmitted
    rw [hadmitted] at hwaits
    dsimp only at hwaits
    split
    · rfl
    · rename_i item hitem
      rw [hitem] at hwaits
      dsimp only at hwaits
      split
      · rfl
      · rename_i team hteam
        rw [hteam] at hwaits
        dsimp only at hwaits
        by_cases hfull : Missions.atCapacity db mission team = true
        · rw [if_pos hfull, if_pos hfull]
        · rw [if_neg hfull] at hwaits
          split at hwaits
          · cases hwaits
          · split at hwaits <;> cases hwaits

/-- Whether a refusal changes the row does not depend on what is reserved. -/
theorem SameWork.unmoved (h : SameWork db db') (hadmission : SameAdmission db db' mission) :
    (Missions.outcome db' mission later).unmoved mission = (Missions.outcome db mission now).unmoved mission := by
  have hback : SameWork db' db := ⟨h.items.symm, h.runs.symm, h.teams.symm, h.workflowVersions.symm⟩
  by_cases hwaits : (Missions.outcome db mission now).waits = true
  · rw [h.waits hadmission hwaits]
  · by_cases hwaits' : (Missions.outcome db' mission later).waits = true
    · rw [hback.waits hadmission.symm hwaits'] at hwaits
      exact absurd hwaits' hwaits
    · unfold Outcome.unmoved
      rw [Bool.eq_false_iff.mpr hwaits, Bool.eq_false_iff.mpr hwaits']
      rfl

/-- A call leaves the controls of the mission ensured, and adds rows of its items that cost nothing. -/
theorem ledgerAfter_spec (db : Db) (mission : MissionRow) (now : Nat) :
    ((ledgerAfter db mission now).controls = ensureControls db.ledger.controls mission ∨
      (ledgerAfter db mission now).controls = ensureControls (ensureControls db.ledger.controls mission) mission) ∧
    ∃ added, (ledgerAfter db mission now).reservations = db.ledger.reservations ++ added ∧
      ∀ row ∈ added, ∃ item ∈ readyItems db mission, row.actionId = .job item.id ∧ row.values.costAmount = none := by
  unfold ledgerAfter
  dsimp only
  split
  · exact ⟨.inl rfl, [], (List.append_nil _).symm, fun _ hrow => absurd hrow List.not_mem_nil⟩
  · split
    · exact ⟨.inl rfl, [], (List.append_nil _).symm, fun _ hrow => absurd hrow List.not_mem_nil⟩
    · rename_i item hitem
      split
      · exact ⟨.inl rfl, [], (List.append_nil _).symm, fun _ hrow => absurd hrow List.not_mem_nil⟩
      · rename_i team _
        split
        · exact ⟨.inl rfl, [], (List.append_nil _).symm, fun _ hrow => absurd hrow List.not_mem_nil⟩
        · refine ⟨.inr rfl, ?_⟩
          obtain ⟨added, hadded, hrows⟩ := reserveScopes_added (dispatchCall mission team item now)
            (missionControls (ensureControls (ensureControls db.ledger.controls mission) mission) mission) db.ledger.reservations
          refine ⟨added, hadded, fun row hrow => ?_⟩
          obtain ⟨control, rfl⟩ := hrows row hrow
          exact ⟨item, first_mem hitem, rfl, rfl⟩

/-- Considering one mission changes neither the controls nor the admission of another. -/
theorem ledgerAfter_controls (hlimits : other.id = mission.id → other.resourceLimits = mission.resourceLimits) :
    missionControls (ensureControls (ledgerAfter db other now).controls mission) mission =
      missionControls (ensureControls db.ledger.controls mission) mission := by
  rcases (ledgerAfter_spec db other now).1 with heq | heq
  · rw [heq, missionControls_ensured _ hlimits]
  · rw [heq, missionControls_ensured _ hlimits, missionControls_ensured _ hlimits]

theorem sameAdmission_of_controls (h : missionControls (ensureControls db'.ledger.controls mission) mission =
    missionControls (ensureControls db.ledger.controls mission) mission) : SameAdmission db db' mission :=
  requireAdmission_congr h

end Frame

/-! ## What can start -/

section Starts

variable {db : Db} {mission other : MissionRow} {item : WorkItemRow} {now later : Nat}

theorem reserve_ensured (ledger : Ledger ActionId) (mission : MissionRow) (call : ReserveCall ActionId) :
    (reserve { ledger with controls := ensureControls ledger.controls mission } mission call).2 =
      (reserveScopes call ledger.reservations (missionControls (ensureControls ledger.controls mission) mission)).2 := by
  unfold reserve
  dsimp only
  rw [missionControls_ensured _ fun _ => rfl]

/-- A mission can start its first ready item. -/
theorem outcome_starts_iff : outcome db mission now = .starts item ↔
    requireAdmission (ensureControls db.ledger.controls mission) mission = .ok () ∧
    first itemLe (readyItems db mission) = some item ∧
    ∃ team, db.team? item.teamVersionId = some team ∧ atCapacity db mission team = false ∧
      (reserveScopes (dispatchCall mission team item now) db.ledger.reservations
        (missionControls (ensureControls db.ledger.controls mission) mission)).2.isOk = true ∧
      team.workflowVersionId ∈ db.workflowVersions := by
  constructor
  · intro h
    unfold outcome at h
    split at h
    · cases h
    · rename_i hadmitted
      split at h
      · cases h
      · rename_i selected hselected
        split at h
        · cases h
        · rename_i team hteam
          split at h
          · cases h
          · rename_i hroom
            split at h
            · cases h
            · rename_i reserved hreserved
              split at h
              · rename_i hpublished
                cases h
                rw [reserve_ensured] at hreserved
                exact ⟨hadmitted, hselected, team, hteam, Bool.eq_false_iff.mpr hroom, by rw [hreserved]; rfl, hpublished⟩
              · cases h
  · rintro ⟨hadmitted, hselected, team, hteam, hroom, hreserved, hpublished⟩
    unfold outcome
    rw [hadmitted]
    dsimp only
    rw [hselected]
    dsimp only
    rw [hteam]
    dsimp only
    rw [hroom, if_neg Bool.false_ne_true, reserve_ensured]
    split
    · rename_i denied hdenied
      rw [hdenied] at hreserved
      cases hreserved
    · rw [if_pos hpublished]

/-- What can start after another mission has been considered could have started before. -/
theorem starts_alone (hitems : (db.items.map (·.id)).Nodup) (hne : other.id ≠ mission.id)
    (h : outcome { db with ledger := ledgerAfter db other later } mission now = .starts item) : outcome db mission now = .starts item := by
  obtain ⟨hadmitted, hselected, team, hteam, hroom, hreserved, hpublished⟩ := outcome_starts_iff.mp h
  have hcontrols : missionControls (ensureControls (ledgerAfter db other later).controls mission) mission =
      missionControls (ensureControls db.ledger.controls mission) mission := ledgerAfter_controls fun heq => absurd heq hne
  obtain ⟨-, added, hadded, hrows⟩ := ledgerAfter_spec db other later
  have haside : Aside (dispatchCall mission team item now).actionId added := by
    intro row hrow
    obtain ⟨theirs, htheirs, haction, hcost⟩ := hrows row hrow
    refine ⟨fun heq => hne ?_, hcost⟩
    -- the other mission's item is another one
    have hmine := first_mem hselected
    simp only [readyItems, List.mem_filter, decide_eq_true_eq] at htheirs hmine
    have hid : theirs.id = item.id := ActionId.job.inj (haction.symm.trans heq)
    have hsame := List.inj_on_of_nodup_map hitems htheirs.1 hmine.1 hid
    rw [← htheirs.2.1, ← hmine.2.1, hsame]
  refine outcome_starts_iff.mpr ⟨(requireAdmission_congr hcontrols).symm.trans hadmitted, hselected, team, hteam, hroom, ?_, hpublished⟩
  rw [hcontrols] at hreserved
  have hbeside : (reserveScopes (dispatchCall mission team item now) (db.ledger.reservations ++ added ++ [])
      (missionControls (ensureControls db.ledger.controls mission) mission)).2.isOk = true := by
    rw [List.append_nil, ← hadded]
    exact hreserved
  have halone := reserveScopes_headroom haside _ _ hbeside
  rw [List.append_nil] at halone
  exact halone

end Starts

/-! ## The missions in order -/

theorem missionLe_total (a b : MissionRow) : missionLe a b = true ∨ missionLe b a = true := by
  simp only [missionLe, decide_eq_true_eq]
  omega

theorem missionLe_trans (a b c : MissionRow) (hab : missionLe a b = true) (hbc : missionLe b c = true) : missionLe a c = true := by
  simp only [missionLe, decide_eq_true_eq] at *
  omega

/-- The missions that have not been considered since stand in order; those that have been go on waiting. -/
structure Lined (db : Db) (mode : Mode) (since : Nat) (rest : List MissionRow) : Prop where
  ids : (db.missions.map (·.id)).Nodup
  line : rest.Perm (db.missions.filter fun mission => dispatchable db mode mission && decide (mission.updatedAt < since))
  sorted : rest.Pairwise fun a b => missionLe a b = true
  served : ∀ mission ∈ db.missions, dispatchable db mode mission = true → since ≤ mission.updatedAt →
    ∀ now, (outcome db mission now).waits = true

section Lined

variable {db : Db} {mode : Mode} {since now : Nat} {mission : MissionRow} {rest : List MissionRow}

theorem Lined.mem (h : Lined db mode since rest) : mission ∈ rest ↔
    mission ∈ db.missions ∧ dispatchable db mode mission = true ∧ mission.updatedAt < since := by
  rw [h.line.mem_iff, List.mem_filter, Bool.and_eq_true, decide_eq_true_eq]

/-- A call considers the first of them. -/
theorem Lined.front (h : Lined db mode since (mission :: rest)) :
    first missionLe (db.missions.filter (dispatchable db mode)) = some mission := by
  obtain ⟨hmem, hdispatchable, hearly⟩ := h.mem.mp List.mem_cons_self
  refine first_eq_of_least missionLe_total missionLe_trans (List.mem_filter.mpr ⟨hmem, hdispatchable⟩) fun other hother hne => ?_
  obtain ⟨hin, hdispatchable'⟩ := List.mem_filter.mp hother
  by_cases hlate : other.updatedAt < since
  · have hlater := List.rel_of_pairwise_cons h.sorted
      ((List.mem_cons.mp (h.mem.mpr ⟨hin, hdispatchable', hlate⟩)).resolve_left hne)
    have hid : other.id ≠ mission.id := fun heq => hne (List.inj_on_of_nodup_map h.ids hin hmem heq)
    simp only [missionLe, decide_eq_true_eq, decide_eq_false_iff_not] at hlater ⊢
    omega
  · simp only [missionLe, decide_eq_false_iff_not]
    omega

/-- Where all have been considered, a call considers one that goes on waiting. -/
theorem Lined.none_left (h : Lined db mode since [])
    (hselected : first missionLe (db.missions.filter (dispatchable db mode)) = some mission) : (outcome db mission now).waits = true := by
  obtain ⟨hmem, hdispatchable⟩ := List.mem_filter.mp (first_mem hselected)
  refine h.served mission hmem hdispatchable (Nat.le_of_not_lt fun hlate => ?_) now
  exact absurd (h.mem.mpr ⟨hmem, hdispatchable, hlate⟩) List.not_mem_nil

theorem filter_behind (hids : ((mission :: rest).map (·.id)).Nodup) :
    ((mission :: rest).filter fun other => other.id ≠ mission.id) = rest := by
  rw [List.map_cons, List.nodup_cons] at hids
  rw [List.filter_cons_of_neg (by simp)]
  refine List.filter_eq_self.mpr fun other hother => decide_eq_true fun hid => hids.1 ?_
  exact hid ▸ List.mem_map_of_mem hother

theorem Lined.nodup (h : Lined db mode since rest) : (rest.map (·.id)).Nodup :=
  (h.line.map _).nodup_iff.mpr (h.ids.sublist ((List.filter_sublist (l := db.missions)).map _))

end Lined

/-! ## Calls that start nothing -/

section Refused

variable {db : Db} {mode : Mode} {since now : Nat} {mission : MissionRow} {rest : List MissionRow}

theorem dispatchable_lifecycle (h : dispatchable db mode mission = true) :
    mission.lifecycle ≠ .blocked ∧ mission.lifecycle.closed = false := by
  unfold dispatchable at h
  simp only [Bool.and_eq_true, decide_eq_true_eq, List.mem_cons, List.not_mem_nil, or_false] at h
  obtain ⟨⟨-, hlifecycle⟩, -⟩ := h
  rcases hlifecycle with heq | heq | heq <;> rw [heq] <;> exact ⟨MissionLifecycle.noConfusion, rfl⟩

theorem Outcome.row_kept (mission : MissionRow) (o : Outcome) :
    (o.row mission).id = mission.id ∧ (o.row mission).resourceLimits = mission.resourceLimits := by
  cases o with
  | idle =>
    dsimp only [Outcome.row]
    split <;> exact ⟨rfl, rfl⟩
  | _ => exact ⟨rfl, rfl⟩

/-- A mission that starts nothing goes on waiting, or is blocked. -/
theorem refused_cases (hdispatchable : dispatchable db mode mission = true) (hstarts : ∀ item, outcome db mission now ≠ .starts item) :
    (outcome db mission now).waits = true ∨
      (outcome db mission now).waits = false ∧ ((outcome db mission now).row mission).lifecycle = .blocked := by
  cases houtcome : outcome db mission now with
  | refused | full => exact .inl rfl
  | unteamed | overBudget | unpublished => exact .inr ⟨rfl, rfl⟩
  | idle => exact absurd houtcome (outcome_ne_idle hdispatchable)
  | starts item => exact absurd houtcome (hstarts item)

/-- The row that is written of a waiting mission waits too. -/
theorem waits_rewritten (hwaits : (outcome db mission now).waits = true) (written : Nat) :
    (outcome db { (outcome db mission now).row mission with updatedAt := written } now).waits = true := by
  cases houtcome : outcome db mission now with
  | refused denied =>
    have hsame : outcome db { Outcome.row mission (.refused denied) with updatedAt := written } now = outcome db mission now := rfl
    rw [hsame, houtcome]
    rfl
  | full =>
    unfold outcome at houtcome ⊢
    split at houtcome
    · cases houtcome
    · rename_i hadmitted
      -- waiting for capacity, the mission is admitted as before
      have hstill : requireAdmission (ensureControls db.ledger.controls mission)
          { Outcome.row mission .full with updatedAt := written } = .ok () :=
        requireAdmission_ok.mpr ⟨(requireAdmission_ok.mp hadmitted).1, rfl⟩
      rw [show requireAdmission (ensureControls db.ledger.controls { Outcome.row mission .full with updatedAt := written })
        { Outcome.row mission .full with updatedAt := written } = .ok () from hstill]
      dsimp only
      split at houtcome
      · cases houtcome
      · rename_i item hitem
        rw [show first itemLe (readyItems db { Outcome.row mission .full with updatedAt := written }) = some item from hitem]
        dsimp only
        split at houtcome
        · cases houtcome
        · rename_i team _
          split at houtcome
          · rename_i hfull
            rw [if_pos (show atCapacity db { Outcome.row mission .full with updatedAt := written } team = true from hfull)]
            rfl
          · split at houtcome
            · cases houtcome
            · split at houtcome <;> cases houtcome
  | _ =>
    rw [houtcome] at hwaits
    cases hwaits

/-- A call that starts nothing, as a change of two tables. -/
structure Refusal (db db' : Db) (mission : MissionRow) (now : Nat) : Prop where
  work : SameWork db db'
  ledger : db'.ledger = ledgerAfter db mission now
  missions : db'.missions = db.missions.map fun old =>
    if old.id = mission.id then
      (if (outcome db mission now).row mission = old then old else { (outcome db mission now).row mission with updatedAt := now })
    else old

theorem dispatchReady_refusal (hselected : first missionLe (db.missions.filter (dispatchable db mode)) = some mission)
    (hstarts : ∀ item, outcome db mission now ≠ .starts item) : Refusal db (dispatchReady db mode [] [] now) mission now := by
  have hcall : dispatchReady db mode [] [] now =
      Db.writeMission { db with ledger := ledgerAfter db mission now } now ((outcome db mission now).row mission) := by
    rw [dispatchReady_eq hselected]
    split
    · rename_i item houtcome
      exact absurd houtcome (hstarts item)
    · rfl
  rw [hcall]
  refine ⟨⟨rfl, rfl, rfl, rfl⟩, rfl, List.map_congr_left fun old _ => ?_⟩
  have hid := (Outcome.row_kept mission (outcome db mission now)).1
  by_cases hold : old.id = mission.id
  · rw [if_pos (hold.trans hid.symm), if_pos hold]
  · rw [if_neg fun h => hold (h.trans hid), if_neg hold]

variable {db' : Db}

theorem Refusal.admission (h : Refusal db db' mission now) {other : MissionRow}
    (hlimits : mission.id = other.id → mission.resourceLimits = other.resourceLimits) : SameAdmission db db' other := by
  refine sameAdmission_of_controls ?_
  rw [h.ledger, ledgerAfter_controls hlimits]

/-- Rows of other missions are as they were. -/
theorem Refusal.mem (h : Refusal db db' mission now) (hids : (db.missions.map (·.id)).Nodup) (hmem : mission ∈ db.missions)
    {other : MissionRow} (hother : other ∈ db'.missions) :
    (other ∈ db.missions ∧ other.id ≠ mission.id) ∨
      other = if (outcome db mission now).row mission = mission then mission else { (outcome db mission now).row mission with updatedAt := now } := by
  rw [h.missions] at hother
  obtain ⟨old, hold, rfl⟩ := List.mem_map.mp hother
  by_cases hid : old.id = mission.id
  · obtain rfl := List.inj_on_of_nodup_map hids hold hmem hid
    rw [if_pos rfl]
    exact .inr rfl
  · rw [if_neg hid]
    exact .inl ⟨hold, hid⟩

/-- A mission of the database goes on waiting if it has been. -/
theorem Refusal.waits (h : Refusal db db' mission now) (hids : (db.missions.map (·.id)).Nodup) (hmem : mission ∈ db.missions)
    {other : MissionRow} (hother : other ∈ db.missions) {at_ : Nat} (hwaits : (outcome db other at_).waits = true) :
    (outcome db' other at_).waits = true := by
  have hadmission : SameAdmission db db' other :=
    h.admission fun hid => by rw [List.inj_on_of_nodup_map hids hmem hother hid]
  rw [h.work.waits hadmission hwaits]
  exact hwaits

/-- A refusal that does not change the row leaves all missions where they stand. -/
theorem Lined.unmoved (h : Lined db mode since rest) (hrefusal : Refusal db db' mission now) (hmem : mission ∈ db.missions)
    (hunmoved : (outcome db mission now).unmoved mission = true) : Lined db' mode since rest := by
  have hrow : (outcome db mission now).row mission = mission := of_decide_eq_true (Bool.and_eq_true_iff.mp hunmoved).2
  have hmissions : db'.missions = db.missions := by
    rw [hrefusal.missions, hrow]
    refine (List.map_congr_left fun old hold => ?_).trans (List.map_id _)
    by_cases hid : old.id = mission.id
    · rw [if_pos hid, if_pos (List.inj_on_of_nodup_map h.ids hmem hold hid.symm)]
      rfl
    · rw [if_neg hid]
      rfl
  refine ⟨by rw [hmissions]; exact h.ids, ?_, h.sorted, fun other hother hdispatchable hlate at_ => ?_⟩
  · rw [hmissions, hrefusal.work.dispatchable]
    exact h.line
  · rw [hmissions] at hother
    rw [hrefusal.work.dispatchable] at hdispatchable
    exact hrefusal.waits h.ids hmem hother (h.served other hother hdispatchable hlate at_)

/-- A refusal that changes the row takes the mission out of the line. -/
theorem Lined.moved (h : Lined db mode since rest) (hrefusal : Refusal db db' mission now) (hmem : mission ∈ db.missions)
    (hdispatchable : dispatchable db mode mission = true) (hstarts : ∀ item, outcome db mission now ≠ .starts item)
    (hnow : since ≤ now) (hmoved : (outcome db mission now).unmoved mission = false) :
    Lined db' mode since (rest.filter fun other => other.id ≠ mission.id) := by
  have hrow : (outcome db mission now).row mission ≠ mission := by
    intro hsame
    rcases refused_cases hdispatchable hstarts with hwaits | ⟨-, hblocked⟩
    · unfold Outcome.unmoved at hmoved
      rw [hwaits, decide_eq_true hsame] at hmoved
      cases hmoved
    · rw [hsame] at hblocked
      exact (dispatchable_lifecycle hdispatchable).1 hblocked
  have hid := (Outcome.row_kept mission (outcome db mission now)).1
  refine ⟨?_, ?_, h.sorted.filter _, fun other hother hdispatchable' hlate at_ => ?_⟩
  · have hsame : db'.missions.map (·.id) = db.missions.map (·.id) := by
      rw [hrefusal.missions, List.map_map]
      refine List.map_congr_left fun old _ => ?_
      simp only [Function.comp_apply]
      split
      · rename_i hold
        split
        · rfl
        · exact hid.trans hold.symm
      · rfl
    rw [hsame]
    exact h.ids
  · have hfilter : (db'.missions.filter fun other => dispatchable db' mode other && decide (other.updatedAt < since)) =
        (db.missions.filter fun other => dispatchable db mode other && decide (other.updatedAt < since)).filter
          fun other => other.id ≠ mission.id := by
      rw [hrefusal.missions, List.filter_filter, hrefusal.work.dispatchable]
      refine filter_map_eq fun old hold => ?_
      by_cases hold' : old.id = mission.id
      · obtain rfl := List.inj_on_of_nodup_map h.ids hold hmem hold'
        refine .inr ⟨?_, by simp⟩
        rw [if_pos rfl, if_neg hrow, Bool.and_eq_false_iff]
        exact .inr (decide_eq_false (Nat.not_lt.mpr hnow))
      · exact .inl ⟨if_neg hold', by simp [hold']⟩
    rw [hfilter]
    exact h.line.filter _
  · rw [hrefusal.work.dispatchable] at hdispatchable'
    rcases hrefusal.mem h.ids hmem hother with ⟨hin, -⟩ | heq
    · exact hrefusal.waits h.ids hmem hin (h.served other hin hdispatchable' hlate at_)
    · rw [if_neg hrow] at heq
      subst heq
      rcases refused_cases hdispatchable hstarts with hwaits | ⟨-, hblocked⟩
      · have hstill := waits_rewritten hwaits now
        have hadmission : SameAdmission db db' { (outcome db mission now).row mission with updatedAt := now } :=
          hrefusal.admission fun _ => (Outcome.row_kept mission _).2.symm
        rw [hrefusal.work.waits hadmission hstill]
        exact hstill
      · exact absurd hblocked (dispatchable_lifecycle hdispatchable').1

end Refused

/-! ## Consecutive calls -/

/-- The state after `k` consecutive calls, at the times that the clock gives them. -/
def dispatches (db : Db) (mode : Mode) (clock : Nat → Nat) : Nat → Db
  | 0 => db
  | k + 1 => dispatches (dispatchReady db mode [] [] (clock 0)) mode (fun i => clock (i + 1)) k

/-- The ledger that consecutive calls leave which consider these missions. -/
def ledgerBehind (db : Db) (clock : Nat → Nat) : List MissionRow → Ledger ActionId
  | [] => db.ledger
  | mission :: rest => ledgerBehind { db with ledger := ledgerAfter db mission (clock 0) } (fun i => clock (i + 1)) rest

/-- In the order of the missions, one can start an item, within what those before it leave, before
    any whose refusal does not change its row. -/
def Reached (db : Db) (clock : Nat → Nat) (line : List MissionRow) : Prop :=
  ∃ before mission after, line = before ++ mission :: after ∧
    (∀ other ∈ before, (outcome db other (clock 0)).unmoved other = false) ∧
    ∃ item, outcome { db with ledger := ledgerBehind db clock before } mission (clock before.length) = .starts item

/-- The item has been started. -/
def Started (db : Db) (item : WorkItemRow) : Prop := ∃ row ∈ db.items, row.id = item.id ∧ row.lifecycle = .started

section Runs

variable {mode : Mode} {since : Nat}

theorem ledgerBehind_congr {db db' : Db} (h : SameWork db db') (hledger : db'.ledger = db.ledger) (clock : Nat → Nat)
    (before : List MissionRow) : ledgerBehind db' clock before = ledgerBehind db clock before := by
  induction before generalizing db db' clock with
  | nil => exact hledger
  | cons mission before ih =>
    unfold ledgerBehind
    rw [h.ledgerAfter hledger]
    refine ih ?_ ?_ _
    · exact ⟨h.items, h.runs, h.teams, h.workflowVersions⟩
    · rfl

theorem Reached.congr {db db' : Db} {clock : Nat → Nat} {line : List MissionRow} (h : SameWork db db') (hledger : db'.ledger = db.ledger) :
    Reached db' clock line ↔ Reached db clock line := by
  unfold Reached
  have hbehind : ∀ before, outcome { db' with ledger := ledgerBehind db' clock before } =
      outcome { db with ledger := ledgerBehind db clock before } := fun before =>
    SameWork.outcome ⟨h.items, h.runs, h.teams, h.workflowVersions⟩ (ledgerBehind_congr h hledger clock before)
  simp only [hbehind, h.outcome hledger]

theorem not_reached_nil (db : Db) (clock : Nat → Nat) : ¬ Reached db clock [] := by
  rintro ⟨before, mission, after, heq, -⟩
  simp at heq

/-- The first of the missions starts its item, or gives way to the ones behind it. -/
theorem reached_cons {db : Db} {clock : Nat → Nat} {mission : MissionRow} {rest : List MissionRow}
    (hids : ((mission :: rest).map (·.id)).Nodup) : Reached db clock (mission :: rest) ↔
      (∃ item, outcome db mission (clock 0) = .starts item) ∨
      (outcome db mission (clock 0)).unmoved mission = false ∧
        Reached { db with ledger := ledgerAfter db mission (clock 0) } (fun i => clock (i + 1)) rest := by
  have hsame : ∀ other ∈ rest, (outcome { db with ledger := ledgerAfter db mission (clock 0) } other (clock 1)).unmoved other =
      (outcome db other (clock 0)).unmoved other := by
    intro other hother
    rw [List.map_cons, List.nodup_cons] at hids
    refine SameWork.unmoved ⟨rfl, rfl, rfl, rfl⟩ (sameAdmission_of_controls (ledgerAfter_controls fun hid => ?_))
    exact absurd (List.mem_map.mpr ⟨other, hother, hid.symm⟩) hids.1
  constructor
  · rintro ⟨before, found, after, heq, hmoved, hstarts⟩
    cases before with
    | nil =>
      obtain ⟨rfl, rfl⟩ := List.cons.inj heq
      exact .inl hstarts
    | cons first before =>
      obtain ⟨rfl, rfl⟩ := List.cons.inj heq
      refine .inr ⟨hmoved mission List.mem_cons_self, before, found, after, rfl, fun other hother => ?_, hstarts⟩
      rw [hsame other (List.mem_append_left _ hother)]
      exact hmoved other (List.mem_cons_of_mem _ hother)
  · rintro (hstarts | ⟨hmoved, before, found, after, rfl, hbefore, hstarts⟩)
    · exact ⟨[], mission, rest, rfl, fun _ h => absurd h List.not_mem_nil, hstarts⟩
    · refine ⟨mission :: before, found, after, rfl, fun other hother => ?_, hstarts⟩
      rcases List.mem_cons.mp hother with rfl | hother
      · exact hmoved
      · rw [← hsame other (List.mem_append_left _ hother)]
        exact hbefore other hother

theorem Refusal.reached {db db' : Db} {mission : MissionRow} {now : Nat} (h : Refusal db db' mission now) (clock : Nat → Nat)
    (line : List MissionRow) : Reached db' clock line ↔ Reached { db with ledger := ledgerAfter db mission now } clock line :=
  Reached.congr ⟨h.work.items, h.work.runs, h.work.teams, h.work.workflowVersions⟩ h.ledger

theorem Refusal.behind {db db' : Db} {mission : MissionRow} {clock : Nat → Nat} (h : Refusal db db' mission (clock 0))
    (clock' : Nat → Nat) (before : List MissionRow) :
    outcome { db' with ledger := ledgerBehind db' clock' before } =
      outcome { db with ledger := ledgerBehind { db with ledger := ledgerAfter db mission (clock 0) } clock' before } := by
  have hwork : SameWork { db with ledger := ledgerAfter db mission (clock 0) } db' :=
    ⟨h.work.items, h.work.runs, h.work.teams, h.work.workflowVersions⟩
  exact SameWork.outcome ⟨h.work.items, h.work.runs, h.work.teams, h.work.workflowVersions⟩ (ledgerBehind_congr hwork h.ledger clock' before)

theorem dispatchReady_none {db : Db} (h : first missionLe (db.missions.filter (dispatchable db mode)) = none) (now : Nat) :
    dispatchReady db mode [] [] now = db := by
  have hselect : (db.missions.filter fun mission => dispatchable db mode mission && decide (mission.id ∉ ([] : List Nat))) =
      db.missions.filter (dispatchable db mode) := by simp
  unfold dispatchReady
  rw [hselect, h]

/-- Where no mission is reached, no call starts anything. -/
theorem dispatches_items {db : Db} {clock : Nat → Nat} {rest : List MissionRow} (h : Lined db mode since rest)
    (hclock : ∀ i, since ≤ clock i) (hnot : ¬ Reached db clock rest) (k : Nat) : (dispatches db mode clock k).items = db.items := by
  induction k generalizing db clock rest with
  | zero => rfl
  | succ k ih =>
    have hshift : ∀ i, since ≤ clock (i + 1) := fun i => hclock (i + 1)
    unfold dispatches
    cases rest with
    | nil =>
      cases hselected : first missionLe (db.missions.filter (dispatchable db mode)) with
      | none =>
        rw [dispatchReady_none hselected]
        exact ih h hshift (not_reached_nil _ _)
      | some mission =>
        obtain ⟨hmem, hdispatchable⟩ := List.mem_filter.mp (first_mem hselected)
        have hwaits : (outcome db mission (clock 0)).waits = true := h.none_left hselected
        have hstarts : ∀ item, outcome db mission (clock 0) ≠ .starts item := by
          intro item heq
          rw [heq] at hwaits
          cases hwaits
        have hrefusal := dispatchReady_refusal hselected hstarts
        rw [← hrefusal.work.items]
        cases hmoved : (outcome db mission (clock 0)).unmoved mission with
        | true => exact ih (h.unmoved hrefusal hmem hmoved) hshift (not_reached_nil _ _)
        | false => exact ih (h.moved hrefusal hmem hdispatchable hstarts (hclock 0) hmoved) hshift (not_reached_nil _ _)
    | cons mission rest =>
      have hselected := h.front
      obtain ⟨hmem, hdispatchable⟩ := List.mem_filter.mp (first_mem hselected)
      rw [reached_cons h.nodup, not_or, not_exists] at hnot
      obtain ⟨hstarts, hbehind⟩ := hnot
      have hrefusal := dispatchReady_refusal hselected hstarts
      rw [← hrefusal.work.items]
      cases hmoved : (outcome db mission (clock 0)).unmoved mission with
      | true =>
        -- the mission stays first, and is refused again
        have hagain : outcome (dispatchReady db mode [] [] (clock 0)) mission (clock 1) = outcome db mission (clock 0) :=
          hrefusal.work.waits (hrefusal.admission fun _ => rfl) (Bool.and_eq_true_iff.mp hmoved).1
        refine ih (h.unmoved hrefusal hmem hmoved) hshift ?_
        rw [reached_cons h.nodup, hagain, hmoved]
        rintro (⟨item, hitem⟩ | ⟨hfalse, -⟩)
        · exact hstarts item hitem
        · cases hfalse
      | false =>
        have hline := h.moved hrefusal hmem hdispatchable hstarts (hclock 0) hmoved
        rw [filter_behind h.nodup] at hline
        exact ih hline hshift fun hreached => hbehind ⟨hmoved, (hrefusal.reached _ _).mp hreached⟩

/-- Where a mission is reached, the call that considers it starts its item. -/
theorem dispatches_starts {db : Db} {clock : Nat → Nat} {rest : List MissionRow} (h : Lined db mode since rest)
    (hclock : ∀ i, since ≤ clock i) (hreached : Reached db clock rest) :
    ∃ before mission after item, rest = before ++ mission :: after ∧
      outcome { db with ledger := ledgerBehind db clock before } mission (clock before.length) = .starts item ∧
      Started (dispatches db mode clock (before.length + 1)) item := by
  induction rest generalizing db clock with
  | nil => exact absurd hreached (not_reached_nil _ _)
  | cons mission rest ih =>
    have hselected := h.front
    obtain ⟨hmem, hdispatchable⟩ := List.mem_filter.mp (first_mem hselected)
    by_cases hstarts : ∃ item, outcome db mission (clock 0) = .starts item
    · obtain ⟨item, hitem⟩ := hstarts
      have hready := List.mem_of_mem_filter (first_mem (outcome_starts_iff.mp hitem).2.1)
      refine ⟨[], mission, rest, item, rfl, hitem, item.launched (.assignment item.id) (.assignment item.id), ?_, rfl, rfl⟩
      show _ ∈ (dispatchReady db mode [] [] (clock 0)).items
      rw [dispatchReady_eq hselected, hitem]
      dsimp only
      rw [assign_items]
      exact List.mem_map.mpr ⟨item, hready, if_pos rfl⟩
    · obtain ⟨hmoved, hbehind⟩ := ((reached_cons h.nodup).mp hreached).resolve_left hstarts
      have hrefusal := dispatchReady_refusal hselected (not_exists.mp hstarts)
      have hline := h.moved hrefusal hmem hdispatchable (not_exists.mp hstarts) (hclock 0) hmoved
      rw [filter_behind h.nodup] at hline
      obtain ⟨before, found, after, item, rfl, hitem, hstarted⟩ :=
        ih hline (fun i => hclock (i + 1)) ((hrefusal.reached _ _).mpr hbehind)
      refine ⟨mission :: before, found, after, item, rfl, ?_, hstarted⟩
      rw [hrefusal.behind] at hitem
      exact hitem

end Runs

/-- What can start behind other missions could have started at once. -/
theorem starts_behind {mission : MissionRow} {item : WorkItemRow} {now : Nat} {before : List MissionRow} :
    ∀ {db : Db} (clock : Nat → Nat), (db.items.map (·.id)).Nodup → (∀ other ∈ before, other.id ≠ mission.id) →
      outcome { db with ledger := ledgerBehind db clock before } mission now = .starts item → outcome db mission now = .starts item := by
  induction before with
  | nil => exact fun _ _ _ h => h
  | cons first before ih =>
    intro db clock hitems hne h
    have hrest : ∀ other ∈ before, other.id ≠ mission.id := fun other hother => hne other (List.mem_cons_of_mem _ hother)
    have halone : outcome { db with ledger := ledgerAfter db first (clock 0) } mission now = .starts item :=
      ih (fun i => clock (i + 1)) hitems hrest h
    exact starts_alone hitems (hne first List.mem_cons_self) halone

/-- The missions that a call selects from, in their order. -/
def lineOf (db : Db) (mode : Mode) : List MissionRow := (db.missions.filter (dispatchable db mode)).insertionSort fun a b => missionLe a b

/-- The missions with ready items. -/
def withReady (db : Db) : List MissionRow :=
  db.missions.filter fun mission => db.items.any fun item => item.missionId = mission.id ∧ item.lifecycle = .ready

theorem lineOf_lined {db : Db} {since : Nat} (mode : Mode) (hids : (db.missions.map (·.id)).Nodup)
    (hbefore : ∀ mission ∈ db.missions, mission.updatedAt < since) : Lined db mode since (lineOf db mode) := by
  have hperm : (lineOf db mode).Perm (db.missions.filter (dispatchable db mode)) := List.perm_insertionSort _ _
  refine ⟨hids, hperm.trans (.of_eq (List.filter_congr fun mission hmission => ?_)), ?_, fun mission hmission _ hlate => ?_⟩
  · rw [decide_eq_true (hbefore mission hmission), Bool.and_true]
  · have : Std.Total fun a b : MissionRow => missionLe a b = true := ⟨missionLe_total⟩
    have : IsTrans MissionRow fun a b => missionLe a b = true := ⟨missionLe_trans⟩
    exact List.pairwise_insertionSort _ _
  · exact absurd (hbefore mission hmission) (Nat.not_lt.mpr hlate)

theorem lineOf_length (db : Db) (mode : Mode) : (lineOf db mode).length ≤ (withReady db).length := by
  unfold lineOf withReady
  rw [(List.perm_insertionSort _ _).length_eq, ← List.countP_eq_length_filter, ← List.countP_eq_length_filter]
  refine List.countP_mono_left fun mission _ h => ?_
  unfold dispatchable at h
  obtain ⟨item, hitem, hready⟩ := List.any_eq_true.mp (Bool.and_eq_true_iff.mp h).2
  simp only [decide_eq_true_eq] at hready
  exact List.any_eq_true.mpr ⟨item, hitem, decide_eq_true ⟨hready.1, hready.2.1⟩⟩

/-- Within as many calls as there are missions with ready items, an item is started of a mission that
    could start it from the outset, exactly when in the order of the missions one can start its item,
    within what the ones before it leave, before any whose refusal does not change its row. -/
theorem dispatch_fair_iff (db : Db) (mode : Mode) (clock : Nat → Nat) (since : Nat) (hids : (db.missions.map (·.id)).Nodup)
    (hitems : (db.items.map (·.id)).Nodup) (hbefore : ∀ mission ∈ db.missions, mission.updatedAt < since)
    (hclock : ∀ i, since ≤ clock i) :
    (∃ k < (withReady db).length, ∃ mission ∈ db.missions, dispatchable db mode mission = true ∧
      ∃ item, outcome db mission (clock k) = .starts item ∧ Started (dispatches db mode clock (k + 1)) item) ↔
    Reached db clock (lineOf db mode) := by
  have hlined := lineOf_lined mode hids hbefore
  constructor
  · rintro ⟨k, -, mission, -, -, item, hitem, row, hrow, hid, hstarted⟩
    by_contra hnot
    rw [dispatches_items hlined hclock hnot] at hrow
    have hready := first_mem (outcome_starts_iff.mp hitem).2.1
    simp only [readyItems, List.mem_filter, decide_eq_true_eq] at hready
    obtain rfl := List.inj_on_of_nodup_map hitems hrow hready.1 hid
    rw [hready.2.2.1] at hstarted
    cases hstarted
  · intro hreached
    obtain ⟨before, mission, after, item, hline, hitem, hstarted⟩ := dispatches_starts hlined hclock hreached
    have hin : mission ∈ lineOf db mode := by
      rw [hline]
      exact List.mem_append_right _ List.mem_cons_self
    obtain ⟨hmem, hdispatchable, -⟩ := hlined.mem.mp hin
    have hne : ∀ other ∈ before, other.id ≠ mission.id := by
      have hnodup := hlined.nodup
      rw [hline, List.map_append, List.nodup_append] at hnodup
      exact fun other hother => hnodup.2.2 other.id (List.mem_map_of_mem hother) mission.id (by simp)
    refine ⟨before.length, ?_, mission, hmem, hdispatchable, item, starts_behind clock hitems hne hitem, hstarted⟩
    have hlength := lineOf_length db mode
    rw [hline, List.length_append, List.length_cons] at hlength
    omega

def queuedMission (id : Nat) (lifecycle : MissionLifecycle) (waitingReason : Option String) : MissionRow :=
  { id, projectId := 0, mode := .real, lifecycle, autonomous := true, waitingReason, selectedTeamVersionId := id, updatedAt := id }

def queuedItem (id mission : Nat) (runId : Option RunId) : WorkItemRow :=
  { id, missionId := mission, key := "", title := "", objective := "", acceptanceCriteria := [],
    lifecycle := if runId.isSome then .started else .ready, directiveVersion := 1, teamVersionId := mission, runId }

/-- Two missions with a ready item each; the first has a run, which is all it may have. -/
def twoQueued (lifecycle : MissionLifecycle) (waitingReason : Option String) : Db :=
  { missions := [queuedMission 1 lifecycle waitingReason, queuedMission 2 .active none]
    teams := [1, 2].map fun id =>
      { id, missionId := id, workflowVersionId := 7, maxActiveAssignments := 1, maxExecutionSeconds := 600, maxInferenceCalls := 10 }
    workflowVersions := [7]
    items := [queuedItem 10 1 (some (.fresh 0)), queuedItem 11 1 none, queuedItem 20 2 none]
    runs := [{ id := .fresh 0, jobId := .fresh 0, status := .running }] }

/-- The first mission is told that it waits for capacity and gives way to the second. -/
theorem dispatch_fair_iff_gives_way : ∃ k < 2, ∃ mission ∈ (twoQueued .active none).missions,
    dispatchable (twoQueued .active none) .real mission = true ∧
      ∃ item, outcome (twoQueued .active none) mission (10 + k) = .starts item ∧
        Started (dispatches (twoQueued .active none) .real (fun i => 10 + i) (k + 1)) item :=
  (dispatch_fair_iff (twoQueued .active none) .real (fun i => 10 + i) 10 (by decide) (by decide) (by decide) (fun i => Nat.le_add_right 10 i)).mpr
    ⟨[queuedMission 1 .active none], queuedMission 2 .active none, [], by decide +kernel, by decide +kernel,
      queuedItem 20 2 none, by decide +kernel⟩

/-- The first mission has been told before. -/
def toldAgain : Db := twoQueued .waitingForCapacity (some "team_active_assignment_capacity")

/-- The mission that has been told before is written back unchanged: it stays first, and the other one,
    which could start its item, never does. -/
theorem mission_at_capacity_starves_others :
    (∃ mission ∈ toldAgain.missions, dispatchable toldAgain .real mission = true ∧
      outcome toldAgain mission 10 = .starts (queuedItem 20 2 none)) ∧
    ∀ k, (dispatches toldAgain .real (fun i => 10 + i) k).items = toldAgain.items := by
  refine ⟨⟨queuedMission 2 .active none, by decide +kernel⟩, fun k => ?_⟩
  have hlined : Lined toldAgain .real 10 (lineOf toldAgain .real) := lineOf_lined .real (by decide) (by decide)
  have hline : lineOf toldAgain .real =
      [queuedMission 1 .waitingForCapacity (some "team_active_assignment_capacity"), queuedMission 2 .active none] := by decide +kernel
  have hfull : outcome toldAgain (queuedMission 1 .waitingForCapacity (some "team_active_assignment_capacity")) 10 = .full := by decide +kernel
  rw [hline] at hlined
  refine dispatches_items hlined (fun i => Nat.le_add_right 10 i) ?_ k
  rw [reached_cons hlined.nodup]
  show ¬ ((∃ item, outcome _ _ 10 = .starts item) ∨ Outcome.unmoved _ (outcome _ _ 10) = false ∧ _)
  rw [hfull]
  rintro (⟨item, hstarts⟩ | ⟨hmoved, -⟩)
  · cases hstarts
  · revert hmoved
    decide +kernel

end Jarvis.Missions
