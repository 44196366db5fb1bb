/-
  Jarvis.Missions.TeamScopes — reservations of a mission whose team is changed.

  `reserve` writes a row for the team that is selected then; `reconcile` and `release` look up
  the rows of the team that is selected when they run. A settlement thus reaches every reserved
  row of its action exactly if each lies in a scope the mission has now (`settled_iff`). That is
  so in every run in which the team of the action's mission is only changed while the action
  holds no reserved row (`settlement_reaches_every_scope`); a change in between leaves the old
  team's row reserved (`revised_team_keeps_row`).
-/
import Jarvis.Missions.Controls
import Jarvis.Missions.Launch
import Jarvis.Missions.Liability

namespace Jarvis.Missions

/-! ## Reservations between changes of the team -/

def LedgerAction.mission {α : Type} : LedgerAction α → MissionRow
  | .reserve _ mission _ | .reconcile mission _ _ _ _ | .release mission _ _ => mission

def LedgerAction.actionId {α : Type} : LedgerAction α → α
  | .reserve _ _ call => call.actionId
  | .reconcile _ actionId _ _ _ | .release _ actionId _ => actionId

/-- The action is reconciled or released. -/
def LedgerAction.settles {α : Type} : LedgerAction α → Bool
  | .reserve .. => false
  | .reconcile .. | .release .. => true

inductive TeamMove where
  | createMission (mission : MissionRow) (team : TeamVersionRow) (now : Nat)
  | updateTeam (mission : Nat) (team : TeamVersionRow) (version : Nat) (key : String) (now : Nat)
  | ledger (action : LedgerAction ActionId)

/-- A transaction on the ledger is given the present row of the mission whose turn or work item
    the action names (`owner`). -/
def teamStep (owner : ActionId → Nat) (db : Db) : TeamMove → Option Db
  | .createMission mission team now => some (createMission db mission team now)
  | .updateTeam mission team version key now => (updateTeam db mission team version key now).toOption
  | .ledger action =>
    if db.mission? (owner action.actionId) = some action.mission then
      (ledgerStep db.ledger action).map fun ledger => { db with ledger }
    else none

/-- The rows that the action still holds. -/
def openRows (db : Db) (actionId : ActionId) : List (ReservationRow ActionId) :=
  db.ledger.reservations.filter fun row => row.actionId = actionId ∧ row.status = .reserved

/-- The team of the action's mission is changed only while the action holds no reserved row. -/
def keepsTeam (owner : ActionId → Nat) (actionId : ActionId) (db : Db) : TeamMove → Prop
  | .updateTeam mission _ _ _ _ => mission = owner actionId → openRows db actionId = []
  | _ => True

instance (owner : ActionId → Nat) (actionId : ActionId) (db : Db) : ∀ move, Decidable (keepsTeam owner actionId db move)
  | .updateTeam mission _ _ _ _ => inferInstanceAs (Decidable (mission = owner actionId → openRows db actionId = []))
  | .createMission .. | .ledger _ => isTrue trivial

theorem mem_openRows {db : Db} {actionId : ActionId} {row : ReservationRow ActionId} :
    row ∈ openRows db actionId ↔ row ∈ db.ledger.reservations ∧ row.actionId = actionId ∧ row.status = .reserved := by
  simp [openRows]

/-! ## What a transaction leaves reserved -/

/-- What is new after `reserve` is a row of its action in a scope of the mission. -/
theorem reserveScopes_rows {α : Type} [DecidableEq α] {call : ReserveCall α} : ∀ {controls : List ControlRow}
    {rows : List (ReservationRow α)}, ∀ row ∈ (reserveScopes call rows controls).1,
      row ∈ rows ∨ (row.actionId = call.actionId ∧ ∃ control ∈ controls, row.scopeKey = control.scopeKey) := by
  intro controls
  induction controls with
  | nil => exact fun row hrow => .inl hrow
  | cons control controls ih =>
    intro rows row hrow
    cases hscope : reserveScope call rows control with
    | error e =>
      rw [reserveScopes_error controls hscope] at hrow
      exact .inl hrow
    | ok result =>
      obtain ⟨rows', new⟩ := result
      rw [reserveScopes_ok controls hscope] at hrow
      rcases ih row hrow with hbefore | ⟨haction, other, hother, hkey⟩
      · obtain ⟨rfl, -⟩ | ⟨rfl, rfl, -⟩ := reserveScope_cases hscope
        · exact .inl hbefore
        · refine (List.mem_append.mp hbefore).imp id fun hnew => ?_
          rw [List.mem_singleton.mp hnew]
          exact ⟨rfl, control, List.mem_cons_self, rfl⟩
      · exact .inr ⟨haction, other, List.mem_cons_of_mem _ hother, hkey⟩

theorem committed_rows {caller : Caller} {ledger : Ledger ActionId} {mission : MissionRow} {call : ReserveCall ActionId}
    {row : ReservationRow ActionId} (h : row ∈ (committed caller ledger mission call).reservations) :
    row ∈ ledger.reservations ∨ (row.actionId = call.actionId ∧ row.scopeKey ∈ scopeKeys mission) := by
  unfold committed at h
  split at h
  · exact .inl h
  · refine (reserveScopes_rows row h).imp id fun ⟨haction, control, hcontrol, hkey⟩ => ⟨haction, ?_⟩
    rw [hkey]
    exact missionControls_scope hcontrol

/-- What is reserved after rows are settled was so before, and is not among them. -/
theorem mem_map_settled {rows : List (ReservationRow ActionId)} {p : ReservationRow ActionId → Bool}
    {f : ReservationRow ActionId → ReservationRow ActionId} (hf : ∀ row, (f row).status ≠ .reserved)
    {row : ReservationRow ActionId} (hrow : row.status = .reserved) :
    row ∈ rows.map (fun row => if p row then f row else row) ↔ row ∈ rows ∧ p row = false := by
  rw [List.mem_map]
  constructor
  · rintro ⟨old, hold, heq⟩
    split at heq
    · exact absurd hrow (heq ▸ hf old)
    · rename_i hp
      obtain rfl := heq
      exact ⟨hold, Bool.eq_false_iff.mpr hp⟩
  · rintro ⟨hmem, hp⟩
    exact ⟨row, hmem, by rw [if_neg (Bool.eq_false_iff.mp hp)]⟩

theorem reconciled_not_reserved {row : ReservationRow ActionId} {actual : Option Amounts} {unknown : Bool} {now : Nat} :
    (row.reconciled actual unknown now).status ≠ .reserved := by
  unfold ReservationRow.reconciled
  split
  · rename_i hsettled
    rcases hsettled with hstatus | hstatus <;> rw [hstatus] <;> decide
  · cases unknown <;> exact fun h => nomatch h

theorem release_not_reserved {row : ReservationRow ActionId} {now : Nat} : (row.release now).status ≠ .reserved := by
  unfold ReservationRow.release
  split
  · exact fun h => nomatch h
  · assumption

/-- A settlement leaves reserved what its mission's present scopes do not select. -/
theorem settle_rows {ledger ledger' : Ledger ActionId} {action : LedgerAction ActionId} (hsettles : action.settles = true)
    (h : ledgerStep ledger action = some ledger') {row : ReservationRow ActionId} (hrow : row.status = .reserved) :
    row ∈ ledger'.reservations ↔ row ∈ ledger.reservations ∧ selected action.mission action.actionId row = false := by
  cases action with
  | reserve caller mission call => cases hsettles
  | reconcile mission actionId actual unknown now =>
    simp only [ledgerStep, reconcile] at h
    split at h
    · cases h
      exact mem_map_settled (fun _ => reconciled_not_reserved) hrow
    · cases h
  | release mission actionId now =>
    cases h
    exact mem_map_settled (fun _ => release_not_reserved) hrow

theorem ledger_ok {owner : ActionId → Nat} {db db' : Db} {action : LedgerAction ActionId}
    (h : teamStep owner db (.ledger action) = some db') : db.mission? (owner action.actionId) = some action.mission ∧
      ∃ ledger, ledgerStep db.ledger action = some ledger ∧ db' = { db with ledger } := by
  simp only [teamStep] at h
  split at h
  · rename_i hmission
    obtain ⟨ledger, hledger, rfl⟩ := Option.map_eq_some_iff.mp h
    exact ⟨hmission, ledger, hledger, rfl⟩
  · cases h

/-- A settlement leaves nothing of its action reserved exactly if all that the action holds is in
    the mission's present scopes. -/
theorem settled_iff {owner : ActionId → Nat} {db db' : Db} {action : LedgerAction ActionId} (hsettles : action.settles = true)
    (h : teamStep owner db (.ledger action) = some db') :
    openRows db' action.actionId = [] ↔ ∀ row ∈ openRows db action.actionId, row.scopeKey ∈ scopeKeys action.mission := by
  obtain ⟨-, ledger, hledger, rfl⟩ := ledger_ok h
  rw [List.eq_nil_iff_forall_not_mem]
  constructor
  · intro hnone row hrow
    obtain ⟨hmem, haction, hreserved⟩ := mem_openRows.mp hrow
    by_contra hscope
    refine hnone row (mem_openRows.mpr ⟨(settle_rows hsettles hledger hreserved).mpr ⟨hmem, ?_⟩, haction, hreserved⟩)
    simp [selected, hscope]
  · intro hscopes row hrow
    obtain ⟨hmem, haction, hreserved⟩ := mem_openRows.mp hrow
    obtain ⟨hold, hselected⟩ := (settle_rows hsettles hledger hreserved).mp hmem
    have hscope := hscopes row (mem_openRows.mpr ⟨hold, haction, hreserved⟩)
    simp [selected, hscope, haction] at hselected

/-- A change of the team leaves the ledger and the other missions; the team it selects is new. -/
theorem updateTeam_ok {db db' : Db} {missionId version now : Nat} {team : TeamVersionRow} {key : String}
    (h : updateTeam db missionId team version key now = .ok db') :
    db'.ledger = db.ledger ∧ db.nextId ≤ db'.nextId ∧ ∀ id, db'.mission? id = db.mission? id ∨
      (id = missionId ∧ ∀ mission, db'.mission? id = some mission → mission.selectedTeamVersionId = db.nextId) := by
  unfold updateTeam at h
  split at h
  · cases h
  · rename_i row hrow
    dsimp only at h
    split at h
    · cases h
    · split at h
      · cases h
      · cases h
        exact ⟨rfl, Nat.le_refl _, fun _ => .inl rfl⟩
      · cases h
        refine ⟨rfl, Nat.le_succ _, fun id => ?_⟩
        have hwritten := fun mission => Db.mission?_writeMission
          { db.record (.team missionId) key (.team team.workflowVersionId team.maxActiveAssignments
              team.maxExecutionSeconds team.maxInferenceCalls version) with
            teams := db.teams ++ [{ team with id := db.nextId, missionId := row.id }], nextId := db.nextId + 1 } now mission id
        have hid := (Db.mission?_eq_some hrow).2
        by_cases hsame : id = missionId
        · refine .inr ⟨hsame, fun mission hmission => ?_⟩
          obtain ⟨old, hold, heq⟩ := Option.map_eq_some_iff.mp ((hwritten _).symm.trans hmission)
          rw [if_pos (((Db.mission?_eq_some hold).2.trans hsame).trans hid.symm)] at heq
          split at heq
          · rename_i hsameRow
            rw [← heq, ← hsameRow]
          · rw [← heq]
        · refine .inl ((hwritten _).trans ?_)
          show (db.mission? id).map _ = _
          cases hold : db.mission? id with
          | none => rfl
          | some old =>
            rw [Option.map_some, if_neg]
            rw [(Db.mission?_eq_some hold).2, hid]
            exact hsame

/-! ## Runs -/

/-- What the action holds is in the scopes that its mission has now. -/
def InScope (owner : ActionId → Nat) (actionId : ActionId) (db : Db) : Prop :=
  ∀ row ∈ openRows db actionId, ∃ mission, db.mission? (owner actionId) = some mission ∧ row.scopeKey ∈ scopeKeys mission

theorem InScope.step {owner : ActionId → Nat} {actionId : ActionId} {db db' : Db} {move : TeamMove}
    (h : InScope owner actionId db) (hkeeps : keepsTeam owner actionId db move) (hs : teamStep owner db move = some db') :
    InScope owner actionId db' := by
  cases move with
  | createMission mission team now =>
    cases hs
    intro row hrow
    obtain ⟨present, hpresent, hscope⟩ := h row hrow
    exact ⟨present, Keyed.find?_append_of_some hpresent, hscope⟩
  | updateTeam mission team version key now =>
    obtain ⟨hledger, -, hmissions⟩ := updateTeam_ok (Steps.toOption_ok hs)
    have hrows : openRows db' actionId = openRows db actionId := by rw [openRows, hledger, openRows]
    intro row hrow
    rw [hrows] at hrow
    obtain ⟨present, hpresent, hscope⟩ := h row hrow
    rcases hmissions (owner actionId) with hsame | ⟨howner, -⟩
    · exact ⟨present, hsame.trans hpresent, hscope⟩
    · -- the team of the action's own mission is not changed now
      rw [hkeeps howner.symm] at hrow
      exact absurd hrow List.not_mem_nil
  | ledger action =>
    obtain ⟨hmission, ledger, hledger, rfl⟩ := ledger_ok hs
    intro row hrow
    obtain ⟨hmem, haction, hreserved⟩ := mem_openRows.mp hrow
    have hbefore (hold : row ∈ db.ledger.reservations) := h row (mem_openRows.mpr ⟨hold, haction, hreserved⟩)
    cases action with
    | reserve caller mission call =>
      cases hledger
      rcases committed_rows hmem with hold | ⟨hcall, hscope⟩
      · exact hbefore hold
      · refine ⟨mission, ?_, hscope⟩
        rw [← haction, hcall]
        exact hmission
    | reconcile mission _ actual unknown now => exact hbefore ((settle_rows rfl hledger hreserved).mp hmem).1
    | release mission _ now => exact hbefore ((settle_rows rfl hledger hreserved).mp hmem).1

/-- A row under a team that is not selected any more is never settled: no later team is that one. -/
theorem stranded {owner : ActionId → Nat} {db db' : Db} {actionId : ActionId} {row : ReservationRow ActionId} {team : Nat}
    (h : Steps.Reach (teamStep owner) db db') (hopen : row ∈ openRows db actionId) (hkey : row.scopeKey = .team team)
    (hold : team < db.nextId)
    (hother : ∀ mission, db.mission? (owner actionId) = some mission → mission.selectedTeamVersionId ≠ team) :
    row ∈ openRows db' actionId := by
  let Kept (db : Db) : Prop := row ∈ openRows db actionId ∧ team < db.nextId ∧
    ∀ mission, db.mission? (owner actionId) = some mission → mission.selectedTeamVersionId ≠ team
  suffices hkept : Kept db' from hkept.1
  refine h.invariant Kept ⟨hopen, hold, hother⟩ fun db move db' ⟨hopen, hold, hother⟩ _ hs => ?_
  cases move with
  | createMission mission team' now =>
    cases hs
    refine ⟨hopen, Nat.lt_add_right 2 hold, fun present hpresent => ?_⟩
    rcases Option.or_eq_some_iff.mp (List.find?_append.symm.trans hpresent) with hbefore | ⟨-, hnew⟩
    · exact hother present hbefore
    · obtain rfl := List.mem_singleton.mp (List.mem_of_find?_eq_some hnew)
      exact Nat.ne_of_gt (Nat.lt_succ_of_lt hold)
  | updateTeam mission team' version key now =>
    obtain ⟨hledger, hnext, hmissions⟩ := updateTeam_ok (Steps.toOption_ok hs)
    refine ⟨by rw [openRows, hledger]; exact hopen, Nat.lt_of_lt_of_le hold hnext, fun present hpresent => ?_⟩
    rcases hmissions (owner actionId) with hsame | ⟨-, hnew⟩
    · exact hother present (hsame.symm.trans hpresent)
    · rw [hnew present hpresent]
      exact Nat.ne_of_gt hold
  | ledger action =>
    obtain ⟨hmission, ledger, hledger, rfl⟩ := ledger_ok hs
    obtain ⟨hmem, haction, hreserved⟩ := mem_openRows.mp hopen
    refine ⟨mem_openRows.mpr ⟨?_, haction, hreserved⟩, hold, hother⟩
    cases hsettles : action.settles with
    | false =>
      cases action with
      | reserve caller mission call =>
        cases hledger
        unfold committed
        split
        · exact hmem
        · obtain ⟨added, hadded⟩ := reserveScopes_append call
            (missionControls (ensureControls db.ledger.controls mission) mission) db.ledger.reservations
          show row ∈ (reserveScopes call _ _).1
          rw [hadded]
          exact List.mem_append_left _ hmem
      | reconcile | release => cases hsettles
    | true =>
      refine (settle_rows hsettles hledger hreserved).mpr ⟨hmem, ?_⟩
      by_contra hselected
      obtain ⟨hscope, hact⟩ : row.scopeKey ∈ scopeKeys action.mission ∧ row.actionId = action.actionId := by
        simpa [selected] using hselected
      rw [← hact, haction] at hmission
      have hne := hother action.mission hmission
      simp only [hkey, scopeKeys, List.mem_cons, reduceCtorEq, ScopeKey.team.injEq, List.not_mem_nil, or_false, false_or] at hscope
      exact hne hscope.symm

/-- Along reservations, settlements and changes of teams, if the team of an action's mission is
    only changed while the action holds no reserved row, each settlement of the action leaves none. -/
theorem settlement_reaches_every_scope {owner : ActionId → Nat} {workflowVersions : List Nat} {actionId : ActionId} {db : Db}
    (h : Steps.ReachIf (teamStep owner) (keepsTeam owner actionId) { workflowVersions } db)
    {action : LedgerAction ActionId} (hsettles : action.settles = true) (haction : action.actionId = actionId) {db' : Db}
    (hs : teamStep owner db (.ledger action) = some db') : openRows db' actionId = [] := by
  have hscoped : InScope owner actionId db :=
    h.invariant (InScope owner actionId) (fun row hrow => absurd hrow List.not_mem_nil) fun _ _ _ hin hok hs => hin.step hok hs
  subst haction
  refine (settled_iff hsettles hs).mpr fun row hrow => ?_
  obtain ⟨mission, hmission, hscope⟩ := hscoped row hrow
  obtain rfl : action.mission = mission := Option.some.inj ((ledger_ok hs).1.symm.trans hmission)
  exact hscope

/-! ## A team that is revised -/

def twoHourTeam : TeamVersionRow where
  id := 0
  missionId := 0
  workflowVersionId := 0
  maxActiveAssignments := 1
  maxExecutionSeconds := 7200
  maxInferenceCalls := 10

/-- The only mission, as it is created. -/
def firstMission : MissionRow := { sampleMission with id := 0 }

/-- The mission after its team has been changed. -/
def revisedMission : MissionRow :=
  { firstMission with selectedTeamVersionId := 2, version := firstMission.version + 1, updatedAt := 10 }

/-- The work item's job is reserved, and settled as the mission is then. -/
def reserveJob (mission : MissionRow) : TeamMove := .ledger (.reserve .catches mission (jobCallOf mission 5 3600 0))

def settleJob (mission : MissionRow) : LedgerAction ActionId :=
  .reconcile mission (.job 5) (some { activeJobs := some 0, wallSeconds := some 60 }) false 60

def reviseTeam : TeamMove := .updateTeam 0 twoHourTeam 1 "team" 10

theorem settlement_reaches_every_scope_revised :
    ∃ db, Steps.ReachIf (teamStep fun _ => 0) (keepsTeam (fun _ => 0) (.job 5)) { workflowVersions := [0] } db ∧
      (openRows db (.job 5)).length = 3 ∧
      ∃ db', teamStep (fun _ => 0) db (.ledger (settleJob revisedMission)) = some db' ∧ openRows db' (.job 5) = [] := by
  let moves : List TeamMove := [.createMission sampleMission twoHourTeam 0, reviseTeam, reserveJob revisedMission]
  have hrun : (Steps.runIf (teamStep fun _ => 0) (keepsTeam (fun _ => 0) (.job 5)) { workflowVersions := [0] } moves).any
      (fun db => decide ((openRows db (.job 5)).length = 3) &&
        (teamStep (fun _ => 0) db (.ledger (settleJob revisedMission))).isSome) = true := by
    decide +kernel
  obtain ⟨db, hdb, hholds⟩ := (Option.any_eq_true _ _).mp hrun
  obtain ⟨hlen, hsettled⟩ := (Bool.and_eq_true _ _).mp hholds
  obtain ⟨db', hdb'⟩ := Option.isSome_iff_exists.mp hsettled
  have hreach := Steps.runIf_reachIf moves hdb
  exact ⟨db, hreach, of_decide_eq_true hlen, db', hdb', settlement_reaches_every_scope hreach rfl rfl hdb'⟩

/-- The job is reserved, the team changes, and the settlement misses the old team's row. -/
theorem revised_team_keeps_row :
    ∃ db, Steps.Reach (teamStep fun _ => 0) { workflowVersions := [0] } db ∧
      ∃ db', teamStep (fun _ => 0) db (.ledger (settleJob revisedMission)) = some db' ∧
        (openRows db' (.job 5)).map (·.scopeKey) = [.team 1] := by
  let moves : List TeamMove := [.createMission sampleMission twoHourTeam 0, reserveJob firstMission, reviseTeam]
  have hrun : (Steps.run (teamStep fun _ => 0) { workflowVersions := [0] } moves).any (fun db =>
      (teamStep (fun _ => 0) db (.ledger (settleJob revisedMission))).any fun db' =>
        decide ((openRows db' (.job 5)).map (·.scopeKey) = [.team 1])) = true := by
    decide +kernel
  obtain ⟨db, hdb, hleft⟩ := (Option.any_eq_true _ _).mp hrun
  obtain ⟨db', hdb', hkeys⟩ := (Option.any_eq_true _ _).mp hleft
  exact ⟨db, Steps.run_reach moves hdb, db', hdb', of_decide_eq_true hkeys⟩

end Jarvis.Missions
