/-
  Jarvis.Missions.Cancellation — what the cancellation of a mission reaches.

  `control_mission` looks for one run of the mission that goes on and enqueues the cancel
  command for that one; other runs of the mission are not asked to stop, and a start that is
  between its transactions links its run afterwards (`cancel_misses`). Admission is closed at
  once, so the scheduler starts nothing for the mission any more. Where the cancel finds every
  run there is, and no later link or requeue brings another one, all runs of the mission are
  reached for good (`cancel_reaches_runs`).
-/
import Jarvis.Missions.SingleRun

namespace Jarvis.Missions

open Jarvis.Runtime (RunStatus DesiredState Mode)
open Jarvis.Steps

variable {s s' : Sys} {action : Action}

/-! ## Controls -/

section Controls

variable {db db' : Db}

theorem ensureFold_grows (mission : MissionRow) : ∀ (keys : List ScopeKey) (controls : List ControlRow),
    controls <+: keys.foldl (fun controls key =>
      if controls.any (·.scopeKey = key) then controls
      else controls ++ [{ scopeKey := key, limits := initialLimits mission key }]) controls := by
  intro keys
  induction keys with
  | nil => exact fun _ => List.prefix_rfl
  | cons key keys ih =>
    intro controls
    rw [List.foldl_cons]
    split
    · exact ih controls
    · exact (List.prefix_append controls _).trans (ih _)

theorem ensureControls_grows (controls : List ControlRow) (mission : MissionRow) :
    controls <+: ensureControls controls mission := ensureFold_grows mission _ controls

theorem reconcile_controls {ledger ledger' : Ledger ActionId} {mission : MissionRow} {actionId : ActionId}
    {actual : Option Amounts} {unknown : Bool} {now : Nat}
    (h : reconcile ledger mission actionId actual unknown now = .ok ledger') : ledger'.controls = ledger.controls := by
  unfold reconcile at h
  split at h <;> cases h
  rfl

theorem reserve_controls {ledger session : Ledger ActionId} {mission : MissionRow} {call : ReserveCall ActionId}
    {reply : Except BudgetDenied (List (ReservationRow ActionId))} (h : reserve ledger mission call = (session, reply)) :
    ledger.controls <+: session.controls := by
  cases h
  exact ensureControls_grows _ _

theorem startItem_controls {mission item version now : Nat} {reply : StartReply}
    (h : startItem db mission item version now = .ok (db', reply)) : db.ledger.controls <+: db'.ledger.controls := by
  unfold startItem at h
  split at h
  · cases h
  · rename_i mission hmission
    split at h
    · dsimp only at h
      repeat' split at h
      all_goals cases h
      · exact List.prefix_rfl
      · rename_i hreserve
        exact (ensureControls_grows _ _).trans (reserve_controls hreserve)
    · cases h

theorem dispatchReady_controls (db : Db) (mode : Mode) (lockedMissions lockedItems : List Nat) (now : Nat) :
    db.ledger.controls <+: (dispatchReady db mode lockedMissions lockedItems now).ledger.controls := by
  unfold dispatchReady
  split
  · exact List.prefix_rfl
  · rename_i mission _
    have hensured := ensureControls_grows db.ledger.controls mission
    dsimp only
    split
    · exact hensured
    · split
      · split <;> exact hensured
      · unfold dispatchItem
        dsimp only
        split
        · exact hensured
        · split
          · exact hensured
          · have hreserved := hensured.trans (ensureControls_grows (ensureControls db.ledger.controls mission) mission)
            split
            · exact hreserved
            · split
              · rw [assign_writes _ _ _ _ .controls (by decide)]
                exact hreserved
              · exact hreserved

theorem beginCall_controls {service : Service} {turnId : TurnId} {request : ManagerRequest} {now : Nat} {reply : CallReply}
    (h : beginCall db service turnId request now = .ok (db', reply)) : db.ledger.controls <+: db'.ledger.controls := by
  unfold beginCall at h
  split at h
  · cases h
  · split at h
    · cases h
    · split at h
      · cases h
      · split at h
        · cases h
        · rename_i mission _
          dsimp only at h
          split at h
          · cases h
          · split at h
            · cases h
            · split at h
              · cases h
              · rename_i hreserve
                have hgrows := (ensureControls_grows db.ledger.controls mission).trans (reserve_controls hreserve)
                repeat' split at h
                all_goals cases h
                · exact hgrows
                · exact hgrows

theorem apply_controls {turnId : TurnId} {decision : ManagerDecision} {now : Nat} (h : apply db turnId decision now = .ok db') :
    db.ledger.controls <+: db'.ledger.controls := by
  unfold apply at h
  split at h
  · cases h
  · split at h
    · cases h
    · rename_i turn _ _ mission _
      split at h
      · cases h
        exact List.prefix_rfl
      · unfold applyCurrent at h
        split at h
        · cases h
        · rename_i ledger hreserve
          have hreserved : db.ledger.controls <+: ledger.controls := by
            unfold reserveItems at hreserve
            split at hreserve
            · cases hreserve
              exact List.prefix_rfl
            · dsimp only at hreserve
              split at hreserve <;> cases hreserve
              rename_i hsession
              exact reserve_controls hsession
          split at h
          · cases h
          · rename_i proposed hproposed
            have hitems : proposed.ledger.controls = ledger.controls :=
              Writes.foldlM (fun _ _ _ => applyItem_writes) _ _ _ hproposed .controls (by decide)
            dsimp only at h
            split at h
            · cases h
            · rename_i settled hsettle
              cases h
              have hdecided : (recordDecision proposed mission turn decision now).ledger.controls = proposed.ledger.controls :=
                recordDecision_writes proposed mission turn decision now .controls (by decide)
              have hsettled : settled.controls = (recordDecision proposed mission turn decision now).ledger.controls := by
                unfold settleNewItems at hsettle
                split at hsettle
                · cases hsettle
                  rfl
                · split at hsettle <;> cases hsettle
                  rename_i hreconcile
                  exact reconcile_controls hreconcile
              show db.ledger.controls <+: settled.controls
              rw [hsettled, hdecided, hitems]
              exact hreserved

theorem storeReceipt_controls {turnId : TurnId} {request : ManagerRequest} {result : ProviderResult} {now : Nat}
    (h : storeReceipt db turnId request result now = .ok db') : db'.ledger.controls = db.ledger.controls := by
  unfold storeReceipt at h
  dsimp only at h
  split at h
  · cases h
  · split at h
    · cases h
    · split at h
      · cases h
      · cases h
      · split at h
        · cases h
        · split at h <;> cases h
          rename_i hreconcile
          exact reconcile_controls hreconcile

theorem fail_controls (db : Db) (service : Service) (turnId : TurnId) (code : FailureCode) (now : Nat) :
    (fail db service turnId code now).ledger.controls = db.ledger.controls := by
  have hkeep : ∀ mission turn, (keepLiability db mission turn now).ledger.controls = db.ledger.controls := by
    intro mission turn
    unfold keepLiability
    split
    · split
      · rfl
      · rename_i hreconcile
        exact reconcile_controls hreconcile
    · rfl
  unfold fail
  split
  · rfl
  · split
    · rfl
    · split
      · rfl
      · split
        · rfl
        · dsimp only
          split
          · exact hkeep _ _
          · exact (failTurn_writes _ _ _ _ _ .controls (by decide)).trans (hkeep _ _)

theorem materializeWakeup_controls (db : Db) (mode : Mode) (locked : List Nat) (now : Nat) :
    db.ledger.controls <+: (materializeWakeup db mode locked now).ledger.controls := by
  unfold materializeWakeup
  split
  · exact List.prefix_rfl
  · split
    · exact List.prefix_rfl
    · dsimp only
      repeat' split
      all_goals exact ensureControls_grows _ _

theorem settleItem_controls (now : Nat) (db : Db) (ended : WorkItemRow × RunRow) :
    (settleItem now db ended).ledger.controls = db.ledger.controls := by
  unfold settleItem
  dsimp only
  split
  · rfl
  · split
    · rfl
    · rename_i hreconcile
      exact reconcile_controls hreconcile

theorem settle_fold_controls (now : Nat) : ∀ (pairs : List (WorkItemRow × RunRow)) (db : Db),
    (pairs.foldl (settleItem now) db).ledger.controls = db.ledger.controls := by
  intro pairs
  induction pairs with
  | nil => intro db; rfl
  | cons pair pairs ih => intro db; exact (ih _).trans (settleItem_controls now db pair)

theorem reconcileItems_controls (db : Db) (now : Nat) : (reconcileItems db now).ledger.controls = db.ledger.controls := by
  have hawaited : (awaited db now).ledger.controls = db.ledger.controls := awaited_writes db now .controls (by decide)
  have hsettled : (settledItems db now).ledger.controls = db.ledger.controls := (settle_fold_controls now _ _).trans hawaited
  have hreadied : (readied db now).ledger.controls = (settledItems db now).ledger.controls :=
    Writes.foldl readyItem_writes _ _ .controls (by decide)
  rw [reconcileItems_eq]
  exact (Writes.foldl (announce_writes now) _ _ .controls (by decide)).trans (hreadied.trans hsettled)

/-- The action is a control of the owner. -/
def Action.isControl : Action → Bool
  | .controlMission _ _ _ _ => true
  | _ => false

/-- Every other action leaves the controls that there are. -/
theorem step_controls (h : step s action = some s') (haction : action.isControl = false) :
    s.db.ledger.controls <+: s'.db.ledger.controls := by
  by_cases hframe : Table.controls ∈ footprint action
  · cases action with
    | controlMission => cases haction
    | createMission mission team now =>
      cases h
      exact ensureControls_grows _ _
    | startItem mission item version now =>
      simp only [step] at h
      split at h <;> cases h
      · rename_i hstart
        exact startItem_controls hstart
      · exact List.prefix_rfl
    | reconcileItems now =>
      cases h
      exact (reconcileItems_controls s.db now).symm ▸ List.prefix_rfl
    | materializeWakeup mode locked now =>
      cases h
      exact materializeWakeup_controls s.db mode locked now
    | dispatchReady mode lockedMissions lockedItems now =>
      cases h
      exact dispatchReady_controls s.db mode lockedMissions lockedItems now
    | beginCall id now =>
      obtain ⟨e, -, hmove⟩ := Option.bind_eq_some_iff.mp h
      simp only [executionStep] at hmove
      split at hmove
      · split at hmove <;> cases hmove
        · rename_i hbegin
          exact beginCall_controls hbegin
        · rename_i hbegin
          exact beginCall_controls hbegin
        · exact List.prefix_rfl
      · cases hmove
    | storeReceipt id now =>
      obtain ⟨e, -, hmove⟩ := Option.bind_eq_some_iff.mp h
      simp only [executionStep] at hmove
      split at hmove
      · split at hmove <;> cases hmove
        · rename_i hstore
          exact (storeReceipt_controls hstore).symm ▸ List.prefix_rfl
        · exact List.prefix_rfl
      · cases hmove
    | apply id now =>
      obtain ⟨e, -, hmove⟩ := Option.bind_eq_some_iff.mp h
      simp only [executionStep] at hmove
      split at hmove
      · split at hmove <;> cases hmove
        · rename_i happly
          exact apply_controls happly
        · exact List.prefix_rfl
      · cases hmove
    | fail id now =>
      obtain ⟨e, -, hmove⟩ := Option.bind_eq_some_iff.mp h
      simp only [executionStep] at hmove
      split at hmove
      · cases hmove
        exact (fail_controls s.db _ _ _ _).symm ▸ List.prefix_rfl
      · cases hmove
    | _ => simp [footprint] at hframe
  · have hsame : s'.db.ledger.controls = s.db.ledger.controls := step_writes h .controls hframe
    rw [hsame]

end Controls

/-! ## Admission is closed -/

/-- The mission's own control is not open. -/
def Db.closed (db : Db) (missionId : Nat) : Prop :=
  ∃ control, control? db.ledger.controls (.mission missionId) = some control ∧ control.state ≠ .open

theorem closed_not_admitted {db : Db} {mission : MissionRow} (h : db.closed mission.id) :
    requireAdmission (ensureControls db.ledger.controls mission) mission ≠ .ok () := by
  obtain ⟨control, hcontrol, hstate⟩ := h
  have hensured : control? (ensureControls db.ledger.controls mission) (.mission mission.id) = some control :=
    (ensureControls_grows _ _).find?_eq_some hcontrol
  have hmem : control ∈ (missionControls (ensureControls db.ledger.controls mission) mission).filter (·.state ≠ .open) := by
    refine List.mem_filter.mpr ⟨List.mem_filterMap.mpr ⟨.mission mission.id, by simp, hensured⟩, ?_⟩
    simpa using hstate
  unfold requireAdmission
  dsimp only
  rw [if_pos (List.ne_nil_of_mem hmem)]
  nofun

/-- The requests of the owner that open a mission's admission again. -/
def reopens (db : Db) (missionId : Nat) : Action → Prop
  | .controlMission mission body _ _ =>
    mission = missionId ∧ body.scope = .mission ∧ body.action = .resume ∧
      ∀ record ∈ db.records, record.scope = .control mission → record.key ≠ .given body.idempotencyKey
  | _ => False

/-- What a control that takes effect does to the controls and the runs of its mission. -/
theorem controlMission_ok {db db' : Db} {missionId order now : Nat} {body : MissionControlRequest}
    (h : controlMission db missionId body order now = .ok db') :
    (db' = db ∧ ∃ record ∈ db.records, record.scope = .control missionId ∧ record.key = .given body.idempotencyKey) ∨
    ∃ mission commanded, begin_ db (.control missionId) (.given body.idempotencyKey) (.control body) = .fresh ∧
      db.mission? missionId = some mission ∧
      (match ((activeRuns db missionId).rotate order).head?, commandKind body.action with
        | some run, some kind => enqueue db run kind ("mission-control:" ++ body.idempotencyKey) body.instruction
        | _, _ => .ok db) = .ok commanded ∧
      db'.commands = commanded.commands ∧
      db'.ledger.controls = (ensureControls db.ledger.controls mission).map fun control =>
        if control.scopeKey = controlKey mission body.scope then control.controlled body else control := by
  rcases withMission_new h with ⟨rfl, record, hreplay⟩ | ⟨hfresh, mission, hmission, h⟩
  · obtain ⟨hmem, hkey⟩ := begin_replay hreplay
    exact .inl ⟨rfl, record, hmem, hkey⟩
  · dsimp only at h
    split at h
    · cases h
    · rename_i commanded hcommanded
      cases h
      exact .inr ⟨mission, commanded, hfresh, hmission, hcommanded, rfl, rfl⟩

theorem ensureControls_has (controls : List ControlRow) (mission : MissionRow) {key : ScopeKey} (hkey : key ∈ scopeKeys mission) :
    ∃ control, control? (ensureControls controls mission) key = some control := by
  unfold ensureControls
  generalize scopeKeys mission = keys at hkey
  induction keys generalizing controls with
  | nil => cases hkey
  | cons first keys ih =>
    rw [List.foldl_cons]
    rcases List.mem_cons.mp hkey with rfl | hkey
    · -- the step of the key finds a row of it or adds one
      refine Option.isSome_iff_exists.mp (List.find?_isSome.mpr ?_)
      split
      · rename_i hany
        obtain ⟨control, hmem, hscope⟩ := List.any_eq_true.mp hany
        exact ⟨control, (ensureFold_grows mission keys _).subset hmem, hscope⟩
      · exact ⟨_, (ensureFold_grows mission keys _).subset (List.mem_append_right _ (List.mem_singleton.mpr rfl)), by simp⟩
    · exact ih _ hkey

theorem control?_controlled (controls : List ControlRow) (key : ScopeKey) (body : MissionControlRequest) (of : ScopeKey) :
    control? (controls.map fun control => if control.scopeKey = key then control.controlled body else control) of =
      (control? controls of).map fun control => if control.scopeKey = key then control.controlled body else control := by
  refine Keyed.find?_replace (f := fun control : ControlRow => control.controlled body) ?_ of
  exact fun _ hkey => hkey

theorem closed_kept (h : step s action = some s') {missionId : Nat} (hstays : ¬ reopens s.db missionId action)
    (hclosed : s.db.closed missionId) : s'.db.closed missionId := by
  obtain ⟨control, hcontrol, hstate⟩ := hclosed
  have hother : action.isControl = false → s'.db.closed missionId :=
    fun haction => ⟨control, (step_controls h haction).find?_eq_some hcontrol, hstate⟩
  cases action with
  | controlMission mission body order now =>
    obtain ⟨db, hdb, rfl⟩ := toOption_map h
    rcases controlMission_ok hdb with ⟨rfl, -⟩ | ⟨row, commanded, hfresh, hrow, -, -, hcontrols⟩
    · exact ⟨control, hcontrol, hstate⟩
    · have hensured : control? (ensureControls s.db.ledger.controls row) (.mission missionId) = some control :=
        (ensureControls_grows _ _).find?_eq_some hcontrol
      have hfind : control? db.ledger.controls (.mission missionId) = some
          (if control.scopeKey = controlKey row body.scope then control.controlled body else control) := by
        rw [hcontrols, control?_controlled, hensured]
        rfl
      refine ⟨_, hfind, ?_⟩
      split
      · rename_i hkey
        obtain ⟨-, rfl⟩ := Db.mission?_eq_some hrow
        rw [(control?_key hcontrol).2] at hkey
        unfold ControlRow.controlled
        dsimp only
        cases haction : body.action with
        | pause => nofun
        | drain => nofun
        | cancel => nofun
        | safePoint => exact hstate
        | resume =>
          cases hscope : body.scope with
          | mission =>
            rw [hscope] at hkey
            cases hkey
            exact absurd ⟨rfl, hscope, haction, begin_fresh hfresh⟩ hstays
          | team => rw [hscope] at hkey; cases hkey
          | global => rw [hscope] at hkey; cases hkey
      · exact hstate
  | _ => exact hother rfl

/-! ## Runs -/

/-- The run has been asked to stop. -/
def Db.covered (db : Db) (run : RunRow) : Prop :=
  run.desiredState = .cancelled ∨ ∃ command ∈ db.commands, command.runId = run.id ∧ command.kind = .cancel

instance (db : Db) (run : RunRow) : Decidable (db.covered run) := by unfold Db.covered; infer_instance

/-- The runs linked to the mission's items that go on have been asked to stop. -/
def Db.reached (db : Db) (missionId : Nat) : Prop :=
  ∀ item ∈ db.items, item.missionId = missionId → ∀ run ∈ itemRun db item, run.terminal = false → db.covered run

instance (db : Db) (missionId : Nat) : Decidable (db.reached missionId) := by unfold Db.reached; infer_instance

/-- The owner cancels the mission with a key that has not been used. -/
def cancels (s : Sys) (missionId : Nat) : Action → Prop
  | .controlMission mission body _ _ =>
    mission = missionId ∧ body.scope = .mission ∧ body.action = .cancel ∧
      ∀ record ∈ s.db.records, record.scope = .control mission → record.key ≠ .given body.idempotencyKey
  | _ => False

/-- The cancel finds every run of the mission that goes on and has not been asked to stop: there is
    at most one, and it is the one that the query returns. -/
def findsRuns (s : Sys) (missionId : Nat) : Action → Prop
  | .controlMission _ _ order _ =>
    ∀ item ∈ s.db.items, item.missionId = missionId → ∀ run ∈ itemRun s.db item, run.terminal = false →
      s.db.covered run ∨ ((activeRuns s.db missionId).rotate order).head? = some run
  | _ => True

/-- Nothing brings the mission a run that has not been asked to stop: a link, a requeue, or the
    scheduler once the mission is resumed. -/
def bringsNoRun (missionId : Nat) (s : Sys) (action : Action) : Prop :=
  ¬ reopens s.db missionId action ∧
    match action with
    | .linkItem id _ =>
      ∀ call ∈ s.starts, call.id = id → call.missionId = missionId → ∀ target ∈ call.pc.target, ∀ run ∈ s.db.run? target.2,
        run.terminal = true ∨ s.db.covered run
    | .requestReconciliation id =>
      ∀ item ∈ s.db.items, item.missionId = missionId → item.runId = some id → ∀ run ∈ s.db.run? id, run.status = .blocked →
        s.db.covered run
    | _ => True

instance (s : Sys) (missionId : Nat) (action : Action) : Decidable (findsRuns s missionId action) := by
  induction action using Action.casesOn <;> dsimp only [findsRuns] <;> infer_instance

instance (db : Db) (missionId : Nat) (action : Action) : Decidable (reopens db missionId action) := by
  induction action using Action.casesOn <;> dsimp only [reopens] <;> infer_instance

instance (s : Sys) (missionId : Nat) (action : Action) : Decidable (cancels s missionId action) := by
  induction action using Action.casesOn <;> dsimp only [cancels] <;> infer_instance

instance (missionId : Nat) (s : Sys) (action : Action) : Decidable (bringsNoRun missionId s action) := by
  induction action using Action.casesOn <;> dsimp only [bringsNoRun] <;> infer_instance

theorem covered_kept (h : step s action = some s') {run row : RunRow} (hmove : RunMove action run row) (hc : s.db.covered run) :
    s'.db.covered row := by
  have hcommands : ∀ command ∈ s.db.commands, command ∈ s'.db.commands := by
    intro command hcommand
    by_cases hframe : Table.commands ∈ footprint action
    · cases action with
      | controlMission mission body order now =>
        obtain ⟨db, hdb, rfl⟩ := toOption_map h
        rcases controlMission_ok hdb with ⟨rfl, -⟩ | ⟨_, commanded, -, -, hcommanded, heq, -⟩
        · exact hcommand
        · show command ∈ db.commands
          rw [heq]
          split at hcommanded
          · unfold enqueue at hcommanded
            split at hcommanded
            · split at hcommanded <;> cases hcommanded
              exact hcommand
            · cases hcommanded
              exact List.mem_append_left _ hcommand
          · cases hcommanded
            exact hcommand
      | _ => simp [footprint] at hframe
    · exact (step_writes h .commands hframe : s'.db.commands = s.db.commands) ▸ hcommand
  rcases hc with hdesired | ⟨command, hcommand, hof, hkind⟩
  · cases hmove with
    | kept _ _ hsame => exact .inl (hsame.trans hdesired)
    | executed _ _ _ _ _ _ hstays _ hrow => exact .inl (hrow.trans (hstays hdesired))
    | requeued _ _ _ _ hsame => exact .inl (hsame.trans hdesired)
  · exact .inr ⟨command, hcommands command hcommand, hof.trans (runMove_same hmove).1.symm, hkind⟩

/-- The mission is closed and its runs have been asked to stop. -/
structure Stopped (missionId : Nat) (s : Sys) : Prop where
  closed : s.db.closed missionId
  reached : s.db.reached missionId

/-- A run that an item recorded before has its move. -/
theorem linked_run_move (hk : s.db.keys.Distinct) (hl : Launches s) (h : step s action = some s') {itemId : Nat} {item : WorkItemRow}
    (hitem : s.db.item? itemId = some item) {runId : RunId} (hrunId : item.runId = some runId) {row : RunRow}
    (hrow : s'.db.run? runId = some row) : ∃ run, s.db.run? runId = some run ∧ RunMove action run row := by
  obtain ⟨hexists, -⟩ := hl.items itemId item hitem runId hrunId
  obtain ⟨run, hmem, rfl⟩ := List.mem_map.mp hexists
  have hrun := run?_of_mem hk hmem
  obtain ⟨row', hrow', hmove⟩ := (run_moves hk h run.id).1 run hrun
  rw [hrow] at hrow'
  cases hrow'
  exact ⟨run, hrun, hmove⟩

theorem Stopped.step {missionId : Nat} (hk : s.db.keys.Distinct) (hk' : s'.db.keys.Distinct) (hl : Launches s)
    (hs : Stopped missionId s) (hok : bringsNoRun missionId s action) (h : Jarvis.Missions.step s action = some s') :
    Stopped missionId s' := by
  obtain ⟨hstays, hbrings⟩ := hok
  refine ⟨closed_kept h hstays hs.closed, fun row hrow hof run hrun hgoes => ?_⟩
  obtain ⟨runId, hrunId, hrun?⟩ := Option.bind_eq_some_iff.mp hrun
  have hrow? := item?_of_mem hk' hrow
  cases hitem : s.db.item? row.id with
  | none =>
    obtain ⟨-, hnone, -⟩ := (item_moves hk h row.id).2 hitem row hrow?
    rw [hrunId] at hnone
    cases hnone
  | some item =>
    obtain ⟨row', hrow', hmove⟩ := (item_moves hk h row.id).1 item hitem
    rw [hrow?] at hrow'
    cases hrow'
    obtain ⟨hmem, hid⟩ := Db.item?_eq_some hitem
    -- the item recorded the run before: it was asked to stop then, unless it is requeued now
    have hlinked : row.missionId = item.missionId → row.runId = item.runId → s'.db.covered run := by
      intro hmission hsame
      obtain ⟨old, hold, hrunMove⟩ := linked_run_move hk hl h hitem (hsame.symm.trans hrunId) hrun?
      have hitemRun : itemRun s.db item = some old := Option.bind_eq_some_iff.mpr ⟨runId, hsame.symm.trans hrunId, hold⟩
      have holdRun := hs.reached item hmem (hmission.symm.trans hof) old hitemRun
      refine covered_kept h hrunMove ?_
      cases hrunMove with
      | kept _ hstatus =>
        refine holdRun ?_
        unfold RunRow.terminal at hgoes ⊢
        rw [← hstatus]
        exact hgoes
      | executed _ _ _ _ _ hterminal => exact holdRun hterminal
      | requeued haction _ hblocked =>
        obtain ⟨-, holdId⟩ := Db.run?_eq_some hold
        subst haction
        rw [holdId] at hbrings
        exact hbrings item hmem (hmission.symm.trans hof) (hsame.symm.trans hrunId) old hold hblocked
    cases hmove with
    | kept hlink => exact hlinked hlink.2.1 hlink.2.2.2
    | planned hlink => exact hlinked hlink.2.1 hlink.2.2.2
    | settled _ hlink => exact hlinked hlink.2.1 hlink.2.2.2
    | linked call now jobId runId' haction hcall hcallItem hcallMission hpc hfree =>
      cases hrunId
      subst haction
      obtain ⟨record, hrecord, hkey, hlaunched⟩ := hl.links call hcall jobId runId hpc
      obtain ⟨_, _, -, -, _, _, hlaunched', hexists⟩ := hl.records record hrecord _ hkey
      rw [hlaunched] at hlaunched'
      cases hlaunched'
      obtain ⟨old, holdMem, rfl⟩ := List.mem_map.mp hexists
      have hold := run?_of_mem hk holdMem
      obtain ⟨after, hafter, hrunMove⟩ := (run_moves hk h old.id).1 old hold
      rw [hrun?] at hafter
      cases hafter
      rcases hbrings call hcall rfl (hcallMission.trans hof) (jobId, old.id) (by rw [hpc]; rfl) old hold with hterminal | hcovered
      · cases hrunMove with
        | kept _ hstatus =>
          unfold RunRow.terminal at hgoes hterminal
          rw [hstatus, hterminal] at hgoes
          cases hgoes
        | executed _ _ _ haction => cases haction
        | requeued haction => cases haction
      · exact covered_kept h hrunMove hcovered
    | assigned mode lockedMissions lockedItems now mission haction hselected hadmitted =>
      obtain ⟨-, -, hmission, -⟩ := selectedItem_mem hselected
      have hclosed : s.db.closed mission.id := by
        rw [← hmission, show item.missionId = missionId from hof]
        exact hs.closed
      exact absurd hadmitted (closed_not_admitted hclosed)

theorem enqueue_command {db db' : Db} {run : RunRow} {kind : RunCommandKind} {key : String} {instruction : Option String}
    (h : enqueue db run kind key instruction = .ok db') :
    ∃ command ∈ db'.commands, command.runId = run.id ∧ command.kind = kind := by
  unfold enqueue at h
  split at h
  · rename_i existing hfind
    split at h
    · rename_i hsame
      cases h
      have hof := List.find?_some hfind
      simp only [decide_eq_true_eq] at hof
      exact ⟨existing, List.mem_of_find?_eq_some hfind, hof.1, hsame.1⟩
    · cases h
  · cases h
    exact ⟨_, List.mem_append_right _ (List.mem_singleton.mpr rfl), rfl, rfl⟩

/-- The cancel closes the mission and reaches the run that it finds. -/
theorem cancel_stops {missionId : Nat} (hk : s.db.keys.Distinct) (hl : Launches s) (hcancel : cancels s missionId action)
    (hfinds : findsRuns s missionId action) (h : step s action = some s') : Stopped missionId s' := by
  cases action with
  | controlMission mission body order now =>
    obtain ⟨rfl, hscope, haction, hnew⟩ := hcancel
    have hitems : s'.db.items = s.db.items := step_writes h .items (by simp [footprint])
    obtain ⟨db, hdb, hs'⟩ := toOption_map h
    have hdb' : s'.db = db := congrArg Sys.db hs'
    rcases controlMission_ok hdb with ⟨-, record, hrecord, hrecScope, hkey⟩ | ⟨row, commanded, -, hrow, hcommanded, hcommands, hcontrols⟩
    · exact absurd hkey (hnew record hrecord hrecScope)
    · obtain ⟨-, rfl⟩ := Db.mission?_eq_some hrow
      refine ⟨?_, fun item hitem hof run hrun hgoes => ?_⟩
      · -- the mission's control row is there, and it is made cancelling
        have hscopeKey : ScopeKey.mission row.id ∈ scopeKeys row := by simp [scopeKeys]
        obtain ⟨control, hcontrol⟩ := ensureControls_has s.db.ledger.controls row hscopeKey
        refine ⟨control.controlled body, ?_, ?_⟩
        · rw [hdb', hcontrols, control?_controlled, hcontrol, hscope]
          show some (if control.scopeKey = .mission row.id then _ else _) = _
          rw [if_pos (control?_key hcontrol).2]
        · unfold ControlRow.controlled
          rw [haction]
          rintro ⟨⟩
      · obtain ⟨runId, hrunId, hrun?⟩ := Option.bind_eq_some_iff.mp hrun
        rw [hitems] at hitem
        obtain ⟨old, hold, hmove⟩ := linked_run_move hk hl h (item?_of_mem hk hitem) hrunId hrun?
        have hgoesBefore : old.terminal = false := by
          cases hmove with
          | kept _ hstatus =>
            unfold RunRow.terminal at hgoes ⊢
            rw [← hstatus]
            exact hgoes
          | executed _ _ _ haction => cases haction
          | requeued haction => cases haction
        rcases hfinds item hitem hof old (Option.bind_eq_some_iff.mpr ⟨runId, hrunId, hold⟩) hgoesBefore with hcovered | hfound
        · exact covered_kept h hmove hcovered
        · rw [hfound, haction] at hcommanded
          obtain ⟨command, hcommand, hcommandRun, hkind⟩ := enqueue_command hcommanded
          refine .inr ⟨command, ?_, hcommandRun.trans (runMove_same hmove).1.symm, hkind⟩
          rw [hdb', hcommands]
          exact hcommand
  | _ => cases hcancel

/-! ## Runs of the system -/

/-- A cancel that finds every run of the mission reaches them for good: in every state after it, as
    long as nothing brings the mission another run, the runs linked to its items have been asked to
    stop or have ended. -/
theorem cancel_reaches_runs {versions : List Nat} {missionId : Nat} {t : Sys} (h : Reach step (Sys.init versions) s)
    (hcancel : cancels s missionId action) (hfinds : findsRuns s missionId action) (hstep : step s action = some s')
    (ht : ReachIf step (bringsNoRun missionId) s' t) : t.db.reached missionId := by
  have hs' : Reach step (Sys.init versions) s' := .step action h trivial hstep
  refine (ht.invariant_with (fun t => t.db.keys.Distinct ∧ Launches t) (Stopped missionId) (fun t hr => ?_) ?_ ?_).reached
  · have hreach := hs'.trans hr.reach
    exact ⟨reach_distinct hreach, reach_launches hreach⟩
  · exact cancel_stops (reach_distinct h) (reach_launches h) hcancel hfinds hstep
  · exact fun _ _ _ hi hs hok hnext => hs.step hi.1 (step_distinct hi.1 hnext) hi.2 hok hnext

/-- After the history `before` the owner cancels the mission, and after `rest` a run of it goes on
    that has not been asked to stop. -/
def CancelMisses (before : List Action) (key : Nat) (rest : List Action) : Prop :=
  ∃ s s' t, run step (Sys.init [7]) before = some s ∧ Reach step (Sys.init [7]) s ∧
    cancels s 0 (.controlMission 0 (controlOf .cancel key (by decide)) 0 4) ∧
    step s (.controlMission 0 (controlOf .cancel key (by decide)) 0 4) = some s' ∧
    run step s' rest = some t ∧ Reach step s' t ∧ ¬ t.db.reached 0

theorem cancelMisses_of_run {before rest : List Action} {key : Nat}
    (h : (run step (Sys.init [7]) before).any (fun s =>
      cancels s 0 (.controlMission 0 (controlOf .cancel key (by decide)) 0 4) ∧
      (step s (.controlMission 0 (controlOf .cancel key (by decide)) 0 4)).any fun s' =>
        (run step s' rest).any fun t => ¬ t.db.reached 0) = true) : CancelMisses before key rest := by
  obtain ⟨s, hs, hend⟩ := (Option.any_eq_true _ _).mp h
  obtain ⟨hcancel, hany⟩ := of_decide_eq_true hend
  obtain ⟨s', hs', hany⟩ := (Option.any_eq_true _ _).mp hany
  obtain ⟨t, ht, hmissed⟩ := (Option.any_eq_true _ _).mp hany
  exact ⟨s, s', t, hs, run_reach _ hs, hcancel, hs', ht, run_reach _ ht, of_decide_eq_true hmissed⟩

/-- The owner cancels the mission while two of its runs go on; or while a start is between
    `create_job` and its link. One run each is never asked to stop. -/
theorem cancel_misses :
    CancelMisses (roomy ++ [.dispatchReady .real [] [] 2, .dispatchReady .real [] [] 3]) 5 [] ∧
      CancelMisses startedFirst 3 [.linkItem 1 5] :=
  ⟨cancelMisses_of_run (by decide +kernel), cancelMisses_of_run (by decide +kernel)⟩

/-- With one run going on, the cancel reaches it; the scheduler, which had another item to start,
    starts nothing any more. -/
theorem cancel_reaches_runs_single :
    ∃ s s' t, Reach step (Sys.init [7]) s ∧ step s (.controlMission 0 (controlOf .cancel 4 (by decide)) 0 3) = some s' ∧
      ReachIf step (bringsNoRun 0) s' t ∧ (activeRuns t.db 0).length = 1 ∧ t.db.reached 0 := by
  let before := roomy ++ [.dispatchReady .real [] [] 2]
  let after := [Action.dispatchReady .real [] [] 4, .executeRun (.assignment 5) .running .running 5]
  let cancel := Action.controlMission 0 (controlOf .cancel 4 (by decide)) 0 3
  have hrun : (run step (Sys.init [7]) before).any (fun s => cancels s 0 cancel ∧ findsRuns s 0 cancel ∧
      (step s cancel).any fun s' => (runIf step (bringsNoRun 0) s' after).any fun t => (activeRuns t.db 0).length = 1) = true := by
    decide +kernel
  obtain ⟨s, hs, hend⟩ := (Option.any_eq_true _ _).mp hrun
  obtain ⟨hcancel, hfinds, hany⟩ := of_decide_eq_true hend
  obtain ⟨s', hs', hany⟩ := (Option.any_eq_true _ _).mp hany
  obtain ⟨t, ht, hone⟩ := (Option.any_eq_true _ _).mp hany
  have hreach := run_reach before hs
  have hafter := runIf_reachIf after ht
  exact ⟨s, s', t, hreach, hs', hafter, of_decide_eq_true hone, cancel_reaches_runs hreach hcancel hfinds hs' hafter⟩

end Jarvis.Missions
