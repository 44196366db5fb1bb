/-
  Jarvis.Missions.InferenceCap — how many calls a mission's team version makes.

  A call is admitted while the calls that count for its mission and team version are fewer than
  the version's `max_inference_calls`, by a manager's turn and by a run's node alike, and its
  row is there with the admission (`Admits`, `Rationed`). A call counts by its turn's or its
  run's identity, which stays (`Kept`).

  What is left out is a run without an identity. A retry's run keeps the limit and has none, so
  its calls are refused. A run that `start_item` made has neither: its calls are not limited and
  not counted, so the team version makes more calls than it may (`started_run_calls_more`).
  `inference_capped` holds while no call begins in such a run.
-/
import Jarvis.Missions.RunCalls
import Jarvis.Providers.RunCap

namespace Jarvis.Missions

/-! ## The calls that are counted -/

variable {db db' : Db}

/-- Another call may begin: fewer are counted for its mission and team version than the version
    allows. -/
def Admits (db : Db) (source : CallSource) : Prop :=
  known db source ∧ ∀ m v, countsFor db source = some (m, v) →
    ∃ team, db.team? v = some team ∧ (countedCalls db m v).dedup.length < team.maxInferenceCalls

/-- No team version has more calls than it allows. -/
structure Rationed (db : Db) : Prop where
  known : ∀ row ∈ db.modelCalls, known db row.source
  teamed : ∀ row ∈ db.modelCalls, ∀ m v, countsFor db row.source = some (m, v) → (db.team? v).isSome
  capped : ∀ m v team, db.team? v = some team → (countedCalls db m v).dedup.length ≤ team.maxInferenceCalls

theorem mem_countedCalls {m v : Nat} {source : CallSource} :
    source ∈ countedCalls db m v ↔ (∃ row ∈ db.modelCalls, row.source = source) ∧ countsFor db source = some (m, v) := by
  simp [countedCalls]

namespace Rationed

/-- The rows added are of calls that have rows, or of one call that was admitted. -/
theorem extend (hr : Rationed db) (hkept : Kept db db') {source : CallSource}
    (hcalls : ∀ row ∈ db'.modelCalls,
      (∃ old ∈ db.modelCalls, old.source = row.source) ∨ (row.source = source ∧ Admits db source)) :
    Rationed db' := by
  have hknown : ∀ row ∈ db'.modelCalls, Missions.known db row.source := by
    intro row hrow
    obtain ⟨old, hold, hsource⟩ | ⟨hsource, hadmits⟩ := hcalls row hrow
    · exact hsource ▸ hr.known old hold
    · exact hsource ▸ hadmits.1
  refine ⟨fun row hrow => hkept.known (hknown row hrow), fun row hrow m v hcounts => ?_, fun m v team hteam => ?_⟩
  · rw [hkept.countsFor (hknown row hrow)] at hcounts
    obtain ⟨old, hold, hsource⟩ | ⟨hsource, hadmits⟩ := hcalls row hrow
    · obtain ⟨team, hteam⟩ := Option.isSome_iff_exists.mp (hr.teamed old hold m v (hsource ▸ hcounts))
      exact Option.isSome_iff_exists.mpr ⟨team, hkept.team v team hteam⟩
    · obtain ⟨team, hteam, -⟩ := hadmits.2 m v (hsource ▸ hcounts)
      exact Option.isSome_iff_exists.mpr ⟨team, hkept.team v team hteam⟩
  have hmem : ∀ x ∈ countedCalls db' m v,
      x ∈ countedCalls db m v ∨ (x = source ∧ Admits db source ∧ countsFor db source = some (m, v)) := by
    intro x hx
    obtain ⟨⟨row, hrow, rfl⟩, hcounts⟩ := mem_countedCalls.mp hx
    rw [hkept.countsFor (hknown row hrow)] at hcounts
    obtain hold | ⟨hsource, hadmits⟩ := hcalls row hrow
    · exact .inl (mem_countedCalls.mpr ⟨hold, hcounts⟩)
    · exact .inr ⟨hsource, hadmits, hsource ▸ hcounts⟩
  cases hbefore : db.team? v with
  | none =>
    -- a version that is new has no calls yet
    have hempty : countedCalls db' m v = [] := List.eq_nil_iff_forall_not_mem.mpr fun x hx => by
      obtain hx | ⟨-, hadmits, hcounts⟩ := hmem x hx
      · obtain ⟨⟨row, hrow, rfl⟩, hcounts⟩ := mem_countedCalls.mp hx
        have hteamed := hr.teamed row hrow m v hcounts
        rw [hbefore] at hteamed
        cases hteamed
      · obtain ⟨old, hold, -⟩ := hadmits.2 m v hcounts
        rw [hbefore] at hold
        cases hold
    rw [hempty]
    exact Nat.zero_le _
  | some old =>
    have hsame := hkept.team v old hbefore
    rw [hteam] at hsame
    cases hsame
    by_cases hnew : Admits db source ∧ countsFor db source = some (m, v)
    · obtain ⟨hadmits, hcounts⟩ := hnew
      obtain ⟨old, hold, hlt⟩ := hadmits.2 m v hcounts
      rw [hbefore] at hold
      cases hold
      have hle : (countedCalls db' m v).dedup.length ≤ (source :: (countedCalls db m v).dedup).length := by
        refine length_dedup_le fun x hx => ?_
        obtain hin | ⟨rfl, -⟩ := hmem x hx
        · exact List.mem_cons_of_mem _ (List.mem_dedup.mpr hin)
        · exact List.mem_cons_self
      rw [List.length_cons] at hle
      omega
    · have hle : (countedCalls db' m v).dedup.length ≤ (countedCalls db m v).dedup.length := by
        refine length_dedup_le fun x hx => ?_
        obtain hin | ⟨-, hadmits, hcounts⟩ := hmem x hx
        · exact List.mem_dedup.mpr hin
        · exact absurd ⟨hadmits, hcounts⟩ hnew
      exact hle.trans (hr.capped m v _ hbefore)

/-- The rows added are of calls that have rows. -/
theorem same (hr : Rationed db) (hkept : Kept db db')
    (hcalls : ∀ row ∈ db'.modelCalls, ∃ old ∈ db.modelCalls, old.source = row.source) : Rationed db' :=
  @extend db db' hr hkept (.turn (.fresh 0)) fun row hrow => .inl (hcalls row hrow)

theorem countedCalls_eq (hr : Rationed db) (hkept : Kept db db') (hcalls : db'.modelCalls = db.modelCalls) (m v : Nat) :
    countedCalls db' m v = countedCalls db m v := by
  unfold countedCalls
  rw [hcalls]
  refine List.filter_congr fun source hsource => ?_
  obtain ⟨row, hrow, rfl⟩ := List.mem_map.mp hsource
  rw [hkept.countsFor (hr.known row hrow)]

end Rationed

/-! ## A manager's turn -/

variable {s s' : Sys} {action : Action}

/-- A turn's call begins only while the turn's team version has one left. -/
theorem beginCall_admits {service : Service} {turnId : TurnId} {request : ManagerRequest} {now : Nat}
    (hk : db.keys.Distinct) (hr : Rationed db) (h : beginCall db service turnId request now = .ok (db', .call)) :
    Admits db (.turn turnId) := by
  unfold beginCall at h
  dsimp only at h
  split at h
  · cases h
  rename_i turn hturn
  split at h
  · cases h
  split at h
  · cases h
  split at h
  · cases h
  rename_i mission hmission
  split at h
  · cases h
  split at h
  · cases h
  split at h
  · cases h
  rename_i session _ _
  have hbase : Kept db (Db.writeTurn { db with ledger := session } { turn with called := true }) := by
    refine ⟨fun id old hold => ?_, fun id run hrun => ⟨run, hrun, rfl⟩, fun id team hteam => hteam⟩
    have hid : db.turn? turn.id = some turn := by rw [(Db.turn?_eq_some hturn).2, hturn]
    exact sameTurn_writeTurn rfl hid ⟨rfl, rfl, rfl⟩ hold
  have hkeys : (Db.writeTurn { db with ledger := session } { turn with called := true }).keys = db.keys :=
    (keys_writeTurn _ _).trans (keys_ledger _ _)
  split at h
  · split at h <;> cases h
  split at h
  · cases h
  split at h
  · cases h
  rename_i team hteam
  split at h
  · cases h
  rename_i hroom
  have hid := (Db.mission?_eq_some hmission).2
  have hteamId : team.id = turn.teamVersionId := by simpa using List.find?_some hteam
  refine ⟨Option.isSome_iff_exists.mpr ⟨turn, hturn⟩, fun m v hcounts => ?_⟩
  simp only [countsFor, hturn, Option.map_some, Option.some.injEq, Prod.mk.injEq] at hcounts
  obtain ⟨rfl, rfl⟩ := hcounts
  refine ⟨team, hteam, ?_⟩
  rw [inferenceCalls_eq (hkeys ▸ hk), hid, hteamId, hr.countedCalls_eq hbase rfl] at hroom
  exact Nat.lt_of_not_le hroom

/-- The execution has a result to store. -/
def ExecPc.stores : ExecPc → Bool
  | .store _ _ => true
  | _ => false

theorem received_stores (result : ProviderResult) : (received result).stores = false := by
  unfold received
  split <;> rfl

/-- Only an execution that called its provider comes to store a result. -/
theorem executionStep_stores {e : Execution} (h : executionStep s e action = some s') :
    ∀ x ∈ s'.executions, x.pc.stores = true → x ∈ s.executions ∨ (x.turnId = e.turnId ∧ e.calling) := by
  have hset : ∀ {pc : ExecPc}, pc.stores = false → ∀ x ∈ (s.setExecution { e with pc }).executions,
      x.pc.stores = true → x ∈ s.executions ∨ (x.turnId = e.turnId ∧ e.calling) := by
    intro pc hpc x hx hstores
    obtain ⟨hx, -⟩ | ⟨-, -, -, rfl⟩ := mem_setExecution.mp hx
    · exact .inl hx
    · rw [hpc] at hstores
      cases hstores
  have hcalled : ∀ {pc : ExecPc}, e.calling → ∀ x ∈ (s.setExecution { e with pc }).executions,
      x.pc.stores = true → x ∈ s.executions ∨ (x.turnId = e.turnId ∧ e.calling) := by
    intro pc hcalling x hx _
    obtain ⟨hx, -⟩ | ⟨-, -, -, rfl⟩ := mem_setExecution.mp hx
    · exact .inl hx
    · exact .inr ⟨rfl, hcalling⟩
  have hdrop : ∀ x ∈ (s.dropExecution e.id).executions, x.pc.stores = true →
      x ∈ s.executions ∨ (x.turnId = e.turnId ∧ e.calling) :=
    fun x hx _ => .inl (mem_dropExecution.mp hx).1
  unfold executionStep at h
  split at h
  · split at h
    · split at h <;> cases h
      · exact hset rfl
      · exact hset rfl
    · cases h
  · split at h
    · split at h <;> cases h
      · exact hset (received_stores _)
      · exact hset rfl
      · exact hset rfl
    · cases h
  · split at h
    · rename_i request hpc
      dsimp only at h
      repeat' split at h
      all_goals cases h
      all_goals exact hcalled ⟨request, hpc⟩
    · cases h
  · split at h
    · split at h <;> cases h
      · exact hset (received_stores _)
      · exact hset rfl
    · cases h
  · split at h
    · split at h
      · cases h
        exact hdrop
      · cases h
        exact hset rfl
    · cases h
  · split at h
    · cases h
      exact hdrop
    · cases h
  · cases h
    exact hdrop
  · cases h

/-- An execution with a result to store has its turn's marker. -/
def Stored (s : Sys) : Prop :=
  ∀ e ∈ s.executions, e.pc.stores = true → started s.db e.turnId = true

theorem Stored.step (hm : Marked s) (hs : Stored s) (h : Jarvis.Missions.step s action = some s') : Stored s' := by
  intro x hx hstores
  have hold : x ∈ s.executions → started s'.db x.turnId = true := fun hx => started_kept h (hs x hx hstores)
  obtain ⟨he, -⟩ | ⟨service, locked, now, db, turnId, -, -, rfl⟩ | ⟨e, he, hmove⟩ := executions_cases h
  · exact hold (he ▸ hx)
  · obtain hx | hx := List.mem_append.mp hx
    · exact hold hx
    · rw [List.mem_singleton.mp hx] at hstores
      cases hstores
  · obtain hx | ⟨hturn, hcalling⟩ := executionStep_stores hmove x hx hstores
    · exact hold hx
    · exact hturn ▸ started_kept h (hm.calling e he hcalling).1

theorem mem_of_started {turnId : TurnId} (h : started db turnId = true) :
    ∃ row ∈ db.modelCalls, row.source = .turn turnId := by
  obtain ⟨row, hrow, hsource⟩ := List.any_eq_true.mp h
  exact ⟨row, hrow, (of_decide_eq_true hsource).1⟩

/-- What the missions' own actions make of the calls. -/
theorem Rationed.step (hk : s.db.keys.Distinct) (hstored : Stored s) (hr : Rationed s.db)
    (h : Jarvis.Missions.step s action = some s')
    (haction : ∀ run correlation outcome, action ≠ .runModelCall run correlation outcome) : Rationed s'.db := by
  have hkept := step_kept hk h
  have hsame : s'.db.modelCalls = s.db.modelCalls → Rationed s'.db :=
    fun heq => hr.same hkept fun row hrow => ⟨row, heq ▸ hrow, rfl⟩
  by_cases hframe : Table.modelCalls ∈ footprint action
  · cases action with
    | beginCall id now =>
      obtain ⟨e, -, hmove⟩ := Option.bind_eq_some_iff.mp h
      simp only [executionStep] at hmove
      split at hmove
      · split at hmove <;> cases hmove
        · rename_i hbegin
          obtain ⟨turn, -, -, -, ⟨-, -, hcalls⟩ | ⟨hcall, -⟩⟩ := beginCall_ok hbegin
          · exact hsame hcalls
          · cases hcall
        · rename_i hbegin
          have hadmits := beginCall_admits hk hr hbegin
          obtain ⟨turn, -, -, -, ⟨_, hstored, _⟩ | ⟨-, -, hcalls⟩⟩ := beginCall_ok hbegin
          · cases hstored
          · refine @extend _ _ hr hkept (.turn e.turnId) fun row hrow => ?_
            obtain hrow | hrow := List.mem_append.mp (hcalls ▸ hrow)
            · exact .inl ⟨row, hrow, rfl⟩
            · exact .inr ⟨by rw [List.mem_singleton.mp hrow], hadmits⟩
        · exact hsame rfl
      · cases hmove
    | storeReceipt id now =>
      obtain ⟨e, he, hmove⟩ := Option.bind_eq_some_iff.mp h
      simp only [executionStep] at hmove
      split at hmove
      · rename_i request result hpc
        split at hmove <;> cases hmove
        · rename_i hstore
          obtain ⟨outcome, hcalls⟩ := storeReceipt_ok hstore
          refine hr.same hkept fun row hrow => ?_
          obtain hrow | hrow := List.mem_append.mp (hcalls ▸ hrow)
          · exact ⟨row, hrow, rfl⟩
          · rw [List.mem_singleton.mp hrow]
            exact mem_of_started (hstored e (List.mem_of_find?_eq_some he) (by rw [hpc]; rfl))
        · exact hsame rfl
      · cases hmove
    | runModelCall run correlation outcome => exact absurd rfl (haction run correlation outcome)
    | _ => simp [footprint] at hframe
  · exact hsame (step_writes h .modelCalls hframe)

/-! ## A run's calls -/

/-- No call begins in a run whose configuration has no team. -/
def teamFrozen (c : CallSys) : CallAction → Prop
  | .call id (.begin_ _ _ _) => (c.sys.db.run? id).all fun run => (frozenTeam c.sys.db run).isSome
  | _ => True

instance (c : CallSys) : ∀ action, Decidable (teamFrozen c action)
  | .call id (.begin_ _ _ _) =>
    inferInstanceAs (Decidable ((c.sys.db.run? id).all (fun run => (frozenTeam c.sys.db run).isSome) = true))
  | .mission _ | .call _ (.fence _) | .call _ (.enter _ _ _) | .call _ (.invoke _) | .call _ (.answer _ _)
  | .call _ (.record _ _) | .call _ (.crash _) => isTrue trivial

variable {nodes : RunId → Nat → Providers.Binding} {c c' : CallSys}

theorem withCount_begins {bound : Nat → Providers.Binding} {calls : Nat} {act : Providers.Act} {p : Providers.Proc}
    (h : Providers.begins bound (withCount calls act) p) :
    (∃ x n now, act = .begin_ x n now) ∧ (bound p.callId).budget.reserveInferenceCall calls = .ok () := by
  obtain ⟨n, now, hact, hreserve⟩ := h
  cases act with
  | begin_ _ k _ =>
    cases hact
    exact ⟨⟨_, k, _, rfl⟩, hreserve⟩
  | _ => cases hact

/-- A call that begins in a run with a team has its run's identity, and is admitted. -/
theorem run_admits (hk : db.keys.Distinct) {id : RunId} {run : RunRow} (hrun : db.run? id = some run)
    (hfrozen : (frozenTeam db run).isSome) {call : Nat}
    (h : (boundCalls nodes db run call).budget.reserveInferenceCall (countedFor db run) = .ok ()) :
    run.assignment.isSome ∧ Admits db (.run id call) := by
  obtain ⟨team, hteam⟩ := Option.isSome_iff_exists.mp hfrozen
  simp only [Providers.BudgetGateway.reserveInferenceCall, boundCalls, gateway, hteam, Option.map_some] at h
  split_ifs at h with hidentity hroom
  cases ha : run.assignment with
  | none => simp [ha] at hidentity
  | some a =>
    refine ⟨rfl, Option.isSome_iff_exists.mpr ⟨run, hrun⟩, fun m v hcounts => ?_⟩
    simp only [countsFor, hrun, Option.bind_some, ha, Option.map_some, Option.some.injEq, Prod.mk.injEq] at hcounts
    obtain ⟨rfl, rfl⟩ := hcounts
    have hteam' : db.team? a.teamVersionId = some team := by simpa [frozenTeam, ha] using hteam
    refine ⟨team, hteam', ?_⟩
    rw [countedFor, ha, Option.map_some, Option.getD_some, inferenceCalls_eq hk] at hroom
    exact Nat.lt_of_not_le hroom

/-- What a run's calls say: their rows are in the table that is counted, and the run has its
    identity as soon as there is one. -/
structure RunTracked (bound : Nat → Providers.Binding) (db : Db) (id : RunId) (st : Providers.St) : Prop where
  tables : Providers.Tables bound st
  flights : Providers.Flights st
  mirrored : ∀ row ∈ st.rows, ∃ r ∈ db.modelCalls, r.source = .run id row.callId
  identified : ∀ row ∈ st.rows, ∃ run, db.run? id = some run ∧ run.assignment.isSome

/-- The binding of a run's call is paid for as its node is. -/
theorem tables_boundCalls {run : RunRow} {id : RunId} (hrun : db.run? id = some run) {st : Providers.St} :
    Providers.Tables (boundCalls nodes db run) st ↔ Providers.Tables (nodes id) st := by
  obtain ⟨-, rfl⟩ := Db.run?_eq_some hrun
  exact ⟨fun h => h.congr fun _ => rfl, fun h => h.congr fun _ => rfl⟩

namespace RunTracked

variable {bound : Nat → Providers.Binding} {id : RunId} {st new : Providers.St}

theorem init (bound : Nat → Providers.Binding) (db : Db) (id : RunId) : RunTracked bound db id {} where
  tables := .init
  flights := .init
  mirrored _ h := absurd h List.not_mem_nil
  identified _ h := absurd h List.not_mem_nil

theorem kept (hr : RunTracked bound db id st) (hkept : Kept db db') (hcalls : ∀ row ∈ db.modelCalls, row ∈ db'.modelCalls) :
    RunTracked bound db' id st where
  tables := hr.tables
  flights := hr.flights
  mirrored row hrow := by
    obtain ⟨r, hmem, hsource⟩ := hr.mirrored row hrow
    exact ⟨r, hcalls r hmem, hsource⟩
  identified row hrow := by
    obtain ⟨run, hrun, ha⟩ := hr.identified row hrow
    obtain ⟨run', hrun', ha'⟩ := hkept.run id run hrun
    exact ⟨run', hrun', ha' ▸ ha⟩

/-- What a move of a run's executions adds to the run's rows: one row of a call that is there or
    was admitted in a run with its identity, or nothing. -/
theorem move_rows (hr : RunTracked (nodes id) db id st) (hk : db.keys.Distinct) {run : RunRow} (hrun : db.run? id = some run)
    {act : Providers.Act} (hok : ∀ x calls now, act = .begin_ x calls now → (frozenTeam db run).isSome)
    (hmoved : Providers.Moved (boundCalls nodes db run) st (withCount (countedFor db run) act) new) :
    new.rows = st.rows ∨ ∃ row, new.rows = st.rows ++ [row] ∧ run.assignment.isSome ∧
      ((∃ old ∈ db.modelCalls, old.source = .run id row.callId) ∨ Admits db (.run id row.callId)) := by
  obtain hsame | ⟨row, hrow, hstarted | ⟨p, hbegins, hcall⟩⟩ := hmoved.rows_cases hr.flights
  · exact .inl hsame
  · obtain ⟨old, hold, -, hcall⟩ := Providers.mem_stageCalls.mp hstarted
    obtain ⟨run', hrun', ha⟩ := hr.identified old hold
    obtain rfl : run' = run := Option.some.inj (hrun'.symm.trans hrun)
    exact .inr ⟨row, hrow, ha, .inl (hcall ▸ hr.mirrored old hold)⟩
  · obtain ⟨⟨x, n, now, hbegin⟩, hreserve⟩ := withCount_begins hbegins
    obtain ⟨ha, hadmits⟩ := run_admits hk hrun (hok x n now hbegin) hreserve
    exact .inr ⟨row, hrow, ha, .inr (hcall ▸ hadmits)⟩

/-- The run's own move: the rows it adds are recorded. -/
theorem move (hr : RunTracked (nodes id) db id st) {run : RunRow} (hrun : db.run? id = some run) {act : Providers.Act}
    (hmoved : Providers.Moved (boundCalls nodes db run) st act new) {added : List Providers.ModelCall}
    (hadded : new.rows = st.rows ++ added) (hidentity : added ≠ [] → run.assignment.isSome) :
    RunTracked (nodes id) (recordRows db id added) id new where
  tables := (tables_boundCalls hrun).mp (((tables_boundCalls hrun).mpr hr.tables).moved hr.flights hmoved)
  flights := hr.flights.moved ((tables_boundCalls hrun).mpr hr.tables) hmoved
  mirrored row hrow := by
    rw [hadded] at hrow
    obtain hrow | hrow := List.mem_append.mp hrow
    · obtain ⟨r, hmem, hsource⟩ := hr.mirrored row hrow
      exact ⟨r, List.mem_append_left _ hmem, hsource⟩
    · exact ⟨_, List.mem_append_right _ (List.mem_map.mpr ⟨row, hrow, rfl⟩), rfl⟩
  identified row hrow := by
    rw [hadded] at hrow
    obtain hrow | hrow := List.mem_append.mp hrow
    · exact hr.identified row hrow
    · exact ⟨run, hrun, hidentity (List.ne_nil_of_mem hrow)⟩

end RunTracked

/-- What the tables and the executions say together. -/
structure Tracked (nodes : RunId → Nat → Providers.Binding) (c : CallSys) : Prop where
  keys : c.sys.db.keys.Distinct
  marked : Marked c.sys
  stored : Stored c.sys
  rationed : Rationed c.sys.db
  runs : ∀ id, RunTracked (nodes id) c.sys.db id (c.calls id)
  invoked : ∀ p ∈ c.invoked, p.2 ∈ (c.calls p.1).invoked

theorem recordRows_kept (db : Db) (id : RunId) (rows : List Providers.ModelCall) : Kept db (recordRows db id rows) :=
  ⟨fun _ turn h => ⟨turn, h, .refl turn⟩, fun _ run h => ⟨run, h, rfl⟩, fun _ _ h => h⟩

theorem started_recordRows {id : RunId} {rows : List Providers.ModelCall} {turnId : TurnId} (h : started db turnId = true) :
    started (recordRows db id rows) turnId = true := by
  unfold started recordRows at *
  rw [List.any_append, h, Bool.true_or]

namespace Tracked

theorem init (versions : List Nat) : Tracked nodes (CallSys.init versions) where
  keys := init_distinct versions
  marked := .init versions
  stored _ h := absurd h List.not_mem_nil
  rationed := ⟨fun _ h => absurd h List.not_mem_nil, fun _ h => absurd h List.not_mem_nil, fun _ _ _ h => nomatch h⟩
  runs id := .init (nodes id) _ id
  invoked _ h := absurd h List.not_mem_nil

theorem mission (ht : Tracked nodes c) {sys : Sys} {action : Action} (h : Missions.step c.sys action = some sys)
    (haction : ∀ run correlation outcome, action ≠ .runModelCall run correlation outcome) :
    Tracked nodes { c with sys } where
  keys := step_distinct ht.keys h
  marked := ht.marked.step h
  stored := ht.stored.step ht.marked h
  rationed := ht.rationed.step ht.keys ht.stored h haction
  runs id := by
    obtain ⟨new, hnew⟩ := step_modelCalls h
    exact (ht.runs id).kept (step_kept ht.keys h) fun row hrow => hnew ▸ List.mem_append_left _ hrow
  invoked := ht.invoked

theorem call (ht : Tracked nodes c) {id : RunId} {run : RunRow} {act : Providers.Act} {new : Providers.St}
    (hrun : c.sys.db.run? id = some run) (hok : teamFrozen c (.call id act))
    (h : Providers.step (boundCalls nodes c.sys.db run) (c.calls id) (withCount (countedFor c.sys.db run) act) = some new) :
    Tracked nodes (c.afterCall id new) := by
  have hmoved := Providers.step_moved ((tables_boundCalls hrun).mpr (ht.runs id).tables) (ht.runs id).flights h
  have hfrozen : ∀ x calls now, act = .begin_ x calls now → (frozenTeam c.sys.db run).isSome := by
    rintro x calls now rfl
    simpa [teamFrozen, hrun] using hok
  have hrows := (ht.runs id).move_rows ht.keys hrun hfrozen hmoved
  obtain ⟨added, hadded, hidentity⟩ : ∃ added, new.rows = (c.calls id).rows ++ added ∧ (added ≠ [] → run.assignment.isSome) := by
    obtain hsame | ⟨row, hrow, ha, -⟩ := hrows
    · exact ⟨[], by rw [hsame, List.append_nil], fun hne => absurd rfl hne⟩
    · exact ⟨[row], hrow, fun _ => ha⟩
  have hdb : (c.afterCall id new).sys.db = recordRows c.sys.db id added := by
    simp only [CallSys.afterCall, hadded, List.drop_left]
  have hself : (c.afterCall id new).calls id = new := Function.update_self ..
  have hother : ∀ {other : RunId}, other ≠ id → (c.afterCall id new).calls other = c.calls other :=
    fun hne => Function.update_of_ne hne ..
  refine ⟨ht.keys, ?_, fun e he hs => started_recordRows (ht.stored e he hs), ?_, fun other => ?_, ?_⟩
  · exact ⟨ht.marked.nodup, fun turn hturn => started_recordRows (ht.marked.invoked turn hturn),
      fun e he hc => ⟨started_recordRows (ht.marked.calling e he hc).1, (ht.marked.calling e he hc).2⟩, ht.marked.alone⟩
  · rw [hdb]
    obtain hsame | ⟨row, hrow, -, hsource⟩ := hrows
    · obtain rfl : added = [] := List.append_right_eq_self.mp (hadded.symm.trans hsame)
      exact ht.rationed.same (recordRows_kept _ _ _) fun r hr => ⟨r, by simpa [recordRows] using hr, rfl⟩
    · obtain rfl : added = [row] := List.append_cancel_left (hadded.symm.trans hrow)
      refine @Rationed.extend _ _ ht.rationed (recordRows_kept _ _ _) (.run id row.callId) fun r hr => ?_
      obtain hr | hr := List.mem_append.mp hr
      · exact .inl ⟨r, hr, rfl⟩
      · have hsourced : r.source = .run id row.callId := by rw [List.mem_singleton.mp hr]
        obtain hold | hadmits := hsource
        · exact .inl (hsourced ▸ hold)
        · exact .inr ⟨hsourced, hadmits⟩
  · rw [hdb]
    by_cases heq : other = id
    · rw [heq, hself]
      exact (ht.runs id).move hrun hmoved hadded hidentity
    · rw [hother heq]
      exact (ht.runs other).kept (recordRows_kept _ _ _) fun r hr => List.mem_append_left _ hr
  · have hinvoked : ∀ call ∈ (c.calls id).invoked, call ∈ new.invoked := by
      obtain hsame | ⟨one, hone⟩ := hmoved.invoked_cases
      · exact fun call hcall => hsame ▸ hcall
      · exact fun call hcall => hone ▸ List.mem_append_left _ hcall
    intro p hp
    obtain hp | hp := List.mem_append.mp hp
    · by_cases heq : p.1 = id
      · rw [heq, hself]
        exact hinvoked _ (heq ▸ ht.invoked p hp)
      · rw [hother heq]
        exact ht.invoked p hp
    · obtain ⟨call, hcall, rfl⟩ := List.mem_map.mp hp
      show call ∈ ((c.afterCall id new).calls id).invoked
      rw [hself]
      exact List.mem_of_mem_drop hcall

end Tracked

/-! ## Runs of the system -/

theorem reach_tracked {versions : List Nat} (h : Steps.ReachIf (CallSys.step nodes) teamFrozen (CallSys.init versions) c) :
    Tracked nodes c := by
  refine h.invariant (Tracked nodes) (.init versions) fun c action c' ht hok hstep => ?_
  cases action with
  | mission action =>
    by_cases haction : ∃ run correlation outcome, action = .runModelCall run correlation outcome
    · obtain ⟨run, correlation, outcome, rfl⟩ := haction
      cases hstep
    · have hne : ∀ run correlation outcome, action ≠ .runModelCall run correlation outcome :=
        fun run correlation outcome heq => haction ⟨run, correlation, outcome, heq⟩
      have hmap : CallSys.step nodes c (.mission action) = (step c.sys action).map fun sys => { c with sys } := by
        cases action with
        | runModelCall run correlation outcome => exact absurd rfl (hne run correlation outcome)
        | _ => rfl
      obtain ⟨sys, hsys, rfl⟩ := Option.map_eq_some_iff.mp (hmap ▸ hstep)
      exact ht.mission hsys hne
  | call id act =>
    obtain ⟨run, hrun, hcall⟩ := Option.bind_eq_some_iff.mp hstep
    obtain ⟨new, hnew, rfl⟩ := Option.map_eq_some_iff.mp hcall
    exact ht.call hrun hok hnew

/-- The call is made under the team version: by its turn, or by a run that executes one of the
    mission's items. A run without an assignment is an item's by its job. -/
def executes (db : Db) (missionId teamVersionId : Nat) : CallSource → Bool
  | .turn id => countsFor db (.turn id) = some (missionId, teamVersionId)
  | .run id call =>
    (db.run? id).any fun run =>
      match run.assignment with
      | some _ => countsFor db (.run id call) = some (missionId, teamVersionId)
      | none => db.items.any fun item =>
          item.jobId = some run.jobId ∧ item.missionId = missionId ∧ item.teamVersionId = teamVersionId

/-- The calls made under the team version for which a provider was invoked. -/
def invokedCalls (c : CallSys) (missionId teamVersionId : Nat) : List CallSource :=
  (c.sys.invocations.map CallSource.turn ++ c.invoked.map fun (id, call) => CallSource.run id call).filter
    (executes c.sys.db missionId teamVersionId)

theorem Tracked.counted (ht : Tracked nodes c) {m v : Nat} {source : CallSource} (h : source ∈ invokedCalls c m v) :
    source ∈ countedCalls c.sys.db m v := by
  obtain ⟨hin, hexecutes⟩ := List.mem_filter.mp h
  obtain hin | hin := List.mem_append.mp hin
  · obtain ⟨turnId, hturn, rfl⟩ := List.mem_map.mp hin
    exact mem_countedCalls.mpr ⟨mem_of_started (ht.marked.invoked turnId hturn), of_decide_eq_true hexecutes⟩
  · obtain ⟨⟨id, call⟩, hp, rfl⟩ := List.mem_map.mp hin
    -- a call that was invoked has a row, and a run with a row has its identity
    obtain ⟨row, hrow, -, hcall⟩ := Providers.mem_stageCalls.mp ((ht.runs id).tables.invoked call (ht.invoked _ hp))
    obtain ⟨run, hrun, ha⟩ := (ht.runs id).identified row hrow
    obtain ⟨a, ha⟩ := Option.isSome_iff_exists.mp ha
    have hcounts : countsFor c.sys.db (.run id call) = some (m, v) := by
      simpa only [executes, hrun, Option.any_some, ha, decide_eq_true_eq] using hexecutes
    exact mem_countedCalls.mpr ⟨hcall ▸ (ht.runs id).mirrored row hrow, hcounts⟩

/-- While no call begins in a run whose configuration has no team, a provider is invoked for at most
    `max_inference_calls` calls of a team version. -/
theorem inference_capped {versions : List Nat}
    (h : Steps.ReachIf (CallSys.step nodes) teamFrozen (CallSys.init versions) c) {v : Nat} {team : TeamVersionRow}
    (hteam : c.sys.db.team? v = some team) (m : Nat) : (invokedCalls c m v).dedup.length ≤ team.maxInferenceCalls := by
  have ht := reach_tracked h
  have hle : (invokedCalls c m v).dedup.length ≤ (countedCalls c.sys.db m v).dedup.length :=
    length_dedup_le fun source hsource => List.mem_dedup.mpr (ht.counted hsource)
  exact hle.trans (ht.rationed.capped m v team hteam)

/-! ## Where the team version makes more calls -/

/-- A mission whose team may make so many calls; the manager's turn has made one, and items 5 and 6
    are ready. -/
def limitedTo (maxInferenceCalls : Nat) : List CallAction :=
  List.map CallAction.mission ([.createMission { sampleMission with resourceLimits := { maxActiveJobs := 2 } }
      { sampleTeam with maxExecutionSeconds := 14400, maxInferenceCalls } 0,
    .createMessage 0 "go" 1 false "message" 0] ++ callOf 0 1 0 ++ answerOf 0 0 ++ [.apply 0 1])

/-- Unpaid providers. -/
def freeNodes (_ : RunId) (_ : Nat) : Providers.Binding := { providerId := 1, profileId := 2, paid := false, pricing := {}, budget := {} }

/-- An execution of a call of the run comes to the first transaction. -/
def beginsCall (run : RunId) (x call : Nat) : List CallAction :=
  [.call run (.enter 1 call Providers.smallRequest), .call run (.begin_ x 0 5)]

/-- The scheduler's run makes the second of two calls, and is refused a third. -/
theorem inference_capped_refuses :
    ∃ c team, Steps.ReachIf (CallSys.step freeNodes) teamFrozen (CallSys.init [7]) c ∧ c.sys.db.team? 1 = some team ∧
      team.maxInferenceCalls = 2 ∧ c.sys.db.runs.map (·.id) = [.assignment 5] ∧
      invokedCalls c 0 1 = [.turn (.fresh 4), .run (.assignment 5) 0] ∧
      (invokedCalls c 0 1).dedup.length ≤ team.maxInferenceCalls := by
  let actions := limitedTo 2 ++ [.mission (.dispatchReady .real [] [6] 3), .call (.assignment 5) (.fence (some 1))] ++
    beginsCall (.assignment 5) 0 0 ++ [.call (.assignment 5) (.invoke 0)] ++ beginsCall (.assignment 5) 1 1
  have hrun : (Steps.runIf (CallSys.step freeNodes) teamFrozen (CallSys.init [7]) actions).any (fun c =>
      (c.sys.db.team? 1).map (·.maxInferenceCalls) = some 2 ∧ c.sys.db.runs.map (·.id) = [.assignment 5] ∧
      invokedCalls c 0 1 = [.turn (.fresh 4), .run (.assignment 5) 0]) = true := by decide +kernel
  obtain ⟨c, hc, hend⟩ := (Option.any_eq_true _ _).mp hrun
  obtain ⟨hteam, hruns, hinvoked⟩ := of_decide_eq_true hend
  obtain ⟨team, hteam, hmax⟩ := Option.map_eq_some_iff.mp hteam
  have hreach := Steps.runIf_reachIf actions hc
  exact ⟨c, team, hreach, hteam, hmax, hruns, hinvoked, inference_capped hreach hteam 0⟩

/-- The owner starts an item of a team that may make one call: the run's call is the second. -/
theorem started_run_calls_more :
    ∃ c team, Steps.Reach (CallSys.step freeNodes) (CallSys.init [7]) c ∧ c.sys.db.team? 1 = some team ∧
      team.maxInferenceCalls < (invokedCalls c 0 1).dedup.length := by
  let actions := limitedTo 1 ++ [.mission (.startItem 0 5 3 2), .mission (.createJob 1 true true), .mission (.linkItem 1 3),
    .call (.fresh 9) (.fence (some 1))] ++ beginsCall (.fresh 9) 0 0 ++ [.call (.fresh 9) (.invoke 0)]
  have hrun : (Steps.run (CallSys.step freeNodes) (CallSys.init [7]) actions).any (fun c =>
      (c.sys.db.team? 1).any fun team => team.maxInferenceCalls < (invokedCalls c 0 1).dedup.length) = true := by
    decide +kernel
  obtain ⟨c, hc, hend⟩ := (Option.any_eq_true _ _).mp hrun
  obtain ⟨team, hteam, hmore⟩ := (Option.any_eq_true _ _).mp hend
  exact ⟨c, team, Steps.run_reach actions hc, hteam, of_decide_eq_true hmore⟩

end Jarvis.Missions
