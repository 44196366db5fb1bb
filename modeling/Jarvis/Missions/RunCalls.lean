/-
  Jarvis.Missions.RunCalls — missions together with the model calls that their runs' nodes make.

  A manager's turn and a run's node count the calls of a mission's team version by one query
  (`team_resources.py`: `inference_calls`), which knows a run by the mission and the team
  version in its `runtime_json`. A run's gateway takes its limit from the team frozen in the
  run's configuration and its identity from `runtime_json` (`RealComposition.build`). The runs
  that `dispatch_ready` creates have both. A retry shares its predecessor's configuration and
  gets an empty `runtime_json`; a run that `create_job` makes for `start_item` has neither.

  A run's calls are those of `Providers.step`, with its own executions, crashes and replays;
  the rows they record are rows of the one table that the query reads.
-/
import Jarvis.Missions.Turns
import Jarvis.Missions.Starts
import Jarvis.Providers.Calls

namespace Jarvis.Missions

/-! ## The gateway of a run's node -/

/-- The assignment whose team is frozen in the configuration of the job's runs. -/
def jobAssignment (db : Db) (jobId : JobId) : Option Assignment :=
  (db.runs.find? fun run => run.jobId = jobId ∧ run.assignment.isSome).bind (·.assignment)

/-- `mission_team` of the run's configuration. -/
def frozenTeam (db : Db) (run : RunRow) : Option TeamVersionRow :=
  (run.assignment.or (jobAssignment db run.jobId)).bind fun a => db.team? a.teamVersionId

/-- `RealComposition.build` binds a node's gateway to the run. -/
def gateway (db : Db) (run : RunRow) (budget : Providers.BudgetGateway) : Providers.BudgetGateway :=
  { budget with
    maxInferenceCalls := (frozenTeam db run).map (·.maxInferenceCalls)
    missionId := run.assignment.map (·.missionId)
    teamVersionId := run.assignment.map (·.teamVersionId) }

/-- The bindings of a run's calls; `nodes` are the providers, profiles and routes of its nodes. -/
def boundCalls (nodes : RunId → Nat → Providers.Binding) (db : Db) (run : RunRow) (call : Nat) : Providers.Binding :=
  { nodes run.id call with budget := gateway db run (nodes run.id call).budget }

/-- What `inference_calls` counts for a run that has its identity. -/
def countedFor (db : Db) (run : RunRow) : Nat :=
  (run.assignment.map fun a => inferenceCalls db a.missionId a.teamVersionId).getD 0

/-- The first transaction of a call counts in the tables as they are. -/
def withCount (calls : Nat) : Providers.Act → Providers.Act
  | .begin_ x _ now => .begin_ x calls now
  | a => a

/-! ## The system -/

def callOutcome : Providers.Outcome → CallOutcome
  | .completed => .completed
  | .failed => .failed
  | .unknown => .unknown
  | .denied => .denied
  | .requireApproval => .requireApproval

def recordRows (db : Db) (id : RunId) (rows : List Providers.ModelCall) : Db :=
  { db with
    modelCalls := db.modelCalls ++ rows.map fun row => { source := .run id row.callId, outcome := callOutcome row.outcome } }

structure CallSys where
  sys : Sys
  /-- The calls of each run. -/
  calls : RunId → Providers.St := fun _ => {}
  /-- The calls of runs for which a provider was invoked. -/
  invoked : List (RunId × Nat) := []

inductive CallAction where
  | mission (action : Action)
  | call (run : RunId) (act : Providers.Act)

namespace CallSys

/-- What an execution of a call of the run makes of the system. -/
def afterCall (s : CallSys) (id : RunId) (new : Providers.St) : CallSys where
  sys := { s.sys with db := recordRows s.sys.db id (new.rows.drop (s.calls id).rows.length) }
  calls := Function.update s.calls id new
  invoked := s.invoked ++ (new.invoked.drop (s.calls id).invoked.length).map fun call => (id, call)

def step (nodes : RunId → Nat → Providers.Binding) (s : CallSys) : CallAction → Option CallSys
  -- a run's calls are the other actions
  | .mission (.runModelCall _ _ _) => none
  | .mission action => (Missions.step s.sys action).map fun sys => { s with sys }
  | .call id act =>
    (s.sys.db.run? id).bind fun run =>
      (Providers.step (boundCalls nodes s.sys.db run) (s.calls id) (withCount (countedFor s.sys.db run) act)).map (s.afterCall id)

def init (workflowVersions : List Nat) : CallSys := { sys := Sys.init workflowVersions }

end CallSys

/-! ## Whose call it is -/

/-- The mission and the team version that a call counts for. -/
def countsFor (db : Db) : CallSource → Option (Nat × Nat)
  | .turn id => (db.turn? id).map fun turn => (turn.missionId, turn.teamVersionId)
  | .run id _ => ((db.run? id).bind (·.assignment)).map fun a => (a.missionId, a.teamVersionId)

/-- The turn or the run of a call is there. -/
def known (db : Db) : CallSource → Prop
  | .turn id => (db.turn? id).isSome
  | .run id _ => (db.run? id).isSome

/-- The calls that count for a mission's team version. -/
def countedCalls (db : Db) (missionId teamVersionId : Nat) : List CallSource :=
  (db.modelCalls.map (·.source)).filter fun source => countsFor db source = some (missionId, teamVersionId)

theorem inferenceCalls_eq {db : Db} (hk : db.keys.Distinct) (missionId teamVersionId : Nat) :
    inferenceCalls db missionId teamVersionId = (countedCalls db missionId teamVersionId).dedup.length := by
  unfold inferenceCalls countedCalls
  congr 2
  refine List.filter_congr fun source _ => Bool.eq_iff_iff.mpr (Iff.trans ?_ decide_eq_true_iff.symm)
  cases source with
  | turn id =>
    simp only [List.any_eq_true, decide_eq_true_eq, countsFor, Option.map_eq_some_iff, Prod.mk.injEq]
    constructor
    · rintro ⟨turn, hturn, hid, hm, hv⟩
      exact ⟨turn, (find?_key hk.turns.nodup).mpr ⟨hturn, hid⟩, hm, hv⟩
    · rintro ⟨turn, hturn, hm, hv⟩
      obtain ⟨hmem, hid⟩ := Db.turn?_eq_some hturn
      exact ⟨turn, hmem, hid, hm, hv⟩
  | run id call =>
    simp only [List.any_eq_true, decide_eq_true_eq, countsFor, Option.map_eq_some_iff, Prod.mk.injEq,
      Option.any_eq_true, Option.bind_eq_some_iff]
    constructor
    · rintro ⟨run, hrun, hid, a, ha, hm, hv⟩
      exact ⟨a, ⟨run, (find?_key hk.runs.nodup).mpr ⟨hrun, hid⟩, ha⟩, hm, hv⟩
    · rintro ⟨a, ⟨run, hrun, ha⟩, hm, hv⟩
      obtain ⟨hmem, hid⟩ := Db.run?_eq_some hrun
      exact ⟨run, hmem, hid, a, ha, hm, hv⟩

/-! ## What stays -/

/-- Turns stay their mission's and their team version's, runs keep their assignments, and team
    versions stay as they are. -/
structure Kept (db db' : Db) : Prop where
  turn : ∀ id turn, db.turn? id = some turn → ∃ row, db'.turn? id = some row ∧ turn.SameTurn row
  run : ∀ id run, db.run? id = some run → ∃ row, db'.run? id = some row ∧ row.assignment = run.assignment
  team : ∀ id team, db.team? id = some team → db'.team? id = some team

theorem team?_append {db db' : Db} {new : List TeamVersionRow} {id : Nat} {team : TeamVersionRow}
    (hteams : db'.teams = db.teams ++ new) (h : db.team? id = some team) : db'.team? id = some team := by
  unfold Db.team? at h ⊢
  rw [hteams, List.find?_append, h]
  rfl

/-- Team versions are only added. -/
theorem step_teams {s s' : Sys} {action : Action} (h : step s action = some s') : ∃ new, s'.db.teams = s.db.teams ++ new := by
  by_cases hframe : Table.teams ∈ footprint action
  · cases action with
    | createMission mission team now =>
      cases h
      exact ⟨_, rfl⟩
    | updateTeam mission team version key now =>
      obtain ⟨db, hdb, rfl⟩ := toOption_map h
      unfold updateTeam at hdb
      dsimp only at hdb
      repeat' split at hdb
      all_goals cases hdb
      · exact ⟨[], (List.append_nil _).symm⟩
      · exact ⟨_, rfl⟩
    | _ => simp [footprint] at hframe
  · exact ⟨[], by rw [step_writes h .teams hframe, List.append_nil]⟩

theorem step_kept {s s' : Sys} {action : Action} (hk : s.db.keys.Distinct) (h : step s action = some s') : Kept s.db s'.db where
  turn _ _ hturn := step_sameTurn hk h hturn
  run id run hrun := by
    obtain ⟨row, hrow, hmove⟩ := (run_moves hk h id).1 run hrun
    exact ⟨row, hrow, (runMove_same hmove).2.2.2.2⟩
  team _ _ hteam := by
    obtain ⟨new, hnew⟩ := step_teams h
    exact team?_append hnew hteam

namespace Kept

variable {db db' : Db} {source : CallSource}

theorem known (h : Kept db db') (hs : known db source) : Missions.known db' source := by
  cases source with
  | turn id =>
    obtain ⟨turn, hturn⟩ := Option.isSome_iff_exists.mp hs
    obtain ⟨row, hrow, -⟩ := h.turn id turn hturn
    exact Option.isSome_iff_exists.mpr ⟨row, hrow⟩
  | run id call =>
    obtain ⟨run, hrun⟩ := Option.isSome_iff_exists.mp hs
    obtain ⟨row, hrow, -⟩ := h.run id run hrun
    exact Option.isSome_iff_exists.mpr ⟨row, hrow⟩

theorem countsFor (h : Kept db db') (hs : Missions.known db source) :
    Missions.countsFor db' source = Missions.countsFor db source := by
  cases source with
  | turn id =>
    obtain ⟨turn, hturn⟩ := Option.isSome_iff_exists.mp hs
    obtain ⟨row, hrow, -, hm, hv⟩ := h.turn id turn hturn
    simp only [Missions.countsFor, hturn, hrow, Option.map_some, hm, hv]
  | run id call =>
    obtain ⟨run, hrun⟩ := Option.isSome_iff_exists.mp hs
    obtain ⟨row, hrow, ha⟩ := h.run id run hrun
    simp only [Missions.countsFor, hrun, hrow, Option.bind_some, ha]

end Kept

end Jarvis.Missions
