/-
  Jarvis.Missions.System — missions as one system: the owner's requests, the manager services
  and the runs, interleaved transaction by transaction.

  Calls of `start_item` and executions of turns keep what they carry between their
  transactions; either can vanish at any point (a crash). Besides the database the state
  records what the properties speak about: the claims made, the provider invocations, the
  decisions applied and the items settled while their mission was autonomous.
-/
import Jarvis.Lib.Steps
import Jarvis.Missions.Controls
import Jarvis.Missions.Manager
import Jarvis.Missions.Settle

namespace Jarvis.Missions

open Jarvis.Runtime (RunStatus DesiredState Mode)

/-- Where a call of `start_item` is. -/
inductive StartPc where
  | launch (project : Nat) (body : JobCreate)
  | release
  | link (jobId : JobId) (runId : RunId)
  deriving DecidableEq

structure StartCall where
  id : Nat
  missionId : Nat
  itemId : Nat
  pc : StartPc
  deriving DecidableEq

/-- Where the execution of a turn is. -/
inductive ExecPc where
  | load
  | begin_ (request : ManagerRequest)
  | call (request : ManagerRequest)
  | store (request : ManagerRequest) (result : ProviderResult)
  | apply (decision : ManagerDecision)
  | fail (code : FailureCode)
  deriving DecidableEq

structure Execution where
  /-- The claim it started with. -/
  id : Nat
  service : Service
  turnId : TurnId
  pc : ExecPc
  deriving DecidableEq

/-- An item that its run settled. -/
structure Settlement where
  missionId : Nat
  itemId : Nat
  runId : RunId
  lifecycle : WorkItemLifecycle
  deriving DecidableEq, Repr

structure Sys where
  db : Db
  starts : List StartCall := []
  executions : List Execution := []
  /-- Each claim: its turn and its number. -/
  claims : List (TurnId × Nat) := []
  invocations : List TurnId := []
  applied : List TurnId := []
  settled : List Settlement := []
  /-- The next number of a call or a claim. -/
  next : Nat := 0

inductive Action where
  -- the owner
  | createMission (mission : MissionRow) (team : TeamVersionRow) (now : Nat)
  | updateAutonomy (mission : Nat) (enabled : Bool) (version : Nat) (key : String) (unpaid : Bool) (now : Nat)
  | updateDirective (mission : Nat) (constraints : List String) (version : Nat) (key : String) (now : Nat)
  | updateTeam (mission : Nat) (team : TeamVersionRow) (version : Nat) (key : String) (now : Nat)
  | createMessage (mission : Nat) (body : String) (version : Nat) (paid : Bool) (key : String) (now : Nat)
  | controlMission (mission : Nat) (body : MissionControlRequest) (order now : Nat)
  | startItem (mission item version now : Nat)
  | createJob (call : Nat) (projectActive configured : Bool)
  | releaseItem (call now : Nat)
  | linkItem (call now : Nat)
  | crashStart (call : Nat)
  -- the manager services
  | reconcileItems (now : Nat)
  | materializeWakeup (mode : Mode) (locked : List Nat) (now : Nat)
  | dispatchReady (mode : Mode) (lockedMissions lockedItems : List Nat) (now : Nat)
  | claim (service : Service) (locked : List TurnId) (now : Nat)
  | load (execution : Nat) (configured : Except FailureCode ManagerRequest)
  | beginCall (execution now : Nat)
  | invoke (execution : Nat) (result : Option ProviderResult)
  | storeReceipt (execution now : Nat)
  | apply (execution now : Nat)
  | fail (execution now : Nat)
  | crash (execution : Nat)
  -- runs
  | executeRun (run : RunId) (status : RunStatus) (desired : DesiredState) (now : Nat)
  | waitForCapacity (run : RunId) (attempt now : Nat)
  | leaveCapacity (run : RunId) (now : Nat)
  | requestReconciliation (run : RunId)
  | retryRun (run : RunId)
  | runModelCall (run : RunId) (correlation : Nat) (outcome : CallOutcome)
  /-- Other events of the log. -/
  | emit

namespace Sys

def start? (s : Sys) (id : Nat) : Option StartCall := s.starts.find? (·.id = id)

def execution? (s : Sys) (id : Nat) : Option Execution := s.executions.find? (·.id = id)

def setStart (s : Sys) (call : StartCall) : Sys :=
  { s with starts := s.starts.map fun old => if old.id = call.id then call else old }

def dropStart (s : Sys) (id : Nat) : Sys := { s with starts := s.starts.filter (·.id ≠ id) }

def setExecution (s : Sys) (execution : Execution) : Sys :=
  { s with executions := s.executions.map fun old => if old.id = execution.id then execution else old }

def dropExecution (s : Sys) (id : Nat) : Sys := { s with executions := s.executions.filter (·.id ≠ id) }

end Sys

/-- After the result of a turn is there: its decision, if it is one. -/
def received (result : ProviderResult) : ExecPc :=
  match result.decision with
  | some decision => .apply decision
  | none => .fail .managerResponseInvalid

/-- The items that a reconciliation settles while their missions are autonomous. -/
def settlements (db : Db) : List Settlement :=
  (startedRuns db).filterMap fun (item, run) =>
    if run.terminal ∧ (db.mission? item.missionId).any (·.autonomous) then
      some ⟨item.missionId, item.id, run.id, settledLifecycle run.status⟩
    else none

/-- The moves of one `start_item` call. -/
def startStep (s : Sys) (call : StartCall) : Action → Option Sys
  | .createJob _ projectActive configured =>
    match call.pc with
    | .launch project body =>
      match createJob s.db project call.itemId body projectActive configured with
      | .ok (db, jobId, runId) => some { s.setStart { call with pc := .link jobId runId } with db }
      | .error _ => some (s.setStart { call with pc := .release })
    | _ => none
  | .releaseItem _ now =>
    match call.pc with
    | .release =>
      match releaseItem s.db call.missionId call.itemId now with
      | .ok db => some { s.dropStart call.id with db }
      | .error _ => some (s.dropStart call.id)
    | _ => none
  | .linkItem _ now =>
    match call.pc with
    | .link jobId runId =>
      match linkItem s.db call.missionId call.itemId jobId runId now with
      | .ok db => some { s.dropStart call.id with db }
      | .error _ => some (s.dropStart call.id)
    | _ => none
  | .crashStart _ => some (s.dropStart call.id)
  | _ => none

/-- The moves of one execution of a turn. -/
def executionStep (s : Sys) (e : Execution) : Action → Option Sys
  | .load _ configured =>
    match e.pc with
    | .load =>
      match load s.db e.service e.turnId configured with
      | .ok request => some (s.setExecution { e with pc := .begin_ request })
      | .error code => some (s.setExecution { e with pc := .fail code })
    | _ => none
  | .beginCall _ now =>
    match e.pc with
    | .begin_ request =>
      match beginCall s.db e.service e.turnId request now with
      | .ok (db, .stored result) => some { s.setExecution { e with pc := received result } with db }
      | .ok (db, .call) => some { s.setExecution { e with pc := .call request } with db }
      | .error code => some (s.setExecution { e with pc := .fail code })
    | _ => none
  | .invoke _ result =>
    match e.pc with
    | .call request =>
      if e.service.mode = .demo then
        -- a demo turn makes its result itself
        match result with
        | some result => some (s.setExecution { e with pc := .store request result })
        | none => some (s.setExecution { e with pc := .fail .managerResponseInvalid })
      else if request.unavailable then some (s.setExecution { e with pc := .fail .realManagerProviderUnavailable })
      else
        let s := { s with invocations := s.invocations ++ [e.turnId] }
        match result with
        | some result => some (s.setExecution { e with pc := .store request result })
        | none => some (s.setExecution { e with pc := .fail .managerResponseInvalid })
    | _ => none
  | .storeReceipt _ now =>
    match e.pc with
    | .store request result =>
      match storeReceipt s.db e.turnId request result now with
      | .ok db => some { s.setExecution { e with pc := received result } with db }
      | .error code => some (s.setExecution { e with pc := .fail code })
    | _ => none
  | .apply _ now =>
    match e.pc with
    | .apply decision =>
      match apply s.db e.turnId decision now with
      | .ok db =>
        let applied := if (db.turn? e.turnId).any (·.status = .applied) then s.applied ++ [e.turnId] else s.applied
        some { s.dropExecution e.id with db, applied }
      | .error code => some (s.setExecution { e with pc := .fail code })
    | _ => none
  | .fail _ now =>
    match e.pc with
    | .fail code => some { s.dropExecution e.id with db := fail s.db e.service e.turnId code now }
    | _ => none
  | .crash _ => some (s.dropExecution e.id)
  | _ => none

/-- The system takes one action. -/
def step (s : Sys) (action : Action) : Option Sys :=
  match action with
  | .createMission mission team now => some { s with db := createMission s.db mission team now }
  | .updateAutonomy mission enabled version key unpaid now =>
    (updateAutonomy s.db mission enabled version key unpaid now).toOption.map fun db => { s with db }
  | .updateDirective mission constraints version key now =>
    (updateDirective s.db mission constraints version key now).toOption.map fun db => { s with db }
  | .updateTeam mission team version key now =>
    (updateTeam s.db mission team version key now).toOption.map fun db => { s with db }
  | .createMessage mission body version paid key now =>
    (createMessage s.db mission body version paid key now).toOption.map fun db => { s with db }
  | .controlMission mission body order now =>
    (controlMission s.db mission body order now).toOption.map fun db => { s with db }
  | .startItem mission item version now =>
    match startItem s.db mission item version now with
    | .ok (db, .launch project body) =>
      some { s with db, starts := s.starts ++ [⟨s.next, mission, item, .launch project body⟩], next := s.next + 1 }
    | .ok (_, .existing _) => some s
    | .error _ => none
  | .createJob call _ _ | .releaseItem call _ | .linkItem call _ | .crashStart call =>
    (s.start? call).bind fun c => startStep s c action
  | .reconcileItems now =>
    some { s with db := reconcileItems s.db now, settled := s.settled ++ settlements s.db }
  | .materializeWakeup mode locked now => some { s with db := materializeWakeup s.db mode locked now }
  | .dispatchReady mode lockedMissions lockedItems now =>
    some { s with db := dispatchReady s.db mode lockedMissions lockedItems now }
  | .claim service locked now =>
    (claim s.db service locked now).map fun (db, turnId) =>
      { s with
        db
        executions := s.executions ++ [⟨s.next, service, turnId, .load⟩]
        claims := s.claims ++ [(turnId, s.next)]
        next := s.next + 1 }
  | .load e _ | .beginCall e _ | .invoke e _ | .storeReceipt e _ | .apply e _ | .fail e _ | .crash e =>
    (s.execution? e).bind fun execution => executionStep s execution action
  | .executeRun run status desired now => (executeRun s.db run status desired now).map fun db => { s with db }
  | .waitForCapacity run attempt now => (waitForCapacity s.db run attempt now).map fun db => { s with db }
  | .leaveCapacity run now => (leaveCapacity s.db run now).map fun db => { s with db }
  | .requestReconciliation run => (requestReconciliation s.db run).map fun db => { s with db }
  | .retryRun run => (retryRun s.db run).map fun db => { s with db }
  | .runModelCall run correlation outcome => (runModelCall s.db run correlation outcome).map fun db => { s with db }
  | .emit => some { s with db := s.db.emit }

/-- No mission yet; the workflows that teams refer to are published. -/
def Sys.init (workflowVersions : List Nat) : Sys := { db := { workflowVersions } }

end Jarvis.Missions
