/-
  Jarvis.Executors.Service — the executor of a claimed run (`runtime/service.py`:
  `OrchestratorService.execute`, `_execute`), and any number of executors on one database.

  The nodes of a superstep run side by side; the first exception ends them all, and an
  integration that is given up so still gives its lease back (`giveBack`). An executor may
  disappear at any of its awaits (`crash`). Everything else that happens to runs and their
  leases is `Ownership.step`: time passes, runs are claimed, renewed, controlled and
  restored.

  `ended` is the history of what became of the executions that ended by themselves. A database
  that cannot be reached is left out.
-/
import Jarvis.Executors.Nodes

namespace Jarvis.Executors

open Jarvis.Runtime (RunFence RunStatus RecoveryRow WaitKind)
open Jarvis.Runtime.Ownership (fencedAccepts rowLocked)
open Workers.Capacity (ConfigurationRevision TaskAttempt)
open Integration (IntegrationFence)

/-! ## The graph -/

/-- A node of the graph. LangGraph keeps an interrupt for the end of the superstep. -/
def runNode (x : Executor) (context : NodeContext) : Program Unit :=
  .catch_ (do
    let _ ← NodeRuntime.wrap x context
    x.checkpoint) fun
  | .interrupt => pure ()
  | e => raise e

/-- `graph.astream`. -/
def stream (x : Executor) : Program Unit :=
  .loop x.rounds do
    let next : Superstep ← ask .graph
    match next with
    | .nodes contexts => do
      .all .turn (fun left : Bool => left) (contexts.map (runNode x))
      pure none
    | .checkpoint => do
      x.checkpoint
      pure none
    | .route delay => do
      NodeRuntime.route x delay
      pure none
    | .finished => pure (some ())

/-! ## The executor -/

namespace Session

def setStatus (s : Session) (status : RunStatus) : Session :=
  s.writeRun fun run => { run with status, version := run.version + 1 }

def recovered (s : Session) : Session :=
  s.writeRun fun run => { run with runtime := { run.runtime with recovering := false } }

/-- The node executions of the run in one of the statuses get another. -/
def moveNodes (s : Session) (statuses : List NodeStatus) (status : NodeStatus) : Session :=
  { s with
    rows.nodes := s.rows.nodes.map fun n =>
      if n.run = s.txn.run.id ∧ n.status ∈ statuses then { n with status } else n }

end Session

/-- The first transaction: the run is to be cancelled. -/
def begin_ (x : Executor) (preflight : Except External Unit) : Program Bool :=
  x.fenced .nothing fun s =>
    match preflight with
    | .error e => .error e.val
    | .ok () =>
      .ok (s.setStatus (match s.desired with
        | .paused => .pauseRequested
        | .cancelled => .cancelRequested
        | .running => .running), s.cancelled)

/-- A saved interrupt: a paused run stays paused. -/
def pausedAgain (x : Executor) : Program Bool :=
  x.fenced .nothing fun s =>
    if s.desired = .paused then .ok ((s.recovered.setStatus .paused).releaseRun, true)
    else if s.txn.run.runtime.wait.isNone then .error .other
    else .ok (s, false)

def RunStatus.ofWait : Option WaitKind → RunStatus
  | some .approval | some .demoDecision => .approvalRequired
  | some .pause => .paused
  | _ => .queued

/-- The last transaction. -/
def project (x : Executor) (projection : Projection) : Program Unit :=
  x.fenced .nothing fun s =>
    let s :=
      if projection.interrupted then
        (s.setStatus (RunStatus.ofWait (s.txn.run.runtime.wait.map (·.kind)))).moveNodes [.running, .queued, .waiting] .interrupted
      else
        s.setStatus (if s.cancelled then .cancelled else if projection.status.terminal then projection.status else .blocked)
    .ok (s.recovered.releaseRun, ())

/-- `_execute`. -/
def execute_ (x : Executor) : Program Unit := do
  let preflight : Except External Unit ← ask .preflight
  let cancelling ← begin_ x preflight
  x.service
  if cancelling then EffectLedger.cancelPending x
  let saved : Bool ← ask .saved
  let paused ← if saved then pausedAgain x else pure false
  if paused then pure ()
  else do
    stream x
    let projection : Projection ← ask .projection
    project x projection

/-- What became of an execution. -/
inductive Ending where
  | finished
  /-- It was ended as blocked; `status` is the run's. -/
  | blocked (status : RunStatus)
  /-- "Discarded stale executor" -/
  | dropped (lost : Bool)
  deriving DecidableEq, Repr

/-- The transaction that ends the run as blocked. -/
def block (x : Executor) : Program Ending :=
  x.fenced .nothing fun s =>
    let s := ((s.setStatus .blocked).moveNodes [.running, .queued, .waiting, .interrupted] .failed).releaseRun
    .ok (s, .blocked s.txn.run.status)

def execute (x : Executor) : Program Ending :=
  .catch_ (do
    execute_ x
    pure .finished) fun
  | .stale lost => pure (.dropped lost)
  | _ => .catch_ (block x) fun
    | .stale lost => pure (.dropped lost)
    | e => raise e

/-! ## Any number of executors -/

structure Task where
  executor : Executor
  program : Program Ending

structure St where
  db : Db
  tasks : List Task := []
  begun : List RunFence := []
  ended : List (RunFence × Ending) := []

def init (recovery : Option RecoveryRow) : St := { db := { own := Runtime.Ownership.init recovery } }

inductive Act where
  | ownership (act : Runtime.Ownership.Act)
  | publish (revision : ConfigurationRevision)
  | attempt (attempt : TaskAttempt)
  /-- A claimed run is executed. -/
  | execute (x : Executor)
  /-- The next transaction of a task. -/
  | transact (task : Nat)
  /-- The answer to what a task asks. -/
  | answer (task : Nat) (q : Query) (r : Response q)
  /-- An integration that was given up releases its lease. -/
  | giveBack (x : RunFence) (fence : IntegrationFence)
  | crash (task : Nat)

/-- A transaction of the run may be taken up. -/
def Db.free (db : Db) (run : Nat) : Bool := db.own.txn.isNone && !rowLocked db.own run

/-- A task goes on. -/
def St.resume (s : St) (i : Nat) (task : Task) (db : Db) : Program Ending → St
  | .done ending => { s with db, tasks := s.tasks.eraseIdx i, ended := (task.executor.fence, ending) :: s.ended }
  | program => { s with db, tasks := s.tasks.set i { task with program } }

def step (s : St) : Act → Option St
  | .ownership act => (Runtime.Ownership.step s.db.own act).map fun own => { s with db.own := own }
  | .publish revision =>
    if (s.db.rows.workers.revision? revision.id).isSome then none
    else some { s with db.rows.workers.revisions := s.db.rows.workers.revisions ++ [revision] }
  | .attempt attempt =>
    if (s.db.rows.workers.attempt? attempt.id).isSome then none
    else some { s with db.rows.workers.attempts := s.db.rows.workers.attempts ++ [attempt] }
  | .execute x =>
    if .granted x.fence ∈ s.db.own.log ∧ x.fence ∉ s.begun then
      some { s with tasks := s.tasks ++ [⟨x, execute x⟩], begun := x.fence :: s.begun }
    else none
  | .transact i =>
    s.tasks[i]?.bind fun task =>
      match task.program with
      | .transaction _ update next =>
        if s.db.free task.executor.fence.run then some (s.resume i task (update s.db) (next s.db)) else none
      | _ => none
  | .answer i q r =>
    s.tasks[i]?.bind fun task =>
      match task.program with
      | .ask q' next => if h : q = q' then some (s.resume i task s.db (next (h ▸ r))) else none
      | _ => none
  | .giveBack x fence =>
    if .granted x ∈ s.db.own.log ∧ s.db.free x.run then
      (inSession x (fun session =>
        .ok ({ session with
          rows.integration := Integration.release session.rows.integration x.run session.now fence }, ())) s.db).toOption.map
        fun r => { s with db := r.1 }
    else none
  | .crash i => if i < s.tasks.length then some { s with tasks := s.tasks.eraseIdx i } else none

abbrev Reach (recovery : Option RecoveryRow) : St → Prop := Steps.Reach step (init recovery)

end Jarvis.Executors
