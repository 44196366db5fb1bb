/-
  Jarvis.Executors.Nodes — the middleware of every node as a program of its executor
  (`runtime/nodes.py`: `NodeRuntime.wrap`, `route`).

  It lets `StaleExecutorError` and `GraphInterrupt` pass. Any other exception gets a row of
  `failures`, and then ends the visit with a class that is retried or blocks the run.
-/
import Jarvis.Executors.Effects

namespace Jarvis.Executors

open Jarvis.Runtime (Wait WaitId)
open Workflows (FailureClass)

namespace Session

def node? (s : Session) (id : Nat) : Option NodeExecution := s.rows.nodes.find? (·.id = id)

def writeNode (s : Session) (id : Nat) (f : NodeExecution → NodeExecution) : Session :=
  { s with rows.nodes := Keyed.replace NodeExecution.id id f s.rows.nodes }

def addFailure (s : Session) (nodeExecution : Nat) (failureClass : FailureClass) : Session :=
  { s with rows.failures := s.rows.failures ++ [⟨s.txn.run.id, nodeExecution, failureClass⟩] }

def failed (s : Session) (nodeExecution : Nat) : Bool := s.rows.failures.any (·.nodeExecution = nodeExecution)

def setWait (s : Session) (wait : Option Wait) : Session :=
  s.writeRun fun run => { run with runtime := { run.runtime with wait } }

end Session

namespace NodeRuntime

/-- What the first transaction finds: the run is cancelled, or the node's row, its cached
    result and what is waited for. -/
inductive Entry where
  | cancelled
  | entered (id : Nat) (cached : Option Update) (wait : Option Wait)

/-- What is waited for before the node starts: a durable wait, a pause or a backoff. -/
def wait (s : Session) : Session × Option Wait :=
  match s.txn.run.runtime.wait.filter fun w => w.kind ≠ .demoDecision with
  | some wait => (s, some wait)
  | none =>
    if s.desired = .paused ∨ s.now < s.txn.run.claimableAt then
      let wait : Wait := ⟨if s.desired = .paused then .pause else .backoff, .control s.rows.nextId⟩
      ({ s.setWait (some wait) with rows.nextId := s.rows.nextId + 1 }, some wait)
    else (s, none)

/-- The row of the visit, inserted if it is not there. -/
def row (s : Session) (context : NodeContext) : Session × NodeExecution :=
  match s.rows.nodes.find? fun n => n.run = s.txn.run.id && n.node = context.node && n.key = context.execution with
  | some row => (s, row)
  | none =>
    let row : NodeExecution := { id := s.rows.nextId, run := s.txn.run.id, node := context.node, key := context.execution }
    ({ s with rows.nodes := s.rows.nodes ++ [row], rows.nextId := s.rows.nextId + 1 }, row)

def enter (x : Executor) (context : NodeContext) : Program Entry :=
  x.fenced .nothing fun s =>
    if s.cancelled then .ok (s, .cancelled)
    else
      let (s, wait) := wait s
      let (s, row) := row s context
      if wait.isSome ∧ row.status ≠ .waiting then
        .ok (s.writeNode row.id fun n => { n with status := .waiting }, .entered row.id row.result wait)
      else .ok (s, .entered row.id row.result wait)

/-- `interrupt(wait)`, and the transaction after it is resumed: the run is cancelled meanwhile. -/
def resume (x : Executor) (wait : Wait) : Program Bool := do
  let resumed : Option WaitId ← ask .resumed
  match resumed with
  | none => raise .interrupt
  | some id =>
    if id ≠ wait.id then raise .runtimeBlocked
    else x.fenced .nothing fun s => .ok (s.setWait none, s.cancelled)

/-- The checks of a reported failure class. -/
def reportedChecks (update : Update) : Program Update :=
  match update.failureClass with
  | none => pure update
  | some cls => if !cls.retryable ∨ cls = .unknown then raise .runtimeBlocked else pure update

def start (x : Executor) (node : Nat) : Program Unit :=
  x.fenced .nothing fun s =>
    if (s.node? node).isNone then .error .other
    else .ok (s.writeNode node fun n => { n with status := .running }, ())

/-- `execute`, and `safe_result`. -/
def execute (x : Executor) (context : NodeContext) : Program Update := do
  let update ← match context.handler with
    | .effect adapter => EffectLedger.handler x adapter context
    | .builtin => do
      x.service
      let update : Update ← attempt (← ask .builtin)
      pure update
  let valid : Bool ← ask .valid
  if !valid then raise .runtimeBlocked else pure update

/-- `except Exception`: the failure is recorded. -/
def classified (x : Executor) (node : Nat) (e : Raised) : Program Update := do
  let cls := e.boundaryFailureClass.getD .orchestrationRuntimeError
  x.fenced .nothing fun s => .ok (s.addFailure node cls, ())
  if e.boundaryFailureClass = none ∨ cls = .unknown ∨ !cls.retryable ∨ e = .ambiguousEffect then raise .runtimeBlocked
  else pure { failureClass := some cls }

def guarded (x : Executor) (context : NodeContext) (node : Nat) : Program Update :=
  .catch_ (execute x context) fun
    | .stale lost => raise (.stale lost)
    | .interrupt => raise .interrupt
    | .cooperativeCancel => pure { cancelled := true }
    | e => classified x node e

/-- The last transaction: the update as it is recorded. -/
def complete (x : Executor) (node : Nat) (update : Update) : Program Update :=
  x.fenced .nothing fun s =>
    if (s.node? node).isNone then .error .other
    else
      let update := if s.cancelled then { cancelled := true } else update
      let s := match update.failureClass with
        | none => s
        | some cls => if s.failed node then s else s.addFailure node cls
      let status : NodeStatus :=
        if update.cancelled then .cancelled else if update.failureClass.isSome then .failed else .succeeded
      .ok (s.writeNode node fun n => { n with status, result := some update }, update)

/-- A visit that is neither cancelled nor waiting. -/
def run (x : Executor) (context : NodeContext) (node : Nat) (cached : Option Update) : Program Update := do
  match cached with
  | some update => reportedChecks update
  | none => do
    start x node
    let update ← guarded x context node
    let update ← complete x node update
    reportedChecks update

/-- `wrap(context, execute)`. -/
def wrap (x : Executor) (context : NodeContext) : Program Update := do
  match ← enter x context with
  | .cancelled => pure { cancelled := true }
  | .entered node cached none => run x context node cached
  | .entered node cached (some wait) => do
    if ← resume x wait then pure { cancelled := true }
    else run x context node cached

def route (x : Executor) (delay : Except External (Option Nat)) : Program Unit :=
  x.fenced .nothing fun s =>
    match delay with
    | .error e => .error e.val
    | .ok none => .ok (s, ())
    | .ok (some delay) =>
      .ok (s.writeRun fun run =>
        { run with
          claimableAt := s.now + delay
          runtime := { run.runtime with retryAt := some (s.now + delay) } }, ())

end NodeRuntime

end Jarvis.Executors
