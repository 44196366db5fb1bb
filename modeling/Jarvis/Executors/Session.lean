/-
  Jarvis.Executors.Session — what an executor's code awaits: transactions under its run fence
  (`runtime/ownership.py`: `RunOwnership.fenced`), checkpoint writes (`runtime/checkpoints.py`:
  `FencedPostgresSaver`) and calls outside.

  A fenced transaction happens at one reading of the clock. It is refused when the run fence is
  (`StaleExecutorError`), and one that raises changes nothing. `Check` is the other lease it
  relies on; where a transaction has its own answer to a lost lease it relies on none. To look
  what a heartbeat has raised is modelled as a transaction, too, which changes nothing.

  The tables are those of the run leases (`Ownership.Sys`), of the worker slots, of the
  integration leases, the effects, the invocations, the node executions and their failures.
  What else the code reads is asked from outside.
-/
import Jarvis.Integration.Leases
import Jarvis.Lib.Coroutines
import Jarvis.Runtime.Effects
import Jarvis.Workers.Capacity

namespace Jarvis.Executors

open Jarvis.Runtime (RunFence RunRow RunStatus DesiredState WaitId)
open Jarvis.Runtime.Ownership (Sys Txn fencedAccepts saverAccepts runOf unreleased flush)
open Workers.Capacity (WorkerSpec WorkerSlotFence SlotError)
open Integration (IntegrationFence LeaseError)
open Workflows (FailureClass WorkflowNodeType)

/-! ## Exceptions -/

/-- What the code of an executor raises. -/
inductive Raised where
  /-- `StaleExecutorError`. `lost` is ghost: the run fence was refused when it was raised. -/
  | stale (lost : Bool)
  /-- `GraphInterrupt` -/
  | interrupt
  /-- `CooperativeCancelError` -/
  | cooperativeCancel
  /-- `WorkerBoundaryError`, `BoundaryError` -/
  | boundary (cls : FailureClass)
  /-- `ClassifiedNodeError` -/
  | classified (cls : FailureClass)
  /-- `MissingWorkflowHandlerError` -/
  | missingHandler
  /-- `WorkerCapacityUnavailableError` -/
  | capacityUnavailable
  /-- `AmbiguousEffectError` -/
  | ambiguousEffect
  /-- `RuntimeBlockedError` -/
  | runtimeBlocked
  /-- Any other `Exception`. -/
  | other
  deriving DecidableEq, Repr

def Raised.isStale : Raised → Bool
  | .stale _ => true
  | _ => false

/-- What a call outside raises: only the transactions raise `StaleExecutorError`. -/
abbrev External := { e : Raised // e.isStale = false }

def External.other : External := ⟨.other, rfl⟩

/-- `boundary_failure_class`. -/
def Raised.boundaryFailureClass : Raised → Option FailureClass
  | .classified cls => some cls
  | .missingHandler => some .configurationInvalid
  | .boundary cls => some cls
  | _ => none

/-! ## Rows -/

/-- The outcome of a node: none, or the class of its failure. -/
abbrev Outcome := Option FailureClass

/-- The identity of an effect, "run:execution". -/
structure Identity where
  run : Nat
  execution : Nat
  deriving DecidableEq, Repr

/-- `EffectModel`; its `identity` is the idempotency key. -/
structure EffectRow extends Runtime.Effects.Effect Outcome Nat where
  id : Nat
  run : Nat
  deriving DecidableEq

/-- `WorkerInvocationModel`. -/
structure Invocation where
  id : Identity
  effect : Nat
  lease : WorkerSlotFence
  result : Option Outcome := none
  diagnosticResult : Option Outcome := none
  cancellationRequested : Bool := false
  deriving DecidableEq

inductive NodeStatus where
  | queued
  | waiting
  | running
  | interrupted
  | succeeded
  | failed
  | cancelled
  deriving DecidableEq, Repr

/-- The update of a node, `result_json`. -/
structure Update where
  failureClass : Outcome := none
  cancelled : Bool := false
  deriving DecidableEq, Repr

/-- `NodeExecutionModel`; `key` is `input_summary`. -/
structure NodeExecution where
  id : Nat
  run : Nat
  node : Nat
  key : Nat
  status : NodeStatus := .queued
  result : Option Update := none
  deriving DecidableEq, Repr

/-- `FailureModel`. -/
structure Failure where
  run : Nat
  nodeExecution : Nat
  failureClass : FailureClass
  deriving DecidableEq, Repr

structure Rows where
  workers : Workers.Capacity.Tables := {}
  integration : Integration.State := {}
  effects : List EffectRow := []
  invocations : List Invocation := []
  nodes : List NodeExecution := []
  failures : List Failure := []
  /-- The identities of effects and node executions are drawn in order. -/
  nextId : Nat := 0
  deriving DecidableEq

structure Db where
  own : Sys
  rows : Rows := {}

/-! ## Awaits -/

/-- The lease of a slot or a target that a transaction relies on. -/
inductive Check where
  | nothing
  /-- `WorkerSlots.require` -/
  | slot (lease : WorkerSlotFence)
  /-- `WorkerSlots.release`: the row is still that of the lease. -/
  | slotIdentity (lease : WorkerSlotFence)
  /-- `IntegrationLeases._locked` -/
  | integration (fence : IntegrationFence)
  /-- The heartbeat of an integration lease, which has lost it or not. -/
  | heartbeat (lost : Bool)
  deriving DecidableEq

def Check.live (rows : Rows) (x : RunFence) (now : Nat) : Check → Bool
  | .nothing => true
  | .slot lease => rows.workers.require x now lease
  | .slotIdentity lease =>
    (rows.workers.lease? lease.lease).any fun row => row.run = x.run && row.generation = lease.generation
  | .integration fence => (Integration.locked rows.integration x.run now fence).isSome
  | .heartbeat lost => !lost

/-- `AdapterReconciliation`, with what the adapter is asked next. -/
inductive Reconciled where
  | absent
  | unknown
  | cancelled
  /-- 'starting' or 'running' -/
  | live
  /-- 'succeeded' or 'failed' -/
  | terminal
  deriving DecidableEq, Repr

/-- `WorkerInvocationRequest`. -/
structure WorkerRequest where
  workerRevision : Nat
  taskAttempt : Nat
  /-- The checks of `dispatch` on the request pass. -/
  accepted : Bool := true
  deriving DecidableEq, Repr

/-- `WorkerResult`. -/
structure Collected where
  outcome : Outcome
  /-- It is the result of the prepared request. -/
  matching : Bool := true
  deriving DecidableEq, Repr

/-- Code that works under the run fence alone: artifacts, snapshots, checks, reviews, preflights. -/
inductive Service where
  | transaction (artifact : Option Integration.Artifact)
  | returns
  | raises (e : External)

/-- `LocalVerificationBinding`. -/
structure Binding where
  repository : Nat
  initialSha : Integration.Sha
  initialBranch : String
  deriving DecidableEq, Repr

/-- An `EffectAdapter`. -/
inductive Adapter where
  /-- `WorkerEffectAdapter` for the worker revision of the node -/
  | worker (spec : WorkerSpec)
  /-- `VerificationEffectAdapter` -/
  | verification (binding : Binding)
  /-- Any other; its code works under the run fence alone. -/
  | external (idempotent : Bool)

/-- What the graph runs for a node. -/
inductive Handler where
  | effect (adapter : Adapter)
  /-- The compiler's own nodes, and approvals. -/
  | builtin

structure NodeContext where
  node : Nat
  kind : WorkflowNodeType
  /-- `execution_id`, "child:node:visit" -/
  execution : Nat
  handler : Handler

/-- What LangGraph does next. -/
inductive Superstep where
  | nodes (contexts : List NodeContext)
  | checkpoint
  /-- `NodeRuntime.route` after a node's update, with the delay of a retry. -/
  | route (delay : Except External (Option Nat))
  | finished

/-- What happens to a merge in `integrate`. -/
inductive Merge where
  | timedOut
  | merged
  | conflict (conflict : Integration.Conflict)

/-- The questions to the outside. -/
inductive Query where
  /-- How often a lease is renewed in the meantime. -/
  | renewals
  /-- Whose turn it is. -/
  | turn
  | service
  -- The effect ledger and the adapters.
  | effectRequest
  | valid
  | observe
  | pendingAdapter
  | builtin
  -- Workers.
  | admitted
  | requestSource
  | passed
  | validate
  | prepare
  | start
  | reconcile
  | inspectWorker
  | collect
  | cancelWorker
  -- Verification.
  | verification
  | taskAttempt
  | outcome
  | candidate
  | confirmed
  | merge
  | advancement
  -- The graph.
  | preflight
  | saved
  | graph
  | resumed
  | projection
  deriving DecidableEq

/-- What `prepare` is given for a node's effect. -/
structure EffectRequest where
  digest : Nat
  /-- The model route, if there is one, has a permitted candidate. -/
  modelPermitted : Bool := true
  acceptsInstructions : Bool := false

/-- What the last transaction of `_execute` reads of the checkpoint. -/
structure Projection where
  interrupted : Bool
  /-- The status the run gets. -/
  status : RunStatus

def Response : Query → Type
  | .renewals | .taskAttempt => Nat
  | .turn | .valid | .admitted | .passed | .saved => Bool
  | .service => Service
  | .effectRequest => EffectRequest
  | .observe => Except External (Runtime.Effects.Observation Outcome)
  | .pendingAdapter => Option Adapter
  | .builtin => Except External Update
  | .requestSource => Except External WorkerRequest
  | .prepare | .start | .inspectWorker | .cancelWorker | .verification | .preflight => Except External Unit
  | .validate => Except External (Option FailureClass)
  | .reconcile => Except External Reconciled
  | .collect => Except External Collected
  | .outcome => Outcome
  | .candidate => Integration.QueueRequest × Integration.Sha
  | .confirmed => Except External Bool
  | .merge => Except External Merge
  | .advancement => Integration.Advancement
  | .graph => Superstep
  | .resumed => Option WaitId
  | .projection => Projection

abbrev Program := Coroutine Db (RunFence × Check) Query Response Raised

/-- The executor of a claimed run. -/
structure Executor where
  fence : RunFence
  /-- `ownership.ttl` -/
  ttl : Nat
  /-- The lifetime of an integration lease. -/
  integrationTtl : Nat
  /-- How often a loop goes round, as far as this run is followed. -/
  rounds : Nat
  deriving DecidableEq

def raise {α : Type} (e : Raised) : Program α := .raised e

def ask (q : Query) : Program (Response q) := .ask q .done

/-- A call that may raise. -/
def attempt {α : Type} : Except External α → Program α
  | .ok v => .done v
  | .error e => .raised e.val

/-! ## Transactions -/

/-- A session's rows. -/
structure Session where
  now : Nat
  txn : Txn
  rows : Rows

/-- A transaction: committed, or rolled back with what it raises. -/
def atomically {α : Type} (check : RunFence × Check) (body : Db → Except Raised (Db × α)) : Program α :=
  .transaction check
    (fun db => match body db with
      | .ok (db', _) => db'
      | .error _ => db)
    fun db => match body db with
      | .ok (_, v) => .done v
      | .error e => .raised e

/-- The body in a session of the run fence. -/
def inSession {α : Type} (x : RunFence) (body : Session → Except Raised (Session × α)) (db : Db) : Except Raised (Db × α) :=
  if fencedAccepts db.own x then
    match runOf db.own x.run, unreleased db.own.leases x.run with
    | some run, some lease =>
      match body ⟨db.own.now, ⟨x, run, lease⟩, db.rows⟩ with
      | .ok (session, v) => .ok (⟨flush db.own session.txn, session.rows⟩, v)
      | .error e => .error e
    | _, _ => .error (.stale false)
  else .error (.stale true)

/-- `RunOwnership.fenced`. -/
def Executor.fenced {α : Type} (x : Executor) (check : Check) (body : Session → Except Raised (Session × α)) : Program α :=
  atomically (x.fence, check) (inSession x.fence body)

/-- A fenced transaction that only reads. -/
def Executor.read {α : Type} (x : Executor) (f : Session → α) : Program α :=
  x.fenced .nothing fun s => .ok (s, f s)

/-- A checkpoint write. -/
def Executor.checkpoint (x : Executor) : Program Unit :=
  atomically (x.fence, .nothing) fun db =>
    if saverAccepts db.own x.fence then .ok (db, ()) else .error (.stale !fencedAccepts db.own x.fence)

namespace Session

def desired (s : Session) : DesiredState := s.txn.run.desiredState

def cancelled (s : Session) : Bool := s.desired = .cancelled

def writeRun (s : Session) (f : RunRow → RunRow) : Session := { s with txn := s.txn.work s.now (.write f) }

/-- `release_in`. -/
def releaseRun (s : Session) : Session := { s with txn := s.txn.work s.now .release }

def effect? (s : Session) (id : Nat) : Option EffectRow := s.rows.effects.find? (·.id = id)

def writeEffect (s : Session) (id : Nat) (f : EffectRow → EffectRow) : Session :=
  { s with rows.effects := Keyed.replace EffectRow.id id f s.rows.effects }

/-- The effect with the external identity. -/
def external? (s : Session) (identity : Identity) : Option EffectRow :=
  s.rows.effects.find? fun e => e.run = identity.run && e.identity = identity.execution && e.external

def invocation? (s : Session) (id : Identity) : Option Invocation := s.rows.invocations.find? (·.id = id)

def writeInvocation (s : Session) (id : Identity) (f : Invocation → Invocation) : Session :=
  { s with rows.invocations := Keyed.replace Invocation.id id f s.rows.invocations }

end Session

/-- A service runs for any number of transactions. -/
def Executor.service (x : Executor) : Program Unit :=
  .loop x.rounds do
    match ← ask .service with
    | .returns => pure (some ())
    | .raises e => raise e.val
    | .transaction artifact =>
      x.fenced .nothing fun s =>
        match artifact with
        | none => .ok (s, none)
        | some artifact => .ok ({ s with rows.integration.artifacts := s.rows.integration.artifacts ++ [artifact] }, none)

end Jarvis.Executors
