/-
  Jarvis.Executors.Workers — the adapter of WORKER nodes as a program of its executor
  (`workers/leases.py`: `WorkerSlots`; `workers/runtime.py`: `WorkerEffectAdapter`).

  `inspect` and `dispatch` work beside a task that renews the slot lease. When a renewal
  raises, the work is given up and the exception is theirs.
-/
import Jarvis.Executors.Session

namespace Jarvis.Executors

open Workers.Capacity (WorkerSpec WorkerSlotFence SlotError Acquisition)
open Runtime.Effects (Observation)
open Workflows (FailureClass)

/-! ## Slots -/

namespace WorkerSlots

/-- Inside a fenced transaction the run fence is accepted. -/
def raised : SlotError → Raised
  | .identityInvalid | .specMismatch | .unreconciled => .boundary .configurationInvalid
  | .duplicateRow => .other
  | .capacityUnavailable => .capacityUnavailable
  | .stale => .stale false

/-- The new tables of a transaction, or what it raises. -/
def settle {α β : Type} (s : Session) (tables : α → Workers.Capacity.Tables) (value : α → β) :
    Except SlotError α → Except Raised (Session × β)
  | .ok a => .ok ({ s with rows.workers := tables a }, value a)
  | .error e => .error (raised e)

def acquire (x : Executor) (spec : WorkerSpec) (request : WorkerRequest) : Program WorkerSlotFence :=
  x.fenced .nothing fun s =>
    settle s Prod.fst Prod.snd
      (s.rows.workers.acquire ⟨x.fence, s.now, x.ttl, request.workerRevision, request.taskAttempt, spec⟩)

/-- `require`, in a transaction of the caller's. -/
def require (x : Executor) (lease : WorkerSlotFence) (s : Session) : Except Raised Unit :=
  if s.rows.workers.require x.fence s.now lease then .ok () else .error (raised .stale)

def renew (x : Executor) (lease : WorkerSlotFence) : Program Unit :=
  x.fenced (.slot lease) fun s =>
    settle s id (fun _ => ()) (s.rows.workers.renew x.fence s.now x.ttl lease)

/-- `release(..., reconciled_terminal=True)`. -/
def release (x : Executor) (lease : WorkerSlotFence) : Program Unit :=
  x.fenced (.slotIdentity lease) fun s =>
    settle s id (fun _ => ()) (s.rows.workers.release x.fence s.now lease true)

end WorkerSlots

namespace WorkerEffectAdapter

def load (x : Executor) (identity : Identity) : Program (Option Invocation) := x.read fun s => s.invocation? identity

/-- The work beside the renewals of its lease. -/
def renewing {α : Type} (x : Executor) (lease : WorkerSlotFence) (work : Program α) : Program α :=
  .alongside .renewals (fun n : Nat => n) (WorkerSlots.renew x lease) work

/-! ## Dispatch -/

/-- `_await_admission`. -/
def awaitAdmission (x : Executor) : Program Unit :=
  .loop x.rounds do
    let admitted : Bool ← ask .admitted
    if ← x.read Session.cancelled then raise .cooperativeCancel
    else pure (if admitted then some () else none)

/-- The loop around `slots.acquire`. -/
def awaitSlot (x : Executor) (spec : WorkerSpec) (request : WorkerRequest) : Program WorkerSlotFence :=
  .loop x.rounds <| .catch_ (do return some (← WorkerSlots.acquire x spec request)) fun
    | .capacityUnavailable => do
      if ← x.read Session.cancelled then raise .cooperativeCancel
      else pure none
    | e => raise e

/-- The transaction that records the prepared invocation and starts the attempt. -/
def record (x : Executor) (identity : Identity) (request : WorkerRequest) (lease : WorkerSlotFence) (activates : Bool) :
    Program Unit :=
  x.fenced .nothing fun s =>
    match s.external? identity with
    | none => .error (.boundary .configurationInvalid)
    | some effect =>
      if (s.invocation? identity).isSome then .error .other
      else if !activates then .error (.boundary .configurationInvalid)
      else
        .ok ({ s with
          rows.integration := s.rows.integration.writeEffect effect.id fun row => { row with taskAttempt := some request.taskAttempt }
          rows.invocations := s.rows.invocations ++ [{ id := identity, effect := effect.id, lease }] }, ())

/-- `dispatch` without a prepared invocation. -/
def prepareInvocation (x : Executor) (spec : WorkerSpec) (identity : Identity) : Program WorkerSlotFence := do
  x.service
  let request : WorkerRequest ← attempt (← ask .requestSource)
  if !request.accepted then raise (.boundary .configurationInvalid)
  else do
    -- The feedback of the current task.
    x.read fun _ => ()
    let redacted : Bool ← ask .passed
    if !redacted then raise (.boundary .configurationInvalid)
    else do
      let lease ← awaitSlot x spec request
      let activates : Bool ← ask .passed
      record x identity request lease activates
      pure lease

/-- `_dispatch_prepared`. -/
def dispatchPrepared (x : Executor) (lease : WorkerSlotFence) : Program Unit := do
  awaitAdmission x
  let report : Option FailureClass ← attempt (← ask .validate)
  x.read fun _ => ()
  match report with
  | some cls => raise (.boundary cls)
  | none => do
    attempt (← ask .prepare)
    awaitAdmission x
    attempt (← ask .start)
    x.fenced (.slot lease) fun s => (WorkerSlots.require x lease s).map fun _ => (s, ())

def dispatch (x : Executor) (spec : WorkerSpec) (identity : Identity) : Program Unit :=
  .catch_ (do
    let lease ← match ← load x identity with
      | some prepared => pure prepared.lease
      | none => prepareInvocation x spec identity
    renewing x lease (dispatchPrepared x lease)) fun
  | .boundary cls => do
    x.read fun _ => ()
    raise (.classified cls)
  | e => raise e

/-! ## Inspection -/

/-- What the row of the invocation has already. -/
def stored (x : Executor) (identity : Identity) : Program (Option (Observation Outcome)) :=
  x.fenced .nothing fun s =>
    match s.invocation? identity with
    | none => .error .other
    | some row =>
      .ok (s, row.result.map fun outcome => if row.cancellationRequested then .cancelled else .succeeded (some outcome))

/-- The transaction that keeps a collected result. A lost slot lease is an answer here: the
    result is kept for diagnosis only. -/
def keep (x : Executor) (identity : Identity) (lease : WorkerSlotFence) (result : Collected) : Program (Bool × Bool) :=
  x.fenced .nothing fun s =>
    match s.invocation? identity with
    | none => .error .other
    | some row =>
      let stale := !s.rows.workers.require x.fence s.now lease
      let cancelled := row.cancellationRequested || s.cancelled
      if stale || cancelled then
        .ok (s.writeInvocation identity fun row => { row with diagnosticResult := some result.outcome }, (stale, cancelled))
      else if !result.matching then .error (.boundary .configurationInvalid)
      else .ok (s.writeInvocation identity fun row => { row with result := some result.outcome }, (stale, cancelled))

/-- The end of `_inspect_prepared`. -/
def collect (x : Executor) (identity : Identity) (lease : WorkerSlotFence) : Program (Observation Outcome) := do
  let answer : Except External Collected ← ask .collect
  match answer with
  | .error ⟨.boundary cls, _⟩ => do
    x.fenced (.slot lease) fun s => (WorkerSlots.require x lease s).map fun _ => (s, ())
    -- Reconciliation already proved terminal; malformed results remain failures.
    WorkerSlots.release x lease
    pure (.succeeded (some (some cls)))
  | .error e => raise e.val
  | .ok result => do
    let (stale, cancelled) ← keep x identity lease result
    if stale then raise (.classified .securityPolicyDenied)
    else do
      WorkerSlots.release x lease
      pure (if cancelled then .cancelled else .succeeded (some result.outcome))

/-- `_inspect_prepared`. -/
def inspectPrepared (x : Executor) (identity : Identity) (lease : WorkerSlotFence) : Program (Observation Outcome) := do
  let observation : Reconciled ← attempt (← ask .reconcile)
  match observation with
  | .absent => pure .absent
  | .unknown => pure .unknown
  | .cancelled => do
    x.read fun _ => ()
    WorkerSlots.release x lease
    pure .cancelled
  | .live => do
    attempt (← ask .inspectWorker)
    x.read fun _ => ()
    WorkerSlots.renew x lease
    pure .running
  | .terminal => collect x identity lease

def inspect (x : Executor) (identity : Identity) : Program (Observation Outcome) := do
  match ← load x identity with
  | none => pure .absent
  | some prepared =>
    match ← stored x identity with
    | some observation => pure observation
    | none => do
      WorkerSlots.renew x prepared.lease
      renewing x prepared.lease (inspectPrepared x identity prepared.lease)

def cancel (x : Executor) (identity : Identity) : Program Unit := do
  match ← load x identity with
  | none => pure ()
  | some _ => do
    x.fenced .nothing fun s =>
      if (s.invocation? identity).isNone then .error .other
      else .ok (s.writeInvocation identity fun row => { row with cancellationRequested := true }, ())
    attempt (← ask .cancelWorker)

end WorkerEffectAdapter

end Jarvis.Executors
