/-
  Jarvis.Workers.Invocations — the WORKER node of one run: its task attempts, its invocations
  and the slot leases they hold (`workers/runtime.py`: `WorkerEffectAdapter.dispatch`,
  `_dispatch_prepared`, `inspect`, `_inspect_prepared`; `runtime/composition.py`:
  `LegacyRequestSource.request`; `workers/safety.py`: `validation_failure`), as the effect
  ledger and `NodeRuntime` drive them.

  `E` are the executions of the node ("child:node:visit") and `T` the tasks. The identities of
  an attempt and of an invocation are derived from the execution, so they are the execution
  here. Every move is one transaction, or one call of the adapter with the transaction that
  follows it; what the adapter answers is arbitrary. Between any two moves the executor may be
  lost, or the run blocked, paused or cancelled (`stop`); an execution that has not ended is
  taken up again (`resume`). A boundary error of a class that is not retried, and every error
  that is not a boundary error, blocks the run.

  `verified` is what VERIFY, REVIEWER and INTEGRATE do to the latest attempt of a task
  (`verification/runtime.py`). `grant` and `giveBack` are other runs on the same slots. The
  node's visits come one after another: a visit begins when the one before it has ended.
-/
import Mathlib.Data.List.MinMax
import Jarvis.Lib.Steps
import Jarvis.Workers.Slots
import Jarvis.Workflows.Spec

namespace Jarvis.Workers

open Workflows (FailureClass)

inductive AttemptStatus where
  | queued
  | running
  | verifying
  | reviewing
  | succeeded
  | failed
  | cancelled
  | unknown
  deriving DecidableEq, Repr

/-- The statuses after which a task may be attempted again. -/
def AttemptStatus.over : AttemptStatus → Bool
  | .failed | .cancelled => true
  | _ => false

/-- `TerminalStatus`. -/
inductive TerminalStatus where
  | succeeded
  | failed
  | cancelled
  | unknown
  deriving DecidableEq, Repr

/-- What the composition binds for the run. -/
structure Binding where
  capacity : Nat
  ttl : Nat
  workspaceRoot : String
  branch : String
  baseSha : String
  deriving DecidableEq, Repr

/-- `TaskAttemptModel`. -/
structure Attempt (E T : Type) where
  id : E
  task : T
  number : Nat
  status : AttemptStatus
  baseSha : String
  resultSha : Option String
  deriving DecidableEq, Repr

/-- `WorkerInvocationRequest`. -/
structure Request (E T : Type) where
  attempt : E
  task : T
  modelProfile : Nat
  workspaceRoot : String
  branch : String
  baseSha : String
  deriving DecidableEq, Repr

/-- `WorkerResult`. -/
structure WorkerResult (E T : Type) where
  invocation : E
  generation : Nat
  requestDigest : String
  attempt : E
  task : T
  modelProfile : Nat
  workspaceRoot : String
  branch : String
  startHead : String
  endHead : String
  status : TerminalStatus
  deriving DecidableEq, Repr

/-- `WorkerInvocationModel`. -/
structure Invocation (E T : Type) where
  id : E
  request : Request E T
  requestDigest : String
  lease : SlotFence
  result : Option (WorkerResult E T)
  deriving DecidableEq, Repr

/-- The outcome of an execution: succeeded, or failed with a class. -/
abbrev Outcome := Option FailureClass

/-- Where an execution stands. -/
inductive Pc (E T : Type) where
  /-- The handler has begun; it inspects before it dispatches. -/
  | entered
  /-- `dispatch` found no prepared invocation; the workspace is prepared first. -/
  | dispatching
  | requesting
  /-- The request source answered; a slot is to be acquired. -/
  | requested (request : Request E T)
  | acquired (request : Request E T) (lease : SlotFence)
  | validating
  | preparing
  | starting
  | polling
  /-- The invocation is reconciled terminal; its slot is to be released. -/
  | releasing (outcome : Outcome)
  /-- The ledger observed 'succeeded'; the effect is to be recorded. -/
  | settling (outcome : Outcome)
  /-- The effect is recorded; the node row is to be completed. -/
  | recorded (outcome : Outcome)
  deriving DecidableEq, Repr

def Pc.releases {E T : Type} : Pc E T → Bool
  | .releasing _ => true
  | _ => false

structure Execution (E T : Type) where
  key : E
  task : T
  pc : Pc E T
  deriving DecidableEq, Repr

structure St (E T : Type) where
  now : Nat
  pool : Pool E
  /-- The newest first. -/
  attempts : List (Attempt E T)
  /-- The newest first. -/
  invocations : List (Invocation E T)
  /-- The results of the effects recorded 'succeeded'. -/
  effects : List (E × Outcome)
  /-- The executions that have ended, the newest first. -/
  ended : List (E × Outcome)
  /-- The visits with their current task, the newest first. -/
  visits : List (E × T)
  exec : Option (Execution E T)
  deriving DecidableEq, Repr

def init (E T : Type) : St E T := ⟨0, ⟨[], [], 0⟩, [], [], [], [], [], none⟩

/-- `WorkerValidationReport`, as far as `validation_failure` reads it. -/
structure ValidationReport where
  valid : Bool
  unavailable : Bool
  issues : List String
  deriving DecidableEq, Repr

/-- `validation_failure`. -/
def validationFailure (report : ValidationReport) : FailureClass :=
  if report.issues.contains "ssh_timeout" then .infrastructureTimeout
  else if report.unavailable then .infrastructureWorkerTransport
  else .configurationInvalid

/-- What `reconcile` answers, with what the adapter is asked next. -/
inductive Reconciled (E T : Type) where
  | absent
  | unknown
  | cancelled
  /-- 'starting' or 'running', then `inspect`. -/
  | live (error : Option FailureClass)
  /-- 'succeeded' or 'failed', then `collect`. -/
  | terminal (collected : Except FailureClass (WorkerResult E T))

/-- An `error` is the class of the `WorkerBoundaryError` the call raises. -/
inductive Act (E T : Type) where
  | tick (d : Nat)
  | visit (e : E) (t : T)
  | resume
  | stop
  | inspect (answer : Except FailureClass (Reconciled E T))
  | prepareWorkspace (error : Option FailureClass)
  /-- `admitted`: none of the other checks of the request source raises. -/
  | request (profile : Nat) (admitted : Bool)
  | acquire
  | activate (digest : String)
  | validate (report : Except FailureClass ValidationReport)
  | prepare (error : Option FailureClass)
  | start (error : Option FailureClass)
  | renew
  | release
  | record
  | complete
  | verified (t : T) (status : AttemptStatus)
  | grant (slot : Slot)
  | giveBack (id : Nat)

section Tables

variable {E T : Type} [DecidableEq E] [DecidableEq T]

def St.attempt? (s : St E T) (e : E) : Option (Attempt E T) := s.attempts.find? fun a => a.id = e

def St.invocation? (s : St E T) (e : E) : Option (Invocation E T) := s.invocations.find? fun i => i.id = e

/-- The attempt of a task with the highest number. -/
def St.latest? (s : St E T) (t : T) : Option (Attempt E T) :=
  (s.attempts.filter fun a => a.task = t).argmax Attempt.number

def St.setAttempt (s : St E T) (e : E) (g : Attempt E T → Attempt E T) : St E T :=
  { s with attempts := Keyed.replace Attempt.id e g s.attempts }

/-- The handler returns here without an outcome. -/
def St.halt (s : St E T) : St E T := { s with exec := none }

def St.at (s : St E T) (x : Execution E T) (pc : Pc E T) : St E T := { s with exec := some { x with pc } }

/-- A class the node's failure is retried for. -/
def retried (cls : FailureClass) : Bool := cls.retryable && cls != .unknown

def St.finish (s : St E T) (x : Execution E T) (outcome : Outcome) : St E T :=
  { s with ended := (x.key, outcome) :: s.ended, exec := none }

/-- `NodeRuntime.wrap` on a failure of the class: the visit ends, or the run is blocked. -/
def St.fail (s : St E T) (x : Execution E T) (cls : FailureClass) : St E T :=
  if retried cls then s.finish x (some cls) else s.halt

/-- `NodeRuntime.wrap` on a recorded outcome. -/
def St.conclude (s : St E T) (x : Execution E T) : Outcome → St E T
  | none => s.finish x none
  | some cls => s.fail x cls

/-! ## The request source -/

/-- The base of a new attempt: the head of the run's last result. -/
def base (B : Binding) (s : St E T) : String :=
  match s.invocations.findSome? Invocation.result with
  | some result => result.endHead
  | none => B.baseSha

def requestOf (B : Binding) (a : Attempt E T) (t : T) (profile : Nat) : Request E T :=
  ⟨a.id, t, profile, B.workspaceRoot, B.branch, a.baseSha⟩

/-- `LegacyRequestSource.request` on the attempts. -/
def request (B : Binding) (s : St E T) (e : E) (t : T) (profile : Nat) : Except String (St E T × Request E T) :=
  match s.attempt? e with
  | some a => .ok (s, requestOf B a t profile)
  | none =>
    if (s.latest? t).any fun previous => !previous.status.over then
      .error "task already has an active or completed attempt"
    else
      let a : Attempt E T := ⟨e, t, ((s.latest? t).map Attempt.number).getD 0 + 1, .queued, base B s, none⟩
      .ok ({ s with attempts := a :: s.attempts }, requestOf B a t profile)

/-! ## Dispatch -/

/-- The transaction that records the invocation and starts the attempt. -/
def activate (s : St E T) (x : Execution E T) (request : Request E T) (lease : SlotFence) (digest : String) : St E T :=
  if (s.attempt? request.attempt).any fun a => a.status = .queued ∨ a.status = .running then
    { s.setAttempt request.attempt (fun a => { a with status := .running }) with
      invocations := ⟨x.key, request, digest, lease, none⟩ :: s.invocations
      exec := some { x with pc := .validating } }
  else s.halt

/-- The report of `adapter.validate`. -/
def validated (s : St E T) (x : Execution E T) : Except FailureClass ValidationReport → St E T
  | .error cls => s.fail x cls
  | .ok report => if report.valid then s.at x .preparing else s.fail x (validationFailure report)

/-! ## Inspection -/

/-- `output`. -/
def WorkerResult.outcome (r : WorkerResult E T) : Outcome :=
  if r.status = .succeeded then none else some .codeImplementationFailure

/-- The collected result is that of the prepared request. -/
def WorkerResult.answers (r : WorkerResult E T) (i : Invocation E T) : Bool :=
  r.invocation = i.id && r.generation = i.lease.generation && r.requestDigest = i.requestDigest &&
    r.attempt = i.request.attempt && r.task = i.request.task && r.modelProfile = i.request.modelProfile &&
    r.workspaceRoot = i.request.workspaceRoot && r.branch = i.request.branch && r.startHead = i.request.baseSha

/-- The transaction that stores a result. -/
def St.store (s : St E T) (x : Execution E T) (r : WorkerResult E T) : St E T :=
  { s.setAttempt r.attempt (fun a =>
      { a with status := if r.status = .succeeded then .verifying else .failed, resultSha := some r.endHead }) with
    invocations := Keyed.replace Invocation.id x.key (fun i => { i with result := some r }) s.invocations
    exec := some { x with pc := .releasing r.outcome } }

/-- `WorkerEffectAdapter.inspect` on a lease that was just renewed. -/
def inspectPrepared (s : St E T) (x : Execution E T) (i : Invocation E T) :
    Except FailureClass (Reconciled E T) → St E T
  | .error cls => s.fail x cls
  | .ok .absent => if x.pc = .entered then s.at x .validating else s.halt
  | .ok .unknown => s.halt
  | .ok .cancelled =>
    match s.pool.release i.lease with
    | some pool => { s with pool, exec := none }
    | none => s.halt
  | .ok (.live (some cls)) => s.fail x cls
  | .ok (.live none) => s.at x .polling
  | .ok (.terminal (.error cls)) => s.at x (.releasing (some cls))
  | .ok (.terminal (.ok r)) => if r.answers i then s.store x r else s.halt

/-- `WorkerEffectAdapter.inspect`, and what the ledger does with what it observed. -/
def inspect (B : Binding) (s : St E T) (x : Execution E T) (answer : Except FailureClass (Reconciled E T)) : St E T :=
  match s.invocation? x.key with
  | none => if x.pc = .entered then s.at x .dispatching else s.halt
  | some i =>
    match i.result with
    | some r => s.at x (.settling r.outcome)
    | none =>
      if s.pool.require s.now i.lease then
        inspectPrepared { s with pool := s.pool.renew s.now B.ttl i.lease } x i answer
      else s.halt

/-! ## The moves -/

/-- `slots.renew` beside a pending dispatch or inspection; when it raises, the execution stops. -/
def renew (B : Binding) (s : St E T) (x : Execution E T) : Option (St E T) :=
  match s.invocation? x.key with
  | none => none
  | some i =>
    if (i.result.isNone || x.pc.releases) && s.pool.require s.now i.lease then
      some { s with pool := s.pool.renew s.now B.ttl i.lease }
    else none

/-- `slots.release` after the terminal transaction. -/
def release (s : St E T) (x : Execution E T) (outcome : Outcome) : St E T :=
  match (s.invocation? x.key).bind fun i => s.pool.release i.lease with
  | some pool => { s with pool, exec := some { x with pc := .settling outcome } }
  | none => s.halt

/-- VERIFY, REVIEWER or INTEGRATE has judged the latest attempt. -/
def verified (s : St E T) (t : T) (status : AttemptStatus) : Option (St E T) :=
  match s.latest? t with
  | none => none
  | some a =>
    match (s.invocations.find? fun i => i.request.attempt = a.id && i.result.isSome).bind Invocation.result with
    | none => none
    | some r =>
      if r.status = .succeeded ∧ some r.endHead = a.resultSha ∧ r.attempt = a.id ∧
          (status = .failed ∨ status = .reviewing ∨ status = .succeeded) then
        some (s.setAttempt a.id fun a => { a with status })
      else none

/-- A move of the execution in progress. -/
def execStep (B : Binding) (s : St E T) (x : Execution E T) : Act E T → Option (St E T)
  | .stop => some s.halt
  | .inspect answer => if x.pc = .entered ∨ x.pc = .polling then some (inspect B s x answer) else none
  | .prepareWorkspace error =>
    if x.pc = .dispatching then
      match error with
      | some cls => some (s.fail x cls)
      | none => some (s.at x .requesting)
    else none
  | .request profile admitted =>
    if x.pc = .requesting then
      match request B s x.key x.task profile with
      | .ok (t, r) => if admitted then some (t.at x (.requested r)) else some s.halt
      | .error _ => some s.halt
    else none
  | .acquire =>
    match x.pc with
    | .requested r =>
      match s.pool.acquire B.capacity s.now B.ttl r.attempt with
      | some (pool, lease) => some { s with pool, exec := some { x with pc := .acquired r lease } }
      | none => some s
    | _ => none
  | .activate digest =>
    match x.pc with
    | .acquired r lease => some (activate s x r lease digest)
    | _ => none
  | .validate report => if x.pc = .validating then some (validated s x report) else none
  | .prepare error =>
    if x.pc = .preparing then
      match error with
      | some cls => some (s.fail x cls)
      | none => some (s.at x .starting)
    else none
  | .start error =>
    if x.pc = .starting then
      match error with
      | some cls => some (s.fail x cls)
      | none =>
        if (s.invocation? x.key).any fun i => s.pool.require s.now i.lease then some (s.at x .polling) else some s.halt
    else none
  | .renew => renew B s x
  | .release =>
    match x.pc with
    | .releasing outcome => some (release s x outcome)
    | _ => none
  | .record =>
    match x.pc with
    | .settling outcome =>
      some { s with effects := (x.key, outcome) :: s.effects, exec := some { x with pc := .recorded outcome } }
    | _ => none
  | .complete =>
    match x.pc with
    | .recorded outcome => some (s.conclude x outcome)
    | _ => none
  | _ => none

/-- The handler begins: a recorded effect returns its result. -/
def St.enter (s : St E T) (e : E) (t : T) : St E T :=
  { s with
    exec := some ⟨e, t, match s.effects.lookup e with
      | some outcome => .recorded outcome
      | none => .entered⟩ }

def hasEnded (s : St E T) (e : E) : Bool := s.ended.any fun x => x.1 = e

/-- Every visit has ended. -/
def idle (s : St E T) : Bool := s.exec.isNone && s.visits.all fun v => hasEnded s v.1

def step (B : Binding) (s : St E T) : Act E T → Option (St E T)
  | .tick d => some { s with now := s.now + d }
  | .visit e t =>
    if idle s && !s.visits.any (fun v => v.1 = e) then some ({ s with visits := (e, t) :: s.visits }.enter e t) else none
  | .resume =>
    match s.exec, s.visits.head? with
    | none, some (e, t) => if hasEnded s e then none else some (s.enter e t)
    | _, _ => none
  | .verified t status => verified s t status
  | .grant slot =>
    if (s.pool.register B.capacity).slots.contains slot && (s.pool.current slot.number).isNone then
      some { s with pool := ((s.pool.register B.capacity).grant slot none (s.now + B.ttl)).1 }
    else none
  | .giveBack id => some { s with pool := s.pool.giveBack id }
  | act => s.exec.bind fun x => execStep B s x act

end Tables

end Jarvis.Workers
