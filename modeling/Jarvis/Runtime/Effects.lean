/-
  Jarvis.Runtime.Effects — the effect ledger of one run (`runtime/effects.py`:
  `EffectLedger.handler`, `_record`, `cancel_pending`; `repositories.py`:
  `EffectRepository.prepare`), with any number of executors.

  An execution of a node's handler goes through separate transactions: prepare, record
  'dispatched', read for cancellation, record the outcome. Between them it inspects and calls
  the adapter. It may disappear between any two (`crash`), its lease may be lost (`expire`)
  and another executor may claim the run; a blocked run may be queued again (`reconcile`).
  What an adapter answers is arbitrary (`Observation`), and so is what it writes to its effect
  row under the fence while it works (`adapterWrites`).

  `lease` is the fence of the run's live lease; a fenced transaction of another fence does not
  commit (`fenced`). The handler of one execution runs once at a time in an executor, and
  `cancel_pending` runs before the graph does.

  `Adapters` holds what the code takes from outside: which adapters are declared idempotent,
  and the validation and redaction of a result (`none` when it is refused). `log` is ghost
  state.
-/
import Jarvis.Lib.Steps
import Jarvis.Runtime.Rows

namespace Jarvis.Runtime.Effects

/-- `EffectStatus`. -/
inductive EffectStatus where
  | prepared
  | dispatched
  | running
  | succeeded
  | failed
  | cancelRequested
  | cancelled
  | unknown
  deriving DecidableEq, Repr

/-- `EffectObservation`. -/
inductive Observation (R : Type) where
  | absent
  | running
  | succeeded (result : Option R)
  | cancelled
  | unknown
  deriving DecidableEq, Repr

structure Adapters (R : Type) where
  idempotent : Nat → Bool
  /-- The allowed outputs and the size of a result are checked and the result is redacted. -/
  accept : Nat → R → Option R

variable {R D : Type}

/-- `EffectModel`; `identity` is the idempotency key, `external` says that `external_id` is set. -/
structure Effect (R D : Type) where
  identity : Nat
  digest : D
  status : EffectStatus
  external : Bool
  result : Option R
  fenceGeneration : Nat
  deriving DecidableEq, Repr

/-- The records after which the handler raises. -/
inductive Stop where
  | cancelled
  | unknown
  deriving DecidableEq, Repr

def Stop.status : Stop → EffectStatus
  | .cancelled => .cancelled
  | .unknown => .unknown

/-- Where an execution of the handler stands. -/
inductive Pc (R : Type) where
  /-- Before the first `inspect`; `dispatched` is what `prepare` read. -/
  | inspect (dispatched : Bool)
  | recordDispatched (dispatched : Bool)
  /-- 'dispatched' is recorded, `adapter.dispatch` is not called yet. -/
  | dispatching
  | polling
  /-- The loop's transaction read whether the run is cancelled. -/
  | polled (cancel : Bool)
  | recordSucceeded (result : R)
  | recordStop (stop : Stop)
  deriving DecidableEq, Repr

structure Proc (R : Type) where
  id : Nat
  fence : RunFence
  identity : Nat
  pc : Pc R
  deriving DecidableEq, Repr

/-- Where `cancel_pending` stands with the first effect of its list. -/
inductive CancelPc where
  | next
  | asked
  | recordStop (stop : Stop)
  deriving DecidableEq, Repr

/-- An execution of `cancel_pending`: the effects it read, with `external_id` as read. -/
structure CancelProc where
  fence : RunFence
  todo : List (Nat × Bool)
  pc : CancelPc
  deriving DecidableEq, Repr

inductive Ev (R : Type) where
  /-- Execution `x` prepared effect `i` and found it in `status`. -/
  | prepared (x i : Nat) (status : EffectStatus)
  /-- Execution `x` recorded 'dispatched' in a fenced transaction; `valid` and `desired` are
      the fence check and the desired state at that commit. -/
  | dispatchRecorded (x i : Nat) (valid : Bool) (desired : DesiredState)
  /-- Execution `x` called `adapter.dispatch`. -/
  | called (x i : Nat)
  | succeeded (i : Nat) (result : R)
  | returned (x i : Nat) (result : R)
  deriving DecidableEq, Repr

structure St (R D : Type) where
  generation : Nat
  lease : Option RunFence
  fences : List RunFence
  /-- The run's status is one of `TERMINAL`. -/
  terminal : Bool
  desired : DesiredState
  recovery : RecoveryRow
  effects : List (Effect R D)
  procs : List (Proc R)
  cancels : List CancelProc
  next : Nat
  log : List (Ev R)

def init (recovery : RecoveryRow) : St R D := ⟨0, none, [], false, .running, recovery, [], [], [], 0, []⟩

/-- `RunOwnership.fenced` of the executor that holds `f`. -/
def fenced (s : St R D) (f : RunFence) : Bool :=
  s.lease == some f && !s.terminal && s.recovery.generation == f.recoveryGeneration &&
    s.recovery.automaticDispatchEnabled

def effectOf (s : St R D) (i : Nat) : Option (Effect R D) := s.effects.find? (·.identity == i)

/-- Rewrite effect `i`. -/
def update (s : St R D) (i : Nat) (g : Effect R D → Effect R D) : St R D :=
  { s with effects := s.effects.map fun e => if e.identity = i then { g e with identity := e.identity } else e }

/-- `_record` on the row: a run cancelled meanwhile turns 'succeeded' and 'dispatched' into
    'cancelled'. -/
def Effect.record (desired : DesiredState) (status : EffectStatus) (external : Bool) (result : Option R)
    (e : Effect R D) : Effect R D :=
  if (status = .succeeded ∨ status = .dispatched) ∧ desired = .cancelled then
    { e with status := .cancelled, external := e.external || external }
  else
    { e with
      status := status
      external := e.external || external
      result := result.orElse fun _ => e.result }

def record (s : St R D) (i : Nat) (status : EffectStatus) (external : Bool) (result : Option R) : St R D :=
  update s i (Effect.record s.desired status external result)

def setPc (s : St R D) (x : Nat) (pc : Pc R) : St R D :=
  { s with procs := s.procs.map fun p => if p.id = x then { p with pc := pc } else p }

/-- The execution is over: it returned, raised or was lost. -/
def drop (s : St R D) (x : Nat) : St R D := { s with procs := s.procs.filter (·.id != x) }

def setCancel (s : St R D) (f : RunFence) (todo : List (Nat × Bool)) (pc : CancelPc) : St R D :=
  { s with cancels := s.cancels.map fun c => if c.fence = f then ⟨f, todo, pc⟩ else c }

def dropCancel (s : St R D) (f : RunFence) : St R D := { s with cancels := s.cancels.filter (·.fence != f) }

inductive Act (R D : Type) where
  | claim (owner : Nat)
  /-- The lease expires or is released. -/
  | expire
  /-- The run ends or is blocked. -/
  | settle
  | reconcile
  | command (d : DesiredState)
  | beginRestore
  | resumeDispatch
  /-- The prepare transaction of a handler execution for effect `i`. -/
  | prepare (f : RunFence) (i : Nat) (digest : D)
  | inspect (x : Nat) (o : Observation R)
  | recordDispatched (x : Nat)
  | call (x : Nat)
  /-- The adapter writes to its effect row: it is cancelled, or a result is kept. -/
  | adapterWrites (x : Nat) (result : Option R)
  | poll (x : Nat)
  | observe (x : Nat) (o : Observation R)
  | recordSucceeded (x : Nat)
  | recordStop (x : Nat)
  | crash (x : Nat)
  | cancelPending (f : RunFence)
  | cancelNext (f : RunFence)
  | cancelObserve (f : RunFence) (o : Observation R)
  | cancelRecord (f : RunFence)
  /-- `adapter.cancel` writes 'cancelled' to the effect row. -/
  | cancelWrites (f : RunFence)
  | cancelCrash (f : RunFence)

/-- The statuses `cancel_pending` selects. -/
def EffectStatus.pending : EffectStatus → Bool
  | .prepared | .dispatched | .running | .cancelRequested => true
  | _ => false

def procOf (s : St R D) (x : Nat) : Option (Proc R) := s.procs.find? (·.id == x)

def cancelOf (s : St R D) (f : RunFence) : Option CancelProc := s.cancels.find? (·.fence == f)

def claim (s : St R D) (owner : Nat) : Option (St R D) :=
  if s.lease.isNone ∧ !s.terminal ∧ s.recovery.automaticDispatchEnabled then
    let f : RunFence := ⟨0, owner, s.generation + 1, s.recovery.generation⟩
    some { s with generation := s.generation + 1, lease := some f, fences := s.fences ++ [f] }
  else none

/-- `prepare` and what the handler does in the same transaction. -/
def prepare [DecidableEq D] (s : St R D) (f : RunFence) (i : Nat) (digest : D) : Option (St R D) :=
  if f ∈ s.fences ∧ fenced s f ∧ (s.procs.all fun p => !(p.fence == f && p.identity == i)) ∧
      (s.cancels.all (·.fence != f)) then
    let x := s.next
    let t := if (effectOf s i).isSome then s
      else { s with effects := s.effects ++ [⟨i, digest, .prepared, false, none, f.generation⟩] }
    (effectOf t i).bind fun e =>
      if e.digest ≠ digest then none
      else if e.status = .succeeded then
        some { t with
          next := x + 1
          log := s.log ++ .prepared x i e.status :: (e.result.map (Ev.returned x i)).toList }
      else if e.status = .cancelled then
        some { t with next := x + 1, log := s.log ++ [.prepared x i e.status] }
      else
        some { update t i (fun e => { e with fenceGeneration := f.generation }) with
          next := x + 1
          procs := s.procs ++ [⟨x, f, i, .inspect (e.status != .prepared)⟩]
          log := s.log ++ [.prepared x i e.status] }
  else none

/-- The first `inspect`. -/
def inspectFirst (A : Adapters R) (s : St R D) (p : Proc R) (dispatched : Bool) : Observation R → St R D
  | .unknown => setPc s p.id (.recordStop .unknown)
  | .absent =>
    if dispatched ∧ !A.idempotent p.identity then setPc s p.id (.recordStop .unknown)
    else setPc s p.id (.recordDispatched dispatched)
  | _ => setPc s p.id .polling

/-- The commit of 'dispatched'; a cancelled run raises instead. -/
def commitDispatched (s : St R D) (p : Proc R) : St R D :=
  let t := record s p.identity .dispatched true none
  if s.desired = .cancelled then drop t p.id
  else
    { setPc t p.id .dispatching with
      log := s.log ++ [.dispatchRecorded p.id p.identity (fenced s p.fence) s.desired] }

/-- What an adapter writes to its effect row: a result it keeps there, or 'cancelled'. -/
def adapterWrite (s : St R D) (p : Proc R) : Option R → St R D
  | some r => update s p.identity fun e => { e with result := some r }
  | none => update s p.identity fun e => { e with status := .cancelled }

/-- The transaction at the head of the polling loop. -/
def pollOnce (s : St R D) (p : Proc R) : St R D :=
  if s.desired = .cancelled then
    setPc (update s p.identity fun e => { e with status := .cancelRequested }) p.id (.polled true)
  else setPc s p.id (.polled false)

/-- What the polling loop does with an observation. -/
def observed (A : Adapters R) (s : St R D) (p : Proc R) (cancel : Bool) : Observation R → St R D
  | .succeeded r =>
    if cancel then setPc s p.id (.recordStop .cancelled)
    else match r.bind (A.accept p.identity) with
      | none => drop s p.id
      | some safe => setPc s p.id (.recordSucceeded safe)
  | .cancelled => setPc s p.id (.recordStop .cancelled)
  | .unknown | .absent => setPc s p.id (.recordStop .unknown)
  | .running => setPc s p.id .polling

def commitSucceeded (s : St R D) (p : Proc R) (r : R) : St R D :=
  let t := drop (record s p.identity .succeeded false (some r)) p.id
  if s.desired = .cancelled then t
  else { t with log := s.log ++ [.succeeded p.identity r, .returned p.id p.identity r] }

variable [DecidableEq D]

/-- The moves of execution `x`; a fenced transaction needs `fenced`. -/
def procStep (A : Adapters R) (s : St R D) (p : Proc R) : Act R D → Option (St R D)
  | .inspect _ o => match p.pc with
    | .inspect dispatched => some (inspectFirst A s p dispatched o)
    | _ => none
  | .recordDispatched _ => match p.pc with
    | .recordDispatched _ => if fenced s p.fence then some (commitDispatched s p) else none
    | _ => none
  | .call _ => match p.pc with
    | .dispatching => some { setPc s p.id .polling with log := s.log ++ [.called p.id p.identity] }
    | _ => none
  | .adapterWrites _ result => match p.pc with
    | .polling | .polled _ =>
      if fenced s p.fence then some (adapterWrite s p result) else none
    | _ => none
  | .poll _ => match p.pc with
    | .polling => if fenced s p.fence then some (pollOnce s p) else none
    | _ => none
  | .observe _ o => match p.pc with
    | .polled cancel => some (observed A s p cancel o)
    | _ => none
  | .recordSucceeded _ => match p.pc with
    | .recordSucceeded r => if fenced s p.fence then some (commitSucceeded s p r) else none
    | _ => none
  | .recordStop _ => match p.pc with
    | .recordStop stop =>
      if fenced s p.fence then some (drop (record s p.identity stop.status false none) p.id) else none
    | _ => none
  | .crash _ => some (drop s p.id)
  | _ => none

/-- `cancel_pending` reads the pending effects; it runs before the graph. -/
def cancelPending (s : St R D) (f : RunFence) : Option (St R D) :=
  if f ∈ s.fences ∧ fenced s f ∧ s.procs.all (·.fence != f) ∧ s.cancels.all (·.fence != f) then
    some { s with cancels := s.cancels ++
      [⟨f, (s.effects.filter (·.status.pending)).map fun e => (e.identity, e.external), .next⟩] }
  else none

def cancelStep (s : St R D) (c : CancelProc) : Act R D → Option (St R D)
  | .cancelNext _ => match c.pc, c.todo with
    | .next, [] => some (dropCancel s c.fence)
    | .next, (i, external) :: rest =>
      if !fenced s c.fence then none
      else if !external then some (setCancel (record s i .cancelled false none) c.fence rest .next)
      else some (setCancel (record s i .cancelRequested false none) c.fence ((i, external) :: rest) .asked)
    | _, _ => none
  | .cancelObserve _ o => match c.pc, o with
    | .asked, .succeeded _ | .asked, .cancelled | .asked, .absent =>
      some (setCancel s c.fence c.todo (.recordStop .cancelled))
    | .asked, .unknown => some (setCancel s c.fence c.todo (.recordStop .unknown))
    | .asked, .running => some (setCancel s c.fence c.todo .next)
    | _, _ => none
  | .cancelRecord _ => match c.pc, c.todo with
    | .recordStop stop, (i, _) :: rest =>
      if !fenced s c.fence then none
      else if stop = .unknown then some (dropCancel (record s i stop.status false none) c.fence)
      else some (setCancel (record s i stop.status false none) c.fence rest .next)
    | _, _ => none
  | .cancelWrites _ => match c.pc, c.todo with
    | .asked, (i, _) :: _ =>
      if fenced s c.fence then some (update s i fun e => { e with status := .cancelled }) else none
    | _, _ => none
  | .cancelCrash _ => some (dropCancel s c.fence)
  | _ => none

def step (A : Adapters R) (s : St R D) (a : Act R D) : Option (St R D) :=
  match a with
  | .claim owner => claim s owner
  | .expire => some { s with lease := none }
  | .settle => some { s with lease := none, terminal := true }
  | .reconcile => some { s with terminal := false }
  | .command d => some { s with desired := d }
  | .beginRestore => some { s with recovery := ⟨s.recovery.generation + 1, false⟩ }
  | .resumeDispatch => some { s with recovery := { s.recovery with automaticDispatchEnabled := true } }
  | .prepare f i digest => prepare s f i digest
  | .cancelPending f => cancelPending s f
  | .inspect x _ | .recordDispatched x | .call x | .adapterWrites x _ | .poll x | .observe x _
  | .recordSucceeded x | .recordStop x | .crash x => (procOf s x).bind fun p => procStep A s p a
  | .cancelNext f | .cancelObserve f _ | .cancelRecord f | .cancelWrites f | .cancelCrash f =>
    (cancelOf s f).bind fun c => cancelStep s c a

end Jarvis.Runtime.Effects
