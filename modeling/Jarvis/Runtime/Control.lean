/-
  Jarvis.Runtime.Control — one run as the runtime drives it: commands, claims, the opening,
  resuming and closing transactions of `_execute` (`runtime/service.py`), the waits of
  `NodeRuntime.wrap` (`runtime/nodes.py`), the approval handlers (`runtime/approvals.py`,
  `demo/decision.py`), decisions and requeues by the API (`api/approvals.py`,
  `api/runtime.py`) and the expiry of approvals.

  Every transaction takes the event lock, so each is one move; the executor's program
  counter (`Pc`) stands between two of them, and anything else may happen there. A fenced
  transaction needs the run's unreleased lease to be unexpired and the run not terminal
  (`fenced`); an executor that fails the check disappears (`lose`), as one that crashes
  does. Claims by other owners replace it.

  The graph engine is assumed to do what its documentation says of interrupts: when a
  suspended node is executed again, its k-th `interrupt()` returns the k-th resume value
  supplied so far for that node execution (`resumes`), or suspends when there is none. One
  node execution is followed at a time; what other executions of a parallel region do to the
  run's wait is `sibling`.

  `log` is ghost state: what each `interrupt()` returned, which waits suspended and whether a
  decision on them was recorded, what `decide` returned, and the errors about waits.
-/
import Jarvis.Lib.Steps
import Jarvis.Runtime.Commands

namespace Jarvis.Runtime.Control

/-! ## State -/

inductive Node where
  | plain
  | approval
  deriving DecidableEq, Repr

/-- What a node execution's final transaction records: a result, a cooperative cancel, or a
    failure that is not retryable. -/
inductive Outcome where
  | ok
  | cancelled
  | failed
  deriving DecidableEq, Repr

/-- Where the executor stands between two transactions. -/
inductive Pc where
  | claimed
  | opened
  /-- Before the first transaction of `wrap`. -/
  | invoke
  /-- At `interrupt(wait)` in `wrap`. -/
  | waiting (w : Wait)
  | resumed (w : Wait)
  /-- Before the node's handler. -/
  | entered
  /-- At `interrupt(wait)` in `decide`. -/
  | asked (w : Wait)
  | answered (w : Wait)
  | handled (o : Outcome)
  | done
  | suspended
  | finished (final : RunStatus)
  | failed
  deriving DecidableEq, Repr

inductive Ev where
  | returned (w v : Wait)
  | suspended (w : Wait) (recorded : Bool)
  | decided (w : Wait) (recorded : Option Decision) (returned : Decision)
  | refused
  deriving DecidableEq, Repr

structure St where
  now : Nat
  run : RunRow
  /-- The pending commands, in sequence. -/
  commands : List RunCommand
  /-- The newest lease generation of the run. -/
  generation : Nat
  /-- The expiry of the run's unreleased lease. -/
  lease : Option Nat
  pc : Option Pc
  execution : Nat
  node : Node
  /-- The checkpoint holds an interrupt of the current execution. -/
  interrupted : Bool
  resumes : List Wait
  /-- The `interrupt()` calls made since the execution was last entered. -/
  calls : Nat
  /-- `result_json` of the node execution. -/
  cached : Option Outcome
  /-- The next `uuid7`. -/
  fresh : Nat
  log : List Ev
  deriving DecidableEq, Repr

def init (run : RunRow) (node : Node) : St :=
  { now := 0
    run := { run with status := .queued, desiredState := .running, runtime := {} }
    commands := []
    generation := 0
    lease := none
    pc := none
    execution := 0
    node := node
    interrupted := false
    resumes := []
    calls := 0
    cached := none
    fresh := 0
    log := [] }

/-! ## The run row's part of each transaction -/

/-- The wait `decide` raises: `approval_handler` on real runs, `demo_decision` on demo runs. -/
def approvalWait (mode : Mode) (execution : Nat) : Wait :=
  match mode with
  | .real => ⟨.approval, .approval execution⟩
  | .demo => ⟨.demoDecision, .demo execution⟩

/-- The decision on record for a wait. -/
def recorded (r : RunRow) (w : Wait) : Option Decision :=
  match w.kind with
  | .approval => (r.runtime.approvals.find? (·.id == w.id)).map (·.decision)
  | .demoDecision => r.runtime.demoDecision.bind fun d => if d.1 = w.id then some d.2 else none
  | .pause | .backoff => none

/-- A decision other than 'pending' is on record. -/
def decidedOn (r : RunRow) (w : Wait) : Bool := (recorded r w).any (· != .pending)

def expiredAt (now : Nat) (v : ApprovalView) : Bool := v.expiresAt.any (· ≤ now)

def setWait (r : RunRow) (w : Option Wait) : RunRow := { r with runtime := { r.runtime with wait := w } }

/-- `claim`: the row after it; `previous` is the newest lease generation so far. -/
def claimed (previous : Nat) (r : RunRow) : RunRow :=
  { r with
    status := .claiming
    version := r.version + 1
    runtime := { r.runtime with recovering := decide (0 < previous) && r.status != .queued } }

/-- The opening transaction of `_execute`. -/
def opening (r : RunRow) : RunRow :=
  { r with
    status := match r.desiredState with
      | .paused => .pauseRequested
      | .cancelled => .cancelRequested
      | .running => .running
    version := r.version + 1 }

/-- The row of a run that is parked, suspended or ended by its executor. -/
def settle (r : RunRow) (status : RunStatus) : RunRow :=
  { r with status := status, version := r.version + 1, runtime := { r.runtime with recovering := false } }

/-- The status the closing transaction gives a suspended run, by the kind of its wait. -/
def suspendedStatus : WaitKind → RunStatus
  | .demoDecision | .approval => .approvalRequired
  | .pause => .paused
  | .backoff => .queued

/-- The status the closing transaction gives a run whose graph ended. -/
def endedStatus (r : RunRow) (final : RunStatus) : RunStatus :=
  if r.desiredState = .cancelled then .cancelled else if final.terminal then final else .blocked

/-- The first transaction of `decide`: request the approval unless it was requested. -/
def request (now execution : Nat) (expiresIn : Option Nat) (r : RunRow) : RunRow :=
  let w := approvalWait r.mode execution
  match r.mode with
  | .real =>
    if r.runtime.approvals.any (·.id == w.id) then setWait r (some w)
    else
      { r with runtime := { r.runtime with
        approvals := r.runtime.approvals ++ [⟨w.id, .pending, expiresIn.map (now + ·)⟩]
        wait := some w } }
  | .demo =>
    { r with runtime := { r.runtime with
      demoDecision := r.runtime.demoDecision.orElse fun _ => some (w.id, .pending)
      wait := some w } }

/-- What the second transaction of `decide` returns; `none` is its error. -/
def verdict (now : Nat) (r : RunRow) (w : Wait) : Option Decision :=
  match r.mode with
  | .real => do
    let v ← r.runtime.approvals.find? (·.id == w.id)
    let decision := if r.desiredState = .cancelled then .cancelled
      else if expiredAt now v then .expired
      else v.decision
    if decision = .pending then none else some decision
  | .demo => do
    let d ← r.runtime.demoDecision
    if r.desiredState = .cancelled then some .cancelled
    else if d.2 = .approved ∨ d.2 = .rejected then some d.2
    else none

/-- Record a decision in the approval entry of identity `id`. -/
def setDecision (r : RunRow) (id : WaitId) (d : Decision) : RunRow :=
  { r with runtime := { r.runtime with
    approvals := r.runtime.approvals.map fun v => if v.id = id then { v with decision := d } else v } }

def requeue (now : Nat) (r : RunRow) : RunRow :=
  { r with status := .queued, claimableAt := now, version := r.version + 1 }

/-! ## Moves -/

inductive Act where
  | tick (d : Nat)
  /-- The API accepts a command. -/
  | enqueue (c : RunCommand)
  /-- `CommandProcessor.apply`. -/
  | apply (hasReceiver : Bool) (fresh : Nat → Nat)
  | claim (ttl : Nat)
  | renew (ttl : Nat)
  | opening
  /-- `_execute` reads the checkpoint, and parks, resumes or starts the graph. -/
  | resume
  /-- The first transaction of `wrap`. -/
  | invoke
  /-- `interrupt(wait)`. -/
  | interrupt
  /-- The second transaction of `wrap`. -/
  | clear
  /-- The first transaction of `decide`. -/
  | ask (expiresIn : Option Nat)
  /-- The second transaction of `decide`. -/
  | decide
  /-- A plain node's handler returns. -/
  | handle (o : Outcome)
  /-- A handler raises and the failure is not retryable. -/
  | throw
  /-- The final transaction of `wrap`. -/
  | record
  /-- `NodeRuntime.route`, and the graph goes on to another node. -/
  | advance (delay : Option Nat) (next : Node)
  /-- `NodeRuntime.route`, and the graph ends. -/
  | finish (final : RunStatus)
  /-- The closing transaction of `_execute`. -/
  | closing
  /-- The error transaction of `execute`. -/
  | block
  | lose
  | decideApproval (approve : Bool)
  | decideDemo (approve : Bool)
  /-- `expire_approvals`; `corrupt` when the projection differs from its request event. -/
  | expire (corrupt : Bool)
  /-- `request_reconciliation` of a blocked run. -/
  | reconcile
  | emergencyStop
  /-- Another node execution of a parallel region writes the run's wait. -/
  | sibling (w : Option Wait)

/-- The fence check of the run's executor. -/
def fenced (s : St) : Bool := s.lease.any (s.now < ·) && !s.run.status.terminal

/-- The run can be claimed: its status, its time and no live lease. -/
def claimable (s : St) : Bool :=
  s.run.status.claimable && decide (s.run.claimableAt ≤ s.now) && !s.lease.any (s.now < ·)

/-- After the waits of `wrap`: a cached result is returned (or its failure raised again),
    else the handler runs. -/
def afterWait (s : St) : Pc :=
  match s.cached with
  | none => .entered
  | some .failed => .failed
  | some .ok => .done
  | some .cancelled => .finished .cancelled

/-- `interrupt(w)`: the k-th call returns the k-th resume value or suspends. -/
def interruptAt (s : St) (w : Wait) (next : Pc) : St :=
  match s.resumes[s.calls]? with
  | none =>
    { s with
      calls := s.calls + 1
      interrupted := true
      pc := some .suspended
      log := s.log ++ [.suspended w (decidedOn s.run w)] }
  | some v =>
    if v.id = w.id then
      { s with calls := s.calls + 1, pc := some next, log := s.log ++ [.returned w v] }
    else
      { s with calls := s.calls + 1, pc := some .failed, log := s.log ++ [.returned w v, .refused] }

/-! ## The executor's transactions -/

def openRun (s : St) : Option St :=
  if fenced s then some { s with run := opening s.run, pc := some .opened } else none

/-- `_execute` between the checkpoint it reads and the graph it streams. -/
def resumeGraph (s : St) : Option St :=
  if !s.interrupted then some { s with calls := 0, pc := some .invoke }
  else if !fenced s then none
  else if s.run.desiredState = .paused then
    -- "An existing interrupt is already a safe boundary."
    some { s with run := settle s.run .paused, lease := none, pc := none }
  else match s.run.runtime.wait with
    | none => some { s with pc := some .failed, log := s.log ++ [.refused] }
    | some w => some { s with resumes := s.resumes ++ [w], calls := 0, pc := some .invoke }

/-- The first transaction of `wrap`: a cancelled run ends, a stored wait (other than a demo
    decision's) is raised again, a pause or a backoff raises a new one. -/
def wrapWait (s : St) : Option St :=
  if !fenced s then none
  else if s.run.desiredState = .cancelled then
    some { s with interrupted := false, pc := some (.finished .cancelled) }
  else match s.run.runtime.wait.filter (·.kind != .demoDecision) with
    | some w => some { s with pc := some (.waiting w) }
    | none =>
      if s.run.desiredState = .paused ∨ s.now < s.run.claimableAt then
        let w : Wait := ⟨if s.run.desiredState = .paused then .pause else .backoff, .control s.fresh⟩
        some { s with run := setWait s.run (some w), fresh := s.fresh + 1, pc := some (.waiting w) }
      else some { s with pc := some (afterWait s) }

/-- The second transaction of `wrap`, after its `interrupt()` returned. -/
def wrapClear (s : St) : Option St :=
  if !fenced s then none
  else if s.run.desiredState = .cancelled then
    some { s with run := setWait s.run none, interrupted := false, pc := some (.finished .cancelled) }
  else some { s with run := setWait s.run none, pc := some (afterWait s) }

def decideAsk (s : St) (expiresIn : Option Nat) : Option St :=
  if fenced s ∧ s.node = .approval then
    some { s with
      run := request s.now s.execution expiresIn s.run
      pc := some (.asked (approvalWait s.run.mode s.execution)) }
  else none

def decideAnswer (s : St) (w : Wait) : Option St :=
  if !fenced s then none
  else match verdict s.now s.run w with
    | none => some { s with pc := some .failed, log := s.log ++ [.refused] }
    | some d =>
      some { s with
        run := setWait s.run none
        pc := some (.handled .ok)
        log := s.log ++ [.decided w (recorded s.run w) d] }

/-- The final transaction of `wrap`. -/
def wrapRecord (s : St) (o : Outcome) : Option St :=
  if !fenced s then none
  else if s.run.desiredState = .cancelled ∨ o = .cancelled then
    some { s with cached := some .cancelled, interrupted := false, pc := some (.finished .cancelled) }
  else some { s with cached := some o, pc := some (if o = .failed then .failed else .done) }

/-- `NodeRuntime.route`: a retry's delay moves `claimable_at` and `retry_at`. -/
def scheduled (now : Nat) (delay : Option Nat) (r : RunRow) : RunRow :=
  match delay with
  | some d => { r with claimableAt := now + d, runtime := { r.runtime with retryAt := some (now + d) } }
  | none => r

def advance (s : St) (delay : Option Nat) (next : Node) : Option St :=
  if fenced s then
    some { s with
      run := scheduled s.now delay s.run
      execution := s.execution + 1
      node := next
      interrupted := false
      resumes := []
      calls := 0
      cached := none
      pc := some .invoke }
  else none

/-- The closing transaction of `_execute` when the checkpoint holds an interrupt. -/
def closeSuspended (s : St) : Option St :=
  if !fenced s then none
  else match s.run.runtime.wait with
    -- `wait` is present and null: its `.get` raises.
    | none => some { s with pc := some .failed }
    | some w => some { s with run := settle s.run (suspendedStatus w.kind), lease := none, pc := none }

/-- The closing transaction of `_execute` when the graph ended. -/
def closeEnded (s : St) (final : RunStatus) : Option St :=
  if fenced s then some { s with run := settle s.run (endedStatus s.run final), lease := none, pc := none } else none

/-- The error transaction of `execute`. -/
def blockRun (s : St) : Option St :=
  if fenced s then
    some { s with run := { s.run with status := .blocked, version := s.run.version + 1 }, lease := none, pc := none }
  else none

/-- The executor's moves, by its program counter. -/
def execStep (s : St) (pc : Pc) (a : Act) : Option St :=
  match pc, a with
  | .claimed, .opening => openRun s
  | .opened, .resume => resumeGraph s
  | .invoke, .invoke => wrapWait s
  | .waiting w, .interrupt => some (interruptAt s w (.resumed w))
  | .resumed _, .clear => wrapClear s
  | .entered, .ask expiresIn => decideAsk s expiresIn
  | .asked w, .interrupt => some (interruptAt s w (.answered w))
  | .answered w, .decide => decideAnswer s w
  | .entered, .handle o => if s.node = .plain then some { s with pc := some (.handled o) } else none
  | .entered, .throw => some { s with pc := some .failed }
  | .handled o, .record => wrapRecord s o
  | .done, .advance delay next => advance s delay next
  | .done, .finish final =>
    if fenced s then some { s with interrupted := false, pc := some (.finished final) } else none
  | .suspended, .closing => closeSuspended s
  | .finished final, .closing => closeEnded s final
  | .failed, .block => blockRun s
  | pc, .sibling w =>
    if fenced s ∧ pc ≠ .claimed ∧ pc ≠ .opened then some { s with run := setWait s.run w } else none
  | _, .lose => some { s with pc := none }
  | _, .renew ttl => if fenced s then some { s with lease := some (s.now + ttl) } else none
  | _, _ => none

/-! ## The decisions and requeues of the control plane -/

def decideApproval (s : St) (approve : Bool) : Option St :=
  match s.run.runtime.wait with
  | some ⟨.approval, id⟩ =>
    match s.run.runtime.approvals.find? (·.id == id) with
    | some v =>
      if v.decision = .pending ∧ s.run.status = .approvalRequired ∧ s.run.desiredState = .running ∧
          s.commands = [] ∧ !expiredAt s.now v then
        some { s with run := requeue s.now (setDecision s.run id (if approve then .approved else .rejected)) }
      else none
    | none => none
  | _ => none

def decideDemo (s : St) (approve : Bool) : Option St :=
  match s.run.runtime.demoDecision with
  | some (id, .pending) =>
    if s.run.mode = .demo ∧ s.run.status = .approvalRequired ∧ s.run.desiredState = .running ∧ s.commands = [] then
      some { s with run := requeue s.now { s.run with runtime := { s.run.runtime with
        demoDecision := some (id, if approve then .approved else .rejected) } } }
    else none
  | _ => none

def expireApprovals (s : St) (corrupt : Bool) : Option St :=
  if s.run.mode = .real ∧ s.run.status = .approvalRequired then
    match s.run.runtime.wait with
    | some ⟨.approval, id⟩ =>
      match s.run.runtime.approvals.find? (·.id == id) with
      | some v =>
        if corrupt then some { s with run := { s.run with status := .blocked, version := s.run.version + 1 } }
        else if v.decision = .pending ∧ expiredAt s.now v then
          some { s with run := requeue s.now (setDecision s.run id .expired) }
        else none
      | none => none
    | _ => none
  else none

def step (s : St) : Act → Option St
  | .tick d => some { s with now := s.now + d }
  | .enqueue c => some { s with commands := s.commands ++ [c] }
  | .apply hasReceiver fresh =>
    some { s with run := (apply s.now hasReceiver fresh s.run s.commands).run, commands := [] }
  | .claim ttl =>
    if claimable s ∧ 0 < ttl then
      some { s with
        run := claimed s.generation s.run
        generation := s.generation + 1
        lease := some (s.now + ttl)
        pc := some .claimed }
    else none
  | .decideApproval approve => decideApproval s approve
  | .decideDemo approve => decideDemo s approve
  | .expire corrupt => expireApprovals s corrupt
  | .reconcile =>
    if s.run.status = .blocked then
      some { s with run := requeue s.now { s.run with runtime := { s.run.runtime with recovering := true } } }
    else none
  | .emergencyStop =>
    if s.run.status.active then
      some { s with run := { s.run with
        desiredState := .cancelled, status := .cancelRequested, version := s.run.version + 1 } }
    else none
  | a => s.pc.bind fun pc => execStep s pc a

end Jarvis.Runtime.Control
