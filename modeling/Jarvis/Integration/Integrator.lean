/-
  Jarvis.Integration.Integrator — the integrate effects of any number of runs
  (`verification/integration.py`: `LocalIntegrator.integrate`, `invalidate`;
  `verification/runtime.py`: the integrate branch of `VerificationEffectAdapter.dispatch`).

  A call goes from one fenced transaction to the next; what Git, the gates and the reviewer
  answer between them is arbitrary. It may raise at any of its awaits, which still runs the
  `finally` of a lease that was acquired, and its executor may disappear. `dispatch` asks
  again while the answer is 'queued' and looks at the run's desired state in between. The
  runtime changes runs (commands, blocking, completion) and the effect ledger effects; a
  fenced transaction of a terminal run does not happen.

  `returned` is the history of what `integrate` returned.
-/
import Jarvis.Integration.Leases

namespace Jarvis.Integration

open Jarvis.Runtime (RunStatus DesiredState)

/-- `IntegrationResult.status`. -/
inductive IntegrationStatus where
  | queued
  | completed
  /-- `code.git_conflict` -/
  | gitConflict
  /-- `code.test_failure` -/
  | testFailure
  /-- `code.review_failure` -/
  | reviewFailure
  /-- `code.implementation_failure` -/
  | implementationFailure
  deriving DecidableEq, Repr

/-- `RunModel`, the columns read here. -/
structure IntegrationRun where
  id : Nat
  status : RunStatus := .queued
  desiredState : DesiredState := .running
  deriving DecidableEq, Repr

/-- Where a call stands. -/
inductive Pc where
  /-- Before the transaction that reads the receipt. -/
  | reading
  /-- A receipt was found: the accepted tree is confirmed. -/
  | restoring
  | capturing
  | queueing
  | acquiring
  | merging (fence : IntegrationFence)
  | rejecting (fence : IntegrationFence) (status : IntegrationStatus) (conflict : Option Conflict)
  | testing (fence : IntegrationFence)
  | reviewing (fence : IntegrationFence)
  | binding (fence : IntegrationFence)
  | confirming (fence : IntegrationFence)
  | advancing (fence : IntegrationFence)
  /-- The `finally`; without a status an exception goes on. -/
  | releasing (fence : IntegrationFence) (status : Option IntegrationStatus)
  /-- `integrate` has returned and `dispatch` records the outcome. -/
  | settling (status : IntegrationStatus)
  /-- 'queued': `dispatch` sleeps. -/
  | waiting
  deriving DecidableEq, Repr

/-- A dispatched integrate effect. -/
structure Call where
  id : Nat
  run : Nat
  effect : Nat
  repository : Nat
  request : QueueRequest
  latestBaseSha : Sha
  pc : Pc := .reading
  deriving DecidableEq, Repr

structure Sys where
  state : State := {}
  runs : List IntegrationRun := []
  calls : List Call := []
  returned : List (Nat × IntegrationStatus) := []
  deriving DecidableEq

namespace Sys

def run? (s : Sys) (id : Nat) : Option IntegrationRun := s.runs.find? (·.id = id)

def call? (s : Sys) (id : Nat) : Option Call := s.calls.find? (·.id = id)

/-- A fenced transaction of the run may commit. -/
def fenced (s : Sys) (run : Nat) : Bool := (s.run? run).any fun row => !row.status.terminal

/-- A fenced transaction of the run reads that it is to be cancelled. -/
def cancelling (s : Sys) (run : Nat) : Bool := (s.run? run).any fun row => row.desiredState = .cancelled

def setPc (s : Sys) (call : Call) (pc : Pc) : Sys :=
  { s with calls := Keyed.replace (·.id) call.id (fun row => { row with pc }) s.calls }

def drop (s : Sys) (call : Call) : Sys := { s with calls := s.calls.filter (·.id ≠ call.id) }

/-- `integrate` returns to `dispatch`. -/
def return_ (s : Sys) (call : Call) (status : IntegrationStatus) : Sys :=
  { s.setPc call (if status = .queued then .waiting else .settling status) with
    returned := s.returned ++ [(call.effect, status)] }

end Sys

/-- What one step of a call does, with what it is answered. -/
inductive CallMove where
  | read
  | restore
  /-- The captured tree is the reviewed one, or it is not and the review is invalidated. -/
  | capture (valid : Bool)
  | queue (id createdAt : Nat)
  | acquire (id createdAt now ttl : Nat)
  /-- The merge commit, or the conflicting paths. -/
  | merge (conflictingPaths : Option (List String))
  | gates (passed : Bool)
  /-- The renewed review of a target that has moved. -/
  | review (passed : Bool)
  | reject (now : Nat)
  | bindReview (now reviewIdentity : Nat)
  | confirm (valid : Bool)
  | advance (now : Nat) (advancement : Advancement)
  | renew (now ttl : Nat)
  | release (now : Nat)
  /-- The run's fence is stale: nothing is released. -/
  | abandon
  | poll
  | settle
  | raise
  | crash
  deriving DecidableEq, Repr

/-- The fence of a call that holds a lease. -/
def Pc.fence? : Pc → Option IntegrationFence
  | .merging fence | .rejecting fence _ _ | .testing fence | .reviewing fence | .binding fence | .confirming fence
  | .advancing fence => some fence
  | _ => none

/-- `integrate` leaves the `try` of its lease. -/
def leave (s : Sys) (call : Call) : Option IntegrationStatus → Sys
  | some status => s.return_ call status
  | none => s.drop call

/-- The receipt of an effect that is the run's integrate effect for the attempt. -/
def readReceipt (s : Sys) (call : Call) : Option (Option Receipt) :=
  match s.state.effect? call.effect with
  | none => none
  | some effect =>
    if effect.run ≠ call.run ∨ effect.kind ≠ .integrate ∨ effect.taskAttempt ≠ some call.request.taskAttempt then none
    else some effect.integrationCommitted

/-- One step of a call. -/
def callStep (s : Sys) (call : Call) : CallMove → Option Sys
  | .read =>
    if call.pc = .reading ∧ s.fenced call.run then
      (readReceipt s call).map fun receipt => s.setPc call (if receipt.isSome then .restoring else .capturing)
    else none
  | .restore => if call.pc = .restoring then some (s.return_ call .completed) else none
  | .capture valid =>
    if call.pc ≠ .capturing then none
    else if valid then some (s.setPc call .queueing)
    else if s.fenced call.run then some (s.return_ call .implementationFailure)
    else none
  | .queue id createdAt =>
    if call.pc = .queueing ∧ s.fenced call.run then
      (queue s.state id createdAt call.run call.repository call.effect call.request).toOption.map fun state =>
        { s with state }.setPc call .acquiring
    else none
  | .acquire id createdAt now ttl =>
    if call.pc = .acquiring ∧ s.fenced call.run then
      (acquire s.state id createdAt now ttl call.run call.repository call.effect).toOption.map fun
        | (state, some fence) => { s with state }.setPc call (.merging fence)
        | (state, none) => { s with state }.return_ call .queued
    else none
  | .merge conflictingPaths =>
    match call.pc with
    | .merging fence =>
      match conflictingPaths with
      | none => some (s.setPc call (.testing fence))
      | some paths => some (s.setPc call (.rejecting fence .gitConflict (some ⟨fence.baseSha, call.request.candidateSha, paths⟩)))
    | _ => none
  | .gates passed =>
    match call.pc with
    | .testing fence =>
      if !passed then some (s.setPc call (.releasing fence (some .testFailure)))
      else if fence.baseSha ≠ call.latestBaseSha then some (s.setPc call (.reviewing fence))
      else some (s.setPc call (.confirming fence))
    | _ => none
  | .review passed =>
    match call.pc with
    | .reviewing fence => some (s.setPc call (if passed then .binding fence else .rejecting fence .reviewFailure none))
    | _ => none
  | .reject now =>
    match call.pc with
    | .rejecting fence status conflict =>
      if s.fenced call.run then
        (reject s.state call.run now fence conflict).toOption.map fun state =>
          { s with state }.setPc call (.releasing fence (some status))
      else none
    | _ => none
  | .bindReview now reviewIdentity =>
    match call.pc with
    | .binding fence =>
      if s.fenced call.run then
        (bindReview s.state call.run now fence reviewIdentity).toOption.map fun state =>
          { s with state }.setPc call (.confirming fence)
      else none
    | _ => none
  | .confirm valid =>
    match call.pc with
    | .confirming fence =>
      if valid then some (s.setPc call (.advancing fence))
      else if s.fenced call.run then some (s.setPc call (.releasing fence (some .implementationFailure)))
      else none
    | _ => none
  | .advance now advancement =>
    match call.pc with
    | .advancing fence =>
      if s.fenced call.run then
        (advance s.state call.run now fence advancement).toOption.map fun state =>
          { s with state }.setPc call (.releasing fence (some .completed))
      else none
    | _ => none
  | .renew now ttl =>
    match call.pc.fence? with
    | some fence =>
      if s.fenced call.run then
        (renew s.state call.run now ttl fence).toOption.map fun state => { s with state }
      else none
    | none => none
  | .release now =>
    match call.pc with
    | .releasing fence status =>
      if s.fenced call.run then some (leave { s with state := release s.state call.run now fence } call status) else none
    | _ => none
  | .abandon =>
    match call.pc with
    | .releasing _ status => some (leave s call status)
    | _ => none
  | .poll =>
    if call.pc = .waiting ∧ s.fenced call.run then
      if s.cancelling call.run then
        some ({ s with state := s.state.writeEffect call.effect fun effect => { effect with status := .cancelled } }.drop call)
      else some (s.setPc call .reading)
    else none
  | .settle =>
    match call.pc with
    | .settling _ =>
      if s.fenced call.run then
        some ({ s with
          state := s.state.writeEffect call.effect fun effect =>
            if s.cancelling call.run then { effect with status := .cancelled } else { effect with result := true } }.drop call)
      else none
    | _ => none
  | .raise =>
    match call.pc.fence? with
    | some fence => some (s.setPc call (.releasing fence none))
    | none => some (s.drop call)
  | .crash => some (s.drop call)

inductive Action where
  | ledger (op : Op)
  | createRun (id : Nat)
  /-- A command, a claim or a decision of the runtime about the run. -/
  | control (run : Nat) (status : RunStatus) (desiredState : DesiredState)
  /-- An integrate effect without a result is dispatched. -/
  | dispatch (call : Call)
  | call (id : Nat) (move : CallMove)
  deriving DecidableEq, Repr

namespace Sys

def step (s : Sys) : Action → Option Sys
  | .ledger op => if op.ofLedger then (Integration.step s.state op).map fun state => { s with state } else none
  | .createRun id => if (s.run? id).isSome then none else some { s with runs := s.runs ++ [{ id }] }
  | .control run status desiredState =>
    some { s with runs := Keyed.replace (·.id) run (fun row => { row with status, desiredState }) s.runs }
  | .dispatch call =>
    if (s.call? call.id).isNone ∧ s.fenced call.run ∧
        (s.state.effect? call.effect).any (fun effect => !effect.result ∧ effect.status ≠ .cancelled) then
      some { s with calls := s.calls ++ [{ call with pc := .reading }] }
    else none
  | .call id move => (s.call? id).bind fun call => callStep s call move

abbrev Reach : Sys → Prop := Steps.Reach step {}

end Sys

end Jarvis.Integration
