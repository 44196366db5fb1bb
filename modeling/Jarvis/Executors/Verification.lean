/-
  Jarvis.Executors.Verification — the adapter of VERIFY, REVIEWER and INTEGRATE nodes as a
  program of its executor (`verification/leases.py`: `IntegrationLeases`;
  `verification/integration.py`: `LocalIntegrator.integrate`; `verification/runtime.py`:
  `VerificationEffectAdapter`).

  `integrate` works beside a heartbeat that renews the integration lease. What the heartbeat
  raises is raised before the head advances; the `finally` gives the lease back if it is still
  there.
-/
import Jarvis.Executors.Session
import Jarvis.Integration.Integrator

namespace Jarvis.Executors

open Jarvis.Runtime.Ownership (fencedAccepts)
open Integration (IntegrationFence IntegrationStatus LeaseError Conflict Sha QueueRequest)
open Runtime.Effects (Observation)
open Workflows (FailureClass WorkflowNodeType)

/-! ## Integration leases -/

namespace IntegrationLeases

/-- Inside a fenced transaction the run fence is accepted. -/
def raised : LeaseError → Raised
  | .stale => .stale false
  | _ => .other

/-- The new state of a transaction, or what it raises. -/
def settle {α β : Type} (s : Session) (state : α → Integration.State) (value : α → β) :
    Except LeaseError α → Except Raised (Session × β)
  | .ok a => .ok ({ s with rows.integration := state a }, value a)
  | .error e => .error (raised e)

/-- The identity of the candidate that a transaction may add is drawn. -/
def drawn (s : Session) : Session := { s with rows.nextId := s.rows.nextId + 1 }

def initializeTarget (x : Executor) (binding : Binding) : Program Unit :=
  x.fenced .nothing fun s =>
    settle s id (fun _ => ())
      (Integration.initializeTarget s.rows.integration x.fence.run binding.repository binding.initialSha binding.initialBranch)

def queue (x : Executor) (repository effect : Nat) (request : QueueRequest) : Program Unit :=
  x.fenced .nothing fun s =>
    settle (drawn s) id (fun _ => ())
      (Integration.queue s.rows.integration s.rows.nextId s.now x.fence.run repository effect request)

def acquire (x : Executor) (repository effect : Nat) : Program (Option IntegrationFence) :=
  x.fenced .nothing fun s =>
    settle (drawn s) Prod.fst Prod.snd
      (Integration.acquire s.rows.integration s.rows.nextId s.now s.now x.integrationTtl x.fence.run repository effect)

/-- Only the heartbeat renews, and keeps what this raises. -/
def renew (x : Executor) (fence : IntegrationFence) : Program Unit :=
  x.fenced .nothing fun s =>
    settle s id (fun _ => ()) (Integration.renew s.rows.integration x.fence.run s.now x.integrationTtl fence)

/-- A lost lease has nothing to release. -/
def release (x : Executor) (fence : IntegrationFence) : Program Unit :=
  x.fenced .nothing fun s =>
    .ok ({ s with rows.integration := Integration.release s.rows.integration x.fence.run s.now fence }, ())

def reject (x : Executor) (fence : IntegrationFence) (conflict : Option Conflict) : Program Unit :=
  x.fenced (.integration fence) fun s =>
    settle s id (fun _ => ()) (Integration.reject s.rows.integration x.fence.run s.now fence conflict)

def bindReview (x : Executor) (fence : IntegrationFence) (reviewIdentity : Nat) : Program Unit :=
  x.fenced (.integration fence) fun s =>
    settle s id (fun _ => ()) (Integration.bindReview s.rows.integration x.fence.run s.now fence reviewIdentity)

def advance (x : Executor) (fence : IntegrationFence) (advancement : Integration.Advancement) : Program Unit :=
  x.fenced (.integration fence) fun s =>
    settle s id (fun _ => ()) (Integration.advance s.rows.integration x.fence.run s.now fence advancement)

end IntegrationLeases

/-! ## The integrator -/

namespace LocalIntegrator

/-- `invalidate`. -/
def invalidate (x : Executor) : Program IntegrationStatus := do
  x.service
  pure .implementationFailure

/-- The receipt of the effect, which is the run's integrate effect of the attempt. -/
def receipt (x : Executor) (effect taskAttempt : Nat) : Program Bool :=
  x.fenced .nothing fun s =>
    match s.rows.integration.effect? effect with
    | none => .error .other
    | some row =>
      if row.run ≠ x.fence.run ∨ row.kind ≠ .integrate ∨ row.taskAttempt ≠ some taskAttempt then .error .other
      else .ok (s, row.integrationCommitted.isSome)

/-- The review of a target that has moved is renewed and bound to the candidate. -/
def renewReview (x : Executor) (fence : IntegrationFence) : Program (Option IntegrationStatus) := do
  x.service
  let renewed : Bool ← attempt (← ask .confirmed)
  if !renewed then do
    IntegrationLeases.reject x fence none
    pure (some .reviewFailure)
  else do
    let reviewIdentity : Nat ← ask .taskAttempt
    IntegrationLeases.bindReview x fence reviewIdentity
    pure none

/-- The last checks on the candidate and the merge. -/
def confirm (x : Executor) : Program (Option IntegrationStatus) := do
  x.service
  let unchanged : Bool ← attempt (← ask .confirmed)
  if !unchanged then some <$> invalidate x
  else do
    x.service
    pure none

/-- The merge was made: the combined checks and the review. -/
def verify (x : Executor) (fence : IntegrationFence) (latestBaseSha : Sha) : Program (Option IntegrationStatus) := do
  x.service
  let passed : Bool ← ask .passed
  if !passed then pure (some .testFailure)
  else if fence.baseSha ≠ latestBaseSha then do
    match ← renewReview x fence with
    | some status => pure (some status)
    | none => confirm x
  else confirm x

/-- `integrate` under its lease, up to the advancement: the status it returns early. -/
def merge (x : Executor) (fence : IntegrationFence) (latestBaseSha : Sha) : Program (Option IntegrationStatus) := do
  x.service
  let merge : Merge ← attempt (← ask .merge)
  match merge with
  | .timedOut => raise .other
  | .conflict conflict => do
    x.service
    IntegrationLeases.reject x fence (some conflict)
    pure (some .gitConflict)
  | .merged => verify x fence latestBaseSha

/-- The program beside the heartbeat of its lease. -/
def withHeartbeat {α : Type} (x : Executor) (fence : IntegrationFence) (work : Program α) : Program (α × Option Raised) :=
  .beside .renewals (fun n : Nat => n) (IntegrationLeases.renew x fence) work none

/-- `renewal.result()`: the exception is raised again. -/
def heartbeatResult (x : Executor) : Option Raised → Program Unit
  | none => pure ()
  | some e =>
    atomically (x.fence, .heartbeat e.isStale) fun db =>
      .error (if e.isStale then .stale !fencedAccepts db.own x.fence else e)

/-- The `try` of `integrate`. -/
def underLease (x : Executor) (fence : IntegrationFence) (latestBaseSha : Sha) : Program IntegrationStatus := do
  match ← withHeartbeat x fence (merge x fence latestBaseSha) with
  | (some status, _) => pure status
  | (none, failed) => do
    heartbeatResult x failed
    let advancement : Integration.Advancement ← ask .advancement
    let _ ← withHeartbeat x fence (IntegrationLeases.advance x fence advancement)
    pure .completed

/-- The `finally` of `integrate`. -/
def giveBack (x : Executor) (fence : IntegrationFence) : Program Unit :=
  .catch_ (IntegrationLeases.release x fence) fun
    | .stale _ => pure ()
    | e => raise e

def integrate (x : Executor) (repository effect : Nat) (request : QueueRequest) (latestBaseSha : Sha) :
    Program IntegrationStatus := do
  if ← receipt x effect request.taskAttempt then do
    x.service
    pure .completed
  else do
    let captured : Bool ← attempt (← ask .confirmed)
    if !captured then invalidate x
    else do
      IntegrationLeases.queue x repository effect request
      match ← IntegrationLeases.acquire x repository effect with
      | none => pure .queued
      | some fence => .andFinally (underLease x fence latestBaseSha) (giveBack x fence)

/-- The failure class of a status that is not 'completed'. -/
def outcome : IntegrationStatus → Outcome
  | .completed | .queued => none
  | .gitConflict => some .codeGitConflict
  | .testFailure => some .codeTestFailure
  | .reviewFailure => some .codeReviewFailure
  | .implementationFailure => some .codeImplementationFailure

end LocalIntegrator

/-! ## The adapter -/

namespace VerificationEffectAdapter

def inspect (x : Executor) (identity : Identity) : Program (Observation Outcome) :=
  x.read fun s =>
    match s.external? identity with
    | none => .absent
    | some effect =>
      if effect.status = .cancelled then .cancelled
      else if effect.result.isSome then .succeeded effect.result
      -- Services reconcile their own durable receipts.
      else .absent

def cancel (x : Executor) (identity : Identity) : Program Unit :=
  x.fenced .nothing fun s =>
    match s.external? identity with
    | none => .ok (s, ())
    | some effect =>
      if effect.result.isSome then .ok (s, ())
      else .ok (s.writeEffect effect.id fun row => { row with status := .cancelled }, ())

/-- The transaction that reads the candidate: its effect, if there is something left to do. -/
def candidate (x : Executor) (kind : WorkflowNodeType) (identity : Identity) (taskAttempt : Nat) : Program (Option Nat) :=
  x.fenced .nothing fun s =>
    match s.external? identity with
    | none => .error .other
    | some effect =>
      if (s.rows.integration.effect? effect.id).any (fun row => row.kind ≠ kind) then .error .other
      else if effect.result.isSome ∨ effect.status = .cancelled then .ok (s, none)
      else
        .ok ({ s with
          rows.integration := s.rows.integration.writeEffect effect.id fun row => { row with taskAttempt := some taskAttempt } },
          some effect.id)

/-- The run is to be cancelled, and so is the effect that waits. -/
def cancelledWaiting (x : Executor) (effect : Nat) : Program Bool :=
  x.fenced .nothing fun s =>
    if s.cancelled then .ok (s.writeEffect effect fun row => { row with status := .cancelled }, true)
    else .ok (s, false)

/-- The integrate branch of `dispatch`: integrated, or cancelled while it was queued. -/
def integrated (x : Executor) (repository effect : Nat) (request : QueueRequest) (latestBaseSha : Sha) :
    Program (Option IntegrationStatus) := do
  match ← LocalIntegrator.integrate x repository effect request latestBaseSha with
  | .queued =>
    .loop x.rounds do
      if ← cancelledWaiting x effect then pure (some none)
      else
        match ← LocalIntegrator.integrate x repository effect request latestBaseSha with
        | .queued => pure none
        | status => pure (some (some status))
  | status => pure (some status)

/-- The last transaction of `dispatch`. -/
def finish (x : Executor) (effect : Nat) (outcome : Outcome) : Program Unit :=
  x.fenced .nothing fun s =>
    if s.cancelled then .ok (s.writeEffect effect fun row => { row with status := .cancelled }, ())
    else .ok (s.writeEffect effect fun row => { row with result := some outcome }, ())

def dispatch (x : Executor) (binding : Binding) (kind : WorkflowNodeType) (identity : Identity) : Program Unit := do
  if kind ≠ .verify ∧ kind ≠ .reviewer ∧ kind ≠ .integrate then raise .other
  else do
    attempt (← ask .verification)
    let taskAttempt : Nat ← ask .taskAttempt
    match ← candidate x kind identity taskAttempt with
    | none => pure ()
    | some effect => do
      x.service
      IntegrationLeases.initializeTarget x binding
      if kind = .integrate then do
        let (request, latestBaseSha) ← (ask .candidate : Program (QueueRequest × Sha))
        match ← integrated x binding.repository effect request latestBaseSha with
        | none => pure ()
        | some status => finish x effect (LocalIntegrator.outcome status)
      else do
        x.service
        let outcome : Outcome ← ask .outcome
        finish x effect outcome

end VerificationEffectAdapter

end Jarvis.Executors
