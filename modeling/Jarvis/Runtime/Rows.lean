/-
  Jarvis.Runtime.Rows — the rows of `control.runs`, `control.run_leases`,
  `control.recovery_generations` and `control.orchestrator_instances` that the runtime
  reads and writes (`jarvis_persistence.models`, `jarvis_contracts.enums`).

  Times are clock readings (`Nat`), row identities are numbers. `runtime_json` is the
  record of the keys the modelled functions use: `wait`, `retry_at`, `recovering`,
  `approvals`, `demo_decision` and `instructions`.
-/
import Mathlib.Tactic.Common

namespace Jarvis.Runtime

/-- `RunStatus`. -/
inductive RunStatus where
  | queued
  | claiming
  | running
  | pauseRequested
  | paused
  | approvalRequired
  | cancelRequested
  | completed
  | failed
  | blocked
  | cancelled
  deriving DecidableEq, Repr

/-- `TERMINAL`. -/
def RunStatus.terminal : RunStatus → Bool
  | .completed | .failed | .blocked | .cancelled => true
  | _ => false

/-- The statuses `RunOwnership.claim` selects. -/
def RunStatus.claimable : RunStatus → Bool
  | .queued | .claiming | .running | .pauseRequested | .cancelRequested => true
  | _ => false

/-- `_ACTIVE_RUNS`, the statuses an emergency stop cancels. -/
def RunStatus.active (s : RunStatus) : Bool := !s.terminal

/-- `DesiredRunState`. -/
inductive DesiredState where
  | running
  | paused
  | cancelled
  deriving DecidableEq, Repr

inductive Mode where
  | demo
  | real
  deriving DecidableEq, Repr

inductive WaitKind where
  | pause
  | backoff
  | approval
  | demoDecision
  deriving DecidableEq, Repr

/-- The identity a wait carries: a fresh `uuid7` for a control wait, `uuid5` of the node
    execution for an approval, the execution id itself for a demo decision. -/
inductive WaitId where
  | control (n : Nat)
  | approval (execution : Nat)
  | demo (execution : Nat)
  deriving DecidableEq, Repr

/-- `runtime_json["wait"]`. -/
structure Wait where
  kind : WaitKind
  id : WaitId
  deriving DecidableEq, Repr

/-- `ApprovalView.decision`; a demo decision uses the first three. -/
inductive Decision where
  | pending
  | approved
  | rejected
  | expired
  | cancelled
  deriving DecidableEq, Repr

/-- One entry of `runtime_json["approvals"]`. -/
structure ApprovalView where
  id : WaitId
  decision : Decision
  expiresAt : Option Nat
  deriving DecidableEq, Repr

structure RuntimeJson where
  wait : Option Wait := none
  retryAt : Option Nat := none
  recovering : Bool := false
  approvals : List ApprovalView := []
  /-- `runtime_json["demo_decision"]`: the execution id and the decision. -/
  demoDecision : Option (WaitId × Decision) := none
  /-- The queued instructions, by command id. -/
  instructions : List Nat := []
  deriving DecidableEq, Repr

structure RunRow where
  id : Nat
  /-- The project owner (`ProjectModel.owner_user_id` of the run's job). -/
  user : Nat
  mode : Mode
  priority : Int
  createdAt : Nat
  claimableAt : Nat
  status : RunStatus
  desiredState : DesiredState
  version : Nat
  runtime : RuntimeJson
  deriving DecidableEq, Repr

structure RunLease where
  run : Nat
  owner : Nat
  generation : Nat
  acquiredAt : Nat
  expiresAt : Nat
  releasedAt : Option Nat
  deriving DecidableEq, Repr

/-- `RunFence`: what an executor carries away from a successful claim. -/
structure RunFence where
  run : Nat
  owner : Nat
  generation : Nat
  recoveryGeneration : Nat
  deriving DecidableEq, Repr

/-- The singleton row of `control.recovery_generations`. -/
structure RecoveryRow where
  generation : Nat
  automaticDispatchEnabled : Bool
  deriving DecidableEq, Repr

structure OrchestratorInstance where
  id : Nat
  draining : Bool
  deriving DecidableEq, Repr

end Jarvis.Runtime
