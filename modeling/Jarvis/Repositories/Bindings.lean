/-
  Jarvis.Repositories.Bindings — the repository a run works in (`runtime/configuration.py`,
  `runtime/repository_lifecycle.py`: `accepted_source`, `runtime/binding.py`: `freeze_binding`).

  The first build of a run resolves its source, once, and freezes what it was bound to in the
  run's configuration snapshot; later builds compare. Identities and commits are numbers, and a
  digest is the content it is taken of: of commands, deployments and the isolation settings the
  fields that the code reads.
-/
import Mathlib.Data.List.MinMax
import Mathlib.Data.Prod.Lex
import Mathlib.Order.WithBot
import Jarvis.Integration.Leases
import Jarvis.Runtime.Rows

namespace Jarvis.Repositories

open Integration (Sha IntegrationHead)
open Jarvis.Runtime (RunStatus)

/-! ## Private configuration -/

inductive BasePolicy where
  | current
  | historical
  deriving DecidableEq, Repr

inductive ProjectType where
  | python
  | node
  | fullStack
  deriving DecidableEq, Repr

/-- `WorkerProject`. -/
structure WorkerProject where
  projectId : Nat
  repositoryId : Nat
  slug : String
  workspaceRoot : String
  branch : String
  baseSha : Sha
  deriving DecidableEq, Repr

/-- `VerificationCommand`. -/
structure VerificationCommand where
  argv : List String
  profileRevisionId : Option Nat := none
  deriving DecidableEq, Repr

structure RepositoryBinding where
  workerRevisionId : Nat
  project : WorkerProject
  basePolicy : BasePolicy := .current
  combinedCommands : List VerificationCommand
  projectType : ProjectType := .python
  executionProfileRevisionIds : List Nat := []
  deriving DecidableEq, Repr

/-- `OpenHandsDeployment`. -/
structure Deployment where
  hostAlias : String
  workspaceRoot : String
  deriving DecidableEq, Repr

/-- `RealRuntimeConfiguration`; `profiles` are those of `verification_isolation`. -/
structure Settings where
  workers : List (Nat × Deployment)
  allowedWorkerHosts : List String
  workflows : List (Nat × RepositoryBinding)
  projectWorkflows : List ((Nat × Nat) × RepositoryBinding) := []
  profiles : List Nat := []
  deriving DecidableEq, Repr

/-- `repository_binding`. -/
def Settings.repositoryBinding (settings : Settings) (projectId workflowId : Nat) : Except String RepositoryBinding :=
  match (settings.projectWorkflows.lookup (projectId, workflowId)).or (settings.workflows.lookup workflowId) with
  | none => .error "project/workflow has no server-side repository binding"
  | some binding =>
    if binding.project.projectId ≠ projectId then .error "project does not match repository binding" else .ok binding

/-- `integration_target_branch`. -/
def integrationTargetBranch (binding : RepositoryBinding) (run : Nat) : String :=
  match binding.basePolicy with
  | .historical => "jarvis/history/" ++ toString run
  | .current => binding.project.branch

/-! ## What is frozen -/

/-- `lifecycle`. -/
structure Lifecycle where
  policy : BasePolicy
  sourceStoreId : Nat
  previousRunId : Option Nat
  workerBaseSha : Sha
  integrationBaseSha : Sha
  integrationTargetBranch : Option String := none
  seedStoreId : Option Nat := none
  deriving DecidableEq, Repr

/-- `repository_binding` of a configuration snapshot. -/
structure BindingIdentity where
  projectId : Nat
  workflowVersionId : Nat
  repositoryId : Nat
  workerRevisionId : Nat
  bindingDigest : RepositoryBinding × Deployment × List Nat
  targetDigest : Deployment
  lifecycle : Option Lifecycle
  deriving DecidableEq, Repr

/-- `RunModel` with its job's project and the binding in its configuration snapshot. -/
structure Run where
  id : Nat
  projectId : Nat
  workflowVersionId : Nat
  demo : Bool := false
  status : RunStatus := .running
  completedAt : Option Nat := none
  binding : Option BindingIdentity := none
  deriving DecidableEq, Repr

/-- `freeze_binding`. -/
def freezeBinding (run : Run) (identity : BindingIdentity) : Except String Run :=
  if run.projectId ≠ identity.projectId then .error "project does not match repository binding"
  else if run.workflowVersionId ≠ identity.workflowVersionId then .error "workflow does not match repository binding"
  else
    match run.binding with
    | none => .ok { run with binding := some identity }
    | some prior =>
      if prior = identity then .ok run
      else if prior.lifecycle = none ∧ identity.lifecycle ≠ none ∧ prior = { identity with lifecycle := none } then
        .ok { run with binding := some identity }
      else .error "immutable repository binding changed; reconciliation required"

/-! ## The accepted source -/

/-- A worker invocation with its result. -/
structure WorkerReceipt where
  run : Nat
  projectId : Nat
  repositoryId : Nat
  workerRevisionId : Nat
  requestDigest : Nat
  succeeded : Bool
  branch : String
  resultRequestDigest : Nat
  endHead : Sha
  deriving DecidableEq, Repr

/-- The rows `accepted_source` reads; the newest receipt comes first. -/
structure History where
  runs : List Run := []
  heads : List IntegrationHead := []
  receipts : List WorkerReceipt := []
  deriving DecidableEq

/-- The base policy a run was frozen with. -/
def Run.policy (run : Run) : BasePolicy :=
  ((run.binding.bind BindingIdentity.lifecycle).map Lifecycle.policy).getD .current

/-- The place of a run in `ORDER BY completed_at DESC, id DESC`, where a null comes first. -/
def Run.completion (run : Run) : WithTop ℕ ×ₗ ℕ :=
  toLex (match run.completedAt with
    | some at_ => WithTop.some at_
    | none => ⊤, run.id)

/-- The runs a new run of the project may start from. -/
def History.candidates (h : History) (run : Nat) (binding : RepositoryBinding) : List Run :=
  h.runs.filter fun row =>
    row.projectId = binding.project.projectId && row.status = .completed && !row.demo && row.id ≠ run && row.policy = .current &&
      h.heads.any fun head => head.run = row.id && head.repository = binding.project.repositoryId

/-- The run that completed last. -/
def History.previous (h : History) (run : Nat) (binding : RepositoryBinding) : Option Run :=
  (h.candidates run binding).argmax Run.completion

def History.head? (h : History) (run repository : Nat) : Option IntegrationHead :=
  h.heads.find? fun head => head.run = run && head.repository = repository

/-- A run's own store and the configured seed. -/
def seedSource (run : Nat) (binding : RepositoryBinding) : Lifecycle where
  policy := binding.basePolicy
  sourceStoreId := run
  previousRunId := none
  workerBaseSha := binding.project.baseSha
  integrationBaseSha := binding.project.baseSha
  integrationTargetBranch :=
    if binding.basePolicy = .historical then some (integrationTargetBranch binding run) else none

/-- The receipt is of a successful result in the binding's repository, worker and branch. -/
def WorkerReceipt.authoritative (receipt : WorkerReceipt) (binding : RepositoryBinding) : Bool :=
  receipt.projectId = binding.project.projectId && receipt.repositoryId = binding.project.repositoryId &&
    receipt.workerRevisionId = binding.workerRevisionId && receipt.succeeded && receipt.branch = binding.project.branch &&
    receipt.resultRequestDigest = receipt.requestDigest

/-- `accepted_source`. -/
def acceptedSource (h : History) (run : Run) (binding : RepositoryBinding) : Except String Lifecycle :=
  match run.binding with
  | some prior => .ok (prior.lifecycle.getD (seedSource run.id binding))
  | none =>
    match h.previous run.id binding with
    | none => .ok (seedSource run.id binding)
    | some previous =>
      match h.head? previous.id binding.project.repositoryId, h.receipts.find? fun receipt => receipt.run = previous.id with
      | some head, some receipt =>
        if !receipt.authoritative binding then .error "accepted source binding requires reconciliation"
        else
          let store := ((previous.binding.bind BindingIdentity.lifecycle).map Lifecycle.sourceStoreId).getD previous.id
          match binding.basePolicy with
          | .historical => .ok { seedSource run.id binding with seedStoreId := some store }
          | .current =>
            .ok { seedSource run.id binding with
              sourceStoreId := store
              previousRunId := some previous.id
              workerBaseSha := receipt.endHead
              integrationBaseSha := head.headSha }
      | _, _ => .error "accepted project has no authoritative worker source receipt"

end Jarvis.Repositories
