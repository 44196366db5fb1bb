/-
  Jarvis.Integration.Leases — the integration authority of a repository and target branch
  (`verification/leases.py`: `IntegrationLeases`).

  Every operation is one fenced transaction of its run. Such a transaction holds the event
  counter's row to its end, so they happen one after another; one whose run fence is stale
  does nothing, which is no step here. The clock of a check is that of its executor, so each
  operation brings its own reading (`now`), and `created_at` is when its transaction began.

  A commit identity is a number, and so is a digest. Of the event log, `acquired` and
  `completed` are the `git.integration_lease_acquired` and `git.integration_completed`
  events; the payload of the others repeats the rows.
-/
import Jarvis.Lib.Keyed
import Jarvis.Lib.Steps
import Jarvis.Runtime.Effects
import Jarvis.Workflows.Spec

namespace Jarvis.Integration

open Jarvis.Runtime.Effects (EffectStatus)
open Jarvis.Workflows (WorkflowNodeType)

abbrev Sha := Nat

/-- The repository and its target branch. -/
abbrev Target := Nat × String

/-! ## Rows -/

/-- `AcceptedTargetHeadModel`; `leaseOwner` is a candidate. -/
structure AcceptedTargetHead where
  repository : Nat
  targetBranch : String
  headSha : Sha
  generation : Nat := 0
  leaseOwner : Option Nat := none
  leaseGeneration : Nat := 0
  leaseExpiresAt : Option Nat := none
  deriving DecidableEq, Repr

def AcceptedTargetHead.target (row : AcceptedTargetHead) : Target := (row.repository, row.targetBranch)

/-- `IntegrationHeadModel`; `leaseOwner` is an effect. -/
structure IntegrationHead where
  run : Nat
  repository : Nat
  baseSha : Sha
  headSha : Sha
  branch : String
  targetBranch : String
  snapshotArtifact : Option Nat := none
  generation : Nat
  leaseOwner : Option Nat := none
  acquiredAt : Option Nat := none
  renewedAt : Option Nat := none
  expiresAt : Option Nat := none
  releasedAt : Option Nat := none
  deriving DecidableEq, Repr

def IntegrationHead.key (row : IntegrationHead) : Nat × Nat := (row.run, row.repository)

inductive CandidateStatus where
  | queued
  | integrating
  | accepted
  | conflicted
  | rejected
  | blocked
  deriving DecidableEq, Repr

/-- `conflict_json`. -/
structure Conflict where
  baseSha : Sha
  candidateSha : Sha
  conflictingPaths : List String
  deriving DecidableEq, Repr

/-- `MergeCandidateModel`. -/
structure MergeCandidate where
  id : Nat
  repository : Nat
  targetBranch : String
  run : Nat
  effect : Nat
  taskAttempt : Nat
  profileRevision : Nat
  baseSha : Sha
  candidateSha : Sha
  verificationIdentity : Nat
  reviewIdentity : Nat
  directiveIdentity : Nat
  status : CandidateStatus := .queued
  expectedHeadSha : Option Sha := none
  acceptedGeneration : Option Nat := none
  conflict : Option Conflict := none
  createdAt : Nat
  completedAt : Option Nat := none
  deriving DecidableEq, Repr

def MergeCandidate.target (row : MergeCandidate) : Target := (row.repository, row.targetBranch)

/-- `request_json["integration_committed"]`. -/
structure Receipt where
  headSha : Sha
  branch : String
  worktreeRoot : String
  snapshotArtifact : Nat
  combinedGateArtifact : Option Nat
  deriving DecidableEq, Repr

/-- `EffectModel`; `candidateSha` is `request_json["candidate_sha"]`, `result` says that
    `result_json` is set. -/
structure Effect where
  id : Nat
  run : Nat
  taskAttempt : Option Nat := none
  kind : WorkflowNodeType
  requestDigest : Nat := 0
  status : EffectStatus := .prepared
  result : Bool := false
  candidateSha : Option Sha := none
  integrationCommitted : Option Receipt := none
  deriving DecidableEq, Repr

inductive RedactionClassification where
  | public_
  | owner
  | sensitive
  | redacted
  deriving DecidableEq, Repr

/-- `ArtifactModel`. -/
structure Artifact where
  id : Nat
  run : Nat
  taskAttempt : Option Nat := none
  redactionClassification : RedactionClassification
  deriving DecidableEq, Repr

/-- `git.integration_lease_acquired`. -/
structure LeaseAcquired where
  repository : Nat
  targetBranch : String
  effect : Nat
  generation : Nat
  baseSha : Sha
  deriving DecidableEq, Repr

def LeaseAcquired.target (event : LeaseAcquired) : Target := (event.repository, event.targetBranch)

/-- `git.integration_completed`. -/
structure IntegrationCompleted where
  repository : Nat
  targetBranch : String
  generation : Nat
  effect : Nat
  baseSha : Sha
  headSha : Sha
  deriving DecidableEq, Repr

def IntegrationCompleted.target (event : IntegrationCompleted) : Target := (event.repository, event.targetBranch)

/-- The targets, their candidates and what was recorded of both. -/
structure Queue where
  targets : List AcceptedTargetHead := []
  candidates : List MergeCandidate := []
  acquired : List LeaseAcquired := []
  completed : List IntegrationCompleted := []
  deriving DecidableEq

structure State extends Queue where
  heads : List IntegrationHead := []
  effects : List Effect := []
  artifacts : List Artifact := []
  deriving DecidableEq

/-- `IntegrationFence`: what a successful `acquire` returns. -/
structure IntegrationFence where
  repository : Nat
  effect : Nat
  generation : Nat
  baseSha : Sha
  deriving DecidableEq, Repr

inductive LeaseError where
  /-- "immutable integration target changed" -/
  | targetChanged
  /-- "merge candidate does not own its run effect" -/
  | notRunEffect
  /-- "merge candidate identity changed" -/
  | identityChanged
  /-- "integration identity is not a queued runtime effect" -/
  | notQueuedEffect
  /-- "accepted target is unavailable" -/
  | targetUnavailable
  /-- "integration lease is stale" -/
  | stale
  /-- "advancement requires authorized snapshot and combined gates" -/
  | unauthorized
  /-- A unique constraint of the table is violated. -/
  | duplicateRow
  deriving DecidableEq, Repr

/-! ## Reading and writing rows -/

namespace State

variable (s : State)

def target? (target : Target) : Option AcceptedTargetHead := s.targets.find? (·.target = target)

def head? (run repository : Nat) : Option IntegrationHead := s.heads.find? (·.key = (run, repository))

def effect? (id : Nat) : Option Effect := s.effects.find? (·.id = id)

def artifact? (id : Nat) : Option Artifact := s.artifacts.find? (·.id = id)

/-- The candidate of an effect. -/
def candidateOf (effect : Nat) : Option MergeCandidate := s.candidates.find? (·.effect = effect)

def writeTarget (target : Target) (f : AcceptedTargetHead → AcceptedTargetHead) : State :=
  { s with targets := Keyed.replace (·.target) target f s.targets }

def writeHead (run repository : Nat) (f : IntegrationHead → IntegrationHead) : State :=
  { s with heads := Keyed.replace (·.key) (run, repository) f s.heads }

def writeCandidate (id : Nat) (f : MergeCandidate → MergeCandidate) : State :=
  { s with candidates := Keyed.replace (·.id) id f s.candidates }

def writeEffect (id : Nat) (f : Effect → Effect) : State :=
  { s with effects := Keyed.replace (·.id) id f s.effects }

/-- A candidate row is inserted: identity, effect and (attempt, commit) are unique. -/
def insertCandidate (row : MergeCandidate) : Except LeaseError State :=
  if s.candidates.any fun old => old.id = row.id ∨ old.effect = row.effect ∨
      (old.taskAttempt = row.taskAttempt ∧ old.candidateSha = row.candidateSha) then
    .error .duplicateRow
  else .ok { s with candidates := s.candidates ++ [row] }

end State

/-! ## Targets and candidates -/

/-- The target's row, inserted if it is not there. -/
def ensureTarget (s : State) (repository : Nat) (baseSha : Sha) (branch : String) : State × AcceptedTargetHead :=
  match s.target? (repository, branch) with
  | some accepted => (s, accepted)
  | none =>
    let accepted : AcceptedTargetHead := { repository, targetBranch := branch, headSha := baseSha }
    ({ s with targets := s.targets ++ [accepted] }, accepted)

/-- `initialize`. -/
def initializeTarget (s : State) (run repository : Nat) (baseSha : Sha) (branch : String) : Except LeaseError State :=
  let (s, accepted) := ensureTarget s repository baseSha branch
  match s.head? run repository with
  | none =>
    let row : IntegrationHead :=
      { run, repository, branch
        baseSha := accepted.headSha
        headSha := accepted.headSha
        targetBranch := branch
        generation := accepted.generation }
    .ok { s with heads := s.heads ++ [row] }
  | some row => if row.targetBranch ≠ branch then .error .targetChanged else .ok s

/-- The arguments of `queue`. -/
structure QueueRequest where
  taskAttempt : Nat
  baseSha : Sha
  candidateSha : Sha
  profileRevision : Nat
  verificationIdentity : Nat
  reviewIdentity : Nat
  directiveIdentity : Nat
  deriving DecidableEq, Repr

/-- The row that `queue` adds. -/
def QueueRequest.candidate (request : QueueRequest) (id createdAt : Nat) (head : IntegrationHead) (effect : Nat) :
    MergeCandidate where
  id
  createdAt
  effect
  repository := head.repository
  targetBranch := head.targetBranch
  run := head.run
  taskAttempt := request.taskAttempt
  profileRevision := request.profileRevision
  baseSha := request.baseSha
  candidateSha := request.candidateSha
  verificationIdentity := request.verificationIdentity
  reviewIdentity := request.reviewIdentity
  directiveIdentity := request.directiveIdentity

/-- `queue`; `id` is the identity drawn for the row. -/
def queue (s : State) (id createdAt run repository effectId : Nat) (request : QueueRequest) : Except LeaseError State :=
  match s.head? run repository, s.effect? effectId with
  | some head, some effect =>
    if effect.run ≠ run then .error .notRunEffect
    else
      match s.candidateOf effectId with
      | some existing => if existing.candidateSha ≠ request.candidateSha then .error .identityChanged else .ok s
      | none => s.insertCandidate (request.candidate id createdAt head effectId)
  | _, _ => .error .notRunEffect

/-! ## Acquiring -/

/-- The candidate that `acquire` queues for an effect that has none. -/
def effectCandidate (id createdAt : Nat) (head : IntegrationHead) (effect : Effect) (taskAttempt : Nat) : MergeCandidate where
  id
  createdAt
  taskAttempt
  repository := head.repository
  targetBranch := head.targetBranch
  run := head.run
  effect := effect.id
  profileRevision := 0
  baseSha := head.headSha
  candidateSha := effect.candidateSha.getD head.headSha
  verificationIdentity := effect.requestDigest
  reviewIdentity := effect.requestDigest
  directiveIdentity := effect.requestDigest

/-- The candidate that is to be integrated, queued if it was not. -/
def ensureCandidate (s : State) (id createdAt : Nat) (head : IntegrationHead) (effect : Effect) :
    Except LeaseError (State × MergeCandidate) :=
  match s.candidateOf effect.id with
  | some candidate => .ok (s, candidate)
  | none =>
    match effect.taskAttempt with
    | none => .error .notQueuedEffect
    | some taskAttempt =>
      let row := effectCandidate id createdAt head effect taskAttempt
      (s.insertCandidate row).map fun s => (s, row)

/-- The target's lease is live. -/
def AcceptedTargetHead.live (row : AcceptedTargetHead) (now : Nat) : Bool :=
  row.leaseOwner.isSome && row.leaseExpiresAt.any (now < ·)

/-- An expired lease is taken from its owner, which is queued again. -/
def expire (s : State) (target : Target) (now : Nat) : State :=
  match (s.target? target).bind (·.leaseOwner), (s.target? target).bind (·.leaseExpiresAt) with
  | some owner, some expiresAt =>
    if expiresAt ≤ now then
      let s := s.writeCandidate owner fun row => if row.status = .integrating then { row with status := .queued } else row
      s.writeTarget target fun row => { row with leaseOwner := none, leaseExpiresAt := none }
    else s
  | _, _ => s

/-- `ORDER BY created_at, id`. -/
def MergeCandidate.before (a b : MergeCandidate) : Prop :=
  a.createdAt < b.createdAt ∨ (a.createdAt = b.createdAt ∧ a.id ≤ b.id)

instance : DecidableRel MergeCandidate.before := fun _ _ => inferInstanceAs (Decidable (_ ∨ _))

/-- The first queued candidate of a target. -/
def first (s : State) (target : Target) : Option MergeCandidate :=
  ((s.candidates.filter fun row => row.target = target ∧ row.status = .queued).insertionSort MergeCandidate.before).head?

/-- The lease is granted to the candidate. -/
def grant (s : State) (run repository effectId now ttl : Nat) (candidate : MergeCandidate) (accepted : AcceptedTargetHead) :
    State × IntegrationFence :=
  let generation := accepted.leaseGeneration + 1
  let s := s.writeTarget accepted.target fun row =>
    { row with leaseGeneration := generation, leaseOwner := some candidate.id, leaseExpiresAt := some (now + ttl) }
  let s := s.writeCandidate candidate.id fun row =>
    { row with status := .integrating, expectedHeadSha := some accepted.headSha }
  let s := s.writeHead run repository fun row =>
    { row with
      generation
      leaseOwner := some effectId
      acquiredAt := some now
      renewedAt := some now
      expiresAt := some (now + ttl)
      releasedAt := none }
  let event : LeaseAcquired :=
    { repository, generation
      targetBranch := accepted.targetBranch
      effect := effectId
      baseSha := accepted.headSha }
  ({ s with acquired := s.acquired ++ [event] }, ⟨repository, effectId, generation, accepted.headSha⟩)

/-- `acquire`; without a fence the candidate has to wait. -/
def acquire (s : State) (id createdAt now ttl run repository effectId : Nat) :
    Except LeaseError (State × Option IntegrationFence) :=
  match s.head? run repository, s.effect? effectId with
  | some head, some effect =>
    match ensureCandidate s id createdAt head effect with
    | .error e => .error e
    | .ok (s, candidate) =>
      if effect.run ≠ run ∨ effect.kind ≠ .integrate then .error .notQueuedEffect
      else
        let target : Target := (repository, head.targetBranch)
        let s' := expire s target now
        match s'.target? target with
        | none => .error .targetUnavailable
        | some accepted =>
          if accepted.live now then .ok (s', none)
          else if (first s' target).map (·.id) ≠ some candidate.id then .ok (s', none)
          else
            let (s'', fence) := grant s' run repository effectId now ttl candidate accepted
            .ok (s'', some fence)
  | _, _ => .error .notQueuedEffect

/-! ## Under the lease -/

/-- `_locked`: the rows of a fence that holds the lease. -/
def locked (s : State) (run now : Nat) (fence : IntegrationFence) :
    Option (IntegrationHead × AcceptedTargetHead × MergeCandidate) :=
  match s.head? run fence.repository with
  | none => none
  | some head =>
    match s.target? (fence.repository, head.targetBranch), s.candidateOf fence.effect with
    | some accepted, some candidate =>
      if accepted.leaseOwner = some candidate.id ∧ accepted.leaseGeneration = fence.generation ∧
          accepted.leaseExpiresAt.any (now < ·) ∧ accepted.headSha = fence.baseSha ∧
          candidate.expectedHeadSha = some fence.baseSha ∧ candidate.status = .integrating then
        some (head, accepted, candidate)
      else none
    | _, _ => none

/-- `renew`. -/
def renew (s : State) (run now ttl : Nat) (fence : IntegrationFence) : Except LeaseError State :=
  match locked s run now fence with
  | none => .error .stale
  | some (_, accepted, _) =>
    let s := s.writeTarget accepted.target fun row => { row with leaseExpiresAt := some (now + ttl) }
    .ok (s.writeHead run fence.repository fun row => { row with renewedAt := some now, expiresAt := some (now + ttl) })

/-- The lease is taken off the target and the run's head. -/
def dropLease (s : State) (run now : Nat) (fence : IntegrationFence) (target : Target) : State :=
  let s := s.writeTarget target fun row => { row with leaseOwner := none, leaseExpiresAt := none }
  s.writeHead run fence.repository fun row => { row with releasedAt := some now }

/-- `release`: a stale fence has nothing to release. -/
def release (s : State) (run now : Nat) (fence : IntegrationFence) : State :=
  match locked s run now fence with
  | none => s
  | some (_, accepted, candidate) =>
    (dropLease s run now fence accepted.target).writeCandidate candidate.id fun row => { row with status := .queued }

/-- `reject`. -/
def reject (s : State) (run now : Nat) (fence : IntegrationFence) (conflict : Option Conflict) : Except LeaseError State :=
  match locked s run now fence with
  | none => .error .stale
  | some (_, accepted, candidate) =>
    .ok <| (dropLease s run now fence accepted.target).writeCandidate candidate.id fun row =>
      { row with
        status := if conflict.isSome then .conflicted else .rejected
        conflict
        completedAt := some now }

/-- `bind_review`. -/
def bindReview (s : State) (run now : Nat) (fence : IntegrationFence) (reviewIdentity : Nat) : Except LeaseError State :=
  match locked s run now fence with
  | none => .error .stale
  | some (_, _, candidate) => .ok (s.writeCandidate candidate.id fun row => { row with reviewIdentity })

/-- The arguments of `advance`. -/
structure Advancement where
  headSha : Sha
  branch : String
  snapshotArtifact : Nat
  worktreeRoot : String
  gateArtifact : Option Nat
  deriving DecidableEq, Repr

/-- The snapshot is the run's and redacted, and the gates are the run's for the attempt. -/
def authorized (s : State) (run : Nat) (candidate : MergeCandidate) (advancement : Advancement) : Bool :=
  (s.artifact? advancement.snapshotArtifact).any (fun artifact =>
    artifact.run = run ∧ artifact.redactionClassification = .redacted) &&
  (advancement.gateArtifact.bind s.artifact?).any fun gate =>
    gate.run = run ∧ gate.taskAttempt = some candidate.taskAttempt

/-- `advance`. -/
def advance (s : State) (run now : Nat) (fence : IntegrationFence) (advancement : Advancement) : Except LeaseError State :=
  match locked s run now fence with
  | none => .error .stale
  | some (_, accepted, candidate) =>
    if !authorized s run candidate advancement then .error .unauthorized
    else
      let generation := accepted.generation + 1
      let s := s.writeTarget accepted.target fun row =>
        { row with headSha := advancement.headSha, generation, leaseOwner := none, leaseExpiresAt := none }
      let s := s.writeCandidate candidate.id fun row =>
        { row with status := .accepted, acceptedGeneration := some generation, completedAt := some now }
      let s := s.writeHead run fence.repository fun row =>
        { row with
          headSha := advancement.headSha
          branch := advancement.branch
          snapshotArtifact := some advancement.snapshotArtifact
          releasedAt := some now }
      let s := s.writeEffect fence.effect fun effect =>
        { effect with
          integrationCommitted := some
            { headSha := advancement.headSha
              branch := advancement.branch
              worktreeRoot := advancement.worktreeRoot
              snapshotArtifact := advancement.snapshotArtifact
              combinedGateArtifact := advancement.gateArtifact } }
      let event : IntegrationCompleted :=
        { generation
          repository := fence.repository
          targetBranch := accepted.targetBranch
          effect := fence.effect
          baseSha := fence.baseSha
          headSha := advancement.headSha }
      .ok { s with completed := s.completed ++ [event] }

/-! ## Any interleaving -/

inductive Op where
  /-- The effect ledger prepares an effect. -/
  | prepareEffect (effect : Effect)
  /-- The effect ledger records a status. -/
  | recordEffect (id : Nat) (status : EffectStatus)
  | putArtifact (artifact : Artifact)
  | initializeTarget (run repository : Nat) (baseSha : Sha) (branch : String)
  | queue (id createdAt run repository effect : Nat) (request : QueueRequest)
  | acquire (id createdAt now ttl run repository effect : Nat)
  | renew (run now ttl : Nat) (fence : IntegrationFence)
  | release (run now : Nat) (fence : IntegrationFence)
  | reject (run now : Nat) (fence : IntegrationFence) (conflict : Option Conflict)
  | bindReview (run now : Nat) (fence : IntegrationFence) (reviewIdentity : Nat)
  | advance (run now : Nat) (fence : IntegrationFence) (advancement : Advancement)
  deriving DecidableEq, Repr

/-- Effects, artifacts and targets, as other code writes them. -/
def Op.ofLedger : Op → Bool
  | .prepareEffect _ | .recordEffect _ _ | .putArtifact _ | .initializeTarget _ _ _ _ => true
  | _ => false

/-- One committed transaction. A transaction that raises changes nothing. -/
def step (s : State) : Op → Option State
  | .prepareEffect effect =>
    if (s.effect? effect.id).isSome then none
    else some { s with effects := s.effects ++ [{ effect with status := .prepared, result := false, integrationCommitted := none }] }
  | .recordEffect id status => some (s.writeEffect id fun effect => { effect with status })
  | .putArtifact artifact =>
    if (s.artifact? artifact.id).isSome then none else some { s with artifacts := s.artifacts ++ [artifact] }
  | .initializeTarget run repository baseSha branch => (initializeTarget s run repository baseSha branch).toOption
  | .queue id createdAt run repository effect request => (queue s id createdAt run repository effect request).toOption
  | .acquire id createdAt now ttl run repository effect =>
    (acquire s id createdAt now ttl run repository effect).toOption.map (·.1)
  | .renew run now ttl fence => (renew s run now ttl fence).toOption
  | .release run now fence => some (release s run now fence)
  | .reject run now fence conflict => (reject s run now fence conflict).toOption
  | .bindReview run now fence reviewIdentity => (bindReview s run now fence reviewIdentity).toOption
  | .advance run now fence advancement => (advance s run now fence advancement).toOption

abbrev Reach : State → Prop := Steps.Reach step {}

end Jarvis.Integration
