/-
  Jarvis.Repositories.Composition — the binding of a run, computed again on every claim
  (`runtime/composition.py`: `RealComposition.build`, up to `freeze_binding`).

  A build reads what does not change while the run lives (`Composition`: the private
  configuration, the workflow, the team selection and the revisions it names) and what other
  runs and operators change meanwhile (`Live`: the clock, the slot leases, the health reports,
  the vetoes and the project's history). Of the second only the choice of the worker depends.

  `binding_stable_iff`: a later build computes the frozen binding exactly when the frozen worker
  is still the one the pool would give the run now. The run's own lease counts as load, so with
  two idle workers the run loses its binding by using it (`binding_changes_with_load`).
-/
import Jarvis.Repositories.Scheduling
import Jarvis.Repositories.Bindings
import Jarvis.Workflows.Validation

namespace Jarvis.Repositories

open Steps
open Workflows (WorkflowSpec AdapterKind effectivePolicy)

/-- `WorkerSpec`, as the composition reads it. -/
structure WorkerSpec where
  adapterKind : AdapterKind := .openhandsSshV1
  capabilities : List String
  maxConcurrency : Nat := 1
  physicalResourceId : Option String := none
  permittedProjectIds : List Nat := []
  executionProfileRevisionIds : List Nat := []
  deriving DecidableEq, Repr

/-- `ConfigurationRevisionModel` of a worker. -/
structure WorkerRevision where
  configurationId : Nat
  spec : WorkerSpec
  deriving DecidableEq, Repr

/-- `TeamMemberSpec`. -/
structure TeamMember where
  mayExecute : Bool := true
  workerPoolRevisionIds : List Nat
  deriving DecidableEq, Repr

/-- `FixedTeamSelection`. -/
structure TeamSelection where
  members : List TeamMember
  eligibleWorkerRevisionIds : List Nat
  deriving DecidableEq, Repr

/-- What a run's builds have in common. -/
structure Composition where
  settings : Settings
  spec : WorkflowSpec
  /-- The revisions of the workflow's snapshot; `none` for one that is not a worker's. -/
  snapshot : List (Nat × Option WorkerSpec)
  team : Option TeamSelection
  revisions : List (Nat × WorkerRevision)
  /-- `health_freshness_seconds` of the worker pools. -/
  pools : List (Nat × Nat)
  projectType : ProjectType := .python
  executionProfiles : List Nat := []

/-- `WorkerHealthModel`. -/
structure Health where
  status : Option String
  observedAt : Int
  deriving DecidableEq, Repr

/-- What a build reads of the moment. -/
structure Live where
  now : Int
  /-- Enabled and not archived, for each configuration. -/
  configurations : List (Nat × Bool)
  /-- The slot leases: their resource, and whether they are released. -/
  leases : List (String × Bool)
  health : List (Nat × Health)
  history : History := {}
  deriving DecidableEq

/-! ## The worker -/

/-- The pool the run's team was frozen with. -/
def Composition.pool (c : Composition) : List Nat := (c.team.map TeamSelection.eligibleWorkerRevisionIds).getD []

def healthFreshness (c : Composition) : Nat :=
  let members := ((c.team.map TeamSelection.members).getD []).filter TeamMember.mayExecute
  ((members.flatMap TeamMember.workerPoolRevisionIds).filterMap fun pool => c.pools.lookup pool).foldl min 60

def resourceId (revision : WorkerRevision) : String :=
  revision.spec.physicalResourceId.getD (toString revision.configurationId)

def slotsInUse (live : Live) (resource : String) : Nat :=
  live.leases.countP fun lease => lease.1 = resource && !lease.2

/-- The row of an eligible revision, with its load and health of the moment. -/
def candidate (c : Composition) (demo : Bool) (live : Live) (revisionId : Nat) : Option EligibleWorker := do
  let revision ← c.revisions.lookup revisionId
  let enabled ← live.configurations.lookup revision.configurationId
  let health := live.health.lookup revisionId
  pure
    { revisionId, enabled
      physicalResourceId := resourceId revision
      capabilities := revision.spec.capabilities
      permittedProjectIds := revision.spec.permittedProjectIds
      executionProfileIds := revision.spec.executionProfileRevisionIds
      capacity := revision.spec.maxConcurrency
      slotsInUse := slotsInUse live (resourceId revision)
      health := (health.bind Health.status).getD (if demo then "healthy" else "unknown")
      observedAt := (health.map Health.observedAt).or (if demo then some live.now else none) }

def candidates (c : Composition) (run : Run) (live : Live) : List EligibleWorker :=
  c.pool.filterMap (candidate c run.demo live)

def assignment (c : Composition) (run : Run) : AssignmentRequest where
  projectId := run.projectId
  requiredCapabilities := ["code", "git"]
  executionProfileIds := c.executionProfiles
  healthFreshness := healthFreshness c

/-- The binding on a worker of the pool. -/
def RepositoryBinding.on (binding : RepositoryBinding) (revisionId : Nat) (deployment : Deployment) : RepositoryBinding :=
  { binding with
    workerRevisionId := revisionId
    project := { binding.project with workspaceRoot := deployment.workspaceRoot ++ "/" ++ binding.project.slug } }

/-- A run with a frozen pool gets its worker from it. -/
def selectBinding (c : Composition) (run : Run) (live : Live) (binding : RepositoryBinding) : Except String RepositoryBinding :=
  if c.pool.isEmpty then .ok binding
  else
    match (selectWorker (assignment c run) (candidates c run live) live.now [] [] true).1 with
    | none => .error "worker pool is waiting for eligible capacity"
    | some selected =>
      match c.settings.workers.lookup selected.revisionId with
      | none => .error "selected worker deployment is not configured"
      | some deployment => .ok (binding.on selected.revisionId deployment)

/-! ## The build -/

def sameMembers (xs ys : List Nat) : Bool := xs.all ys.contains && ys.all xs.contains

/-- The worker's specification: the snapshot's, or with a team the registry's. -/
def workerOf (c : Composition) (revisionId : Nat) : Option WorkerSpec :=
  match c.snapshot.lookup revisionId with
  | some spec => spec
  | none => if c.team.isSome then (c.revisions.lookup revisionId).map WorkerRevision.spec else none

/-- A worker node may run on the bound worker. -/
def permits (c : Composition) (binding : RepositoryBinding) (node : Workflows.WorkflowNode) : Bool :=
  (effectivePolicy c.spec node).workerSelector.isSome &&
    (c.team.isNone || c.pool.contains binding.workerRevisionId)

/-- The checks of the binding against the project, the worker and the workflow. -/
def deploymentOf (c : Composition) (binding : RepositoryBinding) : Except String Deployment := do
  if binding.projectType ≠ c.projectType ∨ !sameMembers binding.executionProfileRevisionIds c.executionProfiles then
    throw "private repository binding does not match approved project execution profiles"
  if binding.projectType ≠ .python ∧ binding.executionProfileRevisionIds.isEmpty then
    throw "web projects require explicit execution profiles"
  if !(binding.combinedCommands.filterMap VerificationCommand.profileRevisionId).all
      binding.executionProfileRevisionIds.contains then
    throw "verification command references an unselected execution profile"
  if !binding.executionProfileRevisionIds.all c.settings.profiles.contains then
    throw "selected execution profile is not installed"
  match c.settings.workers.lookup binding.workerRevisionId, workerOf c binding.workerRevisionId with
  | some deployment, some worker =>
    if worker.adapterKind ≠ .openhandsSshV1 ∨ worker.maxConcurrency ≠ 1 then
      throw "first-test composition requires the exclusive legacy worker"
    if binding.project.workspaceRoot ≠ deployment.workspaceRoot ++ "/" ++ binding.project.slug then
      throw "legacy runner cannot honor the configured workspace"
    if !c.settings.allowedWorkerHosts.contains deployment.hostAlias then
      throw "worker target is not permitted by the repository binding"
    if !(c.spec.nodes.filter (·.type = .worker)).all (permits c binding) then
      throw "workflow worker differs from repository binding"
    return deployment
  | _, _ => throw "immutable worker deployment binding is unavailable"

/-- The identity `build` hands to `freeze_binding`. -/
def identityOf (c : Composition) (run : Run) (binding : RepositoryBinding) (deployment : Deployment)
    (lifecycle : Lifecycle) : BindingIdentity where
  projectId := run.projectId
  workflowVersionId := run.workflowVersionId
  repositoryId := binding.project.repositoryId
  workerRevisionId := binding.workerRevisionId
  bindingDigest := (binding, deployment, c.settings.profiles)
  targetDigest := deployment
  lifecycle := some lifecycle

/-- `RealComposition.build`, up to the binding it freezes. -/
def build (c : Composition) (run : Run) (live : Live) : Except String BindingIdentity := do
  if c.spec.nodes.any (·.type = .githubPublish) then throw "GitHub publication is not supported in real mode"
  let configured ← c.settings.repositoryBinding run.projectId run.workflowVersionId
  let binding ← selectBinding c run live configured
  let deployment ← deploymentOf c binding
  let lifecycle ← acceptedSource live.history run binding
  let target := integrationTargetBranch binding run.id
  if lifecycle.integrationTargetBranch.getD target ≠ target then throw "immutable historical integration target changed"
  return identityOf c run binding deployment lifecycle

/-- A claim of the run: the binding is computed and frozen or compared. -/
def claim (c : Composition) (run : Run) (live : Live) : Except String Run := do
  freezeBinding run (← build c run live)

/-- A claim that raises leaves the run as it was. -/
def step (c : Composition) (run : Run) (live : Live) : Option Run := some ((claim c run live).toOption.getD run)

/-- The worker the pool gives the run at the moment: none of it, or the preferred eligible one. -/
def Gives (c : Composition) (run : Run) (live : Live) (revisionId : Nat) : Prop :=
  c.pool = [] ∨
    ∃ worker, Preferred ((candidates c run live).filter (eligible (assignment c run) live.now [] [] true)) worker ∧
      worker.revisionId = revisionId

/-! ## One revision, one binding -/

variable {c : Composition} {run run₀ : Run} {live : Live}

theorem candidate_revision {demo : Bool} {revisionId : Nat} {worker : EligibleWorker}
    (h : candidate c demo live revisionId = some worker) : worker.revisionId = revisionId := by
  unfold candidate at h
  obtain ⟨revision, -, h⟩ := Option.bind_eq_some_iff.mp h
  obtain ⟨enabled, -, h⟩ := Option.bind_eq_some_iff.mp h
  cases h
  rfl

theorem candidates_oneEach : OneEach (candidates c run live) := by
  intro a ha b hb heq
  obtain ⟨ida, -, ha⟩ := List.mem_filterMap.mp ha
  obtain ⟨idb, -, hb⟩ := List.mem_filterMap.mp hb
  have hid : ida = idb := by rw [← candidate_revision ha, ← candidate_revision hb, heq]
  subst hid
  exact Option.some.inj (ha.symm.trans hb)

/-- The worker of a binding is what the pool gives. -/
theorem selectBinding_gives {configured binding : RepositoryBinding} (h : selectBinding c run live configured = .ok binding) :
    Gives c run live binding.workerRevisionId := by
  unfold selectBinding at h
  split at h
  · rename_i hempty
    exact .inl (List.isEmpty_iff.mp hempty)
  split at h
  · cases h
  rename_i selected hselected
  split at h <;> cases h
  exact .inr ⟨selected, (selectWorker_eq_some candidates_oneEach).mp hselected, rfl⟩

/-- A candidate has the capacity that its specification admits, and the leases of the moment as its load. -/
theorem candidates_frozen (hspecs : ∀ e ∈ c.revisions, 1 ≤ e.2.spec.maxConcurrency ∧ e.2.spec.maxConcurrency ≤ 128)
    (hleases : live.leases.length ≤ 2 ^ 44) : ∀ worker ∈ candidates c run live, Frozen worker := by
  intro worker hworker
  obtain ⟨revisionId, -, h⟩ := List.mem_filterMap.mp hworker
  obtain ⟨revision, hrevision, h⟩ := Option.bind_eq_some_iff.mp h
  obtain ⟨enabled, -, h⟩ := Option.bind_eq_some_iff.mp h
  cases h
  obtain ⟨before, after, heq, -⟩ := List.lookup_eq_some_iff.mp hrevision
  have hbounds := hspecs (revisionId, revision) (by simp [heq])
  exact ⟨hbounds.1, hbounds.2, le_trans List.countP_le_length hleases⟩

/-- With valid specifications no eligible resource is less loaded than the one of the bound worker. -/
theorem selectBinding_least (hspecs : ∀ e ∈ c.revisions, 1 ≤ e.2.spec.maxConcurrency ∧ e.2.spec.maxConcurrency ≤ 128)
    (hleases : live.leases.length ≤ 2 ^ 44) {configured binding : RepositoryBinding} (hpool : c.pool ≠ [])
    (h : selectBinding c run live configured = .ok binding) :
    ∃ worker ∈ candidates c run live, worker.revisionId = binding.workerRevisionId ∧
      ∀ other, Leads ((candidates c run live).filter (eligible (assignment c run) live.now [] [] true)) other →
        worker.ratio ≤ other.ratio := by
  have hfrozen : ∀ worker ∈ candidates c run live, Frozen worker := candidates_frozen hspecs hleases
  obtain hnone | ⟨worker, ⟨hleads, hleast⟩, hrev⟩ := selectBinding_gives h
  · exact absurd hnone hpool
  have hworker := List.mem_of_mem_filter hleads.1
  refine ⟨worker, hworker, hrev, fun other hother => ?_⟩
  exact (hfrozen worker hworker).ratio_le (hfrozen other (List.mem_of_mem_filter hother.1)) (hleast other hother)

/-- Given the same worker, the binding is the same at every moment. -/
theorem selectBinding_of_gives {configured binding : RepositoryBinding} {live' : Live}
    (h : selectBinding c run₀ live configured = .ok binding) (hgives : Gives c run live' binding.workerRevisionId) :
    selectBinding c run live' configured = .ok binding := by
  unfold selectBinding at h ⊢
  split at h
  · rename_i hempty
    rw [if_pos hempty]
    exact h
  rename_i hpool
  rw [if_neg hpool]
  split at h
  · cases h
  rename_i selected _
  split at h
  · cases h
  rename_i deployment hdeployment
  cases h
  obtain hnone | ⟨worker, hworker, hrev⟩ := hgives
  · exact absurd (List.isEmpty_iff.mpr hnone) hpool
  rw [(selectWorker_eq_some candidates_oneEach).mpr hworker]
  have hsame : worker.revisionId = selected.revisionId := hrev
  simp only [hsame, hdeployment]

/-! ## The frozen binding -/

theorem acceptedSource_frozen {history : History} {binding : RepositoryBinding} {frozen : BindingIdentity} {lifecycle : Lifecycle}
    (hb : run.binding = some frozen) (hl : frozen.lifecycle = some lifecycle) :
    acceptedSource history run binding = .ok lifecycle := by
  unfold acceptedSource
  rw [hb]
  show Except.ok (frozen.lifecycle.getD _) = _
  rw [hl]
  rfl

/-- What a build that succeeds has computed. -/
structure Built (c : Composition) (run : Run) (live : Live) (identity : BindingIdentity) (configured binding : RepositoryBinding)
    (deployment : Deployment) (lifecycle : Lifecycle) : Prop where
  publishes : c.spec.nodes.any (·.type = .githubPublish) = false
  configuration : c.settings.repositoryBinding run.projectId run.workflowVersionId = .ok configured
  selected : selectBinding c run live configured = .ok binding
  deployed : deploymentOf c binding = .ok deployment
  resolved : acceptedSource live.history run binding = .ok lifecycle
  target : lifecycle.integrationTargetBranch.getD (integrationTargetBranch binding run.id) = integrationTargetBranch binding run.id
  identity : identityOf c run binding deployment lifecycle = identity

theorem built_of_ok {identity : BindingIdentity} (h : build c run live = .ok identity) :
    ∃ configured binding deployment lifecycle, Built c run live identity configured binding deployment lifecycle := by
  unfold build at h
  split at h
  · cases h
  rename_i hpublishes
  obtain ⟨configured, hconfigured, h⟩ := bind_ok h
  obtain ⟨binding, hselected, h⟩ := bind_ok h
  obtain ⟨deployment, hdeployed, h⟩ := bind_ok h
  obtain ⟨lifecycle, hresolved, h⟩ := bind_ok h
  simp only at h
  split at h
  · cases h
  rename_i htarget
  exact ⟨configured, binding, deployment, lifecycle, by simpa using hpublishes, hconfigured, hselected, hdeployed, hresolved,
    by simpa using htarget, Except.ok.inj h⟩

theorem Built.ok {identity : BindingIdentity} {configured binding : RepositoryBinding} {deployment : Deployment}
    {lifecycle : Lifecycle} (h : Built c run live identity configured binding deployment lifecycle) :
    build c run live = .ok identity := by
  unfold build
  rw [h.publishes]
  simp [h.configuration, h.selected, h.deployed, h.resolved, h.target, ← h.identity, bind, Except.bind, pure, Except.pure]

/-- Until it is bound, a run is what it was; afterwards its binding is one that a build of the
    unbound run computed. -/
structure Tracked (c : Composition) (run₀ run : Run) : Prop where
  same : run = { run₀ with binding := run.binding }
  built : ∀ frozen, run.binding = some frozen → ∃ live, build c run₀ live = .ok frozen

theorem frozen_lifecycle {identity : BindingIdentity} (h : build c run live = .ok identity) :
    ∃ lifecycle, identity.lifecycle = some lifecycle := by
  obtain ⟨_, _, _, lifecycle, hb⟩ := built_of_ok h
  exact ⟨lifecycle, by rw [← hb.identity]; rfl⟩

/-- A bound run stays bound as it is. -/
theorem claim_bound {t : Run} {frozen : BindingIdentity} (hrun : ∃ live, build c run₀ live = .ok frozen)
    (hb : run.binding = some frozen) (h : claim c run live = .ok t) : t = run := by
  obtain ⟨identity, -, h⟩ := bind_ok h
  obtain ⟨live₀, hlive₀⟩ := hrun
  obtain ⟨lifecycle, hlifecycle⟩ := frozen_lifecycle hlive₀
  unfold freezeBinding at h
  split at h
  · cases h
  split at h
  · cases h
  rw [hb] at h
  simp only at h
  split at h
  · cases h
    rfl
  · rw [if_neg (by simp [hlifecycle])] at h
    cases h

theorem claim_unbound {t : Run} (hb : run.binding = none) (h : claim c run live = .ok t) :
    ∃ identity, build c run live = .ok identity ∧ t = { run with binding := some identity } := by
  obtain ⟨identity, hbuild, h⟩ := bind_ok h
  unfold freezeBinding at h
  split at h
  · cases h
  split at h
  · cases h
  rw [hb] at h
  cases h
  exact ⟨identity, hbuild, rfl⟩

theorem tracked (h₀ : run₀.binding = none) (h : Reach (step c) run₀ run) : Tracked c run₀ run := by
  refine h.invariant (Tracked c run₀) ⟨rfl, fun frozen hb => ?_⟩ fun s live t hs _ hstep => ?_
  · rw [h₀] at hb
    cases hb
  · obtain rfl : (claim c s live).toOption.getD s = t := Option.some.inj hstep
    cases hclaim : claim c s live with
    | error _ => exact hs
    | ok t =>
      show Tracked c run₀ t
      cases hb : s.binding with
      | none =>
        have hsame : s = run₀ := by
          rw [hs.same, hb, ← h₀]
        subst hsame
        obtain ⟨identity, hbuild, rfl⟩ := claim_unbound hb hclaim
        refine ⟨rfl, fun frozen hf => ⟨live, ?_⟩⟩
        cases hf
        exact hbuild
      | some frozen =>
        obtain rfl := claim_bound (hs.built frozen hb) hb hclaim
        exact hs

/-- A later build computes the binding that was frozen, and the comparison passes, exactly when
    the pool would give the run its worker again. -/
theorem binding_stable_iff (h₀ : run₀.binding = none) (h : Reach (step c) run₀ run) {frozen : BindingIdentity}
    (hb : run.binding = some frozen) (live : Live) :
    (build c run live = .ok frozen ∧ claim c run live = .ok run) ↔ Gives c run live frozen.workerRevisionId := by
  have ht := tracked h₀ h
  obtain ⟨live₀, hlive₀⟩ := ht.built frozen hb
  obtain ⟨configured, binding, deployment, lifecycle, hbuilt⟩ := built_of_ok hlive₀
  have hid : run.id = run₀.id := by rw [ht.same]
  have hproject : run.projectId = run₀.projectId := by rw [ht.same]
  have hversion : run.workflowVersionId = run₀.workflowVersionId := by rw [ht.same]
  constructor
  · rintro ⟨hbuild, -⟩
    obtain ⟨_, binding', _, _, hlater⟩ := built_of_ok hbuild
    rw [← hlater.identity]
    exact selectBinding_gives hlater.selected
  · intro hgives
    have hworker : frozen.workerRevisionId = binding.workerRevisionId := by rw [← hbuilt.identity]; rfl
    have hlater : Built c run live frozen configured binding deployment lifecycle := by
      refine ⟨hbuilt.publishes, ?_, selectBinding_of_gives hbuilt.selected (hworker ▸ hgives), hbuilt.deployed,
        acceptedSource_frozen hb (by rw [← hbuilt.identity]; rfl), by rw [hid]; exact hbuilt.target, ?_⟩
      · rw [hproject, hversion]
        exact hbuilt.configuration
      · rw [← hbuilt.identity]
        unfold identityOf
        rw [hproject, hversion]
    refine ⟨hlater.ok, ?_⟩
    unfold claim
    rw [hlater.ok]
    show freezeBinding run frozen = .ok run
    have hfrozen : run.projectId = frozen.projectId ∧ run.workflowVersionId = frozen.workflowVersionId := by
      rw [← hlater.identity]
      exact ⟨rfl, rfl⟩
    unfold freezeBinding
    rw [if_neg (by simp [hfrozen.1]), if_neg (by simp [hfrozen.2]), hb]
    simp

/-! ## Two workers -/

def lone : WorkflowSpec := Workflows.oneWorker { workerSelector := some ⟨1, []⟩ }

def site : RepositoryBinding where
  workerRevisionId := 1
  project :=
    { projectId := 5, repositoryId := 6, slug := "site", workspaceRoot := "/work/site", branch := "main", baseSha := 0 }
  combinedCommands := [⟨["pytest"], none⟩]

/-- A pool of two exclusive workers. -/
def twoWorkers : Composition where
  settings :=
    { workers := [(1, ⟨"alpha", "/work"⟩), (2, ⟨"beta", "/work"⟩)]
      allowedWorkerHosts := ["alpha", "beta"]
      workflows := [(7, site)] }
  spec := lone
  snapshot := []
  team := some ⟨[{ workerPoolRevisionIds := [3] }], [1, 2]⟩
  revisions := [(1, ⟨11, { capabilities := ["code", "git"] }⟩), (2, ⟨12, { capabilities := ["code", "git"] }⟩)]
  pools := [(3, 60)]

def newRun : Run where
  id := 1
  projectId := 5
  workflowVersionId := 7

/-- Both workers are healthy; `leases` are those of the moment. -/
def moment (now : Int) (leases : List (String × Bool)) : Live where
  now
  configurations := [(11, true), (12, true)]
  leases
  health := [(1, ⟨some "healthy", now⟩), (2, ⟨some "healthy", now⟩)]

/-- What the first claim freezes while both workers are idle. -/
def frozenSite : BindingIdentity where
  projectId := 5
  workflowVersionId := 7
  repositoryId := 6
  workerRevisionId := 1
  bindingDigest := (site, ⟨"alpha", "/work"⟩, [])
  targetDigest := ⟨"alpha", "/work"⟩
  lifecycle := some (seedSource 1 site)

def boundRun : Run := { newRun with binding := some frozenSite }

theorem bound_reach : Reach (step twoWorkers) newRun boundRun := by
  have hclaim : claim twoWorkers newRun (moment 0 []) = .ok boundRun := by decide +kernel
  exact .step (moment 0 []) .init trivial (by rw [step, hclaim]; rfl)

/-- With as much load on the other worker, the run keeps its own. -/
theorem binding_stable_iff_evenLoad :
    Gives twoWorkers boundRun (moment 30 [("11", false), ("12", false)]) 1 :=
  (@binding_stable_iff _ _ _ rfl bound_reach frozenSite rfl _).mp ⟨by decide +kernel, by decide +kernel⟩

/-- The run's own lease makes the other worker the less loaded one: claimed again, the run is
    refused its binding. -/
theorem binding_changes_with_load :
    ∃ run frozen, Reach (step twoWorkers) newRun run ∧ run.binding = some frozen ∧
      build twoWorkers run (moment 30 [("11", false)]) ≠ .ok frozen ∧
      claim twoWorkers run (moment 30 [("11", false)]) =
        .error "immutable repository binding changed; reconciliation required" :=
  ⟨boundRun, frozenSite, bound_reach, rfl, by decide +kernel, by decide +kernel⟩

end Jarvis.Repositories
