/-
  Jarvis.Repositories.AcceptedHeads — what a new run of a project starts from, against what was
  accepted on its target (`accepted_source` beside `IntegrationLeases`).

  The runs of a project build, freeze their bindings, integrate, complete, fail and block in any
  order; between the build of a run and its freeze anything may happen. `accepted_source` takes
  the head of the run that completed last, while the accepted head is moved by every integration,
  whichever run makes it and however that run ends.

  `base_is_accepted_head`: the two agree when the completed run has seen the last integration of
  the target, and if no commit is accepted twice, only then. Otherwise the new run starts from
  files that were accepted over (`starts_behind_accepted_head`).
-/
import Jarvis.Integration.Accepts
import Jarvis.Repositories.Composition

namespace Jarvis.Repositories

open Steps
open Integration (Target Recorded HeadAt seenAfter)
open Jarvis.Runtime (RunStatus)

def RepositoryBinding.target (binding : RepositoryBinding) : Target := (binding.project.repositoryId, binding.project.branch)

/-- The binding that an identity is of. -/
def BindingIdentity.binding (identity : BindingIdentity) : RepositoryBinding := identity.bindingDigest.1

/-- The runs of a project, with what they integrate. `resolved` are the identities that builds of
    unbound runs have computed, `seen` is kept beside the heads (`Integration.seenAfter`). -/
structure Sys where
  integration : Integration.State := {}
  runs : List Run := []
  receipts : List WorkerReceipt := []
  resolved : List (Nat × BindingIdentity) := []
  seen : List ((Nat × Nat) × Nat) := []

namespace Sys

variable (s : Sys)

def history : History where
  runs := s.runs
  heads := s.integration.heads
  receipts := s.receipts

def run? (id : Nat) : Option Run := s.runs.find? (·.id = id)

/-- The build of a run that is not bound yet. -/
def resolve (id : Nat) (c : Composition) (live : Live) : Option BindingIdentity := do
  let run ← s.run? id
  let identity ← (build c run { live with history := s.history }).toOption
  if run.binding = none ∧ identity.binding.basePolicy = .current then some identity else none

/-- A run initializes the target it was bound to, from the base it was bound with. -/
def allows : Integration.Op → Bool
  | .initializeTarget run repository baseSha branch =>
    s.runs.any fun row =>
      row.id = run &&
        row.binding.any fun frozen =>
          frozen.repositoryId = repository && integrationTargetBranch frozen.binding run = branch &&
            frozen.lifecycle.any fun lifecycle => lifecycle.integrationBaseSha = baseSha
  | _ => true

/-- The head recorded as accepted for a binding's target; its seed when there is none. -/
def acceptedHead (binding : RepositoryBinding) : Integration.Sha :=
  ((s.integration.target? binding.target).map (·.headSha)).getD binding.project.baseSha

/-- The generation of the target that a new run's source is of. -/
def sourceGeneration (id : Nat) (binding : RepositoryBinding) : Option Nat :=
  match s.history.previous id binding with
  | none => some 0
  | some previous =>
    (s.history.head? previous.id binding.project.repositoryId).bind fun head =>
      if head.target = binding.target then s.seen.lookup head.key else none

end Sys

inductive Op where
  | start (id workflowVersionId : Nat)
  | build (id : Nat) (c : Composition) (live : Live)
  | freeze (id : Nat) (identity : BindingIdentity)
  | integrate (op : Integration.Op)
  | receive (receipt : WorkerReceipt)
  | setStatus (id : Nat) (status : RunStatus) (completedAt : Option Nat)

/-- One committed transaction of a run of the project. -/
def sysStep (project : Nat) (s : Sys) : Op → Option Sys
  | .start id workflowVersionId =>
    if (s.run? id).isSome then none
    else some { s with runs := s.runs ++ [{ id, projectId := project, workflowVersionId }] }
  | .build id c live => (s.resolve id c live).map fun identity => { s with resolved := (id, identity) :: s.resolved }
  | .freeze id identity => do
    guard ((id, identity) ∈ s.resolved)
    let run ← s.run? id
    let frozen ← (freezeBinding run identity).toOption
    some { s with runs := Keyed.replace (·.id) id (fun _ => frozen) s.runs }
  | .integrate op =>
    if s.allows op then
      (Integration.step s.integration op).map fun t => { s with integration := t, seen := seenAfter s.integration t op s.seen }
    else none
  | .receive receipt => some { s with receipts := receipt :: s.receipts }
  | .setStatus id status completedAt =>
    some { s with runs := Keyed.replace (·.id) id (fun run => { run with status, completedAt }) s.runs }

/-- A new run's source is of the present generation of its target: the run that completed last has
    seen the last integration, or none was made. `seed` is what the targets are configured with. -/
def Timely (seed : Target → Integration.Sha) (s : Sys) (id : Nat) (binding : RepositoryBinding) : Prop :=
  binding.project.baseSha = seed binding.target ∧
    s.sourceGeneration id binding = some (s.integration.generation binding.target)

instance (seed : Target → Integration.Sha) (s : Sys) (id : Nat) (binding : RepositoryBinding) : Decidable (Timely seed s id binding) :=
  inferInstanceAs (Decidable (_ ∧ _))

/-- Every build of a new run is timely. -/
def AllTimely (seed : Target → Integration.Sha) (s : Sys) : Op → Prop
  | .build id c live => ∀ identity ∈ s.resolve id c live, Timely seed s id identity.binding
  | _ => True

instance (seed : Target → Integration.Sha) (s : Sys) : (op : Op) → Decidable (AllTimely seed s op)
  | .build id c live => inferInstanceAs (Decidable (∀ identity ∈ s.resolve id c live, _))
  | .start _ _ | .freeze _ _ | .integrate _ | .receive _ | .setStatus _ _ _ => inferInstanceAs (Decidable True)

/-! ## The source of a new run -/

variable {seed : Target → Integration.Sha} {project : Nat} {s t : Sys} {run : Run} {binding : RepositoryBinding} {lifecycle : Lifecycle}

/-- A new run starts from its seed, or from the head of the run that completed last. -/
theorem acceptedSource_base {h : History} (hnew : run.binding = none) (hpolicy : binding.basePolicy = .current)
    (hsource : acceptedSource h run binding = .ok lifecycle) :
    (h.previous run.id binding = none ∧ lifecycle.integrationBaseSha = binding.project.baseSha) ∨
      ∃ previous head, h.previous run.id binding = some previous ∧
        h.head? previous.id binding.project.repositoryId = some head ∧ lifecycle.integrationBaseSha = head.headSha := by
  unfold acceptedSource at hsource
  rw [hnew] at hsource
  simp only at hsource
  split at hsource
  · rename_i hnone
    cases hsource
    exact .inl ⟨hnone, rfl⟩
  · rename_i previous hprevious
    split at hsource
    · rename_i head receipt hhead _
      split at hsource
      · cases hsource
      · rw [hpolicy] at hsource
        cases hsource
        exact .inr ⟨previous, head, hprevious, hhead, rfl⟩
    · cases hsource

/-- The accepted head is the one of the target's generation. -/
theorem accepted_at (h : Recorded seed s.integration s.seen) (hseed : binding.project.baseSha = seed binding.target) :
    HeadAt seed s.integration binding.target (s.integration.generation binding.target) (s.acceptedHead binding) := by
  unfold Sys.acceptedHead Integration.State.generation
  cases hfound : s.integration.target? binding.target with
  | none => exact congrArg some hseed.symm
  | some row =>
    obtain ⟨hrow, htarget⟩ := Integration.target?_spec hfound
    rw [← htarget]
    exact h.target row hrow

/-- A new run's base is the one of its source's generation. -/
theorem base_at (h : Recorded seed s.integration s.seen) (hseed : binding.project.baseSha = seed binding.target)
    (hnew : run.binding = none) (hpolicy : binding.basePolicy = .current)
    (hsource : acceptedSource s.history run binding = .ok lifecycle) {generation : Nat}
    (hgeneration : s.sourceGeneration run.id binding = some generation) :
    HeadAt seed s.integration binding.target generation lifecycle.integrationBaseSha := by
  unfold Sys.sourceGeneration at hgeneration
  rcases acceptedSource_base hnew hpolicy hsource with ⟨hnone, hbase⟩ | ⟨previous, head, hprevious, hhead, hbase⟩
  · rw [hnone] at hgeneration
    cases hgeneration
    exact congrArg some (hbase.trans hseed).symm
  · simp only [hprevious, hhead, Option.bind_some] at hgeneration
    split at hgeneration
    · rename_i htarget
      obtain ⟨seen, hseen, hat⟩ := h.head head (List.mem_of_find?_eq_some hhead)
      obtain rfl : seen = generation := Option.some.inj (hseen.symm.trans hgeneration)
      rw [← htarget, hbase]
      exact hat
    · cases hgeneration

theorem Timely.base (htimely : Timely seed s run.id binding) (h : Recorded seed s.integration s.seen)
    (hnew : run.binding = none) (hpolicy : binding.basePolicy = .current)
    (hsource : acceptedSource s.history run binding = .ok lifecycle) :
    lifecycle.integrationBaseSha = s.acceptedHead binding :=
  Option.some.inj ((base_at h htimely.1 hnew hpolicy hsource htimely.2).symm.trans (accepted_at h htimely.1))

/-! ## Runs whose builds are timely -/

/-- An identity is of a run under the current policy, and started from its seed if its target has
    no head yet. -/
structure Sourced (seed : Target → Integration.Sha) (s : Sys) (identity : BindingIdentity) : Prop where
  repository : identity.repositoryId = identity.binding.project.repositoryId
  policy : identity.binding.basePolicy = .current
  base : ∃ lifecycle, identity.lifecycle = some lifecycle ∧
    (s.integration.target? identity.binding.target = none → lifecycle.integrationBaseSha = seed identity.binding.target)

structure Inv (seed : Target → Integration.Sha) (s : Sys) : Prop where
  recorded : Recorded seed s.integration s.seen
  resolved : ∀ id identity, (id, identity) ∈ s.resolved → Sourced seed s identity
  bound : ∀ run ∈ s.runs, ∀ frozen, run.binding = some frozen → (run.id, frozen) ∈ s.resolved

theorem inv_empty : Inv seed {} where
  recorded := Integration.recorded_empty
  resolved _ _ h := nomatch h
  bound _ h := nomatch h

/-- What a build of an unbound run has computed. -/
theorem resolve_spec {id : Nat} {c : Composition} {live : Live} {identity : BindingIdentity}
    (h : s.resolve id c live = some identity) :
    ∃ run lifecycle, s.run? id = some run ∧ run.id = id ∧ run.binding = none ∧ identity.binding.basePolicy = .current ∧
      identity.repositoryId = identity.binding.project.repositoryId ∧ identity.lifecycle = some lifecycle ∧
      acceptedSource s.history run identity.binding = .ok lifecycle := by
  unfold Sys.resolve at h
  obtain ⟨run, hrun, h⟩ := Option.bind_eq_some_iff.mp h
  obtain ⟨identity', hbuild, h⟩ := Option.bind_eq_some_iff.mp h
  split at h
  · rename_i hnew
    cases h
    obtain ⟨configured, binding, deployment, lifecycle, hbuilt⟩ := built_of_ok (toOption_ok hbuild)
    have hsource := hbuilt.resolved
    have hid := hbuilt.identity
    subst hid
    exact ⟨run, lifecycle, hrun, by simpa using List.find?_some hrun, hnew.1, hnew.2, rfl, rfl, hsource⟩
  · cases h

/-- A run that is bound stays bound as it is. -/
theorem freezeBinding_frozen {identity : BindingIdentity} {frozen : Run} (h : freezeBinding run identity = .ok frozen) :
    frozen.id = run.id ∧ (frozen.binding = run.binding ∨ frozen.binding = some identity) := by
  unfold freezeBinding at h
  split at h
  · cases h
  split at h
  · cases h
  split at h
  · cases h
    exact ⟨rfl, .inr rfl⟩
  · split at h
    · cases h
      exact ⟨rfl, .inl rfl⟩
    · split at h <;> cases h
      exact ⟨rfl, .inr rfl⟩

theorem Sourced.of_integration {identity : BindingIdentity} (h : Sourced seed s identity)
    (hkept : t.integration.target? identity.binding.target = none → s.integration.target? identity.binding.target = none) :
    Sourced seed t identity := by
  obtain ⟨lifecycle, hlifecycle, hbase⟩ := h.base
  exact ⟨h.repository, h.policy, lifecycle, hlifecycle, fun hnone => hbase (hkept hnone)⟩

/-- A target that is there stays. -/
theorem target_stays {op : Integration.Op} {u v : Integration.State} (h : Integration.Chained u.toQueue)
    (hs : Integration.step u op = some v) {target : Target} (hnone : v.target? target = none) : u.target? target = none := by
  cases hfound : u.target? target with
  | none => rfl
  | some row =>
    obtain ⟨hrow, htarget⟩ := Integration.target?_spec hfound
    obtain ⟨row', hrow', htarget'⟩ : ∃ row' ∈ v.targets, row'.target = row.target := by
      rcases Integration.step_cases h hs with hmoves | ⟨_, _, _, _, -, hadvance⟩
      · obtain ⟨row', hrow', htarget', -⟩ := hmoves.heads hrow
        exact ⟨row', hrow', htarget'⟩
      · obtain ⟨_, accepted, _, hlocked, hqueue⟩ := Integration.advance_spec hadvance
        rw [congrArg Integration.Queue.targets hqueue]
        exact h.mem_writeTargets (Integration.locked_spec hlocked).targetRow (by exact fun _ => rfl) hrow
    exact absurd (decide_eq_true (htarget'.trans htarget)) (List.find?_eq_none.mp hnone row' hrow')

/-- What a run initializes its target with, where it has none. -/
theorem Inv.initial (h : Inv seed s) {id repository : Nat} {baseSha : Integration.Sha} {branch : String}
    (hallowed : s.allows (.initializeTarget id repository baseSha branch)) (hnone : s.integration.target? (repository, branch) = none) :
    baseSha = seed (repository, branch) := by
  obtain ⟨run, hrun, hmatch⟩ := List.any_eq_true.mp hallowed
  obtain ⟨hid, hmatch⟩ := Bool.and_eq_true_iff.mp hmatch
  obtain ⟨frozen, hfrozen, hmatch⟩ := (Option.any_eq_true _ _).mp hmatch
  simp only [Bool.and_eq_true, decide_eq_true_eq] at hid hmatch
  obtain ⟨⟨hrepository, hbranch⟩, hbase⟩ := hmatch
  obtain ⟨lifecycle, hlifecycle, hbase⟩ := (Option.any_eq_true _ _).mp hbase
  have hsourced := h.resolved _ _ (h.bound run hrun frozen hfrozen)
  have htarget : frozen.binding.target = (repository, branch) := by
    unfold integrationTargetBranch at hbranch
    rw [hsourced.policy] at hbranch
    exact Prod.ext (hsourced.repository.symm.trans hrepository) hbranch
  obtain ⟨lifecycle', hlifecycle', hseed⟩ := hsourced.base
  rw [hlifecycle'] at hlifecycle
  obtain rfl := Option.some.inj hlifecycle
  rw [← of_decide_eq_true hbase, hseed (htarget ▸ hnone), htarget]

theorem Inv.of_runs (h : Inv seed s) {runs : List Run} {receipts : List WorkerReceipt}
    (hbound : ∀ run ∈ runs, ∀ frozen, run.binding = some frozen → (run.id, frozen) ∈ s.resolved) :
    Inv seed { s with runs, receipts } where
  recorded := h.recorded
  resolved id identity hmem := (h.resolved id identity hmem).of_integration fun hnone => hnone
  bound := hbound

theorem Inv.step {op : Op} (h : Inv seed s) (hok : AllTimely seed s op) (hs : sysStep project s op = some t) : Inv seed t := by
  cases op with
  | start id workflowVersionId =>
    simp only [sysStep] at hs
    split at hs <;> cases hs
    refine h.of_runs fun run hrun frozen hfrozen => ?_
    rcases List.mem_append.mp hrun with hold | hnew
    · exact h.bound run hold frozen hfrozen
    · rw [List.mem_singleton.mp hnew] at hfrozen
      cases hfrozen
  | build id c live =>
    obtain ⟨identity, hresolve, rfl⟩ := Option.map_eq_some_iff.mp hs
    obtain ⟨run, lifecycle, -, hid, hnew, hpolicy, hrepository, hlifecycle, hsource⟩ := resolve_spec hresolve
    have htimely : Timely seed s run.id identity.binding := hid ▸ hok identity hresolve
    refine ⟨h.recorded, fun other identity' hmem => ?_, fun run hrun frozen hfrozen => List.mem_cons_of_mem _ (h.bound run hrun frozen hfrozen)⟩
    rcases List.mem_cons.mp hmem with heq | hold
    · cases heq
      refine ⟨hrepository, hpolicy, lifecycle, hlifecycle, fun hnone => ?_⟩
      rw [htimely.base h.recorded hnew hpolicy hsource, ← htimely.1]
      unfold Sys.acceptedHead
      rw [show s.integration.target? identity.binding.target = none from hnone]
      rfl
    · exact (h.resolved other identity' hold).of_integration fun hnone => hnone
  | freeze id identity =>
    simp only [sysStep, Option.bind_eq_bind, Option.guard_eq_some', Option.bind_eq_some_iff] at hs
    obtain ⟨-, hresolved, run, hrun, frozen, hfreeze, hs⟩ := hs
    cases hs
    obtain ⟨hid, hbinding⟩ := freezeBinding_frozen (toOption_ok hfreeze)
    have hrunId : run.id = id := by simpa using List.find?_some hrun
    refine h.of_runs fun row hrow frozen' hfrozen' => ?_
    rcases Keyed.mem_replace.mp hrow with ⟨hold, -⟩ | ⟨old, -, -, rfl⟩
    · exact h.bound row hold frozen' hfrozen'
    · rcases hbinding with hsame | hsame
      · rw [hid]
        exact h.bound run (List.mem_of_find?_eq_some hrun) frozen' (hsame.symm.trans hfrozen')
      · rw [hsame] at hfrozen'
        cases hfrozen'
        rw [hid, hrunId]
        exact hresolved
  | integrate op =>
    simp only [sysStep] at hs
    split at hs
    · rename_i hallowed
      obtain ⟨state, hstate, rfl⟩ := Option.map_eq_some_iff.mp hs
      refine ⟨h.recorded.step hstate ?_, fun id identity hmem => ?_, h.bound⟩
      · rintro id repository baseSha branch rfl hnone
        exact h.initial hallowed hnone
      · exact (h.resolved id identity hmem).of_integration fun hnone => target_stays h.recorded.chained hstate hnone
    · cases hs
  | receive receipt =>
    cases hs
    exact h.of_runs h.bound
  | setStatus id status completedAt =>
    cases hs
    refine h.of_runs fun row hrow frozen hfrozen => ?_
    rcases Keyed.mem_replace.mp hrow with ⟨hold, -⟩ | ⟨old, hold, -, rfl⟩
    · exact h.bound row hold frozen hfrozen
    · exact h.bound old hold frozen hfrozen

theorem reach_inv (h : ReachIf (sysStep project) (AllTimely seed) {} s) : Inv seed s :=
  h.invariant (Inv seed) inv_empty fun _ _ _ hi hok hs => hi.step hok hs

/-- When all builds were timely, and the next one of a new run is, that run's base is the head
    accepted on its target. With a source that is not, and no commit accepted twice, it is not. -/
theorem base_is_accepted_head (h : ReachIf (sysStep project) (AllTimely seed) {} s) (hnew : run.binding = none)
    (hpolicy : binding.basePolicy = .current) (hsource : acceptedSource s.history run binding = .ok lifecycle) :
    (Timely seed s run.id binding → lifecycle.integrationBaseSha = s.acceptedHead binding) ∧
      ∀ generation, binding.project.baseSha = seed binding.target → s.sourceGeneration run.id binding = some generation →
        (s.integration.accepts (seed binding.target) binding.target).Nodup →
        lifecycle.integrationBaseSha = s.acceptedHead binding → Timely seed s run.id binding := by
  have hrecorded := (reach_inv h).recorded
  refine ⟨fun htimely => htimely.base hrecorded hnew hpolicy hsource, fun generation hseed hgeneration hnodup heq => ⟨hseed, ?_⟩⟩
  have hbase := base_at hrecorded hseed hnew hpolicy hsource hgeneration
  have haccepted := accepted_at hrecorded hseed
  rw [heq] at hbase
  obtain ⟨hlt, -⟩ := List.getElem?_eq_some_iff.mp hbase
  rw [hgeneration, (List.getElem?_inj hlt hnodup).mp (hbase.trans haccepted.symm)]

/-! ## Three runs -/

/-- What the build of a run freezes that starts from the seed. -/
def seedIdentity (run : Nat) : BindingIdentity := { frozenSite with lifecycle := some (seedSource run site) }

/-- A run is built and bound. -/
def bindRun (run : Nat) : List Op := [.start run 7, .build run twoWorkers (moment 0 []), .freeze run (seedIdentity run)]

/-- The run's effect and artifacts, its target and its candidate. -/
def prepareRun (run : Nat) : List Op :=
  [.integrate (.putArtifact ⟨2 * run, run, none, .redacted⟩), .integrate (.putArtifact ⟨2 * run + 1, run, some run, .owner⟩),
    .integrate (.prepareEffect { id := run, run, taskAttempt := some run, kind := .integrate }),
    .integrate (.initializeTarget run 6 0 "main"), .integrate (.queue run run run 6 run ⟨run, 0, 200 + run, 0, 0, 0, 0⟩)]

/-- The run's candidate is integrated. -/
def integrateRun (run generation base head : Nat) : List Op :=
  [.integrate (.acquire 0 0 (10 * run) 30 run 6 run),
    .integrate (.advance run (10 * run + 5) ⟨6, run, generation, base⟩ ⟨head, "jarvis", 2 * run, "/work/site", some (2 * run + 1)⟩)]

/-- The run completes, with the receipt of its worker. -/
def completeRun (run now : Nat) : List Op :=
  [.receive ⟨run, 5, 6, 1, run, true, "main", run, 300 + run⟩, .setStatus run .completed (some now)]

def oneAccepted : List Op := bindRun 1 ++ prepareRun 1 ++ integrateRun 1 1 0 101 ++ completeRun 1 50

/-- The second run is integrated after the first and blocks, then the first completes. -/
def acceptedOver : List Op :=
  bindRun 1 ++ bindRun 2 ++ prepareRun 1 ++ prepareRun 2 ++ integrateRun 1 1 0 101 ++ integrateRun 2 2 101 102 ++
    [.setStatus 2 .blocked (some 49)] ++ completeRun 1 50

def thirdRun : Run := { newRun with id := 3 }

theorem base_is_accepted_head_one : ∃ s lifecycle, ReachIf (sysStep 5) (AllTimely fun _ => 0) {} s ∧
    acceptedSource s.history thirdRun site = .ok lifecycle ∧ lifecycle.integrationBaseSha = s.acceptedHead site ∧
    s.acceptedHead site = 101 := by
  have hrun : (runIf (sysStep 5) (AllTimely fun _ => 0) {} oneAccepted).any fun s =>
      Timely (fun _ => 0) s 3 site && s.acceptedHead site = 101 && (acceptedSource s.history thirdRun site).toOption.isSome := by
    decide +kernel
  obtain ⟨s, hs, hrun⟩ := (Option.any_eq_true _ _).mp hrun
  simp only [Bool.and_eq_true, decide_eq_true_eq] at hrun
  obtain ⟨⟨htimely, hhead⟩, hsource⟩ := hrun
  obtain ⟨lifecycle, hlifecycle⟩ := Option.isSome_iff_exists.mp hsource
  have hreach := runIf_reachIf oneAccepted hs
  have hbase := (base_is_accepted_head hreach rfl rfl (toOption_ok hlifecycle)).1 htimely
  exact ⟨s, lifecycle, hreach, toOption_ok hlifecycle, hbase, hhead⟩

/-- The integration of a run that blocks afterwards is not what the next run starts from. -/
theorem starts_behind_accepted_head : ∃ s run lifecycle, Reach (sysStep 5) {} s ∧ run ∈ s.runs ∧ run.binding = none ∧
    acceptedSource s.history run site = .ok lifecycle ∧ lifecycle.integrationBaseSha = 101 ∧ s.acceptedHead site = 102 := by
  have hrun : (Steps.run (sysStep 5) {} (acceptedOver ++ [.start 3 7])).any fun s =>
      s.runs.contains thirdRun && s.acceptedHead site = 102 &&
        (acceptedSource s.history thirdRun site).toOption.any fun lifecycle => lifecycle.integrationBaseSha = 101 := by
    decide +kernel
  obtain ⟨s, hs, hrun⟩ := (Option.any_eq_true _ _).mp hrun
  simp only [Bool.and_eq_true, decide_eq_true_eq, List.contains_iff_mem] at hrun
  obtain ⟨⟨hmem, hhead⟩, hsource⟩ := hrun
  obtain ⟨lifecycle, hlifecycle, hbase⟩ := (Option.any_eq_true _ _).mp hsource
  exact ⟨s, thirdRun, lifecycle, run_reach _ hs, hmem, rfl, toOption_ok hlifecycle, of_decide_eq_true hbase, hhead⟩

end Jarvis.Repositories
