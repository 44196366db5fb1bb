/-
  Jarvis.Registry.Compatible — what `_compatible` establishes of a specification.

  Of what it checks, most cannot change any more: revisions are what they are (`Fits`). The rest can:
  whether what is referred to is active, whether the server allows an endpoint, whether a workflow is
  published. A specification is compatible just when both hold (`compatible_iff`), and where it fits, only
  the second part can fail (`compatible_complaint`).
-/
import Jarvis.Lib.Checks
import Jarvis.Registry.Service

namespace Jarvis.Registry

open Workflows (RevisionId ConfigurationKind profileCapabilities allowedParameters)
open Checks (bind_ok_iff forM_ok_iff forM_ok_and Raises)

variable {o : Outside} {s : Store} {id : RevisionId} {kind : ConfigurationKind} {spec : RegistrySpec} {revisions : List Revision}

/-! ## What is referred to -/

/-- The revision with the identity has the specification. -/
def At (revisions : List Revision) (id : RevisionId) (spec : RegistrySpec) : Prop :=
  ∃ revision ∈ revisions, revision.id = id ∧ revision.envelope.spec = spec

/-- A revision and its configuration are enabled, and not archived. -/
structure InUse (row : Configuration) (revision : Revision) : Prop where
  enabled : revision.envelope.enabled = true
  archived : revision.envelope.archived = false
  row_enabled : row.enabled = true
  row_archived : row.archived = false

def Active (s : Store) (id : RevisionId) : Prop := ∃ found, s.owned? id = some found ∧ InUse found.1 found.2

/-- A configuration has revisions of its own kind. -/
structure Typed (s : Store) : Prop where
  ids : (s.revisions.map Revision.id).Nodup
  owned : ∀ revision ∈ s.revisions, ∃ row, s.configuration? revision.configuration = some row ∧ revision.envelope.spec.kind = row.kind

theorem At.mono {revisions' : List Revision} (h : At revisions id spec) (hsub : ∀ revision ∈ revisions, revision ∈ revisions') :
    At revisions' id spec := by
  obtain ⟨revision, hmem, hid, hspec⟩ := h
  exact ⟨revision, hsub revision hmem, hid, hspec⟩

/-- An identity has one specification. -/
theorem At.unique {spec' : RegistrySpec} (hids : (revisions.map Revision.id).Nodup) (h : At revisions id spec) (h' : At revisions id spec') :
    spec = spec' := by
  obtain ⟨revision, hmem, rfl, rfl⟩ := h
  obtain ⟨revision', hmem', hid, rfl⟩ := h'
  rw [Keyed.unique hids hmem hmem' hid.symm]

/-- A specification of one sort has its kind. -/
theorem exists_at {α : Type} {f : α → RegistrySpec} {P : α → Prop} (hkind : ∀ a, (f a).kind = kind)
    (h : ∃ a, At revisions id (f a) ∧ P a) : ∃ spec, At revisions id spec ∧ spec.kind = kind := by
  obtain ⟨a, hat, -⟩ := h
  exact ⟨f a, hat, hkind a⟩

theorem owned?_some {found : Configuration × Revision} (h : s.owned? id = some found) :
    found.2 ∈ s.revisions ∧ found.2.id = id ∧ s.configuration? found.2.configuration = some found.1 := by
  obtain ⟨revision, hrevision, h⟩ := Option.bind_eq_some_iff.mp h
  obtain ⟨row, hrow, rfl⟩ := Option.map_eq_some_iff.mp h
  exact ⟨List.mem_of_find?_eq_some hrevision, by simpa using List.find?_some hrevision, hrow⟩

/-- A revision is found with its configuration. -/
theorem Typed.owned?_of_mem (hs : Typed s) {revision : Revision} (hmem : revision ∈ s.revisions) :
    ∃ row, s.owned? revision.id = some (row, revision) ∧ revision.envelope.spec.kind = row.kind := by
  obtain ⟨row, hrow, hkind⟩ := hs.owned revision hmem
  refine ⟨row, ?_, hkind⟩
  simp only [Store.owned?, Store.revision?, Keyed.find?_of_mem hs.ids hmem, Option.bind_some, hrow, Option.map_some]

theorem require_ok_iff {condition : Bool} {status : Nat} {code message : String} {done : Unit} :
    require condition status code message = .ok done ↔ condition = true := by
  cases condition with
  | true => exact iff_of_true rfl rfl
  | false => exact iff_of_false (by rintro ⟨⟩) (by rintro ⟨⟩)

theorem some?_ok_iff {α : Type} {value : Option α} {status : Nat} {code message : String} {a : α} :
    some? value status code message = .ok a ↔ value = some a := by
  cases value with
  | none => exact iff_of_false (by rintro ⟨⟩) (by rintro ⟨⟩)
  | some b => exact Except.ok.injEq b a ▸ Option.some.injEq b a ▸ Iff.rfl

theorem asserted_ok_iff {α : Type} {value : Option α} {a : α} : asserted value = .ok a ↔ value = some a := by
  cases value with
  | none => exact iff_of_false (by rintro ⟨⟩) (by rintro ⟨⟩)
  | some b => exact Except.ok.injEq b a ▸ Option.some.injEq b a ▸ Iff.rfl

theorem inUse_iff {row : Configuration} {revision : Revision} :
    (!(!revision.envelope.enabled || revision.envelope.archived || !row.enabled || row.archived)) = true ↔ InUse row revision := by
  simp only [Bool.not_eq_true', Bool.or_eq_false_iff, Bool.not_eq_false']
  exact ⟨fun h => ⟨h.1.1.1, h.1.1.2, h.1.2, h.2⟩, fun h => ⟨⟨⟨h.enabled, h.archived⟩, h.row_enabled⟩, h.row_archived⟩⟩

theorem revision_ok_iff {kind : Option ConfigurationKind} {active : Bool} {result : RegistryRecord} :
    revision o s id kind active = .ok result ↔ ∃ found, s.owned? id = some found ∧ (∀ k ∈ kind, found.1.kind = k) ∧
      (active = true → InUse found.1 found.2) ∧ record o s found.1 found.2 = result := by
  simp only [revision, bind_ok_iff, some?_ok_iff, require_ok_iff, Option.filter_eq_some_iff]
  constructor
  · rintro ⟨found, ⟨hfound, hkind⟩, ⟨⟩, hactive, h⟩
    cases h
    refine ⟨found, hfound, fun k hk => ?_, fun h => ?_, rfl⟩
    · rw [hk] at hkind
      simpa using hkind
    · rw [h, Bool.true_and] at hactive
      exact inUse_iff.mp hactive
  · rintro ⟨found, hfound, hkind, hactive, rfl⟩
    refine ⟨found, ⟨hfound, ?_⟩, (), ?_, rfl⟩
    · cases kind with
      | none => rfl
      | some k => simpa using hkind k rfl
    · cases active with
      | false => rfl
      | true =>
        rw [Bool.true_and]
        exact inUse_iff.mpr (hactive rfl)

theorem reference_ok_iff (hs : Typed s) : reference o s kind id = .ok spec ↔ At s.revisions id spec ∧ spec.kind = kind ∧ Active s id := by
  simp only [reference, bind_ok_iff, revision_ok_iff]
  constructor
  · rintro ⟨_, ⟨⟨row, revision⟩, hfound, hkind, hactive, rfl⟩, h⟩
    cases h
    obtain ⟨hmem, hid, -⟩ := owned?_some hfound
    obtain ⟨row', hrow', htyped⟩ := hs.owned?_of_mem hmem
    cases (hid ▸ hrow').symm.trans hfound
    exact ⟨⟨_, hmem, hid, rfl⟩, htyped.trans (hkind kind rfl), _, hfound, hactive trivial⟩
  · rintro ⟨⟨revision, hmem, rfl, rfl⟩, hkind, found, hfound, hactive⟩
    obtain ⟨row, hrow, htyped⟩ := hs.owned?_of_mem hmem
    rw [hfound] at hrow
    cases hrow
    refine ⟨_, ⟨_, hfound, ?_, fun _ => hactive, rfl⟩, rfl⟩
    rintro k ⟨⟩
    exact htyped.symm.trans hkind

/-! `isinstance`, by the kind. -/

theorem role?_eq {role : AgentRoleSpec} : spec.role? = some role ↔ spec = .agentRole role := by
  cases spec <;> simp [RegistrySpec.role?]

theorem worker?_eq {worker : WorkerSpec} : spec.worker? = some worker ↔ spec = .worker worker := by
  cases spec <;> simp [RegistrySpec.worker?]

theorem provider?_eq {provider : ProviderSpec} : spec.provider? = some provider ↔ spec = .provider provider := by
  cases spec <;> simp [RegistrySpec.provider?]

theorem profile?_eq {profile : ModelProfileSpec} : spec.profile? = some profile ↔ spec = .modelProfile profile := by
  cases spec <;> simp [RegistrySpec.profile?]

theorem exists_role (h : spec.kind = .agentRole) : ∃ role, spec = .agentRole role := by
  cases spec with
  | agentRole role => exact ⟨role, rfl⟩
  | _ => cases h

theorem exists_worker (h : spec.kind = .worker) : ∃ worker, spec = .worker worker := by
  cases spec with
  | worker worker => exact ⟨worker, rfl⟩
  | _ => cases h

theorem exists_provider (h : spec.kind = .providerConnection) : ∃ provider, spec = .provider provider := by
  cases spec with
  | provider provider => exact ⟨provider, rfl⟩
  | _ => cases h

theorem exists_profile (h : spec.kind = .modelProfile) : ∃ profile, spec = .modelProfile profile := by
  cases spec with
  | modelProfile profile => exact ⟨profile, rfl⟩
  | _ => cases h

/-! ## What stays as it is -/

def FitsProfile (revisions : List Revision) (profile : ModelProfileSpec) : Prop :=
  ∃ provider, At revisions profile.providerRevisionId (.provider provider) ∧
    (∀ name ∈ profile.parameters, name ∈ allowedParameters provider.providerKind) ∧ provider.locality = profile.locality

/-- A model profile of a team serves the purpose, and its provider the mode. -/
structure FitsTeamProfile (revisions : List Revision) (mode : TeamMode) (purpose : String) (profile : ModelProfileSpec) : Prop where
  fits : FitsProfile revisions profile
  purpose_mem : purpose ∈ profile.purposes
  structuredJson : profile.structuredJson = true
  contextLimit : 16384 ≤ profile.contextLimit
  provider : ∃ provider, At revisions profile.providerRevisionId (.provider provider) ∧ (provider.providerKind = .demo ↔ mode = .demo)

structure FitsMember (revisions : List Revision) (member : TeamMemberSpec) : Prop where
  role : ∃ role, At revisions member.roleRevisionId (.agentRole role)
  route : ∃ spec, At revisions member.modelRouteRevisionId spec ∧ spec.kind = .routePolicy
  permission : ∃ spec, At revisions member.permissionPolicyRevisionId spec ∧ spec.kind = .permissionPolicy
  pools : ∀ id ∈ member.workerPoolRevisionIds, ∃ spec, At revisions id spec ∧ spec.kind = .workerPool

structure FitsTeam (revisions : List Revision) (team : TeamTemplateSpec) : Prop where
  roles : ∀ role ∈ team.roles, ∃ found, At revisions role.1 (.agentRole found) ∧ found.responsibility = role.2
  profiles : ∀ profile ∈ team.profiles, ∃ found, At revisions profile.1 (.modelProfile found) ∧
    FitsTeamProfile revisions team.mode profile.2 found
  worker : ∃ worker, At revisions team.developerWorkerRevisionId (.worker worker) ∧ (worker.adapterKind = .demo ↔ team.mode = .demo)
  members : ∀ member ∈ team.members, FitsMember revisions member

/-- A model profile can serve a route. -/
structure FitsRoute (revisions : List Revision) (route : RoutePolicySpec) (profile : ModelProfileSpec) : Prop where
  fits : FitsProfile revisions profile
  capabilities : ∀ capability ∈ route.requiredCapabilities, capability ∈ profileCapabilities profile.toModelProfileSpec
  purposes : ∀ purpose ∈ route.purposes, purpose ∈ profile.purposes
  remote : profile.locality = .remote → route.allowRemote = true

/-- What `_compatible` checks that stays as it is. -/
def Fits (revisions : List Revision) : RegistrySpec → Prop
  | .teamTemplate team => FitsTeam revisions team
  | .workerPool pool => ∀ id ∈ pool.workerRevisionIds, ∃ worker, At revisions id (.worker worker) ∧
      ∀ capability ∈ pool.requiredCapabilities, capability ∈ worker.capabilities
  | .provider provider => ∀ id ∈ provider.retryPolicyRevisionId, ∃ spec, At revisions id spec ∧ spec.kind = .retryPolicy
  | .modelProfile profile => FitsProfile revisions profile
  | .worker worker => ∀ id ∈ worker.allowedProfileRevisionIds, ∃ profile, At revisions id (.modelProfile profile) ∧ FitsProfile revisions profile
  | .routePolicy route => ∀ id ∈ route.candidates, ∃ profile, At revisions id (.modelProfile profile) ∧ FitsRoute revisions route profile
  | _ => True

section Growing

variable {revisions' : List Revision} (hsub : ∀ revision ∈ revisions, revision ∈ revisions')
include hsub

theorem FitsProfile.mono {profile : ModelProfileSpec} (h : FitsProfile revisions profile) : FitsProfile revisions' profile := by
  obtain ⟨provider, hat, hfits⟩ := h
  exact ⟨provider, hat.mono hsub, hfits⟩

theorem FitsTeamProfile.mono {mode : TeamMode} {purpose : String} {profile : ModelProfileSpec}
    (h : FitsTeamProfile revisions mode purpose profile) : FitsTeamProfile revisions' mode purpose profile := by
  obtain ⟨provider, hat, hmode⟩ := h.provider
  exact { h with fits := h.fits.mono hsub, provider := ⟨provider, hat.mono hsub, hmode⟩ }

theorem FitsRoute.mono {route : RoutePolicySpec} {profile : ModelProfileSpec} (h : FitsRoute revisions route profile) :
    FitsRoute revisions' route profile :=
  { h with fits := h.fits.mono hsub }

theorem FitsMember.mono {member : TeamMemberSpec} (h : FitsMember revisions member) : FitsMember revisions' member where
  role := h.role.imp fun _ hat => hat.mono hsub
  route := h.route.imp fun _ hspec => ⟨hspec.1.mono hsub, hspec.2⟩
  permission := h.permission.imp fun _ hspec => ⟨hspec.1.mono hsub, hspec.2⟩
  pools id hid := (h.pools id hid).imp fun _ hspec => ⟨hspec.1.mono hsub, hspec.2⟩

/-- What fits stays so with more revisions. -/
theorem Fits.mono (h : Fits revisions spec) : Fits revisions' spec := by
  cases spec with
  | teamTemplate team =>
    exact ⟨fun role hrole => (h.roles role hrole).imp fun _ hfound => ⟨hfound.1.mono hsub, hfound.2⟩,
      fun profile hprofile => (h.profiles profile hprofile).imp fun _ hfound => ⟨hfound.1.mono hsub, hfound.2.mono hsub⟩,
      h.worker.imp fun _ hworker => ⟨hworker.1.mono hsub, hworker.2⟩, fun member hmember => (h.members member hmember).mono hsub⟩
  | workerPool pool => exact fun id hid => (h id hid).imp fun _ hworker => ⟨hworker.1.mono hsub, hworker.2⟩
  | provider provider => exact fun id hid => (h id hid).imp fun _ hspec => ⟨hspec.1.mono hsub, hspec.2⟩
  | modelProfile profile => exact FitsProfile.mono hsub h
  | worker worker => exact fun id hid => (h id hid).imp fun _ hprofile => ⟨hprofile.1.mono hsub, hprofile.2.mono hsub⟩
  | routePolicy route => exact fun id hid => (h id hid).imp fun _ hprofile => ⟨hprofile.1.mono hsub, hprofile.2.mono hsub⟩
  | agentRole _ | retryPolicy _ | permissionPolicy _ | executionProfile _ => trivial

end Growing

/-! ## What can change -/

/-- The references of a specification, with the kinds they are expected to have. -/
def references : RegistrySpec → List (RevisionId × ConfigurationKind)
  | .teamTemplate team =>
    team.roles.map (fun role => (role.1, ConfigurationKind.agentRole)) ++ team.profiles.map (fun profile => (profile.1, .modelProfile)) ++
      (team.developerWorkerRevisionId, .worker) :: team.members.flatMap fun member =>
        (member.roleRevisionId, .agentRole) :: (member.modelRouteRevisionId, .routePolicy) ::
          (member.permissionPolicyRevisionId, .permissionPolicy) :: member.workerPoolRevisionIds.map fun id => (id, .workerPool)
  | .workerPool pool => pool.workerRevisionIds.map fun id => (id, .worker)
  | .provider provider => provider.retryPolicyRevisionId.toList.map fun id => (id, .retryPolicy)
  | .modelProfile profile => [(profile.providerRevisionId, .providerConnection)]
  | .worker worker => worker.allowedProfileRevisionIds.map fun id => (id, .modelProfile)
  | .routePolicy route => route.candidates.map fun id => (id, .modelProfile)
  | _ => []

/-- What fits has no reference that leads nowhere, or to another kind. -/
theorem Fits.references (h : Fits revisions spec) {ref : RevisionId × ConfigurationKind} (href : ref ∈ references spec) :
    ∃ spec', At revisions ref.1 spec' ∧ spec'.kind = ref.2 := by
  cases spec with
  | teamTemplate team =>
    simp only [Registry.references, List.mem_append, List.mem_map, List.mem_cons, List.mem_flatMap] at href
    rcases href with (⟨role, hrole, rfl⟩ | ⟨profile, hprofile, rfl⟩) | rfl | ⟨member, hmember, rfl | rfl | rfl | ⟨id, hid, rfl⟩⟩
    · obtain ⟨found, hat, -⟩ := h.roles role hrole
      exact ⟨_, hat, rfl⟩
    · obtain ⟨found, hat, -⟩ := h.profiles profile hprofile
      exact ⟨_, hat, rfl⟩
    · obtain ⟨found, hat, -⟩ := h.worker
      exact ⟨_, hat, rfl⟩
    · obtain ⟨found, hat⟩ := (h.members member hmember).role
      exact ⟨_, hat, rfl⟩
    · exact (h.members member hmember).route
    · exact (h.members member hmember).permission
    · exact (h.members member hmember).pools id hid
  | workerPool pool | worker worker | routePolicy route =>
    obtain ⟨id, hid, rfl⟩ := List.mem_map.mp href
    obtain ⟨found, hat, -⟩ := h id hid
    exact ⟨_, hat, rfl⟩
  | provider provider =>
    obtain ⟨id, hid, rfl⟩ := List.mem_map.mp href
    exact h id (Option.mem_toList.mp hid)
  | modelProfile profile =>
    obtain ⟨provider, hat, -⟩ := h
    rw [List.mem_singleton.mp href]
    exact ⟨_, hat, rfl⟩
  | agentRole _ | retryPolicy _ | permissionPolicy _ | executionProfile _ => cases href

/-- The revisions that have to be active: those that are referred to, and the providers of the profiles
    among them. -/
inductive Needs (revisions : List Revision) (spec : RegistrySpec) : RevisionId → Prop
  | reference {id : RevisionId} {kind : ConfigurationKind} : (id, kind) ∈ references spec → Needs revisions spec id
  | provider {id : RevisionId} {profile : ModelProfileSpec} : (id, ConfigurationKind.modelProfile) ∈ references spec →
      At revisions id (.modelProfile profile) → Needs revisions spec profile.providerRevisionId

/-- What the server and the workflows allow. -/
def Permitted (o : Outside) : RegistrySpec → Prop
  | .provider provider => ∀ url ∈ provider.baseUrl, url ∈ o.allowedEndpoints
  | .teamTemplate team => team.workflowVersionId ∈ o.publishedWorkflows
  | _ => True

/-! ## A compatible specification -/

/-- A profile and its provider are active. -/
structure ActiveProfile (s : Store) (id : RevisionId) : Prop where
  active : Active s id
  provider : ∀ profile, At s.revisions id (.modelProfile profile) → Active s profile.providerRevisionId

section Compatible

variable (hs : Typed s)
include hs

theorem refer_ok_iff : refer o s kind id = .ok () ↔ (∃ spec, At s.revisions id spec ∧ spec.kind = kind) ∧ Active s id := by
  simp only [refer, bind_ok_iff, reference_ok_iff hs]
  constructor
  · rintro ⟨spec, ⟨hat, hkind, hactive⟩, -⟩
    exact ⟨⟨spec, hat, hkind⟩, hactive⟩
  · rintro ⟨⟨spec, hat, hkind⟩, hactive⟩
    exact ⟨spec, ⟨hat, hkind, hactive⟩, rfl⟩

theorem compatibleProfile_ok_iff {profile : ModelProfileSpec} :
    compatibleProfile o s profile = .ok () ↔ FitsProfile s.revisions profile ∧ Active s profile.providerRevisionId := by
  simp only [compatibleProfile, bind_ok_iff, reference_ok_iff hs, asserted_ok_iff, provider?_eq, require_ok_iff, List.all_eq_true,
    decide_eq_true_eq]
  constructor
  · rintro ⟨_, ⟨hat, -, hactive⟩, provider, rfl, ⟨⟩, hparameters, hlocality⟩
    exact ⟨⟨provider, hat, hparameters, hlocality⟩, hactive⟩
  · rintro ⟨⟨provider, hat, hparameters, hlocality⟩, hactive⟩
    exact ⟨_, ⟨hat, rfl, hactive⟩, provider, rfl, (), hparameters, hlocality⟩

theorem workerProfile_ok_iff : workerProfile o s id = .ok () ↔
    (∃ profile, At s.revisions id (.modelProfile profile) ∧ FitsProfile s.revisions profile) ∧ ActiveProfile s id := by
  simp only [workerProfile, bind_ok_iff, reference_ok_iff hs, asserted_ok_iff, profile?_eq, compatibleProfile_ok_iff hs]
  constructor
  · rintro ⟨_, ⟨hat, -, hactive⟩, profile, rfl, hfits, hprovider⟩
    refine ⟨⟨profile, hat, hfits⟩, hactive, fun profile' hat' => ?_⟩
    cases hat.unique hs.ids hat'
    exact hprovider
  · rintro ⟨⟨profile, hat, hfits⟩, hactive⟩
    exact ⟨_, ⟨hat, rfl, hactive.active⟩, profile, rfl, hfits, hactive.provider profile hat⟩

theorem routeCandidate_ok_iff {route : RoutePolicySpec} : routeCandidate o s route id = .ok () ↔
    (∃ profile, At s.revisions id (.modelProfile profile) ∧ FitsRoute s.revisions route profile) ∧ ActiveProfile s id := by
  simp only [routeCandidate, bind_ok_iff, reference_ok_iff hs, asserted_ok_iff, profile?_eq, provider?_eq, compatibleProfile_ok_iff hs,
    require_ok_iff, Bool.and_eq_true, List.all_eq_true, decide_eq_true_eq, Bool.not_eq_true', Bool.and_eq_false_imp, Bool.not_eq_false']
  constructor
  · rintro ⟨_, ⟨hat, -, hactive⟩, profile, rfl, ⟨⟩, ⟨hfits, hprovider⟩, ⟨⟩, ⟨hcapabilities, hpurposes⟩, _, -, provider, -, hremote⟩
    refine ⟨⟨profile, hat, hfits, hcapabilities, hpurposes, hremote⟩, hactive, fun profile' hat' => ?_⟩
    cases hat.unique hs.ids hat'
    exact hprovider
  · rintro ⟨⟨profile, hat, hfits⟩, hactive⟩
    have hprovider := hactive.provider profile hat
    obtain ⟨provider, hat', -⟩ := hfits.fits
    exact ⟨_, ⟨hat, rfl, hactive.active⟩, profile, rfl, (), ⟨hfits.fits, hprovider⟩, (), ⟨hfits.capabilities, hfits.purposes⟩, _,
      ⟨hat', rfl, hprovider⟩, provider, rfl, hfits.remote⟩

theorem teamRole_ok_iff {message : String} {fits : AgentRoleSpec → Bool} : teamRole o s message fits id = .ok () ↔
    (∃ role, At s.revisions id (.agentRole role) ∧ fits role = true) ∧ Active s id := by
  simp only [teamRole, bind_ok_iff, reference_ok_iff hs, require_ok_iff, Option.any_eq_true, role?_eq]
  constructor
  · rintro ⟨_, ⟨hat, -, hactive⟩, role, rfl, hfits⟩
    exact ⟨⟨role, hat, hfits⟩, hactive⟩
  · rintro ⟨⟨role, hat, hfits⟩, hactive⟩
    exact ⟨_, ⟨hat, rfl, hactive⟩, role, rfl, hfits⟩

theorem teamProfile_ok_iff {mode : TeamMode} {purpose : String} : teamProfile o s mode purpose id = .ok () ↔
    (∃ profile, At s.revisions id (.modelProfile profile) ∧ FitsTeamProfile s.revisions mode purpose profile) ∧ ActiveProfile s id := by
  simp only [teamProfile, bind_ok_iff, reference_ok_iff hs, some?_ok_iff, asserted_ok_iff, Option.filter_eq_some_iff, profile?_eq,
    provider?_eq, compatibleProfile_ok_iff hs, require_ok_iff, Bool.and_eq_true, decide_eq_true_eq, eq_iff_iff]
  constructor
  · rintro ⟨_, ⟨hat, -, hactive⟩, profile, ⟨rfl, ⟨hpurpose, hjson⟩, hlimit⟩, ⟨⟩, ⟨hfits, hprovider⟩, _, ⟨hat', -, -⟩, provider, rfl, hmode⟩
    refine ⟨⟨profile, hat, hfits, hpurpose, hjson, hlimit, provider, hat', hmode⟩, hactive, fun profile' hat'' => ?_⟩
    cases hat.unique hs.ids hat''
    exact hprovider
  · rintro ⟨⟨profile, hat, hfits⟩, hactive⟩
    have hprovider := hactive.provider profile hat
    obtain ⟨provider, hat', hmode⟩ := hfits.provider
    exact ⟨_, ⟨hat, rfl, hactive.active⟩, profile, ⟨rfl, ⟨hfits.purpose_mem, hfits.structuredJson⟩, hfits.contextLimit⟩, (),
      ⟨hfits.fits, hprovider⟩, _, ⟨hat', rfl, hprovider⟩, provider, rfl, hmode⟩

theorem teamWorker_ok_iff {mode : TeamMode} : teamWorker o s mode id = .ok () ↔
    (∃ worker, At s.revisions id (.worker worker) ∧ (worker.adapterKind = .demo ↔ mode = .demo)) ∧ Active s id := by
  simp only [teamWorker, bind_ok_iff, reference_ok_iff hs, some?_ok_iff, worker?_eq, require_ok_iff, decide_eq_true_eq, eq_iff_iff]
  constructor
  · rintro ⟨_, ⟨hat, -, hactive⟩, worker, rfl, hmode⟩
    exact ⟨⟨worker, hat, hmode⟩, hactive⟩
  · rintro ⟨⟨worker, hat, hmode⟩, hactive⟩
    exact ⟨_, ⟨hat, rfl, hactive⟩, worker, rfl, hmode⟩

theorem poolWorker_ok_iff {required : List String} : poolWorker o s required id = .ok () ↔
    (∃ worker, At s.revisions id (.worker worker) ∧ ∀ capability ∈ required, capability ∈ worker.capabilities) ∧ Active s id := by
  simp only [poolWorker, bind_ok_iff, reference_ok_iff hs, asserted_ok_iff, worker?_eq, require_ok_iff, List.all_eq_true, decide_eq_true_eq]
  constructor
  · rintro ⟨_, ⟨hat, -, hactive⟩, worker, rfl, hrequired⟩
    exact ⟨⟨worker, hat, hrequired⟩, hactive⟩
  · rintro ⟨⟨worker, hat, hrequired⟩, hactive⟩
    exact ⟨_, ⟨hat, rfl, hactive⟩, worker, rfl, hrequired⟩

theorem teamMember_ok_iff {member : TeamMemberSpec} : teamMember o s member = .ok () ↔
    FitsMember s.revisions member ∧ Active s member.roleRevisionId ∧ Active s member.modelRouteRevisionId ∧
      Active s member.permissionPolicyRevisionId ∧ ∀ id ∈ member.workerPoolRevisionIds, Active s id := by
  simp only [teamMember, bind_ok_iff, teamRole_ok_iff hs, refer_ok_iff hs, forM_ok_iff]
  constructor
  · rintro ⟨⟨⟩, ⟨⟨role, hat, -⟩, hrole⟩, ⟨⟩, ⟨hroute, hroute'⟩, ⟨⟩, ⟨hpermission, hpermission'⟩, hpools⟩
    exact ⟨⟨⟨role, hat⟩, hroute, hpermission, fun id hid => (hpools id hid).1⟩, hrole, hroute', hpermission', fun id hid => (hpools id hid).2⟩
  · rintro ⟨hfits, hrole, hroute, hpermission, hpools⟩
    obtain ⟨role, hat⟩ := hfits.role
    exact ⟨(), ⟨⟨role, hat, trivial⟩, hrole⟩, (), ⟨hfits.route, hroute⟩, (), ⟨hfits.permission, hpermission⟩,
      fun id hid => ⟨hfits.pools id hid, hpools id hid⟩⟩

omit hs in
/-- A reference is active, and the provider of a profile too. -/
theorem needs_iff : (∀ id, Needs s.revisions spec id → Active s id) ↔
    ∀ ref ∈ references spec, Active s ref.1 ∧ (ref.2 = .modelProfile → ActiveProfile s ref.1) := by
  constructor
  · intro h ref href
    have hactive := h ref.1 (.reference href)
    exact ⟨hactive, fun hkind => ⟨hactive, fun profile hat => h _ (.provider (hkind ▸ href) hat)⟩⟩
  · intro h id hneeds
    cases hneeds with
    | reference href => exact (h _ href).1
    | provider href hat => exact ((h _ href).2 rfl).provider _ hat

theorem compatibleTeam_ok_iff {team : TeamTemplateSpec} : compatibleTeam o s team = .ok () ↔
    FitsTeam s.revisions team ∧ (∀ id, Needs s.revisions (.teamTemplate team) id → Active s id) ∧ Permitted o (.teamTemplate team) := by
  simp only [compatibleTeam, bind_ok_iff, forM_ok_iff, teamRole_ok_iff hs, teamProfile_ok_iff hs, teamWorker_ok_iff hs, teamMember_ok_iff hs,
    require_ok_iff, decide_eq_true_eq, needs_iff]
  constructor
  · rintro ⟨⟨⟩, hroles, ⟨⟩, hprofiles, ⟨⟩, ⟨hworker, hactive⟩, ⟨⟩, hmembers, hpublished⟩
    refine ⟨⟨fun role hrole => (hroles role hrole).1, fun profile hprofile => (hprofiles profile hprofile).1, hworker,
      fun member hmember => (hmembers member hmember).1⟩, fun ref href => ?_, hpublished⟩
    simp only [references, List.mem_append, List.mem_map, List.mem_cons, List.mem_flatMap] at href
    rcases href with (⟨role, hrole, rfl⟩ | ⟨profile, hprofile, rfl⟩) | rfl | ⟨member, hmember, rfl | rfl | rfl | ⟨id, hid, rfl⟩⟩
    · exact ⟨(hroles role hrole).2, by rintro ⟨⟩⟩
    · exact ⟨(hprofiles profile hprofile).2.active, fun _ => (hprofiles profile hprofile).2⟩
    · exact ⟨hactive, by rintro ⟨⟩⟩
    · exact ⟨(hmembers member hmember).2.1, by rintro ⟨⟩⟩
    · exact ⟨(hmembers member hmember).2.2.1, by rintro ⟨⟩⟩
    · exact ⟨(hmembers member hmember).2.2.2.1, by rintro ⟨⟩⟩
    · exact ⟨(hmembers member hmember).2.2.2.2 id hid, by rintro ⟨⟩⟩
  · rintro ⟨hfits, hneeds, hpublished⟩
    simp only [references, List.forall_mem_append, List.forall_mem_map, List.forall_mem_cons, List.mem_flatMap] at hneeds
    obtain ⟨⟨hroles, hprofiles⟩, ⟨hworker, -⟩, hmembers⟩ := hneeds
    refine ⟨(), fun role hrole => ⟨?_, (hroles role hrole).1⟩, (),
      fun profile hprofile => ⟨hfits.profiles profile hprofile, (hprofiles profile hprofile).2 trivial⟩, (), ⟨hfits.worker, hworker⟩, (),
      fun member hmember => ⟨hfits.members member hmember, ?_, ?_, ?_, fun id hid => ?_⟩, hpublished⟩
    · obtain ⟨found, hat, hfound⟩ := hfits.roles role hrole
      exact ⟨found, hat, hfound⟩
    · exact (hmembers _ ⟨member, hmember, .head _⟩).1
    · exact (hmembers _ ⟨member, hmember, .tail _ (.head _)⟩).1
    · exact (hmembers _ ⟨member, hmember, .tail _ (.tail _ (.head _))⟩).1
    · exact (hmembers (id, .workerPool) ⟨member, hmember, .tail _ (.tail _ (.tail _ (List.mem_map.mpr ⟨id, hid, rfl⟩)))⟩).1

/-- A specification is compatible where it fits, what it needs is active and it is permitted. -/
theorem compatible_iff : compatible o s spec = .ok () ↔
    Fits s.revisions spec ∧ (∀ id, Needs s.revisions spec id → Active s id) ∧ Permitted o spec := by
  cases spec with
  | teamTemplate team => exact compatibleTeam_ok_iff hs
  | workerPool pool =>
    simp only [needs_iff, references, List.forall_mem_map, Permitted, and_true]
    exact (forM_ok_and fun id _ => poolWorker_ok_iff hs).trans (and_congr_right' (forall₂_congr fun id _ => (and_iff_left (by rintro ⟨⟩)).symm))
  | provider provider =>
    simp only [needs_iff, references, List.forall_mem_map, compatible, compatibleProvider, bind_ok_iff, require_ok_iff,
      forM_ok_and fun id _ => refer_ok_iff hs, Option.mem_toList, Option.all_eq_true, decide_eq_true_eq, exists_const]
    constructor
    · rintro ⟨hurl, hfits, hactive⟩
      exact ⟨hfits, fun id hid => ⟨hactive id hid, by rintro ⟨⟩⟩, hurl⟩
    · rintro ⟨hfits, hactive, hurl⟩
      exact ⟨hurl, hfits, fun id hid => (hactive id hid).1⟩
  | modelProfile profile =>
    simp only [needs_iff, references, List.forall_mem_singleton, Permitted, and_true]
    exact (compatibleProfile_ok_iff hs).trans (and_congr_right' (and_iff_left (by rintro ⟨⟩)).symm)
  | worker worker =>
    simp only [needs_iff, references, List.forall_mem_map, Permitted, and_true]
    exact (forM_ok_and fun id _ => workerProfile_ok_iff hs).trans
      (and_congr_right' (forall₂_congr fun id _ => ⟨fun h => ⟨h.active, fun _ => h⟩, fun h => h.2 trivial⟩))
  | routePolicy route =>
    simp only [needs_iff, references, List.forall_mem_map, Permitted, and_true]
    exact (forM_ok_and fun id _ => routeCandidate_ok_iff hs).trans
      (and_congr_right' (forall₂_congr fun id _ => ⟨fun h => ⟨h.active, fun _ => h⟩, fun h => h.2 trivial⟩))
  | agentRole _ | retryPolicy _ | permissionPolicy _ | executionProfile _ =>
    simp only [needs_iff, references, List.not_mem_nil, Permitted, and_true]
    exact iff_of_true rfl ⟨trivial, by rintro _ ⟨⟩⟩

end Compatible

/-! ## What is raised -/

/-- What asks for attention: a reference is not active, or an endpoint or a workflow is not there any more. -/
inductive Attention : Raised → Prop
  | inactive {e : Raised} (h : (raise 422 "inactive_reference" "Referenced configuration is disabled or archived" : Except Raised Unit) = .error e) :
      Attention e
  | endpoint {e : Raised} (h : (raise 422 "endpoint_denied" "Endpoint is not in the server-managed allowlist" : Except Raised Unit) = .error e) :
      Attention e
  | workflow {e : Raised} (h : (raise 422 "incompatible_workflow" "Team workflow must be published" : Except Raised Unit) = .error e) :
      Attention e

/-- What can be raised over something: what asks for attention, or another problem where it does not fit. -/
def Complaint (fits : Prop) (e : Raised) : Prop := Attention e ∨ ¬ fits ∧ e ≠ .assertion

theorem Complaint.mono {fits fits' : Prop} {e : Raised} (h : Complaint fits e) (himp : fits' → fits) : Complaint fits' e :=
  h.imp_right fun h => ⟨fun hfits => h.1 (himp hfits), h.2⟩

theorem Attention.ne_assertion {e : Raised} (h : Attention e) : e ≠ .assertion := by
  rintro rfl
  cases h with
  | inactive h | endpoint h | workflow h => cases h

theorem Complaint.ne_assertion {fits : Prop} {e : Raised} (h : Complaint fits e) : e ≠ .assertion :=
  h.elim Attention.ne_assertion And.right

section Raising

variable {fits : Prop}

theorem require_raises {condition : Bool} {status : Nat} {code message : String} (h : fits → condition = true) :
    Raises (Complaint fits) (require condition status code message) := by
  cases condition with
  | true => exact .ok ()
  | false => exact .error (.inr ⟨fun hfits => Bool.false_ne_true (h hfits), by rintro ⟨⟩⟩)

theorem some?_raises {α : Type} {value : Option α} {status : Nat} {code message : String} (h : fits → value.isSome) :
    Raises (Complaint fits) (some? value status code message) := by
  cases value with
  | some a => exact .ok a
  | none => exact .error (.inr ⟨fun hfits => Bool.false_ne_true (h hfits), by rintro ⟨⟩⟩)

variable (hs : Typed s)
include hs

theorem reference_raises : Raises (Complaint (∃ spec, At s.revisions id spec ∧ spec.kind = kind)) (reference o s kind id) := by
  refine .bind (.bind (some?_raises ?_) fun found hfound => .bind (fun e he => .inl ?_) fun _ _ => .ok _) fun _ _ => .ok _
  · rintro ⟨spec, ⟨revision, hmem, rfl, rfl⟩, hkind⟩
    obtain ⟨row, hrow, htyped⟩ := hs.owned?_of_mem hmem
    simp [hrow, ← htyped, hkind]
  · unfold require at he
    split at he
    · cases he
    · exact .inactive he

theorem refer_raises : Raises (Complaint (∃ spec, At s.revisions id spec ∧ spec.kind = kind)) (refer o s kind id) :=
  .bind (reference_raises hs) fun _ _ => .ok ()

theorem compatibleProfile_raises {profile : ModelProfileSpec} :
    Raises (Complaint (FitsProfile s.revisions profile)) (compatibleProfile o s profile) := by
  refine .bind ((reference_raises hs).mono fun e he => he.mono (exists_at fun _ => rfl)) fun found hfound => ?_
  obtain ⟨hat, hkind, -⟩ := (reference_ok_iff hs).mp hfound
  obtain ⟨provider, rfl⟩ := exists_provider hkind
  have hsame : ∀ provider', At s.revisions profile.providerRevisionId (.provider provider') → provider' = provider := fun provider' hat' => by
    cases hat.unique hs.ids hat'
    rfl
  refine .bind (.ok provider) fun chosen hchosen => ?_
  cases hchosen
  refine .bind (require_raises ?_) fun _ _ => require_raises ?_
  · rintro ⟨provider', hat', hparameters, -⟩
    simpa [hsame provider' hat'] using hparameters
  · rintro ⟨provider', hat', -, hlocality⟩
    simpa [hsame provider' hat'] using hlocality

theorem workerProfile_raises :
    Raises (Complaint (∃ profile, At s.revisions id (.modelProfile profile) ∧ FitsProfile s.revisions profile)) (workerProfile o s id) := by
  refine .bind ((reference_raises hs).mono fun e he => he.mono (exists_at fun _ => rfl)) fun found hfound => ?_
  obtain ⟨hat, hkind, -⟩ := (reference_ok_iff hs).mp hfound
  obtain ⟨profile, rfl⟩ := exists_profile hkind
  refine .bind (.ok profile) fun chosen hchosen => ?_
  cases hchosen
  refine (compatibleProfile_raises hs).mono fun e he => he.mono ?_
  rintro ⟨profile', hat', hfits⟩
  cases hat.unique hs.ids hat'
  exact hfits

theorem routeCandidate_raises {route : RoutePolicySpec} :
    Raises (Complaint (∃ profile, At s.revisions id (.modelProfile profile) ∧ FitsRoute s.revisions route profile))
      (routeCandidate o s route id) := by
  refine .bind ((reference_raises hs).mono fun e he => he.mono (exists_at fun _ => rfl)) fun found hfound => ?_
  obtain ⟨hat, hkind, -⟩ := (reference_ok_iff hs).mp hfound
  obtain ⟨profile, rfl⟩ := exists_profile hkind
  have hsame : ∀ profile', At s.revisions id (.modelProfile profile') → profile' = profile := fun profile' hat' => by
    cases hat.unique hs.ids hat'
    rfl
  refine .bind (.ok profile) fun chosen hchosen => ?_
  cases hchosen
  refine .bind ((compatibleProfile_raises hs).mono fun e he => he.mono ?_) fun _ hprofile => .bind (require_raises ?_) fun _ _ => ?_
  · rintro ⟨profile', hat', hfits⟩
    exact hsame profile' hat' ▸ hfits.fits
  · rintro ⟨profile', hat', hfits⟩
    rw [hsame profile' hat'] at hfits
    simpa using And.intro hfits.capabilities hfits.purposes
  · obtain ⟨⟨provider, hat', -⟩, -⟩ := (compatibleProfile_ok_iff hs).mp hprofile
    refine .bind ((reference_raises hs).mono fun e he => he.mono fun _ => ⟨_, hat', rfl⟩) fun found hfound => ?_
    obtain ⟨-, hkind, -⟩ := (reference_ok_iff hs).mp hfound
    obtain ⟨provider, rfl⟩ := exists_provider hkind
    refine .bind (.ok provider) fun _ _ => require_raises ?_
    rintro ⟨profile', hat', hfits⟩
    rw [hsame profile' hat'] at hfits
    simpa [or_iff_not_imp_left] using hfits.remote

theorem teamRole_raises {message : String} {fits : AgentRoleSpec → Bool} :
    Raises (Complaint (∃ role, At s.revisions id (.agentRole role) ∧ fits role = true)) (teamRole o s message fits id) := by
  refine .bind ((reference_raises hs).mono fun e he => he.mono (exists_at fun _ => rfl)) fun found hfound => require_raises ?_
  rintro ⟨role, hat, hfits⟩
  cases ((reference_ok_iff hs).mp hfound).1.unique hs.ids hat
  exact hfits

theorem teamProfile_raises {mode : TeamMode} {purpose : String} :
    Raises (Complaint (∃ profile, At s.revisions id (.modelProfile profile) ∧ FitsTeamProfile s.revisions mode purpose profile))
      (teamProfile o s mode purpose id) := by
  refine .bind ((reference_raises hs).mono fun e he => he.mono (exists_at fun _ => rfl)) fun found hfound => ?_
  obtain ⟨hat, hkind, -⟩ := (reference_ok_iff hs).mp hfound
  obtain ⟨profile, rfl⟩ := exists_profile hkind
  have hsame : ∀ profile', At s.revisions id (.modelProfile profile') → profile' = profile := fun profile' hat' => by
    cases hat.unique hs.ids hat'
    rfl
  refine .bind (some?_raises ?_) fun chosen hchosen => ?_
  · rintro ⟨profile', hat', hfits⟩
    rw [hsame profile' hat'] at hfits
    simp [RegistrySpec.profile?, Option.filter, hfits.purpose_mem, hfits.structuredJson, hfits.contextLimit]
  · obtain ⟨heq, -⟩ := Option.filter_eq_some_iff.mp (some?_ok_iff.mp hchosen)
    cases heq
    refine .bind ((compatibleProfile_raises hs).mono fun e he => he.mono ?_) fun _ hprofile => ?_
    · rintro ⟨profile', hat', hfits⟩
      exact hsame profile' hat' ▸ hfits.fits
    · obtain ⟨⟨provider, hat', -⟩, -⟩ := (compatibleProfile_ok_iff hs).mp hprofile
      refine .bind ((reference_raises hs).mono fun e he => he.mono fun _ => ⟨_, hat', rfl⟩) fun found hfound => ?_
      obtain ⟨hfound, hkind, -⟩ := (reference_ok_iff hs).mp hfound
      obtain ⟨provider, rfl⟩ := exists_provider hkind
      refine .bind (.ok provider) fun chosen hchosen => require_raises ?_
      cases hchosen
      rintro ⟨profile', hat'', hfits⟩
      rw [hsame profile' hat''] at hfits
      obtain ⟨provider', hprovider, hmode⟩ := hfits.provider
      cases hfound.unique hs.ids hprovider
      simpa using hmode

theorem teamWorker_raises {mode : TeamMode} :
    Raises (Complaint (∃ worker, At s.revisions id (.worker worker) ∧ (worker.adapterKind = .demo ↔ mode = .demo)))
      (teamWorker o s mode id) := by
  refine .bind ((reference_raises hs).mono fun e he => he.mono (exists_at fun _ => rfl)) fun found hfound => ?_
  obtain ⟨hat, hkind, -⟩ := (reference_ok_iff hs).mp hfound
  obtain ⟨worker, rfl⟩ := exists_worker hkind
  refine .bind (.ok worker) fun chosen hchosen => require_raises ?_
  cases hchosen
  rintro ⟨worker', hat', hmode⟩
  cases hat.unique hs.ids hat'
  simpa using hmode

theorem poolWorker_raises {required : List String} :
    Raises (Complaint (∃ worker, At s.revisions id (.worker worker) ∧ ∀ capability ∈ required, capability ∈ worker.capabilities))
      (poolWorker o s required id) := by
  refine .bind ((reference_raises hs).mono fun e he => he.mono (exists_at fun _ => rfl)) fun found hfound => ?_
  obtain ⟨hat, hkind, -⟩ := (reference_ok_iff hs).mp hfound
  obtain ⟨worker, rfl⟩ := exists_worker hkind
  refine .bind (.ok worker) fun chosen hchosen => require_raises ?_
  cases hchosen
  rintro ⟨worker', hat', hrequired⟩
  cases hat.unique hs.ids hat'
  simpa using hrequired

theorem teamMember_raises {member : TeamMemberSpec} : Raises (Complaint (FitsMember s.revisions member)) (teamMember o s member) := by
  refine .bind ((teamRole_raises hs).mono fun e he => he.mono fun hfits => ?_) fun _ _ =>
    .bind ((refer_raises hs).mono fun e he => he.mono (·.route)) fun _ _ =>
      .bind ((refer_raises hs).mono fun e he => he.mono (·.permission)) fun _ _ =>
        .forM fun id hid => (refer_raises hs).mono fun e he => he.mono fun hfits => hfits.pools id hid
  obtain ⟨role, hat⟩ := hfits.role
  exact ⟨role, hat, rfl⟩

theorem compatibleTeam_raises {team : TeamTemplateSpec} : Raises (Complaint (FitsTeam s.revisions team)) (compatibleTeam o s team) := by
  refine .bind (.forM fun role hrole => (teamRole_raises hs).mono fun e he => he.mono fun hfits => ?_) fun _ _ =>
    .bind (.forM fun profile hprofile => (teamProfile_raises hs).mono fun e he => he.mono fun hfits => hfits.profiles profile hprofile) fun _ _ =>
      .bind ((teamWorker_raises hs).mono fun e he => he.mono (·.worker)) fun _ _ =>
        .bind (.forM fun member hmember => (teamMember_raises hs).mono fun e he => he.mono fun hfits => hfits.members member hmember) fun _ _ => ?_
  · obtain ⟨found, hat, hfound⟩ := hfits.roles role hrole
    exact ⟨found, hat, decide_eq_true hfound⟩
  · rintro e he
    unfold require at he
    split at he
    · cases he
    · exact .inl (.workflow he)

/-- Over a specification that fits, only what asks for attention is raised, and over no specification an
    assertion fails. -/
theorem compatible_complaint : Raises (Complaint (Fits s.revisions spec)) (compatible o s spec) := by
  cases spec with
  | teamTemplate team => exact compatibleTeam_raises hs
  | workerPool pool => exact .forM fun id hid => (poolWorker_raises hs).mono fun e he => he.mono fun hfits => hfits id hid
  | provider provider =>
    refine .bind (fun e he => ?_) fun _ _ => .forM fun id hid => (refer_raises hs).mono fun e he => he.mono fun hfits =>
      hfits id (Option.mem_toList.mp hid)
    unfold require at he
    split at he
    · cases he
    · exact .inl (.endpoint he)
  | modelProfile profile => exact compatibleProfile_raises hs
  | worker worker => exact .forM fun id hid => (workerProfile_raises hs).mono fun e he => he.mono fun hfits => hfits id hid
  | routePolicy route => exact .forM fun id hid => (routeCandidate_raises hs).mono fun e he => he.mono fun hfits => hfits id hid
  | agentRole _ | retryPolicy _ | permissionPolicy _ | executionProfile _ => exact .ok ()

end Raising

end Jarvis.Registry
