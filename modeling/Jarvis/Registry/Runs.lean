/-
  Jarvis.Registry.Runs — what holds of the registry over every run of requests.
-/
import Jarvis.Registry.Compatible

namespace Jarvis.Registry

open Workflows (RevisionId ConfigurationKind)
open Providers (HealthStatus CircuitState)
open Checks (bind_ok_iff forM_ok_iff Raises)

/-- A request, or the health of a provider's revision as it is observed elsewhere. -/
inductive Move where
  | request (o : Outside) (call : Call)
  | observe (id : RevisionId) (status : HealthStatus) (circuitState : CircuitState)

def step (svc : Service) (s : Store) : Move → Option Store
  | .request o call => (handle svc o s call).toOption.map Prod.snd
  | .observe id status circuitState =>
    some { s with providerHealth := observed id (fun row => { row with status, circuitState }) s.providerHealth }

variable {svc : Service} {o : Outside} {s t : Store} {kind : ConfigurationKind} {body : RegistryWrite} {actor : Nat} {configuration : Option Nat}
  {found : Target} {response : Response}

/-! ## What the tables say -/

def revisionsOf (revisions : List Revision) (configuration : Nat) : List Revision :=
  revisions.filter fun revision => revision.configuration = configuration

/-- A configuration's columns are those of a revision. -/
structure Shows (row : Configuration) (revision : Revision) : Prop where
  displayName_eq : row.displayName = revision.envelope.displayName
  description_eq : row.description = revision.envelope.description
  enabled_eq : row.enabled = revision.envelope.enabled
  archived_eq : row.archived = revision.envelope.archived

/-- The revisions of a configuration are numbered from one, and the last is the current one. -/
structure History (revisions : List Revision) (row : Configuration) : Prop where
  numbers : (revisionsOf revisions row.id).map Revision.revision = List.range' 1 row.version
  current : ∃ last, (revisionsOf revisions row.id).getLast? = some last ∧ row.currentRevision = some last.id ∧ Shows row last

/-- A revision is of the kind of its configuration, and its content hash covers what is stored. -/
def Owned (svc : Service) (configurations : List Configuration) (revision : Revision) : Prop :=
  ∃ row ∈ configurations, row.id = revision.configuration ∧ revision.envelope.spec.kind = row.kind ∧
    revision.contentHash = svc.tools.sha256 (payload svc row.kind row.key revision.revision revision.envelope)

/-- Who has a credential or a deployment, and what is said of it. -/
structure Located (spec : RegistrySpec) (ref : PrivateRef) : Prop where
  secret : ref.secretRef.isSome → ∃ provider, spec = .provider provider ∧ provider.providerKind ≠ .demo
  deployment : ref.deploymentRef.isSome → ∃ worker, spec = .worker worker ∧ worker.adapterKind ≠ .demo
  configured : ∀ worker, spec = .worker worker → worker.deploymentConfigured = ref.deploymentRef.isSome

structure WellFormed (svc : Service) (s : Store) : Prop where
  ids : Keyed.Allotted svc.uuid7 (s.configurations.map Configuration.id ++ s.revisions.map Revision.id) s.issued
  keys : (s.configurations.map fun row => (row.kind, row.key)).Nodup
  history : ∀ row ∈ s.configurations, History s.revisions row
  owned : ∀ revision ∈ s.revisions, Owned svc s.configurations revision
  fits : ∀ earlier revision later, s.revisions = earlier ++ revision :: later → Fits earlier revision.envelope.spec
  paired : s.privateRefs.map PrivateRef.revision = s.revisions.map Revision.id
  located : ∀ ref ∈ s.privateRefs, ∀ revision ∈ s.revisions, ref.revision = revision.id → Located revision.envelope.spec ref
  masked : ∀ revision ∈ s.revisions, ∀ worker, revision.envelope.spec = .worker worker → namesHost svc worker.executionHostLabel = false
  once : (s.idempotency.map Once.Entry.key).Nodup

namespace WellFormed

variable (hs : WellFormed svc s)
include hs

theorem configurations : (s.configurations.map Configuration.id).Nodup := hs.ids.nodup.sublist (List.sublist_append_left _ _)

theorem revisions : (s.revisions.map Revision.id).Nodup := hs.ids.nodup.sublist (List.sublist_append_right _ _)

theorem privateRefs : (s.privateRefs.map PrivateRef.revision).Nodup := hs.paired ▸ hs.revisions

theorem configuration?_of_mem {row : Configuration} (hrow : row ∈ s.configurations) : s.configuration? row.id = some row :=
  Keyed.find?_of_mem hs.configurations hrow

theorem typed : Typed s where
  ids := hs.revisions
  owned revision hrevision := by
    obtain ⟨row, hrow, hid, hkind, -⟩ := hs.owned revision hrevision
    exact ⟨row, hid ▸ hs.configuration?_of_mem hrow, hkind⟩

theorem unused {n : Nat} (hn : s.issued ≤ n) :
    (∀ row ∈ s.configurations, row.id ≠ svc.uuid7 n) ∧ ∀ revision ∈ s.revisions, revision.id ≠ svc.uuid7 n :=
  ⟨fun _ hrow heq => hs.ids.unused hn (heq ▸ List.mem_append_left _ (List.mem_map_of_mem hrow)),
    fun _ hrevision heq => hs.ids.unused hn (heq ▸ List.mem_append_right _ (List.mem_map_of_mem hrevision))⟩

/-- The private row of a revision. -/
theorem privateRef?_of_mem {revision : Revision} (hrevision : revision ∈ s.revisions) :
    ∃ ref ∈ s.privateRefs, ref.revision = revision.id ∧ s.privateRef? revision.id = some ref := by
  have hmem : revision.id ∈ s.privateRefs.map PrivateRef.revision := hs.paired ▸ List.mem_map_of_mem hrevision
  obtain ⟨ref, href, hid⟩ := List.mem_map.mp hmem
  exact ⟨ref, href, hid, hid ▸ Keyed.find?_of_mem hs.privateRefs href⟩

/-- The current revision of a configuration. -/
theorem current {row : Configuration} (hrow : row ∈ s.configurations) :
    ∃ last ∈ s.revisions, last.configuration = row.id ∧ row.currentRevision = some last.id ∧ last.revision = row.version ∧
      Shows row last := by
  obtain ⟨last, hlast, hcurrent, hshows⟩ := (hs.history row hrow).current
  have hmem := List.mem_of_getLast? hlast
  obtain ⟨hmem, hconfiguration⟩ := List.mem_filter.mp hmem
  refine ⟨last, hmem, of_decide_eq_true hconfiguration, hcurrent, ?_, hshows⟩
  have hnumbers := congrArg List.getLast? (hs.history row hrow).numbers
  rw [List.getLast?_map, hlast, List.getLast?_range'] at hnumbers
  split at hnumbers
  · cases hnumbers
  · have := Option.some.inj hnumbers
    omega

end WellFormed

theorem wellFormed_empty : WellFormed svc .empty where
  ids := ⟨List.nodup_nil, by rintro n ⟨⟩⟩
  keys := List.nodup_nil
  history := by rintro _ ⟨⟩
  owned := by rintro _ ⟨⟩
  fits earlier revision later h := by cases earlier <;> cases h
  paired := rfl
  located := by rintro _ ⟨⟩
  masked := by rintro _ ⟨⟩
  once := List.nodup_nil

/-! ## A new revision -/

/-- What is written is a new configuration, or one that has the version that was expected. -/
inductive Targets (svc : Service) (s : Store) (kind : ConfigurationKind) (body : RegistryWrite) : Option Nat → Target → Prop
  | create (hfree : ∀ row ∈ s.configurations, (row.kind, row.key) ≠ (kind, body.key)) (hversion : body.expectedVersion = 0) :
      Targets svc s kind body none { row := { id := svc.uuid7 s.issued, kind, key := body.key }, issued := s.issued + 1 }
  | update {row : Configuration} (hrow : row ∈ s.configurations) (hkind : row.kind = kind) (hkey : row.key = body.key)
      (hversion : row.version = body.expectedVersion) :
      Targets svc s kind body (some row.id) { row, previous := row.currentRevision.bind s.privateRef?, issued := s.issued }

theorem identity_ok {id : Nat} {row : Configuration} (h : identity s kind id = .ok row) :
    row ∈ s.configurations ∧ row.id = id ∧ row.kind = kind := by
  obtain ⟨hfound, hkind⟩ := Option.filter_eq_some_iff.mp (some?_ok_iff.mp h)
  exact ⟨List.mem_of_find?_eq_some hfound, by simpa using List.find?_some hfound, of_decide_eq_true hkind⟩

theorem target_ok (h : target svc s kind body configuration = .ok found) : Targets svc s kind body configuration found := by
  cases configuration with
  | none =>
    obtain ⟨_, hversion, h⟩ := Steps.bind_ok h
    obtain ⟨_, hfree, h⟩ := Steps.bind_ok h
    cases h
    refine .create (fun row hrow heq => ?_) (of_decide_eq_true (require_ok_iff.mp hversion))
    have := List.all_eq_true.mp (require_ok_iff.mp hfree) row hrow
    simp_all
  | some id =>
    obtain ⟨row, hrow, h⟩ := Steps.bind_ok h
    obtain ⟨_, hkey, h⟩ := Steps.bind_ok h
    obtain ⟨_, hversion, h⟩ := Steps.bind_ok h
    cases h
    obtain ⟨hmem, rfl, hkind⟩ := identity_ok hrow
    exact .update hmem hkind (of_decide_eq_true (require_ok_iff.mp hkey)).symm (of_decide_eq_true (require_ok_iff.mp hversion))

/-- What was admitted of a write before it revises the tables. -/
structure Admitted (svc : Service) (s : Store) (kind : ConfigurationKind) (body : RegistryWrite) (found : Target) : Prop where
  kind_eq : body.spec.kind = kind
  fits : Fits s.revisions body.spec
  secret : body.secretRef.isSome → body.spec.kind = .providerConnection
  deployment : body.deploymentRef.isSome → body.spec.kind = .worker
  demo : (found.ref svc body).secretRef.isSome → body.spec.demoProvider = false

namespace Targets

variable (hs : WellFormed svc s) (h : Targets svc s kind body configuration found)

include h

theorem issued_le : s.issued ≤ found.issued := by
  cases h with
  | create => exact Nat.le_succ _
  | update => exact Nat.le_refl _

theorem row_kind : found.row.kind = kind ∧ found.row.key = body.key := by
  cases h with
  | create => exact ⟨rfl, rfl⟩
  | update _ hkind hkey => exact ⟨hkind, hkey⟩

include hs

theorem row_id_ne : found.row.id ≠ found.id svc := by
  cases h with
  | create => exact fun heq => Nat.succ_ne_self _ (svc.uuid7_injective heq).symm
  | update hrow => exact (hs.unused (Nat.le_refl _)).1 _ hrow

theorem numbers : (revisionsOf s.revisions found.row.id).map Revision.revision = List.range' 1 found.row.version := by
  cases h with
  | create =>
    have hnone : revisionsOf s.revisions (svc.uuid7 s.issued) = [] := by
      refine List.filter_eq_nil_iff.mpr fun revision hrevision heq => ?_
      obtain ⟨row, hrow, hid, -⟩ := hs.owned revision hrevision
      exact (hs.unused (Nat.le_refl _)).1 row hrow (hid.trans (of_decide_eq_true heq))
    exact congrArg (List.map Revision.revision) hnone
  | update hrow => exact (hs.history _ hrow).numbers

theorem mem_configurations {row : Configuration} : row ∈ (revise svc s found body actor configuration).configurations ↔
    (row ∈ s.configurations ∧ row.id ≠ found.row.id) ∨ row = found.written svc body := by
  cases h with
  | create =>
    refine List.mem_append.trans (or_congr ⟨fun hrow => ⟨hrow, (hs.unused (Nat.le_refl _)).1 row hrow⟩, And.left⟩ List.mem_singleton)
  | @update old hold =>
    show row ∈ Keyed.replace Configuration.id old.id (fun _ => Target.written svc _ body) s.configurations ↔ _
    exact Keyed.mem_replace_of_mem hs.configurations hold

theorem ids : Keyed.Allotted svc.uuid7 ((revise svc s found body actor configuration).configurations.map Configuration.id ++
    (revise svc s found body actor configuration).revisions.map Revision.id) (found.issued + 1) := by
  have hrevisions : (revise svc s found body actor configuration).revisions.map Revision.id =
      s.revisions.map Revision.id ++ [found.id svc] := List.map_append
  have hrow : Keyed.Allotted svc.uuid7 ((revise svc s found body actor configuration).configurations.map Configuration.id ++
      s.revisions.map Revision.id) found.issued := by
    cases h with
    | create =>
      have hadd := hs.ids.add (hs.ids.unused (Nat.le_refl _)) (Nat.le_succ _) fun m hm => Nat.lt_succ_of_le (svc.uuid7_injective hm).le
      refine hadd.perm ?_
      show (s.configurations.map Configuration.id ++ s.revisions.map Revision.id ++ [svc.uuid7 s.issued]).Perm
        ((s.configurations ++ [_]).map Configuration.id ++ s.revisions.map Revision.id)
      rw [List.map_append, List.append_assoc, List.append_assoc]
      exact List.perm_append_comm.append_left _
    | @update old hold =>
      have hsame : (revise svc s ⟨old, old.currentRevision.bind s.privateRef?, s.issued⟩ body actor (some old.id)).configurations.map
          Configuration.id = s.configurations.map Configuration.id := Keyed.map_key_replace fun _ _ => rfl
      exact hsame ▸ hs.ids
  rw [hrevisions, ← List.append_assoc]
  exact hrow.add (hrow.unused (Nat.le_refl _)) (Nat.le_succ _) fun m hm => Nat.lt_succ_of_le (svc.uuid7_injective hm).le

theorem keys : ((revise svc s found body actor configuration).configurations.map fun row => (row.kind, row.key)).Nodup := by
  cases h with
  | create hfree => exact Keyed.nodup_append hs.keys hfree
  | @update old hold =>
    have hsame : (revise svc s ⟨old, old.currentRevision.bind s.privateRef?, s.issued⟩ body actor (some old.id)).configurations.map
        (fun row => (row.kind, row.key)) = s.configurations.map fun row => (row.kind, row.key) :=
      Keyed.map_replace_of_mem hs.configurations hold rfl rfl
    exact hsame ▸ hs.keys

/-- The private row that was found is that of a revision of the kind. -/
theorem previous {ref : PrivateRef} (href : found.previous = some ref) : ∃ spec, spec.kind = kind ∧ Located spec ref := by
  cases h with
  | create => cases href
  | update hrow hkind =>
    obtain ⟨last, hlast, hconfiguration, hcurrent, -⟩ := hs.current hrow
    obtain ⟨ref', href', hid, hfound⟩ := hs.privateRef?_of_mem hlast
    simp only [hcurrent, Option.bind_some, hfound, Option.some.injEq] at href
    subst href
    obtain ⟨owner, howner, howner_id, htyped, -⟩ := hs.owned last hlast
    have hsame := Keyed.unique hs.configurations howner hrow (howner_id.trans hconfiguration)
    exact ⟨last.envelope.spec, by rw [htyped, hsame, hkind], hs.located _ href' last hlast hid⟩

end Targets

theorem storedSpec_kind (deployment : Option String) (spec : RegistrySpec) : (storedSpec svc deployment spec).kind = spec.kind := by
  cases spec <;> rfl

theorem fits_storedSpec {revisions : List Revision} {deployment : Option String} {spec : RegistrySpec} (h : Fits revisions spec) :
    Fits revisions (storedSpec svc deployment spec) := by
  cases spec <;> exact h

/-! A label without a dot names no host by it. -/

theorem addressAt_dot {n : Nat} {chars : List Char} (h : addressAt svc (n + 1) chars = true) : '.' ∈ chars := by
  unfold addressAt at h
  simp only [Bool.and_eq_true] at h
  obtain ⟨-, h⟩ := h
  split at h
  · exact absurd ‹n + 1 = 0› (Nat.succ_ne_zero n)
  · rename_i hrest
    exact (List.dropWhile_sublist svc.digit).subset (hrest ▸ .head _)
  · cases h

theorem hasAddress_dot {before : Option Char} {chars : List Char} (h : '.' ∉ chars) : hasAddress svc before chars = false := by
  induction chars generalizing before with
  | nil => rfl
  | cons c rest ih =>
    have hnone : addressAt svc 3 (c :: rest) = false := Bool.eq_false_iff.mpr fun haddress => h (addressAt_dot haddress)
    rw [hasAddress, hnone, Bool.and_false, Bool.false_or]
    exact ih fun hmem => h (.tail _ hmem)

theorem hasDomain_dot {before : Option Char} {chars : List Char} (h : '.' ∉ chars) : hasDomain svc before chars = false := by
  induction chars generalizing before with
  | nil => rfl
  | cons c rest ih =>
    have hne : (c == '.') = false := beq_eq_false_iff_ne.mpr fun heq => h (heq ▸ .head _)
    rw [hasDomain, hne, Bool.false_and, Bool.false_and, Bool.false_and, Bool.false_or]
    exact ih fun hmem => h (.tail _ hmem)

theorem namesHost_masked : namesHost svc "Server-managed execution host" = false := by
  have hdot : '.' ∉ "Server-managed execution host".toList := by decide
  have hplain : "Server-managed execution host".toList.any (fun c => c ∈ ['/', '\\', '@', ':']) = false := by decide
  rw [namesHost, hplain, hasAddress_dot hdot, hasDomain_dot hdot]
  rfl

theorem storedSpec_masked {deployment : Option String} {spec : RegistrySpec} {worker : WorkerSpec}
    (h : storedSpec svc deployment spec = .worker worker) : namesHost svc worker.executionHostLabel = false := by
  cases spec with
  | worker sent =>
    cases h
    show namesHost svc (if namesHost svc sent.executionHostLabel then _ else _) = false
    split
    · exact namesHost_masked
    · rename_i hplain
      exact Bool.not_eq_true _ ▸ hplain
  | _ => cases h

theorem revisionsOf_revise (id : Nat) : revisionsOf (revise svc s found body actor configuration).revisions id =
    revisionsOf s.revisions id ++ if found.row.id = id then [found.revision svc body actor] else [] := by
  show (s.revisions ++ [found.revision svc body actor]).filter _ = _
  rw [List.filter_append]
  refine congrArg _ ?_
  by_cases hid : found.row.id = id
  · rw [if_pos hid]
    exact List.filter_cons_of_pos (decide_eq_true hid)
  · rw [if_neg hid]
    exact List.filter_cons_of_neg fun heq => hid (of_decide_eq_true heq)

section Revise

variable (hs : WellFormed svc s) (h : Targets svc s kind body configuration found)
include hs h

theorem history_revise {row : Configuration} (hrow : row ∈ (revise svc s found body actor configuration).configurations) :
    History (revise svc s found body actor configuration).revisions row := by
  obtain ⟨hold, hne⟩ | rfl := (h.mem_configurations hs).mp hrow
  · have hsame : revisionsOf (revise svc s found body actor configuration).revisions row.id = revisionsOf s.revisions row.id := by
      rw [revisionsOf_revise, if_neg hne.symm, List.append_nil]
    have hhistory := hs.history row hold
    exact ⟨hsame ▸ hhistory.numbers, hsame ▸ hhistory.current⟩
  · have hmore : revisionsOf (revise svc s found body actor configuration).revisions (found.written svc body).id =
        revisionsOf s.revisions found.row.id ++ [found.revision svc body actor] := by
      rw [revisionsOf_revise]
      exact congrArg _ (if_pos rfl)
    constructor
    · rw [hmore, List.map_append, h.numbers hs]
      show _ = List.range' 1 (found.row.version + 1)
      rw [List.range'_concat, Nat.one_mul, Nat.add_comm]
      rfl
    · exact ⟨_, by rw [hmore, List.getLast?_concat], rfl, rfl, rfl, rfl, rfl⟩

/-- A configuration stays, with its kind and its key. -/
theorem exists_configuration {row : Configuration} (hrow : row ∈ s.configurations) :
    ∃ row' ∈ (revise svc s found body actor configuration).configurations, row'.id = row.id ∧ row'.kind = row.kind ∧ row'.key = row.key ∧
      row.version ≤ row'.version := by
  by_cases hid : row.id = found.row.id
  · refine ⟨found.written svc body, (h.mem_configurations hs).mpr (.inr rfl), hid.symm, ?_⟩
    cases h with
    | create => exact absurd hid ((hs.unused (Nat.le_refl _)).1 row hrow)
    | update hold =>
      cases Keyed.unique hs.configurations hrow hold hid
      exact ⟨rfl, rfl, Nat.le_succ _⟩
  · exact ⟨row, (h.mem_configurations hs).mpr (.inl ⟨hrow, hid⟩), rfl, rfl, rfl, Nat.le_refl _⟩

/-- A locator is one that was sent, or was kept from the revision before. -/
theorem kept {α : Type} {sent : Option α} {get : PrivateRef → Option α} (hsome : (sent.or (found.previous.bind get)).isSome)
    (hsent : sent = none) : ∃ ref spec, (get ref).isSome ∧ spec.kind = kind ∧ Located spec ref := by
  subst hsent
  obtain ⟨value, hvalue⟩ := Option.isSome_iff_exists.mp hsome
  obtain ⟨ref, href, hget⟩ := Option.bind_eq_some_iff.mp ((Option.none_or).symm.trans hvalue)
  obtain ⟨spec, hkind, hlocated⟩ := h.previous hs href
  exact ⟨ref, spec, by rw [hget]; rfl, hkind, hlocated⟩

variable (hadmitted : Admitted svc s kind body found)
include hadmitted

theorem owned_revise {revision : Revision} (hrevision : revision ∈ (revise svc s found body actor configuration).revisions) :
    Owned svc (revise svc s found body actor configuration).configurations revision := by
  obtain hold | hnew := List.mem_append.mp hrevision
  · obtain ⟨row, hrow, hid, hkind, hhash⟩ := hs.owned revision hold
    obtain ⟨row', hrow', hid', hkind', hkey', -⟩ := exists_configuration hs h hrow
    exact ⟨row', hrow', hid'.trans hid, hkind.trans hkind'.symm, by rw [hkind', hkey', hhash]⟩
  · rw [List.mem_singleton.mp hnew]
    refine ⟨found.written svc body, (h.mem_configurations hs).mpr (.inr rfl), rfl, ?_, rfl⟩
    exact (storedSpec_kind _ _).trans (hadmitted.kind_eq.trans h.row_kind.1.symm)

omit h in
theorem fits_revise {earlier later : List Revision} {revision : Revision}
    (hsplit : (revise svc s found body actor configuration).revisions = earlier ++ revision :: later) :
    Fits earlier revision.envelope.spec := by
  have hsplit : s.revisions ++ [found.revision svc body actor] = earlier ++ revision :: later := hsplit
  obtain rfl | ⟨init, last, rfl⟩ := List.eq_nil_or_concat later
  · obtain ⟨rfl, hlast⟩ := List.append_inj' hsplit rfl
    cases hlast
    exact fits_storedSpec hadmitted.fits
  · rw [List.concat_eq_append, ← List.cons_append, ← List.append_assoc] at hsplit
    obtain ⟨heq, -⟩ := List.append_inj' hsplit rfl
    exact hs.fits _ _ _ heq

theorem located_new : Located (found.revision svc body actor).envelope.spec (found.ref svc body) := by
  show Located (storedSpec svc (found.ref svc body).deploymentRef body.spec) (found.ref svc body)
  have hsecret : (found.ref svc body).secretRef.isSome → body.spec.kind = .providerConnection := by
    intro hsome
    cases hsent : body.secretRef with
    | some value => exact hadmitted.secret (by rw [hsent]; rfl)
    | none =>
      have hor : (body.secretRef.or (found.previous.bind (·.secretRef))).isSome := by
        have hsome : (if body.clearSecret then none else body.secretRef.or (found.previous.bind (·.secretRef))).isSome := hsome
        split at hsome
        · cases hsome
        · exact hsome
      obtain ⟨ref, spec, hget, hkind, hlocated⟩ := kept hs h hor hsent
      obtain ⟨provider, rfl, -⟩ := hlocated.secret hget
      exact hadmitted.kind_eq.trans hkind.symm
  have hdeployment : (found.ref svc body).deploymentRef.isSome → body.spec.kind = .worker ∧ body.spec.demoWorker = false := by
    intro hsome
    have hsome : (if body.spec.demoWorker then none else body.deploymentRef.or (found.previous.bind (·.deploymentRef))).isSome := hsome
    split at hsome
    · cases hsome
    · rename_i hdemo
      refine ⟨?_, Bool.not_eq_true _ ▸ hdemo⟩
      cases hsent : body.deploymentRef with
      | some value => exact hadmitted.deployment (by rw [hsent]; rfl)
      | none =>
        obtain ⟨ref, spec, hget, hkind, hlocated⟩ := kept hs h hsome hsent
        obtain ⟨worker, rfl, -⟩ := hlocated.deployment hget
        exact hadmitted.kind_eq.trans hkind.symm
  refine ⟨fun hsome => ?_, fun hsome => ?_, fun worker hworker => ?_⟩
  · obtain ⟨provider, heq⟩ := exists_provider (hsecret hsome)
    have hdemo := hadmitted.demo hsome
    rw [heq] at hdemo ⊢
    exact ⟨provider, rfl, of_decide_eq_false hdemo⟩
  · obtain ⟨hkind, hdemo⟩ := hdeployment hsome
    obtain ⟨worker, heq⟩ := exists_worker hkind
    rw [heq] at hdemo ⊢
    exact ⟨_, rfl, of_decide_eq_false hdemo⟩
  · cases hspec : body.spec with
    | worker worker' =>
      rw [hspec] at hworker
      cases hworker
      rfl
    | _ =>
      rw [hspec] at hworker
      cases hworker

theorem revise_wellFormed : WellFormed svc (revise svc s found body actor configuration) where
  ids := h.ids hs
  keys := h.keys hs
  history _ hrow := history_revise hs h hrow
  owned _ hrevision := owned_revise hs h hadmitted hrevision
  fits _ _ _ hsplit := fits_revise hs hadmitted hsplit
  paired := by
    show (s.privateRefs ++ [found.ref svc body]).map _ = (s.revisions ++ [found.revision svc body actor]).map _
    rw [List.map_append, List.map_append, hs.paired]
    rfl
  located ref href revision hrevision heq := by
    have hfresh := (hs.unused h.issued_le).2
    obtain hold | hnew := List.mem_append.mp href <;> obtain hold' | hnew' := List.mem_append.mp hrevision
    · exact hs.located ref hold revision hold' heq
    · rw [List.mem_singleton.mp hnew'] at heq
      have hmem : ref.revision ∈ s.revisions.map Revision.id := hs.paired ▸ List.mem_map_of_mem hold
      obtain ⟨other, hother, hid⟩ := List.mem_map.mp hmem
      exact absurd (hid.trans heq) (hfresh other hother)
    · rw [List.mem_singleton.mp hnew] at heq
      exact absurd heq.symm (hfresh revision hold')
    · rw [List.mem_singleton.mp hnew, List.mem_singleton.mp hnew']
      exact located_new hs h hadmitted
  masked revision hrevision worker hworker := by
    obtain hold | hnew := List.mem_append.mp hrevision
    · exact hs.masked revision hold worker hworker
    · rw [List.mem_singleton.mp hnew] at hworker
      exact storedSpec_masked hworker
  once := hs.once

end Revise

/-! ## What a request does -/

def Call.scope : Call → Scope
  | .write kind body actor configuration => .write actor kind configuration body.idempotencyKey
  | .validate _ configuration idempotencyKey actor => .validate actor configuration idempotencyKey

def Call.digest (svc : Service) : Call → String
  | .write _ body _ _ => svc.tools.sha256 (body.dump svc)
  | .validate _ configuration _ _ => svc.tools.sha256 (.obj [("id", .int configuration)])

/-- What a fresh request does to the tables. -/
inductive Change (svc : Service) (o : Outside) (s : Store) : Call → Response → Store → Prop
  | write {kind : ConfigurationKind} {body : RegistryWrite} {actor : Nat} {configuration : Option Nat} {found : Target}
      (htarget : Targets svc s kind body configuration found) (hadmitted : Admitted svc s kind body found)
      (hcompatible : compatible o s body.spec = .ok ()) :
      Change svc o s (.write kind body actor configuration)
        (.record (record o (revise svc s found body actor configuration) (found.written svc body) (found.revision svc body actor)))
        (revise svc s found body actor configuration)
  | validate {kind : ConfigurationKind} {row : Configuration} {last : Revision} {idempotencyKey : String} {actor : Nat}
      (hrow : row ∈ s.configurations) (hkind : row.kind = kind) (hlast : last ∈ s.revisions) (hcurrent : row.currentRevision = some last.id)
      (providerHealth : List ProviderHealth) :
      Change svc o s (.validate kind row.id idempotencyKey actor) (.report (report o s (record o s row last))) { s with providerHealth }

theorem admissible_ok {done : Unit} (h : admissible svc kind body = .ok done) : body.spec.kind = kind ∧
    (body.secretRef.isSome → body.spec.kind = .providerConnection) ∧ (body.deploymentRef.isSome → body.spec.kind = .worker) := by
  obtain ⟨_, hkind, h⟩ := Steps.bind_ok h
  obtain ⟨_, -, h⟩ := Steps.bind_ok h
  obtain ⟨_, hsecret, h⟩ := Steps.bind_ok h
  obtain ⟨_, -, h⟩ := Steps.bind_ok h
  obtain ⟨_, hdeployment, -⟩ := Steps.bind_ok h
  refine ⟨of_decide_eq_true (require_ok_iff.mp hkind), fun hsome => ?_, fun hsome => ?_⟩
  · have hprovider := require_ok_iff.mp hsecret
    rw [hsome, Bool.true_and, Bool.not_eq_true', Bool.or_eq_false_iff] at hprovider
    obtain ⟨provider, hprovider⟩ := Option.isSome_iff_exists.mp (Option.isNone_eq_false_iff.mp hprovider.1)
    rw [provider?_eq.mp hprovider]
    rfl
  · have hworker := require_ok_iff.mp hdeployment
    rw [hsome, Bool.true_and, Bool.not_eq_true', Bool.or_eq_false_iff] at hworker
    obtain ⟨worker, hworker⟩ := Option.isSome_iff_exists.mp (Option.isNone_eq_false_iff.mp hworker.1)
    rw [worker?_eq.mp hworker]
    rfl

theorem writeFresh_ok (hs : WellFormed svc s) {done : Unit} (hadmissible : admissible svc kind body = .ok done)
    (h : writeFresh svc o s kind body actor configuration = .ok (response, t)) :
    Change svc o s (.write kind body actor configuration) response t := by
  obtain ⟨⟨⟩, hcompatible, h⟩ := Steps.bind_ok h
  obtain ⟨found, hfound, h⟩ := Steps.bind_ok h
  obtain ⟨_, hdemo, h⟩ := Steps.bind_ok h
  cases h
  obtain ⟨hkind, hsecret, hdeployment⟩ := admissible_ok hadmissible
  refine .write (target_ok hfound) ⟨hkind, ((compatible_iff hs.typed).mp hcompatible).1, hsecret, hdeployment, fun hsome => ?_⟩ hcompatible
  have hdemo := require_ok_iff.mp hdemo
  rwa [hsome, Bool.and_true, Bool.not_eq_true'] at hdemo

/-- The current revision of a configuration, as it is read. -/
theorem revision_current (hs : WellFormed svc s) {row : Configuration} (hrow : row ∈ s.configurations) {current : RevisionId}
    (hcurrent : row.currentRevision = some current) {result : RegistryRecord} (h : revision o s current none false = .ok result) :
    ∃ last ∈ s.revisions, row.currentRevision = some last.id ∧ result = record o s row last := by
  obtain ⟨⟨owner, last⟩, hfound, -, -, rfl⟩ := revision_ok_iff.mp h
  obtain ⟨hlast, hid, howner⟩ := owned?_some hfound
  obtain ⟨last', hlast', hconfiguration, hcurrent', -⟩ := hs.current hrow
  have hsame : last = last' := Keyed.unique hs.revisions hlast hlast' (hid.trans (Option.some.inj (hcurrent.symm.trans hcurrent')))
  subst hsame
  have howner : s.configuration? row.id = some owner := hconfiguration ▸ howner
  cases (hs.configuration?_of_mem hrow).symm.trans howner
  exact ⟨last, hlast', hcurrent', rfl⟩

theorem validateFresh_ok (hs : WellFormed svc s) {row : Configuration} (hrow : row ∈ s.configurations) (hkind : row.kind = kind)
    {current : RevisionId} (hcurrent : row.currentRevision = some current) {idempotencyKey : String}
    (h : validateFresh o s current = .ok (response, t)) : Change svc o s (.validate kind row.id idempotencyKey actor) response t := by
  obtain ⟨result, hresult, h⟩ := Steps.bind_ok h
  obtain ⟨last, hlast, hcurrent, rfl⟩ := revision_current hs hrow hcurrent hresult
  by_cases hprovider : (record o s row last).spec.provider?.isSome
  · simp only [hprovider, if_true] at h
    cases h
    exact .validate hrow hkind hlast hcurrent _
  · simp only [hprovider] at h
    cases h
    exact .validate hrow hkind hlast hcurrent s.providerHealth

/-- An accepted request: one that was answered already, or a fresh one. -/
inductive Accepted (svc : Service) (o : Outside) (s : Store) (call : Call) (response : Response) : Store → Prop
  | again (h : ⟨call.scope, call.digest svc, response⟩ ∈ s.idempotency) : Accepted svc o s call response s
  | fresh {t : Store} (hfresh : ∀ entry ∈ s.idempotency, entry.key ≠ call.scope) (hchange : Change svc o s call response t) :
      Accepted svc o s call response { t with idempotency := t.idempotency ++ [⟨call.scope, call.digest svc, response⟩] }

theorem serve_accepted {call : Call} {conflict : Raised} {run : Except Raised (Response × Store)}
    (hrun : ∀ {done}, run = .ok (response, done) → Change svc o s call response done)
    (h : Once.serve records s call.scope (call.digest svc) conflict run = .ok (response, t)) : Accepted svc o s call response t := by
  cases Once.serve_ok h with
  | again hmem => exact .again hmem
  | fresh hfresh hdone => exact .fresh hfresh (hrun hdone)

theorem handle_ok (hs : WellFormed svc s) {call : Call} (h : handle svc o s call = .ok (response, t)) : Accepted svc o s call response t := by
  cases call with
  | write kind body actor configuration =>
    obtain ⟨_, hadmissible, h⟩ := Steps.bind_ok h
    exact @serve_accepted _ _ _ _ _ (.write kind body actor configuration) _ _ (writeFresh_ok hs hadmissible) h
  | validate kind id idempotencyKey actor =>
    obtain ⟨_, -, h⟩ := Steps.bind_ok h
    obtain ⟨row, hrow, h⟩ := Steps.bind_ok h
    obtain ⟨current, hcurrent, h⟩ := Steps.bind_ok h
    obtain ⟨hmem, rfl, hkind⟩ := identity_ok hrow
    exact @serve_accepted _ _ _ _ _ (.validate kind row.id idempotencyKey actor) _ _
      (validateFresh_ok hs hmem hkind (some?_ok_iff.mp hcurrent)) h

/-! ## Runs -/

/-- What every request keeps: revisions and private rows as they are, and configurations under their names. -/
structure Grows (s t : Store) : Prop where
  revisions : s.revisions <+: t.revisions
  privateRefs : s.privateRefs <+: t.privateRefs
  idempotency : s.idempotency <+: t.idempotency
  configurations : ∀ row ∈ s.configurations, ∃ row' ∈ t.configurations, row'.id = row.id ∧ row'.kind = row.kind ∧ row'.key = row.key ∧
    row.version ≤ row'.version

theorem Grows.refl (s : Store) : Grows s s :=
  ⟨List.prefix_rfl, List.prefix_rfl, List.prefix_rfl, fun row hrow => ⟨row, hrow, rfl, rfl, rfl, Nat.le_refl _⟩⟩

theorem Grows.trans {u : Store} (h : Grows s t) (h' : Grows t u) : Grows s u where
  revisions := h.revisions.trans h'.revisions
  privateRefs := h.privateRefs.trans h'.privateRefs
  idempotency := h.idempotency.trans h'.idempotency
  configurations row hrow := by
    obtain ⟨row', hrow', hid, hkind, hkey, hversion⟩ := h.configurations row hrow
    obtain ⟨row'', hrow'', hid', hkind', hkey', hversion'⟩ := h'.configurations row' hrow'
    exact ⟨row'', hrow'', hid'.trans hid, hkind'.trans hkind, hkey'.trans hkey, hversion.trans hversion'⟩

/-- The health of providers is no part of what is kept. -/
theorem WellFormed.withHealth (hs : WellFormed svc s) (providerHealth : List ProviderHealth) : WellFormed svc { s with providerHealth } :=
  ⟨hs.ids, hs.keys, hs.history, hs.owned, hs.fits, hs.paired, hs.located, hs.masked, hs.once⟩

theorem Change.wellFormed (hs : WellFormed svc s) {call : Call} (h : Change svc o s call response t) : WellFormed svc t := by
  cases h with
  | write htarget hadmitted => exact revise_wellFormed hs htarget hadmitted
  | validate => exact hs.withHealth _

theorem Change.grows (hs : WellFormed svc s) {call : Call} (h : Change svc o s call response t) :
    Grows s t ∧ t.idempotency = s.idempotency := by
  cases h with
  | write htarget hadmitted =>
    exact ⟨⟨List.prefix_append _ _, List.prefix_append _ _, List.prefix_rfl, fun row hrow => exists_configuration hs htarget hrow⟩, rfl⟩
  | validate => exact ⟨⟨List.prefix_rfl, List.prefix_rfl, List.prefix_rfl, (Grows.refl s).configurations⟩, rfl⟩

theorem accepted_spec (hs : WellFormed svc s) {call : Call} (h : Accepted svc o s call response t) : WellFormed svc t ∧ Grows s t := by
  cases h with
  | again => exact ⟨hs, .refl s⟩
  | fresh hfresh hchange =>
    obtain ⟨hgrows, hidempotency⟩ := hchange.grows hs
    have hwell := hchange.wellFormed hs
    refine ⟨⟨hwell.ids, hwell.keys, hwell.history, hwell.owned, hwell.fits, hwell.paired, hwell.located, hwell.masked, ?_⟩,
      ⟨hgrows.revisions, hgrows.privateRefs, ?_, hgrows.configurations⟩⟩
    · rw [hidempotency]
      exact Keyed.nodup_append hs.once hfresh
    · rw [hidempotency]
      exact List.prefix_append _ _

theorem step_spec (hs : WellFormed svc s) {move : Move} (h : step svc s move = some t) : WellFormed svc t ∧ Grows s t := by
  cases move with
  | request o call =>
    obtain ⟨⟨response, t'⟩, hhandle, rfl⟩ := Option.map_eq_some_iff.mp h
    exact accepted_spec hs (handle_ok hs (Steps.toOption_ok hhandle))
  | observe id status circuitState =>
    cases h
    exact ⟨hs.withHealth _, ⟨List.prefix_rfl, List.prefix_rfl, List.prefix_rfl, (Grows.refl s).configurations⟩⟩

theorem reach_wellFormed (h : Steps.Reach (step svc) .empty s) : WellFormed svc s :=
  h.invariant _ wellFormed_empty fun _ _ _ hs _ hstep => (step_spec hs hstep).1

theorem reach_grows (hs : WellFormed svc s) (h : Steps.Reach (step svc) s t) : WellFormed svc t ∧ Grows s t :=
  h.invariant (fun t => WellFormed svc t ∧ Grows s t) ⟨hs, .refl s⟩ fun _ _ _ hall _ hstep =>
    ⟨(step_spec hall.1 hstep).1, hall.2.trans (step_spec hall.1 hstep).2⟩

/-! ## What is reported -/

def HasSecret (s : Store) (id : RevisionId) : Prop := ∃ ref ∈ s.privateRefs, ref.revision = id ∧ ref.secretRef.isSome

def HasDeployment (s : Store) (id : RevisionId) : Prop := ∃ ref ∈ s.privateRefs, ref.revision = id ∧ ref.deploymentRef.isSome

/-- What a configuration needs to be used: what it refers to is active and permitted, and it has its
    locators and is active itself. -/
structure Ready (o : Outside) (s : Store) (row : Configuration) (last : Revision) : Prop where
  active : ∀ id, Needs s.revisions last.envelope.spec id → Active s id
  permitted : Permitted o last.envelope.spec
  secret : ∀ provider, last.envelope.spec = .provider provider → provider.providerKind = .openai → HasSecret s last.id
  deployment : ∀ worker, last.envelope.spec = .worker worker → worker.adapterKind ≠ .demo → HasDeployment s last.id
  enabled : row.enabled = true
  archived : row.archived = false

theorem issue_eq_nil {found : Bool} {text : String} : issue found text = [] ↔ found = false := by
  cases found with
  | true => exact iff_of_false (by rintro ⟨⟩) (by rintro ⟨⟩)
  | false => exact iff_of_true rfl rfl

theorem raises_eq_false {x : Except Raised Unit} : raises x = false ↔ x = .ok () := by
  cases x with
  | error e => exact iff_of_false (by rintro ⟨⟩) (by rintro ⟨⟩)
  | ok done => exact iff_of_true rfl rfl

section Report

variable (hs : WellFormed svc s) {row : Configuration} {last : Revision}
include hs

/-- A stored revision fits what was stored before it. -/
theorem WellFormed.fits_of_mem (hlast : last ∈ s.revisions) : Fits s.revisions last.envelope.spec := by
  obtain ⟨earlier, later, hsplit⟩ := List.append_of_mem hlast
  refine Fits.mono (fun revision hmem => ?_) (hs.fits earlier last later hsplit)
  rw [hsplit]
  exact List.mem_append_left _ hmem

theorem secretStatus_missing (hlast : last ∈ s.revisions) : ¬ secretStatus (s.privateRef? last.id) last.envelope.spec = .missing ↔
    ∀ provider, last.envelope.spec = .provider provider → provider.providerKind = .openai → HasSecret s last.id := by
  obtain ⟨ref, href, hid, hfound⟩ := hs.privateRef?_of_mem hlast
  have hsecret : HasSecret s last.id ↔ ref.secretRef.isSome := by
    refine ⟨?_, fun hsome => ⟨ref, href, hid, hsome⟩⟩
    rintro ⟨other, hother, hother_id, hsome⟩
    rwa [Keyed.unique hs.privateRefs href hother (hid.trans hother_id.symm)]
  rw [hfound, hsecret]
  cases hspec : last.envelope.spec with
  | provider provider =>
    by_cases hsome : ref.secretRef.isSome <;> by_cases hkind : provider.providerKind = .openai <;>
      simp [secretStatus, RegistrySpec.provider?, hsome, hkind]
  | _ => exact iff_of_true (by rintro ⟨⟩) (by rintro _ ⟨⟩)

theorem deployment_missing (hlast : last ∈ s.revisions) :
    (last.envelope.spec.worker?.any fun worker => worker.adapterKind ≠ .demo && !worker.deploymentConfigured) = false ↔
      ∀ worker, last.envelope.spec = .worker worker → worker.adapterKind ≠ .demo → HasDeployment s last.id := by
  obtain ⟨ref, href, hid, hfound⟩ := hs.privateRef?_of_mem hlast
  have hdeployment : HasDeployment s last.id ↔ ref.deploymentRef.isSome := by
    refine ⟨?_, fun hsome => ⟨ref, href, hid, hsome⟩⟩
    rintro ⟨other, hother, hother_id, hsome⟩
    rwa [Keyed.unique hs.privateRefs href hother (hid.trans hother_id.symm)]
  have hconfigured := (hs.located ref href last hlast hid).configured
  rw [hdeployment]
  cases hspec : last.envelope.spec with
  | worker worker =>
    rw [← hconfigured worker hspec]
    by_cases hkind : worker.adapterKind = .demo <;> simp [RegistrySpec.worker?, hkind]
  | _ => exact iff_of_true rfl (by rintro _ ⟨⟩)

/-- A report is valid where the configuration is ready. -/
theorem report_valid (hlast : last ∈ s.revisions) (hshows : Shows row last) :
    (report o s (record o s row last)).valid = true ↔ Ready o s row last := by
  have hfits := hs.fits_of_mem hlast
  simp only [report, List.isEmpty_iff, validationIssues, List.append_eq_nil_iff, issue_eq_nil, raises_eq_false]
  have hcompatible : compatible o s (record o s row last).spec = .ok () ↔
      (∀ id, Needs s.revisions last.envelope.spec id → Active s id) ∧ Permitted o last.envelope.spec :=
    (compatible_iff hs.typed).trans (and_iff_right hfits)
  have hsecret := secretStatus_missing hs hlast
  have hdeployment := deployment_missing hs hlast
  rw [hcompatible, show (record o s row last).secretStatus = secretStatus (s.privateRef? last.id) last.envelope.spec from rfl,
    show (record o s row last).spec = last.envelope.spec from rfl, decide_eq_false_iff_not, hsecret, hdeployment, Bool.or_eq_false_iff,
    Bool.not_eq_false', show (record o s row last).enabled = row.enabled from hshows.enabled_eq.symm,
    show (record o s row last).archived = row.archived from hshows.archived_eq.symm]
  constructor
  · rintro ⟨⟨⟨⟨hactive, hpermitted⟩, hsecret⟩, hdeployment⟩, henabled, harchived⟩
    exact ⟨hactive, hpermitted, hsecret, hdeployment, henabled, harchived⟩
  · rintro ⟨hactive, hpermitted, hsecret, hdeployment, henabled, harchived⟩
    exact ⟨⟨⟨⟨hactive, hpermitted⟩, hsecret⟩, hdeployment⟩, henabled, harchived⟩

end Report

/-! ## What is raised -/

section Raising

/-- Nothing fits: any problem may be raised, but no assertion fails. -/
theorem require_complaint {condition : Bool} {status : Nat} {code message : String} :
    Raises (Complaint False) (require condition status code message) := require_raises False.elim

theorem some?_complaint {α : Type} {value : Option α} {status : Nat} {code message : String} :
    Raises (Complaint False) (some? value status code message) := some?_raises False.elim

theorem safe_complaint (value : Json) : Raises (Complaint False) (safe svc value) := by
  unfold safe
  split
  · exact .error (.inr ⟨id, by rintro ⟨⟩⟩)
  · exact .ok ()

theorem serve_complaint {call : Call} {message : String} {run : Except Raised (Response × Store)} (h : Raises (Complaint False) run) :
    Raises (Complaint False) (Once.serve records s call.scope (call.digest svc) (idempotencyConflict message) run) := by
  unfold Once.serve
  split
  · split
    · exact .ok _
    · exact .error (.inr ⟨id, by rintro ⟨⟩⟩)
  · cases run with
    | error e => exact .error (h e rfl)
    | ok done => exact .ok _

theorem admissible_complaint : Raises (Complaint False) (admissible svc kind body) :=
  .bind require_complaint fun _ _ => .bind (safe_complaint _) fun _ _ => .bind require_complaint fun _ _ =>
    .bind require_complaint fun _ _ => .bind require_complaint fun _ _ => .bind (safe_complaint _) fun _ _ => safe_complaint _

theorem target_complaint : Raises (Complaint False) (target svc s kind body configuration) := by
  cases configuration with
  | none => exact .bind require_complaint fun _ _ => .bind require_complaint fun _ _ => .ok _
  | some id =>
    exact .bind some?_complaint fun _ _ => .bind require_complaint fun _ _ => .bind require_complaint fun _ _ => .ok _

variable (hs : WellFormed svc s)
include hs

theorem handle_complaint (call : Call) : Raises (Complaint False) (handle svc o s call) := by
  cases call with
  | write kind body actor configuration =>
    refine .bind admissible_complaint fun _ _ => @serve_complaint _ _ (.write kind body actor configuration) _ _ ?_
    exact .bind ((compatible_complaint hs.typed).mono fun e he => he.mono False.elim) fun _ _ =>
      .bind target_complaint fun _ _ => .bind require_complaint fun _ _ => .ok _
  | validate kind id idempotencyKey actor =>
    refine .bind (safe_complaint _) fun _ _ => .bind some?_complaint fun _ _ => .bind some?_complaint fun current _ =>
      @serve_complaint _ _ (.validate kind id idempotencyKey actor) _ _ ?_
    exact .bind (.bind some?_complaint fun _ _ => .bind require_complaint fun _ _ => .ok _) fun _ _ => .ok _

end Raising

/-! ## The results -/

def sampleService : Service where
  tools := Workflows.Documents.sampleTools
  dump _ _ := .obj []
  word c := c.isAlphanum
  digit c := c.isDigit
  uuid7 := id
  uuid7_injective := Function.injective_id

def sampleOutside : Outside where
  allowedEndpoints := ["https://models"]
  publishedWorkflows := []
  workerHealth _ := none
  slots _ := (0, none, false)

def sampleProvider : ProviderSpec where
  providerKind := .openai
  locality := .remote
  retryPolicyRevisionId := none
  baseUrl := some "https://models"

def sampleProfile : ModelProfileSpec where
  providerRevisionId := 1
  purposes := ["developer"]
  capabilities := ["chat"]
  structuredJson := true
  toolCalls := false
  streaming := false
  locality := .remote
  parameters := ["temperature"]
  contextLimit := 32768

def sampleWorker : WorkerSpec where
  adapterKind := .openhandsSshV1
  capabilities := ["code"]
  maxConcurrency := 1
  bindingMode := .workerManaged
  allowedProfileRevisionIds := [3]
  executionHostLabel := "build.example.com"

/-- A provider, a profile of it and a worker with the profile. -/
def sampleMoves : List Move := [
  .request sampleOutside (.write .providerConnection
    { key := "models", displayName := "Models", idempotencyKey := "create-01", spec := .provider sampleProvider,
      secretRef := some "secret:m" } 0 none),
  .request sampleOutside (.write .modelProfile
    { key := "large", displayName := "Large", idempotencyKey := "create-02", spec := .modelProfile sampleProfile } 0 none),
  .request sampleOutside (.write .worker
    { key := "builder", displayName := "Builder", idempotencyKey := "create-03", spec := .worker sampleWorker,
      deploymentRef := some "secret:w" } 0 none)]

def sampleStore : Store := (Steps.run (step sampleService) .empty sampleMoves).getD .empty

theorem sampleStore_reach : Steps.Reach (step sampleService) .empty sampleStore := by
  have hsome : (Steps.run (step sampleService) .empty sampleMoves).isSome = true := by decide +kernel
  obtain ⟨s, hs⟩ := Option.isSome_iff_exists.mp hsome
  rw [sampleStore, hs]
  exact Steps.run_reach sampleMoves hs

/-- The provider under another name. -/
def sampleRename : Move :=
  .request sampleOutside (.write .providerConnection
    { key := "models", displayName := "Renamed", expectedVersion := 1, idempotencyKey := "rename-01",
      spec := .provider sampleProvider } 0 (some 0))

/-- Where the provider's endpoint is no longer allowed. -/
def sampleClosed : Outside := { sampleOutside with allowedEndpoints := [] }

def Response.valid : Response → Bool
  | .record _ => false
  | .report result => result.valid

/-- In every registry reached, a configuration's revisions are numbered from one, the last is its current
    one, and each is of the configuration's kind and hashed under its key; and whatever runs, revisions stay
    as they are and configurations keep their kinds and keys. -/
theorem configurations_history (svc : Service) {s t : Store} (hs : Steps.Reach (step svc) .empty s) (ht : Steps.Reach (step svc) s t) :
    (∀ row ∈ t.configurations, History t.revisions row) ∧ (∀ revision ∈ t.revisions, Owned svc t.configurations revision) ∧
      s.revisions <+: t.revisions ∧
      ∀ row ∈ s.configurations, ∃ row' ∈ t.configurations, row'.id = row.id ∧ row'.kind = row.kind ∧ row'.key = row.key ∧
        row.version ≤ row'.version := by
  obtain ⟨hwell, hgrows⟩ := reach_grows (reach_wellFormed hs) ht
  exact ⟨hwell.history, hwell.owned, hgrows.revisions, hgrows.configurations⟩

theorem configurations_history_sample : ∃ s : Store, ∃ row ∈ s.configurations, row.version = 2 ∧ History s.revisions row ∧
    sampleStore.revisions <+: s.revisions := by
  have h : ((step sampleService sampleStore sampleRename).map fun s => s.configurations.any fun row => row.version = 2) = some true := by
    decide +kernel
  obtain ⟨s, hs, hany⟩ := Option.map_eq_some_iff.mp h
  obtain ⟨row, hrow, hversion⟩ := List.any_eq_true.mp hany
  obtain ⟨hhistory, -, hprefix, -⟩ := configurations_history sampleService sampleStore_reach (.step sampleRename .init trivial hs)
  exact ⟨s, row, hrow, of_decide_eq_true hversion, hhistory row hrow, hprefix⟩

/-- No request fails an assertion; and where a stored specification is checked again, only what asks for
    attention is raised. -/
theorem rechecked (svc : Service) (hs : Steps.Reach (step svc) .empty s) (o : Outside) :
    (∀ call, handle svc o s call ≠ .error .assertion) ∧
      ∀ revision ∈ s.revisions, ∀ e, compatible o s revision.envelope.spec = .error e → Attention e := by
  have hwell := reach_wellFormed hs
  refine ⟨fun call hraised => (handle_complaint hwell call _ hraised).ne_assertion rfl, fun revision hrevision e he => ?_⟩
  exact (compatible_complaint hwell.typed e he).resolve_right fun hnot => hnot.1 (hwell.fits_of_mem hrevision)

theorem rechecked_sample : ∃ revision ∈ sampleStore.revisions, ∃ e,
    compatible sampleClosed sampleStore revision.envelope.spec = .error e ∧ Attention e := by
  have h : (sampleStore.revisions.any fun revision => raises (compatible sampleClosed sampleStore revision.envelope.spec)) = true := by
    decide +kernel
  obtain ⟨revision, hrevision, hraises⟩ := List.any_eq_true.mp h
  cases hcompatible : compatible sampleClosed sampleStore revision.envelope.spec with
  | ok => rw [hcompatible] at hraises; cases hraises
  | error e =>
    exact ⟨revision, hrevision, e, hcompatible, (rechecked sampleService sampleStore_reach sampleClosed).2 revision hrevision e hcompatible⟩

/-- A fresh validation reports on the current revision, and reports it valid just when it is ready. -/
theorem validate_exact (svc : Service) (hs : Steps.Reach (step svc) .empty s) {kind : ConfigurationKind} {id actor : Nat}
    {idempotencyKey : String} {result : ValidationReport} (hfresh : ∀ entry ∈ s.idempotency, entry.key ≠ .validate actor id idempotencyKey)
    (h : handle svc o s (.validate kind id idempotencyKey actor) = .ok (.report result, t)) :
    ∃ row ∈ s.configurations, row.id = id ∧ row.kind = kind ∧ ∃ last ∈ s.revisions, row.currentRevision = some last.id ∧
      last.revision = row.version ∧ (result.valid = true ↔ Ready o s row last) := by
  have hwell := reach_wellFormed hs
  cases handle_ok hwell h with
  | again hmem => exact absurd rfl (hfresh _ hmem)
  | fresh _ hchange =>
    cases hchange with
    | @validate _ row last _ _ hrow hkind hlast hcurrent =>
      obtain ⟨last', hlast', -, hcurrent', hversion, hshows⟩ := hwell.current hrow
      cases Keyed.unique hwell.revisions hlast hlast' (Option.some.inj (hcurrent.symm.trans hcurrent'))
      exact ⟨row, hrow, rfl, hkind, last, hlast, hcurrent, hversion, report_valid hwell hlast hshows⟩

theorem validate_exact_sample : ∃ row ∈ sampleStore.configurations, row.id = 0 ∧ ∃ last ∈ sampleStore.revisions,
    row.currentRevision = some last.id ∧ Ready sampleOutside sampleStore row last := by
  have h : ((handle sampleService sampleOutside sampleStore (.validate .providerConnection 0 "check-01" 0)).toOption.any
      fun done => done.1.valid) = true := by decide +kernel
  have hfresh : ∀ entry ∈ sampleStore.idempotency, entry.key ≠ .validate 0 0 "check-01" := by decide +kernel
  obtain ⟨⟨response, t⟩, hdone, hvalid⟩ := (Option.any_eq_true _ _).mp h
  cases response with
  | record => cases hvalid
  | report result =>
    obtain ⟨row, hrow, hid, -, last, hlast, hcurrent, -, hready⟩ :=
      validate_exact sampleService sampleStore_reach hfresh (Steps.toOption_ok hdone)
    exact ⟨row, hrow, hid, last, hlast, hcurrent, hready.mp hvalid⟩

/-- Every revision has one private row. Only a provider that is not a demo has a credential and only a worker
    that is not a demo a deployment; a worker's specification says whether it has one, and no label of a
    worker's host names a host. -/
theorem locators_shown (svc : Service) (hs : Steps.Reach (step svc) .empty s) :
    s.privateRefs.map PrivateRef.revision = s.revisions.map Revision.id ∧
      (∀ ref ∈ s.privateRefs, ∀ revision ∈ s.revisions, ref.revision = revision.id → Located revision.envelope.spec ref) ∧
      ∀ revision ∈ s.revisions, ∀ worker, revision.envelope.spec = .worker worker → namesHost svc worker.executionHostLabel = false :=
  have hwell := reach_wellFormed hs
  ⟨hwell.paired, hwell.located, hwell.masked⟩

theorem locators_shown_sample : ∃ ref ∈ sampleStore.privateRefs, ref.secretRef.isSome ∧ ∃ revision ∈ sampleStore.revisions,
    ref.revision = revision.id ∧ Located revision.envelope.spec ref := by
  have h : (sampleStore.privateRefs.any fun ref => ref.secretRef.isSome) = true := by decide +kernel
  obtain ⟨ref, href, hsome⟩ := List.any_eq_true.mp h
  obtain ⟨hpaired, hlocated, -⟩ := locators_shown sampleService sampleStore_reach
  obtain ⟨revision, hrevision, hid⟩ := List.mem_map.mp (hpaired ▸ List.mem_map_of_mem href)
  exact ⟨ref, href, hsome, revision, hrevision, hid.symm, hlocated ref href revision hrevision hid.symm⟩

end Jarvis.Registry
