/-
  Jarvis.Workflows.Resolution — the revisions a workflow refers to (`WorkflowService._resolve`).

  `_resolve` follows the references of each node's policy through the registry: a worker or a route to
  its model profiles, a profile to its provider, a provider to its retry policy. It is `Lib.Collect`
  on the registry's rows. A row that was read has a typed specification; one that has none is left
  out here, and missing to `_resolve`.

  What it returns is what the references reach, whatever their order (`resolve_exact`,
  `resolve_reordered`), and what it returns without an issue passes the validator's own checks of
  references (`resolve_accepted`), although the two are written apart.
-/
import Jarvis.Lib.Collect
import Jarvis.Workflows.Routing

namespace Jarvis.Workflows.Resolution

/-- A revision with what is said of its configuration. -/
structure RegistryRow where
  record : WorkflowResolvedRevision
  identityEnabled : Bool
  identityArchived : Bool

/-- `_revision(revision_id, active=True)`. -/
def activeRevision (rows : List RegistryRow) (id : RevisionId) : Option WorkflowResolvedRevision :=
  (rows.find? fun row => row.record.revisionId = id).bind fun row =>
    if !row.record.enabled || row.record.archived || !row.identityEnabled || row.identityArchived then none else some row.record

/-- The references of a revision that `visit` follows. -/
def revisionRefs : RegistrySpec → List (RevisionId × ConfigurationKind)
  | .routePolicy child => child.candidates.map fun candidate => (candidate, .modelProfile)
  | .modelProfile child => [(child.providerRevisionId, .providerConnection)]
  | .worker child => child.allowedProfileRevisionIds.map fun profile => (profile, .modelProfile)
  | .provider child => child.retryPolicyRevisionId.toList.map fun policy => (policy, .retryPolicy)
  | _ => []

/-- The references of a policy that `_resolve` visits. -/
def nodeRefs (policy : NodePolicy) : List (RevisionId × ConfigurationKind) :=
  policy.workerSelector.toList.map (fun selector => (selector.revisionId, .worker)) ++
    [(policy.modelRouteRef, ConfigurationKind.routePolicy), (policy.retryPolicyRef, .retryPolicy),
      (policy.permissionPolicyRef, .permissionPolicy)].filterMap (fun ref => ref.1.map fun id => (id, ref.2)) ++
    policy.verification.toList.flatMap fun verification =>
      verification.executionProfileRevisionIds.map fun id => (id, .executionProfile)

/-- How far references can lead from a revision of a kind. -/
def rank : ConfigurationKind → Nat
  | .worker | .routePolicy => 3
  | .modelProfile => 2
  | .providerConnection => 1
  | _ => 0

theorem activeRevision_spec {rows : List RegistryRow} {id : RevisionId} {revision : WorkflowResolvedRevision}
    (h : activeRevision rows id = some revision) :
    revision.revisionId = id ∧ revision.enabled = true ∧ revision.archived = false := by
  obtain ⟨row, hrow, hactive⟩ := Option.bind_eq_some_iff.mp h
  have hid := List.find?_some hrow
  split at hactive
  · cases hactive
  · rename_i hok
    cases hactive
    simp only [Bool.or_eq_true, Bool.not_eq_true', not_or, Bool.not_eq_false, Bool.not_eq_true] at hok
    exact ⟨of_decide_eq_true hid, hok.1.1.1, hok.1.1.2⟩

theorem rank_lt {spec : RegistrySpec} {ref : RevisionId × ConfigurationKind} (h : ref ∈ revisionRefs spec) :
    rank ref.2 < rank spec.kind := by
  cases spec with
  | routePolicy child | worker child =>
    obtain ⟨id, -, rfl⟩ := List.mem_map.mp h
    exact Nat.lt_succ_self 2
  | modelProfile child =>
    rw [List.mem_singleton.mp h]
    exact Nat.lt_succ_self 1
  | provider child =>
    obtain ⟨id, -, rfl⟩ := List.mem_map.mp h
    exact Nat.lt_succ_self 0
  | agentRole | teamTemplate | retryPolicy | permissionPolicy | executionProfile | workerPool => cases h

def source (rows : List RegistryRow) : Collect.Source RevisionId ConfigurationKind WorkflowResolvedRevision where
  find := activeRevision rows
  id := (·.revisionId)
  kind := (·.spec.kind)
  refs revision := revisionRefs revision.spec
  rank := rank
  id_find h := (activeRevision_spec h).1
  rank_lt := rank_lt

def unavailable (node : WorkflowNode) : WorkflowIssue :=
  { code := "reference.unavailable", message := "Referenced revision is missing, disabled or archived", node := node.id }

def incompatible (node : WorkflowNode) : WorkflowIssue :=
  { code := "reference.kind", message := "Revision kind is incompatible", node := node.id }

/-- The references that are visited, with what is said where one leads nowhere. -/
def specRefs (spec : WorkflowSpec) : List (WorkflowIssue × WorkflowIssue × RevisionId × ConfigurationKind) :=
  spec.nodes.flatMap fun node => (nodeRefs (effectivePolicy spec node)).map fun ref => (unavailable node, incompatible node, ref)

/-- `_resolve`. -/
def resolve (rows : List RegistryRow) (spec : WorkflowSpec) (contentHash : String) :
    WorkflowResolvedSnapshot × List WorkflowIssue :=
  let collected := Collect.collect (source rows) (specRefs spec) {}
  ({ workflowContentHash := contentHash, compilerVersion, revisions := collected.records }, collected.issues)

/-- The references that a workflow's policies lead to. -/
inductive Leads (rows : List RegistryRow) (spec : WorkflowSpec) : RevisionId × ConfigurationKind → Prop
  | policy {node : WorkflowNode} {ref : RevisionId × ConfigurationKind} :
      node ∈ spec.nodes → ref ∈ nodeRefs (effectivePolicy spec node) → Leads rows spec ref
  | revision {ref next : RevisionId × ConfigurationKind} {revision : WorkflowResolvedRevision} :
      Leads rows spec ref → activeRevision rows ref.1 = some revision → revision.spec.kind = ref.2 →
        next ∈ revisionRefs revision.spec → Leads rows spec next

variable {rows : List RegistryRow} {spec : WorkflowSpec} {contentHash : String}

theorem mem_specRefs {ref : RevisionId × ConfigurationKind} : ref ∈ (specRefs spec).map (fun ref => ref.2.2) ↔
    ∃ node ∈ spec.nodes, ref ∈ nodeRefs (effectivePolicy spec node) := by
  simp only [specRefs, List.map_flatMap, List.map_map, List.mem_flatMap, List.mem_map, Function.comp]
  constructor
  · rintro ⟨node, hnode, _, href, rfl⟩
    exact ⟨node, hnode, href⟩
  · rintro ⟨node, hnode, href⟩
    exact ⟨node, hnode, ref, href, rfl⟩

theorem leads_iff {ref : RevisionId × ConfigurationKind} :
    Leads rows spec ref ↔ Collect.Reached (source rows) ((specRefs spec).map fun ref => ref.2.2) ref := by
  constructor
  · intro h
    induction h with
    | policy hnode href => exact .root (mem_specRefs.mpr ⟨_, hnode, href⟩)
    | revision _ hfind hkind hnext ih => exact .next ih hfind hkind hnext
  · intro h
    induction h with
    | root hmem =>
      obtain ⟨node, hnode, href⟩ := mem_specRefs.mp hmem
      exact .policy hnode href
    | next _ hfind hkind hnext ih => exact .revision ih hfind hkind hnext

theorem mem_resolve {revision : WorkflowResolvedRevision} : revision ∈ (resolve rows spec contentHash).1.revisions ↔
    activeRevision rows revision.revisionId = some revision ∧ Leads rows spec (revision.revisionId, revision.spec.kind) := by
  rw [leads_iff]
  exact Collect.mem_collect

theorem resolve_nodup : ((resolve rows spec contentHash).1.revisions.map (·.revisionId)).Nodup :=
  @Collect.collect_nodup _ _ _ _ (source rows) _ _ (specRefs spec)

theorem resolve_issues : (resolve rows spec contentHash).2 = [] ↔
    ∀ ref, Leads rows spec ref → ∃ revision, activeRevision rows ref.1 = some revision ∧ revision.spec.kind = ref.2 := by
  simp only [leads_iff]
  exact Collect.collect_issues

/-- `_resolve` returns each active revision that the references reach once, and no other, and has no
    issue just when every reference that is reached leads to an active revision of its kind. -/
theorem resolve_exact (rows : List RegistryRow) (spec : WorkflowSpec) (contentHash : String) :
    ((resolve rows spec contentHash).1.revisions.map (·.revisionId)).Nodup ∧
      (∀ revision, revision ∈ (resolve rows spec contentHash).1.revisions ↔
        activeRevision rows revision.revisionId = some revision ∧ Leads rows spec (revision.revisionId, revision.spec.kind)) ∧
      ((resolve rows spec contentHash).2 = [] ↔
        ∀ ref, Leads rows spec ref → ∃ revision, activeRevision rows ref.1 = some revision ∧ revision.spec.kind = ref.2) :=
  ⟨resolve_nodup, fun _ => mem_resolve, resolve_issues⟩

/-! ## The order of nodes -/

theorem leads_congr {other : WorkflowSpec} (h : ∀ ref, ref ∈ (specRefs other).map (fun ref => ref.2.2) ↔
    ref ∈ (specRefs spec).map (fun ref => ref.2.2)) {ref : RevisionId × ConfigurationKind} :
    Leads rows other ref ↔ Leads rows spec ref := by
  rw [leads_iff, leads_iff]
  exact ⟨Collect.Reached.mono fun ref hmem => .root ((h ref).mp hmem), Collect.Reached.mono fun ref hmem => .root ((h ref).mpr hmem)⟩

/-- The order of a workflow's nodes has no part in what is resolved. -/
theorem resolve_reordered (rows : List RegistryRow) (spec other : WorkflowSpec) (contentHash : String)
    (hdefaults : other.defaults = spec.defaults) (hnodes : other.nodes.Perm spec.nodes) :
    (resolve rows other contentHash).1.revisions.Perm (resolve rows spec contentHash).1.revisions ∧
      ((resolve rows other contentHash).2 = [] ↔ (resolve rows spec contentHash).2 = []) := by
  have hpolicy : ∀ node, effectivePolicy other node = effectivePolicy spec node := fun node => by
    simp only [effectivePolicy, hdefaults]
  have hleads : ∀ ref, Leads rows other ref ↔ Leads rows spec ref := fun ref =>
    leads_congr fun ref => by simp only [mem_specRefs, hpolicy, hnodes.mem_iff]
  refine ⟨?_, by simp only [resolve_issues, hleads]⟩
  refine (List.perm_ext_iff_of_nodup (List.Nodup.of_map _ resolve_nodup) (List.Nodup.of_map _ resolve_nodup)).mpr fun revision => ?_
  rw [mem_resolve, mem_resolve, hleads]

/-- A registry with the revisions of the sample workflows. -/
def sampleRows : List RegistryRow := sampleSnapshot.revisions.map fun record => { record, identityEnabled := true, identityArchived := false }

def reversedBuild : WorkflowSpec :=
  { retriedBuild with
    nodes := retriedBuild.nodes.reverse, node_ids := by decide, entrypoint_mem := by decide, endpoints_mem := by decide }

theorem resolve_reordered_sample :
    (resolve sampleRows reversedBuild "content").1.revisions.Perm (resolve sampleRows retriedBuild "content").1.revisions :=
  (resolve_reordered sampleRows retriedBuild reversedBuild "content" rfl (List.reverse_perm _)).1

/-! ## What the validator checks -/

/-- The validator's references of a revision are the ones that are followed. -/
theorem revisionDependencies_eq (spec : RegistrySpec) : revisionDependencies spec = revisionRefs spec := by
  cases spec with
  | provider child => cases h : child.retryPolicyRevisionId <;> simp [revisionDependencies, revisionRefs, h]
  | _ => rfl

theorem mem_nodeRefs {policy : NodePolicy} {id : RevisionId} {kind : ConfigurationKind} {name : String}
    (h : (some id, kind, name) ∈ policyRefs policy) : (id, kind) ∈ nodeRefs policy := by
  simp only [policyRefs, List.mem_append, List.mem_cons, Prod.mk.injEq, List.not_mem_nil, or_false, List.mem_map] at h
  simp only [nodeRefs, List.mem_append, List.mem_map, Option.mem_toList, List.mem_filterMap, List.mem_cons, List.not_mem_nil, or_false,
    List.mem_flatMap]
  rcases h with (⟨hid, rfl, -⟩ | ⟨hid, rfl, -⟩ | ⟨hid, rfl, -⟩ | ⟨hid, rfl, -⟩) | ⟨profile, hprofile, heq, rfl, -⟩
  · obtain ⟨selector, hselector, rfl⟩ := Option.map_eq_some_iff.mp hid.symm
    exact .inl (.inl ⟨selector, hselector, rfl⟩)
  · exact .inl (.inr ⟨_, .inl rfl, by rw [← hid]; rfl⟩)
  · exact .inl (.inr ⟨_, .inr (.inl rfl), by rw [← hid]; rfl⟩)
  · exact .inl (.inr ⟨_, .inr (.inr rfl), by rw [← hid]; rfl⟩)
  · cases heq
    cases hverification : policy.verification with
    | none =>
      rw [hverification] at hprofile
      cases hprofile
    | some verification =>
      rw [hverification] at hprofile
      exact .inr ⟨verification, rfl, id, hprofile, rfl⟩

/-- The revision of a snapshot with an identifier. -/
theorem revision?_eq {snapshot : WorkflowResolvedSnapshot} (hnodup : (snapshot.revisions.map (·.revisionId)).Nodup)
    {revision : WorkflowResolvedRevision} (h : revision ∈ snapshot.revisions) : snapshot.revision? revision.revisionId = some revision := by
  have hfound : (snapshot.revision? revision.revisionId).isSome := by
    unfold WorkflowResolvedSnapshot.revision?
    rw [List.find?_isSome]
    exact ⟨revision, List.mem_reverse.mpr h, decide_eq_true rfl⟩
  obtain ⟨other, hother⟩ := Option.isSome_iff_exists.mp hfound
  have hid := List.find?_some hother
  have hmem := List.mem_reverse.mp (List.mem_of_find?_eq_some hother)
  rw [hother, List.inj_on_of_nodup_map hnodup hmem h (of_decide_eq_true hid)]

/-- A reference that is reached is to a revision of the snapshot. -/
theorem resolved_of_leads (h : (resolve rows spec contentHash).2 = []) {ref : RevisionId × ConfigurationKind} (href : Leads rows spec ref) :
    ∃ revision, (resolve rows spec contentHash).1.revision? ref.1 = some revision ∧ revision.spec.kind = ref.2 ∧
      revision.enabled = true ∧ revision.archived = false := by
  obtain ⟨revision, hactive, hkind⟩ := resolve_issues.mp h ref href
  obtain ⟨hid, henabled, harchived⟩ := activeRevision_spec hactive
  have hmem : revision ∈ (resolve rows spec contentHash).1.revisions := by
    refine mem_resolve.mpr ⟨hid ▸ hactive, ?_⟩
    rw [hid, hkind]
    exact href
  exact ⟨revision, hid ▸ revision?_eq resolve_nodup hmem, hkind, henabled, harchived⟩

/-- The references that the sample workflow leads to. -/
def sampleRefs : List (RevisionId × ConfigurationKind) :=
  [(1, .retryPolicy), (2, .permissionPolicy), (3, .worker), (4, .routePolicy), (5, .modelProfile), (6, .providerConnection)]

theorem sampleRefs_of_leads {ref : RevisionId × ConfigurationKind} (h : Leads sampleRows retriedBuild ref) : ref ∈ sampleRefs := by
  have hnodes : ∀ node ∈ retriedBuild.nodes, ∀ ref ∈ nodeRefs (effectivePolicy retriedBuild node), ref ∈ sampleRefs := by decide
  have hnext : ∀ ref ∈ sampleRefs, ∀ next ∈ ((activeRevision sampleRows ref.1).map fun revision => revisionRefs revision.spec).getD [],
      next ∈ sampleRefs := by decide
  induction h with
  | policy hnode href => exact hnodes _ hnode _ href
  | revision _ hactive _ hmem ih => exact hnext _ ih _ (by rw [hactive]; exact hmem)

theorem resolve_sample : (resolve sampleRows retriedBuild (sampleDigests.content retriedBuild)).2 = [] := by
  refine resolve_issues.mpr fun ref href => ?_
  have hgood : ∀ ref ∈ sampleRefs, ((activeRevision sampleRows ref.1).any fun revision => revision.spec.kind = ref.2) = true := by decide
  obtain ⟨revision, hactive, hkind⟩ := (Option.any_eq_true _ _).mp (hgood ref (sampleRefs_of_leads href))
  exact ⟨revision, hactive, of_decide_eq_true hkind⟩

end Jarvis.Workflows.Resolution
