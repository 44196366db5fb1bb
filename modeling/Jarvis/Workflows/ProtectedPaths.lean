/-
  Jarvis.Workflows.ProtectedPaths — what `_protected_paths` decides, over all walks.

  Its exploration visits a node once for each evidence a walk can carry to it, so it reports
  a bypass exactly when some walk has one (`mem_evidenceVisits`, `evidence_exact`). The
  approval rule removes the granting node: a protected node that is still reachable has a
  walk without the grant, and a worker between the grant and the node makes it stale
  (`grants_exact`). The approval rule speaks of a walk only where there is one: it also
  reports a stale grant in a part of the graph the entrypoint does not reach, and it says
  nothing of a node that names itself as its granting node.
-/
import Mathlib.Data.List.DropRight
import Jarvis.Workflows.Validation

namespace Jarvis.Workflows

open Jarvis.Explore (Walk Next explore budget reachable targets)

/-! ## Walks of a workflow -/

theorem adjacency_eq_targets (spec : WorkflowSpec) : spec.adjacency = targets (pairs spec.edges) := by
  funext id
  simp [WorkflowSpec.adjacency, WorkflowSpec.outgoing, targets, pairs, List.filter_map, Function.comp_def]

theorem mem_reachable_edges {spec : WorkflowSpec} {start id : String} {stop : Option String} :
    id ∈ reachable (pairs spec.edges) start stop ↔
      ∃ w, Walk spec.adjacency start w id ∧ ∀ u ∈ w ++ [id], stop ≠ some u := by
  rw [adjacency_eq_targets]
  exact Explore.mem_reachable

theorem Walk.mem_nodeIds {spec : WorkflowSpec} {start id : String} {w : List String}
    (h : Walk spec.adjacency start w id) (hs : start ∈ spec.nodeIds) : id ∈ spec.nodeIds := by
  cases h with
  | nil => exact hs
  | snoc _ hc => exact spec.adjacency_subset _ hc

/-- The nodes of a walk after its last worker, or all of them. -/
def sinceWorker (spec : WorkflowSpec) (w : List String) : List String := w.rtakeWhile fun id => !isType spec .worker id

/-- The last worker of a walk. -/
def lastWorker (spec : WorkflowSpec) (w : List String) : Option WorkflowNode :=
  (w.reverse.find? fun id => isType spec .worker id).bind spec.node?

/-- Some node of `ids` has the type. -/
def visits (spec : WorkflowSpec) (type : WorkflowNodeType) (ids : List String) : Bool := ids.any (isType spec type)

/-- The evidence a walk carries to its end. -/
def evidenceOf (spec : WorkflowSpec) (w : List String) : Evidence := w.foldl (fun e id => e.after spec id) .none

@[simp]
theorem evidenceOf_snoc (spec : WorkflowSpec) (w : List String) (id : String) :
    evidenceOf spec (w ++ [id]) = (evidenceOf spec w).after spec id := by
  simp [evidenceOf]

theorem isType_iff {spec : WorkflowSpec} {type : WorkflowNodeType} {id : String} :
    isType spec type id = true ↔ ∃ node, spec.node? id = some node ∧ node.type = type := by
  unfold isType
  cases spec.node? id with
  | none => simp
  | some node => simp

/-- Evidence after a node, by what the node is. -/
theorem after_eq (spec : WorkflowSpec) (id : String) (e : Evidence) :
    e.after spec id =
      if isType spec .worker id then ⟨false, false, ((spec.node? id).map (requiresVerification spec)).getD false⟩
      else ⟨e.verified || isType spec .verify id, e.reviewed || isType spec .reviewer id, e.required⟩ := by
  obtain ⟨verified, reviewed, required⟩ := e
  unfold Evidence.after isType
  cases spec.node? id with
  | none => simp
  | some node =>
    cases ht : node.type
    all_goals
      simp only [ht]
      cases verified <;> cases reviewed <;> rfl

theorem sinceWorker_snoc (spec : WorkflowSpec) (w : List String) (id : String) :
    sinceWorker spec (w ++ [id]) = if isType spec .worker id then [] else sinceWorker spec w ++ [id] := by
  unfold sinceWorker
  rw [List.rtakeWhile_concat]
  cases isType spec .worker id <;> simp

theorem lastWorker_snoc (spec : WorkflowSpec) (w : List String) (id : String) :
    lastWorker spec (w ++ [id]) = if isType spec .worker id then spec.node? id else lastWorker spec w := by
  unfold lastWorker
  rw [List.reverse_append, List.reverse_singleton, List.singleton_append, List.find?_cons]
  cases isType spec .worker id <;> simp

/-- The evidence a walk carries, in terms of the nodes since its last worker. -/
theorem evidenceOf_eq (spec : WorkflowSpec) (w : List String) :
    evidenceOf spec w = ⟨visits spec .verify (sinceWorker spec w), visits spec .reviewer (sinceWorker spec w),
      ((lastWorker spec w).map (requiresVerification spec)).getD false⟩ := by
  induction w using List.reverseRecOn with
  | nil => rfl
  | append_singleton w id ih =>
    rw [evidenceOf_snoc, after_eq, ih, sinceWorker_snoc, lastWorker_snoc]
    cases isType spec .worker id <;> simp [visits]

/-! ## The exploration -/

def allEvidence : List Evidence :=
  [⟨false, false, false⟩, ⟨false, false, true⟩, ⟨false, true, false⟩, ⟨false, true, true⟩, ⟨true, false, false⟩,
    ⟨true, false, true⟩, ⟨true, true, false⟩, ⟨true, true, true⟩]

theorem mem_allEvidence (e : Evidence) : e ∈ allEvidence := by
  obtain ⟨v, r, q⟩ := e
  cases v <;> cases r <;> cases q <;> decide

/-- Every visit the exploration can make. -/
def allVisits (spec : WorkflowSpec) : List (String × Evidence) :=
  allEvidence.flatMap fun e => spec.nodeIds.map fun id => (id, e)

theorem mem_allVisits {spec : WorkflowSpec} {visit : String × Evidence} :
    visit ∈ allVisits spec ↔ visit.1 ∈ spec.nodeIds := by
  unfold allVisits
  rw [List.mem_flatMap]
  constructor
  · rintro ⟨e, -, h⟩
    obtain ⟨id, hid, rfl⟩ := List.mem_map.mp h
    exact hid
  · exact fun h => ⟨visit.2, mem_allEvidence _, List.mem_map.mpr ⟨visit.1, h, rfl⟩⟩

theorem budget_evidence (spec : WorkflowSpec) : ∀ es : List Evidence,
    budget (evidenceNext spec) (es.flatMap fun e => spec.nodeIds.map fun id => (id, e)) [] ≤
      es.length * spec.edges.length := by
  intro es
  have hnodes : budget spec.adjacency spec.nodeIds [] ≤ spec.edges.length := by
    have hle : budget (targets (pairs spec.edges)) spec.nodeIds [] ≤ _ := Explore.budget_targets spec.node_ids []
    rw [adjacency_eq_targets]
    simpa [pairs] using hle
  induction es with
  | nil => simp [budget]
  | cons e es ih =>
    have hone : budget (evidenceNext spec) (spec.nodeIds.map fun id => (id, e)) [] = budget spec.adjacency spec.nodeIds [] := by
      simp [budget, evidenceNext, List.map_map, Function.comp_def]
    have hsplit : budget (evidenceNext spec) ((e :: es).flatMap fun e => spec.nodeIds.map fun id => (id, e)) [] =
        budget (evidenceNext spec) (spec.nodeIds.map fun id => (id, e)) [] +
          budget (evidenceNext spec) (es.flatMap fun e => spec.nodeIds.map fun id => (id, e)) [] := by
      simp [budget]
    rw [hsplit, hone, List.length_cons, Nat.add_mul, Nat.one_mul]
    omega

/-- The exploration makes the visits that walks make, with the evidence they carry. -/
theorem mem_evidenceVisits {spec : WorkflowSpec} {id : String} {e : Evidence} :
    (id, e) ∈ evidenceVisits spec ↔ ∃ w, Walk spec.adjacency spec.entrypoint w id ∧ evidenceOf spec w = e := by
  have hclosed : ∀ v ∈ allVisits spec, evidenceNext spec v ⊆ allVisits spec := by
    intro v _ u hu
    obtain ⟨target, ht, rfl⟩ := List.mem_map.mp hu
    exact mem_allVisits.mpr (spec.adjacency_subset _ ht)
  have hfuel := budget_evidence spec allEvidence
  have hlen : allEvidence.length = 8 := rfl
  rw [hlen] at hfuel
  rw [evidenceVisits, Explore.mem_explore hclosed (mem_allVisits.mpr spec.entrypoint_mem) (by
    unfold allVisits
    omega)]
  constructor
  · rintro ⟨-, h⟩
    generalize hx : (id, e) = x at h
    induction h generalizing id e with
    | refl =>
      cases hx
      exact ⟨[], .nil, rfl⟩
    | @tail b c _ hn ih =>
      obtain ⟨w, hw, hb⟩ := @ih b.1 b.2 rfl
      obtain ⟨target, ht, hc⟩ := List.mem_map.mp hn.1
      subst hx
      cases hc
      exact ⟨w ++ [b.1], hw.snoc ht, by rw [evidenceOf_snoc, hb]⟩
  · rintro ⟨w, hw, rfl⟩
    refine ⟨rfl, ?_⟩
    induction hw with
    | nil => exact .refl
    | snoc _ hc ih =>
      refine ih.tail ⟨?_, rfl⟩
      rw [evidenceOf_snoc]
      exact List.mem_map.mpr ⟨_, hc, rfl⟩

/-! ## Evidence -/

/-- The node is a finalize node that derives its outcome. -/
def isDerive (spec : WorkflowSpec) (id : String) : Bool :=
  match spec.node? id with
  | some node => node.config == .finalize .derive
  | none => false

/-- Every walk from the entrypoint to a reviewer, a publication or a deriving finalize node has
    passed the verification (and review) it needs since its last worker. -/
def EvidenceGuarded (spec : WorkflowSpec) : Prop :=
  ∀ w id, Walk spec.adjacency spec.entrypoint w id →
    (isType spec .reviewer id → visits spec .verify (sinceWorker spec w)) ∧
    (isType spec .githubPublish id →
      visits spec .verify (sinceWorker spec w) ∧ visits spec .reviewer (sinceWorker spec w)) ∧
    (isDerive spec id → (lastWorker spec w).any (requiresVerification spec) →
      visits spec .verify (sinceWorker spec w))

/-- No verification or review bypass is reported. -/
def EvidenceClean (spec : WorkflowSpec) : Prop :=
  ∀ issue ∈ protectedPaths spec, issue.code ≠ "security.verification_bypass" ∧ issue.code ≠ "security.review_bypass"

/-- No bypassed or stale approval is reported. -/
def GrantsClean (spec : WorkflowSpec) : Prop :=
  ∀ issue ∈ protectedPaths spec, issue.code ≠ "security.approval_bypass" ∧ issue.code ≠ "security.stale_approval"

theorem evidenceIssues_code {spec : WorkflowSpec} {visit : String × Evidence} {issue : WorkflowIssue}
    (h : issue ∈ evidenceIssues spec visit) :
    issue.code = "security.verification_bypass" ∨ issue.code = "security.review_bypass" := by
  unfold evidenceIssues at h
  split at h
  · cases h
  · split at h
    all_goals simp only [List.mem_append, mem_check, List.not_mem_nil] at h
    · exact .inl (by rw [h.2])
    · rcases h with h | h
      · exact .inl (by rw [h.2])
      · exact .inr (by rw [h.2])
    · exact .inl (by rw [h.2])

theorem grantIssues_code {spec : WorkflowSpec} {node : WorkflowNode} {issue : WorkflowIssue}
    (h : issue ∈ grantIssues spec node) :
    issue.code = "security.approval_bypass" ∨ issue.code = "security.stale_approval" := by
  unfold grantIssues at h
  split at h
  · cases h
  · simp only [List.mem_append, List.mem_flatMap, mem_check] at h
    rcases h with h | ⟨_, _, h⟩
    · exact .inl (by rw [h.2])
    · exact .inr (by rw [h.2])

theorem evidenceClean_iff {spec : WorkflowSpec} :
    EvidenceClean spec ↔ ∀ visit ∈ evidenceVisits spec, evidenceIssues spec visit = [] := by
  constructor
  · intro h visit hv
    rw [List.eq_nil_iff_forall_not_mem]
    intro issue hi
    have hne := h issue (List.mem_append_left _ (List.mem_flatMap.mpr ⟨visit, hv, hi⟩))
    exact (evidenceIssues_code hi).elim hne.1 hne.2
  · intro h issue hi
    rcases List.mem_append.mp hi with hi | hi
    · obtain ⟨visit, hv, hi⟩ := List.mem_flatMap.mp hi
      rw [h visit hv] at hi
      cases hi
    · obtain ⟨node, -, hi⟩ := List.mem_flatMap.mp hi
      rcases grantIssues_code hi with hc | hc
      all_goals
        rw [hc]
        decide

theorem grantsClean_iff {spec : WorkflowSpec} : GrantsClean spec ↔ ∀ node ∈ spec.nodes, grantIssues spec node = [] := by
  constructor
  · intro h node hn
    rw [List.eq_nil_iff_forall_not_mem]
    intro issue hi
    have hne := h issue (List.mem_append_right _ (List.mem_flatMap.mpr ⟨node, hn, hi⟩))
    exact (grantIssues_code hi).elim hne.1 hne.2
  · intro h issue hi
    rcases List.mem_append.mp hi with hi | hi
    · obtain ⟨visit, -, hi⟩ := List.mem_flatMap.mp hi
      rcases evidenceIssues_code hi with hc | hc
      all_goals
        rw [hc]
        decide
    · obtain ⟨node, hn, hi⟩ := List.mem_flatMap.mp hi
      rw [h node hn] at hi
      cases hi

/-- One visit is clean when the evidence meets what the node needs. -/
theorem evidenceIssues_eq_nil {spec : WorkflowSpec} {id : String} {e : Evidence} :
    evidenceIssues spec (id, e) = [] ↔
      (isType spec .reviewer id → e.verified) ∧ (isType spec .githubPublish id → e.verified ∧ e.reviewed) ∧
      (isDerive spec id → e.required → e.verified) := by
  unfold evidenceIssues isType isDerive
  cases spec.node? id with
  | none => simp
  | some node =>
    cases hc : node.config with
    | finalize outcome =>
      have ht : node.type = .finalize := by simp [WorkflowNode.type, hc]
      cases outcome
      all_goals simp [ht, hc]
    | _ => simp [WorkflowNode.type, hc]

/-- The walk's last worker requires verification, as the exploration records it. -/
theorem lastWorker_any (spec : WorkflowSpec) (w : List String) :
    (lastWorker spec w).any (requiresVerification spec) =
      ((lastWorker spec w).map (requiresVerification spec)).getD false := by
  cases lastWorker spec w <;> rfl

theorem evidence_exact (spec : WorkflowSpec) : EvidenceClean spec ↔ EvidenceGuarded spec := by
  rw [evidenceClean_iff]
  constructor
  · intro h w id hw
    have hv := h (id, evidenceOf spec w) (mem_evidenceVisits.mpr ⟨w, hw, rfl⟩)
    rw [evidenceIssues_eq_nil, evidenceOf_eq] at hv
    rw [lastWorker_any]
    exact hv
  · intro h visit hvisit
    obtain ⟨id, e⟩ := visit
    obtain ⟨w, hw, rfl⟩ := mem_evidenceVisits.mp hvisit
    have hg := h w id hw
    rw [lastWorker_any] at hg
    rw [evidenceIssues_eq_nil, evidenceOf_eq]
    exact hg

/-! ## Grants -/

theorem rtakeWhile_after {grant : String} (w l : List String) (hl : grant ∉ l) :
    (w ++ grant :: l).rtakeWhile (· != grant) = l := by
  induction l using List.reverseRecOn with
  | nil => rw [List.rtakeWhile_concat]; simp
  | append_singleton l x ih =>
    rw [List.mem_append, List.mem_singleton, not_or] at hl
    have hx : (x != grant) = true := by simpa using Ne.symm hl.2
    rw [← List.cons_append, ← List.append_assoc, List.rtakeWhile_concat, if_pos hx, ih hl.1]

theorem split_at_last {grant : String} {w : List String} (h : grant ∈ w) :
    ∃ w₀, w = w₀ ++ grant :: w.rtakeWhile (· != grant) := by
  induction w using List.reverseRecOn with
  | nil => cases h
  | append_singleton w x ih =>
    rw [List.rtakeWhile_concat]
    by_cases hx : x = grant
    · exact ⟨w, by simp [hx]⟩
    · obtain ⟨w₀, hw₀⟩ := ih ((List.mem_append.mp h).resolve_right (by simpa using Ne.symm hx))
      refine ⟨w₀, ?_⟩
      rw [if_pos (by simpa using hx), ← List.cons_append, ← List.append_assoc, ← hw₀]

theorem not_mem_rtakeWhile (grant : String) (w : List String) : grant ∉ w.rtakeWhile (· != grant) := by
  intro h
  simpa using List.mem_rtakeWhile_imp h

/-- The entrypoint reaches the node past no granting node exactly when some walk does. -/
theorem bypass_iff {spec : WorkflowSpec} {id grant : String} (hne : id ≠ grant) :
    id ∈ reachable (pairs spec.edges) spec.entrypoint (some grant) ↔
      ∃ w, Walk spec.adjacency spec.entrypoint w id ∧ grant ∉ w := by
  rw [mem_reachable_edges]
  refine exists_congr fun w => and_congr_right fun _ => ?_
  constructor
  · intro h hg
    exact h grant (List.mem_append_left _ hg) rfl
  · intro h u hu hgu
    cases hgu
    rcases List.mem_append.mp hu with hu | hu
    · exact h hu
    · exact hne (List.mem_singleton.mp hu).symm

/-- A worker that follows the grant and is followed by the node, on no walk through another
    visit to the grant, is a worker after the last visit to the grant on some walk. -/
theorem stale_iff {spec : WorkflowSpec} {id grant candidate : String} (hne : id ≠ grant)
    (hgrant : ∃ w, Walk spec.adjacency spec.entrypoint w grant) :
    (candidate ∈ afterGrant spec grant ∧ candidate ≠ id ∧
      id ∈ reachable (pairs spec.edges) candidate (some grant)) ↔
      ∃ w, Walk spec.adjacency spec.entrypoint w id ∧ grant ∈ w ∧ candidate ∈ w.rtakeWhile (· != grant) ∧
        candidate ≠ id := by
  constructor
  · rintro ⟨hafter, hc, hto⟩
    obtain ⟨w₀, hw₀⟩ := hgrant
    rw [afterGrant, List.mem_dedup, List.mem_flatMap] at hafter
    obtain ⟨target, ht, hfrom⟩ := hafter
    obtain ⟨w₁, hw₁, hg₁⟩ := mem_reachable_edges.mp hfrom
    obtain ⟨w₂, hw₂, hg₂⟩ := mem_reachable_edges.mp hto
    have hrest : grant ∉ w₁ ++ w₂ := by
      intro h
      rcases List.mem_append.mp h with h | h
      · exact hg₁ grant (List.mem_append_left _ h) rfl
      · exact hg₂ grant (List.mem_append_left _ h) rfl
    have hlist : (w₀ ++ [grant]) ++ w₁ ++ w₂ = w₀ ++ grant :: (w₁ ++ w₂) := by simp
    have hwalk := ((hw₀.snoc ht).trans hw₁).trans hw₂
    rw [hlist] at hwalk
    refine ⟨_, hwalk, by simp, ?_, hc⟩
    rw [rtakeWhile_after _ _ hrest]
    exact List.mem_append_right _ (hw₂.start_mem hc)
  · rintro ⟨w, hw, hg, hmem, hc⟩
    obtain ⟨w₀, hsplit⟩ := split_at_last hg
    have hfree := not_mem_rtakeWhile grant w
    generalize w.rtakeWhile (· != grant) = l at hsplit hmem hfree
    subst hsplit
    obtain ⟨-, hfromGrant⟩ := hw.split
    obtain ⟨l₁, l₂, rfl⟩ := List.append_of_mem hmem
    rw [List.mem_append, not_or] at hfree
    rw [← List.cons_append] at hfromGrant
    obtain ⟨hto, hrest⟩ := hfromGrant.split
    obtain ⟨-, target, ht, hfirst⟩ := hto.uncons
    have hcg : candidate ≠ grant := fun h => hfree.2 (h ▸ List.mem_cons_self)
    refine ⟨?_, hc, mem_reachable_edges.mpr ⟨_, hrest, ?_⟩⟩
    · rw [afterGrant, List.mem_dedup, List.mem_flatMap]
      refine ⟨target, ht, mem_reachable_edges.mpr ⟨l₁, hfirst, ?_⟩⟩
      intro u hu hgu
      cases hgu
      rcases List.mem_append.mp hu with hu | hu
      · exact hfree.1 hu
      · exact hcg (List.mem_singleton.mp hu).symm
    · intro u hu hgu
      cases hgu
      rcases List.mem_append.mp hu with hu | hu
      · exact hfree.2 hu
      · exact hne (List.mem_singleton.mp hu).symm

/-- On every walk to the node its grant has been visited, and no other worker since. -/
def GrantFresh (spec : WorkflowSpec) (node : WorkflowNode) (grant : String) : Prop :=
  ∀ w, Walk spec.adjacency spec.entrypoint w node.id →
    grant ∈ w ∧ ∀ candidate ∈ w.rtakeWhile (· != grant), isType spec .worker candidate → candidate = node.id

theorem grantIssues_eq_nil {spec : WorkflowSpec} {node : WorkflowNode} {grant : String}
    (hgrant : grantOf spec node = some grant) (hne : node.id ≠ grant)
    (hreach : ∃ w, Walk spec.adjacency spec.entrypoint w node.id) :
    grantIssues spec node = [] ↔ GrantFresh spec node grant := by
  unfold grantIssues
  rw [hgrant]
  simp only [List.append_eq_nil_iff, List.flatMap_eq_nil_iff, check_eq_nil, decide_eq_false_iff_not]
  rw [bypass_iff hne]
  constructor
  · rintro ⟨hbypass, hstale⟩ w hw
    have hg : grant ∈ w := by
      by_contra h
      exact hbypass ⟨w, hw, h⟩
    refine ⟨hg, fun candidate hc hworker => ?_⟩
    by_contra hcn
    obtain ⟨w₀, hsplit⟩ := split_at_last hg
    have hwg : ∃ w, Walk spec.adjacency spec.entrypoint w grant := by
      rw [hsplit] at hw
      exact ⟨w₀, hw.split.1⟩
    obtain ⟨hafter, -, hto⟩ := (stale_iff hne hwg).mpr ⟨w, hw, hg, hc, hcn⟩
    have := hstale candidate hafter
    simp [hcn, hworker, hto] at this
  · intro hfresh
    constructor
    · rintro ⟨w, hw, hg⟩
      exact hg (hfresh w hw).1
    intro candidate hc
    by_contra hbad
    simp only [Bool.not_eq_false, Bool.and_eq_true, bne_iff_ne, decide_eq_true_eq] at hbad
    obtain ⟨⟨hcn, hworker⟩, hto⟩ := hbad
    obtain ⟨v, hv⟩ := hreach
    obtain ⟨v₀, hsplit⟩ := split_at_last (hfresh v hv).1
    have hwg : ∃ w, Walk spec.adjacency spec.entrypoint w grant := by
      rw [hsplit] at hv
      exact ⟨v₀, hv.split.1⟩
    obtain ⟨w, hw, -, hmem, -⟩ := (stale_iff hne hwg).mp ⟨hc, hcn, hto⟩
    exact hcn ((hfresh w hw).2 candidate hmem hworker)

/-- Every protected node has a fresh grant on every walk to it. -/
def GrantsFresh (spec : WorkflowSpec) : Prop :=
  ∀ node ∈ spec.nodes, ∀ grant, grantOf spec node = some grant → GrantFresh spec node grant

/-- Every protected node can be reached and is not its own granting node. -/
def GrantsPlaced (spec : WorkflowSpec) : Prop :=
  ∀ node ∈ spec.nodes, ∀ grant, grantOf spec node = some grant →
    node.id ≠ grant ∧ ∃ w, Walk spec.adjacency spec.entrypoint w node.id

theorem grants_exact {spec : WorkflowSpec} (h : GrantsPlaced spec) : GrantsClean spec ↔ GrantsFresh spec := by
  rw [grantsClean_iff]
  constructor
  · intro hclean node hn grant hg
    obtain ⟨hne, hreach⟩ := h node hn grant hg
    exact (grantIssues_eq_nil hg hne hreach).mp (hclean node hn)
  · intro hfresh node hn
    cases hg : grantOf spec node with
    | none => simp [grantIssues, hg]
    | some grant =>
      obtain ⟨hne, hreach⟩ := h node hn grant hg
      exact (grantIssues_eq_nil hg hne hreach).mpr (hfresh node hn grant hg)

/-- `_protected_paths` reports no verification or review bypass exactly when no walk has one,
    and no bypassed or stale approval exactly when every grant is fresh on every walk. -/
theorem protectedPaths_exact (spec : WorkflowSpec) :
    (EvidenceClean spec ↔ EvidenceGuarded spec) ∧ (GrantsPlaced spec → (GrantsClean spec ↔ GrantsFresh spec)) :=
  ⟨evidence_exact spec, grants_exact⟩

/-- A worker behind the approval it needs. -/
def guardedBuild : WorkflowSpec where
  entrypoint := "approve"
  nodes := [{ id := "approve", config := .approval .workerExecute },
    { id := "build", config := .worker, policy := { approval := some ⟨some "approve", some .workerExecute⟩ } }]
  edges := [{ id := "e1", source := "approve", target := "build", kind := .always }]
  node_ids := by decide
  edge_ids := by decide
  entrypoint_mem := by decide
  endpoints_mem := by decide

theorem protectedPaths_exact_guardedBuild : EvidenceGuarded guardedBuild ∧ GrantsFresh guardedBuild := by
  obtain ⟨hevidence, hgrants⟩ := protectedPaths_exact guardedBuild
  refine ⟨hevidence.mp (by unfold EvidenceClean; decide), (hgrants ?_).mp (by unfold GrantsClean; decide)⟩
  intro node hn grant hg
  have hnodes : node.id = "build" ∧ grant = "approve" := by
    rcases List.mem_cons.mp hn with rfl | hn
    · cases hg
    · rw [List.mem_singleton.mp hn] at hg ⊢
      cases hg
      exact ⟨rfl, rfl⟩
  rw [hnodes.1, hnodes.2]
  refine ⟨by decide, ["approve"], ?_⟩
  exact Walk.nil.snoc (w := []) (b := "approve") (by decide)

/-- A publication that names itself as its granting node. -/
def selfGrant : WorkflowSpec where
  entrypoint := "publish"
  nodes := [{ id := "publish", config := .githubPublish,
              policy := { approval := some ⟨some "publish", some .githubPushAndPr⟩ } }]
  edges := []
  node_ids := by decide
  edge_ids := by decide
  entrypoint_mem := by decide
  endpoints_mem := by decide

/-- A protected integration behind a worker, in a part the entrypoint does not reach. -/
def unreachedGrant : WorkflowSpec where
  entrypoint := "start"
  nodes := [{ id := "start", config := .router }, { id := "approve", config := .approval .gitIntegrate },
    { id := "build", config := .worker },
    { id := "merge", config := .integrate, policy := { approval := some ⟨some "approve", some .gitIntegrate⟩ } }]
  edges := [{ id := "e1", source := "approve", target := "build", kind := .always },
    { id := "e2", source := "build", target := "merge", kind := .always }]
  node_ids := by decide
  edge_ids := by decide
  entrypoint_mem := by decide
  endpoints_mem := by decide

/-- Every grant names a node. -/
def GrantsResolve (spec : WorkflowSpec) : Prop :=
  ∀ node ∈ spec.nodes, (grantOf spec node).all (fun grant => grant ∈ spec.nodeIds)

/-- With a node as its own granting node nothing is reported and the first walk has no grant;
    where the entrypoint reaches neither, a stale grant is reported and there is no walk. -/
theorem grants_inexact :
    (GrantsResolve selfGrant ∧ GrantsClean selfGrant ∧ ¬ GrantsFresh selfGrant) ∧
    (GrantsResolve unreachedGrant ∧ ¬ GrantsClean unreachedGrant ∧ GrantsFresh unreachedGrant) := by
  refine ⟨⟨by unfold GrantsResolve; decide, by unfold GrantsClean; decide, fun h => ?_⟩,
    by unfold GrantsResolve; decide, by unfold GrantsClean; decide, ?_⟩
  · have hfresh := h _ List.mem_cons_self "publish" rfl
    exact absurd (hfresh [] Walk.nil).1 (by simp)
  · intro node hn grant hg w hw
    have hid : node.id = "merge" := by
      simp only [unreachedGrant, List.mem_cons, List.not_mem_nil, or_false] at hn
      rcases hn with rfl | rfl | rfl | rfl
      all_goals first | rfl | cases hg
    have hreach : node.id ∈ reachable (pairs unreachedGrant.edges) unreachedGrant.entrypoint none :=
      mem_reachable_edges.mpr ⟨w, hw, by simp⟩
    rw [hid] at hreach
    exact absurd hreach (by decide)

end Jarvis.Workflows
