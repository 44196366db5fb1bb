/-
  Jarvis.Workflows.Publication — what `WorkflowService` makes of a draft: `save` stores it with its
  effective policies, `publish` evaluates what is stored and stores the normal form, and `create_job`
  evaluates that again.

  A draft that was saved means what was sent (`save_meaning`): it is read back with its content hash,
  and has the normal form and the compilation identity of the specification it was made of. What was
  published evaluates as it did then, unless what is stored is over a limit that the draft was within
  (`publish_stable`): the normal form spells out what the draft left to defaults.

  Whether a text or a member looks like a credential is a parameter.
-/
import Mathlib.Data.List.Perm.Basic
import Jarvis.Workflows.Resolution
import Jarvis.Workflows.Verdicts

namespace Jarvis.Workflows.Documents

open Model

variable {lax : Lax}

/-! ## Saving -/

/-- The copy of a node that `save` makes. -/
def draftNode (lax : Lax) (defaults node : Json) : Option Json := do
  let type ← nodeType node
  let policy ← effectivePolicy lax defaults (policyOf node "policy") type
  return copy (workflowNodeFields lax) node [("policy", policy)]

/-- The specification that `save` stores the canonical payload of. -/
def draftOf (lax : Lax) (spec : Json) : Option Json := do
  let nodes ← readAll (draftNode lax (policyOf spec "defaults")) (nodesOf spec)
  return copy (workflowSpecFields lax) spec [("nodes", .list nodes)]

section Nodes

variable {defaults node copied : Json}

/-- A node's type is one. -/
theorem nodeType_isSome (h : (workflowNode lax).Is node) : ∃ type, nodeType node = some type := by
  obtain ⟨-, his⟩ := (is_model_iff.mp h).required type_mem rfl
  obtain ⟨s, hs, haccept⟩ := Codec.is_scalarOf his
  cases s with
  | str value =>
    obtain ⟨type, htype, hvalue⟩ := List.mem_map.mp (List.contains_iff_mem.mp haccept)
    have hfound : (nodeTypeOf value).isSome := List.find?_isSome.mpr ⟨type, htype, decide_eq_true hvalue⟩
    obtain ⟨type', htype'⟩ := Option.isSome_iff_exists.mp hfound
    refine ⟨type', ?_⟩
    rw [nodeType, show node.get "type" = .scalar (.str value) from hs]
    exact htype'
  | null | bool | int | float => cases haccept

/-- A copy that changes the policy leaves the configuration. -/
theorem copy_policy (h : (workflowNode lax).Is node) (policy : Json) :
    copy (workflowNodeFields lax) node [("policy", policy)] = copy (workflowNodeFields lax) node (changes (node.get "config") policy) := by
  obtain ⟨hconfig, -⟩ := (is_model_iff.mp h).required config_mem rfl
  refine congrArg Json.obj (build_congr fun f hf => ?_)
  by_cases hname : f.name = "config"
  · have : f = .required "config" .object := List.inj_on_of_nodup_map (workflowNodeFields_nodup lax) hf config_mem hname
    subst this
    exact hconfig
  · simp only [changes, List.lookup_cons, beq_eq_false_iff_ne.mpr hname]

/-- What a node and the copy of it that is saved have in common. -/
structure IsDraftNode (lax : Lax) (defaults node copied : Json) : Prop where
  is : (workflowNode lax).Is copied
  id_eq : idText copied = idText node
  type_eq : nodeType copied = nodeType node
  config_eq : copied.get "config" = node.get "config"
  copy : ∀ type config, Reads lax node type config → Materializes lax defaults node copied

theorem draftNode_spec (hd : (nodePolicy lax).Is defaults) (h : (workflowNode lax).Is node) :
    ∃ copied, draftNode lax defaults node = some copied ∧ IsDraftNode lax defaults node copied := by
  obtain ⟨type, htype⟩ := nodeType_isSome h
  have hown : (nodePolicy lax).Is (policyOf node "policy") := policyOf_is (is_model_iff.mp h) policy_mem
  obtain ⟨policy, hpolicy, his, hfields⟩ := effectivePolicy_spec hd hown type
  have hmade : Made (workflowNodeFields lax) (fun _ => true) (copy (workflowNodeFields lax) node [("policy", policy)]) := by
    refine made_copy (workflowNodeFields_nodup lax) (is_model_iff.mp h) (fun f hf x hx => ?_) rfl
    simp only [workflowNodeFields, List.mem_cons, List.not_mem_nil, or_false] at hf
    rcases hf with rfl | rfl | rfl | rfl | rfl | rfl
    iterate 5 cases hx
    cases hx
    exact his
  have hget : ∀ f ∈ workflowNodeFields lax, f.name ≠ "policy" →
      (copy (workflowNodeFields lax) node [("policy", policy)]).get f.name = node.get f.name := fun f hf hname => by
    rw [get_copy (workflowNodeFields_nodup lax) node [("policy", policy)] hf, List.lookup_cons, beq_eq_false_iff_ne.mpr hname]
    rfl
  refine ⟨copy (workflowNodeFields lax) node [("policy", policy)], ?_, is_model_iff.mpr hmade, ?_, ?_, hget _ config_mem (by decide),
    fun type' config hreads => ?_⟩
  · simp only [draftNode, htype, hpolicy, Option.bind_eq_bind, Option.bind_some]
    rfl
  · exact congrArg textOf? (hget _ (.head _) (by decide))
  · exact congrArg (fun j => (textOf? j).bind nodeTypeOf) (hget _ type_mem (by decide))
  · cases htype.symm.trans hreads.type_eq
    exact ⟨type, config, node.get "config", config, policy, hreads, hreads.config_eq, rfl, ⟨his, hfields⟩, copy_policy h policy⟩

end Nodes

section Specs

variable {spec : Json}

/-- A copy that changes the nodes leaves the edges. -/
theorem copy_nodes (h : Valid lax spec) (nodes : List Json) :
    copy (workflowSpecFields lax) spec [("nodes", .list nodes)] = copy (workflowSpecFields lax) spec (changedLists nodes (edgesOf spec)) := by
  refine congrArg Json.obj (build_congr fun f hf => ?_)
  by_cases hname : f.name = "edges"
  · have : f = edgesField lax := List.inj_on_of_nodup_map (workflowSpecFields_nodup lax) hf edges_mem hname
    subst this
    exact h.setOf_edges.1
  · simp only [changedLists, List.lookup_cons, beq_eq_false_iff_ne.mpr hname]

/-- What `save` stores the canonical payload of. -/
structure IsDraft (lax : Lax) (spec draft : Json) : Prop where
  valid : Valid lax draft
  configs : ConfigsValid lax draft ↔ ConfigsValid lax spec
  copy : Fine lax spec → IsCopy lax spec draft

theorem draftOf_spec (h : Valid lax spec) : ∃ draft, draftOf lax spec = some draft ∧ IsDraft lax spec draft := by
  have hmem : ∀ node ∈ nodesOf spec, ∃ copied, draftNode lax (policyOf spec "defaults") node = some copied ∧
      IsDraftNode lax (policyOf spec "defaults") node copied := fun node hnode => draftNode_spec h.defaults (h.setOf_nodes.2.2 node hnode)
  obtain ⟨nodes, hnodes⟩ := exists_forall₂ (List.forall₂_same.mpr hmem) fun _ _ h => h
  have hdraft : draftOf lax spec = some (copy (workflowSpecFields lax) spec (changedLists nodes (edgesOf spec))) := by
    rw [draftOf, readAll_eq_some.mpr (hnodes.imp fun _ _ h => h.1), ← copy_nodes h]
    rfl
  have his : ∀ node ∈ nodes, (workflowNode lax).Is node := fun node hnode => by
    obtain ⟨_, -, -, hdraft⟩ := forall₂_left hnodes hnode
    exact hdraft.is
  have hids : (nodesOf spec).map idText = nodes.map idText := (map_eq_of_forall₂ (hnodes.imp fun _ _ h => h.2.id_eq)).symm
  refine ⟨_, hdraft, h.copied hnodes.length_eq.symm his (List.Perm.of_eq hids) (List.Perm.refl _), ⟨fun hconfigs node hnode => ?_,
    fun hconfigs node hnode => ?_⟩, fun hfine => ?_⟩
  · obtain ⟨copied, hcopied, -, hdraft⟩ := forall₂_right hnodes hnode
    have hvalid := hconfigs copied ((nodesOf_copy _ _ _).symm ▸ hcopied)
    rwa [hdraft.type_eq, hdraft.config_eq] at hvalid
  · rw [nodesOf_copy] at hnode
    obtain ⟨original, horiginal, -, hdraft⟩ := forall₂_left hnodes hnode
    rw [hdraft.type_eq, hdraft.config_eq]
    exact hconfigs original horiginal
  · have hcopies : List.Forall₂ (Materializes lax (policyOf spec "defaults")) (nodesOf spec) nodes := by
      refine List.Forall₂.imp (fun node copied hnode => ?_) ((List.forall₂_and_left _ _).mpr ⟨fun _ hnode => hnode, hnodes⟩)
      obtain ⟨type, config, hreads⟩ := hfine.reads hnode.1
      exact hnode.2.2.copy type config hreads
    refine ⟨hfine.copied hnodes.length_eq.symm (fun node hnode => ?_) (List.Perm.of_eq hids) (List.Perm.refl _),
      ⟨nodesOf spec, List.Perm.refl _, ?_⟩, ?_, defaults_copy _ _ _, fun f hf => setOf_changed hf⟩
    · obtain ⟨original, -, hcopied⟩ := forall₂_left hcopies hnode
      exact (hcopied.again hfine.defaults hfine.defaults rfl).1
    · rw [nodesOf_copy]
      exact hcopies
    · rw [edgesOf_copy]

/-! ## The canonical payload -/

/-- A specification in the order of its canonical payload. -/
def inOrder (lax : Lax) (spec : Json) : Json := reordered lax spec (sortedNodes (nodesOf spec)) (sortedEdges (edgesOf spec))

theorem canonicalPayload_eq_dump (h : Valid lax spec) : canonicalPayload lax spec = (workflowSpec lax).dump (inOrder lax spec) := by
  have hnodes : ∀ (g : Field → Json) value, (table (workflowSpecFields lax) g).assign "nodes" value =
      table (workflowSpecFields lax) fun f => if f.name = "nodes" then value else g f := fun _ _ => assign_table ⟨_, nodes_mem, rfl⟩
  have hedges : ∀ (g : Field → Json) value, (table (workflowSpecFields lax) g).assign "edges" value =
      table (workflowSpecFields lax) fun f => if f.name = "edges" then value else g f := fun _ _ => assign_table ⟨_, edges_mem, rfl⟩
  have hdump : (workflowSpec lax).dump spec = table (workflowSpecFields lax) fun f => f.full (setOf spec f) := rfl
  rw [canonicalPayload, hdump, hnodes, hedges]
  refine Eq.trans (table_congr fun f hf => ?_) (dump_build (workflowSpecFields_nodup lax)).symm
  by_cases hname : f.name = "edges"
  · have : f = edgesField lax := List.inj_on_of_nodup_map (workflowSpecFields_nodup lax) hf edges_mem hname
    subst this
    rfl
  · rw [if_neg hname]
    by_cases hname' : f.name = "nodes"
    · have : f = nodesField lax := List.inj_on_of_nodup_map (workflowSpecFields_nodup lax) hf nodes_mem hname'
      subst this
      rfl
    · rw [if_neg hname']
      simp only [changedLists, List.lookup_cons, beq_eq_false_iff_ne.mpr hname, beq_eq_false_iff_ne.mpr hname', List.lookup_nil,
        Option.none_or]

theorem Valid.inOrder (h : Valid lax spec) : Valid lax (inOrder lax spec) := by
  refine h.copied (List.length_insertionSort _ _) (fun node hnode => ?_) ((List.perm_insertionSort _ _).symm.map _)
    (List.perm_insertionSort _ _).symm
  exact h.setOf_nodes.2.2 node ((List.mem_insertionSort _).mp hnode)

/-- The canonical payload is that of what is in order already. -/
theorem canonicalPayload_inOrder (h : Valid lax spec) : canonicalPayload lax (inOrder lax spec) = canonicalPayload lax spec := by
  have hnodes : sortedNodes (sortedNodes (nodesOf spec)) = sortedNodes (nodesOf spec) :=
    (sortedNodes_perm (List.perm_insertionSort _ _).symm h.nodup_nodeId).symm
  have hedges : sortedEdges (sortedEdges (edgesOf spec)) = sortedEdges (edgesOf spec) :=
    (sortedEdges_perm (List.perm_insertionSort _ _).symm h.nodup_edgeKey).symm
  rw [canonicalPayload_eq_dump h.inOrder, canonicalPayload_eq_dump h]
  have hlists : nodesOf (inOrder lax spec) = sortedNodes (nodesOf spec) ∧ edgesOf (inOrder lax spec) = sortedEdges (edgesOf spec) :=
    ⟨nodesOf_copy _ _ _, edgesOf_copy _ _ _⟩
  have hagain : inOrder lax (inOrder lax spec) =
      reordered lax (inOrder lax spec) (sortedNodes (nodesOf (inOrder lax spec))) (sortedEdges (edgesOf (inOrder lax spec))) := rfl
  rw [hagain, hlists.1, hlists.2, hnodes, hedges]
  exact congrArg (workflowSpec lax).dump (copy_reordered spec _ _ _ _)

/-- A canonical payload is read as what has its content hash. -/
theorem read_canonicalPayload (h : Valid lax spec) (sha256 : Json → String) :
    ∃ read, (workflowSpec lax).parse (canonicalPayload lax spec) = some read ∧ Valid lax read ∧
      (workflowSpec lax).dump read = canonicalPayload lax spec ∧ contentHash lax sha256 read = contentHash lax sha256 spec := by
  obtain ⟨read, hparse, hdump⟩ := (workflowSpec lax).parse_dump h.inOrder.is
  have hvalid : Valid lax read := ⟨@Codec.is_of_parse (workflowSpec lax) _ _ hparse⟩
  refine ⟨read, canonicalPayload_eq_dump h ▸ hparse, hvalid, hdump.trans (canonicalPayload_eq_dump h).symm, ?_⟩
  rw [contentHash_congr h.inOrder hvalid hdump sha256, contentHash, contentHash, canonicalPayload_inOrder h]

theorem IsCopy.inOrder {copied : Json} (hc : IsCopy lax spec copied) : IsCopy lax spec (inOrder lax copied) := by
  obtain ⟨nodes, hperm, hnodes⟩ := hc.nodes
  have hsorted : (sortedNodes (nodesOf copied)).Perm (nodesOf copied) := List.perm_insertionSort _ _
  have hedges : (sortedEdges (edgesOf copied)).Perm (edgesOf copied) := List.perm_insertionSort _ _
  have hcomp : Relation.Comp (List.Forall₂ (Materializes lax (policyOf spec "defaults"))) List.Perm nodes (sortedNodes (nodesOf copied)) :=
    ⟨_, hnodes, hsorted.symm⟩
  rw [List.forall₂_comp_perm_eq_perm_comp_forall₂] at hcomp
  obtain ⟨nodes', hperm', hnodes'⟩ := hcomp
  refine ⟨hc.fine.copied (List.length_insertionSort _ _) (fun node hnode => hc.fine.reads (hsorted.mem_iff.mp hnode)) (hsorted.symm.map _)
    hedges.symm, ⟨nodes', ?_, ?_⟩, ?_, ?_, fun f hf hname hname' => ?_⟩
  · exact hperm'.symm.trans hperm
  · rw [Documents.inOrder, reordered, nodesOf_copy]
    exact hnodes'
  · rw [Documents.inOrder, reordered, edgesOf_copy]
    exact hedges.trans hc.edges
  · rw [Documents.inOrder, reordered, defaults_copy]
    exact hc.defaults
  · rw [Documents.inOrder, reordered, setOf_changed hf hname hname']
    exact hc.rest f hf hname hname'

/-- What is written alike has the same configurations. -/
theorem configsValid_of_dump {other : Json} (h : Valid lax spec) (ho : Valid lax other)
    (hdump : (workflowSpec lax).dump other = (workflowSpec lax).dump spec) (hconfigs : ConfigsValid lax spec) : ConfigsValid lax other := by
  have hnodes := full_of_dump hdump nodes_mem
  rw [ho.setOf_nodes.1, h.setOf_nodes.1] at hnodes
  have hdumps : (nodesOf other).map (workflowNode lax).dump = (nodesOf spec).map (workflowNode lax).dump := Json.list.inj hnodes
  intro node hnode
  obtain ⟨original, horiginal, hsame⟩ := List.mem_map.mp (hdumps ▸ List.mem_map_of_mem hnode : (workflowNode lax).dump node ∈ _)
  have hconfig : original.get "config" = node.get "config" :=
    (get_leaf (.required "config" .object) (fun _ => rfl) rfl).trans ((full_of_dump hsame config_mem).trans
      (get_leaf (.required "config" .object) (fun _ => rfl) rfl).symm)
  rw [← nodeType_congr (full_of_dump hsame type_mem), ← hconfig]
  exact hconfigs original horiginal

theorem configsValid_inOrder : ConfigsValid lax (inOrder lax spec) ↔ ConfigsValid lax spec := by
  have hnodes : nodesOf (inOrder lax spec) = sortedNodes (nodesOf spec) := nodesOf_copy _ _ _
  simp only [ConfigsValid, hnodes, sortedNodes, List.mem_insertionSort]

/-- What `save` stores is read back with the content hash it is stored under, and means what was sent: it
    is normalized where that is, to the same form, and compiled under the same identity. -/
theorem save_meaning (lax : Lax) (sha256 : Json → String) (spec : Json) (h : (workflowSpec lax).Is spec) :
    ∃ draft read, draftOf lax spec = some draft ∧ (workflowSpec lax).parse (canonicalPayload lax draft) = some read ∧
      contentHash lax sha256 read = contentHash lax sha256 draft ∧
      ((normalizeWorkflow lax read).isSome ↔ (normalizeWorkflow lax spec).isSome) ∧
      (∀ normal normal', normalizeWorkflow lax spec = some normal → normalizeWorkflow lax read = some normal' →
        (workflowSpec lax).dump normal' = (workflowSpec lax).dump normal) ∧
      ∀ snapshotHash, compilationIdentity lax sha256 read snapshotHash = compilationIdentity lax sha256 spec snapshotHash := by
  obtain ⟨draft, hdraft, hisDraft⟩ := draftOf_spec ⟨h⟩
  obtain ⟨read, hparse, hread, hdump, hhash⟩ := read_canonicalPayload hisDraft.valid sha256
  have hordered : (workflowSpec lax).dump read = (workflowSpec lax).dump (inOrder lax draft) :=
    hdump.trans (canonicalPayload_eq_dump hisDraft.valid)
  have hconfigs : ConfigsValid lax read ↔ ConfigsValid lax spec := by
    rw [← hisDraft.configs, ← @configsValid_inOrder lax draft]
    exact ⟨configsValid_of_dump hread hisDraft.valid.inOrder hordered.symm, configsValid_of_dump hisDraft.valid.inOrder hread hordered⟩
  have hform : Fine lax spec → specForm lax read = specForm lax spec ∧
      ((workflowSpec lax).dump read).get "spec_version" = ((workflowSpec lax).dump spec).get "spec_version" := by
    intro hfine
    have hcopy := (hisDraft.copy hfine).inOrder
    obtain ⟨read', hparse', -, hdump', hform⟩ := hcopy.reread hfine
    rw [← canonicalPayload_eq_dump hisDraft.valid] at hparse'
    cases hparse.symm.trans hparse'
    refine ⟨hform, ?_⟩
    have hset := hcopy.rest _ (.head _) (by decide) (by decide)
    rw [hdump']
    exact (get_dump (.head _)).trans ((congrArg (Field.full _) hset).trans (get_dump (.head _)).symm)
  refine ⟨draft, read, hdraft, hparse, hhash, ?_, fun normal normal' hnormal hnormal' => ?_, fun snapshotHash => ?_⟩
  · rw [normalizeWorkflow_isSome hread.is, normalizeWorkflow_isSome h, hconfigs]
  · obtain ⟨hfine, hn⟩ := isNormal_of_normalize h hnormal
    obtain ⟨hfine', hn'⟩ := isNormal_of_normalize hread.is hnormal'
    rw [hn'.dump hfine', hn.dump hfine, (hform hfine).1]
  · by_cases hvalid : ConfigsValid lax spec
    · have hfine : Fine lax spec := ⟨⟨h⟩, hvalid⟩
      exact compilationIdentity_congr hfine ⟨hread, hconfigs.mpr hvalid⟩ (hform hfine).1 (hform hfine).2 sha256 snapshotHash
    · have hnone : ∀ {other}, (workflowSpec lax).Is other → ¬ ConfigsValid lax other → normalizeWorkflow lax other = none := fun ho hnot => by
        rw [← Option.not_isSome_iff_eq_none, normalizeWorkflow_isSome ho]
        exact hnot
      rw [compilationIdentity, compilationIdentity, hnone h hvalid, hnone hread.is (hconfigs.not.mpr hvalid)]
      rfl

theorem save_meaning_sample : ∃ draft read, draftOf strictLax sampleSpec = some draft ∧
    (workflowSpec strictLax).parse (canonicalPayload strictLax draft) = some read ∧
    compilationIdentity strictLax sampleDigest read "snapshot" = compilationIdentity strictLax sampleDigest sampleSpec "snapshot" := by
  obtain ⟨draft, read, hdraft, hread, -, -, -, hidentity⟩ := save_meaning strictLax sampleDigest sampleSpec sampleSpec_is
  exact ⟨draft, read, hdraft, hread, hidentity "snapshot"⟩

end Specs

/-! ## Evaluating -/

/-- `problem`. -/
structure Problem where
  status : Nat
  code : String
  message : String
  deriving DecidableEq, Repr

def itemLimit : Problem :=
  { status := 422, code := "workflow.resource_limit", message := "Workflow JSON nesting or item limit exceeded" }

def privateReference : Problem :=
  { status := 422, code := "workflow.unsafe_input", message := "Private server references are not workflow data" }

/-- `s.startswith(start)`. -/
def hasPrefix (s start : String) : Bool := start.toList.isPrefixOf s.toList

/-- The loop of `safe_workflow_input`: `left` is what `count` is short of its limit. -/
def safeLoop : Nat → List (Json × Nat) → Option Problem
  | _, [] => none
  | 0, _ :: _ => some itemLimit
  | left + 1, (item, depth) :: stack =>
    if maxJsonDepth < depth then some itemLimit
    else
      match item with
      | .obj members => safeLoop left ((members.map fun e => (e.2, depth + 1)).reverse ++ stack)
      | .list items => safeLoop left ((items.map fun item => (item, depth + 1)).reverse ++ stack)
      | .scalar (.str s) => if hasPrefix s "secret:" || hasPrefix s "file:" then some privateReference else safeLoop left stack
      | .scalar _ => safeLoop left stack

mutual

/-- Whether `_safe_strings` raises. -/
def unsafeStrings (tools : Tools) : Json → Bool
  | .scalar (.str s) => tools.credential s
  | .scalar _ => false
  | .list items => unsafeItems tools items
  | .obj members => unsafeMembers tools members

def unsafeItems (tools : Tools) : List Json → Bool
  | [] => false
  | item :: items => unsafeStrings tools item || unsafeItems tools items

def unsafeMembers (tools : Tools) : List (String × Json) → Bool
  | [] => false
  | (key, item) :: members =>
    (key != "clear_secret" && tools.credentialKey key) || tools.credential key || unsafeStrings tools item || unsafeMembers tools members

end

/-- `safe_workflow_input`. -/
def safeWorkflowInput (tools : Tools) (value : Json) : Option Problem :=
  match safeLoop 100000 [(value, 0)] with
  | some problem => some problem
  | none =>
    if maxWorkflowBytes < tools.canonicalLength value then
      some { status := 413, code := "workflow.resource_limit", message := "Workflow JSON exceeds 1 MiB" }
    else if unsafeStrings tools value then
      some { status := 422, code := "workflow.unsafe_input", message := "Credential-like workflow input is rejected" }
    else none

def evaluatedInput (raw layoutRaw : Json) : Json := .obj [("spec", raw), ("layout", layoutRaw)]

/-- The issues of a layout. -/
def layoutIssues (lax : Lax) (nodeIds : List String) (layoutRaw : Json) : List WorkflowIssue :=
  match (workflowLayout lax).parse layoutRaw with
  | none => [{ code := "layout.invalid", message := "Layout must contain bounded finite positions and viewport only", path := "layout" }]
  | some layout =>
    (((((layout.get "nodes").members.map Prod.fst).filter (· ∉ nodeIds)).dedup).insertionSort fun a b => stringLe a b).map fun id =>
      { code := "layout.unknown_node", message := "Layout references an unknown node", node := id }

structure Evaluation where
  report : Report
  spec : Json
  snapshot : WorkflowResolvedSnapshot

/-- What `_evaluate` returns for a normalized specification that was reported on. -/
def evaluation (lax : Lax) (tools : Tools) (spec layoutRaw : Json) (viewed : WorkflowSpec)
    (resolved : WorkflowResolvedSnapshot × List WorkflowIssue) (report : Report) : Evaluation :=
  let issues := report.issues ++ (resolved.2 ++ layoutIssues lax viewed.nodeIds layoutRaw)
  let hash := contentHash lax tools.sha256 spec
  { report := { valid := issues.isEmpty, issues, contentHash := hash, snapshotHash := tools.snapshotHash resolved.1 }, spec,
    snapshot := resolved.1 }

/-- `_evaluate` of a normalized specification. -/
def evaluated (lax : Lax) (tools : Tools) (rows : List Resolution.RegistryRow) (spec layoutRaw : Json) : Option Evaluation := do
  let viewed ← view lax spec
  let resolved := Resolution.resolve rows viewed (contentHash lax tools.sha256 spec)
  let report ← validateWorkflow lax tools spec (some resolved.1)
  return evaluation lax tools spec layoutRaw viewed resolved report

/-- `_evaluate`: what it raises, or `none` where the schema or a configuration model rejects what is given. -/
def evaluate (lax : Lax) (tools : Tools) (rows : List Resolution.RegistryRow) (raw layoutRaw : Json) : Except Problem (Option Evaluation) :=
  match safeWorkflowInput tools (evaluatedInput raw layoutRaw) with
  | some problem => .error problem
  | none => .ok (((workflowSpec lax).parse raw).bind fun read => (normalizeWorkflow lax read).bind fun spec =>
      evaluated lax tools rows spec layoutRaw)

section Evaluations

variable {tools : Tools} {rows : List Resolution.RegistryRow} {read normal layoutRaw : Json}

theorem evaluate_ok {raw : Json} {result : Evaluation} : evaluate lax tools rows raw layoutRaw = .ok (some result) ↔
    safeWorkflowInput tools (evaluatedInput raw layoutRaw) = none ∧ ∃ read spec, (workflowSpec lax).parse raw = some read ∧
      normalizeWorkflow lax read = some spec ∧ evaluated lax tools rows spec layoutRaw = some result := by
  unfold evaluate
  cases safeWorkflowInput tools (evaluatedInput raw layoutRaw) with
  | some problem => exact iff_of_false (by rintro ⟨⟩) (by rintro ⟨⟨⟩, -⟩)
  | none =>
    simp only [Except.ok.injEq, Option.bind_eq_some_iff, true_and]
    constructor
    · rintro ⟨read, hread, spec, hspec, hresult⟩
      exact ⟨read, spec, hread, hspec, hresult⟩
    · rintro ⟨read, spec, hread, hspec, hresult⟩
      exact ⟨read, hread, spec, hspec, hresult⟩

/-- A valid specification is reported on, and without an issue only within the limits. -/
theorem validateWorkflow_some (h : Fine lax read) (snapshot : Option WorkflowResolvedSnapshot) :
    ∃ report, validateWorkflow lax tools read snapshot = some report ∧ (report.issues = [] → Fits tools (payload lax read)) := by
  cases hresources : resources tools (payload lax read) with
  | nil =>
    obtain ⟨_, normal, viewed, -, -, -, -, hreport⟩ := validateWorkflow_resources h hresources snapshot
    exact ⟨_, hreport, fun _ => (resources_eq_nil.mp hresources).1⟩
  | cons issue issues =>
    refine ⟨{ valid := false, issues := issue :: issues }, ?_, by rintro ⟨⟩⟩
    simp only [validateWorkflow, hresources]

/-- What the evaluation of a normal form says. -/
theorem evaluated_spec (h : Fine lax read) (hn : IsNormal lax read normal) (layoutRaw : Json) : ∃ viewed report,
    view lax normal = some viewed ∧
    validateWorkflow lax tools normal (some (Resolution.resolve rows viewed (contentHash lax tools.sha256 normal)).1) = some report ∧
    (report.issues = [] → Fits tools (payload lax normal)) ∧
    evaluated lax tools rows normal layoutRaw = some (evaluation lax tools normal layoutRaw viewed
      (Resolution.resolve rows viewed (contentHash lax tools.sha256 normal)) report) := by
  obtain ⟨s, hs⟩ := exists_views h
  have hview := view_normalizeWorkflow h hn hs
  obtain ⟨report, hreport, hfits⟩ := @validateWorkflow_some lax tools normal hn.fine
    (some (Resolution.resolve rows (Workflows.normalizeWorkflow s) (contentHash lax tools.sha256 normal)).1)
  refine ⟨_, report, hview, hreport, hfits, ?_⟩
  simp only [evaluated, hview, hreport, Option.bind_eq_bind, Option.bind_some]
  rfl

theorem depth_congr {other : Json} (h : Fine lax read) (ho : Fine lax other)
    (hdump : (workflowSpec lax).dump other = (workflowSpec lax).dump read) :
    (payload lax other).depth ≤ maxJsonDepth ↔ (payload lax read).depth ≤ maxJsonDepth := by
  rw [depth_payload h, depth_payload ho]
  exact forall₃_congr fun f hf _ => by rw [full_of_dump hdump hf]

/-- Normal forms that are written alike are evaluated alike, within the limits. -/
theorem evaluated_congr {other normal' : Json} (h : Fine lax read) (hn : IsNormal lax read normal) (ho : Fine lax other)
    (hn' : IsNormal lax other normal') (hform : specForm lax other = specForm lax read) (hfits : Fits tools (payload lax normal))
    (hfits' : Fits tools (payload lax normal')) :
    evaluated lax tools rows normal' layoutRaw =
      (evaluated lax tools rows normal layoutRaw).map fun result => { result with spec := normal' } := by
  have hdump : (workflowSpec lax).dump normal' = (workflowSpec lax).dump normal := by rw [hn'.dump ho, hn.dump h, hform]
  have hview : view lax normal' = view lax normal := by
    rw [view, view, viewed_eq_dump ho hn', viewed_eq_dump h hn, hdump]
  have hhash := contentHash_congr hn.fine.toValid hn'.fine.toValid hdump tools.sha256
  have hnormal : specForm lax normal' = specForm lax normal := by rw [hn'.isCopy.form ho, hn.isCopy.form h, hform]
  have hverdict : ∀ snapshot, validateWorkflow lax tools normal' snapshot = validateWorkflow lax tools normal snapshot :=
    validateWorkflow_congr hn.fine hn'.fine hnormal hfits hfits' (depth_congr hn.fine hn'.fine hdump)
  obtain ⟨viewed, report, hviewed, hreport, -, hevaluated⟩ := evaluated_spec h hn layoutRaw
  obtain ⟨viewed', report', hviewed', hreport', -, hevaluated'⟩ := evaluated_spec ho hn' layoutRaw
  cases hviewed'.symm.trans (hview.trans hviewed)
  rw [hhash, hverdict, hreport] at hreport'
  cases hreport'
  rw [hevaluated, hevaluated', Option.map_some, evaluation, evaluation, hhash]

/-- The workflow that `create` validates. -/
def initialSpec (key name description : String) : Json := .obj [
  ("key", .str key), ("name", .str name), ("description", .str description), ("entrypoint", .str "finish"),
  ("nodes", .list [.obj [("id", .str "finish"), ("type", .str "finalize"), ("label", .str "Finish"), ("config", .obj [])]]),
  ("edges", .list []), ("outputs", .obj [("result_path", .str "$.final")])]

/-- Whether an evaluation finds its specification valid. -/
def Evaluates (result : Except Problem (Option Evaluation)) : Bool :=
  match result with
  | .ok (some result) => result.report.valid
  | _ => false

theorem evaluates_initialSpec : Evaluates (evaluate strictLax sampleTools [] (initialSpec "sample" "Sample" "") (.obj [])) = true := rfl

end Evaluations

end Jarvis.Workflows.Documents
