/-
  Jarvis.Workflows.Normalization — the normal form of a specification (`normalize_workflow` in
  `Workflows.Documents`).

  What is written of the normal form depends on what is written of the specification, but for the
  nodes' policies, of which also what is set counts (`specForm_congr`). It does not depend on the
  order of nodes and edges, and normalizing it, or reading back what is written of it, leaves it.
-/
import Mathlib.Data.Prod.Lex
import Jarvis.Workflows.Documents

namespace Jarvis.Workflows.Documents

open Model

variable {lax : Lax}

/-! ## Sorting -/

def lexKey (key : String × Int × String) : String ×ₗ Int ×ₗ String := toLex (key.1, toLex (key.2.1, key.2.2))

theorem lexKey_injective : Function.Injective lexKey := by
  rintro ⟨a, b, c⟩ ⟨a', b', c'⟩ h
  cases h
  rfl

theorem keyLe_iff {a b : String × Int × String} : keyLe a b = true ↔ lexKey a ≤ lexKey b := by
  rw [lexKey, lexKey, Prod.Lex.toLex_le_toLex, Prod.Lex.toLex_le_toLex]
  unfold keyLe
  by_cases hsource : a.1 = b.1
  · by_cases hpriority : a.2.1 = b.2.1
    · simp [hsource, hpriority]
    · simp [hsource, hpriority]
  · simp [hsource]

section SortedBy

variable {α κ : Type} {le : κ → κ → Bool} {key : α → κ} {as bs : List α}

/-- Lists of the same elements, each of a key of its own, are sorted alike. -/
theorem sorted_perm (htotal : ∀ a b, le a b = true ∨ le b a = true) (htrans : ∀ a b c, le a b = true → le b c = true → le a c = true)
    (hantisymm : ∀ a b, le a b = true → le b a = true → a = b) (h : as.Perm bs) (hkeys : (as.map key).Nodup) :
    (as.insertionSort fun a b => le (key a) (key b)) = bs.insertionSort fun a b => le (key a) (key b) := by
  have : Std.Total fun a b : α => le (key a) (key b) = true := ⟨fun a b => htotal _ _⟩
  have : IsTrans α fun a b => le (key a) (key b) = true := ⟨fun a b c => htrans _ _ _⟩
  have hperm := (List.perm_insertionSort (fun a b => le (key a) (key b) = true) as).trans
    (h.trans (List.perm_insertionSort (fun a b => le (key a) (key b) = true) bs).symm)
  refine hperm.eq_of_pairwise (fun a b ha hb hab hba => ?_) (List.pairwise_insertionSort _ as) (List.pairwise_insertionSort _ bs)
  refine List.inj_on_of_nodup_map hkeys ((List.mem_insertionSort _).mp ha) ?_ (hantisymm _ _ hab hba)
  exact h.mem_iff.mpr ((List.mem_insertionSort _).mp hb)

/-- What keeps the keys keeps the order. -/
theorem map_sorted {β : Type} {key' : β → κ} {f : α → β} (h : ∀ a ∈ as, key' (f a) = key a) :
    (as.insertionSort fun a b => le (key a) (key b)).map f = (as.map f).insertionSort fun a b => le (key' a) (key' b) :=
  List.map_insertionSort (fun a b => le (key a) (key b) = true) (fun a b => le (key' a) (key' b) = true) f as
    fun a ha b hb => by rw [h a ha, h b hb]

variable {β : Type} {key' : β → κ} {R : α → β → Prop} {bs' : List β}

theorem forall₂_orderedInsert (hkey : ∀ a b, R a b → key' b = key a) {a : α} {b : β} (hab : R a b) (h : List.Forall₂ R as bs') :
    List.Forall₂ R (as.orderedInsert (fun a b => le (key a) (key b)) a) (bs'.orderedInsert (fun a b => le (key' a) (key' b)) b) := by
  induction h with
  | nil => exact .cons hab .nil
  | cons hcd hrest ih =>
    rw [List.orderedInsert_cons, List.orderedInsert_cons, hkey _ _ hab, hkey _ _ hcd]
    split
    · exact .cons hab (.cons hcd hrest)
    · exact .cons hcd ih

/-- Related lists are sorted into related ones, where what is related has one key. -/
theorem forall₂_sorted (hkey : ∀ a b, R a b → key' b = key a) (h : List.Forall₂ R as bs') :
    List.Forall₂ R (as.insertionSort fun a b => le (key a) (key b)) (bs'.insertionSort fun a b => le (key' a) (key' b)) := by
  induction h with
  | nil => exact .nil
  | cons hab hrest ih => exact forall₂_orderedInsert hkey hab ih

end SortedBy

theorem sortedNodes_perm {as bs : List Json} (h : as.Perm bs) (hids : (as.map nodeId).Nodup) : sortedNodes as = sortedNodes bs :=
  sorted_perm stringLe_total stringLe_trans stringLe_antisymm h hids

theorem sortedEdges_perm {as bs : List Json} (h : as.Perm bs) (hkeys : (as.map edgeKey).Nodup) : sortedEdges as = sortedEdges bs :=
  sorted_perm (fun a b => by simpa only [keyLe_iff] using le_total (lexKey a) (lexKey b))
    (fun a b c hab hbc => keyLe_iff.mpr (le_trans (keyLe_iff.mp hab) (keyLe_iff.mp hbc)))
    (fun a b hab hba => lexKey_injective (le_antisymm (keyLe_iff.mp hab) (keyLe_iff.mp hba))) h hkeys

/-! ## What a specification holds -/

theorem workflowSpecFields_nodup (lax : Lax) : ((workflowSpecFields lax).map Field.name).Nodup := of_decide_eq_true rfl

theorem workflowEdgeFields_nodup (lax : Lax) : ((workflowEdgeFields lax).map Field.name).Nodup := of_decide_eq_true rfl

theorem defaults_mem : policyField lax "defaults" ∈ workflowSpecFields lax :=
  .tail _ (.tail _ (.tail _ (.tail _ (.tail _ (.tail _ (.tail _ (.head _)))))))

theorem nodes_mem : nodesField lax ∈ workflowSpecFields lax :=
  .tail _ (.tail _ (.tail _ (.tail _ (.tail _ (.tail _ (.tail _ (.tail _ (.head _))))))))

theorem edges_mem : edgesField lax ∈ workflowSpecFields lax :=
  .tail _ (.tail _ (.tail _ (.tail _ (.tail _ (.tail _ (.tail _ (.tail _ (.tail _ (.head _)))))))))

theorem entrypoint_mem : entrypointField ∈ workflowSpecFields lax :=
  .tail _ (.tail _ (.tail _ (.tail _ (.tail _ (.tail _ (.head _))))))

structure Valid (lax : Lax) (spec : Json) : Prop where
  is : (workflowSpec lax).Is spec

/-- A specification with valid configurations. -/
structure Fine (lax : Lax) (spec : Json) : Prop extends Valid lax spec where
  configs : ConfigsValid lax spec

variable {spec : Json}

theorem Valid.made (h : Valid lax spec) : Made (workflowSpecFields lax) validReferences spec := is_model_iff.mp h.is

theorem Valid.defaults (h : Valid lax spec) : (nodePolicy lax).Is (policyOf spec "defaults") := policyOf_is h.made defaults_mem

theorem Valid.setOf_nodes (h : Valid lax spec) : setOf spec (nodesField lax) = some (.list (nodesOf spec)) ∧
    (1 ≤ (nodesOf spec).length ∧ (nodesOf spec).length ≤ 500) ∧ ∀ node ∈ nodesOf spec, (workflowNode lax).Is node := by
  obtain ⟨hset, his⟩ := h.made.required nodes_mem rfl
  obtain ⟨items, hitems, hlength, hall⟩ := Codec.is_list_iff.mp his
  have hnodes : nodesOf spec = items := congrArg Json.items hitems
  rw [hnodes]
  exact ⟨hitems ▸ hset, hlength, hall⟩

theorem Valid.setOf_edges (h : Valid lax spec) : setOf spec (edgesField lax) = some (.list (edgesOf spec)) ∧
    (0 ≤ (edgesOf spec).length ∧ (edgesOf spec).length ≤ 2000) ∧ ∀ edge ∈ edgesOf spec, (workflowEdge lax).Is edge := by
  obtain ⟨hset, his⟩ := h.made.required edges_mem rfl
  obtain ⟨items, hitems, hlength, hall⟩ := Codec.is_list_iff.mp his
  have hedges : edgesOf spec = items := congrArg Json.items hitems
  rw [hedges]
  exact ⟨hitems ▸ hset, hlength, hall⟩

theorem Fine.reads (h : Fine lax spec) {node : Json} (hnode : node ∈ nodesOf spec) : ∃ type config, Reads lax node type config := by
  obtain ⟨type, config, htype, hconfig⟩ := h.configs node hnode
  exact ⟨type, config, h.setOf_nodes.2.2 node hnode, htype, hconfig⟩

/-! ## Identifiers -/

/-- An identifier is a text, and written as it is. -/
theorem id_text {fields : List Field} {valid : List (String × Json) → Bool} {v : Json} (h : Made fields valid v)
    (hf : idField ∈ fields) : ∃ id, v.get "id" = .str id ∧ idPattern id = true := by
  obtain ⟨-, his⟩ := h.required hf rfl
  obtain ⟨s, hs, haccept⟩ := Codec.is_scalarOf his
  cases s with
  | str id =>
    rw [Bool.and_eq_true] at haccept
    exact ⟨id, hs, haccept.1⟩
  | null | bool | int | float => cases haccept

section Nodes

variable {defaults node config : Json} {type : WorkflowNodeType}

theorem nodeId_eq (h : (workflowNode lax).Is node) : node.get "id" = .str (nodeId node) := by
  obtain ⟨id, hid, -⟩ := id_text (is_model_iff.mp h) (.head _)
  rw [nodeId, hid]
  rfl

/-- What is written of an instance has its identifier. -/
theorem get_id_full (v : Json) : idField.full (setOf v idField) = v.get "id" := (get_leaf idField (fun _ => rfl) rfl).symm

theorem get_id_dump (node : Json) : ((workflowNode lax).dump node).get "id" = node.get "id" :=
  (get_table (workflowNodeFields_nodup lax) (.head _)).trans (get_id_full node)

theorem get_id_form : (nodeForm lax defaults node type config).get "id" = node.get "id" :=
  (get_table (workflowNodeFields_nodup lax) (.head _)).trans (get_id_full node)

/-- What is written of the normalized copy of a node. -/
def formOf (lax : Lax) (defaults node : Json) : Json :=
  ((normalizeNode lax defaults node).map (workflowNode lax).dump).getD .null

theorem formOf_eq (hd : (nodePolicy lax).Is defaults) (h : Reads lax node type config) :
    formOf lax defaults node = nodeForm lax defaults node type config := by
  obtain ⟨policy, hpolicy, hnormalize⟩ := normalizeNode_spec hd h
  rw [formOf, hnormalize]
  exact dump_normalized hpolicy

/-- The normalized copy of a node. -/
def Normalizes (lax : Lax) (defaults node copied : Json) : Prop :=
  ∃ type config policy, Reads lax node type config ∧ Sets lax defaults (policyOf node "policy") type policy ∧
    copied = copy (workflowNodeFields lax) node (changes ((configModel lax type).dump config) policy)

variable {copied : Json}

theorem normalizes_of_reads (hd : (nodePolicy lax).Is defaults) (h : Reads lax node type config) :
    ∃ copied, normalizeNode lax defaults node = some copied ∧ Normalizes lax defaults node copied := by
  obtain ⟨policy, hpolicy, hnormalize⟩ := normalizeNode_spec hd h
  exact ⟨_, hnormalize, type, config, policy, h, hpolicy, rfl⟩

theorem Normalizes.dump (hd : (nodePolicy lax).Is defaults) (h : Normalizes lax defaults node copied) :
    (workflowNode lax).dump copied = formOf lax defaults node := by
  obtain ⟨type, config, policy, hreads, hpolicy, rfl⟩ := h
  rw [formOf_eq hd hreads]
  exact dump_normalized hpolicy

/-- A copy of a node that sets its effective policy, whether its configuration is left or written out. -/
def Materializes (lax : Lax) (defaults node copied : Json) : Prop :=
  ∃ type config value config' policy, Reads lax node type config ∧ (configModel lax type).parse value = some config' ∧
    (configModel lax type).dump config' = (configModel lax type).dump config ∧
    Sets lax defaults (policyOf node "policy") type policy ∧ copied = copy (workflowNodeFields lax) node (changes value policy)

theorem Normalizes.materializes (h : Normalizes lax defaults node copied) : Materializes lax defaults node copied := by
  obtain ⟨type, config, policy, hreads, hpolicy, rfl⟩ := h
  obtain ⟨config', hvalue, hconfig⟩ := (configModel lax type).parse_dump hreads.config_eq
  exact ⟨type, config, _, config', policy, hreads, hvalue, hconfig, hpolicy, rfl⟩

/-- Such a copy has the form of the node it is a copy of. -/
theorem Materializes.again {defaults' : Json} (hd : (nodePolicy lax).Is defaults) (hd' : (nodePolicy lax).Is defaults')
    (hdump : (nodePolicy lax).dump defaults' = (nodePolicy lax).dump defaults) (h : Materializes lax defaults node copied) :
    (∃ type config, Reads lax copied type config) ∧ formOf lax defaults' copied = formOf lax defaults node := by
  obtain ⟨type, config, value, config', policy, hreads, hvalue, hconfig, hpolicy, rfl⟩ := h
  have hreads' := hreads.changed hvalue hpolicy.is
  refine ⟨⟨type, config', hreads'⟩, ?_⟩
  rw [formOf_eq hd' hreads', formOf_eq hd hreads]
  exact nodeForm_changed hreads hdump hpolicy hconfig

/-- A node read back from what is written of it and a policy of the same effect has its form. -/
theorem formOf_reread {defaults' given policy : Json} (hd : (nodePolicy lax).Is defaults) (hd' : (nodePolicy lax).Is defaults')
    (hdefaults : (nodePolicy lax).dump defaults' = (nodePolicy lax).dump defaults) (h : Reads lax node type config)
    (hgiven : (nodePolicy lax).parse given = some policy)
    (hdump : (nodePolicy lax).dump policy = (nodePolicy lax).dump (policyOf node "policy"))
    (heffective : ∀ f ∈ nodePolicyFields lax, effective defaults policy type f = effective defaults (policyOf node "policy") type f) :
    ∃ node', (workflowNode lax).parse (((workflowNode lax).dump node).assign "policy" given) = some node' ∧
      (∃ type config, Reads lax node' type config) ∧ (workflowNode lax).dump node' = (workflowNode lax).dump node ∧
      formOf lax defaults' node' = formOf lax defaults node := by
  obtain ⟨node', hparse, hreads, hpolicy, hfull⟩ := h.reread hgiven hdump
  refine ⟨node', hparse, ⟨type, config, hreads⟩, table_congr hfull, ?_⟩
  rw [formOf_eq hd' hreads, formOf_eq hd h]
  refine nodeForm_congr (fun f hf _ _ => hfull f hf) rfl fun f hf => ?_
  rw [hpolicy, ← heffective f hf]
  unfold effective
  rw [full_of_dump hdefaults hf]

theorem assign_policy (node : Json) :
    ((workflowNode lax).dump node).assign "policy" ((nodePolicy lax).dump (policyOf node "policy")) = (workflowNode lax).dump node := by
  rw [← full_policy]
  exact assign_self (workflowNodeFields_nodup lax) policy_mem

/-- A policy that sets what is effective does when it is written and read back. -/
theorem Sets.reread {own policy : Json} (h : Sets lax defaults own type policy) :
    ∃ policy', (nodePolicy lax).parse ((nodePolicy lax).dump policy) = some policy' ∧
      (nodePolicy lax).dump policy' = (nodePolicy lax).dump policy ∧ Sets lax defaults own type policy' := by
  have hmade := is_model_iff.mp h.is
  obtain ⟨policy', hparse, hset, hfull⟩ := Model.reread (nodePolicyFields_nodup lax) hmade (fun f => f.full (setOf policy f))
    fun f hf => Field.parse_full (hmade.instance_.holds f hf)
  refine ⟨policy', hparse, table_congr hfull, ⟨@Codec.is_of_parse (nodePolicy lax) _ _ hparse, fun f hf => ?_⟩⟩
  obtain ⟨x, -, hx⟩ := hset f hf
  refine ⟨by rw [hx]; rfl, ?_⟩
  rw [hfull f hf]
  exact (h.fields f hf).2

/-- Such a copy read back from what is written of it has the form of the node it is a copy of. -/
theorem Materializes.reread {defaults' : Json} (hd : (nodePolicy lax).Is defaults) (hd' : (nodePolicy lax).Is defaults')
    (hdump : (nodePolicy lax).dump defaults' = (nodePolicy lax).dump defaults)
    (h : Materializes lax defaults node copied) :
    ∃ node', (workflowNode lax).parse ((workflowNode lax).dump copied) = some node' ∧
      (∃ type config, Reads lax node' type config) ∧ (workflowNode lax).dump node' = (workflowNode lax).dump copied ∧
      formOf lax defaults' node' = formOf lax defaults node := by
  have hform := (h.again hd hd rfl).2
  obtain ⟨type, config, value, config', policy, hreads, hvalue, hconfig, hpolicy, rfl⟩ := h
  have hreads' := hreads.changed hvalue hpolicy.is
  obtain ⟨policy', hparse, hsame, hpolicy'⟩ := hpolicy.reread
  obtain ⟨node', hnode, hreads'', hwritten, hform'⟩ := formOf_reread hd hd' hdump hreads' hparse
    (by rw [policyOf_copy]; exact hsame) fun f hf => by
      rw [policyOf_copy, effective_again rfl hreads.policy_is hpolicy'.is hpolicy'.fields hf,
        effective_again rfl hreads.policy_is hpolicy.is hpolicy.fields hf]
  refine ⟨node', ?_, hreads'', hwritten, hform'.trans hform⟩
  have hassign := @assign_policy lax (copy (workflowNodeFields lax) node (changes value policy))
  rw [policyOf_copy] at hassign
  rw [← hnode, hassign]

end Nodes

/-! ## References -/

def idText (v : Json) : Option String := textOf? (v.get "id")

theorem references_iff {entrypoint : Option String} {nodes edges : List Json} : references entrypoint nodes edges = true ↔
    (nodes.map idText).Nodup ∧ (edges.map idText).Nodup ∧ entrypoint ∈ nodes.map idText ∧
      ∀ edge ∈ edges, textOf? (edge.get "from") ∈ nodes.map idText ∧ textOf? (edge.get "to") ∈ nodes.map idText := by
  simp only [references, Bool.and_eq_true, decide_eq_true_eq, List.contains_iff_mem, List.all_eq_true, and_assoc]
  rfl

/-- References are to identifiers, whatever the order. -/
theorem references_perm {entrypoint : Option String} {nodes nodes' edges edges' : List Json}
    (hnodes : (nodes.map idText).Perm (nodes'.map idText)) (hedges : edges.Perm edges')
    (h : references entrypoint nodes edges = true) : references entrypoint nodes' edges' = true := by
  obtain ⟨hids, hedgeIds, hentry, hends⟩ := references_iff.mp h
  refine references_iff.mpr ⟨hnodes.nodup_iff.mp hids, (hedges.map idText).nodup_iff.mp hedgeIds, hnodes.mem_iff.mp hentry,
    fun edge hedge => ?_⟩
  obtain ⟨hfrom, hto⟩ := hends edge (hedges.mem_iff.mpr hedge)
  exact ⟨hnodes.mem_iff.mp hfrom, hnodes.mem_iff.mp hto⟩

section Members

variable {set : Field → Option Json} {nodes edges : List Json}

theorem memberItems_nodes (h : set (nodesField lax) = some (.list nodes)) :
    memberItems (written (workflowSpecFields lax) set) "nodes" = nodes.map (workflowNode lax).dump := by
  have hget := @get_written _ set (workflowSpecFields_nodup lax) _ nodes_mem
  rw [h] at hget
  exact congrArg Json.items hget

theorem memberItems_edges (h : set (edgesField lax) = some (.list edges)) :
    memberItems (written (workflowSpecFields lax) set) "edges" = edges.map (workflowEdge lax).dump := by
  have hget := @get_written _ set (workflowSpecFields_nodup lax) _ edges_mem
  rw [h] at hget
  exact congrArg Json.items hget

end Members

theorem memberText_entrypoint {set set' : Field → Option Json} (h : set entrypointField = set' entrypointField) :
    memberText (written (workflowSpecFields lax) set) "entrypoint" = memberText (written (workflowSpecFields lax) set') "entrypoint" := by
  have hget := @get_written _ set (workflowSpecFields_nodup lax) _ entrypoint_mem
  rw [h, ← @get_written _ set' (workflowSpecFields_nodup lax) _ entrypoint_mem] at hget
  exact congrArg textOf? hget

theorem Valid.references (h : Valid lax spec) : references (memberText (written (workflowSpecFields lax) (setOf spec)) "entrypoint")
    ((nodesOf spec).map (workflowNode lax).dump) ((edgesOf spec).map (workflowEdge lax).dump) = true := by
  have hvalid := h.made.instance_.valid
  rwa [validReferences, memberItems_nodes h.setOf_nodes.1, memberItems_edges h.setOf_edges.1] at hvalid

theorem idText_dump (node : Json) : idText ((workflowNode lax).dump node) = idText node := congrArg textOf? (get_id_dump node)

theorem map_idText_dump (nodes : List Json) : (nodes.map (workflowNode lax).dump).map idText = nodes.map idText := by
  rw [List.map_map]
  exact List.map_congr_left fun node _ => idText_dump node

theorem Valid.idTexts (h : Valid lax spec) :
    ((nodesOf spec).map (workflowNode lax).dump).map idText = ((nodesOf spec).map nodeId).map some := by
  rw [map_idText_dump, List.map_map]
  exact List.map_congr_left fun node hnode => congrArg textOf? (nodeId_eq (h.setOf_nodes.2.2 node hnode))

theorem Valid.nodup_nodeId (h : Valid lax spec) : ((nodesOf spec).map nodeId).Nodup := by
  have hids := (references_iff.mp h.references).1
  rw [h.idTexts] at hids
  exact hids.of_map

theorem get_id_dumpEdge (edge : Json) : ((workflowEdge lax).dump edge).get "id" = edge.get "id" :=
  (get_table (workflowEdgeFields_nodup lax) (.head _)).trans (get_id_full edge)

theorem edgeKey_dump (edge : Json) : edgeKey ((workflowEdge lax).dump edge) = edgeKey edge := by
  have hid := @get_id_dumpEdge lax edge
  have hfrom : ((workflowEdge lax).dump edge).get "from" = edge.get "from" :=
    (get_table (workflowEdgeFields_nodup lax) (.tail _ (.head _))).trans (get_leaf (.required "from" (text 1 80)) (fun _ => rfl) rfl).symm
  have hpriority : ((workflowEdge lax).dump edge).get "priority" = (edge.members.lookup "priority").getD (.int 0) := by
    refine (get_table (workflowEdgeFields_nodup lax) (.tail _ (.tail _ (.tail _ (.tail _ (.tail _ (.head _))))))).trans ?_
    show Field.full _ (edge.members.lookup "priority") = _
    cases edge.members.lookup "priority" <;> rfl
  unfold edgeKey
  rw [hid, hfrom, hpriority]
  simp only [Json.get]
  cases edge.members.lookup "priority" <;> rfl

theorem Valid.nodup_edgeId (h : Valid lax spec) : ((edgesOf spec).map fun edge => (edgeKey edge).2.2).Nodup := by
  have hids := (references_iff.mp h.references).2.1
  have heq : ((edgesOf spec).map (workflowEdge lax).dump).map idText =
      ((edgesOf spec).map fun edge => (edgeKey edge).2.2).map some := by
    rw [List.map_map, List.map_map]
    refine List.map_congr_left fun edge hedge => ?_
    obtain ⟨id, hid, -⟩ := id_text (is_model_iff.mp (h.setOf_edges.2.2 edge hedge)) (.head _)
    simp only [Function.comp, idText, get_id_dumpEdge, edgeKey, hid, textOf?, Option.getD_some]
  rw [heq] at hids
  exact hids.of_map

theorem Valid.nodup_edgeKey (h : Valid lax spec) : ((edgesOf spec).map edgeKey).Nodup :=
  List.Nodup.of_map (fun key : String × Int × String => key.2.2) (by rw [List.map_map]; exact h.nodup_edgeId)

/-! ## Normalizing a specification -/

/-- What `normalize_workflow` changes in a specification. -/
def changedLists (nodes edges : List Json) : List (String × Json) := [("nodes", .list nodes), ("edges", .list edges)]

theorem normalizeWorkflow_eq (spec : Json) : normalizeWorkflow lax spec =
    (readAll (normalizeNode lax (policyOf spec "defaults")) (sortedNodes (nodesOf spec))).bind fun nodes =>
      some (copy (workflowSpecFields lax) spec (changedLists nodes (sortedEdges (edgesOf spec)))) := rfl

theorem normalizeWorkflow_spec (h : Fine lax spec) :
    ∃ nodes, List.Forall₂ (Normalizes lax (policyOf spec "defaults")) (sortedNodes (nodesOf spec)) nodes ∧
      normalizeWorkflow lax spec =
        some (copy (workflowSpecFields lax) spec (changedLists nodes (sortedEdges (edgesOf spec)))) := by
  have hmem : ∀ node ∈ sortedNodes (nodesOf spec), ∃ copied, normalizeNode lax (policyOf spec "defaults") node = some copied ∧
      Normalizes lax (policyOf spec "defaults") node copied := by
    intro node hnode
    obtain ⟨type, config, hreads⟩ := h.reads ((List.mem_insertionSort _).mp hnode)
    exact normalizes_of_reads h.defaults hreads
  obtain ⟨nodes, hnodes⟩ := exists_forall₂ (List.forall₂_same.mpr hmem) fun _ _ h => h
  refine ⟨nodes, hnodes.imp fun _ _ h => h.2, ?_⟩
  rw [normalizeWorkflow_eq, readAll_eq_some.mpr (hnodes.imp fun _ _ h => h.1), Option.bind_some]

section Copies

variable {nodes edges : List Json}

theorem nodesOf_copy (spec : Json) (nodes edges : List Json) :
    nodesOf (copy (workflowSpecFields lax) spec (changedLists nodes edges)) = nodes :=
  congrArg Json.items (get_copy (workflowSpecFields_nodup lax) spec (changedLists nodes edges) nodes_mem)

theorem edgesOf_copy (spec : Json) (nodes edges : List Json) :
    edgesOf (copy (workflowSpecFields lax) spec (changedLists nodes edges)) = edges :=
  congrArg Json.items (get_copy (workflowSpecFields_nodup lax) spec (changedLists nodes edges) edges_mem)

theorem defaults_copy (spec : Json) (nodes edges : List Json) :
    policyOf (copy (workflowSpecFields lax) spec (changedLists nodes edges)) "defaults" = policyOf spec "defaults" :=
  congrArg (fun x : Option Json => x.getD noPolicy) (setOf_copy (workflowSpecFields_nodup lax) defaults_mem)

theorem setOf_changed {f : Field} (hf : f ∈ workflowSpecFields lax) (hnodes : f.name ≠ "nodes") (hedges : f.name ≠ "edges") :
    setOf (copy (workflowSpecFields lax) spec (changedLists nodes edges)) f = setOf spec f := by
  have hnone : (changedLists nodes edges).lookup f.name = none := by
    simp only [changedLists, List.lookup_cons, beq_eq_false_iff_ne.mpr hnodes, beq_eq_false_iff_ne.mpr hedges, List.lookup_nil]
  rw [setOf_copy (workflowSpecFields_nodup lax) hf, hnone]
  rfl

/-- A specification with other nodes and edges, that are as well referred to, is one. -/
theorem Valid.copied (h : Valid lax spec) (hlength : nodes.length = (nodesOf spec).length) (his : ∀ node ∈ nodes, (workflowNode lax).Is node)
    (hids : ((nodesOf spec).map idText).Perm (nodes.map idText)) (hedges : (edgesOf spec).Perm edges) :
    Valid lax (copy (workflowSpecFields lax) spec (changedLists nodes edges)) := by
  refine ⟨is_model_iff.mpr (made_copy (workflowSpecFields_nodup lax) h.made (fun f hf x hx => ?_) ?_)⟩
  · by_cases hname : f.name = "nodes"
    · have : f = nodesField lax := List.inj_on_of_nodup_map (workflowSpecFields_nodup lax) hf nodes_mem hname
      subst this
      cases hx
      exact Codec.is_list_iff.mpr ⟨nodes, rfl, hlength ▸ h.setOf_nodes.2.1, his⟩
    · by_cases hname' : f.name = "edges"
      · have : f = edgesField lax := List.inj_on_of_nodup_map (workflowSpecFields_nodup lax) hf edges_mem hname'
        subst this
        cases hx
        refine Codec.is_list_iff.mpr ⟨edges, rfl, hedges.length_eq ▸ h.setOf_edges.2.1, fun edge hedge => ?_⟩
        exact h.setOf_edges.2.2 edge (hedges.mem_iff.mpr hedge)
      · have hnone : (changedLists nodes edges).lookup f.name = none := by
          simp only [changedLists, List.lookup_cons, beq_eq_false_iff_ne.mpr hname, beq_eq_false_iff_ne.mpr hname', List.lookup_nil]
        rw [hnone] at hx
        cases hx
  · have hset : ∀ f ∈ workflowSpecFields lax, setOf (copy (workflowSpecFields lax) spec (changedLists nodes edges)) f = _ :=
      fun f hf => setOf_copy (workflowSpecFields_nodup lax) hf
    rw [validReferences, memberItems_nodes (hset _ nodes_mem), memberItems_edges (hset _ edges_mem),
      memberText_entrypoint (setOf_changed entrypoint_mem (by decide) (by decide))]
    refine references_perm ?_ (hedges.map _) h.references
    rwa [map_idText_dump, map_idText_dump]

theorem Fine.copied (h : Fine lax spec) (hlength : nodes.length = (nodesOf spec).length) (hreads : ∀ node ∈ nodes, ∃ type config, Reads lax node type config)
    (hids : ((nodesOf spec).map idText).Perm (nodes.map idText)) (hedges : (edgesOf spec).Perm edges) :
    Fine lax (copy (workflowSpecFields lax) spec (changedLists nodes edges)) := by
  refine ⟨h.toValid.copied hlength (fun node hnode => ?_) hids hedges, fun node hnode => ?_⟩
  · obtain ⟨type, config, hreads⟩ := hreads node hnode
    exact hreads.is
  · rw [nodesOf_copy] at hnode
    obtain ⟨type, config, hreads⟩ := hreads node hnode
    exact ⟨type, config, hreads.type_eq, hreads.config_eq⟩

end Copies

/-! ## What is written of the normal form -/

/-- A specification's normal form, as it is written. -/
def specForm (lax : Lax) (spec : Json) : Json :=
  table (workflowSpecFields lax) fun f =>
    if f.name = "nodes" then .list (sortedNodes ((nodesOf spec).map (formOf lax (policyOf spec "defaults"))))
    else if f.name = "edges" then .list (sortedEdges ((edgesOf spec).map (workflowEdge lax).dump))
    else f.full (setOf spec f)

/-- What normalization makes of a specification. -/
structure IsNormal (lax : Lax) (spec normal : Json) : Prop where
  fine : Fine lax normal
  nodes : List.Forall₂ (Normalizes lax (policyOf spec "defaults")) (sortedNodes (nodesOf spec)) (nodesOf normal)
  edges : edgesOf normal = sortedEdges (edgesOf spec)
  defaults : policyOf normal "defaults" = policyOf spec "defaults"
  rest : ∀ f ∈ workflowSpecFields lax, f.name ≠ "nodes" → f.name ≠ "edges" → setOf normal f = setOf spec f

theorem nodeId_form (h : Fine lax spec) {node : Json} (hnode : node ∈ nodesOf spec) :
    nodeId (formOf lax (policyOf spec "defaults") node) = nodeId node := by
  obtain ⟨type, config, hreads⟩ := h.reads hnode
  rw [formOf_eq h.defaults hreads]
  exact congrArg (fun j => (textOf? j).getD "") get_id_form

theorem map_forms (h : Fine lax spec) : (sortedNodes (nodesOf spec)).map (formOf lax (policyOf spec "defaults")) =
    sortedNodes ((nodesOf spec).map (formOf lax (policyOf spec "defaults"))) :=
  map_sorted fun _ hnode => nodeId_form h hnode

theorem map_dumps (edges : List Json) : (sortedEdges edges).map (workflowEdge lax).dump = sortedEdges (edges.map (workflowEdge lax).dump) :=
  map_sorted fun edge _ => edgeKey_dump edge

variable {normal : Json}

theorem normalizeWorkflow_isNormal (h : Fine lax spec) : ∃ normal, normalizeWorkflow lax spec = some normal ∧ IsNormal lax spec normal := by
  obtain ⟨nodes, hnodes, hnormalize⟩ := normalizeWorkflow_spec h
  refine ⟨_, hnormalize, ?_, ?_, edgesOf_copy _ _ _, defaults_copy _ _ _, fun f hf => setOf_changed hf⟩
  · refine h.copied ?_ (fun copied hcopied => ?_) ?_ (List.perm_insertionSort _ _).symm
    · rw [← hnodes.length_eq]
      exact List.length_insertionSort _ _
    · obtain ⟨node, -, hnormal⟩ := forall₂_left hnodes hcopied
      exact (hnormal.materializes.again h.defaults h.defaults rfl).1
    · have hids : nodes.map idText = (sortedNodes (nodesOf spec)).map idText :=
        map_eq_of_forall₂ (hnodes.imp fun node copied hnormal => ?_)
      · rw [hids]
        exact ((List.perm_insertionSort _ _).map _).symm
      · have hdump := hnormal.dump h.defaults
        obtain ⟨type, config, policy, hreads, -⟩ := hnormal
        rw [← idText_dump copied, hdump, formOf_eq h.defaults hreads]
        exact congrArg textOf? get_id_form
  · rw [nodesOf_copy]
    exact hnodes

theorem IsNormal.dump (h : Fine lax spec) (hn : IsNormal lax spec normal) : (workflowSpec lax).dump normal = specForm lax spec := by
  refine table_congr fun f hf => ?_
  by_cases hname : f.name = "nodes"
  · have : f = nodesField lax := List.inj_on_of_nodup_map (workflowSpecFields_nodup lax) hf nodes_mem hname
    subst this
    rw [if_pos hname, hn.fine.setOf_nodes.1, ← map_forms h]
    exact congrArg Json.list (map_eq_of_forall₂ (hn.nodes.imp fun _ _ hnormal => hnormal.dump h.defaults))
  · rw [if_neg hname]
    by_cases hname' : f.name = "edges"
    · have : f = edgesField lax := List.inj_on_of_nodup_map (workflowSpecFields_nodup lax) hf edges_mem hname'
      subst this
      rw [if_pos hname', hn.fine.setOf_edges.1, ← map_dumps, ← hn.edges]
      rfl
    · rw [if_neg hname', hn.rest f hf hname hname']

/-- Specifications that are written alike, but for the order of nodes and edges, and whose nodes have
    the same forms have the same normal form. -/
theorem specForm_congr {other : Json} (h : Fine lax spec)
    (hfull : ∀ f ∈ workflowSpecFields lax, f.name ≠ "nodes" → f.name ≠ "edges" → f.full (setOf other f) = f.full (setOf spec f))
    (hnodes : ((nodesOf other).map (formOf lax (policyOf other "defaults"))).Perm
      ((nodesOf spec).map (formOf lax (policyOf spec "defaults"))))
    (hedges : ((edgesOf other).map (workflowEdge lax).dump).Perm ((edgesOf spec).map (workflowEdge lax).dump)) :
    specForm lax other = specForm lax spec := by
  have hids : ((nodesOf spec).map (formOf lax (policyOf spec "defaults"))).map nodeId = (nodesOf spec).map nodeId := by
    rw [List.map_map]
    exact List.map_congr_left fun node hnode => nodeId_form h hnode
  have hkeys : ((edgesOf spec).map (workflowEdge lax).dump).map edgeKey = (edgesOf spec).map edgeKey := by
    rw [List.map_map]
    exact List.map_congr_left fun edge _ => edgeKey_dump edge
  refine table_congr fun f hf => ?_
  by_cases hname : f.name = "nodes"
  · rw [if_pos hname, if_pos hname, sortedNodes_perm hnodes.symm (hids ▸ h.nodup_nodeId)]
  · rw [if_neg hname, if_neg hname]
    by_cases hname' : f.name = "edges"
    · rw [if_pos hname', if_pos hname', sortedEdges_perm hedges.symm (hkeys ▸ h.nodup_edgeKey)]
    · rw [if_neg hname', if_neg hname', hfull f hf hname hname']

/-! ## Copies of one form -/

/-- A copy of a specification, in any order, whose nodes set their effective policies. -/
structure IsCopy (lax : Lax) (spec copied : Json) : Prop where
  fine : Fine lax copied
  nodes : ∃ nodes, nodes.Perm (nodesOf spec) ∧ List.Forall₂ (Materializes lax (policyOf spec "defaults")) nodes (nodesOf copied)
  edges : (edgesOf copied).Perm (edgesOf spec)
  defaults : policyOf copied "defaults" = policyOf spec "defaults"
  rest : ∀ f ∈ workflowSpecFields lax, f.name ≠ "nodes" → f.name ≠ "edges" → setOf copied f = setOf spec f

theorem IsNormal.isCopy (hn : IsNormal lax spec normal) : IsCopy lax spec normal where
  fine := hn.fine
  nodes := ⟨_, List.perm_insertionSort _ _, hn.nodes.imp fun _ _ hnormal => hnormal.materializes⟩
  edges := hn.edges ▸ List.perm_insertionSort _ _
  defaults := hn.defaults
  rest := hn.rest

variable {copied : Json}

/-- Such a copy has the form of the specification. -/
theorem IsCopy.form (h : Fine lax spec) (hc : IsCopy lax spec copied) : specForm lax copied = specForm lax spec := by
  refine specForm_congr h (fun f hf hname hname' => by rw [hc.rest f hf hname hname']) ?_ (hc.edges.map _)
  obtain ⟨nodes, hperm, hnodes⟩ := hc.nodes
  have hforms : (nodesOf copied).map (formOf lax (policyOf copied "defaults")) = nodes.map (formOf lax (policyOf spec "defaults")) := by
    refine map_eq_of_forall₂ (hnodes.imp fun node copied hnode => ?_)
    rw [hc.defaults]
    exact (hnode.again h.defaults h.defaults rfl).2
  rw [hforms]
  exact hperm.map _

/-- A specification read back from what is written of it, its nodes as `given`. -/
structure IsReread (lax : Lax) (spec : Json) (given : Json → Json) (read : Json) : Prop where
  parse : (workflowSpec lax).parse (((workflowSpec lax).dump spec).assign "nodes" (.list ((nodesOf spec).map given))) = some read
  fine : Fine lax read
  dump : (workflowSpec lax).dump read = (workflowSpec lax).dump spec
  form : specForm lax read = specForm lax spec

theorem reread_spec (h : Fine lax spec) (given : Json → Json)
    (hgiven : ∀ defaults, (nodePolicy lax).Is defaults → (nodePolicy lax).dump defaults = (nodePolicy lax).dump (policyOf spec "defaults") →
      ∀ node ∈ nodesOf spec, ∃ node', (workflowNode lax).parse (given node) = some node' ∧ (∃ type config, Reads lax node' type config) ∧
        (workflowNode lax).dump node' = (workflowNode lax).dump node ∧
        formOf lax defaults node' = formOf lax (policyOf spec "defaults") node) :
    ∃ read, IsReread lax spec given read := by
  have htable : ((workflowSpec lax).dump spec).assign "nodes" (.list ((nodesOf spec).map given)) =
      table (workflowSpecFields lax) fun f => if f.name = "nodes" then .list ((nodesOf spec).map given) else f.full (setOf spec f) :=
    assign_table ⟨_, nodes_mem, rfl⟩
  have hname : (nodesField lax).name = "nodes" := rfl
  obtain ⟨nodes', hnodes'⟩ := exists_forall₂ (List.forall₂_same.mpr fun node hnode =>
    hgiven _ h.defaults rfl node hnode) fun _ _ h => h
  have hlist : (Codec.list (workflowNode lax) 1 500).parse (.list ((nodesOf spec).map given)) = some (.list nodes') :=
    Codec.parseList_eq_some.mpr ⟨_, nodes', rfl, rfl, by rw [List.length_map]; exact h.setOf_nodes.2.1,
      List.forall₂_map_left_iff.mpr (hnodes'.imp fun _ _ h => h.1)⟩
  obtain ⟨read, hparse, hset, hfull⟩ := Model.reread (workflowSpecFields_nodup lax) h.made
    (fun f => if f.name = "nodes" then .list ((nodesOf spec).map given) else f.full (setOf spec f)) fun f hf => by
      by_cases hkey : f.name = "nodes"
      · have : f = nodesField lax := List.inj_on_of_nodup_map (workflowSpecFields_nodup lax) hf nodes_mem hkey
        subst this
        rw [if_pos hname, h.setOf_nodes.1]
        exact ⟨_, hlist, congrArg Json.list (map_eq_of_forall₂ (hnodes'.imp fun _ _ h => h.2.2.1))⟩
      · rw [if_neg hkey]
        exact Field.parse_full (h.made.instance_.holds f hf)
  have hread : nodesOf read = nodes' := by
    obtain ⟨x, hx, hset⟩ := hset _ nodes_mem
    rw [if_pos hname] at hx
    cases hlist.symm.trans hx
    exact congrArg (fun x : Option Json => (x.getD .null).items) hset
  have hfine : Fine lax read := by
    refine ⟨⟨@Codec.is_of_parse (workflowSpec lax) _ _ hparse⟩, fun node' hnode' => ?_⟩
    obtain ⟨node, -, -, ⟨type, config, hreads⟩, -⟩ := forall₂_left hnodes' (hread ▸ hnode')
    exact ⟨type, config, hreads.type_eq, hreads.config_eq⟩
  have hdefaults : (nodePolicy lax).dump (policyOf read "defaults") = (nodePolicy lax).dump (policyOf spec "defaults") := by
    rw [← full_policy, ← full_policy]
    exact hfull _ defaults_mem
  refine ⟨read, htable ▸ hparse, hfine, table_congr hfull, specForm_congr h (fun f hf _ _ => hfull f hf) ?_ ?_⟩
  · rw [hread]
    refine List.Perm.of_eq (map_eq_of_forall₂ ?_)
    refine List.Forall₂.imp (fun node node' hnode => ?_) ((List.forall₂_and_left _ _).mpr ⟨fun _ hnode => hnode, hnodes'⟩)
    obtain ⟨node'', hparse'', -, -, hform⟩ := hgiven _ hfine.defaults hdefaults node hnode.1
    cases hnode.2.1.symm.trans hparse''
    exact hform
  · have hedges := hfull _ edges_mem
    rw [hfine.setOf_edges.1, h.setOf_edges.1] at hedges
    exact List.Perm.of_eq (Json.list.inj hedges)

theorem assign_nodes (h : Fine lax spec) :
    ((workflowSpec lax).dump spec).assign "nodes" (.list ((nodesOf spec).map (workflowNode lax).dump)) = (workflowSpec lax).dump spec := by
  have hfull : (nodesField lax).full (setOf spec (nodesField lax)) = .list ((nodesOf spec).map (workflowNode lax).dump) :=
    congrArg (nodesField lax).full h.setOf_nodes.1
  rw [← hfull]
  exact assign_self (workflowSpecFields_nodup lax) nodes_mem

/-- Such a copy, dumped and read back, has the form of the specification. -/
theorem IsCopy.reread (h : Fine lax spec) (hc : IsCopy lax spec copied) :
    ∃ read, (workflowSpec lax).parse ((workflowSpec lax).dump copied) = some read ∧ Fine lax read ∧
      (workflowSpec lax).dump read = (workflowSpec lax).dump copied ∧ specForm lax read = specForm lax spec := by
  obtain ⟨nodes, -, hnodes⟩ := hc.nodes
  obtain ⟨read, hread⟩ := reread_spec hc.fine (workflowNode lax).dump fun defaults hd hdump node' hnode' => by
    obtain ⟨node, -, hnode⟩ := forall₂_left hnodes hnode'
    rw [hc.defaults] at hdump ⊢
    obtain ⟨node'', hparse, hreads, hwritten, hform⟩ := hnode.reread h.defaults hd hdump
    exact ⟨node'', hparse, hreads, hwritten, hform.trans (hnode.again h.defaults h.defaults rfl).2.symm⟩
  exact ⟨read, assign_nodes hc.fine ▸ hread.parse, hread.fine, hread.dump, hread.form.trans (hc.form h)⟩

/-- A node as `validate_workflow` writes it: of its policy what is set. -/
def nodePayload (lax : Lax) (node : Json) : Json := ((workflowNode lax).dump node).assign "policy" (policyOf node "policy")

/-- The payload that `validate_workflow` makes of a specification. -/
def payload (lax : Lax) (spec : Json) : Json :=
  ((workflowSpec lax).dump spec).assign "nodes" (.list ((nodesOf spec).map (nodePayload lax)))

/-- A specification's payload is read as one that has its form. -/
theorem payload_reread (h : Fine lax spec) : ∃ read, IsReread lax spec (nodePayload lax) read :=
  reread_spec h (nodePayload lax) fun defaults hd hdump node hnode => by
    obtain ⟨type, config, hreads⟩ := h.reads hnode
    exact formOf_reread h.defaults hd hdump hreads hreads.policy_is rfl fun _ _ => rfl

/-! ## The order of nodes and edges -/

/-- A specification with its nodes and edges in another order. -/
def reordered (lax : Lax) (spec : Json) (nodes edges : List Json) : Json :=
  copy (workflowSpecFields lax) spec (changedLists nodes edges)

theorem copy_reordered (spec : Json) (nodes edges nodes' edges' : List Json) :
    copy (workflowSpecFields lax) (reordered lax spec nodes edges) (changedLists nodes' edges') =
      copy (workflowSpecFields lax) spec (changedLists nodes' edges') := by
  refine congrArg Json.obj (build_congr fun f hf => ?_)
  by_cases hname : f.name = "nodes"
  · rw [hname]
    rfl
  · by_cases hname' : f.name = "edges"
    · rw [hname']
      rfl
    · rw [reordered, setOf_changed hf hname hname']

theorem normalizeWorkflow_reordered (h : Fine lax spec) {nodes edges : List Json} (hnodes : (nodesOf spec).Perm nodes)
    (hedges : (edgesOf spec).Perm edges) : normalizeWorkflow lax (reordered lax spec nodes edges) = normalizeWorkflow lax spec := by
  rw [normalizeWorkflow_eq, normalizeWorkflow_eq]
  simp only [copy_reordered]
  rw [reordered, nodesOf_copy, edgesOf_copy, defaults_copy, sortedNodes_perm hnodes h.nodup_nodeId,
    sortedEdges_perm hedges h.nodup_edgeKey]

/-! ## Identity -/

theorem Valid.canonicalPayload_eq (h : Valid lax spec) : canonicalPayload lax spec =
    (((workflowSpec lax).dump spec).assign "nodes" (.list (sortedNodes (((workflowSpec lax).dump spec).get "nodes").items))).assign
      "edges" (.list (sortedEdges (((workflowSpec lax).dump spec).get "edges").items)) := by
  have hnodes : (((workflowSpec lax).dump spec).get "nodes").items = (nodesOf spec).map (workflowNode lax).dump :=
    memberItems_nodes h.setOf_nodes.1
  have hedges : (((workflowSpec lax).dump spec).get "edges").items = (edgesOf spec).map (workflowEdge lax).dump :=
    memberItems_edges h.setOf_edges.1
  have hsorted : (sortedNodes (nodesOf spec)).map (workflowNode lax).dump = sortedNodes ((nodesOf spec).map (workflowNode lax).dump) :=
    map_sorted fun node _ => congrArg (fun j => (textOf? j).getD "") (get_id_dump node)
  rw [hnodes, hedges, ← hsorted, ← map_dumps, canonicalPayload]

/-- Specifications that are written alike have one content hash. -/
theorem contentHash_congr {other : Json} (h : Valid lax spec) (ho : Valid lax other)
    (hdump : (workflowSpec lax).dump other = (workflowSpec lax).dump spec) (sha256 : Json → String) :
    contentHash lax sha256 other = contentHash lax sha256 spec := by
  rw [contentHash, contentHash, ho.canonicalPayload_eq, h.canonicalPayload_eq, hdump]

theorem compilationIdentity_congr {other : Json} (h : Fine lax spec) (ho : Fine lax other)
    (hform : specForm lax other = specForm lax spec)
    (hversion : ((workflowSpec lax).dump other).get "spec_version" = ((workflowSpec lax).dump spec).get "spec_version")
    (sha256 : Json → String) (snapshotHash : String) :
    compilationIdentity lax sha256 other snapshotHash = compilationIdentity lax sha256 spec snapshotHash := by
  obtain ⟨normal, hnormal, hn⟩ := normalizeWorkflow_isNormal h
  obtain ⟨normal', hnormal', hn'⟩ := normalizeWorkflow_isNormal ho
  have hdump : (workflowSpec lax).dump normal' = (workflowSpec lax).dump normal := by rw [hn'.dump ho, hn.dump h, hform]
  rw [compilationIdentity, compilationIdentity, hnormal, hnormal', hversion]
  simp only [Option.map_some, contentHash_congr hn.fine.toValid hn'.fine.toValid hdump]

/-! ## What publication and compilation rely on -/

/-- Normalization fails only where a configuration is invalid. -/
theorem configsValid_of_normalize {spec normal : Json} (h : normalizeWorkflow lax spec = some normal) : ConfigsValid lax spec := by
  rw [normalizeWorkflow_eq] at h
  obtain ⟨nodes, hnodes, -⟩ := Option.bind_eq_some_iff.mp h
  intro node hnode
  obtain ⟨copied, -, hcopied⟩ := forall₂_right (readAll_eq_some.mp hnodes) ((List.mem_insertionSort _).mpr hnode)
  obtain ⟨type, htype, hcopied⟩ := Option.bind_eq_some_iff.mp hcopied
  obtain ⟨config, hconfig, -⟩ := Option.bind_eq_some_iff.mp hcopied
  exact ⟨type, config, htype, hconfig⟩

theorem normalizeWorkflow_isSome {spec : Json} (h : (workflowSpec lax).Is spec) :
    (normalizeWorkflow lax spec).isSome ↔ ConfigsValid lax spec := by
  constructor
  · intro hsome
    obtain ⟨normal, hnormal⟩ := Option.isSome_iff_exists.mp hsome
    exact configsValid_of_normalize hnormal
  · intro hconfigs
    obtain ⟨normal, hnormal, -⟩ := normalizeWorkflow_isNormal ⟨⟨h⟩, hconfigs⟩
    rw [hnormal]
    rfl

/-- What normalization gave is the normal form of a valid specification. -/
theorem isNormal_of_normalize {spec normal : Json} (h : (workflowSpec lax).Is spec) (hn : normalizeWorkflow lax spec = some normal) :
    Fine lax spec ∧ IsNormal lax spec normal := by
  have hfine : Fine lax spec := ⟨⟨h⟩, configsValid_of_normalize hn⟩
  obtain ⟨normal', hnormal', hisNormal⟩ := normalizeWorkflow_isNormal hfine
  cases hn.symm.trans hnormal'
  exact ⟨hfine, hisNormal⟩

/-- `normalize_workflow` gives what is valid one normal form for every order of its nodes and edges,
    and normalizes that to what is written the same. -/
theorem normalizeWorkflow_canonical (lax : Lax) (spec : Json) (h : (workflowSpec lax).Is spec) :
    ((normalizeWorkflow lax spec).isSome ↔ ConfigsValid lax spec) ∧
      ∀ normal, normalizeWorkflow lax spec = some normal →
        (∀ nodes edges, (nodesOf spec).Perm nodes → (edgesOf spec).Perm edges →
          normalizeWorkflow lax (reordered lax spec nodes edges) = some normal) ∧
        ∃ again, normalizeWorkflow lax normal = some again ∧ (workflowSpec lax).dump again = (workflowSpec lax).dump normal := by
  refine ⟨normalizeWorkflow_isSome h, fun normal hnormal => ?_⟩
  obtain ⟨hfine, hn⟩ := isNormal_of_normalize h hnormal
  refine ⟨fun nodes edges hnodes hedges => (normalizeWorkflow_reordered hfine hnodes hedges).trans hnormal, ?_⟩
  obtain ⟨again, hagain, hn'⟩ := normalizeWorkflow_isNormal hn.fine
  exact ⟨again, hagain, by rw [hn'.dump hn.fine, hn.dump hfine, hn.isCopy.form hfine]⟩

/-- Two nodes and an edge, out of order. -/
def sampleSpec : Json := .obj [
  ("key", .str "sample"), ("name", .str "Sample"), ("entrypoint", .str "plan"),
  ("nodes", .list [
    .obj [("id", .str "plan"), ("type", .str "organizer"), ("label", .str "Plan"), ("config", .obj [])],
    .obj [("id", .str "done"), ("type", .str "finalize"), ("label", .str "Done"), ("config", .obj [("outcome", .str "failed")]),
      ("policy", .obj [("timeout_seconds", .int 60)])]]),
  ("edges", .list [.obj [("id", .str "e1"), ("from", .str "plan"), ("to", .str "done"), ("kind", .str "always")]]),
  ("outputs", .obj [("result_path", .str "$.result")])]

def sampleDigest (j : Json) : String := s!"sha256:{j.depth}"

theorem sampleSpec_is : (workflowSpec strictLax).Is sampleSpec := rfl

theorem normalizeWorkflow_sampleSpec : (normalizeWorkflow strictLax sampleSpec).isSome = true := rfl

theorem normalizeWorkflow_canonical_sample : ConfigsValid strictLax sampleSpec :=
  (normalizeWorkflow_canonical strictLax sampleSpec sampleSpec_is).1.mp normalizeWorkflow_sampleSpec

/-- The normal form that is stored is read as one of the same content hash, and compiled under the
    identity of the specification it was made of. -/
theorem normalizeWorkflow_stored (lax : Lax) (sha256 : Json → String) (spec normal : Json) (snapshotHash : String)
    (h : (workflowSpec lax).Is spec) (hn : normalizeWorkflow lax spec = some normal) :
    ∃ read, (workflowSpec lax).parse ((workflowSpec lax).dump normal) = some read ∧
      (workflowSpec lax).dump read = (workflowSpec lax).dump normal ∧
      contentHash lax sha256 read = contentHash lax sha256 normal ∧
      compilationIdentity lax sha256 read snapshotHash = compilationIdentity lax sha256 spec snapshotHash := by
  obtain ⟨hfine, hnormal⟩ := isNormal_of_normalize h hn
  obtain ⟨read, hparse, hread, hdump, hform⟩ := hnormal.isCopy.reread hfine
  have hversion : ((workflowSpec lax).dump normal).get "spec_version" = ((workflowSpec lax).dump spec).get "spec_version" := by
    have hset := hnormal.rest _ (.head _) (by decide) (by decide)
    exact (get_dump (.head _)).trans ((congrArg (Field.full _) hset).trans (get_dump (.head _)).symm)
  refine ⟨read, hparse, hdump, contentHash_congr hnormal.fine.toValid hread.toValid hdump sha256, ?_⟩
  refine compilationIdentity_congr hfine hread hform ?_ sha256 snapshotHash
  rw [hdump, hversion]

theorem normalizeWorkflow_stored_sample : ∃ normal read, normalizeWorkflow strictLax sampleSpec = some normal ∧
    (workflowSpec strictLax).parse ((workflowSpec strictLax).dump normal) = some read ∧
    compilationIdentity strictLax sampleDigest read "snapshot" = compilationIdentity strictLax sampleDigest sampleSpec "snapshot" := by
  obtain ⟨normal, hnormal⟩ := Option.isSome_iff_exists.mp normalizeWorkflow_sampleSpec
  obtain ⟨read, hparse, -, -, hidentity⟩ := normalizeWorkflow_stored strictLax sampleDigest sampleSpec normal "snapshot" sampleSpec_is hnormal
  exact ⟨normal, read, hnormal, hparse, hidentity⟩

end Jarvis.Workflows.Documents
