/-
  Jarvis.Workflows.Documents — `normalize_workflow`, `content_hash` and `compilation_identity` on
  specifications as instances of their contracts (`Workflows.Contracts`), with what is set in them
  and what is not.

  `spec.defaults.model_dump()` is read back at once, so its identities and tuples are as in the JSON
  dump. `sha256_digest` is a parameter.
-/
import Jarvis.Workflows.Contracts
import Jarvis.Workflows.Validation
import Jarvis.Workflows.Reducers

namespace Jarvis.Workflows.Documents

open Model

/-- A policy of an instance: one that is not set is `NodePolicy()`. -/
def policyOf (v : Json) (key : String) : Json := (v.members.lookup key).getD noPolicy

/-- `effective_policy`. -/
def effectivePolicy (lax : Lax) (defaults own : Json) (type : WorkflowNodeType) : Option Json :=
  let values := (nodePolicy lax).dump defaults
  let values := if type.usesWorker then values else values.assign "worker_selector" .null
  let values := if type.model || type == .worker then values else values.assign "model_route_ref" .null
  let values := if type.usesWorker then values else values.assign "verification" .null
  let values := if type.action.isSome then values else values.assign "approval" .null
  (nodePolicy lax).parse (values.update ((nodePolicy lax).slim own))

def nodeId (node : Json) : String := (textOf? (node.get "id")).getD ""

def nodeType (node : Json) : Option WorkflowNodeType := (textOf? (node.get "type")).bind nodeTypeOf

/-- The copy of a node that `normalize_workflow` makes. -/
def normalizeNode (lax : Lax) (defaults node : Json) : Option Json := do
  let type ← nodeType node
  let config ← (configModel lax type).parse (node.get "config")
  let policy ← effectivePolicy lax defaults (policyOf node "policy") type
  return copy (workflowNodeFields lax) node [("config", (configModel lax type).dump config), ("policy", policy)]

/-- The sort key of an edge. -/
def edgeKey (edge : Json) : String × Int × String :=
  ((textOf? (edge.get "from")).getD "", (int? (edge.get "priority")).getD 0, (textOf? (edge.get "id")).getD "")

def keyLe (a b : String × Int × String) : Bool :=
  if a.1 ≠ b.1 then decide (a.1 < b.1)
  else if a.2.1 ≠ b.2.1 then decide (a.2.1 < b.2.1)
  else decide (a.2.2 ≤ b.2.2)

def sortedNodes (nodes : List Json) : List Json := nodes.insertionSort fun a b => stringLe (nodeId a) (nodeId b)

def sortedEdges (edges : List Json) : List Json := edges.insertionSort fun a b => keyLe (edgeKey a) (edgeKey b)

def nodesOf (spec : Json) : List Json := (spec.get "nodes").items

def edgesOf (spec : Json) : List Json := (spec.get "edges").items

/-- `normalize_workflow`: `none` where a configuration is invalid. -/
def normalizeWorkflow (lax : Lax) (spec : Json) : Option Json := do
  let nodes ← readAll (normalizeNode lax (policyOf spec "defaults")) (sortedNodes (nodesOf spec))
  return copy (workflowSpecFields lax) spec [("nodes", .list nodes), ("edges", .list (sortedEdges (edgesOf spec)))]

/-- `canonical_payload`. -/
def canonicalPayload (lax : Lax) (spec : Json) : Json :=
  (((workflowSpec lax).dump spec).assign "nodes" (.list ((sortedNodes (nodesOf spec)).map (workflowNode lax).dump))).assign
    "edges" (.list ((sortedEdges (edgesOf spec)).map (workflowEdge lax).dump))

/-- `content_hash`. -/
def contentHash (lax : Lax) (sha256 : Json → String) (spec : Json) : String := sha256 (canonicalPayload lax spec)

/-- `compilation_identity`. -/
def compilationIdentity (lax : Lax) (sha256 : Json → String) (spec : Json) (snapshotHash : String) : Option String :=
  (normalizeWorkflow lax spec).map fun normalized =>
    sha256 (.obj [("workflow_content_hash", .str (contentHash lax sha256 normalized)),
      ("spec_version", ((workflowSpec lax).dump spec).get "spec_version"), ("compiler_version", .str compilerVersion),
      ("snapshot_hash", .str snapshotHash)])

/-- Every node's configuration is one of its type. -/
def ConfigsValid (lax : Lax) (spec : Json) : Prop :=
  ∀ node ∈ nodesOf spec, ∃ type config, nodeType node = some type ∧ (configModel lax type).parse (node.get "config") = some config

/-! ## Policies -/

variable {lax : Lax}

/-- What a policy inherits where a node of a type sets nothing. -/
def inherited (type : WorkflowNodeType) (key : String) (value : Json) : Json :=
  if (!type.action.isSome) ∧ key = "approval" then .null
  else if (!type.usesWorker) ∧ key = "verification" then .null
  else if (!(type.model || type == .worker)) ∧ key = "model_route_ref" then .null
  else if (!type.usesWorker) ∧ key = "worker_selector" then .null
  else value

/-- What is written for a field of the effective policy. -/
def effective (defaults own : Json) (type : WorkflowNodeType) (f : Field) : Json :=
  match f.thin (setOf own f) with
  | some _ => f.full (setOf own f)
  | none => inherited type f.name (f.full (setOf defaults f))

theorem unless_table {fields : List Field} {g : Field → Json} (b : Bool) {key : String} (h : ∃ f ∈ fields, f.name = key) :
    (if b then table fields g else (table fields g).assign key .null) =
      table fields fun f => if !b ∧ f.name = key then .null else g f := by
  cases b with
  | true => simp
  | false =>
    rw [if_neg Bool.false_ne_true, assign_table h]
    simp

theorem nodePolicyFields_nodup (lax : Lax) : ((nodePolicyFields lax).map Field.name).Nodup := of_decide_eq_true rfl

theorem effectivePolicy_eq (defaults own : Json) (type : WorkflowNodeType) :
    effectivePolicy lax defaults own type = (nodePolicy lax).parse (table (nodePolicyFields lax) fun f =>
      (f.thin (setOf own f)).getD (inherited type f.name (f.full (setOf defaults f)))) := by
  have hselector : ∃ f ∈ nodePolicyFields lax, f.name = "worker_selector" := ⟨_, .head _, rfl⟩
  have hroute : ∃ f ∈ nodePolicyFields lax, f.name = "model_route_ref" := ⟨_, .tail _ (.head _), rfl⟩
  have hverification : ∃ f ∈ nodePolicyFields lax, f.name = "verification" :=
    ⟨_, .tail _ (.tail _ (.tail _ (.tail _ (.head _)))), rfl⟩
  have happroval : ∃ f ∈ nodePolicyFields lax, f.name = "approval" :=
    ⟨_, .tail _ (.tail _ (.tail _ (.tail _ (.tail _ (.head _))))), rfl⟩
  have hdump : (nodePolicy lax).dump defaults = table (nodePolicyFields lax) fun f => f.full (setOf defaults f) := rfl
  have hslim : (nodePolicy lax).slim own = .obj (build (nodePolicyFields lax) fun f => f.thin (setOf own f)) := rfl
  unfold effectivePolicy
  simp only [hdump, unless_table _ hselector, unless_table _ hroute, unless_table _ hverification, unless_table _ happroval, hslim]
  rw [update_table (fun e he => by obtain ⟨f, hf, -, hname⟩ := mem_build.mp he; exact ⟨f, hf, hname⟩)
    (keys_sublist.nodup (nodePolicyFields_nodup lax))]
  refine congrArg _ (table_congr fun f hf => ?_)
  rw [show (build (nodePolicyFields lax) fun f => f.thin (setOf own f)).lookup f.name = f.thin (setOf own f) from
    setOf_build (nodePolicyFields_nodup lax) hf]
  rfl

/-- The fields that a node of some type does not inherit. -/
def withheldKeys : List String := ["approval", "verification", "model_route_ref", "worker_selector"]

theorem inherited_cases (type : WorkflowNodeType) (key : String) (value : Json) :
    inherited type key value = value ∨ inherited type key value = .null ∧ key ∈ withheldKeys := by
  unfold inherited
  split_ifs with happroval hverification hroute hselector
  · exact .inr ⟨rfl, by simp [withheldKeys, happroval.2]⟩
  · exact .inr ⟨rfl, by simp [withheldKeys, hverification.2]⟩
  · exact .inr ⟨rfl, by simp [withheldKeys, hroute.2]⟩
  · exact .inr ⟨rfl, by simp [withheldKeys, hselector.2]⟩
  · exact .inl rfl

theorem withheld_default {f : Field} (hf : f ∈ nodePolicyFields lax) (h : f.name ∈ withheldKeys) : f.default = some .null := by
  simp only [nodePolicyFields, List.mem_cons, List.not_mem_nil, or_false] at hf
  rcases hf with rfl | rfl | rfl | rfl | rfl | rfl | rfl | rfl | rfl
  iterate 8 rfl
  simp [withheldKeys, Field.optional] at h

theorem inherited_read {f : Field} {v : Option Json} (hf : f ∈ nodePolicyFields lax) (h : f.Holds v) (type : WorkflowNodeType) :
    ∃ w, f.codec.parse (inherited type f.name (f.full v)) = some w ∧ f.codec.dump w = inherited type f.name (f.full v) := by
  rcases inherited_cases type f.name (f.full v) with heq | ⟨heq, hkey⟩
  · rw [heq]
    exact Field.parse_full h
  · rw [heq]
    exact f.default_ok _ (withheld_default hf hkey)

variable {defaults own policy : Json} {type : WorkflowNodeType}

theorem effective_read {f : Field} (hf : f ∈ nodePolicyFields lax) (hd : (nodePolicy lax).Is defaults) (ho : (nodePolicy lax).Is own) :
    ∃ w, f.codec.parse ((f.thin (setOf own f)).getD (inherited type f.name (f.full (setOf defaults f)))) = some w ∧
      f.codec.dump w = effective defaults own type f := by
  unfold effective
  rcases Field.parse_thin ((is_model_iff.mp ho).instance_.holds f hf) with ⟨x, w, hthin, hw, hdump⟩ | ⟨hthin, -⟩
  · rw [hthin]
    exact ⟨w, hw, hdump⟩
  · rw [hthin]
    exact inherited_read hf ((is_model_iff.mp hd).instance_.holds f hf) type

/-- An effective policy has every field set. -/
theorem effectivePolicy_spec (hd : (nodePolicy lax).Is defaults) (ho : (nodePolicy lax).Is own) (type : WorkflowNodeType) :
    ∃ policy, effectivePolicy lax defaults own type = some policy ∧ (nodePolicy lax).Is policy ∧
      ∀ f ∈ nodePolicyFields lax, (setOf policy f).isSome ∧ f.full (setOf policy f) = effective defaults own type f := by
  have hread : ∀ f ∈ nodePolicyFields lax, ∃ w,
      f.codec.parse ((f.thin (setOf own f)).getD (inherited type f.name (f.full (setOf defaults f)))) = some w ∧
        f.codec.dump w = effective defaults own type f := fun f hf => effective_read hf hd ho
  have hparse := @parse_build (nodePolicyFields lax)
    (fun f => some ((f.thin (setOf own f)).getD (inherited type f.name (f.full (setOf defaults f))))) (fun _ => true)
    (nodePolicyFields_nodup lax)
    (fun f hf j hj => by
      cases hj
      obtain ⟨w, hw, -⟩ := hread f hf
      rw [hw]
      rfl)
    (fun f hf h => by cases h) rfl
  rw [← table_eq_build] at hparse
  have heffective := (effectivePolicy_eq defaults own type).trans hparse
  refine ⟨_, heffective, Codec.is_of_parse ((effectivePolicy_eq defaults own type).symm.trans heffective), fun f hf => ?_⟩
  obtain ⟨w, hw, hdump⟩ := hread f hf
  rw [setOf_build (nodePolicyFields_nodup lax) hf, Option.bind_some, hw]
  exact ⟨rfl, hdump⟩

theorem dump_effectivePolicy (hd : (nodePolicy lax).Is defaults) (ho : (nodePolicy lax).Is own)
    (h : effectivePolicy lax defaults own type = some policy) :
    (nodePolicy lax).dump policy = table (nodePolicyFields lax) (effective defaults own type) := by
  obtain ⟨policy', hpolicy, -, hfields⟩ := effectivePolicy_spec hd ho type
  cases h.symm.trans hpolicy
  exact table_congr fun f hf => (hfields f hf).2

theorem thin_isSome {f : Field} (hf : f ∈ nodePolicyFields lax) (ho : (nodePolicy lax).Is own) (h : (setOf own f).isSome) :
    (f.thin (setOf own f)).isSome ↔ f.full (setOf own f) ≠ .null := by
  obtain ⟨x, hx⟩ := Option.isSome_iff_exists.mp h
  have his := (is_model_iff.mp ho).is f hf x hx
  rw [hx]
  show ((if x.isNull then none else some (f.codec.slim x)) : Option Json).isSome ↔ f.codec.dump x ≠ .null
  rw [Ne, f.codec.dump_null his, ← Json.isNull_iff]
  cases x.isNull <;> simp

/-- What sets every field to what is effective already stays so. -/
theorem effective_again {defaults' : Json} (hd : (nodePolicy lax).dump defaults' = (nodePolicy lax).dump defaults)
    (ho : (nodePolicy lax).Is own) (hp : (nodePolicy lax).Is policy)
    (h : ∀ f ∈ nodePolicyFields lax, (setOf policy f).isSome ∧ f.full (setOf policy f) = effective defaults own type f)
    {f : Field} (hf : f ∈ nodePolicyFields lax) : effective defaults' policy type f = effective defaults own type f := by
  obtain ⟨hset, hfull⟩ := h f hf
  have hdefaults : f.full (setOf defaults' f) = f.full (setOf defaults f) := full_of_dump hd hf
  have hthin := thin_isSome hf hp hset
  unfold effective at hfull ⊢
  rw [hdefaults]
  cases hnew : f.thin (setOf policy f) with
  | some _ => exact hfull
  | none =>
    have hnull : f.full (setOf policy f) = .null := by
      rw [hnew] at hthin
      exact not_not.mp fun hne => Bool.false_ne_true (hthin.mpr hne)
    rw [hnull] at hfull
    cases hown : f.thin (setOf own f) with
    | none => rfl
    | some x =>
      rw [hown] at hfull
      have hownSet : (setOf own f).isSome := by
        cases hsetOwn : setOf own f with
        | none => rw [hsetOwn] at hown; cases hown
        | some _ => rfl
      exact absurd hfull.symm ((thin_isSome hf ho hownSet).mp (by rw [hown]; rfl))

/-! ## Nodes -/

theorem workflowNodeFields_nodup (lax : Lax) : ((workflowNodeFields lax).map Field.name).Nodup := of_decide_eq_true rfl

theorem policyOf_is {fields : List Field} {valid : List (String × Json) → Bool} {v : Json} (h : Made fields valid v) {key : String}
    (hf : policyField lax key ∈ fields) : (nodePolicy lax).Is (policyOf v key) := by
  unfold policyOf
  cases hset : v.members.lookup key with
  | none => rfl
  | some x => exact h.is _ hf x hset

theorem policy_mem : policyField lax "policy" ∈ workflowNodeFields lax := .tail _ (.tail _ (.tail _ (.tail _ (.tail _ (.head _)))))

/-- The `policy` of a node as it is written. -/
theorem full_policy (v : Json) (key : String) :
    (policyField lax key).full (setOf v (policyField lax key)) = (nodePolicy lax).dump (policyOf v key) := by
  unfold policyOf
  show _ = (nodePolicy lax).dump ((setOf v (policyField lax key)).getD noPolicy)
  cases setOf v (policyField lax key) <;> rfl

variable {node : Json} {config : Json}

/-- What normalization reads of a node. -/
structure Reads (lax : Lax) (node : Json) (type : WorkflowNodeType) (config : Json) : Prop where
  is : (workflowNode lax).Is node
  type_eq : nodeType node = some type
  config_eq : (configModel lax type).parse (node.get "config") = some config

theorem Reads.made (h : Reads lax node type config) : Made (workflowNodeFields lax) (fun _ => true) node := is_model_iff.mp h.is

theorem Reads.policy_is (h : Reads lax node type config) : (nodePolicy lax).Is (policyOf node "policy") :=
  policyOf_is h.made policy_mem

/-- What a copy of a node changes in it. -/
def changes (config policy : Json) : List (String × Json) := [("config", config), ("policy", policy)]

/-- A policy that sets what is effective. -/
structure Sets (lax : Lax) (defaults own : Json) (type : WorkflowNodeType) (policy : Json) : Prop where
  is : (nodePolicy lax).Is policy
  fields : ∀ f ∈ nodePolicyFields lax, (setOf policy f).isSome ∧ f.full (setOf policy f) = effective defaults own type f

theorem normalizeNode_spec (hd : (nodePolicy lax).Is defaults) (h : Reads lax node type config) :
    ∃ policy, Sets lax defaults (policyOf node "policy") type policy ∧
      normalizeNode lax defaults node = some (copy (workflowNodeFields lax) node (changes ((configModel lax type).dump config) policy)) := by
  obtain ⟨policy, hpolicy, his, hfields⟩ := effectivePolicy_spec hd h.policy_is type
  refine ⟨policy, ⟨his, hfields⟩, ?_⟩
  simp only [normalizeNode, h.type_eq, Option.bind_eq_bind, Option.bind_some, h.config_eq, hpolicy]
  rfl

/-- What is written of a normalized node. -/
def nodeForm (lax : Lax) (defaults node : Json) (type : WorkflowNodeType) (config : Json) : Json :=
  table (workflowNodeFields lax) fun f =>
    if f.name = "config" then (configModel lax type).dump config
    else if f.name = "policy" then table (nodePolicyFields lax) (effective defaults (policyOf node "policy") type)
    else f.full (setOf node f)

theorem dump_normalized {policy : Json} (hpolicy : Sets lax defaults (policyOf node "policy") type policy) :
    (workflowNode lax).dump (copy (workflowNodeFields lax) node (changes ((configModel lax type).dump config) policy)) =
      nodeForm lax defaults node type config := by
  have hdump : (nodePolicy lax).dump policy = table (nodePolicyFields lax) (effective defaults (policyOf node "policy") type) :=
    table_congr fun f hf => (hpolicy.fields f hf).2
  refine (dump_build (workflowNodeFields_nodup lax)).trans (table_congr fun f hf => ?_)
  simp only [workflowNodeFields, List.mem_cons, List.not_mem_nil, or_false] at hf
  rcases hf with rfl | rfl | rfl | rfl | rfl | rfl
  iterate 5 rfl
  exact hdump

theorem nodeForm_congr {defaults' node' config' : Json}
    (hfull : ∀ f ∈ workflowNodeFields lax, f.name ≠ "config" → f.name ≠ "policy" → f.full (setOf node' f) = f.full (setOf node f))
    (hconfig : (configModel lax type).dump config' = (configModel lax type).dump config)
    (hpolicy : ∀ f ∈ nodePolicyFields lax,
      effective defaults' (policyOf node' "policy") type f = effective defaults (policyOf node "policy") type f) :
    nodeForm lax defaults' node' type config' = nodeForm lax defaults node type config := by
  refine table_congr fun f hf => ?_
  by_cases hname : f.name = "config"
  · rw [if_pos hname, if_pos hname, hconfig]
  · rw [if_neg hname, if_neg hname]
    by_cases hname' : f.name = "policy"
    · rw [if_pos hname', if_pos hname', table_congr hpolicy]
    · rw [if_neg hname', if_neg hname']
      exact hfull f hf hname hname'

theorem type_mem : typeField ∈ workflowNodeFields lax := .tail _ (.head _)

theorem config_mem : .required "config" .object ∈ workflowNodeFields lax := .tail _ (.tail _ (.tail _ (.tail _ (.head _))))

/-- The type of a node is the one that is written. -/
theorem nodeType_congr {node' : Json} (h : typeField.full (setOf node' typeField) = typeField.full (setOf node typeField)) :
    nodeType node' = nodeType node := by
  have hget : node'.get typeField.name = node.get typeField.name :=
    (get_leaf _ (fun _ => rfl) rfl).trans (h.trans (get_leaf _ (fun _ => rfl) rfl).symm)
  exact congrArg (fun j => (textOf? j).bind nodeTypeOf) hget

theorem object_of_config {type : WorkflowNodeType} {value config : Json} (h : (configModel lax type).parse value = some config) :
    Codec.object.Is value := by
  have hparse : parseModel (configFields lax type) (fun _ => true) value = some config := h
  obtain ⟨members, rfl, -⟩ := parseModel_eq_some.mp hparse
  rfl

/-- A copy of a node with a configuration of its type and a policy is read as it is. -/
theorem Reads.changed {value config' policy : Json} (h : Reads lax node type config)
    (hvalue : (configModel lax type).parse value = some config') (hpolicy : (nodePolicy lax).Is policy) :
    Reads lax (copy (workflowNodeFields lax) node (changes value policy)) type config' := by
  refine ⟨is_model_iff.mpr (made_copy (workflowNodeFields_nodup lax) h.made (fun f hf x hx => ?_) rfl), ?_, ?_⟩
  · simp only [workflowNodeFields, List.mem_cons, List.not_mem_nil, or_false] at hf
    rcases hf with rfl | rfl | rfl | rfl | rfl | rfl
    iterate 4 cases hx
    · cases hx
      exact object_of_config hvalue
    · cases hx
      exact hpolicy
  · have hget := get_copy (workflowNodeFields_nodup lax) node (changes value policy) type_mem
    exact (congrArg (fun j => (textOf? j).bind nodeTypeOf) hget).trans h.type_eq
  · have hget := get_copy (workflowNodeFields_nodup lax) node (changes value policy) config_mem
    exact (congrArg (configModel lax type).parse hget).trans hvalue

theorem policyOf_copy {value policy : Json} : policyOf (copy (workflowNodeFields lax) node (changes value policy)) "policy" = policy :=
  congrArg (fun x : Option Json => x.getD noPolicy) (setOf_copy (workflowNodeFields_nodup lax) policy_mem)

theorem nodeForm_changed {defaults' value policy config' : Json} (h : Reads lax node type config)
    (hd : (nodePolicy lax).dump defaults' = (nodePolicy lax).dump defaults)
    (hpolicy : Sets lax defaults (policyOf node "policy") type policy)
    (hconfig : (configModel lax type).dump config' = (configModel lax type).dump config) :
    nodeForm lax defaults' (copy (workflowNodeFields lax) node (changes value policy)) type config' =
      nodeForm lax defaults node type config := by
  refine nodeForm_congr (fun f hf hname hname' => ?_) hconfig fun f hf => ?_
  · rw [setOf_copy (workflowNodeFields_nodup lax) hf]
    have hnone : (changes value policy).lookup f.name = none := by
      simp only [changes, List.lookup_cons, beq_eq_false_iff_ne.mpr hname, beq_eq_false_iff_ne.mpr hname', List.lookup_nil]
    rw [hnone]
    rfl
  · rw [policyOf_copy]
    exact effective_again hd h.policy_is hpolicy.is hpolicy.fields hf

/-- A node as it is written, but for its policy, is read as one that differs in its policy only. -/
theorem Reads.reread {given policy : Json} (h : Reads lax node type config) (hgiven : (nodePolicy lax).parse given = some policy)
    (hdump : (nodePolicy lax).dump policy = (nodePolicy lax).dump (policyOf node "policy")) :
    ∃ node', (workflowNode lax).parse (((workflowNode lax).dump node).assign "policy" given) = some node' ∧
      Reads lax node' type config ∧ policyOf node' "policy" = policy ∧
      ∀ f ∈ workflowNodeFields lax, f.full (setOf node' f) = f.full (setOf node f) := by
  have htable : ((workflowNode lax).dump node).assign "policy" given =
      table (workflowNodeFields lax) fun f => if f.name = "policy" then given else f.full (setOf node f) :=
    assign_table ⟨_, policy_mem, rfl⟩
  have hname : (policyField lax "policy").name = "policy" := rfl
  obtain ⟨node', hparse, hset, hfull⟩ := Model.reread (workflowNodeFields_nodup lax) h.made
    (fun f => if f.name = "policy" then given else f.full (setOf node f)) fun f hf => by
      by_cases hkey : f.name = "policy"
      · have : f = policyField lax "policy" := List.inj_on_of_nodup_map (workflowNodeFields_nodup lax) hf policy_mem hkey
        subst this
        rw [if_pos hname, full_policy]
        exact ⟨policy, hgiven, hdump⟩
      · rw [if_neg hkey]
        exact Field.parse_full (h.made.instance_.holds f hf)
  have hconfig : node'.get "config" = node.get "config" :=
    (get_leaf (.required "config" .object) (fun _ => rfl) rfl).trans ((hfull _ config_mem).trans
      (get_leaf (.required "config" .object) (fun _ => rfl) rfl).symm)
  refine ⟨node', htable ▸ hparse, ⟨@Codec.is_of_parse (workflowNode lax) _ _ hparse, ?_, ?_⟩, ?_, hfull⟩
  · exact (nodeType_congr (hfull _ type_mem)).trans h.type_eq
  · rw [hconfig]
    exact h.config_eq
  · obtain ⟨x, hx, hset⟩ := hset _ policy_mem
    rw [if_pos hname] at hx
    cases hgiven.symm.trans hx
    exact congrArg (fun x : Option Json => x.getD noPolicy) hset

end Jarvis.Workflows.Documents
