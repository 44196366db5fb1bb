/-
  Jarvis.Workflows.Views — a written specification as the one of `Workflows.Spec` that validation
  and execution work on.

  Every valid specification has a view (`view_isSome`), and the view of its normal form is the normal
  form of its view (`view_normalizeWorkflow`): the two models of `normalize_workflow` agree.
-/
import Jarvis.Workflows.Normalization

namespace Jarvis.Workflows.Documents

open Model

/-! ## Reading what is written -/

def textAt (doc : Json) (key : String) : String := (textOf? (doc.get key)).getD ""

def boolAt (doc : Json) (key : String) : Bool :=
  match doc.get key with
  | .scalar (.bool b) => b
  | _ => false

/-- The number a hexadecimal digit adds. -/
def hexDigit (c : Char) : Option Nat :=
  if '0' ≤ c ∧ c ≤ '9' then some (c.toNat - '0'.toNat)
  else if 'a' ≤ c ∧ c ≤ 'f' then some (c.toNat - 'a'.toNat + 10)
  else none

/-- `UUID(text).int` of a canonical text. -/
def revisionOf (doc : Json) : RevisionId :=
  ((textOf? doc).getD "").toList.foldl (fun n c => match hexDigit c with | some d => 16 * n + d | none => n) 0

/-- What a nullable member is read as. -/
def nullable {α : Type} (read : Json → α) (doc : Json) : Option α := if doc.isNull then none else some (read doc)

def actionOf : String → ActionType
  | "git.integrate" => .gitIntegrate
  | "worker.execute" => .workerExecute
  | _ => .githubPushAndPr

def selectorView (doc : Json) : WorkerSelector where
  revisionId := revisionOf (doc.get "revision_id")
  requires := (doc.get "requires").items.filterMap textOf?

def verificationView (doc : Json) : VerificationPolicy where
  required := boolAt doc "required"
  executionProfileRevisionIds := (doc.get "execution_profile_revision_ids").items.map revisionOf
  requiredAcceptanceChecks := (doc.get "required_acceptance_checks").items.map fun check =>
    { profileRevisionId := revisionOf (check.get "profile_revision_id"),
      command := ((((check.get "command").get "argv").items.head?).bind textOf?).getD "" }

def approvalView (doc : Json) : ApprovalPolicy where
  requiredGrantFrom := textOf? (doc.get "required_grant_from")
  actionType := (textOf? (doc.get "action_type")).map actionOf

def natOf (doc : Json) : Nat := ((int? doc).getD 0).toNat

def policyView (doc : Json) : NodePolicy where
  workerSelector := nullable selectorView (doc.get "worker_selector")
  modelRouteRef := nullable revisionOf (doc.get "model_route_ref")
  retryPolicyRef := nullable revisionOf (doc.get "retry_policy_ref")
  permissionPolicyRef := nullable revisionOf (doc.get "permission_policy_ref")
  verification := nullable verificationView (doc.get "verification")
  approval := nullable approvalView (doc.get "approval")
  timeoutSeconds := nullable natOf (doc.get "timeout_seconds")
  maxConcurrency := nullable natOf (doc.get "max_concurrency")

def outcomeOf : String → FinalizeOutcome
  | "failed" => .failed
  | "blocked" => .blocked
  | "cancelled" => .cancelled
  | _ => .derive

def configView (type : WorkflowNodeType) (doc : Json) : NodeConfig :=
  match type with
  | .organizer => .organizer
  | .architect => .architect (natOf (doc.get "max_tasks"))
  | .taskDispatch => .taskDispatch
  | .worker => .worker
  | .verify => .verify
  | .reviewer => .reviewer
  | .integrate => .integrate
  | .router => .router
  | .fanout => .fanout ((doc.get "children").items.filterMap textOf?) (textAt doc "join_id") (natOf (doc.get "max_fanout"))
  | .join => .join (textAt doc "fanout_id")
  | .approval => .approval (actionOf (textAt doc "action_type"))
  | .githubPublish => .githubPublish
  | .finalize => .finalize (outcomeOf (textAt doc "outcome"))

/-- A node with the configuration of its type. -/
def nodeView (doc : Json) : Option WorkflowNode := do
  let type ← nodeType doc
  if h : idPattern (textAt doc "id") = true then
    some { id := textAt doc "id", config := configView type (doc.get "config"), policy := policyView (doc.get "policy"), id_pattern := h }
  else none

def comparisonOf : String → Comparison
  | "neq" => .neq
  | "in" => .in_
  | "lt" => .lt
  | "lte" => .lte
  | "gt" => .gt
  | "gte" => .gte
  | _ => .eq

/-- A predicate that is not deeper than this. -/
def predicateView : Nat → Json → Predicate
  | 0, _ => .exists_ ""
  | n + 1, doc =>
    let args := (doc.get "args").items.map (predicateView n)
    let value := doc.get "value"
    match textAt doc "op" with
    | "and" => .and args value
    | "or" => .or args value
    | "not" => .not (args.headD (.exists_ "")) value
    | "exists" => .exists_ (textAt doc "path")
    | op => .compare (comparisonOf op) (textAt doc "path") value

def kindOf : String → WorkflowEdgeKind
  | "always" => .always
  | "on_result" => .onResult
  | "retry" => .retry
  | "iterate" => .iterate
  | _ => .onFailure

def edgeView (lax : Lax) (doc : Json) : Option WorkflowEdge :=
  let kind := kindOf (textAt doc "kind")
  let test := nullable (predicateView lax.recursion) (doc.get "when")
  let retryClass := (textOf? (doc.get "retry_class")).bind FailureClass.ofValue
  let iterationKey := textOf? (doc.get "iteration_key")
  let progressPath := textOf? (doc.get "progress_path")
  let maxIterations := nullable natOf (doc.get "max_iterations")
  if h : (kind = .always → test.isNone) ∧ (kind = .retry → retryClass.isSome) ∧
      (kind = .iterate → iterationKey.any (· ≠ "") ∧ progressPath.isSome ∧ maxIterations.isSome) then
    some
      { id := textAt doc "id", source := textAt doc "from", target := textAt doc "to", kind, when := test,
        priority := (int? (doc.get "priority")).getD 0, fallback := boolAt doc "fallback", retryClass, iterationKey, progressPath,
        maxIterations, always_when := fun hk => Option.isNone_iff_eq_none.mp (h.1 hk), retry_class := h.2.1, iterate_bound := h.2.2 }
  else none

def reducerOf : String → ReducerKind
  | "set_union" => .setUnion
  | "max_map" => .maxMap
  | _ => .mergeById

/-- A specification whose nodes have the configurations of their types. -/
def specView (lax : Lax) (doc : Json) : Option WorkflowSpec := do
  let nodes ← readAll nodeView (doc.get "nodes").items
  let edges ← readAll (edgeView lax) (doc.get "edges").items
  let entrypoint := textAt doc "entrypoint"
  if h : (nodes.map (·.id)).Nodup ∧ (edges.map (·.id)).Nodup ∧ entrypoint ∈ nodes.map (·.id) ∧
      ∀ edge ∈ edges, edge.source ∈ nodes.map (·.id) ∧ edge.target ∈ nodes.map (·.id) then
    some
      { specVersion := if textAt doc "spec_version" = "1.0" then .v1_0 else .v1_1,
        reducers := (doc.get "reducers").members.map fun e => (e.1, reducerOf ((textOf? e.2).getD "")),
        entrypoint, defaults := policyView (doc.get "defaults"), nodes, edges,
        node_ids := h.1, edge_ids := h.2.1, entrypoint_mem := h.2.2.1, endpoints_mem := h.2.2.2 }
  else none

/-- A node as it is written, with the configuration of its type. -/
def configuredNode (lax : Lax) (node : Json) : Json :=
  ((workflowNode lax).dump node).assign "config"
    (((nodeType node).bind fun type => ((configModel lax type).parse (node.get "config")).map (configModel lax type).dump).getD .null)

/-- The document that is viewed of an instance. -/
def viewed (lax : Lax) (spec : Json) : Json :=
  ((workflowSpec lax).dump spec).assign "nodes" (.list ((nodesOf spec).map (configuredNode lax)))

/-- The view of an instance. -/
def view (lax : Lax) (spec : Json) : Option WorkflowSpec := specView lax (viewed lax spec)

/-! ## Policies -/

variable {lax : Lax}

section Policies

variable {defaults own : Json} {type : WorkflowNodeType}

theorem nullable_null {α : Type} (read : Json → α) : nullable read .null = none := rfl

theorem nullable_of_ne {α : Type} (read : Json → α) {doc : Json} (h : doc ≠ .null) : nullable read doc = some (read doc) := by
  rw [nullable, Json.isNull_eq_false.mpr h]
  rfl

/-- What is effective is the policy's own, or what it inherits. -/
theorem nullable_effective {α : Type} (read : Json → α) {f : Field} (hf : f ∈ nodePolicyFields lax) (hdefault : f.default = some .null)
    (ho : (nodePolicy lax).Is own) : nullable read (effective defaults own type f) =
      (nullable read (f.full (setOf own f))).or (nullable read (inherited type f.name (f.full (setOf defaults f)))) := by
  unfold effective
  cases hthin : f.thin (setOf own f) with
  | some x =>
    have hset : (setOf own f).isSome := by
      cases hown : setOf own f with
      | none => rw [hown] at hthin; cases hthin
      | some _ => rfl
    have hne := (thin_isSome hf ho hset).mp (by rw [hthin]; rfl)
    show nullable read (f.full (setOf own f)) = _
    rw [nullable_of_ne read hne, Option.some_or]
  | none =>
    have hnull : f.full (setOf own f) = .null := by
      cases hown : setOf own f with
      | none => rw [Field.full, hdefault]; rfl
      | some x =>
        have hthin' := thin_isSome hf ho (by rw [hown]; rfl)
        rw [hthin] at hthin'
        rw [← hown]
        exact not_not.mp fun hne => Bool.false_ne_true (hthin'.mpr hne)
    rw [hnull, nullable_null, Option.none_or]

/-- A field of `NodePolicy` that is null by default. -/
theorem policyView_field {α : Type} (read : Json → α) {name : String} {c : Codec} (hf : .nullable name c ∈ nodePolicyFields lax)
    (ho : (nodePolicy lax).Is own) :
    nullable read ((table (nodePolicyFields lax) (effective defaults own type)).get name) =
      (nullable read (((nodePolicy lax).dump own).get name)).or
        (nullable read (inherited type name (((nodePolicy lax).dump defaults).get name))) := by
  have heffective := @nullable_effective lax defaults own type _ read _ hf rfl ho
  have hown : ((nodePolicy lax).dump own).get name = (Field.nullable name c).full (setOf own (Field.nullable name c)) := get_dump hf
  have hdefaults : ((nodePolicy lax).dump defaults).get name = (Field.nullable name c).full (setOf defaults (Field.nullable name c)) :=
    get_dump hf
  have htable : (table (nodePolicyFields lax) (effective defaults own type)).get name = effective defaults own type (Field.nullable name c) :=
    get_table (nodePolicyFields_nodup lax) hf
  rw [htable, hown, hdefaults]
  exact heffective

theorem inherited_selector (value : Json) : inherited type "worker_selector" value = if type.usesWorker then value else .null := by
  unfold inherited
  cases type.usesWorker <;> simp

theorem inherited_route (value : Json) :
    inherited type "model_route_ref" value = if type.model || type == .worker then value else .null := by
  unfold inherited
  cases type.model || type == .worker <;> simp

theorem inherited_verification (value : Json) : inherited type "verification" value = if type.usesWorker then value else .null := by
  unfold inherited
  cases type.usesWorker <;> simp

theorem inherited_approval (value : Json) : inherited type "approval" value = if type.action.isSome then value else .null := by
  unfold inherited
  cases type.action.isSome <;> simp

theorem inherited_rest {key : String} (h : key ∉ withheldKeys) (value : Json) : inherited type key value = value :=
  (inherited_cases type key value).resolve_right fun hkey => h hkey.2

/-- What is inherited under a key that is withheld unless `b`. -/
theorem nullable_inherited {α : Type} (read : Json → α) {key : String} {value : Json} (b : Bool)
    (h : inherited type key value = if b then value else .null) :
    nullable read (inherited type key value) = if b then nullable read value else none := by
  rw [h]
  cases b <;> rfl

theorem policyView_effective (ho : (nodePolicy lax).Is own) :
    policyView (table (nodePolicyFields lax) (effective defaults own type)) =
      let values := policyView ((nodePolicy lax).dump defaults)
      let own := policyView ((nodePolicy lax).dump own)
      { workerSelector := own.workerSelector.or (if type.usesWorker then values.workerSelector else none)
        modelRouteRef := own.modelRouteRef.or (if type.model || type == .worker then values.modelRouteRef else none)
        retryPolicyRef := own.retryPolicyRef.or values.retryPolicyRef
        permissionPolicyRef := own.permissionPolicyRef.or values.permissionPolicyRef
        verification := own.verification.or (if type.usesWorker then values.verification else none)
        approval := own.approval.or (if type.action.isSome then values.approval else none)
        timeoutSeconds := own.timeoutSeconds.or values.timeoutSeconds
        maxConcurrency := own.maxConcurrency.or values.maxConcurrency } := by
  simp only [policyView, NodePolicy.mk.injEq]
  refine ⟨?_, ?_, ?_, ?_, ?_, ?_, ?_, ?_⟩
  · rw [policyView_field selectorView (.head _) ho, nullable_inherited selectorView _ (inherited_selector _)]
  · rw [policyView_field revisionOf (.tail _ (.head _)) ho, nullable_inherited revisionOf _ (inherited_route _)]
  · rw [policyView_field revisionOf (.tail _ (.tail _ (.head _))) ho, inherited_rest (by decide)]
  · rw [policyView_field revisionOf (.tail _ (.tail _ (.tail _ (.head _)))) ho, inherited_rest (by decide)]
  · rw [policyView_field verificationView (.tail _ (.tail _ (.tail _ (.tail _ (.head _))))) ho,
      nullable_inherited verificationView _ (inherited_verification _)]
  · rw [policyView_field approvalView (.tail _ (.tail _ (.tail _ (.tail _ (.tail _ (.head _)))))) ho,
      nullable_inherited approvalView _ (inherited_approval _)]
  · rw [policyView_field natOf (.tail _ (.tail _ (.tail _ (.tail _ (.tail _ (.tail _ (.head _))))))) ho, inherited_rest (by decide)]
  · rw [policyView_field natOf (.tail _ (.tail _ (.tail _ (.tail _ (.tail _ (.tail _ (.tail _ (.head _)))))))) ho,
      inherited_rest (by decide)]

end Policies

/-! ## Nodes -/

section Nodes

variable {defaults node config copied : Json} {type : WorkflowNodeType}

theorem nodeView_eq {doc : Json} (htype : nodeType doc = some type) (hid : idPattern (textAt doc "id") = true) :
    nodeView doc = some
      { id := textAt doc "id", config := configView type (doc.get "config"), policy := policyView (doc.get "policy"), id_pattern := hid } := by
  rw [nodeView, htype]
  exact dif_pos hid

theorem configView_type (type : WorkflowNodeType) (doc : Json) {x : WorkflowNode} (h : x.config = configView type doc) : x.type = type := by
  rw [WorkflowNode.type, h]
  cases type <;> rfl

theorem configuredNode_eq (h : Reads lax node type config) : configuredNode lax node =
    table (workflowNodeFields lax) fun f => if f.name = "config" then (configModel lax type).dump config else f.full (setOf node f) := by
  unfold configuredNode
  rw [h.type_eq, Option.bind_some, h.config_eq]
  exact assign_table ⟨_, config_mem, rfl⟩

/-- The view of a node, and of what normalization makes of it. -/
theorem nodeView_reads (defaults : Json) (h : Reads lax node type config) : ∃ x, nodeView (configuredNode lax node) = some x ∧ x.id = nodeId node ∧
    ∀ spec : WorkflowSpec, spec.defaults = policyView ((nodePolicy lax).dump defaults) →
      nodeView (nodeForm lax defaults node type config) = some { x with policy := Workflows.effectivePolicy spec x } := by
  have hnodup := workflowNodeFields_nodup lax
  obtain ⟨id, hid, hpattern⟩ := id_text h.made (.head _)
  have hdoc := configuredNode_eq h
  have hdocId : (configuredNode lax node).get "id" = .str id := by
    rw [hdoc]
    exact (get_table hnodup (.head _)).trans ((get_id_full node).trans hid)
  have hdocType : (configuredNode lax node).get "type" = node.get "type" := by
    rw [hdoc]
    exact (get_table hnodup type_mem).trans (get_leaf typeField (fun _ => rfl) rfl).symm
  have hdocConfig : (configuredNode lax node).get "config" = (configModel lax type).dump config := by
    rw [hdoc]
    exact get_table hnodup config_mem
  have hdocPolicy : (configuredNode lax node).get "policy" = (nodePolicy lax).dump (policyOf node "policy") := by
    rw [hdoc]
    exact (get_table hnodup policy_mem).trans (full_policy node "policy")
  have hformId : (nodeForm lax defaults node type config).get "id" = .str id := get_id_form.trans hid
  have hformType : (nodeForm lax defaults node type config).get "type" = node.get "type" :=
    (get_table hnodup type_mem).trans (get_leaf typeField (fun _ => rfl) rfl).symm
  have hformConfig : (nodeForm lax defaults node type config).get "config" = (configModel lax type).dump config :=
    get_table hnodup config_mem
  have hformPolicy : (nodeForm lax defaults node type config).get "policy" =
      table (nodePolicyFields lax) (effective defaults (policyOf node "policy") type) := get_table hnodup policy_mem
  have hidText : ∀ {doc : Json}, doc.get "id" = .str id → textAt doc "id" = id := fun h => by rw [textAt, h]; rfl
  have htypeText : ∀ {doc : Json}, doc.get "type" = node.get "type" → nodeType doc = some type := fun heq =>
    (congrArg (fun j => (textOf? j).bind nodeTypeOf) heq).trans h.type_eq
  let x : WorkflowNode :=
    { id, config := configView type ((configModel lax type).dump config),
      policy := policyView ((nodePolicy lax).dump (policyOf node "policy")), id_pattern := hpattern }
  refine ⟨x, ?_, ?_, fun spec hspec => ?_⟩
  · rw [nodeView_eq (htypeText hdocType) ((hidText hdocId).symm ▸ hpattern)]
    simp only [hidText hdocId, hdocConfig, hdocPolicy, x]
  · exact (hidText hid).symm
  · rw [nodeView_eq (htypeText hformType) ((hidText hformId).symm ▸ hpattern)]
    have htype : x.type = type := configView_type type _ rfl
    have hpolicy : Workflows.effectivePolicy spec x = policyView (table (nodePolicyFields lax) (effective defaults (policyOf node "policy") type)) := by
      rw [policyView_effective h.policy_is, Workflows.effectivePolicy, htype, hspec]
    simp only [hidText hformId, hformConfig, hformPolicy, hpolicy, x]

/-- A normalized node has the configuration of its type already. -/
theorem configuredNode_normalized (hd : (nodePolicy lax).Is defaults) (h : Normalizes lax defaults node copied) :
    configuredNode lax copied = formOf lax defaults node := by
  obtain ⟨type, config, policy, hreads, hpolicy, rfl⟩ := h
  obtain ⟨config', hvalue, hconfig⟩ := (configModel lax type).parse_dump hreads.config_eq
  have hreads' := hreads.changed hvalue hpolicy.is
  rw [configuredNode_eq hreads', formOf_eq hd hreads, ← dump_normalized hpolicy]
  refine (table_congr fun f hf => ?_)
  split
  · rename_i hname
    have : f = .required "config" .object := List.inj_on_of_nodup_map (workflowNodeFields_nodup lax) hf config_mem hname
    subst this
    rw [hconfig, setOf_copy (workflowNodeFields_nodup lax) config_mem]
    rfl
  · rfl

end Nodes

/-! ## Edges -/

section Edges

variable {edge : Json}

theorem kindOf_always {kind : String} (h : kindOf kind = .always) : kind = "always" := by
  unfold kindOf at h
  split at h <;> first | rfl | cases h

theorem kindOf_retry {kind : String} (h : kindOf kind = .retry) : kind = "retry" := by
  unfold kindOf at h
  split at h <;> first | rfl | cases h

theorem kindOf_iterate {kind : String} (h : kindOf kind = .iterate) : kind = "iterate" := by
  unfold kindOf at h
  split at h <;> first | rfl | cases h

/-- The text of a member, where it is not the empty one. -/
theorem textOf?_eq {doc : Json} {key text : String} (h : textAt doc key = text) (hne : text ≠ "") : textOf? (doc.get key) = some text := by
  unfold textAt at h
  cases htext : textOf? (doc.get key) with
  | none =>
    rw [htext] at h
    exact absurd h.symm hne
  | some t =>
    rw [htext] at h
    exact congrArg some h

theorem failureClass_isSome {text : String} (h : text ∈ FailureClass.all.map FailureClass.value) : (FailureClass.ofValue text).isSome := by
  obtain ⟨cls, hcls, rfl⟩ := List.mem_map.mp h
  unfold FailureClass.ofValue
  rw [List.find?_isSome]
  exact ⟨cls, hcls, decide_eq_true rfl⟩

/-- The failure class that is written is one. -/
theorem retryClass_mem (h : (workflowEdge lax).Is edge) {text : String} (htext : textOf? (((workflowEdge lax).dump edge).get "retry_class") = some text) :
    text ∈ FailureClass.all.map FailureClass.value := by
  have hf : Field.nullable "retry_class" (literal (FailureClass.all.map FailureClass.value)) ∈ workflowEdgeFields lax :=
    .tail _ (.tail _ (.tail _ (.tail _ (.tail _ (.tail _ (.tail _ (.head _)))))))
  have hget : ((workflowEdge lax).dump edge).get "retry_class" = _ := get_table (workflowEdgeFields_nodup lax) hf
  obtain ⟨w, hw, -⟩ := Field.parse_full ((is_model_iff.mp h).instance_.holds _ hf)
  rw [← hget] at hw
  cases hdoc : ((workflowEdge lax).dump edge).get "retry_class" with
  | scalar s =>
    rw [hdoc] at hw htext
    cases s with
    | str t =>
      cases htext
      exact mem_of_literal hw
    | null | bool | int | float => cases htext
  | list | obj =>
    rw [hdoc] at htext
    cases htext

theorem edgeView_isSome (h : (workflowEdge lax).Is edge) : ∃ x, edgeView lax ((workflowEdge lax).dump edge) = some x ∧
    x.id = textAt ((workflowEdge lax).dump edge) "id" ∧ x.source = textAt ((workflowEdge lax).dump edge) "from" ∧
      x.target = textAt ((workflowEdge lax).dump edge) "to" ∧ (x.source, x.priority, x.id) = edgeKey edge := by
  have hvalid : kindFields (written (workflowEdgeFields lax) (setOf edge)) = true := (is_model_iff.mp h).instance_.valid
  have hdump : (workflowEdge lax).dump edge = .obj (written (workflowEdgeFields lax) (setOf edge)) := rfl
  simp only [kindFields, Bool.and_eq_true, Bool.or_eq_true, Bool.not_eq_true', decide_eq_false_iff_not, memberText, ← hdump] at hvalid
  obtain ⟨⟨halways, hretry⟩, hiterate⟩ := hvalid
  have hkind : ∀ {kind : String}, textAt ((workflowEdge lax).dump edge) "kind" = kind → kind ≠ "" →
      textOf? (((workflowEdge lax).dump edge).get "kind") = some kind := textOf?_eq
  refine ⟨_, dif_pos ⟨fun hk => ?_, fun hk => ?_, fun hk => ?_⟩, rfl, rfl, rfl, edgeKey_dump edge⟩
  · have hnull := halways.resolve_left (not_not.mpr (hkind (kindOf_always hk) (by decide)))
    rw [nullable, hnull]
    rfl
  · obtain ⟨text, htext⟩ := Option.isSome_iff_exists.mp (hretry.resolve_left (not_not.mpr (hkind (kindOf_retry hk) (by decide))))
    rw [htext]
    exact failureClass_isSome (retryClass_mem h htext)
  · obtain ⟨⟨hiteration, hprogress⟩, hmax⟩ := hiterate.resolve_left (not_not.mpr (hkind (kindOf_iterate hk) (by decide)))
    refine ⟨hiteration, ?_, ?_⟩
    · cases hpath : textOf? (((workflowEdge lax).dump edge).get "progress_path") with
      | none =>
        rw [hpath] at hprogress
        cases hprogress
      | some _ => rfl
    · rw [nullable, hmax]
      rfl

end Edges

/-! ## Specifications -/

section Specs

variable {spec normal : Json}

theorem viewed_eq (spec : Json) : viewed lax spec = table (workflowSpecFields lax) fun f =>
    if f.name = "nodes" then .list ((nodesOf spec).map (configuredNode lax)) else f.full (setOf spec f) :=
  assign_table ⟨_, nodes_mem, rfl⟩

theorem viewed_nodes (spec : Json) : ((viewed lax spec).get "nodes").items = (nodesOf spec).map (configuredNode lax) := by
  rw [viewed_eq]
  exact congrArg Json.items (get_table (workflowSpecFields_nodup lax) nodes_mem)

theorem viewed_edges (h : Fine lax spec) : ((viewed lax spec).get "edges").items = (edgesOf spec).map (workflowEdge lax).dump := by
  rw [viewed_eq]
  refine (congrArg Json.items (get_table (workflowSpecFields_nodup lax) edges_mem)).trans ?_
  show ((edgesField lax).full (setOf spec (edgesField lax))).items = _
  rw [h.setOf_edges.1]
  rfl

theorem viewed_rest {f : Field} (hf : f ∈ workflowSpecFields lax) (hname : f.name ≠ "nodes") :
    (viewed lax spec).get f.name = f.full (setOf spec f) := by
  rw [viewed_eq, get_table (workflowSpecFields_nodup lax) hf, if_neg hname]

/-- A node's view, as `specView` reads it. -/
def ViewsNode (lax : Lax) (node : Json) (x : WorkflowNode) : Prop :=
  nodeView (configuredNode lax node) = some x ∧ x.id = nodeId node

def ViewsEdge (lax : Lax) (edge : Json) (x : WorkflowEdge) : Prop :=
  edgeView lax ((workflowEdge lax).dump edge) = some x ∧ x.id = textAt ((workflowEdge lax).dump edge) "id" ∧
    x.source = textAt ((workflowEdge lax).dump edge) "from" ∧ x.target = textAt ((workflowEdge lax).dump edge) "to" ∧
      (x.source, x.priority, x.id) = edgeKey edge

theorem exists_nodeViews (h : Fine lax spec) : ∃ xs, List.Forall₂ (ViewsNode lax) (nodesOf spec) xs := by
  have hmem : ∀ node ∈ nodesOf spec, ∃ x, ViewsNode lax node x := by
    intro node hnode
    obtain ⟨type, config, hreads⟩ := h.reads hnode
    obtain ⟨x, hx, hid, -⟩ := nodeView_reads (policyOf spec "defaults") hreads
    exact ⟨x, hx, hid⟩
  exact exists_forall₂ (List.forall₂_same.mpr hmem) fun _ _ h => h

theorem exists_edgeViews (h : Fine lax spec) : ∃ xs, List.Forall₂ (ViewsEdge lax) (edgesOf spec) xs := by
  have hmem : ∀ edge ∈ edgesOf spec, ∃ x, ViewsEdge lax edge x := fun edge hedge => edgeView_isSome (h.setOf_edges.2.2 edge hedge)
  exact exists_forall₂ (List.forall₂_same.mpr hmem) fun _ _ h => h

/-- What `specView` reads besides nodes and edges. -/
theorem specView_eq {doc : Json} {nodes : List WorkflowNode} {edges : List WorkflowEdge}
    (hnodes : readAll nodeView (doc.get "nodes").items = some nodes) (hedges : readAll (edgeView lax) (doc.get "edges").items = some edges)
    (h : (nodes.map (·.id)).Nodup ∧ (edges.map (·.id)).Nodup ∧ textAt doc "entrypoint" ∈ nodes.map (·.id) ∧
      ∀ edge ∈ edges, edge.source ∈ nodes.map (·.id) ∧ edge.target ∈ nodes.map (·.id)) :
    specView lax doc = some
      { specVersion := if textAt doc "spec_version" = "1.0" then .v1_0 else .v1_1,
        reducers := (doc.get "reducers").members.map fun e => (e.1, reducerOf ((textOf? e.2).getD "")),
        entrypoint := textAt doc "entrypoint", defaults := policyView (doc.get "defaults"), nodes, edges,
        node_ids := h.1, edge_ids := h.2.1, entrypoint_mem := h.2.2.1, endpoints_mem := h.2.2.2 } := by
  rw [specView, hnodes, hedges]
  exact dif_pos h

theorem viewed_readNodes {xs : List WorkflowNode} (h : List.Forall₂ (ViewsNode lax) (nodesOf spec) xs) :
    readAll nodeView ((viewed lax spec).get "nodes").items = some xs := by
  rw [viewed_nodes]
  exact readAll_eq_some.mpr (List.forall₂_map_left_iff.mpr (h.imp fun _ _ h => h.1))

theorem viewed_readEdges (hfine : Fine lax spec) {xs : List WorkflowEdge} (h : List.Forall₂ (ViewsEdge lax) (edgesOf spec) xs) :
    readAll (edgeView lax) ((viewed lax spec).get "edges").items = some xs := by
  rw [viewed_edges hfine]
  exact readAll_eq_some.mpr (List.forall₂_map_left_iff.mpr (h.imp fun _ _ h => h.1))

theorem textAt_mem {doc : Json} {key : String} {ids : List String} (h : textOf? (doc.get key) ∈ ids.map some) : textAt doc key ∈ ids := by
  obtain ⟨id, hid, heq⟩ := List.mem_map.mp h
  rw [textAt, ← heq]
  exact hid

/-- What a specification's view has. -/
structure Views (lax : Lax) (spec : Json) (s : WorkflowSpec) : Prop where
  view_eq : view lax spec = some s
  nodes : List.Forall₂ (ViewsNode lax) (nodesOf spec) s.nodes
  edges : List.Forall₂ (ViewsEdge lax) (edgesOf spec) s.edges
  specVersion : s.specVersion = if textAt (viewed lax spec) "spec_version" = "1.0" then .v1_0 else .v1_1
  reducers : s.reducers = ((viewed lax spec).get "reducers").members.map fun e => (e.1, reducerOf ((textOf? e.2).getD ""))
  entrypoint : s.entrypoint = textAt (viewed lax spec) "entrypoint"
  defaults : s.defaults = policyView ((viewed lax spec).get "defaults")

/-- Every valid specification has a view. -/
theorem exists_views (h : Fine lax spec) : ∃ s, Views lax spec s := by
  obtain ⟨nodes, hnodes⟩ := exists_nodeViews h
  obtain ⟨edges, hedges⟩ := exists_edgeViews h
  have hids : nodes.map (·.id) = (nodesOf spec).map nodeId := map_eq_of_forall₂ (hnodes.imp fun _ _ h => h.2)
  have hedgeIds : edges.map (·.id) = (edgesOf spec).map fun edge => (edgeKey edge).2.2 :=
    map_eq_of_forall₂ (hedges.imp fun _ _ h => congrArg (fun key : String × Int × String => key.2.2) h.2.2.2.2)
  have hconds : (nodes.map (·.id)).Nodup ∧ (edges.map (·.id)).Nodup ∧ textAt (viewed lax spec) "entrypoint" ∈ nodes.map (·.id) ∧
      ∀ edge ∈ edges, edge.source ∈ nodes.map (·.id) ∧ edge.target ∈ nodes.map (·.id) := by
    obtain ⟨-, -, hentry, hends⟩ := references_iff.mp h.references
    rw [h.idTexts] at hentry hends
    rw [hids, hedgeIds]
    refine ⟨h.nodup_nodeId, h.nodup_edgeId, textAt_mem ?_, fun x hx => ?_⟩
    · rwa [show (viewed lax spec).get "entrypoint" = _ from viewed_rest entrypoint_mem (by decide),
        ← get_written (workflowSpecFields_nodup lax) entrypoint_mem]
    · obtain ⟨edge, hedge, -, -, hsource, htarget, -⟩ := forall₂_left hedges hx
      obtain ⟨hfrom, hto⟩ := hends _ (List.mem_map_of_mem hedge)
      rw [hsource, htarget]
      exact ⟨textAt_mem hfrom, textAt_mem hto⟩
  exact ⟨_, specView_eq (viewed_readNodes hnodes) (viewed_readEdges h hedges) hconds, hnodes, hedges, rfl, rfl, rfl, rfl⟩

theorem viewed_normal (hn : IsNormal lax spec normal) {f : Field} (hf : f ∈ workflowSpecFields lax) (hnodes : f.name ≠ "nodes")
    (hedges : f.name ≠ "edges") : (viewed lax normal).get f.name = (viewed lax spec).get f.name := by
  rw [viewed_rest hf hnodes, viewed_rest hf hnodes, hn.rest f hf hnodes hedges]

/-- The view of the normal form is the normal form of the view. -/
theorem view_normalizeWorkflow (h : Fine lax spec) (hn : IsNormal lax spec normal) {s : WorkflowSpec} (hs : Views lax spec s) :
    view lax normal = some (Workflows.normalizeWorkflow s) := by
  have hdefaults : s.defaults = policyView ((nodePolicy lax).dump (policyOf spec "defaults")) := by
    rw [hs.defaults, ← full_policy, ← viewed_rest defaults_mem (by decide : "defaults" ≠ "nodes")]
    rfl
  have hsorted : List.Forall₂ (ViewsNode lax) (sortedNodes (nodesOf spec)) (s.nodes.insertionSort fun a b => stringLe a.id b.id) :=
    forall₂_sorted (fun _ _ h => h.2) hs.nodes
  have hnodes : List.Forall₂ (fun copied x => nodeView (configuredNode lax copied) = some x) (nodesOf normal) (normalizedNodes s) := by
    refine List.forall₂_map_right_iff.mpr (forall₂_related hsorted hn.nodes fun node x copied hx hnormal => ?_)
    rw [configuredNode_normalized h.defaults hnormal]
    obtain ⟨type, config, policy, hreads, -⟩ := hnormal
    obtain ⟨x', hx', -, hform⟩ := nodeView_reads (policyOf spec "defaults") hreads
    cases hx.1.symm.trans hx'
    rw [formOf_eq h.defaults hreads]
    exact hform s hdefaults
  have hedges : List.Forall₂ (ViewsEdge lax) (edgesOf normal) (s.edges.insertionSort fun a b => edgeLe a b) := by
    have hkeys : ∀ edge x, ViewsEdge lax edge x → (fun x : WorkflowEdge => (x.source, x.priority, x.id)) x = edgeKey edge :=
      fun _ _ h => h.2.2.2.2
    rw [hn.edges]
    exact forall₂_sorted hkeys hs.edges
  have hreadNodes : readAll nodeView ((viewed lax normal).get "nodes").items = some (normalizedNodes s) := by
    rw [viewed_nodes]
    exact readAll_eq_some.mpr (List.forall₂_map_left_iff.mpr hnodes)
  have hentry : textAt (viewed lax normal) "entrypoint" = s.entrypoint := by
    rw [hs.entrypoint, textAt, textAt, show (viewed lax normal).get "entrypoint" = _ from viewed_normal hn entrypoint_mem (by decide) (by decide)]
    rfl
  refine (specView_eq hreadNodes (viewed_readEdges hn.fine hedges) ⟨(Workflows.normalizeWorkflow s).node_ids,
    (Workflows.normalizeWorkflow s).edge_ids, ?_, (Workflows.normalizeWorkflow s).endpoints_mem⟩).trans ?_
  · rw [hentry]
    exact (Workflows.normalizeWorkflow s).entrypoint_mem
  · unfold Workflows.normalizeWorkflow
    simp only [Option.some.injEq, WorkflowSpec.mk.injEq, and_true]
    refine ⟨?_, ?_, hentry, ?_⟩
    · rw [hs.specVersion, textAt, textAt, show (viewed lax normal).get "spec_version" = _ from
        viewed_normal hn (.head _) (by decide) (by decide)]
      rfl
    · rw [hs.reducers, show (viewed lax normal).get "reducers" = _ from
        viewed_normal hn (.tail _ (.tail _ (.head _))) (by decide) (by decide)]
      rfl
    · rw [hs.defaults, show (viewed lax normal).get "defaults" = _ from
        viewed_normal hn defaults_mem (by decide : "defaults" ≠ "nodes") (by decide : "defaults" ≠ "edges")]
      rfl

/-- A normal form is viewed as it is written. -/
theorem viewed_eq_dump (h : Fine lax spec) (hn : IsNormal lax spec normal) : viewed lax normal = (workflowSpec lax).dump normal := by
  have hnodes : (nodesOf normal).map (configuredNode lax) = (nodesOf normal).map (workflowNode lax).dump :=
    List.map_congr_left fun copied hcopied => by
      obtain ⟨node, -, hnormal⟩ := forall₂_left hn.nodes hcopied
      rw [configuredNode_normalized h.defaults hnormal, hnormal.dump h.defaults]
  rw [viewed, hnodes]
  exact assign_nodes hn.fine

end Specs

/-- What is valid is a specification of `Workflows.Spec`, and what normalization makes of it is the
    normal form of that. -/
theorem normalizeWorkflow_refines (lax : Lax) (spec normal : Json) (h : (workflowSpec lax).Is spec)
    (hn : normalizeWorkflow lax spec = some normal) :
    ∃ s, view lax spec = some s ∧ view lax normal = some (Workflows.normalizeWorkflow s) ∧
      s.nodes.map (·.id) = (nodesOf spec).map nodeId ∧
      s.edges.map (fun edge => (edge.source, edge.priority, edge.id)) = (edgesOf spec).map edgeKey := by
  obtain ⟨hfine, hnormal⟩ := isNormal_of_normalize h hn
  obtain ⟨s, hs⟩ := exists_views hfine
  exact ⟨s, hs.view_eq, view_normalizeWorkflow hfine hnormal hs, map_eq_of_forall₂ (hs.nodes.imp fun _ _ hx => hx.2),
    map_eq_of_forall₂ (hs.edges.imp fun _ _ hx => hx.2.2.2.2)⟩

theorem normalizeWorkflow_refines_sample : ∃ s, view strictLax sampleSpec = some s ∧ s.nodes.map (·.id) = ["plan", "done"] := by
  obtain ⟨normal, hnormal⟩ := Option.isSome_iff_exists.mp normalizeWorkflow_sampleSpec
  obtain ⟨s, hs, -, hids, -⟩ := normalizeWorkflow_refines strictLax sampleSpec normal sampleSpec_is hnormal
  exact ⟨s, hs, hids⟩

end Jarvis.Workflows.Documents
