/-
  Jarvis.Workflows.Verdicts — `validate_workflow` on specifications as instances of their contracts.

  The payload it makes of a specification is read back, normalized and checked (`Workflows.Views`,
  `Workflows.Validation`). What the schema or a configuration model rejects is reported by the
  validator, and is `none` here. The length of `json.dumps`, the digests and `str` of what is not a
  text are parameters.
-/
import Jarvis.Workflows.DepthGuard
import Jarvis.Workflows.Views

namespace Jarvis.Workflows.Documents

open Model
open JsonText (Value Number)

/-! ## The limits -/

mutual

/-- A value as the JSON decoder gives it, floats by their texts. -/
def toValue (repr : Rat → Number) : Json → Value
  | .scalar .null => .scalar .null
  | .scalar (.bool b) => .scalar (.bool b)
  | .scalar (.int n) => .scalar (.int n)
  | .scalar (.float q) => .scalar (.float (repr q))
  | .scalar (.str s) => .scalar (.str (s.toList.map Char.toNat))
  | .list items => .list (toValues repr items)
  | .obj members => .obj (toMembers repr members)

def toValues (repr : Rat → Number) : List Json → List Value
  | [] => []
  | j :: items => toValue repr j :: toValues repr items

def toMembers (repr : Rat → Number) : List (String × Json) → List (List Nat × Value)
  | [] => []
  | (key, j) :: members => (key.toList.map Char.toNat, toValue repr j) :: toMembers repr members

end

mutual

/-- How many values there are in a value. -/
def count : Json → Nat
  | .scalar _ => 1
  | .list items => countItems items + 1
  | .obj members => countMembers members + 1

def countItems : List Json → Nat
  | [] => 0
  | j :: items => count j + countItems items

def countMembers : List (String × Json) → Nat
  | [] => 0
  | (_, j) :: members => count j + countMembers members

end

theorem toValues_eq (repr : Rat → Number) (items : List Json) : toValues repr items = items.map (toValue repr) := by
  induction items with
  | nil => rfl
  | cons j items ih => rw [toValues, ih, List.map_cons]

theorem toMembers_values (repr : Rat → Number) (members : List (String × Json)) :
    (toMembers repr members).map Prod.snd = (members.map Prod.snd).map (toValue repr) := by
  induction members with
  | nil => rfl
  | cons e members ih => rw [toMembers, List.map_cons, ih, List.map_cons, List.map_cons]

theorem countItems_eq (items : List Json) : countItems items = (items.map count).sum := by
  induction items with
  | nil => rfl
  | cons j items ih => rw [countItems, ih, List.map_cons, List.sum_cons]

theorem countMembers_eq (members : List (String × Json)) : countMembers members = ((members.map Prod.snd).map count).sum := by
  induction members with
  | nil => rfl
  | cons e members ih => rw [countMembers, ih, List.map_cons, List.map_cons, List.sum_cons]

/-- The values that a value holds. -/
def children : Json → List Json
  | .scalar _ => []
  | .list items => items
  | .obj members => members.map Prod.snd

theorem count_eq (j : Json) : count j = ((children j).map count).sum + 1 := by
  cases j with
  | scalar => rfl
  | list items => rw [count, countItems_eq, children]
  | obj members => rw [count, countMembers_eq, children]

theorem depth_le_iff {j : Json} {d n : Nat} : d + j.depth ≤ n ↔ d ≤ n ∧ ∀ c ∈ children j, d + 1 + c.depth ≤ n := by
  cases j with
  | scalar => simp [Json.depth, children]
  | list items =>
    have hitems : ∀ k, Json.depthItems items ≤ k ↔ ∀ c ∈ items, c.depth + 1 ≤ k := fun k => Json.depthItems_le
    rw [Json.depth, children]
    constructor
    · intro h
      refine ⟨by omega, fun c hc => ?_⟩
      have := (hitems _).mp le_rfl c hc
      omega
    · rintro ⟨hd, hall⟩
      have := (hitems (n - d)).mpr fun c hc => by
        have := hall c hc
        omega
      omega
  | obj members =>
    have hmembers : ∀ k, Json.depthMembers members ≤ k ↔ ∀ e ∈ members, e.2.depth + 1 ≤ k := fun k => Json.depthMembers_le
    rw [Json.depth, children]
    constructor
    · intro h
      refine ⟨by omega, fun c hc => ?_⟩
      obtain ⟨e, he, rfl⟩ := List.mem_map.mp hc
      have := (hmembers _).mp le_rfl e he
      omega
    · rintro ⟨hd, hall⟩
      have := (hmembers (n - d)).mpr fun e he => by
        have := hall e.2 (List.mem_map_of_mem he)
        omega
      omega

/-- What is pending in the loop. -/
def pendingValues (repr : Rat → Number) (pending : List (Json × Nat)) : List (Value × Nat) :=
  pending.map fun e => (toValue repr e.1, e.2)

def Shallow (pending : List (Json × Nat)) : Prop := ∀ e ∈ pending, e.2 + e.1.depth ≤ maxJsonDepth

def pendingCount (pending : List (Json × Nat)) : Nat := (pending.map fun e => count e.1).sum

/-- The children of a value, as the loop takes them. -/
def extended (j : Json) (d : Nat) (pending : List (Json × Nat)) : List (Json × Nat) :=
  ((children j).map fun c => (c, d)).reverse ++ pending

theorem extendPending_eq (repr : Rat → Number) (j : Json) (d : Nat) (pending : List (Json × Nat)) :
    extendPending ((children j).map (toValue repr)) d (pendingValues repr pending) = pendingValues repr (extended j d pending) := by
  simp only [extendPending, pendingValues, extended, List.map_append, List.map_reverse, List.map_map]
  rfl

theorem resourceLoop_step (repr : Rat → Number) {left d : Nat} {j : Json} {pending : List (Json × Nat)} (h : d ≤ maxJsonDepth) :
    resourceLoop (fun _ => true) (left + 1) (pendingValues repr ((j, d) :: pending)) =
      resourceLoop (fun _ => true) left (pendingValues repr (extended j (d + 1) pending)) := by
  rw [← extendPending_eq]
  cases j with
  | scalar s => cases s <;> simp [pendingValues, resourceLoop, toValue, Nat.not_lt.mpr h, children, extendPending]
  | list items =>
    simp [pendingValues, resourceLoop, toValue, Nat.not_lt.mpr h, children, toValues_eq]
  | obj members =>
    simp only [pendingValues, List.map_cons, resourceLoop, toValue, Nat.not_lt.mpr h, if_false, children, toMembers_values]

theorem shallow_cons {j : Json} {d : Nat} {pending : List (Json × Nat)} :
    Shallow ((j, d) :: pending) ↔ d ≤ maxJsonDepth ∧ Shallow (extended j (d + 1) pending) := by
  rw [Shallow, List.forall_mem_cons, depth_le_iff, and_assoc]
  simp only [Shallow, extended, List.mem_append, List.mem_reverse, List.mem_map]
  refine and_congr_right fun _ => ⟨?_, fun h => ⟨fun c hc => h (c, d + 1) (.inl ⟨c, hc, rfl⟩), fun e he => h e (.inr he)⟩⟩
  rintro ⟨hchildren, hrest⟩ e (⟨c, hc, rfl⟩ | he)
  · exact hchildren c hc
  · exact hrest e he

theorem pendingCount_cons {j : Json} {d d' : Nat} {pending : List (Json × Nat)} :
    pendingCount ((j, d) :: pending) = pendingCount (extended j d' pending) + 1 := by
  simp only [pendingCount, extended, List.map_cons, List.sum_cons, count_eq j, List.map_append, List.map_reverse, List.sum_append,
    List.sum_reverse, List.map_map]
  show ((children j).map count).sum + 1 + _ = ((children j).map count).sum + _ + 1
  omega

/-- The loop refuses what is too deep or too much. -/
theorem resourceLoop_iff (repr : Rat → Number) (left : Nat) (pending : List (Json × Nat)) :
    (Shallow pending ∧ pendingCount pending ≤ left ∧ resourceLoop (fun _ => true) left (pendingValues repr pending) = none) ∨
      (¬ (Shallow pending ∧ pendingCount pending ≤ left) ∧
        resourceLoop (fun _ => true) left (pendingValues repr pending) = some [depthIssue]) := by
  induction left generalizing pending with
  | zero =>
    cases pending with
    | nil => exact .inl ⟨fun _ he => absurd he List.not_mem_nil, le_rfl, rfl⟩
    | cons e pending =>
      obtain ⟨j, d⟩ := e
      refine .inr ⟨fun h => ?_, rfl⟩
      rw [@pendingCount_cons _ _ 0] at h
      exact absurd h.2 (by omega)
  | succ left ih =>
    cases pending with
    | nil => exact .inl ⟨fun _ he => absurd he List.not_mem_nil, Nat.zero_le _, rfl⟩
    | cons e pending =>
      obtain ⟨j, d⟩ := e
      by_cases hd : d ≤ maxJsonDepth
      · rw [resourceLoop_step repr hd, shallow_cons, @pendingCount_cons _ _ (d + 1), Nat.succ_le_succ_iff]
        rcases ih (extended j (d + 1) pending) with ⟨hshallow, hcount, hloop⟩ | ⟨hnot, hloop⟩
        · exact .inl ⟨⟨hd, hshallow⟩, hcount, hloop⟩
        · exact .inr ⟨fun h => hnot ⟨h.1.2, h.2⟩, hloop⟩
      · refine .inr ⟨fun h => hd (shallow_cons.mp h.1).1, ?_⟩
        simp [pendingValues, resourceLoop, Nat.lt_of_not_le hd]

/-! ## The report -/

/-- What validation takes from elsewhere. -/
structure Tools where
  /-- The text of a float. -/
  repr : Rat → Number
  /-- The length of `json.dumps`, in bytes. -/
  dumpsLength : Json → Nat
  /-- The length of `canonical_json`, in bytes. -/
  canonicalLength : Json → Nat
  /-- Whether `redact_text` finds something in a text. -/
  credential : String → Bool
  /-- Whether `redact` finds something in the name of a member. -/
  credentialKey : String → Bool
  /-- `str(value)`. -/
  str : Json → String
  sha256 : Json → String
  /-- `sha256_digest` of the payload a revision's `content_hash` covers. -/
  revision : WorkflowResolvedRevision → String
  snapshotHash : WorkflowResolvedSnapshot → String

/-- `_resource_issues`. -/
def resources (tools : Tools) (raw : Json) : List WorkflowIssue :=
  resourceIssues (fun _ => true) (fun _ => some (tools.dumpsLength raw)) (toValue tools.repr raw)

/-- The loop over a collection: the identifiers it sees, and the issues of those that it has seen. -/
def duplicates (collection singular : String) (index : Nat) (seen : List String) : List Json → List String × List WorkflowIssue
  | [] => (seen, [])
  | member :: members =>
    match idText member with
    | none => duplicates collection singular (index + 1) seen members
    | some id =>
      let rest := duplicates collection singular (index + 1) (id :: seen) members
      (rest.1, check (seen.contains id)
        { code := s!"graph.duplicate_{singular}", message := s!"Duplicate {singular} ID",
          node := if singular = "node" then some id else none, edge := if singular = "edge" then some id else none,
          path := some s!"{collection}.{index}.id" } ++ rest.2)

/-- The endpoints of an edge that are no node's. -/
def dangling (tools : Tools) (nodeIds : List String) (member : Json) (index : Nat) : List WorkflowIssue :=
  match member with
  | .obj members =>
    ["from", "to"].flatMap fun endpoint =>
      let edge := match members.lookup "id" with
        | none => ""
        | some id => (textOf? id).getD (tools.str id)
      check (!(textOf? (member.get endpoint)).any nodeIds.contains)
        { code := "graph.dangling_edge", message := "Edge endpoint must reference a node",
          edge := if edge = "" then none else some edge, path := some s!"edges.{index}.{endpoint}" }
  | _ => []

/-- `_raw_references`. -/
def rawReferences (tools : Tools) (raw : Json) : List WorkflowIssue :=
  let nodes := duplicates "nodes" "node" 0 [] (raw.get "nodes").items
  let edges := duplicates "edges" "edge" 0 [] (raw.get "edges").items
  nodes.2 ++ edges.2 ++
    check (!(textOf? (raw.get "entrypoint")).any nodes.1.contains)
      { code := "graph.entrypoint", message := "Entrypoint must reference a node", path := some "entrypoint" } ++
    (raw.get "edges").items.zipIdx.flatMap fun member => dangling tools nodes.1 member.1 member.2

/-- `WorkflowValidationReport`. -/
structure Report where
  valid : Bool
  issues : List WorkflowIssue
  contentHash : Option String := none
  snapshotHash : Option String := none

/-- `validate_workflow`: `none` where the schema or a configuration model rejects the payload. -/
def validateWorkflow (lax : Lax) (tools : Tools) (spec : Json) (snapshot : Option WorkflowResolvedSnapshot) : Option Report :=
  let raw := payload lax spec
  match resources tools raw with
  | [] => do
    let read ← (workflowSpec lax).parse raw
    let normalized ← normalizeWorkflow lax read
    let viewed ← view lax read
    let hash := contentHash lax tools.sha256 normalized
    let unique := (rawReferences tools raw ++
      workflowIssues { content := fun _ => hash, revision := tools.revision } viewed snapshot).eraseDups
    return { valid := unique.isEmpty, issues := unique, contentHash := hash, snapshotHash := snapshot.map tools.snapshotHash }
  | issues => some { valid := false, issues }

variable {lax : Lax} {tools : Tools} {spec normal : Json}

/-- Within the limits on how much there is. -/
def Fits (tools : Tools) (raw : Json) : Prop := count raw ≤ maxWorkflowBytes ∧ tools.dumpsLength raw ≤ maxWorkflowBytes

theorem resources_fits {raw : Json} (h : Fits tools raw) : resources tools raw = if raw.depth ≤ maxJsonDepth then [] else [depthIssue] := by
  have hcount : pendingCount [(raw, 0)] = count raw := by simp [pendingCount]
  have hshallow : Shallow [(raw, 0)] ↔ raw.depth ≤ maxJsonDepth := by simp [Shallow]
  have hsize : ¬ maxWorkflowBytes < tools.dumpsLength raw := Nat.not_lt.mpr h.2
  rcases resourceLoop_iff tools.repr maxWorkflowBytes [(raw, 0)] with ⟨hs, -, hloop⟩ | ⟨hnot, hloop⟩
  · rw [if_pos (hshallow.mp hs), resources, resourceIssues, show [(toValue tools.repr raw, 0)] = pendingValues tools.repr [(raw, 0)] from rfl,
      hloop]
    simp [hsize]
  · rw [if_neg fun hd => hnot ⟨hshallow.mpr hd, hcount ▸ h.1⟩, resources, resourceIssues,
      show [(toValue tools.repr raw, 0)] = pendingValues tools.repr [(raw, 0)] from rfl, hloop]

theorem resources_eq_nil {raw : Json} : resources tools raw = [] ↔ Fits tools raw ∧ raw.depth ≤ maxJsonDepth := by
  constructor
  · intro h
    have hpending : [(toValue tools.repr raw, 0)] = pendingValues tools.repr [(raw, 0)] := rfl
    rw [resources, resourceIssues, hpending] at h
    rcases resourceLoop_iff tools.repr maxWorkflowBytes [(raw, 0)] with ⟨hs, hcount, hloop⟩ | ⟨-, hloop⟩
    · rw [hloop] at h
      have hsize := check_eq_nil.mp h
      refine ⟨⟨?_, Nat.not_lt.mp (of_decide_eq_false hsize)⟩, ?_⟩
      · simpa [pendingCount] using hcount
      · simpa [Shallow] using hs
    · rw [hloop] at h
      cases h
  · rintro ⟨hfits, hdepth⟩
    rw [resources_fits hfits, if_pos hdepth]

/-! ## References -/

theorem duplicates_none {collection singular : String} {index : Nat} {seen : List String} {members : List Json}
    (h : (members.map idText).Nodup) (hseen : ∀ m ∈ members, ∀ id ∈ seen, idText m ≠ some id) :
    (duplicates collection singular index seen members).2 = [] := by
  induction members generalizing index seen with
  | nil => rfl
  | cons member members ih =>
    obtain ⟨hfirst, hrest⟩ := List.nodup_cons.mp h
    have hseen' := fun m hm => hseen m (List.mem_cons_of_mem _ hm)
    rw [duplicates]
    cases hid : idText member with
    | none => exact ih hrest hseen'
    | some id =>
      have hnew : seen.contains id = false := by
        rw [← Bool.not_eq_true, List.contains_iff_mem]
        exact fun hmem => hseen member List.mem_cons_self id hmem hid
      simp only [hnew, check, Bool.false_eq_true, if_false, List.nil_append]
      refine ih hrest fun m hm id' hid' => ?_
      rcases List.mem_cons.mp hid' with rfl | hid'
      · exact fun heq => hfirst (hid ▸ heq ▸ List.mem_map_of_mem hm)
      · exact hseen' m hm id' hid'

theorem mem_duplicates {collection singular : String} {index : Nat} {seen : List String} {members : List Json} {id : String}
    (h : id ∈ seen ∨ some id ∈ members.map idText) : id ∈ (duplicates collection singular index seen members).1 := by
  induction members generalizing index seen with
  | nil => exact h.resolve_right List.not_mem_nil
  | cons member members ih =>
    rw [List.map_cons, List.mem_cons] at h
    rw [duplicates]
    cases hid : idText member with
    | none =>
      rw [hid] at h
      exact ih (h.imp_right fun h => h.resolve_left (by rintro ⟨⟩))
    | some id' =>
      rw [hid] at h
      refine ih ?_
      rcases h with h | h | h
      · exact .inl (List.mem_cons_of_mem _ h)
      · exact .inl (Option.some.inj h ▸ List.mem_cons_self)
      · exact .inr h

theorem nodePayload_eq (node : Json) : nodePayload lax node =
    table (workflowNodeFields lax) fun f => if f.name = "policy" then policyOf node "policy" else f.full (setOf node f) :=
  assign_table ⟨_, policy_mem, rfl⟩

theorem idText_payload (node : Json) : idText (nodePayload lax node) = idText node := by
  rw [idText, nodePayload_eq]
  exact congrArg textOf? ((get_table (workflowNodeFields_nodup lax) (.head _)).trans (get_id_full node))

theorem payload_eq (spec : Json) : payload lax spec = table (workflowSpecFields lax) fun f =>
    if f.name = "nodes" then .list ((nodesOf spec).map (nodePayload lax)) else f.full (setOf spec f) :=
  assign_table ⟨_, nodes_mem, rfl⟩

theorem payload_nodes (spec : Json) : ((payload lax spec).get "nodes").items = (nodesOf spec).map (nodePayload lax) := by
  rw [payload_eq]
  exact congrArg Json.items (get_table (workflowSpecFields_nodup lax) nodes_mem)

theorem payload_edges (h : Fine lax spec) : ((payload lax spec).get "edges").items = (edgesOf spec).map (workflowEdge lax).dump := by
  rw [payload_eq]
  refine (congrArg Json.items (get_table (workflowSpecFields_nodup lax) edges_mem)).trans ?_
  show ((edgesField lax).full (setOf spec (edgesField lax))).items = _
  rw [h.setOf_edges.1]
  rfl

theorem check_any {text : Option String} {ids : List String} (h : ∃ id ∈ ids, text = some id) {issue : WorkflowIssue} :
    check (!text.any ids.contains) issue = [] := by
  obtain ⟨id, hid, rfl⟩ := h
  rw [check_eq_nil, Option.any_some, List.contains_iff_mem.mpr hid]
  rfl

/-- The references of a specification that the schema admits are to its nodes. -/
theorem rawReferences_nil (h : Fine lax spec) : rawReferences tools (payload lax spec) = [] := by
  have hids : ((nodesOf spec).map (nodePayload lax)).map idText = ((nodesOf spec).map nodeId).map some := by
    rw [← h.idTexts, List.map_map, List.map_map]
    exact List.map_congr_left fun node _ => (idText_payload node).trans (idText_dump node).symm
  obtain ⟨hnodup, hedgeIds, hentry, hends⟩ := references_iff.mp h.references
  have hseen : ∀ text ∈ ((nodesOf spec).map nodeId).map some, ∃ id ∈ (duplicates "nodes" "node" 0 []
      ((nodesOf spec).map (nodePayload lax))).1, text = some id := by
    intro text htext
    obtain ⟨id, hid, rfl⟩ := List.mem_map.mp htext
    exact ⟨id, mem_duplicates (.inr (hids ▸ List.mem_map_of_mem hid)), rfl⟩
  rw [h.idTexts] at hnodup hentry hends
  have hentrypoint : textOf? ((payload lax spec).get "entrypoint") ∈ ((nodesOf spec).map nodeId).map some := by
    rw [payload_eq, show (table (workflowSpecFields lax) _).get "entrypoint" = _ from get_table (workflowSpecFields_nodup lax) entrypoint_mem]
    rwa [memberText, show (Json.obj (written (workflowSpecFields lax) (setOf spec))).get "entrypoint" = _ from
      get_written (workflowSpecFields_nodup lax) entrypoint_mem] at hentry
  unfold rawReferences
  rw [payload_nodes, payload_edges h]
  dsimp only
  rw [duplicates_none (hids ▸ hnodup) (fun _ _ _ hid => absurd hid List.not_mem_nil),
    duplicates_none hedgeIds (fun _ _ _ hid => absurd hid List.not_mem_nil), check_any (hseen _ hentrypoint)]
  simp only [List.nil_append, List.flatMap_eq_nil_iff]
  intro member hmember
  obtain ⟨edge, hedge, heq⟩ := List.mem_map.mp (List.fst_mem_of_mem_zipIdx hmember)
  obtain ⟨hfrom, hto⟩ := hends _ (List.mem_map_of_mem hedge)
  rw [← heq]
  show (["from", "to"].flatMap _) = []
  simp only [List.flatMap_cons, List.flatMap_nil, List.append_nil, List.append_eq_nil_iff]
  exact ⟨check_any (hseen _ hfrom), check_any (hseen _ hto)⟩

/-! ## Depth -/

theorem depth_table {fields : List Field} {g : Field → Json} {n : Nat} :
    (table fields g).depth ≤ n ↔ ∀ f ∈ fields, (g f).depth + 1 ≤ n := by
  rw [table, Json.depth, Json.depthMembers_le, List.forall_mem_map]

theorem height_nodePolicy : (nodePolicy lax).height = some 6 := rfl

theorem height_configModel (type : WorkflowNodeType) : ∃ n ≤ 2, (configModel lax type).height = some n := by
  cases type <;> exact ⟨_, by decide, rfl⟩

/-- A value of a bounded field is as deep at most as the field. -/
theorem depth_full {f : Field} {v : Option Json} {n : Nat} (h : f.Holds v) (hn : f.codec.height = some n) : (f.full v).depth ≤ n := by
  obtain ⟨w, hw, -⟩ := Field.parse_full h
  exact (f.codec.depth_le hw hn).1

theorem depth_nodePayload {node config : Json} {type : WorkflowNodeType} (h : Reads lax node type config) :
    (nodePayload lax node).depth ≤ 7 := by
  rw [nodePayload_eq, depth_table]
  intro f hf
  have hholds := h.made.instance_.holds f hf
  simp only [workflowNodeFields, List.mem_cons, List.not_mem_nil, or_false] at hf
  rcases hf with rfl | rfl | rfl | rfl | rfl | rfl
  iterate 4 exact Nat.succ_le_succ (Nat.le_trans (depth_full hholds rfl) (by decide))
  · obtain ⟨n, hn, hheight⟩ := @height_configModel lax type
    have hconfig := ((configModel lax type).depth_le h.config_eq hheight).1
    have hfull : node.get "config" = (Field.required "config" .object).full (setOf node (.required "config" .object)) :=
      get_leaf (.required "config" .object) (fun _ => rfl) rfl
    rw [hfull] at hconfig
    exact Nat.succ_le_succ (by
      show ((Field.required "config" .object).full (setOf node (.required "config" .object))).depth ≤ 6
      omega)
  · exact Nat.succ_le_succ ((nodePolicy lax).depth_le h.policy_is height_nodePolicy).1

/-- Only what is not in the nodes can be too deep. -/
theorem depth_payload (h : Fine lax spec) : (payload lax spec).depth ≤ maxJsonDepth ↔
    ∀ f ∈ workflowSpecFields lax, f.name ≠ "nodes" → (f.full (setOf spec f)).depth + 1 ≤ maxJsonDepth := by
  rw [payload_eq, depth_table]
  refine forall₂_congr fun f hf => ?_
  by_cases hname : f.name = "nodes"
  · rw [if_pos hname]
    refine iff_of_true ?_ fun hne => absurd hname hne
    have hdepth : Json.depthItems ((nodesOf spec).map (nodePayload lax)) ≤ 8 := by
      rw [Json.depthItems_le, List.forall_mem_map]
      intro node hnode
      obtain ⟨type, config, hreads⟩ := h.reads hnode
      exact Nat.succ_le_succ (depth_nodePayload hreads)
    rw [Json.depth, maxJsonDepth]
    omega
  · rw [if_neg hname]
    exact ⟨fun h _ => h, fun h => h hname⟩

theorem depthItems_perm {as bs : List Json} (h : as.Perm bs) : Json.depthItems as = Json.depthItems bs :=
  le_antisymm (Json.depthItems_le.mpr fun j hj => Json.depthItems_le.mp le_rfl j (h.mem_iff.mp hj))
    (Json.depthItems_le.mpr fun j hj => Json.depthItems_le.mp le_rfl j (h.mem_iff.mpr hj))

/-- The normal form is too deep when the specification is. -/
theorem depth_normal (h : Fine lax spec) (hn : IsNormal lax spec normal) :
    (payload lax normal).depth ≤ maxJsonDepth ↔ (payload lax spec).depth ≤ maxJsonDepth := by
  rw [depth_payload h, depth_payload hn.fine]
  refine forall₃_congr fun f hf hname => ?_
  by_cases hname' : f.name = "edges"
  · have : f = edgesField lax := List.inj_on_of_nodup_map (workflowSpecFields_nodup lax) hf edges_mem hname'
    subst this
    have hperm : ((edgesOf normal).map (workflowEdge lax).dump).Perm ((edgesOf spec).map (workflowEdge lax).dump) := by
      rw [hn.edges]
      exact (List.perm_insertionSort _ _).map _
    rw [h.setOf_edges.1, hn.fine.setOf_edges.1]
    show Json.depthItems ((edgesOf normal).map (workflowEdge lax).dump) + 1 ≤ maxJsonDepth ↔
      Json.depthItems ((edgesOf spec).map (workflowEdge lax).dump) + 1 ≤ maxJsonDepth
    rw [depthItems_perm hperm]
  · rw [hn.rest f hf hname hname']

/-! ## Verdicts -/

/-- The report on a specification, of its normal form and its view. -/
def reportOn (lax : Lax) (tools : Tools) (normal : Json) (viewed : WorkflowSpec) (snapshot : Option WorkflowResolvedSnapshot) : Report :=
  let hash := contentHash lax tools.sha256 normal
  let unique := (workflowIssues { content := fun _ => hash, revision := tools.revision } viewed snapshot).eraseDups
  { valid := unique.isEmpty, issues := unique, contentHash := hash, snapshotHash := snapshot.map tools.snapshotHash }

theorem validateWorkflow_resources (h : Fine lax spec) (hresources : resources tools (payload lax spec) = [])
    (snapshot : Option WorkflowResolvedSnapshot) : ∃ read normal viewed, Fine lax read ∧ specForm lax read = specForm lax spec ∧
      IsNormal lax read normal ∧ Views lax read viewed ∧
      validateWorkflow lax tools spec snapshot = some (reportOn lax tools normal viewed snapshot) := by
  obtain ⟨read, hread⟩ := payload_reread h
  obtain ⟨normal, hnormalize, hn⟩ := normalizeWorkflow_isNormal hread.fine
  obtain ⟨viewed, hviews⟩ := exists_views hread.fine
  refine ⟨read, normal, viewed, hread.fine, hread.form, hn, hviews, ?_⟩
  have hparse : (workflowSpec lax).parse (payload lax spec) = some read := hread.parse
  simp only [validateWorkflow, hresources, hparse, hnormalize, hviews.view_eq, rawReferences_nil h, Option.bind_eq_bind,
    Option.bind_some, List.nil_append]
  rfl

theorem workflowIssues_congr {a b : WorkflowSpec} (h : Workflows.normalizeWorkflow a = Workflows.normalizeWorkflow b) (digests : Digests)
    (snapshot : Option WorkflowResolvedSnapshot) : workflowIssues digests a snapshot = workflowIssues digests b snapshot := by
  have hversion : (Workflows.normalizeWorkflow a).specVersion = (Workflows.normalizeWorkflow b).specVersion := by rw [h]
  have hreducers : (Workflows.normalizeWorkflow a).reducers = (Workflows.normalizeWorkflow b).reducers := by rw [h]
  change a.specVersion = b.specVersion at hversion
  change a.reducers = b.reducers at hreducers
  unfold workflowIssues
  rw [h, hversion, hreducers]

/-- Specifications of one form are reported on alike, where neither is too much and both or none are too deep. -/
theorem validateWorkflow_congr {other : Json} (h : Fine lax spec) (ho : Fine lax other) (hform : specForm lax other = specForm lax spec)
    (hfits : Fits tools (payload lax spec)) (hofits : Fits tools (payload lax other))
    (hdepth : (payload lax other).depth ≤ maxJsonDepth ↔ (payload lax spec).depth ≤ maxJsonDepth)
    (snapshot : Option WorkflowResolvedSnapshot) :
    validateWorkflow lax tools other snapshot = validateWorkflow lax tools spec snapshot := by
  have hresources := resources_fits hfits
  have horesources := resources_fits hofits
  by_cases hshallow : (payload lax spec).depth ≤ maxJsonDepth
  · rw [if_pos hshallow] at hresources
    rw [if_pos (hdepth.mpr hshallow)] at horesources
    obtain ⟨read, normal, viewed, hread, hreadForm, hn, hviews, hreport⟩ := validateWorkflow_resources h hresources snapshot
    obtain ⟨read', normal', viewed', hread', hreadForm', hn', hviews', hreport'⟩ := validateWorkflow_resources ho horesources snapshot
    have hdump : (workflowSpec lax).dump normal' = (workflowSpec lax).dump normal := by
      rw [hn'.dump hread', hn.dump hread, hreadForm', hreadForm, hform]
    have hview := view_normalizeWorkflow hread hn hviews
    have hview' := view_normalizeWorkflow hread' hn' hviews'
    rw [view, viewed_eq_dump hread hn] at hview
    rw [view, viewed_eq_dump hread' hn', hdump, hview] at hview'
    rw [hreport, hreport', reportOn, reportOn, contentHash_congr hn.fine.toValid hn'.fine.toValid hdump,
      workflowIssues_congr (Option.some.inj hview').symm]
  · rw [if_neg hshallow] at hresources
    rw [if_neg fun h => hshallow (hdepth.mp h)] at horesources
    simp only [validateWorkflow, hresources, horesources]

/-- A specification in another order is as valid as it is, and its payload as deep. -/
theorem reordered_fine (h : Fine lax spec) {nodes edges : List Json} (hnodes : (nodesOf spec).Perm nodes)
    (hedges : (edgesOf spec).Perm edges) : Fine lax (reordered lax spec nodes edges) ∧
      specForm lax (reordered lax spec nodes edges) = specForm lax spec ∧
      ((payload lax (reordered lax spec nodes edges)).depth ≤ maxJsonDepth ↔ (payload lax spec).depth ≤ maxJsonDepth) := by
  have hfine : Fine lax (reordered lax spec nodes edges) :=
    h.copied hnodes.length_eq.symm (fun node hnode => h.reads (hnodes.mem_iff.mpr hnode)) (hnodes.map _) hedges
  have hform : specForm lax (reordered lax spec nodes edges) = specForm lax spec := by
    refine specForm_congr h (fun f hf hname hname' => by rw [reordered, setOf_changed hf hname hname']) ?_ ?_
    · rw [reordered, nodesOf_copy, defaults_copy]
      exact hnodes.symm.map _
    · rw [reordered, edgesOf_copy]
      exact hedges.symm.map _
  obtain ⟨normal, hnormal, hn⟩ := normalizeWorkflow_isNormal h
  obtain ⟨normal', hnormal', hn'⟩ := normalizeWorkflow_isNormal hfine
  cases hnormal'.symm.trans ((normalizeWorkflow_reordered h hnodes hedges).trans hnormal)
  exact ⟨hfine, hform, (depth_normal hfine hn').symm.trans (depth_normal h hn)⟩

/-- The verdict on a specification is the one on its normal form and on any order of its nodes and
    edges, where neither payload is over the limits on how much there is. -/
theorem validateWorkflow_normal (lax : Lax) (tools : Tools) (spec normal : Json) (snapshot : Option WorkflowResolvedSnapshot)
    (h : (workflowSpec lax).Is spec) (hn : normalizeWorkflow lax spec = some normal) (hfits : Fits tools (payload lax spec)) :
    (Fits tools (payload lax normal) → validateWorkflow lax tools normal snapshot = validateWorkflow lax tools spec snapshot) ∧
      ∀ nodes edges, (nodesOf spec).Perm nodes → (edgesOf spec).Perm edges →
        Fits tools (payload lax (reordered lax spec nodes edges)) →
          validateWorkflow lax tools (reordered lax spec nodes edges) snapshot = validateWorkflow lax tools spec snapshot := by
  obtain ⟨hfine, hnormal⟩ := isNormal_of_normalize h hn
  refine ⟨fun hnfits => ?_, fun nodes edges hnodes hedges hofits => ?_⟩
  · exact validateWorkflow_congr hfine hnormal.fine (hnormal.isCopy.form hfine) hfits hnfits (depth_normal hfine hnormal) snapshot
  · obtain ⟨hother, hform, hdepth⟩ := reordered_fine hfine hnodes hedges
    exact validateWorkflow_congr hfine hother hform hfits hofits hdepth snapshot

mutual

/-- The length of what `json.dumps` writes of a value without floats, whose texts are of ASCII letters, where
    separators have a length of `w`. -/
def sampleLength (w : Nat) : Json → Nat
  | .scalar .null => 4
  | .scalar (.bool b) => if b then 4 else 5
  | .scalar (.int n) => (toString n).length
  | .scalar (.float _) => 0
  | .scalar (.str s) => s.length + 2
  | .list items => 2 + (sampleItems w items - w)
  | .obj members => 2 + (sampleMembers w members - w)

def sampleItems (w : Nat) : List Json → Nat
  | [] => 0
  | j :: items => sampleLength w j + w + sampleItems w items

def sampleMembers (w : Nat) : List (String × Json) → Nat
  | [] => 0
  | (key, j) :: members => key.length + 2 + w + sampleLength w j + w + sampleMembers w members

end

def sampleTools : Tools where
  repr _ := .zero
  dumpsLength := sampleLength 2
  canonicalLength := sampleLength 1
  credential _ := false
  credentialKey key := key == "password"
  str _ := "{}"
  sha256 := sampleDigest
  revision _ := "sha256:revision"
  snapshotHash _ := "sha256:snapshot"

theorem sampleSpec_fits : Fits sampleTools (payload strictLax sampleSpec) := ⟨of_decide_eq_true rfl, of_decide_eq_true rfl⟩

theorem validateWorkflow_normal_sample : ∃ normal, normalizeWorkflow strictLax sampleSpec = some normal ∧
    validateWorkflow strictLax sampleTools normal none = validateWorkflow strictLax sampleTools sampleSpec none := by
  obtain ⟨normal, hnormal⟩ := Option.isSome_iff_exists.mp normalizeWorkflow_sampleSpec
  have hfits : ((normalizeWorkflow strictLax sampleSpec).all fun normal =>
      count (payload strictLax normal) ≤ maxWorkflowBytes ∧ sampleLength 2 (payload strictLax normal) ≤ maxWorkflowBytes) = true := rfl
  rw [hnormal, Option.all_some, decide_eq_true_eq] at hfits
  exact ⟨normal, hnormal, (validateWorkflow_normal strictLax sampleTools sampleSpec normal none sampleSpec_is hnormal
    sampleSpec_fits).1 hfits⟩

end Jarvis.Workflows.Documents
