/-
  Jarvis.Workflows.Grants — the grant a protected node finds when it is called.

  The state has one approval channel. An APPROVAL writes it, a main-graph WORKER that
  completes clears it, and nothing else touches it, so it holds what the last of those left
  (`Holds`). The static rule puts the granting node on every walk to a protected node with
  no other worker after it. It does not ask for the granting node to be the last approval
  on the walk, nor for the protected node itself not to have cleared the grant before it is
  retried. A protected node is refused exactly in these two cases (`overwrites`).
-/
import Jarvis.Workflows.Evidence

namespace Jarvis.Workflows

open Jarvis.Explore (Walk)

variable {spec : WorkflowSpec} {snapshot : WorkflowResolvedSnapshot}

/-- An approved grant of the approval node, as its handler returns it. -/
def granted (node : WorkflowNode) (approval : Option (Dict String Json)) : Bool :=
  match node.config with
  | .approval action => isText approval "decision" "approved" && isText approval "action_type" action.value &&
      isText approval "granted_by" node.id
  | _ => false

/-- An approval the action executes is approved, unless the run is cancelled there. -/
def approves (spec : WorkflowSpec) (r : Run) (action : Action) : Bool :=
  match called spec r action, action with
  | some (node, _), .exec (.handled result cancelled) =>
    node.type != .approval || cancelled ||
      match result with
      | .returns update => granted node update.approval
      | .cancels => true
      | _ => false
  | _, _ => true

/-- The executions since the granting node's last one. -/
def sinceGrant (grant : String) (log : List Execution) : List Execution := log.rtakeWhile fun x => x.node != grant

/-- The handler returned: a completion records a result, a classified failure does not. -/
def Execution.finished (x : Execution) : Bool := x.update.any (·.results.isSome)

/-- Another approval, or a completion of the protected node itself where that clears the grant. -/
def overwrites (spec : WorkflowSpec) (node : WorkflowNode) (x : Execution) : Bool :=
  isType spec .approval x.node ||
    (x.node == node.id && isType spec .worker x.node && x.branch.isNone && x.finished)

/-! ## The channel and the log -/

/-- What the execution left in the approval channel. -/
def Execution.written (x : Execution) : Option (Dict String Json) := x.update.bind (·.approval)

/-- What the executions left in the approval channel. -/
def approvalOf (log : List Execution) : Option (Dict String Json) := log.foldl (fun a x => x.written.or a) none

theorem approvalOf_snoc (log : List Execution) (x : Execution) :
    approvalOf (log ++ [x]) = x.written.or (approvalOf log) := by
  simp [approvalOf]

theorem approvalOf_append (log : List Execution) {tail : List Execution} (h : ∀ x ∈ tail, x.written = none) :
    approvalOf (log ++ tail) = approvalOf log := by
  induction tail using List.reverseRecOn with
  | nil => rw [List.append_nil]
  | append_singleton tail x ih =>
    rw [← List.append_assoc, approvalOf_snoc, h x (by simp), Option.none_or]
    exact ih fun y hy => h y (List.mem_append_left _ hy)

/-- Where some execution of the tail wrote the channel, it holds what one of them wrote. -/
theorem approvalOf_written (log : List Execution) {tail : List Execution} (h : ∃ x ∈ tail, x.written ≠ none) :
    ∃ x ∈ tail, x.written ≠ none ∧ approvalOf (log ++ tail) = x.written := by
  induction tail using List.reverseRecOn with
  | nil => obtain ⟨x, hx, -⟩ := h; cases hx
  | append_singleton tail x ih =>
    rw [← List.append_assoc, approvalOf_snoc]
    cases hx : x.written with
    | some a => exact ⟨x, by simp, by simp [hx], by simp [hx]⟩
    | none =>
      obtain ⟨y, hy, hyw⟩ := h
      rcases List.mem_append.mp hy with hy | hy
      · obtain ⟨z, hz, hzw, heq⟩ := ih ⟨y, hy, hyw⟩
        exact ⟨z, List.mem_append_left _ hz, hzw, by rw [Option.none_or]; exact heq⟩
      · rw [List.mem_singleton.mp hy, hx] at hyw
        exact absurd rfl hyw

/-- What each execution of an approved run left in the channel. -/
structure Recorded (spec : WorkflowSpec) (x : Execution) : Prop where
  approval : ∀ node, spec.node? x.node = some node → node.type = .approval → granted node x.written = true
  worker : isType spec .worker x.node = true → x.branch = none → x.written = if x.finished then some .empty else none
  other : isType spec .approval x.node = false → isType spec .worker x.node = false ∨ x.branch ≠ none → x.written = none

/-- The channel of the main state holds what the log says. -/
structure Told (spec : WorkflowSpec) (log : List Execution) (state : WorkflowStateV1) : Prop where
  main : state.childIdentity = none
  approval : state.approval = approvalOf log
  recorded : ∀ x ∈ log, Recorded spec x

/-- `Told`, while the run goes on. -/
def Holds (spec : WorkflowSpec) (r : Run) : Prop :=
  match r.place with
  | .ended => True
  | .raised _ => True
  | _ => Told spec r.log r.state

/-- A completion records a result, and a main-graph worker's clears the channel. -/
theorem worker_written {node : WorkflowNode} (hw : node.type = .worker) {state update : WorkflowStateV1}
    {attempt : Attempt} (hb : inBranch state = false) (h : wrap spec node state attempt = .ok update)
    (hc : update.cancelled ≠ some true) : update.approval = if update.results.isSome then some .empty else none := by
  rcases wrap_ok h with rfl | ⟨_, cls, -, -, rfl⟩ | ⟨result, -, he⟩
  · exact absurd rfl hc
  · rfl
  · obtain ⟨-, raw, hcomplete, -⟩ := execute_finished he
    have hresults : update.results.isSome = true := by
      unfold complete at hcomplete
      obtain ⟨_, -, hcompleted⟩ := bind_eq_ok.mp hcomplete
      unfold completed at hcompleted
      dsimp only at hcompleted
      split at hcompleted
      · cases hcompleted
      · cases hcompleted
        rfl
    rw [hresults, if_pos rfl]
    exact ((finished_writes he).2.2 hw hb).2

/-- An approval that ends uncancelled left what its handler returned. -/
theorem approval_written {node : WorkflowNode} (ha : node.type = .approval) {state update : WorkflowStateV1}
    {result : HandlerResult} (h : wrap spec node state (.handled result false) = .ok update)
    (hc : update.cancelled ≠ some true) (hresult : ∃ raw, result = .returns raw) :
    ∃ raw, result = .returns raw ∧ update.approval = raw.approval := by
  obtain ⟨raw, rfl⟩ := hresult
  refine ⟨raw, rfl, ?_⟩
  rcases wrap_ok h with rfl | ⟨_, cls, ha', he, -⟩ | ⟨_, ha', he⟩
  · exact absurd rfl hc
  · cases ha'
    unfold execute at he
    split at he
    · cases he
    · rw [ha] at he
      simp only [nodeDefinitions, if_true] at he
      unfold Executed.of at he
      split at he
      all_goals cases he
  · cases ha'
    obtain ⟨-, raw', hcomplete, ⟨-, hr, -⟩ | ⟨hi, -⟩⟩ := execute_finished he
    · cases hr
      have happ := (complete_ok hcomplete).2.1
      unfold resets at happ
      rw [ha] at happ
      exact happ
    · rw [ha] at hi
      cases hi

theorem Recorded.main {node : WorkflowNode} {r : Run} {id : String} (hplace : r.place = .node id)
    (hnode : spec.node? id = some node) {update next : WorkflowStateV1} {attempt : Attempt}
    (left : Left spec snapshot node r.state attempt update next) (hc : next.cancelled ≠ some true)
    (hmain : r.state.childIdentity = none) (ha : approves spec r (.exec attempt) = true) :
    Recorded spec ⟨node.id, none, some update⟩ := by
  obtain ⟨hn, rfl⟩ := WorkflowSpec.node?_eq_some.mp hnode
  obtain ⟨-, -, result, rfl⟩ := left.executed hc none
  have hcan : update.cancelled ≠ some true := by
    intro h
    rw [left.cancelled, h] at hc
    exact hc rfl
  have hwrites := wrap_writes left.wrapped
  refine ⟨fun node' hnode' htype => ?_, fun hworker _ => ?_, fun happroval hother => ?_⟩
  · rw [hnode] at hnode'
    cases hnode'
    have hcalled : called spec r (.exec (.handled result false)) = some (node, r.state) := by
      simp [called, hplace, hnode]
    unfold approves at ha
    rw [hcalled] at ha
    simp only [htype, bne_self_eq_false, Bool.false_or] at ha
    cases result with
    | returns raw =>
      obtain ⟨_, hr, happ⟩ := approval_written htype left.wrapped hcan ⟨raw, rfl⟩
      cases hr
      simp only [Execution.written, Option.bind_some, happ]
      exact ha
    | cancels =>
      -- the node observed a cancellation, so the update is the cancellation's
      rcases wrap_ok left.wrapped with rfl | ⟨_, cls, h, he, -⟩ | ⟨_, h, he⟩
      · exact absurd rfl hcan
      all_goals
        cases h
        unfold execute at he
        split at he
        · cases he
        · rw [htype] at he
          cases he
    | raises cls => cases ha
    | breaks => cases ha
  · have htype : node.type = .worker := by
      obtain ⟨_, h, ht⟩ := isType_iff.mp hworker
      rw [hnode] at h
      cases h
      exact ht
    exact worker_written htype (by simp [inBranch, hmain]) left.wrapped hcan
  · cases hu : update.approval with
    | none => simp [Execution.written, hu]
    | some v =>
      rcases (hwrites.approval v hu).2 with ht | ⟨ht, -⟩
      · rw [isType_iff.mpr ⟨node, hnode, ht⟩] at happroval
        cases happroval
      · rcases hother with hother | hother
        · rw [isType_iff.mpr ⟨node, hnode, ht⟩] at hother
          cases hother
        · exact absurd rfl hother

/-- What executing a node of the main graph keeps. -/
theorem Told.left {node : WorkflowNode} {r : Run} {id : String} (hplace : r.place = .node id)
    (hnode : spec.node? id = some node) {update next : WorkflowStateV1} {attempt : Attempt}
    (left : Left spec snapshot node r.state attempt update next) (hc : next.cancelled ≠ some true)
    (h : Told spec r.log r.state) (ha : approves spec r (.exec attempt) = true) :
    Told spec (r.log ++ executions spec node r.state none attempt) next := by
  have hrecorded := Recorded.main hplace hnode left hc h.main ha
  rw [(left.executed hc none).2.1]
  refine ⟨left.childIdentity.trans h.main, ?_, fun x hx => ?_⟩
  · rw [left.approval, approvalOf_snoc, h.approval]
    rfl
  · rcases List.mem_append.mp hx with hx | hx
    · exact h.recorded x hx
    · rw [List.mem_singleton.mp hx]
      exact hrecorded

/-- A child graph does not write the channel. -/
theorem branch_written {node : WorkflowNode} {state : WorkflowStateV1} (hb : inBranch state = true)
    {branch : Option String} {attempt : Attempt} {x : Execution} (hx : x ∈ executions spec node state branch attempt) :
    x.written = none := by
  cases attempt with
  | cancelledBefore => cases hx
  | handled result cancelled =>
    simp only [executions] at hx
    split at hx
    · cases hx
    · rw [List.mem_singleton.mp hx]
      cases hw : wrap spec node state (.handled result cancelled) with
      | error e => rfl
      | ok update =>
        cases hu : update.approval with
        | none => simp [Execution.written, Except.toOption, hu]
        | some v =>
          have := ((wrap_writes hw).approval v hu).1
          rw [hb] at this
          cases this

theorem BranchMove.written {joinId : String} {b b' : Branch} {action : Action} {new : List Execution} (hb : inBranch b.state = true)
    (hnested : ∀ id node, b.place = .node id → spec.node? id = some node → node.type ≠ .fanout)
    (hm : BranchMove spec snapshot joinId b action new b') : ∀ x ∈ new, x.written = none := by
  cases hm with
  | finish => exact fun x hx => branch_written hb hx
  | route => exact fun x hx => branch_written hb hx
  | nested hplace hnode hf => exact absurd hf (hnested _ _ hplace hnode)
  | complete => simp

theorem Holds.move (h : Checked spec snapshot) {r r' : Run} {action : Action} (hf : Followed spec r)
    (hh : Holds spec r) (ha : approves spec r action = true) (hm : Move spec snapshot r action r') : Holds spec r' := by
  unfold Holds at hh
  cases hm with
  | start hplace =>
    rw [hplace] at hh
    exact hh
  | finish => trivial
  | route hplace hnode hfan left hc =>
    rw [hplace] at hh
    exact Told.left hplace hnode left hc hh ha
  | fanout hplace hnode hconfig left hc =>
    rw [hplace] at hh
    exact Told.left hplace hnode left hc hh ha
  | @branch _ fanoutId joinId branches b b' new hplace hb hmove =>
    rw [hplace] at hh
    have ht := hf.traced
    unfold Traced at ht
    rw [hplace] at ht
    obtain ⟨w, log, tail, -, hspread⟩ := ht
    have hshared := hf.shared
    unfold Shared Run.branches at hshared
    rw [hplace] at hshared
    have hr := hspread.checked.regions b.child (List.mem_map.mpr ⟨b, hb, rfl⟩)
    obtain ⟨-, -, hnew⟩ := (hspread.branches b hb).move h hr hmove
    have hwritten := hmove.written (hshared b hb).2.2 fun id node hbplace hnode => by
      obtain ⟨hn, rfl⟩ := WorkflowSpec.node?_eq_some.mp hnode
      obtain ⟨l, -, -, hwalk⟩ := hspread.branches b hb
      rw [hbplace] at hwalk
      exact (hr.node_type hwalk.1 hn).1
    refine ⟨hh.main, hh.approval.trans (approvalOf_append r.log hwritten).symm, fun x hx => ?_⟩
    rcases List.mem_append.mp hx with hx | hx
    · exact hh.recorded x hx
    · have hlocal := (hnew x hx).1
      refine ⟨fun node hnode htype => ?_, fun _ hb => ?_, fun _ _ => hwritten x hx⟩
      · have := hlocal.2
        rw [isType_iff.mpr ⟨node, hnode, htype⟩] at this
        cases this
      · rw [(hnew x hx).2] at hb
        cases hb
  | join hplace hended hmerged =>
    rw [hplace] at hh
    obtain ⟨-, happ, hident⟩ := mergeBranches_keeps hmerged
    exact ⟨hident.trans hh.main, happ.trans hh.approval, hh.recorded⟩
  | raise => trivial

/-! ## The walk since the grant -/

theorem sinceGrant_append {grant : String} (log : List Execution) {tail : List Execution}
    (h : ∀ x ∈ tail, x.node ≠ grant) : sinceGrant grant (log ++ tail) = sinceGrant grant log ++ tail :=
  rtakeWhile_append log fun x hx => by simpa using h x hx

theorem rtakeWhile_ne_append {grant : String} (w : List String) {l : List String} (h : grant ∉ l) :
    (w ++ l).rtakeWhile (· != grant) = w.rtakeWhile (· != grant) ++ l :=
  rtakeWhile_append w fun id hid => by
    rw [bne_iff_ne]
    rintro rfl
    exact h hid

theorem Local.ne_grant {id grant : String} (h : Local spec id) (hg : isType spec .approval grant = true) : id ≠ grant := by
  rintro rfl
  rw [h.2] at hg
  cases hg

/-- A granting node on the walk was executed, and the main-graph executions since are on the walk
    after it. -/
theorem Trace.granted {grant : String} (hg : isType spec .approval grant = true) {w : List String} {log : List Execution}
    (h : Trace spec w log) : grant ∈ w →
    (∃ x ∈ log, x.node = grant) ∧
      ∀ x ∈ sinceGrant grant log, x.branch = none → x.node ∈ w.rtakeWhile (· != grant) := by
  induction h with
  | nil => intro h; cases h
  | @exec w log x _ hx ih =>
    intro hmem
    by_cases hxg : x.node = grant
    · refine ⟨⟨x, by simp, hxg⟩, ?_⟩
      have hnil : sinceGrant grant (log ++ [x]) = [] := by simp [sinceGrant, hxg]
      rw [hnil]
      simp
    · have hw : grant ∈ w := (List.mem_append.mp hmem).resolve_right (by simpa using Ne.symm hxg)
      obtain ⟨⟨y, hy, hyg⟩, hsince⟩ := ih hw
      refine ⟨⟨y, List.mem_append_left _ hy, hyg⟩, fun z hz hzb => ?_⟩
      rw [sinceGrant_append log (by simpa using hxg)] at hz
      rw [rtakeWhile_ne_append w (by simpa using Ne.symm hxg)]
      rcases List.mem_append.mp hz with hz | hz
      · exact List.mem_append_left _ (hsince z hz hzb)
      · rw [List.mem_singleton.mp hz]
        exact List.mem_append_right _ List.mem_cons_self
  | @region w l log tail _ hl htail hworker ih =>
    intro hmem
    have hgl : grant ∉ l := fun h => (hl grant h).ne_grant hg rfl
    obtain ⟨⟨y, hy, hyg⟩, hsince⟩ := ih ((List.mem_append.mp hmem).resolve_right hgl)
    refine ⟨⟨y, List.mem_append_left _ hy, hyg⟩, fun z hz hzb => ?_⟩
    rw [sinceGrant_append log fun x hx => (htail x hx).2.ne_grant hg] at hz
    rw [rtakeWhile_ne_append w hgl]
    rcases List.mem_append.mp hz with hz | hz
    · exact List.mem_append_left _ (hsince z hz hzb)
    · exact absurd hzb (htail z hz).1

/-- The log at its granting node's last execution. -/
theorem split_since {grant : String} {log : List Execution} (h : ∃ x ∈ log, x.node = grant) :
    ∃ before x, log = before ++ [x] ++ sinceGrant grant log ∧ x.node = grant := by
  induction log using List.reverseRecOn with
  | nil => obtain ⟨x, hx, -⟩ := h; cases hx
  | append_singleton log y ih =>
    by_cases hy : y.node = grant
    · exact ⟨log, y, by simp [sinceGrant, hy], hy⟩
    · obtain ⟨x, hx, hxg⟩ := h
      have hxl : x ∈ log := (List.mem_append.mp hx).resolve_right fun hm => hy (List.mem_singleton.mp hm ▸ hxg)
      obtain ⟨before, z, hlog, hz⟩ := ih ⟨x, hxl, hxg⟩
      refine ⟨before, z, ?_, hz⟩
      rw [sinceGrant_append log (by simpa using hy), ← List.append_assoc, ← hlog]

/-! ## The guard -/

theorem guard_protected {node : WorkflowNode} {state : WorkflowStateV1} {policy : ApprovalPolicy}
    (hp : (effectivePolicy spec node).approval = some policy) (hg : policy.grantFrom.isSome = true) :
    guard spec node state = some protectedMessage ↔ grantMatches policy state = false := by
  unfold guard
  simp only [hp, Option.any_some, hg, Bool.true_and]
  constructor
  · intro h
    by_contra hm
    rw [Bool.not_eq_false] at hm
    simp only [hm, Bool.not_true, Bool.false_eq_true, if_false] at h
    split at h
    · exact absurd (Option.some.inj h) (by decide)
    · split at h
      · exact absurd (Option.some.inj h) (by decide)
      · split at h
        · exact absurd (Option.some.inj h) (by decide)
        · cases h
  · intro hm
    simp [hm]

/-- What the validator has checked of a protected node and its granting node. -/
structure Guarded (spec : WorkflowSpec) (node : WorkflowNode) (grant : String) (policy : ApprovalPolicy)
    (action : ActionType) (granting : WorkflowNode) : Prop where
  effective : (effectivePolicy spec node).approval = some policy
  grantFrom : policy.grantFrom = some grant
  required : policy.requiredGrantFrom = some grant
  actionType : policy.actionType = some action
  node? : spec.node? grant = some granting
  config : granting.config = .approval action
  ne : node.id ≠ grant
  fresh : GrantFresh spec node grant

theorem Checked.guardedBy (h : Checked spec snapshot) {node : WorkflowNode} (hn : node ∈ spec.nodes) {grant : String}
    (hg : grantOf spec node = some grant) :
    ∃ policy action granting, Guarded spec node grant policy action granting := by
  obtain ⟨policy, hpolicy, hfrom⟩ := Option.bind_eq_some_iff.mp hg
  have hrequired : policy.requiredGrantFrom = some grant := by
    unfold ApprovalPolicy.grantFrom at hfrom
    obtain ⟨id, hid, hif⟩ := Option.bind_eq_some_iff.mp hfrom
    split at hif
    · cases hif
    · cases hif
      exact hid
  have hissues := h.policy
  unfold policyIssues at hissues
  simp only [List.append_eq_nil_iff, List.flatMap_eq_nil_iff] at hissues
  have hnode := hissues.1 node hn
  unfold nodePolicyIssues at hnode
  simp only [List.append_eq_nil_iff] at hnode
  have happroval := hnode.1.2
  unfold approvalIssues at happroval
  simp only [List.append_eq_nil_iff, check_eq_nil, hpolicy, Option.any_some] at happroval
  have hbad := happroval.2
  unfold badApproval at hbad
  rw [hfrom, Option.bind_some] at hbad
  split at hbad
  · rename_i action granting haction hgranting
    simp only [Bool.or_eq_false_iff, bne_eq_false_iff_eq] at hbad
    have hne : node.id ≠ grant := by
      rintro rfl
      rw [WorkflowSpec.node?_of_mem hn] at hgranting
      cases hgranting
      simp [WorkflowNode.type, hbad.2, WorkflowNodeType.action] at haction
    have hreach : ∃ w, Walk spec.adjacency spec.entrypoint w node.id := by
      have hgraph := h.nodeGraph hn
      unfold nodeGraphIssues at hgraph
      simp only [List.append_eq_nil_iff, check_eq_nil, decide_eq_false_iff_not, Decidable.not_not] at hgraph
      obtain ⟨w, hw, -⟩ := mem_reachable_edges.mp hgraph.1.1
      exact ⟨w, hw⟩
    have hclean : grantIssues spec node = [] := by
      refine grantsClean_iff.mp (fun issue hi => ?_) node hn
      rw [h.guarded] at hi
      cases hi
    exact ⟨policy, action, granting, hpolicy, hfrom, hrequired, hbad.1, hgranting, hbad.2, hne,
      (grantIssues_eq_nil hg hne hreach).mp hclean⟩
  · cases hbad

theorem isText_inj {channel : Option (Dict String Json)} {key a b : String} (ha : isText channel key a = true)
    (hb : isText channel key b = true) : a = b := by
  unfold isText at ha hb
  split at ha
  · rename_i s hs
    simp only [hs, beq_iff_eq] at ha hb
    exact ha.symm.trans hb
  · cases ha

namespace Guarded

variable {node granting : WorkflowNode} {grant : String} {policy : ApprovalPolicy} {action : ActionType}

theorem isApproval (h : Guarded spec node grant policy action granting) : isType spec .approval grant = true :=
  isType_iff.mpr ⟨granting, h.node?, by simp [WorkflowNode.type, h.config]⟩

theorem grantMatches_eq (h : Guarded spec node grant policy action granting) (state : WorkflowStateV1) :
    grantMatches policy state = granted granting state.approval := by
  have hid := (WorkflowSpec.node?_eq_some.mp h.node?).2
  simp [grantMatches, granted, h.actionType, h.required, h.config, hid]

/-- On a log whose main-graph workers since the grant are the node itself, the channel fails the
    guard exactly when the node or another approval has written it since. -/
theorem matches_iff (h : Guarded spec node grant policy action granting) {log : List Execution}
    (hrecorded : ∀ x ∈ log, Recorded spec x) (hexec : ∃ x ∈ log, x.node = grant)
    (hworkers : ∀ x ∈ sinceGrant grant log, x.branch = none → isType spec .worker x.node = true → x.node = node.id) :
    granted granting (approvalOf log) = true ↔ ∀ x ∈ sinceGrant grant log, overwrites spec node x = false := by
  obtain ⟨before, last, hlog, hlast⟩ := split_since hexec
  have hsub : ∀ x ∈ sinceGrant grant log, x ∈ log := fun x hx => by
    rw [hlog]
    exact List.mem_append_right _ hx
  have hid := (WorkflowSpec.node?_eq_some.mp h.node?).2
  constructor
  · intro hgranted x hx
    by_contra hover
    rw [Bool.not_eq_false] at hover
    -- something was written since, so the channel holds one of those writes
    have hwrote : x.written ≠ none := by
      unfold overwrites at hover
      rw [Bool.or_eq_true] at hover
      rcases hover with happ | hself
      · obtain ⟨other, hother, htype⟩ := isType_iff.mp happ
        have hw := (hrecorded x (hsub x hx)).approval other hother htype
        intro hnone
        rw [hnone] at hw
        unfold granted at hw
        split at hw
        all_goals cases hw
      · simp only [Bool.and_eq_true, Option.isNone_iff_eq_none] at hself
        rw [(hrecorded x (hsub x hx)).worker hself.1.1.2 hself.1.2, hself.2]
        simp
    obtain ⟨z, hz, hzw, hchannel⟩ := approvalOf_written (before ++ [last]) ⟨x, hx, hwrote⟩
    rw [← hlog] at hchannel
    rw [hchannel] at hgranted
    have hzne : z.node ≠ grant := by
      have := List.mem_rtakeWhile_imp hz
      simpa using this
    have hzr := hrecorded z (hsub z hz)
    cases happ : isType spec .approval z.node with
    | true =>
      obtain ⟨other, hother, htype⟩ := isType_iff.mp happ
      have hw := hzr.approval other hother htype
      have hgot : isText z.written "granted_by" other.id = true := by
        unfold granted at hw
        split at hw
        · simp only [Bool.and_eq_true] at hw
          exact hw.2
        · cases hw
      have hwant : isText z.written "granted_by" granting.id = true := by
        unfold granted at hgranted
        rw [h.config] at hgranted
        simp only [Bool.and_eq_true] at hgranted
        exact hgranted.2
      have hsame := isText_inj hgot hwant
      rw [(WorkflowSpec.node?_eq_some.mp hother).2, hid] at hsame
      exact hzne hsame
    | false =>
      by_cases hworker : isType spec .worker z.node = true ∧ z.branch = none
      · rw [hzr.worker hworker.1 hworker.2] at hgranted hzw
        split at hgranted
        · simp [granted, h.config, isText, member, Dict.get?, Dict.empty] at hgranted
        · rename_i hfin
          rw [if_neg hfin] at hzw
          exact hzw rfl
      · refine hzw (hzr.other happ ?_)
        rw [not_and_or] at hworker
        simpa using hworker
  · intro hkept
    have hnone : ∀ x ∈ sinceGrant grant log, x.written = none := by
      intro x hx
      have hx' := hkept x hx
      unfold overwrites at hx'
      rw [Bool.or_eq_false_iff] at hx'
      have hrec := hrecorded x (hsub x hx)
      by_cases hworker : isType spec .worker x.node = true ∧ x.branch = none
      · have hself := hworkers x hx hworker.2 hworker.1
        have hfin : x.finished = false := by
          simpa [hself, hself ▸ hworker.1, hworker.2] using hx'.2
        rw [hrec.worker hworker.1 hworker.2, hfin]
        rfl
      · refine hrec.other hx'.1 ?_
        rw [not_and_or] at hworker
        simpa using hworker
    have hlastmem : last ∈ log := by
      rw [hlog]
      simp
    have hgrant := (hrecorded last hlastmem).approval granting (hlast ▸ h.node?)
      (by simp [WorkflowNode.type, h.config])
    rw [hlog, approvalOf_append _ hnone, approvalOf_snoc]
    cases hw : last.written with
    | none =>
      rw [hw] at hgrant
      simp [granted, h.config, isText, member, Dict.get?, Dict.empty] at hgrant
    | some a =>
      rw [hw] at hgrant
      exact hgrant

/-- What a walk to the node says of the executions since its grant. -/
theorem since_trace (h : Guarded spec node grant policy action granting) {w l : List String} {log tail : List Execution}
    (hwalk : Walk spec.adjacency spec.entrypoint (w ++ l) node.id) (htrace : Trace spec w log)
    (hl : ∀ id ∈ l, Local spec id) (htail : ∀ x ∈ tail, x.branch ≠ none ∧ Local spec x.node) :
    (∃ x ∈ log ++ tail, x.node = grant) ∧
      ∀ x ∈ sinceGrant grant (log ++ tail), x.branch = none → isType spec .worker x.node = true → x.node = node.id := by
  obtain ⟨hmem, hworkers⟩ := h.fresh (w ++ l) hwalk
  have hgl : grant ∉ l := fun hin => (hl grant hin).ne_grant h.isApproval rfl
  obtain ⟨⟨x, hx, hxg⟩, hsince⟩ := htrace.granted h.isApproval ((List.mem_append.mp hmem).resolve_right hgl)
  refine ⟨⟨x, List.mem_append_left _ hx, hxg⟩, fun y hy hyb hyw => ?_⟩
  rw [sinceGrant_append log fun x hx => (htail x hx).2.ne_grant h.isApproval] at hy
  rcases List.mem_append.mp hy with hy | hy
  · refine hworkers y.node ?_ hyw
    rw [rtakeWhile_ne_append w hgl]
    exact List.mem_append_left _ (hsince y hy hyb)
  · exact absurd hyb (htail y hy).1

end Guarded

/-- In a run of a validated workflow in which every approval that is executed is approved, a
    protected node that is called passes the grant guard exactly when, since its granting node was
    last executed, no other approval was and the node itself has not completed as a worker of the
    main graph. -/
theorem grant_kept_iff {digests : Digests} {spec : WorkflowSpec} {snapshot : WorkflowResolvedSnapshot}
    (h : (validateWorkflow digests spec (some snapshot)).1 = true) {r : Run}
    (hr : Steps.ReachIf (step (normalizeWorkflow spec) snapshot)
      (fun r action => approves (normalizeWorkflow spec) r action = true) Run.init r)
    {action : Action} {node : WorkflowNode} {state : WorkflowStateV1}
    (hcalled : called (normalizeWorkflow spec) r action = some (node, state)) {grant : String}
    (hgrant : grantOf (normalizeWorkflow spec) node = some grant) :
    guard (normalizeWorkflow spec) node state ≠ some protectedMessage ↔
      ∀ x ∈ sinceGrant grant r.log, overwrites (normalizeWorkflow spec) node x = false := by
  have hc := checked_of_valid h
  have hf := hc.followed hr.reach
  have hh : Holds (normalizeWorkflow spec) r := hr.invariant_with (Followed _) (Holds _)
    (fun _ hr => hc.followed hr.reach) ⟨rfl, rfl, fun _ hx => nomatch hx⟩
    fun _ _ _ hf hh ha hstep => hh.move hc hf ha (step_move hstep)
  have htraced := hf.traced
  have hshared := hf.shared
  unfold Traced at htraced
  unfold Holds at hh
  unfold Shared Run.branches at hshared
  rcases called_cases hcalled with ⟨id, hplace, hnode, rfl⟩ |
    ⟨fanoutId, joinId, branches, b, id, hplace, hb, hbplace, hnode, rfl⟩
  all_goals
    rw [hplace] at htraced hh hshared
    obtain ⟨hn, rfl⟩ := WorkflowSpec.node?_eq_some.mp hnode
    obtain ⟨policy, action, granting, hguarded⟩ := hc.guardedBy hn hgrant
    rw [ne_eq, guard_protected hguarded.effective (by simp [hguarded.grantFrom]), Bool.not_eq_false,
      hguarded.grantMatches_eq]
  · obtain ⟨w, hw, htrace⟩ := htraced
    obtain ⟨hexec, hworkers⟩ := hguarded.since_trace (l := []) (by simpa using hw) htrace (by simp)
      (fun x (hx : x ∈ ([] : List Execution)) => nomatch hx)
    rw [List.append_nil] at hexec hworkers
    rw [hh.approval]
    exact hguarded.matches_iff hh.recorded hexec hworkers
  · obtain ⟨w, log, tail, hlog, hspread⟩ := htraced
    obtain ⟨l, hsub, -, hwalk⟩ := hspread.branches b hb
    rw [hbplace] at hwalk
    have hregion := hspread.checked.regions b.child (List.mem_map.mpr ⟨b, hb, rfl⟩)
    obtain ⟨edge, hin, hsource, htarget, -⟩ := hspread.checked.edges b.child (List.mem_map.mpr ⟨b, hb, rfl⟩)
    have hstep : b.child ∈ (normalizeWorkflow spec).adjacency fanoutId :=
      List.mem_map.mpr ⟨edge, List.mem_filter.mpr ⟨hin, decide_eq_true hsource⟩, htarget⟩
    obtain ⟨hexec, hworkers⟩ := hguarded.since_trace ((hspread.walk.snoc hstep).trans hwalk.2) hspread.trace
      (fun u hu => hregion.isLocal (hsub u hu)) fun x hx => by
        obtain ⟨hlocal, other, -, hxb⟩ := hspread.executed x hx
        exact ⟨by simp [hxb], hlocal⟩
    rw [← hlog] at hexec hworkers
    rw [(hshared b hb).2.1, hh.approval]
    exact hguarded.matches_iff hh.recorded hexec hworkers

/-- `retriedBuild` behind an approval of the build. -/
def approvedBuild : WorkflowSpec where
  entrypoint := "approve"
  defaults := sampleDefaults
  nodes := [{ id := "approve", config := .approval .workerExecute },
    { id := "build", config := .worker, policy := { approval := some ⟨some "approve", some .workerExecute⟩ } },
    { id := "check", config := .verify },
    { id := "review", config := .reviewer, policy := { modelRouteRef := some 4 } },
    { id := "done", config := .finalize .derive }, { id := "stop", config := .finalize .failed }]
  edges := [
    { id := "approved", source := "approve", target := "build", kind := .always },
    { id := "again", source := "build", target := "build", kind := .retry, retryClass := some .infrastructureTimeout },
    { id := "built", source := "build", target := "check", kind := .onResult, when := some noFailure, priority := 1 },
    { id := "given-up", source := "build", target := "stop", kind := .always, fallback := true, priority := 2 },
    { id := "checked", source := "check", target := "review", kind := .always },
    { id := "reviewed", source := "review", target := "done", kind := .always }]
  node_ids := by decide
  edge_ids := by decide
  entrypoint_mem := by decide
  endpoints_mem := by decide

/-- The approval of the build is approved. -/
def approve : Attempt := .handled (.returns { approval := some (Dict.ofList
  [("decision", .str "approved"), ("action_type", .str "worker.execute"), ("granted_by", .str "approve")]) }) false

/-- The handler returns and reports a timeout. -/
def reportsTimeout : Attempt := .handled (.returns { outcome := some (Dict.ofList
  [("status", .str "failed"), ("failure_class", .str "infrastructure.timeout")]) }) false

theorem grant_kept_iff_approvedBuild :
    ∃ r, Steps.run (step (normalizeWorkflow approvedBuild) sampleSnapshot) Run.init [.start, .exec approve] = some r ∧
      ∃ node state, called (normalizeWorkflow approvedBuild) r (.exec reportsTimeout) = some (node, state) ∧
        guard (normalizeWorkflow approvedBuild) node state ≠ some protectedMessage := by
  have hv : (validateWorkflow sampleDigests approvedBuild (some sampleSnapshot)).1 = true := by decide
  have hrun : (Steps.runIf (step (normalizeWorkflow approvedBuild) sampleSnapshot)
      (fun r action => approves (normalizeWorkflow approvedBuild) r action = true) Run.init
      [.start, .exec approve]).any (fun r =>
        ((called (normalizeWorkflow approvedBuild) r (.exec reportsTimeout)).any fun call =>
          grantOf (normalizeWorkflow approvedBuild) call.1 == some "approve" &&
            (sinceGrant "approve" r.log).all fun x =>
              !overwrites (normalizeWorkflow approvedBuild) call.1 x)) = true := by decide
  obtain ⟨r, hr, hat⟩ := (Option.any_eq_true _ _).mp hrun
  obtain ⟨⟨node, state⟩, hcalled, hat⟩ := (Option.any_eq_true _ _).mp hat
  simp only [Bool.and_eq_true, beq_iff_eq, List.all_eq_true, Bool.not_eq_eq_eq_not, Bool.not_true] at hat
  exact ⟨r, Steps.run_of_runIf hr, node, state, hcalled,
    (grant_kept_iff hv (Steps.runIf_reachIf _ hr) hcalled hat.1).mpr hat.2⟩

/-- The build completes with a timeout it reports itself, which clears the grant, and its retry is
    refused. -/
theorem retried_worker_refused :
    (validateWorkflow sampleDigests approvedBuild (some sampleSnapshot)).1 = true ∧
    ∃ r, Steps.ReachIf (step (normalizeWorkflow approvedBuild) sampleSnapshot)
        (fun r action => approves (normalizeWorkflow approvedBuild) r action = true) Run.init r ∧
      ∃ node state, called (normalizeWorkflow approvedBuild) r (.exec reportsTimeout) = some (node, state) ∧
        guard (normalizeWorkflow approvedBuild) node state = some protectedMessage := by
  refine ⟨by decide, ?_⟩
  have hrun : (Steps.runIf (step (normalizeWorkflow approvedBuild) sampleSnapshot)
      (fun r action => approves (normalizeWorkflow approvedBuild) r action = true) Run.init
      [.start, .exec approve, .exec reportsTimeout]).any (fun r =>
        ((called (normalizeWorkflow approvedBuild) r (.exec reportsTimeout)).any fun call =>
          guard (normalizeWorkflow approvedBuild) call.1 call.2 == some protectedMessage)) = true := by decide
  obtain ⟨r, hr, hat⟩ := (Option.any_eq_true _ _).mp hrun
  obtain ⟨⟨node, state⟩, hcalled, hat⟩ := (Option.any_eq_true _ _).mp hat
  exact ⟨r, Steps.runIf_reachIf _ hr, node, state, hcalled, by simpa using hat⟩

end Jarvis.Workflows
