/-
  Jarvis.Workflows.Evidence — the verification a review or a publication runs on.

  The static rule makes every walk to a reviewer or a publication pass a VERIFY after its
  last WORKER, and a run follows a walk (`Trace`), so what was executed has the same shape.
  What the state says is another matter: a VERIFY that fails with a class, or returns
  without the channel, leaves the result of an earlier VERIFY standing, and a publication
  in a child graph does not see the workers of its siblings. Those two apart
  (`keepsEvidence`), a passed verification in the state is the last VERIFY's own.
-/
import Jarvis.Workflows.Trace

namespace Jarvis.Workflows

open Jarvis.Explore (Walk)

variable {spec : WorkflowSpec} {snapshot : WorkflowResolvedSnapshot}

/-- The most recent VERIFY execution. -/
def lastVerify (spec : WorkflowSpec) (log : List Execution) : Option Execution :=
  log.reverse.find? fun x => isType spec .verify x.node

/-- The executions after it. -/
def sinceVerify (spec : WorkflowSpec) (log : List Execution) : List Execution :=
  log.rtakeWhile fun x => !isType spec .verify x.node

/-- The state's verification has passed, the most recent VERIFY wrote it, and no WORKER has been
    executed since. -/
def Fresh (spec : WorkflowSpec) (log : List Execution) (state : WorkflowStateV1) : Prop :=
  isTrue state.verification "passed" = true ∧
  (∃ x, lastVerify spec log = some x ∧ x.update.bind (·.verification) = state.verification) ∧
  ∀ x ∈ sinceVerify spec log, isType spec .worker x.node = false

/-- The executions of the children of the fan-out that is running. -/
def sinceFanout (log : List Execution) : List Execution := log.rtakeWhile (·.branch.isSome)

/-- The handler ends, uncancelled, without a verification. -/
def silent : Action → Bool
  | .exec (.handled (.raises _) false) => true
  | .exec (.handled (.returns update) false) => update.verification.isNone
  | _ => false

/-- No VERIFY ends silently over a passed verification, and no child publishes after a worker of a
    child has been executed beside it. -/
def keepsEvidence (spec : WorkflowSpec) (r : Run) (action : Action) : Bool :=
  match called spec r action with
  | some (node, state) =>
    match node.type with
    | .verify => !isTrue state.verification "passed" || !silent action
    | .githubPublish => (sinceFanout r.log).all fun x => !isType spec .worker x.node
    | _ => true
  | none => true

/-! ## The log -/

theorem rtakeWhile_append {α : Type} {p : α → Bool} (l : List α) {tail : List α} (h : ∀ x ∈ tail, p x = true) :
    (l ++ tail).rtakeWhile p = l.rtakeWhile p ++ tail := by
  unfold List.rtakeWhile
  rw [List.reverse_append, List.takeWhile_append_of_pos fun x hx => h x (List.mem_reverse.mp hx), List.reverse_append,
    List.reverse_reverse]

theorem lastVerify_append (log : List Execution) {tail : List Execution}
    (h : ∀ x ∈ tail, isType spec .verify x.node = false) : lastVerify spec (log ++ tail) = lastVerify spec log := by
  have hnone : tail.reverse.find? (fun x => isType spec .verify x.node) = none := by
    rw [List.find?_eq_none]
    intro x hx
    simp [h x (List.mem_reverse.mp hx)]
  unfold lastVerify
  rw [List.reverse_append, List.find?_append, hnone]
  rfl

theorem sinceVerify_append (log : List Execution) {tail : List Execution}
    (h : ∀ x ∈ tail, isType spec .verify x.node = false) :
    sinceVerify spec (log ++ tail) = sinceVerify spec log ++ tail :=
  rtakeWhile_append log fun x hx => by simp [h x hx]

theorem lastVerify_verify (log : List Execution) {x : Execution} (h : isType spec .verify x.node = true) :
    lastVerify spec (log ++ [x]) = some x ∧ sinceVerify spec (log ++ [x]) = [] := by
  unfold lastVerify sinceVerify
  rw [List.reverse_append, List.reverse_singleton, List.singleton_append, List.find?_cons, List.rtakeWhile_concat]
  simp [h]

/-! ## Walks and executions -/

theorem evidence_local {w : List String} : ∀ {l : List String}, (∀ id ∈ l, Local spec id) →
    (evidenceOf spec (w ++ l)).verified = true →
    (evidenceOf spec w).verified = true ∧ ∀ id ∈ l, isType spec .worker id = false := by
  intro l
  induction l using List.reverseRecOn with
  | nil =>
    intro _ h
    rw [List.append_nil] at h
    exact ⟨h, by simp⟩
  | append_singleton l id ih =>
    intro hl h
    rw [← List.append_assoc, evidenceOf_snoc, after_eq] at h
    cases hw : isType spec .worker id with
    | true => simp [hw] at h
    | false =>
      have hverify := (hl id (by simp)).1
      simp only [hw, Bool.false_eq_true, if_false, hverify, Bool.or_false] at h
      obtain ⟨hprev, hnone⟩ := ih (fun u hu => hl u (List.mem_append_left _ hu)) h
      refine ⟨hprev, fun u hu => ?_⟩
      rcases List.mem_append.mp hu with hu | hu
      · exact hnone u hu
      · rw [List.mem_singleton.mp hu]
        exact hw

/-- Where a walk carries verification, no worker has been executed since the last VERIFY. -/
theorem Trace.verified {w : List String} {log : List Execution} (h : Trace spec w log) :
    (evidenceOf spec w).verified = true → ∀ x ∈ sinceVerify spec log, isType spec .worker x.node = false := by
  induction h with
  | nil => intro h; cases h
  | @exec w log x _ _ ih =>
    intro h
    rw [evidenceOf_snoc, after_eq] at h
    cases hw : isType spec .worker x.node with
    | true => simp [hw] at h
    | false =>
      cases hv : isType spec .verify x.node with
      | true =>
        rw [(lastVerify_verify log hv).2]
        simp
      | false =>
        simp only [hw, Bool.false_eq_true, if_false, hv, Bool.or_false] at h
        rw [sinceVerify_append log (by simpa using hv)]
        intro y hy
        rcases List.mem_append.mp hy with hy | hy
        · exact ih h y hy
        · rw [List.mem_singleton.mp hy]
          exact hw
  | @region w l log tail _ hl htail hworker ih =>
    intro h
    obtain ⟨hprev, hnone⟩ := evidence_local hl h
    rw [sinceVerify_append log fun x hx => (htail x hx).2.1]
    intro y hy
    rcases List.mem_append.mp hy with hy | hy
    · exact ih hprev y hy
    · by_contra hyw
      obtain ⟨id, hid, hidw⟩ := hworker ⟨y, hy, by simpa using hyw⟩
      rw [hnone id hid] at hidw
      cases hidw

/-! ## The state and the last VERIFY -/

/-- A passed verification in the state is the last VERIFY's. -/
def Backed (spec : WorkflowSpec) (log : List Execution) (state : WorkflowStateV1) : Prop :=
  isTrue state.verification "passed" = true →
    ∃ x, lastVerify spec log = some x ∧ x.update.bind (·.verification) = state.verification

/-- A VERIFY that leaves no verification was silent. -/
theorem silent_of_unwritten {node : WorkflowNode} (hv : node.type = .verify) {state update : WorkflowStateV1}
    {result : HandlerResult} (hw : wrap spec node state (.handled result false) = .ok update) (hc : update.cancelled ≠ some true)
    (hu : update.verification = none) : silent (.exec (.handled result false)) = true := by
  rcases wrap_ok hw with rfl | ⟨_, cls, ha, he, -⟩ | ⟨_, ha, he⟩
  · exact absurd rfl hc
  · cases ha
    unfold execute at he
    split at he
    · cases he
    · rw [hv] at he
      cases result with
      | raises cls => rfl
      | returns raw =>
        simp only [nodeDefinitions, if_true] at he
        unfold Executed.of at he
        split at he
        all_goals cases he
      | breaks => cases he
      | cancels => cases he
  · cases ha
    obtain ⟨-, raw, hcomplete, ⟨-, rfl, -⟩ | ⟨hi, -⟩⟩ := execute_finished he
    · have hver := (complete_ok hcomplete).1
      unfold resets at hver
      rw [hv] at hver
      simp only at hver
      simp [silent, ← hver, hu]
    · rw [hv] at hi
      cases hi

/-- What executing a node of the main graph keeps. -/
theorem Backed.left {node : WorkflowNode} {r : Run} {update next : WorkflowStateV1} {attempt : Attempt} {id : String}
    (hplace : r.place = .node id) (hnode : spec.node? id = some node)
    (left : Left spec snapshot node r.state attempt update next) (hc : next.cancelled ≠ some true)
    (hb : Backed spec r.log r.state) (hk : keepsEvidence spec r (.exec attempt) = true) :
    Backed spec (r.log ++ executions spec node r.state none attempt) next := by
  obtain ⟨-, hexec, result, rfl⟩ := left.executed hc none
  rw [hexec]
  have hid := (WorkflowSpec.node?_eq_some.mp hnode).2
  have hnodeid : spec.node? node.id = some node := by rw [hid]; exact hnode
  intro hpassed
  rw [left.verification] at hpassed ⊢
  cases hu : update.verification with
  | some v =>
    rw [hu] at hpassed
    rcases ((wrap_writes left.wrapped).verification v hu).2 with hv | ⟨-, rfl⟩
    · have htype : isType spec .verify node.id = true := isType_iff.mpr ⟨node, hnodeid, hv⟩
      exact ⟨_, (lastVerify_verify r.log htype).1, by simp [hu]⟩
    · cases hpassed
  | none =>
    rw [hu, Option.none_or] at hpassed
    rw [Option.none_or]
    by_cases hv : node.type = .verify
    · have hcan : update.cancelled ≠ some true := by
        intro h
        rw [left.cancelled, h] at hc
        exact hc rfl
      have hsilent := silent_of_unwritten hv left.wrapped hcan hu
      have hcalled : called spec r (.exec (.handled result false)) = some (node, r.state) := by
        simp [called, hplace, hnode]
      unfold keepsEvidence at hk
      rw [hcalled] at hk
      simp [hv, hpassed, hsilent] at hk
    · have hne : isType spec .verify node.id = false := by
        simp [isType, hnodeid, hv]
      rw [lastVerify_append r.log (by simpa using hne)]
      exact hb hpassed

/-- `Backed`, while the run goes on. -/
def Sourced (spec : WorkflowSpec) (r : Run) : Prop :=
  match r.place with
  | .ended => True
  | .raised _ => True
  | _ => Backed spec r.log r.state

theorem Sourced.move (h : Checked spec snapshot) {r r' : Run} {action : Action} (hf : Followed spec r)
    (hs : Sourced spec r) (hk : keepsEvidence spec r action = true) (hm : Move spec snapshot r action r') :
    Sourced spec r' := by
  unfold Sourced at hs
  cases hm with
  | start hplace =>
    rw [hplace] at hs
    exact hs
  | finish => trivial
  | route hplace hnode hfan left hc =>
    rw [hplace] at hs
    exact Backed.left hplace hnode left hc hs hk
  | fanout hplace hnode hconfig left hc =>
    rw [hplace] at hs
    exact Backed.left hplace hnode left hc hs hk
  | @branch _ fanoutId joinId branches b b' new hplace hb hmove =>
    rw [hplace] at hs
    have ht := hf.traced
    unfold Traced at ht
    rw [hplace] at ht
    obtain ⟨w, log, tail, -, hspread⟩ := ht
    have hr := hspread.checked.regions b.child (List.mem_map.mpr ⟨b, hb, rfl⟩)
    obtain ⟨-, -, hnew⟩ := (hspread.branches b hb).move h hr hmove
    intro hpassed
    rw [lastVerify_append r.log fun x hx => (hnew x hx).1.1]
    exact hs hpassed
  | join hplace hended hmerged =>
    rw [hplace] at hs
    intro hpassed
    rw [(mergeBranches_keeps hmerged).1] at hpassed ⊢
    exact hs hpassed
  | raise => trivial

/-! ## The evidence at a call -/

theorem guard_verified {node : WorkflowNode} {state : WorkflowStateV1} (h : guard spec node state = none)
    (ht : node.type = .reviewer ∨ node.type = .githubPublish) : isTrue state.verification "passed" = true := by
  by_contra hn
  unfold guard at h
  split at h
  · cases h
  · split at h
    · cases h
    · rename_i hcond
      rcases ht with ht | ht
      all_goals simp [ht, hn] at hcond

/-- The static rule, for a reviewer or a publication at the end of a walk. -/
theorem Checked.walk_verified (h : Checked spec snapshot) {w : List String} {id : String}
    (hw : Walk spec.adjacency spec.entrypoint w id) {node : WorkflowNode} (hnode : spec.node? id = some node)
    (ht : node.type = .reviewer ∨ node.type = .githubPublish) : (evidenceOf spec w).verified = true := by
  have hclean : EvidenceClean spec := by
    unfold EvidenceClean
    rw [h.guarded]
    simp
  obtain ⟨hreview, hpublish, -⟩ := (evidence_exact spec).mp hclean w id hw
  rw [evidenceOf_eq]
  rcases ht with ht | ht
  · exact hreview (isType_iff.mpr ⟨node, hnode, ht⟩)
  · exact (hpublish (isType_iff.mpr ⟨node, hnode, ht⟩)).1

theorem RegionChecked.not_reviewer {fanoutId joinId child : String} (h : RegionChecked spec fanoutId joinId child)
    {node : WorkflowNode} (hid : node.id ∈ region spec joinId child) (hn : node ∈ spec.nodes) :
    node.type ≠ .reviewer := by
  intro ht
  have hout := (h.node_type hid hn).2.2
  rw [ht] at hout
  exact absurd (hout .review (by decide)) (by decide)

/-- A child that publishes under `keepsEvidence` runs on executions with no worker since the
    last VERIFY. -/
theorem Spread.verified (h : Checked spec snapshot) {fanoutId joinId : String} {branches : List Branch} {w : List String}
    {log tail : List Execution} (hs : Spread spec fanoutId joinId branches w log tail) {b : Branch} (hb : b ∈ branches)
    {id : String} (hplace : b.place = .node id) {node : WorkflowNode} (hnode : spec.node? id = some node)
    (ht : node.type = .reviewer ∨ node.type = .githubPublish)
    (hworkers : ∀ x ∈ sinceFanout (log ++ tail), isType spec .worker x.node = false) :
    ∀ x ∈ sinceVerify spec (log ++ tail), isType spec .worker x.node = false := by
  have hr := hs.checked.regions b.child (List.mem_map.mpr ⟨b, hb, rfl⟩)
  obtain ⟨l, hsub, -, hwalk⟩ := hs.branches b hb
  rw [hplace] at hwalk
  obtain ⟨edge, hin, hsource, htarget, -⟩ := hs.checked.edges b.child (List.mem_map.mpr ⟨b, hb, rfl⟩)
  have hstep : b.child ∈ spec.adjacency fanoutId :=
    List.mem_map.mpr ⟨edge, List.mem_filter.mpr ⟨hin, decide_eq_true hsource⟩, htarget⟩
  have hverified := h.walk_verified ((hs.walk.snoc hstep).trans hwalk.2) hnode ht
  have hbefore := hs.trace.verified (evidence_local (fun u hu => hr.isLocal (hsub u hu)) hverified).1
  have hsince : sinceFanout (log ++ tail) = sinceFanout log ++ tail := by
    refine rtakeWhile_append log fun x hx => ?_
    obtain ⟨-, other, -, hxb⟩ := hs.executed x hx
    rw [hxb]
    rfl
  rw [sinceVerify_append log fun x hx => (hs.executed x hx).1.1]
  intro x hx
  rcases List.mem_append.mp hx with hx | hx
  · exact hbefore x hx
  · exact hworkers x (by rw [hsince]; exact List.mem_append_right _ hx)

/-- In a run of a validated workflow whose steps all keep the evidence, every reviewer and every
    publication is invoked on a verification that passed, that the most recent VERIFY wrote, and
    that follows every worker. -/
theorem evidence_fresh {digests : Digests} {spec : WorkflowSpec} {snapshot : WorkflowResolvedSnapshot}
    (h : (validateWorkflow digests spec (some snapshot)).1 = true) {r : Run}
    (hr : Steps.ReachIf (step (normalizeWorkflow spec) snapshot)
      (fun r action => keepsEvidence (normalizeWorkflow spec) r action = true) Run.init r)
    {action : Action} (hk : keepsEvidence (normalizeWorkflow spec) r action = true) {node : WorkflowNode}
    {state : WorkflowStateV1} (hcalled : called (normalizeWorkflow spec) r action = some (node, state))
    (hguard : guard (normalizeWorkflow spec) node state = none)
    (ht : node.type = .reviewer ∨ node.type = .githubPublish) : Fresh (normalizeWorkflow spec) r.log state := by
  have hc := checked_of_valid h
  have hf := hc.followed hr.reach
  have hs : Sourced (normalizeWorkflow spec) r := hr.invariant_with (Followed _) (Sourced _)
    (fun _ hr => hc.followed hr.reach) (fun h => nomatch h)
    fun _ _ _ hf hs hk hstep => hs.move hc hf hk (step_move hstep)
  have hpassed := guard_verified hguard ht
  have htraced := hf.traced
  unfold Traced at htraced
  unfold Sourced at hs
  rcases called_cases hcalled with ⟨id, hplace, hnode, rfl⟩ |
    ⟨fanoutId, joinId, branches, b, id, hplace, hb, hbplace, hnode, rfl⟩
  · rw [hplace] at htraced hs
    obtain ⟨w, hw, htrace⟩ := htraced
    exact ⟨hpassed, hs hpassed, htrace.verified (hc.walk_verified hw hnode ht)⟩
  · rw [hplace] at htraced hs
    obtain ⟨w, log, tail, hlog, hspread⟩ := htraced
    have hshared := hf.shared
    unfold Shared Run.branches at hshared
    rw [hplace] at hshared
    have hver := (hshared b hb).1
    refine ⟨hpassed, ?_, ?_⟩
    · rw [hver] at hpassed ⊢
      exact hs hpassed
    · rw [hlog]
      refine hspread.verified hc hb hbplace hnode ht ?_
      -- no region holds a reviewer, and `keepsEvidence` speaks of publications
      have hpublish : node.type = .githubPublish := by
        refine ht.resolve_left fun hreviewer => ?_
        obtain ⟨hn, rfl⟩ := WorkflowSpec.node?_eq_some.mp hnode
        have hregion := hspread.checked.regions b.child (List.mem_map.mpr ⟨b, hb, rfl⟩)
        obtain ⟨l, -, -, hwalk⟩ := hspread.branches b hb
        rw [hbplace] at hwalk
        exact hregion.not_reviewer hwalk.1 hn hreviewer
      unfold keepsEvidence at hk
      rw [hcalled] at hk
      simp only [hpublish, List.all_eq_true, Bool.not_eq_eq_eq_not, Bool.not_true] at hk
      rw [← hlog]
      exact hk

/-- Verify and review: a review that times out is retried from the verification. -/
def recheckedReview : WorkflowSpec where
  entrypoint := "check"
  defaults := sampleDefaults
  nodes := [{ id := "check", config := .verify },
    { id := "review", config := .reviewer, policy := { modelRouteRef := some 4 } },
    { id := "done", config := .finalize .derive }, { id := "stop", config := .finalize .failed }]
  edges := [{ id := "checked", source := "check", target := "review", kind := .always },
    { id := "again", source := "review", target := "check", kind := .retry, retryClass := some .infrastructureTimeout },
    { id := "reviewed", source := "review", target := "done", kind := .onResult, when := some noFailure, priority := 1 },
    { id := "given-up", source := "review", target := "stop", kind := .always, fallback := true, priority := 2 }]
  node_ids := by decide
  edge_ids := by decide
  entrypoint_mem := by decide
  endpoints_mem := by decide

/-- The verification passes. -/
def passes : Attempt := .handled (.returns { verification := some (Dict.ofList [("passed", .bool true)]) }) false

/-- The handler times out. -/
def timesOut : Attempt := .handled (.raises .infrastructureTimeout) false

/-- The node whose handler an action invokes. -/
def invoked (spec : WorkflowSpec) (r : Run) (action : Action) : Option WorkflowNodeType :=
  (called spec r action).bind fun call => if (guard spec call.1 call.2).isNone then some call.1.type else none

theorem invoked_eq_some {r : Run} {action : Action} {type : WorkflowNodeType} (h : invoked spec r action = some type) :
    ∃ node state, called spec r action = some (node, state) ∧ guard spec node state = none ∧ node.type = type := by
  unfold invoked at h
  obtain ⟨⟨node, state⟩, hcalled, hif⟩ := Option.bind_eq_some_iff.mp h
  split at hif
  · rename_i hg
    exact ⟨node, state, hcalled, by simpa using hg, Option.some.inj hif⟩
  · cases hif

theorem evidence_fresh_recheckedReview :
    ∃ r, Steps.run (step (normalizeWorkflow recheckedReview) sampleSnapshot) Run.init [.start, .exec passes] = some r ∧
      ∃ node state, called (normalizeWorkflow recheckedReview) r (.exec timesOut) = some (node, state) ∧
        node.type = .reviewer ∧ Fresh (normalizeWorkflow recheckedReview) r.log state := by
  have hv : (validateWorkflow sampleDigests recheckedReview (some sampleSnapshot)).1 = true := by decide
  have hrun : (Steps.runIf (step (normalizeWorkflow recheckedReview) sampleSnapshot)
      (fun r action => keepsEvidence (normalizeWorkflow recheckedReview) r action = true) Run.init
      [.start, .exec passes]).any (fun r =>
        keepsEvidence (normalizeWorkflow recheckedReview) r (.exec timesOut) &&
          invoked (normalizeWorkflow recheckedReview) r (.exec timesOut) == some .reviewer) = true := by decide
  obtain ⟨r, hr, hat⟩ := (Option.any_eq_true _ _).mp hrun
  rw [Bool.and_eq_true, beq_iff_eq] at hat
  obtain ⟨node, state, hcalled, hguard, ht⟩ := invoked_eq_some hat.2
  refine ⟨r, Steps.run_of_runIf hr, node, state, hcalled, ht, ?_⟩
  exact evidence_fresh hv (Steps.runIf_reachIf _ hr) hat.1 hcalled hguard (.inl ht)

/-- The review is retried, the verification in front of it times out, and the review runs again on
    what the first verification left. -/
theorem stale_evidence :
    (validateWorkflow sampleDigests recheckedReview (some sampleSnapshot)).1 = true ∧
    ∃ r, Steps.Reach (step (normalizeWorkflow recheckedReview) sampleSnapshot) Run.init r ∧
      ∃ node state, called (normalizeWorkflow recheckedReview) r (.exec timesOut) = some (node, state) ∧
        guard (normalizeWorkflow recheckedReview) node state = none ∧ node.type = .reviewer ∧
        ¬ Fresh (normalizeWorkflow recheckedReview) r.log state := by
  refine ⟨by decide, ?_⟩
  have hrun : (Steps.run (step (normalizeWorkflow recheckedReview) sampleSnapshot) Run.init
      [.start, .exec passes, .exec timesOut, .exec timesOut]).any (fun r =>
        invoked (normalizeWorkflow recheckedReview) r (.exec timesOut) == some .reviewer &&
          (lastVerify (normalizeWorkflow recheckedReview) r.log).any fun x =>
            (x.update.bind (·.verification)).isNone) = true := by decide
  obtain ⟨r, hr, hat⟩ := (Option.any_eq_true _ _).mp hrun
  rw [Bool.and_eq_true, beq_iff_eq] at hat
  obtain ⟨node, state, hcalled, hguard, ht⟩ := invoked_eq_some hat.1
  refine ⟨r, Steps.run_reach _ hr, node, state, hcalled, hguard, ht, ?_⟩
  rintro ⟨hpassed, ⟨x, hx, hwritten⟩, -⟩
  have hlast := hat.2
  rw [hx, Option.any_some, Option.isNone_iff_eq_none] at hlast
  rw [← hwritten, hlast] at hpassed
  cases hpassed

end Jarvis.Workflows
