/-
  Jarvis.Workflows.Trace — every run of a validated workflow follows a walk of its graph.

  The validator's security rules speak of walks, the handlers of what has been executed. A
  main-graph execution is one step of the walk. A fan-out's children execute side by side,
  and the walk goes through one of them: one that executed a worker, if any did (`Trace`).
  Nothing in a region verifies or approves, so that is all a walk has to know of the others.
  A child that was cancelled has a walk to the join all the same, along its static routes.
-/
import Jarvis.Workflows.Regions
import Jarvis.Workflows.Run

namespace Jarvis.Workflows

open Jarvis.Explore (Walk)

variable {spec : WorkflowSpec} {snapshot : WorkflowResolvedSnapshot}

/-! ## Executions -/

theorem mem_executions {node : WorkflowNode} {state : WorkflowStateV1} {branch : Option String} {attempt : Attempt}
    {x : Execution} (h : x ∈ executions spec node state branch attempt) : x.node = node.id ∧ x.branch = branch := by
  cases attempt with
  | cancelledBefore => cases h
  | handled result cancelled =>
    simp only [executions] at h
    split at h
    · cases h
    · rw [List.mem_singleton.mp h]
      exact ⟨rfl, rfl⟩

/-- A node that was not cancelled passed its guards and left its update. -/
theorem Left.executed {node : WorkflowNode} {state update next : WorkflowStateV1} {attempt : Attempt}
    (left : Left spec snapshot node state attempt update next) (hc : next.cancelled ≠ some true)
    (branch : Option String) :
    guard spec node state = none ∧ executions spec node state branch attempt = [⟨node.id, branch, some update⟩] ∧
      ∃ result, attempt = .handled result false := by
  have hguard : guard spec node state = none ∧ ∃ result, attempt = .handled result false := by
    rcases wrap_ok left.wrapped with rfl | ⟨result, cls, ha, he, -⟩ | ⟨result, ha, he⟩
    · exact absurd left.cancelled hc
    · refine ⟨?_, result, ha⟩
      unfold execute at he
      split at he
      · cases he
      · assumption
    · exact ⟨(execute_finished he).1, result, ha⟩
  obtain ⟨hg, result, rfl⟩ := hguard
  refine ⟨hg, ?_, result, rfl⟩
  simp [executions, hg, left.wrapped, Except.toOption]

/-! ## Traces -/

/-- A node that neither verifies nor approves: what a region may hold. -/
def Local (spec : WorkflowSpec) (id : String) : Prop :=
  isType spec .verify id = false ∧ isType spec .approval id = false

/-- The executions of a run and the walk it followed. A region's walk is one child's, with a
    worker if any child executed one. -/
inductive Trace (spec : WorkflowSpec) : List String → List Execution → Prop
  | nil : Trace spec [] []
  | exec {w : List String} {log : List Execution} {x : Execution} (h : Trace spec w log) (hx : x.branch = none) :
      Trace spec (w ++ [x.node]) (log ++ [x])
  | region {w l : List String} {log tail : List Execution} (h : Trace spec w log) (hl : ∀ id ∈ l, Local spec id)
      (htail : ∀ x ∈ tail, x.branch ≠ none ∧ Local spec x.node)
      (hworker : (∃ x ∈ tail, isType spec .worker x.node = true) → ∃ id ∈ l, isType spec .worker id = true) :
      Trace spec (w ++ l) (log ++ tail)

theorem RegionChecked.isLocal {fanoutId joinId child : String} (h : RegionChecked spec fanoutId joinId child) {id : String}
    (hid : id ∈ region spec joinId child) : Local spec id := by
  obtain ⟨node, hnode⟩ := WorkflowSpec.exists_node (h.mem_nodeIds hid)
  obtain ⟨hn, rfl⟩ := WorkflowSpec.node?_eq_some.mp hnode
  have hout := (h.node_type hid hn).2.2
  have hverify : node.type ≠ .verify := by
    intro ht
    rw [ht] at hout
    exact absurd (hout .verification (by decide)) (by decide)
  have happroval : node.type ≠ .approval := by
    intro ht
    rw [ht] at hout
    exact absurd (hout .approval (by decide)) (by decide)
  simp [Local, isType, hnode, hverify, happroval]

/-- The static routes of a region lead to its join. -/
theorem Checked.walk_to_join (h : Checked spec snapshot) {fanoutId joinId child : String}
    (hr : RegionChecked spec fanoutId joinId child) : ∀ id ∈ region spec joinId child,
      ∃ l, Walk spec.adjacency id l joinId ∧ ∀ u ∈ l, u ∈ region spec joinId child := by
  intro id hid
  induction hk : rank spec id using Nat.strongRecOn generalizing id with
  | _ k ih =>
    subst hk
    obtain ⟨node, hnode⟩ := WorkflowSpec.exists_node (hr.mem_nodeIds hid)
    obtain ⟨hn, rfl⟩ := WorkflowSpec.node?_eq_some.mp hnode
    obtain ⟨ho, htargets⟩ := hr.routes hid hn
    obtain ⟨edge, hedge, hb⟩ := h.unbounded_edge hn (hr.node_type hid hn).1 (hr.not_finalize hid hn) ho
    obtain ⟨hin, hsource⟩ := List.mem_filter.mp hedge
    have hlt := h.rank_lt hin hb
    rw [of_decide_eq_true hsource] at hlt
    have hstep : edge.target ∈ spec.adjacency node.id := List.mem_map.mpr ⟨edge, hedge, rfl⟩
    rcases htargets edge hedge with ht | ht
    · obtain ⟨l, hl, hsub⟩ := ih _ hlt edge.target ht rfl
      refine ⟨_, (Walk.nil.snoc hstep).trans hl, fun u hu => ?_⟩
      rcases List.mem_append.mp hu with hu | hu
      · rw [List.mem_singleton.mp hu]
        exact hid
      · exact hsub u hu
    · rw [ht] at hstep
      refine ⟨_, Walk.nil.snoc hstep, fun u hu => ?_⟩
      rw [List.mem_singleton.mp hu]
      exact hid

/-! ## The invariant -/

/-- A child's own executions lie on a walk through its region. -/
def BranchTraced (spec : WorkflowSpec) (joinId : String) (tail : List Execution) (b : Branch) : Prop :=
  ∃ l, (∀ id ∈ l, id ∈ region spec joinId b.child) ∧ (∀ x ∈ tail, x.branch = some b.child → x.node ∈ l) ∧
    match b.place with
    | .node id => id ∈ region spec joinId b.child ∧ Walk spec.adjacency b.child l id
    | _ => Walk spec.adjacency b.child l joinId

/-- The state of a fan-out's children: the executions before it, those of the children, and a
    walk for each child. -/
structure Spread (spec : WorkflowSpec) (fanoutId joinId : String) (branches : List Branch) (w : List String)
    (log tail : List Execution) : Prop where
  walk : Walk spec.adjacency spec.entrypoint w fanoutId
  trace : Trace spec (w ++ [fanoutId]) log
  checked : FanoutChecked spec fanoutId (branches.map (·.child)) joinId
  executed : ∀ x ∈ tail, Local spec x.node ∧ ∃ b ∈ branches, x.branch = some b.child
  branches : ∀ b ∈ branches, BranchTraced spec joinId tail b

def Traced (spec : WorkflowSpec) (r : Run) : Prop :=
  match r.place with
  | .start => r.log = []
  | .node id => ∃ w, Walk spec.adjacency spec.entrypoint w id ∧ Trace spec w r.log
  | .parallel fanoutId joinId branches =>
    ∃ w log tail, r.log = log ++ tail ∧ Spread spec fanoutId joinId branches w log tail
  | _ => True

theorem Takes.mem_adjacency {node : WorkflowNode} {state : WorkflowStateV1} {route : Route} {edge : WorkflowEdge}
    (h : Takes spec snapshot node state route edge) : route.1 ∈ spec.adjacency node.id :=
  List.mem_map.mpr ⟨edge, List.mem_filter.mpr ⟨h.mem, decide_eq_true h.source⟩, h.target⟩

theorem BranchTraced.move (h : Checked spec snapshot) {fanoutId joinId : String} {b b' : Branch} {action : Action}
    {tail log : List Execution} (hr : RegionChecked spec fanoutId joinId b.child) (hb : BranchTraced spec joinId tail b)
    (hm : BranchMove spec snapshot joinId b action log b') :
    b'.child = b.child ∧ BranchTraced spec joinId (tail ++ log) b' ∧
      ∀ x ∈ log, Local spec x.node ∧ x.branch = some b.child := by
  obtain ⟨l, hsub, hexec, hwalk⟩ := hb
  cases hm with
  | @finish id node _ _ _ hplace hnode left hend =>
    rw [hplace] at hwalk
    obtain ⟨hid, hwalk⟩ := hwalk
    obtain ⟨hn, rfl⟩ := WorkflowSpec.node?_eq_some.mp hnode
    obtain ⟨l', hl', hsub'⟩ := h.walk_to_join hr node.id hid
    have hne : node.id ≠ joinId := fun he => RegionChecked.join_not_mem (he ▸ hid)
    refine ⟨rfl, ⟨l ++ l', ?_, fun x hx hxb => ?_, hwalk.trans hl'⟩, fun x hx => ?_⟩
    · intro u hu
      exact (List.mem_append.mp hu).elim (hsub u) (hsub' u)
    · rcases List.mem_append.mp hx with hx | hx
      · exact List.mem_append_left _ (hexec x hx hxb)
      · rw [(mem_executions hx).1]
        exact List.mem_append_right _ (hl'.start_mem hne)
    · rw [(mem_executions hx).1]
      exact ⟨hr.isLocal hid, (mem_executions hx).2⟩
  | @route id node _ _ _ _ route hplace hnode left hc hroute =>
    rw [hplace] at hwalk
    obtain ⟨hid, hwalk⟩ := hwalk
    obtain ⟨hn, rfl⟩ := WorkflowSpec.node?_eq_some.mp hnode
    obtain ⟨edge, ht⟩ := h.takes hn (hr.node_type hid hn).1 hroute
    have hnext := hwalk.snoc ht.mem_adjacency
    refine ⟨rfl, ⟨l ++ [node.id], ?_, fun x hx hxb => ?_, ?_⟩, fun x hx => ?_⟩
    · intro u hu
      rcases List.mem_append.mp hu with hu | hu
      · exact hsub u hu
      · rw [List.mem_singleton.mp hu]
        exact hid
    · rcases List.mem_append.mp hx with hx | hx
      · exact List.mem_append_left _ (hexec x hx hxb)
      · rw [(mem_executions hx).1]
        exact List.mem_append_right _ List.mem_cons_self
    · by_cases hj : route.1 = joinId
      · simp only [hj, if_true]
        rw [hj] at hnext
        exact hnext
      · have hout : edge ∈ spec.outgoing node.id := List.mem_filter.mpr ⟨ht.mem, decide_eq_true ht.source⟩
        have hin := ((hr.routes hid hn).2 edge hout).resolve_right fun he => hj (ht.target.symm.trans he)
        rw [ht.target] at hin
        simp only [hj, if_false]
        exact ⟨hin, hnext⟩
    · rw [(mem_executions hx).1]
      exact ⟨hr.isLocal hid, (mem_executions hx).2⟩
  | nested hplace hnode hf =>
    rw [hplace] at hwalk
    obtain ⟨hn, rfl⟩ := WorkflowSpec.node?_eq_some.mp hnode
    exact absurd hf (hr.node_type hwalk.1 hn).1
  | complete hplace hmerged =>
    rw [hplace] at hwalk
    rw [List.append_nil]
    exact ⟨rfl, ⟨l, hsub, hexec, hwalk⟩, by simp⟩

theorem map_child_replaceBranch {branches : List Branch} {b : Branch} :
    (replaceBranch branches b).map (·.child) = branches.map (·.child) := by
  unfold replaceBranch
  rw [List.map_map]
  refine List.map_congr_left fun other _ => ?_
  simp only [Function.comp]
  split
  · rename_i he
    exact he.symm
  · rfl

theorem Spread.move (h : Checked spec snapshot) {fanoutId joinId : String} {branches : List Branch} {w : List String}
    {log tail : List Execution} (hs : Spread spec fanoutId joinId branches w log tail) {b b' : Branch}
    (hb : b ∈ branches) {action : Action} {new : List Execution} (hm : BranchMove spec snapshot joinId b action new b') :
    Spread spec fanoutId joinId (replaceBranch branches b') w log (tail ++ new) := by
  have hr := hs.checked.regions b.child (List.mem_map.mpr ⟨b, hb, rfl⟩)
  obtain ⟨hchild, htraced, hnew⟩ := (hs.branches b hb).move h hr hm
  have hb' : b' ∈ replaceBranch branches b' := List.mem_map.mpr ⟨b, hb, by rw [if_pos hchild.symm]⟩
  refine ⟨hs.walk, hs.trace, ?_, ?_, ?_⟩
  · rw [map_child_replaceBranch]
    exact hs.checked
  · intro x hx
    rcases List.mem_append.mp hx with hx | hx
    · obtain ⟨hlocal, other, hother, hxb⟩ := hs.executed x hx
      refine ⟨hlocal, ?_⟩
      have hmem : other.child ∈ (replaceBranch branches b').map (·.child) := by
        rw [map_child_replaceBranch]
        exact List.mem_map.mpr ⟨other, hother, rfl⟩
      obtain ⟨c, hc, hcc⟩ := List.mem_map.mp hmem
      exact ⟨c, hc, hxb.trans (congrArg some hcc.symm)⟩
    · exact ⟨(hnew x hx).1, b', hb', by rw [(hnew x hx).2, hchild]⟩
  · intro other hother
    obtain ⟨old, hold, rfl⟩ := List.mem_map.mp hother
    split
    · exact htraced
    · -- another child's executions are not this one's
      rename_i hne
      obtain ⟨l, hsub, hexec, hwalk⟩ := hs.branches old hold
      refine ⟨l, hsub, fun x hx hxb => ?_, hwalk⟩
      rcases List.mem_append.mp hx with hx | hx
      · exact hexec x hx hxb
      · rw [(hnew x hx).2] at hxb
        exact absurd ((Option.some.inj hxb).symm.trans hchild.symm) hne

/-- The walk through an ended fan-out: a child that executed a worker, if any did. -/
theorem Spread.joined {fanoutId joinId : String} {branches : List Branch} {w : List String} {log tail : List Execution}
    (hs : Spread spec fanoutId joinId branches w log tail) (hended : ∀ b ∈ branches, b.place = .ended) :
    ∃ w', Walk spec.adjacency spec.entrypoint w' joinId ∧ Trace spec w' (log ++ tail) := by
  obtain ⟨b, hb, hworker⟩ : ∃ b ∈ branches, (∃ x ∈ tail, isType spec .worker x.node = true) →
      ∃ x ∈ tail, x.branch = some b.child ∧ isType spec .worker x.node = true := by
    by_cases hw : ∃ x ∈ tail, isType spec .worker x.node = true
    · obtain ⟨x, hx, hxw⟩ := hw
      obtain ⟨-, b, hb, hxb⟩ := hs.executed x hx
      exact ⟨b, hb, fun _ => ⟨x, hx, hxb, hxw⟩⟩
    · obtain ⟨child, hchild⟩ := List.exists_mem_of_ne_nil _ hs.checked.nonempty
      obtain ⟨b, hb, -⟩ := List.mem_map.mp hchild
      exact ⟨b, hb, fun h => absurd h hw⟩
  have hr := hs.checked.regions b.child (List.mem_map.mpr ⟨b, hb, rfl⟩)
  obtain ⟨l, hsub, hexec, hwalk⟩ := hs.branches b hb
  rw [hended b hb] at hwalk
  obtain ⟨edge, hin, hsource, htarget, -⟩ := hs.checked.edges b.child (List.mem_map.mpr ⟨b, hb, rfl⟩)
  have hstep : b.child ∈ spec.adjacency fanoutId :=
    List.mem_map.mpr ⟨edge, List.mem_filter.mpr ⟨hin, decide_eq_true hsource⟩, htarget⟩
  refine ⟨_, (hs.walk.snoc hstep).trans hwalk, .region hs.trace (fun id hid => hr.isLocal (hsub id hid)) ?_ ?_⟩
  · intro x hx
    obtain ⟨hlocal, other, -, hxb⟩ := hs.executed x hx
    exact ⟨by simp [hxb], hlocal⟩
  · intro hw
    obtain ⟨x, hx, hxb, hxw⟩ := hworker hw
    exact ⟨x.node, hexec x hx hxb, hxw⟩

theorem Traced.move (h : Checked spec snapshot) {r r' : Run} {action : Action} (ht : Traced spec r) (hm : Move spec snapshot r action r') :
    Traced spec r' := by
  unfold Traced at ht
  cases hm with
  | start hplace =>
    rw [hplace] at ht
    exact ⟨[], .nil, ht ▸ .nil⟩
  | finish => trivial
  | @route id node _ update next merged route hplace hnode hf left hc hmerged hroute hcounters =>
    rw [hplace] at ht
    obtain ⟨w, hw, ht⟩ := ht
    obtain ⟨hn, rfl⟩ := WorkflowSpec.node?_eq_some.mp hnode
    obtain ⟨edge, htakes⟩ := h.takes hn hf hroute
    refine ⟨w ++ [node.id], hw.snoc htakes.mem_adjacency, ?_⟩
    simp only [(left.executed hc none).2.1]
    exact Trace.exec (x := ⟨node.id, none, some update⟩) ht rfl
  | @fanout id node _ update next children joinId _ hplace hnode hconfig left hc =>
    rw [hplace] at ht
    obtain ⟨w, hw, ht⟩ := ht
    obtain ⟨hn, rfl⟩ := WorkflowSpec.node?_eq_some.mp hnode
    have hf := h.fanoutChecked hn hconfig
    have hchildren : (children.map (sendTo next node.id)).map (·.child) = children := by
      simp [Function.comp_def, sendTo]
    refine ⟨w, r.log ++ [⟨node.id, none, some update⟩], [], ?_, hw,
      Trace.exec (x := ⟨node.id, none, some update⟩) ht rfl, ?_, by simp, ?_⟩
    · simp [(left.executed hc none).2.1]
    · rw [hchildren]
      exact hf
    · intro b hb
      obtain ⟨child, hchild, rfl⟩ := List.mem_map.mp hb
      exact ⟨[], by simp, by simp, (hf.regions child hchild).child_mem_region, .nil⟩
  | @branch _ fanoutId joinId branches b b' new hplace hb hmove =>
    rw [hplace] at ht
    obtain ⟨w, log, tail, hlog, hs⟩ := ht
    exact ⟨w, log, tail ++ new, by simp [hlog], hs.move h hb hmove⟩
  | @join fanoutId joinId branches next hplace hended hmerged =>
    rw [hplace] at ht
    obtain ⟨w, log, tail, hlog, hs⟩ := ht
    obtain ⟨w', hw', ht'⟩ := hs.joined hended
    exact ⟨w', hw', hlog ▸ ht'⟩
  | raise => trivial

/-! ## What the children share -/

/-- The children run on the evidence and the grant of the main state. -/
def Shared (r : Run) : Prop :=
  ∀ b ∈ r.branches, b.state.verification = r.state.verification ∧ b.state.approval = r.state.approval ∧
    inBranch b.state = true

theorem Left.branch {node : WorkflowNode} {state update next : WorkflowStateV1} {attempt : Attempt}
    (left : Left spec snapshot node state attempt update next) (hb : inBranch state = true) :
    next.verification = state.verification ∧ next.approval = state.approval ∧ inBranch next = true := by
  have hw := wrap_writes left.wrapped
  have hver : update.verification = none := by
    by_contra h
    obtain ⟨v, hv⟩ := Option.ne_none_iff_exists'.mp h
    rw [(hw.verification v hv).1] at hb
    cases hb
  have happ : update.approval = none := by
    by_contra h
    obtain ⟨v, hv⟩ := Option.ne_none_iff_exists'.mp h
    rw [(hw.approval v hv).1] at hb
    cases hb
  refine ⟨?_, ?_, ?_⟩
  · rw [left.verification, hver]
    rfl
  · rw [left.approval, happ]
    rfl
  · rw [inBranch, left.childIdentity]
    exact hb

theorem inBranch_sendTo (state : WorkflowStateV1) (fanoutId child : String) :
    inBranch (sendTo state fanoutId child).state = true := by
  have hne : childId fanoutId (state.counter (invocationKey state fanoutId)) child ≠ "" := by
    intro h
    have hl := congrArg String.length h
    simp [childId, String.length_append] at hl
  simpa [inBranch, sendTo] using hne

theorem mergeBranches_keeps : ∀ {branches : List Branch} {state next : WorkflowStateV1},
    mergeBranches state branches = .ok next →
    next.verification = state.verification ∧ next.approval = state.approval ∧
      next.childIdentity = state.childIdentity := by
  intro branches
  induction branches with
  | nil =>
    intro state next h
    cases h
    exact ⟨rfl, rfl, rfl⟩
  | cons b branches ih =>
    intro state next h
    rw [mergeBranches] at h
    split at h
    · cases h
    · rename_i merged hm
      obtain ⟨-, hver, -, happ, -, hident, -⟩ := mergedState_ok hm
      obtain ⟨hver', happ', hident'⟩ := ih h
      exact ⟨hver'.trans hver, happ'.trans happ, hident'.trans hident⟩

/-- What every run of a validated workflow keeps. -/
structure Followed (spec : WorkflowSpec) (r : Run) : Prop where
  traced : Traced spec r
  shared : Shared r

theorem Followed.move (h : Checked spec snapshot) {r r' : Run} {action : Action} (hf : Followed spec r) (hm : Move spec snapshot r action r') :
    Followed spec r' := by
  refine ⟨hf.traced.move h hm, ?_⟩
  cases hm with
  | fanout =>
    intro b hb
    obtain ⟨child, -, rfl⟩ := List.mem_map.mp hb
    exact ⟨rfl, rfl, inBranch_sendTo _ _ _⟩
  | @branch _ fanoutId joinId branches b b' new hplace hb hmove =>
    have ht := hf.traced
    unfold Traced at ht
    rw [hplace] at ht
    obtain ⟨w, log, tail, -, hs⟩ := ht
    have hshared := hf.shared
    unfold Shared Run.branches at hshared
    rw [hplace] at hshared
    have hb' : b'.state.verification = r.state.verification ∧ b'.state.approval = r.state.approval ∧
        inBranch b'.state = true := by
      obtain ⟨hver, happ, hin⟩ := hshared b hb
      cases hmove with
      | finish _ _ left =>
        obtain ⟨hver', happ', hin'⟩ := left.branch hin
        exact ⟨hver'.trans hver, happ'.trans happ, hin'⟩
      | route _ _ left =>
        obtain ⟨hver', happ', hin'⟩ := left.branch hin
        exact ⟨hver'.trans hver, happ'.trans happ, hin'⟩
      | nested hbplace hnode hfanout =>
        obtain ⟨hn, rfl⟩ := WorkflowSpec.node?_eq_some.mp hnode
        obtain ⟨l, -, -, hwalk⟩ := hs.branches b hb
        rw [hbplace] at hwalk
        have hr := hs.checked.regions b.child (List.mem_map.mpr ⟨b, hb, rfl⟩)
        exact absurd hfanout (hr.node_type hwalk.1 hn).1
      | complete _ hmerged =>
        obtain ⟨-, hver', -, happ', -, hident, -⟩ := mergedState_ok hmerged
        refine ⟨hver'.trans hver, happ'.trans happ, ?_⟩
        rw [inBranch, hident]
        exact hin
    intro other hother
    obtain ⟨old, hold, rfl⟩ := List.mem_map.mp hother
    split
    · exact hb'
    · exact hshared old hold
  | start => exact fun b hb => nomatch hb
  | finish => exact fun b hb => nomatch hb
  | route => exact fun b hb => nomatch hb
  | join => exact fun b hb => nomatch hb
  | raise => exact fun b hb => nomatch hb

theorem Checked.followed (h : Checked spec snapshot) {r : Run} (hr : Steps.Reach (step spec snapshot) Run.init r) :
    Followed spec r :=
  hr.invariant _ ⟨rfl, fun _ hb => nomatch hb⟩ fun _ _ _ hf _ hs => hf.move h (step_move hs)

end Jarvis.Workflows
