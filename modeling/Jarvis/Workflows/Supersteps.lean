/-
  Jarvis.Workflows.Supersteps — the recursion limit covers every run of a validated workflow.

  Every bounded edge a run takes raises one of the counters `_superstep_limit` adds up, below
  that counter's bound, and no counter ever falls; so what the counters have left of their
  bounds (`remaining`) falls with every bounded edge. Between two bounded edges the rank of
  the current node falls. The steps taken so far, the rank of the current node and
  `|nodes|` for every bounded edge left are therefore together within the budget, which is
  what a step keeps (`Within`). A fan-out and its children are two steps, and the join
  stands two ranks below the fan-out. A child graph has no cycle at all and takes each of
  its nodes at most once.
-/
import Mathlib.Algebra.Order.BigOperators.Group.List
import Mathlib.Algebra.Order.Ring.Nat
import Mathlib.Data.List.Pairwise
import Jarvis.Workflows.Regions
import Jarvis.Workflows.Run

namespace Jarvis.Workflows

variable {spec : WorkflowSpec} {snapshot : WorkflowResolvedSnapshot}

/-! ## The counter of a bounded edge -/

theorem colon_not_mem (node : WorkflowNode) : ':' ∉ node.id.toList := by
  have hp := node.id_pattern
  unfold idPattern at hp
  split at hp
  · cases hp
  · rename_i first rest hl
    rw [hl]
    simp only [Bool.and_eq_true, List.all_eq_true] at hp
    intro h
    rcases List.mem_cons.mp h with h | h
    · rw [← h] at hp
      exact absurd hp.1 (by decide)
    · exact absurd (hp.2 ':' h) (by decide)

theorem colon_not_mem_value (c : FailureClass) : ':' ∉ c.value.toList := by
  cases c <;> decide

theorem value_inj {c d : FailureClass} (h : c.value = d.value) : c = d := by
  revert h
  cases c <;> cases d <;> decide

theorem retryKey_inj {a b : WorkflowNode} {c d : FailureClass} (h : retryKey a.id c = retryKey b.id d) :
    a.id = b.id ∧ c = d := by
  have hl := congrArg String.toList h
  simp only [retryKey, String.toList_append] at hl
  rw [List.append_assoc, List.append_assoc, List.append_assoc, List.append_assoc, List.append_cancel_left_eq] at hl
  have hcolon : ":".toList = [':'] := rfl
  rw [hcolon, List.singleton_append, List.singleton_append,
    List.append_cons_inj_of_notMem (colon_not_mem a) (colon_not_mem_value c)] at hl
  exact ⟨String.toList_inj.mp hl.1, value_inj (String.toList_inj.mp hl.2.2)⟩

theorem iterateKey_inj {a b : String} (h : iterateKey a = iterateKey b) : a = b := by
  simpa [iterateKey] using h

theorem iterateKey_ne_retryKey (key id : String) (c : FailureClass) : iterateKey key ≠ retryKey id c := by
  intro h
  have hl := congrArg (fun s => s.toList.head?) h
  simp [iterateKey, retryKey, String.toList_append] at hl

/-- An ITERATE edge's key belongs to no other edge. -/
theorem iteration_unique : ∀ {edges : List WorkflowEdge} {seen : List String}, edgeGraphIssues spec seen edges = [] →
    edges.Pairwise (fun a b => a.kind = .iterate → b.kind = .iterate → a.iterationKey ≠ b.iterationKey) ∧
    ∀ edge ∈ edges, edge.kind = .iterate → ∀ key, edge.iterationKey = some key → key ∉ seen := by
  intro edges
  induction edges with
  | nil => intro _ _; exact ⟨.nil, by simp⟩
  | cons edge edges ih =>
    intro seen h
    rw [edgeGraphIssues] at h
    simp only [List.append_eq_nil_iff] at h
    obtain ⟨⟨⟨-, hiterate⟩, -⟩, hrest⟩ := h
    obtain ⟨hpair, hfresh⟩ := ih hrest
    have hown : edge.kind = .iterate → ∀ key, edge.iterationKey = some key → key ∉ seen := by
      intro hk key hkey
      rw [if_pos hk] at hiterate
      unfold iterateIssues at hiterate
      simp only [List.append_eq_nil_iff, check_eq_nil, hkey] at hiterate
      simpa using hiterate.1.1.2
    refine ⟨List.pairwise_cons.mpr ⟨fun other hother hk hko heq => ?_, hpair⟩, fun e he hk key hkey => ?_⟩
    · obtain ⟨key, hkey⟩ := Option.isSome_iff_exists.mp (show other.iterationKey.isSome by
        have := (other.iterate_bound hko).1
        cases hi : other.iterationKey <;> simp_all)
      have := hfresh other hother hko key hkey
      rw [if_pos hk, heq, hkey] at this
      simp at this
    · rcases List.mem_cons.mp he with rfl | he
      · exact hown hk key hkey
      · have := hfresh e he hk key hkey
        split at this
        · exact fun h => this (List.mem_cons_of_mem _ h)
        · exact this

theorem edgeLimit_cases {edge : WorkflowEdge} {key : String} {bound : Nat}
    (h : edgeLimit spec snapshot edge = .ok (some (key, bound))) :
    (edge.kind = .iterate ∧ key = iterateKey (edge.iterationKey.getD "") ∧ bound = edge.maxIterations.getD 0) ∨
    ∃ policy rule, edge.kind = .retry ∧ retryPolicyOf (some snapshot) (policyOf spec edge.source) = some policy ∧
      policy.rule? edge.retryClass = some rule ∧ key = retryKey edge.source rule.failureClass ∧
      bound = rule.maxRetries := by
  unfold edgeLimit at h
  split at h
  · rename_i hk
    cases h
    exact .inl ⟨hk, rfl, rfl⟩
  · rename_i hk
    split at h
    · rename_i policy hp
      split at h
      · rename_i rule hr
        cases h
        exact .inr ⟨policy, rule, hk, hp, hr, rfl, rfl⟩
      · cases h
    · cases h
  · cases h

/-- Two edges with one counter have one bound. -/
theorem Checked.limits_agree (h : Checked spec snapshot) {a b : WorkflowEdge} (ha : a ∈ spec.edges) (hb : b ∈ spec.edges)
    {key : String} {m n : Nat} (hm : edgeLimit spec snapshot a = .ok (some (key, m)))
    (hn : edgeLimit spec snapshot b = .ok (some (key, n))) : m = n := by
  rcases edgeLimit_cases hm with ⟨hka, hkey, hbound⟩ | ⟨pa, ra, hka, hpa, hra, hkey, hbound⟩
  · rcases edgeLimit_cases hn with ⟨hkb, hkey', hbound'⟩ | ⟨_, _, _, _, _, hkey', _⟩
    · -- distinct ITERATE edges have distinct keys
      have hsame : a.iterationKey = b.iterationKey := by
        have hkeys := iterateKey_inj (hkey.symm.trans hkey')
        have hsa := (a.iterate_bound hka).1
        have hsb := (b.iterate_bound hkb).1
        cases hia : a.iterationKey <;> cases hib : b.iterationKey <;> simp_all
      have hg := h.graph
      unfold graphIssues at hg
      simp only [List.append_eq_nil_iff] at hg
      have hpair := (iteration_unique hg.2).1
      by_cases hab : a = b
      · subst hab
        omega
      · have : Std.Symm fun a b : WorkflowEdge =>
            a.kind = .iterate → b.kind = .iterate → a.iterationKey ≠ b.iterationKey :=
          ⟨fun _ _ hxy hx hy he => hxy hy hx he.symm⟩
        exact absurd hsame (hpair.forall ha hb hab hka hkb)
    · exact absurd (hkey.symm.trans hkey') (iterateKey_ne_retryKey _ _ _)
  · rcases edgeLimit_cases hn with ⟨_, hkey', _⟩ | ⟨pb, rb, hkb, hpb, hrb, hkey', hbound'⟩
    · exact absurd (hkey'.symm.trans hkey) (iterateKey_ne_retryKey _ _ _)
    · obtain ⟨na, hna⟩ := WorkflowSpec.exists_node (spec.endpoints_mem a ha).1
      obtain ⟨nb, hnb⟩ := WorkflowSpec.exists_node (spec.endpoints_mem b hb).1
      have hida := (WorkflowSpec.node?_eq_some.mp hna).2
      have hidb := (WorkflowSpec.node?_eq_some.mp hnb).2
      rw [← hida] at hkey
      rw [← hidb] at hkey'
      obtain ⟨hid, hcls⟩ := retryKey_inj (hkey.symm.trans hkey')
      rw [hida, hidb] at hid
      rw [hid, hpb] at hpa
      cases hpa
      rw [rule?_class hra, hcls] at hra
      rw [rule?_class hrb] at hrb
      rw [hra] at hrb
      cases hrb
      omega

theorem limitsFrom_get : ∀ {edges : List WorkflowEdge} {limits limits' : Dict String Nat},
    (∀ a ∈ edges, ∀ b ∈ edges, ∀ key m n, edgeLimit spec snapshot a = .ok (some (key, m)) →
      edgeLimit spec snapshot b = .ok (some (key, n)) → m = n) →
    limitsFrom spec snapshot limits edges = .ok limits' →
    (∀ edge ∈ edges, ∀ key bound, edgeLimit spec snapshot edge = .ok (some (key, bound)) →
      limits'.get? key = some bound) ∧
    ∀ key, (∀ edge ∈ edges, ∀ bound, edgeLimit spec snapshot edge ≠ .ok (some (key, bound))) →
      limits'.get? key = limits.get? key := by
  intro edges
  induction edges with
  | nil =>
    intro limits limits' _ h
    cases h
    exact ⟨by simp, fun _ _ => rfl⟩
  | cons edge edges ih =>
    intro limits limits' hagree h
    have hagree' := fun a ha b hb => hagree a (List.mem_cons_of_mem _ ha) b (List.mem_cons_of_mem _ hb)
    rw [limitsFrom] at h
    split at h
    · cases h
    · rename_i hnone
      obtain ⟨hin, hout⟩ := ih hagree' h
      refine ⟨fun e he key bound hl => ?_, fun key hk => hout key fun e he => hk e (List.mem_cons_of_mem _ he)⟩
      rcases List.mem_cons.mp he with rfl | he
      · rw [hnone] at hl
        cases hl
      · exact hin e he key bound hl
    · rename_i key₀ bound₀ hsome
      obtain ⟨hin, hout⟩ := ih hagree' h
      refine ⟨fun e he key bound hl => ?_, fun key hk => ?_⟩
      · by_cases hlater : ∃ e' ∈ edges, ∃ b, edgeLimit spec snapshot e' = .ok (some (key, b))
        · obtain ⟨e', he', b, hb⟩ := hlater
          rw [hin e' he' key b hb, hagree e he e' (List.mem_cons_of_mem _ he') key bound b hl hb]
        · rcases List.mem_cons.mp he with rfl | he
          · rw [hsome] at hl
            cases hl
            rw [hout key₀ fun e' he' b hb => hlater ⟨e', he', b, hb⟩, Dict.get?_insert_self]
          · exact hin e he key bound hl
      · rw [hout key fun e he => hk e (List.mem_cons_of_mem _ he), Dict.get?_insert_of_ne]
        exact fun heq => hk edge List.mem_cons_self bound₀ (heq ▸ hsome)

/-! ## What the counters have left -/

/-- How often a run may still take a bounded edge. -/
def remaining (limits : Dict String Nat) (state : WorkflowStateV1) : Nat :=
  (limits.entries.map fun entry => ((entry.2 : Int) - state.counter entry.1).toNat).sum

theorem remaining_init (limits : Dict String Nat) : remaining limits {} = (limits.entries.map Prod.snd).sum := by
  have hzero : ∀ key, ({} : WorkflowStateV1).counter key = 0 := fun _ => rfl
  simp only [remaining, hzero, Int.sub_zero, Int.toNat_natCast]

theorem remaining_le (limits : Dict String Nat) {state next : WorkflowStateV1}
    (hc : ∀ key, state.counter key ≤ next.counter key) : remaining limits next ≤ remaining limits state := by
  refine List.sum_le_sum fun entry _ => ?_
  have := hc entry.1
  omega

theorem remaining_lt {limits : Dict String Nat} {state next : WorkflowStateV1}
    (hc : ∀ key, state.counter key ≤ next.counter key) {key : String} {bound : Nat} (hb : limits.get? key = some bound)
    (hlt : state.counter key < bound) (hraised : state.counter key < next.counter key) :
    remaining limits next < remaining limits state := by
  refine List.sum_lt_sum _ _ (fun entry _ => ?_) ⟨(key, bound), Dict.get?_eq_some.mp hb, ?_⟩
  · have := hc entry.1
    omega
  · simp only
    omega

theorem Checked.limit_of_edge (h : Checked spec snapshot) {limits : Dict String Nat}
    (hl : limitsFrom spec snapshot .empty spec.edges = .ok limits) {edge : WorkflowEdge} (he : edge ∈ spec.edges)
    {key : String} {bound : Nat} (hb : edgeLimit spec snapshot edge = .ok (some (key, bound))) :
    limits.get? key = some bound :=
  (limitsFrom_get (fun _ ha _ hb _ _ _ => h.limits_agree ha hb) hl).1 edge he key bound hb

theorem mergeBranches_counter : ∀ {branches : List Branch} {state next : WorkflowStateV1},
    mergeBranches state branches = .ok next → ∀ key, state.counter key ≤ next.counter key := by
  intro branches
  induction branches with
  | nil =>
    intro state next h key
    cases h
    exact Int.le_refl _
  | cons b branches ih =>
    intro state next h key
    rw [mergeBranches] at h
    split at h
    · cases h
    · rename_i merged hm
      exact Int.le_trans (counter_le_mergedState hm key) (ih h key)

/-! ## The invariant -/

/-- A branch executes each node of its region at most once. -/
def BranchWithin (spec : WorkflowSpec) (joinId : String) (b : Branch) : Prop :=
  match b.place with
  | .node id => id ∈ region spec joinId b.child ∧
      b.supersteps + regionRank spec joinId b.child id ≤ (region spec joinId b.child).length + 1
  | .complete => b.supersteps ≤ (region spec joinId b.child).length + 1
  | .ended => b.supersteps ≤ (region spec joinId b.child).length + 3

/-- The steps taken, those the rank allows and those the counters still pay for stay within the
    budget. A fan-out owes the step of its children as well. -/
def Within (spec : WorkflowSpec) (limits : Dict String Nat) (budget : Nat) (r : Run) : Prop :=
  match r.place with
  | .start => r.supersteps = 0 ∧ spec.nodes.length * (1 + remaining limits r.state) ≤ budget
  | .node id => id ∈ spec.nodeIds ∧
      r.supersteps + rank spec id + spec.nodes.length * remaining limits r.state ≤ budget + 1
  | .parallel fanoutId joinId branches => (∃ children, FanoutChecked spec fanoutId children joinId ∧
      ∀ b ∈ branches, b.child ∈ children ∧ BranchWithin spec joinId b) ∧
      r.supersteps + 1 + rank spec joinId + spec.nodes.length * remaining limits r.state ≤ budget + 1
  | .ended => r.supersteps ≤ budget + 2
  | .raised _ => r.supersteps ≤ budget + 2

theorem FanoutChecked.join_mem {fanoutId joinId : String} {children : List String}
    (h : FanoutChecked spec fanoutId children joinId) : joinId ∈ spec.nodeIds := by
  obtain ⟨node, hnode, -⟩ := h.join
  obtain ⟨hn, rfl⟩ := WorkflowSpec.node?_eq_some.mp hnode
  exact List.mem_map.mpr ⟨node, hn, rfl⟩

theorem BranchWithin.move (h : Checked spec snapshot) {fanoutId joinId : String} {b b' : Branch} {action : Action}
    {log : List Execution} (hr : RegionChecked spec fanoutId joinId b.child) (hb : BranchWithin spec joinId b)
    (hm : BranchMove spec snapshot joinId b action log b') : b'.child = b.child ∧ BranchWithin spec joinId b' := by
  unfold BranchWithin at hb
  cases hm with
  | finish hplace hnode left hend =>
    rw [hplace] at hb
    have := hr.regionRank_pos hb.1
    refine ⟨rfl, ?_⟩
    simp only [BranchWithin]
    omega
  | @route id node _ _ _ _ route hplace hnode left hc hroute =>
    rw [hplace] at hb
    obtain ⟨hid, hb⟩ := hb
    obtain ⟨hn, rfl⟩ := WorkflowSpec.node?_eq_some.mp hnode
    have hpos := hr.regionRank_pos hid
    refine ⟨rfl, ?_⟩
    obtain ⟨edge, ht⟩ := h.takes hn (hr.node_type hid hn).1 hroute
    by_cases hj : route.1 = joinId
    · simp only [BranchWithin, hj, if_true]
      omega
    · have hout : edge ∈ spec.outgoing node.id := List.mem_filter.mpr ⟨ht.mem, decide_eq_true ht.source⟩
      have hin : edge.target ∈ region spec joinId b.child :=
        ((hr.routes hid hn).2 edge hout).resolve_right fun he => hj (ht.target.symm.trans he)
      have hlt := hr.regionRank_lt ht.mem (by rw [ht.source]; exact hid) hin
      rw [ht.source] at hlt
      simp only [BranchWithin, hj, if_false]
      rw [← ht.target]
      exact ⟨hin, by omega⟩
  | nested hplace hnode hf =>
    rw [hplace] at hb
    obtain ⟨hn, rfl⟩ := WorkflowSpec.node?_eq_some.mp hnode
    exact absurd hf (hr.node_type hb.1 hn).1
  | complete hplace hmerged =>
    rw [hplace] at hb
    refine ⟨rfl, ?_⟩
    simp only [BranchWithin]
    omega

theorem BranchWithin.sent {fanoutId joinId child : String} (hr : RegionChecked spec fanoutId joinId child)
    (state : WorkflowStateV1) : BranchWithin spec joinId (sendTo state fanoutId child) := by
  have := @regionRank_le spec joinId child child
  simp only [BranchWithin, sendTo]
  exact ⟨hr.child_mem_region, by omega⟩

theorem Within.move (h : Checked spec snapshot) {limits : Dict String Nat} {budget : Nat}
    (hl : limitsFrom spec snapshot .empty spec.edges = .ok limits) {r r' : Run} {action : Action} (hw : Within spec limits budget r)
    (hm : Move spec snapshot r action r') : Within spec limits budget r' := by
  unfold Within at hw
  cases hm with
  | start hplace =>
    rw [hplace] at hw
    have := @rank_le spec spec.entrypoint
    simp only [Within]
    refine ⟨spec.entrypoint_mem, ?_⟩
    rw [Nat.mul_add, Nat.mul_one] at hw
    omega
  | finish hplace hnode left hend =>
    rw [hplace] at hw
    have := h.rank_pos hw.1
    simp only [Within]
    omega
  | @route id node _ update next merged route hplace hnode hf left hc hmerged hroute hcounters =>
    rw [hplace] at hw
    obtain ⟨hid, hw⟩ := hw
    obtain ⟨hn, rfl⟩ := WorkflowSpec.node?_eq_some.mp hnode
    obtain ⟨edge, ht⟩ := h.takes hn hf hroute
    have hpos := h.rank_pos hid
    simp only [Within]
    refine ⟨ht.target ▸ (spec.endpoints_mem edge ht.mem).2, ?_⟩
    obtain hb | ⟨key, bound, hlimit, hlt, hset⟩ := ht.raises
    · -- the rank falls
      have hrank := h.rank_lt ht.mem hb
      rw [ht.source, ht.target] at hrank
      have hleft := Nat.mul_le_mul_left spec.nodes.length (remaining_le limits left.counters)
      omega
    · -- a counter pays for the rank of the target
      have hrank := @rank_le spec route.1
      have hmono := counter_le_mergedState hmerged key
      have hraised := hcounters key _ (hset _)
      have hless := remaining_lt left.counters (h.limit_of_edge hl ht.mem hlimit) (by omega) (by omega)
      have hleft := Nat.mul_le_mul_left spec.nodes.length hless
      rw [Nat.mul_succ] at hleft
      omega
  | @fanout id node _ _ next children joinId _ hplace hnode hconfig left hc =>
    rw [hplace] at hw
    obtain ⟨hid, hw⟩ := hw
    obtain ⟨hn, rfl⟩ := WorkflowSpec.node?_eq_some.mp hnode
    have hf := h.fanoutChecked hn hconfig
    have hrank := h.rank_fanout hf
    have hleft := Nat.mul_le_mul_left spec.nodes.length (remaining_le limits left.counters)
    simp only [Within]
    refine ⟨⟨children, hf, fun b hb => ?_⟩, by omega⟩
    obtain ⟨child, hchild, rfl⟩ := List.mem_map.mp hb
    exact ⟨hchild, .sent (hf.regions child hchild) next⟩
  | @branch _ fanoutId joinId branches b b' log hplace hb hmove =>
    rw [hplace] at hw
    obtain ⟨⟨children, hf, hbranches⟩, hw⟩ := hw
    simp only [Within]
    refine ⟨⟨children, hf, fun other hother => ?_⟩, hw⟩
    obtain ⟨hchild, hwithin⟩ := hbranches b hb
    obtain ⟨hsame, hwithin'⟩ := hwithin.move h (hf.regions b.child hchild) hmove
    obtain ⟨old, hold, rfl⟩ := List.mem_map.mp hother
    split
    · exact ⟨hsame ▸ hchild, hwithin'⟩
    · exact hbranches old hold
  | @join fanoutId joinId branches next hplace hended hmerged =>
    rw [hplace] at hw
    obtain ⟨⟨children, hf, -⟩, hw⟩ := hw
    have hleft := Nat.mul_le_mul_left spec.nodes.length (remaining_le limits (mergeBranches_counter hmerged))
    simp only [Within]
    exact ⟨hf.join_mem, by omega⟩
  | raise hplace =>
    simp only [Within]
    obtain ⟨id, node, hplace, -⟩ | ⟨⟨fanoutId, joinId, branches, hplace⟩, -⟩ := hplace
    · rw [hplace] at hw
      simp only at hw
      omega
    · rw [hplace] at hw
      simp only at hw
      omega

theorem Within.init (limits : Dict String Nat) :
    Within spec limits (spec.nodes.length * (1 + (limits.entries.map Prod.snd).sum)) Run.init := by
  rw [← remaining_init]
  exact ⟨rfl, Nat.le_refl _⟩

theorem Within.supersteps_le (h : Checked spec snapshot) {limits : Dict String Nat} {budget : Nat} {r : Run}
    (hw : Within spec limits budget r) : r.supersteps ≤ budget + 2 := by
  unfold Within at hw
  split at hw
  · omega
  · have := h.rank_pos hw.1
    omega
  all_goals omega

theorem Within.branches_le {limits : Dict String Nat} {budget : Nat} (hbudget : spec.nodes.length ≤ budget) {r : Run}
    (hw : Within spec limits budget r) : ∀ b ∈ r.branches, b.supersteps ≤ budget + 2 := by
  intro b hb
  unfold Run.branches at hb
  split at hb
  · rename_i fanoutId joinId branches hplace
    unfold Within at hw
    rw [hplace] at hw
    obtain ⟨⟨children, hf, hbranches⟩, -⟩ := hw
    obtain ⟨hchild, hwithin⟩ := hbranches b hb
    have hlen := (hf.regions b.child hchild).region_length hf.join_mem
    unfold BranchWithin at hwithin
    split at hwithin
    all_goals omega
  · cases hb

/-- Every run of a validated workflow, and every child graph in it, stays within the recursion
    limit it is compiled with. -/
theorem supersteps_within_limit {digests : Digests} {spec : WorkflowSpec} {snapshot : WorkflowResolvedSnapshot}
    (h : (validateWorkflow digests spec (some snapshot)).1 = true) :
    ∃ limit, superstepLimit (normalizeWorkflow spec) snapshot = .ok limit ∧
      ∀ r, Steps.Reach (step (normalizeWorkflow spec) snapshot) Run.init r →
        r.supersteps ≤ limit ∧ ∀ b ∈ r.branches, b.supersteps ≤ limit := by
  have hc := checked_of_valid h
  obtain ⟨limits, hl, hlimit⟩ := hc.superstepLimit
  refine ⟨_, hlimit, fun r hr => ?_⟩
  have hw := hr.invariant _ (Within.init limits) fun _ _ _ hw _ hs => hw.move hc hl (step_move hs)
  exact ⟨hw.supersteps_le hc, hw.branches_le (Nat.le_mul_of_pos_right _ (by omega))⟩

theorem supersteps_within_limit_retriedBuild :
    (validateWorkflow sampleDigests retriedBuild (some sampleSnapshot)).1 = true ∧
    ∀ r, Steps.Reach (step (normalizeWorkflow retriedBuild) sampleSnapshot) Run.init r →
      r.supersteps ≤ 12 ∧ ∀ b ∈ r.branches, b.supersteps ≤ 12 := by
  have h : (validateWorkflow sampleDigests retriedBuild (some sampleSnapshot)).1 = true := by decide
  refine ⟨h, ?_⟩
  obtain ⟨limit, hlimit, hruns⟩ := supersteps_within_limit h
  have htwelve : superstepLimit (normalizeWorkflow retriedBuild) sampleSnapshot = .ok 12 := by decide
  rw [htwelve] at hlimit
  cases hlimit
  exact hruns

end Jarvis.Workflows
