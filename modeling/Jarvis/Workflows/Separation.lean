/-
  Jarvis.Workflows.Separation — parallel regions are separate.

  The compiler's regions are the validator's. Two regions share no node, a region has no
  cycle, is entered only from its fan-out at its child, and is left only to its join. The
  join itself is entered only from those regions, and the main graph never enters one: the
  entrypoint lies in none, since a fan-out cannot be reached from its own regions or join.
-/
import Mathlib.Data.List.Pairwise
import Jarvis.Workflows.Regions

namespace Jarvis.Workflows

open Jarvis.Explore (Walk reachable targets)

variable {spec : WorkflowSpec} {snapshot : WorkflowResolvedSnapshot}

/-! ## Regions -/

/-- `child` is one of the children a fan-out declares, with the given join. -/
def IsChild (spec : WorkflowSpec) (fanoutId joinId child : String) : Prop :=
  ∃ node ∈ spec.nodes, node.id = fanoutId ∧
    ∃ children maxFanout, node.config = .fanout children joinId maxFanout ∧ child ∈ children

theorem branchRegion_eq (joinId : String) : ∀ (fuel : Nat) (pending visited : List String),
    branchRegion spec joinId fuel pending visited =
      Explore.explore (targets (pairs spec.edges)) (Explore.stopAt (some joinId)) fuel pending visited := by
  intro fuel
  induction fuel with
  | zero => intro pending visited; rfl
  | succ fuel ih =>
    intro pending visited
    cases pending with
    | nil => rfl
    | cons current pending =>
      rw [branchRegion, Explore.explore, ih, ih, adjacency_eq_targets]
      have hcond : (current ∈ visited ∨ Explore.stopAt (some joinId) current = true) ↔
          (current = joinId ∨ current ∈ visited) := by
        simp only [Explore.stopAt, beq_iff_eq, Option.some.injEq]
        exact or_comm.trans (or_congr_left eq_comm)
      by_cases h : current = joinId ∨ current ∈ visited
      · rw [if_pos h, if_pos (hcond.mpr h)]
      · rw [if_neg h, if_neg (mt hcond.mp h)]

/-- The regions the compiler computes are the validator's. -/
theorem branchRegions_eq (spec : WorkflowSpec) : branchRegions spec = fanoutRegions spec := by
  unfold branchRegions fanoutRegions
  refine List.filterMap_congr fun node _ => ?_
  cases node.config with
  | fanout children joinId maxFanout => simp only [branchRegion_eq, region, reachable, pairs, List.length_map]
  | _ => rfl

theorem fanoutLoop_disjoint : ∀ {nodes : List WorkflowNode} {claimed owned : List String},
    fanoutLoop spec claimed owned nodes = [] →
    (∀ node ∈ nodes, ∀ children joinId maxFanout, node.config = .fanout children joinId maxFanout →
      ∀ child ∈ children, ∀ id ∈ region spec joinId child, id ∉ owned) ∧
    nodes.Pairwise fun a b => ∀ children joinId maxFanout children' joinId' maxFanout',
      a.config = .fanout children joinId maxFanout → b.config = .fanout children' joinId' maxFanout' →
      ∀ child ∈ children, ∀ child' ∈ children', ∀ id ∈ region spec joinId child, id ∉ region spec joinId' child' := by
  intro nodes
  induction nodes with
  | nil => intro _ _ _; exact ⟨by simp, .nil⟩
  | cons first nodes ih =>
    intro claimed owned h
    rw [fanoutLoop] at h
    split at h
    · rename_i children joinId maxFanout hconfig
      simp only [List.append_eq_nil_iff] at h
      obtain ⟨hlater, hpairs⟩ := ih h.2
      have hfirst := h.1
      unfold fanoutNodeIssues at hfirst hlater
      simp only [List.append_eq_nil_iff] at hfirst
      obtain ⟨howned, hdisjoint, -⟩ := childrenIssues_owned hfirst.1.2
      simp only [List.nil_append] at howned hdisjoint
      refine ⟨fun node hn => ?_, List.pairwise_cons.mpr ⟨fun other ho => ?_, hpairs⟩⟩
      · rcases List.mem_cons.mp hn with rfl | hn
        · intro children' joinId' _ hconfig' child hchild
          rw [hconfig] at hconfig'
          cases hconfig'
          exact hdisjoint child (List.mem_eraseDups.mpr hchild)
        · intro children' joinId' maxFanout' hconfig' child hchild id hid hin
          exact hlater node hn children' joinId' maxFanout' hconfig' child hchild id hid (List.mem_append_left _ hin)
      · intro children₁ joinId₁ _ children' joinId' maxFanout' hconfig₁ hconfig' child hchild child' hchild' id hid hid'
        rw [hconfig] at hconfig₁
        cases hconfig₁
        refine hlater other ho children' joinId' maxFanout' hconfig' child' hchild' id hid' ?_
        rw [howned]
        exact List.mem_append_right _ (List.mem_flatMap.mpr ⟨child, List.mem_eraseDups.mpr hchild, hid⟩)
    · rename_i hnot
      obtain ⟨hlater, hpairs⟩ := ih h
      refine ⟨fun node hn => ?_, List.pairwise_cons.mpr ⟨fun other ho => ?_, hpairs⟩⟩
      · rcases List.mem_cons.mp hn with rfl | hn
        · intro children joinId maxFanout hconfig
          exact absurd hconfig (hnot children joinId maxFanout)
        · exact hlater node hn
      · intro children joinId maxFanout _ _ _ hconfig
        exact absurd hconfig (hnot children joinId maxFanout)

/-- A node lies in at most one region. -/
theorem Checked.region_disjoint (h : Checked spec snapshot) {f j c f' j' c' : String} (hc : IsChild spec f j c)
    (hc' : IsChild spec f' j' c') {id : String} (hid : id ∈ region spec j c) (hid' : id ∈ region spec j' c') :
    f = f' ∧ c = c' := by
  obtain ⟨a, ha, rfl, children, maxFanout, hconfig, hchild⟩ := hc
  obtain ⟨b, hb, rfl, children', maxFanout', hconfig', hchild'⟩ := hc'
  have hpairs := (fanoutLoop_disjoint h.fanout).2
  have hsymm : Std.Symm fun a b : WorkflowNode => ∀ children joinId maxFanout children' joinId' maxFanout',
      a.config = .fanout children joinId maxFanout → b.config = .fanout children' joinId' maxFanout' →
      ∀ child ∈ children, ∀ child' ∈ children', ∀ id ∈ region spec joinId child, id ∉ region spec joinId' child' :=
    ⟨fun _ _ hab _ _ _ _ _ _ hb ha child hchild child' hchild' id hid hid' =>
      hab _ _ _ _ _ _ ha hb child' hchild' child hchild id hid' hid⟩
  by_cases hab : a = b
  · subst hab
    rw [hconfig] at hconfig'
    cases hconfig'
    obtain ⟨claimed, owned, hi⟩ := fanoutLoop_nil h.fanout a ha hconfig
    unfold fanoutNodeIssues at hi
    simp only [List.append_eq_nil_iff] at hi
    have hsiblings := (childrenIssues_owned hi.1.2).2.2
    have hsymm' : Std.Symm fun c c' => ∀ id ∈ region spec j c, id ∉ region spec j c' :=
      ⟨fun _ _ hcc id hid hid' => hcc id hid' hid⟩
    refine ⟨rfl, ?_⟩
    by_contra hne
    exact hsiblings.forall (List.mem_eraseDups.mpr hchild) (List.mem_eraseDups.mpr hchild') hne id hid hid'
  · exact absurd hid' (hpairs.forall ha hb hab _ _ _ _ _ _ hconfig hconfig' c hchild c' hchild' id hid)

theorem Checked.regionChecked (h : Checked spec snapshot) {f j c : String} (hc : IsChild spec f j c) :
    RegionChecked spec f j c := by
  obtain ⟨node, hn, rfl, children, maxFanout, hconfig, hchild⟩ := hc
  exact (h.fanoutChecked hn hconfig).regions c hchild

/-- A region is entered only from its fan-out, at its child. -/
theorem RegionChecked.entry {f j c : String} (h : RegionChecked spec f j c) {edge : WorkflowEdge} (he : edge ∈ spec.edges)
    (ht : edge.target ∈ region spec j c) : edge.source ∈ region spec j c ∨ (edge.source = f ∧ edge.target = c) := by
  obtain ⟨node, hnode⟩ := WorkflowSpec.exists_node (h.mem_nodeIds ht)
  have hid := (WorkflowSpec.node?_eq_some.mp hnode).2
  have hi := h.nodes edge.target ht node hnode
  unfold regionNodeIssues at hi
  simp only [List.append_eq_nil_iff, List.flatMap_eq_nil_iff, check_eq_nil] at hi
  have hedge := hi.2 edge he
  by_contra hn
  rw [not_or] at hn
  simp [hid, hn.1] at hedge
  exact hn.2 hedge

/-- Nothing in a region, nor its join, leads back to the fan-out. -/
theorem Checked.no_reentry (h : Checked spec snapshot) {f j c : String} (hc : IsChild spec f j c) {start : String}
    (hs : start ∈ region spec j c ∨ start = j) : ¬ ∃ w, Walk spec.adjacency start w f := by
  have hr := h.regionChecked hc
  have hfrom : ∀ w id, Walk spec.adjacency start w id →
      id ∈ region spec j c ∨ id ∈ reachable (pairs spec.edges) j none := by
    intro w id hw
    induction hw with
    | nil =>
      rcases hs with hs | rfl
      · exact .inl hs
      · exact .inr (mem_reachable_edges.mpr ⟨[], .nil, by simp⟩)
    | @snoc w b id hw hid ih =>
      rcases ih with hb | hb
      · obtain ⟨edge, hedge, rfl⟩ := List.mem_map.mp hid
        obtain ⟨node, hnode⟩ := WorkflowSpec.exists_node (hr.mem_nodeIds hb)
        obtain ⟨hn, rfl⟩ := WorkflowSpec.node?_eq_some.mp hnode
        rcases (hr.routes hb hn).2 edge hedge with ht | ht
        · exact .inl ht
        · refine .inr (mem_reachable_edges.mpr ⟨[], ?_, by simp⟩)
          rw [ht]
          exact .nil
      · obtain ⟨w', hw', -⟩ := mem_reachable_edges.mp hb
        exact .inr (mem_reachable_edges.mpr ⟨_, hw'.snoc hid, by simp⟩)
  rintro ⟨w, hw⟩
  rcases hfrom w f hw with hin | hin
  · obtain ⟨node, hn, rfl, children, maxFanout, hconfig, -⟩ := hc
    exact (hr.node_type hin hn).1 (by simp [WorkflowNode.type, hconfig])
  · exact hr.reentry hin

/-- The entrypoint lies in no region and is no join. -/
theorem Checked.entrypoint_outside (h : Checked spec snapshot) {f j c : String} (hc : IsChild spec f j c) :
    spec.entrypoint ∉ region spec j c ∧ spec.entrypoint ≠ j := by
  have hreach : ∃ w, Walk spec.adjacency spec.entrypoint w f := by
    obtain ⟨node, hn, rfl, -⟩ := hc
    have hgraph := h.nodeGraph hn
    unfold nodeGraphIssues at hgraph
    simp only [List.append_eq_nil_iff, check_eq_nil, decide_eq_false_iff_not, Decidable.not_not] at hgraph
    obtain ⟨w, hw, -⟩ := mem_reachable_edges.mp hgraph.1.1
    exact ⟨w, hw⟩
  exact ⟨fun hin => h.no_reentry hc (.inl hin) hreach, fun he => h.no_reentry hc (.inr he) hreach⟩

/-- Every join belongs to a fan-out. -/
theorem fanoutLoop_claims {join : WorkflowNode} (hj : join ∈ spec.nodes) (ht : join.type = .join) :
    ∀ {nodes : List WorkflowNode} {claimed owned : List String}, fanoutLoop spec claimed owned nodes = [] →
      join.id ∈ claimed ∨ ∃ node ∈ nodes, ∃ children maxFanout, node.config = .fanout children join.id maxFanout := by
  intro nodes
  induction nodes with
  | nil =>
    intro claimed owned h
    rw [fanoutLoop] at h
    simp only [List.flatMap_eq_nil_iff, check_eq_nil] at h
    have := h join hj
    simp [ht] at this
    exact .inl this
  | cons first nodes ih =>
    intro claimed owned h
    rw [fanoutLoop] at h
    split at h
    · rename_i children joinId maxFanout hconfig
      simp only [List.append_eq_nil_iff] at h
      rcases ih h.2 with hin | ⟨node, hn, hnode⟩
      · rcases List.mem_cons.mp hin with he | hin
        · exact .inr ⟨first, List.mem_cons_self, children, maxFanout, by rw [hconfig, he]⟩
        · exact .inl hin
      · exact .inr ⟨node, List.mem_cons_of_mem _ hn, hnode⟩
    · rcases ih h with hin | ⟨node, hn, hnode⟩
      · exact .inl hin
      · exact .inr ⟨node, List.mem_cons_of_mem _ hn, hnode⟩

/-- The fan-out of a join, which the join's configuration names. -/
theorem Checked.fanout_of_join (h : Checked spec snapshot) {join : WorkflowNode} (hj : join ∈ spec.nodes)
    {fanoutId : String} (hconfig : join.config = .join fanoutId) :
    ∃ node ∈ spec.nodes, node.id = fanoutId ∧ ∃ children maxFanout, node.config = .fanout children join.id maxFanout := by
  have ht : join.type = .join := by simp [WorkflowNode.type, hconfig]
  obtain hc | ⟨node, hn, children, maxFanout, hnode⟩ := fanoutLoop_claims hj ht h.fanout
  · cases hc
  · obtain ⟨join', hjoin', hconfig'⟩ := (h.fanoutChecked hn hnode).join
    rw [WorkflowSpec.node?_of_mem hj] at hjoin'
    cases hjoin'
    rw [hconfig] at hconfig'
    cases hconfig'
    exact ⟨node, hn, rfl, children, maxFanout, hnode⟩

/-- A region has no cycle: along a walk inside it the rank falls. -/
theorem RegionChecked.rank_walk {f j c : String} (h : RegionChecked spec f j c) {a b : String} {w : List String}
    (hw : Walk spec.adjacency a w b) (hsub : ∀ u ∈ w, u ∈ region spec j c) (hb : b ∈ region spec j c) (hne : w ≠ []) :
    regionRank spec j c b < regionRank spec j c a := by
  induction hw with
  | nil => exact absurd rfl hne
  | @snoc w m b hw hstep ih =>
    have hm : m ∈ region spec j c := hsub m (by simp)
    obtain ⟨edge, hedge, rfl⟩ := List.mem_map.mp hstep
    obtain ⟨hin, hsource⟩ := List.mem_filter.mp hedge
    rw [decide_eq_true_eq] at hsource
    have hlt := h.regionRank_lt hin (by rw [hsource]; exact hm) hb
    rw [hsource] at hlt
    by_cases hnil : w = []
    · subst hnil
      rw [hw.nil_end] at hlt
      exact hlt
    · exact Nat.lt_trans hlt (ih (fun u hu => hsub u (List.mem_append_left _ hu)) hm hnil)

end Jarvis.Workflows
