/-
  Jarvis.Lib.Levels — what `TopoSort.sort` computes.

  It visits the vertices that no cycle leads to (`mem_sort`), whatever the order of the vertices
  and of the edges, so all of them exactly in a graph without cycles (`sort_complete_iff`), and
  its second result is the number of vertices on a longest path through them (`sort_depth`).

  The invariant adds to that of the loop (`Leveled`) that a vertex without open edges is queued
  or visited, and that the level of a vertex is one more than the greatest level of the visited
  vertices with an edge into it, except for the edges of the vertex that is being relaxed.
-/
import Mathlib.Data.List.Chain
import Jarvis.Lib.Acyclic
import Jarvis.Lib.TopoSort

namespace Jarvis.TopoSort

open Jarvis.Explore (targets mem_targets)

variable {V : Type} [DecidableEq V] {edges : List (V × V)} {nodes : List V}

/-- There is an edge from `a` to `b`. -/
def Edge (edges : List (V × V)) (a b : V) : Prop := (a, b) ∈ edges

/-- A cycle leads to the vertex. -/
def Behind (edges : List (V × V)) (v : V) : Prop :=
  ∃ c, Relation.TransGen (Edge edges) c c ∧ Relation.ReflTransGen (Edge edges) c v

/-- A path through vertices of a list. -/
structure Path (edges : List (V × V)) (visited path : List V) : Prop where
  chain : path.IsChain (Edge edges)
  inside : path ⊆ visited

/-- A longest path through the vertices has `n` of them. -/
def LongestPath (edges : List (V × V)) (visited : List V) (n : Nat) : Prop :=
  (∃ path, Path edges visited path ∧ path.Nodup ∧ path.length = n) ∧ ∀ path, Path edges visited path → path.length ≤ n

/-- The level a vertex has been given so far. -/
def level (s : St V) (v : V) : Nat := (s.distances v).getD 1

/-- The invariant of the loop, with the targets `left` of the vertex `relaxing` still to be relaxed. -/
structure Leveled (edges : List (V × V)) (nodes : List V) (relaxing : Option V) (left : List V) (s : St V) : Prop
    extends Inv edges nodes left s where
  complete : ∀ v ∈ nodes, openIn edges s.visited v + left.count v = 0 → v ∈ s.visited ++ s.pending.map Prod.fst
  queued : ∀ e ∈ s.pending, e.2 = level s e.1
  above : ∀ a ∈ s.visited, ∀ b, (a, b) ∈ edges → level s a < level s b ∨ relaxing = some a ∧ b ∈ left
  attained : ∀ v, level s v = 1 ∨ ∃ a ∈ s.visited, (a, v) ∈ edges ∧ level s v = level s a + 1
  depth_ge : ∀ v ∈ s.visited, level s v ≤ s.depth
  depth_attained : s.visited = [] ∧ s.depth = 0 ∨ ∃ v ∈ s.visited, level s v = s.depth

/-! ## One edge -/

theorem level_relax_self (l : Nat) (s : St V) (t : V) : level (relax l s t) t = max (level s t) (l + 1) := by
  simp [level, relax]

theorem level_relax_of_ne (l : Nat) (s : St V) {t v : V} (h : v ≠ t) : level (relax l s t) v = level s v := by
  simp [level, relax, Function.update_of_ne h]

theorem relax_pending (l : Nat) (s : St V) (t : V) : (relax l s t).pending =
    if s.indegree t - 1 = 0 then s.pending ++ [(t, max (level s t) (l + 1))] else s.pending := rfl

/-- A target that is still to be relaxed is neither queued nor visited. -/
theorem Inv.ne_of_left {left : List V} {s : St V} {t v : V} (hi : Inv edges nodes (t :: left) s)
    (hv : v ∈ s.visited ++ s.pending.map Prod.fst) : v ≠ t := by
  intro h
  have hready := hi.ready v hv
  rw [h, List.count_cons_self] at hready
  omega

section Relax

variable {u t : V} {left : List V} {s : St V}

theorem Leveled.level_relax (hi : Leveled edges nodes (some u) (t :: left) s) (l : Nat) {v : V}
    (hv : v ∈ s.visited ++ s.pending.map Prod.fst) : level (relax l s t) v = level s v :=
  level_relax_of_ne l s (hi.toInv.ne_of_left hv)

theorem Leveled.relax_complete (hi : Leveled edges nodes (some u) (t :: left) s) (l : Nat) :
    ∀ v ∈ nodes, openIn edges s.visited v + left.count v = 0 → v ∈ s.visited ++ (relax l s t).pending.map Prod.fst := by
  intro v hv hopen
  rw [relax_pending]
  by_cases h : v = t
  · have hdegree := hi.indegree t
    rw [List.count_cons_self] at hdegree
    rw [h] at hopen
    have hzero : s.indegree t - 1 = 0 := by omega
    rw [if_pos hzero, h]
    simp
  · have hmem := hi.complete v hv (by rw [List.count_cons_of_ne (Ne.symm h)]; exact hopen)
    split
    · rw [List.map_append, ← List.append_assoc]
      exact List.mem_append_left _ hmem
    · exact hmem

theorem Leveled.relax_queued (hi : Leveled edges nodes (some u) (t :: left) s) (l : Nat) :
    ∀ e ∈ (relax l s t).pending, e.2 = level (relax l s t) e.1 := by
  have hold : ∀ e ∈ s.pending, e.2 = level (relax l s t) e.1 := by
    intro e he
    rw [hi.level_relax l (List.mem_append_right _ (List.mem_map_of_mem he))]
    exact hi.queued e he
  rw [relax_pending]
  split
  · intro e he
    rcases List.mem_append.mp he with he | he
    · exact hold e he
    · rw [List.mem_singleton.mp he]
      exact (level_relax_self l s t).symm
  · exact hold

theorem Leveled.relax_above (hi : Leveled edges nodes (some u) (t :: left) s) :
    ∀ a ∈ s.visited, ∀ b, (a, b) ∈ edges →
      level s a < level (relax (level s u) s t) b ∨ some u = some a ∧ b ∈ left := by
  intro a ha b hab
  by_cases h : b = t
  · subst h
    rw [level_relax_self]
    rcases hi.above a ha b hab with hlt | ⟨hau, -⟩
    · omega
    · obtain rfl : u = a := Option.some.inj hau
      omega
  · rw [level_relax_of_ne _ s h]
    exact (hi.above a ha b hab).imp_right fun hex => ⟨hex.1, (List.mem_cons.mp hex.2).resolve_left h⟩

theorem Leveled.relax_attained (hi : Leveled edges nodes (some u) (t :: left) s) (hu : u ∈ s.visited)
    (hedge : (u, t) ∈ edges) (v : V) : level (relax (level s u) s t) v = 1 ∨
      ∃ a ∈ s.visited, (a, v) ∈ edges ∧ level (relax (level s u) s t) v = level s a + 1 := by
  by_cases h : v = t
  · subst h
    rw [level_relax_self]
    rcases Nat.le_total (level s v) (level s u + 1) with hle | hle
    · rw [Nat.max_eq_right hle]
      exact .inr ⟨u, hu, hedge, rfl⟩
    · rw [Nat.max_eq_left hle]
      exact hi.attained v
  · rw [level_relax_of_ne _ s h]
    exact hi.attained v

theorem Leveled.relax (hi : Leveled edges nodes (some u) (t :: left) s) (ht : t ∈ nodes) (hu : u ∈ s.visited)
    (hedge : (u, t) ∈ edges) : Leveled edges nodes (some u) left (relax (level s u) s t) := by
  have hkept : ∀ v ∈ s.visited, level (TopoSort.relax (level s u) s t) v = level s v := fun v hv =>
    hi.level_relax _ (List.mem_append_left _ hv)
  refine ⟨hi.toInv.relax ht (level s u), hi.relax_complete _, hi.relax_queued _, ?_, ?_, ?_, ?_⟩
  · intro a ha
    rw [hkept a ha]
    exact hi.relax_above a ha
  · intro v
    refine (hi.relax_attained hu hedge v).imp_right fun ⟨a, ha, hav, hl⟩ => ⟨a, ha, hav, ?_⟩
    rw [hkept a ha]
    exact hl
  · intro v hv
    rw [hkept v hv]
    exact hi.depth_ge v hv
  · refine hi.depth_attained.imp_right fun ⟨v, hv, hl⟩ => ⟨v, hv, ?_⟩
    rw [hkept v hv]
    exact hl

end Relax

theorem Leveled.foldl {u : V} (l : Nat) : ∀ (left : List V) {s : St V}, (∀ t ∈ left, t ∈ nodes ∧ (u, t) ∈ edges) →
    u ∈ s.visited → level s u = l → Leveled edges nodes (some u) left s →
    Leveled edges nodes (some u) [] (left.foldl (TopoSort.relax l) s) := by
  intro left
  induction left with
  | nil => intro s _ _ _ hi; exact hi
  | cons t left ih =>
    intro s hleft hu hl hi
    obtain ⟨ht, hedge⟩ := hleft t List.mem_cons_self
    have hsame := hi.level_relax l (List.mem_append_left _ hu)
    subst hl
    exact ih (fun v hv => hleft v (List.mem_cons_of_mem _ hv)) hu hsame (hi.relax ht hu hedge)

/-! ## The loop -/

/-- Between two visits no edge is excepted. -/
theorem Leveled.settle {u : Option V} {s : St V} (hi : Leveled edges nodes u [] s) : Leveled edges nodes none [] s where
  toInv := hi.toInv
  complete := hi.complete
  queued := hi.queued
  above a ha b hab := (hi.above a ha b hab).imp_right fun h => absurd h.2 List.not_mem_nil
  attained := hi.attained
  depth_ge := hi.depth_ge
  depth_attained := hi.depth_attained

theorem Leveled.start (hnodup : nodes.Nodup) : Leveled edges nodes none [] (start edges nodes) := by
  have hlevel : ∀ v, level (TopoSort.start edges nodes) v = 1 := fun _ => rfl
  refine ⟨Inv.start hnodup, ?_, ?_, ?_, fun v => .inl (hlevel v), ?_, .inl ⟨rfl, rfl⟩⟩
  · intro v hv hopen
    have hzero : openIn edges [] v = 0 := hopen
    exact List.mem_map.mpr ⟨(v, 1), List.mem_map.mpr ⟨v, List.mem_filter.mpr ⟨hv, by simp [hzero]⟩, rfl⟩, rfl⟩
  · intro e he
    obtain ⟨v, -, rfl⟩ := List.mem_map.mp he
    rfl
  · exact fun a ha => absurd ha List.not_mem_nil
  · exact fun a ha => absurd ha List.not_mem_nil

theorem Leveled.pop {s : St V} {v : V} {l : Nat} {rest : List (V × Nat)} (hi : Leveled edges nodes none [] s)
    (hp : s.pending = (v, l) :: rest) : Leveled edges nodes (some v) (targets edges v)
      { s with pending := rest, visited := s.visited ++ [v], depth := max s.depth l } := by
  have hl : l = level s v := hi.queued (v, l) (by simp [hp])
  have hnew : v ∉ s.visited := fun h => List.disjoint_of_nodup_append hi.nodup h (by simp [hp])
  refine ⟨hi.toInv.pop hp, ?_, fun e he => hi.queued e (by simp [hp, he]), ?_, ?_, ?_, .inr ?_⟩
  · intro w hw hopen
    have hmem := hi.complete w hw (by rw [openIn_append _ hnew w]; exact hopen)
    rw [hp] at hmem
    simpa using hmem
  · intro a ha b hab
    rcases List.mem_append.mp ha with ha | ha
    · exact .inl ((hi.above a ha b hab).resolve_right fun h => List.not_mem_nil h.2)
    · obtain rfl := List.mem_singleton.mp ha
      exact .inr ⟨rfl, mem_targets.mpr hab⟩
  · intro w
    exact (hi.attained w).imp_right fun ⟨a, ha, h⟩ => ⟨a, List.mem_append_left _ ha, h⟩
  · intro w hw
    rcases List.mem_append.mp hw with hw | hw
    · exact Nat.le_trans (hi.depth_ge w hw) (Nat.le_max_left _ _)
    · rw [List.mem_singleton.mp hw, hl]
      exact Nat.le_max_right _ _
  · rcases Nat.le_total l s.depth with hle | hle
    · have hdepth : level s v ≤ s.depth := hl ▸ hle
      rcases hi.depth_attained with ⟨-, hzero⟩ | ⟨w, hw, hlevel⟩
      · have : 1 ≤ level s v := by
          rcases hi.attained v with h | ⟨a, -, -, h⟩ <;> omega
        omega
      · exact ⟨w, List.mem_append_left _ hw, by rw [Nat.max_eq_left hle]; exact hlevel⟩
    · exact ⟨v, List.mem_append_right _ List.mem_cons_self, by rw [Nat.max_eq_right hle]; exact hl.symm⟩

theorem Leveled.visit {s : St V} {v : V} {l : Nat} {rest : List (V × Nat)} (htargets : ∀ v ∈ nodes, targets edges v ⊆ nodes)
    (hi : Leveled edges nodes none [] s) (hp : s.pending = (v, l) :: rest) :
    Leveled edges nodes none [] (visit edges s v l rest) := by
  have hl : l = level s v := hi.queued (v, l) (by simp [hp])
  have hnode : v ∈ nodes := hi.subset (by simp [hp])
  have hpop := hi.pop hp
  have hfold := Leveled.foldl l (targets edges v) (fun t ht => ⟨htargets v hnode ht, mem_targets.mp ht⟩)
    (List.mem_append_right s.visited List.mem_cons_self) (by exact hl.symm) hpop
  exact hfold.settle

theorem Leveled.loop (htargets : ∀ v ∈ nodes, targets edges v ⊆ nodes) (fuel : Nat) : ∀ {s : St V},
    Leveled edges nodes none [] s → Leveled edges nodes none [] (loop edges fuel s) := by
  induction fuel with
  | zero => intro s hi; exact hi
  | succ fuel ih =>
    intro s hi
    rw [TopoSort.loop]
    split
    · exact hi
    · rename_i hp
      exact ih (hi.visit htargets hp)

/-! ## The queue runs empty -/

theorem foldl_relax_visited (l : Nat) : ∀ (left : List V) (s : St V), (left.foldl (relax l) s).visited = s.visited := by
  intro left
  induction left with
  | nil => intro s; rfl
  | cons t left ih => intro s; exact ih _

theorem Inv.length_le {s : St V} (hi : Inv edges nodes [] s) : s.visited.length + s.pending.length ≤ nodes.length := by
  have hle := (List.subperm_of_subset hi.nodup hi.subset).length_le
  simpa using hle

theorem loop_pending (htargets : ∀ v ∈ nodes, targets edges v ⊆ nodes) (fuel : Nat) : ∀ {s : St V},
    Inv edges nodes [] s → nodes.length ≤ s.visited.length + fuel → (loop edges fuel s).pending = [] := by
  induction fuel with
  | zero =>
    intro s hi hfuel
    have hle := hi.length_le
    have hnone : s.pending.length = 0 := by omega
    exact List.eq_nil_of_length_eq_zero hnone
  | succ fuel ih =>
    intro s hi hfuel
    rw [TopoSort.loop]
    split
    · assumption
    · rename_i v l rest hp
      refine ih (hi.visit htargets hp) ?_
      rw [TopoSort.visit, foldl_relax_visited]
      simp only [List.length_append, List.length_singleton]
      omega

/-! ## What is visited -/

theorem Leveled.edge_mem {s : St V} (hi : Leveled edges nodes none [] s) {a b : V} (hab : Edge edges a b)
    (hb : b ∈ s.visited) : a ∈ s.visited :=
  openIn_zero (by simpa using hi.ready b (List.mem_append_left _ hb)) hab

theorem Leveled.edge_lt {s : St V} (hi : Leveled edges nodes none [] s) {a b : V} (hab : Edge edges a b)
    (ha : a ∈ s.visited) : level s a < level s b :=
  (hi.above a ha b hab).resolve_right fun h => List.not_mem_nil h.2

/-- No cycle leads to a visited vertex. -/
theorem Leveled.not_behind {s : St V} (hi : Leveled edges nodes none [] s) {v : V} (hv : v ∈ s.visited) :
    ¬ Behind edges v := by
  rintro ⟨c, hcycle, hpath⟩
  have hc : c ∈ s.visited := by
    clear hcycle
    induction hpath using Relation.ReflTransGen.head_induction_on with
    | refl => exact hv
    | head hstep _ ih => exact hi.edge_mem hstep ih
  -- levels rise along the cycle
  have hlt : ∀ {b}, Relation.TransGen (Edge edges) c b → b ∈ s.visited → level s c < level s b := by
    intro b h
    induction h with
    | single hstep => exact fun hb => hi.edge_lt hstep (hi.edge_mem hstep hb)
    | tail _ hstep ih =>
      intro hb
      have hmiddle := hi.edge_mem hstep hb
      exact Nat.lt_trans (ih hmiddle) (hi.edge_lt hstep hmiddle)
  exact Nat.lt_irrefl _ (hlt hcycle hc)

theorem Leveled.behind {s : St V} (hi : Leveled edges nodes none [] s) (hp : s.pending = [])
    (hedges : ∀ e ∈ edges, e.1 ∈ nodes ∧ e.2 ∈ nodes) {v : V} (hnode : v ∈ nodes) (hv : v ∉ s.visited) : Behind edges v := by
  refine Acyclic.exists_cycle (U := nodes.filter (· ∉ s.visited)) ?_ (List.mem_filter.mpr ⟨hnode, by simpa using hv⟩)
  intro w hw
  obtain ⟨hwnode, hw⟩ := List.mem_filter.mp hw
  -- an unvisited vertex has an open edge
  have hopen : openIn edges s.visited w ≠ 0 := by
    intro hzero
    have hmem := hi.complete w hwnode (by simpa using hzero)
    exact of_decide_eq_true hw (by simpa [hp] using hmem)
  obtain ⟨e, he, hopen⟩ := List.countP_pos_iff.mp (Nat.pos_of_ne_zero hopen)
  obtain ⟨rfl, hsource⟩ := of_decide_eq_true hopen
  exact ⟨e.1, List.mem_filter.mpr ⟨(hedges e he).1, by simpa using hsource⟩, he⟩

theorem targets_subset (hedges : ∀ e ∈ edges, e.1 ∈ nodes ∧ e.2 ∈ nodes) : ∀ v ∈ nodes, targets edges v ⊆ nodes :=
  fun _ _ _ ht => (hedges _ (mem_targets.mp ht)).2

section Sorted

variable (hnodup : nodes.Nodup) (hedges : ∀ e ∈ edges, e.1 ∈ nodes ∧ e.2 ∈ nodes)
include hnodup hedges

theorem sort_leveled : Leveled edges nodes none [] (loop edges nodes.length (start edges nodes)) :=
  (Leveled.start hnodup).loop (targets_subset hedges) _

theorem sort_pending : (loop edges nodes.length (start edges nodes)).pending = [] :=
  loop_pending (targets_subset hedges) _ (Inv.start hnodup) (Nat.le_add_left _ _)

/-- Visited are the vertices that no cycle leads to. -/
theorem mem_sort {v : V} : v ∈ (sort edges nodes).1 ↔ v ∈ nodes ∧ ¬ Behind edges v := by
  have hi := sort_leveled hnodup hedges
  constructor
  · intro hv
    exact ⟨hi.subset (List.mem_append_left _ hv), hi.not_behind hv⟩
  · rintro ⟨hnode, hfree⟩
    by_contra hv
    exact hfree (hi.behind (sort_pending hnodup hedges) hedges hnode hv)

theorem sort_complete_iff :
    (∀ v ∈ nodes, v ∈ (sort edges nodes).1) ↔ ∀ v, ¬ Relation.TransGen (Edge edges) v v := by
  constructor
  · intro hall v hcycle
    obtain ⟨w, hstep, -⟩ := Relation.TransGen.head'_iff.mp hcycle
    exact ((mem_sort hnodup hedges).mp (hall v (hedges _ hstep).1)).2 ⟨v, hcycle, .refl⟩
  · intro hfree v hv
    exact (mem_sort hnodup hedges).mpr ⟨hv, fun ⟨c, hcycle, _⟩ => hfree c hcycle⟩

end Sorted

/-! ## Longest paths -/

theorem Leveled.level_pos {s : St V} (hi : Leveled edges nodes none [] s) (v : V) : 1 ≤ level s v := by
  rcases hi.attained v with h | ⟨a, -, -, h⟩ <;> omega

theorem Leveled.path_le {s : St V} (hi : Leveled edges nodes none [] s) : ∀ {path : List V} {a : V},
    Path edges s.visited (a :: path) → level s a + path.length ≤ s.depth := by
  intro path
  induction path with
  | nil => intro a h; exact hi.depth_ge a (h.inside List.mem_cons_self)
  | cons b path ih =>
    intro a h
    obtain ⟨hab, hchain⟩ := List.isChain_cons_cons.mp h.chain
    have hlt := hi.edge_lt hab (h.inside List.mem_cons_self)
    have hrest := ih ⟨hchain, fun v hv => h.inside (List.mem_cons_of_mem _ hv)⟩
    rw [List.length_cons]
    omega

/-- Levels rise along a path. -/
theorem Leveled.path_nodup {s : St V} (hi : Leveled edges nodes none [] s) {path : List V}
    (h : Path edges s.visited path) : path.Nodup := by
  have hrise : path.IsChain fun a b => level s a < level s b :=
    h.chain.imp_of_mem_imp fun a b ha _ hab => hi.edge_lt hab (h.inside ha)
  have htrans : Trans (fun a b => level s a < level s b) (fun a b => level s a < level s b)
      (fun a b : V => level s a < level s b) := ⟨Nat.lt_trans⟩
  refine (List.isChain_iff_pairwise.mp hrise).imp fun {a b} hlt heq => ?_
  rw [heq] at hlt
  exact Nat.lt_irrefl _ hlt

/-- A path to a visited vertex as long as its level. -/
theorem Leveled.exists_path {s : St V} (hi : Leveled edges nodes none [] s) (n : Nat) : ∀ {v : V}, v ∈ s.visited →
    level s v = n + 1 → ∃ path, Path edges s.visited (path ++ [v]) ∧ path.length = n := by
  induction n with
  | zero =>
    intro v hv _
    exact ⟨[], ⟨List.isChain_singleton v, by simpa using hv⟩, rfl⟩
  | succ n ih =>
    intro v hv hlevel
    rcases hi.attained v with hone | ⟨a, ha, hav, hl⟩
    · omega
    · obtain ⟨path, hpath, hlen⟩ := ih ha (by omega)
      refine ⟨path ++ [a], ⟨?_, ?_⟩, by simp [hlen]⟩
      · refine List.isChain_append.mpr ⟨hpath.chain, List.isChain_singleton v, ?_⟩
        simpa [Edge] using hav
      · exact List.append_subset.mpr ⟨hpath.inside, by simpa using hv⟩

/-- The depth is the length of a longest path through what is visited. -/
theorem sort_depth (hnodup : nodes.Nodup) (hedges : ∀ e ∈ edges, e.1 ∈ nodes ∧ e.2 ∈ nodes) :
    LongestPath edges (sort edges nodes).1 (sort edges nodes).2 := by
  have hi := sort_leveled hnodup hedges
  constructor
  · rcases hi.depth_attained with ⟨-, hzero⟩ | ⟨v, hv, hlevel⟩
    · exact ⟨[], ⟨List.IsChain.nil, List.nil_subset _⟩, List.nodup_nil, hzero.symm⟩
    · have hpos := hi.level_pos v
      obtain ⟨n, hn⟩ := Nat.exists_eq_succ_of_ne_zero (Nat.pos_iff_ne_zero.mp hpos)
      obtain ⟨path, hpath, hlen⟩ := hi.exists_path n hv hn
      refine ⟨path ++ [v], hpath, hi.path_nodup hpath, ?_⟩
      rw [List.length_append, hlen, List.length_singleton]
      exact hn.symm.trans hlevel
  · intro path hpath
    cases path with
    | nil => exact Nat.zero_le _
    | cons a path =>
      have hle := hi.path_le hpath
      have hpos := hi.level_pos a
      have hdepth : level _ a + path.length ≤ (sort edges nodes).2 := hle
      rw [List.length_cons]
      omega

end Jarvis.TopoSort
