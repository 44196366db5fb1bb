/-
  Jarvis.Lib.TopoSort — visiting a graph in topological order by counting indegrees.

  A vertex waits until every edge into it comes from a visited vertex; then it is queued
  with its level, the length of the longest path that led to it. A vertex on a cycle, or
  behind one, keeps an open edge and is never visited. The invariant of the loop is that
  `indegree` counts the open edges (`openIn`), that queued and visited vertices have none,
  and that the visited vertices stand in an order in which every edge points forward
  (`Ordered`), from which a rank that falls along every edge is read off (`rank`).
-/
import Mathlib.Data.List.Nodup
import Mathlib.Data.List.Count
import Mathlib.Logic.Function.Basic
import Mathlib.Tactic.Common
import Jarvis.Lib.Explore

namespace Jarvis.TopoSort

open Jarvis.Explore (targets targets_cons)

variable {V : Type} [DecidableEq V] (edges : List (V × V))

structure St (V : Type) where
  pending : List (V × Nat)
  visited : List V
  depth : Nat
  indegree : V → Int
  distances : V → Option Nat

/-- One edge out of a vertex of level `level`: its target has one open edge less, and is
    queued when that was the last one. -/
def relax (level : Nat) (s : St V) (target : V) : St V :=
  let open_ := s.indegree target - 1
  let distance := max ((s.distances target).getD 1) (level + 1)
  { s with
    indegree := Function.update s.indegree target open_
    distances := Function.update s.distances target (some distance)
    pending := if open_ = 0 then s.pending ++ [(target, distance)] else s.pending }

def visit (s : St V) (v : V) (level : Nat) (rest : List (V × Nat)) : St V :=
  (targets edges v).foldl (relax level)
    { s with pending := rest, visited := s.visited ++ [v], depth := max s.depth level }

def loop : Nat → St V → St V
  | 0, s => s
  | fuel + 1, s =>
    match s.pending with
    | [] => s
    | (v, level) :: rest => loop fuel (visit edges s v level rest)

/-- The edges into `v` whose source has not been visited. -/
def openIn (visited : List V) (v : V) : Nat := edges.countP fun e => e.2 = v ∧ e.1 ∉ visited

def start (nodes : List V) : St V where
  pending := (nodes.filter fun v => openIn edges [] v = 0).map fun v => (v, 1)
  visited := []
  depth := 0
  indegree := fun v => openIn edges [] v
  distances := fun _ => none

/-- The visited vertices in order, and the greatest level. Every vertex is visited at most
    once, so as many rounds as there are vertices empty the queue. -/
def sort (nodes : List V) : List V × Nat :=
  let s := loop edges nodes.length (start edges nodes)
  (s.visited, s.depth)

/-- Every edge into a vertex of the list starts earlier in the list. -/
def Ordered (visited : List V) : Prop := ∀ e ∈ edges, e.2 ∈ visited → visited.idxOf e.1 < visited.idxOf e.2

/-- The loop's invariant, with the targets `left` still to be relaxed. -/
structure Inv (nodes left : List V) (s : St V) : Prop where
  indegree : ∀ v, s.indegree v = openIn edges s.visited v + left.count v
  ready : ∀ v ∈ s.visited ++ s.pending.map Prod.fst, openIn edges s.visited v + left.count v = 0
  nodup : (s.visited ++ s.pending.map Prod.fst).Nodup
  subset : s.visited ++ s.pending.map Prod.fst ⊆ nodes
  ordered : Ordered edges s.visited

variable {edges}

theorem openIn_append (visited : List V) {u : V} (hu : u ∉ visited) (v : V) :
    openIn edges visited v = openIn edges (visited ++ [u]) v + (targets edges u).count v := by
  unfold openIn
  induction edges with
  | nil => rfl
  | cons e es ih =>
    obtain ⟨a, b⟩ := e
    rw [List.countP_cons, List.countP_cons, ih, targets_cons]
    by_cases ha : a = u
    · subst ha
      by_cases hb : b = v
      · simp [hb, hu]
        omega
      · simp [hb]
    · by_cases hb : b = v
      · simp [hb, ha]
        omega
      · simp [hb, ha]

theorem openIn_zero {visited : List V} {v : V} (h : openIn edges visited v = 0) {a : V} (ha : (a, v) ∈ edges) :
    a ∈ visited := by
  unfold openIn at h
  rw [List.countP_eq_zero] at h
  by_contra hn
  exact h (a, v) ha (by simpa using hn)

theorem Ordered.append {visited : List V} (h : Ordered edges visited) {v : V} (hv : v ∉ visited)
    (hready : ∀ a, (a, v) ∈ edges → a ∈ visited) : Ordered edges (visited ++ [v]) := by
  intro e he hmem
  rcases List.mem_append.mp hmem with hmem | hmem
  · have hlt := h e he hmem
    have hsource : e.1 ∈ visited := List.idxOf_lt_length_iff.mp (Nat.lt_of_lt_of_le hlt List.idxOf_le_length)
    rw [List.idxOf_append_of_mem hsource, List.idxOf_append_of_mem hmem]
    exact hlt
  · have htarget : e.2 = v := by simpa using hmem
    have hsource : e.1 ∈ visited := hready e.1 (by rw [← htarget]; exact he)
    have hlt := List.idxOf_lt_length_of_mem hsource
    rw [List.idxOf_append_of_mem hsource, htarget, List.idxOf_append_of_notMem hv]
    omega

theorem Inv.relax {nodes left : List V} {s : St V} {t : V} (hi : Inv edges nodes (t :: left) s) (ht : t ∈ nodes)
    (level : Nat) : Inv edges nodes left (relax level s t) := by
  have hcount : ∀ v, (t :: left).count v = left.count v + if v = t then 1 else 0 := by
    intro v
    rw [List.count_cons]
    by_cases h : v = t
    · simp [h]
    · simp [h, Ne.symm h]
  have hold : ∀ v ∈ s.visited ++ s.pending.map Prod.fst, v ≠ t ∧ openIn edges s.visited v + left.count v = 0 := by
    intro v hv
    have hr := hi.ready v hv
    rw [hcount] at hr
    refine ⟨fun h => ?_, by omega⟩
    rw [if_pos h] at hr
    omega
  have hdeg : s.indegree t = openIn edges s.visited t + (left.count t + 1) := by
    have := hi.indegree t
    rw [hcount, if_pos rfl] at this
    exact_mod_cast this
  refine ⟨?_, ?_, ?_, ?_, hi.ordered⟩
  · intro v
    by_cases h : v = t
    · subst h
      simp only [TopoSort.relax, Function.update_self]
      omega
    · have := hi.indegree v
      rw [hcount, if_neg h] at this
      simpa [TopoSort.relax, Function.update_of_ne h] using this
  all_goals
    simp only [TopoSort.relax]
    by_cases hz : s.indegree t - 1 = 0
  · intro v hv
    rw [if_pos hz, List.map_append, ← List.append_assoc] at hv
    rcases List.mem_append.mp hv with hv | hv
    · exact (hold v hv).2
    · have hvt : v = t := by simpa using hv
      subst hvt
      omega
  · intro v hv
    rw [if_neg hz] at hv
    exact (hold v hv).2
  · rw [if_pos hz, List.map_append, ← List.append_assoc]
    refine List.Nodup.append hi.nodup (by simp) fun v hv hv' => ?_
    exact (hold v hv).1 (by simpa using hv')
  · rw [if_neg hz]
    exact hi.nodup
  · intro v hv
    rw [if_pos hz, List.map_append, ← List.append_assoc] at hv
    rcases List.mem_append.mp hv with hv | hv
    · exact hi.subset hv
    · have hvt : v = t := by simpa using hv
      exact hvt ▸ ht
  · intro v hv
    rw [if_neg hz] at hv
    exact hi.subset hv

theorem Inv.foldl {nodes : List V} (level : Nat) : ∀ (left : List V) {s : St V}, left ⊆ nodes →
    Inv edges nodes left s → Inv edges nodes [] (left.foldl (TopoSort.relax level) s) := by
  intro left
  induction left with
  | nil => intro s _ hi; exact hi
  | cons t left ih =>
    intro s hsub hi
    exact ih (fun v hv => hsub (List.mem_cons_of_mem _ hv)) (hi.relax (hsub List.mem_cons_self) level)

/-- The next vertex leaves the queue, with its targets to be relaxed. -/
theorem Inv.pop {nodes : List V} {s : St V} {v : V} {level : Nat} {rest : List (V × Nat)} (hi : Inv edges nodes [] s)
    (hp : s.pending = (v, level) :: rest) : Inv edges nodes (targets edges v)
      { s with pending := rest, visited := s.visited ++ [v], depth := max s.depth level } := by
  have hnodup := hi.nodup
  have hready := hi.ready
  have hsubset := hi.subset
  rw [hp, List.map_cons] at hnodup hready hsubset
  have hv : v ∉ s.visited := fun h => List.disjoint_of_nodup_append hnodup h (by simp)
  have hassoc : s.visited ++ v :: rest.map Prod.fst = (s.visited ++ [v]) ++ rest.map Prod.fst := by simp
  rw [hassoc] at hnodup hready hsubset
  simp only [List.count_nil, Nat.add_zero] at hready
  refine ⟨?_, ?_, hnodup, hsubset, ?_⟩
  · intro u
    have := hi.indegree u
    rw [openIn_append _ hv u] at this
    simpa using this
  · intro u hu
    have := hready u hu
    rw [openIn_append _ hv u] at this
    exact this
  · exact hi.ordered.append hv fun a ha => openIn_zero (hready v (by simp)) ha

theorem Inv.visit {nodes : List V} {s : St V} {v : V} {level : Nat} {rest : List (V × Nat)}
    (htargets : ∀ v ∈ nodes, targets edges v ⊆ nodes) (hi : Inv edges nodes [] s)
    (hp : s.pending = (v, level) :: rest) : Inv edges nodes [] (visit edges s v level rest) := by
  have hmem : v ∈ s.visited ++ s.pending.map Prod.fst := by simp [hp]
  exact Inv.foldl level _ (htargets v (hi.subset hmem)) (hi.pop hp)

theorem Inv.loop {nodes : List V} (htargets : ∀ v ∈ nodes, targets edges v ⊆ nodes) (fuel : Nat) : ∀ {s : St V},
    Inv edges nodes [] s → Inv edges nodes [] (loop edges fuel s) := by
  induction fuel with
  | zero => intro s hi; exact hi
  | succ fuel ih =>
    intro s hi
    rw [TopoSort.loop]
    split
    · exact hi
    · rename_i hp
      exact ih (hi.visit htargets hp)

theorem Inv.start {nodes : List V} (hnodup : nodes.Nodup) : Inv edges nodes [] (start edges nodes) := by
  have hpending : (TopoSort.start edges nodes).pending.map Prod.fst = nodes.filter fun v => openIn edges [] v = 0 := by
    simp [TopoSort.start, List.map_map, Function.comp_def]
  refine ⟨fun v => by simp [TopoSort.start], ?_, ?_, ?_, by simp [TopoSort.start, Ordered]⟩
  all_goals
    rw [hpending]
    simp only [TopoSort.start, List.nil_append]
  · intro v hv
    simpa using (List.mem_filter.mp hv).2
  · exact hnodup.filter _
  · exact fun v hv => (List.mem_filter.mp hv).1

theorem Inv.sorted {nodes : List V} (hnodup : nodes.Nodup) (htargets : ∀ v ∈ nodes, targets edges v ⊆ nodes) :
    Inv edges nodes [] (TopoSort.loop edges nodes.length (TopoSort.start edges nodes)) :=
  (Inv.start hnodup).loop htargets _

/-- How far a visited vertex stands from the end of the order. -/
def rank (visited : List V) (v : V) : Nat := visited.length - visited.idxOf v

theorem rank_pos {visited : List V} {v : V} (hv : v ∈ visited) : 0 < rank visited v := by
  have := List.idxOf_lt_length_of_mem hv
  unfold rank
  omega

theorem rank_le_length (visited : List V) (v : V) : rank visited v ≤ visited.length := Nat.sub_le _ _

theorem Ordered.rank_lt {visited : List V} (h : Ordered edges visited) {a b : V} (he : (a, b) ∈ edges)
    (hb : b ∈ visited) : rank visited b < rank visited a := by
  have hlt := h (a, b) he hb
  have hle := List.idxOf_lt_length_of_mem hb
  simp only at hlt
  unfold rank
  omega

theorem sort_ordered {nodes : List V} (hnodup : nodes.Nodup) (htargets : ∀ v ∈ nodes, targets edges v ⊆ nodes) :
    Ordered edges (sort edges nodes).1 := (Inv.sorted hnodup htargets).ordered

theorem sort_length_le {nodes : List V} (hnodup : nodes.Nodup) (htargets : ∀ v ∈ nodes, targets edges v ⊆ nodes) :
    (sort edges nodes).1.length ≤ nodes.length := by
  have hi := Inv.sorted hnodup htargets
  have hvisited : (sort edges nodes).1.Nodup := hi.nodup.of_append_left
  exact (List.subperm_of_subset hvisited fun v hv => hi.subset (List.mem_append_left _ hv)).length_le

end Jarvis.TopoSort
