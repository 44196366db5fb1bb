/-
  Jarvis.Lib.Greedy — taking the least ready vertex of a graph, again and again.

  A vertex is ready once everything it depends on has been taken. Where the vertices can be
  listed with each after its dependencies (`Acyclic.Ordered`), some vertex is ready until all
  are taken (`pick_eq_none`), so the vertices are all taken, each once (`order_perm`).
-/
import Mathlib.Data.List.MinMax
import Mathlib.Data.List.Nodup
import Mathlib.Data.List.Perm.Subperm
import Jarvis.Lib.Acyclic

namespace Jarvis.Greedy

open Acyclic (Ordered)

variable {K : Type} [LinearOrder K] (deps : K → List K) (keys : List K)

/-- The vertices that are not taken and depend on taken ones only. -/
def ready (taken : List K) : List K := keys.filter fun k => k ∉ taken ∧ ∀ d ∈ deps k, d ∈ taken

def pick (taken : List K) : Option K := (ready deps keys taken).min?

/-- The first `n` vertices in the order in which they are taken. -/
def order : Nat → List K
  | 0 => []
  | n + 1 => order n ++ (pick deps keys (order n)).toList

variable {deps keys} {taken : List K} {k : K}

theorem mem_ready : k ∈ ready deps keys taken ↔ k ∈ keys ∧ k ∉ taken ∧ ∀ d ∈ deps k, d ∈ taken := by
  rw [ready, List.mem_filter, decide_eq_true_eq]

theorem pick_eq_some : pick deps keys taken = some k ↔ k ∈ ready deps keys taken ∧ ∀ j ∈ ready deps keys taken, k ≤ j :=
  List.min?_eq_some_iff

/-- The first of a list of the ready vertices that is in order. -/
theorem head?_eq_pick {sorted : List K} (hsorted : sorted.Pairwise (· ≤ ·))
    (hmem : ∀ k, k ∈ sorted ↔ k ∈ ready deps keys taken) : sorted.head? = pick deps keys taken := by
  cases sorted with
  | nil =>
    refine (List.min?_eq_none_iff.mpr (List.eq_nil_iff_forall_not_mem.mpr fun k hk => ?_)).symm
    exact List.not_mem_nil ((hmem k).mpr hk)
  | cons first rest =>
    obtain ⟨hfirst, -⟩ := List.pairwise_cons.mp hsorted
    refine (pick_eq_some.mpr ⟨(hmem first).mp List.mem_cons_self, fun k hk => ?_⟩).symm
    rcases List.mem_cons.mp ((hmem k).mpr hk) with rfl | hk
    · exact le_refl k
    · exact hfirst k hk

/-- An order of the vertices leads from any that is left to one that is ready. -/
theorem exists_ready {vs : List K} (h : Ordered deps vs) (hleft : ∃ k ∈ vs, k ∉ taken) :
    ∃ k ∈ vs, k ∉ taken ∧ ∀ d ∈ deps k, d ∈ taken := by
  induction vs with
  | nil =>
    obtain ⟨k, hk, -⟩ := hleft
    cases hk
  | cons v vs ih =>
    by_cases hvs : ∃ k ∈ vs, k ∉ taken
    · obtain ⟨k, hk, hready⟩ := ih h.2 hvs
      exact ⟨k, List.mem_cons_of_mem v hk, hready⟩
    · -- only the last is left, and all that it depends on comes before it
      push Not at hvs
      obtain ⟨k, hk, hnot⟩ := hleft
      rcases List.mem_cons.mp hk with rfl | hk
      · exact ⟨k, List.mem_cons_self, hnot, fun d hd => hvs d (h.1 d hd)⟩
      · exact absurd (hvs k hk) hnot

theorem pick_eq_none {vs : List K} (h : Ordered deps vs) (hvs : ∀ k, k ∈ vs ↔ k ∈ keys) :
    pick deps keys taken = none ↔ keys ⊆ taken := by
  rw [pick, List.min?_eq_none_iff, List.eq_nil_iff_forall_not_mem]
  constructor
  · intro hnone k hk
    by_contra hnot
    obtain ⟨j, hj, hready⟩ := exists_ready h ⟨k, (hvs k).mpr hk, hnot⟩
    exact hnone j (mem_ready.mpr ⟨(hvs j).mp hj, hready⟩)
  · intro hall k hk
    obtain ⟨hkey, hnot, -⟩ := mem_ready.mp hk
    exact hnot (hall hkey)

theorem order_subset (n : Nat) : order deps keys n ⊆ keys := by
  induction n with
  | zero => exact List.nil_subset keys
  | succ n ih =>
    refine List.append_subset.mpr ⟨ih, fun k hk => ?_⟩
    exact (mem_ready.mp (pick_eq_some.mp (Option.mem_toList.mp hk)).1).1

theorem order_nodup (n : Nat) : (order deps keys n).Nodup := by
  induction n with
  | zero => exact List.nodup_nil
  | succ n ih =>
    rw [order]
    cases hpick : pick deps keys (order deps keys n) with
    | none => simpa using ih
    | some k =>
      have hnew := (mem_ready.mp (pick_eq_some.mp hpick).1).2.1
      refine List.Nodup.append ih (List.nodup_singleton k) fun j hj hjk => ?_
      exact hnew (List.mem_singleton.mp hjk ▸ hj)

theorem order_initial {n m : Nat} (hle : n ≤ m) : order deps keys n <+: order deps keys m := by
  induction hle with
  | refl => exact List.prefix_refl _
  | step _ ih => exact ih.trans (List.prefix_append ..)

section Run

variable {vs : List K} (h : Ordered deps vs) (hvs : ∀ k, k ∈ vs ↔ k ∈ keys) (hkeys : keys.Nodup)
include h hvs hkeys

theorem order_length : ∀ n, (order deps keys n).length = min n keys.length := by
  intro n
  induction n with
  | zero => rw [Nat.zero_min]; rfl
  | succ n ih =>
    rw [order, List.length_append, ih]
    have hsubset : order deps keys n ⊆ keys := order_subset n
    have hle := ((order_nodup n).subperm hsubset).length_le
    cases hpick : pick deps keys (order deps keys n) with
    | none =>
      have hall := (hkeys.subperm ((pick_eq_none h hvs).mp hpick)).length_le
      show min n keys.length + 0 = min (n + 1) keys.length
      omega
    | some k =>
      have hmore : (order deps keys n).length < keys.length := by
        obtain ⟨hk, hnot, -⟩ := mem_ready.mp (pick_eq_some.mp hpick).1
        refine Nat.lt_of_not_le fun hge => hnot ?_
        exact ((order_nodup n).subperm (order_subset n)).perm_of_length_le hge |>.mem_iff.mpr hk
      show min n keys.length + 1 = min (n + 1) keys.length
      omega

theorem order_perm : (order deps keys keys.length).Perm keys := by
  refine ((order_nodup _).subperm (order_subset _)).perm_of_length_le ?_
  rw [order_length h hvs hkeys, Nat.min_self]

theorem order_eq_take (n : Nat) : order deps keys n = (order deps keys keys.length).take n := by
  have hlength := order_length h hvs hkeys
  rcases Nat.le_total n keys.length with hle | hle
  · have hprefix : order deps keys n <+: order deps keys keys.length := order_initial hle
    have htake := List.prefix_iff_eq_take.mp hprefix
    rwa [hlength, Nat.min_eq_left hle] at htake
  · have hsame : order deps keys keys.length = order deps keys n := by
      refine (order_initial hle).eq_of_length ?_
      rw [hlength, hlength]
      omega
    rw [hsame, List.take_of_length_le]
    rw [hlength]
    exact Nat.min_le_left ..

/-- What is picked after `n` vertices is the next of all of them. -/
theorem pick_order (n : Nat) : pick deps keys (order deps keys n) = (order deps keys keys.length)[n]? := by
  have hnext := order_eq_take h hvs hkeys (n + 1)
  rw [List.take_add_one, ← order_eq_take h hvs hkeys n] at hnext
  refine Option.ext fun k => ?_
  rw [← Option.mem_toList, List.append_cancel_left hnext, Option.mem_toList]

end Run

end Jarvis.Greedy
