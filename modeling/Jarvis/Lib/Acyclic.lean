/-
  Jarvis.Lib.Acyclic — graphs without cycles: a depth-first check, and graphs whose vertices
  are given new edges.

  `search` visits what a vertex leads to before the vertex itself and fails where it comes back
  to a vertex it is still visiting. What it has visited when it succeeds is `Ordered`: each
  vertex stands before everything it leads to. So nothing in it lies on a cycle
  (`Ordered.no_cycle`). Where every vertex of a finite set has a predecessor, a cycle leads to
  each (`exists_cycle`). A graph stays acyclic when a set of its vertices gets edges that do not
  leave the set and make no cycle in it (`acyclic_of_closed`).
-/
import Mathlib.Data.Fintype.Pigeonhole
import Mathlib.Data.Set.Finite.List
import Mathlib.Logic.Relation
import Mathlib.Tactic.Common

namespace Jarvis.Acyclic

variable {V : Type} {r r' : V → V → Prop}

/-! ## The search -/

section Search

variable (succ : V → List V)

/-- The visited vertices with `v` and all that it leads to, or `none` at a way back; `fuel` bounds the depth. -/
def search [DecidableEq V] : Nat → List V → List V → V → Option (List V)
  | 0, _, _, _ => none
  | fuel + 1, visiting, visited, v =>
    if v ∈ visiting then none
    else if v ∈ visited then some visited
    else ((succ v).foldlM (search fuel (v :: visiting)) visited).map (v :: ·)

/-- Each vertex stands before the vertices it leads to. -/
def Ordered : List V → Prop
  | [] => True
  | v :: rest => (∀ w ∈ succ v, w ∈ rest) ∧ Ordered rest

variable {succ}

/-- A fold of searches, from what one search does. -/
theorem foldlM_ordered {f : List V → V → Option (List V)}
    (hf : ∀ visited v out, f visited v = some out → Ordered succ visited → Ordered succ out ∧ v ∈ out ∧ visited ⊆ out) :
    ∀ (vs visited out : List V), vs.foldlM f visited = some out → Ordered succ visited →
      Ordered succ out ∧ vs ⊆ out ∧ visited ⊆ out := by
  intro vs
  induction vs with
  | nil =>
    intro visited out h ho
    cases h
    exact ⟨ho, List.nil_subset _, List.Subset.refl _⟩
  | cons v vs ih =>
    intro visited out h ho
    obtain ⟨next, hnext, hrest⟩ := Option.bind_eq_some_iff.mp (List.foldlM_cons.symm.trans h)
    obtain ⟨honext, hv, hsub⟩ := hf visited v next hnext ho
    obtain ⟨hoout, hvs, hsub'⟩ := ih next out hrest honext
    exact ⟨hoout, List.cons_subset.mpr ⟨hsub' hv, hvs⟩, List.Subset.trans hsub hsub'⟩

theorem search_ordered [DecidableEq V] : ∀ (fuel : Nat) (visiting visited : List V) (v : V) (out : List V),
    search succ fuel visiting visited v = some out → Ordered succ visited → Ordered succ out ∧ v ∈ out ∧ visited ⊆ out := by
  intro fuel
  induction fuel with
  | zero => intro _ _ _ _ h; cases h
  | succ fuel ih =>
    intro visiting visited v out h ho
    rw [search] at h
    split at h
    · cases h
    · split at h
      · rename_i hv
        cases h
        exact ⟨ho, hv, List.Subset.refl _⟩
      · obtain ⟨before, hbefore, rfl⟩ := Option.map_eq_some_iff.mp h
        obtain ⟨hob, hsucc, hsub⟩ := foldlM_ordered (ih (v :: visiting)) _ _ _ hbefore ho
        exact ⟨⟨fun w hw => hsucc hw, hob⟩, List.mem_cons_self, List.Subset.trans hsub (List.subset_cons_self _ _)⟩

theorem Ordered.succ_mem {vs : List V} (h : Ordered succ vs) {v w : V} (hv : v ∈ vs) (hw : w ∈ succ v) : w ∈ vs := by
  induction vs with
  | nil => cases hv
  | cons u rest ih =>
    obtain ⟨hu, hrest⟩ := h
    rcases List.mem_cons.mp hv with rfl | hv
    · exact List.mem_cons_of_mem _ (hu w hw)
    · exact List.mem_cons_of_mem _ (ih hrest hv)

theorem Ordered.path_mem {vs : List V} (h : Ordered succ vs) {v w : V} (hv : v ∈ vs)
    (hpath : Relation.ReflTransGen (fun a b => b ∈ succ a) v w) : w ∈ vs := by
  induction hpath with
  | refl => exact hv
  | tail _ hstep ih => exact h.succ_mem ih hstep

/-- Nothing that has been visited lies on a cycle. -/
theorem Ordered.no_cycle {vs : List V} (h : Ordered succ vs) {v : V} (hv : v ∈ vs) :
    ¬ Relation.TransGen (fun a b => b ∈ succ a) v v := by
  induction vs with
  | nil => cases hv
  | cons u rest ih =>
    obtain ⟨hu, hrest⟩ := h
    by_cases hmem : v ∈ rest
    · exact ih hrest hmem
    · obtain rfl : v = u := (List.mem_cons.mp hv).resolve_right hmem
      -- what the first vertex leads to comes later, and does not come back
      intro hcycle
      obtain ⟨w, hw, hpath⟩ := Relation.TransGen.head'_iff.mp hcycle
      exact hmem (hrest.path_mem (hu w hw) hpath)

end Search

/-! ## Finite graphs -/

/-- In a finite set in which every vertex has a predecessor, every vertex is reachable from a cycle. -/
theorem exists_cycle {U : List V} (hpred : ∀ v ∈ U, ∃ a ∈ U, r a v) {v : V} (hv : v ∈ U) :
    ∃ c, Relation.TransGen r c c ∧ Relation.ReflTransGen r c v := by
  have hfinite : Finite {u // u ∈ U} := (List.finite_toSet U).to_subtype
  have hbefore : ∀ u : {u // u ∈ U}, ∃ a : {u // u ∈ U}, r a u := by
    intro u
    obtain ⟨a, ha, hr⟩ := hpred u u.2
    exact ⟨⟨a, ha⟩, hr⟩
  choose before hbefore using hbefore
  have hback : ∀ n u, Relation.ReflTransGen r (before^[n] u : V) u := by
    intro n
    induction n with
    | zero => exact fun _ => .refl
    | succ n ih => exact fun u => (ih (before u)).tail (hbefore u)
  -- going back for ever comes back to a vertex
  obtain ⟨i, j, hne, heq⟩ := Finite.exists_ne_map_eq_of_infinite fun n => before^[n] ⟨v, hv⟩
  wlog hlt : i < j generalizing i j
  · exact this j i hne.symm heq.symm (by omega)
  obtain ⟨k, rfl⟩ := Nat.exists_eq_add_of_lt hlt
  refine ⟨(before^[i] ⟨v, hv⟩ : {u // u ∈ U}), ?_, hback i _⟩
  have hcycle := Relation.TransGen.tail' (hback k (before (before^[i] ⟨v, hv⟩))) (hbefore _)
  rw [← Function.iterate_succ_apply' before i, ← Function.iterate_add_apply,
    show k + (i + 1) = i + k + 1 by omega, ← heq] at hcycle
  exact hcycle

/-! ## New edges -/

/-- Edges that stay in a set, seen from another graph. -/
theorem transGen_lift {W : Type} {q : W → W → Prop} {D : V → Prop} {f : V → W}
    (hf : ∀ a b, D a → r a b → D b ∧ q (f a) (f b)) {a b : V} (ha : D a) (h : Relation.TransGen r a b) :
    D b ∧ Relation.TransGen q (f a) (f b) := by
  induction h with
  | single hstep =>
    obtain ⟨hb, hq⟩ := hf _ _ ha hstep
    exact ⟨hb, .single hq⟩
  | tail _ hstep ih =>
    obtain ⟨hb, hq⟩ := hf _ _ ih.1 hstep
    exact ⟨hb, ih.2.tail hq⟩

/-- The vertices of `D` get edges inside `D` that make no cycle there; the others keep theirs. -/
theorem acyclic_of_closed {D : V → Prop} (hold : ∀ a, ¬ Relation.TransGen r a a) (hclosed : ∀ a b, D a → r' a b → D b)
    (hinside : ∀ a, D a → ¬ Relation.TransGen r' a a) (hkept : ∀ a b, ¬ D a → r' a b → r a b) (a : V) :
    ¬ Relation.TransGen r' a a := by
  intro hcycle
  by_cases ha : D a
  · exact hinside a ha hcycle
  · -- a way that ends outside of `D` has been outside all along
    have hway : ∀ b, Relation.TransGen r' a b → ¬ D b → Relation.TransGen r a b := by
      intro b h
      induction h with
      | single hstep => exact fun _ => .single (hkept _ _ ha hstep)
      | tail _ hstep ih =>
        intro hb
        have hmiddle := fun hD => hb (hclosed _ _ hD hstep)
        exact (ih hmiddle).tail (hkept _ _ hmiddle hstep)
    exact hold a (hway a hcycle ha)

end Jarvis.Acyclic
