/-
  Jarvis.Lib.Explore — what a worklist exploration with a stack computes.

  `explore succ stop` pops a vertex, skips it when it was reached before or is stopped at,
  and otherwise records it and pushes its successors. Each vertex is expanded once, so the
  pops are at most the start plus the successors of all vertices (`budget`), and with that
  much fuel the result is exactly what a path that avoids the stopped vertices can reach
  (`mem_explore`). The fuel is a number, so the exploration runs by evaluation.
-/
import Mathlib.Algebra.GroupWithZero.Nat
import Mathlib.Logic.Relation
import Mathlib.Data.List.Dedup
import Mathlib.Data.List.Induction
import Mathlib.Data.List.Nodup
import Mathlib.Tactic.Common

namespace Jarvis.Explore

variable {V : Type} [DecidableEq V] (succ : V → List V) (stop : V → Bool)

/-- The loop: `pending` is the stack, top first, and `reached` the visited vertices in order. -/
def explore : Nat → List V → List V → List V
  | 0, _, reached => reached
  | _ + 1, [], reached => reached
  | fuel + 1, v :: pending, reached =>
    if v ∈ reached ∨ stop v = true then explore fuel pending reached
    else explore fuel ((succ v).reverse ++ pending) (reached ++ [v])

/-- One step of a path that avoids the stopped vertices. -/
def Next (a b : V) : Prop := b ∈ succ a ∧ stop b = false

/-- The pushes still to come: the successors of the vertices of `U` not yet reached. -/
def budget (U reached : List V) : Nat := (U.map fun v => if v ∈ reached then 0 else (succ v).length).sum

variable {succ stop}

theorem explore_sound (fuel : Nat) : ∀ (pending reached : List V), ∀ v ∈ explore succ stop fuel pending reached,
    v ∈ reached ∨ ∃ s ∈ pending, stop s = false ∧ Relation.ReflTransGen (Next succ stop) s v := by
  induction fuel with
  | zero => intro _ _ v hv; exact .inl hv
  | succ fuel ih =>
    intro pending reached v hv
    cases pending with
    | nil => exact .inl hv
    | cons u pending =>
      rw [explore] at hv
      split at hv
      · rcases ih _ _ v hv with h | ⟨s, hs, h⟩
        · exact .inl h
        · exact .inr ⟨s, List.mem_cons_of_mem _ hs, h⟩
      · rename_i hu
        have hstop : stop u = false := by
          rw [← Bool.not_eq_true]
          exact fun h => hu (.inr h)
        rcases ih _ _ v hv with h | ⟨s, hs, hss, h⟩
        · rcases List.mem_append.mp h with h | h
          · exact .inl h
          · rw [List.mem_singleton] at h
            subst h
            exact .inr ⟨v, List.mem_cons_self, hstop, .refl⟩
        · rcases List.mem_append.mp hs with hs | hs
          · have hn : Next succ stop u s := ⟨by simpa using hs, hss⟩
            exact .inr ⟨u, List.mem_cons_self, hstop, .head hn h⟩
          · exact .inr ⟨s, List.mem_cons_of_mem _ hs, hss, h⟩

@[simp]
theorem budget_cons (u : V) (U reached : List V) :
    budget succ (u :: U) reached = (if u ∈ reached then 0 else (succ u).length) + budget succ U reached := by
  simp [budget]

theorem budget_append_le (U reached : List V) (v : V) : budget succ U (reached ++ [v]) ≤ budget succ U reached := by
  induction U with
  | nil => simp [budget]
  | cons u U ih =>
    rw [budget_cons, budget_cons]
    by_cases hu : u ∈ reached
    · simp [hu, ih]
    · by_cases huv : u = v
      · rw [if_pos (by simp [huv]), if_neg hu]
        omega
      · rw [if_neg (by simp [hu, huv]), if_neg hu]
        omega

theorem budget_expand {U reached : List V} {v : V} (hU : v ∈ U) (hv : v ∉ reached) :
    budget succ U (reached ++ [v]) + (succ v).length ≤ budget succ U reached := by
  induction U with
  | nil => cases hU
  | cons u U ih =>
    rw [budget_cons, budget_cons]
    rcases List.mem_cons.mp hU with rfl | hU
    · have hle : budget succ U (reached ++ [v]) ≤ _ := budget_append_le U reached v
      rw [if_pos (by simp), if_neg hv]
      omega
    · have := ih hU
      by_cases hu : u ∈ reached
      · rw [if_pos (by simp [hu]), if_pos hu]
        omega
      · by_cases huv : u = v
        · rw [if_pos (by simp [huv]), if_neg hu]
          omega
        · rw [if_neg (by simp [hu, huv]), if_neg hu]
          omega

theorem explore_reached (fuel : Nat) : ∀ (pending reached : List V), reached ⊆ explore succ stop fuel pending reached := by
  induction fuel with
  | zero => intro _ _ v hv; exact hv
  | succ fuel ih =>
    intro pending reached
    cases pending with
    | nil => intro v hv; exact hv
    | cons u pending =>
      rw [explore]
      split
      · exact ih _ _
      · exact fun v hv => ih _ _ (List.mem_append_left _ hv)

/-- With enough fuel the result holds the whole stack and is closed under successors. -/
theorem explore_nodup (fuel : Nat) : ∀ (pending reached : List V), reached.Nodup →
    (explore succ stop fuel pending reached).Nodup := by
  induction fuel with
  | zero => intro _ reached h; exact h
  | succ fuel ih =>
    intro pending reached h
    cases pending with
    | nil => exact h
    | cons u pending =>
      rw [explore]
      split
      · exact ih pending reached h
      · rename_i hu
        rw [not_or] at hu
        refine ih _ _ (List.Nodup.append h (by simp) fun v hv hv' => ?_)
        rw [List.mem_singleton] at hv'
        exact hu.1 (hv' ▸ hv)

theorem explore_closed {U : List V} (hU : ∀ v ∈ U, succ v ⊆ U) (fuel : Nat) : ∀ (pending reached : List V),
    pending ⊆ U → pending.length + budget succ U reached ≤ fuel →
    (∀ v ∈ pending, stop v = false → v ∈ explore succ stop fuel pending reached) ∧
    ∀ v ∈ explore succ stop fuel pending reached, v ∉ reached → ∀ w ∈ succ v, stop w = false →
      w ∈ explore succ stop fuel pending reached := by
  induction fuel with
  | zero =>
    intro pending reached _ hf
    have hp : pending = [] := List.eq_nil_of_length_eq_zero (by omega)
    subst hp
    exact ⟨by simp, fun v hv hn => absurd hv hn⟩
  | succ fuel ih =>
    intro pending reached hpU hf
    cases pending with
    | nil => exact ⟨by simp, fun v hv hn => absurd hv hn⟩
    | cons u pending =>
      rw [explore]
      have hlen : (u :: pending).length = pending.length + 1 := rfl
      have hpU' : pending ⊆ U := fun v hv => hpU (List.mem_cons_of_mem _ hv)
      split
      · rename_i hu
        obtain ⟨hin, hclosed⟩ := ih pending reached hpU' (by omega)
        refine ⟨fun v hv hs => ?_, hclosed⟩
        rcases List.mem_cons.mp hv with rfl | hv
        · rcases hu with hu | hu
          · exact explore_reached _ _ _ hu
          · rw [hs] at hu
            cases hu
        · exact hin v hv hs
      · rename_i hu
        have hur : u ∉ reached := fun h => hu (.inl h)
        have huU : u ∈ U := hpU List.mem_cons_self
        have hbud : budget succ U (reached ++ [u]) + _ ≤ _ := budget_expand huU hur
        obtain ⟨hin, hclosed⟩ := ih ((succ u).reverse ++ pending) (reached ++ [u])
          (by
            intro v hv
            rcases List.mem_append.mp hv with hv | hv
            · exact hU u huU (by simpa using hv)
            · exact hpU' hv)
          (by simp only [List.length_append, List.length_reverse]; omega)
        refine ⟨fun v hv hs => ?_, fun v hv hvr w hw hs => ?_⟩
        · rcases List.mem_cons.mp hv with rfl | hv
          · exact explore_reached _ _ _ (by simp)
          · exact hin v (List.mem_append_right _ hv) hs
        · by_cases hvu : v = u
          · subst hvu
            exact hin w (List.mem_append_left _ (by simpa using hw)) hs
          · exact hclosed v hv (by simp [hvr, hvu]) w hw hs

/-- The exploration from one vertex finds exactly what a path avoiding the stopped vertices
    reaches. -/
theorem mem_explore {U : List V} {fuel : Nat} {start : V} (hU : ∀ v ∈ U, succ v ⊆ U) (hs : start ∈ U)
    (hf : 1 + budget succ U [] ≤ fuel) (v : V) :
    v ∈ explore succ stop fuel [start] [] ↔ stop start = false ∧ Relation.ReflTransGen (Next succ stop) start v := by
  constructor
  · intro hv
    rcases explore_sound fuel _ _ v hv with h | ⟨s, hmem, hstop, hpath⟩
    · cases h
    · rw [List.mem_singleton] at hmem
      subst hmem
      exact ⟨hstop, hpath⟩
  · rintro ⟨hstop, hpath⟩
    obtain ⟨hin, hclosed⟩ := explore_closed hU fuel [start] [] (by simpa using hs) (by simpa using hf)
    induction hpath with
    | refl => exact hin start (by simp) hstop
    | tail _ hn ih => exact hclosed _ (ih hin hclosed) (by simp) _ hn.1 hn.2

/-! ## Walks -/

/-- A walk from `a`: the vertices visited before the end, and the end. -/
inductive Walk (succ : V → List V) (a : V) : List V → V → Prop
  | nil : Walk succ a [] a
  | snoc {w : List V} {b c : V} : Walk succ a w b → c ∈ succ b → Walk succ a (w ++ [b]) c

omit [DecidableEq V] in
theorem Walk.nil_end {a b : V} (h : Walk succ a [] b) : b = a := by
  generalize hw : ([] : List V) = w at h
  cases h with
  | nil => rfl
  | snoc _ _ => simp at hw

omit [DecidableEq V] in
theorem Walk.last_step {a b c : V} {w : List V} (h : Walk succ a (w ++ [b]) c) : Walk succ a w b ∧ c ∈ succ b := by
  generalize hw : w ++ [b] = w' at h
  cases h with
  | nil => simp at hw
  | snoc h hc =>
    obtain ⟨rfl, hb⟩ := List.append_inj' hw rfl
    cases hb
    exact ⟨h, hc⟩

omit [DecidableEq V] in
theorem Walk.trans {a b c : V} {w w' : List V} (h : Walk succ a w b) (h' : Walk succ b w' c) :
    Walk succ a (w ++ w') c := by
  induction h' with
  | nil => simpa using h
  | snoc _ hc ih =>
    rw [← List.append_assoc]
    exact ih.snoc hc

omit [DecidableEq V] in
/-- A walk splits at every vertex it visits. -/
theorem Walk.split {a b : V} {w : List V} (w' : List V) {c : V} (h : Walk succ a (w ++ b :: w') c) :
    Walk succ a w b ∧ Walk succ b (b :: w') c := by
  induction w' using List.reverseRecOn generalizing c with
  | nil =>
    obtain ⟨hw, hc⟩ := h.last_step
    exact ⟨hw, Walk.nil.snoc hc⟩
  | append_singleton w' d ih =>
    rw [← List.cons_append, ← List.append_assoc] at h
    obtain ⟨hd, hc⟩ := h.last_step
    obtain ⟨hw, hb⟩ := ih hd
    exact ⟨hw, hb.snoc hc⟩

omit [DecidableEq V] in
theorem Walk.uncons {a b : V} {w : List V} {c : V} (h : Walk succ a (b :: w) c) :
    b = a ∧ ∃ t ∈ succ a, Walk succ t w c := by
  have hb : b = a := (Walk.split w h).1.nil_end
  subst hb
  refine ⟨rfl, ?_⟩
  induction w using List.reverseRecOn generalizing c with
  | nil =>
    obtain ⟨-, hc⟩ := Walk.last_step (w := []) h
    exact ⟨c, hc, .nil⟩
  | append_singleton w d ih =>
    rw [← List.cons_append] at h
    obtain ⟨hd, hc⟩ := h.last_step
    obtain ⟨t, ht, hw⟩ := ih hd
    exact ⟨t, ht, hw.snoc hc⟩

omit [DecidableEq V] in
theorem Walk.start_mem {a c : V} {w : List V} (h : Walk succ a w c) (hne : a ≠ c) : a ∈ w := by
  cases w with
  | nil => exact absurd h.nil_end.symm hne
  | cons b w =>
    rw [h.uncons.1]
    exact List.mem_cons_self

omit [DecidableEq V] in
/-- What a path avoiding the stopped vertices reaches is the end of a walk that avoids them. -/
theorem reach_iff_walk {a c : V} : (stop a = false ∧ Relation.ReflTransGen (Next succ stop) a c) ↔
    ∃ w, Walk succ a w c ∧ ∀ v ∈ w ++ [c], stop v = false := by
  constructor
  · rintro ⟨ha, h⟩
    induction h with
    | refl => exact ⟨[], .nil, by simpa using ha⟩
    | tail _ hn ih =>
      obtain ⟨w, hw, hstop⟩ := ih
      refine ⟨_, hw.snoc hn.1, fun v hv => ?_⟩
      rcases List.mem_append.mp hv with hv | hv
      · exact hstop v hv
      · rw [List.mem_singleton.mp hv]
        exact hn.2
  · rintro ⟨w, hw, hstop⟩
    induction hw with
    | nil => exact ⟨hstop a (by simp), .refl⟩
    | snoc _ hc ih =>
      obtain ⟨ha, hr⟩ := ih fun v hv => hstop v (List.mem_append_left _ hv)
      exact ⟨ha, hr.tail ⟨hc, hstop _ (by simp)⟩⟩

/-! ## Successors from an edge list -/

/-- The targets of the edges that leave `v`, in order. -/
def targets (edges : List (V × V)) (v : V) : List V := (edges.filter fun e => e.1 = v).map Prod.snd

@[simp]
theorem mem_targets {edges : List (V × V)} {v w : V} : w ∈ targets edges v ↔ (v, w) ∈ edges := by
  simp [targets]

theorem targets_cons (a b : V) (edges : List (V × V)) (v : V) :
    targets ((a, b) :: edges) v = if a = v then b :: targets edges v else targets edges v := by
  by_cases h : a = v
  · simp [targets, h]
  · simp [targets, h]

/-- Distinct vertices push at most one target for each edge. -/
theorem budget_targets {edges : List (V × V)} {U : List V} (hU : U.Nodup) (reached : List V) :
    budget (targets edges) U reached ≤ edges.length := by
  induction U generalizing edges with
  | nil => simp [budget]
  | cons u U ih =>
    rw [List.nodup_cons] at hU
    -- the edges that leave `u` are spent here, the others are left for `U`
    have hsplit := List.length_eq_length_filter_add (l := edges) fun e => decide (e.1 = u)
    simp only [← decide_not] at hsplit
    have hrest : budget (targets (edges.filter fun e => ¬ e.1 = u)) U reached ≤ _ := ih hU.2
    have hsame : budget (targets (edges.filter fun e => ¬ e.1 = u)) U reached = budget (targets edges) U reached := by
      unfold budget
      congr 1
      refine List.map_congr_left fun v hv => ?_
      have hvu : v ≠ u := fun h => hU.1 (h ▸ hv)
      have : targets (edges.filter fun e => ¬ e.1 = u) v = targets edges v := by
        unfold targets
        rw [List.filter_filter]
        congr 1
        refine List.filter_congr fun e _ => ?_
        by_cases he : e.1 = v
        · simp [he, hvu]
        · simp [he]
      rw [this]
    rw [hsame] at hrest
    have hhead : (if u ∈ reached then 0 else (targets edges u).length) ≤ (edges.filter fun e => e.1 = u).length := by
      split
      · exact Nat.zero_le _
      · simp [targets]
    rw [budget_cons]
    omega

/-- The vertices an edge list and a start name. -/
def named (edges : List (V × V)) (start : V) : List V := (start :: edges.flatMap fun e => [e.1, e.2]).dedup

def stopAt (stop : Option V) (v : V) : Bool := stop == some v

/-- What `start` reaches along `edges` without entering `stop`. -/
def reachable (edges : List (V × V)) (start : V) (stop : Option V) : List V :=
  explore (targets edges) (stopAt stop) (edges.length + 1) [start] []

theorem mem_reachable {edges : List (V × V)} {start : V} {stop : Option V} {v : V} :
    v ∈ reachable edges start stop ↔
      ∃ w, Walk (targets edges) start w v ∧ ∀ u ∈ w ++ [v], stop ≠ some u := by
  have hclosed : ∀ u ∈ named edges start, targets edges u ⊆ named edges start := by
    intro u _ t ht
    rw [named, List.mem_dedup]
    refine List.mem_cons_of_mem _ (List.mem_flatMap.mpr ⟨(u, t), mem_targets.mp ht, by simp⟩)
  have hstart : start ∈ named edges start := by simp [named]
  have hbudget : budget (targets edges) (named edges start) [] ≤ edges.length :=
    budget_targets (List.nodup_dedup _) []
  rw [reachable, mem_explore hclosed hstart (by omega)]
  refine reach_iff_walk.trans ?_
  simp [stopAt]

theorem reachable_nodup (edges : List (V × V)) (start : V) (stop : Option V) : (reachable edges start stop).Nodup :=
  explore_nodup _ _ _ List.nodup_nil

end Jarvis.Explore
