/-
  Jarvis.Lib.Reduce — folds whose outcome depends on the set of their inputs alone.

  A reducer takes one input into an accumulated value or refuses it. Where both the value
  (`means`) and whether anything is refused (`fine`) are determined by the set of inputs
  seen so far, neither the order nor the repetition of the inputs shows in the outcome of
  a fold (`Reduces.same_members`).
-/
import Mathlib.Data.Set.Insert

namespace Jarvis

/-- Both computations raise, or both return and the values are related. -/
def SameOutcome {ε σ : Type} (R : σ → σ → Prop) (x y : Except ε σ) : Prop :=
  match x, y with
  | .ok a, .ok b => R a b
  | .error _, .error _ => True
  | _, _ => False

/-- The members of a list. -/
abbrev members {α : Type} (xs : List α) : Set α := {x | x ∈ xs}

theorem union_members_cons {α : Type} (S : Set α) (x : α) (xs : List α) :
    insert x S ∪ members xs = S ∪ members (x :: xs) := by
  ext y
  simp only [Set.mem_union, Set.mem_insert_iff, Set.mem_ofPred_eq, List.mem_cons]
  rw [or_assoc, or_left_comm]

/-- `f` accumulates sets of inputs from `start`: on a set that is `fine` the value `means` the set. -/
structure Reduces {ε σ α : Type} (f : σ → α → Except ε σ) (start : σ) (input : α → Prop) (fine : Set α → Prop)
    (means : σ → Set α → Prop) : Prop where
  fine_empty : fine ∅
  means_start : means start ∅
  narrow : ∀ {S T : Set α}, S ⊆ T → fine T → fine S
  accepts : ∀ {s : σ} {S : Set α} {a : α}, (∀ b ∈ insert a S, input b) → means s S → fine (insert a S) →
    ∃ t, f s a = .ok t ∧ means t (insert a S)
  refuses : ∀ {s : σ} {S : Set α} {a : α}, (∀ b ∈ insert a S, input b) → means s S → fine S → ¬ fine (insert a S) →
    ∃ e, f s a = .error e

namespace Reduces

variable {ε σ α : Type} {f : σ → α → Except ε σ} {start : σ} {input : α → Prop} {fine : Set α → Prop}
  {means : σ → Set α → Prop}

theorem foldlM_from (h : Reduces f start input fine means) : ∀ (xs : List α) {s : σ} {S : Set α},
    (∀ x ∈ S ∪ members xs, input x) → means s S → fine S →
    (fine (S ∪ members xs) ∧ ∃ t, xs.foldlM f s = .ok t ∧ means t (S ∪ members xs)) ∨
      (¬ fine (S ∪ members xs) ∧ ∃ e, xs.foldlM f s = .error e) := by
  intro xs
  induction xs with
  | nil =>
    intro s S _ hs hfine
    have hS : S ∪ members ([] : List α) = S := by simp [members]
    rw [hS]
    exact .inl ⟨hfine, s, rfl, hs⟩
  | cons x xs ih =>
    intro s S hinput hs hfine
    rw [← union_members_cons] at hinput ⊢
    rw [List.foldlM_cons]
    have hfirst : ∀ b ∈ insert x S, input b := fun b hb => hinput b (.inl hb)
    by_cases hx : fine (insert x S)
    · obtain ⟨t, hstep, ht⟩ := h.accepts hfirst hs hx
      rw [hstep]
      exact ih hinput ht hx
    · obtain ⟨e, hstep⟩ := h.refuses hfirst hs hfine hx
      rw [hstep]
      exact .inr ⟨fun hall => hx (h.narrow Set.subset_union_left hall), e, rfl⟩

theorem foldlM (h : Reduces f start input fine means) (xs : List α) (hinput : ∀ x ∈ xs, input x) :
    (fine (members xs) ∧ ∃ t, xs.foldlM f start = .ok t ∧ means t (members xs)) ∨
      (¬ fine (members xs) ∧ ∃ e, xs.foldlM f start = .error e) := by
  have hall : ∅ ∪ members xs = members xs := Set.empty_union _
  have := h.foldlM_from xs (hall.symm ▸ hinput) h.means_start h.fine_empty
  rwa [hall] at this

theorem fails_iff (h : Reduces f start input fine means) {xs : List α} (hinput : ∀ x ∈ xs, input x) :
    (∃ e, xs.foldlM f start = .error e) ↔ ¬ fine (members xs) := by
  rcases h.foldlM xs hinput with ⟨hfine, t, hfold, -⟩ | ⟨hfine, hfold⟩
  · rw [hfold]
    exact ⟨fun hfails => absurd hfails (by simp), fun hnot => absurd hfine hnot⟩
  · exact ⟨fun _ => hfine, fun _ => hfold⟩

/-- Lists of the same members have the same outcome, for any relation between the values that mean one set. -/
theorem same_members (h : Reduces f start input fine means) {R : σ → σ → Prop}
    {xs ys : List α} (hinput : ∀ x ∈ xs, input x) (hsame : ∀ x, x ∈ xs ↔ x ∈ ys)
    (hR : ∀ {s t}, fine (members xs) → means s (members xs) → means t (members xs) → R s t) :
    SameOutcome R (xs.foldlM f start) (ys.foldlM f start) := by
  have hset : members xs = members ys := Set.ext hsame
  have hys := h.foldlM ys fun y hy => hinput y ((hsame y).mpr hy)
  rw [← hset] at hys
  rcases h.foldlM xs hinput with ⟨hfine, s, hs, hmeans⟩ | ⟨hfine, e, he⟩
  · obtain ⟨-, t, ht, hmeans'⟩ := hys.resolve_right fun h => h.1 hfine
    rw [hs, ht]
    exact hR hfine hmeans hmeans'
  · obtain ⟨-, e', he'⟩ := hys.resolve_left fun h => hfine h.1
    rw [he, he']
    trivial

end Reduces

end Jarvis
