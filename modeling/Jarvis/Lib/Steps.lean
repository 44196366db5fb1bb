/-
  Jarvis.Lib.Steps — runs of a transition system given by a partial step function.

  `step s a = some t` is one move; `none` means the move is not enabled in `s`. A run
  starts at a state and takes moves one after another. `ReachIf step ok s₀` holds of the
  states a run can reach from `s₀` when every move of the run meets the side condition
  `ok` (a predicate on the state before the move and the move); `Reach` has no side
  condition. Invariants are proved once per move and lifted to whole runs by
  `ReachIf.invariant`. `run` executes a list of moves, so that a concrete run can be
  evaluated (`run_reach`, `runIf_reachIf`).
-/
import Mathlib.Tactic.Common

namespace Jarvis.Steps

variable {σ α : Type} (step : σ → α → Option σ)

/-- The states reachable from `s₀` along moves that all meet `ok`. -/
inductive ReachIf (ok : σ → α → Prop) (s₀ : σ) : σ → Prop
  | init : ReachIf ok s₀ s₀
  | step {s t : σ} (a : α) : ReachIf ok s₀ s → ok s a → step s a = some t → ReachIf ok s₀ t

/-- The states reachable from `s₀`. -/
abbrev Reach (s₀ : σ) : σ → Prop := ReachIf step (fun _ _ => True) s₀

variable {step}

/-- What holds at the start and is kept by every allowed move holds in every state reached. -/
theorem ReachIf.invariant {ok : σ → α → Prop} {s₀ : σ} (P : σ → Prop) (h₀ : P s₀)
    (hstep : ∀ s a t, P s → ok s a → step s a = some t → P t) {s : σ} (h : ReachIf step ok s₀ s) : P s := by
  induction h with
  | init => exact h₀
  | step a _ hok hs ih => exact hstep _ a _ ih hok hs

theorem ReachIf.mono {ok ok' : σ → α → Prop} {s₀ s : σ} (hk : ∀ s a, ok s a → ok' s a)
    (h : ReachIf step ok s₀ s) : ReachIf step ok' s₀ s := by
  induction h with
  | init => exact .init
  | step a _ hok hs ih => exact .step a ih (hk _ a hok) hs

theorem ReachIf.trans {ok : σ → α → Prop} {s₀ s t : σ} (h : ReachIf step ok s₀ s) (h' : ReachIf step ok s t) :
    ReachIf step ok s₀ t := by
  induction h' with
  | init => exact h
  | step a _ hok hs ih => exact .step a ih hok hs

theorem ReachIf.reach {ok : σ → α → Prop} {s₀ s : σ} (h : ReachIf step ok s₀ s) : Reach step s₀ s :=
  h.mono fun _ _ _ => trivial

/-- An invariant of all runs may be used while proving one of the runs under `ok`. -/
theorem ReachIf.invariant_with {ok : σ → α → Prop} {s₀ : σ} (I P : σ → Prop)
    (hI : ∀ s, ReachIf step ok s₀ s → I s) (h₀ : P s₀)
    (hstep : ∀ s a t, I s → P s → ok s a → step s a = some t → P t) {s : σ} (h : ReachIf step ok s₀ s) : P s := by
  induction h with
  | init => exact h₀
  | step a hr hok hs ih => exact hstep _ a _ (hI _ hr) ih hok hs

/-- A move that is a computation which did not raise. -/
theorem toOption_ok {ε : Type} {x : Except ε σ} {s : σ} (h : x.toOption = some s) : x = .ok s := by
  cases x with
  | error e => cases h
  | ok t => exact congrArg Except.ok (Option.some.inj h)

theorem bind_ok {ε α β : Type} {x : Except ε α} {f : α → Except ε β} {b : β} (h : (x >>= f) = .ok b) :
    ∃ a, x = .ok a ∧ f a = .ok b := by
  cases x with
  | error e => cases h
  | ok a => exact ⟨a, rfl, h⟩

/-- What every computation of a fold keeps, the fold keeps. -/
theorem foldlM_invariant {ε β : Type} {f : σ → β → Except ε σ} {P : σ → Prop} (hstep : ∀ s x t, P s → f s x = .ok t → P t) :
    ∀ {xs : List β} {s t : σ}, P s → xs.foldlM f s = .ok t → P t := by
  intro xs
  induction xs with
  | nil =>
    intro s t hs h
    cases h
    exact hs
  | cons x xs ih =>
    intro s t hs h
    rw [List.foldlM_cons] at h
    obtain ⟨next, hnext, h⟩ := bind_ok h
    exact ih (hstep _ _ _ hs hnext) h

theorem map_ok {ε α β : Type} {x : Except ε α} {f : α → β} {b : β} (h : x.map f = .ok b) : ∃ a, x = .ok a ∧ f a = b := by
  cases x with
  | error e => cases h
  | ok a => exact ⟨a, rfl, Except.ok.inj h⟩

variable (step)

/-- Execute a list of moves; `none` as soon as one is not enabled. -/
def run : σ → List α → Option σ
  | s, [] => some s
  | s, a :: as => (step s a).bind fun t => run t as

/-- Execute a list of moves, stopping with `none` where a move does not meet `ok`. -/
def runIf (ok : σ → α → Prop) [∀ s a, Decidable (ok s a)] : σ → List α → Option σ
  | s, [] => some s
  | s, a :: as => if ok s a then (step s a).bind fun t => runIf ok t as else none

variable {step}

theorem ReachIf.run_from {s₀ s : σ} (h : Reach step s₀ s) : ∀ (as : List α) (t : σ), run step s as = some t →
    Reach step s₀ t := by
  intro as
  induction as generalizing s with
  | nil => intro t ht; cases ht; exact h
  | cons a as ih =>
    intro t ht
    simp only [run, Option.bind_eq_some_iff] at ht
    obtain ⟨u, hu, ht⟩ := ht
    exact ih (.step a h trivial hu) t ht

theorem run_reach {s₀ t : σ} (as : List α) (h : run step s₀ as = some t) : Reach step s₀ t :=
  ReachIf.run_from .init as t h

theorem ReachIf.runIf_from {ok : σ → α → Prop} [∀ s a, Decidable (ok s a)] {s₀ s : σ}
    (h : ReachIf step ok s₀ s) : ∀ (as : List α) (t : σ), runIf step ok s as = some t → ReachIf step ok s₀ t := by
  intro as
  induction as generalizing s with
  | nil => intro t ht; cases ht; exact h
  | cons a as ih =>
    intro t ht
    simp only [runIf] at ht
    split at ht
    · rename_i hok
      simp only [Option.bind_eq_some_iff] at ht
      obtain ⟨u, hu, ht⟩ := ht
      exact ih (.step a h hok hu) t ht
    · cases ht

theorem runIf_reachIf {ok : σ → α → Prop} [∀ s a, Decidable (ok s a)] {s₀ t : σ} (as : List α)
    (h : runIf step ok s₀ as = some t) : ReachIf step ok s₀ t :=
  ReachIf.runIf_from .init as t h

theorem run_of_runIf {ok : σ → α → Prop} [∀ s a, Decidable (ok s a)] : ∀ {as : List α} {s t : σ},
    runIf step ok s as = some t → run step s as = some t := by
  intro as
  induction as with
  | nil => intro s t h; exact h
  | cons a as ih =>
    intro s t h
    simp only [runIf] at h
    split at h
    · simp only [run, Option.bind_eq_some_iff] at h ⊢
      obtain ⟨u, hu, h⟩ := h
      exact ⟨u, hu, ih h⟩
    · cases h

end Jarvis.Steps
