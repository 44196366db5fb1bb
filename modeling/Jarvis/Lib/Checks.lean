/-
  Jarvis.Lib.Checks — programs that check something, one thing after another, and raise where a check
  fails: when they go through, and what they can raise.
-/
import Jarvis.Lib.Steps

namespace Jarvis.Checks

variable {ε α β : Type} {x : Except ε α} {f : α → Except ε β}

theorem bind_ok_iff {b : β} : (x >>= f) = .ok b ↔ ∃ a, x = .ok a ∧ f a = .ok b := by
  refine ⟨Steps.bind_ok, ?_⟩
  rintro ⟨a, rfl, h⟩
  exact h

theorem forM_ok_iff {xs : List α} {check : α → Except ε Unit} {done : Unit} :
    xs.forM check = .ok done ↔ ∀ x ∈ xs, check x = .ok () := by
  induction xs with
  | nil => exact ⟨fun _ => by rintro _ ⟨⟩, fun _ => rfl⟩
  | cons x xs ih =>
    show (check x >>= fun _ => xs.forM check) = .ok done ↔ _
    rw [bind_ok_iff, List.forall_mem_cons]
    constructor
    · rintro ⟨⟨⟩, hx, hxs⟩
      exact ⟨hx, ih.mp hxs⟩
    · rintro ⟨hx, hxs⟩
      exact ⟨(), hx, ih.mpr hxs⟩

/-- Of each part of what is checked, all have it. -/
theorem forM_ok_and {xs : List α} {check : α → Except ε Unit} {A B : α → Prop} (h : ∀ x ∈ xs, check x = .ok () ↔ A x ∧ B x) {done : Unit} :
    xs.forM check = .ok done ↔ (∀ x ∈ xs, A x) ∧ ∀ x ∈ xs, B x := by
  rw [forM_ok_iff, ← forall₂_and]
  exact forall₂_congr h

/-- What the program raises, if it raises. -/
def Raises (P : ε → Prop) (x : Except ε α) : Prop := ∀ e, x = .error e → P e

variable {P Q : ε → Prop}

theorem Raises.ok (a : α) : Raises P (.ok a : Except ε α) := by rintro _ ⟨⟩

theorem Raises.error {e : ε} (h : P e) : Raises P (.error e : Except ε α) := by
  rintro _ ⟨⟩
  exact h

theorem Raises.mono (h : Raises P x) (hPQ : ∀ e, P e → Q e) : Raises Q x := fun e he => hPQ e (h e he)

theorem Raises.bind (hx : Raises P x) (hf : ∀ a, x = .ok a → Raises P (f a)) : Raises P (x >>= f) := by
  cases x with
  | error e => exact .error (hx e rfl)
  | ok a => exact hf a rfl

theorem Raises.forM {xs : List α} {check : α → Except ε Unit} (h : ∀ x ∈ xs, Raises P (check x)) : Raises P (xs.forM check) := by
  induction xs with
  | nil => exact .ok ()
  | cons x xs ih =>
    obtain ⟨hx, hxs⟩ := List.forall_mem_cons.mp h
    exact .bind hx fun _ _ => ih hxs

end Jarvis.Checks
