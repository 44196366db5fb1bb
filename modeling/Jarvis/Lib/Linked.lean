/-
  Jarvis.Lib.Linked — replacements of a value, each of what the one before it left.
-/
import Mathlib.Tactic.Common

namespace Jarvis

variable {α : Type}

/-- The pairs (old, new) lead from the first value to the last. -/
def Linked : α → List (α × α) → α → Prop
  | first, [], last => first = last
  | first, (old, new) :: rest, last => old = first ∧ Linked new rest last

theorem Linked.concat {first last new : α} : ∀ {pairs : List (α × α)}, Linked first pairs last →
    Linked first (pairs ++ [(last, new)]) new := by
  intro pairs
  induction pairs generalizing first with
  | nil =>
    intro h
    exact ⟨h.symm, rfl⟩
  | cons pair rest ih =>
    rintro ⟨hold, hrest⟩
    exact ⟨hold, ih hrest⟩

end Jarvis
