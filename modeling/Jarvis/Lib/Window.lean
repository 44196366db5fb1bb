/-
  Jarvis.Lib.Window — the elements of a sorted list whose keys lie in an interval.

  `window key lo hi xs` keeps the elements with `lo < key x ≤ hi`. In a list sorted by key,
  adjacent windows are adjacent pieces of the list (`window_append`), the first elements of
  a window are the window up to the last of them (`window_take`), and elements appended
  beyond `hi` are not seen (`window_grow`).
-/
import Mathlib.Data.List.Sort

namespace Jarvis

variable {α : Type} {key : α → Nat}

def window (key : α → Nat) (lo hi : Nat) (xs : List α) : List α := xs.filter fun x => lo < key x ∧ key x ≤ hi

variable {lo mid hi : Nat} {xs : List α}

theorem mem_window {x : α} : x ∈ window key lo hi xs ↔ x ∈ xs ∧ lo < key x ∧ key x ≤ hi := by
  simp [window]

theorem window_sublist (key : α → Nat) (lo hi : Nat) (xs : List α) : (window key lo hi xs).Sublist xs := List.filter_sublist

/-- Keys increase along the list. -/
def Increasing (key : α → Nat) (xs : List α) : Prop := xs.Pairwise fun a b => key a < key b

theorem Increasing.window (h : Increasing key xs) (lo hi : Nat) : Increasing key (window key lo hi xs) :=
  h.sublist (window_sublist key lo hi xs)

theorem window_eq_nil (h : ∀ x ∈ xs, ¬ (lo < key x ∧ key x ≤ hi)) : window key lo hi xs = [] :=
  List.filter_eq_nil_iff.mpr fun x hx => by simpa using h x hx

/-- Elements beyond the interval do not matter. -/
theorem window_grow {added : List α} (h : ∀ x ∈ added, hi < key x) : window key lo hi (xs ++ added) = window key lo hi xs := by
  unfold window
  rw [List.filter_append]
  have hnone : window key lo hi added = [] := window_eq_nil fun x hx hle => absurd (h x hx) (Nat.not_lt.mpr hle.2)
  rw [show added.filter (fun x => lo < key x ∧ key x ≤ hi) = [] from hnone, List.append_nil]

theorem window_cons_of_mem (lo hi : Nat) {x : α} (hx : lo < key x ∧ key x ≤ hi) :
    window key lo hi (x :: xs) = x :: window key lo hi xs := List.filter_cons_of_pos (by simpa using hx)

theorem window_cons_of_not_mem (lo hi : Nat) {x : α} (hx : ¬ (lo < key x ∧ key x ≤ hi)) :
    window key lo hi (x :: xs) = window key lo hi xs := List.filter_cons_of_neg (by simpa using hx)

theorem window_append (h : Increasing key xs) (hlo : lo ≤ mid) (hhi : mid ≤ hi) :
    window key lo mid xs ++ window key mid hi xs = window key lo hi xs := by
  induction xs with
  | nil => rfl
  | cons x xs ih =>
    obtain ⟨hfirst, hrest⟩ := List.pairwise_cons.mp h
    have ih := ih hrest
    by_cases hmid : key x ≤ mid
    · rw [window_cons_of_not_mem mid hi (by omega)]
      by_cases hin : lo < key x
      · rw [window_cons_of_mem lo mid ⟨hin, hmid⟩, window_cons_of_mem lo hi ⟨hin, hmid.trans hhi⟩, List.cons_append, ih]
      · rw [window_cons_of_not_mem lo mid (by omega), window_cons_of_not_mem lo hi (by omega), ih]
    · -- from here on nothing is in the lower window
      have hlower : window key lo mid xs = [] := window_eq_nil fun y hy hle => by
        have := hfirst y hy
        omega
      rw [hlower, List.nil_append] at ih
      rw [window_cons_of_not_mem lo mid (by omega), hlower, List.nil_append]
      by_cases hin : key x ≤ hi
      · rw [window_cons_of_mem mid hi (by omega), window_cons_of_mem lo hi (by omega), ih]
      · rw [window_cons_of_not_mem mid hi (by omega), window_cons_of_not_mem lo hi (by omega), ih]

/-- The first elements of a window are the window up to the last of them. -/
theorem window_take (h : Increasing key xs) {n : Nat} {last : α}
    (hlast : ((window key lo hi xs).take n).getLast? = some last) :
    window key lo (key last) xs = (window key lo hi xs).take n := by
  have hmem : last ∈ window key lo hi xs := List.mem_of_mem_take (List.mem_of_getLast? hlast)
  obtain ⟨-, hlow, hhigh⟩ := mem_window.mp hmem
  have hwhole := window_append h hlow.le hhigh
  obtain ⟨before, hbefore⟩ := List.getLast?_eq_some_iff.mp hlast
  have hsplit := List.take_append_drop n (window key lo hi xs)
  have hinc : Increasing key ((window key lo hi xs).take n ++ (window key lo hi xs).drop n) := by
    rw [hsplit]
    exact h.window lo hi
  obtain ⟨htake, -, hacross⟩ := List.pairwise_append.mp hinc
  -- up to the last: all of what was taken, nothing of what was dropped
  have hin : ((window key lo hi xs).take n).filter (fun x => key x ≤ key last) = (window key lo hi xs).take n := by
    refine List.filter_eq_self.mpr fun x hx => ?_
    rw [hbefore] at hx htake
    rcases List.mem_append.mp hx with hx | hx
    · have := (List.pairwise_append.mp htake).2.2 x hx last (List.mem_singleton_self last)
      simpa using this.le
    · simp [List.mem_singleton.mp hx]
  have hout : ((window key lo hi xs).drop n).filter (fun x => key x ≤ key last) = [] := by
    refine List.filter_eq_nil_iff.mpr fun x hx => ?_
    have := hacross last (List.mem_of_getLast? hlast) x hx
    simpa using this
  have hfilter : window key lo (key last) xs = (window key lo hi xs).filter fun x => key x ≤ key last := by
    unfold window
    rw [List.filter_filter]
    refine List.filter_congr fun x _ => ?_
    by_cases hx : key x ≤ key last <;> simp [hx]
    intro
    omega
  rw [hfilter, ← hsplit, List.filter_append, hin, hout, List.append_nil, hsplit]

end Jarvis
