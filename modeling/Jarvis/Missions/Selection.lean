/-
  Jarvis.Missions.Selection — the row that an ordered query with `LIMIT 1` returns.

  `first` is the earliest of the smallest rows (`first_eq_some`), so it does not depend on rows
  that come behind it in the order (`first_filter`).
-/
import Jarvis.Missions.Launch

namespace Jarvis.Missions

section First

variable {β : Type} {le : β → β → Bool} {rows : List β} {row : β}

/-- The row stands before every other one in the order, and in the table before those it ties with. -/
def Leads (le : β → β → Bool) (rows : List β) (row : β) : Prop :=
  ∃ before after, rows = before ++ row :: after ∧ (∀ other ∈ before, le other row = false) ∧ ∀ other ∈ after, le row other = true

theorem first_cons (le : β → β → Bool) (row : β) (rows : List β) :
    first le (row :: rows) = match first le rows with
      | none => some row
      | some head => if le row head then some row else some head := by
  unfold first
  rw [List.insertionSort_cons]
  cases rows.insertionSort fun a b => le a b with
  | nil => rfl
  | cons head rest =>
    rw [List.orderedInsert_cons]
    dsimp only [List.head?_cons]
    by_cases hle : le row head = true
    · rw [if_pos hle, if_pos hle]
      rfl
    · rw [if_neg hle, if_neg hle]
      rfl

theorem first_eq_none : first le rows = none ↔ rows = [] := by
  unfold first
  rw [List.head?_eq_none_iff]
  constructor
  · intro h
    have hperm := List.perm_insertionSort (fun a b => le a b) rows
    rw [h] at hperm
    exact hperm.symm.eq_nil
  · rintro rfl
    rfl

theorem Leads.unique {other : β} (h : Leads le rows row) (h' : Leads le rows other) : row = other := by
  obtain ⟨before, after, rfl, hbefore, hafter⟩ := h
  obtain ⟨before', after', heq, hbefore', hafter'⟩ := h'
  rcases List.append_eq_append_iff.mp heq with ⟨mid, hmid, hrest⟩ | ⟨mid, hmid, hrest⟩
  · cases mid with
    | nil => exact (List.cons.inj hrest).1
    | cons first mid =>
      obtain ⟨rfl, htail⟩ := List.cons.inj hrest
      have hlt := hbefore' row (by rw [hmid]; simp)
      have hin : other ∈ after := htail ▸ List.mem_append_right mid List.mem_cons_self
      rw [hafter other hin] at hlt
      cases hlt
  · cases mid with
    | nil => exact (List.cons.inj hrest).1.symm
    | cons first mid =>
      obtain ⟨rfl, htail⟩ := List.cons.inj hrest
      have hlt := hbefore other (by rw [hmid]; simp)
      have hin : row ∈ after' := htail ▸ List.mem_append_right mid List.mem_cons_self
      rw [hafter' row hin] at hlt
      cases hlt

variable (htotal : ∀ a b, le a b = true ∨ le b a = true) (htrans : ∀ a b c, le a b = true → le b c = true → le a c = true)

include htotal htrans

theorem Leads.of_first (h : first le rows = some row) : Leads le rows row := by
  induction rows generalizing row with
  | nil => cases h
  | cons head rows ih =>
    rw [first_cons] at h
    cases hfirst : first le rows with
    | none =>
      rw [hfirst] at h
      cases h
      rw [first_eq_none.mp hfirst]
      exact ⟨[], [], rfl, fun _ hin => absurd hin List.not_mem_nil, fun _ hin => absurd hin List.not_mem_nil⟩
    | some least =>
      rw [hfirst] at h
      obtain ⟨before, after, heq, hbefore, hafter⟩ := ih hfirst
      dsimp only at h
      split at h
      · rename_i hle
        cases h
        refine ⟨[], rows, rfl, fun _ hin => absurd hin List.not_mem_nil, fun other hin => ?_⟩
        refine htrans head least other hle ?_
        rw [heq] at hin
        rcases List.mem_append.mp hin with hin | hin
        · rcases htotal least other with hlo | hol
          · exact hlo
          · rw [hbefore other hin] at hol
            cases hol
        · rcases List.mem_cons.mp hin with rfl | hin
          · exact (htotal other other).elim (fun h => h) fun h => h
          · exact hafter other hin
      · rename_i hle
        cases h
        refine ⟨head :: before, after, by rw [heq]; rfl, fun other hin => ?_, hafter⟩
        rcases List.mem_cons.mp hin with rfl | hin
        · exact Bool.eq_false_iff.mpr hle
        · exact hbefore other hin

/-- What `first` returns. -/
theorem first_eq_some : first le rows = some row ↔ Leads le rows row := by
  refine ⟨Leads.of_first htotal htrans, fun h => ?_⟩
  cases hfirst : first le rows with
  | none =>
    obtain ⟨before, after, heq, -⟩ := h
    rw [first_eq_none.mp hfirst] at heq
    simp at heq
  | some other => rw [h.unique (Leads.of_first htotal htrans hfirst)]

/-- The selected row is selected from other rows too, if those that are new come behind it. -/
theorem first_filter {p q : β → Bool} (h : first le (rows.filter p) = some row) (hq : q row = true)
    (hmore : ∀ other ∈ rows, q other = true → p other = true ∨ le other row = false) :
    first le (rows.filter q) = some row := by
  obtain ⟨before, after, heq, hbefore, hafter⟩ := (first_eq_some htotal htrans).mp h
  obtain ⟨front, back, rfl, hfront, hback⟩ := List.filter_eq_append_iff.mp heq
  obtain ⟨mid, back', rfl, hmid, -, hback'⟩ := List.filter_eq_cons_iff.mp hback
  refine (first_eq_some htotal htrans).mpr ⟨(front ++ mid).filter q, back'.filter q, ?_, fun other hin => ?_, fun other hin => ?_⟩
  · rw [← List.append_assoc, List.filter_append, List.filter_cons_of_pos hq]
  · obtain ⟨hin, hqo⟩ := List.mem_filter.mp hin
    rcases hmore other (by simp only [List.mem_append] at hin ⊢; tauto) hqo with hpo | hlt
    · rcases List.mem_append.mp hin with hin | hin
      · exact hbefore other (hfront ▸ List.mem_filter.mpr ⟨hin, hpo⟩)
      · exact absurd hpo (hmid other hin)
    · exact hlt
  · obtain ⟨hin, hqo⟩ := List.mem_filter.mp hin
    rcases hmore other (by simp [hin]) hqo with hpo | hlt
    · exact hafter other (hback' ▸ List.mem_filter.mpr ⟨hin, hpo⟩)
    · rcases htotal row other with hle | hle
      · exact hle
      · rw [hlt] at hle
        cases hle

end First

/-- Rows are rewritten so that each is selected as it was, or leaves the selection. -/
theorem filter_map_eq {β : Type} {f : β → β} {p q : β → Bool} {rows : List β}
    (h : ∀ row ∈ rows, (f row = row ∧ p row = q row) ∨ (p (f row) = false ∧ q row = false)) :
    (rows.map f).filter p = rows.filter q := by
  induction rows with
  | nil => rfl
  | cons row rows ih =>
    have hrest := ih fun other ho => h other (List.mem_cons_of_mem _ ho)
    rw [List.map_cons, List.filter_cons, List.filter_cons, hrest]
    rcases h row List.mem_cons_self with ⟨heq, hpq⟩ | ⟨hp, hq⟩
    · rw [heq, hpq]
    · rw [hp, hq]
      rfl

/-- The only smallest row is the one selected. -/
theorem first_eq_of_least {β : Type} {le : β → β → Bool} {rows : List β} {row : β} (htotal : ∀ a b, le a b = true ∨ le b a = true)
    (htrans : ∀ a b c, le a b = true → le b c = true → le a c = true) (hmem : row ∈ rows)
    (hleast : ∀ other ∈ rows, other ≠ row → le other row = false) : first le rows = some row := by
  cases hfirst : first le rows with
  | none => exact absurd (first_eq_none.mp hfirst ▸ hmem) List.not_mem_nil
  | some found =>
    by_cases hsame : found = row
    · rw [hsame]
    · have hnot := hleast found (first_mem hfirst) hsame
      obtain ⟨before, after, rfl, hbefore, hafter⟩ := (first_eq_some htotal htrans).mp hfirst
      rcases List.mem_append.mp hmem with hin | hin
      · rcases htotal found row with hle | hle
        · rw [hnot] at hle
          cases hle
        · rw [hbefore row hin] at hle
          cases hle
      · rcases List.mem_cons.mp hin with rfl | hin
        · exact absurd rfl hsame
        · rw [hafter row hin] at hnot
          cases hnot

end Jarvis.Missions
