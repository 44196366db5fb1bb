/-
  Jarvis.Lib.Keyed — tables as lists of rows with a key.

  `replace` rewrites the rows of one key in place. Keys and their order stay, a lookup by key
  sees exactly the rewritten row, and with distinct keys no other row changes. `Allotted` says
  that the keys of a table are distinct and that the numbers still to be drawn are free.
-/
import Jarvis.Lib.Dict

namespace Jarvis.Keyed

variable {α κ : Type} {key : α → κ} {rows : List α}

section Lookup

variable [DecidableEq κ]

/-- The rows of a key, rewritten. -/
def replace (key : α → κ) (k : κ) (f : α → α) (rows : List α) : List α :=
  rows.map fun old => if key old = k then f old else old

variable {k : κ} {f : α → α}

theorem map_key_replace (hf : ∀ row, key row = k → key (f row) = k) :
    (replace key k f rows).map key = rows.map key := by
  unfold replace
  rw [List.map_map]
  refine List.map_congr_left fun old _ => ?_
  show key (if key old = k then f old else old) = key old
  split
  · rename_i h
    rw [hf old h, h]
  · rfl

/-- What a rewrite does not touch, the table keeps. -/
theorem map_replace_of_eq {β : Type} {g : α → β} (hf : ∀ row, g (f row) = g row) : (replace key k f rows).map g = rows.map g := by
  unfold replace
  rw [List.map_map]
  refine List.map_congr_left fun old _ => ?_
  show g (if key old = k then f old else old) = g old
  split
  · exact hf old
  · rfl

theorem replace_id : replace key k (fun row => row) rows = rows := by simp [replace]

theorem mem_replace {row : α} :
    row ∈ replace key k f rows ↔ (row ∈ rows ∧ key row ≠ k) ∨ ∃ old ∈ rows, key old = k ∧ row = f old := by
  unfold replace
  rw [List.mem_map]
  constructor
  · rintro ⟨old, hold, heq⟩
    split at heq
    · rename_i hk
      exact .inr ⟨old, hold, hk, heq.symm⟩
    · rename_i hk
      subst heq
      exact .inl ⟨hold, hk⟩
  · rintro (⟨hrow, hk⟩ | ⟨old, hold, hk, rfl⟩)
    · exact ⟨row, hrow, if_neg hk⟩
    · exact ⟨old, hold, if_pos hk⟩

/-- A lookup whose condition does not tell a rewritten row from what it was. -/
theorem find?_replace_of_iff {p : α → Bool} (hp : ∀ row ∈ rows, key row = k → p (f row) = p row) :
    (replace key k f rows).find? p = (rows.find? p).map fun old => if key old = k then f old else old := by
  unfold replace
  rw [List.find?_map]
  congr 1
  induction rows with
  | nil => rfl
  | cons row rows ih =>
    have hsame : (p ∘ fun old => if key old = k then f old else old) row = p row := by
      show p (if key row = k then f row else row) = p row
      split
      · rename_i h
        exact hp row List.mem_cons_self h
      · rfl
    rw [List.find?_cons, List.find?_cons, hsame, ih fun other hother => hp other (List.mem_cons_of_mem _ hother)]

/-- The lookup of a key after a rewrite. -/
theorem find?_replace (hf : ∀ row, key row = k → key (f row) = k) (j : κ) :
    (replace key k f rows).find? (fun row => key row = j) =
      (rows.find? fun row => key row = j).map fun old => if key old = k then f old else old :=
  find?_replace_of_iff fun row _ h => by rw [hf row h, h]

theorem find?_replace_of_ne (hf : ∀ row, key row = k → key (f row) = k) {j : κ} (hj : j ≠ k) :
    (replace key k f rows).find? (fun row => key row = j) = rows.find? fun row => key row = j := by
  rw [find?_replace hf]
  cases h : rows.find? fun row => key row = j with
  | none => rfl
  | some old =>
    have hold : key old = j := by simpa using List.find?_some h
    show some (if key old = k then f old else old) = some old
    rw [if_neg (by rw [hold]; exact hj)]

theorem find?_replace_self (hf : ∀ row, key row = k → key (f row) = k) {old : α}
    (h : rows.find? (fun row => key row = k) = some old) :
    (replace key k f rows).find? (fun row => key row = k) = some (f old) := by
  have hold : key old = k := by simpa using List.find?_some h
  rw [find?_replace hf, h]
  show some (if key old = k then f old else old) = some (f old)
  rw [if_pos hold]

/-- The lookup of a key in a table with a row more. -/
theorem find?_append_of_some {row old : α} {j : κ} (h : rows.find? (fun row => key row = j) = some old) :
    (rows ++ [row]).find? (fun row => key row = j) = some old := by
  rw [List.find?_append, h]
  rfl

end Lookup

/-- With distinct keys, a key names one row. -/
theorem unique (hrows : (rows.map key).Nodup) {a b : α} (ha : a ∈ rows) (hb : b ∈ rows) (h : key a = key b) : a = b :=
  List.inj_on_of_nodup_map hrows ha hb h

/-- A row is found by its key. -/
theorem find?_of_mem [DecidableEq κ] (hrows : (rows.map key).Nodup) {row : α} (hrow : row ∈ rows) :
    rows.find? (fun old => key old = key row) = some row := by
  cases h : rows.find? fun old => key old = key row with
  | none => exact absurd (decide_eq_true rfl) (List.find?_eq_none.mp h row hrow)
  | some old => rw [unique hrows (List.mem_of_find?_eq_some h) hrow (by simpa using List.find?_some h)]

theorem mem_replace_self [DecidableEq κ] {f : α → α} {old : α} (hold : old ∈ rows) : f old ∈ replace key (key old) f rows :=
  mem_replace.mpr (.inr ⟨old, hold, rfl, rfl⟩)

/-- With distinct keys, one row is rewritten. -/
theorem mem_replace_of_mem [DecidableEq κ] {f : α → α} (hrows : (rows.map key).Nodup) {old row : α} (hold : old ∈ rows) :
    row ∈ replace key (key old) f rows ↔ (row ∈ rows ∧ key row ≠ key old) ∨ row = f old := by
  rw [mem_replace]
  refine or_congr_right ⟨?_, fun h => ⟨old, hold, rfl, h⟩⟩
  rintro ⟨other, hother, hkey, rfl⟩
  rw [unique hrows hother hold hkey]

/-- One row, replaced by one that has the same of something. -/
theorem map_replace_of_mem [DecidableEq κ] {β : Type} {g : α → β} (hrows : (rows.map key).Nodup) {k : κ} {old new : α} (hold : old ∈ rows)
    (hk : key old = k) (hg : g new = g old) : (replace key k (fun _ => new) rows).map g = rows.map g := by
  unfold replace
  rw [List.map_map]
  refine List.map_congr_left fun row hrow => ?_
  show g (if key row = k then new else row) = g row
  split
  · rename_i h
    rw [unique hrows hrow hold (h.trans hk.symm), hg]
  · rfl

/-- A key that no row has. -/
theorem replace_of_forall_ne [DecidableEq κ] {k : κ} {f : α → α} (h : ∀ row ∈ rows, key row ≠ k) : replace key k f rows = rows :=
  (List.map_congr_left fun row hrow => if_neg (h row hrow)).trans (List.map_id rows)

/-- A condition that does not tell a rewritten row from what it was. -/
theorem filter_replace [DecidableEq κ] {k : κ} {f : α → α} {p : α → Bool} (hp : ∀ row ∈ rows, key row = k → p (f row) = p row) :
    (replace key k f rows).filter p = replace key k f (rows.filter p) := by
  unfold replace
  rw [List.filter_map]
  refine congrArg _ (List.filter_congr fun row hrow => ?_)
  show p (if key row = k then f row else row) = p row
  split
  · rename_i h
    exact hp row hrow h
  · rfl

/-- The last row, rewritten. -/
theorem replace_concat [DecidableEq κ] {f : α → α} {row : α} (hrows : ((rows ++ [row]).map key).Nodup) :
    replace key (key row) f (rows ++ [row]) = rows ++ [f row] := by
  have hne : ∀ old ∈ rows, key old ≠ key row := fun old hold heq => by
    rw [List.map_append] at hrows
    exact (List.nodup_append.mp hrows).2.2 _ (List.mem_map_of_mem hold) _ (List.mem_singleton_self _) heq
  show (rows ++ [row]).map _ = _
  rw [List.map_append]
  exact congrArg₂ _ (replace_of_forall_ne hne) (congrArg (fun x => [x]) (if_pos rfl))

theorem nodup_filter (hrows : (rows.map key).Nodup) (p : α → Bool) : ((rows.filter p).map key).Nodup :=
  hrows.sublist (List.filter_sublist.map key)

/-- A row with a key that was free. -/
theorem nodup_append {row : α} (hrows : (rows.map key).Nodup) (hnew : ∀ old ∈ rows, key old ≠ key row) :
    ((rows ++ [row]).map key).Nodup := by
  rw [List.map_append]
  refine List.Nodup.append hrows (by simp) fun j hj hj' => ?_
  obtain ⟨old, hold, rfl⟩ := List.mem_map.mp hj
  exact hnew old hold (by simpa using hj')

/-! ## Keys drawn in order -/

/-- Keys in use are distinct, and those still to be drawn are not among them. -/
structure Allotted (draw : Nat → κ) (keys : List κ) (next : Nat) : Prop where
  nodup : keys.Nodup
  lt : ∀ n, draw n ∈ keys → n < next

namespace Allotted

variable {draw : Nat → κ} {keys : List κ} {next n : Nat}

theorem grow (h : Allotted draw keys next) (hn : next ≤ n) : Allotted draw keys n :=
  ⟨h.nodup, fun m hm => Nat.lt_of_lt_of_le (h.lt m hm) hn⟩

theorem perm {keys' : List κ} (h : Allotted draw keys next) (hperm : keys.Perm keys') : Allotted draw keys' next :=
  ⟨hperm.nodup h.nodup, fun m hm => h.lt m (hperm.mem_iff.mpr hm)⟩

theorem unused (h : Allotted draw keys next) (hn : next ≤ n) : draw n ∉ keys :=
  fun hin => absurd (h.lt n hin) (Nat.not_lt.mpr hn)

/-- A key that is not in use, and below the next one if it is drawn. -/
theorem add (h : Allotted draw keys next) {k : κ} (hk : k ∉ keys) (hn : next ≤ n) (hlt : ∀ m, draw m = k → m < n) :
    Allotted draw (keys ++ [k]) n where
  nodup := List.Nodup.append h.nodup (List.nodup_singleton k) (List.disjoint_singleton.mpr hk)
  lt m hm := by
    obtain hm | hm := List.mem_append.mp hm
    · exact Nat.lt_of_lt_of_le (h.lt m hm) hn
    · exact hlt m (List.mem_singleton.mp hm)

end Allotted

end Jarvis.Keyed
