/-
  Jarvis.Lib.Dict — Python dictionaries: entries in insertion order, one for each key.

  Distinct keys are a field, so `get?` does not depend on the order of the entries and a
  sorted dictionary has the same values (`get?_sorted`).
-/
import Mathlib.Data.List.Dedup
import Mathlib.Data.List.Nodup
import Mathlib.Data.List.Sort
import Mathlib.Tactic.Common

namespace Jarvis

/-- No more distinct elements than a list that has them all is long. -/
theorem length_dedup_le {α : Type} [DecidableEq α] {l l' : List α} (h : ∀ a ∈ l, a ∈ l') : l.dedup.length ≤ l'.length :=
  (List.subperm_of_subset (List.nodup_dedup l) fun a ha => h a (List.mem_dedup.mp ha)).length_le

/-- With distinct keys, the element found for a key is the one that has it. -/
theorem find?_key {α κ : Type} [DecidableEq κ] {f : α → κ} {l : List α} (hl : (l.map f).Nodup) {k : κ} {a : α} :
    l.find? (fun x => f x = k) = some a ↔ a ∈ l ∧ f a = k := by
  constructor
  · intro h
    exact ⟨List.mem_of_find?_eq_some h, by simpa using List.find?_some h⟩
  · rintro ⟨hmem, hk⟩
    cases hf : l.find? fun x => f x = k with
    | none =>
      rw [List.find?_eq_none] at hf
      exact absurd (decide_eq_true hk) (hf a hmem)
    | some b =>
      have hb : f b = k := by simpa using List.find?_some hf
      rw [List.inj_on_of_nodup_map hl (List.mem_of_find?_eq_some hf) hmem (hb.trans hk.symm)]

structure Dict (κ ν : Type) where
  entries : List (κ × ν)
  nodup : (entries.map Prod.fst).Nodup

namespace Dict

variable {κ ν : Type} [DecidableEq κ]

def empty : Dict κ ν := ⟨[], by simp⟩

instance : Inhabited (Dict κ ν) := ⟨empty⟩

instance [DecidableEq ν] : DecidableEq (Dict κ ν) := fun a b =>
  decidable_of_iff (a.entries = b.entries) ⟨fun h => by cases a; cases b; simpa using h, fun h => by rw [h]⟩

def keys (d : Dict κ ν) : List κ := d.entries.map Prod.fst

def get? (d : Dict κ ν) (k : κ) : Option ν := (d.entries.find? fun e => e.1 = k).map Prod.snd

/-- `d.get(k, default)`. -/
def getD (d : Dict κ ν) (k : κ) (default : ν) : ν := (d.get? k).getD default

/-- Replace the value of `k` in place. -/
def replace (k : κ) (v : ν) (e : κ × ν) : κ × ν := if e.1 = k then (e.1, v) else e

theorem map_replace (k : κ) (v : ν) (es : List (κ × ν)) : (es.map (replace k v)).map Prod.fst = es.map Prod.fst := by
  rw [List.map_map]
  refine List.map_congr_left fun e _ => ?_
  simp only [Function.comp, replace]
  split <;> rfl

/-- `d[k] = v`. -/
def insert (d : Dict κ ν) (k : κ) (v : ν) : Dict κ ν :=
  if h : k ∈ d.keys then ⟨d.entries.map (replace k v), by rw [map_replace]; exact d.nodup⟩
  else ⟨d.entries ++ [(k, v)], by
    rw [List.map_append]
    refine List.Nodup.append d.nodup (by simp) fun j hj hj' => ?_
    have hjk : j = k := by simpa using hj'
    exact h (hjk ▸ hj)⟩

/-- `{**d, **e}` for the entries of `e` in order. -/
def update (d : Dict κ ν) (es : List (κ × ν)) : Dict κ ν := es.foldl (fun d e => d.insert e.1 e.2) d

def ofList (es : List (κ × ν)) : Dict κ ν := empty.update es

/-- `dict(sorted(d.items()))`: keys are distinct, so the order of values does not matter. -/
def sorted (le : κ → κ → Bool) (d : Dict κ ν) : Dict κ ν :=
  ⟨d.entries.insertionSort fun a b => le a.1 b.1,
    ((List.perm_insertionSort _ d.entries).map Prod.fst).nodup_iff.mpr d.nodup⟩

theorem get?_eq_some {d : Dict κ ν} {k : κ} {v : ν} : d.get? k = some v ↔ (k, v) ∈ d.entries := by
  unfold get?
  rw [Option.map_eq_some_iff]
  constructor
  · rintro ⟨e, he, rfl⟩
    obtain ⟨hmem, rfl⟩ := (find?_key d.nodup).mp he
    exact hmem
  · exact fun h => ⟨(k, v), (find?_key d.nodup).mpr ⟨h, rfl⟩, rfl⟩

theorem get?_eq_none {d : Dict κ ν} {k : κ} : d.get? k = none ↔ k ∉ d.keys := by
  unfold get? keys
  rw [Option.map_eq_none_iff, List.find?_eq_none, List.mem_map]
  constructor
  · rintro h ⟨e, he, hk⟩
    exact h e he (decide_eq_true hk)
  · intro h e he hk
    exact h ⟨e, he, of_decide_eq_true hk⟩

@[simp]
theorem get?_empty (k : κ) : (empty : Dict κ ν).get? k = none := rfl

theorem get?_insert (d : Dict κ ν) (k j : κ) (v : ν) : (d.insert k v).get? j = if j = k then some v else d.get? j := by
  by_cases hk : k ∈ d.keys
  · have hins : (d.insert k v).entries = d.entries.map (replace k v) := by simp [insert, hk]
    by_cases hj : j = k
    · subst hj
      rw [if_pos rfl, get?_eq_some, hins]
      obtain ⟨e, he, hej⟩ := List.mem_map.mp hk
      exact List.mem_map.mpr ⟨e, he, by simp [replace, hej]⟩
    · rw [if_neg hj]
      refine Option.ext fun w => ?_
      rw [get?_eq_some, get?_eq_some, hins, List.mem_map]
      constructor
      · rintro ⟨e, he, hr⟩
        unfold replace at hr
        split at hr
        · rename_i hek
          exact absurd ((congrArg Prod.fst hr).symm.trans hek) hj
        · exact hr ▸ he
      · exact fun h => ⟨(j, w), h, by simp [replace, hj]⟩
  · have hins : (d.insert k v).entries = d.entries ++ [(k, v)] := by simp [insert, hk]
    refine Option.ext fun w => ?_
    rw [get?_eq_some, hins, List.mem_append, List.mem_singleton]
    by_cases hj : j = k
    · subst hj
      have hold : (j, w) ∉ d.entries := fun h => hk (List.mem_map.mpr ⟨_, h, rfl⟩)
      simp [hold, eq_comm]
    · rw [if_neg hj, get?_eq_some]
      simp [hj]

@[simp]
theorem get?_insert_self (d : Dict κ ν) (k : κ) (v : ν) : (d.insert k v).get? k = some v := by
  rw [get?_insert, if_pos rfl]

theorem get?_insert_of_ne (d : Dict κ ν) {k j : κ} (v : ν) (h : j ≠ k) : (d.insert k v).get? j = d.get? j := by
  rw [get?_insert, if_neg h]

theorem mem_entries_insert {d : Dict κ ν} {k : κ} {v : ν} {e : κ × ν} (h : e ∈ (d.insert k v).entries) :
    e = (k, v) ∨ e ∈ d.entries := by
  have hget : (d.insert k v).get? e.1 = some e.2 := get?_eq_some.mpr h
  rw [get?_insert] at hget
  split at hget
  · rename_i hk
    exact .inl (Prod.ext hk (Option.some.inj hget).symm)
  · exact .inr (get?_eq_some.mp hget)

/-- Writing a value changes nothing where it is the value there. -/
theorem insert_eq_self {d : Dict κ ν} {k : κ} {v : ν} : d.insert k v = d ↔ d.get? k = some v := by
  constructor
  · intro h
    rw [← h, get?_insert_self]
  · intro h
    have hmem : k ∈ d.keys := List.mem_map.mpr ⟨(k, v), get?_eq_some.mp h, rfl⟩
    have hsame : d.entries.map (replace k v) = d.entries := by
      refine (List.map_congr_left fun e he => ?_).trans (List.map_id _)
      unfold replace id
      split
      · rename_i hk
        have hv := get?_eq_some.mpr (hk ▸ he : (k, e.2) ∈ d.entries)
        rw [h] at hv
        rw [Option.some.inj hv]
      · rfl
    cases d
    simp only [insert, dif_pos hmem, mk.injEq]
    exact hsame

theorem get?_update_of_not_mem : ∀ (es : List (κ × ν)) (d : Dict κ ν) {k : κ}, (∀ e ∈ es, e.1 ≠ k) →
    (d.update es).get? k = d.get? k := by
  intro es
  induction es with
  | nil => intro d k _; rfl
  | cons e es ih =>
    intro d k h
    have hd := ih (d.insert e.1 e.2) fun e' he' => h e' (List.mem_cons_of_mem _ he')
    rw [get?_insert_of_ne d e.2 (Ne.symm (h e List.mem_cons_self))] at hd
    exact hd

theorem mem_entries_update {es : List (κ × ν)} {d : Dict κ ν} {e : κ × ν} (h : e ∈ (d.update es).entries) :
    e ∈ d.entries ∨ e ∈ es := by
  induction es generalizing d with
  | nil => exact .inl h
  | cons first es ih =>
    rcases ih h with hmem | hmem
    · rcases mem_entries_insert hmem with rfl | hmem
      · exact .inr List.mem_cons_self
      · exact .inl hmem
    · exact .inr (List.mem_cons_of_mem _ hmem)

/-- Entries with new and distinct keys are added as they are. -/
theorem entries_update {es : List (κ × ν)} {d : Dict κ ν} (h : ((d.entries ++ es).map Prod.fst).Nodup) :
    (d.update es).entries = d.entries ++ es := by
  induction es generalizing d with
  | nil => exact (List.append_nil _).symm
  | cons e es ih =>
    have hnew : e.1 ∉ d.keys := by
      rw [List.map_append, List.map_cons] at h
      exact fun hmem => (List.nodup_append.mp h).2.2 _ hmem _ List.mem_cons_self rfl
    have hins : (d.insert e.1 e.2).entries = d.entries ++ [e] := by simp [insert, hnew]
    have hrest := ih (d := d.insert e.1 e.2) (by rwa [hins, List.append_assoc])
    rw [hins, List.append_assoc] at hrest
    exact hrest

theorem entries_ofList {es : List (κ × ν)} (h : (es.map Prod.fst).Nodup) : (ofList es).entries = es :=
  entries_update (d := empty) h

@[simp]
theorem get?_sorted (le : κ → κ → Bool) (d : Dict κ ν) (k : κ) : (d.sorted le).get? k = d.get? k := by
  refine Option.ext fun v => ?_
  rw [get?_eq_some, get?_eq_some]
  exact (List.perm_insertionSort _ d.entries).mem_iff

theorem isSome_get? {d : Dict κ ν} {k : κ} : (d.get? k).isSome ↔ k ∈ d.keys := by
  rw [Option.isSome_iff_ne_none, Ne, get?_eq_none, not_not]

/-- The entries stand in the order of their keys. -/
def Sorted (le : κ → κ → Bool) (d : Dict κ ν) : Prop := d.entries.Pairwise fun a b => le a.1 b.1 = true

omit [DecidableEq κ] in
theorem sorted_empty (le : κ → κ → Bool) : (empty : Dict κ ν).Sorted le := List.Pairwise.nil

omit [DecidableEq κ] in
theorem sorted_sorted {le : κ → κ → Bool} (htotal : ∀ a b, le a b = true ∨ le b a = true)
    (htrans : ∀ a b c, le a b = true → le b c = true → le a c = true) (d : Dict κ ν) : (d.sorted le).Sorted le := by
  have : Std.Total fun a b : κ × ν => le a.1 b.1 = true := ⟨fun a b => htotal a.1 b.1⟩
  have : IsTrans (κ × ν) fun a b => le a.1 b.1 = true := ⟨fun a b c => htrans a.1 b.1 c.1⟩
  exact List.pairwise_insertionSort _ d.entries

omit [DecidableEq κ] in
theorem Sorted.sorted_eq {le : κ → κ → Bool} {d : Dict κ ν} (h : d.Sorted le) : d.sorted le = d := by
  cases d
  simp only [sorted, mk.injEq]
  exact List.Pairwise.insertionSort_eq h

/-- Dictionaries in order with the same values are the same. -/
theorem Sorted.ext {le : κ → κ → Bool} (hantisymm : ∀ a b, le a b = true → le b a = true → a = b) {d e : Dict κ ν}
    (hd : d.Sorted le) (he : e.Sorted le) (h : ∀ k, d.get? k = e.get? k) : d = e := by
  have hmem : ∀ entry : κ × ν, entry ∈ d.entries ↔ entry ∈ e.entries := by
    rintro ⟨k, v⟩
    rw [← get?_eq_some, ← get?_eq_some, h]
  have hperm : d.entries.Perm e.entries :=
    (List.perm_ext_iff_of_nodup (List.Nodup.of_map _ d.nodup) (List.Nodup.of_map _ e.nodup)).mpr hmem
  have heq : d.entries = e.entries := by
    refine List.Perm.eq_of_pairwise (fun a b ha hb hab hba => ?_) hd he hperm
    exact List.inj_on_of_nodup_map e.nodup ((hmem a).mp ha) hb (hantisymm _ _ hab hba)
  cases d
  cases e
  simpa using heq

end Dict

end Jarvis
