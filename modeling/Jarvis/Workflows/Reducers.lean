/-
  Jarvis.Workflows.Reducers — the reducers of the checkpointed channels over whole families
  of updates (`workflows/state.py`, `contracts/base.py`).

  Parallel branches deliver their updates in no order of their own and a replay delivers
  one twice. What a fold of a reducer makes of a family is determined by the updates in it
  (`mergeById_reduces`, `maxMap_reduces`, `setUnion_reduces`), so order and repetition do
  not show. `reducedState` is the graph's own reduction of an update, channel by channel,
  and `merged_state` agrees with it in every state the graph can hold
  (`mergedState_agrees`). `reducers_agree` has all of it.
-/
import Mathlib.Data.String.Basic
import Mathlib.Order.Bounds.Basic
import Jarvis.Lib.Reduce
import Jarvis.Lib.Steps
import Jarvis.Workflows.State

namespace Jarvis.Workflows

/-! ## The order of keys -/

theorem stringLe_total (a b : String) : stringLe a b = true ∨ stringLe b a = true := by
  simpa [stringLe] using le_total a b

theorem stringLe_trans (a b c : String) (hab : stringLe a b = true) (hbc : stringLe b c = true) : stringLe a c = true := by
  simp only [stringLe, decide_eq_true_eq] at *
  exact le_trans hab hbc

theorem stringLe_antisymm (a b : String) (hab : stringLe a b = true) (hba : stringLe b a = true) : a = b := by
  simp only [stringLe, decide_eq_true_eq] at *
  exact le_antisymm hab hba

theorem sorted_stringLe {ν : Type} (d : Dict String ν) : (d.sorted stringLe).Sorted stringLe :=
  Dict.sorted_sorted stringLe_total stringLe_trans d

/-! ## `merge_by_id` -/

/-- No two of the updates give one key values of different canonical texts. -/
def Compatible (updates : Set (Dict String Json)) : Prop :=
  ∀ u ∈ updates, ∀ v ∈ updates, ∀ key x y, u.get? key = some x → v.get? key = some y → x.canonEq y = true

/-- Every value of the update is well formed. -/
def Distinct (update : Dict String Json) : Prop := (Json.obj update.entries).distinct = true

instance (update : Dict String Json) : Decidable (Distinct update) := inferInstanceAs (Decidable (_ = true))

/-- The two dictionaries have the same canonical text. -/
def SameJson (a b : Dict String Json) : Prop := (Json.obj a.entries).canonEq (.obj b.entries) = true

/-- `merged` has the keys of the updates, each with the value of an update that has it. -/
structure Merges (merged : Dict String Json) (updates : Set (Dict String Json)) : Prop where
  sorted : merged.Sorted stringLe
  value : ∀ key x, merged.get? key = some x → ∃ u ∈ updates, u.get? key = some x
  key : ∀ u ∈ updates, ∀ key, (u.get? key).isSome → (merged.get? key).isSome

theorem Distinct.get? {update : Dict String Json} (h : Distinct update) {key : String} {x : Json}
    (hx : update.get? key = some x) : x.distinct = true :=
  (Json.distinct_obj.mp h).2 _ (Dict.get?_eq_some.mp hx)

theorem mergeEntry_isOk {merged : Dict String Json} {entry : String × Json} :
    (∃ m, mergeEntry merged entry = .ok m) ↔ ∀ x, merged.get? entry.1 = some x → x.canonEq entry.2 = true := by
  unfold mergeEntry
  cases merged.get? entry.1 with
  | none => simp
  | some value =>
    by_cases h : value.canonEq entry.2 = true
    · simp [h]
    · simp [h]

theorem foldlM_mergeEntry_isOk : ∀ {entries : List (String × Json)} {left : Dict String Json},
    (entries.map Prod.fst).Nodup →
    ((∃ m, entries.foldlM mergeEntry left = .ok m) ↔
      ∀ entry ∈ entries, ∀ x, left.get? entry.1 = some x → x.canonEq entry.2 = true) := by
  intro entries
  induction entries with
  | nil => intro left _; exact ⟨fun _ _ h => absurd h List.not_mem_nil, fun _ => ⟨left, rfl⟩⟩
  | cons entry entries ih =>
    intro left hnodup
    obtain ⟨hfirst, hnodup⟩ := List.nodup_cons.mp hnodup
    rw [List.foldlM_cons, List.forall_mem_cons, ← mergeEntry_isOk]
    -- the later entries have other keys, so the first insert does not show in their checks
    have hrest := @ih (left.insert entry.1 entry.2) hnodup
    constructor
    · rintro ⟨m, h⟩
      obtain ⟨mid, hmid, h⟩ := bind_eq_ok.mp h
      refine ⟨⟨mid, hmid⟩, fun e he x hx => ?_⟩
      rw [mergeEntry_ok hmid] at h
      refine hrest.mp ⟨m, h⟩ e he x ?_
      rw [Dict.get?_insert_of_ne left entry.2 fun hk => hfirst (List.mem_map.mpr ⟨e, he, hk⟩), hx]
    · rintro ⟨⟨mid, hmid⟩, hlater⟩
      rw [hmid, mergeEntry_ok hmid]
      refine hrest.mpr fun e he x hx => hlater e he x ?_
      rwa [Dict.get?_insert_of_ne left entry.2 fun hk => hfirst (List.mem_map.mpr ⟨e, he, hk⟩)] at hx

/-- A merge returns when the sides agree on the keys they share. -/
theorem mergeById_isOk {left right : Dict String Json} :
    (∃ m, mergeById left right = .ok m) ↔
      ∀ key x y, left.get? key = some x → right.get? key = some y → x.canonEq y = true := by
  have hfold : (∃ m, mergeById left right = .ok m) ↔ ∃ m, right.entries.foldlM mergeEntry left = .ok m := by
    unfold mergeById
    constructor
    · rintro ⟨m, h⟩
      obtain ⟨merged, hm, -⟩ := bind_eq_ok.mp h
      exact ⟨merged, hm⟩
    · rintro ⟨merged, h⟩
      exact ⟨merged.sorted stringLe, by rw [h]; rfl⟩
  rw [hfold, foldlM_mergeEntry_isOk right.nodup]
  constructor
  · exact fun h key x y hx hy => h (key, y) (Dict.get?_eq_some.mp hy) x hx
  · exact fun h e he x hx => h e.1 x e.2 hx (Dict.get?_eq_some.mpr he)

theorem mergeById_sorted {left right m : Dict String Json} (h : mergeById left right = .ok m) : m.Sorted stringLe := by
  unfold mergeById at h
  obtain ⟨merged, -, hm⟩ := bind_eq_ok.mp h
  cases hm
  exact sorted_stringLe merged

theorem exists_error {α : Type} {x : Except Raised α} (h : ¬ ∃ a, x = .ok a) : ∃ e, x = .error e := by
  cases x with
  | error e => exact ⟨e, rfl⟩
  | ok a => exact absurd ⟨a, rfl⟩ h

theorem mergeById_reduces : Reduces mergeById .empty Distinct Compatible Merges where
  fine_empty := fun _ h => absurd h (Set.notMem_empty _)
  means_start := ⟨Dict.sorted_empty stringLe, fun _ _ h => absurd h (by simp), fun _ h => absurd h (Set.notMem_empty _)⟩
  narrow := fun hsub h u hu v hv => h u (hsub hu) v (hsub hv)
  accepts := by
    intro merged S a _ hm hfine
    have hok : ∃ m, mergeById merged a = .ok m := mergeById_isOk.mpr fun key x y hx hy => by
      obtain ⟨u, hu, hux⟩ := hm.value key x hx
      exact hfine u (.inr hu) a (.inl rfl) key x y hux hy
    obtain ⟨m, h⟩ := hok
    refine ⟨m, h, mergeById_sorted h, fun key x hx => ?_, fun u hu key hk => ?_⟩
    · rcases (mergeById_ok h key).1 x hx with hx | hx
      · obtain ⟨u, hu, hux⟩ := hm.value key x hx
        exact ⟨u, .inr hu, hux⟩
      · exact ⟨a, .inl rfl, hx⟩
    · refine (mergeById_ok h key).2 ?_
      rcases hu with rfl | hu
      · exact .inr hk
      · exact .inl (hm.key u hu key hk)
  refuses := by
    intro merged S a hinput hm hfine hconflict
    refine exists_error fun hok => hconflict ?_
    rw [mergeById_isOk] at hok
    have hold : ∀ u ∈ S, ∀ key x y, u.get? key = some x → a.get? key = some y → x.canonEq y = true := by
      intro u hu key x y hx hy
      obtain ⟨z, hz⟩ := Option.isSome_iff_exists.mp (hm.key u hu key (by rw [hx]; rfl))
      obtain ⟨w, hw, hwz⟩ := hm.value key z hz
      exact Json.canonEq_trans ((hinput w (.inr hw)).get? hwz) (hfine u hu w hw key x z hx hwz) (hok key z y hz hy)
    rintro u (rfl | hu) v (rfl | hv) key x y hx hy
    · cases hx.symm.trans hy
      exact Json.canonEq_refl ((hinput _ (.inl rfl)).get? hx)
    · exact Json.canonEq_symm ((hinput v (.inr hv)).get? hy) ((hinput _ (.inl rfl)).get? hx) (hold v hv key y x hy hx)
    · exact hold u hu key x y hx hy
    · exact hfine u hu v hv key x y hx hy

theorem lookup_entries {ν : Type} (d : Dict String ν) (key : String) : d.entries.lookup key = d.get? key := by
  unfold Dict.get?
  induction d.entries with
  | nil => rfl
  | cons e es ih =>
    rw [List.lookup_cons, List.find?_cons]
    by_cases h : key = e.1
    · simp [h]
    · rw [beq_eq_false_iff_ne.mpr h, decide_eq_false (Ne.symm h)]
      exact ih

theorem sameJson_of_get? {a b : Dict String Json} (hkeys : ∀ key, (a.get? key).isSome ↔ (b.get? key).isSome)
    (hvalues : ∀ key x y, a.get? key = some x → b.get? key = some y → x.canonEq y = true) : SameJson a b := by
  have hperm : a.keys.Perm b.keys :=
    (List.perm_ext_iff_of_nodup a.nodup b.nodup).mpr fun key =>
      Dict.isSome_get?.symm.trans ((hkeys key).trans Dict.isSome_get?)
  have hlength : a.entries.length = b.entries.length := by simpa [Dict.keys] using hperm.length_eq
  unfold SameJson Json.canonEq
  rw [Json.eqBy, hlength, beq_self_eq_true, Bool.true_and, Json.eqObj_iff]
  intro e he
  have hx : a.get? e.1 = some e.2 := Dict.get?_eq_some.mpr he
  obtain ⟨y, hy⟩ := Option.isSome_iff_exists.mp ((hkeys e.1).mp (by rw [hx]; rfl))
  exact ⟨y, by rw [lookup_entries, hy], hvalues e.1 e.2 y hx hy⟩

theorem Merges.sameJson {a b : Dict String Json} {updates : Set (Dict String Json)} (hfine : Compatible updates)
    (ha : Merges a updates) (hb : Merges b updates) : SameJson a b := by
  have hkeys : ∀ {a b : Dict String Json}, Merges a updates → Merges b updates → ∀ key,
      (a.get? key).isSome → (b.get? key).isSome := by
    intro a b ha hb key hk
    obtain ⟨x, hx⟩ := Option.isSome_iff_exists.mp hk
    obtain ⟨u, hu, hux⟩ := ha.value key x hx
    exact hb.key u hu key (by rw [hux]; rfl)
  refine sameJson_of_get? (fun key => ⟨hkeys ha hb key, hkeys hb ha key⟩) fun key x y hx hy => ?_
  obtain ⟨u, hu, hux⟩ := ha.value key x hx
  obtain ⟨v, hv, hvy⟩ := hb.value key y hy
  exact hfine u hu v hv key x y hux hvy

/-! ## `max_map` -/

/-- One entry of the right side of `max_map` as it is delivered: a boolean is not an integer. -/
def maxValue (merged : Dict String Int) (entry : String × Json) : Except Raised (Dict String Int) :=
  match entry.2 with
  | .scalar (.int value) => maxEntry merged (entry.1, value)
  | _ => .error (.invariant "Counters must be nonnegative integers")

/-- `max_map` on an update as it is delivered. -/
def maxMapValues (left : Dict String Int) (right : Dict String Json) : Except Raised (Dict String Int) := do
  let merged ← right.entries.foldlM maxValue left
  return merged.sorted stringLe

/-- On an update of integers it is `maxMap`. -/
theorem maxMapValues_int {left right : Dict String Int} {update : Dict String Json}
    (h : update.entries = right.entries.map fun entry => (entry.1, Json.int entry.2)) :
    maxMapValues left update = maxMap left right := by
  unfold maxMapValues maxMap
  rw [h, List.foldlM_map]
  rfl

/-- The value is a non-negative integer. -/
def IsCount (j : Json) : Prop := ∃ n : Int, 0 ≤ n ∧ j = .int n

def Counts (updates : Set (Dict String Json)) : Prop := ∀ u ∈ updates, ∀ key x, u.get? key = some x → IsCount x

/-- The counts the updates hold under a key. -/
def countsOf (updates : Set (Dict String Json)) (key : String) : Set Int := {n | ∃ u ∈ updates, u.get? key = some (.int n)}

/-- `merged` has the keys of the updates, each with the greatest of its counts. -/
structure Maxima (merged : Dict String Int) (updates : Set (Dict String Json)) : Prop where
  sorted : merged.Sorted stringLe
  value : ∀ key n, merged.get? key = some n → IsGreatest (countsOf updates key) n
  key : ∀ u ∈ updates, ∀ key, (u.get? key).isSome → (merged.get? key).isSome

theorem maxValue_ok {merged m : Dict String Int} {entry : String × Json} (h : maxValue merged entry = .ok m) :
    ∃ n : Int, 0 ≤ n ∧ entry.2 = .int n ∧ m = merged.insert entry.1 (max (merged.getD entry.1 0) n) := by
  unfold maxValue at h
  split at h
  · rename_i n hn
    unfold maxEntry at h
    split at h
    · cases h
    · cases h
      exact ⟨n, by omega, hn, rfl⟩
  · cases h

theorem maxValue_isOk {merged : Dict String Int} {entry : String × Json} (h : IsCount entry.2) :
    ∃ m, maxValue merged entry = .ok m := by
  obtain ⟨n, hn, heq⟩ := h
  refine ⟨merged.insert entry.1 (max (merged.getD entry.1 0) n), ?_⟩
  unfold maxValue maxEntry
  rw [heq]
  exact if_neg (by omega)

theorem foldlM_maxValue_isOk : ∀ {entries : List (String × Json)} {left : Dict String Int},
    (∀ entry ∈ entries, IsCount entry.2) → ∃ m, entries.foldlM maxValue left = .ok m := by
  intro entries
  induction entries with
  | nil => exact fun _ => ⟨_, rfl⟩
  | cons entry entries ih =>
    intro left h
    obtain ⟨mid, hmid⟩ := @maxValue_isOk left entry (h entry List.mem_cons_self)
    rw [List.foldlM_cons, hmid]
    exact ih fun e he => h e (List.mem_cons_of_mem _ he)

/-- Every entry is a count, and the value of its key is the greater of the count and the value before. -/
theorem foldlM_maxValue : ∀ {entries : List (String × Json)} {left m : Dict String Int},
    (entries.map Prod.fst).Nodup → entries.foldlM maxValue left = .ok m →
    (∀ entry ∈ entries, ∃ n : Int, 0 ≤ n ∧ entry.2 = .int n ∧ m.get? entry.1 = some (max (left.getD entry.1 0) n)) ∧
    ∀ key, (∀ entry ∈ entries, entry.1 ≠ key) → m.get? key = left.get? key := by
  intro entries
  induction entries with
  | nil =>
    intro left m _ h
    cases h
    exact ⟨fun _ h => absurd h List.not_mem_nil, fun _ _ => rfl⟩
  | cons entry entries ih =>
    intro left m hnodup h
    obtain ⟨hfirst, hnodup⟩ := List.nodup_cons.mp hnodup
    rw [List.foldlM_cons] at h
    obtain ⟨mid, hmid, h⟩ := bind_eq_ok.mp h
    obtain ⟨n, hn, heq, rfl⟩ := maxValue_ok hmid
    obtain ⟨hentries, hothers⟩ := ih hnodup h
    have hne : ∀ e ∈ entries, e.1 ≠ entry.1 := fun e he hk => hfirst (List.mem_map.mpr ⟨e, he, hk⟩)
    refine ⟨fun e he => ?_, fun key hkey => ?_⟩
    · rcases List.mem_cons.mp he with rfl | he
      · exact ⟨n, hn, heq, by rw [hothers _ hne, Dict.get?_insert_self]⟩
      · obtain ⟨i, hi, heq, hget⟩ := hentries e he
        refine ⟨i, hi, heq, ?_⟩
        rwa [Dict.getD, Dict.get?_insert_of_ne _ _ (hne e he)] at hget
    · rw [hothers key fun e he => hkey e (List.mem_cons_of_mem _ he)]
      exact Dict.get?_insert_of_ne _ _ (Ne.symm (hkey entry List.mem_cons_self))

theorem maxMapValues_ok {left m : Dict String Int} {right : Dict String Json} (h : maxMapValues left right = .ok m) :
    m.Sorted stringLe ∧
    (∀ key x, right.get? key = some x → ∃ n : Int, 0 ≤ n ∧ x = .int n ∧ m.get? key = some (max (left.getD key 0) n)) ∧
    ∀ key, right.get? key = none → m.get? key = left.get? key := by
  unfold maxMapValues at h
  obtain ⟨merged, hf, hm⟩ := bind_eq_ok.mp h
  cases hm
  obtain ⟨hentries, hothers⟩ := foldlM_maxValue right.nodup hf
  refine ⟨sorted_stringLe merged, fun key x hx => ?_, fun key hkey => ?_⟩
  · rw [Dict.get?_sorted]
    exact hentries (key, x) (Dict.get?_eq_some.mp hx)
  · rw [Dict.get?_sorted]
    exact hothers key fun e he hk => Dict.get?_eq_none.mp hkey (List.mem_map.mpr ⟨e, he, hk⟩)

theorem countsOf_insert {updates : Set (Dict String Json)} {a : Dict String Json} {key : String} {x : Json}
    (hx : a.get? key = some x) {n : Int} (hn : x = .int n) :
    countsOf (insert a updates) key = insert n (countsOf updates key) := by
  subst hn
  refine Set.ext fun i => ⟨?_, ?_⟩
  · rintro ⟨u, rfl | hu, hi⟩
    · rw [hx] at hi
      cases hi
      exact .inl rfl
    · exact .inr ⟨u, hu, hi⟩
  · rintro (rfl | ⟨u, hu, hi⟩)
    · exact ⟨a, .inl rfl, hx⟩
    · exact ⟨u, .inr hu, hi⟩

theorem countsOf_insert_of_none {updates : Set (Dict String Json)} {a : Dict String Json} {key : String}
    (hx : a.get? key = none) : countsOf (insert a updates) key = countsOf updates key := by
  refine Set.ext fun i => ⟨?_, fun ⟨u, hu, hi⟩ => ⟨u, .inr hu, hi⟩⟩
  rintro ⟨u, rfl | hu, hi⟩
  · rw [hx] at hi
    cases hi
  · exact ⟨u, hu, hi⟩

/-- The greatest count after one more, which the code takes with 0 where the key is new. -/
theorem Maxima.greatest {merged : Dict String Int} {updates : Set (Dict String Json)} (h : Maxima merged updates)
    {key : String} {n : Int} (hn : 0 ≤ n) : IsGreatest (insert n (countsOf updates key)) (max (merged.getD key 0) n) := by
  unfold Dict.getD
  cases hold : merged.get? key with
  | none =>
    have hempty : countsOf updates key = ∅ := Set.eq_empty_of_forall_notMem fun i ⟨u, hu, hi⟩ => by
      have := h.key u hu key (by rw [hi]; rfl)
      rw [hold] at this
      cases this
    rw [hempty, Option.getD_none, max_eq_right hn, insert_empty_eq]
    exact isGreatest_singleton
  | some i =>
    rw [Option.getD_some, max_comm]
    exact (h.value key i hold).insert n

theorem maxMap_reduces : Reduces maxMapValues .empty (fun _ => True) Counts Maxima where
  fine_empty := fun _ h => absurd h (Set.notMem_empty _)
  means_start := ⟨Dict.sorted_empty stringLe, fun _ _ h => absurd h (by simp), fun _ h => absurd h (Set.notMem_empty _)⟩
  narrow := fun hsub h u hu => h u (hsub hu)
  accepts := by
    intro merged S a _ hm hfine
    have hok : ∃ m, maxMapValues merged a = .ok m := by
      obtain ⟨m, h⟩ := @foldlM_maxValue_isOk a.entries merged fun entry he =>
        hfine a (.inl rfl) entry.1 entry.2 (Dict.get?_eq_some.mpr he)
      exact ⟨m.sorted stringLe, by rw [maxMapValues, h]; rfl⟩
    obtain ⟨m, h⟩ := hok
    obtain ⟨hsorted, hgiven, hothers⟩ := maxMapValues_ok h
    refine ⟨m, h, hsorted, fun key n hn => ?_, fun u hu key hk => ?_⟩
    · cases ha : a.get? key with
      | none =>
        rw [hothers key ha] at hn
        rw [countsOf_insert_of_none ha]
        exact hm.value key n hn
      | some x =>
        obtain ⟨i, hi, hx, hget⟩ := hgiven key x ha
        rw [countsOf_insert ha hx, ← Option.some.inj (hget.symm.trans hn)]
        exact hm.greatest hi
    · cases ha : a.get? key with
      | none =>
        rw [hothers key ha]
        rcases hu with rfl | hu
        · rw [ha] at hk
          cases hk
        · exact hm.key u hu key hk
      | some x =>
        obtain ⟨i, -, -, hget⟩ := hgiven key x ha
        rw [hget]
        rfl
  refuses := by
    intro merged S a _ hm hfine hbad
    refine exists_error ?_
    rintro ⟨m, h⟩
    apply hbad
    rintro u (rfl | hu) key x hx
    · obtain ⟨n, hn, heq, -⟩ := (maxMapValues_ok h).2.1 key x hx
      exact ⟨n, hn, heq⟩
    · exact hfine u hu key x hx

theorem Maxima.eq {a b : Dict String Int} {updates : Set (Dict String Json)} (ha : Maxima a updates)
    (hb : Maxima b updates) : a = b := by
  have hle : ∀ {a b : Dict String Int}, Maxima a updates → Maxima b updates → ∀ key n, a.get? key = some n →
      b.get? key = some n := by
    intro a b ha hb key n hn
    obtain ⟨u, hu, hun⟩ := (ha.value key n hn).1
    obtain ⟨i, hi⟩ := Option.isSome_iff_exists.mp (hb.key u hu key (by rw [hun]; rfl))
    rw [hi, (hb.value key i hi).unique (ha.value key n hn)]
  exact Dict.Sorted.ext stringLe_antisymm ha.sorted hb.sorted fun key =>
    Option.ext fun n => ⟨hle ha hb key n, hle hb ha key n⟩

/-! ## `set_union` -/

/-- `names` has the members of the updates, each once. -/
structure Union (names : List String) (updates : Set (List String)) : Prop where
  sorted : names.Pairwise fun a b => stringLe a b = true
  nodup : names.Nodup
  mem : ∀ name, name ∈ names ↔ ∃ u ∈ updates, name ∈ u

theorem setUnion_sorted (left right : List String) :
    (setUnion left right).Pairwise (fun a b => stringLe a b = true) ∧ (setUnion left right).Nodup := by
  have : Std.Total fun a b : String => stringLe a b = true := ⟨stringLe_total⟩
  have : IsTrans String fun a b => stringLe a b = true := ⟨stringLe_trans⟩
  exact ⟨List.pairwise_insertionSort _ _, (List.perm_insertionSort _ _).nodup_iff.mpr (List.nodup_dedup _)⟩

theorem setUnion_reduces :
    Reduces (fun left right => (.ok (setUnion left right) : Except Raised (List String))) [] (fun _ => True)
      (fun _ => True) Union where
  fine_empty := trivial
  means_start := ⟨.nil, .nil, fun name => by simp⟩
  narrow := fun _ _ => trivial
  accepts := by
    intro names S a _ hn _
    obtain ⟨hsorted, hnodup⟩ := setUnion_sorted names a
    refine ⟨_, rfl, hsorted, hnodup, fun name => ?_⟩
    rw [mem_setUnion, hn.mem]
    simp [or_comm]
  refuses := fun _ _ _ h => absurd trivial h

theorem Union.eq {a b : List String} {updates : Set (List String)} (ha : Union a updates) (hb : Union b updates) :
    a = b := by
  have hperm : a.Perm b := (List.perm_ext_iff_of_nodup ha.nodup hb.nodup).mpr fun name => by rw [ha.mem, hb.mem]
  exact hperm.eq_of_pairwise (fun x y _ _ hxy hyx => stringLe_antisymm x y hxy hyx) ha.sorted hb.sorted

theorem foldl_setUnion_eq {us vs : List (List String)} (hsame : ∀ u, u ∈ us ↔ u ∈ vs) :
    us.foldl setUnion [] = vs.foldl setUnion [] := by
  have hpure : ∀ xs : List (List String),
      (xs.foldlM (fun left right => .ok (setUnion left right)) [] : Except Raised (List String)) =
        .ok (xs.foldl setUnion []) := fun xs => List.foldlM_pure
  have h := @Reduces.same_members _ _ _ _ _ _ _ _ setUnion_reduces Eq us vs (fun _ _ => trivial) hsame
    fun _ ha hb => ha.eq hb
  rw [hpure, hpure] at h
  exact h

/-! ## `merged_state` and the graph's channels -/

/-- A channel with a reducer, after an update that may not have it. -/
def reducedChannel {σ : Type} (reduce : σ → σ → Except Raised σ) (empty : σ) (state update : Option σ) :
    Except Raised (Option σ) :=
  match update with
  | none => .ok state
  | some value => (reduce (state.getD empty) value).map some

/-- The graph's state after an update: what the reducers annotated on the channels make of it. -/
def reducedState (state update : WorkflowStateV1) : Except Raised WorkflowStateV1 := do
  let results ← reducedChannel mergeById .empty state.results update.results
  let childResults ← reducedChannel mergeById .empty state.childResults update.childResults
  let counters ← reducedChannel maxMap .empty state.counters update.counters
  return {
    results := results
    childResults := childResults
    expectedChildren := (update.expectedChildren.map (setUnion (state.expectedChildren.getD []))).or state.expectedChildren
    completedChildren := (update.completedChildren.map (setUnion (state.completedChildren.getD []))).or state.completedChildren
    counters := counters
    node := update.node.or state.node
    outcome := update.outcome.or state.outcome
    tasks := update.tasks.or state.tasks
    verification := update.verification.or state.verification
    review := update.review.or state.review
    approval := update.approval.or state.approval
    final := update.final.or state.final
    cancelled := update.cancelled.or state.cancelled
    childIdentity := update.childIdentity.or state.childIdentity
    route := update.route.or state.route
    needsVerification := update.needsVerification.or state.needsVerification }

/-- The same state to every reader: an absent reduced channel reads as empty. -/
structure Agree (a b : WorkflowStateV1) : Prop where
  results : a.results.getD .empty = b.results.getD .empty
  childResults : a.childResults.getD .empty = b.childResults.getD .empty
  expectedChildren : a.expectedChildren.getD [] = b.expectedChildren.getD []
  completedChildren : a.completedChildren.getD [] = b.completedChildren.getD []
  counters : a.counters.getD .empty = b.counters.getD .empty
  node : a.node = b.node
  outcome : a.outcome = b.outcome
  tasks : a.tasks = b.tasks
  verification : a.verification = b.verification
  review : a.review = b.review
  approval : a.approval = b.approval
  final : a.final = b.final
  cancelled : a.cancelled = b.cancelled
  childIdentity : a.childIdentity = b.childIdentity
  route : a.route = b.route
  needsVerification : a.needsVerification = b.needsVerification

/-- What a reducer leaves: reducing it by the empty value changes nothing. -/
structure Settled (state : WorkflowStateV1) : Prop where
  results : mergeById (state.results.getD .empty) .empty = .ok (state.results.getD .empty)
  childResults : mergeById (state.childResults.getD .empty) .empty = .ok (state.childResults.getD .empty)
  counters : maxMap (state.counters.getD .empty) .empty = .ok (state.counters.getD .empty)
  expectedChildren : setUnion (state.expectedChildren.getD []) [] = state.expectedChildren.getD []
  completedChildren : setUnion (state.completedChildren.getD []) [] = state.completedChildren.getD []

theorem mergeById_empty {d : Dict String Json} (h : d.Sorted stringLe) : mergeById d .empty = .ok d :=
  congrArg Except.ok h.sorted_eq

theorem maxMap_empty {d : Dict String Int} (h : d.Sorted stringLe) : maxMap d .empty = .ok d :=
  congrArg Except.ok h.sorted_eq

theorem setUnion_empty {names : List String} (hsorted : names.Pairwise fun a b => stringLe a b = true)
    (hnodup : names.Nodup) : setUnion names [] = names := by
  unfold setUnion
  rw [List.append_nil, hnodup.dedup]
  exact hsorted.insertionSort_eq

theorem maxMap_sorted {left right m : Dict String Int} (h : maxMap left right = .ok m) : m.Sorted stringLe := by
  unfold maxMap at h
  obtain ⟨merged, -, hm⟩ := bind_eq_ok.mp h
  cases hm
  exact sorted_stringLe merged

/-- A channel stays settled: it is as it was, or a reducer wrote it. -/
theorem reducedChannel_settled {σ : Type} {reduce : σ → σ → Except Raised σ} {empty : σ} {state update next : Option σ}
    (hwritten : ∀ {left right m : σ}, reduce left right = .ok m → reduce m empty = .ok m)
    (hstate : reduce (state.getD empty) empty = .ok (state.getD empty))
    (h : reducedChannel reduce empty state update = .ok next) : reduce (next.getD empty) empty = .ok (next.getD empty) := by
  cases update with
  | none => cases h; exact hstate
  | some value =>
    obtain ⟨m, hm, rfl⟩ := Steps.map_ok h
    exact hwritten hm

theorem setUnion_settled {state update : Option (List String)}
    (hstate : setUnion (state.getD []) [] = state.getD []) :
    setUnion (((update.map (setUnion (state.getD []))).or state).getD []) [] =
      ((update.map (setUnion (state.getD []))).or state).getD [] := by
  cases update with
  | none => exact hstate
  | some value =>
    obtain ⟨hsorted, hnodup⟩ := setUnion_sorted (state.getD []) value
    exact setUnion_empty hsorted hnodup

theorem reducedState_settled {state update next : WorkflowStateV1} (hs : Settled state)
    (h : reducedState state update = .ok next) : Settled next := by
  unfold reducedState at h
  obtain ⟨results, hresults, h⟩ := bind_eq_ok.mp h
  obtain ⟨childResults, hchild, h⟩ := bind_eq_ok.mp h
  obtain ⟨counters, hcounters, h⟩ := bind_eq_ok.mp h
  cases h
  exact ⟨reducedChannel_settled (fun h => mergeById_empty (mergeById_sorted h)) hs.results hresults,
    reducedChannel_settled (fun h => mergeById_empty (mergeById_sorted h)) hs.childResults hchild,
    reducedChannel_settled (fun h => maxMap_empty (maxMap_sorted h)) hs.counters hcounters,
    setUnion_settled hs.expectedChildren, setUnion_settled hs.completedChildren⟩

theorem settled_init : Settled {} where
  results := mergeById_empty (Dict.sorted_empty stringLe)
  childResults := mergeById_empty (Dict.sorted_empty stringLe)
  counters := maxMap_empty (Dict.sorted_empty stringLe)
  expectedChildren := rfl
  completedChildren := rfl

/-- The states the graph can hold: what its reducers make of some updates. -/
theorem settled_foldlM {updates : List WorkflowStateV1} {state : WorkflowStateV1}
    (h : updates.foldlM reducedState {} = .ok state) : Settled state :=
  Steps.foldlM_invariant (fun _ _ _ => reducedState_settled) settled_init h

/-- `merged_state` reduces a channel the update does not have by the empty value, which changes nothing. -/
theorem reducedChannel_eq {σ : Type} {reduce : σ → σ → Except Raised σ} {empty : σ} {state update : Option σ}
    (hstate : reduce (state.getD empty) empty = .ok (state.getD empty)) :
    reduce (state.getD empty) (update.getD empty) = (reducedChannel reduce empty state update).map fun c => c.getD empty := by
  cases update with
  | none => exact hstate
  | some value =>
    simp only [reducedChannel, Option.getD_some]
    cases reduce (state.getD empty) value <;> rfl

theorem setUnion_eq {state update : Option (List String)} (hstate : setUnion (state.getD []) [] = state.getD []) :
    setUnion (state.getD []) (update.getD []) = ((update.map (setUnion (state.getD []))).or state).getD [] := by
  cases update with
  | none => exact hstate
  | some value => rfl

/-- In a state the graph can hold, `merged_state` and the graph's reducers both raise or agree. -/
theorem mergedState_agrees {state update : WorkflowStateV1} (hs : Settled state) :
    SameOutcome Agree (mergedState state update) (reducedState state update) := by
  unfold mergedState reducedState
  rw [reducedChannel_eq hs.results, reducedChannel_eq hs.childResults, reducedChannel_eq hs.counters]
  cases reducedChannel mergeById .empty state.results update.results with
  | error e => trivial
  | ok results =>
  cases reducedChannel mergeById .empty state.childResults update.childResults with
  | error e => trivial
  | ok childResults =>
  cases reducedChannel maxMap .empty state.counters update.counters with
  | error e => trivial
  | ok counters =>
  exact ⟨rfl, rfl, setUnion_eq hs.expectedChildren, setUnion_eq hs.completedChildren, rfl, rfl, rfl, rfl, rfl, rfl, rfl, rfl,
    rfl, rfl, rfl, rfl⟩

/-! ## The law -/

/-- Families with the same updates, in whatever order and however often each arrives, fold to the same
    values or both fail; when they fail; and `merged_state` agrees with the reducers. -/
theorem reducers_agree {us vs : List (Dict String Json)} {names names' : List (List String)}
    {history : List WorkflowStateV1} {state update : WorkflowStateV1} (hdistinct : ∀ u ∈ us, Distinct u)
    (hsame : ∀ u, u ∈ us ↔ u ∈ vs) (hnames : ∀ u, u ∈ names ↔ u ∈ names')
    (hstate : history.foldlM reducedState {} = .ok state) :
    SameOutcome SameJson (us.foldlM mergeById .empty) (vs.foldlM mergeById .empty) ∧
    ((∃ e, us.foldlM mergeById .empty = .error e) ↔
      ∃ u ∈ us, ∃ v ∈ us, ∃ key x y, u.get? key = some x ∧ v.get? key = some y ∧ x.canonEq y = false) ∧
    SameOutcome (fun a b => a = b) (us.foldlM maxMapValues .empty) (vs.foldlM maxMapValues .empty) ∧
    ((∃ e, us.foldlM maxMapValues .empty = .error e) ↔ ∃ u ∈ us, ∃ key x, u.get? key = some x ∧ ¬ IsCount x) ∧
    names.foldl setUnion [] = names'.foldl setUnion [] ∧
    SameOutcome Agree (mergedState state update) (reducedState state update) := by
  refine ⟨mergeById_reduces.same_members hdistinct hsame fun hfine ha hb => ha.sameJson hfine hb, ?_,
    maxMap_reduces.same_members (fun _ _ => trivial) hsame fun _ ha hb => ha.eq hb, ?_, ?_,
    mergedState_agrees (settled_foldlM hstate)⟩
  · rw [mergeById_reduces.fails_iff hdistinct]
    simp [Compatible]
  · rw [maxMap_reduces.fails_iff fun _ _ => trivial]
    simp [Counts]
  · exact foldl_setUnion_eq hnames

/-- Two branches' results in both orders, one of them delivered twice. -/
theorem reducers_agree_twice :
    let u : Dict String Json := .ofList [("a", .int 1)]
    let v : Dict String Json := .ofList [("b", .obj [("x", .int 0)])]
    SameOutcome SameJson ([u, v].foldlM mergeById .empty) ([v, u, v].foldlM mergeById .empty) ∧
    [["b"], ["a"]].foldl setUnion [] = [["a"], ["b"], ["a"]].foldl setUnion [] ∧
    SameOutcome Agree (mergedState { results := some u } { results := some v })
      (reducedState { results := some u } { results := some v }) := by
  intro u v
  have h := @reducers_agree [u, v] [v, u, v] [["b"], ["a"]] [["a"], ["b"], ["a"]] [{ results := some u }]
    { results := some u } { results := some v } (by decide) (by simp) (by simp) rfl
  exact ⟨h.1, h.2.2.2.2.1, h.2.2.2.2.2⟩

end Jarvis.Workflows
