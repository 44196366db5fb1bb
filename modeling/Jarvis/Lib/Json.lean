/-
  Jarvis.Lib.Json — JSON values and the two equalities Python code compares them with.

  `==` on decoded values treats a boolean as the number it is and an integer as the float
  of the same value; comparing canonical texts does not. Both compare lists element by
  element and objects as maps, whatever the order of their keys, so they are one
  definition over the comparison of scalars (`eqBy`). On values whose objects have distinct
  keys (`distinct`) it is an equivalence when that comparison is one (`eqBy_refl`,
  `eqBy_symm`, `eqBy_trans`).
-/
import Mathlib.Data.List.Nodup
import Mathlib.Data.List.Perm.Subperm
import Mathlib.Tactic.Common

namespace Jarvis

inductive Scalar where
  | null
  | bool (b : Bool)
  | int (n : Int)
  | float (q : Rat)
  | str (s : String)
  deriving DecidableEq

/-- A decoded JSON value. An object's keys are distinct; finite floats are rationals. -/
inductive Json where
  | scalar (s : Scalar)
  | list (items : List Json)
  | obj (members : List (String × Json))

/-- The number a scalar counts as in a comparison. -/
def Scalar.number : Scalar → Option Rat
  | .bool b => some (if b then 1 else 0)
  | .int n => some n
  | .float q => some q
  | _ => none

/-- `==` on scalars. -/
def Scalar.pyEq (a b : Scalar) : Bool :=
  match a.number, b.number with
  | some p, some q => p == q
  | none, none => a == b
  | _, _ => false

namespace Json

abbrev null : Json := .scalar .null
abbrev bool (b : Bool) : Json := .scalar (.bool b)
abbrev int (n : Int) : Json := .scalar (.int n)
abbrev str (s : String) : Json := .scalar (.str s)

mutual

def eqBy (eq : Scalar → Scalar → Bool) : Json → Json → Bool
  | .scalar a, .scalar b => eq a b
  | .list as, .list bs => eqList eq as bs
  | .obj as, .obj bs => as.length == bs.length && eqObj eq as bs
  | _, _ => false

def eqList (eq : Scalar → Scalar → Bool) : List Json → List Json → Bool
  | [], [] => true
  | a :: as, b :: bs => eqBy eq a b && eqList eq as bs
  | _, _ => false

def eqObj (eq : Scalar → Scalar → Bool) : List (String × Json) → List (String × Json) → Bool
  | [], _ => true
  | (key, a) :: as, bs =>
    (match bs.lookup key with
      | some b => eqBy eq a b
      | none => false) && eqObj eq as bs

end

mutual

/-- At every level an object has one member for each key. -/
def distinct : Json → Bool
  | .scalar _ => true
  | .list items => distinctItems items
  | .obj members => decide (members.map Prod.fst).Nodup && distinctMembers members

def distinctItems : List Json → Bool
  | [] => true
  | j :: items => distinct j && distinctItems items

def distinctMembers : List (String × Json) → Bool
  | [] => true
  | (_, j) :: members => distinct j && distinctMembers members

end

mutual

/-- The keys of every object in a value. -/
def keys : Json → List String
  | .scalar _ => []
  | .list items => keysItems items
  | .obj members => keysMembers members

def keysItems : List Json → List String
  | [] => []
  | j :: items => keys j ++ keysItems items

def keysMembers : List (String × Json) → List String
  | [] => []
  | (key, j) :: members => key :: keys j ++ keysMembers members

end

/-- `==`. -/
def pyEq : Json → Json → Bool := eqBy Scalar.pyEq

/-- Equality of canonical texts. -/
def canonEq : Json → Json → Bool := eqBy fun a b => a == b

def isBool : Json → Bool
  | .scalar (.bool _) => true
  | _ => false

/-- The number `<` compares: an integer or a float, not a boolean. -/
def ordered : Json → Option Rat
  | .scalar (.int n) => some n
  | .scalar (.float q) => some q
  | _ => none

/-- `bool(value)`. -/
def truthy : Json → Bool
  | .scalar .null => false
  | .scalar (.bool b) => b
  | .scalar (.int n) => n != 0
  | .scalar (.float q) => q != 0
  | .scalar (.str s) => s != ""
  | .list items => !items.isEmpty
  | .obj members => !members.isEmpty

/-! ## Structure -/

@[elab_as_elim]
theorem induct {P : Json → Prop} (scalar : ∀ s, P (.scalar s)) (list : ∀ items, (∀ j ∈ items, P j) → P (.list items))
    (obj : ∀ members, (∀ e ∈ members, P e.2) → P (.obj members)) (j : Json) : P j :=
  match j with
  | .scalar s => scalar s
  | .list items => list items fun j _ => induct scalar list obj j
  | .obj members => obj members fun e _ => induct scalar list obj e.2
termination_by sizeOf j
decreasing_by
  · have := List.sizeOf_lt_of_mem ‹_›
    simp
    omega
  · rename_i hmem
    obtain ⟨key, value⟩ := e
    have := List.sizeOf_lt_of_mem hmem
    simp at this ⊢
    omega

theorem mem_keys_list {items : List Json} {key : String} : key ∈ (list items).keys ↔ ∃ j ∈ items, key ∈ j.keys := by
  rw [keys]
  induction items with
  | nil => simp [keysItems]
  | cons j items ih => simp [keysItems, ih]

theorem mem_keys_obj {members : List (String × Json)} {key : String} :
    key ∈ (obj members).keys ↔ ∃ e ∈ members, key = e.1 ∨ key ∈ e.2.keys := by
  rw [keys]
  induction members with
  | nil => simp [keysMembers]
  | cons e members ih => simp [keysMembers, ih, or_assoc]

theorem distinctItems_iff : ∀ {items : List Json}, distinctItems items = true ↔ ∀ j ∈ items, j.distinct = true := by
  intro items
  induction items with
  | nil => simp [distinctItems]
  | cons j items ih => simp [distinctItems, ih]

theorem distinctMembers_iff : ∀ {members : List (String × Json)},
    distinctMembers members = true ↔ ∀ e ∈ members, e.2.distinct = true := by
  intro members
  induction members with
  | nil => simp [distinctMembers]
  | cons e members ih => simp [distinctMembers, ih]

theorem distinct_list {items : List Json} : (list items).distinct = true ↔ ∀ j ∈ items, j.distinct = true := by
  rw [distinct, distinctItems_iff]

theorem distinct_obj {members : List (String × Json)} :
    (obj members).distinct = true ↔ (members.map Prod.fst).Nodup ∧ ∀ e ∈ members, e.2.distinct = true := by
  rw [distinct, Bool.and_eq_true, decide_eq_true_eq, distinctMembers_iff]

theorem eqList_iff {eq : Scalar → Scalar → Bool} : ∀ {as bs : List Json},
    eqList eq as bs = true ↔ List.Forall₂ (fun a b => eqBy eq a b = true) as bs := by
  intro as
  induction as with
  | nil => intro bs; cases bs <;> simp [eqList]
  | cons a as ih => intro bs; cases bs <;> simp [eqList, ih]

theorem eqObj_iff {eq : Scalar → Scalar → Bool} : ∀ {as bs : List (String × Json)},
    eqObj eq as bs = true ↔ ∀ e ∈ as, ∃ b, bs.lookup e.1 = some b ∧ eqBy eq e.2 b = true := by
  intro as bs
  induction as with
  | nil => simp [eqObj]
  | cons e as ih =>
    rw [eqObj, Bool.and_eq_true, ih, List.forall_mem_cons]
    refine and_congr ?_ Iff.rfl
    cases bs.lookup e.1 <;> simp

/-- With distinct keys, looking a key up finds the member that has it. -/
theorem lookup_eq_some : ∀ {members : List (String × Json)}, (members.map Prod.fst).Nodup → ∀ {key : String} {j : Json},
    members.lookup key = some j ↔ (key, j) ∈ members := by
  intro members
  induction members with
  | nil => simp
  | cons e members ih =>
    intro hnodup key j
    obtain ⟨hfirst, hrest⟩ := List.nodup_cons.mp hnodup
    rw [List.lookup_cons, List.mem_cons]
    by_cases hk : key = e.1
    · subst hk
      have hnot : (e.1, j) ∉ members := fun h => hfirst (List.mem_map.mpr ⟨_, h, rfl⟩)
      simp [hnot, Prod.ext_iff, eq_comm]
    · have hne : (key, j) ≠ e := fun h => hk (congrArg Prod.fst h)
      rw [beq_eq_false_iff_ne.mpr hk, ih hrest]
      simp [hne]

theorem eqBy_refl {eq : Scalar → Scalar → Bool} (hrefl : ∀ s, eq s s = true) (j : Json) :
    j.distinct = true → eqBy eq j j = true := by
  induction j using induct with
  | scalar s => intro _; exact hrefl s
  | list items ih =>
    intro h
    rw [distinct_list] at h
    rw [eqBy, eqList_iff, List.forall₂_same]
    exact fun j hj => ih j hj (h j hj)
  | obj members ih =>
    intro h
    obtain ⟨hnodup, hvalues⟩ := distinct_obj.mp h
    rw [eqBy, beq_self_eq_true, Bool.true_and, eqObj_iff]
    exact fun e he => ⟨e.2, (lookup_eq_some hnodup).mpr he, ih e he (hvalues e he)⟩

/-- An object of as many members that has the keys of another has no others. -/
theorem keys_subset {as bs : List (String × Json)} (has : (as.map Prod.fst).Nodup) (hlength : as.length = bs.length)
    (h : ∀ e ∈ as, ∃ b, (e.1, b) ∈ bs) : ∀ e ∈ bs, ∃ a, (e.1, a) ∈ as := by
  have hsub : as.map Prod.fst ⊆ bs.map Prod.fst := by
    intro key hkey
    obtain ⟨e, he, rfl⟩ := List.mem_map.mp hkey
    obtain ⟨b, hb⟩ := h e he
    exact List.mem_map.mpr ⟨_, hb, rfl⟩
  have hperm : (as.map Prod.fst).Perm (bs.map Prod.fst) :=
    (List.subperm_of_subset has hsub).perm_of_length_le (by simp [hlength])
  intro e he
  obtain ⟨⟨key, a⟩, ha, hk⟩ := List.mem_map.mp (hperm.mem_iff.mpr (List.mem_map.mpr ⟨e, he, rfl⟩))
  exact ⟨a, hk ▸ ha⟩

theorem eqBy_symm {eq : Scalar → Scalar → Bool} (hsymm : ∀ s t, eq s t = true → eq t s = true) (a : Json) :
    ∀ b, a.distinct = true → b.distinct = true → eqBy eq a b = true → eqBy eq b a = true := by
  induction a using induct with
  | scalar s =>
    intro b _ _ h
    cases b with
    | scalar t => exact hsymm s t h
    | list _ => cases h
    | obj _ => cases h
  | list as ih =>
    intro b ha hb h
    cases b with
    | scalar _ => cases h
    | obj _ => cases h
    | list bs =>
      rw [distinct_list] at ha hb
      rw [eqBy, eqList_iff] at h ⊢
      rw [List.forall₂_iff_get] at h ⊢
      refine ⟨h.1.symm, fun i hi hj => ?_⟩
      exact ih _ (List.get_mem _ _) _ (ha _ (List.get_mem _ _)) (hb _ (List.get_mem _ _)) (h.2 i hj hi)
  | obj as ih =>
    intro b ha hb h
    cases b with
    | scalar _ => cases h
    | list _ => cases h
    | obj bs =>
      obtain ⟨hanodup, havalues⟩ := distinct_obj.mp ha
      obtain ⟨hbnodup, hbvalues⟩ := distinct_obj.mp hb
      simp only [eqBy, Bool.and_eq_true, beq_iff_eq, eqObj_iff, lookup_eq_some hanodup, lookup_eq_some hbnodup] at h ⊢
      obtain ⟨hlength, hmembers⟩ := h
      refine ⟨hlength.symm, fun e he => ?_⟩
      obtain ⟨a, ha⟩ := keys_subset hanodup hlength (fun e he => (hmembers e he).imp fun _ h => h.1) e he
      obtain ⟨b, hb, heq⟩ := hmembers _ ha
      have hbe : b = e.2 := by
        have := (lookup_eq_some hbnodup).mpr hb
        rw [(lookup_eq_some hbnodup).mpr he] at this
        exact (Option.some.inj this).symm
      exact ⟨a, ha, ih _ ha _ (havalues _ ha) (hbvalues _ he) (hbe ▸ heq)⟩

theorem eqBy_trans {eq : Scalar → Scalar → Bool} (htrans : ∀ s t u, eq s t = true → eq t u = true → eq s u = true)
    (a : Json) : ∀ b c, b.distinct = true → eqBy eq a b = true → eqBy eq b c = true → eqBy eq a c = true := by
  induction a using induct with
  | scalar s =>
    intro b c _ hab hbc
    cases b with
    | scalar t =>
      cases c with
      | scalar u => exact htrans s t u hab hbc
      | list _ => cases hbc
      | obj _ => cases hbc
    | list _ => cases hab
    | obj _ => cases hab
  | list as ih =>
    intro b c hb hab hbc
    cases b with
    | scalar _ => cases hab
    | obj _ => cases hab
    | list bs =>
      cases c with
      | scalar _ => cases hbc
      | obj _ => cases hbc
      | list cs =>
        rw [distinct_list] at hb
        simp only [eqBy, eqList_iff, List.forall₂_iff_get] at hab hbc ⊢
        refine ⟨hab.1.trans hbc.1, fun i hi hk => ?_⟩
        have hj : i < bs.length := hab.1 ▸ hi
        exact ih _ (List.get_mem _ _) _ _ (hb _ (List.get_mem _ _)) (hab.2 i hi hj) (hbc.2 i hj hk)
  | obj as ih =>
    intro b c hb hab hbc
    cases b with
    | scalar _ => cases hab
    | list _ => cases hab
    | obj bs =>
      cases c with
      | scalar _ => cases hbc
      | list _ => cases hbc
      | obj cs =>
        obtain ⟨hbnodup, hbvalues⟩ := distinct_obj.mp hb
        simp only [eqBy, Bool.and_eq_true, beq_iff_eq, eqObj_iff] at hab hbc ⊢
        refine ⟨hab.1.trans hbc.1, fun e he => ?_⟩
        obtain ⟨b, hlookup, heb⟩ := hab.2 e he
        have hmem := (lookup_eq_some hbnodup).mp hlookup
        obtain ⟨c, hc, hbc⟩ := hbc.2 _ hmem
        exact ⟨c, hc, ih e he b c (hbvalues _ hmem) heb hbc⟩

section Canonical

variable {a b c : Json}

theorem canonEq_refl (h : a.distinct = true) : a.canonEq a = true := eqBy_refl (fun s => beq_self_eq_true s) a h

theorem canonEq_symm (ha : a.distinct = true) (hb : b.distinct = true) (h : a.canonEq b = true) : b.canonEq a = true :=
  eqBy_symm (fun _ _ h => beq_iff_eq.mpr (beq_iff_eq.mp h).symm) a b ha hb h

theorem canonEq_trans (hb : b.distinct = true) (hab : a.canonEq b = true) (hbc : b.canonEq c = true) :
    a.canonEq c = true :=
  @eqBy_trans (fun s t => s == t) (fun _ _ _ h h' => beq_iff_eq.mpr ((beq_iff_eq.mp h).trans (beq_iff_eq.mp h'))) a b c hb
    hab hbc

end Canonical

end Json

end Jarvis
