/-
  Jarvis.Lib.Contract — validated models of JSON data.

  A `Codec` reads a JSON value into an instance and writes instances back. An instance is
  represented by what is set in it, as JSON: `parse` gives it, `dump` writes it with the
  defaults of what is not set, `slim` writes what is set and not null. Codecs are built from
  scalars by `opt`, `list`, `dict` and `model` (`Lib.Model`), and each is built with the laws
  that the others need:
  - an instance reads itself (`parse_self`), and what it writes is read as an instance that
    writes the same (`parse_dump`, `parse_slim`);
  - what is read and written is as deep at most as the codec says (`depth_le`).
-/
import Jarvis.Lib.Json

namespace Jarvis

/-! ## Reading every element of a list -/

section Lists

variable {α β γ : Type} {R : α → β → Prop}

def readAll (f : α → Option β) : List α → Option (List β)
  | [] => some []
  | a :: as => (f a).bind fun b => (readAll f as).map (b :: ·)

theorem readAll_eq_some {f : α → Option β} : ∀ {as : List α} {bs : List β},
    readAll f as = some bs ↔ List.Forall₂ (fun a b => f a = some b) as bs := by
  intro as
  induction as with
  | nil =>
    intro bs
    cases bs <;> simp [readAll]
  | cons a as ih =>
    intro bs
    cases bs with
    | nil => simp [readAll, Option.bind_eq_some_iff]
    | cons b bs => simp [readAll, Option.bind_eq_some_iff, ih]

theorem forall₂_left {as : List α} {bs : List β} (h : List.Forall₂ R as bs) {b : β} (hb : b ∈ bs) : ∃ a ∈ as, R a b := by
  induction h with
  | nil => cases hb
  | @cons a c as bs hR _ ih =>
    rcases List.mem_cons.mp hb with rfl | hb
    · exact ⟨a, List.mem_cons_self, hR⟩
    · obtain ⟨x, hx, hR⟩ := ih hb
      exact ⟨x, List.mem_cons_of_mem _ hx, hR⟩

theorem forall₂_right {as : List α} {bs : List β} (h : List.Forall₂ R as bs) {a : α} (ha : a ∈ as) : ∃ b ∈ bs, R a b :=
  forall₂_left h.flip ha

theorem exists_forall₂ {S : β → γ → Prop} {as : List α} {bs : List β} (h : List.Forall₂ R as bs)
    (hS : ∀ a b, R a b → ∃ c, S b c) : ∃ cs, List.Forall₂ S bs cs := by
  induction h with
  | nil => exact ⟨[], .nil⟩
  | cons hR _ ih =>
    obtain ⟨c, hc⟩ := hS _ _ hR
    obtain ⟨cs, hcs⟩ := ih
    exact ⟨c :: cs, .cons hc hcs⟩

/-- Lists that are related to one list are related to each other. -/
theorem forall₂_related {S : α → γ → Prop} {T : γ → β → Prop} {as : List α} {bs : List β} {cs : List γ} (h : List.Forall₂ R as bs)
    (h' : List.Forall₂ S as cs) (hT : ∀ a b c, R a b → S a c → T c b) : List.Forall₂ T cs bs := by
  induction h generalizing cs with
  | nil =>
    cases h'
    exact .nil
  | cons hR _ ih =>
    cases h' with
    | cons hS hrest => exact .cons (hT _ _ _ hR hS) (ih hrest)

theorem map_eq_of_forall₂ {f : β → γ} {g : α → γ} {as : List α} {bs : List β}
    (h : List.Forall₂ (fun a b => f b = g a) as bs) : bs.map f = as.map g := by
  induction h with
  | nil => rfl
  | cons hR _ ih => rw [List.map_cons, List.map_cons, hR, ih]

end Lists

namespace Json

def isNull : Json → Bool
  | .scalar .null => true
  | _ => false

@[simp]
theorem isNull_null : isNull .null = true := rfl

theorem isNull_iff {j : Json} : j.isNull = true ↔ j = .null := by
  constructor
  · intro h
    unfold isNull at h
    split at h
    · rfl
    · cases h
  · rintro rfl
    rfl

theorem isNull_eq_false {j : Json} : j.isNull = false ↔ j ≠ .null := by
  rw [← Bool.not_eq_true, isNull_iff]

def members : Json → List (String × Json)
  | .obj members => members
  | _ => []

def items : Json → List Json
  | .list items => items
  | _ => []

/-- `value.get(key)`. -/
def get (j : Json) (key : String) : Json := (j.members.lookup key).getD .null

/-! ## How large a value is -/

mutual

/-- How deep values are nested. -/
def depth : Json → Nat
  | .scalar _ => 0
  | .list items => depthItems items
  | .obj members => depthMembers members

def depthItems : List Json → Nat
  | [] => 0
  | j :: items => max (depth j + 1) (depthItems items)

def depthMembers : List (String × Json) → Nat
  | [] => 0
  | (_, j) :: members => max (depth j + 1) (depthMembers members)

end

theorem depthItems_le {items : List Json} {n : Nat} : depthItems items ≤ n ↔ ∀ j ∈ items, j.depth + 1 ≤ n := by
  induction items with
  | nil => simp [depthItems]
  | cons j items ih => rw [depthItems, Nat.max_le, ih, List.forall_mem_cons]

theorem depthMembers_le {members : List (String × Json)} {n : Nat} :
    depthMembers members ≤ n ↔ ∀ e ∈ members, e.2.depth + 1 ≤ n := by
  induction members with
  | nil => simp [depthMembers]
  | cons e members ih => rw [depthMembers, Nat.max_le, ih, List.forall_mem_cons]

end Json

/-! ## Codecs -/

structure Codec where
  /-- `model_validate`. -/
  parse : Json → Option Json
  /-- `model_dump(mode="json")`. -/
  dump : Json → Json
  /-- `model_dump(exclude_unset=True, exclude_none=True)`. -/
  slim : Json → Json
  /-- How deep what is read can be, where that is bounded. -/
  height : Option Nat
  parse_self : ∀ {j v}, parse j = some v → parse v = some v
  parse_dump : ∀ {j v}, parse j = some v → ∃ w, parse (dump v) = some w ∧ dump w = dump v
  parse_slim : ∀ {j v}, parse j = some v → ∃ w, parse (slim v) = some w ∧ dump w = dump v
  dump_null : ∀ {j v}, parse j = some v → (dump v = .null ↔ v = .null)
  slim_null : ∀ {j v}, parse j = some v → (slim v = .null ↔ v = .null)
  depth_le : ∀ {j v n}, parse j = some v → height = some n → j.depth ≤ n ∧ v.depth ≤ n ∧ (dump v).depth ≤ n

namespace Codec

/-- What is written as it is read. -/
def leaf (parse : Json → Option Json) (height : Option Nat) (idem : ∀ {j v}, parse j = some v → parse v = some v)
    (deep : ∀ {j v n}, parse j = some v → height = some n → j.depth ≤ n ∧ v.depth ≤ n) : Codec where
  parse
  height
  dump v := v
  slim v := v
  parse_self := idem
  parse_dump h := ⟨_, idem h, rfl⟩
  parse_slim h := ⟨_, idem h, rfl⟩
  dump_null _ := Iff.rfl
  slim_null _ := Iff.rfl
  depth_le h hn := ⟨(deep h hn).1, (deep h hn).2, (deep h hn).2⟩

def parseScalar (coerce : Scalar → Option Scalar) : Json → Option Json
  | .scalar s => (coerce s).map .scalar
  | _ => none

theorem parseScalar_spec {coerce : Scalar → Option Scalar} {j v : Json} (h : parseScalar coerce j = some v) :
    ∃ s t, j = .scalar s ∧ v = .scalar t ∧ coerce s = some t := by
  cases j with
  | scalar s =>
    obtain ⟨t, ht, rfl⟩ := Option.map_eq_some_iff.mp h
    exact ⟨s, t, rfl, rfl, ht⟩
  | list | obj => cases h

/-- A scalar, with what it is coerced to. -/
def scalar (coerce : Scalar → Option Scalar) (idem : ∀ s t, coerce s = some t → coerce t = some t) : Codec :=
  leaf (parseScalar coerce) (some 0)
    (fun h => by
      obtain ⟨s, t, rfl, rfl, ht⟩ := parseScalar_spec h
      exact congrArg (Option.map Json.scalar) (idem s t ht))
    (fun h hn => by
      obtain ⟨s, t, rfl, rfl, -⟩ := parseScalar_spec h
      simp [Json.depth])

/-- A scalar that is one of those accepted. -/
def scalarOf (accept : Scalar → Bool) : Codec :=
  scalar (fun s => if accept s then some s else none) fun s t h => by
    split at h <;> cases h
    rename_i hs
    exact if_pos hs

/-- Any JSON value. -/
def json : Codec := leaf some none (fun _ => rfl) (by rintro _ _ _ - ⟨⟩)

def parseObject : Json → Option Json
  | .obj members => some (.obj members)
  | _ => none

/-- An object of any JSON values. -/
def object : Codec :=
  leaf parseObject none
    (fun {j v} h => by
      cases j with
      | obj members =>
        cases h
        rfl
      | scalar | list => cases h)
    (by rintro _ _ _ - ⟨⟩)

/-! ## Nullable values -/

def parseOpt (c : Codec) (j : Json) : Option Json := if j.isNull then some .null else c.parse j

theorem parseOpt_null (c : Codec) : parseOpt c .null = some .null := rfl

theorem parseOpt_of_ne {c : Codec} {j : Json} (h : j ≠ .null) : parseOpt c j = c.parse j := by
  unfold parseOpt
  rw [Json.isNull_eq_false.mpr h]
  rfl

/-- What is read as null, or by the codec. -/
theorem parseOpt_cases {c : Codec} {j v : Json} (h : parseOpt c j = some v) : v = .null ∨ v ≠ .null ∧ c.parse j = some v := by
  by_cases hv : v = .null
  · exact .inl hv
  · refine .inr ⟨hv, ?_⟩
    rwa [parseOpt_of_ne] at h
    rintro rfl
    exact hv (Option.some.inj h).symm

/-- What is written for an instance that is not null. -/
theorem parseOpt_kept {c : Codec} {j v w x : Json} (hv : v ≠ .null) (hj : c.parse j = some v) (hx : x ≠ .null)
    (hw : c.parse x = some w) (hdump : c.dump w = c.dump v) :
    parseOpt c x = some w ∧ (if w.isNull then .null else c.dump w) = c.dump v := by
  have hwnull : w ≠ .null := fun heq => hv ((c.dump_null hj).mp (hdump ▸ (c.dump_null hw).mpr heq))
  refine ⟨(parseOpt_of_ne hx).trans hw, ?_⟩
  rw [Json.isNull_eq_false.mpr hwnull]
  exact hdump

/-- `c | None`. -/
def opt (c : Codec) : Codec where
  parse := parseOpt c
  dump v := if v.isNull then .null else c.dump v
  slim v := if v.isNull then .null else c.slim v
  height := c.height
  parse_self {j v} h := by
    rcases parseOpt_cases h with rfl | ⟨hv, hj⟩
    · rfl
    · exact (parseOpt_of_ne hv).trans (c.parse_self hj)
  parse_dump {j v} h := by
    rcases parseOpt_cases h with rfl | ⟨hv, hj⟩
    · exact ⟨.null, rfl, rfl⟩
    · rw [Json.isNull_eq_false.mpr hv]
      obtain ⟨w, hw, hdump⟩ := c.parse_dump hj
      exact ⟨w, parseOpt_kept hv hj (fun heq => hv ((c.dump_null hj).mp heq)) hw hdump⟩
  parse_slim {j v} h := by
    rcases parseOpt_cases h with rfl | ⟨hv, hj⟩
    · exact ⟨.null, rfl, rfl⟩
    · rw [Json.isNull_eq_false.mpr hv]
      obtain ⟨w, hw, hdump⟩ := c.parse_slim hj
      exact ⟨w, parseOpt_kept hv hj (fun heq => hv ((c.slim_null hj).mp heq)) hw hdump⟩
  dump_null {j v} h := by
    rcases parseOpt_cases h with rfl | ⟨hv, hj⟩
    · exact Iff.rfl
    · rw [Json.isNull_eq_false.mpr hv]
      exact c.dump_null hj
  slim_null {j v} h := by
    rcases parseOpt_cases h with rfl | ⟨hv, hj⟩
    · exact Iff.rfl
    · rw [Json.isNull_eq_false.mpr hv]
      exact c.slim_null hj
  depth_le {j v n} h hn := by
    by_cases hj : j = .null
    · subst hj
      cases h
      simp [Json.depth]
    · obtain ⟨hd, hdv, hdd⟩ := c.depth_le ((parseOpt_of_ne hj).symm.trans h) hn
      refine ⟨hd, hdv, ?_⟩
      split
      · exact Nat.zero_le n
      · exact hdd

/-! ## Lists and dictionaries -/

def parseList (c : Codec) (lo hi : Nat) : Json → Option Json
  | .list items => if lo ≤ items.length ∧ items.length ≤ hi then (readAll c.parse items).map .list else none
  | _ => none

theorem parseList_eq_some {c : Codec} {lo hi : Nat} {j v : Json} :
    parseList c lo hi j = some v ↔ ∃ items vs, j = .list items ∧ v = .list vs ∧ (lo ≤ items.length ∧ items.length ≤ hi) ∧
      List.Forall₂ (fun i x => c.parse i = some x) items vs := by
  constructor
  · intro h
    cases j with
    | list items =>
      simp only [parseList] at h
      split at h
      · rename_i hlength
        obtain ⟨vs, hvs, rfl⟩ := Option.map_eq_some_iff.mp h
        exact ⟨items, vs, rfl, rfl, hlength, readAll_eq_some.mp hvs⟩
      · cases h
    | scalar | obj => cases h
  · rintro ⟨items, vs, rfl, rfl, hlength, hall⟩
    simp only [parseList, if_pos hlength, readAll_eq_some.mpr hall, Option.map_some]

/-- A list of what each instance of a list is read as, when it is written another way. -/
theorem parseList_rewritten {c : Codec} {lo hi : Nat} {items vs : List Json} {write : Json → Json}
    (hlength : lo ≤ items.length ∧ items.length ≤ hi) (hall : List.Forall₂ (fun i x => c.parse i = some x) items vs)
    (hwrite : ∀ {j v}, c.parse j = some v → ∃ w, c.parse (write v) = some w ∧ c.dump w = c.dump v) :
    ∃ ws, parseList c lo hi (.list (vs.map write)) = some (.list ws) ∧ ws.map c.dump = vs.map c.dump := by
  obtain ⟨ws, hws⟩ := exists_forall₂ hall fun _ _ h => hwrite h
  have hlength' := hall.length_eq
  refine ⟨ws, parseList_eq_some.mpr ⟨_, ws, rfl, rfl, by rw [List.length_map, ← hlength']; exact hlength, ?_⟩,
    map_eq_of_forall₂ (hws.imp fun _ _ h => h.2)⟩
  exact List.forall₂_map_left_iff.mpr (hws.imp fun _ _ h => h.1)

/-- `tuple[c, ...]`. -/
def list (c : Codec) (lo hi : Nat) : Codec where
  parse := parseList c lo hi
  dump v := .list (v.items.map c.dump)
  slim v := .list (v.items.map c.slim)
  height := c.height.map (· + 1)
  parse_self {j v} h := by
    obtain ⟨items, vs, rfl, rfl, hlength, hall⟩ := parseList_eq_some.mp h
    refine parseList_eq_some.mpr ⟨vs, vs, rfl, rfl, hall.length_eq ▸ hlength, ?_⟩
    refine List.forall₂_same.mpr fun x hx => ?_
    obtain ⟨_, -, hx⟩ := forall₂_left hall hx
    exact c.parse_self hx
  parse_dump {j v} h := by
    obtain ⟨items, vs, rfl, rfl, hlength, hall⟩ := parseList_eq_some.mp h
    obtain ⟨ws, hws, hdump⟩ := parseList_rewritten hlength hall c.parse_dump
    exact ⟨_, hws, congrArg Json.list hdump⟩
  parse_slim {j v} h := by
    obtain ⟨items, vs, rfl, rfl, hlength, hall⟩ := parseList_eq_some.mp h
    obtain ⟨ws, hws, hdump⟩ := parseList_rewritten hlength hall c.parse_slim
    exact ⟨_, hws, congrArg Json.list hdump⟩
  dump_null {j v} h := by
    obtain ⟨items, vs, rfl, rfl, -⟩ := parseList_eq_some.mp h
    exact ⟨by rintro ⟨⟩, by rintro ⟨⟩⟩
  slim_null {j v} h := by
    obtain ⟨items, vs, rfl, rfl, -⟩ := parseList_eq_some.mp h
    exact ⟨by rintro ⟨⟩, by rintro ⟨⟩⟩
  depth_le {j v n} h hn := by
    obtain ⟨items, vs, rfl, rfl, hlength, hall⟩ := parseList_eq_some.mp h
    obtain ⟨m, hm, rfl⟩ := Option.map_eq_some_iff.mp hn
    simp only [Json.depth, Json.depthItems_le, Json.items, List.forall_mem_map]
    refine ⟨fun i hi => ?_, fun x hx => ?_, fun x hx => ?_⟩
    · obtain ⟨x, -, hx⟩ := forall₂_right hall hi
      exact Nat.succ_le_succ (c.depth_le hx hm).1
    · obtain ⟨i, -, hx⟩ := forall₂_left hall hx
      exact Nat.succ_le_succ (c.depth_le hx hm).2.1
    · obtain ⟨i, -, hx⟩ := forall₂_left hall hx
      exact Nat.succ_le_succ (c.depth_le hx hm).2.2

def parseEntry (c : Codec) (e : String × Json) : Option (String × Json) := (c.parse e.2).map fun v => (e.1, v)

theorem parseEntry_eq_some {c : Codec} {e x : String × Json} :
    parseEntry c e = some x ↔ x.1 = e.1 ∧ c.parse e.2 = some x.2 := by
  obtain ⟨key, v⟩ := x
  unfold parseEntry
  rw [Option.map_eq_some_iff]
  constructor
  · rintro ⟨v, hv, heq⟩
    cases heq
    exact ⟨rfl, hv⟩
  · rintro ⟨hkey, hv⟩
    exact ⟨v, hv, Prod.ext hkey.symm rfl⟩

def parseDict (key : String → Bool) (c : Codec) (hi : Option Nat) : Json → Option Json
  | .obj members =>
    if members.all (fun e => key e.1) && hi.all (members.length ≤ ·) then (readAll (parseEntry c) members).map .obj else none
  | _ => none

theorem parseDict_eq_some {key : String → Bool} {c : Codec} {hi : Option Nat} {j v : Json} :
    parseDict key c hi j = some v ↔ ∃ members vs, j = .obj members ∧ v = .obj vs ∧
      (members.all (fun e => key e.1) && hi.all (members.length ≤ ·)) = true ∧
        List.Forall₂ (fun e x => x.1 = e.1 ∧ c.parse e.2 = some x.2) members vs := by
  constructor
  · intro h
    cases j with
    | obj members =>
      simp only [parseDict] at h
      split at h
      · rename_i hok
        obtain ⟨vs, hvs, rfl⟩ := Option.map_eq_some_iff.mp h
        exact ⟨members, vs, rfl, rfl, hok, (readAll_eq_some.mp hvs).imp fun _ _ => parseEntry_eq_some.mp⟩
      · cases h
    | scalar | list => cases h
  · rintro ⟨members, vs, rfl, rfl, hok, hall⟩
    simp only [parseDict, if_pos hok, readAll_eq_some.mpr (hall.imp fun _ _ => parseEntry_eq_some.mpr), Option.map_some]

/-- Whether keys and number are accepted depends on the keys only. -/
theorem dictOk_congr {key : String → Bool} {hi : Option Nat} {as bs : List (String × Json)} (h : as.map Prod.fst = bs.map Prod.fst)
    (hok : (as.all (fun e => key e.1) && hi.all (as.length ≤ ·)) = true) :
    (bs.all (fun e => key e.1) && hi.all (bs.length ≤ ·)) = true := by
  have hlength := congrArg List.length h
  have hkeys : as.all (fun e => key e.1) = bs.all (fun e => key e.1) := by
    have hmap := congrArg (fun keys : List String => keys.all key) h
    simpa [List.all_map, Function.comp_def] using hmap
  rw [List.length_map, List.length_map] at hlength
  rwa [← hkeys, ← hlength]

theorem parseDict_rewritten {key : String → Bool} {c : Codec} {hi : Option Nat} {members vs : List (String × Json)} {write : Json → Json}
    (hok : (members.all (fun e => key e.1) && hi.all (members.length ≤ ·)) = true)
    (hall : List.Forall₂ (fun e x => x.1 = e.1 ∧ c.parse e.2 = some x.2) members vs)
    (hwrite : ∀ {j v}, c.parse j = some v → ∃ w, c.parse (write v) = some w ∧ c.dump w = c.dump v) :
    ∃ ws, parseDict key c hi (.obj (vs.map fun e => (e.1, write e.2))) = some (.obj ws) ∧
      (ws.map fun e => (e.1, c.dump e.2)) = vs.map fun e => (e.1, c.dump e.2) := by
  have hkeys : vs.map Prod.fst = members.map Prod.fst := map_eq_of_forall₂ (hall.imp fun _ _ h => h.1)
  obtain ⟨ws, hws⟩ : ∃ ws, List.Forall₂ (fun (x y : String × Json) => y.1 = x.1 ∧ c.parse (write x.2) = some y.2 ∧ c.dump y.2 = c.dump x.2) vs ws := by
    refine exists_forall₂ hall fun e x hx => ?_
    obtain ⟨w, hw, hdump⟩ := hwrite hx.2
    exact ⟨(x.1, w), rfl, hw, hdump⟩
  refine ⟨ws, parseDict_eq_some.mpr ⟨_, ws, rfl, rfl, dictOk_congr ?_ hok, ?_⟩, map_eq_of_forall₂ (hws.imp fun _ _ h => Prod.ext h.1 h.2.2)⟩
  · rw [List.map_map, ← hkeys]
    rfl
  · exact List.forall₂_map_left_iff.mpr (hws.imp fun _ _ h => ⟨h.1, h.2.1⟩)

/-- `dict[str, c]`. -/
def dict (key : String → Bool) (c : Codec) (hi : Option Nat) : Codec where
  parse := parseDict key c hi
  dump v := .obj (v.members.map fun e => (e.1, c.dump e.2))
  slim v := .obj (v.members.map fun e => (e.1, c.slim e.2))
  height := c.height.map (· + 1)
  parse_self {j v} h := by
    obtain ⟨members, vs, rfl, rfl, hok, hall⟩ := parseDict_eq_some.mp h
    have hkeys : vs.map Prod.fst = members.map Prod.fst := map_eq_of_forall₂ (hall.imp fun _ _ h => h.1)
    refine parseDict_eq_some.mpr ⟨vs, vs, rfl, rfl, dictOk_congr hkeys.symm hok, List.forall₂_same.mpr fun x hx => ?_⟩
    obtain ⟨_, -, -, hx⟩ := forall₂_left hall hx
    exact ⟨rfl, c.parse_self hx⟩
  parse_dump {j v} h := by
    obtain ⟨members, vs, rfl, rfl, hok, hall⟩ := parseDict_eq_some.mp h
    obtain ⟨ws, hws, hdump⟩ := parseDict_rewritten hok hall c.parse_dump
    exact ⟨_, hws, congrArg Json.obj hdump⟩
  parse_slim {j v} h := by
    obtain ⟨members, vs, rfl, rfl, hok, hall⟩ := parseDict_eq_some.mp h
    obtain ⟨ws, hws, hdump⟩ := parseDict_rewritten hok hall c.parse_slim
    exact ⟨_, hws, congrArg Json.obj hdump⟩
  dump_null {j v} h := by
    obtain ⟨members, vs, rfl, rfl, -⟩ := parseDict_eq_some.mp h
    exact ⟨by rintro ⟨⟩, by rintro ⟨⟩⟩
  slim_null {j v} h := by
    obtain ⟨members, vs, rfl, rfl, -⟩ := parseDict_eq_some.mp h
    exact ⟨by rintro ⟨⟩, by rintro ⟨⟩⟩
  depth_le {j v n} h hn := by
    obtain ⟨members, vs, rfl, rfl, hok, hall⟩ := parseDict_eq_some.mp h
    obtain ⟨m, hm, rfl⟩ := Option.map_eq_some_iff.mp hn
    simp only [Json.depth, Json.depthMembers_le, Json.members, List.forall_mem_map]
    refine ⟨fun i hi => ?_, fun x hx => ?_, fun x hx => ?_⟩
    · obtain ⟨x, -, -, hx⟩ := forall₂_right hall hi
      exact Nat.succ_le_succ (c.depth_le hx hm).1
    · obtain ⟨i, -, -, hx⟩ := forall₂_left hall hx
      exact Nat.succ_le_succ (c.depth_le hx hm).2.1
    · obtain ⟨i, -, -, hx⟩ := forall₂_left hall hx
      exact Nat.succ_le_succ (c.depth_le hx hm).2.2

end Codec

end Jarvis
