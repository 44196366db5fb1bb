/-
  Jarvis.Lib.Model — models with fields (`Lib.Contract`).

  An instance of a model is the object of the fields that are set, in the order they are
  declared. `set` says what a field was set to (`IsInstance`); everything a model reads or
  writes is built from such a function (`build`), and the laws are proved field by field.
-/
import Jarvis.Lib.Contract

namespace Jarvis

structure Field where
  name : String
  codec : Codec
  /-- `none` for a field that is required. -/
  default : Option Json
  default_ok : ∀ d, default = some d → ∃ w, codec.parse d = some w ∧ codec.dump w = d
  /-- Only what is null by default can be null. -/
  null_default : ∀ j, codec.parse j = some .null → default = some .null

namespace Field

/-- What is written for a field. -/
def full (f : Field) : Option Json → Json
  | some v => f.codec.dump v
  | none => f.default.getD .null

/-- What is written of a field when nulls are left out. -/
def thin (f : Field) (v : Option Json) : Option Json := v.bind fun x => if x.isNull then none else some (f.codec.slim x)

/-- A value that a field can have been set to. -/
structure Holds (f : Field) (v : Option Json) : Prop where
  set : ∀ x, v = some x → ∃ j, f.codec.parse j = some x
  unset : v = none → f.default.isSome

variable {f : Field} {v : Option Json}

theorem holds_read (j : Json) {x : Json} (h : f.codec.parse j = some x) : f.Holds (some x) :=
  ⟨fun y hy => ⟨j, by rw [h, Option.some.inj hy]⟩, by rintro ⟨⟩⟩

theorem parse_full (h : f.Holds v) : ∃ w, f.codec.parse (f.full v) = some w ∧ f.codec.dump w = f.full v := by
  cases v with
  | some x =>
    obtain ⟨j, hj⟩ := h.set x rfl
    exact f.codec.parse_dump hj
  | none =>
    obtain ⟨d, hd⟩ := Option.isSome_iff_exists.mp (h.unset rfl)
    obtain ⟨w, hw, hdump⟩ := f.default_ok d hd
    simp only [full, hd, Option.getD_some]
    exact ⟨w, hw, hdump⟩

/-- A value that may have been left out is read as what is written the same. -/
theorem parse_thin (h : f.Holds v) :
    (∃ x w, f.thin v = some x ∧ f.codec.parse x = some w ∧ f.codec.dump w = f.full v) ∨
      f.thin v = none ∧ (v = none ∨ v = some .null ∧ f.default = some .null ∧ f.full v = .null) := by
  cases v with
  | none => exact .inr ⟨rfl, .inl rfl⟩
  | some x =>
    obtain ⟨j, hj⟩ := h.set x rfl
    by_cases hx : x = .null
    · subst hx
      exact .inr ⟨rfl, .inr ⟨rfl, f.null_default j hj, (f.codec.dump_null hj).mpr rfl⟩⟩
    · obtain ⟨w, hw, hdump⟩ := f.codec.parse_slim hj
      refine .inl ⟨f.codec.slim x, w, ?_, hw, hdump⟩
      simp [thin, Json.isNull_eq_false.mpr hx]

end Field

namespace Model

/-- The members of the fields that are set. -/
def build (fields : List Field) (set : Field → Option Json) : List (String × Json) :=
  fields.filterMap fun f => (set f).map fun v => (f.name, v)

/-- What is set in an instance. -/
def setOf (v : Json) (f : Field) : Option Json := v.members.lookup f.name

/-- What is written of an instance. -/
def written (fields : List Field) (set : Field → Option Json) : List (String × Json) :=
  fields.map fun f => (f.name, f.full (set f))

variable {fields : List Field} {set set' : Field → Option Json} {valid : List (String × Json) → Bool}

theorem build_congr (h : ∀ f ∈ fields, set f = set' f) : build fields set = build fields set' :=
  List.filterMap_congr fun f hf => by rw [h f hf]

theorem written_congr (h : ∀ f ∈ fields, f.full (set f) = f.full (set' f)) : written fields set = written fields set' :=
  List.map_congr_left fun f hf => by rw [h f hf]

theorem mem_build {e : String × Json} : e ∈ build fields set ↔ ∃ f ∈ fields, set f = some e.2 ∧ f.name = e.1 := by
  unfold build
  rw [List.mem_filterMap]
  refine exists_congr fun f => and_congr_right fun _ => ?_
  rw [Option.map_eq_some_iff]
  constructor
  · rintro ⟨v, hv, rfl⟩
    exact ⟨hv, rfl⟩
  · rintro ⟨hv, hname⟩
    exact ⟨e.2, hv, Prod.ext hname rfl⟩

theorem keys_sublist : ((build fields set).map Prod.fst).Sublist (fields.map Field.name) := by
  induction fields with
  | nil => exact List.Sublist.refl _
  | cons f fields ih =>
    unfold build at ih ⊢
    rw [List.filterMap_cons]
    cases set f with
    | none => exact ih.cons _
    | some v => exact ih.cons_cons _

/-- A field is found as it was set. -/
theorem setOf_build (hnodup : (fields.map Field.name).Nodup) {f : Field} (hf : f ∈ fields) :
    setOf (.obj (build fields set)) f = set f := by
  show (build fields set).lookup f.name = set f
  have hkeys : ((build fields set).map Prod.fst).Nodup := keys_sublist.nodup hnodup
  cases h : set f with
  | some v => exact (Json.lookup_eq_some hkeys).mpr (mem_build.mpr ⟨f, hf, h, rfl⟩)
  | none =>
    cases hv : (build fields set).lookup f.name with
    | none => rfl
    | some v =>
      obtain ⟨g, hg, hset, hname⟩ := mem_build.mp ((Json.lookup_eq_some hkeys).mp hv)
      rw [List.inj_on_of_nodup_map hnodup hg hf hname, h] at hset
      cases hset

theorem written_eq_build : written fields set = build fields fun f => some (f.full (set f)) := by
  show _ = fields.filterMap fun f => some (f.name, f.full (set f))
  rw [List.filterMap_eq_map']
  rfl

/-! ## Reading -/

/-- What the members of an object set a field to. -/
def readSet (members : List (String × Json)) (f : Field) : Option Json := (members.lookup f.name).bind f.codec.parse

/-- A field can be read. -/
def readable (members : List (String × Json)) (f : Field) : Bool :=
  match members.lookup f.name with
  | some j => (f.codec.parse j).isSome
  | none => f.default.isSome

/-- No member is unknown and each field can be read. -/
def accepts (fields : List Field) (members : List (String × Json)) : Bool :=
  decide (members.map Prod.fst).Nodup && members.all (fun e => (fields.map Field.name).contains e.1) && fields.all (readable members)

def parseModel (fields : List Field) (valid : List (String × Json) → Bool) : Json → Option Json
  | .obj members =>
    if accepts fields members && valid (written fields (readSet members)) then some (.obj (build fields (readSet members))) else none
  | _ => none

theorem parseModel_eq_some {j v : Json} : parseModel fields valid j = some v ↔ ∃ members, j = .obj members ∧
    accepts fields members = true ∧ valid (written fields (readSet members)) = true ∧ v = .obj (build fields (readSet members)) := by
  constructor
  · intro h
    cases j with
    | obj members =>
      simp only [parseModel] at h
      split at h
      · rename_i hok
        rw [Bool.and_eq_true] at hok
        exact ⟨members, rfl, hok.1, hok.2, (Option.some.inj h).symm⟩
      · cases h
    | scalar | list => cases h
  · rintro ⟨members, rfl, haccepts, hvalid, rfl⟩
    simp only [parseModel, haccepts, hvalid, Bool.and_self, if_true]

theorem accepts_iff {members : List (String × Json)} : accepts fields members = true ↔
    (members.map Prod.fst).Nodup ∧ (∀ e ∈ members, ∃ f ∈ fields, f.name = e.1) ∧ ∀ f ∈ fields, readable members f = true := by
  unfold accepts
  rw [Bool.and_eq_true, Bool.and_eq_true, decide_eq_true_eq, List.all_eq_true, List.all_eq_true, and_assoc]
  refine and_congr_right fun _ => and_congr_left fun _ => forall₂_congr fun e _ => ?_
  rw [List.contains_iff_mem, List.mem_map]

/-- A value that a field is read as, it can hold. -/
theorem holds_readSet {members : List (String × Json)} {f : Field} (h : readable members f = true) : f.Holds (readSet members f) := by
  unfold readable at h
  unfold readSet
  cases hj : members.lookup f.name with
  | none =>
    rw [hj] at h
    show f.Holds none
    exact ⟨by rintro _ ⟨⟩, fun _ => h⟩
  | some j =>
    rw [hj] at h
    obtain ⟨x, hx⟩ := Option.isSome_iff_exists.mp h
    rw [Option.bind_some, hx]
    exact Field.holds_read j hx

/-- What is set in an instance can be held, and passes the model's own check. -/
structure Instance (fields : List Field) (valid : List (String × Json) → Bool) (set : Field → Option Json) : Prop where
  holds : ∀ f ∈ fields, f.Holds (set f)
  valid : valid (written fields set) = true

theorem instance_of_parse {j v : Json} (h : parseModel fields valid j = some v) :
    ∃ set, v = .obj (build fields set) ∧ Instance fields valid set := by
  obtain ⟨members, rfl, haccepts, hvalid, rfl⟩ := parseModel_eq_some.mp h
  exact ⟨_, rfl, fun f hf => holds_readSet ((accepts_iff.mp haccepts).2.2 f hf), hvalid⟩

section Built

variable (hnodup : (fields.map Field.name).Nodup)

include hnodup

theorem readSet_build {f : Field} (hf : f ∈ fields) : readSet (build fields set) f = (set f).bind f.codec.parse :=
  congrArg (·.bind f.codec.parse) (setOf_build hnodup hf)

/-- An object whose members can be read, field by field, is read. -/
theorem parse_build (hread : ∀ f ∈ fields, ∀ j, set f = some j → (f.codec.parse j).isSome)
    (hunset : ∀ f ∈ fields, set f = none → f.default.isSome)
    (hvalid : valid (written fields fun f => (set f).bind f.codec.parse) = true) :
    parseModel fields valid (.obj (build fields set)) = some (.obj (build fields fun f => (set f).bind f.codec.parse)) := by
  refine parseModel_eq_some.mpr ⟨_, rfl, accepts_iff.mpr ⟨keys_sublist.nodup hnodup, fun e he => ?_, fun f hf => ?_⟩, ?_, ?_⟩
  · obtain ⟨f, hf, -, hname⟩ := mem_build.mp he
    exact ⟨f, hf, hname⟩
  · unfold readable
    rw [show (build fields set).lookup f.name = set f from setOf_build hnodup hf]
    cases h : set f with
    | none => exact hunset f hf h
    | some j => exact hread f hf j h
  · rwa [written_congr fun f hf => by rw [readSet_build hnodup hf]]
  · rw [build_congr fun f hf => readSet_build hnodup hf]

theorem written_setOf : written fields (setOf (.obj (build fields set))) = written fields set :=
  written_congr fun f hf => by rw [setOf_build hnodup hf]

end Built

/-- How deep a model's instances are, where each of its fields is bounded. -/
def modelHeight : List Field → Option Nat
  | [] => some 0
  | f :: fields => f.codec.height.bind fun m => (modelHeight fields).map fun n => max (m + 1) n

theorem height_of_mem {n : Nat} (h : modelHeight fields = some n) {f : Field} (hf : f ∈ fields) :
    ∃ m, f.codec.height = some m ∧ m + 1 ≤ n := by
  induction fields generalizing n with
  | nil => cases hf
  | cons g fields ih =>
    obtain ⟨m, hm, h⟩ := Option.bind_eq_some_iff.mp h
    obtain ⟨k, hk, rfl⟩ := Option.map_eq_some_iff.mp h
    rcases List.mem_cons.mp hf with rfl | hf
    · exact ⟨m, hm, Nat.le_max_left _ _⟩
    · obtain ⟨m', hm', hle⟩ := ih hk hf
      exact ⟨m', hm', Nat.le_trans hle (Nat.le_max_right _ _)⟩

/-- An object that holds of each field something read as what the instance has, or nothing where
    that is the default, is read as an instance that writes the same. -/
theorem Instance.reparse (hnodup : (fields.map Field.name).Nodup) (h : Instance fields valid set) {given : Field → Option Json}
    (hgiven : ∀ f ∈ fields, ∀ j, given f = some j → ∃ w, f.codec.parse j = some w ∧ f.codec.dump w = f.full (set f))
    (hunset : ∀ f ∈ fields, given f = none → f.default.isSome ∧ f.full none = f.full (set f)) :
    parseModel fields valid (.obj (build fields given)) = some (.obj (build fields fun f => (given f).bind f.codec.parse)) ∧
      Instance fields valid (fun f => (given f).bind f.codec.parse) ∧
      ∀ f ∈ fields, f.full ((given f).bind f.codec.parse) = f.full (set f) := by
  have hfull : ∀ f ∈ fields, f.full ((given f).bind f.codec.parse) = f.full (set f) := by
    intro f hf
    cases hx : given f with
    | none => exact (hunset f hf hx).2
    | some j =>
      obtain ⟨w, hw, hdump⟩ := hgiven f hf j hx
      rw [Option.bind_some, hw]
      exact hdump
  have hvalid : valid (written fields fun f => (given f).bind f.codec.parse) = true := by
    rw [written_congr hfull]
    exact h.valid
  refine ⟨parse_build hnodup (fun f hf j hx => ?_) (fun f hf hx => (hunset f hf hx).1) hvalid,
    ⟨fun f hf => ⟨fun w hw => ?_, fun hw => ?_⟩, hvalid⟩, hfull⟩
  · obtain ⟨w, hw, -⟩ := hgiven f hf j hx
    rw [hw]
    rfl
  · obtain ⟨j, -, hj⟩ := Option.bind_eq_some_iff.mp hw
    exact ⟨j, hj⟩
  · cases hx : given f with
    | none => exact (hunset f hf hx).1
    | some j =>
      obtain ⟨w, hread, -⟩ := hgiven f hf j hx
      rw [hx, Option.bind_some, hread] at hw
      cases hw

section Laws

variable {j v : Json} {valid : List (String × Json) → Bool}

theorem parseModel_self (hnodup : (fields.map Field.name).Nodup) (h : parseModel fields valid j = some v) :
    parseModel fields valid v = some v := by
  obtain ⟨set, rfl, hinst⟩ := instance_of_parse h
  have hself : ∀ f ∈ fields, (set f).bind f.codec.parse = set f := by
    intro f hf
    cases hset : set f with
    | none => rfl
    | some x =>
      obtain ⟨j, hj⟩ := (hinst.holds f hf).set x hset
      exact f.codec.parse_self hj
  obtain ⟨hparse, -⟩ := hinst.reparse hnodup
    (fun f hf x hx => ⟨x, by simpa [hx] using hself f hf, by rw [hx]; rfl⟩)
    (fun f hf hx => ⟨(hinst.holds f hf).unset hx, by rw [hx]⟩)
  rw [hparse, build_congr hself]

theorem parseModel_dump (hnodup : (fields.map Field.name).Nodup) (h : parseModel fields valid j = some v) :
    ∃ w, parseModel fields valid (.obj (written fields (setOf v))) = some w ∧
      Json.obj (written fields (setOf w)) = .obj (written fields (setOf v)) := by
  obtain ⟨set, rfl, hinst⟩ := instance_of_parse h
  have hread : ∀ f ∈ fields, ∀ x, some (f.full (set f)) = some x → ∃ w, f.codec.parse x = some w ∧ f.codec.dump w = f.full (set f) := by
    rintro f hf x ⟨⟩
    exact Field.parse_full (hinst.holds f hf)
  obtain ⟨hparse, -, hfull⟩ := hinst.reparse hnodup hread (by rintro f hf ⟨⟩)
  rw [written_setOf hnodup, written_eq_build]
  refine ⟨_, hparse, ?_⟩
  rw [written_setOf hnodup, ← written_eq_build]
  exact congrArg Json.obj (written_congr hfull)

theorem parseModel_slim (hnodup : (fields.map Field.name).Nodup) (h : parseModel fields valid j = some v) :
    ∃ w, parseModel fields valid (.obj (build fields fun f => f.thin (setOf v f))) = some w ∧
      Json.obj (written fields (setOf w)) = .obj (written fields (setOf v)) := by
  obtain ⟨set, rfl, hinst⟩ := instance_of_parse h
  obtain ⟨hparse, -, hfull⟩ := @Instance.reparse _ _ _ hnodup hinst (fun f => f.thin (set f))
    (fun f hf x hx => by
      obtain ⟨y, w, hthin, hw⟩ | ⟨hthin, -⟩ := Field.parse_thin (hinst.holds f hf)
      · cases hthin.symm.trans hx
        exact ⟨w, hw⟩
      · cases hthin.symm.trans hx)
    (fun f hf hx => by
      obtain ⟨y, w, hthin, -⟩ | ⟨-, hnone | ⟨-, hdefault, hnull⟩⟩ := Field.parse_thin (hinst.holds f hf)
      · cases hthin.symm.trans hx
      · exact ⟨(hinst.holds f hf).unset hnone, by rw [hnone]⟩
      · exact ⟨by rw [hdefault]; rfl, by rw [hnull, Field.full, hdefault]; rfl⟩)
  rw [build_congr fun f hf => by rw [setOf_build hnodup hf], written_setOf hnodup]
  refine ⟨_, hparse, ?_⟩
  rw [written_setOf hnodup]
  exact congrArg Json.obj (written_congr hfull)

/-- What is read is an object. -/
theorem parseModel_ne_null {members : List (String × Json)} (h : parseModel fields valid j = some v) :
    Json.obj members = .null ↔ v = .null := by
  obtain ⟨set, rfl, -⟩ := instance_of_parse h
  exact iff_of_false (by rintro ⟨⟩) (by rintro ⟨⟩)

theorem parseModel_depth (hnodup : (fields.map Field.name).Nodup) {n : Nat} (h : parseModel fields valid j = some v)
    (hn : modelHeight fields = some n) : j.depth ≤ n ∧ v.depth ≤ n ∧ (Json.obj (written fields (setOf v))).depth ≤ n := by
  obtain ⟨set, hv, hinst⟩ := instance_of_parse h
  obtain ⟨members, rfl, haccepts, -, -⟩ := parseModel_eq_some.mp h
  obtain ⟨hkeys, hknown, hread⟩ := accepts_iff.mp haccepts
  subst hv
  rw [written_setOf hnodup]
  simp only [Json.depth, Json.depthMembers_le]
  refine ⟨fun e he => ?_, fun e he => ?_, fun e he => ?_⟩
  · obtain ⟨f, hf, hname⟩ := hknown e he
    obtain ⟨m, hm, hle⟩ := height_of_mem hn hf
    have hlookup : members.lookup f.name = some e.2 := (Json.lookup_eq_some hkeys).mpr (hname ▸ he)
    have hreadable := hread f hf
    unfold readable at hreadable
    rw [hlookup] at hreadable
    obtain ⟨x, hx⟩ := Option.isSome_iff_exists.mp hreadable
    have := (f.codec.depth_le hx hm).1
    omega
  · obtain ⟨f, hf, hset, -⟩ := mem_build.mp he
    obtain ⟨m, hm, hle⟩ := height_of_mem hn hf
    obtain ⟨j, hj⟩ := (hinst.holds f hf).set _ hset
    have := (f.codec.depth_le hj hm).2.1
    omega
  · obtain ⟨f, hf, rfl⟩ := List.mem_map.mp he
    obtain ⟨m, hm, hle⟩ := height_of_mem hn hf
    obtain ⟨w, hw, -⟩ := Field.parse_full (hinst.holds f hf)
    have := (f.codec.depth_le hw hm).1
    show (f.full (set f)).depth + 1 ≤ n
    omega

end Laws

end Model

namespace Codec

open Model

/-- A model with its fields, each of a name of its own, and its own check of what it writes. -/
def model (fields : List Field) (valid : List (String × Json) → Bool) (hnodup : (fields.map Field.name).Nodup) : Codec where
  parse := parseModel fields valid
  dump v := .obj (written fields (setOf v))
  slim v := .obj (build fields fun f => f.thin (setOf v f))
  height := modelHeight fields
  parse_self := parseModel_self hnodup
  parse_dump := parseModel_dump hnodup
  parse_slim := parseModel_slim hnodup
  dump_null := parseModel_ne_null
  slim_null := parseModel_ne_null
  depth_le := parseModel_depth hnodup

end Codec

/-! ## Instances -/

namespace Codec

/-- An instance: what is read as it is. -/
def Is (c : Codec) (v : Json) : Prop := c.parse v = some v

theorem is_of_parse {c : Codec} {j v : Json} (h : c.parse j = some v) : c.Is v := c.parse_self h

theorem is_list_iff {c : Codec} {lo hi : Nat} {v : Json} : (list c lo hi).Is v ↔
    ∃ items, v = .list items ∧ (lo ≤ items.length ∧ items.length ≤ hi) ∧ ∀ i ∈ items, c.Is i := by
  constructor
  · intro h
    obtain ⟨items, vs, rfl, hv, hlength, hall⟩ := parseList_eq_some.mp h
    cases hv
    have his := List.forall₂_same.mp hall
    exact ⟨items, rfl, hlength, his⟩
  · rintro ⟨items, rfl, hlength, hall⟩
    exact parseList_eq_some.mpr ⟨items, items, rfl, rfl, hlength, List.forall₂_same.mpr hall⟩

theorem is_scalarOf {accept : Scalar → Bool} {v : Json} (h : (scalarOf accept).Is v) : ∃ s, v = .scalar s ∧ accept s = true := by
  obtain ⟨s, t, rfl, hv, hst⟩ := parseScalar_spec h
  split at hst
  · rename_i hs
    exact ⟨s, rfl, hs⟩
  · cases hst

end Codec

namespace Model

variable {fields : List Field} {set : Field → Option Json} {valid : List (String × Json) → Bool}

/-- `model_copy(update=...)`. -/
def copy (fields : List Field) (v : Json) (update : List (String × Json)) : Json :=
  .obj (build fields fun f => (update.lookup f.name).or (setOf v f))

section Models

variable {hnodup : (fields.map Field.name).Nodup} {v : Json}

/-- What is set in an instance says what it is. -/
structure Made (fields : List Field) (valid : List (String × Json) → Bool) (v : Json) : Prop where
  eq_build : v = .obj (build fields (setOf v))
  instance_ : Instance fields valid (setOf v)
  is : ∀ f ∈ fields, ∀ x, setOf v f = some x → f.codec.Is x

theorem made_build (hnodup : (fields.map Field.name).Nodup) (h : Instance fields valid set)
    (his : ∀ f ∈ fields, ∀ x, set f = some x → f.codec.Is x) : Made fields valid (.obj (build fields set)) where
  eq_build := by rw [build_congr fun f hf => setOf_build hnodup hf]
  instance_ := ⟨fun f hf => by rw [setOf_build hnodup hf]; exact h.holds f hf, by rw [written_setOf hnodup]; exact h.valid⟩
  is f hf x hx := by
    rw [setOf_build hnodup hf] at hx
    exact his f hf x hx

theorem is_model_iff : (Codec.model fields valid hnodup).Is v ↔ Made fields valid v := by
  constructor
  · intro h
    obtain ⟨members, rfl, haccepts, hvalid, hv⟩ := parseModel_eq_some.mp h
    rw [hv]
    refine made_build hnodup ⟨fun f hf => holds_readSet ((accepts_iff.mp haccepts).2.2 f hf), hvalid⟩ fun f hf x hx => ?_
    obtain ⟨j, -, hj⟩ := Option.bind_eq_some_iff.mp hx
    exact f.codec.parse_self hj
  · intro h
    have hself : ∀ f ∈ fields, (setOf v f).bind f.codec.parse = setOf v f := by
      intro f hf
      cases hset : setOf v f with
      | none => rfl
      | some x => exact h.is f hf x hset
    have hread := @parse_build _ (setOf v) valid hnodup
      (fun f hf x hx => by rw [h.is f hf x hx]; rfl) (fun f hf => (h.instance_.holds f hf).unset)
      (by rw [written_congr fun f hf => by rw [hself f hf]]; exact h.instance_.valid)
    rw [build_congr hself, ← h.eq_build] at hread
    exact hread

theorem dump_build (hnodup : (fields.map Field.name).Nodup) : (Codec.model fields valid hnodup).dump (.obj (build fields set)) = .obj (written fields set) :=
  congrArg Json.obj (written_setOf hnodup)

theorem get_written (hnodup : (fields.map Field.name).Nodup) {f : Field} (hf : f ∈ fields) :
    (Json.obj (written fields set)).get f.name = f.full (set f) := by
  rw [written_eq_build]
  exact congrArg (Option.getD · .null) (@setOf_build _ (fun f => some (f.full (set f))) hnodup f hf)

/-- What is written for a field of an instance. -/
theorem get_dump {f : Field} (hf : f ∈ fields) : ((Codec.model fields valid hnodup).dump v).get f.name = f.full (setOf v f) :=
  get_written hnodup hf

/-- Instances that are written the same are written the same field by field. -/
theorem full_of_dump {w : Json} (h : (Codec.model fields valid hnodup).dump v = (Codec.model fields valid hnodup).dump w) {f : Field}
    (hf : f ∈ fields) : f.full (setOf v f) = f.full (setOf w f) := by
  have hv := congrArg (fun j : Json => j.get f.name) h
  exact (get_dump hf).symm.trans (hv.trans (get_dump hf))

theorem setOf_copy (hnodup : (fields.map Field.name).Nodup) {update : List (String × Json)} {f : Field} (hf : f ∈ fields) :
    setOf (copy fields v update) f = (update.lookup f.name).or (setOf v f) := setOf_build hnodup hf

theorem get_copy (hnodup : (fields.map Field.name).Nodup) (v : Json) (update : List (String × Json)) {f : Field} (hf : f ∈ fields) :
    (copy fields v update).get f.name = ((update.lookup f.name).or (setOf v f)).getD .null :=
  congrArg (fun x : Option Json => x.getD .null) (setOf_copy hnodup hf)

/-- A copy of an instance with other values is one, where the model's own check passes. -/
theorem made_copy (hnodup : (fields.map Field.name).Nodup) (h : Made fields valid v) {update : List (String × Json)}
    (hupdate : ∀ f ∈ fields, ∀ x, update.lookup f.name = some x → f.codec.Is x)
    (hvalid : valid (written fields (setOf (copy fields v update))) = true) : Made fields valid (copy fields v update) := by
  have hset : ∀ f ∈ fields, ∀ x, (update.lookup f.name).or (setOf v f) = some x → f.codec.Is x := by
    intro f hf x hx
    cases hnew : update.lookup f.name with
    | none =>
      rw [hnew] at hx
      exact h.is f hf x hx
    | some y =>
      rw [hnew] at hx
      cases hx
      exact hupdate f hf x hnew
  have hwritten : written fields (setOf (copy fields v update)) = written fields fun f => (update.lookup f.name).or (setOf v f) :=
    written_congr fun f hf => by rw [setOf_copy hnodup hf]
  refine made_build hnodup ⟨fun f hf => ⟨fun x hx => ⟨x, hset f hf x hx⟩, fun hnone => ?_⟩, hwritten ▸ hvalid⟩ hset
  exact (h.instance_.holds f hf).unset (Option.or_eq_none_iff.mp hnone).2

/-- What a required field holds. -/
theorem Made.required (h : Made fields valid v) {f : Field} (hf : f ∈ fields) (hrequired : f.default = none) :
    setOf v f = some (v.get f.name) ∧ f.codec.Is (v.get f.name) := by
  show setOf v f = some ((setOf v f).getD .null) ∧ f.codec.Is ((setOf v f).getD .null)
  cases hset : setOf v f with
  | none =>
    have hdefault := (h.instance_.holds f hf).unset hset
    rw [hrequired] at hdefault
    cases hdefault
  | some x => exact ⟨rfl, h.is f hf x hset⟩

/-- A member that is written as it is. -/
theorem get_leaf (f : Field) (hdump : ∀ x, f.codec.dump x = x) (hdefault : f.default.getD .null = .null) :
    v.get f.name = f.full (setOf v f) := by
  show (setOf v f).getD .null = _
  cases setOf v f with
  | none => exact hdefault.symm
  | some x => exact (hdump x).symm

end Models

end Model

/-! ## Objects as dictionaries -/

namespace Json

/-- `values[key] = value`. -/
def assign (values : Json) (key : String) (value : Json) : Json :=
  if values.members.any (·.1 = key) then .obj (values.members.map fun e => if e.1 = key then (e.1, value) else e)
  else .obj (values.members ++ [(key, value)])

/-- `values.update(others)`. -/
def update (values others : Json) : Json := others.members.foldl (fun values e => values.assign e.1 e.2) values

end Json

namespace Model

variable {fields : List Field} {g : Field → Json}

/-- An object with a member for each field. -/
def table (fields : List Field) (g : Field → Json) : Json := .obj (fields.map fun f => (f.name, g f))

theorem table_congr {g' : Field → Json} (h : ∀ f ∈ fields, g f = g' f) : table fields g = table fields g' :=
  congrArg Json.obj (List.map_congr_left fun f hf => by rw [h f hf])

theorem table_eq_build : table fields g = .obj (build fields fun f => some (g f)) := by
  show _ = Json.obj (fields.filterMap fun f => some (f.name, g f))
  rw [List.filterMap_eq_map']
  rfl

theorem get_table (hnodup : (fields.map Field.name).Nodup) {f : Field} (hf : f ∈ fields) : (table fields g).get f.name = g f := by
  rw [table_eq_build]
  exact congrArg (fun x : Option Json => x.getD .null) (setOf_build hnodup hf)

theorem assign_table {key : String} {value : Json} (h : ∃ f ∈ fields, f.name = key) :
    (table fields g).assign key value = table fields fun f => if f.name = key then value else g f := by
  obtain ⟨f, hf, hname⟩ := h
  have hany : ((table fields g).members.any (·.1 = key)) = true :=
    List.any_eq_true.mpr ⟨_, List.mem_map.mpr ⟨f, hf, rfl⟩, decide_eq_true hname⟩
  unfold Json.assign
  rw [if_pos hany]
  refine congrArg Json.obj ?_
  rw [table, Json.members, List.map_map]
  refine List.map_congr_left fun f hf => ?_
  simp only [Function.comp]
  split <;> rfl

theorem assign_self (hnodup : (fields.map Field.name).Nodup) {f : Field} (hf : f ∈ fields) :
    (table fields g).assign f.name (g f) = table fields g := by
  rw [assign_table ⟨f, hf, rfl⟩]
  refine table_congr fun f' hf' => ?_
  split
  · rename_i hname
    rw [List.inj_on_of_nodup_map hnodup hf' hf hname]
  · rfl

theorem update_table {others : List (String × Json)} (hknown : ∀ e ∈ others, ∃ f ∈ fields, f.name = e.1)
    (hnodup : (others.map Prod.fst).Nodup) :
    (table fields g).update (.obj others) = table fields fun f => (others.lookup f.name).getD (g f) := by
  unfold Json.update
  rw [Json.members]
  induction others generalizing g with
  | nil => rfl
  | cons e others ih =>
    obtain ⟨hfirst, hrest⟩ := List.nodup_cons.mp hnodup
    rw [List.foldl_cons, assign_table (hknown e List.mem_cons_self),
      ih (fun e he => hknown e (List.mem_cons_of_mem _ he)) hrest]
    refine table_congr fun f hf => ?_
    rw [List.lookup_cons]
    by_cases hname : f.name = e.1
    · have hnone : others.lookup f.name = none := by
        cases hv : others.lookup f.name with
        | none => rfl
        | some v => exact absurd (List.mem_map.mpr ⟨_, (Json.lookup_eq_some hrest).mp hv, hname⟩) hfirst
      rw [hnone, if_pos hname, beq_iff_eq.mpr hname]
      rfl
    · rw [if_neg hname, beq_eq_false_iff_ne.mpr hname]

/-- An object with a member for each field, read as what an instance has, is read as an instance
    that is written the same and sets every field. -/
theorem reread (hnodup : (fields.map Field.name).Nodup) {valid : List (String × Json) → Bool} {v : Json} (h : Made fields valid v)
    (g : Field → Json) (hread : ∀ f ∈ fields, ∃ w, f.codec.parse (g f) = some w ∧ f.codec.dump w = f.full (setOf v f)) :
    ∃ w, (Codec.model fields valid hnodup).parse (table fields g) = some w ∧
      (∀ f ∈ fields, ∃ x, f.codec.parse (g f) = some x ∧ setOf w f = some x) ∧ ∀ f ∈ fields, f.full (setOf w f) = f.full (setOf v f) := by
  have hgiven : ∀ f ∈ fields, ∀ j, some (g f) = some j → ∃ w, f.codec.parse j = some w ∧ f.codec.dump w = f.full (setOf v f) := by
    intro f hf j hj
    cases hj
    exact hread f hf
  obtain ⟨hparse, -, hfull⟩ := h.instance_.reparse hnodup hgiven (fun f hf hj => by cases hj)
  rw [← table_eq_build] at hparse
  refine ⟨_, hparse, fun f hf => ?_, fun f hf => ?_⟩
  · obtain ⟨x, hx, -⟩ := hread f hf
    exact ⟨x, hx, (setOf_build hnodup hf).trans hx⟩
  · rw [setOf_build hnodup hf]
    exact hfull f hf

end Model

/-! ## Kinds of fields -/

/-- Never null. -/
class Codec.Solid (c : Codec) : Prop where
  ne_null : ∀ j, c.parse j ≠ some .null

namespace Field

def required (name : String) (c : Codec) [c.Solid] : Field where
  name
  codec := c
  default := none
  default_ok := by rintro _ ⟨⟩
  null_default j h := absurd h (Codec.Solid.ne_null j)

def optional (name : String) (c : Codec) [c.Solid] (value : Json) (h : ∃ w, c.parse value = some w ∧ c.dump w = value) : Field where
  name
  codec := c
  default := some value
  default_ok _ hd := Option.some.inj hd ▸ h
  null_default j h := absurd h (Codec.Solid.ne_null j)

def nullable (name : String) (c : Codec) : Field where
  name
  codec := c.opt
  default := some .null
  default_ok d hd := by
    cases hd
    exact ⟨.null, rfl, rfl⟩
  null_default _ _ := rfl

end Field

namespace Codec

variable {c : Codec}

instance {lo hi : Nat} : (list c lo hi).Solid := ⟨fun _ h => by
  obtain ⟨_, _, -, hv, -⟩ := parseList_eq_some.mp h
  cases hv⟩

instance {key : String → Bool} {hi : Option Nat} : (dict key c hi).Solid := ⟨fun _ h => by
  obtain ⟨_, _, -, hv, -⟩ := parseDict_eq_some.mp h
  cases hv⟩

instance {fields : List Field} {valid : List (String × Json) → Bool} {hnodup : (fields.map Field.name).Nodup} :
    (model fields valid hnodup).Solid := ⟨fun _ h => by
  obtain ⟨_, -, -, -, hv⟩ := Model.parseModel_eq_some.mp h
  cases hv⟩

instance : object.Solid := ⟨fun j h => by cases j <;> cases h⟩

end Codec

end Jarvis
