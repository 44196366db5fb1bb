/-
  Jarvis.Lib.Collect — collecting the records that references lead to.

  A record has an identity and a kind, and refers to records of lower rank by their identities and
  the kinds they are expected to have. `visit` follows a reference depth first and reports one that
  leads to no record or to one of another kind. What is collected is what the references reach
  (`mem_collect`), each record once (`collect_nodup`), and nothing is reported just when every
  reference reached is good (`collect_issues`).
-/
import Mathlib.Tactic.Common
import Mathlib.Data.List.Nodup

namespace Jarvis.Collect

structure Source (Id Kind Rec : Type) where
  find : Id → Option Rec
  id : Rec → Id
  kind : Rec → Kind
  refs : Rec → List (Id × Kind)
  rank : Kind → Nat
  id_find : ∀ {i r}, find i = some r → id r = i
  rank_lt : ∀ {r ref}, ref ∈ refs r → rank ref.2 < rank (kind r)

structure Collected (Rec Issue : Type) where
  records : List Rec := []
  issues : List Issue := []

variable {Id Kind Rec Issue : Type} (src : Source Id Kind Rec)

/-- The references that some references lead to. -/
inductive Reached (refs : List (Id × Kind)) : Id × Kind → Prop
  | root {ref : Id × Kind} : ref ∈ refs → Reached refs ref
  | next {ref next : Id × Kind} {r : Rec} : Reached refs ref → src.find ref.1 = some r → src.kind r = ref.2 →
      next ∈ src.refs r → Reached refs next

/-- The reference leads to a record of the kind it expects. -/
def Good (ref : Id × Kind) : Prop := ∃ r, src.find ref.1 = some r ∧ src.kind r = ref.2

/-- The record was collected, or it was reported that there is none. -/
def Handled (c : Collected Rec Issue) (ref : Id × Kind) : Prop :=
  (∃ r ∈ c.records, src.id r = ref.1 ∧ src.kind r = ref.2) ∨ ¬ Good src ref ∧ c.issues ≠ []

/-- What is collected was found under its identity, once. -/
structure Sound (c : Collected Rec Issue) : Prop where
  found : ∀ r ∈ c.records, src.find (src.id r) = some r
  nodup : (c.records.map src.id).Nodup

/-- From one collection to another, references are followed. -/
structure Follows (refs : List (Id × Kind)) (c c' : Collected Rec Issue) : Prop where
  sound : Sound src c'
  keeps : ∀ r ∈ c.records, r ∈ c'.records
  reports : c.issues ≠ [] → c'.issues ≠ []
  reached : ∀ r ∈ c'.records, r ∈ c.records ∨ Reached src refs (src.id r, src.kind r)
  handled : ∀ ref ∈ refs, Handled src c' ref
  closed : ∀ r ∈ c'.records, r ∉ c.records → ∀ ref ∈ src.refs r, Handled src c' ref
  blames : c'.issues ≠ c.issues → ∃ ref, Reached src refs ref ∧ ¬ Good src ref

variable {src} {refs refs' : List (Id × Kind)} {c c' c'' : Collected Rec Issue} {ref : Id × Kind}

theorem Reached.mono (hsub : ∀ ref ∈ refs, Reached src refs' ref) (h : Reached src refs ref) : Reached src refs' ref := by
  induction h with
  | root hmem => exact hsub _ hmem
  | next _ hfind hkind hmem ih => exact .next ih hfind hkind hmem

theorem Handled.mono (hkeeps : ∀ r ∈ c.records, r ∈ c'.records) (hreports : c.issues ≠ [] → c'.issues ≠ [])
    (h : Handled src c ref) : Handled src c' ref := by
  rcases h with ⟨r, hr, hid, hkind⟩ | ⟨hbad, hissues⟩
  · exact .inl ⟨r, hkeeps r hr, hid, hkind⟩
  · exact .inr ⟨hbad, hreports hissues⟩

theorem Follows.refl (h : Sound src c) : Follows src [] c c where
  sound := h
  keeps _ hr := hr
  reports hc := hc
  reached _ hr := .inl hr
  handled := by rintro _ ⟨⟩
  closed _ hr hnew := absurd hr hnew
  blames hne := absurd rfl hne

theorem Follows.trans (h : Follows src refs c c') (h' : Follows src refs' c' c'') : Follows src (refs ++ refs') c c'' where
  sound := h'.sound
  keeps r hr := h'.keeps r (h.keeps r hr)
  reports hc := h'.reports (h.reports hc)
  reached r hr := by
    rcases h'.reached r hr with hr' | hr'
    · exact (h.reached r hr').imp_right (Reached.mono fun _ hmem => .root (List.mem_append_left _ hmem))
    · exact .inr (hr'.mono fun _ hmem => .root (List.mem_append_right _ hmem))
  handled ref hmem := by
    rcases List.mem_append.mp hmem with hmem | hmem
    · exact (h.handled ref hmem).mono h'.keeps h'.reports
    · exact h'.handled ref hmem
  closed r hr hnew ref hmem := by
    by_cases hmid : r ∈ c'.records
    · exact (h.closed r hmid hnew ref hmem).mono h'.keeps h'.reports
    · exact h'.closed r hr hmid ref hmem
  blames hne := by
    by_cases hmid : c'.issues = c.issues
    · obtain ⟨bad, hbad, hnot⟩ := h'.blames (hmid ▸ hne)
      exact ⟨bad, hbad.mono fun _ hmem => .root (List.mem_append_right _ hmem), hnot⟩
    · obtain ⟨bad, hbad, hnot⟩ := h.blames hmid
      exact ⟨bad, hbad.mono fun _ hmem => .root (List.mem_append_left _ hmem), hnot⟩

/-- A reference to nothing, or to a record of another kind, is reported. -/
theorem Follows.report (h : Sound src c) (hbad : ¬ Good src ref) (issue : Issue) :
    Follows src [ref] c { c with issues := c.issues ++ [issue] } where
  sound := ⟨h.found, h.nodup⟩
  keeps _ hr := hr
  reports _ := List.append_ne_nil_of_right_ne_nil _ (List.cons_ne_nil _ _)
  reached _ hr := .inl hr
  handled ref' hmem := by
    rw [List.mem_singleton.mp hmem]
    exact .inr ⟨hbad, List.append_ne_nil_of_right_ne_nil _ (List.cons_ne_nil _ _)⟩
  closed _ hr hnew := absurd hr hnew
  blames _ := ⟨ref, .root List.mem_cons_self, hbad⟩

/-- A reference to a record that was collected. -/
theorem Follows.known (h : Sound src c) {r : Rec} (hr : r ∈ c.records) (hid : src.id r = ref.1) (hkind : src.kind r = ref.2) :
    Follows src [ref] c c where
  sound := h
  keeps _ hr := hr
  reports hc := hc
  reached _ hr := .inl hr
  handled ref' hmem := by
    rw [List.mem_singleton.mp hmem]
    exact .inl ⟨r, hr, hid, hkind⟩
  closed _ hr hnew := absurd hr hnew
  blames hne := absurd rfl hne

/-- A new record is collected, and then its references are followed. -/
theorem Follows.enter {r : Rec} (hfind : src.find ref.1 = some r) (hkind : src.kind r = ref.2)
    (h : Follows src (src.refs r) { c with records := c.records ++ [r] } c') : Follows src [ref] c c' where
  sound := h.sound
  keeps r' hr' := h.keeps r' (List.mem_append_left _ hr')
  reports := h.reports
  reached r' hr' := by
    rcases h.reached r' hr' with hmem | hreached
    · rcases List.mem_append.mp hmem with hmem | hmem
      · exact .inl hmem
      · rw [List.mem_singleton.mp hmem]
        refine .inr (.root (List.mem_singleton.mpr ?_))
        exact Prod.ext (src.id_find hfind) hkind
    · exact .inr (hreached.mono fun _ hmem => .next (.root List.mem_cons_self) hfind hkind hmem)
  handled ref' hmem := by
    rw [List.mem_singleton.mp hmem]
    exact .inl ⟨r, h.keeps r (List.mem_append_right _ List.mem_cons_self), src.id_find hfind, hkind⟩
  closed r' hr' hnew ref' hmem := by
    by_cases heq : r' = r
    · exact h.handled ref' (heq ▸ hmem)
    · refine h.closed r' hr' (fun hmem' => ?_) ref' hmem
      rcases List.mem_append.mp hmem' with hmem' | hmem'
      · exact hnew hmem'
      · exact heq (List.mem_singleton.mp hmem')
  blames hne := by
    obtain ⟨bad, hbad, hnot⟩ := h.blames hne
    exact ⟨bad, hbad.mono fun _ hmem => .next (.root List.mem_cons_self) hfind hkind hmem, hnot⟩

theorem Sound.append (h : Sound src c) {r : Rec} (hfind : src.find ref.1 = some r)
    (hnew : ∀ r' ∈ c.records, src.id r' ≠ ref.1) : Sound src { c with records := c.records ++ [r] } where
  found r' hr' := by
    rcases List.mem_append.mp hr' with hr' | hr'
    · exact h.found r' hr'
    · rw [List.mem_singleton.mp hr', src.id_find hfind]
      exact hfind
  nodup := by
    rw [List.map_append, List.nodup_append]
    refine ⟨h.nodup, List.nodup_singleton _, fun i hi j hj heq => ?_⟩
    obtain ⟨r', hr', rfl⟩ := List.mem_map.mp hi
    have hj := List.mem_singleton.mp hj
    exact hnew r' hr' (heq.trans (hj.trans (src.id_find hfind)))

theorem follows_foldl {next : Collected Rec Issue → Id × Kind → Collected Rec Issue} (refs : List (Id × Kind))
    (hnext : ∀ c ref, ref ∈ refs → Sound src c → Follows src [ref] c (next c ref)) (h : Sound src c) :
    Follows src refs c (refs.foldl next c) := by
  induction refs generalizing c with
  | nil => exact .refl h
  | cons ref refs ih =>
    have hfirst := hnext c ref List.mem_cons_self h
    exact hfirst.trans (ih (fun c ref hmem => hnext c ref (List.mem_cons_of_mem _ hmem)) hfirst.sound)

theorem sound_empty : Sound src ({} : Collected Rec Issue) := ⟨by rintro _ ⟨⟩, List.nodup_nil⟩

/-- A good reference that was handled led to its record. -/
theorem mem_of_handled (h : Sound src c) (hhandled : Handled src c ref) {r : Rec} (hfind : src.find ref.1 = some r)
    (hkind : src.kind r = ref.2) : r ∈ c.records := by
  rcases hhandled with ⟨r', hr', hid, -⟩ | ⟨hbad, -⟩
  · have hfound := h.found r' hr'
    rw [hid, hfind] at hfound
    rwa [Option.some.inj hfound]
  · exact absurd ⟨r, hfind, hkind⟩ hbad

/-! ## Following references -/

section Following

variable [DecidableEq Id] [DecidableEq Kind]

variable (src) in
/-- Follow a reference, and then those of the record it leads to. -/
def visit (unavailable mismatch : Issue) (c : Collected Rec Issue) (ref : Id × Kind) : Collected Rec Issue :=
  match c.records.find? (src.id · = ref.1) with
  | some r => if src.kind r = ref.2 then c else { c with issues := c.issues ++ [mismatch] }
  | none =>
    match src.find ref.1 with
    | none => { c with issues := c.issues ++ [unavailable] }
    | some r =>
      if _ : src.kind r = ref.2 then
        (src.refs r).attach.foldl (fun c x => visit unavailable mismatch c x.1) { c with records := c.records ++ [r] }
      else { c with issues := c.issues ++ [mismatch] }
termination_by src.rank ref.2
decreasing_by exact ‹src.kind r = ref.2› ▸ src.rank_lt x.2

/-- References, one after another, each with what to report. -/
def collect (src : Source Id Kind Rec) (refs : List (Issue × Issue × Id × Kind)) (c : Collected Rec Issue) : Collected Rec Issue :=
  refs.foldl (fun c ref => visit src ref.1 ref.2.1 c ref.2.2) c

/-- What following one reference does. -/
theorem visit_follows (unavailable mismatch : Issue) (n : Nat) : ∀ (c : Collected Rec Issue) (ref : Id × Kind),
    src.rank ref.2 = n → Sound src c → Follows src [ref] c (visit src unavailable mismatch c ref) := by
  induction n using Nat.strongRecOn with
  | ind n ih =>
    rintro c ref rfl h
    rw [visit]
    cases hknown : c.records.find? (src.id · = ref.1) with
    | some r =>
      have hmem := List.mem_of_find?_eq_some hknown
      have hfound := List.find?_some hknown
      have hid : src.id r = ref.1 := of_decide_eq_true hfound
      by_cases hkind : src.kind r = ref.2
      · simp only [hkind, if_true]
        exact .known h hmem hid hkind
      · simp only [hkind, if_false]
        refine .report h ?_ mismatch
        rintro ⟨r', hr', hkind'⟩
        rw [← hid, h.found r hmem] at hr'
        exact hkind (Option.some.inj hr' ▸ hkind')
    | none =>
      cases hfind : src.find ref.1 with
      | none =>
        refine .report h ?_ unavailable
        rintro ⟨r, hr, -⟩
        cases hfind.symm.trans hr
      | some r =>
        by_cases hkind : src.kind r = ref.2
        · simp only [hkind, dite_true]
          have hattach : ∀ c₀, (src.refs r).attach.foldl (fun c x => visit src unavailable mismatch c x.1) c₀ =
              (src.refs r).foldl (visit src unavailable mismatch) c₀ := fun _ => List.foldl_attach
          rw [hattach]
          refine .enter hfind hkind (follows_foldl _ (fun c next hnext hc => ?_) (h.append hfind fun r' hr' hid => ?_))
          · exact ih _ (hkind ▸ src.rank_lt hnext) c next rfl hc
          · exact List.find?_eq_none.mp hknown r' hr' (decide_eq_true hid)
        · simp only [hkind, dite_false]
          refine .report h ?_ mismatch
          rintro ⟨r', hr', hkind'⟩
          exact hkind (Option.some.inj (hfind.symm.trans hr') ▸ hkind')

theorem collect_follows (refs : List (Issue × Issue × Id × Kind)) (h : Sound src c) :
    Follows src (refs.map fun ref => ref.2.2) c (collect src refs c) := by
  induction refs generalizing c with
  | nil => exact .refl h
  | cons ref refs ih =>
    have hfirst := visit_follows ref.1 ref.2.1 _ c ref.2.2 rfl h
    exact hfirst.trans (ih hfirst.sound)

section Whole

variable {all : List (Issue × Issue × Id × Kind)}

theorem collect_empty (src : Source Id Kind Rec) (all : List (Issue × Issue × Id × Kind)) :
    Follows src (all.map fun ref => ref.2.2) {} (collect src all {}) := collect_follows all sound_empty

theorem collect_nodup : ((collect src all {}).records.map src.id).Nodup := (collect_empty src all).sound.nodup

/-- Every reference that is reached was followed. -/
theorem handled_of_reached (h : Reached src (all.map fun ref => ref.2.2) ref) : Handled src (collect src all {}) ref := by
  have hall := collect_empty src all
  induction h with
  | root hmem => exact hall.handled _ hmem
  | next _ hfind hkind hmem ih =>
    exact hall.closed _ (mem_of_handled hall.sound ih hfind hkind) List.not_mem_nil _ hmem

/-- What is collected are the records that good references reach. -/
theorem mem_collect {r : Rec} : r ∈ (collect src all {}).records ↔
    src.find (src.id r) = some r ∧ Reached src (all.map fun ref => ref.2.2) (src.id r, src.kind r) := by
  have hall := collect_empty src all
  constructor
  · intro hr
    exact ⟨hall.sound.found r hr, (hall.reached r hr).resolve_left List.not_mem_nil⟩
  · rintro ⟨hfind, hreached⟩
    exact mem_of_handled hall.sound (handled_of_reached hreached) hfind rfl

/-- Nothing is reported just when every reference that is reached is good. -/
theorem collect_issues : (collect src all {}).issues = [] ↔ ∀ ref, Reached src (all.map fun ref => ref.2.2) ref → Good src ref := by
  have hall := collect_empty src all
  constructor
  · intro hnone ref hreached
    rcases handled_of_reached hreached with ⟨r, hr, hid, hkind⟩ | ⟨-, hissues⟩
    · exact ⟨r, hid ▸ hall.sound.found r hr, hkind⟩
    · exact absurd hnone hissues
  · intro hgood
    by_contra hne
    obtain ⟨bad, hbad, hnot⟩ := hall.blames hne
    exact hnot (hgood bad hbad)

end Whole

end Following

end Jarvis.Collect
