/-
  Jarvis.Workflows.Failures — what becomes of a failure inside a parallel region.

  A region's node that raises a classified failure leaves it in its branch's `outcome`, which
  `BranchOutput` drops; what reaches FINALIZE of a child is the results recorded under its
  identity when it completes. So a failure is kept when the branch that failed completes with
  a failing result of its own (`FailuresReported`), and is lost otherwise: `parallel_failure_lost`
  ends "completed". An adapter's update with an outcome is refused in a region, whatever it
  reports (`Jarvis.Workflows.Continues`).
-/
import Jarvis.Workflows.Joins
import Jarvis.Workflows.Reducers

namespace Jarvis.Workflows

variable {spec : WorkflowSpec} {snapshot : WorkflowResolvedSnapshot}

/-! ## Failing results -/

/-- A child's result that FINALIZE counts as a failure. -/
def failedResult (result : Json) : Bool :=
  match result with
  | .obj _ => (Json.member? result "failure_class").any Json.truthy ||
      (textOf result "status").any fun s => s ∈ ["failed", "blocked", "cancelled"]
  | _ => false

/-- A child's results, one of which failed. -/
def failedBranch (branch : Json) : Bool :=
  match branch with
  | .obj results => results.any fun result => failedResult result.2
  | _ => false

/-- A child reported a failure. -/
def Failing (childResults : Dict String Json) : Prop :=
  ∃ key value, childResults.get? key = some value ∧ failedBranch value = true

theorem filter_toList_ne_nil {p : String → Bool} {o : Option String} : (o.filter p).toList ≠ [] ↔ o.any p = true := by
  cases o with
  | none => simp
  | some s => cases hp : p s <;> simp [Option.filter, hp]

theorem childFailures_ne_nil {state : WorkflowStateV1} : childFailures state ≠ [] ↔ Failing (state.childResults.getD .empty) := by
  have hresult : ∀ result : Json, (match result with
      | .obj _ =>
        if (Json.member? result "failure_class").any Json.truthy then ["failed"]
        else ((textOf result "status").filter fun s => s ∈ ["failed", "blocked", "cancelled"]).toList
      | _ => []) ≠ [] ↔ failedResult result = true := by
    intro result
    cases result with
    | scalar s => simp [failedResult]
    | list items => simp [failedResult]
    | obj members =>
      cases hf : (Json.member? (Json.obj members) "failure_class").any Json.truthy with
      | true => simp [failedResult, hf]
      | false =>
        simp only [failedResult, hf, Bool.false_or, Bool.false_eq_true, if_false]
        exact filter_toList_ne_nil
  have hbranch : ∀ branch : Json, (match branch with
      | .obj results =>
        results.flatMap fun result =>
          match result.2 with
          | .obj _ =>
            if (Json.member? result.2 "failure_class").any Json.truthy then ["failed"]
            else ((textOf result.2 "status").filter fun s => s ∈ ["failed", "blocked", "cancelled"]).toList
          | _ => []
      | _ => []) ≠ [] ↔ failedBranch branch = true := by
    intro branch
    cases branch with
    | scalar s => simp [failedBranch]
    | list items => simp [failedBranch]
    | obj results =>
      rw [failedBranch, List.any_eq_true, ne_eq, List.flatMap_eq_nil_iff, not_forall]
      constructor
      · rintro ⟨result, hr⟩
        obtain ⟨hmem, hne⟩ := not_forall.mp hr
        exact ⟨result, hmem, (hresult result.2).mp hne⟩
      · rintro ⟨result, hmem, hf⟩
        exact ⟨result, fun h => (hresult result.2).mpr hf (h hmem)⟩
  unfold childFailures Failing
  rw [ne_eq, List.flatMap_eq_nil_iff, not_forall]
  constructor
  · rintro ⟨entry, he⟩
    obtain ⟨hmem, hne⟩ := not_forall.mp he
    exact ⟨entry.1, entry.2, Dict.get?_eq_some.mpr hmem, (hbranch entry.2).mp hne⟩
  · rintro ⟨key, value, hv, hf⟩
    exact ⟨(key, value), fun h => (hbranch value).mpr hf (h (Dict.get?_eq_some.mp hv))⟩

/-- The failures FINALIZE knows. -/
theorem mem_childFailures {state : WorkflowStateV1} {s : String} (h : s ∈ childFailures state) :
    s = "failed" ∨ s = "blocked" ∨ s = "cancelled" := by
  unfold childFailures at h
  obtain ⟨branch, -, h⟩ := List.mem_flatMap.mp h
  split at h
  · obtain ⟨result, -, h⟩ := List.mem_flatMap.mp h
    split at h
    · split at h
      · exact .inl (List.mem_singleton.mp h)
      · have hsome := Option.mem_toList.mp h
        rw [Option.filter_eq_some_iff] at hsome
        have hin : s = "failed" ∨ s = "blocked" ∨ s = "cancelled" := by simpa using hsome.2
        exact hin
    · exact absurd h List.not_mem_nil
  · exact absurd h List.not_mem_nil

/-- A deriving FINALIZE that sees a child's failure does not complete the run. -/
theorem finalStatus_ne_completed {state : WorkflowStateV1} (h : childFailures state ≠ []) :
    finalStatus state .derive ≠ .ok "completed" := by
  obtain ⟨s, hs⟩ := List.exists_mem_of_ne_nil _ h
  have hstatus : ∃ t ∈ ["blocked", "failed", "cancelled"], (["blocked", "failed", "cancelled"].foldl
      (fun status s => if s ∈ childFailures state then Json.str s else status) (derivedStatus state)) = Json.str t := by
    simp only [List.foldl_cons, List.foldl_nil]
    by_cases hc : "cancelled" ∈ childFailures state
    · exact ⟨"cancelled", by simp, if_pos hc⟩
    · by_cases hf : "failed" ∈ childFailures state
      · exact ⟨"failed", by simp, by rw [if_neg hc, if_pos hf]⟩
      · by_cases hb : "blocked" ∈ childFailures state
        · exact ⟨"blocked", by simp, by rw [if_neg hc, if_neg hf, if_pos hb]⟩
        · rcases mem_childFailures hs with rfl | rfl | rfl
          · exact absurd hs hf
          · exact absurd hs hb
          · exact absurd hs hc
  obtain ⟨t, ht, hfold⟩ := hstatus
  have hne : ∀ u, u ∈ ["blocked", "failed", "cancelled"] → u ≠ "completed" ∧ u ≠ "succeeded" := by decide
  unfold finalStatus
  dsimp only
  rw [hfold]
  intro hok
  by_cases hcancelled : state.cancelled = some true
  · simp [hcancelled] at hok
  · simp only [if_true, hcancelled, if_false, (hne t ht).2] at hok
    split at hok
    · exact (hne t ht).1 (Except.ok.inj hok)
    · cases hok

/-! ## Merging keeps failures -/

theorem mem_of_lookup {members : List (String × Json)} {key : String} {j : Json} (h : members.lookup key = some j) :
    (key, j) ∈ members := by
  induction members with
  | nil => cases h
  | cons e members ih =>
    rw [List.lookup_cons] at h
    split at h
    · rename_i hk
      cases h
      rw [eq_of_beq hk]
      exact List.mem_cons_self
    · exact List.mem_cons_of_mem _ (ih h)

/-- What an object has, an object of the same canonical text has. -/
theorem canonEq_member {a b x : Json} {key : String} (h : a.canonEq b = true) (hx : Json.member? a key = some x) :
    ∃ y, Json.member? b key = some y ∧ x.canonEq y = true := by
  cases a with
  | obj as =>
    cases b with
    | obj bs =>
      unfold Json.canonEq at h
      rw [Json.eqBy, Bool.and_eq_true, Json.eqObj_iff] at h
      exact h.2 (key, x) (mem_of_lookup hx)
    | scalar s => cases h
    | list items => cases h
  | scalar s => cases hx
  | list items => cases hx

theorem canonEq_truthy {a b : Json} (h : a.canonEq b = true) (ha : a.truthy = true) : b.truthy = true := by
  unfold Json.canonEq at h
  cases a with
  | scalar s =>
    cases b with
    | scalar t =>
      rw [Json.eqBy, beq_iff_eq] at h
      rw [← h]
      exact ha
    | list items => cases h
    | obj members => cases h
  | list as =>
    cases b with
    | scalar t => cases h
    | list bs =>
      rw [Json.eqBy, Json.eqList_iff] at h
      cases h with
      | nil => exact ha
      | cons => rfl
    | obj members => cases h
  | obj as =>
    cases b with
    | scalar t => cases h
    | list bs => cases h
    | obj bs =>
      rw [Json.eqBy, Bool.and_eq_true, beq_iff_eq] at h
      cases as with
      | nil => cases ha
      | cons a as =>
        cases bs with
        | nil => cases h.1
        | cons b bs => rfl

theorem canonEq_obj {b : Json} {as : List (String × Json)} (h : (Json.obj as).canonEq b = true) :
    ∃ bs, b = .obj bs := by
  cases b with
  | obj bs => exact ⟨bs, rfl⟩
  | scalar s => cases h
  | list items => cases h

theorem failedResult_canonEq {a b : Json} (h : a.canonEq b = true) (ha : failedResult a = true) : failedResult b = true := by
  cases a with
  | scalar s => cases ha
  | list items => cases ha
  | obj as =>
    obtain ⟨bs, rfl⟩ := canonEq_obj h
    simp only [failedResult, Bool.or_eq_true, Option.any_eq_true] at ha ⊢
    rcases ha with ⟨x, hx, ht⟩ | ⟨s, hs, hin⟩
    · obtain ⟨y, hy, hxy⟩ := canonEq_member h hx
      exact .inl ⟨y, hy, canonEq_truthy hxy ht⟩
    · right
      refine ⟨s, ?_, hin⟩
      unfold textOf at hs ⊢
      split at hs
      · rename_i t hmem
        cases hs
        obtain ⟨y, hy, hty⟩ := canonEq_member h hmem
        have hsame : y = .scalar (.str s) := by
          cases y with
          | scalar u =>
            unfold Json.canonEq at hty
            rw [Json.eqBy, beq_iff_eq] at hty
            rw [← hty]
          | list items => cases hty
          | obj members => cases hty
        rw [hy, hsame]
      · cases hs

theorem failedBranch_canonEq {a b : Json} (h : a.canonEq b = true) (ha : failedBranch a = true) : failedBranch b = true := by
  cases a with
  | scalar s => cases ha
  | list items => cases ha
  | obj as =>
    obtain ⟨bs, rfl⟩ := canonEq_obj h
    unfold Json.canonEq at h
    rw [Json.eqBy, Bool.and_eq_true, Json.eqObj_iff] at h
    simp only [failedBranch, List.any_eq_true] at ha ⊢
    obtain ⟨e, he, hf⟩ := ha
    obtain ⟨y, hy, hey⟩ := h.2 e he
    exact ⟨(e.1, y), mem_of_lookup hy, failedResult_canonEq hey hf⟩

/-- An update's values are in the merge. -/
theorem foldlM_mergeEntry_right : ∀ {entries : List (String × Json)} {left m : Dict String Json},
    (entries.map Prod.fst).Nodup → entries.foldlM mergeEntry left = .ok m → ∀ e ∈ entries, m.get? e.1 = some e.2 := by
  intro entries
  induction entries with
  | nil => exact fun _ _ _ h => absurd h List.not_mem_nil
  | cons entry entries ih =>
    intro left m hnodup h e he
    obtain ⟨hfirst, hlater⟩ := List.nodup_cons.mp hnodup
    rw [List.foldlM_cons] at h
    obtain ⟨mid, hmid, hrest⟩ := bind_eq_ok.mp h
    rcases List.mem_cons.mp he with rfl | he
    · obtain ⟨hvalues, hkeys⟩ := foldlM_mergeEntry e.1 entries hrest
      rw [mergeEntry_ok hmid, Dict.get?_insert_self] at hvalues hkeys
      obtain ⟨value, hv⟩ := Option.isSome_iff_exists.mp (hkeys (.inl rfl))
      rcases hvalues value hv with hsame | hin
      · rw [hv, hsame]
      · exact absurd (List.mem_map.mpr ⟨_, hin, rfl⟩) hfirst
    · exact ih hlater hrest e he

theorem mergeById_right {left right m : Dict String Json} (h : mergeById left right = .ok m) {key : String} {value : Json}
    (hv : right.get? key = some value) : m.get? key = some value := by
  unfold mergeById at h
  obtain ⟨merged, hf, hm⟩ := bind_eq_ok.mp h
  cases hm
  rw [Dict.get?_sorted]
  exact foldlM_mergeEntry_right right.nodup hf (key, value) (Dict.get?_eq_some.mp hv)

/-- A merge keeps the failures of both sides. -/
theorem Failing.merged {left right m : Dict String Json} (h : mergeById left right = .ok m)
    (hf : Failing left ∨ Failing right) : Failing m := by
  rcases hf with ⟨key, value, hv, hf⟩ | ⟨key, value, hv, hf⟩
  · obtain ⟨hvalues, hkeys⟩ := mergeById_ok h key
    obtain ⟨y, hy⟩ := Option.isSome_iff_exists.mp (hkeys (.inl (by rw [hv]; rfl)))
    refine ⟨key, y, hy, ?_⟩
    rcases hvalues y hy with hl | hr
    · rw [hv] at hl
      cases hl
      exact hf
    · exact failedBranch_canonEq (mergeById_isOk.mp ⟨m, h⟩ key value y hv hr) hf
  · exact ⟨key, value, mergeById_right h hv, hf⟩

theorem Reduced.failing {state update next : WorkflowStateV1} (h : Reduced state update next)
    (hf : childFailures state ≠ [] ∨ childFailures update ≠ []) : childFailures next ≠ [] := by
  obtain ⟨m, hm, hmerge⟩ := h.childResults
  rw [childFailures_ne_nil, childFailures_ne_nil] at hf
  rw [childFailures_ne_nil, hm]
  exact Failing.merged hmerge hf

theorem mergeBranches_failing : ∀ {branches : List Branch} {state next : WorkflowStateV1},
    mergeBranches state branches = .ok next →
    (childFailures state ≠ [] ∨ ∃ b ∈ branches, childFailures b.state ≠ []) → childFailures next ≠ [] := by
  intro branches
  induction branches with
  | nil =>
    intro state next h hf
    cases h
    rcases hf with hf | ⟨b, hb, -⟩
    · exact hf
    · exact absurd hb List.not_mem_nil
  | cons b branches ih =>
    intro state next h hf
    unfold mergeBranches at h
    split at h
    · cases h
    · rename_i merged hm
      have hreduced : Reduced state (branchOutput b.state) merged := reduced_of_merged [] hm rfl rfl rfl rfl (by simp)
      have houtput : childFailures (branchOutput b.state) = childFailures b.state := rfl
      refine ih h ?_
      rcases hf with hf | ⟨other, hother, hf⟩
      · exact .inl (hreduced.failing (.inl hf))
      · rcases List.mem_cons.mp hother with rfl | hother
        · exact .inl (hreduced.failing (.inr (houtput ▸ hf)))
        · exact .inr ⟨other, hother, hf⟩

/-! ## Failed executions -/

/-- The update of the execution reports a failure class. -/
def Execution.failed (e : Execution) : Bool :=
  e.update.any fun update => (member update.outcome "failure_class").any Json.truthy

/-- The execution is of the activation the state is of: the visit it counts is. -/
def Execution.within (e : Execution) (state : WorkflowStateV1) : Bool :=
  e.update.any fun update => ((update.counters.getD .empty).get? (invocationKey state e.node)).isSome

/-- The results recorded under the identity of a branch. -/
def ownResults (state : WorkflowStateV1) : List (String × Json) :=
  (state.results.getD .empty).entries.filter fun entry => (state.childIdentity.getD "" ++ ":").isPrefixOf entry.1

/-- A branch in which an execution failed completes with a failing result of its own. -/
def FailuresReported (r : Run) : Action → Prop
  | .complete child => ∀ b ∈ r.branches, b.child = child →
      (∃ e ∈ r.log, e.branch = some child ∧ e.failed = true ∧ e.within b.state = true) →
        ∃ result ∈ ownResults b.state, failedResult result.2 = true
  | _ => True

theorem childFailures_completeUpdate {state : WorkflowStateV1} (h : ∃ result ∈ ownResults state, failedResult result.2 = true) :
    childFailures (completeUpdate state) ≠ [] := by
  rw [childFailures_ne_nil]
  refine ⟨state.childIdentity.getD "", .obj (ownResults state), ?_, ?_⟩
  · exact Dict.get?_insert_self Dict.empty _ _
  · rw [failedBranch, List.any_eq_true]
    exact h

/-- Where the failure of a region's execution is: in its branch, among the children's results, or in a run
    that raised. -/
def FailureKept (r : Run) (e : Execution) : Prop :=
  (∃ error, r.place = .raised error) ∨ childFailures r.state ≠ [] ∨
    ∃ f j branches, r.place = .parallel f j branches ∧ ∃ b ∈ branches, e.branch = some b.child ∧
      (b.place ≠ .ended ∧ e.within b.state = true ∨ childFailures b.state ≠ [])

def FailuresKept (r : Run) : Prop := ∀ e ∈ r.log, e.branch ≠ none → e.failed = true → FailureKept r e

/-- A branch's execution is of the branch's activation. -/
theorem Left.within {node : WorkflowNode} {state update next : WorkflowStateV1} {attempt : Attempt}
    (left : Left spec snapshot node state attempt update next) (hc : next.cancelled ≠ some true) (branch : Option String) :
    ∀ e ∈ executions spec node state branch attempt, e.within next = true := by
  intro e he
  have hkey : invocationKey next node.id = invocationKey state node.id := by
    unfold invocationKey
    rw [left.childIdentity]
  have hcancelled : update.cancelled ≠ some true := by
    intro hu
    rw [left.cancelled, hu] at hc
    exact hc rfl
  rw [(left.executed hc branch).2.1, List.mem_singleton] at he
  subst he
  simp only [Execution.within, Option.any_some]
  rw [hkey, ((wrap_marks left.wrapped).finished hcancelled).1]
  simp [Dict.ofList, Dict.update]

theorem within_of_identity {state next : WorkflowStateV1} (h : next.childIdentity = state.childIdentity) (e : Execution) :
    e.within next = e.within state := by
  unfold Execution.within invocationKey
  rw [h]

/-- A main node or a join leaves the failures the children reported. -/
theorem FailuresKept.main {r r' : Run} {node : WorkflowNode} {attempt : Attempt} {update next : WorkflowStateV1} (hk : FailuresKept r)
    (hplace : ∀ f j branches, r.place ≠ .parallel f j branches) (hraised : ∀ e, r.place ≠ .raised e)
    (left : Left spec snapshot node r.state attempt update next) (hstate : r'.state = next)
    (hlog : r'.log = r.log ++ executions spec node r.state none attempt) : FailuresKept r' := by
  intro e he hb hf
  rw [hlog] at he
  rcases List.mem_append.mp he with he | he
  · rcases hk e he hb hf with ⟨error, hp⟩ | hfailing | ⟨f, j, branches, hp, -⟩
    · exact absurd hp (hraised error)
    · rw [← hstate] at left
      exact .inr (.inl (left.reduced.failing (.inl hfailing)))
    · exact absurd hp (hplace f j branches)
  · exact absurd (mem_executions he).2 hb

/-- The holder of a failure after a branch moved. -/
theorem FailuresKept.branch {r : Run} {f j : String} {branches : List Branch} {b b' : Branch} {new : List Execution}
    (hk : FailuresKept r) (hplace : r.place = .parallel f j branches) (hb : b ∈ branches)
    (hnodup : (branches.map (·.child)).Nodup) (hchild : b'.child = b.child)
    (hold : ∀ e ∈ r.log, e.failed = true → e.branch = some b.child →
      (b.place ≠ .ended ∧ e.within b.state = true ∨ childFailures b.state ≠ []) →
      b'.place ≠ .ended ∧ e.within b'.state = true ∨ childFailures b'.state ≠ [])
    (hnew : ∀ e ∈ new, e.branch = some b.child ∧ (b'.place ≠ .ended ∧ e.within b'.state = true)) :
    FailuresKept ⟨r.state, .parallel f j (replaceBranch branches b'), r.supersteps, r.log ++ new⟩ := by
  have hb' : b' ∈ replaceBranch branches b' := List.mem_map.mpr ⟨b, hb, by rw [if_pos hchild.symm]⟩
  intro e he hbranch hf
  rcases List.mem_append.mp he with he | he
  · rcases hk e he hbranch hf with ⟨error, hp⟩ | hfailing | ⟨f', j', branches', hp, holder, hmem, hof, hheld⟩
    · rw [hplace] at hp
      cases hp
    · exact .inr (.inl hfailing)
    · rw [hplace] at hp
      cases hp
      refine .inr (.inr ⟨f, j, _, rfl, ?_⟩)
      by_cases hsame : holder.child = b.child
      · have hholder : holder = b := List.inj_on_of_nodup_map hnodup hmem hb hsame
        subst hholder
        exact ⟨b', hb', by rw [hof, hchild], hold e he hf hof hheld⟩
      · refine ⟨holder, List.mem_map.mpr ⟨holder, hmem, ?_⟩, hof, hheld⟩
        rw [if_neg]
        rw [hchild]
        exact hsame
  · obtain ⟨hof, hheld⟩ := hnew e he
    exact .inr (.inr ⟨f, j, _, rfl, b', hb', by rw [hof, hchild], .inl hheld⟩)

/-- Every move keeps the failures of the regions' executions. -/
theorem FailuresKept.move (h : Checked spec snapshot) {r r' : Run} {action : Action} (hj : Joining spec r) (hk : FailuresKept r)
    (ha : uncancelled action = true) (hreported : FailuresReported r action) (hm : Move spec snapshot r action r') :
    FailuresKept r' := by
  cases hm with
  | start hplace =>
    intro e he hb hf
    rcases hk e he hb hf with ⟨error, hp⟩ | hfailing | ⟨f, j, branches, hp, -⟩
    · rw [hplace] at hp
      cases hp
    · exact .inr (.inl hfailing)
    · rw [hplace] at hp
      cases hp
  | finish hplace hnode left hend =>
    exact hk.main (by simp [hplace]) (by simp [hplace]) left rfl rfl
  | route hplace hnode hf left hc hmerged hroute hcounters =>
    exact hk.main (by simp [hplace]) (by simp [hplace]) left rfl rfl
  | fanout hplace hnode hconfig left hc =>
    exact hk.main (by simp [hplace]) (by simp [hplace]) left rfl rfl
  | @branch action f j branches b b' new hplace hb hmove =>
    have hrunning := hj.2
    rw [hplace] at hrunning
    have hrunning : Running spec f j branches r.state := hrunning
    have hnodup : (branches.map (·.child)).Nodup := by
      obtain ⟨node, hn, rfl, maxFanout, hconfig⟩ := hrunning.fanout
      exact (h.fanoutChecked hn hconfig).nodup
    have hkeyed := hrunning.branches b hb
    have hr := h.regionChecked (hrunning.isChild hb)
    have hin := hkeyed.place
    have hprogress := hmove.progress h hr
    cases hmove with
    | finish hbplace hnode left hend =>
      rw [hbplace] at hin
      obtain hp | ⟨_, hp, -⟩ := hprogress _ hbplace hin ha hkeyed.live
      all_goals cases hp
    | @route id node attempt update next merged route hbplace hnode left hc hroute =>
      have hlive : (if route.1 = j then BranchPlace.complete else .node route.1) ≠ .ended := by
        split <;> simp
      refine hk.branch hplace hb hnodup rfl (fun e _ _ _ hheld => ?_) fun e he =>
        ⟨(mem_executions he).2, hlive, left.within hc _ e he⟩
      rcases hheld with ⟨-, hwithin⟩ | hfailing
      · exact .inl ⟨hlive, (within_of_identity left.childIdentity e).trans hwithin⟩
      · exact .inr (left.reduced.failing (.inl hfailing))
    | nested hbplace hnode hf =>
      rw [hbplace] at hin
      obtain ⟨hn, rfl⟩ := WorkflowSpec.node?_eq_some.mp hnode
      exact absurd hf (hr.node_type hin hn).1
    | @complete next hbplace hmerged =>
      have hreduced : Reduced b.state (completeUpdate b.state) next :=
        reduced_of_merged [] hmerged rfl rfl rfl rfl (by simp)
      refine hk.branch hplace hb hnodup rfl (fun e he hf hof hheld => .inr ?_) fun e he => absurd he List.not_mem_nil
      rcases hheld with ⟨-, hwithin⟩ | hfailing
      · have hmem : b ∈ r.branches := by
          unfold Run.branches
          rw [hplace]
          exact hb
        exact hreduced.failing (.inr (childFailures_completeUpdate
          (hreported b hmem rfl ⟨e, he, hof, hf, hwithin⟩)))
      · exact hreduced.failing (.inl hfailing)
  | @join f j branches next hplace hended hmerged =>
    intro e he hb hf
    refine .inr (.inl (mergeBranches_failing hmerged ?_))
    rcases hk e he hb hf with ⟨error, hp⟩ | hfailing | ⟨f', j', branches', hp, holder, hmem, -, hheld⟩
    · rw [hplace] at hp
      cases hp
    · exact .inl hfailing
    · rw [hplace] at hp
      cases hp
      rcases hheld with ⟨hlive, -⟩ | hfailing
      · exact absurd (hended holder hmem) hlive
      · exact .inr ⟨holder, hmem, hfailing⟩
  | raise _ => exact fun _ _ _ _ => .inl ⟨_, rfl⟩

end Jarvis.Workflows
