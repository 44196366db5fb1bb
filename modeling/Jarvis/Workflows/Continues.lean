/-
  Jarvis.Workflows.Continues — which reports of a region's adapter let its branch go on.

  The factory refuses an adapter's update in a branch when it writes any channel but
  `results`, so an update with an outcome aborts the branch whatever it reports, and one with
  its own result alone takes the branch to its next node or to the join
  (`adapter_continues_iff`). No earlier result stands in its way: a result's key is made of
  the child, the node and the visit, and visits are counted (`Numbered`).
-/
import Jarvis.Workflows.Failures
import Jarvis.Workflows.Retries

namespace Jarvis.Workflows

variable {spec : WorkflowSpec} {snapshot : WorkflowResolvedSnapshot} {node : WorkflowNode}

/-! ## The keys of the results -/

/-- The state has a result under the key. -/
def HasResult (state : WorkflowStateV1) (key : String) : Prop := ((state.results.getD .empty).get? key).isSome

theorem mergedState_results {state update next : WorkflowStateV1} (h : mergedState state update = .ok next) {key : String}
    (hk : HasResult next key) : HasResult state key ∨ HasResult update key := by
  unfold mergedState at h
  obtain ⟨results, hr, h⟩ := bind_eq_ok.mp h
  obtain ⟨_, -, h⟩ := bind_eq_ok.mp h
  obtain ⟨_, -, h⟩ := bind_eq_ok.mp h
  cases h
  obtain ⟨value, hv⟩ := Option.isSome_iff_exists.mp hk
  rcases (mergeById_ok hr key).1 value hv with hl | hu
  · exact .inl (Option.isSome_iff_exists.mpr ⟨value, hl⟩)
  · exact .inr (Option.isSome_iff_exists.mpr ⟨value, hu⟩)

/-- The key of a join's summary, which no execution has. -/
def IsJoinKey (key : String) : Prop := ∃ s : String, key = s ++ ":"

theorem execKey_not_join {i id : String} {v : Int} : ¬ IsJoinKey (execKey i id v) := by
  rintro ⟨s, hs⟩
  have hcolon : ":".toList = [':'] := rfl
  have hl : (i.toList ++ ':' :: id.toList) ++ ':' :: (toString v).toList = s.toList ++ ':' :: [] := by
    simpa [execKey, String.toList_append, hcolon] using congrArg String.toList hs
  obtain ⟨-, hempty⟩ := append_cons_inj_right (colon_not_mem_toString v) (by simp) hl
  have hzero : toString v = "" := String.toList_inj.mp hempty
  have hrepr : ∀ n : Nat, n.repr ≠ "" := by
    intro n hn
    have hd := @Nat.ofDigitChars_ten_toDigits n
    have hnil : Nat.toDigits 10 n = [] := by rw [← Nat.toList_repr, hn]; rfl
    have hpos : 0 < (Nat.toDigits 10 n).length := Nat.length_toDigits_pos
    rw [hnil] at hpos
    exact absurd hpos (by decide)
  rw [Int.toString_eq_repr] at hzero
  cases v with
  | ofNat n => exact hrepr n hzero
  | negSucc n =>
    have hl := congrArg String.toList (show "-" ++ (n + 1).repr = "" from hzero)
    rw [String.toList_append] at hl
    exact absurd hl (by simp)

theorem wrap_results {state update : WorkflowStateV1} {attempt : Attempt} (h : wrap spec node state attempt = .ok update)
    {key : String} (hk : HasResult update key) : key = executionId state node.id ∨ IsJoinKey key := by
  rcases wrap_ok h with rfl | ⟨_, cls, -, -, rfl⟩ | ⟨_, -, he⟩
  · cases hk
  · cases hk
  · obtain ⟨-, raw, hcomplete, hraw⟩ := execute_finished he
    have hresets : (resets spec node state raw).results = raw.results := by
      unfold resets
      split
      · split <;> rfl
      all_goals rfl
    have hrawkeys : HasResult raw key → (nodeDefinitions node.type).external = true ∨ IsJoinKey key := by
      intro hkey
      rcases hraw with ⟨hext, -, -⟩ | ⟨-, hinternal⟩
      · exact .inl hext
      · right
        unfold internal at hinternal
        split at hinternal
        · unfold dispatch at hinternal
          dsimp only at hinternal
          split at hinternal
          · obtain ⟨_, -, hready⟩ := bind_eq_ok.mp hinternal
            cases hready
            cases hkey
          · cases hinternal
            cases hkey
        · cases hinternal
          cases hkey
        · unfold joinUpdate at hinternal
          dsimp only at hinternal
          split at hinternal
          · cases hinternal
          · cases hinternal
            unfold HasResult at hkey
            dsimp only [Option.getD_some, Dict.ofList, Dict.update, List.foldl_cons, List.foldl_nil] at hkey
            rw [Dict.get?_insert] at hkey
            split at hkey
            · rename_i he
              exact ⟨_, by rw [he, expectedOf.joinPrefix, ← String.append_assoc]⟩
            · cases hkey
        · obtain ⟨_, -, hstatus⟩ := bind_eq_ok.mp hinternal
          cases hstatus
          cases hkey
        · cases hinternal
          cases hkey
    unfold complete at hcomplete
    obtain ⟨_, -, hcomplete⟩ := bind_eq_ok.mp hcomplete
    unfold completed at hcomplete
    dsimp only at hcomplete
    rw [hresets] at hcomplete
    split at hcomplete
    · cases hcomplete
    · rename_i hown
      cases hcomplete
      unfold HasResult at hk
      dsimp only [Option.getD_some] at hk
      have hfrom : HasResult raw key → key = executionId state node.id ∨ IsJoinKey key := by
        intro hkey
        rcases hrawkeys hkey with hext | hjoin
        · left
          by_contra hne
          refine hown ?_
          rw [hext, Bool.true_and, List.any_eq_true]
          exact ⟨key, Dict.isSome_get?.mp hkey, by simpa using hne⟩
        · exact .inr hjoin
      split at hk
      · exact hfrom hk
      · rw [Dict.get?_insert] at hk
        split at hk
        · rename_i he
          exact .inl he
        · exact hfrom hk

theorem nodeResult_results {state next : WorkflowStateV1} {attempt : Attempt}
    (h : nodeResult spec snapshot node state attempt = .ok next) {key : String} (hk : HasResult next key) :
    HasResult state key ∨ key = executionId state node.id ∨ IsJoinKey key := by
  unfold nodeResult at h
  split at h
  · cases h
  · rename_i final hi
    obtain ⟨update, hw, hfinal⟩ := invokeNode_ok hi
    have hresults : final.results = update.results := by
      rcases hfinal with ⟨rfl, -⟩ | ⟨_, -, ⟨rfl, -⟩ | ⟨_, _, -, -, -, -, rfl⟩⟩
      all_goals rfl
    refine (mergedState_results h hk).imp id fun hu => wrap_results hw ?_
    unfold HasResult at hu ⊢
    rw [← hresults]
    exact hu

/-! ## Visits are counted -/

theorem childId_visit_inj {f f' c c' : String} {v v' : Int} (hf : ':' ∉ f.toList) (hf' : ':' ∉ f'.toList)
    (h : childId f v c = childId f' v' c') : f = f' ∧ v = v' := by
  have hl := congrArg String.toList h
  rw [childId_toList, childId_toList] at hl
  obtain ⟨hff, hrest⟩ := append_cons_inj hf hf' hl
  obtain ⟨hvv, -⟩ := append_cons_inj (colon_not_mem_toString v) (colon_not_mem_toString v') hrest
  exact ⟨String.toList_inj.mp hff, toString_int_inj (String.toList_inj.mp hvv)⟩

theorem childId_ne_main (f c : String) (v : Int) : childId f v c ≠ "main" := by
  intro h
  have hmem : ':' ∈ (childId f v c).toList := by
    rw [childId_toList]
    simp
  rw [h] at hmem
  exact absurd hmem (by decide)

/-- The children's results are of counted visits of their fan-outs. -/
def ChildrenNumbered (state : WorkflowStateV1) : Prop :=
  ∀ f c id v n, ':' ∉ f.toList → ':' ∉ id.toList → HasResult state (execKey (childId f v c) id n) →
    v ≤ state.counter (visitKey f)

/-- A branch's own results are of counted visits of its nodes. -/
def OwnNumbered (state : WorkflowStateV1) : Prop :=
  ∀ id n, ':' ∉ id.toList → HasResult state (execKey (state.childIdentity.getD "main") id n) →
    n ≤ state.counter (invocationKey state id)

structure BranchNumbered (state : WorkflowStateV1) : Prop where
  nonneg : ∀ key, 0 ≤ state.counter key
  children : ChildrenNumbered state
  own : OwnNumbered state

structure Numbered (r : Run) : Prop where
  nonneg : ∀ key, 0 ≤ r.state.counter key
  children : ChildrenNumbered r.state
  branches : ∀ b ∈ r.branches, BranchNumbered b.state

theorem routeKey_ne_invocation {key : String} (h : routeKey key) (state : WorkflowStateV1) (id : String) :
    key ≠ invocationKey state id := by
  intro he
  have hl := congrArg (fun s => s.toList.head?) he
  obtain ⟨id, cls, rfl⟩ | ⟨k, rfl | rfl⟩ := h
  all_goals simp [invocationKey, retryKey, iterateKey, progressKey, String.toList_append] at hl

/-- A node leaves its visit counted. -/
theorem Left.counted {state update next : WorkflowStateV1} {attempt : Attempt}
    (left : Left spec snapshot node state attempt update next) (hc : next.cancelled ≠ some true) :
    visitOf state node.id ≤ next.counter (invocationKey state node.id) := by
  have hcancelled : update.cancelled ≠ some true := by
    intro hu
    rw [left.cancelled, hu] at hc
    exact hc rfl
  obtain ⟨counters, m, hm, hkeys, hmax⟩ := left.reduced.counters
  have hget := Dict.get?_update_of_not_mem counters (update.counters.getD .empty)
    fun entry he => routeKey_ne_invocation (hkeys entry he) state node.id
  unfold WorkflowStateV1.counter
  rw [hm, Option.getD_some]
  refine (maxMap_ok hmax).2 _ _ (hget.trans ?_)
  rw [((wrap_marks left.wrapped).finished hcancelled).1]
  simp [Dict.ofList, Dict.update]

/-- A state that has no new results and lower no counter. -/
theorem ChildrenNumbered.mono {state next : WorkflowStateV1} (h : ChildrenNumbered state)
    (hresults : ∀ key, HasResult next key → HasResult state key) (hle : ∀ key, state.counter key ≤ next.counter key) :
    ChildrenNumbered next := fun f c id v n hf hid hk => le_trans (h f c id v n hf hid (hresults _ hk)) (hle _)

/-- The results of a node of the main graph are not the children's. -/
theorem ChildrenNumbered.main {state next : WorkflowStateV1} {attempt : Attempt} (h : ChildrenNumbered state)
    (hmain : state.childIdentity = none) (hn : nodeResult spec snapshot node state attempt = .ok next) {f c id : String}
    {v n : Int} (hf : ':' ∉ f.toList) (hid : ':' ∉ id.toList) (hk : HasResult next (execKey (childId f v c) id n)) :
    v ≤ state.counter (visitKey f) := by
  rcases nodeResult_results hn hk with hold | hown | hjoin
  · exact h f c id v n hf hid hold
  · have hmainkey : executionId state node.id = execKey "main" node.id (visitOf state node.id) := by
      rw [executionId, hmain]
      rfl
    rw [hmainkey] at hown
    exact absurd (execKey_inj hid (colon_not_mem node) hown).1 (childId_ne_main f c v)
  · exact absurd hjoin execKey_not_join

/-- A node of a branch. -/
theorem BranchNumbered.executed {state next : WorkflowStateV1} {attempt : Attempt} (h : BranchNumbered state)
    {f c : String} {v : Int} (hf : ':' ∉ f.toList) (hident : state.childIdentity = some (childId f v c))
    (hvisit : state.counter (visitKey f) = v) (hn : nodeResult spec snapshot node state attempt = .ok next)
    (hc : next.cancelled ≠ some true) : BranchNumbered next := by
  obtain ⟨update, left⟩ := nodeResult_ok hn
  have hkey : executionId state node.id = execKey (childId f v c) node.id (visitOf state node.id) := by
    rw [executionId, hident]
    rfl
  refine ⟨fun key => le_trans (h.nonneg key) (left.counters key), fun f' c' id v' n hf' hid hk => ?_, fun id n hid hk => ?_⟩
  · rcases nodeResult_results hn hk with hold | hown | hjoin
    · exact le_trans (h.children f' c' id v' n hf' hid hold) (left.counters _)
    · rw [hkey] at hown
      obtain ⟨hi, -, -⟩ := execKey_inj hid (colon_not_mem node) hown
      obtain ⟨rfl, rfl⟩ := childId_visit_inj hf' hf hi
      exact le_trans (le_of_eq hvisit.symm) (left.counters _)
    · exact absurd hjoin execKey_not_join
  · have hsame : invocationKey next id = invocationKey state id := by
      unfold invocationKey
      rw [left.childIdentity]
    rw [left.childIdentity] at hk
    rw [hsame]
    rcases nodeResult_results hn hk with hold | hown | hjoin
    · exact le_trans (h.own id n hid hold) (left.counters _)
    · obtain ⟨-, rfl, rfl⟩ := execKey_inj hid (colon_not_mem node) hown
      exact left.counted hc
    · exact absurd hjoin execKey_not_join

/-- The branches a fan-out sends. -/
theorem BranchNumbered.sent {state next : WorkflowStateV1} {attempt : Attempt} (h : ChildrenNumbered state)
    (hnonneg : ∀ key, 0 ≤ state.counter key) (hmain : state.childIdentity = none)
    (hn : nodeResult spec snapshot node state attempt = .ok next) (hc : next.cancelled ≠ some true) (child : String) :
    BranchNumbered (sendTo next node.id child).state := by
  obtain ⟨update, left⟩ := nodeResult_ok hn
  have hnext : next.childIdentity = none := left.childIdentity.trans hmain
  have hvisit := left.visited hmain hc
  refine ⟨fun key => le_trans (hnonneg key) (left.counters key), fun f c id v n hf hid hk => ?_, fun id n hid hk => ?_⟩
  · exact le_trans (h.main hmain hn hf hid hk) (left.counters _)
  · -- no result is of the visit that starts
    have hident : (sendTo next node.id child).state.childIdentity.getD "main" =
        childId node.id (next.counter (visitKey node.id)) child := by
      simp [sendTo, invocationKey_main hnext]
    rw [hident, hvisit] at hk
    have hle := h.main hmain hn (colon_not_mem node) hid hk
    rw [visitOf, invocationKey_main hmain] at hle
    omega

theorem BranchNumbered.complete {b b' : Branch} (h : BranchNumbered b.state) (hb : completeBranch b = .ok b') :
    BranchNumbered b'.state := by
  unfold completeBranch at hb
  split at hb
  · cases hb
  · rename_i next hm
    cases hb
    have hresults : ∀ key, HasResult next key → HasResult b.state key := by
      intro key hk
      rcases mergedState_results hm hk with hold | hnew
      · exact hold
      · cases hnew
    have hle := counter_le_mergedState hm
    have hident : next.childIdentity = b.state.childIdentity := (mergedState_ok hm).2.2.2.2.2.1
    refine ⟨fun key => le_trans (h.nonneg key) (hle key), h.children.mono hresults hle, fun id n hid hk => ?_⟩
    have hsame : invocationKey next id = invocationKey b.state id := by
      unfold invocationKey
      rw [hident]
    rw [hident] at hk
    rw [hsame]
    exact le_trans (h.own id n hid (hresults _ hk)) (hle _)

/-- What the join merges. -/
theorem mergeBranches_results : ∀ {branches : List Branch} {state next : WorkflowStateV1},
    mergeBranches state branches = .ok next →
    (∀ key, HasResult next key → HasResult state key ∨ ∃ b ∈ branches, HasResult b.state key) ∧
    ∀ b ∈ branches, ∀ key, b.state.counter key ≤ max (next.counter key) 0 := by
  intro branches
  induction branches with
  | nil =>
    intro state next h
    cases h
    exact ⟨fun _ hk => .inl hk, fun _ hb => absurd hb List.not_mem_nil⟩
  | cons b branches ih =>
    intro state next h
    unfold mergeBranches at h
    split at h
    · cases h
    · rename_i merged hm
      obtain ⟨hresults, hcounters⟩ := ih h
      refine ⟨fun key hk => ?_, fun other ho key => ?_⟩
      · rcases hresults key hk with hmerged | ⟨other, ho, hother⟩
        · rcases mergedState_results hm hmerged with hold | hnew
          · exact .inl hold
          · exact .inr ⟨b, List.mem_cons_self, hnew⟩
        · exact .inr ⟨other, List.mem_cons_of_mem _ ho, hother⟩
      · rcases List.mem_cons.mp ho with rfl | ho
        · have hlater := mergeBranches_counter h key
          cases hg : (other.state.counters.getD .empty).get? key with
          | none =>
            have hzero : other.state.counter key = 0 := by
              unfold WorkflowStateV1.counter Dict.getD
              rw [hg]
              rfl
            rw [hzero]
            exact le_max_right _ _
          | some value =>
            have hvalue : other.state.counter key = value := by
              unfold WorkflowStateV1.counter Dict.getD
              rw [hg]
              rfl
            have hfirst := @update_counter_le_mergedState _ _ _ hm key value hg
            rw [hvalue]
            exact le_trans (le_trans hfirst hlater) (le_max_left _ _)
        · exact hcounters other ho key

theorem mem_branches_replace {r : Run} {f j : String} {branches : List Branch} {b b' : Branch} {n : Nat} {log : List Execution}
    (hplace : r.place = .parallel f j branches)
    (hb : b ∈ (Run.branches ⟨r.state, .parallel f j (replaceBranch branches b'), n, log⟩)) : b = b' ∨ b ∈ r.branches := by
  obtain ⟨old, hold, rfl⟩ := List.mem_map.mp hb
  split
  · exact .inl rfl
  · right
    unfold Run.branches
    rw [hplace]
    exact hold

/-- A node of the main graph. -/
theorem Numbered.exec {r : Run} {attempt : Attempt} (hn : Numbered r) (hmain : r.state.childIdentity = none) :
    Numbered (execMain spec snapshot r node attempt) := by
  unfold execMain
  dsimp only
  split
  · exact ⟨hn.nonneg, hn.children, fun b hb => absurd hb List.not_mem_nil⟩
  · rename_i next hnext
    obtain ⟨update, left⟩ := nodeResult_ok hnext
    have hnonneg : ∀ key, 0 ≤ next.counter key := fun key => le_trans (hn.nonneg key) (left.counters key)
    have hchildren : ChildrenNumbered next := fun f c id v n hf hid hk =>
      le_trans (hn.children.main hmain hnext hf hid hk) (left.counters _)
    split
    · exact ⟨hnonneg, hchildren, fun b hb => absurd hb List.not_mem_nil⟩
    · refine ⟨hnonneg, hchildren, fun b hb => ?_⟩
      cases hadvance : advance spec node next with
      | parallel f j branches =>
        rw [hadvance] at hb
        obtain ⟨children, maxFanout, hconfig, rfl, rfl⟩ := advance_parallel hadvance
        obtain ⟨child, -, rfl⟩ := List.mem_map.mp hb
        refine BranchNumbered.sent hn.children hn.nonneg hmain hnext (fun hc => ?_) child
        unfold advance at hadvance
        rw [if_pos hc] at hadvance
        cases hadvance
      | _ =>
        rw [hadvance] at hb
        exact absurd hb List.not_mem_nil

/-- Every step keeps the numbering. -/
theorem Numbered.step {r r' : Run} {action : Action} (hj : Joining spec r) (hn : Numbered r)
    (ha : uncancelled action = true) (hs : step spec snapshot r action = some r') : Numbered r' := by
  have hplace' := hj.2
  cases action with
  | start =>
    unfold Workflows.step at hs
    dsimp only at hs
    split at hs
    · cases hs
      exact ⟨hn.nonneg, hn.children, fun b hb => absurd hb List.not_mem_nil⟩
    · cases hs
  | exec attempt =>
    unfold Workflows.step at hs
    dsimp only at hs
    split at hs
    · rename_i id hplace
      obtain ⟨node, hnode, rfl⟩ := Option.map_eq_some_iff.mp hs
      rw [hplace] at hplace'
      exact hn.exec hplace'.main
    · cases hs
  | child child attempt =>
    unfold Workflows.step at hs
    dsimp only at hs
    split at hs
    · rename_i f j branches hplace
      split at hs
      · rename_i b hfind
        have hb := List.mem_of_find?_eq_some hfind
        split at hs
        · rename_i id hbplace
          obtain ⟨node, hnode, rfl⟩ := Option.map_eq_some_iff.mp hs
          rw [hplace] at hplace'
          have hrunning : Running spec f j branches r.state := hplace'
          have hkeyed := hrunning.branches b hb
          have hmem : b ∈ r.branches := by
            unfold Run.branches
            rw [hplace]
            exact hb
          have hcolon := (hrunning.isChild hb).colon
          cases he : execBranch spec snapshot j b node attempt with
          | error e => exact ⟨hn.nonneg, hn.children, fun b hb => absurd hb List.not_mem_nil⟩
          | ok b' =>
            refine ⟨hn.nonneg, hn.children, fun other ho => ?_⟩
            rcases mem_branches_replace hplace ho with rfl | ho
            · unfold execBranch at he
              split at he
              · cases he
              · rename_i next hnext
                obtain ⟨update, left⟩ := nodeResult_ok hnext
                have hlive : next.cancelled ≠ some true := by
                  rw [left.cancelled, wrap_uncancelled left.wrapped ha]
                  exact hkeyed.live
                have hnumbered := (hn.branches b hmem).executed hcolon hkeyed.identity hkeyed.counter hnext hlive
                split at he
                · cases he
                  exact hnumbered
                · cases he
                  exact hnumbered
            · exact hn.branches other ho
        · cases hs
      · cases hs
    · cases hs
  | complete child =>
    unfold Workflows.step at hs
    dsimp only at hs
    split at hs
    · rename_i f j branches hplace
      split at hs
      · rename_i b hfind
        have hb := List.mem_of_find?_eq_some hfind
        split at hs
        · cases hs
          have hmem : b ∈ r.branches := by
            unfold Run.branches
            rw [hplace]
            exact hb
          cases hc : completeBranch b with
          | error e => exact ⟨hn.nonneg, hn.children, fun b hb => absurd hb List.not_mem_nil⟩
          | ok b' =>
            refine ⟨hn.nonneg, hn.children, fun other ho => ?_⟩
            rcases mem_branches_replace hplace ho with rfl | ho
            · exact (hn.branches b hmem).complete hc
            · exact hn.branches other ho
        · cases hs
      · cases hs
    · cases hs
  | join =>
    unfold Workflows.step at hs
    dsimp only at hs
    split at hs
    · rename_i f j branches hplace
      split at hs
      · split at hs
        · cases hs
          exact ⟨hn.nonneg, hn.children, fun b hb => absurd hb List.not_mem_nil⟩
        · rename_i next hm
          cases hs
          have hle := mergeBranches_counter hm
          have hnonneg : ∀ key, 0 ≤ next.counter key := fun key => le_trans (hn.nonneg key) (hle key)
          obtain ⟨hresults, hcounters⟩ := mergeBranches_results hm
          refine ⟨hnonneg, fun f c id v n hf hid hk => ?_, fun b hb => absurd hb List.not_mem_nil⟩
          rcases hresults _ hk with hold | ⟨b, hb, hnew⟩
          · exact le_trans (hn.children f c id v n hf hid hold) (hle _)
          · have hmem : b ∈ r.branches := by
              unfold Run.branches
              rw [hplace]
              exact hb
            have hb' := (hn.branches b hmem).children f c id v n hf hid hnew
            have hmax := hcounters b hb (visitKey f)
            rw [max_eq_left (hnonneg _)] at hmax
            exact le_trans hb' hmax
      · cases hs
    · cases hs

/-! ## Reports -/

/-- What an adapter returns: its own result, with an outcome if it gives one. -/
def report (outcome : Option (Dict String Json)) (key : String) (value : Json) : WorkflowStateV1 :=
  { outcome := outcome, results := some (Dict.ofList [(key, value)]) }

theorem mergedState_isOk {state update : WorkflowStateV1}
    (hresults : ∀ key, HasResult update key → ¬ HasResult state key) (hchild : update.childResults = none)
    (hcounters : ∀ e ∈ (update.counters.getD .empty).entries, 0 ≤ e.2) : ∃ next, mergedState state update = .ok next := by
  obtain ⟨results, hr⟩ := (@mergeById_isOk (state.results.getD .empty) (update.results.getD .empty)).mpr
    fun key x y hx hy => absurd (by unfold HasResult; rw [hx]; rfl) (hresults key (by unfold HasResult; rw [hy]; rfl))
  obtain ⟨childResults, hc⟩ := (@mergeById_isOk (state.childResults.getD .empty) (update.childResults.getD .empty)).mpr
    fun key x y _ hy => by rw [hchild] at hy; cases hy
  have hfold : ∀ (entries : List (String × Int)) (left : Dict String Int), (∀ e ∈ entries, 0 ≤ e.2) →
      ∃ m, entries.foldlM maxEntry left = .ok m := by
    intro entries
    induction entries with
    | nil => exact fun left _ => ⟨left, rfl⟩
    | cons entry entries ih =>
      intro left hall
      obtain ⟨m, hm⟩ := ih (left.insert entry.1 (max (left.getD entry.1 0) entry.2))
        fun e he => hall e (List.mem_cons_of_mem _ he)
      have hentry : maxEntry left entry = .ok (left.insert entry.1 (max (left.getD entry.1 0) entry.2)) :=
        if_neg (not_lt.mpr (hall entry List.mem_cons_self))
      exact ⟨m, by rw [List.foldlM_cons, hentry]; exact hm⟩
  obtain ⟨counters, hk⟩ := hfold (update.counters.getD .empty).entries (state.counters.getD .empty) hcounters
  unfold mergedState maxMap
  rw [hr, hc, hk]
  exact ⟨_, rfl⟩

/-- An update with an outcome is refused in a branch, whatever the outcome is. -/
theorem handlerChecks_outcome {state update : WorkflowStateV1} (hb : inBranch state = true) (ho : update.outcome ≠ none) :
    ∃ e, handlerChecks node state update = .error e := by
  have hmem : Channel.outcome ∈ update.channels := by
    rw [WorkflowStateV1.mem_channels]
    simpa [WorkflowStateV1.has, Option.isSome_iff_ne_none] using ho
  have hany : update.channels.any (fun c => c ≠ .results) = true := by
    rw [List.any_eq_true]
    exact ⟨.outcome, hmem, by decide⟩
  unfold handlerChecks
  split
  · exact ⟨_, rfl⟩
  · rw [if_pos (by rw [hb, hany]; rfl)]
    exact ⟨_, rfl⟩

theorem wrap_outcome_aborts {state update : WorkflowStateV1} {cancelled : Bool}
    (hext : (nodeDefinitions node.type).external = true) (hb : inBranch state = true) (ho : update.outcome ≠ none) :
    ∃ e, wrap spec node state (.handled (.returns update) cancelled) = .error e := by
  obtain ⟨e, he⟩ := @handlerChecks_outcome node state update hb ho
  unfold wrap execute
  cases guard spec node state with
  | some message => exact ⟨_, rfl⟩
  | none =>
    dsimp only
    rw [if_pos hext, he]
    exact ⟨_, rfl⟩

/-- A region's external node writes nothing but its result. -/
theorem RegionChecked.external {f j c : String} (hr : RegionChecked spec f j c) (hid : node.id ∈ region spec j c)
    (hn : node ∈ spec.nodes) (hext : (nodeDefinitions node.type).external = true) :
    Channel.results ∈ (nodeDefinitions node.type).outputs ∧ node.type ≠ .verify ∧ node.type ≠ .architect := by
  have hreduced := (hr.node_type hid hn).2.2
  refine ⟨?_, fun ht => ?_, fun ht => ?_⟩
  · cases ht : node.type
    all_goals
      rw [ht] at hext
      revert hext
      decide
  · rw [ht] at hreduced
    exact absurd (hreduced .verification (by decide)) (by decide)
  · rw [ht] at hreduced
    exact absurd (hreduced .tasks (by decide)) (by decide)

/-- The update of a node whose adapter reports its own result alone. -/
theorem wrap_report {f j c : String} (hr : RegionChecked spec f j c) (hid : node.id ∈ region spec j c) (hn : node ∈ spec.nodes)
    (hext : (nodeDefinitions node.type).external = true) {state : WorkflowStateV1} (hb : inBranch state = true)
    (hguard : guard spec node state = none) (value : Json) :
    wrap spec node state (.handled (.returns (report none (executionId state node.id) value)) false) =
      .ok { report none (executionId state node.id) value with
        counters := some (Dict.ofList [(invocationKey state node.id, visitOf state node.id)]) } := by
  obtain ⟨hout, hverify, harchitect⟩ := hr.external hid hn hext
  have hchannels : (report none (executionId state node.id) value).channels = [.results] := rfl
  have hchecks : handlerChecks node state (report none (executionId state node.id) value) = .ok () := by
    unfold handlerChecks
    rw [hchannels]
    simp [hout]
  have hresets : resets spec node state (report none (executionId state node.id) value) =
      report none (executionId state node.id) value := by
    unfold resets
    split
    · rw [if_pos hb]
    · rename_i ht
      exact absurd ht hverify
    · rfl
  have harch : architectChecks node (report none (executionId state node.id) value) = .ok () := by
    unfold architectChecks
    split
    · rename_i hconfig
      exact absurd (by simp [WorkflowNode.type, hconfig]) harchitect
    · rfl
  have hget : ∀ key, ((report none (executionId state node.id) value).results.getD .empty).get? key =
      if key = executionId state node.id then some value else none := fun key => Dict.get?_insert Dict.empty _ _ _
  have hown : ((nodeDefinitions node.type).external &&
      ((report none (executionId state node.id) value).results.getD .empty).keys.any (· ≠ executionId state node.id)) = false := by
    rw [Bool.and_eq_false_iff, List.any_eq_false]
    right
    intro key hkey
    obtain ⟨v, hv⟩ := Option.isSome_iff_exists.mp (Dict.isSome_get?.mpr hkey)
    rw [hget] at hv
    split at hv
    · rename_i he
      simp [he]
    · cases hv
  have hcompleted : completed node state (report none (executionId state node.id) value) =
      .ok { report none (executionId state node.id) value with
        counters := some (Dict.ofList [(invocationKey state node.id, visitOf state node.id)]) } := by
    unfold completed
    dsimp only
    rw [if_neg (by rw [hown]; simp), if_pos (by rw [hget, if_pos rfl]; rfl)]
    rfl
  have hcomplete : complete spec node state (report none (executionId state node.id) value) =
      .ok { report none (executionId state node.id) value with
        counters := some (Dict.ofList [(invocationKey state node.id, visitOf state node.id)]) } := by
    unfold complete
    dsimp only
    rw [hresets, harch]
    exact hcompleted
  unfold wrap execute
  rw [hguard]
  dsimp only
  rw [if_pos hext, hchecks]
  dsimp only [bind, Except.bind]
  rw [hcomplete]
  rfl

/-- Without RETRY and ITERATE edges a route sets no counter. -/
theorem chooseFrom_plain {fallback : Option WorkflowEdge} {state : WorkflowStateV1} {route : Route} :
    ∀ {edges : List WorkflowEdge}, (∀ edge ∈ edges, edge.kind ≠ .retry ∧ edge.kind ≠ .iterate) →
      chooseFrom spec snapshot node fallback state edges = .ok route → route.2 = [] := by
  intro edges
  induction edges with
  | nil =>
    intro _ h
    unfold chooseFrom at h
    split at h
    · cases h
    · cases h
      rfl
  | cons edge edges ih =>
    intro hkinds h
    obtain ⟨hretry, hiterate⟩ := hkinds edge List.mem_cons_self
    unfold chooseFrom at h
    split at h
    · exact ih (fun e he => hkinds e (List.mem_cons_of_mem _ he)) h
    · split at h
      · rename_i hk _
        exact absurd hk hretry
      · rename_i hk
        exact absurd hk hiterate
      · cases h
        rfl

/-- The node of a region whose adapter reports its own result alone leaves its update merged. -/
theorem nodeResult_report (h : Checked spec snapshot) {f j c : String} (hc : IsChild spec f j c)
    (hid : node.id ∈ region spec j c) (hn : node ∈ spec.nodes) (hext : (nodeDefinitions node.type).external = true)
    {state : WorkflowStateV1} (hb : inBranch state = true) (hnumbered : BranchNumbered state)
    (hguard : guard spec node state = none) (value : Json) :
    ∃ next, nodeResult spec snapshot node state
      (.handled (.returns (report none (executionId state node.id) value)) false) = .ok next := by
  have hr := h.regionChecked hc
  have hwrap := wrap_report hr hid hn hext hb hguard value
  -- the execution's key is new
  have hfresh : ¬ HasResult state (executionId state node.id) := by
    intro hk
    have hle := hnumbered.own node.id (visitOf state node.id) (colon_not_mem node) hk
    unfold visitOf at hle
    omega
  have hmerges : ∀ {final : WorkflowStateV1}, final.results = (report none (executionId state node.id) value).results →
      final.childResults = none →
      final.counters = some (Dict.ofList [(invocationKey state node.id, visitOf state node.id)]) →
      ∃ next, mergedState state final = .ok next := by
    intro final hresults hchild hcounters
    refine mergedState_isOk (fun key hk => ?_) hchild fun e he => ?_
    · have hkey : key = executionId state node.id := by
        unfold HasResult at hk
        rw [hresults] at hk
        have hget : ((report none (executionId state node.id) value).results.getD .empty).get? key =
          if key = executionId state node.id then some value else none := Dict.get?_insert Dict.empty _ _ _
        rw [hget] at hk
        split at hk
        · assumption
        · cases hk
      rw [hkey]
      exact hfresh
    · rw [hcounters] at he
      have heq : e = (invocationKey state node.id, visitOf state node.id) := List.mem_singleton.mp he
      rw [heq]
      have := hnumbered.nonneg (invocationKey state node.id)
      show 0 ≤ visitOf state node.id
      unfold visitOf
      omega
  cases he : nodeResult spec snapshot node state
      (.handled (.returns (report none (executionId state node.id) value)) false) with
  | ok next => exact ⟨next, rfl⟩
  | error e =>
    exfalso
    cases nodeResult_aborts h hr hn hid he with
    | call hcall =>
      rw [hwrap] at hcall
      cases hcall
    | merge hupdate hmerge =>
      rw [hwrap] at hupdate
      cases hupdate
      obtain ⟨next, hok⟩ := @hmerges { report none (executionId state node.id) value with
        counters := some (Dict.ofList [(invocationKey state node.id, visitOf state node.id)]) } rfl rfl rfl
      rw [hok] at hmerge
      cases hmerge
    | @record final _ hinvoke hmerge =>
      obtain ⟨update, hw, hfinal⟩ := invokeNode_ok hinvoke
      rw [hwrap] at hw
      cases hw
      have hok : ∃ next, mergedState state final = .ok next := by
        rcases hfinal with ⟨rfl, -⟩ | ⟨_, -, ⟨rfl, -⟩ | ⟨merged, route, -, hroute, -, -, rfl⟩⟩
        · exact hmerges rfl rfl rfl
        · exact hmerges rfl rfl rfl
        · have hplain : route.2 = [] := by
            refine chooseFrom_plain (fun edge hedge => ?_) hroute
            have hout := mem_routeEdges.mp hedge
            obtain ⟨fanout, hfn, rfl, children, maxFanout, hconfig, -⟩ := hc
            exact ⟨RegionChecked.not_retry h (h.fanoutChecked hfn hconfig) hr hid hn hout,
              hr.not_iterate h hn hid edge hout⟩
          refine hmerges rfl rfl ?_
          rw [hplain]
          rfl
      obtain ⟨next, hok⟩ := hok
      rw [hok] at hmerge
      cases hmerge

/-- A region's adapter lets its branch go on, to another node of the region or to the join, exactly when it
    reports no outcome beside its result. -/
theorem adapter_continues_iff (h : Checked spec snapshot) {f j : String} {visit : Int} {b : Branch} (hc : IsChild spec f j b.child)
    (hb : BranchKeyed spec f j visit b) (hnumbered : BranchNumbered b.state) {id : String} (hplace : b.place = .node id)
    (hnode : spec.node? id = some node) (hext : (nodeDefinitions node.type).external = true)
    (hguard : guard spec node b.state = none) (outcome : Option (Dict String Json)) (value : Json) :
    (∃ b', execBranch spec snapshot j b node
        (.handled (.returns (report outcome (executionId b.state node.id) value)) false) = .ok b' ∧
      (b'.place = .complete ∨ ∃ next ∈ region spec j b.child, b'.place = .node next)) ↔ outcome = none := by
  have hr := h.regionChecked hc
  have hin := hb.place
  rw [hplace] at hin
  obtain ⟨hn, rfl⟩ := WorkflowSpec.node?_eq_some.mp hnode
  have hbranch : inBranch b.state = true := by
    have hne : childId f visit b.child ≠ "" := by
      intro he
      have hl := congrArg String.toList he
      rw [childId_toList] at hl
      simp at hl
    unfold inBranch
    rw [hb.identity]
    simpa using hne
  constructor
  · rintro ⟨b', he, -⟩
    by_contra ho
    obtain ⟨e, hw⟩ := @wrap_outcome_aborts spec node b.state (report outcome (executionId b.state node.id) value) false
      hext hbranch ho
    unfold execBranch nodeResult invokeNode at he
    rw [hw] at he
    cases he
  · rintro rfl
    obtain ⟨next, hnext⟩ := nodeResult_report h hc hin hn hext hbranch hnumbered hguard value
    rcases @execBranch_move spec snapshot j node.id b node
      (.handled (.returns (report none (executionId b.state node.id) value)) false) hplace hnode with ⟨e, he⟩ | ⟨b', he, hmove⟩
    · have herror := execBranch_error he
      rw [hnext] at herror
      cases herror
    · refine ⟨b', he, ?_⟩
      rcases hmove.progress h hr node.id hplace hin rfl hb.live with hdone | ⟨id', hid', hmem, -⟩
      · exact .inl hdone
      · exact .inr ⟨id', hmem, hid'⟩

instance (r : Run) (action : Action) : Decidable (FailuresReported r action) :=
  match action with
  | .complete child => inferInstanceAs (Decidable (∀ b ∈ r.branches, b.child = child →
      (∃ e ∈ r.log, e.branch = some child ∧ e.failed = true ∧ e.within b.state = true) →
        ∃ result ∈ ownResults b.state, failedResult result.2 = true))
  | .start => .isTrue trivial
  | .exec _ => .isTrue trivial
  | .child _ _ => .isTrue trivial
  | .join => .isTrue trivial

/-- In runs without a cancellation whose failed branches complete with a failing result of their own, a
    deriving FINALIZE that follows a failure of a region does not complete the run; and in every run a
    region's adapter lets its branch go on exactly when it reports no outcome beside its result. -/
theorem parallel_failures_kept {digests : Digests} {spec : WorkflowSpec} {snapshot : WorkflowResolvedSnapshot}
    (h : (validateWorkflow digests spec (some snapshot)).1 = true) :
    (∀ r, Steps.ReachIf (step (normalizeWorkflow spec) snapshot)
        (fun r action => uncancelled action = true ∧ FailuresReported r action) Run.init r →
      ∀ e ∈ r.log, e.branch ≠ none → e.failed = true → ∀ id node, r.place = .node id →
        (normalizeWorkflow spec).node? id = some node → node.config = .finalize .derive →
        finalStatus r.state .derive ≠ .ok "completed") ∧
    ∀ r, Steps.ReachIf (step (normalizeWorkflow spec) snapshot) (fun _ action => uncancelled action = true) Run.init r →
      ∀ f j branches, r.place = .parallel f j branches → ∀ b ∈ branches, ∀ id node, b.place = .node id →
        (normalizeWorkflow spec).node? id = some node → (nodeDefinitions node.type).external = true →
        guard (normalizeWorkflow spec) node b.state = none → ∀ outcome value,
        (∃ b', execBranch (normalizeWorkflow spec) snapshot j b node
            (.handled (.returns (report outcome (executionId b.state node.id) value)) false) = .ok b' ∧
          (b'.place = .complete ∨ ∃ next ∈ region (normalizeWorkflow spec) j b.child, b'.place = .node next)) ↔
        outcome = none := by
  have hc := checked_of_valid h
  have hinit : Joining (normalizeWorkflow spec) Run.init := ⟨⟨by simp [Run.init], fun _ _ hv => nomatch hv⟩, rfl⟩
  refine ⟨fun r hr e he hb hf id node hplace _ _ => ?_, fun r hr f j branches hplace b hb id node hbplace hnode hext hguard => ?_⟩
  · have hkept : Joining (normalizeWorkflow spec) r ∧ FailuresKept r :=
      hr.invariant (fun r => Joining (normalizeWorkflow spec) r ∧ FailuresKept r) ⟨hinit, fun e he => absurd he List.not_mem_nil⟩ fun _ _ _ hk ha hs =>
        ⟨hk.1.move hc ha.1 (step_move hs), hk.2.move hc hk.1 ha.1 ha.2 (step_move hs)⟩
    rcases hkept.2 e he hb hf with ⟨error, hp⟩ | hfailing | ⟨f, j, branches, hp, -⟩
    · rw [hplace] at hp
      cases hp
    · exact finalStatus_ne_completed hfailing
    · rw [hplace] at hp
      cases hp
  · have hboth : Joining (normalizeWorkflow spec) r ∧ Numbered r := by
      refine hr.invariant (fun r => Joining (normalizeWorkflow spec) r ∧ Numbered r) ⟨hinit, fun _ => le_refl _, fun _ _ _ _ _ _ _ hk => ?_, fun b hb => absurd hb List.not_mem_nil⟩
        fun _ _ _ hk ha hs => ⟨hk.1.move hc ha (step_move hs), hk.2.step hk.1 ha hs⟩
      cases hk
    have hrunning := hboth.1.2
    rw [hplace] at hrunning
    have hrunning : Running (normalizeWorkflow spec) f j branches r.state := hrunning
    have hmem : b ∈ r.branches := by
      unfold Run.branches
      rw [hplace]
      exact hb
    exact adapter_continues_iff hc (hrunning.isChild hb) (hrunning.branches b hb) (hboth.2.branches b hmem) hbplace hnode hext hguard

/-- Two workers side by side, with nothing to verify. -/
def pairedBuilds : WorkflowSpec where
  entrypoint := "split"
  defaults := { sampleDefaults with verification := none }
  nodes := [{ id := "split", config := .fanout ["left", "right"] "merge" 2 }, { id := "left", config := .worker },
    { id := "right", config := .worker }, { id := "merge", config := .join "split" },
    { id := "done", config := .finalize .derive }]
  edges := pairedRouters.edges
  node_ids := by decide
  edge_ids := by decide
  entrypoint_mem := by decide
  endpoints_mem := by decide

/-- `pairedBuilds` with a second worker on the left. -/
def auditedBuilds : WorkflowSpec where
  entrypoint := "split"
  defaults := { sampleDefaults with verification := none }
  nodes := { id := "audit", config := .worker } :: pairedBuilds.nodes
  edges := [{ id := "e1", source := "split", target := "left", kind := .always },
    { id := "e2", source := "split", target := "right", kind := .always },
    { id := "e3", source := "left", target := "audit", kind := .always },
    { id := "e4", source := "audit", target := "merge", kind := .always },
    { id := "e5", source := "right", target := "merge", kind := .always },
    { id := "e6", source := "merge", target := "done", kind := .always }]
  node_ids := by decide
  edge_ids := by decide
  entrypoint_mem := by decide
  endpoints_mem := by decide

/-- The left worker times out and the audit reports it as its result. -/
def auditedFailure : List Action :=
  [.start, .exec (.handled .breaks false), .child "left" (.handled (.raises .infrastructureTimeout) false),
    .child "left" (.handled (.returns (report none "split:1:left:audit:1"
      (.obj [("status", .str "failed")]))) false), .complete "left",
    .child "right" (.handled (.returns {}) false), .complete "right", .join, .exec (.handled .breaks false)]

theorem parallel_failures_kept_auditedBuilds :
    (validateWorkflow sampleDigests auditedBuilds (some sampleSnapshot)).1 = true ∧
    ∃ r, Steps.ReachIf (step (normalizeWorkflow auditedBuilds) sampleSnapshot)
        (fun r action => uncancelled action = true ∧ FailuresReported r action) Run.init r ∧
      (∃ e ∈ r.log, e.branch = some "left" ∧ e.failed = true) ∧ finalStatus r.state .derive ≠ .ok "completed" := by
  have h : (validateWorkflow sampleDigests auditedBuilds (some sampleSnapshot)).1 = true := by decide +kernel
  refine ⟨h, ?_⟩
  have hrun : (Steps.runIf (step (normalizeWorkflow auditedBuilds) sampleSnapshot)
      (fun r action => uncancelled action = true ∧ FailuresReported r action) Run.init auditedFailure).any
        (fun r => r.node? == some "done" &&
          r.log.any fun e => e.branch == some "left" && e.failed) = true := by
    decide +kernel
  obtain ⟨r, hr, hcheck⟩ := (Option.any_eq_true _ _).mp hrun
  rw [Bool.and_eq_true, List.any_eq_true] at hcheck
  obtain ⟨hplace, e, he, hleft⟩ := hcheck
  rw [Bool.and_eq_true, beq_iff_eq] at hleft
  have hreach := Steps.runIf_reachIf _ hr
  have hdone : r.place = .node "done" := Run.node?_eq_some.mp (beq_iff_eq.mp hplace)
  exact ⟨r, hreach, ⟨e, he, hleft⟩,
    (parallel_failures_kept h).1 r hreach e he (by simp [hleft.1]) hleft.2 "done" _ hdone rfl rfl⟩

/-- The left worker times out and nothing else reports it. -/
def lostFailure : List Action :=
  [.start, .exec (.handled .breaks false), .child "left" (.handled (.raises .infrastructureTimeout) false), .complete "left",
    .child "right" (.handled (.returns {}) false), .complete "right", .join, .exec (.handled .breaks false)]

/-- The left worker reports its success. -/
def reportedSuccess : List Action :=
  [.start, .exec (.handled .breaks false), .child "left" (.handled (.returns (report
    (some (Dict.ofList [("status", .str "succeeded")])) "split:1:left:left:1" (.obj []))) false)]

/-- A worker of a region times out and the run completes; one that reports its success aborts the run. -/
theorem parallel_failure_lost :
    (validateWorkflow sampleDigests pairedBuilds (some sampleSnapshot)).1 = true ∧
    ((Steps.runIf (step (normalizeWorkflow pairedBuilds) sampleSnapshot) (fun _ action => uncancelled action = true)
      Run.init lostFailure).any fun r =>
        (match r.place with | .node id => id == "done" | _ => false) &&
          r.log.any (fun e => e.branch == some "left" && e.failed) &&
          (match finalStatus r.state .derive with | .ok status => status == "completed" | .error _ => false)) = true ∧
    ((Steps.runIf (step (normalizeWorkflow pairedBuilds) sampleSnapshot) (fun _ action => uncancelled action = true)
      Run.init reportedSuccess).any fun r => match r.place with | .raised _ => true | _ => false) = true := by
  refine ⟨by decide +kernel, by decide +kernel, by decide +kernel⟩

end Jarvis.Workflows
