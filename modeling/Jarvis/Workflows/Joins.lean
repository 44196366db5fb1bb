/-
  Jarvis.Workflows.Joins — a fan-out's children always complete and join.

  A child that is not cancelled executes nodes of its own region, of ever smaller rank, until
  it is routed to the join; its completion marker records its identity and the results under
  it. Identities are `fanout:visit:child` with colon-free parts, so a key names one child,
  and the keys a join expects are those of the children of its last activation. The main
  graph enters a join only when all of these have completed.
-/
import Jarvis.Workflows.Separation
import Jarvis.Workflows.Supersteps
import Jarvis.Workflows.Trace

namespace Jarvis.Workflows

open Jarvis.Explore (Walk)

variable {spec : WorkflowSpec} {snapshot : WorkflowResolvedSnapshot}

/-! ## Identities -/

theorem colon_not_mem_repr (n : Nat) : ':' ∉ n.repr.toList := by
  rw [Nat.toList_repr]
  intro h
  have hdigit := Nat.isDigit_of_mem_toDigits (by decide) (by decide) h
  exact absurd hdigit (by decide)

theorem colon_not_mem_toString (v : Int) : ':' ∉ (toString v).toList := by
  rw [Int.toString_eq_repr]
  cases v with
  | ofNat n => exact colon_not_mem_repr n
  | negSucc n =>
    have hrepr : (Int.negSucc n).repr = "-" ++ (n + 1).repr := rfl
    rw [hrepr, String.toList_append, List.mem_append, not_or]
    exact ⟨by decide, colon_not_mem_repr _⟩

/-- Lists are split at their first `a` in one way. -/
theorem append_cons_inj {α : Type} {a : α} : ∀ {x y z t : List α}, a ∉ x → a ∉ y → x ++ a :: z = y ++ a :: t → x = y ∧ z = t := by
  intro x
  induction x with
  | nil =>
    intro y z t _ hy h
    cases y with
    | nil => exact ⟨rfl, (List.cons.inj h).2⟩
    | cons b y => exact absurd (by rw [(List.cons.inj h).1]; exact List.mem_cons_self) hy
  | cons b x ih =>
    intro y z t hx hy h
    cases y with
    | nil => exact absurd (by rw [← (List.cons.inj h).1]; exact List.mem_cons_self) hx
    | cons c y =>
      obtain ⟨hbc, hrest⟩ := List.cons.inj h
      obtain ⟨hxy, hzt⟩ := ih (fun h => hx (List.mem_cons_of_mem _ h)) (fun h => hy (List.mem_cons_of_mem _ h)) hrest
      exact ⟨by rw [hbc, hxy], hzt⟩

theorem isPrefixOf_iff {p s : String} : p.isPrefixOf s = true ↔ p.toList <+: s.toList := by
  simp [String.isPrefixOf]

theorem childId_toList (f : String) (v : Int) (c : String) :
    (childId f v c).toList = f.toList ++ ':' :: ((toString v).toList ++ ':' :: c.toList) := by
  have hcolon : ":".toList = [':'] := rfl
  simp [childId, String.toList_append, hcolon]

/-- An identity that starts with a fan-out and a visit is of them. -/
theorem childId_prefix {f f' c : String} {v v' : Int} (hf : ':' ∉ f.toList) (hf' : ':' ∉ f'.toList)
    (h : (f ++ ":" ++ toString v ++ ":").isPrefixOf (childId f' v' c) = true) :
    f = f' ∧ childId f' v' c = childId f v c := by
  have hcolon : ":".toList = [':'] := rfl
  obtain ⟨rest, hrest⟩ := isPrefixOf_iff.mp h
  rw [childId_toList] at hrest
  simp only [String.toList_append, hcolon, List.append_assoc, List.singleton_append] at hrest
  obtain ⟨hff, hrest⟩ := append_cons_inj hf hf' hrest
  obtain ⟨hvv, -⟩ := append_cons_inj (colon_not_mem_toString v) (colon_not_mem_toString v') hrest
  have hfanout := String.toList_inj.mp hff
  subst hfanout
  exact ⟨rfl, by rw [childId, childId, String.toList_inj.mp hvv]⟩

theorem childId_inj {f f' c c' : String} {v v' : Int} (hf : ':' ∉ f.toList) (hf' : ':' ∉ f'.toList)
    (h : childId f v c = childId f' v' c') : f = f' ∧ c = c' := by
  have hl := congrArg String.toList h
  rw [childId_toList, childId_toList] at hl
  obtain ⟨hff, hrest⟩ := append_cons_inj hf hf' hl
  obtain ⟨-, hcc⟩ := append_cons_inj (colon_not_mem_toString v) (colon_not_mem_toString v') hrest
  exact ⟨String.toList_inj.mp hff, String.toList_inj.mp hcc⟩

theorem toString_int_inj {v w : Int} (h : toString v = toString w) : v = w := by
  have hnat : ∀ {m n : Nat}, m.repr = n.repr → m = n := by
    intro m n hmn
    have hdigits : Nat.toDigits 10 m = Nat.toDigits 10 n := by
      rw [← Nat.toList_repr, ← Nat.toList_repr, hmn]
    rw [← @Nat.ofDigitChars_ten_toDigits m, hdigits, Nat.ofDigitChars_ten_toDigits]
  have hneg : ∀ {m n : Nat}, m.repr ≠ "-" ++ n.repr := by
    intro m n hmn
    have hmem : '-' ∈ m.repr.toList := by
      rw [hmn, String.toList_append]
      exact List.mem_append_left _ (by decide)
    rw [Nat.toList_repr] at hmem
    exact absurd (Nat.isDigit_of_mem_toDigits (by decide) (by decide) hmem) (by decide)
  rw [Int.toString_eq_repr, Int.toString_eq_repr] at h
  cases v with
  | ofNat m =>
    cases w with
    | ofNat n => rw [hnat h]
    | negSucc n => exact (hneg h).elim
  | negSucc m =>
    cases w with
    | ofNat n => exact (hneg h.symm).elim
    | negSucc n =>
      have hsame : (m + 1).repr = (n + 1).repr := by
        have hl : ("-" ++ (m + 1).repr).toList = ("-" ++ (n + 1).repr).toList := congrArg String.toList h
        rw [String.toList_append, String.toList_append] at hl
        exact String.toList_inj.mp (List.append_cancel_left hl)
      rw [Nat.succ.inj (hnat hsame)]

/-- Lists are split at their last `a` in one way. -/
theorem append_cons_inj_right {α : Type} {a : α} {x y z t : List α} (hz : a ∉ z) (ht : a ∉ t)
    (h : x ++ a :: z = y ++ a :: t) : x = y ∧ z = t := by
  have hr := congrArg List.reverse h
  simp only [List.reverse_append, List.reverse_cons, List.append_assoc, List.singleton_append] at hr
  obtain ⟨hzt, hxy⟩ := append_cons_inj (by simpa using hz) (by simpa using ht) hr
  exact ⟨List.reverse_injective hxy, List.reverse_injective hzt⟩

/-- The key of an execution: whose, which node's, which visit. -/
def execKey (identity id : String) (visit : Int) : String := identity ++ ":" ++ id ++ ":" ++ toString visit

theorem execKey_inj {i i' id id' : String} {v v' : Int} (hid : ':' ∉ id.toList) (hid' : ':' ∉ id'.toList)
    (h : execKey i id v = execKey i' id' v') : i = i' ∧ id = id' ∧ v = v' := by
  have hcolon : ":".toList = [':'] := rfl
  have hl : (i.toList ++ ':' :: id.toList) ++ ':' :: (toString v).toList =
      (i'.toList ++ ':' :: id'.toList) ++ ':' :: (toString v').toList := by
    simpa [execKey, String.toList_append, hcolon] using congrArg String.toList h
  obtain ⟨hrest, hv⟩ := append_cons_inj_right (colon_not_mem_toString v) (colon_not_mem_toString v') hl
  obtain ⟨hi, hids⟩ := append_cons_inj_right hid hid' hrest
  exact ⟨String.toList_inj.mp hi, String.toList_inj.mp hids, toString_int_inj (String.toList_inj.mp hv)⟩

theorem IsChild.colon {f j c : String} (h : IsChild spec f j c) : ':' ∉ f.toList := by
  obtain ⟨node, -, rfl, -⟩ := h
  exact colon_not_mem node

/-- The visit counter of a fan-out. -/
def visitKey (f : String) : String := "visit:main:" ++ f

theorem invocationKey_main {state : WorkflowStateV1} (h : state.childIdentity = none) (id : String) :
    invocationKey state id = visitKey id := by
  simp [invocationKey, h, visitKey]

theorem routeKey_ne {key : String} (h : routeKey key) (f : String) : key ≠ visitKey f := by
  intro he
  have hl := congrArg (fun s => s.toList.head?) he
  obtain ⟨id, cls, rfl⟩ | ⟨k, rfl | rfl⟩ := h
  all_goals simp [visitKey, retryKey, iterateKey, progressKey, String.toList_append] at hl

/-- A child's visits have counters of their own. -/
theorem invocationKey_child {state : WorkflowStateV1} {f c : String} {v : Int}
    (h : state.childIdentity = some (childId f v c)) (hf : ':' ∉ f.toList) (id : String) {g : String}
    (hg : ':' ∉ g.toList) : invocationKey state id ≠ visitKey g := by
  intro he
  have hmain : visitKey g = "visit:" ++ ("main:" ++ g) := by simp [visitKey, ← String.append_assoc]
  rw [invocationKey, h, Option.getD_some, hmain, String.append_assoc, String.append_assoc] at he
  have hl := congrArg String.toList he
  simp only [String.toList_append, childId_toList, List.append_cancel_left_eq] at hl
  rw [List.append_assoc] at hl
  obtain ⟨-, hrest⟩ := append_cons_inj (x := f.toList) (y := ['m', 'a', 'i', 'n']) hf (by decide) hl
  have hend : ((toString v).toList ++ ':' :: c.toList) ++ (":".toList ++ id.toList) = g.toList := hrest
  exact hg (by rw [← hend]; simp)

/-! ## What a node leaves in the reduced channels -/

/-- The attempt runs without a cancellation. -/
def uncancelledAttempt : Attempt → Bool
  | .cancelledBefore => false
  | .handled .cancels _ => false
  | .handled _ cancelled => !cancelled

def uncancelled : Action → Bool
  | .exec attempt => uncancelledAttempt attempt
  | .child _ attempt => uncancelledAttempt attempt
  | _ => true

theorem wrap_uncancelled {node : WorkflowNode} {state update : WorkflowStateV1} {attempt : Attempt}
    (h : wrap spec node state attempt = .ok update) (ha : uncancelledAttempt attempt = true) : update.cancelled = none := by
  cases attempt with
  | cancelledBefore => cases ha
  | handled result cancelled =>
    have hflag : cancelled = false := by
      cases result with
      | cancels => cases ha
      | _ => simpa [uncancelledAttempt] using ha
    subst hflag
    have hresult : result ≠ .cancels := by
      rintro rfl
      cases ha
    obtain ⟨u, hu, hrest⟩ := bind_eq_ok.mp h
    obtain ⟨_, -, hrest⟩ := bind_eq_ok.mp hrest
    cases hrest
    simp only [Bool.false_eq_true, if_false]
    cases he : execute spec node state result with
    | finished update =>
      rw [he] at hu
      cases hu
      exact (finished_writes he).2.1
    | failed cls =>
      rw [he] at hu
      simp only [classify] at hu
      split at hu
      · cases hu
      · cases hu
        rfl
    | cancelled =>
      unfold execute at he
      split at he
      · cases he
      · split at he
        · cases result with
          | cancels => exact absurd rfl hresult
          | returns raw =>
            simp only at he
            unfold Executed.of at he
            split at he
            all_goals cases he
          | raises cls => cases he
          | breaks => cases he
        · unfold Executed.of at he
          split at he
          all_goals cases he
    | refused message => rw [he] at hu; cases hu
    | broken error => rw [he] at hu; cases hu

/-- The children a fan-out announces. -/
def announced (node : WorkflowNode) (state : WorkflowStateV1) : Option (List String) :=
  match node.config with
  | .fanout children _ _ => some (children.map fun child => childId node.id (visitOf state node.id) child)
  | _ => none

/-- The channels of the parallel bookkeeping in an update. -/
structure Marks (node : WorkflowNode) (state update : WorkflowStateV1) : Prop where
  childResults : update.childResults = none
  completed : update.completedChildren = none
  expected : update.expectedChildren = none ∨ update.expectedChildren = announced node state
  finished : update.cancelled ≠ some true →
    update.counters = some (Dict.ofList [(invocationKey state node.id, visitOf state node.id)]) ∧
    (node.type = .fanout → update.expectedChildren = announced node state)

theorem raw_marks {node : WorkflowNode} {state raw : WorkflowStateV1} {result : HandlerResult}
    (h : (nodeDefinitions node.type).external = true ∧ result = .returns raw ∧ handlerChecks node state raw = .ok () ∨
      (nodeDefinitions node.type).external = false ∧ internal state node = .ok raw) :
    raw.childResults = none ∧ raw.completedChildren = none ∧ raw.expectedChildren = announced node state := by
  rcases h with ⟨hexternal, -, hchecks⟩ | ⟨-, hinternal⟩
  · have habsent : ∀ c, c ∉ (nodeDefinitions node.type).outputs ++ [.node, .outcome] → raw.has c = false := by
      intro c hc
      rw [← Bool.not_eq_true]
      exact fun hp => hc (handlerChecks_ok hchecks hp).1
    have hnone : announced node state = none := by
      unfold announced
      split
      · rename_i hconfig
        simp [WorkflowNode.type, hconfig, nodeDefinitions] at hexternal
      · rfl
    have hchild := habsent .childResults (by cases node.type <;> decide)
    have hcompleted := habsent .completedChildren (by cases node.type <;> decide)
    have hexpected : raw.has .expectedChildren = false := by
      refine habsent .expectedChildren ?_
      intro hin
      cases ht : node.type
      all_goals
        rw [ht] at hin hexternal
        revert hin hexternal
        decide
    rw [hnone]
    exact ⟨by simpa [WorkflowStateV1.has] using hchild, by simpa [WorkflowStateV1.has] using hcompleted,
      by simpa [WorkflowStateV1.has] using hexpected⟩
  · unfold internal at hinternal
    unfold announced
    split at hinternal
    · rename_i hconfig
      unfold dispatch at hinternal
      dsimp only at hinternal
      rw [hconfig]
      split at hinternal
      · obtain ⟨ready, -, hready⟩ := bind_eq_ok.mp hinternal
        cases hready
        exact ⟨rfl, rfl, rfl⟩
      · cases hinternal
        exact ⟨rfl, rfl, rfl⟩
    · rename_i hconfig
      rw [hconfig]
      cases hinternal
      exact ⟨rfl, rfl, rfl⟩
    · rename_i hconfig
      rw [hconfig]
      unfold joinUpdate at hinternal
      dsimp only at hinternal
      split at hinternal
      · cases hinternal
      · cases hinternal
        exact ⟨rfl, rfl, rfl⟩
    · rename_i hconfig
      rw [hconfig]
      obtain ⟨status, -, hstatus⟩ := bind_eq_ok.mp hinternal
      cases hstatus
      exact ⟨rfl, rfl, rfl⟩
    · rename_i hd hf hj hz
      cases hinternal
      refine ⟨rfl, rfl, ?_⟩
      split
      · rename_i hconfig
        exact absurd hconfig (hf _ _ _)
      · rfl

theorem complete_marks {node : WorkflowNode} {state raw update : WorkflowStateV1}
    (h : complete spec node state raw = .ok update) :
    update.childResults = raw.childResults ∧ update.completedChildren = raw.completedChildren ∧
    update.expectedChildren = raw.expectedChildren ∧
    update.counters = some (Dict.ofList [(invocationKey state node.id, visitOf state node.id)]) := by
  have hresets : (resets spec node state raw).childResults = raw.childResults ∧
      (resets spec node state raw).completedChildren = raw.completedChildren ∧
      (resets spec node state raw).expectedChildren = raw.expectedChildren := by
    unfold resets
    split
    · split
      all_goals exact ⟨rfl, rfl, rfl⟩
    all_goals exact ⟨rfl, rfl, rfl⟩
  unfold complete at h
  obtain ⟨_, -, h⟩ := bind_eq_ok.mp h
  unfold completed at h
  dsimp only at h
  split at h
  · cases h
  · cases h
    exact ⟨hresets.1, hresets.2.1, hresets.2.2, rfl⟩

theorem wrap_marks {node : WorkflowNode} {state update : WorkflowStateV1} {attempt : Attempt}
    (h : wrap spec node state attempt = .ok update) : Marks node state update := by
  rcases wrap_ok h with rfl | ⟨result, cls, -, he, rfl⟩ | ⟨result, -, he⟩
  · exact ⟨rfl, rfl, .inl rfl, fun hc => absurd rfl hc⟩
  · refine ⟨rfl, rfl, .inl rfl, fun _ => ⟨rfl, fun ht => ?_⟩⟩
    -- an internal node does not fail with a class
    unfold execute at he
    split at he
    · cases he
    · rw [ht] at he
      simp only [nodeDefinitions, Bool.false_eq_true, if_false] at he
      unfold Executed.of at he
      split at he
      all_goals cases he
  · obtain ⟨-, raw, hcomplete, hraw⟩ := execute_finished he
    obtain ⟨hchild, hcompleted, hexpected, hcounters⟩ := complete_marks hcomplete
    obtain ⟨rchild, rcompleted, rexpected⟩ := raw_marks hraw
    exact ⟨hchild.trans rchild, hcompleted.trans rcompleted, .inr (hexpected.trans rexpected),
      fun _ => ⟨hcounters, fun _ => hexpected.trans rexpected⟩⟩

/-! ## The recorded children -/

/-- The key is an identity of a fan-out's child. -/
def Names (spec : WorkflowSpec) (key : String) : Prop := ∃ f j c v, IsChild spec f j c ∧ key = childId f v c

/-- The results recorded for a child lie under its identity. -/
def Under (key : String) (value : Json) : Prop :=
  ∃ values, value = .obj values ∧ ∀ entry ∈ values, (key ++ ":").isPrefixOf entry.1 = true

/-- The recorded children are children of fan-outs, with results of their own. -/
structure Keyed (spec : WorkflowSpec) (state : WorkflowStateV1) : Prop where
  expected : ∀ key ∈ state.expectedChildren.getD [], Names spec key
  results : ∀ key value, (state.childResults.getD .empty).get? key = some value → Names spec key ∧ Under key value

theorem Keyed.reduced {state update next : WorkflowStateV1} (hk : Keyed spec state) (hr : Reduced state update next)
    (hu : Keyed spec update) : Keyed spec next := by
  obtain ⟨results, hresults, hmerge⟩ := hr.childResults
  refine ⟨fun key hkey => ?_, fun key value hv => ?_⟩
  · rw [hr.expected, Option.getD_some, mem_setUnion] at hkey
    exact hkey.elim (hk.expected key) (hu.expected key)
  · rw [hresults, Option.getD_some] at hv
    exact ((mergeById_ok hmerge key).1 value hv).elim (hk.results key value) (hu.results key value)

theorem Marks.keyed {node : WorkflowNode} {state update : WorkflowStateV1} (h : Marks node state update)
    (hn : node ∈ spec.nodes) : Keyed spec update := by
  refine ⟨fun key hkey => ?_, fun key value hv => ?_⟩
  · rcases h.expected with hnone | hannounced
    · rw [hnone] at hkey
      cases hkey
    · rw [hannounced] at hkey
      unfold announced at hkey
      split at hkey
      · rename_i children joinId maxFanout hconfig
        obtain ⟨child, hchild, rfl⟩ := List.mem_map.mp hkey
        exact ⟨node.id, joinId, child, _, ⟨node, hn, rfl, children, maxFanout, hconfig, hchild⟩, rfl⟩
      · cases hkey
  · rw [h.childResults] at hv
    cases hv

theorem Left.keyed {node : WorkflowNode} {state update next : WorkflowStateV1} {attempt : Attempt}
    (left : Left spec snapshot node state attempt update next) (hn : node ∈ spec.nodes) (hk : Keyed spec state) :
    Keyed spec next :=
  hk.reduced left.reduced ((wrap_marks left.wrapped).keyed hn)

/-- What the merge of an update leaves of a counter it does not raise. -/
theorem Reduced.counter_eq {state update next : WorkflowStateV1} (h : Reduced state update next) {f : String}
    (hu : ∀ value, (update.counters.getD .empty).get? (visitKey f) = some value → value ≤ state.counter (visitKey f)) :
    next.counter (visitKey f) = state.counter (visitKey f) := by
  obtain ⟨counters, m, hm, hkeys, hmax⟩ := h.counters
  have hget := Dict.get?_update_of_not_mem counters (update.counters.getD .empty)
    fun entry he => routeKey_ne (hkeys entry he) f
  have hvalue := maxMap_getD hmax (visitKey f)
  rw [hget] at hvalue
  simp only [WorkflowStateV1.counter, hm, Option.getD_some]
  rw [hvalue]
  cases hv : (update.counters.getD .empty).get? (visitKey f) with
  | none => rfl
  | some value => exact max_eq_left (hu value hv)

/-- A branch of an activation of its fan-out. -/
structure BranchKeyed (spec : WorkflowSpec) (f j : String) (visit : Int) (b : Branch) : Prop where
  keyed : Keyed spec b.state
  live : b.state.cancelled ≠ some true
  identity : b.state.childIdentity = some (childId f visit b.child)
  counter : b.state.counter (visitKey f) = visit
  place : match b.place with
    | .node id => id ∈ region spec j b.child
    | .complete => True
    | .ended => childId f visit b.child ∈ b.state.completedChildren.getD [] ∧
        ((b.state.childResults.getD .empty).get? (childId f visit b.child)).isSome

/-- Without a cancellation, a node of a region routes its branch to a node of smaller rank or to
    the completion marker. -/
theorem BranchMove.progress (h : Checked spec snapshot) {f j : String} {b b' : Branch} {action : Action}
    {log : List Execution} (hr : RegionChecked spec f j b.child) (hm : BranchMove spec snapshot j b action log b')
    (id : String) (hplace : b.place = .node id) (hid : id ∈ region spec j b.child) (ha : uncancelled action = true)
    (hlive : b.state.cancelled ≠ some true) :
    b'.place = .complete ∨ ∃ next, b'.place = .node next ∧ next ∈ region spec j b.child ∧
      regionRank spec j b.child next < regionRank spec j b.child id := by
  cases hm with
  | @finish id' node _ update next hplace' hnode left hend =>
    rw [hplace] at hplace'
    cases hplace'
    obtain ⟨hn, rfl⟩ := WorkflowSpec.node?_eq_some.mp hnode
    rcases hend with hc | he
    · rw [left.cancelled, wrap_uncancelled left.wrapped ha] at hc
      exact absurd hc hlive
    · obtain ⟨edge, hedge⟩ := List.exists_mem_of_ne_nil _ (hr.routes hid hn).1
      have := mem_routeEdges.mpr hedge
      rw [he] at this
      cases this
  | @route id' node _ _ _ _ route hplace' hnode left hc hroute =>
    rw [hplace] at hplace'
    cases hplace'
    obtain ⟨hn, rfl⟩ := WorkflowSpec.node?_eq_some.mp hnode
    obtain ⟨edge, ht⟩ := h.takes hn (hr.node_type hid hn).1 hroute
    by_cases hj : route.1 = j
    · exact .inl (by simp [hj])
    · have hout : edge ∈ spec.outgoing node.id := List.mem_filter.mpr ⟨ht.mem, decide_eq_true ht.source⟩
      have hin := ((hr.routes hid hn).2 edge hout).resolve_right fun he => hj (ht.target.symm.trans he)
      have hlt := hr.regionRank_lt ht.mem (by rw [ht.source]; exact hid) hin
      rw [ht.source, ht.target] at hlt
      rw [ht.target] at hin
      exact .inr ⟨route.1, by simp [hj], hin, hlt⟩
  | nested hplace' hnode hf =>
    rw [hplace] at hplace'
    cases hplace'
    obtain ⟨hn, rfl⟩ := WorkflowSpec.node?_eq_some.mp hnode
    exact absurd hf (hr.node_type hid hn).1
  | complete hplace' =>
    rw [hplace] at hplace'
    cases hplace'

/-- What a node keeps of its branch. -/
theorem BranchKeyed.left {f j : String} {visit : Int} {b : Branch} (hb : BranchKeyed spec f j visit b)
    (hf : ':' ∉ f.toList) {node : WorkflowNode} (hn : node ∈ spec.nodes) {update next : WorkflowStateV1}
    {attempt : Attempt} (left : Left spec snapshot node b.state attempt update next)
    (ha : uncancelledAttempt attempt = true) :
    Keyed spec next ∧ next.cancelled ≠ some true ∧ next.childIdentity = some (childId f visit b.child) ∧
      next.counter (visitKey f) = visit := by
  have hnone := wrap_uncancelled left.wrapped ha
  have hlive : next.cancelled ≠ some true := by
    rw [left.cancelled, hnone]
    exact hb.live
  refine ⟨left.keyed hn hb.keyed, hlive, left.childIdentity.trans hb.identity, ?_⟩
  rw [left.reduced.counter_eq, hb.counter]
  intro value hv
  rw [((wrap_marks left.wrapped).finished (by simp [hnone])).1, Option.getD_some] at hv
  have hne := invocationKey_child hb.identity hf node.id hf
  simp [Dict.ofList, Dict.update, Dict.get?_insert, Ne.symm hne] at hv

theorem completeUpdate_keyed {f j c : String} {visit : Int} (hc : IsChild spec f j c) {state : WorkflowStateV1}
    (hs : state.childIdentity = some (childId f visit c)) : Keyed spec (completeUpdate state) := by
  refine ⟨by simp [completeUpdate], fun key value hv => ?_⟩
  simp only [completeUpdate, hs, Option.getD_some, Dict.ofList, Dict.update, List.foldl_cons, List.foldl_nil,
    Dict.get?_insert, Dict.get?_empty] at hv
  split at hv
  · rename_i hkey
    cases hv
    rw [hkey]
    refine ⟨⟨f, j, c, visit, hc, rfl⟩, _, rfl, fun entry he => ?_⟩
    exact (List.mem_filter.mp he).2
  · cases hv

theorem BranchKeyed.move (h : Checked spec snapshot) {f j : String} {visit : Int} {b b' : Branch} {action : Action}
    {log : List Execution} (hc : IsChild spec f j b.child) (hb : BranchKeyed spec f j visit b)
    (hm : BranchMove spec snapshot j b action log b') (ha : uncancelled action = true) :
    b'.child = b.child ∧ BranchKeyed spec f j visit b' := by
  have hr := h.regionChecked hc
  have hplace := hb.place
  have hprogress := hm.progress h hr
  cases hm with
  | @finish id node _ update next hbplace hnode left hend =>
    rw [hbplace] at hplace
    obtain hp | ⟨_, hp, -⟩ := hprogress _ hbplace hplace ha hb.live
    all_goals cases hp
  | @route id node _ _ next _ route hbplace hnode left _ hroute =>
    rw [hbplace] at hplace
    obtain ⟨hn, rfl⟩ := WorkflowSpec.node?_eq_some.mp hnode
    obtain ⟨hkeyed, hlive, hident, hvisit⟩ := hb.left hc.colon hn left ha
    refine ⟨rfl, hkeyed, hlive, hident, hvisit, ?_⟩
    obtain hp | ⟨id', hp, hin, -⟩ := hprogress _ hbplace hplace ha hb.live
    · rw [hp]
      trivial
    · rw [hp]
      exact hin
  | nested hbplace hnode hf =>
    rw [hbplace] at hplace
    obtain ⟨hn, rfl⟩ := WorkflowSpec.node?_eq_some.mp hnode
    exact absurd hf (hr.node_type hplace hn).1
  | @complete next hbplace hmerged =>
    have hreduced : Reduced b.state (completeUpdate b.state) next :=
      reduced_of_merged [] hmerged rfl rfl rfl rfl (by simp)
    obtain ⟨-, -, -, -, hcancelled, hident, -⟩ := mergedState_ok hmerged
    obtain ⟨results, hresults, hmerge⟩ := hreduced.childResults
    refine ⟨rfl, hb.keyed.reduced hreduced (completeUpdate_keyed hc hb.identity), ?_, ?_, ?_, ?_, ?_⟩
    · rw [hcancelled]
      exact hb.live
    · rw [hident]
      exact hb.identity
    · rw [hreduced.counter_eq, hb.counter]
      intro value hv
      cases hv
    · rw [hreduced.completed, Option.getD_some, mem_setUnion]
      exact .inr (by simp [completeUpdate, hb.identity])
    · rw [hresults, Option.getD_some]
      refine (mergeById_ok hmerge _).2 (.inr ?_)
      simp [completeUpdate, hb.identity, Dict.ofList, Dict.update]

/-! ## Runs -/

/-- Every child of the fan-out's last activation is expected, has completed and has results. -/
def Arrived (spec : WorkflowSpec) (f : String) (state : WorkflowStateV1) : Prop :=
  ∀ j c, IsChild spec f j c →
    childId f (state.counter (visitKey f)) c ∈ state.expectedChildren.getD [] ∧
    childId f (state.counter (visitKey f)) c ∈ state.completedChildren.getD [] ∧
    ((state.childResults.getD .empty).get? (childId f (state.counter (visitKey f)) c)).isSome

/-- The main graph is at a node of no region, and at a join only when its children have arrived. -/
structure AtNode (spec : WorkflowSpec) (id : String) (state : WorkflowStateV1) : Prop where
  main : state.childIdentity = none
  outside : ∀ f j c, IsChild spec f j c → id ∉ region spec j c
  joins : ∀ node f, spec.node? id = some node → node.config = .join f → Arrived spec f state

/-- A fan-out's children are running. -/
structure Running (spec : WorkflowSpec) (f j : String) (branches : List Branch) (state : WorkflowStateV1) : Prop where
  main : state.childIdentity = none
  fanout : ∃ node ∈ spec.nodes, node.id = f ∧ ∃ maxFanout, node.config = .fanout (branches.map (·.child)) j maxFanout
  expected : ∀ b ∈ branches, childId f (state.counter (visitKey f)) b.child ∈ state.expectedChildren.getD []
  branches : ∀ b ∈ branches, BranchKeyed spec f j (state.counter (visitKey f)) b

def Joining (spec : WorkflowSpec) (r : Run) : Prop :=
  Keyed spec r.state ∧
  match r.place with
  | .start => r.state.childIdentity = none
  | .node id => AtNode spec id r.state
  | .parallel f j branches => Running spec f j branches r.state
  | _ => True

theorem Running.isChild {f j : String} {branches : List Branch} {state : WorkflowStateV1}
    (h : Running spec f j branches state) {b : Branch} (hb : b ∈ branches) : IsChild spec f j b.child := by
  obtain ⟨node, hn, hid, maxFanout, hconfig⟩ := h.fanout
  exact ⟨node, hn, hid, _, maxFanout, hconfig, List.mem_map.mpr ⟨b, hb, rfl⟩⟩

/-- A fan-out has one list of children and one join. -/
theorem Running.child_mem {f j : String} {branches : List Branch} {state : WorkflowStateV1}
    (h : Running spec f j branches state) {j' c : String} (hc : IsChild spec f j' c) : ∃ b ∈ branches, b.child = c := by
  obtain ⟨node, hn, hid, maxFanout, hconfig⟩ := h.fanout
  obtain ⟨node', hn', hid', children, maxFanout', hconfig', hchild⟩ := hc
  have hsame : node' = node := List.inj_on_of_nodup_map spec.node_ids hn' hn (hid'.trans hid.symm)
  subst hsame
  rw [hconfig] at hconfig'
  cases hconfig'
  exact List.mem_map.mp hchild

theorem Checked.exists_child (h : Checked spec snapshot) {join : WorkflowNode} (hj : join ∈ spec.nodes) {f : String}
    (hconfig : join.config = .join f) : ∃ c, IsChild spec f join.id c := by
  obtain ⟨node, hn, hid, children, maxFanout, hnode⟩ := h.fanout_of_join hj hconfig
  obtain ⟨c, hc⟩ := List.exists_mem_of_ne_nil _ (h.fanoutChecked hn hnode).nonempty
  exact ⟨c, node, hn, hid, children, maxFanout, hnode, hc⟩

theorem AtNode.entry (h : Checked spec snapshot) {state : WorkflowStateV1} (hs : state.childIdentity = none) :
    AtNode spec spec.entrypoint state := by
  refine ⟨hs, fun f j c hc => (h.entrypoint_outside hc).1, fun node f hnode hconfig => ?_⟩
  obtain ⟨hn, hid⟩ := WorkflowSpec.node?_eq_some.mp hnode
  obtain ⟨c, hc⟩ := h.exists_child hn hconfig
  exact absurd hid.symm (h.entrypoint_outside hc).2

/-- A route of the main graph enters no region and no join. -/
theorem AtNode.route (h : Checked spec snapshot) {node : WorkflowNode} {state next merged : WorkflowStateV1} {route : Route}
    (hn : node ∈ spec.nodes) (hat : AtNode spec node.id state) (hf : node.type ≠ .fanout)
    (hroute : chooseRoute spec snapshot node (routeEdges spec node.id) merged = .ok route)
    (hnext : next.childIdentity = none) : AtNode spec route.1 next := by
  obtain ⟨edge, ht⟩ := h.takes hn hf hroute
  refine ⟨hnext, fun f j c hc hin => ?_, fun join f hjoin hconfig => ?_⟩
  · rcases (h.regionChecked hc).entry ht.mem (ht.target ▸ hin) with hs | ⟨hs, -⟩
    · rw [ht.source] at hs
      exact hat.outside f j c hc hs
    · obtain ⟨fanout, hfn, hid, children, maxFanout, hconfig, -⟩ := hc
      have hsame : node = fanout :=
        List.inj_on_of_nodup_map spec.node_ids hn hfn (ht.source.symm.trans (hs.trans hid.symm))
      subst hsame
      exact hf (by simp [WorkflowNode.type, hconfig])
  · obtain ⟨hjn, hjid⟩ := WorkflowSpec.node?_eq_some.mp hjoin
    obtain ⟨fanout, hfn, hid, children, maxFanout, hfanout⟩ := h.fanout_of_join hjn hconfig
    rw [hjid] at hfanout
    obtain ⟨c, hchild, hsource⟩ := (h.fanoutChecked hfn hfanout).join_entry edge ht.mem ht.target
    rw [ht.source] at hsource
    exact absurd hsource (hat.outside f route.1 c ⟨fanout, hfn, hid, children, maxFanout, hfanout, hchild⟩)

/-- Only a fan-out starts branches: one for each of its children. -/
theorem advance_parallel {state : WorkflowStateV1} {f j : String} {branches : List Branch}
    (h : advance spec node state = .parallel f j branches) : ∃ children maxFanout,
      node.config = .fanout children j maxFanout ∧ f = node.id ∧ branches = children.map (sendTo state node.id) := by
  unfold advance at h
  split at h
  · cases h
  · split at h
    · rename_i children joinId maxFanout hconfig
      split at h
      · cases h
      · cases h
        exact ⟨children, maxFanout, hconfig, rfl, rfl⟩
    · split at h <;> cases h

/-- The visit a node of the main graph leaves is the one it started. -/
theorem Left.visited {node : WorkflowNode} {state update next : WorkflowStateV1} {attempt : Attempt}
    (left : Left spec snapshot node state attempt update next) (hmain : state.childIdentity = none)
    (hc : next.cancelled ≠ some true) : next.counter (visitKey node.id) = visitOf state node.id := by
  have hcancelled : update.cancelled ≠ some true := by
    intro hu
    rw [left.cancelled, hu] at hc
    exact hc rfl
  obtain ⟨hcounters, -⟩ := (wrap_marks left.wrapped).finished hcancelled
  obtain ⟨counters, m, hm, hkeys, hmax⟩ := left.reduced.counters
  have hget := Dict.get?_update_of_not_mem counters (update.counters.getD .empty)
    fun entry he => routeKey_ne (hkeys entry he) node.id
  have hvalue := maxMap_getD hmax (visitKey node.id)
  have hone : (update.counters.getD .empty).get? (visitKey node.id) = some (visitOf state node.id) := by
    rw [hcounters, ← invocationKey_main hmain]
    simp [Dict.ofList, Dict.update]
  rw [hget, hone] at hvalue
  simp only [WorkflowStateV1.counter, hm, Option.getD_some]
  rw [hvalue, Option.map_some, Option.getD_some]
  refine max_eq_right ?_
  simp only [visitOf, invocationKey_main hmain, WorkflowStateV1.counter]
  omega

/-- The activation a fan-out starts. -/
theorem Running.start (h : Checked spec snapshot) {node : WorkflowNode} (hn : node ∈ spec.nodes)
    {children : List String} {j : String} {maxFanout : Nat} (hconfig : node.config = .fanout children j maxFanout)
    {state update next : WorkflowStateV1} {attempt : Attempt} (left : Left spec snapshot node state attempt update next)
    (hc : next.cancelled ≠ some true) (hmain : state.childIdentity = none) (hk : Keyed spec next) :
    Running spec node.id j (children.map (sendTo next node.id)) next := by
  have hchildren : (children.map (sendTo next node.id)).map (·.child) = children := by
    simp [Function.comp_def, sendTo]
  have hnext : next.childIdentity = none := left.childIdentity.trans hmain
  have hcancelled : update.cancelled ≠ some true := by
    intro hu
    rw [left.cancelled, hu] at hc
    exact hc rfl
  obtain ⟨-, hexpected⟩ := (wrap_marks left.wrapped).finished hcancelled
  have hvisit := left.visited hmain hc
  have hannounced : announced node state = some (children.map fun child => childId node.id (visitOf state node.id) child) := by
    simp [announced, hconfig]
  refine ⟨hnext, ⟨node, hn, rfl, maxFanout, by rw [hchildren]; exact hconfig⟩, fun b hb => ?_, fun b hb => ?_⟩
  · obtain ⟨child, hchild, rfl⟩ := List.mem_map.mp hb
    rw [left.reduced.expected, Option.getD_some, mem_setUnion, hvisit,
      hexpected (by simp [WorkflowNode.type, hconfig]), hannounced]
    exact .inr (List.mem_map.mpr ⟨child, hchild, rfl⟩)
  · obtain ⟨child, hchild, rfl⟩ := List.mem_map.mp hb
    have hregion := (h.fanoutChecked hn hconfig).regions child hchild
    refine ⟨⟨hk.expected, hk.results⟩, hc, ?_, rfl, hregion.child_mem_region⟩
    simp [sendTo, invocationKey_main hnext]

theorem Running.move (h : Checked spec snapshot) {f j : String} {branches : List Branch} {state : WorkflowStateV1}
    (hr : Running spec f j branches state) {b b' : Branch} (hb : b ∈ branches) {action : Action} {log : List Execution}
    (hm : BranchMove spec snapshot j b action log b') (ha : uncancelled action = true) :
    Running spec f j (replaceBranch branches b') state := by
  obtain ⟨hchild, hkeyed⟩ := (hr.branches b hb).move h (hr.isChild hb) hm ha
  refine ⟨hr.main, ?_, fun other ho => ?_, fun other ho => ?_⟩
  · rw [map_child_replaceBranch]
    exact hr.fanout
  all_goals
    obtain ⟨old, hold, rfl⟩ := List.mem_map.mp ho
    split
  · rw [hchild]
    exact hr.expected b hb
  · exact hr.expected old hold
  · exact hkeyed
  · exact hr.branches old hold

/-- What merging the ended branches keeps and adds. -/
theorem mergeBranches_joined {f j : String} {visit : Int} : ∀ {branches : List Branch} {state next : WorkflowStateV1},
    mergeBranches state branches = .ok next → Keyed spec state → state.counter (visitKey f) = visit →
    (∀ b ∈ branches, BranchKeyed spec f j visit b ∧ b.place = .ended) →
    Keyed spec next ∧ next.counter (visitKey f) = visit ∧
    (∀ key ∈ state.expectedChildren.getD [], key ∈ next.expectedChildren.getD []) ∧
    (∀ key ∈ state.completedChildren.getD [], key ∈ next.completedChildren.getD []) ∧
    (∀ key, ((state.childResults.getD .empty).get? key).isSome → ((next.childResults.getD .empty).get? key).isSome) ∧
    ∀ b ∈ branches, childId f visit b.child ∈ next.completedChildren.getD [] ∧
      ((next.childResults.getD .empty).get? (childId f visit b.child)).isSome := by
  intro branches
  induction branches with
  | nil =>
    intro state next h hk hv _
    cases h
    exact ⟨hk, hv, fun _ h => h, fun _ h => h, fun _ h => h, fun _ h => nomatch h⟩
  | cons b branches ih =>
    intro state next h hk hv hbranches
    rw [mergeBranches] at h
    split at h
    · cases h
    · rename_i merged hm
      obtain ⟨hb, hended⟩ := hbranches b List.mem_cons_self
      have hplace := hb.place
      rw [hended] at hplace
      have hreduced : Reduced state (branchOutput b.state) merged := reduced_of_merged [] hm rfl rfl rfl rfl (by simp)
      obtain ⟨results, hresults, hmerge⟩ := hreduced.childResults
      have hkeyed : Keyed spec (branchOutput b.state) := ⟨hb.keyed.expected, hb.keyed.results⟩
      have hcounter : merged.counter (visitKey f) = visit := by
        rw [hreduced.counter_eq, hv]
        intro value hvalue
        have hbv := hb.counter
        simp only [WorkflowStateV1.counter, Dict.getD] at hbv
        simp only [branchOutput] at hvalue
        rw [hvalue, Option.getD_some] at hbv
        exact Int.le_of_eq (hbv.trans hv.symm)
      obtain ⟨hk', hv', hexp, hcomp, hres, hrest⟩ := ih h (hk.reduced hreduced hkeyed) hcounter
        fun b hb => hbranches b (List.mem_cons_of_mem _ hb)
      have hcomp' : ∀ key, key ∈ state.completedChildren.getD [] ∨ key ∈ b.state.completedChildren.getD [] →
          key ∈ next.completedChildren.getD [] := by
        intro key hkey
        refine hcomp key ?_
        rw [hreduced.completed, Option.getD_some, mem_setUnion]
        exact hkey
      have hres' : ∀ key, ((state.childResults.getD .empty).get? key).isSome ∨
          ((b.state.childResults.getD .empty).get? key).isSome → ((next.childResults.getD .empty).get? key).isSome := by
        intro key hkey
        refine hres key ?_
        rw [hresults, Option.getD_some]
        exact (mergeById_ok hmerge key).2 hkey
      refine ⟨hk', hv', fun key hkey => hexp key ?_, fun key hkey => hcomp' key (.inl hkey),
        fun key hkey => hres' key (.inl hkey), fun other ho => ?_⟩
      · rw [hreduced.expected, Option.getD_some, mem_setUnion]
        exact .inl hkey
      · rcases List.mem_cons.mp ho with rfl | ho
        · exact ⟨hcomp' _ (.inr hplace.1), hres' _ (.inr hplace.2)⟩
        · exact hrest other ho

theorem Joining.move (h : Checked spec snapshot) {r r' : Run} {action : Action} (hj : Joining spec r)
    (ha : uncancelled action = true) (hm : Move spec snapshot r action r') : Joining spec r' := by
  obtain ⟨hk, hplace'⟩ := hj
  cases hm with
  | start hplace =>
    rw [hplace] at hplace'
    exact ⟨hk, AtNode.entry h hplace'⟩
  | finish hplace hnode left hend =>
    exact ⟨left.keyed (WorkflowSpec.node?_eq_some.mp hnode).1 hk, trivial⟩
  | route hplace hnode hf left hc hmerged hroute hcounters =>
    rw [hplace] at hplace'
    obtain ⟨hn, rfl⟩ := WorkflowSpec.node?_eq_some.mp hnode
    exact ⟨left.keyed hn hk, hplace'.route h hn hf hroute (left.childIdentity.trans hplace'.main)⟩
  | fanout hplace hnode hconfig left hc =>
    rw [hplace] at hplace'
    obtain ⟨hn, rfl⟩ := WorkflowSpec.node?_eq_some.mp hnode
    have hkeyed := left.keyed hn hk
    exact ⟨hkeyed, Running.start h hn hconfig left hc hplace'.main hkeyed⟩
  | branch hplace hb hmove =>
    rw [hplace] at hplace'
    exact ⟨hk, hplace'.move h hb hmove ha⟩
  | @join f j branches next hplace hended hmerged =>
    rw [hplace] at hplace'
    have hrunning : Running spec f j branches r.state := hplace'
    obtain ⟨hkeyed, hvisit, hexp, -, -, hdone⟩ := mergeBranches_joined hmerged hk rfl
      fun b hb => ⟨hrunning.branches b hb, hended b hb⟩
    refine ⟨hkeyed, (mergeBranches_keeps hmerged).2.2.trans hrunning.main, fun f' j' c hc hin => ?_,
      fun join f' hjoin hconfig => ?_⟩
    · obtain ⟨node, hn, hid, maxFanout, hfanout⟩ := hrunning.fanout
      obtain ⟨join, hjoin, hconfig⟩ := (h.fanoutChecked hn hfanout).join
      obtain ⟨hjn, rfl⟩ := WorkflowSpec.node?_eq_some.mp hjoin
      exact ((h.regionChecked hc).node_type hin hjn).2.1 (by simp [WorkflowNode.type, hconfig])
    · obtain ⟨node, hn, hid, maxFanout, hfanout⟩ := hrunning.fanout
      obtain ⟨join', hjoin', hconfig'⟩ := (h.fanoutChecked hn hfanout).join
      rw [hjoin] at hjoin'
      cases hjoin'
      rw [hconfig, hid] at hconfig'
      cases hconfig'
      intro j' c hc
      obtain ⟨b, hb, rfl⟩ := hrunning.child_mem hc
      rw [hvisit]
      exact ⟨hexp _ (hrunning.expected b hb), hdone b hb⟩
  | raise hraise =>
    refine ⟨?_, trivial⟩
    obtain ⟨id, node, -, hnode, rfl | ⟨_, _, left⟩⟩ | ⟨-, rfl⟩ := hraise
    · exact hk
    · exact left.keyed (WorkflowSpec.node?_eq_some.mp hnode).1 hk
    · exact hk

/-! ## Child graphs -/

variable (spec snapshot) in
/-- A child graph executed along the given attempts, until it leaves its region. -/
def runChild (joinId : String) : Branch → List Attempt → Except Raised Branch
  | b, [] => .ok b
  | b, attempt :: attempts =>
    match b.place with
    | .node id =>
      match spec.node? id with
      | some node =>
        match execBranch spec snapshot joinId b node attempt with
        | .error e => .error e
        | .ok b' => runChild joinId b' attempts
      | none => .ok b
    | _ => .ok b

/-- An attempt aborts: the call raises, or its update cannot be merged. -/
inductive Aborts (spec : WorkflowSpec) (snapshot : WorkflowResolvedSnapshot) (node : WorkflowNode)
    (state : WorkflowStateV1) (attempt : Attempt) : Raised → Prop where
  | call {e : Raised} : wrap spec node state attempt = .error e → Aborts spec snapshot node state attempt e
  | merge {update : WorkflowStateV1} {e : Raised} : wrap spec node state attempt = .ok update →
    mergedState state update = .error e → Aborts spec snapshot node state attempt e
  | record {update : WorkflowStateV1} {e : Raised} : invokeNode spec snapshot node state attempt = .ok update →
    mergedState state update = .error e → Aborts spec snapshot node state attempt e

theorem edgeGraphIssues_iterate : ∀ {edges : List WorkflowEdge} {seen : List String}, edgeGraphIssues spec seen edges = [] →
    ∀ edge ∈ edges, edge.kind = .iterate → isType spec .taskDispatch edge.source = true := by
  intro edges
  induction edges with
  | nil => intro _ _ edge he; cases he
  | cons first edges ih =>
    intro seen h edge he hk
    simp only [edgeGraphIssues, List.append_eq_nil_iff] at h
    obtain ⟨⟨⟨-, hiterate⟩, -⟩, hrest⟩ := h
    rcases List.mem_cons.mp he with rfl | he
    · rw [if_pos hk, iterateIssues] at hiterate
      simp only [List.append_eq_nil_iff, check_eq_nil, Bool.or_eq_false_iff, Bool.not_eq_false'] at hiterate
      exact hiterate.1.1.1.1
    · exact ih hrest edge he hk

/-- No route of a region's node iterates: only a task dispatch does, and it writes an unreduced channel. -/
theorem RegionChecked.not_iterate (h : Checked spec snapshot) {f j c : String} (hr : RegionChecked spec f j c)
    {node : WorkflowNode} (hn : node ∈ spec.nodes) (hid : node.id ∈ region spec j c) :
    ∀ edge ∈ spec.outgoing node.id, edge.kind ≠ .iterate := by
  intro edge hedge hk
  obtain ⟨hmem, hs⟩ := List.mem_filter.mp hedge
  have hg := h.graph
  unfold graphIssues at hg
  simp only [List.append_eq_nil_iff] at hg
  have htype := edgeGraphIssues_iterate hg.2 edge hmem hk
  have hdispatch : node.type = .taskDispatch := by
    simpa [isType, of_decide_eq_true hs, WorkflowSpec.node?_of_mem hn] using htype
  have hreduced := (hr.node_type hid hn).2.2
  rw [hdispatch] at hreduced
  exact absurd (hreduced .tasks (by decide)) (by decide)

/-- A node of a region raises nothing but what its attempt raised. -/
theorem nodeResult_aborts (h : Checked spec snapshot) {f j c : String} (hr : RegionChecked spec f j c) {node : WorkflowNode}
    (hn : node ∈ spec.nodes) (hid : node.id ∈ region spec j c) {state : WorkflowStateV1} {attempt : Attempt} {e : Raised}
    (he : nodeResult spec snapshot node state attempt = .error e) : Aborts spec snapshot node state attempt e := by
  unfold nodeResult at he
  cases hi : invokeNode spec snapshot node state attempt with
  | ok update =>
    rw [hi] at he
    exact .record hi he
  | error e' =>
    rw [hi] at he
    cases he
    unfold invokeNode at hi
    cases hw : wrap spec node state attempt with
    | error e' =>
      rw [hw] at hi
      cases hi
      exact .call hw
    | ok update =>
      rw [hw] at hi
      simp only [bind, Except.bind, pure, Except.pure] at hi
      split at hi
      · cases hi
      · split at hi
        · cases hi
        · cases hm : mergedState state update with
          | error e' =>
            rw [hm] at hi
            cases hi
            exact .merge hw hm
          | ok merged =>
            -- a route always exists, and no edge of a region iterates
            have hrouted := h.routed hn (hr.node_type hid hn).1 (hr.not_finalize hid hn) (hr.routes hid hn).1 merged
            rw [hm] at hi
            obtain ⟨edge, -, counters, hok⟩ | ⟨edge, hedge, hk, -⟩ := hrouted
            · simp [hok] at hi
            · exact absurd hk (hr.not_iterate h hn hid edge hedge)

/-- With as many attempts as its region has nodes, a child is aborted by one of them or reaches its
    completion marker. -/
theorem runChild_completes (h : Checked spec snapshot) {f j : String} {visit : Int} : ∀ {attempts : List Attempt}
    {b : Branch} {id : String}, IsChild spec f j b.child → BranchKeyed spec f j visit b → b.place = .node id →
    (∀ attempt ∈ attempts, uncancelledAttempt attempt = true) → regionRank spec j b.child id ≤ attempts.length →
    (∃ e, runChild spec snapshot j b attempts = .error e ∧ ∃ node state, ∃ attempt ∈ attempts,
      node.id ∈ region spec j b.child ∧ Aborts spec snapshot node state attempt e) ∨
      ∃ b', runChild spec snapshot j b attempts = .ok b' ∧ b'.place = .complete := by
  intro attempts
  induction attempts with
  | nil =>
    intro b id hc hb hplace _ hlen
    have hin := hb.place
    rw [hplace] at hin
    have hpos := (h.regionChecked hc).regionRank_pos hin
    rw [List.length_nil] at hlen
    omega
  | cons attempt attempts ih =>
    intro b id hc hb hplace hall hlen
    have hin := hb.place
    rw [hplace] at hin
    have ha := hall attempt List.mem_cons_self
    obtain ⟨node, hnode⟩ := WorkflowSpec.exists_node ((h.regionChecked hc).mem_nodeIds hin)
    simp only [runChild, hplace, hnode]
    obtain ⟨e, he⟩ | ⟨b', he, hm⟩ := @execBranch_move spec snapshot j id b node attempt hplace hnode
    · refine .inl ⟨e, by rw [he], node, b.state, attempt, List.mem_cons_self, ?_⟩
      obtain ⟨hn, rfl⟩ := WorkflowSpec.node?_eq_some.mp hnode
      exact ⟨hin, nodeResult_aborts h (h.regionChecked hc) hn hin (execBranch_error he)⟩
    · obtain ⟨hchild, hb'⟩ := hb.move h hc hm ha
      rw [he]
      simp only
      obtain hcomplete | ⟨next, hnext, -, hlt⟩ := hm.progress h (h.regionChecked hc) id hplace hin ha hb.live
      · refine .inr ⟨b', ?_, hcomplete⟩
        cases attempts with
        | nil => rfl
        | cons => simp [runChild, hcomplete]
      · rw [← hchild] at hc hlt
        rw [List.length_cons] at hlen
        have hrun := ih hc hb' hnext (fun a hm => hall a (List.mem_cons_of_mem _ hm)) (by rw [hchild] at hlt ⊢; omega)
        rw [hchild] at hrun
        obtain ⟨e, hrun, node, state, attempt', hmem, haborts⟩ | hdone := hrun
        · exact .inl ⟨e, hrun, node, state, attempt', List.mem_cons_of_mem _ hmem, haborts⟩
        · exact .inr hdone

/-! ## The join -/

/-- A join whose children have arrived does not find them incomplete. -/
theorem Arrived.joinUpdate {f id : String} {state : WorkflowStateV1} (ha : Arrived spec f state) (hk : Keyed spec state)
    (hf : ∃ j c, IsChild spec f j c) : ∃ update, joinUpdate state id f = .ok update := by
  obtain ⟨j, c, hc⟩ := hf
  have hlead : expectedOf.joinPrefix state f = f ++ ":" ++ toString (state.counter (visitKey f)) ++ ":" := rfl
  have hmem : ∀ key ∈ expectedOf state f, key ∈ state.completedChildren.getD [] ∧
      ((state.childResults.getD .empty).get? key).isSome := by
    intro key hkey
    obtain ⟨hin, hpre⟩ := List.mem_filter.mp hkey
    obtain ⟨f', j', c', v', hc', rfl⟩ := hk.expected key hin
    rw [hlead] at hpre
    obtain ⟨rfl, hsame⟩ := childId_prefix hc.colon hc'.colon hpre
    rw [hsame]
    exact (ha j' c' hc').2
  have hone : childId f (state.counter (visitKey f)) c ∈ expectedOf state f := by
    refine List.mem_filter.mpr ⟨(ha j c hc).1, ?_⟩
    rw [hlead, isPrefixOf_iff]
    exact ⟨c.toList, by rw [childId, ← String.toList_append]⟩
  unfold Workflows.joinUpdate
  dsimp only
  have hcond : ((expectedOf state f).isEmpty || (expectedOf state f).any fun key =>
      decide (key ∉ state.completedChildren.getD []) || ((state.childResults.getD .empty).get? key).isNone) = false := by
    rw [Bool.or_eq_false_iff]
    refine ⟨?_, ?_⟩
    · cases he : expectedOf state f with
      | nil => rw [he] at hone; cases hone
      | cons _ _ => rfl
    · rw [List.any_eq_false]
      intro key hkey
      obtain ⟨hin, hsome⟩ := hmem key hkey
      obtain ⟨value, hv⟩ := Option.isSome_iff_exists.mp hsome
      simp [hin, hv]
  rw [hcond]
  exact ⟨_, rfl⟩

/-! ## The result -/

/-- The parallel regions of a workflow, as the compiler computes them. -/
structure RegionsWellFormed (spec : WorkflowSpec) : Prop where
  agree : branchRegions spec = fanoutRegions spec
  disjoint : ∀ f j c f' j' c', IsChild spec f j c → IsChild spec f' j' c' →
    ∀ id ∈ region spec j c, id ∈ region spec j' c' → f = f' ∧ c = c'
  acyclic : ∀ f j c, IsChild spec f j c → ∀ id w, w ≠ [] → (∀ u ∈ w, u ∈ region spec j c) →
    ¬ Walk spec.adjacency id w id
  entered : ∀ f j c, IsChild spec f j c → spec.entrypoint ∉ region spec j c ∧
    ∀ edge ∈ spec.edges, edge.target ∈ region spec j c →
      edge.source ∈ region spec j c ∨ (edge.source = f ∧ edge.target = c)
  left : ∀ f j c, IsChild spec f j c → ∀ id ∈ region spec j c, spec.outgoing id ≠ [] ∧
    ∀ edge ∈ spec.outgoing id, edge.target ∈ region spec j c ∨ edge.target = j

theorem Checked.regionsWellFormed (h : Checked spec snapshot) : RegionsWellFormed spec where
  agree := branchRegions_eq spec
  disjoint _ _ _ _ _ _ hc hc' _ hid hid' := h.region_disjoint hc hc' hid hid'
  acyclic f j c hc id w hne hsub hw := by
    have hid : id ∈ region spec j c := by
      cases w with
      | nil => exact absurd rfl hne
      | cons u w =>
        obtain ⟨rfl, -⟩ := hw.uncons
        exact hsub _ List.mem_cons_self
    exact absurd ((h.regionChecked hc).rank_walk hw hsub hid hne) (Nat.lt_irrefl _)
  entered _ _ _ hc := ⟨(h.entrypoint_outside hc).1, fun _ he ht => (h.regionChecked hc).entry he ht⟩
  left f j c hc id hid := by
    have hr := h.regionChecked hc
    obtain ⟨node, hnode⟩ := WorkflowSpec.exists_node (hr.mem_nodeIds hid)
    obtain ⟨hn, rfl⟩ := WorkflowSpec.node?_eq_some.mp hnode
    exact hr.routes hid hn

/-- A key names one child. -/
theorem Names.unique {key : String} (h : Names spec key) :
    ∃! child : String × String, (∃ j, IsChild spec child.1 j child.2) ∧ ∃ visit, key = childId child.1 visit child.2 := by
  obtain ⟨f, j, c, v, hc, rfl⟩ := h
  refine ⟨(f, c), ⟨⟨j, hc⟩, v, rfl⟩, ?_⟩
  rintro ⟨f', c'⟩ ⟨⟨j', hc'⟩, v', he⟩
  obtain ⟨rfl, rfl⟩ := childId_inj hc.colon hc'.colon he
  rfl

/-- The parallel regions of a validated workflow are well formed; in its runs without a
    cancellation every child reaches its completion marker unless one of its attempts aborts, every
    recorded key names one child and holds that child's results, and no join finds its children
    incomplete. -/
theorem regions_join {digests : Digests} {spec : WorkflowSpec} {snapshot : WorkflowResolvedSnapshot}
    (h : (validateWorkflow digests spec (some snapshot)).1 = true) :
    RegionsWellFormed (normalizeWorkflow spec) ∧
    ∀ r, Steps.ReachIf (step (normalizeWorkflow spec) snapshot) (fun _ action => uncancelled action = true) Run.init r →
      (∀ f j branches, r.place = .parallel f j branches → ∀ b ∈ branches,
        (b.place = .ended → ∃ visit, childId f visit b.child ∈ b.state.completedChildren.getD []) ∧
        ∀ id attempts, b.place = .node id → (∀ attempt ∈ attempts, uncancelledAttempt attempt = true) →
          (region (normalizeWorkflow spec) j b.child).length ≤ attempts.length →
          (∃ e, runChild (normalizeWorkflow spec) snapshot j b attempts = .error e ∧
            ∃ node state, ∃ attempt ∈ attempts, node.id ∈ region (normalizeWorkflow spec) j b.child ∧
              Aborts (normalizeWorkflow spec) snapshot node state attempt e) ∨
            ∃ b', runChild (normalizeWorkflow spec) snapshot j b attempts = .ok b' ∧ b'.place = .complete) ∧
      (∀ key value, (r.state.childResults.getD .empty).get? key = some value →
        (∃! child : String × String, (∃ j, IsChild (normalizeWorkflow spec) child.1 j child.2) ∧
          ∃ visit, key = childId child.1 visit child.2) ∧ Under key value) ∧
      ∀ id node f, r.place = .node id → (normalizeWorkflow spec).node? id = some node → node.config = .join f →
        ∃ update, joinUpdate r.state node.id f = .ok update := by
  have hc := checked_of_valid h
  refine ⟨hc.regionsWellFormed, fun r hr => ?_⟩
  obtain ⟨hk, hplace'⟩ : Joining (normalizeWorkflow spec) r :=
    hr.invariant _ ⟨⟨by simp [Run.init], fun _ _ hv => nomatch hv⟩, rfl⟩
      fun _ _ _ hj ha hs => hj.move hc ha (step_move hs)
  refine ⟨fun f j branches hplace b hb => ?_, fun key value hv => ?_, fun id node f hplace hnode hconfig => ?_⟩
  · rw [hplace] at hplace'
    have hrunning : Running (normalizeWorkflow spec) f j branches r.state := hplace'
    have hbranch := hrunning.branches b hb
    refine ⟨fun hended => ?_, fun id attempts hbplace hall hlen => ?_⟩
    · have hdone := hbranch.place
      rw [hended] at hdone
      exact ⟨_, hdone.1⟩
    · exact runChild_completes hc (hrunning.isChild hb) hbranch hbplace hall
        (Nat.le_trans (regionRank_le _ _ _) hlen)
  · exact ⟨(hk.results key value hv).1.unique, (hk.results key value hv).2⟩
  · rw [hplace] at hplace'
    have hat : AtNode (normalizeWorkflow spec) id r.state := hplace'
    obtain ⟨c, hchild⟩ := hc.exists_child (WorkflowSpec.node?_eq_some.mp hnode).1 hconfig
    exact (hat.joins node f hnode hconfig).joinUpdate hk ⟨_, c, hchild⟩

/-- Two routers side by side. -/
def pairedRouters : WorkflowSpec where
  entrypoint := "split"
  defaults := sampleDefaults
  nodes := [{ id := "split", config := .fanout ["left", "right"] "merge" 2 }, { id := "left", config := .router },
    { id := "right", config := .router }, { id := "merge", config := .join "split" },
    { id := "done", config := .finalize .derive }]
  edges := [{ id := "e1", source := "split", target := "left", kind := .always },
    { id := "e2", source := "split", target := "right", kind := .always },
    { id := "e3", source := "left", target := "merge", kind := .always },
    { id := "e4", source := "right", target := "merge", kind := .always },
    { id := "e5", source := "merge", target := "done", kind := .always }]
  node_ids := by decide
  edge_ids := by decide
  entrypoint_mem := by decide
  endpoints_mem := by decide

theorem regions_join_pairedRouters :
    (validateWorkflow sampleDigests pairedRouters (some sampleSnapshot)).1 = true ∧
    RegionsWellFormed (normalizeWorkflow pairedRouters) := by
  have h : (validateWorkflow sampleDigests pairedRouters (some sampleSnapshot)).1 = true := by decide
  exact ⟨h, (regions_join h).1⟩

end Jarvis.Workflows
