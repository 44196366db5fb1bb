/-
  Jarvis.Workflows.State — the checkpointed channels, their reducers and the predicates that
  read them (`workflows/state.py`, `workflows/predicates.py`).

  A state and an update have the same type, as in the source: a channel that is absent is
  `none`. A reducer that refuses its input raises, so merging a state is fallible. What the
  later modules use of it are the counters, which never fall (`counter_le_mergedState`),
  and that a channel without a reducer is the update's value or else the state's.
-/
import Mathlib.Data.List.Dedup
import Mathlib.Data.List.Sort
import Jarvis.Workflows.Spec

namespace Jarvis.Workflows

/-- What a node or a route can raise. -/
inductive Raised where
  /-- `WorkflowInvariantError`. -/
  | invariant (message : String)
  /-- A `next` without a default that finds nothing. -/
  | stopIteration
  /-- `MissingWorkflowHandlerError`. -/
  | missingHandler (message : String)
  /-- `RuntimeBlockedError`. -/
  | blocked (message : String)
  deriving DecidableEq, Repr

/-- A computation that returned went through each of its steps. -/
theorem bind_eq_ok {α β : Type} {x : Except Raised α} {f : α → Except Raised β} {b : β} :
    (x >>= f) = .ok b ↔ ∃ a, x = .ok a ∧ f a = .ok b := by
  cases x with
  | error e => exact ⟨fun h => (nomatch h), fun ⟨_, h, _⟩ => nomatch h⟩
  | ok a => exact ⟨fun h => ⟨a, rfl, h⟩, fun ⟨_, ha, h⟩ => by cases ha; exact h⟩

/-- A computation that raised did so in one of its steps. -/
theorem bind_eq_error {α β : Type} {x : Except Raised α} {f : α → Except Raised β} {e : Raised} :
    (x >>= f) = .error e ↔ x = .error e ∨ ∃ a, x = .ok a ∧ f a = .error e := by
  cases x with
  | error e' =>
    constructor
    · intro h
      cases h
      exact .inl rfl
    · rintro (h | ⟨_, ha, -⟩)
      · cases h
        rfl
      · cases ha
  | ok a =>
    constructor
    · exact fun h => .inr ⟨a, rfl, h⟩
    · rintro (h | ⟨_, ha, h⟩)
      · cases h
      · cases ha
        exact h

structure WorkflowStateV1 where
  results : Option (Dict String Json) := none
  childResults : Option (Dict String Json) := none
  expectedChildren : Option (List String) := none
  completedChildren : Option (List String) := none
  counters : Option (Dict String Int) := none
  node : Option (Dict String Json) := none
  outcome : Option (Dict String Json) := none
  tasks : Option (Dict String Json) := none
  verification : Option (Dict String Json) := none
  review : Option (Dict String Json) := none
  approval : Option (Dict String Json) := none
  final : Option (Dict String Json) := none
  cancelled : Option Bool := none
  childIdentity : Option String := none
  route : Option String := none
  needsVerification : Option Bool := none

namespace WorkflowStateV1

/-- `channel in state`. -/
def has (s : WorkflowStateV1) : Channel → Bool
  | .results => s.results.isSome
  | .childResults => s.childResults.isSome
  | .expectedChildren => s.expectedChildren.isSome
  | .completedChildren => s.completedChildren.isSome
  | .counters => s.counters.isSome
  | .node => s.node.isSome
  | .outcome => s.outcome.isSome
  | .tasks => s.tasks.isSome
  | .verification => s.verification.isSome
  | .review => s.review.isSome
  | .approval => s.approval.isSome
  | .final => s.final.isSome
  | .cancelled => s.cancelled.isSome
  | .childIdentity => s.childIdentity.isSome
  | .route => s.route.isSome
  | .needsVerification => s.needsVerification.isSome

/-- `set(update)`. -/
def channels (s : WorkflowStateV1) : List Channel := Channel.all.filter s.has

theorem mem_channels {s : WorkflowStateV1} {c : Channel} : c ∈ s.channels ↔ s.has c = true := by
  have hall : c ∈ Channel.all := by cases c <;> decide
  rw [channels, List.mem_filter]
  exact ⟨fun h => h.2, fun h => ⟨hall, h⟩⟩

/-- `state.get("counters", {}).get(key, 0)`. -/
def counter (s : WorkflowStateV1) (key : String) : Int := (s.counters.getD .empty).getD key 0

end WorkflowStateV1

/-- `state.get(channel, {}).get(key)`. -/
def member (channel : Option (Dict String Json)) (key : String) : Option Json := (channel.getD .empty).get? key

/-- `state.get(channel, {}).get(key) is True`. -/
def isTrue (channel : Option (Dict String Json)) (key : String) : Bool :=
  match member channel key with
  | some (.scalar (.bool b)) => b
  | _ => false

/-- `state.get(channel, {}).get(key) == text`. -/
def isText (channel : Option (Dict String Json)) (key text : String) : Bool :=
  match member channel key with
  | some (.scalar (.str s)) => s == text
  | _ => false

def stringLe (a b : String) : Bool := decide (a ≤ b)

/-! ## Reducers -/

/-- One entry of the right side of `merge_by_id`. -/
def mergeEntry (merged : Dict String Json) (entry : String × Json) : Except Raised (Dict String Json) :=
  match merged.get? entry.1 with
  | some value =>
    if value.canonEq entry.2 then .ok (merged.insert entry.1 entry.2)
    else .error (.invariant ("Conflicting completion for identity " ++ entry.1))
  | none => .ok (merged.insert entry.1 entry.2)

def mergeById (left right : Dict String Json) : Except Raised (Dict String Json) := do
  let merged ← right.entries.foldlM mergeEntry left
  return merged.sorted stringLe

def setUnion (left right : List String) : List String := (left ++ right).dedup.insertionSort fun a b => stringLe a b

/-- One entry of the right side of `max_map`. -/
def maxEntry (merged : Dict String Int) (entry : String × Int) : Except Raised (Dict String Int) :=
  if entry.2 < 0 then .error (.invariant "Counters must be nonnegative integers")
  else .ok (merged.insert entry.1 (max (merged.getD entry.1 0) entry.2))

def maxMap (left right : Dict String Int) : Except Raised (Dict String Int) := do
  let merged ← right.entries.foldlM maxEntry left
  return merged.sorted stringLe

def mergedState (state update : WorkflowStateV1) : Except Raised WorkflowStateV1 := do
  let results ← mergeById (state.results.getD .empty) (update.results.getD .empty)
  let childResults ← mergeById (state.childResults.getD .empty) (update.childResults.getD .empty)
  let counters ← maxMap (state.counters.getD .empty) (update.counters.getD .empty)
  return {
    results := some results
    childResults := some childResults
    expectedChildren := some (setUnion (state.expectedChildren.getD []) (update.expectedChildren.getD []))
    completedChildren := some (setUnion (state.completedChildren.getD []) (update.completedChildren.getD []))
    counters := some counters
    node := update.node.or state.node
    outcome := update.outcome.or state.outcome
    tasks := update.tasks.or state.tasks
    verification := update.verification.or state.verification
    review := update.review.or state.review
    approval := update.approval.or state.approval
    final := update.final.or state.final
    cancelled := update.cancelled.or state.cancelled
    childIdentity := update.childIdentity.or state.childIdentity
    route := update.route.or state.route
    needsVerification := update.needsVerification.or state.needsVerification }

/-! ## Predicates -/

/-- `ALLOWED_PATHS`. -/
def allowedPaths : List String :=
  ["$.outcome.status", "$.outcome.failure_class", "$.node.result", "$.node.status", "$.node.failure_class",
    "$.tasks.terminal_count", "$.tasks.total_count", "$.tasks.current_task", "$.verification.passed",
    "$.review.passed", "$.approval.decision", "$.approval.action_type", "$.approval.granted_by",
    "$.final.status", "$.cancelled"]

/-- `_lookup`: an allowed path is one channel, or one key of a channel. -/
def lookup (state : WorkflowStateV1) (path : String) : Option Json :=
  match path with
  | "$.outcome.status" => member state.outcome "status"
  | "$.outcome.failure_class" => member state.outcome "failure_class"
  | "$.node.result" => member state.node "result"
  | "$.node.status" => member state.node "status"
  | "$.node.failure_class" => member state.node "failure_class"
  | "$.tasks.terminal_count" => member state.tasks "terminal_count"
  | "$.tasks.total_count" => member state.tasks "total_count"
  | "$.tasks.current_task" => member state.tasks "current_task"
  | "$.verification.passed" => member state.verification "passed"
  | "$.review.passed" => member state.review "passed"
  | "$.approval.decision" => member state.approval "decision"
  | "$.approval.action_type" => member state.approval "action_type"
  | "$.approval.granted_by" => member state.approval "granted_by"
  | "$.final.status" => member state.final "status"
  | "$.cancelled" => state.cancelled.map Json.bool
  | _ => none

/-- `get_path`: a missing field reads as no value. -/
def getPath (state : WorkflowStateV1) (path : String) : Json := (lookup state path).getD .null

/-- `_equal`: JSON booleans are not numbers. -/
def equal (left right : Json) : Bool := left.isBool == right.isBool && left.pyEq right

def compareValues (op : Comparison) (actual expected : Json) : Bool :=
  match op with
  | .eq => equal actual expected
  | .neq => !equal actual expected
  | .in_ =>
    match expected with
    | .list items => items.any fun item => equal actual item
    | _ => false
  | op =>
    match actual.ordered, expected.ordered with
    | some a, some b =>
      match op with
      | .lt => a < b
      | .lte => a ≤ b
      | .gt => a > b
      | _ => a ≥ b
    | _, _ => false

mutual

def evaluatePredicate (state : WorkflowStateV1) : Predicate → Bool
  | .and args _ => evaluateAll state args
  | .or args _ => evaluateAny state args
  | .not arg _ => !evaluatePredicate state arg
  | .exists_ path => (lookup state path).isSome
  | .compare op path value =>
    match lookup state path with
    | none => false
    | some actual => compareValues op actual value

def evaluateAll (state : WorkflowStateV1) : List Predicate → Bool
  | [] => true
  | arg :: args => evaluatePredicate state arg && evaluateAll state args

def evaluateAny (state : WorkflowStateV1) : List Predicate → Bool
  | [] => false
  | arg :: args => evaluatePredicate state arg || evaluateAny state args

end

/-! ## What merging keeps -/

theorem getD_maxEntry {merged m : Dict String Int} {entry : String × Int} (h : maxEntry merged entry = .ok m)
    (key : String) :
    m.getD key 0 = if key = entry.1 then max (merged.getD key 0) entry.2 else merged.getD key 0 := by
  unfold maxEntry at h
  split at h
  · cases h
  · cases h
    unfold Dict.getD
    rw [Dict.get?_insert]
    by_cases hk : key = entry.1
    · rw [if_pos hk, if_pos hk, hk]
      rfl
    · rw [if_neg hk, if_neg hk]

theorem le_foldlM_maxEntry : ∀ (entries : List (String × Int)) {left m : Dict String Int},
    entries.foldlM maxEntry left = .ok m → ∀ key, left.getD key 0 ≤ m.getD key 0 := by
  intro entries
  induction entries with
  | nil =>
    intro left m h key
    cases h
    exact Int.le_refl _
  | cons entry entries ih =>
    intro left m h key
    rw [List.foldlM_cons] at h
    obtain ⟨mid, hm, h⟩ := bind_eq_ok.mp h
    have hmid := getD_maxEntry hm key
    have := ih h key
    split at hmid
    all_goals omega

theorem entry_le_foldlM_maxEntry : ∀ (entries : List (String × Int)) {left m : Dict String Int},
    entries.foldlM maxEntry left = .ok m → ∀ entry ∈ entries, entry.2 ≤ m.getD entry.1 0 := by
  intro entries
  induction entries with
  | nil => intro _ _ _ entry h; cases h
  | cons first entries ih =>
    intro left m h entry hmem
    rw [List.foldlM_cons] at h
    obtain ⟨mid, hm, hrest⟩ := bind_eq_ok.mp h
    rcases List.mem_cons.mp hmem with rfl | hmem
    · have hmid := getD_maxEntry hm entry.1
      have := le_foldlM_maxEntry entries hrest entry.1
      rw [if_pos rfl] at hmid
      omega
    · exact ih hrest entry hmem

theorem maxMap_ok {left right m : Dict String Int} (h : maxMap left right = .ok m) :
    (∀ key, left.getD key 0 ≤ m.getD key 0) ∧ ∀ key value, right.get? key = some value → value ≤ m.getD key 0 := by
  unfold maxMap at h
  obtain ⟨merged, hf, hm⟩ := bind_eq_ok.mp h
  cases hm
  have hget : ∀ key, (merged.sorted stringLe).getD key 0 = merged.getD key 0 := by
    intro key
    simp [Dict.getD]
  refine ⟨fun key => ?_, fun key value hv => ?_⟩
  · rw [hget]
    exact le_foldlM_maxEntry _ hf key
  · rw [hget]
    exact entry_le_foldlM_maxEntry _ hf (key, value) (Dict.get?_eq_some.mp hv)

theorem foldlM_maxEntry_le {key : String} {bound : Int} : ∀ (entries : List (String × Int)) {left m : Dict String Int},
    entries.foldlM maxEntry left = .ok m → left.getD key 0 ≤ bound → (∀ entry ∈ entries, entry.1 = key → entry.2 ≤ bound) →
    m.getD key 0 ≤ bound := by
  intro entries
  induction entries with
  | nil =>
    intro left m h hle _
    cases h
    exact hle
  | cons entry entries ih =>
    intro left m h hle hentries
    rw [List.foldlM_cons] at h
    obtain ⟨mid, hm, hrest⟩ := bind_eq_ok.mp h
    refine ih hrest ?_ fun e he => hentries e (List.mem_cons_of_mem _ he)
    have hmid := getD_maxEntry hm key
    split at hmid
    · rename_i hk
      have := hentries entry List.mem_cons_self hk.symm
      omega
    · omega

/-- A counter is the greater of its two values. -/
theorem maxMap_getD {left right m : Dict String Int} (h : maxMap left right = .ok m) (key : String) :
    m.getD key 0 = ((right.get? key).map (max (left.getD key 0))).getD (left.getD key 0) := by
  obtain ⟨hleft, hright⟩ := maxMap_ok h
  unfold maxMap at h
  obtain ⟨merged, hf, hm⟩ := bind_eq_ok.mp h
  cases hm
  have hget : (merged.sorted stringLe).getD key 0 = merged.getD key 0 := by simp [Dict.getD]
  have hl := hleft key
  rw [hget] at hl ⊢
  cases hr : right.get? key with
  | none =>
    refine le_antisymm (foldlM_maxEntry_le _ hf (le_refl _) fun entry he hk => ?_) hl
    rw [Dict.get?_eq_none] at hr
    exact absurd (List.mem_map.mpr ⟨entry, he, hk⟩) hr
  | some v =>
    have hv := hright key v hr
    rw [hget] at hv
    refine le_antisymm (foldlM_maxEntry_le _ hf (le_max_left _ _) fun entry he hk => ?_) (max_le hl hv)
    have hentry : right.get? key = some entry.2 := Dict.get?_eq_some.mpr (hk ▸ he)
    rw [hr] at hentry
    cases hentry
    exact le_max_right _ _

theorem mergeEntry_ok {merged m : Dict String Json} {entry : String × Json} (h : mergeEntry merged entry = .ok m) :
    m = merged.insert entry.1 entry.2 := by
  unfold mergeEntry at h
  split at h
  · split at h
    · cases h
      rfl
    · cases h
  · cases h
    rfl

theorem foldlM_mergeEntry (key : String) : ∀ (entries : List (String × Json)) {left m : Dict String Json},
    entries.foldlM mergeEntry left = .ok m →
    (∀ value, m.get? key = some value → left.get? key = some value ∨ (key, value) ∈ entries) ∧
    ((left.get? key).isSome ∨ (∃ entry ∈ entries, entry.1 = key) → (m.get? key).isSome) := by
  intro entries
  induction entries with
  | nil =>
    intro left m h
    cases h
    exact ⟨fun _ h => .inl h, fun h => h.elim id fun ⟨_, h, _⟩ => nomatch h⟩
  | cons entry entries ih =>
    intro left m h
    rw [List.foldlM_cons] at h
    obtain ⟨mid, hmid, hrest⟩ := bind_eq_ok.mp h
    obtain ⟨hvalues, hkeys⟩ := ih hrest
    rw [mergeEntry_ok hmid] at hvalues hkeys
    simp only [Dict.get?_insert] at hvalues hkeys
    by_cases hk : key = entry.1
    · simp only [if_pos hk, Option.some.injEq, Option.isSome_some, true_or, true_implies] at hvalues hkeys
      refine ⟨fun value hv => .inr ?_, fun _ => hkeys⟩
      rcases hvalues value hv with rfl | hv
      · rw [hk]
        exact List.mem_cons_self
      · exact List.mem_cons_of_mem _ hv
    · simp only [if_neg hk] at hvalues hkeys
      refine ⟨fun value hv => (hvalues value hv).imp_right (List.mem_cons_of_mem _), fun h => hkeys ?_⟩
      rcases h with h | ⟨e, he, hek⟩
      · exact .inl h
      · rcases List.mem_cons.mp he with rfl | he
        · exact absurd hek.symm hk
        · exact .inr ⟨e, he, hek⟩

/-- Merging keeps the keys of both sides and adds no others. -/
theorem mergeById_ok {left right m : Dict String Json} (h : mergeById left right = .ok m) (key : String) :
    (∀ value, m.get? key = some value → left.get? key = some value ∨ right.get? key = some value) ∧
    ((left.get? key).isSome ∨ (right.get? key).isSome → (m.get? key).isSome) := by
  unfold mergeById at h
  obtain ⟨merged, hf, hm⟩ := bind_eq_ok.mp h
  cases hm
  simp only [Dict.get?_sorted]
  obtain ⟨hvalues, hkeys⟩ := foldlM_mergeEntry key right.entries hf
  refine ⟨fun value hv => (hvalues value hv).imp_right Dict.get?_eq_some.mpr, fun h => hkeys (h.imp_right fun h => ?_)⟩
  obtain ⟨value, hv⟩ := Option.isSome_iff_exists.mp h
  exact ⟨(key, value), Dict.get?_eq_some.mp hv, rfl⟩

theorem mem_setUnion {left right : List String} {key : String} : key ∈ setUnion left right ↔ key ∈ left ∨ key ∈ right := by
  unfold setUnion
  rw [(List.perm_insertionSort _ _).mem_iff, List.mem_dedup, List.mem_append]

/-- The channels of a merged state, each from the update or the state. -/
theorem mergedState_ok {state update m : WorkflowStateV1} (h : mergedState state update = .ok m) :
    (∃ counters, m.counters = some counters ∧
      maxMap (state.counters.getD .empty) (update.counters.getD .empty) = .ok counters) ∧
    m.verification = update.verification.or state.verification ∧ m.review = update.review.or state.review ∧
    m.approval = update.approval.or state.approval ∧ m.cancelled = update.cancelled.or state.cancelled ∧
    m.childIdentity = update.childIdentity.or state.childIdentity ∧ m.route = update.route.or state.route := by
  unfold mergedState at h
  obtain ⟨results, -, h⟩ := bind_eq_ok.mp h
  obtain ⟨childResults, -, h⟩ := bind_eq_ok.mp h
  obtain ⟨counters, hk, h⟩ := bind_eq_ok.mp h
  cases h
  exact ⟨⟨counters, rfl, hk⟩, rfl, rfl, rfl, rfl, rfl, rfl⟩

theorem counter_le_mergedState {state update m : WorkflowStateV1} (h : mergedState state update = .ok m)
    (key : String) : state.counter key ≤ m.counter key := by
  obtain ⟨⟨counters, hm, hmax⟩, -⟩ := mergedState_ok h
  simp only [WorkflowStateV1.counter, hm, Option.getD_some]
  exact (maxMap_ok hmax).1 key

theorem update_counter_le_mergedState {state update m : WorkflowStateV1} (h : mergedState state update = .ok m)
    {key : String} {value : Int} (hv : (update.counters.getD .empty).get? key = some value) :
    value ≤ m.counter key := by
  obtain ⟨⟨counters, hm, hmax⟩, -⟩ := mergedState_ok h
  simp only [WorkflowStateV1.counter, hm, Option.getD_some]
  exact (maxMap_ok hmax).2 key value hv

end Jarvis.Workflows
