/-
  Jarvis.Workflows.Iterators — how often an ITERATE edge is taken.

  Taking an ITERATE edge counts one iteration and records the progress it was taken at, which
  has to be above the progress recorded before. So an iterator's count is at most its recorded
  progress plus one (`Paced`), whatever the loop's body does: merging takes the greater of both
  counters, and nothing else writes them.

  The two counters of an iterator are named by its key, the second with `:progress` after it. A
  key that ends in `:progress` itself names the progress of another iterator by its count
  (`Unmixed` excludes that, and `count_over_progress` shows it).

  While a task is selected, its item is not terminal, so the progress is below the number of
  items, and the count below the bound (`iterator_bound`).
-/
import Jarvis.Workflows.Retries
import Jarvis.Workflows.TaskPlans
import Jarvis.Workflows.Trace

namespace Jarvis.Workflows

variable {spec : WorkflowSpec} {snapshot : WorkflowResolvedSnapshot} {node : WorkflowNode}

/-! ## Merging counters -/

theorem isSome_foldlM_maxEntry {key : String} : ∀ (entries : List (String × Int)) {left m : Dict String Int},
    entries.foldlM maxEntry left = .ok m →
      ((m.get? key).isSome ↔ (left.get? key).isSome ∨ key ∈ entries.map Prod.fst) := by
  intro entries
  induction entries with
  | nil =>
    intro left m h
    cases h
    simp
  | cons entry entries ih =>
    intro left m h
    rw [List.foldlM_cons] at h
    obtain ⟨mid, hmid, hrest⟩ := bind_eq_ok.mp h
    unfold maxEntry at hmid
    split at hmid
    · cases hmid
    · cases hmid
      rw [ih hrest, Dict.get?_insert, List.map_cons, List.mem_cons]
      by_cases hkey : key = entry.1 <;> simp [hkey]

/-- What a merge leaves at a key. -/
theorem maxMap_get? {left right m : Dict String Int} (h : maxMap left right = .ok m) (key : String) :
    m.get? key = ((right.get? key).map (max (left.getD key 0))).or (left.get? key) := by
  have hvalue := maxMap_getD h key
  have hsome : (m.get? key).isSome ↔ (left.get? key).isSome ∨ (right.get? key).isSome := by
    unfold maxMap at h
    obtain ⟨merged, hf, hm⟩ := bind_eq_ok.mp h
    cases hm
    rw [Dict.get?_sorted, isSome_foldlM_maxEntry _ hf, Dict.isSome_get? (d := right)]
    rfl
  unfold Dict.getD at hvalue ⊢
  cases hr : right.get? key with
  | some value =>
    obtain ⟨found, hfound⟩ := Option.isSome_iff_exists.mp (hsome.mpr (.inr (by rw [hr]; rfl)))
    rw [hfound, hr] at hvalue
    rw [hfound]
    exact congrArg some hvalue
  | none =>
    rw [hr] at hvalue hsome
    cases hl : left.get? key with
    | none =>
      rw [hl] at hsome
      simpa using hsome
    | some old =>
      obtain ⟨found, hfound⟩ := Option.isSome_iff_exists.mp (hsome.mpr (.inl (by rw [hl]; rfl)))
      rw [hfound, hl] at hvalue
      rw [hfound]
      exact congrArg some hvalue

theorem foldlM_maxEntry_nonneg : ∀ (entries : List (String × Int)) {left m : Dict String Int},
    entries.foldlM maxEntry left = .ok m → ∀ entry ∈ entries, 0 ≤ entry.2 := by
  intro entries
  induction entries with
  | nil => intro _ _ _ entry h; cases h
  | cons first entries ih =>
    intro left m h entry hmem
    rw [List.foldlM_cons] at h
    obtain ⟨mid, hmid, hrest⟩ := bind_eq_ok.mp h
    rcases List.mem_cons.mp hmem with rfl | hmem
    · unfold maxEntry at hmid
      split at hmid
      · cases hmid
      · omega
    · exact ih hrest entry hmem

theorem maxMap_nonneg {left right m : Dict String Int} (h : maxMap left right = .ok m) {key : String} {value : Int}
    (hv : right.get? key = some value) : 0 ≤ value := by
  unfold maxMap at h
  obtain ⟨merged, hf, -⟩ := bind_eq_ok.mp h
  exact foldlM_maxEntry_nonneg _ hf (key, value) (Dict.get?_eq_some.mp hv)

/-! ## The count and the progress of an iterator -/

/-- The progress recorded for an iterator, `-1` before its first iteration. -/
def recorded (counters : Dict String Int) (key : String) : Int := counters.getD (progressKey key) (-1)

/-- An iterator's count is at most its recorded progress plus one. -/
structure Paced (counters : Dict String Int) (key : String) : Prop where
  count : counters.getD (iterateKey key) 0 ≤ recorded counters key + 1
  floor : -1 ≤ recorded counters key

theorem paced_empty (key : String) : Paced .empty key :=
  ⟨by simp [recorded, Dict.getD], by simp [recorded, Dict.getD]⟩

theorem Paced.merge {left right m : Dict String Int} {key : String} (hl : Paced left key) (hr : Paced right key)
    (h : maxMap left right = .ok m) : Paced m key := by
  have hcount := maxMap_getD h (iterateKey key)
  have hprogress := maxMap_get? h (progressKey key)
  obtain ⟨hlcount, hlfloor⟩ := hl
  obtain ⟨hrcount, hrfloor⟩ := hr
  -- the recorded progress is at least that of either side
  have hbound : recorded left key ≤ recorded m key ∧ recorded right key ≤ recorded m key := by
    unfold recorded Dict.getD at *
    rw [hprogress]
    cases hrp : right.get? (progressKey key) with
    | some value =>
      have hnonneg := maxMap_nonneg h hrp
      cases left.get? (progressKey key) <;> simp
    | none =>
      rw [hrp] at hrfloor
      simpa using hlfloor
  have hmax : m.getD (iterateKey key) 0 ≤ max (left.getD (iterateKey key) 0) (right.getD (iterateKey key) 0) := by
    rw [hcount]
    cases hrc : right.get? (iterateKey key) with
    | some value => simp [Dict.getD, hrc]
    | none => exact le_max_left _ _
  constructor <;> omega

/-- No iterator's key is another's with `:progress` after it. -/
def Unmixed (spec : WorkflowSpec) : Prop :=
  ∀ a ∈ spec.edges, ∀ b ∈ spec.edges, a.kind = .iterate → b.kind = .iterate →
    b.iterationKey.getD "" ≠ a.iterationKey.getD "" ++ ":progress"

instance (spec : WorkflowSpec) : Decidable (Unmixed spec) :=
  inferInstanceAs (Decidable (∀ a ∈ spec.edges, ∀ b ∈ spec.edges, a.kind = .iterate → b.kind = .iterate →
    b.iterationKey.getD "" ≠ a.iterationKey.getD "" ++ ":progress"))

variable (spec) in
/-- Every iterator of the workflow is paced. -/
def PacedState (state : WorkflowStateV1) : Prop :=
  ∀ edge ∈ spec.edges, edge.kind = .iterate → Paced (state.counters.getD .empty) (edge.iterationKey.getD "")

theorem PacedState.merged {state update next : WorkflowStateV1} (hs : PacedState spec state) (hu : PacedState spec update)
    (h : mergedState state update = .ok next) : PacedState spec next := by
  obtain ⟨⟨counters, hc, hmax⟩, -⟩ := mergedState_ok h
  intro edge he hk
  rw [hc, Option.getD_some]
  exact (hs edge he hk).merge (hu edge he hk) hmax

theorem pacedState_of_none {update : WorkflowStateV1} (h : update.counters = none) : PacedState spec update := by
  intro edge _ _
  rw [h]
  exact paced_empty _

/-! ## Taking an ITERATE edge -/

/-- What an iterator at its bound raises. -/
def exceeded (id : String) : Raised := .invariant ("Iterator " ++ id ++ " exceeded its hard bound")

/-- A route, or an error, that is no iterator's. -/
def Uncounted : Except Raised Route → Prop
  | .ok route => ∀ entry ∈ route.2, isRetryKey entry.1 = true
  | .error e => ∀ id, e ≠ exceeded id

theorem ne_exceeded {message : String} (h : message.toList.head? ≠ some 'I') (id : String) :
    Raised.invariant message ≠ exceeded id := by
  intro he
  obtain rfl := Raised.invariant.inj he
  simp [String.toList_append] at h

/-- A route that is not an iterator's sets retry counters only. -/
theorem chooseFrom_cases {fallback : Option WorkflowEdge} {state : WorkflowStateV1} : ∀ {edges : List WorkflowEdge},
    Uncounted (chooseFrom spec snapshot node fallback state edges) ∨
      ∃ edge ∈ edges, edge.kind = .iterate ∧ skips state edge = false ∧
        chooseFrom spec snapshot node fallback state edges = iterateRoute state edge := by
  intro edges
  induction edges with
  | nil =>
    left
    unfold chooseFrom
    split
    · exact ne_exceeded (by simp [String.toList_append])
    · rintro _ ⟨⟩
  | cons edge edges ih =>
    unfold chooseFrom
    split
    · obtain hu | ⟨other, hmem, hother⟩ := ih
      · exact .inl hu
      · exact .inr ⟨other, List.mem_cons_of_mem _ hmem, hother⟩
    · rename_i hskip
      split
      · left
        unfold retryRoute
        split
        · rintro id ⟨⟩
        · split
          · split
            · rintro id ⟨⟩
            · dsimp only
              split
              · -- the budget is spent
                split
                · exact ne_exceeded (by decide)
                · rintro _ ⟨⟩
              · intro entry he
                obtain rfl := List.mem_singleton.mp he
                exact isRetryKey_retryKey node.id _
          · exact ne_exceeded (by decide)
      · rename_i hk
        exact .inr ⟨edge, List.mem_cons_self, hk, by simpa using hskip, rfl⟩
      · left
        rintro _ ⟨⟩

theorem chooseRoute_cases (spec : WorkflowSpec) (snapshot : WorkflowResolvedSnapshot) (node : WorkflowNode)
    (edges : List WorkflowEdge) (state : WorkflowStateV1) :
    Uncounted (chooseRoute spec snapshot node edges state) ∨
      ∃ edge ∈ edges, edge.kind = .iterate ∧ skips state edge = false ∧
        chooseRoute spec snapshot node edges state = iterateRoute state edge := chooseFrom_cases

/-- What it takes to pass an iterator's test of its progress. -/
structure Progresses (state : WorkflowStateV1) (edge : WorkflowEdge) (progress : Int) : Prop where
  read : getPath state (edge.progressPath.getD "") = .int progress
  nonneg : 0 ≤ progress
  more : recorded (state.counters.getD .empty) (edge.iterationKey.getD "") < progress

theorem iterateRoute_ok {state : WorkflowStateV1} {edge : WorkflowEdge} {route : Route}
    (h : iterateRoute state edge = .ok route) : ∃ progress, Progresses state edge progress ∧
      route = (edge.target, [(iterateKey (edge.iterationKey.getD ""), state.counter (iterateKey (edge.iterationKey.getD "")) + 1),
        (progressKey (edge.iterationKey.getD ""), progress)]) := by
  unfold iterateRoute at h
  dsimp only at h
  split at h
  · rename_i progress hread
    split at h
    · cases h
    · rename_i hmore
      split at h
      · split at h
        · cases h
        · cases h
          refine ⟨progress, ⟨hread, by omega, ?_⟩, rfl⟩
          unfold recorded
          omega
      · cases h
  · cases h

/-- The bound is looked at after the progress. -/
theorem iterateRoute_exceeded {state : WorkflowStateV1} {edge : WorkflowEdge} {id : String}
    (h : iterateRoute state edge = .error (exceeded id)) : ∃ progress, Progresses state edge progress ∧
      ∀ bound, edge.maxIterations = some bound → (bound : Int) ≤ state.counter (iterateKey (edge.iterationKey.getD "")) := by
  -- the other message ends in another letter
  have hstuck : Raised.invariant ("Iterator " ++ edge.id ++ " did not make monotonic progress") ≠ exceeded id := by
    intro he
    have hlast := congrArg (fun text => text.toList.reverse.head?) (Raised.invariant.inj he)
    simp [String.toList_append] at hlast
  unfold iterateRoute at h
  dsimp only at h
  split at h
  · rename_i progress hread
    split at h
    · exact absurd (Except.error.inj h) hstuck
    · rename_i hmore
      have hprogress : Progresses state edge progress := by
        refine ⟨hread, by omega, ?_⟩
        unfold recorded
        omega
      split at h
      · rename_i bound hbound
        split at h
        · rename_i hreached
          refine ⟨progress, hprogress, fun other hother => ?_⟩
          rw [hbound] at hother
          cases hother
          exact hreached
        · cases h
      · rename_i hnone
        exact ⟨progress, hprogress, fun other hother => by rw [hnone] at hother; cases hother⟩
  · exact absurd (Except.error.inj h) hstuck

/-! ## The counters of a node's update -/

/-- A node of its own counts its visit at most. -/
theorem wrap_counters {state update : WorkflowStateV1} {attempt : Attempt} (h : wrap spec node state attempt = .ok update) :
    ∀ key value, (update.counters.getD .empty).get? key = some value → key = invocationKey state node.id := by
  have hvisit : ∀ visit : Int, ∀ key value, (Dict.ofList [(invocationKey state node.id, visit)]).get? key = some value →
      key = invocationKey state node.id := by
    intro visit key value hv
    simp only [Dict.ofList, Dict.update, List.foldl_cons, List.foldl_nil, Dict.get?_insert, Dict.get?_empty] at hv
    split at hv
    · assumption
    · cases hv
  rcases wrap_ok h with rfl | ⟨_, cls, -, -, rfl⟩ | ⟨_, -, hf⟩
  · rintro _ _ ⟨⟩
  · exact hvisit _
  · obtain ⟨-, raw, hcomplete, -⟩ := execute_finished hf
    unfold complete at hcomplete
    obtain ⟨_, -, hcompleted⟩ := bind_eq_ok.mp hcomplete
    unfold completed at hcompleted
    dsimp only at hcompleted
    split at hcompleted
    · cases hcompleted
    · cases hcompleted
      exact hvisit _

theorem iterateKey_ne_invocationKey (key : String) (state : WorkflowStateV1) (id : String) :
    iterateKey key ≠ invocationKey state id := by
  intro h
  have hhead := congrArg (fun text => text.toList.head?) h
  simp [iterateKey, invocationKey, String.toList_append] at hhead

theorem progressKey_ne_invocationKey (key : String) (state : WorkflowStateV1) (id : String) :
    progressKey key ≠ invocationKey state id := by
  intro h
  have hhead := congrArg (fun text => text.toList.head?) h
  simp [progressKey, iterateKey, invocationKey, String.toList_append] at hhead

theorem progressKey_inj {a b : String} (h : progressKey a = progressKey b) : a = b := by
  simpa [progressKey, iterateKey] using h

theorem progressKey_eq_iterateKey {a b : String} (h : progressKey a = iterateKey b) : b = a ++ ":progress" := by
  refine iterateKey_inj (h.symm.trans ?_)
  simp [progressKey, iterateKey, String.append_assoc]

theorem paced_of_absent {counters : Dict String Int} {key : String} (hcount : counters.get? (iterateKey key) = none)
    (hprogress : counters.get? (progressKey key) = none) : Paced counters key := by
  constructor <;> simp [recorded, Dict.getD, hcount, hprogress]

theorem wrap_paced {state update : WorkflowStateV1} {attempt : Attempt} (h : wrap spec node state attempt = .ok update) :
    PacedState spec update := by
  intro edge _ _
  refine paced_of_absent ?_ ?_
  · refine Option.eq_none_iff_forall_ne_some.mpr fun value hv => ?_
    exact iterateKey_ne_invocationKey _ state node.id (wrap_counters h _ value hv)
  · refine Option.eq_none_iff_forall_ne_some.mpr fun value hv => ?_
    exact progressKey_ne_invocationKey _ state node.id (wrap_counters h _ value hv)

theorem mem_edges_of_route {edge : WorkflowEdge} {id : String} (h : edge ∈ routeEdges spec id) :
    edge ∈ spec.edges ∧ edge.source = id := by
  obtain ⟨hmem, hsource⟩ := List.mem_filter.mp (mem_routeEdges.mp h)
  exact ⟨hmem, by simpa using hsource⟩

/-- The counters of a route keep every iterator paced. -/
theorem PacedState.routed (hunmixed : Unmixed spec) {state update merged : WorkflowStateV1} {attempt : Attempt} {route : Route}
    (hw : wrap spec node state attempt = .ok update) (hmerged : PacedState spec merged)
    (hr : chooseRoute spec snapshot node (routeEdges spec node.id) merged = .ok route) :
    PacedState spec { update with counters := some ((update.counters.getD .empty).update route.2) } := by
  have hown := wrap_counters hw
  have habsent {key : String} (hkey : key ≠ invocationKey state node.id) :
      (update.counters.getD .empty).get? key = none :=
    Option.eq_none_iff_forall_ne_some.mpr fun value hv => hkey (hown key value hv)
  intro edge he hk
  show Paced ((update.counters.getD .empty).update route.2) _
  have hcount := habsent (iterateKey_ne_invocationKey (edge.iterationKey.getD "") state node.id)
  have hprogress := habsent (progressKey_ne_invocationKey (edge.iterationKey.getD "") state node.id)
  obtain huncounted | ⟨taken, htaken, hkind, -, hroute⟩ := chooseRoute_cases spec snapshot node (routeEdges spec node.id) merged
  · rw [hr] at huncounted
    have hother {key : String} (hkey : isRetryKey key = false) : ∀ entry ∈ route.2, entry.1 ≠ key := by
      rintro entry hentry rfl
      rw [huncounted entry hentry] at hkey
      cases hkey
    refine paced_of_absent ?_ ?_
    · rw [Dict.get?_update_of_not_mem _ _ (hother (isRetryKey_iterate _)), hcount]
    · rw [Dict.get?_update_of_not_mem _ _ (hother (isRetryKey_progress _)), hprogress]
  · obtain ⟨progress, hprogresses, rfl⟩ := iterateRoute_ok (hroute.symm.trans hr)
    have hmem := (mem_edges_of_route htaken).1
    by_cases hsame : edge.iterationKey.getD "" = taken.iterationKey.getD ""
    · obtain ⟨hle, -⟩ := hmerged taken hmem hkind
      have hmore := hprogresses.more
      have hnonneg := hprogresses.nonneg
      rw [hsame]
      have hne := (progressKey_ne (taken.iterationKey.getD "")).symm
      constructor
      · simp only [recorded, Dict.getD, Dict.update, List.foldl_cons, List.foldl_nil, Dict.get?_insert, if_neg hne,
          if_true, Option.getD_some]
        show merged.counter _ + 1 ≤ progress + 1
        show (merged.counters.getD .empty).getD _ 0 + 1 ≤ progress + 1
        omega
      · simp only [recorded, Dict.getD, Dict.update, List.foldl_cons, List.foldl_nil, Dict.get?_insert, if_true,
          Option.getD_some]
        omega
    · -- the counters of another iterator are named apart
      refine paced_of_absent ?_ ?_
      · refine (Dict.get?_update_of_not_mem _ _ fun entry hentry => ?_).trans hcount
        rcases List.mem_cons.mp hentry with rfl | hentry
        · exact fun h => hsame (iterateKey_inj h).symm
        · obtain rfl := List.mem_singleton.mp hentry
          exact fun h => hunmixed taken hmem edge he hkind hk (progressKey_eq_iterateKey h)
      · refine (Dict.get?_update_of_not_mem _ _ fun entry hentry => ?_).trans hprogress
        rcases List.mem_cons.mp hentry with rfl | hentry
        · exact fun h => hunmixed edge he taken hmem hk hkind (progressKey_eq_iterateKey h.symm)
        · obtain rfl := List.mem_singleton.mp hentry
          exact fun h => hsame (progressKey_inj h).symm

theorem PacedState.nodeResult (hunmixed : Unmixed spec) {state next : WorkflowStateV1} {attempt : Attempt}
    (hs : PacedState spec state) (h : Workflows.nodeResult spec snapshot node state attempt = .ok next) :
    PacedState spec next := by
  unfold Workflows.nodeResult at h
  split at h
  · cases h
  · rename_i final hi
    obtain ⟨update, hw, hfinal⟩ := invokeNode_ok hi
    have hu : PacedState spec update := wrap_paced hw
    rcases hfinal with ⟨rfl, -⟩ | ⟨_, -, ⟨rfl, -⟩ | ⟨merged, route, hm, hr, -, -, rfl⟩⟩
    · exact hs.merged hu h
    · refine hs.merged ?_ h
      exact hu
    · have hrouted := PacedState.routed hunmixed hw (hs.merged hu hm) hr
      refine hs.merged ?_ h
      exact hrouted

/-! ## A property of every state of a run -/

/-- The node an action calls, with the state and the attempt. -/
def calls (spec : WorkflowSpec) (r : Run) : Action → Option (WorkflowNode × WorkflowStateV1 × Attempt)
  | .exec attempt =>
    match r.place with
    | .node id => (spec.node? id).map fun node => (node, r.state, attempt)
    | _ => none
  | .child child attempt =>
    match r.place with
    | .parallel _ _ branches =>
      match branches.find? fun b => b.child = child with
      | some b =>
        match b.place with
        | .node id => (spec.node? id).map fun node => (node, b.state, attempt)
        | _ => none
      | none => none
    | _ => none
  | _ => none

theorem calls_exec {r : Run} {attempt called : Attempt} {state : WorkflowStateV1}
    (h : calls spec r (.exec attempt) = some (node, state, called)) :
    called = attempt ∧ ∃ id, r.place = .node id ∧ spec.node? id = some node := by
  simp only [calls] at h
  split at h
  · rename_i id hplace
    obtain ⟨found, hfound, hcalled⟩ := Option.map_eq_some_iff.mp h
    cases hcalled
    exact ⟨rfl, id, hplace, hfound⟩
  · cases h

/-- The states of the main graph and of the child graphs that are running. -/
def Run.states (r : Run) : List WorkflowStateV1 := r.state :: r.branches.map (·.state)

variable (spec snapshot) in
/-- What keeps a property of states through a run: nodes that are called as `ok` asks, the
    identity of a child graph, and the merges. -/
structure Preserved (ok : WorkflowNode → WorkflowStateV1 → Attempt → Prop) (P : WorkflowStateV1 → Prop) : Prop where
  node : ∀ node ∈ spec.nodes, ∀ state attempt next, ok node state attempt → P state →
    nodeResult spec snapshot node state attempt = .ok next → P next
  identity : ∀ state identity, P state → P { state with childIdentity := identity }
  output : ∀ state output next, P state → P output → mergedState state (branchOutput output) = .ok next → P next
  complete : ∀ state next, P state → mergedState state (completeUpdate state) = .ok next → P next

variable (spec) in
/-- Every node that an action calls is called as `ok` asks. -/
def Calls (ok : WorkflowNode → WorkflowStateV1 → Attempt → Prop) (r : Run) (action : Action) : Prop :=
  ∀ node state attempt, calls spec r action = some (node, state, attempt) → ok node state attempt

section Preserved

variable {ok : WorkflowNode → WorkflowStateV1 → Attempt → Prop} {P : WorkflowStateV1 → Prop}

theorem Preserved.mergeBranches (h : Preserved spec snapshot ok P) : ∀ {branches : List Branch} {state next : WorkflowStateV1},
    P state → (∀ b ∈ branches, P b.state) → mergeBranches state branches = .ok next → P next := by
  intro branches
  induction branches with
  | nil =>
    intro state next hs _ hm
    cases hm
    exact hs
  | cons b branches ih =>
    intro state next hs hb hm
    rw [Workflows.mergeBranches] at hm
    split at hm
    · cases hm
    · rename_i mid hmid
      exact ih (h.output _ _ _ hs (hb b List.mem_cons_self) hmid) (fun c hc => hb c (List.mem_cons_of_mem b hc)) hm

/-- A branch that moved keeps the property in every state of the run. -/
theorem states_moveBranch {r : Run} {fanoutId joinId : String} {branches : List Branch} {log : List Execution}
    {moved : Except Raised Branch} (hplace : r.place = .parallel fanoutId joinId branches) (hr : ∀ state ∈ r.states, P state)
    (hmoved : ∀ b, moved = .ok b → P b.state) : ∀ state ∈ (moveBranch r fanoutId joinId branches log moved).states, P state := by
  have hbranches : ∀ b ∈ branches, P b.state := fun b hb =>
    hr b.state (List.mem_cons_of_mem _ (List.mem_map_of_mem (by simpa [Run.branches, hplace] using hb)))
  cases moved with
  | error e =>
    intro state hstate
    obtain rfl := List.mem_singleton.mp hstate
    exact hr r.state List.mem_cons_self
  | ok b =>
    intro state hstate
    rcases List.mem_cons.mp hstate with rfl | hstate
    · exact hr r.state List.mem_cons_self
    · obtain ⟨c, hc, rfl⟩ := List.mem_map.mp hstate
      obtain ⟨old, hold, hreplaced⟩ := List.mem_map.mp hc
      split at hreplaced
      · exact hreplaced ▸ hmoved b rfl
      · exact hreplaced ▸ hbranches old hold

/-- The branches that a node sends are copies of its state. -/
theorem advance_branches {node : WorkflowNode} {next : WorkflowStateV1} {n : Nat} {log : List Execution} :
    ∀ b ∈ Run.branches ⟨next, advance spec node next, n, log⟩, ∃ identity, b.state = { next with childIdentity := identity } := by
  intro b hb
  unfold Run.branches advance at hb
  split at hb
  · rename_i fanoutId joinId branches hadvance
    dsimp only at hadvance
    split at hadvance
    · cases hadvance
    · split at hadvance
      · split at hadvance
        · cases hadvance
        · cases hadvance
          obtain ⟨child, -, rfl⟩ := List.mem_map.mp hb
          exact ⟨_, rfl⟩
      · split at hadvance <;> cases hadvance
  · cases hb

theorem Preserved.step (h : Preserved spec snapshot ok P) {r r' : Run} {action : Action} (hr : ∀ state ∈ r.states, P state)
    (hcalls : Calls spec ok r action) (hs : step spec snapshot r action = some r') : ∀ state ∈ r'.states, P state := by
  have hmain : P r.state := hr r.state List.mem_cons_self
  have hone {s : WorkflowStateV1} {place : Place} {n : Nat} {log : List Execution} (hp : P s)
      (hnone : Run.branches ⟨s, place, n, log⟩ = []) : ∀ state ∈ Run.states ⟨s, place, n, log⟩, P state := by
    intro state hstate
    rw [Run.states, hnone] at hstate
    exact List.mem_singleton.mp hstate ▸ hp
  cases action with
  | start =>
    simp only [Workflows.step] at hs
    split at hs
    · cases hs
      exact hone hmain rfl
    · cases hs
  | exec attempt =>
    simp only [Workflows.step] at hs
    split at hs
    · rename_i id hplace
      obtain ⟨node, hnode, rfl⟩ := Option.map_eq_some_iff.mp hs
      have hcall := hcalls node r.state attempt (by simp [calls, hplace, hnode])
      unfold execMain
      dsimp only
      split
      · exact hone hmain rfl
      · rename_i next hnext
        have hp := h.node node (WorkflowSpec.node?_eq_some.mp hnode).1 _ _ _ hcall hmain hnext
        split
        · exact hone hp rfl
        · intro state hstate
          rcases List.mem_cons.mp hstate with rfl | hstate
          · exact hp
          · obtain ⟨b, hb, rfl⟩ := List.mem_map.mp hstate
            obtain ⟨identity, hb⟩ := advance_branches b hb
            rw [hb]
            exact h.identity next identity hp
    · cases hs
  | child child attempt =>
    simp only [Workflows.step] at hs
    split at hs
    · rename_i fanoutId joinId branches hplace
      split at hs
      · rename_i b hfind
        split at hs
        · rename_i id hbplace
          obtain ⟨node, hnode, rfl⟩ := Option.map_eq_some_iff.mp hs
          have hcall := hcalls node b.state attempt (by simp [calls, hplace, hfind, hbplace, hnode])
          have hb : P b.state := hr b.state (List.mem_cons_of_mem _ (List.mem_map_of_mem
            (by simpa [Run.branches, hplace] using List.mem_of_find?_eq_some hfind)))
          refine states_moveBranch hplace hr fun moved hmoved => ?_
          unfold execBranch at hmoved
          split at hmoved
          · cases hmoved
          · rename_i next hnext
            have hp := h.node node (WorkflowSpec.node?_eq_some.mp hnode).1 _ _ _ hcall hb hnext
            split at hmoved <;> cases hmoved <;> exact hp
        · cases hs
      · cases hs
    · cases hs
  | complete child =>
    simp only [Workflows.step] at hs
    split at hs
    · rename_i fanoutId joinId branches hplace
      split at hs
      · rename_i b hfind
        split at hs
        · cases hs
          have hb : P b.state := hr b.state (List.mem_cons_of_mem _ (List.mem_map_of_mem
            (by simpa [Run.branches, hplace] using List.mem_of_find?_eq_some hfind)))
          refine states_moveBranch hplace hr fun moved hmoved => ?_
          unfold completeBranch at hmoved
          split at hmoved
          · cases hmoved
          · rename_i next hnext
            cases hmoved
            exact h.complete _ _ hb hnext
        · cases hs
      · cases hs
    · cases hs
  | join =>
    simp only [Workflows.step] at hs
    split at hs
    · rename_i fanoutId joinId branches hplace
      split at hs
      · split at hs
        · cases hs
          exact hone hmain rfl
        · rename_i next hnext
          cases hs
          refine hone (h.mergeBranches hmain (fun b hb => ?_) hnext) rfl
          exact hr b.state (List.mem_cons_of_mem _ (List.mem_map_of_mem (by simpa [Run.branches, hplace] using hb)))
      · cases hs
    · cases hs

end Preserved

theorem pacedState_preserved (hunmixed : Unmixed spec) : Preserved spec snapshot (fun _ _ _ => True) (PacedState spec) where
  node _ _ _ _ _ _ hs h := hs.nodeResult hunmixed h
  identity _ _ hs := hs
  output state output next hs ho h := by
    refine hs.merged ?_ h
    exact ho
  complete state next hs h := hs.merged (pacedState_of_none rfl) h

/-! ## The planned items -/

/-- The keys of the items of the channel, where it has items. -/
def planKeys (tasks : Option (Dict String Json)) : Option (List String) :=
  match member tasks "items" with
  | some (.obj items) => some (items.map Prod.fst)
  | _ => none

/-- The iterations that the workflow's iterators allow. -/
def WithinIterators (spec : WorkflowSpec) (count : Nat) : Prop :=
  ∀ edge ∈ spec.edges, edge.kind = .iterate → ∀ bound, edge.maxIterations = some bound → count ≤ bound

variable (spec) in
/-- The channel is empty, or has a plan within the iterators' limits. -/
def Planned (tasks : Option (Dict String Json)) : Prop :=
  (∀ key, member tasks key = none) ∨ ∃ keys, planKeys tasks = some keys ∧ WithinIterators spec keys.length

/-- A handler writes a plan as an architect, and otherwise moves the items it finds. -/
structure MovesItems (node : WorkflowNode) (state update : WorkflowStateV1) : Prop where
  plan : update.tasks.isSome → (planKeys update.tasks).isSome
  moved : update.tasks.isSome → node.type ≠ .architect →
    ∃ keys old, planKeys update.tasks = some keys ∧ planKeys state.tasks = some old ∧ keys.Perm old

/-- What the validation asks of an ITERATE edge. -/
theorem Checked.iterator (h : Checked spec snapshot) {edge : WorkflowEdge} (he : edge ∈ spec.edges) (hk : edge.kind = .iterate) :
    edge.progressPath = some "$.tasks.terminal_count" ∧
      (∀ node ∈ spec.nodes, node.id = edge.source → node.type = .taskDispatch) ∧
      ∀ node ∈ spec.nodes, ∀ maxTasks, node.config = .architect maxTasks → maxTasks ≤ edge.maxIterations.getD 0 := by
  have hissues : ∃ seen, iterateIssues spec seen edge = [] := by
    have hg := h.graph
    unfold graphIssues at hg
    simp only [List.append_eq_nil_iff] at hg
    have hedges := hg.2
    generalize ([] : List String) = seen at hedges
    generalize spec.edges = edges at he hedges
    induction edges generalizing seen with
    | nil => cases he
    | cons first edges ih =>
      rw [edgeGraphIssues] at hedges
      simp only [List.append_eq_nil_iff] at hedges
      obtain ⟨⟨⟨-, hiterate⟩, -⟩, hrest⟩ := hedges
      rcases List.mem_cons.mp he with rfl | he
      · rw [if_pos hk] at hiterate
        exact ⟨seen, hiterate⟩
      · exact ih _ he hrest
  obtain ⟨seen, hissues⟩ := hissues
  unfold iterateIssues at hissues
  simp only [List.append_eq_nil_iff, check_eq_nil, Bool.or_eq_false_iff, Bool.not_eq_false', bne_eq_false_iff_eq,
    List.flatMap_eq_nil_iff] at hissues
  obtain ⟨⟨⟨⟨htype, hpath⟩, -⟩, -⟩, harchitect⟩ := hissues
  refine ⟨hpath, fun node hn hid => ?_, fun node hn maxTasks hconfig => ?_⟩
  · simpa [isType, ← hid, WorkflowSpec.node?_of_mem hn] using htype
  · have := harchitect node hn
    rw [hconfig] at this
    simpa using this

theorem mergedState_tasks {state update next : WorkflowStateV1} (h : mergedState state update = .ok next) :
    next.tasks = update.tasks.or state.tasks := by
  unfold mergedState at h
  obtain ⟨_, -, h⟩ := bind_eq_ok.mp h
  obtain ⟨_, -, h⟩ := bind_eq_ok.mp h
  obtain ⟨_, -, h⟩ := bind_eq_ok.mp h
  cases h
  rfl

theorem member_update {tasks : Dict String Json} {entries : List (String × Json)} {key : String}
    (h : ∀ entry ∈ entries, entry.1 ≠ key) : member (some (tasks.update entries)) key = member (some tasks) key :=
  Dict.get?_update_of_not_mem entries tasks h

/-- A dispatch leaves the items, and without items it leaves the channel. -/
theorem dispatch_ok {state raw : WorkflowStateV1} (h : dispatch state = .ok raw) :
    (∃ items ready, member state.tasks "items" = some (.obj items) ∧
      readyTasks items (withStatus items ["completed"]) (items.insertionSort fun a b => stringLe a.1 b.1) = .ok ready ∧
      member raw.tasks "items" = some (.obj items) ∧
      member raw.tasks "terminal_count" = some (.int (withStatus items ["completed", "failed", "cancelled"]).length) ∧
      member raw.tasks "current_task" = some ((ready.head?.map Json.str).getD .null)) ∨
    (planKeys state.tasks = none ∧ ∀ key, member raw.tasks key = member state.tasks key) := by
  unfold dispatch at h
  dsimp only at h
  split at h
  · rename_i items hitems
    obtain ⟨ready, hready, h⟩ := bind_eq_ok.mp h
    cases h
    refine .inl ⟨items, ready, hitems, hready, ?_, ?_, ?_⟩
    · rw [member_update (by simp)]
      exact hitems
    · simp [member, Dict.update, Dict.get?_insert]
    · simp [member, Dict.update]
  · rename_i hnone
    cases h
    refine .inr ⟨?_, fun key => rfl⟩
    unfold planKeys
    split
    · rename_i items hitems
      exact absurd hitems (hnone items)
    · rfl

theorem lookup_of_textOf {members : List (String × Json)} {key text : String} (h : textOf (.obj members) key = some text) :
    members.lookup key = some (.str text) := by
  unfold textOf Json.member? at h
  split at h
  · rename_i hlookup
    cases h
    exact hlookup
  · cases h

/-- A ready task is an item that is not terminal. -/
theorem mem_readyTasks {items : List (String × Json)} {completed : List String} : ∀ {entries : List (String × Json)}
    {ready : List String}, readyTasks items completed entries = .ok ready → ∀ key ∈ ready,
      ∃ item, (key, item) ∈ entries ∧ ∀ text, textOf item "status" = some text → text = "pending" := by
  intro entries
  induction entries with
  | nil =>
    intro ready h key hkey
    cases h
    cases hkey
  | cons entry entries ih =>
    obtain ⟨name, item⟩ := entry
    intro ready h key hkey
    unfold readyTasks at h
    split at h
    · rename_i members
      split at h
      · cases h
      · rename_i dependencies hdeps
        obtain ⟨rest, hrest, h⟩ := bind_eq_ok.mp h
        cases h
        have hlater : key ∈ rest → ∃ item, (key, item) ∈ (name, Json.obj members) :: entries ∧
            ∀ text, textOf item "status" = some text → text = "pending" := by
          intro hk
          obtain ⟨item, hmem, hitem⟩ := ih hrest key hk
          exact ⟨item, List.mem_cons_of_mem _ hmem, hitem⟩
        cases hlookup : members.lookup "status" with
        | none =>
          simp only [hlookup] at hkey
          split at hkey
          · rcases List.mem_cons.mp hkey with rfl | hkey
            · refine ⟨_, List.mem_cons_self, fun text htext => ?_⟩
              rw [lookup_of_textOf htext] at hlookup
              cases hlookup
            · exact hlater hkey
          · exact hlater hkey
        | some status =>
          simp only [hlookup] at hkey
          split at hkey
          · rename_i hready
            rcases List.mem_cons.mp hkey with rfl | hkey
            · refine ⟨_, List.mem_cons_self, fun text htext => ?_⟩
              rw [lookup_of_textOf htext] at hlookup
              cases hlookup
              rw [Bool.and_eq_true] at hready
              simpa [Json.pyEq, Json.eqBy, Scalar.pyEq, Scalar.number] using hready.1
            · exact hlater hkey
          · exact hlater hkey
    · cases h

/-- While a task is selected, not every item is terminal. -/
theorem terminal_lt {items : List (String × Json)} {completed ready : List String} {key : String}
    (h : readyTasks items completed (items.insertionSort fun a b => stringLe a.1 b.1) = .ok ready) (hkey : ready.head? = some key) :
    (withStatus items ["completed", "failed", "cancelled"]).length < items.length := by
  obtain ⟨item, hmem, hstatus⟩ := mem_readyTasks h key (List.mem_of_head? hkey)
  unfold withStatus
  rw [List.length_map]
  refine List.length_filter_lt_length_iff_exists.mpr ⟨(key, item), (List.perm_insertionSort _ items).mem_iff.mp hmem, ?_⟩
  intro hterminal
  obtain ⟨text, htext, hin⟩ := (Option.any_eq_true _ _).mp hterminal
  rw [hstatus text htext] at hin
  simp at hin

/-- What a node leaves in the channel: nothing, a dispatch, or what its handler wrote. -/
theorem wrap_tasks {state update : WorkflowStateV1} {attempt : Attempt} (h : wrap spec node state attempt = .ok update) :
    update.tasks = none ∨
    (node.type = .taskDispatch ∧ ∃ raw, dispatch state = .ok raw ∧ update.tasks = raw.tasks) ∨
    ∃ raw c, attempt = .handled (.returns raw) c ∧ update.tasks = raw.tasks ∧ architectChecks node raw = .ok () := by
  rcases wrap_ok h with rfl | ⟨_, cls, -, -, rfl⟩ | ⟨result, hattempt, hf⟩
  · exact .inl rfl
  · exact .inl rfl
  · obtain ⟨-, raw, hcomplete, hraw⟩ := execute_finished hf
    unfold complete at hcomplete
    obtain ⟨_, hchecks, hcompleted⟩ := bind_eq_ok.mp hcomplete
    have hreset : (resets spec node state raw).tasks = raw.tasks := by
      unfold resets
      split
      · split <;> rfl
      · rfl
      · rfl
    have hsame : update.tasks = raw.tasks := by
      unfold completed at hcompleted
      dsimp only at hcompleted
      split at hcompleted
      · cases hcompleted
      · cases hcompleted
        exact hreset
    rcases hraw with ⟨-, hresult, -⟩ | ⟨-, hinternal⟩
    · refine .inr (.inr ⟨raw, false, hattempt.trans (by rw [hresult]), hsame, ?_⟩)
      unfold architectChecks at hchecks ⊢
      rw [hreset] at hchecks
      exact hchecks
    · unfold internal at hinternal
      split at hinternal
      · rename_i hconfig
        exact .inr (.inl ⟨by simp [WorkflowNode.type, hconfig], raw, hinternal, hsame⟩)
      · cases hinternal
        exact .inl hsame
      · unfold joinUpdate at hinternal
        dsimp only at hinternal
        split at hinternal
        · cases hinternal
        · cases hinternal
          exact .inl hsame
      · obtain ⟨status, -, hinternal⟩ := bind_eq_ok.mp hinternal
        cases hinternal
        exact .inl hsame
      · cases hinternal
        exact .inl hsame

theorem member_or {written kept : Option (Dict String Json)} {key : String} (h : ∀ key, member written key = member kept key) :
    member (written.or kept) key = member kept key := by
  cases written with
  | none => rfl
  | some tasks => exact h key

theorem Planned.congr {a b : Option (Dict String Json)} (h : ∀ key, member a key = member b key) (hb : Planned spec b) :
    Planned spec a := by
  have hkeys : planKeys a = planKeys b := by simp only [planKeys, h]
  unfold Planned at hb ⊢
  rw [hkeys]
  exact hb.imp_left fun hnone key => (h key).trans (hnone key)

theorem or_of_member {written kept : Option (Dict String Json)} {key : String} {value : Json} (h : member written key = some value) :
    written.or kept = written := by
  cases written with
  | none => cases h
  | some tasks => rfl

variable (spec) in
/-- What the iterators rely on when a node is called: its handler moves items between statuses,
    and no ITERATE edge is taken from it without a selected task. -/
structure Orderly (node : WorkflowNode) (state : WorkflowStateV1) (attempt : Attempt) : Prop where
  items : ∀ update cancelled, attempt = .handled (.returns update) cancelled → MovesItems node state update
  selected : ∀ update merged, wrap spec node state attempt = .ok update → mergedState state update = .ok merged →
    ∀ edge ∈ routeEdges spec node.id, edge.kind = .iterate → skips merged edge = false →
      getPath merged "$.tasks.current_task" ≠ .null

/-- An architect's plan is within its bound. -/
theorem architectChecks_bound {update : WorkflowStateV1} {maxTasks : Nat} {keys : List String}
    (hconfig : node.config = .architect maxTasks) (hkeys : planKeys update.tasks = some keys)
    (h : architectChecks node update = .ok ()) : keys.length ≤ maxTasks := by
  unfold planKeys at hkeys
  split at hkeys
  · rename_i items hitems
    cases hkeys
    unfold member at hitems
    simp only [architectChecks, hconfig, hitems, Option.getD_some] at h
    split at h
    · split at h
      · cases h
      · rename_i hbound
        rw [List.length_map]
        omega
    · cases h
  · cases hkeys

/-- A node leaves a plan within the iterators' limits. -/
theorem Planned.wrap (h : Checked spec snapshot) (hn : node ∈ spec.nodes) {state update : WorkflowStateV1} {attempt : Attempt}
    (ho : Orderly spec node state attempt) (hp : Planned spec state.tasks)
    (hw : Workflows.wrap spec node state attempt = .ok update) : Planned spec (update.tasks.or state.tasks) := by
  obtain hnone | ⟨-, raw, hdispatch, hsame⟩ | ⟨raw, cancelled, hattempt, hsame, hchecks⟩ := wrap_tasks hw
  · rw [hnone]
    exact hp
  · rw [hsame]
    obtain ⟨items, ready, hitems, -, hraw, -⟩ | ⟨-, hkept⟩ := dispatch_ok hdispatch
    · rw [or_of_member hraw]
      rcases hp with hempty | ⟨keys, hkeys, hwithin⟩
      · rw [hempty] at hitems
        cases hitems
      · refine .inr ⟨keys, ?_, hwithin⟩
        simp only [planKeys, hitems] at hkeys
        simp only [planKeys, hraw, hkeys]
    · exact Planned.congr (fun key => member_or hkept) hp
  · rw [hsame]
    cases hraw : raw.tasks with
    | none => exact hp
    | some tasks =>
      have hwritten : raw.tasks.isSome := by rw [hraw]; rfl
      have hmoves := ho.items raw cancelled hattempt
      rw [Option.some_or, ← hraw]
      by_cases harchitect : node.type = .architect
      · obtain ⟨keys, hkeys⟩ := Option.isSome_iff_exists.mp (hmoves.plan hwritten)
        refine .inr ⟨keys, hkeys, fun edge he hk bound hbound => ?_⟩
        obtain ⟨maxTasks, hconfig⟩ : ∃ maxTasks, node.config = .architect maxTasks := by
          unfold WorkflowNode.type at harchitect
          split at harchitect <;> first | exact ⟨_, by assumption⟩ | cases harchitect
        have hlimit := (h.iterator he hk).2.2 node hn maxTasks hconfig
        have hlength := architectChecks_bound hconfig hkeys hchecks
        rw [hbound, Option.getD_some] at hlimit
        omega
      · obtain ⟨keys, old, hkeys, hold, hperm⟩ := hmoves.moved hwritten harchitect
        rcases hp with hempty | ⟨keys', hkeys', hwithin⟩
        · simp only [planKeys, hempty] at hold
          cases hold
        · rw [hold] at hkeys'
          cases hkeys'
          exact .inr ⟨keys, hkeys, by rw [hperm.length_eq]; exact hwithin⟩

theorem Planned.nodeResult (h : Checked spec snapshot) (hn : node ∈ spec.nodes) {state next : WorkflowStateV1}
    {attempt : Attempt} (ho : Orderly spec node state attempt) (hp : Planned spec state.tasks)
    (hr : Workflows.nodeResult spec snapshot node state attempt = .ok next) : Planned spec next.tasks := by
  unfold Workflows.nodeResult at hr
  split at hr
  · cases hr
  · rename_i final hi
    obtain ⟨update, hw, hfinal⟩ := invokeNode_ok hi
    have hsame : final.tasks = update.tasks := by
      rcases hfinal with ⟨rfl, -⟩ | ⟨_, -, ⟨rfl, -⟩ | ⟨_, _, -, -, -, -, rfl⟩⟩ <;> rfl
    rw [mergedState_tasks hr, hsame]
    exact hp.wrap h hn ho hw

/-! ## The bound is not reached -/

theorem foldlM_mergeEntry_error {e : Raised} : ∀ (entries : List (String × Json)) {left : Dict String Json},
    entries.foldlM mergeEntry left = .error e → ∃ key, e = .invariant ("Conflicting completion for identity " ++ key) := by
  intro entries
  induction entries with
  | nil =>
    intro left h
    cases h
  | cons entry entries ih =>
    intro left h
    rw [List.foldlM_cons] at h
    obtain h | ⟨_, -, h⟩ := bind_eq_error.mp h
    · unfold mergeEntry at h
      split at h
      · split at h
        · cases h
        · cases h
          exact ⟨entry.1, rfl⟩
      · cases h
    · exact ih h

theorem foldlM_maxEntry_error {e : Raised} : ∀ (entries : List (String × Int)) {left : Dict String Int},
    entries.foldlM maxEntry left = .error e → e = .invariant "Counters must be nonnegative integers" := by
  intro entries
  induction entries with
  | nil =>
    intro left h
    cases h
  | cons entry entries ih =>
    intro left h
    rw [List.foldlM_cons] at h
    obtain h | ⟨_, -, h⟩ := bind_eq_error.mp h
    · unfold maxEntry at h
      split at h
      · cases h
        rfl
      · cases h
    · exact ih h

theorem mergeById_error {left right : Dict String Json} {e : Raised} (h : mergeById left right = .error e) :
    ∃ key, e = .invariant ("Conflicting completion for identity " ++ key) := by
  unfold mergeById at h
  obtain h | ⟨_, -, h⟩ := bind_eq_error.mp h
  · exact foldlM_mergeEntry_error _ h
  · cases h

theorem maxMap_error {left right : Dict String Int} {e : Raised} (h : maxMap left right = .error e) :
    e = .invariant "Counters must be nonnegative integers" := by
  unfold maxMap at h
  obtain h | ⟨_, -, h⟩ := bind_eq_error.mp h
  · exact foldlM_maxEntry_error _ h
  · cases h

theorem mergedState_error {state update : WorkflowStateV1} {e : Raised} (h : mergedState state update = .error e) (id : String) :
    e ≠ exceeded id := by
  have hresults {left right : Dict String Json} (he : mergeById left right = .error e) : e ≠ exceeded id := by
    obtain ⟨key, rfl⟩ := mergeById_error he
    exact ne_exceeded (by simp [String.toList_append]) id
  unfold mergedState at h
  obtain h | ⟨_, -, h⟩ := bind_eq_error.mp h
  · exact hresults h
  obtain h | ⟨_, -, h⟩ := bind_eq_error.mp h
  · exact hresults h
  obtain h | ⟨_, -, h⟩ := bind_eq_error.mp h
  · rw [maxMap_error h]
    exact ne_exceeded (by decide) id
  · cases h

/-- The middleware blocks; it raises nothing else. -/
theorem wrap_error {state : WorkflowStateV1} {attempt : Attempt} {e : Raised} (h : wrap spec node state attempt = .error e)
    (id : String) : e ≠ exceeded id := by
  have hblocked {message : String} : Raised.blocked message ≠ exceeded id := fun he => nomatch he
  unfold wrap at h
  split at h
  · cases h
  · obtain h | ⟨_, -, h⟩ := bind_eq_error.mp h
    · unfold classify at h
      split at h
      · cases h
      · cases h
      · split at h
        · cases h
          exact hblocked
        · cases h
      · cases h
        exact hblocked
      · cases h
        exact hblocked
    · obtain h | ⟨_, -, h⟩ := bind_eq_error.mp h
      · unfold reportedChecks at h
        split at h
        · cases h
        · split at h
          · cases h
            exact hblocked
          · split at h
            · cases h
              exact hblocked
            · split at h
              · cases h
                exact hblocked
              · cases h
        · cases h
          exact hblocked
      · cases h

/-- Only a handler's failure is classified. -/
theorem execute_failed {state : WorkflowStateV1} {result : HandlerResult} {cls : FailureClass}
    (h : execute spec node state result = .failed cls) : (nodeDefinitions node.type).external = true := by
  unfold execute at h
  split at h
  · cases h
  · split at h
    · assumption
    · unfold Executed.of at h
      split at h <;> cases h

/-- A dispatch node that is not cancelled has dispatched. -/
theorem wrap_dispatch (htype : node.type = .taskDispatch) {state update : WorkflowStateV1} {attempt : Attempt}
    (hw : wrap spec node state attempt = .ok update) (hc : update.cancelled ≠ some true) :
    ∃ raw, dispatch state = .ok raw ∧ update.tasks = raw.tasks := by
  have hinner : (nodeDefinitions node.type).external = false := by rw [htype]; rfl
  rcases wrap_ok hw with rfl | ⟨_, cls, -, hf, -⟩ | ⟨_, -, hf⟩
  · exact absurd rfl hc
  · rw [execute_failed hf] at hinner
    cases hinner
  · obtain ⟨-, raw, hcomplete, ⟨hexternal, -⟩ | ⟨-, hinternal⟩⟩ := execute_finished hf
    · rw [hexternal] at hinner
      cases hinner
    · obtain ⟨_, -, hcompleted⟩ := bind_eq_ok.mp hcomplete
      refine ⟨raw, ?_, ?_⟩
      · unfold WorkflowNode.type at htype
        split at htype <;> cases htype
        rename_i hconfig
        rw [internal, hconfig] at hinternal
        exact hinternal
      · rw [resets, htype] at hcompleted
        unfold completed at hcompleted
        dsimp only at hcompleted
        split at hcompleted
        · cases hcompleted
        · cases hcompleted
          rfl

/-- While a task is selected, an iterator whose plan is within its limit is below its bound. -/
theorem not_exceeded (h : Checked spec snapshot) (hn : node ∈ spec.nodes) {state update merged : WorkflowStateV1}
    {attempt : Attempt} (ho : Orderly spec node state attempt) (hp : Planned spec state.tasks)
    (hw : wrap spec node state attempt = .ok update) (hc : update.cancelled ≠ some true)
    (hm : mergedState state update = .ok merged) (hpaced : PacedState spec merged) (id : String) :
    chooseRoute spec snapshot node (routeEdges spec node.id) merged ≠ .error (exceeded id) := by
  intro hr
  obtain huncounted | ⟨edge, he, hk, hskip, hroute⟩ := chooseRoute_cases spec snapshot node (routeEdges spec node.id) merged
  · rw [hr] at huncounted
    exact huncounted id rfl
  obtain ⟨hmem, hsource⟩ := mem_edges_of_route he
  obtain ⟨hpath, htype, -⟩ := h.iterator hmem hk
  obtain ⟨progress, hprogress, hreached⟩ := iterateRoute_exceeded (hroute.symm.trans hr)
  obtain ⟨raw, hdispatch, hsame⟩ := wrap_dispatch (htype node hn hsource.symm) hw hc
  have hselected := ho.selected update merged hw hm edge he hk hskip
  have htasks := mergedState_tasks hm
  rw [hsame] at htasks
  have hread : member merged.tasks "terminal_count" = some (.int progress) := by
    have := hprogress.read
    rw [hpath] at this
    show _ = some (Json.scalar (.int progress))
    unfold getPath lookup at this
    cases hfound : member merged.tasks "terminal_count" with
    | none =>
      rw [hfound] at this
      cases this
    | some value =>
      rw [hfound, Option.getD_some] at this
      exact congrArg some this
  obtain ⟨items, ready, hitems, hready, hraw, hterminal, hcurrent⟩ | ⟨hnone, hkept⟩ := dispatch_ok hdispatch
  · rw [or_of_member hraw] at htasks
    rw [htasks, hterminal] at hread
    obtain ⟨key, hkey⟩ : ∃ key, ready.head? = some key := by
      refine Option.ne_none_iff_exists'.mp fun hempty => hselected ?_
      unfold getPath lookup
      rw [htasks, hcurrent, hempty]
      rfl
    have hlt := terminal_lt hready hkey
    obtain ⟨bound, hbound⟩ := Option.isSome_iff_exists.mp (edge.iterate_bound hk).2.2
    have hwithin : items.length ≤ bound := by
      rcases hp with hempty | ⟨keys, hkeys, hwithin⟩
      · rw [hempty] at hitems
        cases hitems
      · simp only [planKeys, hitems, Option.some_inj] at hkeys
        have := hwithin edge hmem hk bound hbound
        rw [← hkeys, List.length_map] at this
        exact this
    have hcount := (hpaced edge hmem hk).count
    have hmore := hprogress.more
    have hover := hreached bound hbound
    unfold WorkflowStateV1.counter at hover
    simp only [Option.some_inj, Json.scalar.injEq, Scalar.int.injEq] at hread
    omega
  · -- without items there is no progress to read
    rcases hp with hempty | ⟨keys, hkeys, -⟩
    · rw [htasks, member_or hkept, hempty] at hread
      cases hread
    · rw [hnone] at hkeys
      cases hkeys

theorem nodeResult_not_exceeded (h : Checked spec snapshot) (hn : node ∈ spec.nodes)
    {state : WorkflowStateV1} {attempt : Attempt} (ho : Orderly spec node state attempt) (hp : Planned spec state.tasks)
    (hs : PacedState spec state) (id : String) : nodeResult spec snapshot node state attempt ≠ .error (exceeded id) := by
  intro hr
  unfold nodeResult at hr
  split at hr
  · rename_i e hi
    cases hr
    unfold invokeNode at hi
    obtain hw | ⟨update, hw, hi⟩ := bind_eq_error.mp hi
    · exact wrap_error hw id rfl
    split at hi
    · cases hi
    · rename_i hc
      dsimp only at hi
      split at hi
      · cases hi
      · obtain hm | ⟨merged, hm, hi⟩ := bind_eq_error.mp hi
        · exact mergedState_error hm id rfl
        obtain hroute | ⟨route, -, hi⟩ := bind_eq_error.mp hi
        · exact not_exceeded h hn ho hp hw hc hm (hs.merged (wrap_paced hw) hm) id hroute
        · cases hi
  · exact mergedState_error hr id rfl

/-! ## Runs -/

/-- What the iterators keep of a state. -/
structure Bounded (spec : WorkflowSpec) (state : WorkflowStateV1) : Prop where
  paced : PacedState spec state
  planned : Planned spec state.tasks

theorem bounded_preserved (h : Checked spec snapshot) (hunmixed : Unmixed spec) :
    Preserved spec snapshot (Orderly spec) (Bounded spec) where
  node node hn _ _ _ ho hs hr := ⟨hs.paced.nodeResult hunmixed hr, hs.planned.nodeResult h hn ho hr⟩
  identity _ _ hs := ⟨hs.paced, hs.planned⟩
  output state output next hs ho hm := by
    have hpaced : Preserved spec snapshot (fun _ _ _ => True) (PacedState spec) := pacedState_preserved hunmixed
    refine ⟨hpaced.output state output next hs.paced ho.paced hm, ?_⟩
    rw [mergedState_tasks hm]
    exact hs.planned
  complete state next hs hm := by
    have hpaced : Preserved spec snapshot (fun _ _ _ => True) (PacedState spec) := pacedState_preserved hunmixed
    refine ⟨hpaced.complete state next hs.paced hm, ?_⟩
    rw [mergedState_tasks hm]
    exact hs.planned

theorem bounded_empty (spec : WorkflowSpec) : Bounded spec {} :=
  ⟨fun _ _ _ => paced_empty _, .inl fun _ => rfl⟩

theorem mergeBranches_error {e : Raised} (id : String) : ∀ {branches : List Branch} {state : WorkflowStateV1},
    mergeBranches state branches = .error e → e ≠ exceeded id := by
  intro branches
  induction branches with
  | nil =>
    intro state h
    cases h
  | cons b branches ih =>
    intro state h
    rw [mergeBranches] at h
    split at h
    · rename_i e' hm
      cases h
      exact mergedState_error hm id
    · exact ih h

/-- A run whose nodes are called in order does not raise at an iterator's bound. -/
theorem step_not_exceeded (h : Checked spec snapshot) {r r' : Run} {action : Action}
    (hr : ∀ state ∈ r.states, Bounded spec state) (hcalls : Calls spec (Orderly spec) r action)
    (hs : step spec snapshot r action = some r') (id : String) : r'.place ≠ .raised (exceeded id) := by
  have hmain : Bounded spec r.state := hr r.state List.mem_cons_self
  have hmoved {fanoutId joinId : String} {branches : List Branch} {log : List Execution} {moved : Except Raised Branch}
      (hne : moved ≠ .error (exceeded id)) :
      (moveBranch r fanoutId joinId branches log moved).place ≠ .raised (exceeded id) := by
    unfold moveBranch
    split
    · rintro ⟨rfl⟩
      exact hne rfl
    · exact fun hp => nomatch hp
  cases action with
  | start =>
    simp only [Workflows.step] at hs
    split at hs
    · cases hs
      exact fun hp => nomatch hp
    · cases hs
  | exec attempt =>
    simp only [Workflows.step] at hs
    split at hs
    · rename_i node_id hplace
      obtain ⟨node, hnode, rfl⟩ := Option.map_eq_some_iff.mp hs
      have hcall := hcalls node r.state attempt (by simp [calls, hplace, hnode])
      have hn := (WorkflowSpec.node?_eq_some.mp hnode).1
      unfold execMain
      dsimp only
      split
      · rename_i e he
        rintro ⟨rfl⟩
        exact nodeResult_not_exceeded h hn hcall hmain.planned hmain.paced id he
      · rename_i next hnext
        have hadvance : advance spec node next ≠ .raised (exceeded id) := by
          unfold advance
          split
          · exact fun hp => nomatch hp
          · split
            · split
              · exact fun hp => ne_exceeded (by decide) id (Place.raised.inj hp)
              · exact fun hp => nomatch hp
            · split <;> exact fun hp => nomatch hp
        split
        · exact fun hp => nomatch hp
        · exact hadvance
    · cases hs
  | child child attempt =>
    simp only [Workflows.step] at hs
    split at hs
    · rename_i fanoutId joinId branches hplace
      split at hs
      · rename_i b hfind
        split at hs
        · rename_i node_id hbplace
          obtain ⟨node, hnode, rfl⟩ := Option.map_eq_some_iff.mp hs
          have hcall := hcalls node b.state attempt (by simp [calls, hplace, hfind, hbplace, hnode])
          have hb : Bounded spec b.state := hr b.state (List.mem_cons_of_mem _ (List.mem_map_of_mem
            (by simpa [Run.branches, hplace] using List.mem_of_find?_eq_some hfind)))
          refine hmoved fun hexec => ?_
          unfold execBranch at hexec
          split at hexec
          · rename_i e he
            cases hexec
            exact nodeResult_not_exceeded h (WorkflowSpec.node?_eq_some.mp hnode).1 hcall hb.planned hb.paced id he
          · split at hexec <;> cases hexec
        · cases hs
      · cases hs
    · cases hs
  | complete child =>
    simp only [Workflows.step] at hs
    split at hs
    · split at hs
      · rename_i b hfind
        split at hs
        · cases hs
          refine hmoved fun hcomplete => ?_
          unfold completeBranch at hcomplete
          split at hcomplete
          · rename_i e he
            cases hcomplete
            exact mergedState_error he id rfl
          · cases hcomplete
        · cases hs
      · cases hs
    · cases hs
  | join =>
    simp only [Workflows.step] at hs
    split at hs
    · split at hs
      · split at hs
        · rename_i e he
          cases hs
          rintro ⟨rfl⟩
          exact mergeBranches_error id he rfl
        · cases hs
          exact fun hp => nomatch hp
      · cases hs
    · cases hs

theorem mem_normalizeWorkflow_edges {edge : WorkflowEdge} : edge ∈ (normalizeWorkflow spec).edges ↔ edge ∈ spec.edges :=
  (List.perm_insertionSort _ spec.edges).mem_iff

theorem Unmixed.normalize (h : Unmixed spec) : Unmixed (normalizeWorkflow spec) := fun a ha b hb =>
  h a (mem_normalizeWorkflow_edges.mp ha) b (mem_normalizeWorkflow_edges.mp hb)

/-- Where no iteration key is another's with `:progress` after it, the count of an iterator is at
    most its recorded progress plus one in every state of every run; and a run whose nodes are
    called in order does not raise at an iterator's bound. -/
theorem iterator_bound {digests : Digests} (h : (validateWorkflow digests spec (some snapshot)).1 = true)
    (hunmixed : Unmixed spec) :
    (∀ r, Steps.Reach (step (normalizeWorkflow spec) snapshot) Run.init r → ∀ state ∈ r.states, ∀ edge ∈ spec.edges,
      edge.kind = .iterate → state.counter (iterateKey (edge.iterationKey.getD "")) ≤
        recorded (state.counters.getD .empty) (edge.iterationKey.getD "") + 1) ∧
    ∀ r, Steps.ReachIf (step (normalizeWorkflow spec) snapshot)
        (Calls (normalizeWorkflow spec) (Orderly (normalizeWorkflow spec))) Run.init r →
      ∀ id, r.place ≠ .raised (exceeded id) := by
  have hchecked := checked_of_valid h
  have hkeys := hunmixed.normalize
  constructor
  · intro r hr state hstate edge he hk
    have hpaced : ∀ state ∈ r.states, PacedState (normalizeWorkflow spec) state := by
      refine hr.invariant (fun r => ∀ state ∈ r.states, PacedState (normalizeWorkflow spec) state) ?_ ?_
      · intro state hstate
        obtain rfl := List.mem_singleton.mp hstate
        exact (bounded_empty _).paced
      · intro r action r' hp _ hs
        exact (pacedState_preserved hkeys).step hp (fun _ _ _ _ => trivial) hs
    exact (hpaced state hstate edge (mem_normalizeWorkflow_edges.mpr he) hk).count
  · intro r hr
    refine (hr.invariant (fun r => (∀ state ∈ r.states, Bounded (normalizeWorkflow spec) state) ∧
      ∀ id, r.place ≠ .raised (exceeded id)) ?_ ?_).2
    · refine ⟨fun state hstate => ?_, fun id hp => nomatch hp⟩
      obtain rfl := List.mem_singleton.mp hstate
      exact bounded_empty _
    · intro r action r' hp hcalls hs
      exact ⟨(bounded_preserved hchecked hkeys).step hp.1 hcalls hs, step_not_exceeded hchecked hp.1 hcalls hs⟩

/-- A task is selected. -/
def selected : Predicate := .compare .neq "$.tasks.current_task" .null

/-- The revisions of the sample snapshot, with a model route for architects too. -/
def plannedSnapshot : WorkflowResolvedSnapshot := snapshotOf
  [.retryPolicy timeoutRetry,
    .permissionPolicy
      { allowedCapabilities := ["code", "git", "tests"], deniedCapabilities := [], approvalRequiredActions := [],
        shell := .allow, git := .allow },
    .worker
      { adapterKind := .demo, capabilities := ["code", "git", "tests"], maxConcurrency := 1, bindingMode := .none,
        allowedProfileRevisionIds := [] },
    .routePolicy { candidates := [5], requiredCapabilities := [], purposes := ["architect", "reviewer"] },
    .modelProfile
      { providerRevisionId := 6, purposes := ["architect", "reviewer"], capabilities := ["chat"], structuredJson := false,
        toolCalls := false, streaming := false, locality := .localHost, parameters := [] },
    .provider { providerKind := .demo, locality := .localHost, retryPolicyRevisionId := none }]

/-- Plan two tasks; build, verify, review and integrate one after another. -/
def taskLoop : WorkflowSpec where
  entrypoint := "plan"
  defaults := sampleDefaults
  nodes := [{ id := "plan", config := .architect 2, policy := { modelRouteRef := some 4 } },
    { id := "dispatch", config := .taskDispatch }, { id := "build", config := .worker }, { id := "check", config := .verify },
    { id := "review", config := .reviewer, policy := { modelRouteRef := some 4 } },
    { id := "merge", config := .integrate }, { id := "done", config := .finalize .derive }]
  edges := [
    { id := "planned", source := "plan", target := "dispatch", kind := .always },
    { id := "task", source := "dispatch", target := "build", kind := .iterate, when := some selected, priority := 1,
      iterationKey := some "tasks", progressPath := some "$.tasks.terminal_count", maxIterations := some 2 },
    { id := "finished", source := "dispatch", target := "done", kind := .always, fallback := true, priority := 2 },
    { id := "built", source := "build", target := "check", kind := .always },
    { id := "checked", source := "check", target := "review", kind := .always },
    { id := "reviewed", source := "review", target := "merge", kind := .always },
    { id := "merged", source := "merge", target := "dispatch", kind := .always }]
  node_ids := by decide
  edge_ids := by decide
  entrypoint_mem := by decide
  endpoints_mem := by decide

/-- An iterator that is named as the progress of the task loop's. -/
def lateTask : WorkflowEdge where
  id := "late"
  source := "dispatch"
  target := "build"
  kind := .iterate
  when := some selected
  priority := 3
  iterationKey := some "tasks:progress"
  progressPath := some "$.tasks.terminal_count"
  maxIterations := some 2

/-- The task loop with a second iterator. -/
def mixedLoop : WorkflowSpec where
  entrypoint := "plan"
  defaults := sampleDefaults
  nodes := taskLoop.nodes
  edges := lateTask :: taskLoop.edges
  node_ids := by decide
  edge_ids := by decide
  entrypoint_mem := by decide
  endpoints_mem := by decide

/-- A plan of two tasks with the given statuses. -/
def plans (first second : String) : Attempt :=
  .handled (.returns { tasks := some (Dict.ofList [
    ("items", .obj [("a", .obj [("status", .str first)]), ("b", .obj [("status", .str second)])]),
    ("total_count", .int 2), ("terminal_count", .int 0)]) }) false

/-- A node that has no handler of its own. -/
def internally : Attempt := .handled .breaks false

/-- The guard of an iterator asks for a selected task. -/
theorem current_of_guard {edge : WorkflowEdge} (hwhen : edge.when = some selected) {state : WorkflowStateV1}
    (h : skips state edge = false) : getPath state "$.tasks.current_task" ≠ .null := by
  intro hnull
  unfold skips at h
  simp only [hwhen, Option.any_some, Bool.or_eq_false_iff, Bool.not_eq_false'] at h
  have hguard := h.1.1.1.2
  unfold getPath at hnull
  unfold selected evaluatePredicate at hguard
  cases hfound : lookup state "$.tasks.current_task" with
  | none =>
    rw [hfound] at hguard
    cases hguard
  | some actual =>
    rw [hfound, Option.getD_some] at hnull
    rw [hfound, hnull] at hguard
    cases hguard

theorem guarded_taskLoop {edge : WorkflowEdge} (he : edge ∈ (normalizeWorkflow taskLoop).edges) (hk : edge.kind = .iterate) :
    edge.when = some selected := by
  have hmem := mem_normalizeWorkflow_edges.mp he
  simp only [taskLoop, List.mem_cons, List.not_mem_nil, or_false] at hmem
  rcases hmem with rfl | rfl | rfl | rfl | rfl | rfl | rfl
  all_goals first | rfl | cases hk

theorem orderly_taskLoop {node : WorkflowNode} {state : WorkflowStateV1} {attempt : Attempt}
    (h : ∀ update cancelled, attempt = .handled (.returns update) cancelled → MovesItems node state update) :
    Orderly (normalizeWorkflow taskLoop) node state attempt where
  items := h
  selected _ _ _ _ _ he hk hskip := current_of_guard (guarded_taskLoop (mem_edges_of_route he).1 hk) hskip

/-- The first task of a plan is built. -/
theorem iterator_bound_taskLoop : ∃ r, Steps.ReachIf (step (normalizeWorkflow taskLoop) plannedSnapshot)
    (Calls (normalizeWorkflow taskLoop) (Orderly (normalizeWorkflow taskLoop))) Run.init r ∧
      r.state.counter (iterateKey "tasks") = 1 ∧ 1 ≤ recorded (r.state.counters.getD .empty) "tasks" + 1 ∧
      ∀ id, r.place ≠ .raised (exceeded id) := by
  have hvalid : (validateWorkflow sampleDigests taskLoop (some plannedSnapshot)).1 = true := by decide
  have hunmixed : Unmixed taskLoop := by decide
  have hplan : ((normalizeWorkflow taskLoop).node? "plan").all (fun node => node.type == .architect) = true := by decide
  have hrun : (Steps.run (step (normalizeWorkflow taskLoop) plannedSnapshot) ⟨{}, .node "plan", 1, []⟩
      [.exec (plans "pending" "pending"), .exec internally]).any
        (fun r => decide (r.state.counter (iterateKey "tasks") = 1)) = true := by
    decide +kernel
  obtain ⟨r, hr, hcount⟩ := (Option.any_eq_true _ _).mp hrun
  obtain ⟨planned, hplanned, hr⟩ := Option.bind_eq_some_iff.mp hr
  obtain ⟨dispatched, hdispatched, hr⟩ := Option.bind_eq_some_iff.mp hr
  cases hr
  have hreach : Steps.ReachIf (step (normalizeWorkflow taskLoop) plannedSnapshot)
      (Calls (normalizeWorkflow taskLoop) (Orderly (normalizeWorkflow taskLoop))) Run.init r := by
    refine .step _ (.step _ (.step .start .init ?_ rfl) ?_ hplanned) ?_ hdispatched
    · exact fun _ _ _ hcalls => nomatch hcalls
    · intro node state attempt hcalls
      obtain ⟨rfl, id, hplace, hnode⟩ := calls_exec hcalls
      cases hplace
      rw [show (normalizeWorkflow taskLoop).node? "plan" = some node from hnode] at hplan
      refine orderly_taskLoop fun update cancelled hattempt => ?_
      cases hattempt
      exact ⟨fun _ => rfl, fun _ hne => absurd (beq_iff_eq.mp hplan) hne⟩
    · intro node state attempt hcalls
      obtain ⟨rfl, -⟩ := calls_exec hcalls
      exact orderly_taskLoop fun _ _ hreturns => nomatch hreturns
  have hcount := of_decide_eq_true hcount
  refine ⟨r, hreach, hcount, ?_, (iterator_bound hvalid hunmixed).2 r hreach⟩
  have hpaced := (iterator_bound hvalid hunmixed).1 r hreach.reach r.state List.mem_cons_self
    (taskLoop.edges.get ⟨1, by decide⟩) (List.get_mem _ _) rfl
  exact hcount.symm.le.trans hpaced

/-- Taken with one task that has failed before, the first iterator counts for the second. -/
theorem count_over_progress :
    (validateWorkflow sampleDigests mixedLoop (some plannedSnapshot)).1 = true ∧
    ∃ r, Steps.Reach (step (normalizeWorkflow mixedLoop) plannedSnapshot) Run.init r ∧ ∃ state ∈ r.states,
      ∃ edge ∈ mixedLoop.edges, edge.kind = .iterate ∧
        recorded (state.counters.getD .empty) (edge.iterationKey.getD "") + 1 <
          state.counter (iterateKey (edge.iterationKey.getD "")) := by
  refine ⟨by decide, ?_⟩
  have hrun : (Steps.run (step (normalizeWorkflow mixedLoop) plannedSnapshot) Run.init
      [.start, .exec (plans "failed" "pending"), .exec internally]).any (fun r =>
        decide (recorded (r.state.counters.getD .empty) "tasks:progress" + 1 < r.state.counter (iterateKey "tasks:progress")))
      = true := by
    decide +kernel
  obtain ⟨r, hr, hcheck⟩ := (Option.any_eq_true _ _).mp hrun
  exact ⟨r, Steps.run_reach _ hr, r.state, List.mem_cons_self, lateTask, List.mem_cons_self, rfl, of_decide_eq_true hcheck⟩

end Jarvis.Workflows
