/-
  Jarvis.Workflows.TaskPlans — the tasks of a plan, dispatched one after another.

  The architect's plan (`TaskPlan` of `runtime/planning.py`) lists its tasks with each after its
  dependencies, and becomes the items of the `tasks` channel. A dispatch node picks the least
  pending task whose dependencies are completed; the integration of that task sets its status
  and the next dispatch follows.

  `plan_dispatched`: whatever the plan, the tasks are picked in one order of all of them, each
  when its dependencies are completed and the least such one.
-/
import Jarvis.Lib.Greedy
import Jarvis.Lib.Keyed
import Jarvis.Workflows.Factories
import Jarvis.Workflows.Reducers

namespace Jarvis.Workflows

/-! ## Plans -/

structure PlannedTask where
  key : String
  dependencies : List String := []
  /-- The commands that verify the task, each by its arguments. -/
  verification : List (List String)
  deriving DecidableEq, Repr

/-- `ordered_dependencies`: what a plan is refused with; the key last seen is first in `seen`. -/
def orderedDependencies (seen : List String) : List PlannedTask → Option String
  | [] => none
  | task :: rest =>
    if task.key ∈ seen ∨ ¬ task.dependencies ⊆ seen ∨ task.verification = [] then
      some "tasks require unique keys, earlier dependencies and verification"
    else if ¬ task.dependencies.Nodup then some "duplicate dependency"
    else orderedDependencies (task.key :: seen) rest

/-- A task cannot wait for a later one. -/
example : orderedDependencies [] [{ key := "a", dependencies := ["b"], verification := [["pytest"]] },
    { key := "b", verification := [["pytest"]] }] =
      some "tasks require unique keys, earlier dependencies and verification" := by decide

structure TaskPlan where
  tasks : List PlannedTask
  bounded : 1 ≤ tasks.length ∧ tasks.length ≤ 32
  ordered : orderedDependencies [] tasks = none

namespace TaskPlan

def keys (plan : TaskPlan) : List String := plan.tasks.map (·.key)

/-- The dependencies of the task with this key. -/
def dependenciesOf (plan : TaskPlan) (key : String) : List String :=
  ((plan.tasks.find? (·.key = key)).map (·.dependencies)).getD []

end TaskPlan

/-! ## The `tasks` channel -/

/-- A task as an item of the channel. -/
def taskItem (status : String) (task : PlannedTask) : String × Json :=
  (task.key, .obj [("status", .str status), ("dependencies", .list (task.dependencies.map Json.str))])

/-- The update of a plan, in `PlanningEffect.dispatch`. -/
def TaskPlan.channel (plan : TaskPlan) : Dict String Json :=
  .ofList [("items", .obj (plan.tasks.map (taskItem "pending"))), ("total_count", .int plan.tasks.length),
    ("terminal_count", .int 0)]

/-- `members[key] = value`. -/
def setMember (members : List (String × Json)) (key : String) (value : Json) : List (String × Json) :=
  if key ∈ members.map Prod.fst then members.map (Dict.replace key value) else members ++ [(key, value)]

/-- `items[key]["status"] = status`. -/
def setStatus (items : List (String × Json)) (key status : String) : List (String × Json) :=
  items.map fun item =>
    match item with
    | (name, .obj members) => if name = key then (name, .obj (setMember members "status" (.str status))) else item
    | _ => item

/-- The update of an integrated task, in `VerificationEffectAdapter.dispatch`. -/
def integrated (tasks : Dict String Json) (key : String) : Dict String Json :=
  match tasks.get? "items" with
  | some (.obj items) =>
    if key ∈ items.map Prod.fst then
      let items := setStatus items key "completed"
      tasks.update [("items", .obj items), ("terminal_count", .int (withStatus items ["completed"]).length)]
    else tasks
  | _ => tasks

/-- `tasks["current_task"]`, when a task is selected. -/
def currentTask (tasks : Dict String Json) : Option String :=
  match tasks.get? "current_task" with
  | some (.scalar (.str key)) => some key
  | _ => none

/-- The status of an item of the channel. -/
def taskStatus (state : WorkflowStateV1) (key : String) : Option String :=
  match member state.tasks "items" with
  | some (.obj items) => (items.lookup key).bind fun item => textOf item "status"
  | _ => none

/-- One dispatch, and the integration of the task that it selects. -/
def round (state : WorkflowStateV1) : Except Raised WorkflowStateV1 := do
  let update ← dispatch state
  let tasks := update.tasks.getD .empty
  return { state with tasks := some (((currentTask tasks).map (integrated tasks)).getD tasks) }

def rounds : Nat → WorkflowStateV1 → Except Raised WorkflowStateV1
  | 0, state => .ok state
  | n + 1, state => rounds n state >>= round

/-! ## A plan's graph -/

/-- What an accepted list of tasks says of its keys. -/
theorem orderedDependencies_none : ∀ {tasks : List PlannedTask} {seen : List String},
    orderedDependencies seen tasks = none → seen.Nodup →
      (seen.reverse ++ tasks.map (·.key)).Nodup ∧
        ∀ deps : String → List String, (∀ task ∈ tasks, deps task.key = task.dependencies) →
          Acyclic.Ordered deps seen → Acyclic.Ordered deps ((tasks.map (·.key)).reverse ++ seen) := by
  intro tasks
  induction tasks with
  | nil =>
    intro seen _ hseen
    exact ⟨by simpa using hseen, fun _ _ h => h⟩
  | cons task rest ih =>
    intro seen h hseen
    rw [orderedDependencies] at h
    split at h
    · cases h
    · rename_i hok
      split at h
      · cases h
      push Not at hok
      obtain ⟨hkey, hdeps, -⟩ := hok
      obtain ⟨hnodup, hordered⟩ := ih h (List.nodup_cons.mpr ⟨hkey, hseen⟩)
      refine ⟨by simpa using hnodup, fun deps hall ho => ?_⟩
      have hnext : Acyclic.Ordered deps (task.key :: seen) := by
        refine ⟨fun d hd => hdeps ?_, ho⟩
        rwa [hall task List.mem_cons_self] at hd
      have := hordered deps (fun t ht => hall t (List.mem_cons_of_mem task ht)) hnext
      simpa using this

namespace TaskPlan

variable (plan : TaskPlan)

theorem keys_nodup : plan.keys.Nodup := by
  simpa [keys] using (orderedDependencies_none plan.ordered List.nodup_nil).1

theorem dependenciesOf_key {task : PlannedTask} (ht : task ∈ plan.tasks) :
    plan.dependenciesOf task.key = task.dependencies := by
  have hfind := Keyed.find?_of_mem (show (plan.tasks.map (·.key)).Nodup from plan.keys_nodup) ht
  rw [dependenciesOf, hfind]
  rfl

theorem keys_ordered : Acyclic.Ordered plan.dependenciesOf plan.keys.reverse := by
  have := (orderedDependencies_none plan.ordered List.nodup_nil).2 plan.dependenciesOf
    (fun task ht => plan.dependenciesOf_key ht) trivial
  simpa [keys] using this

theorem dependencies_subset {task : PlannedTask} (ht : task ∈ plan.tasks) : task.dependencies ⊆ plan.keys := by
  intro d hd
  rw [← plan.dependenciesOf_key ht] at hd
  have hmem : task.key ∈ plan.keys.reverse := List.mem_reverse.mpr (List.mem_map_of_mem ht)
  exact List.mem_reverse.mp (plan.keys_ordered.succ_mem hmem hd)

end TaskPlan

/-! ## One dispatch -/

/-- A task as an item when the tasks of `done` are completed. -/
def itemAt (done : List String) (task : PlannedTask) : String × Json :=
  taskItem (if task.key ∈ done then "completed" else "pending") task

def TaskPlan.itemsAt (plan : TaskPlan) (done : List String) : List (String × Json) := plan.tasks.map (itemAt done)

section Items

variable {done : List String} {task : PlannedTask} {tasks : List PlannedTask}

@[simp]
theorem textOf_status (status : String) : textOf (taskItem status task).2 "status" = some status := rfl

theorem map_itemAt_key : (tasks.map (itemAt done)).map Prod.fst = tasks.map (·.key) := by
  rw [List.map_map]
  rfl

theorem withStatus_itemAt {statuses : List String} (hcompleted : "completed" ∈ statuses) (hpending : "pending" ∉ statuses) :
    withStatus (tasks.map (itemAt done)) statuses = (tasks.map (·.key)).filter (· ∈ done) := by
  induction tasks with
  | nil => rfl
  | cons task tasks ih =>
    unfold withStatus at ih ⊢
    by_cases hdone : task.key ∈ done
    · simp [itemAt, taskItem, textOf, Json.member?, hdone, hcompleted, ← ih]
    · simp [itemAt, taskItem, textOf, Json.member?, hdone, hpending, ← ih]

theorem dependenciesOf_item {items : List (String × Json)} {status : String}
    (h : ∀ d ∈ task.dependencies, d ∈ items.map Prod.fst) :
    dependenciesOf items [("status", .str status), ("dependencies", .list (task.dependencies.map Json.str))] =
      some task.dependencies := by
  show List.mapM _ (task.dependencies.map Json.str) = _
  generalize task.dependencies = deps at h ⊢
  induction deps with
  | nil => rfl
  | cons d deps ih =>
    rw [List.map_cons, List.mapM_cons, ih fun x hx => h x (List.mem_cons_of_mem d hx)]
    simp only [if_pos (h d List.mem_cons_self)]
    rfl

/-- Whether a task is ready when the tasks of `done` are completed. -/
def isReady (done : List String) (task : PlannedTask) : Bool :=
  decide (task.key ∉ done) && task.dependencies.all (· ∈ done)

theorem readyTasks_itemAt {items : List (String × Json)} {completed : List String}
    (hcompleted : ∀ key ∈ items.map Prod.fst, key ∈ completed ↔ key ∈ done)
    (hdeps : ∀ task ∈ tasks, task.dependencies ⊆ items.map Prod.fst) :
    readyTasks items completed (tasks.map (itemAt done)) = .ok ((tasks.filter (isReady done)).map (·.key)) := by
  induction tasks with
  | nil => rfl
  | cons task tasks ih =>
    have hrest := ih fun t ht => hdeps t (List.mem_cons_of_mem task ht)
    have hhere := hdeps task List.mem_cons_self
    have hall : task.dependencies.all (· ∈ completed) = task.dependencies.all (· ∈ done) := by
      refine Bool.eq_iff_iff.mpr ?_
      simp only [List.all_eq_true, decide_eq_true_eq]
      exact forall₂_congr fun d hd => hcompleted d (hhere hd)
    rw [List.map_cons, itemAt, taskItem, readyTasks, dependenciesOf_item hhere]
    simp only [hrest, hall]
    -- the status decides first; a pending task waits for its dependencies
    by_cases hdone : task.key ∈ done
    · simp [isReady, hdone, Json.pyEq, Json.eqBy, Scalar.pyEq, Scalar.number]
    · by_cases hready : task.dependencies.all (· ∈ done)
      · simp [isReady, hdone, hready, Json.pyEq, Json.eqBy, Scalar.pyEq, Scalar.number]
      · simp [isReady, hdone, hready, Json.pyEq, Json.eqBy, Scalar.pyEq, Scalar.number]

theorem setStatus_itemAt {key : String} :
    setStatus (tasks.map (itemAt done)) key "completed" = tasks.map (itemAt (done ++ [key])) := by
  unfold setStatus
  rw [List.map_map]
  refine List.map_congr_left fun task _ => ?_
  by_cases hkey : task.key = key
  · subst hkey
    simp [itemAt, taskItem, setMember, Dict.replace]
  · simp [itemAt, taskItem, hkey]

end Items

/-! ## A run of dispatches -/

/-- The channel of a plan whose tasks in `done` are completed. -/
structure Progress (plan : TaskPlan) (done : List String) (tasks : Dict String Json) : Prop where
  items : tasks.get? "items" = some (.obj (plan.itemsAt done))
  nodup : done.Nodup
  planned : done ⊆ plan.keys

namespace TaskPlan

variable {plan : TaskPlan} {done : List String}

theorem completed_length (hnodup : done.Nodup) (hsub : done ⊆ plan.keys) :
    (plan.keys.filter (· ∈ done)).length = done.length := by
  refine List.Perm.length_eq ((List.perm_ext_iff_of_nodup (plan.keys_nodup.filter _) hnodup).mpr fun key => ?_)
  rw [List.mem_filter, decide_eq_true_eq]
  exact ⟨fun h => h.2, fun h => ⟨hsub h, h⟩⟩

theorem itemsAt_keys : (plan.itemsAt done).map Prod.fst = plan.keys := map_itemAt_key

/-- The task that a dispatch selects is the one that the graph's greedy order takes next. -/
theorem readyTasks_head (plan : TaskPlan) (done : List String) : ∃ ready,
    readyTasks (plan.itemsAt done) (withStatus (plan.itemsAt done) ["completed"])
        ((plan.itemsAt done).insertionSort fun a b => stringLe a.1 b.1) = .ok ready ∧
      ready.head? = Greedy.pick plan.dependenciesOf plan.keys done := by
  let sorted := plan.tasks.insertionSort fun a b : PlannedTask => stringLe a.key b.key = true
  have hperm : sorted.Perm plan.tasks := List.perm_insertionSort _ _
  have hsort : (plan.itemsAt done).insertionSort (fun a b => stringLe a.1 b.1) = sorted.map (itemAt done) :=
    (List.map_insertionSort (fun a b : PlannedTask => stringLe a.key b.key = true) (fun a b => stringLe a.1 b.1 = true)
      (itemAt done) plan.tasks fun a _ b _ => Iff.rfl).symm
  have hcompleted : withStatus (plan.itemsAt done) ["completed"] = plan.keys.filter (· ∈ done) :=
    withStatus_itemAt (by decide) (by decide)
  refine ⟨(sorted.filter (isReady done)).map (·.key), ?_, ?_⟩
  · rw [hsort]
    refine readyTasks_itemAt (fun key hkey => ?_) fun task ht => ?_
    · rw [itemsAt_keys] at hkey
      rw [hcompleted, List.mem_filter, decide_eq_true_eq]
      exact ⟨fun h => h.2, fun h => ⟨hkey, h⟩⟩
    · rw [itemsAt_keys]
      exact plan.dependencies_subset (hperm.mem_iff.mp ht)
  · refine Greedy.head?_eq_pick ?_ fun key => ?_
    · have : Std.Total fun a b : PlannedTask => stringLe a.key b.key = true := ⟨fun a b => stringLe_total a.key b.key⟩
      have : IsTrans PlannedTask fun a b => stringLe a.key b.key = true := ⟨fun a b c => stringLe_trans a.key b.key c.key⟩
      have hpairwise : sorted.Pairwise fun a b => stringLe a.key b.key = true := List.pairwise_insertionSort _ _
      rw [List.pairwise_map]
      exact (hpairwise.filter _).imp fun h => of_decide_eq_true h
    · rw [Greedy.mem_ready, List.mem_map]
      constructor
      · rintro ⟨task, ht, rfl⟩
        obtain ⟨hmem, hready⟩ := List.mem_filter.mp ht
        have htask := hperm.mem_iff.mp hmem
        simp only [isReady, Bool.and_eq_true, decide_eq_true_eq, List.all_eq_true] at hready
        rw [plan.dependenciesOf_key htask]
        exact ⟨List.mem_map_of_mem htask, hready⟩
      · rintro ⟨hkey, hready⟩
        obtain ⟨task, htask, rfl⟩ := List.mem_map.mp hkey
        rw [plan.dependenciesOf_key htask] at hready
        refine ⟨task, List.mem_filter.mpr ⟨hperm.mem_iff.mpr htask, ?_⟩, rfl⟩
        simpa [isReady] using hready

end TaskPlan

variable {plan : TaskPlan} {done : List String} {state : WorkflowStateV1} {tasks : Dict String Json}

/-- What a dispatch of a plan writes. -/
theorem Progress.dispatch (h : Progress plan done tasks) (hstate : state.tasks = some tasks) :
    ∃ next, Workflows.dispatch state = .ok { tasks := some next } ∧ Progress plan done next ∧
      next.get? "terminal_count" = some (.int done.length) ∧
      next.get? "current_task" = some (((Greedy.pick plan.dependenciesOf plan.keys done).map Json.str).getD .null) := by
  obtain ⟨ready, hready, hhead⟩ := TaskPlan.readyTasks_head plan done
  have hterminal : (withStatus (plan.itemsAt done) ["completed", "failed", "cancelled"]).length = done.length := by
    rw [TaskPlan.itemsAt, withStatus_itemAt (by decide) (by decide)]
    exact TaskPlan.completed_length h.nodup h.planned
  refine ⟨tasks.update [("terminal_count", .int done.length), ("total_count", .int (plan.itemsAt done).length),
    ("current_task", ((Greedy.pick plan.dependenciesOf plan.keys done).map Json.str).getD .null)], ?_, ?_, ?_, ?_⟩
  · unfold Workflows.dispatch
    rw [hstate, Option.getD_some]
    simp only [h.items, hready, hterminal, ← hhead]
    rfl
  · refine ⟨?_, h.nodup, h.planned⟩
    rw [Dict.get?_update_of_not_mem _ _ (by simp)]
    exact h.items
  · simp [Dict.update, Dict.get?_insert]
  · simp [Dict.update]

/-- The integration of a planned task completes it. -/
theorem Progress.integrated (h : Progress plan done tasks) {key : String} (hkey : key ∈ plan.keys) (hnew : key ∉ done) :
    Progress plan (done ++ [key]) (Workflows.integrated tasks key) where
  items := by
    have hmem : key ∈ (plan.itemsAt done).map Prod.fst := by rwa [TaskPlan.itemsAt_keys]
    unfold Workflows.integrated
    rw [h.items]
    simp only [if_pos hmem]
    rw [TaskPlan.itemsAt, setStatus_itemAt]
    simp [Dict.update, Dict.get?_insert, TaskPlan.itemsAt]
  nodup := by
    refine List.Nodup.append h.nodup (List.nodup_singleton key) fun j hj hjk => ?_
    exact hnew (List.mem_singleton.mp hjk ▸ hj)
  planned := List.append_subset.mpr ⟨h.planned, by simpa using hkey⟩

theorem Progress.start (plan : TaskPlan) : Progress plan [] plan.channel where
  items := by
    have hitems : plan.itemsAt [] = plan.tasks.map (taskItem "pending") := by
      simp [TaskPlan.itemsAt, itemAt]
    rw [hitems]
    simp [TaskPlan.channel, Dict.ofList, Dict.update, Dict.get?_insert]
  nodup := List.nodup_nil
  planned := List.nil_subset _

theorem currentTask_eq {pick : Option String} (h : tasks.get? "current_task" = some ((pick.map Json.str).getD .null)) :
    currentTask tasks = pick := by
  unfold currentTask
  rw [h]
  cases pick <;> rfl

theorem Progress.taskStatus (h : Progress plan done tasks) (hstate : state.tasks = some tasks) {task : PlannedTask}
    (ht : task ∈ plan.tasks) : Workflows.taskStatus state task.key = some (if task.key ∈ done then "completed" else "pending") := by
  have hlookup : (plan.itemsAt done).lookup task.key = some (itemAt done task).2 := by
    refine (Json.lookup_eq_some ?_).mpr (List.mem_map_of_mem ht)
    rw [TaskPlan.itemsAt_keys]
    exact plan.keys_nodup
  unfold Workflows.taskStatus member
  rw [hstate, Option.getD_some, h.items]
  simp only [hlookup]
  rfl

/-- The state after `n` dispatches, each with the integration of the task that it selects. -/
theorem rounds_progress (plan : TaskPlan) (state : WorkflowStateV1) (n : Nat) :
    ∃ tasks, rounds n { state with tasks := some plan.channel } = .ok { state with tasks := some tasks } ∧
      Progress plan (Greedy.order plan.dependenciesOf plan.keys n) tasks := by
  induction n with
  | zero => exact ⟨plan.channel, rfl, Progress.start plan⟩
  | succ n ih =>
    obtain ⟨tasks, hrounds, hprogress⟩ := ih
    have hstate : ({ state with tasks := some tasks } : WorkflowStateV1).tasks = some tasks := rfl
    obtain ⟨next, hdispatch, hnext, -, hcurrent⟩ := hprogress.dispatch hstate
    have hround : rounds (n + 1) { state with tasks := some plan.channel } =
        .ok { state with tasks := some (((currentTask next).map (integrated next)).getD next) } := by
      rw [rounds, hrounds]
      show round _ = _
      rw [round, hdispatch]
      rfl
    refine ⟨_, hround, ?_⟩
    rw [currentTask_eq hcurrent, Greedy.order]
    cases hpick : Greedy.pick plan.dependenciesOf plan.keys (Greedy.order plan.dependenciesOf plan.keys n) with
    | none => simpa using hnext
    | some key =>
      obtain ⟨hkey, hnew, -⟩ := Greedy.mem_ready.mp (Greedy.pick_eq_some.mp hpick).1
      exact hnext.integrated hkey hnew

/-- What the dispatch after `n` completed tasks does: `before` is the state that it finds and
    `tasks` the channel that it leaves. -/
structure Dispatched (plan : TaskPlan) (order : List String) (n : Nat) (before : WorkflowStateV1) (tasks : Dict String Json) :
    Prop where
  completed : ∀ task ∈ plan.tasks, taskStatus before task.key = some "completed" ↔ task.key ∈ order.take n
  selected : currentTask tasks = order[n]?
  dependencies : ∀ task ∈ plan.tasks, currentTask tasks = some task.key →
    ∀ d ∈ task.dependencies, taskStatus before d = some "completed"
  least : ∀ key, currentTask tasks = some key → ∀ other ∈ plan.tasks, taskStatus before other.key ≠ some "completed" →
    (∀ d ∈ other.dependencies, taskStatus before d = some "completed") → key ≤ other.key
  terminal : tasks.get? "terminal_count" = some (.int (min n order.length : Nat))
  finished : tasks.get? "current_task" = some .null ↔ ∀ task ∈ plan.tasks, taskStatus before task.key = some "completed"

theorem Progress.completed_iff (h : Progress plan done tasks) (hstate : state.tasks = some tasks) {key : String}
    (hkey : key ∈ plan.keys) : Workflows.taskStatus state key = some "completed" ↔ key ∈ done := by
  obtain ⟨task, ht, rfl⟩ := List.mem_map.mp hkey
  rw [h.taskStatus hstate ht]
  by_cases hdone : task.key ∈ done <;> simp [hdone]

/-- Every plan's tasks are selected once each, in an order in which a task's dependencies are
    completed before it and the least such task comes first. -/
theorem plan_dispatched (plan : TaskPlan) (state : WorkflowStateV1) :
    ∃ order : List String, order.Perm plan.keys ∧ ∀ n, ∃ before tasks,
      rounds n { state with tasks := some plan.channel } = .ok before ∧
        dispatch before = .ok { tasks := some tasks } ∧ Dispatched plan order n before tasks := by
  have hvs : ∀ k, k ∈ plan.keys.reverse ↔ k ∈ plan.keys := fun k => List.mem_reverse
  have hordered := plan.keys_ordered
  refine ⟨_, Greedy.order_perm hordered hvs plan.keys_nodup, fun n => ?_⟩
  have hlength := Greedy.order_length hordered hvs plan.keys_nodup
  obtain ⟨tasks, hrounds, hprogress⟩ := rounds_progress plan state n
  have hstate : ({ state with tasks := some tasks } : WorkflowStateV1).tasks = some tasks := rfl
  obtain ⟨next, hdispatch, -, hterminal, hcurrent⟩ := hprogress.dispatch hstate
  have hselected := currentTask_eq hcurrent
  have hdone {key : String} (hkey : key ∈ plan.keys) :
      taskStatus { state with tasks := some tasks } key = some "completed" ↔
        key ∈ Greedy.order plan.dependenciesOf plan.keys n := hprogress.completed_iff rfl hkey
  refine ⟨_, next, hrounds, hdispatch, fun task ht => ?_, ?_, fun task ht hsel d hd => ?_, fun key hsel other ho hnew hdeps => ?_, ?_, ?_⟩
  · rw [← Greedy.order_eq_take hordered hvs plan.keys_nodup n]
    exact hdone (List.mem_map_of_mem ht)
  · rw [hselected]
    exact Greedy.pick_order hordered hvs plan.keys_nodup n
  · rw [hselected] at hsel
    have hready := Greedy.mem_ready.mp (Greedy.pick_eq_some.mp hsel).1
    rw [plan.dependenciesOf_key ht] at hready
    exact (hdone (plan.dependencies_subset ht hd)).mpr (hready.2.2 d hd)
  · rw [hselected] at hsel
    refine (Greedy.pick_eq_some.mp hsel).2 other.key (Greedy.mem_ready.mpr ⟨List.mem_map_of_mem ho, ?_, fun d hd => ?_⟩)
    · exact fun hmem => hnew ((hdone (List.mem_map_of_mem ho)).mpr hmem)
    · rw [plan.dependenciesOf_key ho] at hd
      exact (hdone (plan.dependencies_subset ho hd)).mp (hdeps d hd)
  · rw [hterminal, hlength, hlength, Nat.min_self]
  · rw [hcurrent]
    have hnone : some ((Option.map Json.str (Greedy.pick plan.dependenciesOf plan.keys
        (Greedy.order plan.dependenciesOf plan.keys n))).getD .null) = some Json.null ↔
          plan.keys ⊆ Greedy.order plan.dependenciesOf plan.keys n := by
      rw [← Greedy.pick_eq_none hordered hvs]
      cases Greedy.pick plan.dependenciesOf plan.keys (Greedy.order plan.dependenciesOf plan.keys n) <;> simp
    rw [hnone]
    constructor
    · exact fun hall task ht => (hdone (List.mem_map_of_mem ht)).mpr (hall (List.mem_map_of_mem ht))
    · intro hall key hkey
      obtain ⟨task, ht, rfl⟩ := List.mem_map.mp hkey
      exact (hdone (List.mem_map_of_mem ht)).mp (hall task ht)

end Jarvis.Workflows
