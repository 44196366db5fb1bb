/-
  Jarvis.Events.Log — the event log (`EventRepository.append` of
  `jarvis_persistence.repositories`).

  An append holds the global counter's row to the end of its transaction, so appends happen
  one after another. It looks for an event with one of its keys, and only if there is none
  draws the run's next sequence and the next global position and moves the run's projection.
-/
import Jarvis.Lib.Dict
import Jarvis.Lib.Keyed
import Jarvis.Lib.Steps

namespace Jarvis.Events

inductive EventVisibility where
  | owner
  | operator
  | internal
  deriving DecidableEq, Repr

structure EventScope where
  projectId : Option Nat := none
  threadId : Option Nat := none
  jobId : Option Nat := none
  runId : Option Nat := none
  deriving DecidableEq, Repr

/-- The pattern of `kind`, `^[a-z][a-z0-9_-]*$`. -/
def kindPattern (text : String) : Bool :=
  match text.toList with
  | [] => false
  | first :: rest => first.isLower && rest.all fun c => c.isLower || c.isDigit || c = '_' || c = '-'

theorem text_none : ∀ text ∈ (none : Option String), text.length ≤ 160 := nofun

theorem sequence_none : ∀ sequence ∈ (none : Option Nat), 0 < sequence := nofun

theorem key_none : ∀ key ∈ (none : Option String), 1 ≤ key.length ∧ key.length ≤ 200 := nofun

@[ext]
structure EventSource where
  kind : String
  name : String
  instanceId : Option String := none
  hostId : Option String := none
  sourceSequence : Option Nat := none
  kind_ok : kind.length ≤ 80 ∧ kindPattern kind = true := by decide
  name_ok : 1 ≤ name.length ∧ name.length ≤ 120 := by decide
  instanceId_ok : ∀ text ∈ instanceId, text.length ≤ 160 := by first | exact Jarvis.Events.text_none | decide
  hostId_ok : ∀ text ∈ hostId, text.length ≤ 160 := by first | exact Jarvis.Events.text_none | decide
  sourceSequence_ok : ∀ sequence ∈ sourceSequence, 0 < sequence := by first | exact Jarvis.Events.sequence_none | decide
  deriving DecidableEq, Repr

structure NewEvent where
  scope : EventScope := {}
  source : EventSource
  visibility : EventVisibility := .owner
  idempotencyKey : Option String := none
  idempotencyKey_ok : ∀ key ∈ idempotencyKey, 1 ≤ key.length ∧ key.length ≤ 200 := by first | exact Jarvis.Events.key_none | decide
  deriving DecidableEq, Repr

/-- The resource that the keys of an event's scope belong to. -/
inductive KeyScope where
  | run (id : Nat)
  | job (id : Nat)
  | project (id : Nat)
  | system
  deriving DecidableEq, Repr

/-- `EventModel`. -/
structure EventRow where
  globalPosition : Nat
  runSequence : Option Nat := none
  runId : Option Nat := none
  visibility : EventVisibility
  projectId : Option Nat := none
  threadId : Option Nat := none
  jobId : Option Nat := none
  source : EventSource
  sourceDedupeKey : Option String := none
  idempotencyKey : Option String := none
  idempotencyScopeKey : Option String := none
  deriving DecidableEq, Repr

def EventRow.scope (row : EventRow) : EventScope where
  projectId := row.projectId
  threadId := row.threadId
  jobId := row.jobId
  runId := row.runId

structure JobRow where
  id : Nat
  projectId : Nat
  threadId : Option Nat := none
  deriving DecidableEq, Repr

/-- `RunModel`, with the cursor of its projection. -/
structure RunRow where
  id : Nat
  jobId : Nat
  lastEventPosition : Nat := 0
  lastRunSequence : Nat := 0
  deriving DecidableEq, Repr

structure Log where
  /-- `EventGlobalCounterModel.last_position`. -/
  lastPosition : Nat := 0
  /-- `RunEventCounterModel.last_sequence` by run. -/
  counters : Dict Nat Nat := .empty
  events : List EventRow := []
  projects : List Nat := []
  jobs : List JobRow := []
  runs : List RunRow := []
  deriving DecidableEq

/-! ## Appending -/

inductive AppendError where
  | runMissing
  | jobMissing
  | jobMismatch
  | projectMismatch
  | projectMissing
  | threadMismatch
  /-- A task, attempt, node execution or artifact that does not belong to the scope. -/
  | referenceMismatch
  /-- `BIGINT` has no further position. -/
  | positionOverflow
  deriving DecidableEq, Repr

/-- The largest `BIGINT`. -/
def bigintMax : Nat := 9223372036854775807

namespace Log

def run? (log : Log) (id : Nat) : Option RunRow := log.runs.find? (·.id = id)

def job? (log : Log) (id : Nat) : Option JobRow := log.jobs.find? (·.id = id)

/-- `validate_scope`; `references` says whether its checks of tasks, attempts, node executions
    and artifacts pass. -/
def validateScope (log : Log) (scope : EventScope) (references : Bool) : Except AppendError Unit :=
  let run := scope.runId.bind log.run?
  let jobId := match run with
    | some run => some run.jobId
    | none => scope.jobId
  let job := jobId.bind log.job?
  if scope.runId.isSome ∧ run.isNone then .error .runMissing
  else if jobId.isSome ∧ job.isNone then .error .jobMissing
  else if scope.jobId.isSome ∧ scope.jobId ≠ job.map (·.id) then .error .jobMismatch
  else if scope.projectId.isSome ∧ job.any (some ·.projectId ≠ scope.projectId) then .error .projectMismatch
  else if scope.projectId.any (· ∉ log.projects) then .error .projectMissing
  else if scope.threadId.isSome ∧ job.bind (·.threadId) ≠ scope.threadId then .error .threadMismatch
  else if !references then .error .referenceMismatch
  else .ok ()

end Log

/-- `scope.run_id or scope.job_id or scope.project_id or "system"`. -/
def EventScope.owner (scope : EventScope) : KeyScope :=
  match scope.runId, scope.jobId, scope.projectId with
  | some run, _, _ => .run run
  | none, some job, _ => .job job
  | none, none, some project => .project project
  | none, none, none => .system

/-- The owner as the key writes it: an id says nothing about what it is the id of. -/
def KeyScope.text : KeyScope → String
  | .run id => toString id
  | .job id => toString id
  | .project id => toString id
  | .system => "system"

/-- `_idempotency_scope_key`. -/
def idempotencyScopeKey (scope : EventScope) (idempotencyKey : Option String) : Option String :=
  idempotencyKey.map fun key => scope.owner.text ++ ":" ++ key

/-- `value or "-"`. -/
def orDash (value : Option String) : String :=
  match value with
  | none => "-"
  | some text => if text = "" then "-" else text

/-- `_source_dedupe_key`. -/
def sourceDedupeKey (source : EventSource) : Option String :=
  source.sourceSequence.map fun sequence =>
    ":".intercalate [source.kind, source.name, orDash source.instanceId, orDash source.hostId, toString sequence]

namespace Log

/-- `_find_duplicate`. -/
def findDuplicate (log : Log) (idempotency : Option String) (source : Option String) : Option EventRow :=
  log.events.find? fun row =>
    (idempotency.isSome ∧ row.idempotencyScopeKey = idempotency) ∨ (source.isSome ∧ row.sourceDedupeKey = source)

/-- The run's `last_sequence`, `0` before its counter is there. -/
def lastSequence (log : Log) (run : Nat) : Nat := log.counters.getD run 0

/-- The row of an event that has no duplicate. -/
def newRow (log : Log) (event : NewEvent) : EventRow where
  globalPosition := log.lastPosition + 1
  runSequence := event.scope.runId.map fun run => log.lastSequence run + 1
  runId := event.scope.runId
  visibility := event.visibility
  projectId := event.scope.projectId
  threadId := event.scope.threadId
  jobId := event.scope.jobId
  source := event.source
  sourceDedupeKey := sourceDedupeKey event.source
  idempotencyKey := event.idempotencyKey
  idempotencyScopeKey := idempotencyScopeKey event.scope event.idempotencyKey

/-- The run's projection after its event. -/
def project (run : Nat) (row : EventRow) (old : RunRow) : RunRow :=
  if old.id = run then
    { old with lastEventPosition := row.globalPosition, lastRunSequence := row.runSequence.getD 0 }
  else old

/-- What an event without a duplicate writes. -/
def store (log : Log) (event : NewEvent) : Log :=
  let row := log.newRow event
  { log with
    lastPosition := log.lastPosition + 1
    counters :=
      match event.scope.runId with
      | some run => log.counters.insert run (log.lastSequence run + 1)
      | none => log.counters
    events := log.events ++ [row]
    runs :=
      match event.scope.runId with
      | some run => log.runs.map (project run row)
      | none => log.runs }

/-- `append`: the log and the event that it returns. -/
def append (log : Log) (event : NewEvent) (references : Bool) : Except AppendError (Log × EventRow) :=
  match log.validateScope event.scope references with
  | .error e => .error e
  | .ok () =>
    match log.findDuplicate (idempotencyScopeKey event.scope event.idempotencyKey) (sourceDedupeKey event.source) with
    | some duplicate => .ok (log, duplicate)
    | none =>
      if log.lastPosition = bigintMax then .error .positionOverflow else .ok (log.store event, log.newRow event)

end Log

/-! ## Everything that writes the log -/

inductive Write where
  | append (event : NewEvent) (references : Bool)
  | createProject (id : Nat)
  | createJob (job : JobRow)
  | createRun (id jobId : Nat)
  deriving DecidableEq, Repr

/-- One committed transaction of a writer. -/
def write (log : Log) : Write → Option Log
  | .append event references => (log.append event references).toOption.map (·.1)
  | .createProject id => some { log with projects := log.projects ++ [id] }
  | .createJob job => if (log.job? job.id).isSome then none else some { log with jobs := log.jobs ++ [job] }
  | .createRun id jobId =>
    if (log.run? id).isSome then none else some { log with runs := log.runs ++ [{ id, jobId }] }

/-! ## Order -/

namespace Log

/-- The events of a run. -/
def ofRun (log : Log) (run : Nat) : List EventRow := log.events.filter (·.runId = some run)

/-- Positions and sequences count from one, and each run's projection is at its last event. -/
structure Ordered (log : Log) : Prop where
  positions : log.events.map (·.globalPosition) = List.range' 1 log.lastPosition
  sequences : ∀ run, (log.ofRun run).map (·.runSequence) = (List.range' 1 (log.lastSequence run)).map some
  projections : ∀ run ∈ log.runs,
    run.lastEventPosition = ((log.ofRun run.id).getLast?.map (·.globalPosition)).getD 0 ∧
      run.lastRunSequence = log.lastSequence run.id
  runs : (log.runs.map (·.id)).Nodup
  owned : ∀ event ∈ log.events, ∀ run, event.runId = some run → (log.run? run).isSome
  bounded : log.lastPosition ≤ bigintMax

theorem ordered_empty : Ordered {} where
  positions := rfl
  sequences _ := rfl
  projections _ h := nomatch h
  runs := List.nodup_nil
  owned _ h := nomatch h
  bounded := Nat.zero_le _

/-- A successful append returns a duplicate and changes nothing, or stores its event in a run that is there. -/
theorem append_cases {log log' : Log} {event : NewEvent} {references : Bool} {row : EventRow}
    (h : log.append event references = .ok (log', row)) :
    log' = log ∨ (log' = log.store event ∧ log.lastPosition ≠ bigintMax ∧
      ∀ run, event.scope.runId = some run → (log.run? run).isSome) := by
  unfold append at h
  split at h
  · cases h
  · rename_i hscope
    split at h
    · cases h
      exact .inl rfl
    · split at h
      · cases h
      rename_i hroom
      cases h
      refine .inr ⟨rfl, hroom, fun run hrun => ?_⟩
      by_contra hmissing
      have hnone : log.run? run = none := by simpa using hmissing
      unfold validateScope at hscope
      simp [hrun, hnone] at hscope

/-- The runs keep their identities through a projection. -/
theorem project_id (run : Nat) (row : EventRow) (old : RunRow) : (project run row old).id = old.id := by
  unfold project
  split <;> rfl

theorem store_runIds (log : Log) (event : NewEvent) : (log.store event).runs.map (·.id) = log.runs.map (·.id) := by
  unfold store
  cases event.scope.runId with
  | none => rfl
  | some run =>
    show (log.runs.map (project run _)).map (·.id) = log.runs.map (·.id)
    rw [List.map_map]
    exact List.map_congr_left fun old _ => project_id run _ old

theorem run?_isSome {log : Log} {run : Nat} : (log.run? run).isSome ↔ run ∈ log.runs.map (·.id) := by
  simp [run?, List.find?_isSome]

theorem store_ofRun (log : Log) (event : NewEvent) (run : Nat) :
    (log.store event).ofRun run = log.ofRun run ++ if event.scope.runId = some run then [log.newRow event] else [] := by
  unfold ofRun store
  rw [List.filter_append]
  congr 1
  by_cases h : event.scope.runId = some run <;> simp [newRow, h]

theorem store_lastSequence (log : Log) (event : NewEvent) (run : Nat) :
    (log.store event).lastSequence run = log.lastSequence run + if event.scope.runId = some run then 1 else 0 := by
  unfold lastSequence store Dict.getD
  cases hrun : event.scope.runId with
  | none => rfl
  | some other =>
    show ((log.counters.insert other _).get? run).getD 0 = _
    rw [Dict.get?_insert]
    by_cases h : run = other
    · subst h
      simp [lastSequence, Dict.getD]
    · rw [if_neg h, if_neg (by simpa using Ne.symm h)]
      rfl

theorem Ordered.store {log : Log} (h : Ordered log) (event : NewEvent) (hroom : log.lastPosition ≠ bigintMax)
    (hrun : ∀ run, event.scope.runId = some run → (log.run? run).isSome) : Ordered (log.store event) where
  positions := by
    show (log.events ++ [log.newRow event]).map (·.globalPosition) = List.range' 1 (log.lastPosition + 1)
    rw [List.map_append, h.positions, List.range'_concat]
    simp [newRow, Nat.add_comm]
  sequences run := by
    rw [store_ofRun, store_lastSequence, List.map_append, h.sequences]
    by_cases hr : event.scope.runId = some run
    · rw [if_pos hr, if_pos hr, List.range'_concat, List.map_append]
      simp [newRow, hr, Nat.add_comm]
    · simp [hr]
  projections run hmem := by
    rw [store_ofRun, store_lastSequence]
    cases hscope : event.scope.runId with
    | none =>
      have hold : run ∈ log.runs := by simpa [Log.store, hscope] using hmem
      simpa using h.projections run hold
    | some target =>
      have hmap : run ∈ log.runs.map (project target (log.newRow event)) := by simpa [Log.store, hscope] using hmem
      obtain ⟨old, hold, rfl⟩ := List.mem_map.mp hmap
      obtain ⟨hposition, hsequence⟩ := h.projections old hold
      rw [project_id]
      by_cases ht : old.id = target
      · simp [project, ht, newRow, hscope]
      · have hne : ¬ target = old.id := fun e => ht e.symm
        simp [project, ht, hne, hposition, hsequence]
  runs := by
    rw [store_runIds]
    exact h.runs
  owned := by
    intro row hrow run hr
    rw [run?_isSome, store_runIds, ← run?_isSome]
    rcases List.mem_append.mp hrow with hrow | hrow
    · exact h.owned row hrow run hr
    · rw [List.mem_singleton.mp hrow] at hr
      exact hrun run hr
  bounded := by
    have := h.bounded
    show log.lastPosition + 1 ≤ bigintMax
    omega

theorem Ordered.append {log log' : Log} {event : NewEvent} {references : Bool} {row : EventRow} (h : Ordered log)
    (happend : log.append event references = .ok (log', row)) : Ordered log' := by
  obtain rfl | ⟨rfl, hroom, hrun⟩ := append_cases happend
  · exact h
  · exact h.store event hroom hrun

/-- A run without events has none of the log's. -/
theorem Ordered.ofRun_missing {log : Log} (h : Ordered log) {run : Nat} (hmissing : log.run? run = none) :
    log.ofRun run = [] := by
  refine List.filter_eq_nil_iff.mpr fun event hevent => ?_
  intro hr
  have := h.owned event hevent run (by simpa using hr)
  rw [hmissing] at this
  cases this

theorem Ordered.createRun {log : Log} (h : Ordered log) {id : Nat} (jobId : Nat) (hnew : log.run? id = none) :
    Ordered { log with runs := log.runs ++ [{ id, jobId }] } where
  positions := h.positions
  sequences := h.sequences
  projections := by
    intro run hrun
    rcases List.mem_append.mp hrun with hrun | hrun
    · exact h.projections run hrun
    · obtain rfl := List.mem_singleton.mp hrun
      have hnone : log.ofRun id = [] := h.ofRun_missing hnew
      have hzero : log.lastSequence id = 0 := by
        have := congrArg List.length (h.sequences id)
        simpa [hnone] using this.symm
      show 0 = ((log.ofRun id).getLast?.map (·.globalPosition)).getD 0 ∧ 0 = log.lastSequence id
      rw [hnone, hzero]
      exact ⟨rfl, rfl⟩
  runs := by
    refine Keyed.nodup_append h.runs fun old hold heq => ?_
    have := List.find?_eq_none.mp hnew old hold
    exact this (by simpa using heq)
  owned := by
    intro event hevent run hr
    rw [run?_isSome, List.map_append]
    exact List.mem_append_left _ (run?_isSome.mp (h.owned event hevent run hr))
  bounded := h.bounded

theorem Ordered.write {log log' : Log} {w : Write} (h : Ordered log) (hw : write log w = some log') : Ordered log' := by
  cases w with
  | append event references =>
    obtain ⟨⟨next, row⟩, hok, rfl⟩ := Option.map_eq_some_iff.mp hw
    exact h.append (Steps.toOption_ok hok)
  | createProject id =>
    cases hw
    exact ⟨h.positions, h.sequences, h.projections, h.runs, h.owned, h.bounded⟩
  | createJob job =>
    simp only [Events.write] at hw
    split at hw
    · cases hw
    · cases hw
      exact ⟨h.positions, h.sequences, h.projections, h.runs, h.owned, h.bounded⟩
  | createRun id jobId =>
    simp only [Events.write] at hw
    split at hw
    · cases hw
    · rename_i hnew
      cases hw
      exact h.createRun jobId (by simpa using hnew)

/-- Every sequence of writes leaves an ordered log. -/
theorem reach_ordered {log : Log} (h : Steps.Reach write {} log) : Ordered log :=
  h.invariant Ordered ordered_empty fun _ _ _ ho _ hw => ho.write hw

end Log

end Jarvis.Events
