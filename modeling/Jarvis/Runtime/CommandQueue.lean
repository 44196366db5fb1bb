/-
  Jarvis.Runtime.CommandQueue — the commands of all runs, from `CommandRepository.enqueue`
  (`repositories.py`) to their disposition by `CommandProcessor.apply`.

  Both hold the lock of the event counter from their first read to their commit, so each is one
  step; what else happens to a run is one of the steps too (`Outside`). A digest stands for what
  it is a digest of. `log` keeps the batches that were applied, a command at a time.

  `Settled` is one equation: what was disposed of, then what is pending, is all there is, in
  sequence order.
-/
import Mathlib.Data.List.Sort
import Mathlib.Data.List.Nodup
import Mathlib.Logic.Function.Basic
import Jarvis.Lib.Keyed
import Jarvis.Lib.Steps
import Jarvis.Runtime.Commands

namespace Jarvis.Runtime

structure RunCommandRequest where
  runId : Nat
  kind : CommandKind
  idempotencyKey : String
  /-- Its canonical JSON text. -/
  payload : String := "{}"
  expectedRunVersion : Option Nat := none
  deriving DecidableEq, Repr

abbrev RequestDigest := Nat × CommandKind × String × Option Nat

/-- `request_digest`. -/
def RunCommandRequest.requestDigest (request : RunCommandRequest) : RequestDigest :=
  (request.runId, request.kind, request.payload, request.expectedRunVersion)

/-- `RunCommandModel`; a row without a status is 'pending'. -/
structure CommandRow where
  id : Nat
  runId : Nat
  sequence : Nat
  kind : CommandKind
  status : Option CommandStatus := none
  idempotencyKey : String
  requestDigest : RequestDigest
  payload : String
  expectedRunVersion : Option Nat
  appliedAt : Option Nat := none
  deriving DecidableEq, Repr

def CommandRow.command (row : CommandRow) : RunCommand := ⟨row.id, row.sequence, row.kind⟩

structure RunCommandReceipt where
  commandId : Nat
  runId : Nat
  sequence : Nat
  status : Option CommandStatus
  requestDigest : RequestDigest
  duplicate : Bool
  deriving DecidableEq, Repr

/-- `CommandRepository._receipt`. -/
def CommandRow.receipt (row : CommandRow) (duplicate : Bool) : RunCommandReceipt :=
  ⟨row.id, row.runId, row.sequence, row.status, row.requestDigest, duplicate⟩

/-- A run, with the counter of its commands and whether its workflow has a node that accepts
    instructions. -/
structure QueuedRun where
  row : RunRow
  hasReceiver : Bool
  nextCommandSequence : Nat := 0

/-- One round of the loop of `apply`. -/
structure Round where
  command : RunCommand
  status : CommandStatus
  reason : CommandReason
  before : RunRow
  after : RunRow

structure CommandStore where
  runs : Nat → Option QueuedRun := fun _ => none
  commands : List CommandRow := []
  /-- The batches applied so far, with their run. -/
  log : List (Nat × List Round) := []

/-- The rows of a run, in the order of the table. -/
def CommandStore.commandsOf (s : CommandStore) (run : Nat) : List CommandRow := s.commands.filter (·.runId = run)

/-- The pending rows of a run, `order_by(RunCommandModel.sequence)`. -/
def CommandStore.pendingOf (s : CommandStore) (run : Nat) : List CommandRow :=
  ((s.commandsOf run).filter (·.status = none)).insertionSort fun a b => a.sequence ≤ b.sequence

/-- What was disposed of for a run. -/
def CommandStore.roundsOf (s : CommandStore) (run : Nat) : List Round := (s.log.filter (·.1 = run)).flatMap (·.2)

/-- A run is added, without commands. -/
def addRun (hasReceiver : Bool) (runs : Nat → Option QueuedRun) (row : RunRow) : Nat → Option QueuedRun :=
  Function.update runs row.id (some ⟨row, hasReceiver, 0⟩)

/-! ## `enqueue` -/

inductive EnqueueError where
  | lookup
  | idempotencyConflict
  | optimisticConcurrencyConflict
  deriving DecidableEq, Repr

/-- `CommandRepository.enqueue`; `id` is the identity drawn for a new row. -/
def CommandStore.enqueue (s : CommandStore) (request : RunCommandRequest) (id : Nat) :
    Except EnqueueError (CommandStore × RunCommandReceipt) :=
  match s.runs request.runId with
  | none => .error .lookup
  | some run =>
    match s.commands.find? fun row => row.runId = request.runId ∧ row.idempotencyKey = request.idempotencyKey with
    | some existing =>
      if existing.requestDigest ≠ request.requestDigest then .error .idempotencyConflict
      else .ok (s, existing.receipt true)
    | none =>
      if request.expectedRunVersion.any (· ≠ run.row.version) then .error .optimisticConcurrencyConflict
      else
        let sequence := run.nextCommandSequence + 1
        let row : CommandRow :=
          { id, runId := request.runId, sequence, kind := request.kind, idempotencyKey := request.idempotencyKey
            requestDigest := request.requestDigest, payload := request.payload
            expectedRunVersion := request.expectedRunVersion }
        .ok ({ s with
          runs := Function.update s.runs request.runId (some { run with nextCommandSequence := sequence })
          commands := s.commands ++ [row] }, row.receipt false)

/-! ## `apply` -/

/-- The status of a round, written to the command's row. -/
def dispose (now : Nat) (dispositions : List Disposition) (row : CommandRow) : CommandRow :=
  match dispositions.find? (·.command.id = row.id) with
  | some d => { row with status := some d.status, appliedAt := some now }
  | none => row

/-- The rounds of a batch, as `apply` takes them. -/
def rounds (now : Nat) (hasReceiver cancelPending : Bool) : RunRow → List RunCommand → List Round
  | _, [] => []
  | run, c :: cs =>
    let (after, status, reason) := applyKind now hasReceiver cancelPending run c
    let after := { after with version := after.version + 1 }
    ⟨c, status, reason, run, after⟩ :: rounds now hasReceiver cancelPending after cs

/-- `CommandProcessor.apply`, on the tables. -/
def CommandStore.apply (s : CommandStore) (now : Nat) (fresh : Nat → Nat) (id : Nat) : CommandStore :=
  match s.runs id with
  | none => s
  | some run =>
    let commands := (s.pendingOf id).map CommandRow.command
    let batch := Runtime.apply now run.hasReceiver fresh run.row commands
    let runs := Function.update s.runs id (some { run with row := batch.run })
    { runs := batch.linked.foldl (addRun run.hasReceiver) runs
      commands := s.commands.map (dispose now batch.dispositions)
      log := s.log ++ [(id, rounds now run.hasReceiver (commands.any (·.kind == .cancel)) run.row commands)] }

/-- The runs that `_retry` links in an `apply`. -/
def CommandStore.linked (s : CommandStore) (now : Nat) (fresh : Nat → Nat) (id : Nat) : List RunRow :=
  match s.runs id with
  | none => []
  | some run => (Runtime.apply now run.hasReceiver fresh run.row ((s.pendingOf id).map CommandRow.command)).linked

/-! ## The system -/

/-- What happens to a run elsewhere: it ends once, and is never asked for anything but to stop. -/
def Outside (before after : RunRow) : Prop :=
  (before.status.terminal = true → after.status.terminal = true) ∧
    (after.desiredState = before.desiredState ∨ after.desiredState = .cancelled)

instance (before after : RunRow) : Decidable (Outside before after) := inferInstanceAs (Decidable (_ ∧ _))

inductive CommandAction where
  | created (row : RunRow) (hasReceiver : Bool)
  | enqueue (request : RunCommandRequest) (id : Nat)
  | apply (now : Nat) (fresh : Nat → Nat) (run : Nat)
  | moved (run : Nat) (row : RunRow)

/-- A step; identities that are drawn are new. -/
def CommandStore.step (s : CommandStore) : CommandAction → Option CommandStore
  | .created row hasReceiver =>
    if (s.runs row.id).isNone then some { s with runs := addRun hasReceiver s.runs row } else none
  | .enqueue request id =>
    if s.commands.all (·.id ≠ id) then
      match s.enqueue request id with
      | .ok (t, _) => some t
      | .error _ => some s
    else none
  | .apply now fresh run =>
    if (s.linked now fresh run).all fun linked => (s.runs linked.id).isNone then some (s.apply now fresh run) else none
  | .moved id row =>
    match s.runs id with
    | none => none
    | some run =>
      if Outside run.row row then some { s with runs := Function.update s.runs id (some { run with row }) } else none

/-! ## One round -/

def Round.disposition (r : Round) : Disposition := ⟨r.command, r.status, r.reason⟩

/-- A run that has ended, or is asked to: no pause or resume changes what it is asked for. -/
def Dominated (run : RunRow) : Prop := run.desiredState = .cancelled ∨ run.status.terminal = true

def CommandKind.pauses (kind : CommandKind) : Prop := kind = .pause ∨ kind = .resume

section Rounds

variable (now : Nat) (hasReceiver : Bool) {cancelPending : Bool} {run : RunRow} {c : RunCommand}

/-- Behind a cancel of the same batch, or over a run that is dominated, a pause or resume leaves
    the desired state alone. -/
theorem applyKind_quiet (h : cancelPending = true ∨ Dominated run) (hkind : c.kind.pauses) :
    (applyKind now hasReceiver cancelPending run c).1.desiredState = run.desiredState := by
  unfold applyKind
  split
  · split <;> rfl
  split
  · rfl
  rename_i hterminal
  have hquiet : cancelPending = true ∨ run.desiredState = .cancelled := by
    rcases h with hpending | hdesired | hended
    · exact .inl hpending
    · exact .inr hdesired
    · exact absurd hended hterminal
  rw [if_pos ⟨hkind, hquiet⟩]

theorem applyKind_dominated (h : Dominated run) : Dominated (applyKind now hasReceiver cancelPending run c).1 := by
  obtain ⟨-, hcases⟩ := applyKind_cases now hasReceiver cancelPending run c
  rcases hcases with ⟨hstatus, hdesired, -⟩ | ⟨-, -, hdesired⟩ | ⟨hterminal, hne, -⟩ | ⟨hpaused, hne, -⟩
  · unfold Dominated
    rw [hstatus, hdesired]
    exact h
  · exact .inl hdesired
  · rcases h with hdesired | hended
    · exact absurd hdesired hne
    · rw [hterminal] at hended
      cases hended
  · rcases h with hdesired | hended
    · exact absurd hdesired hne
    · rw [hpaused] at hended
      cases hended

/-- A cancel is applied, or the run has ended. -/
theorem applyKind_cancel (hkind : c.kind = .cancel) : Dominated (applyKind now hasReceiver cancelPending run c).1 := by
  unfold applyKind
  simp only [hkind, reduceCtorEq, if_false, false_or, false_and]
  split
  · rename_i hterminal
    exact .inr hterminal
  · exact .inl rfl

end Rounds

/-! ## A batch -/

section Batches

variable (now : Nat) (hasReceiver cancelPending : Bool) (fresh : Nat → Nat)

theorem rounds_command (run : RunRow) (cs : List RunCommand) :
    (rounds now hasReceiver cancelPending run cs).map Round.command = cs := by
  induction cs generalizing run with
  | nil => rfl
  | cons c cs ih => exact congrArg (c :: ·) (ih _)

theorem fold_dispositions (b : Batch) (cs : List RunCommand) :
    (cs.foldl (applyOne now hasReceiver cancelPending fresh) b).dispositions =
      b.dispositions ++ (rounds now hasReceiver cancelPending b.run cs).map Round.disposition := by
  induction cs generalizing b with
  | nil => simp [rounds]
  | cons c cs ih =>
    rw [List.foldl_cons, ih]
    simp [applyOne, rounds, Round.disposition]

theorem apply_dispositions (run : RunRow) (cs : List RunCommand) :
    (Runtime.apply now hasReceiver fresh run cs).dispositions =
      (rounds now hasReceiver (cs.any (·.kind == .cancel)) run cs).map Round.disposition := by
  rw [Runtime.apply, fold_dispositions, List.nil_append]

/-- Every pause or resume of the batch is quiet, from where the run is dominated on, and in every
    batch with a cancel. -/
theorem rounds_quiet {run : RunRow} (cs : List RunCommand) (h : cancelPending = true ∨ Dominated run) :
    ∀ r ∈ rounds now hasReceiver cancelPending run cs, r.command.kind.pauses →
      r.after.desiredState = r.before.desiredState := by
  induction cs generalizing run with
  | nil =>
    intro r hr
    cases hr
  | cons c cs ih =>
    intro r hr hkind
    rcases List.mem_cons.mp hr with rfl | hr
    · exact applyKind_quiet now hasReceiver h hkind
    · refine ih ?_ r hr hkind
      rcases h with hpending | hdominated
      · exact .inl hpending
      · exact .inr (applyKind_dominated now hasReceiver hdominated)

theorem fold_dominated (b : Batch) (cs : List RunCommand) (h : Dominated b.run ∨ ∃ c ∈ cs, c.kind = .cancel) :
    Dominated (cs.foldl (applyOne now hasReceiver cancelPending fresh) b).run := by
  induction cs generalizing b with
  | nil =>
    rcases h with hdominated | ⟨c, hc, -⟩
    · exact hdominated
    · cases hc
  | cons c cs ih =>
    apply ih
    rcases h with hdominated | ⟨c', hc', hkind⟩
    · exact .inl (applyKind_dominated now hasReceiver hdominated)
    · rcases List.mem_cons.mp hc' with rfl | hc'
      · exact .inl (applyKind_cancel now hasReceiver hkind)
      · exact .inr ⟨c', hc', hkind⟩

theorem apply_dominated (run : RunRow) (cs : List RunCommand) (h : Dominated run ∨ ∃ c ∈ cs, c.kind = .cancel) :
    Dominated (Runtime.apply now hasReceiver fresh run cs).run :=
  fold_dominated now hasReceiver (cs.any (·.kind == .cancel)) fresh ⟨run, [], []⟩ cs h

end Batches

/-! ## The rows of a run -/

/-- The dispositions of a run, then its pending rows, are its rows: nothing is disposed of twice,
    out of order or behind a pending command. -/
def Settled (s : CommandStore) (run : Nat) : Prop :=
  (s.roundsOf run).map (fun r => (r.command, some r.status)) ++
      ((s.commandsOf run).filter (·.status = none)).map (fun row => (row.command, none)) =
    (s.commandsOf run).map fun row => (row.command, row.status)

/-- The numbers of a run's commands, without a gap. -/
def Gapless (s : CommandStore) (id : Nat) (run : QueuedRun) : Prop :=
  (s.commandsOf id).map CommandRow.sequence = List.range' 1 run.nextCommandSequence

/-- A pause or resume with a cancel in its batch, or behind one, asks for nothing. -/
def Quiet (s : CommandStore) : Prop :=
  ∀ batch ∈ s.log, ∀ r ∈ batch.2, r.command.kind.pauses →
    ((∃ r' ∈ batch.2, r'.command.kind = .cancel) ∨
      ∃ row ∈ s.commandsOf batch.1, row.kind = .cancel ∧ row.sequence < r.command.sequence) →
    r.after.desiredState = r.before.desiredState

structure CommandStore.Inv (s : CommandStore) : Prop where
  ids : (s.commands.map CommandRow.id).Nodup
  keys : (s.commands.map fun row => (row.runId, row.idempotencyKey)).Nodup
  owned : ∀ row ∈ s.commands, (s.runs row.runId).isSome
  logged : ∀ batch ∈ s.log, (s.runs batch.1).isSome
  gapless : ∀ id run, s.runs id = some run → Gapless s id run
  settled : ∀ id, Settled s id
  dominated : ∀ id run, s.runs id = some run →
    (∃ row ∈ s.commandsOf id, row.kind = .cancel ∧ row.status.isSome) → Dominated run.row
  quiet : Quiet s

theorem CommandStore.Inv.init : CommandStore.Inv {} := by
  constructor <;> simp [Settled, Quiet, CommandStore.commandsOf, CommandStore.roundsOf]

theorem mem_commandsOf {s : CommandStore} {id : Nat} {row : CommandRow} :
    row ∈ s.commandsOf id ↔ row ∈ s.commands ∧ row.runId = id := by simp [CommandStore.commandsOf]

/-- The rows of a run: those disposed of, and behind them the pending ones. -/
theorem Settled.split {s : CommandStore} {id : Nat} (h : Settled s id) :
    ∃ done pending, s.commandsOf id = done ++ pending ∧
      (s.commandsOf id).filter (·.status = none) = pending ∧
      done.map (fun row => (row.command, row.status)) = (s.roundsOf id).map fun r => (r.command, some r.status) := by
  obtain ⟨done, pending, heq, hdone, hpending⟩ := List.map_eq_append_iff.mp h.symm
  have hnone : done.filter (·.status = none) = [] := by
    refine List.filter_eq_nil_iff.mpr fun row hrow => ?_
    have hin := List.mem_map_of_mem (f := fun row : CommandRow => (row.command, row.status)) hrow
    rw [hdone] at hin
    obtain ⟨r, -, hr⟩ := List.mem_map.mp hin
    have hstatus : some r.status = row.status := congrArg Prod.snd hr
    simp [← hstatus]
  have hall : pending.filter (·.status = none) = pending := by
    refine List.filter_eq_self.mpr fun row hrow => ?_
    have hin := List.mem_map_of_mem (f := fun row : CommandRow => (row.command, row.status)) hrow
    rw [hpending] at hin
    obtain ⟨r, -, hr⟩ := List.mem_map.mp hin
    have hstatus : none = row.status := congrArg Prod.snd hr
    simp [← hstatus]
  refine ⟨done, pending, heq, ?_, hdone⟩
  rw [heq, List.filter_append, hnone, hall, List.nil_append]

/-- The pending rows stand in sequence order in the table. -/
theorem CommandStore.Inv.pendingOf_eq {s : CommandStore} (h : s.Inv) {id : Nat} {run : QueuedRun}
    (hrun : s.runs id = some run) : s.pendingOf id = (s.commandsOf id).filter (·.status = none) := by
  have hsorted : (s.commandsOf id).Pairwise fun a b => a.sequence ≤ b.sequence := by
    have hlt : ((s.commandsOf id).map CommandRow.sequence).Pairwise (· ≤ ·) := by
      have hrange : (List.range' 1 run.nextCommandSequence).Pairwise (· < ·) := List.pairwise_lt_range'
      rw [h.gapless id run hrun]
      exact hrange.imp Nat.le_of_lt
    exact List.pairwise_map.mp hlt
  exact (hsorted.sublist List.filter_sublist).insertionSort_eq

/-! ## What a disposition writes -/

section Dispose

variable (now : Nat) (ds : List Disposition) (row : CommandRow)

@[simp] theorem dispose_id : (dispose now ds row).id = row.id := by unfold dispose; split <;> rfl
@[simp] theorem dispose_runId : (dispose now ds row).runId = row.runId := by unfold dispose; split <;> rfl
@[simp] theorem dispose_sequence : (dispose now ds row).sequence = row.sequence := by unfold dispose; split <;> rfl
@[simp] theorem dispose_kind : (dispose now ds row).kind = row.kind := by unfold dispose; split <;> rfl
@[simp] theorem dispose_idempotencyKey : (dispose now ds row).idempotencyKey = row.idempotencyKey := by
  unfold dispose; split <;> rfl
@[simp] theorem dispose_command : (dispose now ds row).command = row.command := by simp [CommandRow.command]

variable {now ds row}

theorem dispose_of_not_mem (h : row.id ∉ ds.map (·.command.id)) : dispose now ds row = row := by
  have hnone : ds.find? (·.command.id = row.id) = none := by
    refine List.find?_eq_none.mpr fun d hd heq => h ?_
    exact List.mem_map.mpr ⟨d, hd, by simpa using heq⟩
  rw [dispose, hnone]

theorem dispose_of_mem (hds : (ds.map (·.command.id)).Nodup) {d : Disposition} (hd : d ∈ ds) (hid : d.command.id = row.id) :
    (dispose now ds row).status = some d.status := by
  have hfound := Keyed.find?_of_mem hds hd
  rw [dispose, ← hid, hfound]

/-- The rows of a batch get the statuses of its dispositions, in order. -/
theorem map_dispose {pending : List CommandRow} (hids : (pending.map CommandRow.id).Nodup)
    (hds : ds.map Disposition.command = pending.map CommandRow.command) :
    (pending.map (dispose now ds)).map (fun row => (row.command, row.status)) =
      ds.map fun d => (d.command, some d.status) := by
  have hkeys : ds.map (·.command.id) = pending.map CommandRow.id := by
    have := congrArg (List.map RunCommand.id) hds
    simpa [List.map_map, Function.comp_def, CommandRow.command] using this
  have hlength : ds.length = pending.length := by simpa using congrArg List.length hds
  refine List.ext_getElem (by simp [hlength]) fun i hi hi' => ?_
  have hds' : i < ds.length := by simpa using hi'
  have hpending : i < pending.length := by simpa using hi
  have hcommand : ds[i].command = pending[i].command := by
    have := List.getElem_of_eq hds (i := i) (by simpa using hi')
    simpa using this
  simp only [List.getElem_map, dispose_command, hcommand]
  rw [dispose_of_mem (hkeys ▸ hids) (List.getElem_mem hds') (congrArg RunCommand.id hcommand)]

end Dispose

/-! ## Steps of the runs alone -/

/-- Runs that are new have no commands; the others keep their counter, and stay dominated. -/
structure Follows (runs runs' : Nat → Option QueuedRun) : Prop where
  kept : ∀ id, (runs id).isSome → (runs' id).isSome
  origin : ∀ id run', runs' id = some run' →
    (runs id = none ∧ run'.nextCommandSequence = 0) ∨
    ∃ run, runs id = some run ∧ run'.nextCommandSequence = run.nextCommandSequence ∧
      (Dominated run.row → Dominated run'.row)

/-- One run is written. -/
theorem Follows.update {runs : Nat → Option QueuedRun} {id : Nat} {run' : QueuedRun}
    (h : (runs id = none ∧ run'.nextCommandSequence = 0) ∨
      ∃ run, runs id = some run ∧ run'.nextCommandSequence = run.nextCommandSequence ∧
        (Dominated run.row → Dominated run'.row)) :
    Follows runs (Function.update runs id (some run')) := by
  constructor
  · intro j hj
    by_cases hid : j = id
    · simp [hid]
    · rwa [Function.update_of_ne hid]
  · intro j run hj
    by_cases hid : j = id
    · subst hid
      rw [Function.update_self] at hj
      cases hj
      exact h
    · rw [Function.update_of_ne hid] at hj
      exact .inr ⟨run, hj, rfl, fun h => h⟩

theorem commandsOf_eq_nil {s : CommandStore} (h : s.Inv) {id : Nat} (hnone : s.runs id = none) : s.commandsOf id = [] := by
  refine List.filter_eq_nil_iff.mpr fun row hrow hid => ?_
  have hsome := h.owned row hrow
  rw [of_decide_eq_true hid, hnone] at hsome
  cases hsome

theorem CommandStore.Inv.follow {s : CommandStore} (h : s.Inv) {runs' : Nat → Option QueuedRun}
    (hruns : Follows s.runs runs') : CommandStore.Inv { s with runs := runs' } where
  ids := h.ids
  keys := h.keys
  owned := fun row hrow => hruns.kept _ (h.owned row hrow)
  logged := fun batch hbatch => hruns.kept _ (h.logged batch hbatch)
  gapless := by
    intro id run' hrun'
    rcases hruns.origin id run' hrun' with ⟨hnone, hzero⟩ | ⟨run, hrun, hnext, -⟩
    · show (s.commandsOf id).map CommandRow.sequence = List.range' 1 run'.nextCommandSequence
      rw [commandsOf_eq_nil h hnone, hzero]
      rfl
    · show (s.commandsOf id).map CommandRow.sequence = List.range' 1 run'.nextCommandSequence
      rw [hnext]
      exact h.gapless id run hrun
  settled := h.settled
  dominated := by
    intro id run' hrun' hcancel
    rcases hruns.origin id run' hrun' with ⟨hnone, -⟩ | ⟨run, hrun, -, hdominated⟩
    · obtain ⟨row, hrow, -⟩ := hcancel
      have hempty : row ∈ s.commandsOf id := hrow
      rw [commandsOf_eq_nil h hnone] at hempty
      cases hempty
    · exact hdominated (h.dominated id run hrun hcancel)
  quiet := h.quiet

theorem Outside.dominated {before after : RunRow} (h : Outside before after) (hbefore : Dominated before) :
    Dominated after := by
  rcases hbefore with hdesired | hended
  · rcases h.2 with hsame | hcancelled
    · exact .inl (hsame.trans hdesired)
    · exact .inl hcancelled
  · exact .inr (h.1 hended)

/-! ## `enqueue` keeps the invariant -/

/-- What `enqueue` does: it finds the command already there, or adds the next one of its run. -/
theorem enqueue_cases {s t : CommandStore} {request : RunCommandRequest} {id : Nat} {receipt : RunCommandReceipt}
    (h : s.enqueue request id = .ok (t, receipt)) :
    (∃ row ∈ s.commands, row.runId = request.runId ∧ row.idempotencyKey = request.idempotencyKey ∧
      row.requestDigest = request.requestDigest ∧ t = s ∧ receipt = row.receipt true) ∨
    ∃ run row, s.runs request.runId = some run ∧
      (∀ other ∈ s.commands, ¬ (other.runId = request.runId ∧ other.idempotencyKey = request.idempotencyKey)) ∧
      row.id = id ∧ row.runId = request.runId ∧ row.sequence = run.nextCommandSequence + 1 ∧
      row.kind = request.kind ∧ row.status = none ∧ row.idempotencyKey = request.idempotencyKey ∧
      receipt = row.receipt false ∧
      t = { s with
        runs := Function.update s.runs request.runId (some { run with nextCommandSequence := row.sequence })
        commands := s.commands ++ [row] } := by
  unfold CommandStore.enqueue at h
  split at h
  · cases h
  rename_i run hrun
  split at h
  · rename_i existing hfound
    split at h
    · cases h
    rename_i hdigest
    obtain ⟨hid, hkey⟩ : existing.runId = request.runId ∧ existing.idempotencyKey = request.idempotencyKey := by
      simpa using List.find?_some hfound
    have hpair := Prod.mk.inj (Except.ok.inj h)
    exact .inl ⟨existing, List.mem_of_find?_eq_some hfound, hid, hkey, not_not.mp hdigest, hpair.1.symm, hpair.2.symm⟩
  · rename_i hnone
    split at h
    · cases h
    have hpair := Prod.mk.inj (Except.ok.inj h)
    refine .inr ⟨run, _, hrun, fun other hother hsame => ?_, rfl, rfl, rfl, rfl, rfl, rfl, hpair.2.symm, hpair.1.symm⟩
    exact List.find?_eq_none.mp hnone other hother (by simpa using hsame)

theorem mem_roundsOf {s : CommandStore} {id : Nat} {r : Round} :
    r ∈ s.roundsOf id ↔ ∃ batch ∈ s.log, batch.1 = id ∧ r ∈ batch.2 := by
  simp [CommandStore.roundsOf, and_assoc]

/-- What was disposed of is a row with its number and status. -/
theorem row_of_round {s : CommandStore} (h : s.Inv) {batch : Nat × List Round} (hbatch : batch ∈ s.log) {r : Round}
    (hr : r ∈ batch.2) : ∃ row ∈ s.commandsOf batch.1, row.command = r.command ∧ row.status = some r.status := by
  have hround : r ∈ s.roundsOf batch.1 := mem_roundsOf.mpr ⟨batch, hbatch, rfl, hr⟩
  have hin : (r.command, some r.status) ∈ (s.commandsOf batch.1).map fun row => (row.command, row.status) := by
    rw [← h.settled batch.1]
    exact List.mem_append_left _ (List.mem_map.mpr ⟨r, hround, rfl⟩)
  obtain ⟨row, hrow, hpair⟩ := List.mem_map.mp hin
  exact ⟨row, hrow, congrArg Prod.fst hpair, congrArg Prod.snd hpair⟩

theorem sequence_le {s : CommandStore} (h : s.Inv) {id : Nat} {run : QueuedRun} (hrun : s.runs id = some run)
    {row : CommandRow} (hrow : row ∈ s.commandsOf id) : row.sequence ≤ run.nextCommandSequence := by
  have hin := List.mem_map_of_mem (f := CommandRow.sequence) hrow
  rw [h.gapless id run hrun, List.mem_range'_1] at hin
  omega

theorem CommandStore.Inv.enqueued {s : CommandStore} (h : s.Inv) {run : QueuedRun} {row : CommandRow}
    (hrun : s.runs row.runId = some run) (hid : ∀ other ∈ s.commands, other.id ≠ row.id)
    (hkey : ∀ other ∈ s.commands, ¬ (other.runId = row.runId ∧ other.idempotencyKey = row.idempotencyKey))
    (hsequence : row.sequence = run.nextCommandSequence + 1) (hstatus : row.status = none) :
    CommandStore.Inv { s with
      runs := Function.update s.runs row.runId (some { run with nextCommandSequence := row.sequence })
      commands := s.commands ++ [row] } := by
  generalize ht : { s with
      runs := Function.update s.runs row.runId (some { run with nextCommandSequence := row.sequence })
      commands := s.commands ++ [row] } = t
  have hcommands : t.commands = s.commands ++ [row] := by rw [← ht]
  have hlog : t.log = s.log := by rw [← ht]
  have hself : t.runs row.runId = some { run with nextCommandSequence := row.sequence } := by
    rw [← ht]
    exact Function.update_self ..
  have hother : ∀ j, j ≠ row.runId → t.runs j = s.runs j := by
    intro j hj
    rw [← ht]
    exact Function.update_of_ne hj ..
  have hof : t.commandsOf row.runId = s.commandsOf row.runId ++ [row] := by
    simp [CommandStore.commandsOf, hcommands]
  have hof' : ∀ j, j ≠ row.runId → t.commandsOf j = s.commandsOf j := by
    intro j hj
    simp [CommandStore.commandsOf, hcommands, Ne.symm hj]
  have hrounds : ∀ j, t.roundsOf j = s.roundsOf j := fun j => by simp [CommandStore.roundsOf, hlog]
  have hkept : ∀ j, (s.runs j).isSome → (t.runs j).isSome := by
    intro j hj
    by_cases hj' : j = row.runId
    · rw [hj', hself]
      rfl
    · rwa [hother j hj']
  constructor
  · rw [hcommands]
    exact Keyed.nodup_append h.ids hid
  · rw [hcommands]
    refine Keyed.nodup_append h.keys fun other hin hsame => hkey other hin ?_
    exact ⟨congrArg Prod.fst hsame, congrArg Prod.snd hsame⟩
  · intro other hin
    rw [hcommands] at hin
    rcases List.mem_append.mp hin with hin | hin
    · exact hkept _ (h.owned other hin)
    · rw [List.mem_singleton.mp hin, hself]
      rfl
  · intro batch hbatch
    exact hkept _ (h.logged batch (hlog ▸ hbatch))
  · intro j run' hj
    by_cases hj' : j = row.runId
    · subst hj'
      cases hself.symm.trans hj
      rw [Gapless, hof, List.map_append, h.gapless _ run hrun, hsequence]
      show List.range' 1 run.nextCommandSequence ++ [row.sequence] = _
      rw [hsequence, List.range'_1_concat, Nat.add_comm]
    · rw [hother j hj'] at hj
      rw [Gapless, hof' j hj']
      exact h.gapless j run' hj
  · intro j
    by_cases hj' : j = row.runId
    · subst hj'
      have hsettled := h.settled row.runId
      rw [Settled] at hsettled ⊢
      rw [hof, hrounds, List.filter_append, List.map_append, List.map_append, ← hsettled, List.append_assoc]
      simp [hstatus]
    · rw [Settled, hof' j hj', hrounds]
      exact h.settled j
  · intro j run' hj hcancel
    obtain ⟨c, hc, hkind, hdone⟩ := hcancel
    by_cases hj' : j = row.runId
    · subst hj'
      cases hself.symm.trans hj
      rw [hof] at hc
      rcases List.mem_append.mp hc with hc | hc
      · exact h.dominated _ run hrun ⟨c, hc, hkind, hdone⟩
      · rw [List.mem_singleton.mp hc, hstatus] at hdone
        cases hdone
    · rw [hother j hj'] at hj
      exact h.dominated j run' hj ⟨c, hof' j hj' ▸ hc, hkind, hdone⟩
  · intro batch hbatch r hr hkind hwhy
    rw [hlog] at hbatch
    refine h.quiet batch hbatch r hr hkind (hwhy.imp_right fun ⟨c, hc, hcancel, hlt⟩ => ?_)
    by_cases hj' : batch.1 = row.runId
    · rw [hj', hof] at hc
      rcases List.mem_append.mp hc with hc | hc
      · exact ⟨c, hj' ▸ hc, hcancel, hlt⟩
      · -- the new number is behind everything disposed of
        obtain ⟨row', hrow', hcommand, -⟩ := row_of_round h hbatch hr
        have hle := sequence_le h hrun (hj' ▸ hrow')
        have hsame : row'.sequence = r.command.sequence := congrArg RunCommand.sequence hcommand
        rw [List.mem_singleton.mp hc] at hlt
        omega
    · exact ⟨c, hof' _ hj' ▸ hc, hcancel, hlt⟩

/-! ## `apply` keeps the invariant -/

/-- The tables after a batch over the pending rows of a run. -/
structure Applied (s t : CommandStore) (now id : Nat) (batch : List Round) : Prop where
  commands : t.commands = s.commands.map (dispose now (batch.map Round.disposition))
  log : t.log = s.log ++ [(id, batch)]
  batch : batch.map Round.command = ((s.commandsOf id).filter (·.status = none)).map CommandRow.command

variable {s t : CommandStore} {now id : Nat} {batch : List Round}

theorem Applied.ids (ha : Applied s t now id batch) :
    (batch.map Round.disposition).map (·.command.id) = ((s.commandsOf id).filter (·.status = none)).map CommandRow.id := by
  have := congrArg (List.map RunCommand.id) ha.batch
  simpa [List.map_map, Function.comp_def, CommandRow.command, Round.disposition] using this

theorem Applied.commandsOf_map (ha : Applied s t now id batch) (j : Nat) :
    t.commandsOf j = (s.commandsOf j).map (dispose now (batch.map Round.disposition)) := by
  rw [CommandStore.commandsOf, ha.commands, List.filter_map]
  simp [CommandStore.commandsOf, Function.comp_def]

/-- A batch disposes of no row but the pending ones of its run. -/
theorem Applied.dispose_eq (h : s.Inv) (ha : Applied s t now id batch) {row : CommandRow} (hrow : row ∈ s.commands)
    (hother : row ∉ (s.commandsOf id).filter (·.status = none)) :
    dispose now (batch.map Round.disposition) row = row := by
  refine dispose_of_not_mem fun hin => hother ?_
  rw [ha.ids] at hin
  obtain ⟨pending, hpending, hid⟩ := List.mem_map.mp hin
  have hmem := (mem_commandsOf.mp (List.mem_of_mem_filter hpending)).1
  rwa [Keyed.unique h.ids hrow hmem hid.symm]

theorem Applied.commandsOf_other (h : s.Inv) (ha : Applied s t now id batch) {j : Nat} (hj : j ≠ id) :
    t.commandsOf j = s.commandsOf j := by
  rw [ha.commandsOf_map]
  refine (List.map_congr_left fun row hrow => ?_).trans (List.map_id _)
  obtain ⟨hmem, hid⟩ := mem_commandsOf.mp hrow
  refine ha.dispose_eq h hmem fun hin => hj ?_
  exact hid.symm.trans (mem_commandsOf.mp (List.mem_of_mem_filter hin)).2

theorem Applied.roundsOf (ha : Applied s t now id batch) (j : Nat) :
    t.roundsOf j = s.roundsOf j ++ if id = j then batch else [] := by
  rw [CommandStore.roundsOf, ha.log]
  by_cases hj : id = j <;> simp [CommandStore.roundsOf, hj]

/-- The pending rows of the run are disposed of, in order. -/
theorem Applied.settled (h : s.Inv) (ha : Applied s t now id batch) :
    Settled t id ∧ (t.commandsOf id).filter (·.status = none) = [] := by
  obtain ⟨done, pending, hsplit, hpending, hdone⟩ := (h.settled id).split
  have hids : ((s.commandsOf id).map CommandRow.id).Nodup := Keyed.nodup_filter h.ids _
  have hbatch := ha.batch
  rw [hpending] at hbatch
  have hold : done.map (dispose now (batch.map Round.disposition)) = done := by
    refine (List.map_congr_left fun row hrow => ?_).trans (List.map_id _)
    have hin : row ∈ s.commandsOf id := hsplit ▸ List.mem_append_left _ hrow
    refine ha.dispose_eq h (mem_commandsOf.mp hin).1 fun hrow' => ?_
    rw [hpending] at hrow'
    rw [hsplit, List.map_append] at hids
    exact List.disjoint_of_nodup_append hids (List.mem_map_of_mem hrow) (List.mem_map_of_mem hrow')
  have hnew : (pending.map (dispose now (batch.map Round.disposition))).map (fun row => (row.command, row.status)) =
      batch.map fun r => (r.command, some r.status) := by
    rw [hsplit, List.map_append] at hids
    have hds : (batch.map Round.disposition).map Disposition.command = pending.map CommandRow.command := by
      rw [← hbatch, List.map_map]
      rfl
    rw [map_dispose hids.of_append_right hds, List.map_map]
    rfl
  have hof : t.commandsOf id = done ++ pending.map (dispose now (batch.map Round.disposition)) := by
    rw [ha.commandsOf_map, hsplit, List.map_append, hold]
  have hstatuses : (t.commandsOf id).map (fun row => (row.command, row.status)) =
      (t.roundsOf id).map fun r => (r.command, some r.status) := by
    rw [hof, List.map_append, hnew, hdone, ha.roundsOf, if_pos rfl, List.map_append]
  have hnone : (t.commandsOf id).filter (·.status = none) = [] := by
    refine List.filter_eq_nil_iff.mpr fun row hrow => ?_
    have hin := List.mem_map_of_mem (f := fun row : CommandRow => (row.command, row.status)) hrow
    rw [hstatuses] at hin
    obtain ⟨r, -, hr⟩ := List.mem_map.mp hin
    have hstatus : some r.status = row.status := congrArg Prod.snd hr
    simp [← hstatus]
  refine ⟨?_, hnone⟩
  rw [Settled, hnone, hstatuses]
  exact List.append_nil _

theorem Applied.settled_other (h : s.Inv) (ha : Applied s t now id batch) {j : Nat} (hj : j ≠ id) : Settled t j := by
  rw [Settled, ha.commandsOf_other h hj, ha.roundsOf, if_neg (Ne.symm hj), List.append_nil]
  exact h.settled j

/-- A cancel behind which a pending command stands has been disposed of, or is in its batch. -/
theorem cancel_before (h : s.Inv) (ha : Applied s t now id batch) {run : QueuedRun} (hrun : s.runs id = some run)
    {row : CommandRow} (hrow : row ∈ t.commandsOf id) (hkind : row.kind = .cancel) :
    (∃ r ∈ batch, r.command.kind = .cancel) ∨ Dominated run.row := by
  rw [ha.commandsOf_map] at hrow
  obtain ⟨old, hold, rfl⟩ := List.mem_map.mp hrow
  have hkind : old.kind = .cancel := by simpa using hkind
  cases hstatus : old.status with
  | none =>
    have hin : old.command ∈ batch.map Round.command := by
      rw [ha.batch]
      exact List.mem_map_of_mem (List.mem_filter.mpr ⟨hold, by simp [hstatus]⟩)
    obtain ⟨r, hr, hcommand⟩ := List.mem_map.mp hin
    exact .inl ⟨r, hr, by rw [hcommand]; exact hkind⟩
  | some status => exact .inr (h.dominated id run hrun ⟨old, hold, hkind, by simp [hstatus]⟩)

theorem CommandStore.Inv.applied (h : s.Inv) (ha : Applied s t now id batch) {run : QueuedRun}
    (hrun : s.runs id = some run) (hruns : Follows s.runs t.runs)
    (hcancel : (∃ r ∈ batch, r.command.kind = .cancel) → ∀ run', t.runs id = some run' → Dominated run'.row)
    (hquiet : (∃ r ∈ batch, r.command.kind = .cancel) ∨ Dominated run.row → ∀ r ∈ batch, r.command.kind.pauses →
      r.after.desiredState = r.before.desiredState) : t.Inv := by
  have hsequences : ∀ j, (t.commandsOf j).map CommandRow.sequence = (s.commandsOf j).map CommandRow.sequence := by
    intro j
    rw [ha.commandsOf_map, List.map_map]
    exact List.map_congr_left fun row _ => dispose_sequence ..
  constructor
  · rw [ha.commands, List.map_map]
    have hsame : s.commands.map (CommandRow.id ∘ dispose now (batch.map Round.disposition)) = s.commands.map CommandRow.id :=
      List.map_congr_left fun row _ => dispose_id ..
    rw [hsame]
    exact h.ids
  · rw [ha.commands, List.map_map]
    have hsame : s.commands.map ((fun row => (row.runId, row.idempotencyKey)) ∘ dispose now (batch.map Round.disposition)) =
        s.commands.map fun row => (row.runId, row.idempotencyKey) :=
      List.map_congr_left fun row _ => by simp
    rw [hsame]
    exact h.keys
  · intro row hrow
    rw [ha.commands] at hrow
    obtain ⟨old, hold, rfl⟩ := List.mem_map.mp hrow
    rw [dispose_runId]
    exact hruns.kept _ (h.owned old hold)
  · intro logged hlogged
    rw [ha.log] at hlogged
    rcases List.mem_append.mp hlogged with hlogged | hlogged
    · exact hruns.kept _ (h.logged logged hlogged)
    · rw [List.mem_singleton.mp hlogged]
      exact hruns.kept id (by rw [hrun]; rfl)
  · intro j run' hj
    rw [Gapless, hsequences]
    rcases hruns.origin j run' hj with ⟨hnone, hzero⟩ | ⟨old, hold, hnext, -⟩
    · rw [commandsOf_eq_nil h hnone, hzero]
      rfl
    · rw [hnext]
      exact h.gapless j old hold
  · intro j
    by_cases hj : j = id
    · rw [hj]
      exact (ha.settled h).1
    · exact ha.settled_other h hj
  · intro j run' hj hwhy
    by_cases hid : j = id
    · subst hid
      obtain ⟨row, hrow, hkind, -⟩ := hwhy
      rcases cancel_before h ha hrun hrow hkind with hin | hdominated
      · exact hcancel hin run' hj
      · rcases hruns.origin j run' hj with ⟨hnone, -⟩ | ⟨old, hold, -, hkeeps⟩
        · rw [hrun] at hnone
          cases hnone
        · cases hrun.symm.trans hold
          exact hkeeps hdominated
    · rw [ha.commandsOf_other h hid] at hwhy
      rcases hruns.origin j run' hj with ⟨hnone, -⟩ | ⟨old, hold, -, hkeeps⟩
      · obtain ⟨row, hrow, -⟩ := hwhy
        rw [commandsOf_eq_nil h hnone] at hrow
        cases hrow
      · exact hkeeps (h.dominated j old hold hwhy)
  · intro logged hlogged r hr hkind hwhy
    rw [ha.log] at hlogged
    rcases List.mem_append.mp hlogged with hlogged | hlogged
    · refine h.quiet logged hlogged r hr hkind (hwhy.imp_right fun ⟨row, hrow, hcancel, hlt⟩ => ?_)
      rw [ha.commandsOf_map] at hrow
      obtain ⟨old, hold, rfl⟩ := List.mem_map.mp hrow
      exact ⟨old, hold, by simpa using hcancel, by simpa using hlt⟩
    · rw [List.mem_singleton.mp hlogged] at hr hwhy
      refine hquiet ?_ r hr hkind
      rcases hwhy with hin | ⟨row, hrow, hrowkind, -⟩
      · exact .inl hin
      · exact cancel_before h ha hrun hrow hrowkind

/-- Runs added where there was none. -/
theorem Follows.add (hasReceiver : Bool) (linked : List RunRow) (runs : Nat → Option QueuedRun)
    (hfree : ∀ l ∈ linked, runs l.id = none) : Follows runs (linked.foldl (addRun hasReceiver) runs) := by
  have hcases : ∀ (ls : List RunRow) (before : Nat → Option QueuedRun) (j : Nat),
      ls.foldl (addRun hasReceiver) before j = before j ∨
        ∃ l ∈ ls, l.id = j ∧ ls.foldl (addRun hasReceiver) before j = some ⟨l, hasReceiver, 0⟩ := by
    intro ls
    induction ls with
    | nil =>
      intro before j
      exact .inl rfl
    | cons l ls ih =>
      intro before j
      rcases ih (addRun hasReceiver before l) j with hsame | ⟨l', hl', hid, heq⟩
      · by_cases hj : l.id = j
        · refine .inr ⟨l, List.mem_cons_self, hj, ?_⟩
          rw [List.foldl_cons, hsame, addRun, ← hj, Function.update_self]
        · rw [addRun, Function.update_of_ne (Ne.symm hj)] at hsame
          exact .inl hsame
      · exact .inr ⟨l', List.mem_cons_of_mem _ hl', hid, heq⟩
  constructor
  · intro j hj
    rcases hcases linked runs j with hsame | ⟨l, -, -, heq⟩
    · rwa [hsame]
    · rw [heq]
      rfl
  · intro j run' hj
    rcases hcases linked runs j with hsame | ⟨l, hl, hid, heq⟩
    · rw [hsame] at hj
      exact .inr ⟨run', hj, rfl, fun h => h⟩
    · rw [heq] at hj
      cases hj
      exact .inl ⟨hid ▸ hfree l hl, rfl⟩

theorem Follows.trans {a b c : Nat → Option QueuedRun} (h : Follows a b) (h' : Follows b c) : Follows a c := by
  constructor
  · intro id hid
    exact h'.kept id (h.kept id hid)
  · intro id run'' hrun''
    rcases h'.origin id run'' hrun'' with ⟨hnone, hzero⟩ | ⟨run', hrun', hnext, hkeeps⟩
    · refine .inl ⟨?_, hzero⟩
      by_contra hsome
      have := h.kept id (Option.isSome_iff_ne_none.mpr hsome)
      rw [hnone] at this
      cases this
    · rcases h.origin id run' hrun' with ⟨hnone, hzero⟩ | ⟨run, hrun, hnext', hkeeps'⟩
      · exact .inl ⟨hnone, hnext.trans hzero⟩
      · exact .inr ⟨run, hrun, hnext.trans hnext', fun hd => hkeeps (hkeeps' hd)⟩

/-- A batch over the pending rows of a run that is there. -/
theorem CommandStore.Inv.applied_apply (h : s.Inv) {fresh : Nat → Nat} {run : QueuedRun} (hrun : s.runs id = some run)
    (hfree : ∀ l ∈ s.linked now fresh id, s.runs l.id = none) :
    ∃ batch, Applied s (s.apply now fresh id) now id batch ∧ (s.apply now fresh id).Inv := by
  have hpending := h.pendingOf_eq hrun
  generalize hcs : (s.pendingOf id).map CommandRow.command = cs
  have hbatch : (rounds now run.hasReceiver (cs.any (·.kind == .cancel)) run.row cs).map Round.command = cs :=
    rounds_command ..
  have happly : s.apply now fresh id =
      { runs := (Runtime.apply now run.hasReceiver fresh run.row cs).linked.foldl (addRun run.hasReceiver)
          (Function.update s.runs id (some { run with row := (Runtime.apply now run.hasReceiver fresh run.row cs).run }))
        commands := s.commands.map (dispose now (Runtime.apply now run.hasReceiver fresh run.row cs).dispositions)
        log := s.log ++ [(id, rounds now run.hasReceiver (cs.any (·.kind == .cancel)) run.row cs)] } := by
    simp only [CommandStore.apply, hrun, hcs]
  have hlinked : s.linked now fresh id = (Runtime.apply now run.hasReceiver fresh run.row cs).linked := by
    simp only [CommandStore.linked, hrun, hcs]
  rw [hlinked] at hfree
  have hne : ∀ l ∈ (Runtime.apply now run.hasReceiver fresh run.row cs).linked, l.id ≠ id := by
    intro l hl heq
    have hnone := hfree l hl
    rw [heq, hrun] at hnone
    cases hnone
  have hself : Follows s.runs (Function.update s.runs id
      (some { run with row := (Runtime.apply now run.hasReceiver fresh run.row cs).run })) := by
    refine Follows.update (.inr ⟨run, hrun, rfl, fun hdominated => ?_⟩)
    exact apply_dominated now run.hasReceiver fresh run.row cs (.inl hdominated)
  have hlinks := Follows.add run.hasReceiver (Runtime.apply now run.hasReceiver fresh run.row cs).linked
    (Function.update s.runs id (some { run with row := (Runtime.apply now run.hasReceiver fresh run.row cs).run }))
    fun l hl => by rw [Function.update_of_ne (hne l hl)]; exact hfree l hl
  have ha : Applied s (s.apply now fresh id) now id
      (rounds now run.hasReceiver (cs.any (·.kind == .cancel)) run.row cs) := by
    rw [happly]
    exact ⟨by rw [apply_dispositions], rfl, by rw [hbatch, ← hcs, hpending]⟩
  have hany : (∃ r ∈ rounds now run.hasReceiver (cs.any (·.kind == .cancel)) run.row cs, r.command.kind = .cancel) →
      ∃ c ∈ cs, c.kind = .cancel := by
    rintro ⟨r, hr, hkind⟩
    exact ⟨r.command, hbatch ▸ List.mem_map_of_mem hr, hkind⟩
  refine ⟨_, ha, h.applied ha hrun ?_ ?_ ?_⟩
  · rw [happly]
    exact hself.trans hlinks
  · intro hcancel run' hrun'
    rw [happly] at hrun'
    rcases hlinks.origin id run' hrun' with ⟨hnone, -⟩ | ⟨old, hold, -, hkeeps⟩
    · rw [Function.update_self] at hnone
      cases hnone
    · rw [Function.update_self] at hold
      cases hold
      exact hkeeps (apply_dominated now run.hasReceiver fresh run.row cs (.inr (hany hcancel)))
  · intro hwhy
    refine rounds_quiet now run.hasReceiver _ cs (hwhy.imp_left fun hcancel => ?_)
    obtain ⟨c, hc, hkind⟩ := hany hcancel
    exact List.any_eq_true.mpr ⟨c, hc, by rw [hkind]; rfl⟩

/-! ## Every run -/

theorem CommandStore.Inv.step {a : CommandAction} (h : s.Inv) (hstep : s.step a = some t) : t.Inv := by
  cases a with
  | created row hasReceiver =>
    simp only [CommandStore.step] at hstep
    split at hstep
    · rename_i hfree
      cases hstep
      exact h.follow (Follows.add hasReceiver [row] s.runs fun l hl => by
        rw [List.mem_singleton.mp hl]
        exact Option.isNone_iff_eq_none.mp hfree)
    · cases hstep
  | enqueue request id =>
    simp only [CommandStore.step] at hstep
    split at hstep
    case isFalse => cases hstep
    rename_i hfresh
    split at hstep
    · rename_i t' receipt henqueue
      cases hstep
      rcases enqueue_cases henqueue with ⟨row, -, -, -, -, rfl, -⟩ | ⟨run, row, hrun, hkey, hid, hrunId, hseq, -, hstatus,
        hrowkey, -, rfl⟩
      · exact h
      · rw [← hrunId] at hrun hkey ⊢
        rw [← hrowkey] at hkey
        refine h.enqueued hrun (fun other hother => ?_) hkey hseq hstatus
        simpa [hid] using List.all_eq_true.mp hfresh other hother
    · cases hstep
      exact h
  | apply now fresh id =>
    simp only [CommandStore.step] at hstep
    split at hstep
    · rename_i hfree
      cases hstep
      cases hrun : s.runs id with
      | none =>
        rw [CommandStore.apply, hrun]
        exact h
      | some run =>
        have hfree : ∀ l ∈ s.linked now fresh id, s.runs l.id = none := fun l hl =>
          Option.isNone_iff_eq_none.mp (List.all_eq_true.mp hfree l hl)
        obtain ⟨batch, -, hinv⟩ := h.applied_apply hrun hfree
        exact hinv
    · cases hstep
  | moved id row =>
    simp only [CommandStore.step] at hstep
    split at hstep
    · cases hstep
    · rename_i run hrun
      split at hstep
      · rename_i houtside
        cases hstep
        exact h.follow (Follows.update (.inr ⟨run, hrun, rfl, houtside.dominated⟩))
      · cases hstep

theorem CommandStore.inv_of_reach (h : Steps.Reach CommandStore.step {} s) : s.Inv :=
  h.invariant CommandStore.Inv CommandStore.Inv.init fun _ _ _ hs _ hstep => hs.step hstep

/-- A key that a run has a command for gives that command again, or a conflict. -/
theorem enqueue_duplicate (h : s.Inv) {request : RunCommandRequest} {receipt : RunCommandReceipt}
    (henqueue : s.enqueue request id = .ok (t, receipt)) {row : CommandRow} (hrow : row ∈ s.commands)
    (hrun : row.runId = request.runId) (hkey : row.idempotencyKey = request.idempotencyKey) :
    t = s ∧ receipt = row.receipt true ∧ row.requestDigest = request.requestDigest := by
  rcases enqueue_cases henqueue with ⟨found, hfound, hrun', hkey', hdigest, rfl, rfl⟩ | ⟨-, -, -, hnone, -⟩
  · have hsame : (found.runId, found.idempotencyKey) = (row.runId, row.idempotencyKey) := by
      rw [hrun', hkey', hrun, hkey]
    obtain rfl := Keyed.unique h.keys hfound hrow hsame
    exact ⟨rfl, rfl, hdigest⟩
  · exact absurd ⟨hrun, hkey⟩ (hnone row hrow)

end Jarvis.Runtime
