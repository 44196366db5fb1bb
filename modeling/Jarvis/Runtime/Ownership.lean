/-
  Jarvis.Runtime.Ownership — run leases, fenced transactions, checkpoint writes and the
  recovery row, as one system of interleaved transactions
  (`runtime/ownership.py`: `RunOwnership.claim`, `fenced`, `renew`, `release`;
  `repositories.py`: `LeaseRepository.acquire`; `runtime/checkpoints.py`:
  `FencedPostgresSaver`; `operations.py`: `recovery_control`, `emergency_stop`).

  Locks. `claim`, `fenced` and every control transaction begin with `lock_events`, which
  holds the global counter row to the end of the transaction, so at most one of them is
  open at a time (`txn`). A fenced transaction reads its rows and checks the fence when it
  opens, works on its session's copies of the run and the lease, checks the lease's expiry
  once more and commits. A checkpoint cursor takes only the run row's lock (`cursors`), and
  so do the two checks around its write. `recovery_control` takes no lock of either kind;
  `emergency_stop` locks the rows of the active runs it cancels. The recovery row is read
  without a lock.

  An executor presents only a fence that a claim gave it. One clock serves every check; it
  moves only forwards (`tick`), also while a transaction is open. `claim` reads it once to select a run and `acquire` reads it again (`late`).

  `log` is ghost state: the fences granted, the fenced transactions and checkpoint writes
  committed (with the lease expiry and the clock of their last check), and the bumps of the
  recovery generation, in the order they happened.
-/
import Jarvis.Lib.Steps
import Jarvis.Runtime.Rows

namespace Jarvis.Runtime.Ownership

/-! ## The system's state -/

/-- An open `fenced` transaction: the session's copies of the run and the lease. -/
structure Txn where
  fence : RunFence
  run : RunRow
  lease : RunLease
  deriving DecidableEq, Repr

inductive Event where
  | granted (f : RunFence)
  | committed (f : RunFence) (expiresAt now : Nat)
  | checkpointed (f : RunFence) (expiresAt now : Nat)
  | bumped (generation : Nat)
  deriving DecidableEq, Repr

structure Sys where
  now : Nat
  runs : List RunRow
  leases : List RunLease
  instances : List OrchestratorInstance
  recovery : Option RecoveryRow
  txn : Option Txn
  /-- The fences of the checkpoint transactions that are open. -/
  cursors : List RunFence
  log : List Event
  deriving DecidableEq, Repr

def init (recovery : Option RecoveryRow) : Sys := ⟨0, [], [], [], recovery, none, [], []⟩

/-! ## Leases -/

def ofRun (r : Nat) (l : RunLease) : Bool := l.run == r

/-- `released_at IS NULL` for run `r`. -/
def activeOf (r : Nat) (l : RunLease) : Bool := l.run == r && l.releasedAt.isNone

/-- The run's unreleased lease. -/
def unreleased (ls : List RunLease) (r : Nat) : Option RunLease := ls.find? (activeOf r)

/-- `func.max(generation)` over the run's leases, `0` for none. -/
def maxGeneration (ls : List RunLease) (r : Nat) : Nat := ((ls.filter (ofRun r)).map (·.generation)).foldl max 0

/-- Set `released_at` on the run's unreleased lease. -/
def releaseActive (ls : List RunLease) (r now : Nat) : List RunLease :=
  ls.map fun l => if activeOf r l then { l with releasedAt := some now } else l

/-- `LeaseRepository.acquire`: the lease granted and the table after it. A live lease of
    another owner refuses; the owner's own live lease is extended; an expired one is
    released first. -/
def acquire (now ttl owner r : Nat) (ls : List RunLease) : Option (RunLease × List RunLease) :=
  match unreleased ls r with
  | some a =>
    if now < a.expiresAt then
      if a.owner ≠ owner then none
      else
        let a' := { a with expiresAt := now + ttl }
        some (a', ls.map fun l => if activeOf r l then a' else l)
    else
      let fresh : RunLease := ⟨r, owner, maxGeneration ls r + 1, now, now + ttl, none⟩
      some (fresh, releaseActive ls r now ++ [fresh])
  | none =>
    let fresh : RunLease := ⟨r, owner, maxGeneration ls r + 1, now, now + ttl, none⟩
    some (fresh, ls ++ [fresh])

/-! ## Claiming -/

/-- The `live` subquery of `claim`. -/
def live (s : Sys) (r : Nat) : Bool := s.leases.any fun l => activeOf r l && decide (s.now < l.expiresAt)

/-- `ORDER BY priority DESC, claimable_at, created_at, id`. -/
def claimBefore (a b : RunRow) : Bool :=
  if a.priority ≠ b.priority then decide (b.priority < a.priority)
  else if a.claimableAt ≠ b.claimableAt then decide (a.claimableAt < b.claimableAt)
  else if a.createdAt ≠ b.createdAt then decide (a.createdAt < b.createdAt)
  else decide (a.id < b.id)

/-- `LIMIT 1` of the ordered rows. -/
def firstInOrder : List RunRow → Option RunRow
  | [] => none
  | r :: rs =>
    match firstInOrder rs with
    | none => some r
    | some b => if claimBefore b r then some b else some r

/-- A run row another transaction holds (`FOR UPDATE SKIP LOCKED` passes over it). -/
def rowLocked (s : Sys) (r : Nat) : Bool :=
  s.cursors.any (·.run == r) || s.txn.any (·.fence.run == r)

def candidate (s : Sys) (mode : Option Mode) : Option RunRow :=
  firstInOrder <| s.runs.filter fun r =>
    r.status.claimable && decide (r.claimableAt ≤ s.now) && mode.all (· == r.mode) && !live s r.id &&
      !rowLocked s r.id

/-- Replace run `r`'s row. -/
def setRun (rs : List RunRow) (r : RunRow) : List RunRow := rs.map fun x => if x.id = r.id then r else x

/-- `RunOwnership.claim`: the fence granted and the tables after it. `late` is how far the
    clock moved between the selection and `acquire`. -/
def claim (s : Sys) (owner ttl : Nat) (capacity : Option Nat) (mode : Option Mode) (late : Nat) :
    Option (RunFence × Sys) := do
  let inst ← s.instances.find? (·.id == owner)
  if inst.draining then none
  let recovery ← s.recovery
  if !recovery.automaticDispatchEnabled then none
  if capacity.any (· ≤ (s.leases.filter fun l => l.releasedAt.isNone && decide (s.now < l.expiresAt)).length) then
    none
  let run ← candidate s mode
  let (lease, leases) ← acquire (s.now + late) ttl owner run.id s.leases
  let recovering := decide (0 < maxGeneration s.leases run.id) && run.status != .queued
  let run' : RunRow := { run with
    status := .claiming
    version := run.version + 1
    runtime := { run.runtime with recovering := recovering } }
  let fence : RunFence := ⟨run.id, owner, lease.generation, recovery.generation⟩
  some (fence, { s with
    now := s.now + late
    runs := setRun s.runs run'
    leases := leases
    log := s.log ++ [.granted fence] })

/-! ## The two fences -/

def runOf (s : Sys) (r : Nat) : Option RunRow := s.runs.find? (·.id == r)

/-- The lease part both fences check: the run is not terminal and its unreleased lease is
    the fence's own and has not expired. -/
def leaseValid (s : Sys) (f : RunFence) : Bool :=
  match runOf s f.run, unreleased s.leases f.run with
  | some run, some l =>
    !run.status.terminal && l.owner == f.owner && l.generation == f.generation && decide (s.now < l.expiresAt)
  | _, _ => false

/-- The recovery part, which `fenced` alone checks. -/
def recoveryValid (s : Sys) (f : RunFence) : Bool :=
  match s.recovery with
  | some r => r.generation == f.recoveryGeneration && r.automaticDispatchEnabled
  | none => false

/-- The check `RunOwnership.fenced` makes before it yields. -/
def fencedAccepts (s : Sys) (f : RunFence) : Bool := leaseValid s f && recoveryValid s f

/-- `FencedPostgresSaver._check`: some lease row of the fence's run, owner and generation
    is unreleased and unexpired, and the run is not terminal. -/
def saverAccepts (s : Sys) (f : RunFence) : Bool :=
  s.leases.any fun l =>
    l.run == f.run && l.owner == f.owner && l.generation == f.generation && l.releasedAt.isNone &&
      decide (s.now < l.expiresAt) && s.runs.any fun r => r.id == l.run && !r.status.terminal

/-! ## Recovery -/

inductive RecoveryAction where
  | beginRestore
  | resumeDispatch
  deriving DecidableEq, Repr

/-- `recovery_control`; `ambiguous` is the count of effects in `_AMBIGUOUS_EFFECTS`. -/
def recoveryControl (s : Sys) (action : RecoveryAction) (expectedGeneration ambiguous : Nat) : Option Sys := do
  let row ← s.recovery
  if row.generation ≠ expectedGeneration then none
  match action with
  | .beginRestore =>
    some { s with recovery := some ⟨row.generation + 1, false⟩, log := s.log ++ [.bumped (row.generation + 1)] }
  | .resumeDispatch =>
    if ambiguous ≠ 0 then none else some { s with recovery := some { row with automaticDispatchEnabled := true } }

/-- `emergency_stop` by `user`: every active run of the user's projects is cancelled. It
    waits for the row locks of those runs. -/
def emergencyStop (s : Sys) (user expectedGeneration : Nat) : Option Sys := do
  let row ← s.recovery
  if row.generation ≠ expectedGeneration then none
  if s.runs.any fun r => r.user == user && r.status.active && rowLocked s r.id then none
  some { s with
    runs := s.runs.map fun r =>
      if r.user == user && r.status.active then
        { r with desiredState := .cancelled, status := .cancelRequested, version := r.version + 1 }
      else r
    recovery := some ⟨row.generation + 1, false⟩
    log := s.log ++ [.bumped (row.generation + 1)] }

/-! ## Interleaved transactions -/

/-- What the body of a fenced transaction does to its session's rows. -/
inductive Work where
  /-- `renew`. -/
  | renew (ttl : Nat)
  /-- `release_in`. -/
  | release
  /-- Any other body: it rewrites the run row. -/
  | write (f : RunRow → RunRow)

inductive Act where
  | tick (d : Nat)
  | register (owner : Nat)
  | drain (owner : Nat)
  | create (r : RunRow)
  | claim (owner ttl : Nat) (capacity : Option Nat) (mode : Option Mode) (late : Nat)
  | openFenced (f : RunFence)
  | work (w : Work)
  | commit
  | rollback
  /-- Any other transaction under the event lock (commands, decisions, requeues). -/
  | control (r : Nat) (f : RunRow → RunRow)
  | openCursor (f : RunFence)
  | commitCursor (f : RunFence)
  | rollbackCursor (f : RunFence)
  | recovery (a : RecoveryAction) (expected ambiguous : Nat)
  | emergencyStop (user expected : Nat)

def Txn.work (now : Nat) (t : Txn) : Work → Txn
  | .renew ttl => { t with lease := { t.lease with expiresAt := now + ttl } }
  | .release => { t with lease := { t.lease with releasedAt := some now } }
  | .write f => { t with run := { f t.run with id := t.run.id } }

/-- Write the session's rows back. -/
def flush (s : Sys) (t : Txn) : Sys :=
  { s with
    runs := setRun s.runs t.run
    leases := s.leases.map fun l => if l.run = t.fence.run ∧ l.generation = t.fence.generation then t.lease else l
    txn := none
    log := s.log ++ [.committed t.fence t.lease.expiresAt s.now] }

/-- The unexpired lease a cursor's check found. -/
def cursorExpiry (s : Sys) (f : RunFence) : Nat := ((unreleased s.leases f.run).map (·.expiresAt)).getD 0

def step (s : Sys) : Act → Option Sys
  | .tick d => some { s with now := s.now + d }
  | .register owner =>
    if s.instances.any (·.id == owner) then none else some { s with instances := s.instances ++ [⟨owner, false⟩] }
  | .drain owner =>
    some { s with instances := s.instances.map fun i => if i.id = owner then { i with draining := true } else i }
  | .create r =>
    if s.txn.isNone ∧ s.runs.all (·.id != r.id) then
      some { s with runs := s.runs ++ [{ r with status := .queued, desiredState := .running }] }
    else none
  | .claim owner ttl capacity mode late =>
    if s.txn.isNone ∧ 0 < ttl then (claim s owner ttl capacity mode late).map (·.2) else none
  | .openFenced f =>
    if .granted f ∈ s.log ∧ s.txn.isNone ∧ !rowLocked s f.run ∧ fencedAccepts s f then
      match runOf s f.run, unreleased s.leases f.run with
      | some run, some l => some { s with txn := some ⟨f, run, l⟩ }
      | _, _ => none
    else none
  | .work w => s.txn.map fun t => { s with txn := some (t.work s.now w) }
  | .commit =>
    -- "Reject transactions whose lease expired while application work ran."
    s.txn.map fun t => if t.lease.expiresAt ≤ s.now then { s with txn := none } else flush s t
  | .rollback => s.txn.map fun _ => { s with txn := none }
  | .control r f =>
    if s.txn.isNone ∧ !rowLocked s r then
      some { s with runs := s.runs.map fun x => if x.id = r then { f x with id := x.id } else x }
    else none
  | .openCursor f =>
    if .granted f ∈ s.log ∧ !rowLocked s f.run ∧ saverAccepts s f then some { s with cursors := s.cursors ++ [f] } else none
  | .commitCursor f =>
    if f ∈ s.cursors then
      if saverAccepts s f then
        some { s with cursors := s.cursors.erase f, log := s.log ++ [.checkpointed f (cursorExpiry s f) s.now] }
      else some { s with cursors := s.cursors.erase f }
    else none
  | .rollbackCursor f => if f ∈ s.cursors then some { s with cursors := s.cursors.erase f } else none
  | .recovery a expected ambiguous => recoveryControl s a expected ambiguous
  | .emergencyStop user expected => emergencyStop s user expected

abbrev Reach (recovery : Option RecoveryRow) : Sys → Prop := Steps.Reach step (init recovery)

end Jarvis.Runtime.Ownership
