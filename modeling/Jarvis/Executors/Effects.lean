/-
  Jarvis.Executors.Effects — the effect ledger as a program of its executor
  (`runtime/effects.py`: `EffectLedger.handler`, `_record`, `cancel_pending`), over the
  adapters. It catches nothing: what an adapter raises leaves the node's handler.
-/
import Jarvis.Executors.Verification
import Jarvis.Executors.Workers

namespace Jarvis.Executors

open Runtime.Effects (EffectStatus Observation)
open Workflows (WorkflowNodeType)

/-! ## Adapters -/

namespace Adapter

def idempotent : Adapter → Bool
  | .worker _ | .verification _ => true
  | .external idempotent => idempotent

def inspect (x : Executor) (identity : Identity) : Adapter → Program (Observation Outcome)
  | .worker _ => WorkerEffectAdapter.inspect x identity
  | .verification _ => VerificationEffectAdapter.inspect x identity
  | .external _ => do
    x.service
    attempt (← ask .observe)

def dispatch (x : Executor) (kind : WorkflowNodeType) (identity : Identity) : Adapter → Program Unit
  | .worker spec => WorkerEffectAdapter.dispatch x spec identity
  | .verification binding => VerificationEffectAdapter.dispatch x binding kind identity
  | .external _ => x.service

def cancel (x : Executor) (identity : Identity) : Adapter → Program Unit
  | .worker _ => WorkerEffectAdapter.cancel x identity
  | .verification _ => VerificationEffectAdapter.cancel x identity
  | .external _ => x.service

end Adapter

namespace EffectLedger

/-- `_record`: a run cancelled meanwhile turns 'succeeded' and 'dispatched' into 'cancelled'. -/
def record (x : Executor) (effect : Nat) (status : EffectStatus) (external : Bool) (result : Option Outcome) : Program Unit := do
  let cancelled ← x.fenced .nothing fun s =>
    if (s.effect? effect).isNone then .error .other
    else
      .ok (s.writeEffect effect fun row => { row with toEffect := row.toEffect.record s.desired status external result },
        decide (status = .succeeded ∨ status = .dispatched) && s.cancelled)
  if cancelled then raise .cooperativeCancel else pure ()

/-! ## The handler of a node -/

/-- What the prepare transaction finds. -/
inductive Prepared where
  | recorded (outcome : Outcome)
  | effect (id : Nat) (dispatched : Bool)

def prepared (x : Executor) (s : Session) (effect : EffectRow) : Except Raised (Session × Prepared) :=
  if effect.status = .succeeded then .ok (s, .recorded (effect.result.getD none))
  else if effect.status = .cancelled then .error .cooperativeCancel
  else
    .ok (s.writeEffect effect.id fun row => { row with fenceGeneration := x.fence.generation },
      .effect effect.id (effect.status ≠ .prepared))

/-- The row of a fresh effect. -/
def fresh (x : Executor) (s : Session) (context : NodeContext) (digest : Nat) : EffectRow where
  id := s.rows.nextId
  run := x.fence.run
  identity := context.execution
  digest
  status := .prepared
  external := false
  result := none
  fenceGeneration := x.fence.generation

def insert (s : Session) (kind : WorkflowNodeType) (row : EffectRow) : Session :=
  { s with
    rows.effects := s.rows.effects ++ [row]
    rows.integration.effects := s.rows.integration.effects ++ [{ id := row.id, run := row.run, kind, requestDigest := row.digest }]
    rows.nextId := s.rows.nextId + 1 }

def prepare (x : Executor) (context : NodeContext) (request : EffectRequest) : Program Prepared :=
  x.fenced .nothing fun s =>
    match s.rows.effects.find? fun e => e.run = x.fence.run && e.identity = context.execution with
    | some effect => if effect.digest ≠ request.digest then .error .other else prepared x s effect
    | none =>
      if !request.modelPermitted then .error .ambiguousEffect
      else
        let row := fresh x s context request.digest
        let s := insert s context.kind row
        let s := if request.acceptsInstructions then
            s.writeRun fun run => { run with runtime := { run.runtime with instructions := [] } }
          else s
        prepared x s row

/-- The transaction at the head of the polling loop. -/
def pollCancel (x : Executor) (effect : Nat) : Program Bool :=
  x.fenced .nothing fun s =>
    if (s.effect? effect).isNone then .error .other
    else if s.cancelled then .ok (s.writeEffect effect fun row => { row with status := .cancelRequested }, true)
    else .ok (s, false)

/-- What the polling loop does with an observation. -/
def observed (x : Executor) (effect : Nat) (cancel : Bool) : Observation Outcome → Program (Option Outcome)
  | .succeeded result =>
    if cancel then do
      record x effect .cancelled false none
      raise .cooperativeCancel
    else
      match result with
      | none => raise .ambiguousEffect
      | some outcome => do
        let valid : Bool ← ask .valid
        if !valid then raise .ambiguousEffect
        else do
          record x effect .succeeded false (some outcome)
          pure (some outcome)
  | .cancelled => do
    record x effect .cancelled false none
    raise .cooperativeCancel
  | .unknown | .absent => do
    record x effect .unknown false none
    raise .ambiguousEffect
  | .running => pure none

/-- The polling loop: the outcome of the effect. -/
def poll (x : Executor) (adapter : Adapter) (identity : Identity) (effect : Nat) : Program Outcome :=
  .loop x.rounds do
    let cancel ← pollCancel x effect
    if cancel then adapter.cancel x identity
    observed x effect cancel (← adapter.inspect x identity)

/-- What follows the prepare transaction. -/
def settle (x : Executor) (adapter : Adapter) (context : NodeContext) (identity : Identity) (effect : Nat) (dispatched : Bool) :
    Program Outcome := do
  match ← adapter.inspect x identity with
  | .unknown => do
    record x effect .unknown false none
    raise .ambiguousEffect
  | .absent =>
    if dispatched && !adapter.idempotent then do
      record x effect .unknown false none
      raise .ambiguousEffect
    else do
      record x effect .dispatched true none
      adapter.dispatch x context.kind identity
      poll x adapter identity effect
  | _ => poll x adapter identity effect

/-- `handler(adapter)`. -/
def handler (x : Executor) (adapter : Adapter) (context : NodeContext) : Program Update := do
  let request : EffectRequest ← ask .effectRequest
  match ← prepare x context request with
  | .recorded outcome => pure { failureClass := outcome }
  | .effect effect dispatched => do
    let outcome ← settle x adapter context ⟨x.fence.run, context.execution⟩ effect dispatched
    pure { failureClass := outcome }

/-! ## Cancelling -/

def cancelEffect (x : Executor) (effect : EffectRow) : Program Unit := do
  if !effect.external then record x effect.id .cancelled false none
  else
    let adapter : Option Adapter ← ask .pendingAdapter
    match adapter with
    | none => raise .ambiguousEffect
    | some adapter =>
      .loop x.rounds do
        record x effect.id .cancelRequested false none
        adapter.cancel x ⟨effect.run, effect.identity⟩
        match ← adapter.inspect x ⟨effect.run, effect.identity⟩ with
        | .succeeded _ | .cancelled | .absent => do
          record x effect.id .cancelled false none
          pure (some ())
        | .unknown => do
          record x effect.id .unknown false none
          raise .ambiguousEffect
        | .running => pure none

def cancelEffects (x : Executor) : List EffectRow → Program Unit
  | [] => pure ()
  | effect :: rest => do
    cancelEffect x effect
    cancelEffects x rest

/-- `cancel_pending`. -/
def cancelPending (x : Executor) : Program Unit := do
  let pending ← x.read fun s => s.rows.effects.filter fun e => e.run = x.fence.run && e.status.pending
  cancelEffects x pending

end EffectLedger

end Jarvis.Executors
