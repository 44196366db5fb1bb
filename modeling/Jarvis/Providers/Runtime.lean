/-
  Jarvis.Providers.Runtime — the model calls of one run (`providers/runtime.py`:
  `RuntimeModel.invoke`), with any number of executions of any of its calls at once.

  An execution goes through two fenced transactions with the provider's call between them. The
  first records the intent: it answers from the receipt, stops at an intent that has none, has
  the call authorized, and records a refusal or the started call. The second records the
  receipt and the result. An execution can vanish between any two moves (`crash`), and what it
  raises rolls its transaction back; another execution of the same call is its replay, whether
  it is the same executor's, a parallel branch's or the next owner's.

  A call's node is bound to its provider, profile and route for good (`bound`); the request of
  a replay is made anew. `fence` is the fence whose transactions commit: it changes when a
  lease is taken, lost or ended, in any way. `invoked` is ghost state: the calls for which
  `adapter.invoke` was entered.
-/
import Jarvis.Lib.Keyed
import Jarvis.Lib.Steps
import Jarvis.Providers.Budget

namespace Jarvis.Providers

/-- `ProviderResult`, as far as it is recorded. -/
structure ProviderResult where
  usage : Usage := {}
  failure : Bool := false
  /-- More than 2097152 bytes of canonical JSON. -/
  tooLarge : Bool := false
  deriving DecidableEq

/-- `ModelResponseReceiptModel`. -/
structure Receipt where
  callId : Nat
  requestDigest : RequestDigest
  response : ProviderResult
  deriving DecidableEq

/-- The events of a model call. -/
inductive Event where
  | budgetDenied (call : Nat) (decision : Decision) (reasons : List String)
  | budgetAuthorized (call : Nat) (estimatedCost runSpendBefore : Option ℚ≥0) (policy : PolicyDigest)
  | callStarted (call profileId providerId : Nat)
  | callCompleted (call : Nat) (usage : Usage)
  | callFailed (call : Nat) (usage : Usage)
  deriving DecidableEq

/-- A `model.call_started` event of the call. -/
def Event.starts (call : Nat) : Event → Bool
  | .callStarted c _ _ => c == call
  | _ => false

inductive Pc where
  | start
  /-- The intent is committed, the provider not called yet. -/
  | issued
  /-- In `adapter.invoke`. -/
  | calling
  | answered (result : ProviderResult)
  deriving DecidableEq

/-- An execution of `invoke`. -/
structure Proc where
  id : Nat
  fence : Nat
  callId : Nat
  request : ProviderRequest
  pc : Pc
  deriving DecidableEq

structure St where
  fence : Option Nat := none
  receipts : List Receipt := []
  events : List Event := []
  grants : List Grant := []
  rows : List ModelCall := []
  procs : List Proc := []
  next : Nat := 0
  invoked : List Nat := []
  deriving DecidableEq

namespace St

def proc? (s : St) (x : Nat) : Option Proc := s.procs.find? (·.id = x)

def setPc (s : St) (x : Nat) (pc : Pc) : St :=
  { s with procs := Keyed.replace Proc.id x (fun p => { p with pc }) s.procs }

def drop (s : St) (x : Nat) : St := { s with procs := s.procs.filter (·.id ≠ x) }

end St

/-! ## The two transactions -/

/-- `_account`; the rows of a call are keyed by their stage. -/
def account (bound : Binding) (rows : List ModelCall) (call : Nat) (stage : Stage) (usage : Usage) (outcome : Outcome)
    (now : Nat) : Except CallError (List ModelCall) :=
  let row : ModelCall :=
    { callId := call, stage, providerId := bound.providerId, profileId := bound.profileId, usage
      pricing := bound.pricing, cost := calculateCost usage bound.pricing, outcome, createdAt := now }
  match rows.find? fun old => old.callId = call ∧ old.stage = stage with
  | some prior => if prior = row then .ok rows else .error .invalid
  | none => .ok (rows ++ [row])

/-- How the first transaction ends when it commits. -/
inductive Reply where
  | stored (result : ProviderResult)
  | refused (reasons : List String)
  | issued
  deriving DecidableEq

def Decision.refusal : Decision → Outcome
  | .requireApproval => .requireApproval
  | _ => .denied

/-- The events before the provider is called. -/
def intentEvents (bound : Binding) (call : Nat) (grant : Option Grant) : List Event :=
  (grant.map fun g => .budgetAuthorized call g.estimatedCost g.runSpendBefore g.policyDigest).toList ++
    [.callStarted call bound.profileId bound.providerId]

/-- The first transaction; `calls` is what `inference_calls` counts in it. -/
def beginCall (bound : Binding) (s : St) (call : Nat) (request : ProviderRequest) (calls now : Nat) :
    Except CallError (St × Reply) :=
  match s.receipts.find? (·.callId = call) with
  | some receipt =>
    if receipt.requestDigest ≠ bound.requestDigest request then .error (.ambiguous "model receipt identity mismatch")
    else .ok (s, .stored receipt.response)
  | none =>
    if s.events.any (·.starts call) then .error (.ambiguous "model call requires receipt reconciliation")
    else
      match authorize bound s.grants s.rows calls call request with
      | .error e => .error e
      | .ok (grant, grants) =>
        match grant.filter (·.decision ≠ .allow) with
        | some g =>
          (account bound s.rows call .denied {} g.decision.refusal now).map fun rows =>
            ({ s with grants, rows, events := s.events ++ [.budgetDenied call g.decision g.reasons] }, .refused g.reasons)
        | none =>
          -- "An append-only unknown attempt survives death during inference."
          (account bound s.rows call .started {} .unknown now).map fun rows =>
            ({ s with grants, rows, events := s.events ++ intentEvents bound call grant }, .issued)

/-- The second transaction. -/
def recordResult (bound : Binding) (s : St) (call : Nat) (request : ProviderRequest) (result : ProviderResult) (now : Nat) :
    Except CallError St :=
  -- the receipt's key is the call's
  if s.receipts.any (·.callId = call) then .error .invalid
  else
    (account bound s.rows call .result result.usage (if result.failure then .failed else .completed) now).map fun rows =>
      { s with
        receipts := s.receipts ++ [⟨call, bound.requestDigest request, result⟩]
        rows
        events := s.events ++ [if result.failure then .callFailed call result.usage else .callCompleted call result.usage] }

/-! ## Executions -/

inductive Act where
  /-- From now on the transactions of this fence commit. -/
  | fence (f : Option Nat)
  | enter (fence call : Nat) (request : ProviderRequest)
  | begin_ (x calls now : Nat)
  | invoke (x : Nat)
  | answer (x : Nat) (result : ProviderResult)
  | record (x now : Nat)
  | crash (x : Nat)

/-- The execution's next move. -/
def procStep (bound : Nat → Binding) (s : St) (p : Proc) : Act → Option St
  | .begin_ x calls now =>
    if p.pc = .start then
      if s.fence = some p.fence then
        match beginCall (bound p.callId) s p.callId p.request calls now with
        | .ok (t, .issued) => some (t.setPc x .issued)
        | .ok (t, _) => some (t.drop x)
        | .error _ => some (s.drop x)
      else some (s.drop x)
    else none
  | .invoke x => if p.pc = .issued then some { s.setPc x .calling with invoked := s.invoked ++ [p.callId] } else none
  | .answer x result =>
    if p.pc = .calling then
      if result.tooLarge then some (s.drop x) else some (s.setPc x (.answered result))
    else none
  | .record x now =>
    match p.pc with
    | .answered result =>
      if s.fence = some p.fence then
        match recordResult (bound p.callId) s p.callId p.request result now with
        | .ok t => some (t.drop x)
        | .error _ => some (s.drop x)
      else some (s.drop x)
    | _ => none
  | .crash x => some (s.drop x)
  | _ => none

def step (bound : Nat → Binding) (s : St) (a : Act) : Option St :=
  match a with
  | .fence f => some { s with fence := f }
  | .enter fence call request =>
    some { s with procs := s.procs ++ [⟨s.next, fence, call, request, .start⟩], next := s.next + 1 }
  | .begin_ x _ _ | .invoke x | .answer x _ | .record x _ | .crash x => (s.proc? x).bind fun p => procStep bound s p a

end Jarvis.Providers
