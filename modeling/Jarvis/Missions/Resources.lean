/-
  Jarvis.Missions.Resources — admission controls and the maximum-liability ledger
  (`jarvis_orchestrator.mission_resources`).

  A reservation is checked and written scope by scope within the caller's transaction. What a
  denied call has written until then stays in the session: `reserve` returns the session's
  ledger beside its result, and the caller decides whether it is committed.
-/
import Jarvis.Missions.Rows

namespace Jarvis.Missions

/-! ## Fields -/

/-- `COUNT_FIELDS`, in the order in which the limits are checked. -/
def countFields : List CountField :=
  [.calls, .inputTokens, .outputTokens, .activeJobs, .wallSeconds, .iterations, .newWorkItems]

theorem CountField.mem_countFields (field : CountField) : field ∈ countFields := by
  cases field <;> decide

def CountField.name : CountField → String
  | .calls => "calls"
  | .inputTokens => "input_tokens"
  | .outputTokens => "output_tokens"
  | .activeJobs => "active_jobs"
  | .wallSeconds => "wall_seconds"
  | .iterations => "iterations"
  | .newWorkItems => "new_work_items"

def Amounts.count (values : Amounts) : CountField → Nat
  | .calls => values.calls.getD 0
  | .inputTokens => values.inputTokens.getD 0
  | .outputTokens => values.outputTokens.getD 0
  | .activeJobs => values.activeJobs.getD 0
  | .wallSeconds => values.wallSeconds.getD 0
  | .iterations => values.iterations.getD 0
  | .newWorkItems => values.newWorkItems.getD 0

def Amounts.cost (values : Amounts) : ℚ≥0 := values.costAmount.getD 0

/-- `LIMIT_FIELDS`. -/
def MissionResourceLimits.limit (limits : MissionResourceLimits) : CountField → Nat
  | .calls => limits.maxCalls
  | .inputTokens => limits.maxInputTokens
  | .outputTokens => limits.maxOutputTokens
  | .activeJobs => limits.maxActiveJobs
  | .wallSeconds => limits.maxWallSeconds
  | .iterations => limits.maxIterations
  | .newWorkItems => limits.maxNewWorkItems

def BudgetDenied.message : BudgetDenied → String
  | .currencyMismatch => "budget_currency_mismatch"
  | .identityMismatch => "budget_reservation_identity_mismatch"
  | .priceUnitMismatch => "budget_price_unit_mismatch"
  | .exceeded field => "budget_" ++ field.name ++ "_exceeded"
  | .costExceeded => "budget_cost_exceeded"
  | .reservationMissing => "budget_reservation_missing"
  | .paidPricingUnknown => "budget_paid_pricing_unknown"
  | .teamInferenceCalls => "team_inference_call_budget_exceeded"

/-! ## Controls -/

/-- `scope_keys`. -/
def scopeKeys (mission : MissionRow) : List ScopeKey :=
  [.global, .team mission.selectedTeamVersionId, .mission mission.id]

/-- The limits a scope's control starts with. -/
def initialLimits (mission : MissionRow) : ScopeKey → MissionResourceLimits
  | .mission _ => mission.resourceLimits
  | _ => sharedResourceLimits

/-- `ensure_controls`. -/
def ensureControls (controls : List ControlRow) (mission : MissionRow) : List ControlRow :=
  (scopeKeys mission).foldl (fun controls key =>
    if controls.any (·.scopeKey = key) then controls
    else controls ++ [{ scopeKey := key, limits := initialLimits mission key }]) controls

def control? (controls : List ControlRow) (key : ScopeKey) : Option ControlRow := controls.find? (·.scopeKey = key)

/-- The mission's controls by `scope_key`: `global`, then `mission:…`, then `team:…`. -/
def missionControls (controls : List ControlRow) (mission : MissionRow) : List ControlRow :=
  [ScopeKey.global, .mission mission.id, .team mission.selectedTeamVersionId].filterMap (control? controls)

def ScopeKey.scope : ScopeKey → String
  | .global => "global"
  | .team _ => "team"
  | .mission _ => "mission"

def ControlState.name : ControlState → String
  | .open => "open"
  | .paused => "paused"
  | .draining => "draining"
  | .cancelling => "cancelling"

def MissionLifecycle.name : MissionLifecycle → String
  | .active => "active"
  | .idle => "idle"
  | .waitingForCapacity => "waiting_for_capacity"
  | .waitingForApproval => "waiting_for_approval"
  | .blocked => "blocked"
  | .paused => "paused"
  | .cancelling => "cancelling"
  | .cancelled => "cancelled"
  | .completed => "completed"
  | .archived => "archived"

def AdmissionDenied.message (operation : String) : AdmissionDenied → String
  | .paused denied =>
    operation ++ "_admission_paused:" ++
      ",".intercalate (denied.map fun (key, state) => key.scope ++ ":" ++ state.name)
  | .mission lifecycle => operation ++ "_mission_" ++ lifecycle.name

/-- The lifecycles in which a mission admits nothing. -/
def MissionLifecycle.closed : MissionLifecycle → Bool
  | .paused | .cancelling | .cancelled | .completed | .archived => true
  | _ => false

/-- `require_admission`, on the controls that `ensure_controls` leaves. -/
def requireAdmission (controls : List ControlRow) (mission : MissionRow) : Except AdmissionDenied Unit :=
  let denied := (missionControls controls mission).filter (·.state ≠ .open)
  if denied ≠ [] then .error (.paused (denied.map fun row => (row.scopeKey, row.state)))
  else if mission.lifecycle.closed then .error (.mission mission.lifecycle)
  else .ok ()

/-! ## Reservations -/

variable {α : Type} [DecidableEq α]

/-- `_window_start`. -/
def windowStart (now : Nat) (limits : MissionResourceLimits) : Nat := now - now % limits.windowSeconds

/-- The values a row counts with: its actual use once reconciled, its liability before. -/
def ReservationRow.values (row : ReservationRow α) : Amounts :=
  if row.status = .reconciled then row.actual.getD {} else row.liability

/-- The rows of a scope and a window that have not been released. -/
def counting (rows : List (ReservationRow α)) (key : ScopeKey) (window : Nat) : List (ReservationRow α) :=
  rows.filter fun row => row.scopeKey = key ∧ row.windowStartedAt = window ∧ row.status ≠ .released

/-- The arguments of `reserve` besides the session and the mission. -/
structure ReserveCall (α : Type) where
  missionId : Nat
  actionId : α
  kind : ReservationKind
  liability : Amounts
  currency : String
  priceUnit : String := "currency"
  now : Nat

/-- `total[field]`, the call's own liability included. -/
def countTotal (rows : List (ReservationRow α)) (liability : Amounts) (field : CountField) : Nat :=
  (rows.map fun row => row.values.count field).sum + liability.count field

/-- The amounts `_add` adds to `total["cost_amount"]`. -/
def costAmounts (rows : List (ReservationRow α)) (liability : Amounts) : List ℚ≥0 :=
  (rows.filterMap fun row => row.values.costAmount) ++ liability.costAmount.toList

/-- The comparison of the totals with the limits. -/
def checkTotals (limits : MissionResourceLimits) (rows : List (ReservationRow α)) (liability : Amounts) :
    Except BudgetDenied Unit :=
  match countFields.find? fun field => limits.limit field < countTotal rows liability field with
  | some field => .error (.exceeded field)
  | none =>
    let cost := Decimal.total 0 (costAmounts rows liability)
    if cost ≠ 0 ∧ limits.maxCost.all (· < cost) then .error .costExceeded else .ok ()

/-- One scope of `reserve`: the session's rows and the reservation of the scope. -/
def reserveScope (call : ReserveCall α) (rows : List (ReservationRow α)) (control : ControlRow) :
    Except BudgetDenied (List (ReservationRow α) × ReservationRow α) :=
  if control.limits.currency ≠ call.currency then .error .currencyMismatch
  else
    match rows.find? fun row => row.scopeKey = control.scopeKey ∧ row.actionId = call.actionId with
    | some existing =>
      if existing.liability ≠ call.liability ∨ existing.currency ≠ call.currency ∨ existing.priceUnit ≠ call.priceUnit then
        .error .identityMismatch
      else .ok (rows, existing)
    | none =>
      let window := windowStart call.now control.limits
      let counted := counting rows control.scopeKey window
      if counted.any fun row => row.currency ≠ call.currency ∨ row.priceUnit ≠ call.priceUnit then
        .error .priceUnitMismatch
      else
        match checkTotals control.limits counted call.liability with
        | .error e => .error e
        | .ok () =>
          let row : ReservationRow α :=
            { missionId := call.missionId, scopeKey := control.scopeKey, actionId := call.actionId, kind := call.kind,
              liability := call.liability, currency := call.currency, priceUnit := call.priceUnit,
              windowStartedAt := window }
          .ok (rows ++ [row], row)

/-- The loop of `reserve`: the rows of the session when it ends, and its result. -/
def reserveScopes (call : ReserveCall α) : List (ReservationRow α) → List ControlRow →
    List (ReservationRow α) × Except BudgetDenied (List (ReservationRow α))
  | rows, [] => (rows, .ok [])
  | rows, control :: controls =>
    match reserveScope call rows control with
    | .error e => (rows, .error e)
    | .ok (rows', row) =>
      let session := reserveScopes call rows' controls
      (session.1, session.2.map (row :: ·))

structure Ledger (α : Type) where
  controls : List ControlRow := []
  reservations : List (ReservationRow α) := []

/-- `reserve`. -/
def reserve (ledger : Ledger α) (mission : MissionRow) (call : ReserveCall α) :
    Ledger α × Except BudgetDenied (List (ReservationRow α)) :=
  let controls := ensureControls ledger.controls mission
  let session := reserveScopes call ledger.reservations (missionControls controls mission)
  (⟨controls, session.1⟩, session.2)

/-- The rows `reconcile` and `release` select. -/
def selected (mission : MissionRow) (actionId : α) (row : ReservationRow α) : Bool :=
  decide (row.scopeKey ∈ scopeKeys mission ∧ row.actionId = actionId)

/-- What `reconcile` makes of a row it has selected. -/
def ReservationRow.reconciled (row : ReservationRow α) (actual : Option Amounts) (unknown : Bool) (now : Nat) :
    ReservationRow α :=
  if row.status = .reconciled ∨ row.status = .unknown then row
  else { row with actual := actual, status := if unknown then .unknown else .reconciled, reconciledAt := some now }

/-- `reconcile`. -/
def reconcile (ledger : Ledger α) (mission : MissionRow) (actionId : α) (actual : Option Amounts) (unknown : Bool)
    (now : Nat) : Except BudgetDenied (Ledger α) :=
  if ledger.reservations.any (selected mission actionId) then
    .ok { ledger with
      reservations := ledger.reservations.map fun row =>
        if selected mission actionId row then row.reconciled actual unknown now else row }
  else .error .reservationMissing

/-- What `release` makes of a row it has selected. -/
def ReservationRow.release (row : ReservationRow α) (now : Nat) : ReservationRow α :=
  if row.status = .reserved then { row with status := .released, reconciledAt := some now } else row

/-- `release`. -/
def release (ledger : Ledger α) (mission : MissionRow) (actionId : α) (now : Nat) : Ledger α :=
  { ledger with
    reservations := ledger.reservations.map fun row => if selected mission actionId row then row.release now else row }

end Jarvis.Missions
