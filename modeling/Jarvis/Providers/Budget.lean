/-
  Jarvis.Providers.Budget — what a model call costs and whether a run may spend it
  (`routing/policies.py`: `calculate_cost`, `evaluate_spend`; `providers/budget.py`:
  `BudgetGateway`).

  The tables are those of one run, in the order in which their rows were added. A call's id is
  made from its run's, so it names a call of that run only. A digest stands for what it is a
  digest of, and a request's schema and tools for their canonical JSON text.
-/
import Jarvis.Lib.Decimal

namespace Jarvis.Providers

/-! ## Usage, prices and costs -/

inductive Provenance where
  | exact
  | estimated
  | unknown
  deriving DecidableEq, Repr

theorem uncached_of_input (input : Nat) : ∀ cached ∈ (none : Option Nat), ∀ tokens ∈ some input, cached ≤ tokens := nofun

structure Usage where
  inputTokens : Option Nat := none
  cachedTokens : Option Nat := none
  outputTokens : Option Nat := none
  provenance : Provenance := .unknown
  /-- "cached token count exceeds input count" is refused. -/
  cached_le : ∀ cached ∈ cachedTokens, ∀ input ∈ inputTokens, cached ≤ input := by
    first | exact Jarvis.Providers.uncached_of_input _ | simp
  deriving DecidableEq

inductive PricingStatus where
  | known
  | unknown
  | notApplicable
  deriving DecidableEq, Repr

structure Pricing where
  status : PricingStatus := .unknown
  currency : String := "USD"
  inputPerMillion : Option ℚ≥0 := none
  cachedPerMillion : Option ℚ≥0 := none
  outputPerMillion : Option ℚ≥0 := none
  known_complete : status = .known → inputPerMillion.isSome ∧ outputPerMillion.isSome := by decide
  bare : status ≠ .known → inputPerMillion = none ∧ outputPerMillion = none ∧ cachedPerMillion = none := by decide
  deriving DecidableEq

inductive CostStatus where
  | exact
  | estimated
  | unknown
  | notApplicable
  deriving DecidableEq, Repr

structure Cost where
  amount : Option ℚ≥0 := none
  currency : String := "USD"
  status : CostStatus := .unknown
  deriving DecidableEq

def Provenance.costStatus : Provenance → CostStatus
  | .exact => .exact
  | .estimated => .estimated
  | .unknown => .unknown

/-- `calculate_cost`. -/
def calculateCost (usage : Usage) (pricing : Pricing) : Cost :=
  if pricing.status = .notApplicable then { currency := pricing.currency, status := .notApplicable }
  else if pricing.status ≠ .known ∨ usage.provenance = .unknown then { currency := pricing.currency }
  else
    match usage.inputTokens, usage.outputTokens, pricing.inputPerMillion, pricing.outputPerMillion with
    | some input, some output, some inputPrice, some outputPrice =>
      let cached := usage.cachedTokens.getD 0
      if input < cached then { currency := pricing.currency }
      else
        -- "absent cached pricing conservatively uses input rate"
        let cachedPrice := pricing.cachedPerMillion.getD inputPrice
        let millions := Decimal.add
          (Decimal.add (Decimal.mul (input - cached : Nat) inputPrice) (Decimal.mul cached cachedPrice))
          (Decimal.mul output outputPrice)
        { amount := some (Decimal.div millions 1000000), currency := pricing.currency
          status := usage.provenance.costStatus }
    | _, _, _, _ => { currency := pricing.currency }

/-! ## Spend policies -/

inductive Decision where
  | allow
  | deny
  | requireApproval
  deriving DecidableEq, Repr

/-- What a policy answers a call it does not allow. -/
inductive OnExceeded where
  | deny
  | requireApproval
  deriving DecidableEq, Repr

def OnExceeded.decision : OnExceeded → Decision
  | .deny => .deny
  | .requireApproval => .requireApproval

structure SpendPolicy where
  allowPaid : Bool := false
  maxInputTokens : Nat := 32000
  maxOutputTokens : Nat := 4096
  maxCallCost : Option ℚ≥0 := none
  maxRunCost : Option ℚ≥0 := none
  onExceeded : OnExceeded := .deny
  deriving DecidableEq

/-- `RouteRequirements`; its bounds are checked where it is built. -/
structure RouteRequirements where
  inputTokens : Nat
  outputTokens : Nat
  runSpend : Option ℚ≥0
  input_le : inputTokens ≤ 10000000
  output_pos : 1 ≤ outputTokens
  output_le : outputTokens ≤ 1000000

/-- The usage a call is estimated with. -/
def estimatedUsage (input output : Nat) : Usage :=
  { inputTokens := some input, outputTokens := some output, provenance := .estimated }

def RouteRequirements.estimate (requirements : RouteRequirements) (pricing : Pricing) : Option ℚ≥0 :=
  (calculateCost (estimatedUsage requirements.inputTokens requirements.outputTokens) pricing).amount

/-- The per-run ceiling of `evaluate_spend`. -/
def fitsRun (estimate spent : Option ℚ≥0) (cap : ℚ≥0) : Bool :=
  match estimate, spent with
  | some estimate, some spent => decide (Decimal.add spent estimate ≤ cap)
  | _, _ => false

/-- The reasons `evaluate_spend` collects. -/
def spendReasons (policy : SpendPolicy) (requirements : RouteRequirements) (pricing : Pricing) (paid : Bool) :
    List String :=
  let estimate := requirements.estimate pricing
  (if paid ∧ !policy.allowPaid then ["Paid provider use is disabled"] else []) ++
  (if policy.maxInputTokens < requirements.inputTokens then ["Per-call input token ceiling exceeded"] else []) ++
  (if policy.maxOutputTokens < requirements.outputTokens then ["Per-call output token ceiling exceeded"] else []) ++
  (if policy.maxCallCost.any fun cap => estimate.all (cap < ·) then ["Per-call cost ceiling cannot be satisfied"]
    else []) ++
  (if policy.maxRunCost.any fun cap => !fitsRun estimate requirements.runSpend cap then
    ["Per-run cost ceiling cannot be satisfied"] else [])

/-- `evaluate_spend`. -/
def evaluateSpend (policy : SpendPolicy) (requirements : RouteRequirements) (pricing : Pricing) (paid : Bool) :
    Decision × List String :=
  let reasons := spendReasons policy requirements pricing paid
  (if reasons = [] then .allow else policy.onExceeded.decision, reasons)

theorem OnExceeded.decision_ne_allow (answer : OnExceeded) : answer.decision ≠ .allow := by
  cases answer <;> decide

theorem fitsRun_iff {estimate spent : Option ℚ≥0} {cap : ℚ≥0} : fitsRun estimate spent cap = true ↔
    ∃ before liability, spent = some before ∧ estimate = some liability ∧ Decimal.add before liability ≤ cap := by
  cases estimate <;> cases spent <;> simp [fitsRun]

/-- What is allowed under a per-run ceiling fits it, with what the run has spent before. -/
theorem evaluateSpend_allow {policy : SpendPolicy} {requirements : RouteRequirements} {pricing : Pricing} {paid : Bool}
    (h : (evaluateSpend policy requirements pricing paid).1 = .allow) {cap : ℚ≥0} (hcap : policy.maxRunCost = some cap) :
    fitsRun (requirements.estimate pricing) requirements.runSpend cap = true := by
  have hreasons : spendReasons policy requirements pricing paid = [] := by
    by_contra hne
    rw [evaluateSpend, if_neg hne] at h
    exact policy.onExceeded.decision_ne_allow h
  by_contra hfits
  simp [spendReasons, hcap, hfits] at hreasons

/-! ## Accounting rows -/

/-- The part of an `idempotency_key` after its last colon. -/
inductive Stage where
  | started
  | denied
  | result
  deriving DecidableEq, Repr

inductive Outcome where
  | completed
  | failed
  | unknown
  | denied
  | requireApproval
  deriving DecidableEq, Repr

/-- `ModelCallModel`, with the fields of its `record_json`. -/
structure ModelCall where
  /-- `correlation_id`. -/
  callId : Nat
  stage : Stage
  providerId : Nat
  profileId : Nat
  usage : Usage
  pricing : Pricing
  cost : Cost
  outcome : Outcome
  createdAt : Nat
  demo : Bool := false
  deriving DecidableEq

/-- The sets and the total of the loop of `run_spend`. -/
structure Tally where
  started : List Nat := []
  completed : List Nat := []
  total : ℚ≥0 := 0

/-- One row of the loop of `run_spend`; `none` is its `return None`. -/
def Tally.row (t : Tally) (row : ModelCall) : Option Tally :=
  match row.stage with
  | .started => some { t with started := t.started ++ [row.callId] }
  | .denied => some t
  | .result =>
    let t := { t with completed := t.completed ++ [row.callId] }
    if row.demo then some t
    else if row.cost.status = .notApplicable then some t
    else if row.cost.status = .unknown then none
    else row.cost.amount.map fun amount => { t with total := Decimal.add t.total amount }

/-- `run_spend`. -/
def runSpend (rows : List ModelCall) : Option ℚ≥0 :=
  (rows.foldlM Tally.row {}).bind fun t =>
    if t.started.all (· ∈ t.completed) then some t.total else none

/-- What a row adds to the run's spend. -/
def ModelCall.spent (row : ModelCall) : Option ℚ≥0 :=
  if row.stage = .result ∧ !row.demo ∧ row.cost.status ≠ .notApplicable then row.cost.amount else none

/-- The costs recorded so far, as `run_spend` adds them. -/
def recordedSpend (rows : List ModelCall) : ℚ≥0 := Decimal.total 0 (rows.filterMap ModelCall.spent)

/-- The calls that have a row of a stage. -/
def stageCalls (stage : Stage) (rows : List ModelCall) : List Nat := (rows.filter (·.stage = stage)).map (·.callId)

theorem mem_stageCalls {stage : Stage} {rows : List ModelCall} {call : Nat} :
    call ∈ stageCalls stage rows ↔ ∃ row ∈ rows, row.stage = stage ∧ row.callId = call := by
  simp [stageCalls, and_assoc]

theorem stageCalls_append (stage : Stage) (rows : List ModelCall) (row : ModelCall) :
    stageCalls stage (rows ++ [row]) = stageCalls stage rows ++ if row.stage = stage then [row.callId] else [] := by
  by_cases h : row.stage = stage <;> simp [stageCalls, h]

theorem Tally.row_eq {t t' : Tally} {row : ModelCall} (h : t.row row = some t') :
    t' = ⟨t.started ++ stageCalls .started [row], t.completed ++ stageCalls .result [row],
      Decimal.total t.total ([row].filterMap ModelCall.spent)⟩ := by
  unfold Tally.row at h
  split at h
  · rename_i hstage
    cases h
    simp [stageCalls, ModelCall.spent, hstage, Decimal.total]
  · rename_i hstage
    cases h
    simp [stageCalls, ModelCall.spent, hstage, Decimal.total]
  · rename_i hstage
    simp only at h
    split_ifs at h with hdemo hfree
    · cases h
      simp [stageCalls, ModelCall.spent, hstage, hdemo, Decimal.total]
    · cases h
      simp [stageCalls, ModelCall.spent, hstage, hfree, Decimal.total]
    · obtain ⟨amount, hamount, rfl⟩ := Option.map_eq_some_iff.mp h
      simp [stageCalls, ModelCall.spent, hstage, hdemo, hfree, hamount, Decimal.total]

/-- The loop of `run_spend`, when it does not return early. -/
theorem tally_eq : ∀ {rows : List ModelCall} {t t' : Tally}, rows.foldlM Tally.row t = some t' →
    t' = ⟨t.started ++ stageCalls .started rows, t.completed ++ stageCalls .result rows,
      Decimal.total t.total (rows.filterMap ModelCall.spent)⟩ := by
  intro rows
  induction rows with
  | nil =>
    intro t t' h
    cases h
    simp [stageCalls, Decimal.total]
  | cons row rows ih =>
    intro t t' h
    rw [List.foldlM_cons] at h
    obtain ⟨u, hu, h⟩ := Option.bind_eq_some_iff.mp h
    have hcons : ∀ stage, stageCalls stage (row :: rows) = stageCalls stage [row] ++ stageCalls stage rows := fun stage => by
      rw [stageCalls, ← List.singleton_append, List.filter_append, List.map_append]
      rfl
    have hspent : (row :: rows).filterMap ModelCall.spent =
        [row].filterMap ModelCall.spent ++ rows.filterMap ModelCall.spent := by
      rw [← List.singleton_append, List.filterMap_append]
    rw [ih h, Tally.row_eq hu, hcons, hcons, hspent, Decimal.total_append, List.append_assoc, List.append_assoc]

/-- A run's spend is determined only when every call begun has its result, and it is then the
    spend recorded. -/
theorem runSpend_eq_some {rows : List ModelCall} {spent : ℚ≥0} (h : runSpend rows = some spent) :
    spent = recordedSpend rows ∧ ∀ call ∈ stageCalls .started rows, call ∈ stageCalls .result rows := by
  obtain ⟨t, ht, h⟩ := Option.bind_eq_some_iff.mp h
  have heq := tally_eq ht
  split_ifs at h with hall
  rw [heq] at h hall
  exact ⟨(Option.some.inj h).symm, fun call hcall => by simpa using (List.all_eq_true.mp hall) call (by simpa using hcall)⟩

/-! ## The gateway -/

structure ProviderRequest where
  purpose : String
  text : String
  outputTokens : Nat
  structuredSchema : Option String := none
  tools : List String := []
  correlationId : String
  taskId : Option Nat := none
  nodeId : Option String := none
  output_pos : 1 ≤ outputTokens := by decide
  output_le : outputTokens ≤ 1000000 := by decide
  deriving DecidableEq

/-- `PROVIDER_REQUEST_OVERHEAD_TOKENS`. -/
def providerRequestOverheadTokens : Nat := 256

/-- `estimate_input_tokens`: every byte may be a token. -/
def estimateInputTokens (request : ProviderRequest) : Nat :=
  let size := request.text.utf8ByteSize + (request.structuredSchema.map String.utf8ByteSize).getD 0 +
    (request.tools.map String.utf8ByteSize).sum
  max 1 (size + providerRequestOverheadTokens + 64 * request.tools.length)

structure Route where
  revisionId : Nat
  spend : SpendPolicy
  deriving DecidableEq

/-- `BudgetGateway`; the route and its revision are there together. -/
structure BudgetGateway where
  route : Option Route := none
  maxInferenceCalls : Option Nat := none
  missionId : Option Nat := none
  teamVersionId : Option Nat := none

/-- What `policy_digest` digests. -/
structure PolicyDigest where
  route : Option Route
  maxInferenceCalls : Option Nat
  deriving DecidableEq

def BudgetGateway.policyDigest (budget : BudgetGateway) : PolicyDigest := ⟨budget.route, budget.maxInferenceCalls⟩

/-- What a node's call is bound to: the revisions of its provider and its profile, whether the
    provider is paid, and the gateway. -/
structure Binding where
  providerId : Nat
  profileId : Nat
  paid : Bool
  pricing : Pricing
  budget : BudgetGateway

/-- What the digest of a request digests. -/
structure RequestDigest where
  request : ProviderRequest
  providerId : Nat
  profileId : Nat
  deriving DecidableEq

def Binding.requestDigest (bound : Binding) (request : ProviderRequest) : RequestDigest :=
  ⟨request, bound.providerId, bound.profileId⟩

/-- `ModelBudgetGrantModel`. -/
structure Grant where
  callId : Nat
  routeRevisionId : Option Nat
  profileId : Nat
  providerId : Nat
  requestDigest : RequestDigest
  policyDigest : PolicyDigest
  decision : Decision
  reasons : List String
  estimatedCost : Option ℚ≥0
  runSpendBefore : Option ℚ≥0
  deriving DecidableEq

/-- What a call can raise before it reaches its provider. -/
inductive CallError where
  /-- `BudgetDeniedError`. -/
  | denied (reasons : List String)
  /-- `AmbiguousEffectError`. -/
  | ambiguous (message : String)
  /-- A row or a value that is refused. -/
  | invalid
  deriving DecidableEq, Repr

/-- The team's part of `authorize`; `calls` is what `inference_calls` counts. -/
def BudgetGateway.reserveInferenceCall (budget : BudgetGateway) (calls : Nat) : Except CallError Unit :=
  match budget.maxInferenceCalls with
  | none => .ok ()
  | some maximum =>
    if budget.missionId.isNone ∨ budget.teamVersionId.isNone then
      .error (.denied ["Team inference budget identity is incomplete"])
    else if maximum ≤ calls then .error (.denied ["team_inference_call_budget_exceeded"])
    else .ok ()

/-- How `authorize` judges a paid call that has no grant: the decision, its reasons and the
    estimate. -/
def judge (bound : Binding) (spent : Option ℚ≥0) (request : ProviderRequest) :
    Except CallError (Decision × List String × Option ℚ≥0) :=
  match bound.budget.route with
  | none => .ok (.deny, ["Paid use requires an immutable bound route policy"], none)
  | some route =>
    if bound.pricing.status ≠ .known then .ok (.deny, ["Paid provider pricing is not known"], none)
    else if spent.isNone ∧ route.spend.maxRunCost.isSome then
      .ok (.deny, ["Durable run spend cannot be determined"], none)
    else if hle : estimateInputTokens request ≤ 10000000 then
      let requirements : RouteRequirements :=
        ⟨estimateInputTokens request, request.outputTokens, spent, hle, request.output_pos, request.output_le⟩
      let (decision, reasons) := evaluateSpend route.spend requirements bound.pricing true
      .ok (decision, reasons, requirements.estimate bound.pricing)
    else .error .invalid

/-- A call that is allowed under a per-run ceiling was found to fit. -/
theorem judge_allow {bound : Binding} {spent estimate : Option ℚ≥0} {request : ProviderRequest} {reasons : List String}
    (h : judge bound spent request = .ok (.allow, reasons, estimate)) :
    ∃ route, bound.budget.route = some route ∧ ∀ cap, route.spend.maxRunCost = some cap →
      ∃ before liability, spent = some before ∧ estimate = some liability ∧ Decimal.add before liability ≤ cap := by
  unfold judge at h
  split at h
  · cases h
  · rename_i route hroute
    refine ⟨route, hroute, fun cap hcap => ?_⟩
    split_ifs at h with hknown hspent hle
    · cases h
    · cases h
    · simp only [Except.ok.injEq, Prod.mk.injEq] at h
      obtain ⟨hallow, -, rfl⟩ := h
      exact fitsRun_iff.mp (evaluateSpend_allow hallow hcap)

/-- `authorize`: the call's grant, if it needs one, and the grants after it. -/
def authorize (bound : Binding) (grants : List Grant) (rows : List ModelCall) (calls call : Nat)
    (request : ProviderRequest) : Except CallError (Option Grant × List Grant) :=
  match bound.budget.reserveInferenceCall calls with
  | .error e => .error e
  | .ok () =>
    if !bound.paid then .ok (none, grants)
    else
      match grants.find? (·.callId = call) with
      | some grant =>
        if grant.requestDigest ≠ bound.requestDigest request ∨ grant.policyDigest ≠ bound.budget.policyDigest then
          .error (.denied ["Recorded budget grant does not match this call"])
        else if grant.decision ≠ .allow then .error (.denied grant.reasons)
        else .ok (some grant, grants)
      | none =>
        match judge bound (runSpend rows) request with
        | .error e => .error e
        | .ok (decision, reasons, estimate) =>
          let grant : Grant :=
            { callId := call, routeRevisionId := bound.budget.route.map (·.revisionId), profileId := bound.profileId
              providerId := bound.providerId, requestDigest := bound.requestDigest request
              policyDigest := bound.budget.policyDigest, decision, reasons, estimatedCost := estimate
              runSpendBefore := runSpend rows }
          .ok (some grant, grants ++ [grant])

/-- What `authorize` leaves for a call it does not refuse: nothing of an unpaid provider, a grant
    that was there and allowed it, or a new grant. -/
theorem authorize_cases {bound : Binding} {grants grants' : List Grant} {rows : List ModelCall} {calls call : Nat}
    {request : ProviderRequest} {grant : Option Grant}
    (h : authorize bound grants rows calls call request = .ok (grant, grants')) :
    (bound.paid = false ∧ grant = none ∧ grants' = grants) ∨
    (bound.paid = true ∧ ∃ g ∈ grants, g.callId = call ∧ g.decision = .allow ∧ grant = some g ∧ grants' = grants) ∨
    (bound.paid = true ∧ (∀ g ∈ grants, g.callId ≠ call) ∧ ∃ g, g.callId = call ∧ grant = some g ∧ grants' = grants ++ [g] ∧
      judge bound (runSpend rows) request = .ok (g.decision, g.reasons, g.estimatedCost)) := by
  unfold authorize at h
  split at h
  · cases h
  split_ifs at h with hpaid
  · cases h
    exact .inl ⟨by simpa using hpaid, rfl, rfl⟩
  have hpaid : bound.paid = true := by simpa using hpaid
  split at h
  · rename_i g hg
    have hcall : g.callId = call := by simpa using List.find?_some hg
    split_ifs at h with hsame hallow
    cases h
    exact .inr (.inl ⟨hpaid, g, List.mem_of_find?_eq_some hg, hcall, by simpa using hallow, rfl, rfl⟩)
  · rename_i hnone
    split at h
    · cases h
    · rename_i decision reasons estimate hjudge
      cases h
      exact .inr (.inr ⟨hpaid, by simpa using hnone, _, rfl, rfl, rfl, hjudge⟩)

/-- Nothing is authorized of a team that has no call left. -/
theorem authorize_reserved {bound : Binding} {grants : List Grant} {rows : List ModelCall} {calls call : Nat}
    {request : ProviderRequest} {result : Option Grant × List Grant}
    (h : authorize bound grants rows calls call request = .ok result) : bound.budget.reserveInferenceCall calls = .ok () := by
  unfold authorize at h
  split at h
  · cases h
  · assumption

end Jarvis.Providers
