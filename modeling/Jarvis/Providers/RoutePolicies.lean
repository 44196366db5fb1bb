/-
  Jarvis.Providers.RoutePolicies — which model profile a route resolves to
  (`routing/policies.py`: `resolve_route`).

  An id is a number: the text of a UUID has a fixed width, so texts and numbers have one order.
  The hash of the inputs is left out of the resolution, and of a record what `resolve_route` does
  not read.

  `Eligible` is what the loop over the candidates collects no reason against (`select_eq_some`);
  the selection is the least eligible candidate (`resolveRoute_selected`) and rests on no order
  (`resolveRoute_order`).
-/
import Mathlib.Data.List.Sort
import Mathlib.Data.Prod.Lex
import Jarvis.Lib.Dict
import Jarvis.Providers.Budget
import Jarvis.Providers.Circuit
import Jarvis.Workflows.Spec

namespace Jarvis.Providers

open Jarvis.Workflows (FailureClass)

/-! ## Records -/

inductive ProviderKind where
  | openai
  | ollama
  | demo
  deriving DecidableEq, Repr

inductive Locality where
  | sameHost
  | localLan
  | remote
  deriving DecidableEq, Repr

inductive DataClassification where
  | publicData
  | internal
  | confidential
  | restricted
  deriving DecidableEq, Repr

inductive SecretStatus where
  | configured
  | missing
  | notRequired
  deriving DecidableEq, Repr

structure EgressPolicy where
  allowedData : List DataClassification := [.publicData]
  remoteAllowed : Bool := false
  paid : Bool := false

structure ProviderSpec where
  providerKind : ProviderKind
  locality : Locality := .sameHost
  egress : EgressPolicy := {}

structure ModelProfileSpec where
  providerRevisionId : Nat
  purposes : List String
  capabilities : List String := ["chat"]
  contextLimit : Nat
  outputLimit : Nat
  structuredJson : Bool := false
  toolCalls : Bool := false
  streaming : Bool := false
  locality : Locality := .sameHost
  pricing : Pricing := {}

structure RouteCandidate where
  profileRevisionId : Nat
  priority : Nat := 0
  deriving DecidableEq

structure RoutePolicySpec where
  candidates : List RouteCandidate
  requiredCapabilities : List String := []
  purposes : List String
  allowedData : List DataClassification := [.publicData]
  allowRemote : Bool := false
  allowUnknownHealth : Bool := false
  failoverClasses : List FailureClass := []
  spend : SpendPolicy := {}
  candidates_length : 1 ≤ candidates.length ∧ candidates.length ≤ 32
  /-- "candidate revisions must be unique". -/
  unique_candidates : (candidates.map RouteCandidate.profileRevisionId).Nodup

inductive RegistrySpec where
  | providerConnection (spec : ProviderSpec)
  | modelProfile (spec : ModelProfileSpec)
  | routePolicy (spec : RoutePolicySpec)
  | other

/-- `RegistryRecord`. -/
structure RegistryRecord where
  revisionId : Nat
  enabled : Bool
  archived : Bool
  spec : RegistrySpec
  secretStatus : SecretStatus := .notRequired
  health : HealthStatus := .unknown
  circuitState : CircuitState := .closed

/-- `RoutePreviewRequest`, with its requirements. -/
structure RoutePreviewRequest where
  routeRevisionId : Nat
  requirements : RouteRequirements
  purpose : String
  capabilities : List String := []
  dataClassification : DataClassification := .publicData
  failedProfileRevisionIds : List Nat := []
  failureClass : Option FailureClass := none

structure CandidateDecision where
  profileRevisionId : Nat
  eligible : Bool
  reasons : List String
  deriving DecidableEq

structure RouteResolution where
  routeRevisionId : Nat
  selectedProfileRevisionId : Option Nat := none
  selectedProviderRevisionId : Option Nat := none
  decision : Decision := .deny
  reasons : List String := []
  candidates : List CandidateDecision := []
  demo : Bool := false
  deriving DecidableEq

/-! ## `resolve_route` -/

/-- A reason, where its test is met. -/
def reason (test : Bool) (text : String) : List String := if test then [text] else []

/-- The refusals of `resolve_route` before it looks at a candidate. -/
def refusal (request : RoutePreviewRequest) (route : RegistryRecord) (spec : RoutePolicySpec) : Option String :=
  if route.revisionId ≠ request.routeRevisionId then some "Invalid route revision"
  else if !route.enabled ∨ route.archived then some "Route is disabled or archived"
  else if request.purpose ∉ spec.purposes ∨ request.dataClassification ∉ spec.allowedData then
    some "Route purpose or data policy denied"
  else if request.failedProfileRevisionIds.any fun id => id ∉ spec.candidates.map RouteCandidate.profileRevisionId then
    some "Failover references an undeclared profile"
  else if request.failedProfileRevisionIds ≠ [] ∧ (request.failureClass.all fun cls =>
      cls ∉ spec.failoverClasses ∨ cls = .securityPolicyDenied ∨ cls = .userCancelled) then
    some "Failover is not permitted for this failure"
  else none

/-- The capabilities of a profile, with its support flags. -/
def ModelProfileSpec.offers (profile : ModelProfileSpec) : List String :=
  profile.capabilities ++ (if profile.structuredJson then ["structured_json"] else []) ++
    (if profile.toolCalls then ["tool_calls"] else []) ++ (if profile.streaming then ["streaming"] else [])

/-- `records.get(...)`, if its record is the revision asked for and a profile. -/
def profileOf (records : Dict Nat RegistryRecord) (id : Nat) : Option (RegistryRecord × ModelProfileSpec) :=
  (records.get? id).bind fun record =>
    match record.spec with
    | .modelProfile profile => if record.revisionId = id then some (record, profile) else none
    | _ => none

/-- The same for the provider that a profile names. -/
def providerOf (records : Dict Nat RegistryRecord) (id : Nat) : Option (RegistryRecord × ProviderSpec) :=
  (records.get? id).bind fun record =>
    match record.spec with
    | .providerConnection provider => if record.revisionId = id then some (record, provider) else none
    | _ => none

variable (spec : RoutePolicySpec) (request : RoutePreviewRequest) (records : Dict Nat RegistryRecord)

def profileReasons (record : RegistryRecord) (profile : ModelProfileSpec) : List String :=
  reason (!record.enabled || record.archived) "Profile is disabled or archived" ++
  reason (!((request.capabilities ++ spec.requiredCapabilities).all fun name => profile.offers.contains name))
    "Required capabilities are unavailable" ++
  reason (!profile.purposes.contains request.purpose) "Profile purpose is incompatible" ++
  reason (profile.contextLimit < request.requirements.inputTokens + request.requirements.outputTokens)
    "Context requirement exceeds profile limit" ++
  reason (profile.outputLimit < request.requirements.outputTokens) "Output requirement exceeds profile limit"

def providerReasons (profile : ModelProfileSpec) (record : RegistryRecord) (provider : ProviderSpec) : List String :=
  reason (!record.enabled || record.archived) "Provider is disabled or archived" ++
  reason (record.secretStatus = .missing) "Provider credential reference is missing" ++
  reason (provider.locality ≠ profile.locality) "Provider/profile locality mismatch" ++
  reason (request.dataClassification ∉ provider.egress.allowedData) "Provider data policy denied" ++
  reason (provider.locality = .remote ∧ !(spec.allowRemote && provider.egress.remoteAllowed))
    "Remote provider use is denied" ++
  reason (record.health = .unavailable ∨ record.health = .misconfigured ∨
      record.health = .unknown ∧ !spec.allowUnknownHealth) "Provider health is ineligible" ++
  reason (record.circuitState ≠ .closed) "Provider circuit requires recovery probe"

/-- The reasons that the loop collects against a candidate. -/
def candidateReasons (candidate : RouteCandidate) : List String :=
  reason (request.failedProfileRevisionIds.contains candidate.profileRevisionId) "Candidate already failed" ++
  match profileOf records candidate.profileRevisionId with
  | none => ["Profile revision is missing"]
  | some (record, profile) =>
    profileReasons spec request record profile ++
    match providerOf records profile.providerRevisionId with
    | none => ["Provider revision is missing"]
    | some (providerRecord, provider) => providerReasons spec request profile providerRecord provider

/-- `selected` and `selected_provider`, with their specs. -/
structure Selection where
  profileRecord : RegistryRecord
  profile : ModelProfileSpec
  providerRecord : RegistryRecord
  provider : ProviderSpec

/-- What the loop takes a candidate for, if it collects no reason against it. -/
def select (candidate : RouteCandidate) : Option Selection :=
  if candidateReasons spec request records candidate = [] then
    (profileOf records candidate.profileRevisionId).bind fun (record, profile) =>
      (providerOf records profile.providerRevisionId).map fun (providerRecord, provider) =>
        ⟨record, profile, providerRecord, provider⟩
  else none

/-- The sort key of a candidate. -/
def RouteCandidate.key (candidate : RouteCandidate) : Nat ×ₗ Nat := toLex (candidate.priority, candidate.profileRevisionId)

def RoutePolicySpec.ranked (spec : RoutePolicySpec) : List RouteCandidate :=
  spec.candidates.insertionSort fun a b => a.key ≤ b.key

/-- The loop over the candidates, and the spend decision for the one selected. -/
def resolveAmong : RouteResolution :=
  let decisions := spec.ranked.map fun candidate =>
    let reasons := candidateReasons spec request records candidate
    (⟨candidate.profileRevisionId, reasons = [], reasons⟩ : CandidateDecision)
  match spec.ranked.findSome? (select spec request records) with
  | none =>
    { routeRevisionId := request.routeRevisionId, reasons := ["No eligible declared candidate"], candidates := decisions }
  | some selected =>
    let (decision, reasons) :=
      evaluateSpend spec.spend request.requirements selected.profile.pricing selected.provider.egress.paid
    { routeRevisionId := request.routeRevisionId
      selectedProfileRevisionId := some selected.profileRecord.revisionId
      selectedProviderRevisionId := some selected.providerRecord.revisionId
      decision, reasons, candidates := decisions, demo := selected.provider.providerKind = .demo }

/-- `resolve_route`. -/
def resolveRoute (request : RoutePreviewRequest) (route : RegistryRecord) (records : Dict Nat RegistryRecord) :
    RouteResolution :=
  match route.spec with
  | .routePolicy spec =>
    match refusal request route spec with
    | some text => { routeRevisionId := request.routeRevisionId, reasons := [text] }
    | none => resolveAmong spec request records
  | _ => { routeRevisionId := request.routeRevisionId, reasons := ["Invalid route revision"] }

/-! ## What is eligible -/

/-- A candidate that a route may take for a request, with the records it stands for. -/
structure Eligible (candidate : RouteCandidate) (chosen : Selection) : Prop where
  not_failed : candidate.profileRevisionId ∉ request.failedProfileRevisionIds
  profile_found : records.get? candidate.profileRevisionId = some chosen.profileRecord
  profile_revision : chosen.profileRecord.revisionId = candidate.profileRevisionId
  profile_spec : chosen.profileRecord.spec = .modelProfile chosen.profile
  profile_enabled : chosen.profileRecord.enabled = true ∧ chosen.profileRecord.archived = false
  capable : ∀ name ∈ request.capabilities ++ spec.requiredCapabilities, name ∈ chosen.profile.offers
  purpose : request.purpose ∈ chosen.profile.purposes
  context : request.requirements.inputTokens + request.requirements.outputTokens ≤ chosen.profile.contextLimit
  output : request.requirements.outputTokens ≤ chosen.profile.outputLimit
  provider_found : records.get? chosen.profile.providerRevisionId = some chosen.providerRecord
  provider_revision : chosen.providerRecord.revisionId = chosen.profile.providerRevisionId
  provider_spec : chosen.providerRecord.spec = .providerConnection chosen.provider
  provider_enabled : chosen.providerRecord.enabled = true ∧ chosen.providerRecord.archived = false
  credential : chosen.providerRecord.secretStatus ≠ .missing
  locality : chosen.provider.locality = chosen.profile.locality
  data : request.dataClassification ∈ chosen.provider.egress.allowedData
  egress : chosen.provider.locality = .remote → spec.allowRemote = true ∧ chosen.provider.egress.remoteAllowed = true
  health : chosen.providerRecord.health ≠ .unavailable ∧ chosen.providerRecord.health ≠ .misconfigured ∧
    (chosen.providerRecord.health = .unknown → spec.allowUnknownHealth = true)
  circuit : chosen.providerRecord.circuitState = .closed

theorem reason_eq_nil {test : Bool} {text : String} : reason test text = [] ↔ test = false := by
  cases test <;> simp [reason]

theorem profileOf_eq_some {records : Dict Nat RegistryRecord} {id : Nat} {record : RegistryRecord}
    {profile : ModelProfileSpec} : profileOf records id = some (record, profile) ↔
      records.get? id = some record ∧ record.revisionId = id ∧ record.spec = .modelProfile profile := by
  unfold profileOf
  rw [Option.bind_eq_some_iff]
  constructor
  · rintro ⟨found, hfound, h⟩
    split at h
    · rename_i hspec
      split_ifs at h with hid
      cases h
      exact ⟨hfound, hid, hspec⟩
    · cases h
  · rintro ⟨hfound, hid, hspec⟩
    exact ⟨record, hfound, by simp [hspec, hid]⟩

theorem providerOf_eq_some {records : Dict Nat RegistryRecord} {id : Nat} {record : RegistryRecord}
    {provider : ProviderSpec} : providerOf records id = some (record, provider) ↔
      records.get? id = some record ∧ record.revisionId = id ∧ record.spec = .providerConnection provider := by
  unfold providerOf
  rw [Option.bind_eq_some_iff]
  constructor
  · rintro ⟨found, hfound, h⟩
    split at h
    · rename_i hspec
      split_ifs at h with hid
      cases h
      exact ⟨hfound, hid, hspec⟩
    · cases h
  · rintro ⟨hfound, hid, hspec⟩
    exact ⟨record, hfound, by simp [hspec, hid]⟩

variable {spec request records} {candidate : RouteCandidate} {chosen : Selection}

theorem profileReasons_eq_nil {record : RegistryRecord} {profile : ModelProfileSpec} :
    profileReasons spec request record profile = [] ↔ (record.enabled = true ∧ record.archived = false) ∧
      (∀ name ∈ request.capabilities ++ spec.requiredCapabilities, name ∈ profile.offers) ∧
      request.purpose ∈ profile.purposes ∧
      request.requirements.inputTokens + request.requirements.outputTokens ≤ profile.contextLimit ∧
      request.requirements.outputTokens ≤ profile.outputLimit := by
  simp only [profileReasons, List.append_eq_nil_iff, reason_eq_nil, and_assoc]
  simp [or_imp, forall_and, and_assoc]

theorem providerReasons_eq_nil {profile : ModelProfileSpec} {record : RegistryRecord} {provider : ProviderSpec} :
    providerReasons spec request profile record provider = [] ↔ (record.enabled = true ∧ record.archived = false) ∧
      record.secretStatus ≠ .missing ∧ provider.locality = profile.locality ∧
      request.dataClassification ∈ provider.egress.allowedData ∧
      (provider.locality = .remote → spec.allowRemote = true ∧ provider.egress.remoteAllowed = true) ∧
      (record.health ≠ .unavailable ∧ record.health ≠ .misconfigured ∧
        (record.health = .unknown → spec.allowUnknownHealth = true)) ∧
      record.circuitState = .closed := by
  simp only [providerReasons, List.append_eq_nil_iff, reason_eq_nil, and_assoc]
  simp [and_assoc]

/-- The selection made of a candidate is what it is eligible with. -/
theorem select_eq_some : select spec request records candidate = some chosen ↔ Eligible spec request records candidate chosen := by
  unfold select
  constructor
  · intro h
    split_ifs at h with hnone
    obtain ⟨⟨record, profile⟩, hprofile, h⟩ := Option.bind_eq_some_iff.mp h
    obtain ⟨⟨providerRecord, provider⟩, hprovider, rfl⟩ := Option.map_eq_some_iff.mp h
    simp only [candidateReasons, hprofile, hprovider, List.append_eq_nil_iff, reason_eq_nil, profileReasons_eq_nil,
      providerReasons_eq_nil] at hnone
    obtain ⟨hfailed, ⟨henabled, hcapable, hpurpose, hcontext, houtput⟩,
      henabled', hcredential, hlocality, hdata, hegress, hhealth, hcircuit⟩ := hnone
    obtain ⟨hfound, hrevision, hspec⟩ := profileOf_eq_some.mp hprofile
    obtain ⟨hfound', hrevision', hspec'⟩ := providerOf_eq_some.mp hprovider
    exact ⟨by simpa using hfailed, hfound, hrevision, hspec, henabled, hcapable, hpurpose, hcontext, houtput, hfound',
      hrevision', hspec', henabled', hcredential, hlocality, hdata, hegress, hhealth, hcircuit⟩
  · intro h
    have hprofile := profileOf_eq_some.mpr ⟨h.profile_found, h.profile_revision, h.profile_spec⟩
    have hprovider := providerOf_eq_some.mpr ⟨h.provider_found, h.provider_revision, h.provider_spec⟩
    have hnone : candidateReasons spec request records candidate = [] := by
      simp only [candidateReasons, hprofile, hprovider, List.append_eq_nil_iff, reason_eq_nil, profileReasons_eq_nil,
        providerReasons_eq_nil]
      exact ⟨by simpa using h.not_failed,
        ⟨h.profile_enabled, h.capable, h.purpose, h.context, h.output⟩,
        h.provider_enabled, h.credential, h.locality, h.data, h.egress, h.health, h.circuit⟩
    rw [if_pos hnone]
    simp only [hprofile, hprovider, Option.bind_some, Option.map_some]

/-! ## The order of the candidates -/

theorem key_injective : Function.Injective RouteCandidate.key := by
  intro a b h
  have hpair : (a.priority, a.profileRevisionId) = (b.priority, b.profileRevisionId) := congrArg ofLex h
  cases a
  cases b
  simp only [Prod.mk.injEq] at hpair
  rw [hpair.1, hpair.2]

theorem ranked_perm (spec : RoutePolicySpec) : spec.ranked.Perm spec.candidates := List.perm_insertionSort _ _

theorem ranked_sorted (spec : RoutePolicySpec) : spec.ranked.Pairwise fun a b => a.key ≤ b.key :=
  List.pairwise_insertionSort (fun a b => a.key ≤ b.key) spec.candidates

theorem mem_ranked : candidate ∈ spec.ranked ↔ candidate ∈ spec.candidates := (ranked_perm spec).mem_iff

/-- In a ranked list, the first candidate of a kind is the least of its kind. -/
theorem findSome?_ranked {β : Type} {f : RouteCandidate → Option β} {b : β} :
    spec.ranked.findSome? f = some b ↔ ∃ candidate ∈ spec.candidates, f candidate = some b ∧
      ∀ other ∈ spec.candidates, (f other).isSome → candidate.key ≤ other.key := by
  have leads : ∀ {b' : β}, spec.ranked.findSome? f = some b' → ∃ candidate ∈ spec.candidates, f candidate = some b' ∧
      ∀ other ∈ spec.candidates, (f other).isSome → candidate.key ≤ other.key := by
    intro b' h
    obtain ⟨before, candidate, after, heq, hsome, hnone⟩ := List.findSome?_eq_some_iff.mp h
    have hsorted := ranked_sorted spec
    rw [heq] at hsorted
    refine ⟨candidate, mem_ranked.mp (by simp [heq]), hsome, fun other hother hkind => ?_⟩
    have hother := mem_ranked.mpr hother
    rw [heq] at hother
    rcases List.mem_append.mp hother with hbefore | hother
    · rw [hnone other hbefore] at hkind
      cases hkind
    rcases List.mem_cons.mp hother with rfl | hafter
    · exact le_refl _
    · exact (List.pairwise_cons.mp (List.pairwise_append.mp hsorted).2.1).1 other hafter
  constructor
  · exact leads
  · rintro ⟨candidate, hmem, hsome, hleast⟩
    cases hfound : spec.ranked.findSome? f with
    | none =>
      rw [List.findSome?_eq_none_iff.mp hfound candidate (mem_ranked.mpr hmem)] at hsome
      cases hsome
    | some b' =>
      obtain ⟨candidate', hmem', hsome', hleast'⟩ := leads hfound
      have hkey := le_antisymm (hleast candidate' hmem' (by simp [hsome'])) (hleast' candidate hmem (by simp [hsome]))
      rw [key_injective hkey] at hsome
      rw [← hsome, ← hsome']

/-- A policy with its candidates in another order. -/
def RoutePolicySpec.reorder (spec : RoutePolicySpec) (candidates : List RouteCandidate)
    (h : candidates.Perm spec.candidates) : RoutePolicySpec :=
  { spec with
    candidates
    candidates_length := h.length_eq ▸ spec.candidates_length
    unique_candidates := (h.map RouteCandidate.profileRevisionId).nodup_iff.mpr spec.unique_candidates }

theorem ranked_reorder {candidates : List RouteCandidate} (h : candidates.Perm spec.candidates) :
    (spec.reorder candidates h).ranked = spec.ranked := by
  have hperm : (spec.reorder candidates h).ranked.Perm spec.ranked :=
    (ranked_perm (spec.reorder candidates h)).trans (h.trans (ranked_perm spec).symm)
  refine hperm.eq_of_pairwise (fun a b _ _ hab hba => key_injective (le_antisymm hab hba)) ?_ (ranked_sorted spec)
  exact ranked_sorted (spec.reorder candidates h)

/-! ## Spend -/

/-- What a spend policy asks of a call. -/
structure SpendSatisfied (policy : SpendPolicy) (requirements : RouteRequirements) (pricing : Pricing) (paid : Bool) :
    Prop where
  allowed : paid = true → policy.allowPaid = true
  input : requirements.inputTokens ≤ policy.maxInputTokens
  output : requirements.outputTokens ≤ policy.maxOutputTokens
  call : ∀ cap ∈ policy.maxCallCost, ∃ estimate ∈ requirements.estimate pricing, estimate ≤ cap
  run : ∀ cap ∈ policy.maxRunCost, ∃ estimate ∈ requirements.estimate pricing, ∃ spent ∈ requirements.runSpend,
    Decimal.add spent estimate ≤ cap

theorem ite_singleton_eq_nil {p : Prop} [Decidable p] {text : String} : (if p then [text] else []) = [] ↔ ¬ p := by
  split <;> simp_all

theorem spendReasons_eq_nil {policy : SpendPolicy} {requirements : RouteRequirements} {pricing : Pricing} {paid : Bool} :
    spendReasons policy requirements pricing paid = [] ↔ SpendSatisfied policy requirements pricing paid := by
  have hcall : (policy.maxCallCost.any fun cap => (requirements.estimate pricing).all (cap < ·)) = false ↔
      ∀ cap ∈ policy.maxCallCost, ∃ estimate ∈ requirements.estimate pricing, estimate ≤ cap := by
    rcases policy.maxCallCost with _ | cap <;> rcases requirements.estimate pricing with _ | estimate <;> simp
  have hrun : (policy.maxRunCost.any fun cap => !fitsRun (requirements.estimate pricing) requirements.runSpend cap) = false ↔
      ∀ cap ∈ policy.maxRunCost, ∃ estimate ∈ requirements.estimate pricing, ∃ spent ∈ requirements.runSpend,
        Decimal.add spent estimate ≤ cap := by
    rcases policy.maxRunCost with _ | cap
    · simp
    rw [Option.any_some, Bool.not_eq_false', fitsRun_iff]
    constructor
    · rintro ⟨spent, estimate, hspent, hestimate, hle⟩ cap' hcap
      cases hcap
      exact ⟨estimate, hestimate, spent, hspent, hle⟩
    · intro h
      obtain ⟨estimate, hestimate, spent, hspent, hle⟩ := h cap rfl
      exact ⟨spent, estimate, hspent, hestimate, hle⟩
  simp only [spendReasons, List.append_eq_nil_iff, ite_singleton_eq_nil, Bool.not_eq_true, hcall, hrun, and_assoc]
  constructor
  · rintro ⟨hallowed, hinput, houtput, hcall, hrun⟩
    exact ⟨by simpa using hallowed, Nat.not_lt.mp hinput, Nat.not_lt.mp houtput, hcall, hrun⟩
  · intro h
    exact ⟨by simpa using h.allowed, Nat.not_lt.mpr h.input, Nat.not_lt.mpr h.output, h.call, h.run⟩

/-- A call is allowed exactly when its policy is satisfied. -/
theorem evaluateSpend_allow_iff {policy : SpendPolicy} {requirements : RouteRequirements} {pricing : Pricing}
    {paid : Bool} : (evaluateSpend policy requirements pricing paid).1 = .allow ↔
      SpendSatisfied policy requirements pricing paid := by
  rw [← spendReasons_eq_nil]
  unfold evaluateSpend
  simp only
  constructor
  · intro h
    by_contra hne
    rw [if_neg hne] at h
    exact policy.onExceeded.decision_ne_allow h
  · intro h
    rw [if_pos h]

/-! ## Resolution -/

/-- A candidate of a route that takes the request, least of those that are eligible. -/
structure Resolves (request : RoutePreviewRequest) (route : RegistryRecord) (records : Dict Nat RegistryRecord)
    (spec : RoutePolicySpec) (candidate : RouteCandidate) (chosen : Selection) : Prop where
  policy : route.spec = .routePolicy spec
  taken : refusal request route spec = none
  declared : candidate ∈ spec.candidates
  eligible : Eligible spec request records candidate chosen
  least : ∀ other ∈ spec.candidates, ∀ chosen', Eligible spec request records other chosen' → candidate.key ≤ other.key

theorem resolves_of_findSome? {route : RegistryRecord} (hpolicy : route.spec = .routePolicy spec)
    (htaken : refusal request route spec = none) :
    spec.ranked.findSome? (select spec request records) = some chosen ↔
      ∃ candidate, Resolves request route records spec candidate chosen := by
  rw [findSome?_ranked]
  constructor
  · rintro ⟨candidate, hmem, hselect, hleast⟩
    refine ⟨candidate, hpolicy, htaken, hmem, select_eq_some.mp hselect, fun other hother chosen' h => ?_⟩
    exact hleast other hother (by rw [select_eq_some.mpr h]; rfl)
  · rintro ⟨candidate, h⟩
    refine ⟨candidate, h.declared, select_eq_some.mpr h.eligible, fun other hother hsome => ?_⟩
    obtain ⟨chosen', hchosen⟩ := Option.isSome_iff_exists.mp hsome
    exact h.least other hother chosen' (select_eq_some.mp hchosen)

/-- Where a candidate resolves the request, the resolution is about it. -/
theorem resolveRoute_of_resolves {route : RegistryRecord} (h : Resolves request route records spec candidate chosen) :
    (resolveRoute request route records).selectedProfileRevisionId = some candidate.profileRevisionId ∧
    (resolveRoute request route records).selectedProviderRevisionId = some chosen.profile.providerRevisionId ∧
    (resolveRoute request route records).decision =
      (evaluateSpend spec.spend request.requirements chosen.profile.pricing chosen.provider.egress.paid).1 := by
  have hchosen := (resolves_of_findSome? h.policy h.taken).mpr ⟨candidate, h⟩
  unfold resolveRoute
  simp only [h.policy, h.taken, resolveAmong, hchosen, h.eligible.profile_revision, h.eligible.provider_revision,
    and_self]

/-- Where none does, nothing is selected, and the decision is the default. -/
theorem resolveRoute_of_none {route : RegistryRecord}
    (h : ∀ spec candidate chosen, ¬ Resolves request route records spec candidate chosen) :
    (resolveRoute request route records).selectedProfileRevisionId = none ∧
    (resolveRoute request route records).decision = .deny := by
  unfold resolveRoute
  split
  case h_2 => exact ⟨rfl, rfl⟩
  rename_i spec hpolicy
  split
  · exact ⟨rfl, rfl⟩
  rename_i htaken
  unfold resolveAmong
  split
  · exact ⟨rfl, rfl⟩
  · rename_i chosen hchosen
    obtain ⟨candidate, hresolves⟩ := (resolves_of_findSome? hpolicy htaken).mp hchosen
    exact absurd hresolves (h spec candidate chosen)

theorem resolveRoute_selected {route : RegistryRecord} {revision : Nat} :
    (resolveRoute request route records).selectedProfileRevisionId = some revision ↔
      ∃ spec candidate chosen, Resolves request route records spec candidate chosen ∧
        candidate.profileRevisionId = revision := by
  constructor
  · intro h
    by_contra hnone
    have hall : ∀ spec candidate chosen, ¬ Resolves request route records spec candidate chosen := by
      intro spec candidate chosen hresolves
      rw [(resolveRoute_of_resolves hresolves).1] at h
      exact hnone ⟨spec, candidate, chosen, hresolves, Option.some.inj h⟩
    rw [(resolveRoute_of_none hall).1] at h
    cases h
  · rintro ⟨spec, candidate, chosen, h, rfl⟩
    exact (resolveRoute_of_resolves h).1

/-- What is allowed has a selection, whose policy of spend is satisfied. -/
theorem resolveRoute_allow {route : RegistryRecord} (h : (resolveRoute request route records).decision = .allow) :
    ∃ spec candidate chosen, Resolves request route records spec candidate chosen ∧
      SpendSatisfied spec.spend request.requirements chosen.profile.pricing chosen.provider.egress.paid := by
  by_contra hnone
  have hall : ∀ spec candidate chosen, ¬ Resolves request route records spec candidate chosen := by
    intro spec candidate chosen hresolves
    rw [(resolveRoute_of_resolves hresolves).2.2, evaluateSpend_allow_iff] at h
    exact hnone ⟨spec, candidate, chosen, hresolves, h⟩
  rw [(resolveRoute_of_none hall).2] at h
  cases h

variable (spec request) in
theorem select_congr {records' : Dict Nat RegistryRecord} (hrecords : ∀ id, records'.get? id = records.get? id) :
    select spec request records' = select spec request records ∧
      candidateReasons spec request records' = candidateReasons spec request records := by
  have hprofile : ∀ id, profileOf records' id = profileOf records id := fun id => by rw [profileOf, profileOf, hrecords]
  have hprovider : ∀ id, providerOf records' id = providerOf records id := fun id => by
    rw [providerOf, providerOf, hrecords]
  have hreasons : candidateReasons spec request records' = candidateReasons spec request records := by
    funext candidate
    simp only [candidateReasons, hprofile, hprovider]
  refine ⟨?_, hreasons⟩
  funext candidate
  simp only [select, hreasons, hprofile, hprovider]

/-- The resolution rests neither on the order of the candidates nor on that of the records. -/
theorem resolveRoute_order {route : RegistryRecord} {candidates : List RouteCandidate}
    (hpolicy : route.spec = .routePolicy spec) (hperm : candidates.Perm spec.candidates)
    {records' : Dict Nat RegistryRecord} (hrecords : ∀ id, records'.get? id = records.get? id) :
    resolveRoute request { route with spec := .routePolicy (spec.reorder candidates hperm) } records' =
      resolveRoute request route records := by
  have hrefusal : refusal request { route with spec := .routePolicy (spec.reorder candidates hperm) }
      (spec.reorder candidates hperm) = refusal request route spec := by
    have hdeclared : ∀ id, id ∈ candidates.map RouteCandidate.profileRevisionId ↔
        id ∈ spec.candidates.map RouteCandidate.profileRevisionId := fun id => (hperm.map _).mem_iff
    simp only [refusal, RoutePolicySpec.reorder, hdeclared]
    rfl
  obtain ⟨hselect, hreasons⟩ := select_congr spec request hrecords
  unfold resolveRoute
  simp only [hpolicy, hrefusal]
  split
  · rfl
  · have hsame : select (spec.reorder candidates hperm) request records' = select spec request records' := rfl
    have hsame' : candidateReasons (spec.reorder candidates hperm) request records' =
        candidateReasons spec request records' := rfl
    simp only [resolveAmong, ranked_reorder hperm, hsame, hsame', hselect, hreasons]
    rfl

/-- Route resolution, over every policy, every list of its candidates, every set of records and
    every request. -/
theorem resolveRoute_correct (request : RoutePreviewRequest) (route : RegistryRecord) (records : Dict Nat RegistryRecord) :
    (∀ revision, (resolveRoute request route records).selectedProfileRevisionId = some revision ↔
      ∃ spec candidate chosen, Resolves request route records spec candidate chosen ∧
        candidate.profileRevisionId = revision) ∧
    (∀ spec candidates records', route.spec = .routePolicy spec → ∀ hperm : candidates.Perm spec.candidates,
      (∀ id, records'.get? id = records.get? id) →
      resolveRoute request { route with spec := .routePolicy (spec.reorder candidates hperm) } records' =
        resolveRoute request route records) ∧
    ((resolveRoute request route records).decision = .allow →
      ∃ spec candidate chosen, Resolves request route records spec candidate chosen ∧
        (resolveRoute request route records).selectedProfileRevisionId = some candidate.profileRevisionId ∧
        (resolveRoute request route records).selectedProviderRevisionId = some chosen.profile.providerRevisionId ∧
        SpendSatisfied spec.spend request.requirements chosen.profile.pricing chosen.provider.egress.paid) := by
  refine ⟨fun revision => resolveRoute_selected, ?_, ?_⟩
  · intro spec candidates records' hpolicy hperm hrecords
    exact resolveRoute_order hpolicy hperm hrecords
  · intro hallow
    obtain ⟨spec, candidate, chosen, hresolves, hspend⟩ := resolveRoute_allow hallow
    obtain ⟨hprofile, hprovider, -⟩ := resolveRoute_of_resolves hresolves
    exact ⟨spec, candidate, chosen, hresolves, hprofile, hprovider, hspend⟩

/-- A local provider (1) with two profiles: the better placed one (10) has failed, so the other
    (11) is taken. -/
theorem resolveRoute_correct_failover :
    let provider : RegistryRecord :=
      { revisionId := 1, enabled := true, archived := false, health := .healthy
        spec := .providerConnection { providerKind := .ollama } }
    let profile (id : Nat) : RegistryRecord :=
      { revisionId := id, enabled := true, archived := false
        spec := .modelProfile
          { providerRevisionId := 1, purposes := ["developer"], contextLimit := 8000, outputLimit := 1000 } }
    let route : RegistryRecord :=
      { revisionId := 2, enabled := true, archived := false
        spec := .routePolicy
          { candidates := [⟨11, 5⟩, ⟨10, 0⟩], purposes := ["developer"], failoverClasses := [.providerTransient]
            candidates_length := by decide, unique_candidates := by decide } }
    let request : RoutePreviewRequest :=
      { routeRevisionId := 2, purpose := "developer", failedProfileRevisionIds := [10]
        failureClass := some .providerTransient
        requirements := ⟨100, 10, none, by decide, by decide, by decide⟩ }
    let records := Dict.ofList [(1, provider), (10, profile 10), (11, profile 11)]
    (resolveRoute request route records).decision = .allow ∧
      ∃ spec candidate chosen, Resolves request route records spec candidate chosen ∧ candidate.profileRevisionId = 11 := by
  intro provider profile route request records
  have hallow : (resolveRoute request route records).decision = .allow := by decide +kernel
  have hselected : (resolveRoute request route records).selectedProfileRevisionId = some 11 := by decide +kernel
  exact ⟨hallow, ((resolveRoute_correct request route records).1 11).mp hselected⟩

end Jarvis.Providers
