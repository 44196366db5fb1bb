/-
  Jarvis.Providers.Estimates — whether the estimate of a call bounds what the call costs
  (`calculate_cost`, under the reservations of `BudgetGateway.authorize` and of a manager's turn).

  An estimate has no cached tokens. The registry sets no order between the cached and the input
  price, so cached tokens may be the dearer ones; `exactCost_bounded_iff` says that nothing else
  can make a call cost more than its estimate.
-/
import Jarvis.Providers.Budget
import Mathlib.Tactic.Positivity
import Mathlib.Tactic.GCongr

namespace Jarvis.Providers

/-- The price of a split of the tokens, with `round` after every operation. -/
def amountWith (round : ℚ≥0 → ℚ≥0) (uncached cached output : Nat) (inputPrice cachedPrice outputPrice : ℚ≥0) : ℚ≥0 :=
  round (round (round (round (uncached * inputPrice) + round (cached * cachedPrice)) + round (output * outputPrice)) /
    (1000000 : ℕ))

/-- The amount of `calculate_cost`, with `round` after every operation. -/
def costWith (round : ℚ≥0 → ℚ≥0) (usage : Usage) (pricing : Pricing) : Option ℚ≥0 :=
  if pricing.status ≠ .known ∨ usage.provenance = .unknown then none
  else
    match usage.inputTokens, usage.outputTokens, pricing.inputPerMillion, pricing.outputPerMillion with
    | some input, some output, some inputPrice, some outputPrice =>
      let cached := usage.cachedTokens.getD 0
      if input < cached then none
      else some (amountWith round (input - cached) cached output inputPrice (pricing.cachedPerMillion.getD inputPrice)
        outputPrice)
    | _, _, _, _ => none

/-- The amount of `calculate_cost` in exact rational arithmetic. -/
def exactCost (usage : Usage) (pricing : Pricing) : Option ℚ≥0 := costWith id usage pricing

/-- The code rounds to the digits of the decimal context. -/
theorem calculateCost_amount (usage : Usage) (pricing : Pricing) :
    (calculateCost usage pricing).amount = costWith Decimal.context usage pricing := by
  unfold calculateCost costWith
  by_cases hfree : pricing.status = .notApplicable
  · simp [hfree]
  by_cases hunknown : pricing.status ≠ .known ∨ usage.provenance = .unknown
  · simp [hfree, hunknown]
  rw [if_neg hfree, if_neg hunknown, if_neg hunknown]
  rcases usage.inputTokens with _ | input
  · rfl
  rcases usage.outputTokens with _ | output
  · rfl
  rcases pricing.inputPerMillion with _ | inputPrice
  · rfl
  rcases pricing.outputPerMillion with _ | outputPrice
  · rfl
  by_cases hcached : input < usage.cachedTokens.getD 0
  · simp [hcached]
  · simp only [hcached, if_false]
    rfl

variable {round : ℚ≥0 → ℚ≥0}

theorem costWith_eq_some {usage : Usage} {pricing : Pricing} {amount : ℚ≥0} :
    costWith round usage pricing = some amount ↔ pricing.status = .known ∧ usage.provenance ≠ .unknown ∧
      ∃ input output inputPrice outputPrice, usage.inputTokens = some input ∧ usage.outputTokens = some output ∧
        pricing.inputPerMillion = some inputPrice ∧ pricing.outputPerMillion = some outputPrice ∧
        usage.cachedTokens.getD 0 ≤ input ∧
        amount = amountWith round (input - usage.cachedTokens.getD 0) (usage.cachedTokens.getD 0) output inputPrice
          (pricing.cachedPerMillion.getD inputPrice) outputPrice := by
  unfold costWith
  by_cases hunknown : pricing.status ≠ .known ∨ usage.provenance = .unknown
  · rw [if_pos hunknown]
    constructor
    · intro h
      cases h
    · rintro ⟨hknown, hprovenance, -⟩
      exact absurd hunknown (by simp [hknown, hprovenance])
  have hboth : pricing.status = .known ∧ usage.provenance ≠ .unknown := by simpa [not_or] using hunknown
  rw [if_neg hunknown]
  rcases usage.inputTokens with _ | input
  · simp
  rcases usage.outputTokens with _ | output
  · simp
  rcases pricing.inputPerMillion with _ | inputPrice
  · simp
  rcases pricing.outputPerMillion with _ | outputPrice
  · simp
  by_cases hcached : input < usage.cachedTokens.getD 0
  · simp [hcached]
  · simp [hcached, hboth, Nat.not_lt.mp hcached, eq_comm]

/-! ## Amounts in the order of their tokens -/

theorem amountWith_mono (hround : Monotone round) {uncached uncached' cached output output' : Nat}
    {inputPrice cachedPrice outputPrice : ℚ≥0} (huncached : uncached ≤ uncached') (houtput : output ≤ output') :
    amountWith round uncached cached output inputPrice cachedPrice outputPrice ≤
      amountWith round uncached' cached output' inputPrice cachedPrice outputPrice := by
  unfold amountWith
  have hinput : round (uncached * inputPrice) ≤ round (uncached' * inputPrice) := by
    apply hround
    gcongr
  have houtput : round (output * outputPrice) ≤ round (output' * outputPrice) := by
    apply hround
    gcongr
  apply hround
  gcongr
  apply hround
  gcongr
  apply hround
  gcongr

/-- Both counts may grow, with the same tokens cached: the amount does not fall. -/
def CostMonotone (round : ℚ≥0 → ℚ≥0) (pricing : Pricing) : Prop :=
  ∀ usage usage' : Usage, usage.cachedTokens = usage'.cachedTokens →
    ∀ input ∈ usage.inputTokens, ∀ input' ∈ usage'.inputTokens, input ≤ input' →
    ∀ output ∈ usage.outputTokens, ∀ output' ∈ usage'.outputTokens, output ≤ output' →
    ∀ amount ∈ costWith round usage pricing, ∀ amount' ∈ costWith round usage' pricing, amount ≤ amount'

/-- A call within the counts of its estimate costs no more than the estimate says. -/
def EstimateBounds (round : ℚ≥0 → ℚ≥0) (pricing : Pricing) : Prop :=
  ∀ (usage : Usage) (estimatedInput estimatedOutput : Nat),
    (∀ input ∈ usage.inputTokens, input ≤ estimatedInput) → (∀ output ∈ usage.outputTokens, output ≤ estimatedOutput) →
    ∀ amount ∈ costWith round usage pricing,
    ∃ estimate ∈ costWith round (estimatedUsage estimatedInput estimatedOutput) pricing, amount ≤ estimate

theorem costWith_mono (hround : Monotone round) (pricing : Pricing) : CostMonotone round pricing := by
  intro usage usage' hsame input hinput input' hinput' hle output houtput output' houtput' hle' amount h amount' h'
  obtain ⟨-, -, i, o, inputPrice, outputPrice, hi, ho, hip, hop, -, rfl⟩ := costWith_eq_some.mp h
  obtain ⟨-, -, i', o', inputPrice', outputPrice', hi', ho', hip', hop', -, rfl⟩ := costWith_eq_some.mp h'
  cases Option.some.inj (hi.symm.trans hinput)
  cases Option.some.inj (ho.symm.trans houtput)
  cases Option.some.inj (hi'.symm.trans hinput')
  cases Option.some.inj (ho'.symm.trans houtput')
  cases Option.some.inj (hip.symm.trans hip')
  cases Option.some.inj (hop.symm.trans hop')
  rw [hsame]
  apply amountWith_mono hround
  · omega
  · exact hle'

/-- The amounts of the code, rounded as they are, keep the order of the counts too. -/
theorem calculateCost_mono (pricing : Pricing) : CostMonotone Decimal.context pricing :=
  costWith_mono (fun _ _ h => Decimal.context_mono h) pricing

/-! ## The price of cached tokens -/

/-- A price record under which cached tokens are not the dearer ones. -/
def CachedNotDearer (pricing : Pricing) : Prop :=
  ∀ cachedPrice ∈ pricing.cachedPerMillion, ∀ inputPrice ∈ pricing.inputPerMillion, cachedPrice ≤ inputPrice

theorem amountWith_id (uncached cached output : Nat) (inputPrice cachedPrice outputPrice : ℚ≥0) :
    amountWith id uncached cached output inputPrice cachedPrice outputPrice =
      (uncached * inputPrice + cached * cachedPrice + output * outputPrice) / 1000000 := rfl

theorem exact_bounded {pricing : Pricing} (hprice : CachedNotDearer pricing) : EstimateBounds id pricing := by
  intro usage estimatedInput estimatedOutput hinput houtput amount h
  obtain ⟨hknown, -, input, output, inputPrice, outputPrice, hi, ho, hip, hop, hcached, rfl⟩ := costWith_eq_some.mp h
  have hle : pricing.cachedPerMillion.getD inputPrice ≤ inputPrice := by
    rcases hcp : pricing.cachedPerMillion with _ | cachedPrice
    · exact le_refl _
    · exact hprice cachedPrice hcp inputPrice hip
  refine ⟨_, costWith_eq_some.mpr ⟨hknown, by simp [estimatedUsage], estimatedInput, estimatedOutput, inputPrice,
    outputPrice, rfl, rfl, hip, hop, Nat.zero_le _, rfl⟩, ?_⟩
  generalize usage.cachedTokens.getD 0 = cached at hcached ⊢
  have hsplit : ((input - cached : Nat) : ℚ≥0) + cached = input := by exact_mod_cast Nat.sub_add_cancel hcached
  have htokens : ((input - cached : Nat) : ℚ≥0) * inputPrice + cached * pricing.cachedPerMillion.getD inputPrice ≤
      estimatedInput * inputPrice := by
    calc ((input - cached : Nat) : ℚ≥0) * inputPrice + cached * pricing.cachedPerMillion.getD inputPrice
        ≤ ((input - cached : Nat) : ℚ≥0) * inputPrice + cached * inputPrice := by gcongr
      _ = input * inputPrice := by rw [← add_mul, hsplit]
      _ ≤ estimatedInput * inputPrice := by
        have := hinput input hi
        gcongr
  have hrest : (output : ℚ≥0) * outputPrice ≤ estimatedOutput * outputPrice := by
    have := houtput output ho
    gcongr
  simp only [estimatedUsage, Option.getD_none, Nat.sub_zero, amountWith_id, Nat.cast_zero, zero_mul, add_zero]
  exact div_le_div_of_nonneg_right (add_le_add htokens hrest) zero_le

/-- One cached token is enough to cost more than its estimate. -/
theorem not_bounded_of_dearer {pricing : Pricing} {cachedPrice inputPrice : ℚ≥0}
    (hcached : pricing.cachedPerMillion = some cachedPrice) (hinput : pricing.inputPerMillion = some inputPrice)
    (h : inputPrice < cachedPrice) : ¬ EstimateBounds id pricing := by
  intro hbound
  have hknown : pricing.status = .known := by
    by_contra hne
    simpa [hinput] using (pricing.bare hne).1
  obtain ⟨outputPrice, houtput⟩ := Option.isSome_iff_exists.mp (pricing.known_complete hknown).2
  let usage : Usage :=
    { inputTokens := some 1, cachedTokens := some 1, outputTokens := some 0, provenance := .exact }
  obtain ⟨estimate, hestimate, hle⟩ := hbound usage 1 0 (by simp [usage]) (by simp [usage]) _
    (costWith_eq_some.mpr ⟨hknown, by simp [usage], 1, 0, inputPrice, outputPrice, rfl, rfl, hinput, houtput,
      by simp [usage], rfl⟩)
  obtain ⟨-, -, i, o, inputPrice', outputPrice', hi, ho, hip, hop, -, rfl⟩ := costWith_eq_some.mp hestimate
  cases hi
  cases ho
  cases Option.some.inj (hip.symm.trans hinput)
  simp only [usage, estimatedUsage, hcached, amountWith_id, Option.getD_some, Option.getD_none, Nat.sub_self,
    Nat.sub_zero, Nat.cast_zero, Nat.cast_one, zero_mul, one_mul, zero_add, add_zero] at hle
  have hle' : cachedPrice ≤ inputPrice := by
    rwa [div_le_div_iff_of_pos_right (by norm_num)] at hle
  exact absurd hle' (not_le.mpr h)

/-- Estimates bound what calls cost, and amounts grow with their tokens, exactly under a price
    record whose cached price is not above its input price. -/
theorem exactCost_bounded_iff (pricing : Pricing) :
    EstimateBounds id pricing ∧ CostMonotone id pricing ↔ CachedNotDearer pricing := by
  constructor
  · rintro ⟨hbound, -⟩ cachedPrice hcached inputPrice hinput
    by_contra hlt
    exact not_bounded_of_dearer hcached hinput (not_le.mp hlt) hbound
  · intro hprice
    exact ⟨exact_bounded hprice, costWith_mono monotone_id pricing⟩

/-- A record the contract admits: "known pricing requires input and output unit prices", and any
    cached price beside them. -/
def dearCache : Pricing :=
  { status := .known, inputPerMillion := some 1, cachedPerMillion := some (10 : ℕ), outputPerMillion := some 1 }

/-- 100 tokens, all cached, with 10 tokens of output: estimated at 110 millionths, and 1010. -/
theorem cached_call_exceeds_estimate :
    let usage : Usage :=
      { inputTokens := some 100, cachedTokens := some 100, outputTokens := some 10, provenance := .exact }
    dearCache.status = .known ∧
    exactCost usage dearCache = some (1010 / 1000000) ∧
    exactCost (estimatedUsage 100 10) dearCache = some (110 / 1000000) ∧
    (calculateCost (estimatedUsage 100 10) dearCache).amount = some (110 / 1000000) ∧
    (calculateCost usage dearCache).amount = some (1010 / 1000000) ∧
    ¬ EstimateBounds id dearCache := by
  refine ⟨rfl, by decide +kernel, by decide +kernel, by decide +kernel, by decide +kernel, ?_⟩
  exact not_bounded_of_dearer rfl rfl (by norm_num)

end Jarvis.Providers
