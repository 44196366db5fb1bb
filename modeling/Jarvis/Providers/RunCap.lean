/-
  Jarvis.Providers.RunCap — what a run may spend on its paid calls.

  A paid call is allowed only while no call of the run is open (`runSpend_eq_some`), so at most
  one paid call is open, and what it may still cost is the estimate of its grant. That
  liability, not the completed calls alone, is what the ceiling is kept for (`Liable`): recorded
  spend and the open call's estimate fit together.

  `paid_run_cap` has one condition beyond the estimates being kept: an unpaid provider needs no
  grant, so what its calls cost is recorded with the rest but never weighed
  (`unpaid_call_exceeds`).
-/
import Jarvis.Providers.Calls

namespace Jarvis.Providers

variable {bound : Nat → Binding} {s t : St} {call : Nat}

/-! ## The ceiling -/

variable {M : ℚ≥0}

/-- Every paid node is bound to a route with this per-run ceiling. -/
def CappedAt (bound : Nat → Binding) (M : ℚ≥0) : Prop :=
  ∀ call route, (bound call).paid = true → (bound call).budget.route = some route → route.spend.maxRunCost = some M

/-- The spend determined by the rows and the estimate of the grant are within the ceiling. -/
def FitsCap (M : ℚ≥0) (rows : List ModelCall) (g : Grant) : Prop :=
  ∃ spent estimate, runSpend rows = some spent ∧ g.estimatedCost = some estimate ∧ Decimal.add spent estimate ≤ M

theorem fits_of_judge (hcap : CappedAt bound M) (hpaid : (bound call).paid = true) {rows : List ModelCall}
    {request : ProviderRequest} {g : Grant}
    (h : judge (bound call) (runSpend rows) request = .ok (.allow, g.reasons, g.estimatedCost)) : FitsCap M rows g := by
  obtain ⟨route, hroute, hfits⟩ := judge_allow h
  exact hfits M (hcap call route hpaid hroute)

/-- While a grant can be given, nothing is open. -/
theorem FitsCap.not_open {rows : List ModelCall} {g : Grant} (h : FitsCap M rows g) : ¬ Open rows call := by
  obtain ⟨spent, -, hspent, -⟩ := h
  exact fun hopen => hopen.2 ((runSpend_eq_some hspent).2 call hopen.1)

/-- At most one paid call is open. -/
def OneOpen (bound : Nat → Binding) (rows : List ModelCall) : Prop :=
  ∀ c c', (bound c).paid = true → (bound c').paid = true → Open rows c → Open rows c' → c = c'

theorem OneOpen.moved (hcap : CappedAt bound M) (ho : OneOpen bound s.rows) {a : Act} (h : Moved bound s a t) : OneOpen bound t.rows := by
  -- a row that starts no call leaves the open calls as they were
  have hkept : ∀ {row : ModelCall}, row.stage ≠ .started → ∀ {c}, Open (s.rows ++ [row]) c → Open s.rows c := by
    intro row hstage c hopen
    obtain hopen | ⟨hstage', -⟩ := hopen.of_append
    · exact hopen
    · exact absurd hstage' hstage
  cases h with
  | fence | enter | drop | calling | answered => exact ho
  | refused p g row _ _ _ _ _ _ hstage _ =>
    have hne : row.stage ≠ .started := by rw [hstage]; decide
    exact fun c c' hc hc' hopen hopen' => ho c c' hc hc' (hkept hne hopen) (hkept hne hopen')
  | recorded p row receipts event _ _ hstage _ _ =>
    have hne : row.stage ≠ .started := by rw [hstage]; decide
    exact fun c c' hc hc' hopen hopen' => ho c c' hc hc' (hkept hne hopen) (hkept hne hopen')
  | free p row _ _ hfree _ _ hrow =>
    have hold : ∀ {c}, (bound c).paid = true → Open (s.rows ++ [row]) c → Open s.rows c := by
      intro c hc hopen
      obtain hopen | ⟨-, hcall⟩ := hopen.of_append
      · exact hopen
      · rw [← hcall, hrow, hfree] at hc
        cases hc
    exact fun c c' hc hc' hopen hopen' => ho c c' hc hc' (hold hc hopen) (hold hc' hopen')
  | granted p g row _ _ hpaid _ _ hrow _ _ _ hjudge =>
    have hnone : ∀ {c}, ¬ Open s.rows c := (fits_of_judge hcap hpaid hjudge).not_open
    have honly : ∀ {c}, Open (s.rows ++ [row]) c → c = p.callId := by
      intro c hopen
      obtain hopen | ⟨-, hcall⟩ := hopen.of_append
      · exact absurd hopen hnone
      · exact hcall.symm.trans hrow
    exact fun c c' _ _ hopen hopen' => (honly hopen).trans (honly hopen').symm

/-- Every grant that allows a call is given within the ceiling. -/
theorem Moved.grant_fits (hcap : CappedAt bound M) {a : Act} (h : Moved bound s a t) {g : Grant} (hg : g ∈ t.grants) (hnew : g ∉ s.grants)
    (hallow : g.decision = .allow) : FitsCap M s.rows g := by
  cases h with
  | fence | enter | drop | calling | answered => exact absurd hg hnew
  | free => exact absurd hg hnew
  | recorded => exact absurd hg hnew
  | refused p g' row _ _ _ _ _ hdecision _ _ =>
    obtain hg | hg := List.mem_append.mp hg
    · exact absurd hg hnew
    · rw [List.mem_singleton.mp hg] at hallow
      exact absurd hallow hdecision
  | granted p g' row _ _ hpaid _ _ _ _ _ _ hjudge =>
    obtain hg | hg := List.mem_append.mp hg
    · exact absurd hg hnew
    · rw [List.mem_singleton.mp hg]
      exact fits_of_judge hcap hpaid hjudge

/-- A call that has started keeps its grant. -/
theorem Moved.grant_kept (ht : Tables bound s) {a : Act} (h : Moved bound s a t) (hstarted : call ∈ stageCalls .started s.rows)
    {g : Grant} (hg : g ∈ t.grants) (hcall : g.callId = call) : g ∈ s.grants := by
  cases h with
  | fence | enter | drop | calling | answered => exact hg
  | free => exact hg
  | recorded => exact hg
  | refused p g' row _ _ hpaid hp hnew _ _ _ =>
    obtain hg | hg := List.mem_append.mp hg
    · exact hg
    · rw [List.mem_singleton.mp hg] at hcall
      obtain ⟨old, hold, hsame, -⟩ := ht.allowed call hstarted (by rw [← hcall, hp]; exact hpaid)
      exact absurd (hsame.trans hcall.symm) (hnew old hold)
  | granted p g' row _ _ _ hfresh _ _ hp _ _ _ =>
    obtain hg | hg := List.mem_append.mp hg
    · exact hg
    · rw [List.mem_singleton.mp hg, hp] at hcall
      exact absurd (hcall ▸ hstarted) hfresh

theorem Moved.rows_kept {a : Act} (h : Moved bound s a t) {row : ModelCall} (hrow : row ∈ s.rows) : row ∈ t.rows := by
  cases h with
  | fence | enter | drop | calling | answered => exact hrow
  | refused | free | granted | recorded => exact List.mem_append_left _ hrow

/-! ## Recorded spend and the open liability -/

theorem ModelCall.spent_of_ne {row : ModelCall} (h : row.stage ≠ .result) : row.spent = none := if_neg fun hr => h hr.1

theorem ModelCall.stage_of_spent {row : ModelCall} {amount : ℚ≥0} (h : row.spent = some amount) : row.stage = .result := by
  by_contra hne
  rw [ModelCall.spent_of_ne hne] at h
  cases h

theorem recordedSpend_append (rows : List ModelCall) (row : ModelCall) :
    recordedSpend (rows ++ [row]) = row.spent.elim (recordedSpend rows) (Decimal.add (recordedSpend rows)) := by
  rw [recordedSpend, List.filterMap_append, Decimal.total_append]
  cases h : row.spent with
  | none => simp [h, Decimal.total, recordedSpend]
  | some amount => simp [h, Decimal.total, recordedSpend]

/-- No paid call's cost is above the estimate of its grant. -/
def WithinEstimates (bound : Nat → Binding) (s : St) : Prop :=
  ∀ row ∈ s.rows, (bound row.callId).paid = true → ∀ amount ∈ row.spent,
    ∃ g ∈ s.grants, g.callId = row.callId ∧ ∃ estimate ∈ g.estimatedCost, amount ≤ estimate

instance : Decidable (WithinEstimates bound s) :=
  inferInstanceAs (Decidable (∀ row ∈ s.rows, (bound row.callId).paid = true → ∀ amount ∈ row.spent,
    ∃ g ∈ s.grants, g.callId = row.callId ∧ ∃ estimate ∈ g.estimatedCost, amount ≤ estimate))

/-- The calls of unpaid providers record no cost. -/
def UnpaidFree (bound : Nat → Binding) (s : St) : Prop :=
  ∀ row ∈ s.rows, (bound row.callId).paid = false → row.spent = none

instance : Decidable (UnpaidFree bound s) :=
  inferInstanceAs (Decidable (∀ row ∈ s.rows, (bound row.callId).paid = false → row.spent = none))

theorem WithinEstimates.before (ht : Tables bound s) {a : Act} (h : Moved bound s a t) (hw : WithinEstimates bound t) :
    WithinEstimates bound s := by
  intro row hrow hpaid amount hspent
  obtain ⟨g, hg, hcall, hestimate⟩ := hw row (h.rows_kept hrow) hpaid amount hspent
  have hresult := mem_stageCalls.mpr ⟨row, hrow, ModelCall.stage_of_spent hspent, rfl⟩
  exact ⟨g, h.grant_kept ht (ht.result_started _ hresult) hg hcall, hcall, hestimate⟩

/-- What is recorded is within the ceiling, and so it stays if the open paid call costs what it
    was granted for. -/
structure Liable (bound : Nat → Binding) (M : ℚ≥0) (s : St) : Prop where
  spent : recordedSpend s.rows ≤ M
  pending : ∀ call, (bound call).paid = true → Open s.rows call → ∀ g ∈ s.grants, g.callId = call →
    ∀ estimate, g.estimatedCost = some estimate → Decimal.add (recordedSpend s.rows) estimate ≤ M

namespace Liable

theorem init : Liable bound M {} where
  spent := zero_le
  pending _ _ hopen := absurd hopen.1 List.not_mem_nil

/-- A row without a cost that opens no paid call. -/
theorem uncosted (hl : Liable bound M s) {row : ModelCall} (hspent : row.spent = none)
    (hrow : row.stage = .started → (bound row.callId).paid = false) {grants : List Grant}
    (hgrants : ∀ call ∈ stageCalls .started s.rows, ∀ g ∈ grants, g.callId = call → g ∈ s.grants)
    (ht : t.rows = s.rows ++ [row]) (htg : t.grants = grants) : Liable bound M t := by
  have hsame : recordedSpend t.rows = recordedSpend s.rows := by rw [ht, recordedSpend_append, hspent, Option.elim_none]
  refine ⟨hsame ▸ hl.spent, fun call hpaid hopen g hg hcall estimate hestimate => ?_⟩
  rw [ht] at hopen
  obtain hopen | ⟨hstage, hcall'⟩ := hopen.of_append
  · exact hsame ▸ hl.pending call hpaid hopen g (hgrants call hopen.1 g (htg ▸ hg) hcall) hcall estimate hestimate
  · rw [← hcall', hrow hstage] at hpaid
    cases hpaid

theorem granted (hl : Liable bound M s) {p : Proc} {g : Grant} {row : ModelCall} (hstage : row.stage = .started)
    (hrow : row.callId = p.callId) (hfresh : ∀ g' ∈ s.grants, g'.callId ≠ p.callId) (hfits : FitsCap M s.rows g)
    (ht : t.rows = s.rows ++ [row]) (htg : t.grants = s.grants ++ [g]) : Liable bound M t := by
  have hsame : recordedSpend t.rows = recordedSpend s.rows := by
    rw [ht, recordedSpend_append, ModelCall.spent_of_ne (by rw [hstage]; decide), Option.elim_none]
  refine ⟨hsame ▸ hl.spent, fun call _ hopen g' hg' hcall estimate hestimate => ?_⟩
  rw [ht] at hopen
  obtain hopen | ⟨-, hcall'⟩ := hopen.of_append
  · exact absurd hopen hfits.not_open
  rw [htg] at hg'
  obtain hg' | hg' := List.mem_append.mp hg'
  · exact absurd (hcall.trans (hcall'.symm.trans hrow)) (hfresh g' hg')
  · obtain ⟨spent, liability, hspent, hliability, hle⟩ := hfits
    rw [List.mem_singleton.mp hg', hliability] at hestimate
    rw [hsame, ← Option.some.inj hestimate, ← (runSpend_eq_some hspent).1]
    exact hle

/-- A result is recorded: the open call's liability becomes its cost, which is no larger. -/
theorem recorded (hl : Liable bound M s) (ho : OneOpen bound s.rows) {row : ModelCall} (hstage : row.stage = .result)
    (hopen : Open s.rows row.callId) (ht : t.rows = s.rows ++ [row]) (htg : t.grants = s.grants)
    (hw : WithinEstimates bound t) (hu : UnpaidFree bound t) : Liable bound M t := by
  have hin : row ∈ t.rows := ht ▸ List.mem_append_right _ List.mem_cons_self
  cases hspent : row.spent with
  | none =>
    exact hl.uncosted hspent (fun h => absurd (hstage.symm.trans h) (by decide)) (fun _ _ _ hg _ => hg) ht htg
  | some amount =>
    by_cases hpaid : (bound row.callId).paid = true
    · obtain ⟨g, hg, hcall, estimate, hestimate, hle⟩ := hw row hin hpaid amount hspent
      refine ⟨?_, fun call hpaid' hopen' => ?_⟩
      · calc recordedSpend t.rows = Decimal.add (recordedSpend s.rows) amount := by
              rw [ht, recordedSpend_append, hspent, Option.elim_some]
          _ ≤ Decimal.add (recordedSpend s.rows) estimate := Decimal.add_mono le_rfl hle
          _ ≤ M := hl.pending row.callId hpaid hopen g (htg ▸ hg) hcall estimate hestimate
      · -- no other paid call was open, and this one is not any more
        rw [ht] at hopen'
        obtain hold | ⟨hstart, -⟩ := hopen'.of_append
        · refine absurd ?_ hopen'.2
          rw [ho call row.callId hpaid' hpaid hold hopen, stageCalls_append, if_pos hstage]
          exact List.mem_append_right _ List.mem_cons_self
        · exact absurd (hstage.symm.trans hstart) (by decide)
    · rw [hu row hin (by simpa using hpaid)] at hspent
      cases hspent

theorem moved (hcap : CappedAt bound M) (ht : Tables bound s) (hf : Flights s) (ho : OneOpen bound s.rows)
    (hl : Liable bound M s) {a : Act} (h : Moved bound s a t) (hw : WithinEstimates bound t) (hu : UnpaidFree bound t) :
    Liable bound M t := by
  have hkept : ∀ call ∈ stageCalls .started s.rows, ∀ g ∈ t.grants, g.callId = call → g ∈ s.grants :=
    fun call hstarted g hg hcall => h.grant_kept ht hstarted hg hcall
  cases h with
  | fence | enter | drop | calling | answered => exact ⟨hl.spent, hl.pending⟩
  | refused p g row _ _ _ _ _ _ hstage _ =>
    exact hl.uncosted (ModelCall.spent_of_ne (by rw [hstage]; decide)) (fun h => absurd (hstage.symm.trans h) (by decide))
      hkept rfl rfl
  | free p row _ _ hfree _ hstage hrow =>
    exact hl.uncosted (ModelCall.spent_of_ne (by rw [hstage]; decide)) (fun _ => hrow ▸ hfree) hkept rfl rfl
  | granted p g row _ _ hpaid _ hstage hrow _ hfresh _ hjudge =>
    exact hl.granted hstage hrow hfresh (fits_of_judge hcap hpaid hjudge) rfl rfl
  | recorded p row receipts event hp hpc hstage hrow _ =>
    exact hl.recorded ho hstage (hrow ▸ hf.flight p hp hpc) rfl rfl hw hu

end Liable

theorem reach_one (hcap : CappedAt bound M) (h : Steps.Reach (step bound) {} s) : OneOpen bound s.rows := by
  refine Steps.ReachIf.invariant_with (fun s => Tables bound s ∧ Flights s) (fun s => OneOpen bound s.rows)
    (fun _ h => reach_tables h) (fun c _ _ _ hopen => absurd hopen.1 List.not_mem_nil) ?_ h
  intro s a t ⟨ht, hf⟩ ho _ hstep
  exact ho.moved hcap (step_moved ht hf hstep)

theorem reach_liable (hcap : CappedAt bound M) (h : Steps.Reach (step bound) {} s) :
    WithinEstimates bound s → UnpaidFree bound s → Liable bound M s := by
  refine Steps.ReachIf.invariant_with (fun s => Tables bound s ∧ Flights s ∧ OneOpen bound s.rows)
    (fun s => WithinEstimates bound s → UnpaidFree bound s → Liable bound M s)
    (fun _ h => ⟨(reach_tables h).1, (reach_tables h).2, reach_one hcap h⟩) (fun _ _ => .init) ?_ h
  intro s a t ⟨ht, hf, ho⟩ ih _ hstep hw hu
  have hmoved := step_moved ht hf hstep
  have hl := ih (hw.before ht hmoved) fun row hrow => hu row (hmoved.rows_kept hrow)
  exact hl.moved hcap ht hf ho hmoved hw hu

/-- In every run whose paid nodes share a per-run ceiling: a call is allowed only where the
    recorded spend and its estimate are within the ceiling; at most one paid call is open, and
    at most one execution is past the intent of a paid call; a call that was not allowed never
    reaches its provider, and a paid one reaches it only with a grant that allows it; and while
    no call costs more than its grant's estimate and unpaid calls cost nothing, the recorded
    spend is within the ceiling. -/
theorem paid_run_cap (hcap : CappedAt bound M) (h : Steps.Reach (step bound) {} s) :
    (∀ a t, step bound s a = some t → ∀ g ∈ t.grants, g ∉ s.grants → g.decision = .allow → FitsCap M s.rows g) ∧
    OneOpen bound s.rows ∧
    (∀ p ∈ s.procs, ∀ q ∈ s.procs, p.pc ≠ .start → q.pc ≠ .start → (bound p.callId).paid = true →
      (bound q.callId).paid = true → p = q) ∧
    (∀ g ∈ s.grants, g.decision ≠ .allow → g.callId ∉ s.invoked) ∧
    (∀ call ∈ s.invoked, (bound call).paid = true → ∃ g ∈ s.grants, g.callId = call ∧ g.decision = .allow) ∧
    (WithinEstimates bound s → UnpaidFree bound s → recordedSpend s.rows ≤ M) := by
  obtain ⟨ht, hf⟩ := reach_tables h
  have ho := reach_one hcap h
  refine ⟨fun a t hstep g hg hnew hallow => ?_, ho, fun p hp q hq hpc hqc hpaid hpaid' => ?_, fun g hg hdecision hin => ?_,
    fun call hin hpaid => ?_, fun hw hu => (reach_liable hcap h hw hu).spent⟩
  · exact (step_moved ht hf hstep).grant_fits hcap hg hnew hallow
  · have hcall := ho _ _ hpaid hpaid' (hf.flight p hp hpc) (hf.flight q hq hqc)
    exact Keyed.unique hf.ids hp hq (hf.once p hp q hq hpc hqc hcall)
  · exact ht.not_started hg hdecision (ht.invoked _ hin)
  · exact ht.allowed call (ht.invoked call hin) hpaid

/-! ## A cost without a grant -/

/-- One unit of currency a token. -/
def unitPricing : Pricing := 
  { status := .known, inputPerMillion := some (1000000 : ℕ), outputPerMillion := some (1000000 : ℕ) }

/-- Calls of even number are of a paid provider; every node is bound to a ceiling of 400. -/
def mixedCalls (call : Nat) : Binding where
  providerId := 1
  profileId := 2
  paid := call % 2 = 0
  pricing := unitPricing
  budget := { route := some ⟨3, { allowPaid := true, maxRunCost := some 400 }⟩ }

theorem mixedCalls_capped : CappedAt mixedCalls 400 := by
  intro call route _ hroute
  cases hroute
  rfl

def smallRequest : ProviderRequest := { purpose := "architect", text := "plan", outputTokens := 100, correlationId := "1" }

/-- An execution that goes through, `cost` being its input tokens. -/
def completes (x call cost : Nat) : List Act :=
  [.enter 1 call smallRequest, .begin_ x 0 5, .invoke x,
    .answer x { usage := { inputTokens := some cost, outputTokens := some 0, provenance := .exact } }, .record x 6]

/-- One paid call has cost 30, another is open, and a third is refused. -/
theorem paid_run_cap_open :
    ∃ s, CappedAt mixedCalls 400 ∧ Steps.Reach (step mixedCalls) {} s ∧ recordedSpend s.rows = 30 ∧
      s.grants.map (·.decision) = [.allow, .allow, .deny] ∧ OneOpen mixedCalls s.rows ∧ recordedSpend s.rows ≤ 400 := by
  let acts := .fence (some 1) :: completes 0 2 30 ++
    [.enter 1 4 smallRequest, .begin_ 1 0 7, .enter 1 6 smallRequest, .begin_ 2 0 7]
  have hrun : (Steps.run (step mixedCalls) {} acts).any (fun s => recordedSpend s.rows = 30 ∧
      s.grants.map (·.decision) = [.allow, .allow, .deny] ∧ WithinEstimates mixedCalls s ∧ UnpaidFree mixedCalls s) = true := by
    decide +kernel
  obtain ⟨s, hs, hend⟩ := (Option.any_eq_true _ _).mp hrun
  obtain ⟨hspent, hdecisions, hw, hu⟩ := of_decide_eq_true hend
  have hcap := paid_run_cap mixedCalls_capped (Steps.run_reach acts hs)
  exact ⟨s, mixedCalls_capped, Steps.run_reach acts hs, hspent, hdecisions, hcap.2.1, hcap.2.2.2.2.2 hw hu⟩

/-- What `authorize` estimates, or would estimate, the receipt's request at. -/
def requestEstimate (bound : Nat → Binding) (r : Receipt) : Option ℚ≥0 :=
  let request := r.requestDigest.request
  (calculateCost (estimatedUsage (estimateInputTokens request) request.outputTokens) (bound r.callId).pricing).amount

/-- No recorded cost is above the estimate of its request, whether there was a grant or not. -/
def WithinRequests (bound : Nat → Binding) (s : St) : Prop :=
  ∀ r ∈ s.receipts, ∀ amount ∈ (calculateCost r.response.usage (bound r.callId).pricing).amount,
    ∃ estimate ∈ requestEstimate bound r, amount ≤ estimate

instance : Decidable (WithinRequests bound s) :=
  inferInstanceAs (Decidable (∀ r ∈ s.receipts, ∀ amount ∈ (calculateCost r.response.usage (bound r.callId).pricing).amount,
    ∃ estimate ∈ requestEstimate bound r, amount ≤ estimate))

/-- A paid call of 150 and an unpaid one of 300, each below its estimate of 360. -/
theorem unpaid_call_exceeds :
    ∃ s, CappedAt mixedCalls 400 ∧ Steps.Reach (step mixedCalls) {} s ∧ WithinEstimates mixedCalls s ∧
      WithinRequests mixedCalls s ∧ 400 < recordedSpend s.rows := by
  let acts := .fence (some 1) :: completes 0 2 150 ++ completes 1 3 300
  have hrun : (Steps.run (step mixedCalls) {} acts).any (fun s => WithinEstimates mixedCalls s ∧ WithinRequests mixedCalls s ∧
      400 < recordedSpend s.rows) = true := by
    decide +kernel
  obtain ⟨s, hs, hend⟩ := (Option.any_eq_true _ _).mp hrun
  exact ⟨s, mixedCalls_capped, Steps.run_reach acts hs, of_decide_eq_true hend⟩

end Jarvis.Providers
