/-
  Jarvis.Providers.Calls — what the tables of a run say about its calls, whatever its executions do.

  A call is open from its started row to its result row: its provider may be working, or may
  have worked before a crash. A call starts once, a paid one with the grant that allows it
  (`Tables`), and an execution that is past its intent has an open call to itself (`Flights`).
  `step_moved` says once what a move can do.
-/
import Jarvis.Providers.Runtime

namespace Jarvis.Providers

/-! ## One transaction -/

/-- A call whose intent is recorded and whose result is not. -/
def Open (rows : List ModelCall) (call : Nat) : Prop :=
  call ∈ stageCalls .started rows ∧ call ∉ stageCalls .result rows

/-- What `_account` adds: a row of the call and the stage, unless there is one. -/
theorem account_cases {bound : Binding} {rows rows' : List ModelCall} {call now : Nat} {stage : Stage} {usage : Usage}
    {outcome : Outcome} (h : account bound rows call stage usage outcome now = .ok rows') :
    (rows' = rows ∧ call ∈ stageCalls stage rows) ∨
    ∃ row : ModelCall, rows' = rows ++ [row] ∧ row.callId = call ∧ row.stage = stage := by
  unfold account at h
  split at h
  · rename_i prior hprior
    simp only at h
    split_ifs at h
    cases h
    have hkey : prior.callId = call ∧ prior.stage = stage := by simpa using List.find?_some hprior
    exact .inl ⟨rfl, mem_stageCalls.mpr ⟨prior, List.mem_of_find?_eq_some hprior, hkey.2, hkey.1⟩⟩
  · cases h
    exact .inr ⟨_, rfl, rfl, rfl⟩

theorem account_new {bound : Binding} {rows rows' : List ModelCall} {call now : Nat} {stage : Stage} {usage : Usage}
    {outcome : Outcome} (h : account bound rows call stage usage outcome now = .ok rows')
    (hnew : call ∉ stageCalls stage rows) :
    ∃ row : ModelCall, rows' = rows ++ [row] ∧ row.callId = call ∧ row.stage = stage := by
  obtain ⟨-, hin⟩ | h := account_cases h
  · exact absurd hin hnew
  · exact h

theorem beginCall_cases {bound : Binding} {s t : St} {call calls now : Nat} {request : ProviderRequest} {reply : Reply}
    (h : beginCall bound s call request calls now = .ok (t, reply)) :
    (t = s ∧ ∃ result, reply = .stored result) ∨
    (s.events.any (·.starts call) = false ∧ ∃ grant grants rows,
      authorize bound s.grants s.rows calls call request = .ok (grant, grants) ∧
      ((∃ g, grant = some g ∧ g.decision ≠ .allow ∧ reply = .refused g.reasons ∧
          account bound s.rows call .denied {} g.decision.refusal now = .ok rows ∧
          t = { s with grants, rows, events := s.events ++ [.budgetDenied call g.decision g.reasons] }) ∨
        ((∀ g, grant = some g → g.decision = .allow) ∧ reply = .issued ∧
          account bound s.rows call .started {} .unknown now = .ok rows ∧
          t = { s with grants, rows, events := s.events ++ intentEvents bound call grant }))) := by
  unfold beginCall at h
  split at h
  · split_ifs at h
    cases h
    exact .inl ⟨rfl, _, rfl⟩
  split_ifs at h with hstarts
  split at h
  · cases h
  rename_i grant grants hauth
  refine .inr ⟨by simpa using hstarts, grant, grants, ?_⟩
  split at h
  · rename_i g hg
    obtain ⟨rfl, hdecision⟩ := Option.filter_eq_some_iff.mp hg
    obtain ⟨rows, haccount, heq⟩ := Steps.map_ok h
    cases heq
    exact ⟨rows, hauth, .inl ⟨g, rfl, by simpa using hdecision, rfl, haccount, rfl⟩⟩
  · rename_i hnone
    obtain ⟨rows, haccount, heq⟩ := Steps.map_ok h
    cases heq
    refine ⟨rows, hauth, .inr ⟨fun g hg => ?_, rfl, haccount, rfl⟩⟩
    rw [Option.filter_eq_none_iff] at hnone
    simpa using hnone g hg

/-! ## The tables -/

variable {bound : Nat → Binding} {s t : St} {call : Nat}

/-- What the tables say of the calls. -/
structure Tables (bound : Nat → Binding) (s : St) : Prop where
  event_iff : ∀ call, s.events.any (·.starts call) = true ↔ call ∈ stageCalls .started s.rows
  result_started : ∀ call ∈ stageCalls .result s.rows, call ∈ stageCalls .started s.rows
  keys : (s.grants.map (·.callId)).Nodup
  paid : ∀ g ∈ s.grants, (bound g.callId).paid = true
  allowed : ∀ call ∈ stageCalls .started s.rows, (bound call).paid = true →
    ∃ g ∈ s.grants, g.callId = call ∧ g.decision = .allow
  allow_started : ∀ g ∈ s.grants, g.decision = .allow → g.callId ∈ stageCalls .started s.rows
  denied : ∀ call ∈ stageCalls .denied s.rows, ∃ g ∈ s.grants, g.callId = call
  invoked : ∀ call ∈ s.invoked, call ∈ stageCalls .started s.rows

namespace Tables

theorem init : Tables bound {} where
  event_iff call := by simp [stageCalls]
  result_started call h := absurd h List.not_mem_nil
  keys := List.nodup_nil
  paid g h := absurd h List.not_mem_nil
  allowed call h := absurd h List.not_mem_nil
  allow_started g h := absurd h List.not_mem_nil
  denied call h := absurd h List.not_mem_nil
  invoked call h := absurd h List.not_mem_nil

/-- A call whose grant does not allow it never starts. -/
theorem not_started (ht : Tables bound s) {g : Grant} (hg : g ∈ s.grants) (hdecision : g.decision ≠ .allow) :
    g.callId ∉ stageCalls .started s.rows := by
  intro hstarted
  obtain ⟨g', hg', hcall, hallow⟩ := ht.allowed _ hstarted (ht.paid g hg)
  rw [Keyed.unique ht.keys hg' hg hcall] at hallow
  exact hdecision hallow

/-- The tables know the bindings only by which providers are paid. -/
theorem congr (ht : Tables bound s) {bound' : Nat → Binding} (h : ∀ call, (bound' call).paid = (bound call).paid) :
    Tables bound' s :=
  { ht with
    paid := fun g hg => (h _).trans (ht.paid g hg)
    allowed := fun call hc hp => ht.allowed call hc ((h call).symm.trans hp) }

theorem withProcs (ht : Tables bound s) (fence : Option Nat) (procs : List Proc) (next : Nat) :
    Tables bound { s with fence, procs, next } :=
  ⟨ht.event_iff, ht.result_started, ht.keys, ht.paid, ht.allowed, ht.allow_started, ht.denied, ht.invoked⟩

/-- A refusal is recorded. -/
theorem refused (ht : Tables bound s) {g : Grant} {row : ModelCall} (hpaid : (bound g.callId).paid = true)
    (hnew : ∀ g' ∈ s.grants, g'.callId ≠ g.callId) (hdecision : g.decision ≠ .allow) (hstage : row.stage = .denied)
    (hrow : row.callId = g.callId) {decision : Decision} {reasons : List String} :
    Tables bound { s with
      grants := s.grants ++ [g], rows := s.rows ++ [row], events := s.events ++ [.budgetDenied call decision reasons] } where
  event_iff c := by
    rw [stageCalls_append, hstage, if_neg (by decide), List.append_nil, List.any_append]
    simpa [Event.starts] using ht.event_iff c
  result_started c hc := by
    rw [stageCalls_append, hstage, if_neg (by decide), List.append_nil] at hc ⊢
    exact ht.result_started c hc
  keys := Keyed.nodup_append ht.keys hnew
  paid g' hg' := by
    obtain hg' | hg' := List.mem_append.mp hg'
    · exact ht.paid g' hg'
    · rw [List.mem_singleton.mp hg']
      exact hpaid
  allowed c hc hp := by
    rw [stageCalls_append, hstage, if_neg (by decide), List.append_nil] at hc
    obtain ⟨g', hg', hrest⟩ := ht.allowed c hc hp
    exact ⟨g', List.mem_append_left _ hg', hrest⟩
  allow_started g' hg' hallow := by
    rw [stageCalls_append, hstage, if_neg (by decide), List.append_nil]
    obtain hg' | hg' := List.mem_append.mp hg'
    · exact ht.allow_started g' hg' hallow
    · rw [List.mem_singleton.mp hg'] at hallow
      exact absurd hallow hdecision
  denied c hc := by
    rw [stageCalls_append, if_pos hstage] at hc
    obtain hc | hc := List.mem_append.mp hc
    · obtain ⟨g', hg', hrest⟩ := ht.denied c hc
      exact ⟨g', List.mem_append_left _ hg', hrest⟩
    · exact ⟨g, List.mem_append_right _ List.mem_cons_self, by rw [List.mem_singleton.mp hc, hrow]⟩
  invoked c hc := by
    rw [stageCalls_append, hstage, if_neg (by decide), List.append_nil]
    exact ht.invoked c hc

/-- A call starts: an unpaid one as it is, a paid one with the grant that allows it. -/
theorem issued (ht : Tables bound s) {grant : Option Grant} {grants : List Grant} {row : ModelCall}
    (hstage : row.stage = .started) (hcall : row.callId = call)
    (hgrant : ((bound call).paid = false ∧ grants = s.grants) ∨
      ((bound call).paid = true ∧ (∀ g ∈ s.grants, g.callId ≠ call) ∧
        ∃ g, g.callId = call ∧ g.decision = .allow ∧ grants = s.grants ++ [g])) :
    Tables bound { s with
      grants, rows := s.rows ++ [row], events := s.events ++ intentEvents (bound call) call grant } := by
  have hstarted : stageCalls .started (s.rows ++ [row]) = stageCalls .started s.rows ++ [call] := by
    rw [stageCalls_append, if_pos hstage, hcall]
  have hresult : stageCalls .result (s.rows ++ [row]) = stageCalls .result s.rows := by
    rw [stageCalls_append, hstage, if_neg (by decide), List.append_nil]
  have hkept : ∀ g ∈ s.grants, g ∈ grants := by
    obtain ⟨-, rfl⟩ | ⟨-, -, g, -, -, rfl⟩ := hgrant
    · exact fun _ h => h
    · exact fun _ h => List.mem_append_left _ h
  have hdenied : stageCalls .denied (s.rows ++ [row]) = stageCalls .denied s.rows := by
    rw [stageCalls_append, hstage, if_neg (by decide), List.append_nil]
  refine ⟨fun c => ?_, fun c hc => ?_, ?_, ?_, fun c hc hp => ?_, ?_, fun c hc => ?_, fun c hc => ?_⟩
  · have hintent : (intentEvents (bound call) call grant).any (·.starts c) = decide (call = c) := by
      cases grant <;> simp [intentEvents, Event.starts, beq_eq_decide]
    rw [hstarted, List.any_append, hintent, Bool.or_eq_true, ht.event_iff c, List.mem_append, List.mem_singleton,
      decide_eq_true_eq, eq_comm]
  · rw [hresult] at hc
    rw [hstarted]
    exact List.mem_append_left _ (ht.result_started c hc)
  · obtain ⟨-, rfl⟩ | ⟨-, hnew, g, rfl, -, rfl⟩ := hgrant
    · exact ht.keys
    · exact Keyed.nodup_append ht.keys hnew
  · obtain ⟨-, rfl⟩ | ⟨hpaid, -, g, rfl, -, rfl⟩ := hgrant
    · exact ht.paid
    · intro g' hg'
      obtain hg' | hg' := List.mem_append.mp hg'
      · exact ht.paid g' hg'
      · rw [List.mem_singleton.mp hg']
        exact hpaid
  · rw [hstarted] at hc
    obtain hc | hc := List.mem_append.mp hc
    · obtain ⟨g, hg, hrest⟩ := ht.allowed c hc hp
      exact ⟨g, hkept g hg, hrest⟩
    · rw [List.mem_singleton.mp hc] at hp ⊢
      obtain ⟨hfree, -⟩ | ⟨-, -, g, hg, hallow, rfl⟩ := hgrant
      · rw [hfree] at hp
        cases hp
      · exact ⟨g, List.mem_append_right _ List.mem_cons_self, hg, hallow⟩
  · intro g hg hallow
    show g.callId ∈ stageCalls .started (s.rows ++ [row])
    rw [hstarted]
    obtain ⟨-, rfl⟩ | ⟨-, -, g', hg', -, rfl⟩ := hgrant
    · exact List.mem_append_left _ (ht.allow_started g hg hallow)
    · obtain hg | hg := List.mem_append.mp hg
      · exact List.mem_append_left _ (ht.allow_started g hg hallow)
      · rw [List.mem_singleton.mp hg, hg']
        exact List.mem_append_right _ List.mem_cons_self
  · rw [hdenied] at hc
    obtain ⟨g, hg, hrest⟩ := ht.denied c hc
    exact ⟨g, hkept g hg, hrest⟩
  · rw [hstarted]
    exact List.mem_append_left _ (ht.invoked c hc)

/-- A call's result is recorded. -/
theorem recorded (ht : Tables bound s) {row : ModelCall} {receipts : List Receipt} {event : Event}
    (hstage : row.stage = .result) (hstarted : row.callId ∈ stageCalls .started s.rows)
    (hevent : ∀ c, event.starts c = false) :
    Tables bound { s with receipts, rows := s.rows ++ [row], events := s.events ++ [event] } := by
  have hsame : stageCalls .started (s.rows ++ [row]) = stageCalls .started s.rows := by
    rw [stageCalls_append, hstage, if_neg (by decide), List.append_nil]
  have hresult : stageCalls .result (s.rows ++ [row]) = stageCalls .result s.rows ++ [row.callId] := by
    rw [stageCalls_append, if_pos hstage]
  have hdenied : stageCalls .denied (s.rows ++ [row]) = stageCalls .denied s.rows := by
    rw [stageCalls_append, hstage, if_neg (by decide), List.append_nil]
  refine ⟨fun c => ?_, fun c hc => ?_, ht.keys, ht.paid, hsame ▸ ht.allowed, hsame ▸ ht.allow_started, hdenied ▸ ht.denied,
    hsame ▸ ht.invoked⟩
  · rw [hsame, List.any_append]
    simpa [hevent c] using ht.event_iff c
  · rw [hresult] at hc
    rw [hsame]
    obtain hc | hc := List.mem_append.mp hc
    · exact ht.result_started c hc
    · rw [List.mem_singleton.mp hc]
      exact hstarted

end Tables

/-! ## The executions -/

/-- What the executions past their intent say: each has an open call of its own. -/
structure Flights (s : St) : Prop where
  ids : (s.procs.map Proc.id).Nodup
  ids_lt : ∀ p ∈ s.procs, p.id < s.next
  flight : ∀ p ∈ s.procs, p.pc ≠ .start → Open s.rows p.callId
  once : ∀ p ∈ s.procs, ∀ q ∈ s.procs, p.pc ≠ .start → q.pc ≠ .start → p.callId = q.callId → p.id = q.id

namespace Flights

theorem init : Flights {} where
  ids := List.nodup_nil
  ids_lt _ h := absurd h List.not_mem_nil
  flight _ h := absurd h List.not_mem_nil
  once _ h := absurd h List.not_mem_nil

theorem enter (hf : Flights s) (fence call : Nat) (request : ProviderRequest) :
    Flights { s with procs := s.procs ++ [⟨s.next, fence, call, request, .start⟩], next := s.next + 1 } where
  ids := Keyed.nodup_append hf.ids fun p hp => (hf.ids_lt p hp).ne
  ids_lt p hp := by
    obtain hp | hp := List.mem_append.mp hp
    · exact Nat.lt_succ_of_lt (hf.ids_lt p hp)
    · rw [List.mem_singleton.mp hp]
      exact Nat.lt_succ_self _
  flight p hp hpc := by
    obtain hp | hp := List.mem_append.mp hp
    · exact hf.flight p hp hpc
    · rw [List.mem_singleton.mp hp] at hpc
      exact absurd rfl hpc
  once p hp q hq hpc hqc hcall := by
    obtain hp | hp := List.mem_append.mp hp
    · obtain hq | hq := List.mem_append.mp hq
      · exact hf.once p hp q hq hpc hqc hcall
      · rw [List.mem_singleton.mp hq] at hqc
        exact absurd rfl hqc
    · rw [List.mem_singleton.mp hp] at hpc
      exact absurd rfl hpc

theorem drop (hf : Flights s) (x : Nat) : Flights (s.drop x) where
  ids := Keyed.nodup_filter hf.ids _
  ids_lt p hp := hf.ids_lt p (List.mem_filter.mp hp).1
  flight p hp := hf.flight p (List.mem_filter.mp hp).1
  once p hp q hq := hf.once p (List.mem_filter.mp hp).1 q (List.mem_filter.mp hq).1

/-- An execution moves on: its call is open, and no other execution is past the call's intent. -/
theorem setPc (hf : Flights s) {p : Proc} (hp : p ∈ s.procs) (pc : Pc) (hopen : Open s.rows p.callId)
    (halone : ∀ q ∈ s.procs, q.pc ≠ .start → q.callId = p.callId → q.id = p.id) : Flights (s.setPc p.id pc) := by
  have hmem : ∀ q, q ∈ (s.setPc p.id pc).procs → (q ∈ s.procs ∧ q.id ≠ p.id) ∨ q = { p with pc } :=
    fun q hq => (Keyed.mem_replace_of_mem hf.ids hp).mp hq
  refine ⟨?_, fun q hq => ?_, fun q hq hqc => ?_, fun q hq q' hq' hqc hqc' hcall => ?_⟩
  · have hkeys : (s.setPc p.id pc).procs.map Proc.id = s.procs.map Proc.id := Keyed.map_key_replace fun _ h => h
    exact hkeys ▸ hf.ids
  · obtain ⟨hq, -⟩ | rfl := hmem q hq
    · exact hf.ids_lt q hq
    · exact hf.ids_lt p hp
  · obtain ⟨hq, -⟩ | rfl := hmem q hq
    · exact hf.flight q hq hqc
    · exact hopen
  · obtain ⟨hq, -⟩ | rfl := hmem q hq <;> obtain ⟨hq', -⟩ | rfl := hmem q' hq'
    · exact hf.once q hq q' hq' hqc hqc' hcall
    · exact halone q hq hqc hcall
    · exact (halone q' hq' hqc' hcall.symm).symm
    · rfl

/-- The rows after a transaction in which no call of an execution got its result. -/
theorem rows (hf : Flights s) {rows : List ModelCall}
    (hopen : ∀ p ∈ s.procs, p.pc ≠ .start → Open s.rows p.callId → Open rows p.callId)
    {receipts : List Receipt} {events : List Event} {grants : List Grant} :
    Flights { s with receipts, events, grants, rows } where
  ids := hf.ids
  ids_lt := hf.ids_lt
  flight p hp hpc := hopen p hp hpc (hf.flight p hp hpc)
  once := hf.once

end Flights

theorem Open.append {rows : List ModelCall} {row : ModelCall} (h : Open rows call)
    (hrow : row.stage = .result → row.callId ≠ call) : Open (rows ++ [row]) call := by
  refine ⟨?_, ?_⟩
  · rw [stageCalls_append]
    exact List.mem_append_left _ h.1
  · rw [stageCalls_append]
    intro hin
    obtain hin | hin := List.mem_append.mp hin
    · exact h.2 hin
    · split_ifs at hin with hstage
      · exact hrow hstage (List.mem_singleton.mp hin).symm
      · exact absurd hin List.not_mem_nil

/-- A call that is open after a row was added was open, or the row started it. -/
theorem Open.of_append {rows : List ModelCall} {row : ModelCall} (h : Open (rows ++ [row]) call) :
    Open rows call ∨ (row.stage = .started ∧ row.callId = call) := by
  obtain ⟨hstarted, hresult⟩ := h
  rw [stageCalls_append] at hstarted hresult
  have hresult : call ∉ stageCalls .result rows := fun hin => hresult (List.mem_append_left _ hin)
  obtain hstarted | hstarted := List.mem_append.mp hstarted
  · exact .inl ⟨hstarted, hresult⟩
  · split_ifs at hstarted with hstage
    · exact .inr ⟨hstage, (List.mem_singleton.mp hstarted).symm⟩
    · exact absurd hstarted List.not_mem_nil

/-! ## One move -/

/-- The move is the execution's first transaction, and the team had a call left for it. -/
def begins (bound : Nat → Binding) (a : Act) (p : Proc) : Prop :=
  ∃ calls now, a = .begin_ p.id calls now ∧ (bound p.callId).budget.reserveInferenceCall calls = .ok ()

/-- What a move can do. -/
inductive Moved (bound : Nat → Binding) (s : St) (a : Act) : St → Prop where
  | fence (f : Option Nat) : Moved bound s a { s with fence := f }
  | enter (fence call : Nat) (request : ProviderRequest) :
      Moved bound s a { s with procs := s.procs ++ [⟨s.next, fence, call, request, .start⟩], next := s.next + 1 }
  | drop (x : Nat) : Moved bound s a (s.drop x)
  /-- A refusal is recorded with its grant. -/
  | refused (p : Proc) (g : Grant) (row : ModelCall) : p ∈ s.procs → begins bound a p → (bound p.callId).paid = true →
      g.callId = p.callId → (∀ g' ∈ s.grants, g'.callId ≠ g.callId) → g.decision ≠ .allow → row.stage = .denied →
      row.callId = g.callId →
      Moved bound s a (St.drop { s with
        grants := s.grants ++ [g], rows := s.rows ++ [row]
        events := s.events ++ [.budgetDenied p.callId g.decision g.reasons] } p.id)
  /-- The call of an unpaid provider starts. -/
  | free (p : Proc) (row : ModelCall) : p ∈ s.procs → begins bound a p → (bound p.callId).paid = false →
      p.callId ∉ stageCalls .started s.rows → row.stage = .started → row.callId = p.callId →
      Moved bound s a (St.setPc { s with
        rows := s.rows ++ [row], events := s.events ++ intentEvents (bound p.callId) p.callId none } p.id .issued)
  /-- The call of a paid provider starts with its grant. -/
  | granted (p : Proc) (g : Grant) (row : ModelCall) : p ∈ s.procs → begins bound a p → (bound p.callId).paid = true →
      p.callId ∉ stageCalls .started s.rows → row.stage = .started → row.callId = p.callId → g.callId = p.callId →
      (∀ g' ∈ s.grants, g'.callId ≠ p.callId) → g.decision = .allow →
      judge (bound p.callId) (runSpend s.rows) p.request = .ok (.allow, g.reasons, g.estimatedCost) →
      Moved bound s a (St.setPc { s with
        grants := s.grants ++ [g], rows := s.rows ++ [row]
        events := s.events ++ intentEvents (bound p.callId) p.callId (some g) } p.id .issued)
  | calling (p : Proc) : p ∈ s.procs → p.pc ≠ .start →
      Moved bound s a { s.setPc p.id .calling with invoked := s.invoked ++ [p.callId] }
  | answered (p : Proc) (result : ProviderResult) : p ∈ s.procs → p.pc ≠ .start →
      Moved bound s a (s.setPc p.id (.answered result))
  /-- The result of an execution's call is recorded. -/
  | recorded (p : Proc) (row : ModelCall) (receipts : List Receipt) (event : Event) : p ∈ s.procs → p.pc ≠ .start →
      row.stage = .result → row.callId = p.callId → (∀ call, event.starts call = false) →
      Moved bound s a (St.drop { s with receipts, rows := s.rows ++ [row], events := s.events ++ [event] } p.id)

theorem proc?_mem {x : Nat} {p : Proc} (h : s.proc? x = some p) : p ∈ s.procs ∧ p.id = x :=
  ⟨List.mem_of_find?_eq_some h, by simpa using List.find?_some h⟩

/-- What the first transaction commits. -/
theorem begin_moved (ht : Tables bound s) {p : Proc} (hp : p ∈ s.procs) {calls now : Nat} {reply : Reply}
    (h : beginCall (bound p.callId) s p.callId p.request calls now = .ok (t, reply)) :
    Moved bound s (.begin_ p.id calls now) (if reply = .issued then t.setPc p.id .issued else t.drop p.id) := by
  obtain ⟨rfl, result, rfl⟩ | ⟨hstarts, grant, grants, rows, hauth, hrest⟩ := beginCall_cases h
  · exact .drop p.id
  have hnew : p.callId ∉ stageCalls .started s.rows := by
    rw [← ht.event_iff, hstarts]
    decide
  have hbegins : begins bound (.begin_ p.id calls now) p := ⟨calls, now, rfl, authorize_reserved hauth⟩
  obtain ⟨g, rfl, hdecision, rfl, haccount, rfl⟩ | ⟨hallow, rfl, haccount, rfl⟩ := hrest
  · obtain ⟨-, hnone, -⟩ | ⟨-, g', -, -, hallow, hg, -⟩ | ⟨hpaid, hfresh, g', hcall, hg, rfl, -⟩ := authorize_cases hauth
    · cases hnone
    · cases hg
      exact absurd hallow hdecision
    · cases hg
      obtain ⟨row, rfl, hrow, hstage⟩ := account_new haccount fun hin => by
        obtain ⟨g', hg', hcall'⟩ := ht.denied _ hin
        exact hfresh g' hg' hcall'
      rw [if_neg (by simp)]
      exact .refused p g row hp hbegins hpaid hcall (hcall ▸ hfresh) hdecision hstage (hrow.trans hcall.symm)
  · obtain ⟨row, rfl, hrow, hstage⟩ := account_new haccount hnew
    rw [if_pos rfl]
    obtain ⟨hfree, rfl, rfl⟩ | ⟨-, g, hg, hcall, hg', -, -⟩ | ⟨hpaid, hfresh, g, hcall, rfl, rfl, hjudge⟩ := authorize_cases hauth
    · exact .free p row hp hbegins hfree hnew hstage hrow
    · exact absurd (hcall ▸ ht.allow_started g hg hg') hnew
    · exact .granted p g row hp hbegins hpaid hnew hstage hrow hcall hfresh (hallow g rfl) (hallow g rfl ▸ hjudge)

theorem record_moved (hf : Flights s) {p : Proc} (hp : p ∈ s.procs) (hpc : p.pc ≠ .start) {result : ProviderResult} {now : Nat}
    {a : Act} (h : recordResult (bound p.callId) s p.callId p.request result now = .ok t) : Moved bound s a (t.drop p.id) := by
  unfold recordResult at h
  split at h
  · cases h
  obtain ⟨rows, haccount, rfl⟩ := Steps.map_ok h
  obtain ⟨row, rfl, hrow, hstage⟩ := account_new haccount (hf.flight p hp hpc).2
  exact .recorded p row _ _ hp hpc hstage hrow fun call => by split <;> rfl

theorem step_moved (ht : Tables bound s) (hf : Flights s) {a : Act} (h : step bound s a = some t) : Moved bound s a t := by
  cases a with
  | fence f =>
    cases h
    exact .fence f
  | enter fence call request =>
    cases h
    exact .enter fence call request
  | begin_ x calls now =>
    obtain ⟨p, hfind, h⟩ := Option.bind_eq_some_iff.mp h
    obtain ⟨hp, rfl⟩ := proc?_mem hfind
    simp only [procStep] at h
    split_ifs at h
    · split at h
      · rename_i hbegin
        cases h
        exact begin_moved ht hp hbegin
      · rename_i hreply hbegin
        cases h
        have hmoved := begin_moved ht hp hbegin
        rwa [if_neg hreply] at hmoved
      · cases h
        exact .drop p.id
    · cases h
      exact .drop p.id
  | invoke x =>
    obtain ⟨p, hfind, h⟩ := Option.bind_eq_some_iff.mp h
    obtain ⟨hp, rfl⟩ := proc?_mem hfind
    simp only [procStep] at h
    split_ifs at h with hpc
    cases h
    exact .calling p hp (by rw [hpc]; exact fun h => nomatch h)
  | answer x result =>
    obtain ⟨p, hfind, h⟩ := Option.bind_eq_some_iff.mp h
    obtain ⟨hp, rfl⟩ := proc?_mem hfind
    simp only [procStep] at h
    split_ifs at h with hpc
    · cases h
      exact .drop p.id
    · cases h
      exact .answered p result hp (by rw [hpc]; exact fun h => nomatch h)
  | record x now =>
    obtain ⟨p, hfind, h⟩ := Option.bind_eq_some_iff.mp h
    obtain ⟨hp, rfl⟩ := proc?_mem hfind
    simp only [procStep] at h
    split at h
    · rename_i result hpc
      split_ifs at h
      · split at h
        · rename_i hrecord
          cases h
          exact record_moved hf hp (by rw [hpc]; exact fun h => nomatch h) hrecord
        · cases h
          exact .drop p.id
      · cases h
        exact .drop p.id
    · cases h
  | crash x =>
    obtain ⟨p, -, h⟩ := Option.bind_eq_some_iff.mp h
    cases h
    exact .drop x

theorem Tables.moved (ht : Tables bound s) (hf : Flights s) {a : Act} (h : Moved bound s a t) : Tables bound t := by
  cases h with
  | fence f => exact ht.withProcs ..
  | enter fence call request => exact ht.withProcs ..
  | drop x => exact ht.withProcs ..
  | refused p g row _ _ hpaid hcall hnew hdecision hstage hrow =>
    exact (ht.refused (hcall ▸ hpaid) hnew hdecision hstage hrow).withProcs ..
  | free p row _ _ hfree _ hstage hrow => exact (ht.issued hstage hrow (.inl ⟨hfree, rfl⟩)).withProcs ..
  | granted p g row _ _ hpaid _ hstage hrow hcall hnew hallow _ =>
    exact (ht.issued hstage hrow (.inr ⟨hpaid, hnew, g, hcall, hallow, rfl⟩)).withProcs ..
  | calling p hp hpc =>
    refine { ht with invoked := fun c hc => ?_ }
    obtain hc | hc := List.mem_append.mp hc
    · exact ht.invoked c hc
    · rw [List.mem_singleton.mp hc]
      exact (hf.flight p hp hpc).1
  | answered p result hp hpc => exact ht.withProcs ..
  | recorded p row receipts event hp hpc hstage hrow hevent =>
    exact (ht.recorded hstage (hrow ▸ (hf.flight p hp hpc).1) hevent).withProcs ..

/-- An execution commits its intent: the call was not started, so no other execution has it. -/
theorem Flights.issued (hf : Flights s) {p : Proc} (hp : p ∈ s.procs) (hnew : p.callId ∉ stageCalls .started s.rows)
    {row : ModelCall} (hstage : row.stage = .started) (hrow : row.callId = p.callId)
    (hresult : p.callId ∉ stageCalls .result s.rows) {grants : List Grant} {events : List Event} :
    Flights (St.setPc { s with grants, rows := s.rows ++ [row], events } p.id .issued) := by
  have hrows : Flights { s with grants, rows := s.rows ++ [row], events } :=
    hf.rows fun q _ _ hopen => hopen.append fun h => absurd (hstage.symm.trans h) (by decide)
  refine hrows.setPc hp .issued ⟨?_, ?_⟩ fun q hq hqc hcall => ?_
  · rw [stageCalls_append, if_pos hstage, hrow]
    exact List.mem_append_right _ List.mem_cons_self
  · rw [stageCalls_append, hstage, if_neg (by decide), List.append_nil]
    exact hresult
  · exact absurd (hcall ▸ (hf.flight q hq hqc).1) hnew

theorem Flights.moved (ht : Tables bound s) (hf : Flights s) {a : Act} (h : Moved bound s a t) : Flights t := by
  cases h with
  | fence f => exact ⟨hf.ids, hf.ids_lt, hf.flight, hf.once⟩
  | enter fence call request => exact hf.enter fence call request
  | drop x => exact hf.drop x
  | refused p g row _ _ _ _ _ _ hstage _ =>
    exact (hf.rows fun q _ _ hopen => hopen.append fun h => absurd (hstage.symm.trans h) (by decide)).drop p.id
  | free p row hp _ _ hnew hstage hrow =>
    exact hf.issued hp hnew hstage hrow fun hresult => hnew (ht.result_started _ hresult)
  | granted p g row hp _ _ hnew hstage hrow _ _ _ _ =>
    exact hf.issued hp hnew hstage hrow fun hresult => hnew (ht.result_started _ hresult)
  | calling p hp hpc =>
    have hset := hf.setPc hp .calling (hf.flight p hp hpc) fun q hq hqc hcall => hf.once q hq p hp hqc hpc hcall
    exact ⟨hset.ids, hset.ids_lt, hset.flight, hset.once⟩
  | answered p result hp hpc =>
    exact hf.setPc hp _ (hf.flight p hp hpc) fun q hq hqc hcall => hf.once q hq p hp hqc hpc hcall
  | recorded p row receipts event hp hpc hstage hrow _ =>
    -- the other executions have other calls
    refine (hf.drop p.id).rows fun q hq hqc hopen => hopen.append fun _ hcall => ?_
    obtain ⟨hq, hid⟩ := List.mem_filter.mp hq
    have hsame := hf.once q hq p hp hqc hpc (hcall.symm.trans hrow)
    simp [hsame] at hid

/-- A move adds a row at most: of a call that had started, or of one that begins. -/
theorem Moved.rows_cases (hf : Flights s) {a : Act} (h : Moved bound s a t) :
    t.rows = s.rows ∨ ∃ row, t.rows = s.rows ++ [row] ∧
      (row.callId ∈ stageCalls .started s.rows ∨ ∃ p, begins bound a p ∧ row.callId = p.callId) := by
  cases h with
  | fence | enter | drop | calling | answered => exact .inl rfl
  | refused p g row _ hbegins _ hcall _ _ _ hrow => exact .inr ⟨row, rfl, .inr ⟨p, hbegins, hrow.trans hcall⟩⟩
  | free p row _ hbegins _ _ _ hrow => exact .inr ⟨row, rfl, .inr ⟨p, hbegins, hrow⟩⟩
  | granted p g row _ hbegins _ _ _ hrow _ _ _ _ => exact .inr ⟨row, rfl, .inr ⟨p, hbegins, hrow⟩⟩
  | recorded p row receipts event hp hpc _ hrow _ => exact .inr ⟨row, rfl, .inl (hrow ▸ (hf.flight p hp hpc).1)⟩

theorem Moved.invoked_cases {a : Act} (h : Moved bound s a t) :
    t.invoked = s.invoked ∨ ∃ call, t.invoked = s.invoked ++ [call] := by
  cases h with
  | fence | enter | drop | refused | free | granted | answered | recorded => exact .inl rfl
  | calling p _ _ => exact .inr ⟨p.callId, rfl⟩

theorem reach_tables (h : Steps.Reach (step bound) {} s) : Tables bound s ∧ Flights s := by
  refine Steps.ReachIf.invariant (fun s => Tables bound s ∧ Flights s) ⟨.init, .init⟩ ?_ h
  intro s a t ⟨ht, hf⟩ _ hstep
  have hmoved := step_moved ht hf hstep
  exact ⟨ht.moved hf hmoved, hf.moved ht hmoved⟩

end Jarvis.Providers
