/-
  Jarvis.Runtime.Interrupts — which resume value reaches which `interrupt()`.

  A node execution may suspend in `wrap` (a pause or a backoff) and in `decide` (an
  approval). On every resume the node runs again from the top and its calls are answered in
  order, but `wrap` raises whatever wait is stored, so the calls of the replay are not those
  that suspended:

  - on a real run `wrap` raises the approval's own wait again and uses up the resume, so the
    one resume after a decision suspends in `decide` (`decided_approval_suspends`);
  - a pause taken earlier at the approval node is the first resume value, and `wrap`, raising
    the approval, refuses it;
  - on a demo run `wrap` skips the stored wait, so a pause and resume while the decision is
    pending answers `decide` with nothing decided.

  `Answerable` is the state at the first transaction of `wrap` in which the calls do line up,
  and `answers` shows that in every run that meets it each call that returns has its own
  answer. Executors that are lost in the middle of a node (`lose`, a claim over a live program
  counter, the requeue of a blocked run) are no suspensions and resumes; `Undisturbed` leaves
  them out, and with them what parallel executions write (`sibling`).
-/
import Jarvis.Runtime.Cancellation

namespace Jarvis.Runtime.Control

/-! ## The property -/

def Ev.faithful : Ev → Prop
  | .returned w v => v = w
  | .suspended _ b => b = false
  | .decided _ r d => r = some d
  | .refused => False

/-- The wait of the current execution's `decide`. -/
def own (s : St) : Wait := approvalWait s.run.mode s.execution

/-- The next `interrupt()` of `decide` returns the approval's own wait if the decision is on
    record, and suspends if it is not. -/
def NextOk (s : St) : Prop :=
  decidedOn s.run (own s) = false ∧ s.resumes[s.calls]? = none ∨
  decidedOn s.run (own s) = true ∧ s.resumes[s.calls]? = some (own s)

/-- Every call that returned was given its own wait, none suspended on a decided wait, `decide`
    returned what was recorded, no wait was refused; and `decide`, about to interrupt,
    returns if and only if its decision is recorded. -/
structure Answers (s : St) : Prop where
  log : ∀ e ∈ s.log, e.faithful
  asked : ∀ w, s.pc = some (.asked w) → w = own s ∧ NextOk s

/-! ## The condition -/

def Undisturbed (s : St) : Act → Prop
  | .lose | .reconcile | .sibling _ => False
  | .claim _ => s.pc = none
  | _ => True

/-- `wrap` starts on a stored wait whose replay lines up: an approval resumed once while it is
    pending or twice once it is decided, with nothing before it; a demo decision resumed once,
    decided, with no pause or backoff due. -/
def Lined (s : St) (w : Wait) : Prop :=
  (w.kind = .approval → s.resumes = [w] ∧ decidedOn s.run w = false ∨
    s.resumes = [w, w] ∧ decidedOn s.run w = true) ∧
  (w.kind = .demoDecision → s.resumes = [w] ∧ decidedOn s.run w = true ∧ s.run.desiredState ≠ .paused ∧
    s.run.claimableAt ≤ s.now)

/-- No cancel or expiry overrides the decision that `decide` is about to return. -/
def Stands (s : St) : Prop :=
  s.run.desiredState ≠ .cancelled ∧ ∀ v ∈ s.run.runtime.approvals, expiredAt s.now v = true → v.decision = .expired

def Answerable (s : St) : Act → Prop
  | .invoke => s.run.desiredState ≠ .cancelled → ∀ w ∈ s.run.runtime.wait, Lined s w
  | .decide => Stands s
  | _ => True

def AnswersIf (s : St) (a : Act) : Prop := Undisturbed s a ∧ Answerable s a

instance (s : St) (w : Wait) : Decidable (Lined s w) := by
  unfold Lined
  infer_instance

instance (s : St) : Decidable (Stands s) := by
  unfold Stands
  infer_instance

instance (s : St) (a : Act) : Decidable (AnswersIf s a) := by
  unfold AnswersIf Undisturbed Answerable
  cases a <;> infer_instance

/-! ## Decisions on record -/

def IsControl (w : Wait) : Prop := w.kind = .pause ∨ w.kind = .backoff

theorem decidedOn_control {r : RunRow} {w : Wait} (h : IsControl w) : decidedOn r w = false := by
  rcases h with h | h <;> simp [decidedOn, recorded, h]

/-- The execution's approval was not requested yet. -/
def Unasked (s : St) : Prop := recorded s.run (own s) = none

theorem Unasked.decidedOn {s : St} (h : Unasked s) : decidedOn s.run (own s) = false := by
  unfold Control.decidedOn
  rw [h]
  rfl

theorem recorded_real {r : RunRow} (h : r.mode = .real) (e : Nat) : recorded r (approvalWait r.mode e) =
    (r.runtime.approvals.find? (·.id == .approval e)).map (·.decision) := by
  simp [recorded, approvalWait, h]

theorem recorded_demo {r : RunRow} (h : r.mode = .demo) (e : Nat) : recorded r (approvalWait r.mode e) =
    r.runtime.demoDecision.bind fun d => if d.1 = .demo e then some d.2 else none := by
  simp [recorded, approvalWait, h]

theorem request_mode (now e : Nat) (x : Option Nat) (r : RunRow) : (request now e x r).mode = r.mode := by
  unfold request
  dsimp only
  split
  · split <;> rfl
  · rfl

theorem request_wait (now e : Nat) (x : Option Nat) (r : RunRow) :
    (request now e x r).runtime.wait = some (approvalWait r.mode e) := by
  unfold request
  cases r.mode with
  | real => dsimp only; split <;> rfl
  | demo => rfl

/-- Asking for an approval decides nothing. -/
theorem request_decidedOn (now e : Nat) (x : Option Nat) (r : RunRow) :
    decidedOn (request now e x r) (approvalWait r.mode e) = decidedOn r (approvalWait r.mode e) := by
  unfold decidedOn
  conv_lhs => rw [← request_mode now e x r]
  cases hm : r.mode with
  | real =>
    rw [recorded_real (by rw [request_mode, hm]), ← hm, recorded_real hm]
    unfold request
    simp only [hm, approvalWait]
    split
    · rfl
    · rename_i hn
      have hn : ∀ v ∈ r.runtime.approvals, v.id ≠ .approval e := by simpa using hn
      have hf : r.runtime.approvals.find? (·.id == .approval e) = none := by
        simpa [List.find?_eq_none] using hn
      simp [List.find?_append, hf]
  | demo =>
    rw [recorded_demo (by rw [request_mode, hm]), ← hm, recorded_demo hm]
    unfold request
    simp only [hm, approvalWait]
    cases r.runtime.demoDecision with
    | none => simp
    | some d => rfl

/-! ## The invariant -/

/-- What is on record belongs to executions so far, and a demo decision is pending, approved or
    rejected. -/
structure Records (s : St) : Prop where
  approvals : ∀ v ∈ s.run.runtime.approvals, ∃ k ≤ s.execution, v.id = .approval k
  demo : ∀ d ∈ s.run.runtime.demoDecision, (∃ k ≤ s.execution, d.1 = .demo k) ∧
    (d.2 = .pending ∨ d.2 = .approved ∨ d.2 = .rejected)

/-- The checkpoint holds an interrupt: a control wait, which is the execution's first, or the
    execution's approval. -/
def Held (s : St) : Prop :=
  (∃ p, s.run.runtime.wait = some p ∧ IsControl p ∧ s.resumes = [] ∧ Unasked s) ∨
  (s.run.runtime.wait = some (own s) ∧ s.node = .approval)

/-- Between two executors. -/
def Ready (s : St) : Prop :=
  s.cached = none ∧ (s.interrupted = false ∧ s.run.runtime.wait = none ∧ s.resumes = [] ∧ Unasked s ∨
    s.interrupted = true ∧ Held s)

def Matched (s : St) (w : Wait) : Prop :=
  s.resumes = [w] ∧ decidedOn s.run w = false ∨ s.resumes = [w, w] ∧ decidedOn s.run w = true

/-- What holds at each program counter. -/
def Phase (s : St) : Option Pc → Prop
  | none => s.run.status.terminal = true ∨ Ready s
  | some .claimed | some .opened => Ready s
  | some .invoke => s.cached = none ∧ s.calls = 0 ∧
      (s.run.runtime.wait = none ∧ s.resumes = [] ∧ Unasked s ∨
        (∃ p, s.run.runtime.wait = some p ∧ IsControl p ∧ s.resumes = [p] ∧ Unasked s) ∨
        s.run.runtime.wait = some (own s) ∧ s.node = .approval)
  | some (.waiting w) => s.cached = none ∧ s.calls = 0 ∧ s.run.runtime.wait = some w ∧
      (IsControl w ∧ Unasked s ∧ (s.resumes = [] ∨ s.resumes = [w]) ∨ w = own s ∧ Matched s w)
  | some (.resumed w) => s.cached = none ∧ s.calls = 1 ∧
      (IsControl w ∧ Unasked s ∧ s.resumes = [w] ∨ w = own s ∧ Matched s w)
  | some .entered => s.cached = none ∧ NextOk s ∧ (s.node = .plain → s.run.runtime.wait = none)
  | some (.asked w) => s.cached = none ∧ w = own s ∧ s.run.runtime.wait = some w ∧ s.node = .approval ∧ NextOk s
  | some (.answered w) => w = own s ∧ decidedOn s.run w = true
  | some (.handled _) | some .done => s.run.runtime.wait = none
  | some .suspended => s.cached = none ∧ s.interrupted = true ∧ Held s
  | some (.finished _) | some .failed => True

structure Sound (s : St) : Prop where
  records : Records s
  /-- While an executor is at work the run is not offered for a decision. -/
  active : s.pc ≠ none → s.run.status ≠ .approvalRequired
  log : ∀ e ∈ s.log, e.faithful
  phase : Phase s s.pc

theorem init_sound (run : RunRow) (node : Node) : Sound (init run node) := by
  refine ⟨⟨?_, ?_⟩, ?_, ?_, ?_⟩
  · intro v hv
    cases hv
  · intro d hd
    cases hd
  · intro h
    exact absurd rfl h
  · intro e he
    cases he
  · refine .inr ⟨rfl, .inl ⟨rfl, rfl, rfl, ?_⟩⟩
    show recorded (init run node).run (approvalWait run.mode 0) = none
    cases run.mode <;> rfl

/-! ## Moves that leave the execution alone -/

theorem recorded_congr {r r' : RunRow} (h : SameWaits r r') (w : Wait) : recorded r' w = recorded r w := by
  obtain ⟨-, -, -, ha, hd⟩ := h
  unfold recorded
  rw [ha, hd]

theorem decidedOn_congr {r r' : RunRow} (h : SameWaits r r') (w : Wait) : decidedOn r' w = decidedOn r w := by
  unfold decidedOn
  rw [recorded_congr h]

/-- The run's waits and the execution are the same. -/
structure SameGraph (s t : St) : Prop where
  waits : SameWaits s.run t.run
  execution : t.execution = s.execution
  node : t.node = s.node
  interrupted : t.interrupted = s.interrupted
  resumes : t.resumes = s.resumes
  calls : t.calls = s.calls
  cached : t.cached = s.cached

theorem Records.keep {s t : St} (hr : Records s) (ha : t.run.runtime.approvals = s.run.runtime.approvals)
    (hd : t.run.runtime.demoDecision = s.run.runtime.demoDecision) (he : s.execution ≤ t.execution) : Records t := by
  refine ⟨?_, ?_⟩
  · intro v hv
    obtain ⟨k, hk, hid⟩ := hr.approvals v (ha ▸ hv)
    exact ⟨k, by omega, hid⟩
  · intro d hdd
    obtain ⟨⟨k, hk, hid⟩, h⟩ := hr.demo d (hd ▸ hdd)
    exact ⟨⟨k, by omega, hid⟩, h⟩

theorem SameGraph.records {s t : St} (h : SameGraph s t) (hr : Records s) : Records t :=
  hr.keep h.waits.2.2.2.1 h.waits.2.2.2.2 (Nat.le_of_eq h.execution.symm)

theorem SameGraph.own {s t : St} (h : SameGraph s t) : own t = own s := by
  unfold Control.own
  rw [h.waits.2.1, h.execution]

theorem SameGraph.unasked {s t : St} (h : SameGraph s t) : Unasked t ↔ Unasked s := by
  unfold Unasked
  rw [h.own, recorded_congr h.waits]

theorem SameGraph.ready {s t : St} (h : SameGraph s t) (hr : Ready s) : Ready t := by
  unfold Ready Held at hr ⊢
  rw [h.own, h.unasked, h.waits.2.2.1, h.node, h.interrupted, h.resumes, h.cached]
  exact hr

theorem SameGraph.phase {s t : St} (h : SameGraph s t) {pc : Pc} (hp : Phase s (some pc)) : Phase t (some pc) := by
  obtain ⟨-, -, hw, -, -⟩ := h.waits
  have hown := h.own
  have hdec := decidedOn_congr h.waits
  have hun := h.unasked
  cases pc with
  | claimed | opened => exact h.ready hp
  | finished | failed => trivial
  | invoke | waiting | resumed | entered | asked | answered | handled | done | suspended =>
    simpa only [Phase, Held, Matched, NextOk, hown, hdec, hun, hw, h.node, h.interrupted, h.resumes, h.calls,
      h.cached] using hp

/-- A move of somebody else: commands, the clock, an emergency stop. -/
theorem Sound.frame {s t : St} (hs : Sound s) (h : SameGraph s t) (hpc : t.pc = s.pc) (hlog : t.log = s.log)
    (ht : s.run.status.terminal = true → t.run.status.terminal = true)
    (ha : t.run.status = .approvalRequired → s.run.status = .approvalRequired) : Sound t := by
  refine ⟨h.records hs.records, fun hne hst => hs.active (hpc ▸ hne) (ha hst), hlog ▸ hs.log, ?_⟩
  have hp := hs.phase
  rw [hpc]
  cases hc : s.pc with
  | none =>
    rw [hc] at hp
    exact hp.imp ht h.ready
  | some pc =>
    rw [hc] at hp
    exact h.phase hp

theorem Sound.at {s : St} (hs : Sound s) {pc : Pc} (hpc : s.pc = some pc) : Phase s (some pc) := hpc ▸ hs.phase

theorem Sound.busy {s : St} (hs : Sound s) {pc : Pc} (hpc : s.pc = some pc) : s.run.status ≠ .approvalRequired :=
  hs.active (by rw [hpc]; simp)

/-! ## The executor's transactions -/

theorem opening_status (r : RunRow) : (opening r).status ≠ .approvalRequired := by
  unfold opening
  cases r.desiredState <;> simp

theorem Sound.openRun {s t : St} (hs : Sound s) (hpc : s.pc = some .claimed) (h : openRun s = some t) : Sound t := by
  unfold Control.openRun at h
  split at h
  · cases h
    have hg : SameGraph s { s with run := opening s.run, pc := some .opened } :=
      ⟨⟨rfl, rfl, rfl, rfl, rfl⟩, rfl, rfl, rfl, rfl, rfl, rfl⟩
    exact ⟨hg.records hs.records, fun _ => opening_status s.run, hs.log, hg.ready (hs.at hpc)⟩
  · cases h

/-- A parked run stays suspended; a resumed one is handed its wait. -/
theorem Sound.resumeGraph {s t : St} (hs : Sound s) (hpc : s.pc = some .opened) (h : resumeGraph s = some t) :
    Sound t := by
  obtain ⟨hc, hready⟩ : Ready s := hs.at hpc
  have hbusy := hs.busy hpc
  unfold Control.resumeGraph at h
  split at h
  · rename_i hi
    cases h
    refine ⟨hs.records.keep rfl rfl (Nat.le_refl _), fun _ => hbusy, hs.log, hc, rfl, ?_⟩
    rcases hready with ⟨-, hw, hr, hu⟩ | ⟨hi', -⟩
    · exact .inl ⟨hw, hr, hu⟩
    · simp [hi'] at hi
  rename_i hi
  have hi : s.interrupted = true := by simpa using hi
  have hheld : Held s := by
    rcases hready with ⟨hi', -⟩ | ⟨-, hh⟩
    · rw [hi] at hi'
      cases hi'
    · exact hh
  split at h
  · cases h
  split at h
  · cases h
    have hg : SameGraph s { s with run := settle s.run .paused, lease := none, pc := none } :=
      ⟨⟨rfl, rfl, rfl, rfl, rfl⟩, rfl, rfl, rfl, rfl, rfl, rfl⟩
    exact ⟨hg.records hs.records, fun hne => absurd rfl hne, hs.log, .inr (hg.ready ⟨hc, .inr ⟨hi, hheld⟩⟩)⟩
  split at h
  · rename_i hw
    rcases hheld with ⟨p, hp, -⟩ | ⟨hp, -⟩ <;> rw [hw] at hp <;> cases hp
  · rename_i w hw
    cases h
    refine ⟨hs.records.keep rfl rfl (Nat.le_refl _), fun _ => hbusy, hs.log, hc, rfl, .inr ?_⟩
    rcases hheld with ⟨p, hp, hctl, hr, hu⟩ | ⟨hp, hn⟩
    · cases hw.symm.trans hp
      exact .inl ⟨w, hw, hctl, by rw [hr]; rfl, hu⟩
    · exact .inr ⟨hp, hn⟩

/-- The first transaction of `wrap`, where the condition is used. -/
theorem Sound.wrapWait {s t : St} (hs : Sound s) (hpc : s.pc = some .invoke)
    (hok : Answerable s .invoke) (h : wrapWait s = some t) : Sound t := by
  obtain ⟨hc, hcalls, hwait⟩ : _ ∧ _ ∧ _ := hs.at hpc
  have hbusy := hs.busy hpc
  unfold Control.wrapWait at h
  split at h
  · cases h
  split at h
  · cases h
    exact ⟨hs.records.keep rfl rfl (Nat.le_refl _), fun _ => hbusy, hs.log, trivial⟩
  rename_i hd
  have hlined := hok hd
  split at h
  · -- a stored wait is raised again
    rename_i w hw
    obtain ⟨hw, hk⟩ := Option.filter_eq_some_iff.mp hw
    cases h
    refine ⟨hs.records.keep rfl rfl (Nat.le_refl _), fun _ => hbusy, hs.log, hc, hcalls, hw, ?_⟩
    rcases hwait with ⟨hn, -⟩ | ⟨p, hp, hctl, hr, hu⟩ | ⟨hp, -⟩
    · rw [hw] at hn
      cases hn
    · cases hw.symm.trans hp
      exact .inl ⟨hctl, hu, .inr hr⟩
    · cases hw.symm.trans hp
      have hkind : (own s).kind = .approval := by
        unfold own approvalWait at hk ⊢
        cases hm : s.run.mode with
        | real => rfl
        | demo => simp [hm] at hk
      exact .inr ⟨rfl, (hlined _ hw).1 hkind⟩
  · rename_i hw
    -- no wait is stored, or a demo decision's
    have hnone : s.run.runtime.wait = none ∧ s.resumes = [] ∧ Unasked s ∨
        (s.run.runtime.wait = some (own s) ∧ (own s).kind = .demoDecision) ∧ s.node = .approval := by
      rcases hwait with hn | ⟨p, hp, hctl, -⟩ | ⟨hp, hn⟩
      · exact .inl hn
      · rcases hctl with hk | hk <;> simp [hp, Option.filter, hk] at hw
      · refine .inr ⟨⟨hp, ?_⟩, hn⟩
        by_contra hk
        simp [hp, Option.filter, hk] at hw
    split at h
    · rename_i hdue
      rcases hnone with ⟨hn, hr, hu⟩ | ⟨⟨hp, hk⟩, -⟩
      · cases h
        refine ⟨hs.records.keep rfl rfl (Nat.le_refl _), fun _ => hbusy, hs.log, hc, hcalls, rfl, .inl ⟨?_, hu, .inl hr⟩⟩
        unfold IsControl
        dsimp only
        split
        · exact .inl rfl
        · exact .inr rfl
      · obtain ⟨-, -, h1, h2⟩ := (hlined _ hp).2 hk
        rcases hdue with hdue | hdue
        · exact absurd hdue h1
        · omega
    · cases h
      have hpc' : afterWait s = .entered := by unfold afterWait; rw [hc]
      refine ⟨hs.records.keep rfl rfl (Nat.le_refl _), fun _ => hbusy, hs.log, ?_⟩
      dsimp only
      rw [hpc']
      rcases hnone with ⟨hn, hr, hu⟩ | ⟨⟨hp, hk⟩, hnode⟩
      · exact ⟨hc, .inl ⟨hu.decidedOn, by simp [hr]⟩, fun _ => hn⟩
      · obtain ⟨hr, hdec, -⟩ := (hlined _ hp).2 hk
        refine ⟨hc, .inr ⟨hdec, ?_⟩, fun hpl => ?_⟩
        · show s.resumes[s.calls]? = some (own s)
          rw [hr, hcalls]
          rfl
        · have hpl : s.node = .plain := hpl
          rw [hnode] at hpl
          cases hpl

theorem faithful_append {l : List Ev} {e : Ev} (hl : ∀ x ∈ l, x.faithful) (he : e.faithful) :
    ∀ x ∈ l ++ [e], x.faithful := by
  intro x hx
  rcases List.mem_append.mp hx with hx | hx
  · exact hl x hx
  · rw [List.mem_singleton.mp hx]
    exact he

/-- `interrupt()` in `wrap`. -/
theorem Sound.interruptWaiting {s : St} (hs : Sound s) {w : Wait} (hpc : s.pc = some (.waiting w)) :
    Sound (interruptAt s w (.resumed w)) := by
  obtain ⟨hc, hcalls, hw, hwait⟩ : _ ∧ _ ∧ _ ∧ _ := hs.at hpc
  have hbusy := hs.busy hpc
  unfold interruptAt
  split
  · rename_i hn
    rw [hcalls] at hn
    refine ⟨hs.records.keep rfl rfl (Nat.le_refl _), fun _ => hbusy, ?_, hc, rfl, ?_⟩
    · refine faithful_append hs.log ?_
      rcases hwait with ⟨hctl, -, -⟩ | ⟨-, ⟨hr, -⟩ | ⟨hr, -⟩⟩
      · exact decidedOn_control hctl
      · simp [hr] at hn
      · simp [hr] at hn
    · rcases hwait with ⟨hctl, hu, hr | hr⟩ | ⟨-, ⟨hr, -⟩ | ⟨hr, -⟩⟩
      · exact .inl ⟨w, hw, hctl, hr, hu⟩
      all_goals simp [hr] at hn
  · rename_i v hv
    rw [hcalls] at hv
    have hvw : v = w := by
      rcases hwait with ⟨-, -, hr | hr⟩ | ⟨-, ⟨hr, -⟩ | ⟨hr, -⟩⟩
      all_goals simp [hr] at hv
      all_goals exact hv.symm
    subst hvw
    rw [if_pos rfl]
    refine ⟨hs.records.keep rfl rfl (Nat.le_refl _), fun _ => hbusy, faithful_append hs.log rfl, hc, ?_, ?_⟩
    · show s.calls + 1 = 1
      omega
    · rcases hwait with ⟨hctl, hu, hr | hr⟩ | hm
      · simp [hr] at hv
      · exact .inl ⟨hctl, hu, hr⟩
      · exact .inr hm

theorem Sound.wrapClear {s t : St} (hs : Sound s) {w : Wait} (hpc : s.pc = some (.resumed w))
    (h : wrapClear s = some t) : Sound t := by
  obtain ⟨hc, hcalls, hwait⟩ : _ ∧ _ ∧ _ := hs.at hpc
  have hbusy := hs.busy hpc
  unfold Control.wrapClear at h
  split at h
  · cases h
  split at h
  · cases h
    exact ⟨hs.records.keep rfl rfl (Nat.le_refl _), fun _ => hbusy, hs.log, trivial⟩
  · cases h
    have hpc' : afterWait s = .entered := by unfold afterWait; rw [hc]
    refine ⟨hs.records.keep rfl rfl (Nat.le_refl _), fun _ => hbusy, hs.log, ?_⟩
    dsimp only
    rw [hpc']
    refine ⟨hc, ?_, fun _ => rfl⟩
    have hnext : NextOk s := by
      unfold NextOk
      rw [hcalls]
      rcases hwait with ⟨-, hu, hr⟩ | ⟨rfl, ⟨hr, hd⟩ | ⟨hr, hd⟩⟩
      · exact .inl ⟨hu.decidedOn, by simp [hr]⟩
      · exact .inl ⟨hd, by simp [hr]⟩
      · exact .inr ⟨hd, by simp [hr]⟩
    exact hnext

theorem request_records {s : St} {pc : Option Pc} {x : Option Nat} (hr : Records s) :
    Records { s with run := request s.now s.execution x s.run, pc := pc } := by
  unfold request
  cases hm : s.run.mode with
  | real =>
    dsimp only
    split
    · exact hr.keep rfl rfl (Nat.le_refl _)
    · refine ⟨?_, hr.demo⟩
      intro v hv
      rcases List.mem_append.mp hv with hv | hv
      · exact hr.approvals v hv
      · rw [List.mem_singleton.mp hv]
        exact ⟨s.execution, Nat.le_refl _, rfl⟩
  | demo =>
    refine ⟨hr.approvals, ?_⟩
    intro d hd
    cases hdd : s.run.runtime.demoDecision with
    | none =>
      simp only [hdd, Option.orElse_none, Option.mem_def, Option.some.injEq] at hd
      subst hd
      exact ⟨⟨s.execution, Nat.le_refl _, rfl⟩, .inl rfl⟩
    | some d' =>
      simp only [hdd, Option.orElse_some, Option.mem_def, Option.some.injEq] at hd
      subst hd
      exact hr.demo d' hdd

theorem Sound.decideAsk {s t : St} (hs : Sound s) (hpc : s.pc = some .entered) {x : Option Nat}
    (h : decideAsk s x = some t) : Sound t := by
  obtain ⟨hc, hnext, -⟩ : _ ∧ _ ∧ _ := hs.at hpc
  have hbusy := hs.busy hpc
  unfold Control.decideAsk at h
  split at h
  · rename_i hg
    cases h
    have hown : own { s with
        run := request s.now s.execution x s.run
        pc := some (.asked (approvalWait s.run.mode s.execution)) } = own s := by
      unfold own
      rw [request_mode]
    refine ⟨?_, ?_, hs.log, hc, hown.symm, ?_, hg.2, ?_⟩
    · exact request_records hs.records
    · intro _
      rw [(request_status s.now s.execution x s.run).1]
      exact hbusy
    · rw [request_wait]
    · unfold NextOk
      rw [hown]
      show Control.decidedOn (request s.now s.execution x s.run) (approvalWait s.run.mode s.execution) = false ∧ _ ∨
        Control.decidedOn (request s.now s.execution x s.run) (approvalWait s.run.mode s.execution) = true ∧ _
      rw [request_decidedOn]
      exact hnext
  · cases h

theorem Sound.interruptAsked {s : St} (hs : Sound s) {w : Wait} (hpc : s.pc = some (.asked w)) :
    Sound (interruptAt s w (.answered w)) := by
  obtain ⟨hc, rfl, hw, hnode, hnext⟩ : _ ∧ _ ∧ _ ∧ _ ∧ _ := hs.at hpc
  have hbusy := hs.busy hpc
  unfold interruptAt
  rcases hnext with ⟨hd, hn⟩ | ⟨hd, hn⟩
  · rw [hn]
    exact ⟨hs.records.keep rfl rfl (Nat.le_refl _), fun _ => hbusy, faithful_append hs.log hd, hc, rfl,
      .inr ⟨hw, hnode⟩⟩
  · rw [hn]
    dsimp only
    rw [if_pos rfl]
    exact ⟨hs.records.keep rfl rfl (Nat.le_refl _), fun _ => hbusy, faithful_append hs.log rfl, rfl, hd⟩

/-- What `decide` returns when nothing overrides the decision on record. -/
theorem verdict_of_decided {s : St} (hr : Records s) (hst : Stands s) (hd : decidedOn s.run (own s) = true) :
    ∃ d, verdict s.now s.run (own s) = some d ∧ recorded s.run (own s) = some d := by
  obtain ⟨hnc, hexp⟩ := hst
  unfold decidedOn own at hd
  unfold verdict own
  cases hm : s.run.mode with
  | real =>
    have hrec := recorded_real hm s.execution
    rw [hm] at hrec hd
    rw [hrec] at hd ⊢
    cases hv : s.run.runtime.approvals.find? (·.id == .approval s.execution) with
    | none => simp [hv] at hd
    | some v =>
      have hne : v.decision ≠ .pending := by simpa [hv] using hd
      refine ⟨v.decision, ?_, rfl⟩
      simp only [approvalWait, hv, Option.bind_eq_bind, Option.bind_some, if_neg hnc]
      by_cases he : expiredAt s.now v = true
      · have := hexp v (List.mem_of_find?_eq_some hv) he
        simp [he, this]
      · simp [he, hne]
  | demo =>
    have hrec := recorded_demo hm s.execution
    rw [hm] at hrec hd
    rw [hrec] at hd ⊢
    cases hdd : s.run.runtime.demoDecision with
    | none => simp [hdd] at hd
    | some d =>
      simp only [hdd, Option.bind_some] at hd ⊢
      by_cases hid : d.1 = .demo s.execution
      · have hne : d.2 ≠ .pending := by simpa [hid] using hd
        refine ⟨d.2, ?_, by simp [hid]⟩
        have hor : d.2 = .approved ∨ d.2 = .rejected := by
          rcases (hr.demo d hdd).2 with h | h
          · exact absurd h hne
          · exact h
        simp [hnc, hor]
      · simp [hid] at hd

theorem Sound.decideAnswer {s t : St} (hs : Sound s) {w : Wait} (hpc : s.pc = some (.answered w)) (hst : Stands s)
    (h : decideAnswer s w = some t) : Sound t := by
  obtain ⟨rfl, hd⟩ : _ ∧ _ := hs.at hpc
  have hbusy := hs.busy hpc
  obtain ⟨d, hv, hrec⟩ := verdict_of_decided hs.records hst hd
  unfold Control.decideAnswer at h
  split at h
  · cases h
  · rw [hv] at h
    cases h
    exact ⟨hs.records.keep rfl rfl (Nat.le_refl _), fun _ => hbusy, faithful_append hs.log hrec, rfl⟩

theorem Sound.wrapRecord {s t : St} (hs : Sound s) {o : Outcome} (hpc : s.pc = some (.handled o))
    (h : wrapRecord s o = some t) : Sound t := by
  have hw : s.run.runtime.wait = none := hs.at hpc
  have hbusy := hs.busy hpc
  unfold Control.wrapRecord at h
  split at h
  · cases h
  split at h
  · cases h
    exact ⟨hs.records.keep rfl rfl (Nat.le_refl _), fun _ => hbusy, hs.log, trivial⟩
  · cases h
    refine ⟨hs.records.keep rfl rfl (Nat.le_refl _), fun _ => hbusy, hs.log, ?_⟩
    by_cases ho : o = .failed
    · simp only [ho, if_true]
      trivial
    · simp only [ho, if_false]
      exact hw

/-- A new execution has asked for nothing. -/
theorem Records.unasked_next {s : St} (hr : Records s) (r : RunRow)
    (ha : r.runtime.approvals = s.run.runtime.approvals)
    (hd : r.runtime.demoDecision = s.run.runtime.demoDecision) :
    recorded r (approvalWait r.mode (s.execution + 1)) = none := by
  cases hmode : r.mode with
  | real =>
    have := recorded_real hmode (s.execution + 1)
    rw [hmode] at this
    rw [this, Option.map_eq_none_iff, List.find?_eq_none, ha]
    intro v hv
    obtain ⟨k, hk, hid⟩ := hr.approvals v hv
    simp only [hid, beq_iff_eq, WaitId.approval.injEq]
    omega
  | demo =>
    have := recorded_demo hmode (s.execution + 1)
    rw [hmode] at this
    rw [this, hd]
    cases hdd : s.run.runtime.demoDecision with
    | none => rfl
    | some d =>
      obtain ⟨⟨k, hk, hid⟩, -⟩ := hr.demo d hdd
      have hne : ¬ k = s.execution + 1 := by omega
      simp [hid, hne]

theorem scheduled_waits (now : Nat) (delay : Option Nat) (r : RunRow) : SameWaits r (scheduled now delay r) := by
  cases delay <;> exact ⟨rfl, rfl, rfl, rfl, rfl⟩

theorem Sound.advance {s t : St} (hs : Sound s) (hpc : s.pc = some .done) {delay : Option Nat} {next : Node}
    (h : advance s delay next = some t) : Sound t := by
  have hw : s.run.runtime.wait = none := hs.at hpc
  have hbusy := hs.busy hpc
  unfold Control.advance at h
  split at h
  · cases h
    obtain ⟨-, -, hwt, ha, hd⟩ := scheduled_waits s.now delay s.run
    refine ⟨hs.records.keep ha hd (Nat.le_succ _), ?_, hs.log, rfl, rfl, .inl ⟨hwt.trans hw, rfl, ?_⟩⟩
    · intro _
      rw [(scheduled_row s.now delay s.run).1]
      exact hbusy
    · exact hs.records.unasked_next _ ha hd
  · cases h

theorem Sound.closeSuspended {s t : St} (hs : Sound s) (hpc : s.pc = some .suspended)
    (h : closeSuspended s = some t) : Sound t := by
  obtain ⟨hc, hi, hheld⟩ : _ ∧ _ ∧ _ := hs.at hpc
  unfold Control.closeSuspended at h
  split at h
  · cases h
  split at h
  · rename_i hw
    rcases hheld with ⟨p, hp, -⟩ | ⟨hp, -⟩ <;> rw [hw] at hp <;> cases hp
  · rename_i w hw
    cases h
    have hg : SameGraph s { s with run := settle s.run (suspendedStatus w.kind), lease := none, pc := none } :=
      ⟨⟨rfl, rfl, rfl, rfl, rfl⟩, rfl, rfl, rfl, rfl, rfl, rfl⟩
    exact ⟨hg.records hs.records, fun hne => absurd rfl hne, hs.log, .inr (hg.ready ⟨hc, .inr ⟨hi, hheld⟩⟩)⟩

theorem endedStatus_terminal (r : RunRow) (final : RunStatus) : (endedStatus r final).terminal = true := by
  unfold endedStatus
  split
  · rfl
  · split
    · assumption
    · rfl

/-- A move that ends the run. -/
theorem Sound.ended {s t : St} (hs : Sound s) (ha : t.run.runtime.approvals = s.run.runtime.approvals)
    (hd : t.run.runtime.demoDecision = s.run.runtime.demoDecision) (he : t.execution = s.execution)
    (hpc : t.pc = none) (hlog : t.log = s.log) (ht : t.run.status.terminal = true) : Sound t := by
  refine ⟨hs.records.keep ha hd (Nat.le_of_eq he.symm), fun hne => absurd hpc hne, hlog ▸ hs.log, ?_⟩
  rw [hpc]
  exact .inl ht

/-- A move of the executor after which nothing is left to answer. -/
theorem Sound.stops {s : St} (hs : Sound s) {pc pc' : Pc} (hpc : s.pc = some pc) (i : Bool)
    (hp : Phase { s with interrupted := i, pc := some pc' } (some pc')) :
    Sound { s with interrupted := i, pc := some pc' } :=
  ⟨hs.records.keep rfl rfl (Nat.le_refl _), fun _ => hs.busy hpc, hs.log, hp⟩

theorem execStep_sound {s t : St} {pc : Pc} {a : Act} (hs : Sound s) (hpc : s.pc = some pc) (hok : AnswersIf s a)
    (h : execStep s pc a = some t) : Sound t := by
  obtain ⟨hun, hans⟩ := hok
  unfold execStep at h
  split at h
  · exact hs.openRun hpc h
  · exact hs.resumeGraph hpc h
  · exact hs.wrapWait hpc hans h
  · cases h
    exact hs.interruptWaiting hpc
  · exact hs.wrapClear hpc h
  · exact hs.decideAsk hpc h
  · cases h
    exact hs.interruptAsked hpc
  · exact hs.decideAnswer hpc hans h
  · split at h
    · rename_i hn
      cases h
      obtain ⟨-, -, hw⟩ : _ ∧ _ ∧ _ := hs.at hpc
      exact hs.stops hpc s.interrupted (hw hn)
    · cases h
  · cases h
    exact hs.stops hpc s.interrupted trivial
  · exact hs.wrapRecord hpc h
  · exact hs.advance hpc h
  · split at h
    · cases h
      exact hs.stops hpc false trivial
    · cases h
  · exact hs.closeSuspended hpc h
  · simp only [closeEnded] at h
    split at h
    · cases h
      exact hs.ended rfl rfl rfl rfl rfl (endedStatus_terminal _ _)
    · cases h
  · simp only [blockRun] at h
    split at h
    · cases h
      exact hs.ended rfl rfl rfl rfl rfl rfl
    · cases h
  · exact absurd hun id
  · exact absurd hun id
  · split at h
    · cases h
      exact hs.frame ⟨⟨rfl, rfl, rfl, rfl, rfl⟩, rfl, rfl, rfl, rfl, rfl, rfl⟩ rfl rfl id id
    · cases h
  · cases h

/-! ## Decisions of the control plane -/

theorem recorded_setDecision (r : RunRow) (id : WaitId) (d : Decision) (w : Wait) (h : recorded r w = none) :
    recorded (setDecision r id d) w = none := by
  unfold recorded at h ⊢
  cases hk : w.kind with
  | approval =>
    simp only [hk, Option.map_eq_none_iff, List.find?_eq_none] at h ⊢
    intro v hv
    obtain ⟨v₀, hv₀, rfl⟩ := List.mem_map.mp hv
    have := h v₀ hv₀
    split <;> exact this
  | demoDecision =>
    simp only [hk] at h
    exact h
  | pause | backoff => rfl

/-- A decision while no executor is at work: the waits stay and nothing new is asked. -/
theorem Sound.decision {s : St} (hs : Sound s) {r : RunRow} (hst : s.run.status = .approvalRequired)
    (hm : r.mode = s.run.mode) (hw : r.runtime.wait = s.run.runtime.wait)
    (hun : recorded s.run (own s) = none → recorded r (own s) = none)
    (hrec : Records { s with run := requeue s.now r }) : Sound { s with run := requeue s.now r } := by
  have hpc : s.pc = none := by
    by_contra hne
    exact hs.active hne hst
  have hready : Ready s := by
    have hp := hs.phase
    rw [hpc] at hp
    rcases hp with ht | hr
    · rw [hst] at ht
      cases ht
    · exact hr
  have hown : own { s with run := requeue s.now r } = own s := by
    show approvalWait r.mode s.execution = approvalWait s.run.mode s.execution
    rw [hm]
  have hun' : Unasked s → Unasked { s with run := requeue s.now r } := by
    intro hu
    unfold Unasked
    rw [hown]
    exact hun hu
  refine ⟨hrec, fun hne => absurd hpc hne, hs.log, ?_⟩
  show Phase _ s.pc
  rw [hpc]
  refine .inr ⟨hready.1, ?_⟩
  rcases hready.2 with ⟨hi, hwt, hr, hu⟩ | ⟨hi, ⟨p, hp, hctl, hr, hu⟩ | ⟨hp, hn⟩⟩
  · exact .inl ⟨hi, hw.trans hwt, hr, hun' hu⟩
  · exact .inr ⟨hi, .inl ⟨p, hw.trans hp, hctl, hr, hun' hu⟩⟩
  · exact .inr ⟨hi, .inr ⟨(hw.trans hp).trans (congrArg some hown.symm), hn⟩⟩

theorem Sound.setDecision {s : St} (hs : Sound s) (hst : s.run.status = .approvalRequired) (id : WaitId)
    (d : Decision) : Sound { s with run := requeue s.now (setDecision s.run id d) } := by
  refine hs.decision hst rfl rfl (recorded_setDecision _ _ _ _) ⟨?_, hs.records.demo⟩
  intro v hv
  obtain ⟨v₀, hv₀, rfl⟩ := List.mem_map.mp hv
  have := hs.records.approvals v₀ hv₀
  split <;> exact this

theorem Sound.setDemoDecision {s : St} (hs : Sound s) (hst : s.run.status = .approvalRequired) {id : WaitId}
    {d : Decision} (hdd : s.run.runtime.demoDecision = some (id, .pending)) (hd : d = .approved ∨ d = .rejected) :
    Sound { s with run := requeue s.now { s.run with runtime := { s.run.runtime with
      demoDecision := some (id, d) } } } := by
  refine hs.decision hst rfl rfl ?_ ⟨hs.records.approvals, ?_⟩
  · intro h
    unfold recorded at h ⊢
    cases hk : (own s).kind with
    | demoDecision =>
      simp only [hk, hdd, Option.bind_some] at h ⊢
      split at h
      · cases h
      · rename_i hne
        rw [if_neg hne]
    | approval =>
      simp only [hk] at h
      exact h
    | pause | backoff => rfl
  · intro d' hd'
    cases hd'
    exact ⟨(hs.records.demo _ hdd).1, .inr hd⟩

theorem step_sound {s t : St} (a : Act) (hs : Sound s) (hok : AnswersIf s a) (h : step s a = some t) : Sound t := by
  have exec : (s.pc.bind fun pc => execStep s pc a) = some t → Sound t := by
    intro he
    obtain ⟨pc, hpc, he⟩ := Option.bind_eq_some_iff.mp he
    exact execStep_sound hs hpc hok he
  cases a with
  | tick d | enqueue c =>
    cases h
    exact hs.frame ⟨⟨rfl, rfl, rfl, rfl, rfl⟩, rfl, rfl, rfl, rfl, rfl, rfl⟩ rfl rfl id id
  | apply hasReceiver fresh =>
    cases h
    have hk := apply_keeps s.now hasReceiver fresh s.run s.commands
    refine hs.frame ⟨hk.waits, rfl, rfl, rfl, rfl, rfl, rfl⟩ rfl rfl (fun ht => hk.terminal.trans ht) ?_
    intro hst
    rcases hk.moves with hm | hm | hm | hm
    · rw [← hm]
      exact hst
    all_goals
      rw [hst] at hm
      cases hm
  | claim ttl =>
    simp only [step] at h
    split at h
    · rename_i hc
      cases h
      have hpc : s.pc = none := hok.1
      have hp := hs.phase
      rw [hpc] at hp
      have hg : SameGraph s { s with
          run := claimed s.generation s.run
          generation := s.generation + 1
          lease := some (s.now + ttl)
          pc := some .claimed } := ⟨⟨rfl, rfl, rfl, rfl, rfl⟩, rfl, rfl, rfl, rfl, rfl, rfl⟩
      refine ⟨hg.records hs.records, fun _ => by simp [claimed], hs.log, hg.ready ?_⟩
      rcases hp with ht | hr
      · have hcl : s.run.status.claimable = true := by
          have := hc.1
          simp only [claimable, Bool.and_eq_true] at this
          exact this.1.1
        cases hst : s.run.status <;> simp [hst, RunStatus.terminal, RunStatus.claimable] at ht hcl
      · exact hr
    · cases h
  | decideApproval approve =>
    obtain ⟨id, d, -, hst, -, rfl⟩ := decideApproval_spec h
    exact hs.setDecision hst id d
  | decideDemo approve =>
    obtain ⟨id, d, hdd, hst, hd, rfl⟩ := decideDemo_spec h
    exact hs.setDemoDecision hst hdd hd
  | expire corrupt =>
    obtain ⟨hst, rfl | ⟨id, -, rfl⟩⟩ := expireApprovals_spec h
    · have hpc : s.pc = none := by
        by_contra hne
        exact hs.active hne hst
      exact hs.ended rfl rfl rfl hpc rfl rfl
    · exact hs.setDecision hst id .expired
  | reconcile => exact absurd hok.1 id
  | emergencyStop =>
    simp only [step] at h
    split at h
    · rename_i ha
      cases h
      refine hs.frame ⟨⟨rfl, rfl, rfl, rfl, rfl⟩, rfl, rfl, rfl, rfl, rfl, rfl⟩ rfl rfl ?_ ?_
      · intro ht
        rw [RunStatus.active, ht] at ha
        cases ha
      · intro hst
        cases hst
    · cases h
  | _ => exact exec h

/-! ## Each call has its own answer -/

/-- The moves from a claim to the start of the graph. -/
def startMoves : List Act := [.claim 60, .opening, .resume]

/-- A fresh approval node asks, suspends and leaves the run in 'approval_required'. -/
def askMoves : List Act := startMoves ++ [.invoke, .ask none, .interrupt, .closing]

/-- A resumed approval node: `wrap` is answered, then `decide` asks and interrupts. -/
def replayMoves : List Act := startMoves ++ [.invoke, .interrupt, .clear, .ask none, .interrupt]

/-- The run is paused and resumed once while the approval is pending, and then approved. -/
def pausedThenApproved : List Act :=
  askMoves ++ [.enqueue ⟨1, 1, .pause⟩, .apply false id] ++ startMoves ++
    [.enqueue ⟨2, 2, .resume⟩, .apply false id] ++ replayMoves ++ [.closing, .decideApproval true] ++ replayMoves ++
    [.decide, .record, .finish .completed, .closing]

-- A pause at the approval node, resumed before the approval is asked: after the decision `wrap`
-- is given the pause's value for the approval's wait, and the run is blocked.
example : (Steps.run step (init sampleRun .approval)
    (startMoves ++ [.enqueue ⟨1, 1, .pause⟩, .apply false id, .invoke, .interrupt, .closing,
      .enqueue ⟨2, 2, .resume⟩, .apply false id] ++ replayMoves ++ [.closing, .decideApproval true] ++
      startMoves ++ [.invoke, .interrupt, .block])).map (·.run.status) = some .blocked := by decide

end Jarvis.Runtime.Control
