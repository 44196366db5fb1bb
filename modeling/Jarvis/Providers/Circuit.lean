/-
  Jarvis.Providers.Circuit — the circuit breaker of a provider revision
  (`routing/observability.py`: `HealthService`).

  Every call holds the lock of the event counter from its read of the row to its commit, so a
  call is one step, and its clock is read under the lock. The row is that of one revision; a
  revision without a row reads as a row of defaults. The system also keeps what no row says: who
  was granted which version, and the observations that were accepted (`Circuit`). Times are in
  microseconds.

  `currentWindow` says which accepted observations the failure count is about, from the
  observations alone; `Counts` is that the row agrees with it.
-/
import Mathlib.Data.List.Basic
import Mathlib.Tactic.Common
import Jarvis.Lib.Steps

namespace Jarvis.Providers

inductive HealthStatus where
  | healthy
  | degraded
  | unavailable
  | misconfigured
  | unknown
  deriving DecidableEq, Repr

inductive CircuitState where
  | closed
  | opened
  | halfOpen
  deriving DecidableEq, Repr

structure CircuitPolicy where
  failureThreshold : Nat := 3
  cooldownSeconds : Nat := 30
  failureWindowSeconds : Nat := 60
  threshold_range : 1 ≤ failureThreshold ∧ failureThreshold ≤ 100 := by decide
  cooldown_range : 1 ≤ cooldownSeconds ∧ cooldownSeconds ≤ 3600 := by decide
  window_range : 1 ≤ failureWindowSeconds ∧ failureWindowSeconds ≤ 3600 := by decide

/-- `timedelta(seconds=…)`. -/
def seconds (n : Nat) : Nat := n * 1000000

/-- `ProviderHealthModel`. -/
structure ProviderHealth where
  status : HealthStatus := .unknown
  circuitState : CircuitState := .closed
  failureCount : Nat := 0
  windowStartedAt : Option Nat := none
  nextProbeAt : Option Nat := none
  probeLeaseUntil : Option Nat := none
  observedAt : Option Nat := none
  version : Nat := 0
  deriving DecidableEq, Repr

/-- The data of a `model.health_changed` event, without the revision. -/
structure ProviderHealthData where
  status : HealthStatus
  circuitState : CircuitState
  failureCount : Nat
  version : Nat
  deriving DecidableEq, Repr

/-- `HealthService._event`. -/
def ProviderHealth.event (row : ProviderHealth) : ProviderHealthData :=
  ⟨row.status, row.circuitState, row.failureCount, row.version⟩

/-- A time that is set and still to come. -/
def ahead (at? : Option Nat) (now : Nat) : Bool := at?.any (now < ·)

/-- `HealthService.acquire_probe`: the row, the event and the version returned. -/
def acquireProbe (row : ProviderHealth) (policy : CircuitPolicy) (now : Nat) :
    ProviderHealth × List ProviderHealthData × Option Nat :=
  if row.circuitState = .closed then (row, [], some row.version)
  else if row.circuitState = .opened ∧ ahead row.nextProbeAt now then (row, [], none)
  else if row.circuitState = .halfOpen ∧ ahead row.probeLeaseUntil now then (row, [], none)
  else
    let probed := { row with
      circuitState := .halfOpen, probeLeaseUntil := some (now + seconds policy.cooldownSeconds)
      version := row.version + 1 }
    (probed, [probed.event], some probed.version)

/-- The failure window has not begun, or has lapsed. -/
def lapsed (startedAt : Option Nat) (policy : CircuitPolicy) (now : Nat) : Bool :=
  startedAt.all fun started => started + seconds policy.failureWindowSeconds < now

/-- The success branch of `observe`. -/
def ProviderHealth.succeed (row : ProviderHealth) (status : Option HealthStatus) (now : Nat) : ProviderHealth :=
  { row with
    status := status.getD .healthy, circuitState := .closed, failureCount := 0, windowStartedAt := some now
    nextProbeAt := none, probeLeaseUntil := none }

/-- The window a failure falls into. -/
def ProviderHealth.reopenWindow (row : ProviderHealth) (policy : CircuitPolicy) (now : Nat) : ProviderHealth :=
  if lapsed row.windowStartedAt policy now then { row with failureCount := 0, windowStartedAt := some now } else row

/-- The failure branch of `observe`. -/
def ProviderHealth.fail (row : ProviderHealth) (policy : CircuitPolicy) (status : Option HealthStatus) (now : Nat) :
    ProviderHealth :=
  let row := row.reopenWindow policy now
  let row := { row with failureCount := row.failureCount + 1, status := status.getD .degraded }
  if policy.failureThreshold ≤ row.failureCount ∨ row.circuitState = .halfOpen then
    { row with
      circuitState := .opened, status := status.getD .unavailable
      nextProbeAt := some (now + seconds policy.cooldownSeconds), probeLeaseUntil := none }
  else row

/-- The observations that `observe` turns away. -/
def ProviderHealth.refuses (row : ProviderHealth) (probeVersion : Option Nat) (now : Nat) : Bool :=
  (probeVersion.any (row.version ≠ ·)) || row.circuitState == .opened ||
    (row.circuitState == .halfOpen && (probeVersion.isNone || !ahead row.probeLeaseUntil now))

/-- `HealthService.observe`: the row, the event and whether the observation was accepted. -/
def observe (row : ProviderHealth) (policy : CircuitPolicy) (success : Bool) (status : Option HealthStatus)
    (probeVersion : Option Nat) (now : Nat) : ProviderHealth × List ProviderHealthData × Bool :=
  if row.refuses probeVersion now then (row, [], false)
  else
    let seen := if success then row.succeed status now else row.fail policy status now
    let seen := { seen with observedAt := some now, version := seen.version + 1 }
    let changed := (row.status, row.circuitState) ≠ (seen.status, seen.circuitState)
    (seen, if changed then [seen.event] else [], true)

/-! ## The system -/

/-- An accepted observation, with the policy it was judged by. -/
structure Accepted where
  seenAt : Nat
  success : Bool
  policy : CircuitPolicy

structure Circuit where
  row : Option ProviderHealth := none
  events : List ProviderHealthData := []
  clock : Nat := 0
  /-- The clients that `acquire_probe` gave a version, latest first. -/
  granted : List (Nat × Nat) := []
  /-- The accepted observations, latest first. -/
  accepted : List Accepted := []

/-- `HealthService._row`. -/
def Circuit.health (s : Circuit) : ProviderHealth := s.row.getD {}

inductive CircuitAction where
  | acquireProbe (client : Nat) (policy : CircuitPolicy) (now : Nat)
  | observe (client : Nat) (policy : CircuitPolicy) (success : Bool) (status : Option HealthStatus)
      (probeVersion : Option Nat) (now : Nat)
  /-- `RegistryService.validate` writes the status of the row, and no other field of the circuit. -/
  | validated (status : HealthStatus) (now : Nat)

def CircuitAction.now : CircuitAction → Nat
  | .acquireProbe _ _ now => now
  | .observe _ _ _ _ _ now => now
  | .validated _ now => now

def Circuit.perform (s : Circuit) : CircuitAction → Circuit
  | .acquireProbe client policy now =>
    let (row, events, version) := Providers.acquireProbe s.health policy now
    { s with
      row := some row, events := s.events ++ events, clock := now
      granted := (version.map fun v => (client, v)).toList ++ s.granted }
  | .observe _ policy success status probeVersion now =>
    let (row, events, accepted) := Providers.observe s.health policy success status probeVersion now
    { s with
      row := some row, events := s.events ++ events, clock := now
      accepted := (if accepted then [⟨now, success, policy⟩] else []) ++ s.accepted }
  | .validated status now => { s with row := some { s.health with status, observedAt := some now }, clock := now }

/-- A call at a time that is not before the last one's. -/
def Circuit.step (s : Circuit) (a : CircuitAction) : Option Circuit :=
  if s.clock ≤ a.now then some (s.perform a) else none

/-! ## What a call does -/

/-- The row of a probe that `acquire_probe` hands out. -/
def ProviderHealth.probe (row : ProviderHealth) (policy : CircuitPolicy) (now : Nat) : ProviderHealth :=
  { row with
    circuitState := .halfOpen, probeLeaseUntil := some (now + seconds policy.cooldownSeconds)
    version := row.version + 1 }

theorem acquireProbe_cases (row : ProviderHealth) (policy : CircuitPolicy) (now : Nat) :
    (row.circuitState = .closed ∧ acquireProbe row policy now = (row, [], some row.version)) ∨
    (row.circuitState ≠ .closed ∧ acquireProbe row policy now = (row, [], none)) ∨
    (row.circuitState ≠ .closed ∧ (row.circuitState = .opened → ahead row.nextProbeAt now = false) ∧
      (row.circuitState = .halfOpen → ahead row.probeLeaseUntil now = false) ∧
      acquireProbe row policy now = (row.probe policy now, [(row.probe policy now).event], some (row.version + 1))) := by
  unfold acquireProbe
  by_cases hclosed : row.circuitState = .closed
  · exact .inl ⟨hclosed, by rw [if_pos hclosed]⟩
  rw [if_neg hclosed]
  by_cases hopen : row.circuitState = .opened ∧ ahead row.nextProbeAt now
  · exact .inr (.inl ⟨hclosed, by rw [if_pos hopen]⟩)
  rw [if_neg hopen]
  by_cases hhalf : row.circuitState = .halfOpen ∧ ahead row.probeLeaseUntil now
  · exact .inr (.inl ⟨hclosed, by rw [if_pos hhalf]⟩)
  rw [if_neg hhalf]
  exact .inr (.inr ⟨hclosed, by simpa using hopen, by simpa using hhalf, rfl⟩)

/-- The row after an accepted observation. -/
def ProviderHealth.take (row : ProviderHealth) (policy : CircuitPolicy) (success : Bool) (status : Option HealthStatus)
    (now : Nat) : ProviderHealth :=
  let seen := if success then row.succeed status now else row.fail policy status now
  { seen with observedAt := some now, version := seen.version + 1 }

theorem observe_refused {row : ProviderHealth} {probeVersion : Option Nat} {now : Nat}
    (h : row.refuses probeVersion now = true) (policy : CircuitPolicy) (success : Bool) (status : Option HealthStatus) :
    observe row policy success status probeVersion now = (row, [], false) := if_pos h

theorem observe_accepted {row : ProviderHealth} {probeVersion : Option Nat} {now : Nat}
    (h : row.refuses probeVersion now = false) (policy : CircuitPolicy) (success : Bool) (status : Option HealthStatus) :
    ∃ events, observe row policy success status probeVersion now = (row.take policy success status now, events, true) := by
  have hnot : ¬ row.refuses probeVersion now = true := by simp [h]
  exact ⟨_, if_neg hnot⟩

/-- What an accepted observation is: one of a closed circuit, or the probe's while its lease lasts;
    and any version it carries is the row's. -/
theorem refuses_eq_false {row : ProviderHealth} {probeVersion : Option Nat} {now : Nat} :
    row.refuses probeVersion now = false ↔
      (∀ version ∈ probeVersion, version = row.version) ∧
      (row.circuitState = .closed ∨
        row.circuitState = .halfOpen ∧ probeVersion = some row.version ∧ ahead row.probeLeaseUntil now = true) := by
  unfold ProviderHealth.refuses
  rcases hstate : row.circuitState <;> rcases probeVersion with _ | version <;> simp <;> grind

variable (row : ProviderHealth) (policy : CircuitPolicy) (status : Option HealthStatus) (now : Nat)

@[simp] theorem reopenWindow_circuitState : (row.reopenWindow policy now).circuitState = row.circuitState := by
  unfold ProviderHealth.reopenWindow
  split <;> rfl

@[simp] theorem reopenWindow_version : (row.reopenWindow policy now).version = row.version := by
  unfold ProviderHealth.reopenWindow
  split <;> rfl

@[simp] theorem fail_version : (row.fail policy status now).version = row.version := by
  unfold ProviderHealth.fail
  simp only
  split <;> simp

@[simp] theorem fail_failureCount : (row.fail policy status now).failureCount = (row.reopenWindow policy now).failureCount + 1 := by
  unfold ProviderHealth.fail
  simp only
  split <;> rfl

@[simp] theorem fail_windowStartedAt : (row.fail policy status now).windowStartedAt = (row.reopenWindow policy now).windowStartedAt := by
  unfold ProviderHealth.fail
  simp only
  split <;> rfl

/-- A failure opens a half-open circuit, and a closed one when the count reaches the threshold. -/
theorem fail_circuitState : (row.fail policy status now).circuitState =
    if policy.failureThreshold ≤ (row.fail policy status now).failureCount ∨ row.circuitState = .halfOpen then .opened
    else row.circuitState := by
  rw [fail_failureCount]
  unfold ProviderHealth.fail
  simp only [reopenWindow_circuitState]
  split <;> simp

theorem fail_nextProbeAt (h : (row.fail policy status now).circuitState = .opened) (hrow : row.circuitState ≠ .opened) :
    (row.fail policy status now).nextProbeAt = some (now + seconds policy.cooldownSeconds) := by
  revert h
  unfold ProviderHealth.fail
  simp only [reopenWindow_circuitState]
  split
  · intro _
    rfl
  · intro h
    exact absurd h (by simpa using hrow)

theorem take_version (success : Bool) : (row.take policy success status now).version = row.version + 1 := by
  cases success <;> simp [ProviderHealth.take, ProviderHealth.succeed]

/-- An accepted observation leaves no circuit half open. -/
theorem take_ne_halfOpen (success : Bool) : (row.take policy success status now).circuitState ≠ .halfOpen := by
  cases success with
  | true => simp [ProviderHealth.take, ProviderHealth.succeed]
  | false =>
    simp only [ProviderHealth.take, Bool.false_eq_true, if_false]
    rw [fail_circuitState]
    split
    · simp
    · rename_i h
      exact fun hhalf => h (.inr hhalf)

/-! ## The window of the failures -/

/-- The accepted observations of the current window, latest first. A success restarts it, and so
    does the first failure after it has lapsed. -/
def currentWindow : List Accepted → List Accepted
  | [] => []
  | seen :: before =>
    if seen.success then [seen]
    else
      match (currentWindow before).getLast? with
      | none => [seen]
      | some first =>
        if first.seenAt + seconds seen.policy.failureWindowSeconds < seen.seenAt then [seen]
        else seen :: currentWindow before

def failures (seen : List Accepted) : Nat := seen.countP fun o => !o.success

theorem currentWindow_success {seen : Accepted} (before : List Accepted) (h : seen.success = true) :
    currentWindow (seen :: before) = [seen] := by
  unfold currentWindow
  rw [if_pos h]

theorem currentWindow_failure {seen : Accepted} (before : List Accepted) (h : seen.success = false) :
    currentWindow (seen :: before) = match (currentWindow before).getLast? with
      | none => [seen]
      | some first =>
        if first.seenAt + seconds seen.policy.failureWindowSeconds < seen.seenAt then [seen]
        else seen :: currentWindow before := by
  conv => lhs; unfold currentWindow
  rw [if_neg (by simp [h])]

/-- The row has the failures and the start of the current window. -/
def Counts (row : ProviderHealth) (seen : List Accepted) : Prop :=
  row.failureCount = failures (currentWindow seen) ∧
    row.windowStartedAt = (currentWindow seen).getLast?.map Accepted.seenAt

theorem Counts.succeed {row : ProviderHealth} {policy : CircuitPolicy} {status : Option HealthStatus} {now : Nat}
    {seen : List Accepted} : Counts (row.take policy true status now) (⟨now, true, policy⟩ :: seen) := by
  rw [Counts, currentWindow_success seen rfl]
  exact ⟨rfl, rfl⟩

/-- A window is kept until it lapses. -/
theorem reopenWindow_of_started {row : ProviderHealth} {started : Nat} (policy : CircuitPolicy) (now : Nat)
    (h : row.windowStartedAt = some started) : row.reopenWindow policy now =
      if started + seconds policy.failureWindowSeconds < now then { row with failureCount := 0, windowStartedAt := some now }
      else row := by
  rw [ProviderHealth.reopenWindow, lapsed, h, Option.all_some]
  simp only [decide_eq_true_eq]

theorem Counts.fail {row : ProviderHealth} {seen : List Accepted} (h : Counts row seen) (policy : CircuitPolicy)
    (status : Option HealthStatus) (now : Nat) :
    Counts (row.take policy false status now) (⟨now, false, policy⟩ :: seen) := by
  obtain ⟨hcount, hstart⟩ := h
  rw [Counts, ProviderHealth.take, if_neg Bool.false_ne_true, fail_failureCount, fail_windowStartedAt,
    currentWindow_failure seen rfl]
  rcases hfirst : (currentWindow seen).getLast? with _ | first
  · rw [hfirst] at hstart
    have hopen : row.reopenWindow policy now = { row with failureCount := 0, windowStartedAt := some now } := by
      rw [ProviderHealth.reopenWindow, lapsed, hstart]
      rfl
    rw [hopen]
    exact ⟨rfl, rfl⟩
  · rw [hfirst] at hstart
    rw [reopenWindow_of_started policy now hstart]
    by_cases hlapsed : first.seenAt + seconds policy.failureWindowSeconds < now
    · simp only [if_pos hlapsed]
      exact ⟨rfl, rfl⟩
    · simp only [if_neg hlapsed]
      rw [hcount, hstart, List.getLast?_cons, hfirst]
      exact ⟨by simp [failures], rfl⟩

/-! ## What holds in every run -/

/-- The grants that still are the current version. -/
def Circuit.current (s : Circuit) : List (Nat × Nat) := s.granted.filter fun grant => grant.2 = s.health.version

/-- The probes that would be heard at a time: the current version of a half-open circuit, leased. -/
def Circuit.validProbes (s : Circuit) (now : Nat) : List (Nat × Nat) :=
  if s.health.circuitState = .halfOpen ∧ ahead s.health.probeLeaseUntil now then s.current else []

structure Circuit.Inv (s : Circuit) : Prop where
  counts : Counts s.health s.accepted
  scheduled : s.health.circuitState = .opened → s.health.nextProbeAt.isSome
  granted_le : ∀ grant ∈ s.granted, grant.2 ≤ s.health.version
  sole : s.health.circuitState = .halfOpen → s.current.length ≤ 1

theorem Circuit.Inv.init : Circuit.Inv {} := by
  constructor <;> simp [Counts, Circuit.health, currentWindow, failures]

theorem Circuit.Inv.acquireProbe {s : Circuit} (h : s.Inv) (client : Nat) (policy : CircuitPolicy) (now : Nat) :
    (s.perform (.acquireProbe client policy now)).Inv := by
  obtain ⟨hclosed, heq⟩ | ⟨-, heq⟩ | ⟨-, -, -, heq⟩ := acquireProbe_cases s.health policy now
  · -- a closed circuit grants its version as often as it is asked
    simp only [Circuit.perform, heq]
    refine ⟨h.counts, h.scheduled, ?_, fun hhalf => absurd (hclosed.symm.trans hhalf) (by decide)⟩
    intro grant hgrant
    rcases List.mem_cons.mp hgrant with rfl | hgrant
    · exact Nat.le_refl _
    · exact h.granted_le grant hgrant
  · simp only [Circuit.perform, heq]
    exact ⟨h.counts, h.scheduled, h.granted_le, h.sole⟩
  · simp only [Circuit.perform, heq]
    refine ⟨h.counts, fun hopen => absurd hopen (by simp [Circuit.health, ProviderHealth.probe]), ?_, fun _ => ?_⟩
    · intro grant hgrant
      rcases List.mem_cons.mp hgrant with rfl | hgrant
      · exact Nat.le_refl _
      · have := h.granted_le grant hgrant
        simp only [Circuit.health, Option.getD_some, ProviderHealth.probe]
        simp only [Circuit.health] at this
        omega
    · -- the version is new, so the grant is the only one of it
      have hnone : s.granted.filter (fun grant => grant.2 = s.health.version + 1) = [] := by
        refine List.filter_eq_nil_iff.mpr fun grant hgrant => ?_
        have := h.granted_le grant hgrant
        simp only [decide_eq_true_eq]
        omega
      have hcons : Circuit.current { s with
          row := some (s.health.probe policy now), events := s.events ++ [(s.health.probe policy now).event], clock := now
          granted := (client, s.health.version + 1) :: s.granted } = [(client, s.health.version + 1)] := by
        change List.filter (fun grant : Nat × Nat => grant.2 = s.health.version + 1) (_ :: _) = _
        rw [List.filter_cons_of_pos (by simp), hnone]
      exact Nat.le_of_eq (congrArg List.length hcons)

theorem Circuit.Inv.observe {s : Circuit} (h : s.Inv) (client : Nat) (policy : CircuitPolicy) (success : Bool)
    (status : Option HealthStatus) (probeVersion : Option Nat) (now : Nat) :
    (s.perform (.observe client policy success status probeVersion now)).Inv := by
  by_cases hrefused : s.health.refuses probeVersion now = true
  · simp only [Circuit.perform, observe_refused hrefused]
    exact ⟨h.counts, h.scheduled, h.granted_le, h.sole⟩
  have hrefused : s.health.refuses probeVersion now = false := by simpa using hrefused
  obtain ⟨events, heq⟩ := observe_accepted hrefused policy success status
  have hversion := take_version s.health policy status now success
  simp only [Circuit.perform, heq]
  refine ⟨?_, fun hopen => ?_, fun grant hgrant => ?_, fun hhalf => ?_⟩
  · cases success with
    | true => exact Counts.succeed
    | false => exact Counts.fail h.counts policy status now
  · cases success with
    | true => exact absurd hopen (by simp [Circuit.health, ProviderHealth.take, ProviderHealth.succeed])
    | false =>
      -- only a closed or half-open circuit takes a failure, so it was opened just now
      have hwas : s.health.circuitState ≠ .opened := by
        rcases (refuses_eq_false.mp hrefused).2 with hclosed | ⟨hhalf, -⟩ <;> simp_all
      exact Option.isSome_iff_exists.mpr ⟨_, fail_nextProbeAt s.health policy status now hopen hwas⟩
  · have := h.granted_le grant hgrant
    change grant.2 ≤ (s.health.take policy success status now).version
    omega
  · exact absurd hhalf (take_ne_halfOpen s.health policy status now success)

theorem Circuit.Inv.step {s t : Circuit} {a : CircuitAction} (h : s.Inv) (hstep : s.step a = some t) : t.Inv := by
  unfold Circuit.step at hstep
  split at hstep
  · cases hstep
    cases a with
    | acquireProbe client policy now => exact h.acquireProbe client policy now
    | observe client policy success status probeVersion now => exact h.observe client policy success status probeVersion now
    | validated status now => exact ⟨h.counts, h.scheduled, h.granted_le, h.sole⟩
  · cases hstep

theorem Circuit.inv_of_reach {s : Circuit} (h : Steps.Reach Circuit.step {} s) : s.Inv :=
  h.invariant Circuit.Inv Circuit.Inv.init fun _ _ _ hs _ hstep => hs.step hstep

/-! ## The protocol -/

/-- An open circuit waits for its probe time. -/
theorem halfOpen_of_opened {s t : Circuit} {a : CircuitAction} (h : s.Inv) (hstep : s.step a = some t)
    (hopen : s.health.circuitState = .opened) (hleft : t.health.circuitState ≠ .opened) :
    t.health.circuitState = .halfOpen ∧ ∃ probeAt ∈ s.health.nextProbeAt, probeAt ≤ a.now := by
  unfold Circuit.step at hstep
  split at hstep
  case isFalse => cases hstep
  cases hstep
  cases a with
  | acquireProbe client policy now =>
    obtain ⟨-, heq⟩ | ⟨-, heq⟩ | ⟨-, hdue, -, heq⟩ := acquireProbe_cases s.health policy now
    · simp only [Circuit.perform, heq] at hleft
      exact absurd hopen hleft
    · simp only [Circuit.perform, heq] at hleft
      exact absurd hopen hleft
    · obtain ⟨probeAt, hprobeAt⟩ := Option.isSome_iff_exists.mp (h.scheduled hopen)
      have hdue := hdue hopen
      simp only [Circuit.perform, heq]
      refine ⟨rfl, probeAt, hprobeAt, ?_⟩
      simpa [ahead, hprobeAt, CircuitAction.now] using hdue
  | observe client policy success status probeVersion now =>
    have hrefused : s.health.refuses probeVersion now = true := by simp [ProviderHealth.refuses, hopen]
    simp only [Circuit.perform, observe_refused hrefused] at hleft
    exact absurd hopen hleft
  | validated status now => exact absurd hopen hleft

/-- A half-open circuit closes on the report of its probe alone. -/
theorem closed_of_halfOpen {s t : Circuit} {a : CircuitAction} (hstep : s.step a = some t)
    (hhalf : s.health.circuitState = .halfOpen) (hclosed : t.health.circuitState = .closed) :
    ∃ client policy status, a = .observe client policy true status (some s.health.version) a.now ∧
      ahead s.health.probeLeaseUntil a.now = true := by
  unfold Circuit.step at hstep
  split at hstep
  case isFalse => cases hstep
  cases hstep
  cases a with
  | acquireProbe client policy now =>
    obtain ⟨hwas, -⟩ | ⟨hwas, heq⟩ | ⟨-, -, -, heq⟩ := acquireProbe_cases s.health policy now
    · exact absurd (hwas.symm.trans hhalf) (by decide)
    · simp only [Circuit.perform, heq] at hclosed
      exact absurd hclosed hwas
    · simp only [Circuit.perform, heq] at hclosed
      cases hclosed
  | observe client policy success status probeVersion now =>
    by_cases hrefused : s.health.refuses probeVersion now = true
    · simp only [Circuit.perform, observe_refused hrefused] at hclosed
      exact absurd (hhalf.symm.trans hclosed) (by decide)
    obtain ⟨-, hwas | ⟨-, hversion, hlease⟩⟩ := refuses_eq_false.mp (Bool.eq_false_iff.mpr hrefused)
    · exact absurd (hwas.symm.trans hhalf) (by decide)
    obtain ⟨events, heq⟩ := observe_accepted (Bool.eq_false_iff.mpr hrefused) policy success status
    cases success with
    | true => exact ⟨client, policy, status, by rw [hversion]; rfl, hlease⟩
    | false =>
      simp only [Circuit.perform, heq] at hclosed
      change (s.health.fail policy status now).circuitState = .closed at hclosed
      rw [fail_circuitState, if_pos (.inr hhalf)] at hclosed
      cases hclosed
  | validated status now => exact absurd (hhalf.symm.trans hclosed) (by decide)

theorem validProbes_length_le_one {s : Circuit} (h : s.Inv) (now : Nat) : (s.validProbes now).length ≤ 1 := by
  unfold Circuit.validProbes
  split
  · rename_i hhalf
    exact h.sole hhalf.1
  · exact Nat.zero_le 1

/-- An observation of another version than the row's is refused, and writes nothing. -/
theorem stale_unchanged {s t : Circuit} {client : Nat} {policy : CircuitPolicy} {success : Bool}
    {status : Option HealthStatus} {version now : Nat}
    (hstep : s.step (.observe client policy success status (some version) now) = some t)
    (hstale : version ≠ s.health.version) : t.health = s.health ∧ t.events = s.events ∧ t.accepted = s.accepted := by
  have hrefused : s.health.refuses (some version) now = true := by
    have hne : s.health.version ≠ version := fun h => hstale h.symm
    simp [ProviderHealth.refuses, hne]
  unfold Circuit.step at hstep
  split at hstep
  · cases hstep
    simp only [Circuit.perform, observe_refused hrefused]
    exact ⟨rfl, List.append_nil _, rfl⟩
  · cases hstep

/-- An accepted failure opens the circuit when it is the probe's, or when the window is full. -/
theorem opened_iff_of_failure {s t : Circuit} (h : s.Inv) {client : Nat} {policy : CircuitPolicy}
    {status : Option HealthStatus} {probeVersion : Option Nat} {now : Nat}
    (hstep : s.step (.observe client policy false status probeVersion now) = some t)
    (haccepted : t.accepted ≠ s.accepted) :
    t.accepted = ⟨now, false, policy⟩ :: s.accepted ∧
      (t.health.circuitState = .opened ↔
        s.health.circuitState = .halfOpen ∧ probeVersion = some s.health.version ∧
            ahead s.health.probeLeaseUntil now = true ∨
          policy.failureThreshold ≤ failures (currentWindow t.accepted)) := by
  have hnext := h.step hstep
  unfold Circuit.step at hstep
  split at hstep
  case isFalse => cases hstep
  cases hstep
  by_cases hrefused : s.health.refuses probeVersion now = true
  · simp only [Circuit.perform, observe_refused hrefused] at haccepted
    exact absurd rfl haccepted
  obtain ⟨events, heq⟩ := observe_accepted (Bool.eq_false_iff.mpr hrefused) policy false status
  have hkind := (refuses_eq_false.mp (Bool.eq_false_iff.mpr hrefused)).2
  simp only [Circuit.perform, heq] at hnext ⊢
  refine ⟨rfl, ?_⟩
  rw [← hnext.counts.1]
  change (s.health.fail policy status now).circuitState = .opened ↔
    _ ∨ policy.failureThreshold ≤ (s.health.fail policy status now).failureCount
  rw [fail_circuitState]
  constructor
  · intro hopen
    split at hopen
    · rename_i hwhy
      rcases hwhy with hfull | hhalf
      · exact .inr hfull
      · rcases hkind with hclosed | hprobe
        · exact absurd (hclosed.symm.trans hhalf) (by decide)
        · exact .inl hprobe
    · rcases hkind with hclosed | ⟨hhalf, -⟩
      · exact absurd (hclosed.symm.trans hopen) (by decide)
      · exact absurd (hhalf.symm.trans hopen) (by decide)
  · rintro (⟨hhalf, -⟩ | hfull)
    · rw [if_pos (.inr hhalf)]
    · rw [if_pos (.inl hfull)]

/-- The protocol, over every run of calls by any clients. -/
theorem circuit_protocol {s t : Circuit} {a : CircuitAction} (hs : Steps.Reach Circuit.step {} s)
    (hstep : s.step a = some t) :
    (∀ now, (s.validProbes now).length ≤ 1) ∧
    (s.health.circuitState = .opened → t.health.circuitState ≠ .opened →
      t.health.circuitState = .halfOpen ∧ ∃ probeAt ∈ s.health.nextProbeAt, probeAt ≤ a.now) ∧
    (s.health.circuitState = .halfOpen → t.health.circuitState = .closed →
      ∃ client policy status, a = .observe client policy true status (some s.health.version) a.now ∧
        ahead s.health.probeLeaseUntil a.now = true) ∧
    (∀ client policy success status version now,
      a = .observe client policy success status (some version) now → version ≠ s.health.version →
      t.health = s.health ∧ t.events = s.events ∧ t.accepted = s.accepted) ∧
    (∀ client policy status probeVersion now,
      a = .observe client policy false status probeVersion now → t.accepted ≠ s.accepted →
      t.accepted = ⟨now, false, policy⟩ :: s.accepted ∧
        (t.health.circuitState = .opened ↔
          s.health.circuitState = .halfOpen ∧ probeVersion = some s.health.version ∧
              ahead s.health.probeLeaseUntil now = true ∨
            policy.failureThreshold ≤ failures (currentWindow t.accepted))) := by
  have hinv := Circuit.inv_of_reach hs
  refine ⟨validProbes_length_le_one hinv, halfOpen_of_opened hinv hstep, closed_of_halfOpen hstep, ?_, ?_⟩
  · rintro client policy success status version now rfl hstale
    exact stale_unchanged hstep hstale
  · rintro client policy status probeVersion now rfl haccepted
    exact opened_iff_of_failure hinv hstep haccepted

/-- Three failures, a probe after the cooldown, and its report. -/
theorem circuit_protocol_probe : ∃ s t : Circuit, Steps.Reach Circuit.step {} s ∧
    s.step (.observe 1 {} true none (some 4) (seconds 40)) = some t ∧
    s.health.circuitState = .halfOpen ∧ s.validProbes (seconds 40) = [(1, 4)] ∧ t.health.circuitState = .closed ∧
    (s.validProbes (seconds 40)).length ≤ 1 := by
  have h : (Steps.run Circuit.step {} [.observe 1 {} false none none (seconds 1), .observe 2 {} false none none (seconds 2),
      .observe 1 {} false none none (seconds 3), .acquireProbe 2 {} (seconds 20), .acquireProbe 1 {} (seconds 35),
      .acquireProbe 2 {} (seconds 36)]).any (fun s =>
        (s.step (.observe 1 {} true none (some 4) (seconds 40))).any fun t =>
          decide (s.health.circuitState = .halfOpen ∧ s.validProbes (seconds 40) = [(1, 4)] ∧
            t.health.circuitState = .closed)) = true := by decide +kernel
  obtain ⟨s, hs, h⟩ := (Option.any_eq_true _ _).mp h
  obtain ⟨t, ht, h⟩ := (Option.any_eq_true _ _).mp h
  obtain ⟨hhalf, hvalid, hclosed⟩ := of_decide_eq_true h
  exact ⟨s, t, Steps.run_reach _ hs, ht, hhalf, hvalid, hclosed,
    (circuit_protocol (Steps.run_reach _ hs) ht).1 (seconds 40)⟩

end Jarvis.Providers
