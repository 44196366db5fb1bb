/-
  Jarvis.Executors.Authority — `StaleExecutorError` against the authority of the executor that
  raises it.

  Three things raise it: `fenced`, when the run fence is refused, and the checks of a slot
  lease and of an integration lease, which are made under an accepted run fence. The worker's
  adapter answers the first loss of a slot lease itself (`keep`) and `integrate` the loss that
  its `finally` meets (`giveBack`); the other checks let the exception go through the node to
  `execute`, which takes it for the loss of the run.

  `Safe` says of a program that it raises the exception for a refused run fence only, as long
  as what its transactions rely on is there, and that it leaves every failed node execution
  its row of `failures`. Here it is proved of the adapters.
-/
import Jarvis.Executors.Service
import Jarvis.Runtime.Fencing

namespace Jarvis.Executors

open Steps
open Jarvis.Runtime (RunFence RecoveryRow)
open Jarvis.Runtime.Ownership (fencedAccepts saverAccepts leaseValid runOf unreleased leaseValid_spec)
open Workers.Capacity (WorkerSlotFence SlotError)
open Integration (IntegrationFence LeaseError)

/-! ## What is kept -/

/-- Every node execution that failed has a row of `failures`. -/
def Classified (rows : Rows) : Prop :=
  ∀ n ∈ rows.nodes, ∀ update, n.result = some update → update.failureClass ≠ none → ∃ f ∈ rows.failures, f.nodeExecution = n.id

/-- What a transaction relies on is there, if its run fence is accepted. -/
def Holds (check : RunFence × Check) (db : Db) : Prop :=
  fencedAccepts db.own check.1 = true → check.2.live db.rows check.1 db.own.now = true

/-- The exception is `StaleExecutorError` for a refused run fence only. -/
def Raised.Authorized (e : Raised) : Prop := e ≠ .stale false

abbrev Safe {α : Type} (p : Program α) : Prop :=
  p.Meets (fun db => Classified db.rows) Holds (fun _ => True) Raised.Authorized

section Rules

variable {α β : Type} {p : Program α}

theorem Safe.bind {k : α → Program β} (h : Safe p) (hk : ∀ v, Safe (k v)) : Safe (p >>= k) :=
  Coroutine.Meets.bind h fun v _ => hk v

theorem safe_pure (v : α) : Safe (pure v : Program α) := trivial

theorem safe_ask (q : Query) : Safe (ask q) := fun _ => trivial

theorem safe_raise {e : Raised} (h : e.Authorized) : Safe (raise e : Program α) := h

theorem External.authorized (e : External) : e.val.Authorized := by
  intro h
  have := e.property
  rw [h] at this
  cases this

theorem safe_attempt (r : Except External α) : Safe (attempt r) := by
  cases r with
  | ok v => trivial
  | error e => exact e.authorized

theorem Safe.loop {body : Program (Option α)} (h : Safe body) (n : Nat) : Safe (.loop n body : Program α) :=
  Coroutine.Meets.loop (h.mono (fun _ _ _ _ => trivial) fun _ he => he) n

theorem Safe.catch_ {k : Raised → Program α} (h : Safe p) (hk : ∀ e, e.Authorized → Safe (k e)) : Safe (.catch_ p k : Program α) :=
  Coroutine.Meets.catch_ h hk

/-! ## Transactions -/

/-- A body that leaves the node executions and the failures as they are. -/
def Sound (s : Session) : Except Raised (Session × α) → Prop
  | .ok (t, _) => t.rows.nodes = s.rows.nodes ∧ t.rows.failures = s.rows.failures
  | .error e => e.Authorized

@[simp] theorem sound_ok {s t : Session} {v : α} :
    Sound s (.ok (t, v)) ↔ t.rows.nodes = s.rows.nodes ∧ t.rows.failures = s.rows.failures := Iff.rfl

@[simp] theorem sound_error {s : Session} {e : Raised} : Sound s (.error e : Except Raised (Session × α)) ↔ e ≠ .stale false := Iff.rfl

/-- A body that keeps the record of failures. -/
def Recording (post : α → Prop) (err : Raised → Prop) (s : Session) : Except Raised (Session × α) → Prop
  | .ok (t, v) => (Classified s.rows → Classified t.rows) ∧ post v
  | .error e => err e

theorem Sound.recording {s : Session} {r : Except Raised (Session × α)} (h : Sound s r) :
    Recording (fun _ => True) Raised.Authorized s r := by
  cases r with
  | error e => exact h
  | ok r =>
    refine ⟨fun hc n hn => ?_, trivial⟩
    rw [h.1] at hn
    rw [h.2]
    exact hc n hn

theorem meets_atomically {check : RunFence × Check} {body : Db → Except Raised (Db × α)} {post : α → Prop} {err : Raised → Prop}
    (hok : ∀ db, Classified db.rows → Holds check db → ∀ db' v, body db = .ok (db', v) → Classified db'.rows ∧ post v)
    (herr : ∀ db, Classified db.rows → Holds check db → ∀ e, body db = .error e → err e) :
    (atomically check body).Meets (fun db => Classified db.rows) Holds post err := by
  intro db hc hh
  dsimp only
  cases hbody : body db with
  | ok r => exact hok db hc hh r.1 r.2 hbody
  | error e => exact ⟨hc, herr db hc hh e hbody⟩

/-- Only a refused run fence makes `fenced` itself raise. -/
theorem meets_fenced {x : Executor} {check : Check} {body : Session → Except Raised (Session × α)} {post : α → Prop}
    {err : Raised → Prop} (hlost : err (.stale true))
    (h : ∀ s, check.live s.rows x.fence s.now = true → Recording post err s (body s)) :
    (x.fenced check body).Meets (fun db => Classified db.rows) Holds post err := by
  refine meets_atomically (fun db hc hh db' v hok => ?_) fun db hc hh e he => ?_
  · unfold inSession at hok
    split at hok
    · rename_i ha
      split at hok
      · rename_i run l _ _
        have hb := h ⟨db.own.now, ⟨x.fence, run, l⟩, db.rows⟩ (hh ha)
        split at hok
        · rename_i hbody
          cases hok
          rw [hbody] at hb
          exact ⟨hb.1 hc, hb.2⟩
        · cases hok
      · cases hok
    · cases hok
  · unfold inSession at he
    split at he
    · rename_i ha
      obtain ⟨run, l, hrun, hl, -⟩ := leaseValid_spec (Bool.and_eq_true_iff.mp ha).1
      have hb := h ⟨db.own.now, ⟨x.fence, run, l⟩, db.rows⟩ (hh ha)
      simp only [hrun, hl] at he
      split at he
      · cases he
      · rename_i hbody
        cases he
        rw [hbody] at hb
        exact hb
    · cases he
      exact hlost

theorem safe_recording {x : Executor} {check : Check} {body : Session → Except Raised (Session × α)}
    (h : ∀ s, check.live s.rows x.fence s.now = true → Recording (fun _ => True) Raised.Authorized s (body s)) :
    Safe (x.fenced check body) := meets_fenced nofun h

theorem safe_fenced {x : Executor} {check : Check} {body : Session → Except Raised (Session × α)}
    (h : ∀ s, check.live s.rows x.fence s.now = true → Sound s (body s)) : Safe (x.fenced check body) :=
  safe_recording fun s hs => (h s hs).recording

theorem safe_read (x : Executor) (f : Session → α) : Safe (x.read f) := safe_fenced fun _ _ => ⟨rfl, rfl⟩

end Rules

/-! ## Worker slots -/

open Workers.Capacity in
theorem insertSlots_error : ∀ {rows slots : List WorkerSlot} {e : SlotError}, insertSlots slots rows = .error e → e = .duplicateRow
  | [], _, _, h => by cases h
  | _ :: _, _, _, h => by
    unfold insertSlots at h
    split at h
    · exact insertSlots_error h
    · cases h
      rfl

open Workers.Capacity in
theorem scan_error {t : Tables} {a : Acquisition} : ∀ {slots : List WorkerSlot} {e : SlotError},
    t.scan a slots = .error e → e = .capacityUnavailable
  | [], _, h => by
    cases h
    rfl
  | _ :: _, _, h => by
    unfold Tables.scan at h
    split at h
    · exact scan_error h
    split at h
    · split at h
      · cases h
      · exact scan_error h
    · cases h

open Workers.Capacity in
theorem acquire_ne_stale (t : Tables) (a : Acquisition) : t.acquire a ≠ .error .stale := by
  intro h
  unfold Tables.acquire at h
  split at h
  · split at h
    · cases h
    split at h
    · cases h
    simp only at h
    split at h
    · rename_i e hreg
      cases h
      unfold Tables.register at hreg
      simp only at hreg
      split at hreg
      · rename_i hins
        cases hreg
        cases insertSlots_error hins
      · cases hreg
    · cases scan_error h
  · cases h

namespace WorkerSlots

theorem raised_authorized {e : SlotError} (h : e ≠ .stale) : (raised e).Authorized := by
  intro he
  cases e with
  | stale => exact h rfl
  | _ => cases he

theorem sound_settle {α β : Type} {s : Session} {tables : α → Workers.Capacity.Tables} {value : α → β}
    {r : Except SlotError α} (h : r ≠ .error .stale) : Sound s (settle s tables value r) := by
  cases r with
  | ok a => exact ⟨rfl, rfl⟩
  | error e => exact raised_authorized fun he => h (he ▸ rfl)

theorem safe_acquire (x : Executor) (spec : Workers.Capacity.WorkerSpec) (request : WorkerRequest) :
    Safe (acquire x spec request) := safe_fenced fun _ _ => sound_settle (acquire_ne_stale _ _)

theorem safe_renew (x : Executor) (lease : WorkerSlotFence) : Safe (renew x lease) := by
  refine safe_fenced fun s hs => sound_settle fun h => ?_
  have hrequire : s.rows.workers.require x.fence s.now lease = true := hs
  rw [Workers.Capacity.Tables.renew, if_pos hrequire] at h
  cases h

theorem safe_require (x : Executor) (lease : WorkerSlotFence) :
    Safe (x.fenced (.slot lease) fun s => (require x lease s).map fun _ => (s, ())) := by
  refine safe_fenced fun s hs => ?_
  have hrequire : s.rows.workers.require x.fence s.now lease = true := hs
  rw [require, if_pos hrequire]
  exact ⟨rfl, rfl⟩

theorem safe_release (x : Executor) (lease : WorkerSlotFence) : Safe (release x lease) := by
  refine safe_fenced fun s hs => sound_settle fun h => ?_
  obtain ⟨row, hrow, hid⟩ := (Option.any_eq_true _ _).mp hs
  simp only [Bool.and_eq_true, decide_eq_true_eq] at hid
  simp only [Workers.Capacity.Tables.release, hrow, hid.1, hid.2, ne_eq, not_true_eq_false, or_self, if_false,
    Bool.not_true, Bool.false_eq_true] at h
  split at h <;> cases h

end WorkerSlots

/-! ## The worker's adapter -/

theorem safe_service (x : Executor) : Safe x.service := by
  refine Safe.loop ((safe_ask .service).bind fun (r : Service) => ?_) _
  cases r with
  | returns => exact safe_pure _
  | raises e => exact safe_raise e.authorized
  | transaction artifact =>
    refine safe_fenced fun s _ => ?_
    cases artifact <;> exact ⟨rfl, rfl⟩

namespace WorkerEffectAdapter

theorem safe_load (x : Executor) (identity : Identity) : Safe (load x identity) := safe_read x _

theorem safe_renewing {α : Type} {x : Executor} {lease : WorkerSlotFence} {work : Program α} (h : Safe work) :
    Safe (renewing x lease work) := Coroutine.Meets.alongside h (WorkerSlots.safe_renew x lease)

theorem safe_awaitAdmission (x : Executor) : Safe (awaitAdmission x) := by
  refine Safe.loop ((safe_ask .admitted).bind fun (admitted : Bool) => (safe_read x _).bind fun cancelled => ?_) _
  split
  · exact safe_raise nofun
  · exact safe_pure _

theorem safe_awaitSlot (x : Executor) (spec : Workers.Capacity.WorkerSpec) (request : WorkerRequest) :
    Safe (awaitSlot x spec request) := by
  refine Safe.loop (((WorkerSlots.safe_acquire x spec request).bind fun _ => safe_pure _).catch_ fun e he => ?_) _
  cases e with
  | capacityUnavailable =>
    refine (safe_read x _).bind fun cancelled => ?_
    split
    · exact safe_raise nofun
    · exact safe_pure _
  | _ => exact safe_raise he

theorem safe_record (x : Executor) (identity : Identity) (request : WorkerRequest) (lease : WorkerSlotFence) (activates : Bool) :
    Safe (record x identity request lease activates) := by
  refine safe_fenced fun s _ => ?_
  split
  · exact nofun
  split
  · exact nofun
  split
  · exact nofun
  · exact ⟨rfl, rfl⟩

theorem safe_prepareInvocation (x : Executor) (spec : Workers.Capacity.WorkerSpec) (identity : Identity) :
    Safe (prepareInvocation x spec identity) := by
  refine (safe_service x).bind fun _ => (safe_ask _).bind fun r => (safe_attempt r).bind fun (request : WorkerRequest) => ?_
  split
  · exact safe_raise nofun
  refine (safe_read x _).bind fun _ => (safe_ask _).bind fun (redacted : Bool) => ?_
  split
  · exact safe_raise nofun
  refine (safe_awaitSlot x spec request).bind fun lease => (safe_ask _).bind fun (activates : Bool) => ?_
  exact (safe_record x identity request lease activates).bind fun _ => safe_pure _

theorem safe_dispatchPrepared (x : Executor) (lease : WorkerSlotFence) : Safe (dispatchPrepared x lease) := by
  refine (safe_awaitAdmission x).bind fun _ => (safe_ask _).bind fun r => (safe_attempt r).bind fun report => ?_
  refine (safe_read x _).bind fun _ => ?_
  cases report with
  | some cls => exact safe_raise nofun
  | none =>
    refine (safe_ask _).bind fun r => (safe_attempt r).bind fun _ => (safe_awaitAdmission x).bind fun _ => ?_
    exact (safe_ask _).bind fun r => (safe_attempt r).bind fun _ => WorkerSlots.safe_require x lease

theorem safe_dispatch (x : Executor) (spec : Workers.Capacity.WorkerSpec) (identity : Identity) :
    Safe (dispatch x spec identity) := by
  refine Safe.catch_ ((safe_load x identity).bind fun prepared => ?_) fun e he => ?_
  · cases prepared with
    | some prepared => exact safe_renewing (safe_dispatchPrepared x prepared.lease)
    | none =>
      exact (safe_prepareInvocation x spec identity).bind fun lease => safe_renewing (safe_dispatchPrepared x lease)
  · cases e with
    | boundary cls => exact (safe_read x _).bind fun _ => safe_raise nofun
    | _ => exact safe_raise he

theorem safe_stored (x : Executor) (identity : Identity) : Safe (stored x identity) := by
  refine safe_fenced fun s _ => ?_
  split
  · exact nofun
  · exact ⟨rfl, rfl⟩

/-- A lost slot lease is not raised here. -/
theorem safe_keep (x : Executor) (identity : Identity) (lease : WorkerSlotFence) (result : Collected) :
    Safe (keep x identity lease result) := by
  refine safe_fenced fun s _ => ?_
  split
  · exact nofun
  simp only
  split
  · exact ⟨rfl, rfl⟩
  split
  · exact nofun
  · exact ⟨rfl, rfl⟩

theorem safe_collect (x : Executor) (identity : Identity) (lease : WorkerSlotFence) : Safe (collect x identity lease) := by
  refine (safe_ask _).bind fun (answer : Except External Collected) => ?_
  split
  · refine (WorkerSlots.safe_require x lease).bind fun _ => ?_
    exact (WorkerSlots.safe_release x lease).bind fun _ => safe_pure _
  · rename_i e _
    exact safe_raise e.authorized
  · refine (safe_keep x identity lease _).bind fun kept => ?_
    show Safe (if kept.1 then _ else _)
    split
    · exact safe_raise nofun
    · exact (WorkerSlots.safe_release x lease).bind fun _ => safe_pure _

theorem safe_inspectPrepared (x : Executor) (identity : Identity) (lease : WorkerSlotFence) :
    Safe (inspectPrepared x identity lease) := by
  refine (safe_ask _).bind fun r => (safe_attempt r).bind fun observation => ?_
  cases observation with
  | absent => exact safe_pure _
  | unknown => exact safe_pure _
  | cancelled =>
    exact (safe_read x _).bind fun _ => (WorkerSlots.safe_release x lease).bind fun _ => safe_pure _
  | live =>
    refine (safe_ask _).bind fun r => (safe_attempt r).bind fun _ => (safe_read x _).bind fun _ => ?_
    exact (WorkerSlots.safe_renew x lease).bind fun _ => safe_pure _
  | terminal => exact safe_collect x identity lease

theorem safe_inspect (x : Executor) (identity : Identity) : Safe (inspect x identity) := by
  refine (safe_load x identity).bind fun prepared => ?_
  cases prepared with
  | none => exact safe_pure _
  | some prepared =>
    refine (safe_stored x identity).bind fun stored => ?_
    cases stored with
    | some observation => exact safe_pure _
    | none =>
      exact (WorkerSlots.safe_renew x prepared.lease).bind fun _ =>
        safe_renewing (safe_inspectPrepared x identity prepared.lease)

theorem safe_cancel (x : Executor) (identity : Identity) : Safe (cancel x identity) := by
  refine (safe_load x identity).bind fun prepared => ?_
  cases prepared with
  | none => exact safe_pure _
  | some _ =>
    refine Safe.bind (safe_fenced fun s _ => ?_) fun _ => (safe_ask _).bind fun r => safe_attempt r
    split
    · exact nofun
    · exact ⟨rfl, rfl⟩

end WorkerEffectAdapter

/-! ## Integration leases -/

theorem insertCandidate_ne_stale (s : Integration.State) (row : Integration.MergeCandidate) :
    s.insertCandidate row ≠ .error .stale := by
  unfold Integration.State.insertCandidate
  split <;> simp

theorem initializeTarget_ne_stale (s : Integration.State) (run repository : Nat) (baseSha : Integration.Sha) (branch : String) :
    Integration.initializeTarget s run repository baseSha branch ≠ .error .stale := by
  unfold Integration.initializeTarget
  simp only
  split
  · simp
  · split <;> simp

theorem queue_ne_stale (s : Integration.State) (id createdAt run repository effect : Nat) (request : Integration.QueueRequest) :
    Integration.queue s id createdAt run repository effect request ≠ .error .stale := by
  unfold Integration.queue
  split
  · split
    · simp
    split
    · split <;> simp
    · exact insertCandidate_ne_stale _ _
  · simp

theorem ensureCandidate_ne_stale (s : Integration.State) (id createdAt : Nat) (head : Integration.IntegrationHead)
    (effect : Integration.Effect) : Integration.ensureCandidate s id createdAt head effect ≠ .error .stale := by
  unfold Integration.ensureCandidate
  split
  · simp
  split
  · simp
  · rename_i taskAttempt _
    intro h
    cases hi : s.insertCandidate (Integration.effectCandidate id createdAt head effect taskAttempt) with
    | ok t => simp [hi, Except.map] at h
    | error e =>
      simp only [hi, Except.map] at h
      cases h
      exact insertCandidate_ne_stale _ _ hi

theorem acquireIntegration_ne_stale (s : Integration.State) (id createdAt now ttl run repository effect : Nat) :
    Integration.acquire s id createdAt now ttl run repository effect ≠ .error .stale := by
  unfold Integration.acquire
  split
  · split
    · rename_i hensure
      intro h
      cases h
      exact ensureCandidate_ne_stale _ _ _ _ _ hensure
    split
    · simp
    simp only
    split
    · simp
    split
    · simp
    split <;> simp
  · simp

namespace IntegrationLeases

theorem raised_authorized {e : LeaseError} (h : e ≠ .stale) : (raised e).Authorized := by
  intro he
  cases e with
  | stale => exact h rfl
  | _ => cases he

theorem sound_settle {α β : Type} {s t : Session} {state : α → Integration.State} {value : α → β} {r : Except LeaseError α}
    (ht : t.rows.nodes = s.rows.nodes ∧ t.rows.failures = s.rows.failures) (h : r ≠ .error .stale) :
    Sound s (settle t state value r) := by
  cases r with
  | ok a => exact ht
  | error e => exact raised_authorized fun he => h (he ▸ rfl)

theorem safe_initializeTarget (x : Executor) (binding : Binding) : Safe (initializeTarget x binding) :=
  safe_fenced fun _ _ => sound_settle ⟨rfl, rfl⟩ (initializeTarget_ne_stale _ _ _ _ _)

theorem safe_queue (x : Executor) (repository effect : Nat) (request : Integration.QueueRequest) :
    Safe (queue x repository effect request) :=
  safe_fenced fun _ _ => sound_settle ⟨rfl, rfl⟩ (queue_ne_stale _ _ _ _ _ _ _)

theorem safe_acquire (x : Executor) (repository effect : Nat) : Safe (acquire x repository effect) :=
  safe_fenced fun _ _ => sound_settle ⟨rfl, rfl⟩ (acquireIntegration_ne_stale _ _ _ _ _ _ _ _)

theorem meets_renew (x : Executor) (fence : IntegrationFence) :
    (renew x fence).Meets (fun db => Classified db.rows) Holds (fun _ => True) (fun _ => True) := by
  refine meets_fenced trivial fun s _ => ?_
  cases Integration.renew s.rows.integration x.fence.run s.now x.integrationTtl fence with
  | ok state => exact ⟨fun h => h, trivial⟩
  | error e => trivial

theorem safe_release (x : Executor) (fence : IntegrationFence) : Safe (release x fence) :=
  safe_fenced fun _ _ => ⟨rfl, rfl⟩

theorem safe_reject (x : Executor) (fence : IntegrationFence) (conflict : Option Integration.Conflict) :
    Safe (reject x fence conflict) := by
  refine safe_fenced fun s hs => sound_settle ⟨rfl, rfl⟩ fun h => ?_
  obtain ⟨rows, hrows⟩ := Option.isSome_iff_exists.mp hs
  rw [Integration.reject, hrows] at h
  cases h

theorem safe_bindReview (x : Executor) (fence : IntegrationFence) (reviewIdentity : Nat) : Safe (bindReview x fence reviewIdentity) := by
  refine safe_fenced fun s hs => sound_settle ⟨rfl, rfl⟩ fun h => ?_
  obtain ⟨rows, hrows⟩ := Option.isSome_iff_exists.mp hs
  rw [Integration.bindReview, hrows] at h
  cases h

theorem safe_advance (x : Executor) (fence : IntegrationFence) (advancement : Integration.Advancement) :
    Safe (advance x fence advancement) := by
  refine safe_fenced fun s hs => sound_settle ⟨rfl, rfl⟩ fun h => ?_
  obtain ⟨rows, hrows⟩ := Option.isSome_iff_exists.mp hs
  rw [Integration.advance, hrows] at h
  simp only at h
  split at h <;> cases h

end IntegrationLeases

/-! ## The integrator and its adapter -/

namespace LocalIntegrator

theorem safe_invalidate (x : Executor) : Safe (invalidate x) := (safe_service x).bind fun _ => safe_pure _

theorem safe_receipt (x : Executor) (effect taskAttempt : Nat) : Safe (receipt x effect taskAttempt) := by
  refine safe_fenced fun s _ => ?_
  split
  · exact nofun
  split
  · exact nofun
  · exact ⟨rfl, rfl⟩

theorem safe_renewReview (x : Executor) (fence : IntegrationFence) : Safe (renewReview x fence) := by
  refine (safe_service x).bind fun _ => (safe_ask _).bind fun r => (safe_attempt r).bind fun (renewed : Bool) => ?_
  split
  · exact (IntegrationLeases.safe_reject x fence none).bind fun _ => safe_pure _
  · exact (safe_ask _).bind fun reviewIdentity =>
      (IntegrationLeases.safe_bindReview x fence reviewIdentity).bind fun _ => safe_pure _

theorem safe_confirm (x : Executor) : Safe (confirm x) := by
  refine (safe_service x).bind fun _ => (safe_ask _).bind fun r => (safe_attempt r).bind fun (unchanged : Bool) => ?_
  split
  · exact (safe_invalidate x).bind fun _ => safe_pure _
  · exact (safe_service x).bind fun _ => safe_pure _

theorem safe_verify (x : Executor) (fence : IntegrationFence) (latestBaseSha : Integration.Sha) :
    Safe (verify x fence latestBaseSha) := by
  refine (safe_service x).bind fun _ => (safe_ask _).bind fun (passed : Bool) => ?_
  split
  · exact safe_pure _
  split
  · refine (safe_renewReview x fence).bind fun status => ?_
    cases status with
    | some status => exact safe_pure _
    | none => exact safe_confirm x
  · exact safe_confirm x

theorem safe_merge (x : Executor) (fence : IntegrationFence) (latestBaseSha : Integration.Sha) :
    Safe (merge x fence latestBaseSha) := by
  refine (safe_service x).bind fun _ => (safe_ask _).bind fun r => (safe_attempt r).bind fun merge => ?_
  cases merge with
  | timedOut => exact safe_raise nofun
  | conflict conflict =>
    exact (safe_service x).bind fun _ => (IntegrationLeases.safe_reject x fence (some conflict)).bind fun _ => safe_pure _
  | merged => exact safe_verify x fence latestBaseSha

theorem safe_withHeartbeat {α : Type} {x : Executor} {fence : IntegrationFence} {work : Program α} (h : Safe work) :
    Safe (withHeartbeat x fence work) :=
  (Coroutine.Meets.beside h (IntegrationLeases.meets_renew x fence) none nofun).mono (fun _ _ => trivial) fun _ he => he

/-- The heartbeat of a lease that is kept has nothing to raise. -/
theorem safe_heartbeatResult (x : Executor) (failed : Option Raised) : Safe (heartbeatResult x failed) := by
  cases failed with
  | none => exact safe_pure _
  | some e =>
    refine fun db hc hkept => ⟨hc, ?_⟩
    show Raised.Authorized (if e.isStale then _ else e)
    cases hstale : e.isStale with
    | false =>
      exact External.authorized ⟨e, hstale⟩
    | true =>
      simp only [if_true]
      intro h
      have haccepts : fencedAccepts db.own x.fence = true := by simpa using h
      have hlive := hkept haccepts
      simp [Check.live, hstale] at hlive

theorem safe_underLease (x : Executor) (fence : IntegrationFence) (latestBaseSha : Integration.Sha) :
    Safe (underLease x fence latestBaseSha) := by
  refine (safe_withHeartbeat (safe_merge x fence latestBaseSha)).bind fun v => ?_
  obtain ⟨status, failed⟩ := v
  cases status with
  | some status => exact safe_pure _
  | none =>
    refine (safe_heartbeatResult x failed).bind fun _ => (safe_ask _).bind fun advancement => ?_
    exact (safe_withHeartbeat (IntegrationLeases.safe_advance x fence advancement)).bind fun _ => safe_pure _

theorem safe_giveBack (x : Executor) (fence : IntegrationFence) : Safe (giveBack x fence) := by
  refine (IntegrationLeases.safe_release x fence).catch_ fun e he => ?_
  cases e with
  | stale lost => exact safe_pure _
  | _ => exact safe_raise he

theorem safe_integrate (x : Executor) (repository effect : Nat) (request : Integration.QueueRequest)
    (latestBaseSha : Integration.Sha) : Safe (integrate x repository effect request latestBaseSha) := by
  refine (safe_receipt x effect request.taskAttempt).bind fun receipt => ?_
  split
  · exact (safe_service x).bind fun _ => safe_pure _
  refine (safe_ask _).bind fun r => (safe_attempt r).bind fun (captured : Bool) => ?_
  split
  · exact safe_invalidate x
  refine (IntegrationLeases.safe_queue x repository effect request).bind fun _ => ?_
  refine (IntegrationLeases.safe_acquire x repository effect).bind fun fence => ?_
  cases fence with
  | none => exact safe_pure _
  | some fence => exact Coroutine.Meets.andFinally (safe_underLease x fence latestBaseSha) (safe_giveBack x fence)

end LocalIntegrator

namespace VerificationEffectAdapter

theorem safe_inspect (x : Executor) (identity : Identity) : Safe (inspect x identity) := safe_read x _

theorem safe_cancel (x : Executor) (identity : Identity) : Safe (cancel x identity) := by
  refine safe_fenced fun s _ => ?_
  split
  · exact ⟨rfl, rfl⟩
  split <;> exact ⟨rfl, rfl⟩

theorem safe_candidate (x : Executor) (kind : Workflows.WorkflowNodeType) (identity : Identity) (taskAttempt : Nat) :
    Safe (candidate x kind identity taskAttempt) := by
  refine safe_fenced fun s _ => ?_
  split
  · exact nofun
  split
  · exact nofun
  split <;> exact ⟨rfl, rfl⟩

theorem safe_cancelledWaiting (x : Executor) (effect : Nat) : Safe (cancelledWaiting x effect) := by
  refine safe_fenced fun s _ => ?_
  split <;> exact ⟨rfl, rfl⟩

theorem safe_integrated (x : Executor) (repository effect : Nat) (request : Integration.QueueRequest)
    (latestBaseSha : Integration.Sha) : Safe (integrated x repository effect request latestBaseSha) := by
  have hintegrate := LocalIntegrator.safe_integrate x repository effect request latestBaseSha
  refine hintegrate.bind fun status => ?_
  split
  · refine Safe.loop ((safe_cancelledWaiting x effect).bind fun cancelled => ?_) _
    split
    · exact safe_pure _
    refine hintegrate.bind fun status => ?_
    split <;> exact safe_pure _
  · exact safe_pure _

theorem safe_finish (x : Executor) (effect : Nat) (outcome : Outcome) : Safe (finish x effect outcome) := by
  refine safe_fenced fun s _ => ?_
  split <;> exact ⟨rfl, rfl⟩

theorem safe_dispatch (x : Executor) (binding : Binding) (kind : Workflows.WorkflowNodeType) (identity : Identity) :
    Safe (dispatch x binding kind identity) := by
  unfold dispatch
  split
  · exact safe_raise nofun
  refine (safe_ask _).bind fun r => (safe_attempt r).bind fun _ => (safe_ask _).bind fun taskAttempt => ?_
  refine (safe_candidate x kind identity taskAttempt).bind fun effect => ?_
  cases effect with
  | none => exact safe_pure _
  | some effect =>
    refine (safe_service x).bind fun _ => (IntegrationLeases.safe_initializeTarget x binding).bind fun _ => ?_
    split
    · refine (safe_ask .candidate).bind fun asked => ?_
      refine (safe_integrated x binding.repository effect _ _).bind fun status => ?_
      cases status with
      | none => exact safe_pure _
      | some status => exact safe_finish x effect _
    · exact (safe_service x).bind fun _ => (safe_ask _).bind fun outcome => safe_finish x effect outcome

end VerificationEffectAdapter

end Jarvis.Executors
