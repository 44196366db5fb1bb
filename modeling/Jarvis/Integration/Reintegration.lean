/-
  Jarvis.Integration.Reintegration — the integrate effects of one task, one after another
  (`verification/runtime.py`: how `VerificationEffectAdapter.dispatch` binds an effect;
  `verification/leases.py`: `queue`, `acquire`).

  A visit of the INTEGRATE node is an effect of its own. `dispatch` binds it to the latest
  attempt of the task, whatever the status of that attempt, and to the commit of the attempt's
  stored result. `queue` looks for the candidate of the effect, but a candidate is unique for its
  attempt and commit too, and candidates are never deleted. So the transaction of `queue` fails
  on the unique constraint exactly when the effect has no candidate and another effect has queued
  the attempt before (`integrate_fails_iff`): every visit that comes after a conflict or a failed
  gate, and before the next attempt (`retry_after_conflict_fails`).
-/
import Jarvis.Integration.Blocking
import Jarvis.Workers.Invocations
import Mathlib.Data.Fintype.EquivFin

namespace Jarvis.Integration

open Jarvis.Workers (AttemptStatus)

/-! ## The rows that are looked up -/

/-- What a candidate is unique for, and its identity. -/
structure CandidateKey where
  id : Nat
  effect : Nat
  taskAttempt : Nat
  candidateSha : Sha
  deriving DecidableEq, Repr

def MergeCandidate.key (row : MergeCandidate) : CandidateKey := ⟨row.id, row.effect, row.taskAttempt, row.candidateSha⟩

def Effect.owner (effect : Effect) : Nat × Nat := (effect.id, effect.run)

/-- Effects, run heads and candidates are only added, and keep what they are looked up by;
    `adds` says which candidates may be new. -/
structure Grows (adds : CandidateKey → Prop) (s t : State) : Prop where
  effects : s.effects.map (·.owner) <+: t.effects.map (·.owner)
  heads : s.heads.map (·.key) <+: t.heads.map (·.key)
  candidates : s.candidates.map (·.key) <+: t.candidates.map (·.key)
  added : ∀ key ∈ t.candidates.map (·.key), key ∈ s.candidates.map (·.key) ∨ adds key

section Rows

variable {s t u : State} {adds : CandidateKey → Prop}

theorem Grows.of_eq (adds : CandidateKey → Prop) (heffects : t.effects.map (·.owner) = s.effects.map (·.owner))
    (hheads : t.heads.map (·.key) = s.heads.map (·.key)) (hcandidates : t.candidates.map (·.key) = s.candidates.map (·.key)) :
    Grows adds s t :=
  ⟨heffects ▸ List.prefix_rfl, hheads ▸ List.prefix_rfl, hcandidates ▸ List.prefix_rfl, fun _ hkey => .inl (hcandidates ▸ hkey)⟩

theorem Grows.refl (adds : CandidateKey → Prop) (s : State) : Grows adds s s := .of_eq adds rfl rfl rfl

theorem Grows.trans (h : Grows adds s t) (h' : Grows adds t u) : Grows adds s u where
  effects := h.effects.trans h'.effects
  heads := h.heads.trans h'.heads
  candidates := h.candidates.trans h'.candidates
  added key hkey := by
    rcases h'.added key hkey with hkey | hadds
    · exact h.added key hkey
    · exact .inr hadds

theorem Grows.writeTarget (target : Target) (f : AcceptedTargetHead → AcceptedTargetHead) :
    Grows adds s (s.writeTarget target f) := .of_eq adds rfl rfl rfl

theorem Grows.writeCandidate {id : Nat} {f : MergeCandidate → MergeCandidate} (hf : ∀ row, (f row).key = row.key) :
    Grows adds s (s.writeCandidate id f) := .of_eq adds rfl rfl (Keyed.map_replace_of_eq hf)

theorem Grows.writeEffect {id : Nat} {f : Effect → Effect} (hf : ∀ row, (f row).owner = row.owner) :
    Grows adds s (s.writeEffect id f) := .of_eq adds (Keyed.map_replace_of_eq hf) rfl rfl

/-- An effect that is found is found later, as the same run's. -/
theorem Grows.effect (h : Grows adds s t) {id : Nat} {effect : Effect} (he : s.effect? id = some effect) :
    ∃ later, t.effect? id = some later ∧ later.run = effect.run := by
  have hs : (s.effects.map (·.owner)).find? (fun owner => owner.1 = id) = some effect.owner := by
    rw [List.find?_map]
    exact congrArg (Option.map _) he
  have ht := h.effects.find?_eq_some hs
  rw [List.find?_map, Option.map_eq_some_iff] at ht
  obtain ⟨later, hlater, howner⟩ := ht
  exact ⟨later, hlater, congrArg Prod.snd howner⟩

theorem Grows.head (h : Grows adds s t) {run repository : Nat} (hh : (s.head? run repository).isSome) :
    (t.head? run repository).isSome := by
  obtain ⟨row, hrow, hkey⟩ := List.find?_isSome.mp hh
  have hin : row.key ∈ t.heads.map (·.key) := h.heads.subset (List.mem_map_of_mem hrow)
  obtain ⟨later, hlater, heq⟩ := List.mem_map.mp hin
  exact List.find?_isSome.mpr ⟨later, hlater, by rw [heq]; exact hkey⟩

theorem Grows.candidate (h : Grows adds s t) {effect : Nat} (hc : ∃ row ∈ s.candidates, row.effect = effect) :
    ∃ row ∈ t.candidates, row.effect = effect := by
  obtain ⟨row, hrow, rfl⟩ := hc
  obtain ⟨later, hlater, heq⟩ := List.mem_map.mp (h.candidates.subset (List.mem_map_of_mem hrow))
  exact ⟨later, hlater, congrArg CandidateKey.effect heq⟩

/-! ### What the operations leave -/

/-- The candidate that `queue` adds is that of its request. -/
def QueueRequest.brings (request : QueueRequest) (key : CandidateKey) : Prop :=
  key.taskAttempt = request.taskAttempt ∧ key.candidateSha = request.candidateSha

theorem queue_grows {id createdAt run repository effect : Nat} {request : QueueRequest}
    (h : queue s id createdAt run repository effect request = .ok t) : Grows request.brings s t := by
  unfold queue at h
  split at h
  · split at h
    · cases h
    · split at h
      · split at h <;> cases h
        exact .refl _ s
      · unfold State.insertCandidate at h
        split at h <;> cases h
        refine ⟨List.prefix_rfl, List.prefix_rfl, ?_, fun key hkey => ?_⟩
        · rw [List.map_append]
          exact List.prefix_append _ _
        · rw [List.map_append] at hkey
          rcases List.mem_append.mp hkey with hold | hnew
          · exact .inl hold
          · rw [List.mem_singleton.mp hnew]
            exact .inr ⟨rfl, rfl⟩
  · cases h

theorem expire_grows (target : Target) (now : Nat) : Grows adds s (expire s target now) := by
  unfold expire
  split
  · split
    · refine Grows.trans (.writeCandidate fun row => ?_) (.writeTarget _ _)
      split <;> rfl
    · exact .refl adds s
  · exact .refl adds s

theorem grant_grows {run repository effectId now ttl : Nat} {candidate : MergeCandidate} {accepted : AcceptedTargetHead} :
    Grows adds s (grant s run repository effectId now ttl candidate accepted).1 :=
  .of_eq adds rfl (Keyed.map_replace_of_eq fun _ => rfl) (Keyed.map_replace_of_eq fun _ => rfl)

/-- An effect that has its candidate acquires the lease for that one. -/
theorem acquire_grows {id createdAt now ttl run repository effectId : Nat} {granted : Option IntegrationFence}
    (hc : s.candidateOf effectId ≠ none) (h : acquire s id createdAt now ttl run repository effectId = .ok (t, granted)) :
    Grows adds s t := by
  unfold acquire at h
  split at h
  · rename_i head effect hhead heffect
    have hid : effect.id = effectId := by simpa using List.find?_some heffect
    have hensure : ∃ candidate, ensureCandidate s id createdAt head effect = .ok (s, candidate) := by
      obtain ⟨candidate, hcandidate⟩ := Option.ne_none_iff_exists'.mp hc
      exact ⟨candidate, by rw [ensureCandidate, hid, hcandidate]⟩
    obtain ⟨candidate, hensure⟩ := hensure
    rw [hensure] at h
    dsimp only at h
    split at h
    · cases h
    · split at h
      · cases h
      · split at h
        · cases h
          exact expire_grows _ _
        · split at h <;> cases h
          · exact expire_grows _ _
          · exact (expire_grows _ _).trans grant_grows
  · cases h

/-- An effect that has its candidate does not insert another. -/
theorem acquire_inserts {id createdAt now ttl run repository effectId : Nat} (hc : s.candidateOf effectId ≠ none) :
    acquire s id createdAt now ttl run repository effectId ≠ .error .duplicateRow := by
  unfold acquire
  split
  · rename_i head effect hhead heffect
    have hid : effect.id = effectId := by simpa using List.find?_some heffect
    obtain ⟨candidate, hcandidate⟩ := Option.ne_none_iff_exists'.mp hc
    have hensure : ensureCandidate s id createdAt head effect = .ok (s, candidate) := by
      rw [ensureCandidate, hid, hcandidate]
    rw [hensure]
    dsimp only
    split
    · exact nofun
    · split
      · exact nofun
      · split
        · exact nofun
        · split <;> exact nofun
  · exact nofun

theorem initializeTarget_grows {run repository : Nat} {baseSha : Sha} {branch : String}
    (h : initializeTarget s run repository baseSha branch = .ok t) :
    Grows adds s t ∧ (t.head? run repository).isSome := by
  have hensure : (ensureTarget s repository baseSha branch).1.effects = s.effects ∧
      (ensureTarget s repository baseSha branch).1.heads = s.heads ∧
      (ensureTarget s repository baseSha branch).1.candidates = s.candidates := by
    unfold ensureTarget
    split <;> exact ⟨rfl, rfl, rfl⟩
  obtain ⟨heffects, hheads, hcandidates⟩ := hensure
  unfold initializeTarget at h
  dsimp only at h
  split at h
  · cases h
    refine ⟨⟨?_, ?_, ?_, fun key hkey => .inl ?_⟩, ?_⟩
    · exact heffects ▸ List.prefix_rfl
    · rw [hheads, List.map_append]
      exact List.prefix_append _ _
    · exact hcandidates ▸ List.prefix_rfl
    · rwa [hcandidates] at hkey
    · exact List.find?_isSome.mpr ⟨_, List.mem_append_right _ (List.mem_singleton_self _), by simp [IntegrationHead.key]⟩
  · rename_i row hrow
    split at h <;> cases h
    exact ⟨.of_eq adds (by rw [heffects]) (by rw [hheads]) (by rw [hcandidates]), by rw [hrow]; rfl⟩

theorem release_grows {run now : Nat} {fence : IntegrationFence} : Grows adds s (release s run now fence) := by
  unfold release
  split
  · exact .refl adds s
  · exact .of_eq adds rfl (Keyed.map_replace_of_eq fun _ => rfl) (Keyed.map_replace_of_eq fun _ => rfl)

/-- The operations that write under a live lease. -/
def Op.underLease : Op → Bool
  | .renew _ _ _ _ | .reject _ _ _ _ | .bindReview _ _ _ _ | .advance _ _ _ _ => true
  | _ => false

theorem lease_grows {op : Op} (hop : op.underLease = true) (hs : step s op = some t) : Grows adds s t := by
  cases op with
  | prepareEffect | recordEffect | putArtifact | initializeTarget | queue | acquire | release => cases hop
  | renew run now ttl fence =>
    have h := Steps.toOption_ok hs
    unfold renew at h
    split at h <;> cases h
    exact .of_eq adds rfl (Keyed.map_replace_of_eq fun _ => rfl) rfl
  | reject run now fence conflict =>
    have h := Steps.toOption_ok hs
    unfold reject at h
    split at h <;> cases h
    exact .of_eq adds rfl (Keyed.map_replace_of_eq fun _ => rfl) (Keyed.map_replace_of_eq fun _ => rfl)
  | bindReview run now fence reviewIdentity =>
    have h := Steps.toOption_ok hs
    unfold bindReview at h
    split at h <;> cases h
    exact .of_eq adds rfl rfl (Keyed.map_replace_of_eq fun _ => rfl)
  | advance run now fence advancement =>
    have h := Steps.toOption_ok hs
    unfold advance at h
    split at h
    · cases h
    · split at h <;> cases h
      exact .of_eq adds (Keyed.map_replace_of_eq fun _ => rfl) (Keyed.map_replace_of_eq fun _ => rfl)
        (Keyed.map_replace_of_eq fun _ => rfl)

theorem ledger_grows {op : Op} (hop : op.ofLedger = true) (hs : step s op = some t) : Grows adds s t := by
  cases op with
  | queue | acquire | renew | release | reject | bindReview | advance => cases hop
  | prepareEffect effect =>
    simp only [step] at hs
    split at hs <;> cases hs
    refine ⟨?_, List.prefix_rfl, List.prefix_rfl, fun _ hkey => .inl hkey⟩
    rw [List.map_append]
    exact List.prefix_append _ _
  | recordEffect id status =>
    cases hs
    exact .writeEffect fun _ => rfl
  | putArtifact artifact =>
    simp only [step] at hs
    split at hs <;> cases hs
    exact .of_eq adds rfl rfl rfl
  | initializeTarget run repository baseSha branch => exact (initializeTarget_grows (Steps.toOption_ok hs)).1

end Rows

/-! ## Attempts and what an effect is bound to -/

/-- The stored `WorkerResult` of an attempt and the repository of its request, as `dispatch` reads them. -/
structure WorkerOutput where
  repository : Nat
  taskAttempt : Nat
  endHead : Sha
  succeeded : Bool
  deriving DecidableEq, Repr

/-- `TaskAttemptModel` with the result of its invocation. -/
structure TaskAttempt where
  id : Nat
  run : Nat
  task : Nat
  number : Nat
  status : AttemptStatus := .queued
  resultSha : Option Sha := none
  result : Option WorkerOutput := none
  deriving DecidableEq, Repr

/-- The integrate effects and the attempts that they are bound to. -/
structure Work where
  sys : Sys := {}
  attempts : List TaskAttempt := []
  deriving DecidableEq

namespace Work

/-- The attempt of a task with the highest number. -/
def latest? (w : Work) (task : Nat) : Option TaskAttempt := (w.attempts.filter (·.task = task)).argmax TaskAttempt.number

def attempt? (w : Work) (id : Nat) : Option TaskAttempt := w.attempts.find? (·.id = id)

/-- The transaction of `dispatch` that binds an integrate effect. -/
def bind (w : Work) (run effectId task repository : Nat) : Except String (TaskAttempt × WorkerOutput) :=
  match w.sys.state.effect? effectId with
  | none => .error "M8 requires a prepared effect and durable current task"
  | some effect =>
    if effect.run ≠ run ∨ effect.kind ≠ .integrate then .error "M8 requires a prepared effect and durable current task"
    else
      match w.latest? task with
      | none => .error "M8 requires an existing worker attempt"
      | some attempt =>
        match attempt.result with
        | none => .error "M8 requires a persisted M7 worker result"
        | some result =>
          if !result.succeeded ∨ result.repository ≠ repository ∨ some result.endHead ≠ attempt.resultSha ∨
              result.taskAttempt ≠ attempt.id then .error "worker result is not a successful current candidate"
          else .ok (attempt, result)

/-- The call that `dispatch` makes for the effect it has bound. -/
def boundCall (call : Call) (attempt : TaskAttempt) (result : WorkerOutput) : Call :=
  { call with request := { call.request with taskAttempt := attempt.id, candidateSha := result.endHead } }

inductive Move where
  /-- Anything but a dispatch. -/
  | integrate (action : Action)
  /-- An integrate effect of the task is dispatched: it is bound, and the target is initialized. -/
  | dispatch (call : Call) (task : Nat) (baseSha : Sha) (branch : String)
  /-- The request source inserts the next attempt. -/
  | attempt (run task id : Nat)
  /-- The result of the attempt's invocation is stored. -/
  | store (id : Nat) (result : WorkerOutput)
  /-- VERIFY, REVIEWER, INTEGRATE or the worker moves an attempt, which `dispatch` does not look at. -/
  | judge (id : Nat) (status : AttemptStatus)
  deriving DecidableEq, Repr

def dispatch (w : Work) (call : Call) (task : Nat) (baseSha : Sha) (branch : String) : Option Work :=
  match w.bind call.run call.effect task call.repository with
  | .error _ => none
  | .ok (attempt, result) =>
    let state := w.sys.state.writeEffect call.effect fun effect => { effect with taskAttempt := some attempt.id }
    (initializeTarget state call.run call.repository baseSha branch).toOption.bind fun state =>
      (({ w.sys with state } : Sys).step (.dispatch (boundCall call attempt result))).map fun sys => { w with sys }

def step (w : Work) : Move → Option Work
  | .integrate (.dispatch _) => none
  | .integrate action => (w.sys.step action).map fun sys => { w with sys }
  | .dispatch call task baseSha branch => w.dispatch call task baseSha branch
  | .attempt run task id =>
    if (w.attempt? id).isSome then none
    else some { w with attempts := w.attempts ++ [{ id, run, task, number := ((w.latest? task).map TaskAttempt.number).getD 0 + 1 }] }
  | .store id result =>
    if (w.attempt? id).any (·.result.isNone) ∧ result.taskAttempt = id then
      some { w with attempts := Keyed.replace (·.id) id (fun attempt =>
        { attempt with
          status := if result.succeeded then .verifying else .failed
          resultSha := some result.endHead
          result := some result }) w.attempts }
    else none
  | .judge id status => some { w with attempts := Keyed.replace (·.id) id (fun attempt => { attempt with status }) w.attempts }

abbrev Reach : Work → Prop := Steps.Reach step {}

/-- The next transaction of the call, `queue` or `acquire`, violates a unique constraint, with an
    identity drawn for the row that no candidate has. -/
def Fails (w : Work) (call : Call) : Prop :=
  ∃ id, (∀ row ∈ w.sys.state.candidates, row.id ≠ id) ∧
    ((call.pc = .queueing ∧ ∃ createdAt,
        queue w.sys.state id createdAt call.run call.repository call.effect call.request = .error .duplicateRow) ∨
      (call.pc = .acquiring ∧ ∃ createdAt now ttl,
        acquire w.sys.state id createdAt now ttl call.run call.repository call.effect = .error .duplicateRow))

/-- The effect has no candidate, and the attempt it is bound to was queued for another effect. -/
def Requeued (w : Work) (call : Call) : Prop :=
  w.sys.state.candidateOf call.effect = none ∧ ∃ row ∈ w.sys.state.candidates, row.taskAttempt = call.request.taskAttempt

end Work

/-! ## What holds in every run -/

/-- The stored result of the attempt ends in the commit. -/
def Commits (attempts : List TaskAttempt) (taskAttempt : Nat) (sha : Sha) : Prop :=
  ∃ attempt ∈ attempts, attempt.id = taskAttempt ∧ ∃ result, attempt.result = some result ∧ result.endHead = sha

/-- What a dispatched call stands on. -/
structure Bound (state : State) (attempts : List TaskAttempt) (call : Call) : Prop where
  commits : Commits attempts call.request.taskAttempt call.request.candidateSha
  head : (state.head? call.run call.repository).isSome
  effect : ∃ effect, state.effect? call.effect = some effect ∧ effect.run = call.run
  queued : call.pc = .acquiring → ∃ row ∈ state.candidates, row.effect = call.effect

structure Sound (state : State) (calls : List Call) (attempts : List TaskAttempt) : Prop where
  attemptIds : (attempts.map (·.id)).Nodup
  callIds : (calls.map (·.id)).Nodup
  candidates : ∀ key ∈ state.candidates.map (·.key), Commits attempts key.taskAttempt key.candidateSha
  bound : ∀ call ∈ calls, Bound state attempts call

section Sound

variable {state state' : State} {calls : List Call} {attempts : List TaskAttempt} {adds : CandidateKey → Prop}

theorem Commits.unique {taskAttempt : Nat} {sha sha' : Sha} (hids : (attempts.map (·.id)).Nodup)
    (h : Commits attempts taskAttempt sha) (h' : Commits attempts taskAttempt sha') : sha = sha' := by
  obtain ⟨attempt, hmem, hid, result, hresult, rfl⟩ := h
  obtain ⟨other, hmem', hid', result', hresult', rfl⟩ := h'
  obtain rfl := Keyed.unique hids hmem hmem' (hid.trans hid'.symm)
  rw [hresult] at hresult'
  cases hresult'
  rfl

theorem Bound.grow {call : Call} (h : Bound state attempts call) (hg : Grows adds state state') : Bound state' attempts call where
  commits := h.commits
  head := hg.head h.head
  effect := by
    obtain ⟨effect, heffect, hrun⟩ := h.effect
    obtain ⟨later, hlater, heq⟩ := hg.effect heffect
    exact ⟨later, hlater, heq.trans hrun⟩
  queued hpc := hg.candidate (h.queued hpc)

theorem Sound.grow (h : Sound state calls attempts) (hg : Grows adds state state')
    (hadds : ∀ key, adds key → Commits attempts key.taskAttempt key.candidateSha) : Sound state' calls attempts where
  attemptIds := h.attemptIds
  callIds := h.callIds
  candidates key hkey := by
    rcases hg.added key hkey with hold | hnew
    · exact h.candidates key hold
    · exact hadds key hnew
  bound call hcall := (h.bound call hcall).grow hg

/-- What a transaction that adds no candidate leaves. -/
theorem Sound.keep (h : Sound state calls attempts) (hg : Grows (fun _ => False) state state') : Sound state' calls attempts :=
  h.grow hg fun _ hfalse => hfalse.elim

theorem Sound.setPc {call : Call} {pc : Pc} (h : Sound state calls attempts) (hcall : call ∈ calls)
    (hpc : pc = .acquiring → ∃ row ∈ state.candidates, row.effect = call.effect) :
    Sound state (Keyed.replace (·.id) call.id (fun row => { row with pc }) calls) attempts where
  attemptIds := h.attemptIds
  callIds := by
    have hkeys := @Keyed.map_key_replace _ _ (fun row : Call => row.id) calls _ call.id (fun row => { row with pc }) fun _ hid => hid
    rw [hkeys]
    exact h.callIds
  candidates := h.candidates
  bound other hother := by
    rcases Keyed.mem_replace.mp hother with ⟨hold, -⟩ | ⟨old, hold, hid, rfl⟩
    · exact h.bound other hold
    · obtain rfl := Keyed.unique h.callIds hold hcall hid
      exact ⟨(h.bound old hold).commits, (h.bound old hold).head, (h.bound old hold).effect, hpc⟩

theorem Sound.drop {p : Call → Bool} (h : Sound state calls attempts) : Sound state (calls.filter p) attempts where
  attemptIds := h.attemptIds
  callIds := Keyed.nodup_filter h.callIds p
  candidates := h.candidates
  bound call hcall := h.bound call (List.mem_of_mem_filter hcall)

/-- The `finally` of a lease. -/
theorem Sound.leave {s : Sys} {call : Call} (h : Sound s.state s.calls attempts) (hcall : call ∈ s.calls)
    (result : Option IntegrationStatus) : Sound (leave s call result).state (leave s call result).calls attempts := by
  cases result with
  | none => exact h.drop
  | some status =>
    refine h.setPc hcall fun hpc => ?_
    split at hpc <;> cases hpc

/-- A step of a call that is bound to the commit of its attempt. -/
theorem Sound.callStep {s t : Sys} {call : Call} {move : CallMove} (h : Sound s.state s.calls attempts) (hcall : call ∈ s.calls)
    (hs : callStep s call move = some t) : Sound t.state t.calls attempts := by
  have hbound := h.bound call hcall
  cases move with
  | read =>
    simp only [Integration.callStep] at hs
    split at hs
    · obtain ⟨receipt, -, rfl⟩ := Option.map_eq_some_iff.mp hs
      refine h.setPc hcall fun hpc => ?_
      split at hpc <;> cases hpc
    · cases hs
  | restore =>
    simp only [Integration.callStep] at hs
    split at hs <;> cases hs
    exact h.setPc hcall (by rintro ⟨⟩)
  | capture valid =>
    simp only [Integration.callStep] at hs
    split at hs
    · cases hs
    · split at hs
      · cases hs
        exact h.setPc hcall (by rintro ⟨⟩)
      · split at hs <;> cases hs
        exact h.setPc hcall (by rintro ⟨⟩)
  | queue id createdAt =>
    simp only [Integration.callStep] at hs
    split at hs
    · obtain ⟨state, hok, rfl⟩ := Option.map_eq_some_iff.mp hs
      have hqueue := Steps.toOption_ok hok
      have hnext : Sound state s.calls attempts := h.grow (queue_grows hqueue) fun key hkey => by
        rw [hkey.1, hkey.2]
        exact hbound.commits
      exact hnext.setPc hcall fun _ => Sys.queue_candidate hqueue
    · cases hs
  | acquire id createdAt now ttl =>
    simp only [Integration.callStep] at hs
    split at hs
    · rename_i hacquiring
      obtain ⟨⟨state, granted⟩, hok, heq⟩ := Option.map_eq_some_iff.mp hs
      have hnext : Sound state s.calls attempts :=
        h.keep (acquire_grows (Sys.candidateOf_ne_none (hbound.queued hacquiring.1)) (Steps.toOption_ok hok))
      cases granted <;> cases heq <;> exact hnext.setPc hcall (by rintro ⟨⟩)
    · cases hs
  | merge conflictingPaths =>
    simp only [Integration.callStep] at hs
    split at hs
    · split at hs <;> cases hs <;> exact h.setPc hcall (by rintro ⟨⟩)
    · cases hs
  | gates passed =>
    simp only [Integration.callStep] at hs
    split at hs
    · split at hs
      · cases hs
        exact h.setPc hcall (by rintro ⟨⟩)
      · split at hs <;> cases hs <;> exact h.setPc hcall (by rintro ⟨⟩)
    · cases hs
  | review passed =>
    simp only [Integration.callStep] at hs
    split at hs <;> cases hs
    cases passed <;> exact h.setPc hcall (by rintro ⟨⟩)
  | reject now =>
    simp only [Integration.callStep] at hs
    split at hs
    · rename_i fence status conflict _
      split at hs
      · obtain ⟨state, hok, rfl⟩ := Option.map_eq_some_iff.mp hs
        have hop : Integration.step s.state (.reject call.run now fence conflict) = some state := hok
        exact (h.keep (lease_grows rfl hop)).setPc hcall (by rintro ⟨⟩)
      · cases hs
    · cases hs
  | bindReview now reviewIdentity =>
    simp only [Integration.callStep] at hs
    split at hs
    · rename_i fence _
      split at hs
      · obtain ⟨state, hok, rfl⟩ := Option.map_eq_some_iff.mp hs
        have hop : Integration.step s.state (.bindReview call.run now fence reviewIdentity) = some state := hok
        exact (h.keep (lease_grows rfl hop)).setPc hcall (by rintro ⟨⟩)
      · cases hs
    · cases hs
  | confirm valid =>
    simp only [Integration.callStep] at hs
    split at hs
    · split at hs
      · cases hs
        exact h.setPc hcall (by rintro ⟨⟩)
      · split at hs <;> cases hs
        exact h.setPc hcall (by rintro ⟨⟩)
    · cases hs
  | advance now advancement =>
    simp only [Integration.callStep] at hs
    split at hs
    · rename_i fence _
      split at hs
      · obtain ⟨state, hok, rfl⟩ := Option.map_eq_some_iff.mp hs
        have hop : Integration.step s.state (.advance call.run now fence advancement) = some state := hok
        exact (h.keep (lease_grows rfl hop)).setPc hcall (by rintro ⟨⟩)
      · cases hs
    · cases hs
  | renew now ttl =>
    simp only [Integration.callStep] at hs
    split at hs
    · rename_i fence _
      split at hs
      · obtain ⟨state, hok, rfl⟩ := Option.map_eq_some_iff.mp hs
        have hop : Integration.step s.state (.renew call.run now ttl fence) = some state := hok
        exact h.keep (lease_grows rfl hop)
      · cases hs
    · cases hs
  | release now =>
    simp only [Integration.callStep] at hs
    split at hs
    · rename_i fence result _
      split at hs <;> cases hs
      have hnext : Sound (release s.state call.run now fence) s.calls attempts := h.keep release_grows
      exact Sound.leave (s := { s with state := release s.state call.run now fence }) hnext hcall result
    · cases hs
  | abandon =>
    simp only [Integration.callStep] at hs
    split at hs <;> cases hs
    exact h.leave hcall _
  | poll =>
    simp only [Integration.callStep] at hs
    split at hs
    · split at hs <;> cases hs
      · refine Sound.drop (h.keep (.writeEffect fun _ => ?_))
        rfl
      · exact h.setPc hcall (by rintro ⟨⟩)
    · cases hs
  | settle =>
    simp only [Integration.callStep] at hs
    split at hs
    · split at hs <;> cases hs
      refine Sound.drop (h.keep (.writeEffect fun _ => ?_))
      split <;> rfl
    · cases hs
  | raise =>
    simp only [Integration.callStep] at hs
    split at hs <;> cases hs
    · exact h.setPc hcall (by rintro ⟨⟩)
    · exact h.drop
  | crash =>
    cases hs
    exact h.drop

/-- A new call, bound to the commit of an attempt. -/
theorem Sound.add {call : Call} (h : Sound state calls attempts) (hnew : ∀ old ∈ calls, old.id ≠ call.id)
    (hbound : Bound state attempts call) : Sound state (calls ++ [call]) attempts where
  attemptIds := h.attemptIds
  callIds := Keyed.nodup_append h.callIds hnew
  candidates := h.candidates
  bound other hother := by
    rcases List.mem_append.mp hother with hold | hadded
    · exact h.bound other hold
    · rw [List.mem_singleton.mp hadded]
      exact hbound

/-- Attempts change, and what they commit to stays. -/
theorem Sound.attempt {later : List TaskAttempt} (h : Sound state calls attempts) (hids : (later.map (·.id)).Nodup)
    (hcommits : ∀ {taskAttempt sha}, Commits attempts taskAttempt sha → Commits later taskAttempt sha) :
    Sound state calls later where
  attemptIds := hids
  callIds := h.callIds
  candidates key hkey := hcommits (h.candidates key hkey)
  bound call hcall := by
    obtain ⟨hc, hhead, heffect, hqueued⟩ := h.bound call hcall
    exact ⟨hcommits hc, hhead, heffect, hqueued⟩

/-- An attempt is rewritten, and its stored result stays. -/
theorem Sound.rewrite {id : Nat} {f : TaskAttempt → TaskAttempt} (h : Sound state calls attempts)
    (hid : ∀ attempt, (f attempt).id = attempt.id)
    (hf : ∀ attempt ∈ attempts, attempt.id = id → attempt.result.isSome → (f attempt).result = attempt.result) :
    Sound state calls (Keyed.replace (·.id) id f attempts) := by
  refine h.attempt ?_ fun {taskAttempt sha} hc => ?_
  · rw [Keyed.map_key_replace fun attempt heq => (hid attempt).trans heq]
    exact h.attemptIds
  · obtain ⟨attempt, hmem, heq, result, hresult, hsha⟩ := hc
    by_cases hk : attempt.id = id
    · refine ⟨f attempt, Keyed.mem_replace.mpr (.inr ⟨attempt, hmem, hk, rfl⟩), (hid attempt).trans heq, result, ?_, hsha⟩
      rw [hf attempt hmem hk (by rw [hresult]; rfl), hresult]
    · exact ⟨attempt, Keyed.mem_replace.mpr (.inl ⟨hmem, hk⟩), heq, result, hresult, hsha⟩

end Sound

namespace Work

variable {w v : Work}

theorem latest?_mem {task : Nat} {attempt : TaskAttempt} (h : w.latest? task = some attempt) : attempt ∈ w.attempts :=
  List.mem_of_mem_filter (List.argmax_mem h)

/-- What an effect is bound to: a stored result of an attempt, for an effect of the run. -/
theorem bind_ok {run effectId task repository : Nat} {attempt : TaskAttempt} {result : WorkerOutput}
    (h : w.bind run effectId task repository = .ok (attempt, result)) :
    w.latest? task = some attempt ∧ attempt.result = some result ∧
      ∃ effect, w.sys.state.effect? effectId = some effect ∧ effect.run = run := by
  unfold bind at h
  split at h
  · cases h
  rename_i effect heffect
  split at h
  · cases h
  rename_i howner
  split at h
  · cases h
  rename_i found hlatest
  split at h
  · cases h
  rename_i output hresult
  split at h
  · cases h
  · cases h
    exact ⟨hlatest, hresult, effect, heffect, by tauto⟩

theorem sound_dispatch {call : Call} {task : Nat} {baseSha : Sha} {branch : String}
    (h : Sound w.sys.state w.sys.calls w.attempts) (hs : w.dispatch call task baseSha branch = some v) :
    Sound v.sys.state v.sys.calls v.attempts := by
  unfold dispatch at hs
  split at hs
  · cases hs
  rename_i attempt result hbind
  obtain ⟨hlatest, hresult, effect, heffect, hrun⟩ := bind_ok hbind
  obtain ⟨state, hinit, hs⟩ := Option.bind_eq_some_iff.mp hs
  obtain ⟨sys, hsys, rfl⟩ := Option.map_eq_some_iff.mp hs
  have hwritten : Grows (fun _ => False) w.sys.state state :=
    Grows.trans (.writeEffect (f := fun effect => { effect with taskAttempt := some attempt.id }) fun _ => rfl)
      (initializeTarget_grows (Steps.toOption_ok hinit)).1
  have hhead := (@initializeTarget_grows _ _ (fun _ => False) _ _ _ _ (Steps.toOption_ok hinit)).2
  have hkept : Sound state w.sys.calls w.attempts := h.keep hwritten
  simp only [Sys.step] at hsys
  split at hsys
  · rename_i hfresh
    cases hsys
    refine hkept.add (fun old hold heq => ?_) ⟨?_, hhead, ?_, by rintro ⟨⟩⟩
    · exact List.find?_eq_none.mp (Option.isNone_iff_eq_none.mp hfresh.1) old hold (decide_eq_true heq)
    · exact ⟨attempt, latest?_mem hlatest, rfl, result, hresult, rfl⟩
    · obtain ⟨later, hlater, heq⟩ := hwritten.effect heffect
      exact ⟨later, hlater, heq.trans hrun⟩
  · cases hsys

theorem sound_step {move : Move} (h : Sound w.sys.state w.sys.calls w.attempts) (hs : w.step move = some v) :
    Sound v.sys.state v.sys.calls v.attempts := by
  cases move with
  | integrate action =>
    cases action with
    | dispatch call => cases hs
    | ledger op =>
      obtain ⟨sys, hsys, rfl⟩ := Option.map_eq_some_iff.mp hs
      simp only [Sys.step] at hsys
      split at hsys
      · rename_i hop
        obtain ⟨state, hstate, rfl⟩ := Option.map_eq_some_iff.mp hsys
        exact h.keep (ledger_grows hop hstate)
      · cases hsys
    | createRun id =>
      obtain ⟨sys, hsys, rfl⟩ := Option.map_eq_some_iff.mp hs
      simp only [Sys.step] at hsys
      split at hsys <;> cases hsys
      exact h
    | control run status desiredState =>
      cases hs
      exact h
    | call id move =>
      obtain ⟨sys, hsys, rfl⟩ := Option.map_eq_some_iff.mp hs
      obtain ⟨call, hcall, hsys⟩ := Option.bind_eq_some_iff.mp hsys
      exact h.callStep (List.mem_of_find?_eq_some hcall) hsys
  | dispatch call task baseSha branch => exact sound_dispatch h hs
  | attempt run task id =>
    simp only [step] at hs
    split at hs
    · cases hs
    · rename_i hfresh
      cases hs
      have hnew : ∀ old ∈ w.attempts, old.id ≠ id := fun old hold heq => by
        rw [Option.not_isSome_iff_eq_none] at hfresh
        exact List.find?_eq_none.mp hfresh old hold (decide_eq_true heq)
      refine h.attempt (Keyed.nodup_append h.attemptIds hnew) fun {taskAttempt sha} hc => ?_
      obtain ⟨attempt, hmem, hrest⟩ := hc
      exact ⟨attempt, List.mem_append_left _ hmem, hrest⟩
  | store id result =>
    simp only [step] at hs
    split at hs
    · rename_i hguard
      cases hs
      refine h.rewrite (fun _ => rfl) fun attempt hmem hid hsome => ?_
      -- A stored result is not written again.
      obtain ⟨found, hfound, hnone⟩ := (Option.any_eq_true _ _).mp hguard.1
      have hfid : found.id = id := by simpa using List.find?_some hfound
      obtain rfl := Keyed.unique h.attemptIds hmem (List.mem_of_find?_eq_some hfound) (hid.trans hfid.symm)
      rw [Option.isNone_iff_eq_none] at hnone
      rw [hnone] at hsome
      cases hsome
    · cases hs
  | judge id status =>
    cases hs
    exact h.rewrite (fun _ => rfl) fun _ _ _ _ => rfl

theorem sound_empty : Sound {} [] [] :=
  ⟨List.nodup_nil, List.nodup_nil, fun _ hkey => absurd hkey List.not_mem_nil, fun _ hcall => absurd hcall List.not_mem_nil⟩

theorem reach_sound (h : Reach w) : Sound w.sys.state w.sys.calls w.attempts :=
  h.invariant (fun w => Sound w.sys.state w.sys.calls w.attempts) sound_empty fun _ _ _ hw _ hs => sound_step hw hs

/-- The insertion of a call that is queueing fails on the candidate of another effect. -/
theorem queue_fails_iff (h : Reach w) {call : Call} (hcall : call ∈ w.sys.calls) {id createdAt : Nat}
    (hid : ∀ row ∈ w.sys.state.candidates, row.id ≠ id) :
    queue w.sys.state id createdAt call.run call.repository call.effect call.request = .error .duplicateRow ↔
      w.Requeued call := by
  have hsound := reach_sound h
  obtain ⟨hcommits, hhead, ⟨effect, heffect, hrun⟩, -⟩ := hsound.bound call hcall
  obtain ⟨head, hhead⟩ := Option.isSome_iff_exists.mp hhead
  unfold queue Requeued
  rw [hhead, heffect]
  dsimp only
  rw [if_neg (fun hne => hne hrun)]
  cases hexisting : w.sys.state.candidateOf call.effect with
  | some existing =>
    dsimp only
    refine ⟨fun hfails => ?_, fun hnone => by cases hnone.1⟩
    split at hfails <;> cases hfails
  | none =>
    have hown : ∀ row ∈ w.sys.state.candidates, row.effect ≠ call.effect := fun row hrow heq =>
      List.find?_eq_none.mp hexisting row hrow (decide_eq_true heq)
    dsimp only
    unfold State.insertCandidate
    refine ⟨fun hfails => ⟨rfl, ?_⟩, fun hrequeued => if_pos ?_⟩
    · split at hfails
      · rename_i hclash
        obtain ⟨row, hrow, hclash⟩ := List.any_eq_true.mp hclash
        rcases of_decide_eq_true hclash with heq | heq | heq
        · exact absurd heq (hid row hrow)
        · exact absurd heq (hown row hrow)
        · exact ⟨row, hrow, heq.1⟩
      · cases hfails
    · -- The commit is that of the attempt, for both.
      obtain ⟨-, row, hrow, hattempt⟩ := hrequeued
      have hrowCommits := hsound.candidates row.key (List.mem_map_of_mem hrow)
      have hsha : row.candidateSha = call.request.candidateSha :=
        Commits.unique hsound.attemptIds (hattempt ▸ hrowCommits : Commits _ call.request.taskAttempt _) hcommits
      exact List.any_eq_true.mpr ⟨row, hrow, decide_eq_true (.inr (.inr ⟨hattempt, hsha⟩))⟩

/-- In every run, the next transaction of an integrate call violates a unique constraint of the
    candidates exactly when it is to queue an attempt that was queued for another effect. -/
theorem integrate_fails_iff (h : Reach w) {call : Call} (hcall : call ∈ w.sys.calls) :
    w.Fails call ↔ call.pc = .queueing ∧ w.Requeued call := by
  constructor
  · rintro ⟨id, hid, ⟨hpc, createdAt, hfails⟩ | ⟨hpc, createdAt, now, ttl, hfails⟩⟩
    · exact ⟨hpc, (queue_fails_iff h hcall hid).mp hfails⟩
    · exact absurd hfails (acquire_inserts (Sys.candidateOf_ne_none (((reach_sound h).bound call hcall).queued hpc)))
  · rintro ⟨hpc, hrequeued⟩
    obtain ⟨id, hid⟩ := Infinite.exists_notMem_finset (w.sys.state.candidates.map (·.id)).toFinset
    have hid : ∀ row ∈ w.sys.state.candidates, row.id ≠ id := fun row hrow heq =>
      hid (List.mem_toFinset.mpr (List.mem_map.mpr ⟨row, hrow, heq⟩))
    exact ⟨id, hid, .inl ⟨hpc, 0, (queue_fails_iff h hcall hid).mpr hrequeued⟩⟩

/-! ## A retry -/

/-- The request that the integrate node makes of the attempt it is bound to. -/
def reviewed : QueueRequest := ⟨0, 100, 0, 0, 0, 0, 0⟩

/-- A visit of the node up to its queueing. -/
def visit (effect : Nat) : List Move :=
  [.integrate (.ledger (.prepareEffect { id := effect, run := 1, kind := .integrate })),
    .dispatch ⟨effect, 1, effect, 5, reviewed, 100, .reading⟩ 1 100 "main", .integrate (.call effect .read),
    .integrate (.call effect (.capture true))]

/-- A task with one attempt, whose result is to be integrated. -/
def firstVisit : List Move := [.integrate (.createRun 1), .attempt 1 1 1, .store 1 ⟨5, 1, 200, true⟩] ++ visit 1

/-- The attempt is integrated, and conflicts with the target. -/
def conflicted : List Move :=
  firstVisit ++
    [.integrate (.call 1 (.queue 1 10)), .integrate (.call 1 (.acquire 2 10 10 30)), .integrate (.call 1 (.merge (some ["README"]))),
      .integrate (.call 1 (.reject 12)), .integrate (.call 1 (.release 13)), .integrate (.call 1 .settle), .judge 1 .failed]

/-- The first visit queues its attempt. -/
theorem integrate_fails_iff_first :
    ∃ w, Reach w ∧ ∃ call ∈ w.sys.calls, call.pc = .queueing ∧ w.sys.state.candidates = [] ∧ ¬ w.Fails call := by
  have hrun : (Steps.run step {} firstVisit).any (fun w =>
      w.sys.state.candidates = [] && w.sys.calls.any fun call => call.pc = .queueing) = true := by
    decide +kernel
  obtain ⟨w, hw, hfacts⟩ := (Option.any_eq_true _ _).mp hrun
  simp only [Bool.and_eq_true, List.any_eq_true, decide_eq_true_eq] at hfacts
  obtain ⟨hnone, call, hcall, hpc⟩ := hfacts
  refine ⟨w, Steps.run_reach _ hw, call, hcall, hpc, hnone, fun hfails => ?_⟩
  obtain ⟨-, -, row, hrow, -⟩ := (integrate_fails_iff (Steps.run_reach _ hw) hcall).mp hfails
  rw [hnone] at hrow
  cases hrow

/-- The retry of the node is a new effect for the attempt that has failed: `queue` is refused. -/
theorem retry_after_conflict_fails :
    ∃ w, Reach w ∧ w.sys.returned = [(1, .gitConflict)] ∧ ∃ call ∈ w.sys.calls, call.effect = 2 ∧ w.Fails call := by
  have hrun : (Steps.run step {} (conflicted ++ visit 2)).any (fun w => w.sys.returned = [(1, .gitConflict)] &&
      w.sys.calls.any fun call => call.effect = 2 && call.pc = .queueing && w.sys.state.candidates.map (·.id) = [1] &&
        queue w.sys.state 3 20 call.run call.repository call.effect call.request = .error .duplicateRow) = true := by
    decide +kernel
  obtain ⟨w, hw, hfacts⟩ := (Option.any_eq_true _ _).mp hrun
  simp only [Bool.and_eq_true, List.any_eq_true, decide_eq_true_eq] at hfacts
  obtain ⟨hreturned, call, hcall, ⟨⟨heffect, hpc⟩, hids⟩, hfails⟩ := hfacts
  have hfresh : ∀ row ∈ w.sys.state.candidates, row.id ≠ 3 := fun row hrow heq => by
    have hin := List.mem_map_of_mem (f := fun row : MergeCandidate => row.id) hrow
    rw [hids, heq] at hin
    simp at hin
  exact ⟨w, Steps.run_reach _ hw, hreturned, call, hcall, heffect, 3, hfresh, .inl ⟨hpc, 20, hfails⟩⟩

end Work

end Jarvis.Integration
