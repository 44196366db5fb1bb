/-
  Jarvis.Missions.Turns — executions of management turns, under any interleaving of owners.

  An execution is numbered by its claim. The marker that `received` commits before it calls
  the provider is never taken back, so a turn is invoked at most once (`invoked_once`),
  whoever claims it again and wherever an execution stops.

  `apply` and `fail` do not look at the turn's owner. A superseded execution therefore
  applies its decision a second time (`decision_applied_twice`). In runs in which only the
  execution of the turn's last claim applies or fails it, turns are fenced (`turns_fenced`).
-/
import Jarvis.Missions.Identities
import Jarvis.Missions.Liability

namespace Jarvis.Missions

open Jarvis.Runtime (RunStatus DesiredState Mode)
open Jarvis.Steps

variable {s s' : Sys} {action : Action}

/-! ## What an action does to the executions -/

/-- Nothing, a claim, or a move of one execution. -/
theorem executions_cases (h : step s action = some s') :
    (s'.executions = s.executions ∧ s'.claims = s.claims ∧ s'.invocations = s.invocations ∧ s'.applied = s.applied ∧
      s.next ≤ s'.next) ∨
    (∃ service locked now db turnId, action = .claim service locked now ∧
      claim s.db service locked now = some (db, turnId) ∧
      s' = { s with
        db
        executions := s.executions ++ [⟨s.next, service, turnId, .load⟩]
        claims := s.claims ++ [(turnId, s.next)]
        next := s.next + 1 }) ∨
    ∃ e ∈ s.executions, executionStep s e action = some s' := by
  have hmove : ∀ {id : Nat}, (s.execution? id).bind (fun e => executionStep s e action) = some s' →
      ∃ e ∈ s.executions, executionStep s e action = some s' := by
    intro id hid
    obtain ⟨e, he, hstep⟩ := Option.bind_eq_some_iff.mp hid
    exact ⟨e, List.mem_of_find?_eq_some he, hstep⟩
  have hstart : ∀ {id : Nat}, (s.start? id).bind (fun c => startStep s c action) = some s' →
      s'.executions = s.executions ∧ s'.claims = s.claims ∧ s'.invocations = s.invocations ∧ s'.applied = s.applied ∧
        s.next ≤ s'.next := by
    intro id hid
    obtain ⟨c, -, hstep⟩ := Option.bind_eq_some_iff.mp hid
    unfold startStep at hstep
    repeat' split at hstep
    all_goals cases hstep
    all_goals exact ⟨rfl, rfl, rfl, rfl, Nat.le_refl _⟩
  cases action with
  | createMission | reconcileItems | materializeWakeup | dispatchReady | emit =>
    cases h
    exact .inl ⟨rfl, rfl, rfl, rfl, Nat.le_refl _⟩
  | updateAutonomy | updateDirective | updateTeam | createMessage | controlMission =>
    obtain ⟨db, -, rfl⟩ := toOption_map h
    exact .inl ⟨rfl, rfl, rfl, rfl, Nat.le_refl _⟩
  | startItem mission item version now =>
    simp only [step] at h
    split at h <;> cases h
    · exact .inl ⟨rfl, rfl, rfl, rfl, Nat.le_succ _⟩
    · exact .inl ⟨rfl, rfl, rfl, rfl, Nat.le_refl _⟩
  | createJob | releaseItem | linkItem | crashStart => exact .inl (hstart h)
  | claim service locked now =>
    obtain ⟨⟨db, turnId⟩, hclaim, rfl⟩ := Option.map_eq_some_iff.mp h
    exact .inr (.inl ⟨service, locked, now, db, turnId, rfl, hclaim, rfl⟩)
  | load | beginCall | invoke | storeReceipt | apply | fail | crash => exact .inr (.inr (hmove h))
  | executeRun | waitForCapacity | leaveCapacity | requestReconciliation | retryRun | runModelCall =>
    obtain ⟨db, -, rfl⟩ := Option.map_eq_some_iff.mp h
    exact .inl ⟨rfl, rfl, rfl, rfl, Nat.le_refl _⟩

/-- A move leaves the other executions as they are and does not number new ones. -/
theorem executionStep_others {e : Execution} (h : executionStep s e action = some s') :
    s'.claims = s.claims ∧ s'.next = s.next ∧
      ((∃ pc, s'.executions = (s.setExecution { e with pc }).executions) ∨ s'.executions = (s.dropExecution e.id).executions) := by
  unfold executionStep at h
  dsimp only at h
  repeat' split at h
  all_goals cases h
  all_goals refine ⟨rfl, rfl, ?_⟩
  all_goals first | exact .inl ⟨_, rfl⟩ | exact .inr rfl

theorem mem_setExecution {e x : Execution} :
    x ∈ (s.setExecution e).executions ↔ (x ∈ s.executions ∧ x.id ≠ e.id) ∨ ∃ old ∈ s.executions, old.id = e.id ∧ x = e :=
  Keyed.mem_replace (f := fun _ => e)

theorem map_id_setExecution (e : Execution) : (s.setExecution e).executions.map (·.id) = s.executions.map (·.id) :=
  Keyed.map_key_replace (f := fun _ => e) fun _ _ => rfl

theorem mem_dropExecution {id : Nat} {x : Execution} : x ∈ (s.dropExecution id).executions ↔ x ∈ s.executions ∧ x.id ≠ id := by
  simp [Sys.dropExecution]

/-- Only a claim adds an execution. -/
theorem executions_kept (h : step s action = some s') (haction : ∀ service locked now, action ≠ .claim service locked now) :
    s'.claims = s.claims ∧ ∀ x ∈ s'.executions, ∃ old ∈ s.executions, x.id = old.id ∧ x.turnId = old.turnId := by
  obtain ⟨he, hc, -⟩ | ⟨service, locked, now, db, turnId, rfl, -⟩ | ⟨e, he, hmove⟩ := executions_cases h
  · exact ⟨hc, fun x hx => ⟨x, he ▸ hx, rfl, rfl⟩⟩
  · exact absurd rfl (haction service locked now)
  · obtain ⟨hc, -, ⟨pc, hset⟩ | hdrop⟩ := executionStep_others hmove
    · refine ⟨hc, fun x hx => ?_⟩
      rw [hset] at hx
      obtain ⟨hx, -⟩ | ⟨-, -, -, rfl⟩ := mem_setExecution.mp hx
      · exact ⟨x, hx, rfl, rfl⟩
      · exact ⟨e, he, rfl, rfl⟩
    · exact ⟨hc, fun x hx => ⟨x, (mem_dropExecution.mp (hdrop ▸ hx)).1, rfl, rfl⟩⟩

/-- Only `apply` applies a decision. -/
theorem applied_kept (h : step s action = some s') (haction : ∀ id now, action ≠ .apply id now) : s'.applied = s.applied := by
  obtain ⟨-, -, -, ha, -⟩ | ⟨service, locked, now, db, turnId, -, -, rfl⟩ | ⟨e, he, hmove⟩ := executions_cases h
  · exact ha
  · rfl
  · unfold executionStep at hmove
    dsimp only at hmove
    repeat' split at hmove
    all_goals first | (cases hmove; done) | skip
    all_goals first | exact absurd rfl (haction _ _) | (cases hmove; rfl)

/-- Executions have numbers of their own, given out in order. -/
structure Numbered (s : Sys) : Prop where
  ids : (s.executions.map (·.id)).Nodup
  bound : ∀ e ∈ s.executions, e.id < s.next
  claims_bound : ∀ claim ∈ s.claims, claim.2 < s.next
  claimed : ∀ e ∈ s.executions, (e.turnId, e.id) ∈ s.claims

theorem Numbered.step (hs : Numbered s) (h : Jarvis.Missions.step s action = some s') : Numbered s' := by
  obtain ⟨he, hc, -, -, hn⟩ | ⟨service, locked, now, db, turnId, -, -, rfl⟩ | ⟨e, he, hmove⟩ := executions_cases h
  · refine ⟨he ▸ hs.ids, fun e hmem => ?_, fun c hmem => ?_, fun e hmem => ?_⟩
    · exact Nat.lt_of_lt_of_le (hs.bound e (he ▸ hmem)) hn
    · exact Nat.lt_of_lt_of_le (hs.claims_bound c (hc ▸ hmem)) hn
    · exact hc ▸ hs.claimed e (he ▸ hmem)
  · refine ⟨Keyed.nodup_append hs.ids fun old hold => ?_, fun e hmem => ?_, fun c hmem => ?_, fun e hmem => ?_⟩
    · exact Nat.ne_of_lt (hs.bound old hold)
    · obtain hmem | hmem := List.mem_append.mp hmem
      · exact Nat.lt_succ_of_lt (hs.bound e hmem)
      · cases List.mem_singleton.mp hmem
        exact Nat.lt_succ_self _
    · obtain hmem | hmem := List.mem_append.mp hmem
      · exact Nat.lt_succ_of_lt (hs.claims_bound c hmem)
      · cases List.mem_singleton.mp hmem
        exact Nat.lt_succ_self _
    · obtain hmem | hmem := List.mem_append.mp hmem
      · exact List.mem_append_left _ (hs.claimed e hmem)
      · cases List.mem_singleton.mp hmem
        exact List.mem_append_right _ (List.mem_singleton.mpr rfl)
  · obtain ⟨hc, hn, hchange⟩ := executionStep_others hmove
    have hids : (s'.executions.map (·.id)).Nodup := by
      obtain ⟨pc, hset⟩ | hdrop := hchange
      · rw [hset, map_id_setExecution]
        exact hs.ids
      · rw [hdrop]
        exact Keyed.nodup_filter hs.ids _
    have hold : ∀ x ∈ s'.executions, ∃ old ∈ s.executions, x.id = old.id ∧ x.turnId = old.turnId := by
      refine (executions_kept h ?_).2
      rintro service locked now rfl
      cases hmove
    refine ⟨hids, fun x hx => ?_, hn ▸ hc ▸ hs.claims_bound, fun x hx => ?_⟩
    · obtain ⟨old, hmem, hid, -⟩ := hold x hx
      rw [hid, hn]
      exact hs.bound old hmem
    · obtain ⟨old, hmem, hid, hturn⟩ := hold x hx
      rw [hid, hturn, hc]
      exact hs.claimed old hmem

theorem Numbered.init (versions : List Nat) : Numbered (Sys.init versions) :=
  ⟨List.nodup_nil, by simp [Sys.init], by simp [Sys.init], by simp [Sys.init]⟩

theorem reach_numbered {versions : List Nat} {ok : Sys → Action → Prop} (h : ReachIf step ok (Sys.init versions) s) : Numbered s :=
  h.invariant Numbered (.init versions) fun _ _ _ hs _ hstep => hs.step hstep

/-! ## Provider calls -/

/-- The execution is about to call the provider. -/
def Execution.calling (e : Execution) : Prop := ∃ request, e.pc = .call request

theorem received_not_call (result : ProviderResult) (request : ManagerRequest) : received result ≠ .call request := by
  unfold received
  split <;> exact nofun

/-- How the first transaction of `received` ends: the turn is the service's, and the marker is
    new unless the result was stored. -/
theorem beginCall_ok {db db' : Db} {service : Service} {turnId : TurnId} {request : ManagerRequest} {now : Nat}
    {reply : CallReply} (h : beginCall db service turnId request now = .ok (db', reply)) :
    ∃ turn, db.turn? turnId = some turn ∧ turn.claimedBy = some service.owner ∧
      db'.turns = (db.writeTurn { turn with called := true }).turns ∧
      ((∃ result, reply = .stored result ∧ db'.modelCalls = db.modelCalls) ∨
        (reply = .call ∧ started db turnId = false ∧
          db'.modelCalls = db.modelCalls ++ [{ source := .turn turnId, outcome := .unknown }])) := by
  unfold beginCall at h
  dsimp only at h
  split at h
  · cases h
  · rename_i turn hturn
    split at h
    · cases h
    · split at h
      · cases h
      · rename_i howner
        refine ⟨turn, hturn, not_not.mp howner, ?_⟩
        repeat' split at h
        all_goals cases h
        · exact ⟨rfl, .inl ⟨_, rfl, rfl⟩⟩
        · rename_i hstarted _ _ _ _
          exact ⟨rfl, .inr ⟨rfl, Bool.eq_false_of_not_eq_true hstarted, rfl⟩⟩

theorem storeReceipt_ok {db db' : Db} {turnId : TurnId} {request : ManagerRequest} {result : ProviderResult} {now : Nat}
    (h : storeReceipt db turnId request result now = .ok db') :
    ∃ outcome, db'.modelCalls = db.modelCalls ++ [{ source := .turn turnId, outcome }] := by
  unfold storeReceipt at h
  dsimp only at h
  repeat' split at h
  all_goals cases h
  all_goals exact ⟨_, rfl⟩

/-- Model calls are only added. -/
theorem step_modelCalls (h : step s action = some s') : ∃ new, s'.db.modelCalls = s.db.modelCalls ++ new := by
  by_cases hframe : Table.modelCalls ∈ footprint action
  · cases action with
    | beginCall id now =>
      obtain ⟨e, -, hmove⟩ := Option.bind_eq_some_iff.mp h
      simp only [executionStep] at hmove
      split at hmove
      · split at hmove <;> cases hmove
        · rename_i hbegin
          obtain ⟨turn, -, -, -, ⟨-, -, hcalls⟩ | ⟨hcall, -⟩⟩ := beginCall_ok hbegin
          · exact ⟨[], by simp [hcalls]⟩
          · cases hcall
        · rename_i hbegin
          obtain ⟨turn, -, -, -, ⟨_, hstored, _⟩ | ⟨-, -, hcalls⟩⟩ := beginCall_ok hbegin
          · cases hstored
          · exact ⟨_, hcalls⟩
        · exact ⟨[], (List.append_nil _).symm⟩
      · cases hmove
    | storeReceipt id now =>
      obtain ⟨e, -, hmove⟩ := Option.bind_eq_some_iff.mp h
      simp only [executionStep] at hmove
      split at hmove
      · split at hmove <;> cases hmove
        · rename_i hstore
          obtain ⟨outcome, hcalls⟩ := storeReceipt_ok hstore
          exact ⟨_, hcalls⟩
        · exact ⟨[], (List.append_nil _).symm⟩
      · cases hmove
    | runModelCall run correlation outcome =>
      obtain ⟨db, hdb, rfl⟩ := Option.map_eq_some_iff.mp h
      obtain ⟨run, -, rfl⟩ := Option.map_eq_some_iff.mp hdb
      exact ⟨_, rfl⟩
    | _ => simp [footprint] at hframe
  · have hsame : s'.db.modelCalls = s.db.modelCalls := step_writes h .modelCalls hframe
    exact ⟨[], by rw [hsame, List.append_nil]⟩

/-- A marker stays. -/
theorem started_kept {turnId : TurnId} (h : step s action = some s') (hs : started s.db turnId = true) :
    started s'.db turnId = true := by
  obtain ⟨new, hnew⟩ := step_modelCalls h
  unfold started at hs ⊢
  rw [hnew, List.any_append, hs, Bool.true_or]

/-- What a move does to the provider calls: no new one is about to be made and at most the
    execution's own is made, or the execution wrote the marker and is about to make it. -/
theorem executionStep_calls {e : Execution} (h : executionStep s e action = some s') :
    ((∀ x ∈ s'.executions, x.calling → x ∈ s.executions ∧ x.id ≠ e.id) ∧
      (s'.invocations = s.invocations ∨ (e.calling ∧ s'.invocations = s.invocations ++ [e.turnId]))) ∨
    (started s.db e.turnId = false ∧ started s'.db e.turnId = true ∧ s'.invocations = s.invocations ∧
      ∃ request, ∀ x ∈ s'.executions, x.calling → (x ∈ s.executions ∧ x.id ≠ e.id) ∨ x = { e with pc := .call request }) := by
  have hset : ∀ {pc : ExecPc}, (∀ request, pc ≠ .call request) → ∀ x ∈ (s.setExecution { e with pc }).executions,
      x.calling → x ∈ s.executions ∧ x.id ≠ e.id := by
    intro pc hpc x hx hcalling
    obtain hx | ⟨-, -, -, rfl⟩ := mem_setExecution.mp hx
    · exact hx
    · obtain ⟨request, hcall⟩ := hcalling
      exact absurd hcall (hpc request)
  have hdrop : ∀ x ∈ (s.dropExecution e.id).executions, x.calling → x ∈ s.executions ∧ x.id ≠ e.id :=
    fun x hx _ => mem_dropExecution.mp hx
  unfold executionStep at h
  split at h
  · split at h
    · split at h <;> cases h
      · exact .inl ⟨hset nofun, .inl rfl⟩
      · exact .inl ⟨hset nofun, .inl rfl⟩
    · cases h
  · split at h
    · split at h <;> cases h
      · exact .inl ⟨hset (received_not_call _), .inl rfl⟩
      · rename_i request _ _ _ hbegin
        obtain ⟨turn, -, -, -, ⟨_, hstored, _⟩ | ⟨-, hfresh, hcalls⟩⟩ := beginCall_ok hbegin
        · cases hstored
        · refine .inr ⟨hfresh, ?_, rfl, request, fun x hx _ => ?_⟩
          · show started _ e.turnId = true
            unfold started
            rw [hcalls]
            simp
          · obtain hx | ⟨-, -, -, rfl⟩ := mem_setExecution.mp hx
            · exact .inl hx
            · exact .inr rfl
      · exact .inl ⟨hset nofun, .inl rfl⟩
    · cases h
  · split at h
    · rename_i request hpc
      dsimp only at h
      repeat' split at h
      all_goals cases h
      · exact .inl ⟨hset nofun, .inl rfl⟩
      · exact .inl ⟨hset nofun, .inl rfl⟩
      · exact .inl ⟨hset nofun, .inl rfl⟩
      · exact .inl ⟨hset nofun, .inr ⟨⟨request, hpc⟩, rfl⟩⟩
      · exact .inl ⟨hset nofun, .inr ⟨⟨request, hpc⟩, rfl⟩⟩
    · cases h
  · split at h
    · split at h <;> cases h
      · exact .inl ⟨hset (received_not_call _), .inl rfl⟩
      · exact .inl ⟨hset nofun, .inl rfl⟩
    · cases h
  · split at h
    · split at h
      · cases h
        exact .inl ⟨hdrop, .inl rfl⟩
      · cases h
        exact .inl ⟨hset nofun, .inl rfl⟩
    · cases h
  · split at h
    · cases h
      exact .inl ⟨hdrop, .inl rfl⟩
    · cases h
  · cases h
    exact .inl ⟨hdrop, .inl rfl⟩
  · cases h

/-- A turn that has been invoked, or is about to be, has its marker; at most one execution of
    a turn is about to invoke it, and none after it was. -/
structure Marked (s : Sys) : Prop where
  nodup : s.invocations.Nodup
  invoked : ∀ turn ∈ s.invocations, started s.db turn = true
  calling : ∀ e ∈ s.executions, e.calling → started s.db e.turnId = true ∧ e.turnId ∉ s.invocations
  alone : ∀ e ∈ s.executions, ∀ x ∈ s.executions, e.calling → x.calling → e.turnId = x.turnId → e = x

theorem Marked.step (hs : Marked s) (h : Jarvis.Missions.step s action = some s') : Marked s' := by
  obtain ⟨he, -, hi, -, -⟩ | ⟨service, locked, now, db, turnId, -, -, rfl⟩ | ⟨e, he, hmove⟩ := executions_cases h
  · refine ⟨hi ▸ hs.nodup, fun turn ht => started_kept h (hs.invoked turn (hi ▸ ht)), fun x hx hc => ?_, ?_⟩
    · obtain ⟨hstarted, hnot⟩ := hs.calling x (he ▸ hx) hc
      exact ⟨started_kept h hstarted, hi ▸ hnot⟩
    · rw [he]
      exact hs.alone
  · -- the new execution has not come to its call
    have hold : ∀ x ∈ s.executions ++ [⟨s.next, service, turnId, .load⟩], x.calling → x ∈ s.executions := by
      intro x hx hc
      obtain hx | hx := List.mem_append.mp hx
      · exact hx
      · cases List.mem_singleton.mp hx
        obtain ⟨request, hpc⟩ := hc
        cases hpc
    refine ⟨hs.nodup, fun turn ht => started_kept h (hs.invoked turn ht), fun x hx hc => ?_, fun x hx y hy hcx hcy => ?_⟩
    · obtain ⟨hstarted, hnot⟩ := hs.calling x (hold x hx hc) hc
      exact ⟨started_kept h hstarted, hnot⟩
    · exact hs.alone x (hold x hx hcx) y (hold y hy hcy) hcx hcy
  · obtain ⟨hold, hinv⟩ | ⟨hfresh, hmarked, hi, request, hold⟩ := executionStep_calls hmove
    · have hnodup : s'.invocations.Nodup := by
        obtain hi | ⟨hc, hi⟩ := hinv
        · exact hi ▸ hs.nodup
        · rw [hi]
          exact List.Nodup.append hs.nodup (List.nodup_singleton _)
            (List.disjoint_singleton.mpr (hs.calling e he hc).2)
      refine ⟨hnodup, fun turn ht => ?_, fun x hx hc => ?_, fun x hx y hy hcx hcy => ?_⟩
      · apply started_kept h
        obtain hi | ⟨hc, hi⟩ := hinv
        · exact hs.invoked turn (hi ▸ ht)
        · obtain ht | ht := List.mem_append.mp (hi ▸ ht)
          · exact hs.invoked turn ht
          · cases List.mem_singleton.mp ht
            exact (hs.calling e he hc).1
      · obtain ⟨hmem, hne⟩ := hold x hx hc
        obtain ⟨hstarted, hnot⟩ := hs.calling x hmem hc
        refine ⟨started_kept h hstarted, ?_⟩
        obtain hi | ⟨hce, hi⟩ := hinv
        · exact hi ▸ hnot
        · rw [hi]
          intro hin
          obtain hin | hin := List.mem_append.mp hin
          · exact hnot hin
          · exact hne (congrArg Execution.id (hs.alone x hmem e he hc hce (List.mem_singleton.mp hin)))
      · exact hs.alone x (hold x hx hcx).1 y (hold y hy hcy).1 hcx hcy
    · -- the marker is new, so the turn has neither been invoked nor is it about to be elsewhere
      have hother : ∀ x ∈ s.executions, x.calling → x.turnId ≠ e.turnId := by
        intro x hx hc heq
        have hstarted := (hs.calling x hx hc).1
        rw [heq, hfresh] at hstarted
        cases hstarted
      refine ⟨hi ▸ hs.nodup, fun turn ht => started_kept h (hs.invoked turn (hi ▸ ht)), fun x hx hc => ?_,
        fun x hx y hy hcx hcy heq => ?_⟩
      · obtain ⟨hmem, -⟩ | rfl := hold x hx hc
        · obtain ⟨hstarted, hnot⟩ := hs.calling x hmem hc
          exact ⟨started_kept h hstarted, hi ▸ hnot⟩
        · refine ⟨hmarked, fun hin => ?_⟩
          rw [hi] at hin
          have hstarted := hs.invoked _ hin
          rw [hfresh] at hstarted
          cases hstarted
      · obtain ⟨hmx, -⟩ | rfl := hold x hx hcx
        · obtain ⟨hmy, -⟩ | rfl := hold y hy hcy
          · exact hs.alone x hmx y hmy hcx hcy heq
          · exact absurd heq (hother x hmx hcx)
        · obtain ⟨hmy, -⟩ | rfl := hold y hy hcy
          · exact absurd heq.symm (hother y hmy hcy)
          · rfl

theorem Marked.init (versions : List Nat) : Marked (Sys.init versions) :=
  ⟨List.nodup_nil, by simp [Sys.init], by simp [Sys.init], by simp [Sys.init]⟩

/-- The provider is invoked at most once for a turn. -/
theorem invoked_once {versions : List Nat} (h : Reach step (Sys.init versions) s) (turn : TurnId) :
    s.invocations.count turn ≤ 1 := by
  have hmarked : Marked s := h.invariant Marked (.init versions) fun _ _ _ hs _ hstep => hs.step hstep
  exact List.nodup_iff_count_le_one.mp hmarked.nodup turn

/-! ## Turns -/

section Turns

variable {db db' : Db} {turnId : TurnId}

theorem turn?_writeTurn {turn : TurnRow} {id : TurnId} {old : TurnRow} (hturns : db'.turns = (db.writeTurn turn).turns)
    (h : db.turn? id = some old) : db'.turn? id = some (if id = turn.id then turn else old) := by
  have hdb' : db'.turn? id = (db.writeTurn turn).turn? id := by simp only [Db.turn?, hturns]
  rw [hdb']
  split
  · rename_i hid
    subst hid
    exact Db.turn?_writeTurn_self turn h
  · rename_i hid
    rw [Db.turn?_writeTurn_of_ne hid, h]

theorem turn?_append {new : List TurnRow} {id : TurnId} {old : TurnRow} (hturns : db'.turns = db.turns ++ new)
    (h : db.turn? id = some old) : db'.turn? id = some old := by
  unfold Db.turn? at h ⊢
  rw [hturns, List.find?_append, h]
  rfl

/-- The row is of the same turn: its mission and its team version. -/
def TurnRow.SameTurn (turn row : TurnRow) : Prop :=
  row.id = turn.id ∧ row.missionId = turn.missionId ∧ row.teamVersionId = turn.teamVersionId

theorem claim_ok {service : Service} {locked : List TurnId} {now : Nat} (h : claim db service locked now = some (db', turnId)) :
    ∃ turn ∈ db.turns, turn.id = turnId ∧ (turn.status = .queued ∨ turn.status = .running) ∧
      ∃ claimed, turn.SameTurn claimed ∧ claimed.status = .running ∧ db'.turns = (db.writeTurn claimed).turns := by
  obtain ⟨turn, hfirst, heq⟩ := Option.map_eq_some_iff.mp h
  cases heq
  obtain ⟨hmem, hclaim⟩ := List.mem_filter.mp (first_mem hfirst)
  refine ⟨turn, hmem, rfl, ?_,
    { turn with
      status := .running, claimedBy := some service.owner, leaseUntil := some (now + service.leaseSeconds)
      attemptCount := turn.attemptCount + 1 }, ⟨rfl, rfl, rfl⟩, rfl, rfl⟩
  simp only [claimable, Bool.and_eq_true, Bool.or_eq_true, decide_eq_true_eq] at hclaim
  obtain ⟨⟨-, hstatus⟩, -⟩ := hclaim
  exact hstatus.imp_right And.left

theorem applyCurrent_turns {mission : MissionRow} {turn : TurnRow} {decision : ManagerDecision} {now : Nat}
    (h : applyCurrent db mission turn decision now = .ok db') :
    db'.turns = (db.writeTurn { turn with status := .applied, response := some decision, completedAt := some now }).turns := by
  obtain ⟨ledger, ledger', proposed, hproposed, rfl⟩ := applyCurrent_ok h
  have hitems := Writes.foldlM (fun _ _ _ => applyItem_writes) _ _ _ hproposed
  have hturns : proposed.turns = db.turns := hitems .turns (by decide)
  have hdeadline : ∀ base : Db, (scheduleDeadline base mission turn decision now).turns = base.turns :=
    fun base => scheduleDeadline_writes base mission turn decision now .turns (by decide)
  show (recordDecision proposed mission turn decision now).turns = _
  unfold recordDecision
  dsimp only
  rw [hdeadline]
  show (proposed.turns.map _) = db.turns.map _
  rw [hturns]

/-- An applied decision ends the turn. -/
theorem apply_turns {decision : ManagerDecision} {now : Nat} (h : apply db turnId decision now = .ok db') :
    ∃ turn ended, db.turn? turnId = some turn ∧ turn.SameTurn ended ∧
      (ended.status = .applied ∨ ended.status = .stale) ∧ db'.turns = (db.writeTurn ended).turns := by
  unfold apply at h
  split at h
  · cases h
  · rename_i turn hturn
    split at h
    · cases h
    · split at h
      · cases h
        exact ⟨turn, { turn with status := .stale, response := some decision, completedAt := some now }, hturn,
          ⟨rfl, rfl, rfl⟩, .inr rfl, rfl⟩
      · exact ⟨turn, { turn with status := .applied, response := some decision, completedAt := some now }, hturn,
          ⟨rfl, rfl, rfl⟩, .inl rfl, applyCurrent_turns h⟩

/-- A failure leaves a turn that was applied or stale, and rewrites any other. -/
theorem fail_turns (db : Db) (service : Service) (turnId : TurnId) (code : FailureCode) (now : Nat) :
    fail db service turnId code now = db ∨
      ∃ turn failed, db.turn? turnId = some turn ∧ turn.status ≠ .applied ∧ turn.status ≠ .stale ∧
        turn.SameTurn failed ∧ (fail db service turnId code now).turns = (db.writeTurn failed).turns := by
  unfold fail
  split
  · exact .inl rfl
  · rename_i turn hturn
    split
    · exact .inl rfl
    · rename_i hopen
      obtain ⟨happlied, hstale⟩ := not_or.mp hopen
      have hkeep : ∀ mission, (keepLiability db mission turn now).turns = db.turns :=
        fun mission => keepLiability_writes db mission turn now .turns (by decide)
      split
      · exact .inl rfl
      · rename_i mission hmission
        refine .inr ⟨turn, ?_⟩
        split
        · exact ⟨{ turn with
            status := .queued, claimableAt := now + 5, leaseUntil := none, claimedBy := none
            attemptCount := turn.attemptCount - 1 }, hturn, happlied, hstale, ⟨rfl, rfl, rfl⟩, rfl⟩
        · dsimp only
          split
          · refine ⟨{ turn with
              status := .queued, claimableAt := now + 2 ^ turn.attemptCount, leaseUntil := none, claimedBy := none },
              hturn, happlied, hstale, ⟨rfl, rfl, rfl⟩, ?_⟩
            show (keepLiability db mission turn now).turns.map _ = db.turns.map _
            rw [hkeep]
          · refine ⟨{ turn with status := .failed, failureCode := some code, completedAt := some now }, hturn, happlied,
              hstale, ⟨rfl, rfl, rfl⟩, ?_⟩
            unfold failTurn
            dsimp only
            split
            · show (keepLiability db mission turn now).turns.map _ = db.turns.map _
              rw [hkeep]
            · show (keepLiability db mission turn now).turns.map _ = db.turns.map _
              rw [hkeep]

theorem materializeWakeup_turns (db : Db) (mode : Mode) (locked : List Nat) (now : Nat) :
    ∃ new, (materializeWakeup db mode locked now).turns = db.turns ++ new := by
  unfold materializeWakeup
  split
  · exact ⟨[], (List.append_nil _).symm⟩
  · split
    · exact ⟨[], (List.append_nil _).symm⟩
    · dsimp only
      split
      · exact ⟨[], (List.append_nil _).symm⟩
      · split
        · exact ⟨[], (List.append_nil _).symm⟩
        · split
          · exact ⟨[], (List.append_nil _).symm⟩
          · unfold queueTurn
            dsimp only
            split
            · exact ⟨[], (List.append_nil _).symm⟩
            · exact ⟨_, rfl⟩

/-- Turns that are there stay, and only a claim, `apply` and `fail` change their status. -/
theorem step_turn_status (h : step s action = some s')
    (haction : (∀ service locked now, action ≠ .claim service locked now) ∧ (∀ id now, action ≠ .apply id now) ∧
      ∀ id now, action ≠ .fail id now) {turn : TurnRow} (hturn : s.db.turn? turnId = some turn) :
    ∃ turn', s'.db.turn? turnId = some turn' ∧ turn'.status = turn.status := by
  by_cases hframe : Table.turns ∈ footprint action
  · cases action with
    | createMessage mission body version paid key now =>
      obtain ⟨db, hdb, rfl⟩ := toOption_map h
      obtain rfl | ⟨mission, -, hdb⟩ := withMission_ok hdb
      · exact ⟨turn, hturn, rfl⟩
      · split at hdb <;> cases hdb
        exact ⟨turn, turn?_append rfl hturn, rfl⟩
    | materializeWakeup mode locked now =>
      cases h
      obtain ⟨new, hnew⟩ := materializeWakeup_turns s.db mode locked now
      exact ⟨turn, turn?_append hnew hturn, rfl⟩
    | beginCall id now =>
      obtain ⟨e, -, hmove⟩ := Option.bind_eq_some_iff.mp h
      simp only [executionStep] at hmove
      split at hmove
      · have hbegun : ∀ {request : ManagerRequest} {db : Db} {reply : CallReply},
            beginCall s.db e.service e.turnId request now = .ok (db, reply) →
            ∃ turn', db.turn? turnId = some turn' ∧ turn'.status = turn.status := by
          intro request db reply hbegin
          obtain ⟨old, hold, -, hturns, -⟩ := beginCall_ok hbegin
          refine ⟨_, turn?_writeTurn hturns hturn, ?_⟩
          split
          · rename_i hid
            have hid' : turnId = e.turnId := hid.trans (Db.turn?_eq_some hold).2
            rw [← hid', hturn] at hold
            cases hold
            rfl
          · rfl
        split at hmove <;> cases hmove
        · rename_i hbegin
          exact hbegun hbegin
        · rename_i hbegin
          exact hbegun hbegin
        · exact ⟨turn, hturn, rfl⟩
      · cases hmove
    | claim service locked now => exact absurd rfl (haction.1 service locked now)
    | apply id now => exact absurd rfl (haction.2.1 id now)
    | fail id now => exact absurd rfl (haction.2.2 id now)
    | _ => simp [footprint] at hframe
  · have hsame : s'.db.turns = s.db.turns := step_writes h .turns hframe
    exact ⟨turn, by simpa only [Db.turn?, hsame] using hturn, rfl⟩

theorem TurnRow.SameTurn.refl (turn : TurnRow) : turn.SameTurn turn := ⟨rfl, rfl, rfl⟩

theorem sameTurn_writeTurn {old row turn : TurnRow} {id : TurnId} (hturns : db'.turns = (db.writeTurn row).turns)
    (hold : db.turn? old.id = some old) (hsame : old.SameTurn row) (hturn : db.turn? id = some turn) :
    ∃ new, db'.turn? id = some new ∧ turn.SameTurn new := by
  refine ⟨_, turn?_writeTurn hturns hturn, ?_⟩
  split
  · rename_i hid
    rw [hid, hsame.1, hold] at hturn
    cases hturn
    exact hsame
  · exact .refl turn

/-- A turn stays the turn of its mission and its team version. -/
theorem step_sameTurn (hk : s.db.keys.Distinct) (h : step s action = some s') {turn : TurnRow}
    (hturn : s.db.turn? turnId = some turn) : ∃ row, s'.db.turn? turnId = some row ∧ turn.SameTurn row := by
  have hfound : ∀ {id : TurnId} {old : TurnRow}, s.db.turn? id = some old → s.db.turn? old.id = some old := by
    intro id old hold
    rw [(Db.turn?_eq_some hold).2, hold]
  by_cases hframe : Table.turns ∈ footprint action
  · cases action with
    | createMessage mission body version paid key now =>
      obtain ⟨db, hdb, rfl⟩ := toOption_map h
      obtain rfl | ⟨mission, -, hdb⟩ := withMission_ok hdb
      · exact ⟨turn, hturn, .refl turn⟩
      · split at hdb <;> cases hdb
        exact ⟨turn, turn?_append rfl hturn, .refl turn⟩
    | materializeWakeup mode locked now =>
      cases h
      obtain ⟨new, hnew⟩ := materializeWakeup_turns s.db mode locked now
      exact ⟨turn, turn?_append hnew hturn, .refl turn⟩
    | claim service locked now =>
      obtain ⟨⟨db, id⟩, hclaim, rfl⟩ := Option.map_eq_some_iff.mp h
      obtain ⟨old, hmem, -, -, claimed, hsame, -, hturns⟩ := claim_ok hclaim
      exact sameTurn_writeTurn hturns ((find?_key hk.turns.nodup).mpr ⟨hmem, rfl⟩) hsame hturn
    | beginCall id now =>
      obtain ⟨e, -, hmove⟩ := Option.bind_eq_some_iff.mp h
      simp only [executionStep] at hmove
      split at hmove
      · have hbegun : ∀ {request : ManagerRequest} {db : Db} {reply : CallReply},
            beginCall s.db e.service e.turnId request now = .ok (db, reply) →
            ∃ row, db.turn? turnId = some row ∧ turn.SameTurn row := by
          intro request db reply hbegin
          obtain ⟨old, hold, -, hturns, -⟩ := beginCall_ok hbegin
          exact sameTurn_writeTurn hturns (hfound hold) ⟨rfl, rfl, rfl⟩ hturn
        split at hmove <;> cases hmove
        · rename_i hbegin
          exact hbegun hbegin
        · rename_i hbegin
          exact hbegun hbegin
        · exact ⟨turn, hturn, .refl turn⟩
      · cases hmove
    | apply id now =>
      obtain ⟨e, -, hmove⟩ := Option.bind_eq_some_iff.mp h
      simp only [executionStep] at hmove
      split at hmove
      · split at hmove <;> cases hmove
        · rename_i happly
          obtain ⟨old, ended, hold, hsame, -, hturns⟩ := apply_turns happly
          exact sameTurn_writeTurn hturns (hfound hold) hsame hturn
        · exact ⟨turn, hturn, .refl turn⟩
      · cases hmove
    | fail id now =>
      obtain ⟨e, -, hmove⟩ := Option.bind_eq_some_iff.mp h
      simp only [executionStep] at hmove
      split at hmove
      · rename_i code _
        cases hmove
        obtain heq | ⟨old, failed, hold, -, -, hsame, hturns⟩ := fail_turns s.db e.service e.turnId code now
        · exact ⟨turn, by rw [← hturn]; exact congrArg (Db.turn? · turnId) heq, .refl turn⟩
        · exact sameTurn_writeTurn hturns (hfound hold) hsame hturn
      · cases hmove
    | _ => simp [footprint] at hframe
  · have hsame : s'.db.turns = s.db.turns := step_writes h .turns hframe
    exact ⟨turn, by simpa only [Db.turn?, hsame] using hturn, .refl turn⟩

end Turns

/-! ## Fencing -/

/-- No claim of the turn has been made since the execution's own. -/
def Execution.last (e : Execution) (s : Sys) : Prop := ∀ claim ∈ s.claims, claim.1 = e.turnId → claim.2 ≤ e.id

instance (e : Execution) (s : Sys) : Decidable (e.last s) := inferInstanceAs (Decidable (∀ claim ∈ s.claims, _))

/-- The turn has the status. -/
def Db.turnIs (db : Db) (id : TurnId) (status : TurnStatus) : Prop := ∃ turn, db.turn? id = some turn ∧ turn.status = status

instance (db : Db) (id : TurnId) (status : TurnStatus) : Decidable (db.turnIs id status) :=
  decidable_of_iff ((db.turn? id).any (·.status = status) = true) <| by
    rw [Option.any_eq_true]
    simp only [decide_eq_true_eq]
    exact Iff.rfl

/-- The turn was claimed again, or it has finished. -/
def Execution.superseded (e : Execution) (s : Sys) : Prop :=
  (∃ claim ∈ s.claims, claim.1 = e.turnId ∧ e.id < claim.2) ∨ s.db.turnIs e.turnId .applied ∨
    s.db.turnIs e.turnId .stale ∨ s.db.turnIs e.turnId .failed

/-- Only the execution of the last claim applies or fails its turn; a failure of a turn that was
    applied or stale does nothing. -/
def byLastClaim (s : Sys) : Action → Prop
  | .apply id _ => ∀ e ∈ s.executions, e.id = id → e.last s
  | .fail id _ => ∀ e ∈ s.executions, e.id = id →
      e.last s ∨ s.db.turnIs e.turnId .applied ∨ s.db.turnIs e.turnId .stale
  | _ => True

instance (s : Sys) (action : Action) : Decidable (byLastClaim s action) := by
  induction action using Action.casesOn <;> dsimp only [byLastClaim] <;> infer_instance

/-- The execution of a turn's last claim has the turn running, and an applied turn stays so. -/
structure Fenced (s : Sys) : Prop where
  holding : ∀ e ∈ s.executions, e.last s → s.db.turnIs e.turnId .running
  nodup : s.applied.Nodup
  applied : ∀ turn ∈ s.applied, s.db.turnIs turn .applied

/-- Two executions of the last claim of a turn are one. -/
theorem last_unique (hn : Numbered s) {e x : Execution} (he : e ∈ s.executions) (hx : x ∈ s.executions)
    (hturn : e.turnId = x.turnId) (hle : e.last s) (hlx : x.last s) : e = x := by
  have h₁ : x.id ≤ e.id := hle _ (hn.claimed x hx) hturn.symm
  have h₂ : e.id ≤ x.id := hlx _ (hn.claimed e he) hturn
  exact Keyed.unique hn.ids he hx (Nat.le_antisymm h₂ h₁)

/-- The turn of a rewritten row, and any other. -/
theorem turnIs_writeTurn {db db' : Db} {turn : TurnRow} {id : TurnId} {status : TurnStatus}
    (hturns : db'.turns = (db.writeTurn turn).turns) (h : db.turnIs id status)
    (hturn : id = turn.id → turn.status = status) : db'.turnIs id status := by
  obtain ⟨old, hold, hstatus⟩ := h
  refine ⟨_, turn?_writeTurn hturns hold, ?_⟩
  split
  · rename_i hid
    exact hturn hid
  · exact hstatus

theorem turnIs_unique {db : Db} {id : TurnId} {status status' : TurnStatus} (h : db.turnIs id status)
    (h' : db.turnIs id status') : status = status' := by
  obtain ⟨turn, hturn, rfl⟩ := h
  obtain ⟨turn', hturn', rfl⟩ := h'
  rw [hturn] at hturn'
  cases hturn'
  rfl

/-- An execution that leaves ends its turn; the others of the turn are not of its last claim. -/
theorem Fenced.ended (hn : Numbered s) (hs : Fenced s) {e : Execution} (he : e ∈ s.executions) (hlast : e.last s)
    {ended : TurnRow} (hid : ended.id = e.turnId) (hturns : s'.db.turns = (s.db.writeTurn ended).turns)
    (hexecutions : s'.executions = (s.dropExecution e.id).executions) (hclaims : s'.claims = s.claims)
    (happlied : s'.applied = s.applied ∨ (s'.applied = s.applied ++ [e.turnId] ∧ ended.status = .applied)) : Fenced s' := by
  have hnot : e.turnId ∉ s.applied := by
    intro hin
    cases turnIs_unique (hs.holding e he hlast) (hs.applied _ hin)
  have hkept : ∀ turn ∈ s.applied, s'.db.turnIs turn .applied := by
    intro turn hin
    refine turnIs_writeTurn hturns (hs.applied turn hin) fun heq => ?_
    rw [heq, hid] at hin
    exact absurd hin hnot
  refine ⟨fun x hx hlx => ?_, ?_, fun turn hin => ?_⟩
  · rw [hexecutions] at hx
    obtain ⟨hx, hne⟩ := mem_dropExecution.mp hx
    have hlx' : x.last s := fun claim hc => hlx claim (hclaims ▸ hc)
    refine turnIs_writeTurn hturns (hs.holding x hx hlx') fun heq => ?_
    exact absurd (congrArg Execution.id (last_unique hn hx he (heq.trans hid) hlx' hlast)) hne
  · obtain happlied | ⟨happlied, -⟩ := happlied
    · exact happlied ▸ hs.nodup
    · rw [happlied]
      exact List.Nodup.append hs.nodup (List.nodup_singleton _) (List.disjoint_singleton.mpr hnot)
  · obtain happlied | ⟨happlied, hstatus⟩ := happlied
    · exact hkept turn (happlied ▸ hin)
    · obtain hin | hin := List.mem_append.mp (happlied ▸ hin)
      · exact hkept turn hin
      · cases List.mem_singleton.mp hin
        obtain ⟨old, hold, -⟩ := hs.holding e he hlast
        exact ⟨_, turn?_writeTurn hturns hold, by rw [if_pos hid.symm]; exact hstatus⟩

/-- A step that leaves the statuses of turns alone. -/
theorem Fenced.kept (hs : Fenced s) (hclaims : s'.claims = s.claims) (happlied : s'.applied = s.applied)
    (hexecutions : ∀ x ∈ s'.executions, ∃ old ∈ s.executions, x.id = old.id ∧ x.turnId = old.turnId)
    (hturns : ∀ turnId status, s.db.turnIs turnId status → s'.db.turnIs turnId status) : Fenced s' := by
  refine ⟨fun x hx hlast => ?_, happlied ▸ hs.nodup, fun turn hin => hturns _ _ (hs.applied turn (happlied ▸ hin))⟩
  obtain ⟨old, hold, hid, hturn⟩ := hexecutions x hx
  rw [hturn]
  refine hturns _ _ (hs.holding old hold fun claim hc hclaim => ?_)
  rw [← hid]
  exact hlast claim (hclaims ▸ hc) (hclaim.trans hturn.symm)

theorem Fenced.step (hk : s.db.keys.Distinct) (hn : Numbered s) (hs : Fenced s) (hok : byLastClaim s action)
    (h : Jarvis.Missions.step s action = some s') : Fenced s' := by
  cases action with
  | claim service locked now =>
    obtain ⟨⟨db, turnId⟩, hclaim, rfl⟩ := Option.map_eq_some_iff.mp h
    obtain ⟨turn, hmem, rfl, hstatus, claimed, ⟨hid, -⟩, hrunning, hturns⟩ := claim_ok hclaim
    have hturn : s.db.turn? turn.id = some turn := (find?_key hk.turns.nodup).mpr ⟨hmem, rfl⟩
    have hnew : db.turnIs turn.id .running :=
      ⟨_, turn?_writeTurn hturns hturn, by rw [if_pos hid.symm]; exact hrunning⟩
    refine ⟨fun e he hlast => ?_, hs.nodup, fun t hin => ?_⟩
    · by_cases heq : e.turnId = turn.id
      · rw [heq]
        exact hnew
      · obtain he | he := List.mem_append.mp he
        · refine turnIs_writeTurn hturns (hs.holding e he fun claim hc => ?_) fun hid' => absurd (hid'.trans hid) heq
          exact hlast claim (List.mem_append_left _ hc)
        · cases List.mem_singleton.mp he
          exact absurd rfl heq
    · refine turnIs_writeTurn hturns (hs.applied t hin) fun hid' => ?_
      have happlied := hs.applied t hin
      rw [hid', hid] at happlied
      have := turnIs_unique happlied ⟨turn, hturn, rfl⟩
      rw [← this] at hstatus
      simp at hstatus
  | apply id now =>
    obtain ⟨e, hfind, hmove⟩ := Option.bind_eq_some_iff.mp h
    have he : e ∈ s.executions := List.mem_of_find?_eq_some hfind
    have hid : e.id = id := by simpa using List.find?_some hfind
    have hlast := hok e he hid
    simp only [executionStep] at hmove
    split at hmove
    · split at hmove
      · rename_i db happly
        cases hmove
        obtain ⟨turn, ended, hturn, ⟨hsame, -⟩, hstatus, hturns⟩ := apply_turns happly
        have hended := hsame.trans (Db.turn?_eq_some hturn).2
        refine hs.ended hn he hlast hended hturns rfl rfl ?_
        dsimp only
        split
        · rename_i hany
          refine .inr ⟨rfl, ?_⟩
          rw [turn?_writeTurn hturns hturn, if_pos hended.symm] at hany
          simpa using hany
        · exact .inl rfl
      · cases hmove
        refine hs.kept rfl rfl (fun x hx => ?_) fun _ _ hstatus => hstatus
        obtain ⟨hx, -⟩ | ⟨-, -, -, rfl⟩ := mem_setExecution.mp hx
        · exact ⟨x, hx, rfl, rfl⟩
        · exact ⟨e, he, rfl, rfl⟩
    · cases hmove
  | fail id now =>
    obtain ⟨e, hfind, hmove⟩ := Option.bind_eq_some_iff.mp h
    have he : e ∈ s.executions := List.mem_of_find?_eq_some hfind
    have hid : e.id = id := by simpa using List.find?_some hfind
    simp only [executionStep] at hmove
    split at hmove
    · rename_i code _
      cases hmove
      obtain hsame | ⟨turn, failed, hturn, happlied, hstale, ⟨hfailed, -⟩, hturns⟩ := fail_turns s.db e.service e.turnId code now
      · refine hs.kept rfl rfl (fun x hx => ⟨x, (mem_dropExecution.mp hx).1, rfl, rfl⟩) fun turnId status hstatus => ?_
        show (fail s.db e.service e.turnId code now).turnIs turnId status
        rw [hsame]
        exact hstatus
      · have hlast : e.last s := by
          obtain hlast | hdone | hdone := hok e he hid
          · exact hlast
          · exact absurd (turnIs_unique ⟨turn, hturn, rfl⟩ hdone) happlied
          · exact absurd (turnIs_unique ⟨turn, hturn, rfl⟩ hdone) hstale
        exact hs.ended hn he hlast (hfailed.trans (Db.turn?_eq_some hturn).2) hturns rfl rfl (.inl rfl)
    · cases hmove
  | _ =>
    obtain ⟨hclaims, hexecutions⟩ := executions_kept h nofun
    refine hs.kept hclaims (applied_kept h nofun) hexecutions fun turnId status hstatus => ?_
    obtain ⟨turn, hturn, rfl⟩ := hstatus
    exact step_turn_status h ⟨nofun, nofun, nofun⟩ hturn

theorem Fenced.init (versions : List Nat) : Fenced (Sys.init versions) :=
  ⟨by simp [Sys.init], List.nodup_nil, by simp [Sys.init]⟩

/-- The action is the execution's `apply` or `fail`. -/
def finishes (id : Nat) : Action → Prop
  | .apply e _ | .fail e _ => e = id
  | _ => False

instance (id : Nat) (action : Action) : Decidable (finishes id action) := by
  induction action using Action.casesOn <;> dsimp only [finishes] <;> infer_instance

/-- In a run in which only the execution of a turn's last claim applies or fails it, a decision is
    applied at most once, and an `apply` or `fail` of a superseded execution changes nothing. -/
theorem turns_fenced {versions : List Nat} (h : ReachIf step byLastClaim (Sys.init versions) s) :
    (∀ turn, s.applied.count turn ≤ 1) ∧
      ∀ action s', byLastClaim s action → step s action = some s' → ∀ e ∈ s.executions, finishes e.id action →
        e.superseded s → s'.db = s.db := by
  have hfenced : Fenced s := h.invariant_with (fun s => s.db.keys.Distinct ∧ Numbered s) Fenced
    (fun _ hr => ⟨reach_distinct hr, reach_numbered hr⟩) (.init versions)
    fun _ _ _ hi hs hok hstep => hs.step hi.1 hi.2 hok hstep
  refine ⟨List.nodup_iff_count_le_one.mp hfenced.nodup, fun action s' hok hstep e he hfin hsup => ?_⟩
  have hn := reach_numbered h
  -- the execution of the last claim has the turn running
  have hnot : ¬ e.last s := by
    intro hlast
    have hrunning := hfenced.holding e he hlast
    obtain ⟨claim, hc, hturn, hlt⟩ | hdone | hdone | hdone := hsup
    · exact absurd (hlast claim hc hturn) (Nat.not_le.mpr hlt)
    · cases turnIs_unique hrunning hdone
    · cases turnIs_unique hrunning hdone
    · cases turnIs_unique hrunning hdone
  cases action with
  | apply id now => exact absurd (hok e he hfin.symm) hnot
  | fail id now =>
    cases hfin
    obtain ⟨x, hfind, hmove⟩ := Option.bind_eq_some_iff.mp hstep
    have hx : x = e := Keyed.unique hn.ids (List.mem_of_find?_eq_some hfind) he (by simpa using List.find?_some hfind)
    subst hx
    have hdone := (hok x he rfl).resolve_left hnot
    simp only [executionStep] at hmove
    split at hmove
    · rename_i code _
      cases hmove
      obtain hsame | ⟨turn, failed, hturn, happlied, hstale, -⟩ := fail_turns s.db x.service x.turnId code now
      · exact hsame
      · obtain hdone | hdone := hdone
        · exact absurd (turnIs_unique ⟨turn, hturn, rfl⟩ hdone) happlied
        · exact absurd (turnIs_unique ⟨turn, hturn, rfl⟩ hdone) hstale
    · cases hmove
  | _ => exact hfin.elim

/-! ## A mission's first turn -/

def sampleTeam : TeamVersionRow where
  id := 0
  missionId := 0
  workflowVersionId := 7
  maxActiveAssignments := 2
  maxExecutionSeconds := 3600
  maxInferenceCalls := 4

def sampleService (owner : Nat) : Service where
  owner := owner
  mode := .real

def sampleProposal (key : String) (dependencies : List String) : WorkItemProposal where
  key := key
  title := key
  objective := key
  acceptanceCriteria := ["done"]
  dependencies := dependencies

theorem propose_incomplete : ManagerAction.propose = .complete → DecisionLifecycle.active = .completed := nofun

def sampleDecision : ManagerDecision where
  action := .propose
  message := "plan"
  workItems := [sampleProposal "a" [], sampleProposal "b" []]
  propose_iff := by decide
  complete_lifecycle := propose_incomplete
  keys_nodup := by decide
  dependencies_mem := by decide
  acyclic := by decide

/-- The owner creates mission 0 and asks for work; the turn is number 4. -/
def opening : List Action :=
  [.createMission sampleMission sampleTeam 0, .createMessage 0 "go" 1 false "message" 0]

/-- A service claims the turn and comes to its call, or to the stored result. -/
def callOf (execution owner now : Nat) : List Action :=
  [.claim (sampleService owner) [] now, .load execution (.ok { requestDigest := 0, inputTokens := 100, outputTokens := 100 }),
    .beginCall execution now]

/-- The provider answers and the result is stored. -/
def answerOf (execution now : Nat) : List Action :=
  [.invoke execution (some { decision := some sampleDecision, inputTokens := some 10, outputTokens := some 10 }),
    .storeReceipt execution now]

/-- The first turn is answered: items 5 and 6 are ready. -/
def planned : List Action := opening ++ callOf 0 1 0 ++ answerOf 0 0 ++ [.apply 0 1]

/-- The owner controls the mission. -/
def controlOf (action : ControlAction) (version : Nat) (h : action ≠ .safePoint) : MissionControlRequest where
  action := action
  expectedVersion := version
  idempotencyKey := "control:" ++ toString version
  instruction_iff := by simp [h]

/-- The call fails; the next owner finds the marker and does not call again. -/
theorem invoked_once_after_failure :
    ∃ s, Reach step (Sys.init [7]) s ∧ s.executions.map (·.pc) = [.fail .managementReceiptReconciliationRequired] ∧
      s.invocations = [.fresh 4] ∧ s.invocations.count (.fresh 4) ≤ 1 := by
  let actions := opening ++ callOf 0 1 0 ++ [.invoke 0 none, .fail 0 1] ++ callOf 1 2 10
  have hrun : (run step (Sys.init [7]) actions).any (fun s =>
      s.executions.map (·.pc) = [.fail .managementReceiptReconciliationRequired] ∧ s.invocations = [.fresh 4]) = true := by
    decide +kernel
  obtain ⟨s, hs, hend⟩ := (Option.any_eq_true _ _).mp hrun
  have hreach := run_reach actions hs
  exact ⟨s, hreach, (of_decide_eq_true hend).1, (of_decide_eq_true hend).2, invoked_once hreach _⟩

/-- The first owner stalls after its call; the second claims the turn, finds the result and applies
    it, and then the first applies it again. -/
theorem decision_applied_twice : ∃ s turn, Reach step (Sys.init [7]) s ∧ ¬ s.applied.count turn ≤ 1 := by
  let actions := opening ++ callOf 0 1 0 ++ answerOf 0 0 ++ callOf 1 2 400 ++ [.apply 1 401, .apply 0 402]
  have hrun : (run step (Sys.init [7]) actions).any (fun s => ¬ s.applied.count (.fresh 4) ≤ 1) = true := by decide +kernel
  obtain ⟨s, hs, htwice⟩ := (Option.any_eq_true _ _).mp hrun
  exact ⟨s, .fresh 4, run_reach actions hs, of_decide_eq_true htwice⟩

/-- Where the first owner fails only after the second has applied, nothing is lost. -/
theorem turns_fenced_after_reclaim :
    ∃ s s' e, ReachIf step byLastClaim (Sys.init [7]) s ∧ s.applied = [.fresh 4] ∧ e ∈ s.executions ∧ e.superseded s ∧
      step s (.fail 0 402) = some s' ∧ s'.db = s.db := by
  let actions := opening ++ [.claim (sampleService 1) [] 0] ++ callOf 1 2 400 ++ answerOf 1 400 ++
    [.apply 1 401, .load 0 (.error .managementContextMissing)]
  have hrun : (runIf step byLastClaim (Sys.init [7]) actions).any (fun s => s.applied = [.fresh 4] ∧ byLastClaim s (.fail 0 402) ∧
      (step s (.fail 0 402)).isSome ∧
      s.executions.any (fun e => finishes e.id (.fail 0 402) ∧ s.db.turnIs e.turnId .applied)) = true := by
    decide +kernel
  obtain ⟨s, hs, hend⟩ := (Option.any_eq_true _ _).mp hrun
  obtain ⟨happlied, hok, hsome, hany⟩ := of_decide_eq_true hend
  obtain ⟨e, he, hfin⟩ := List.any_eq_true.mp hany
  obtain ⟨hfin, hdone⟩ := of_decide_eq_true hfin
  obtain ⟨s', hs'⟩ := Option.isSome_iff_exists.mp hsome
  have hreach := runIf_reachIf actions hs
  have hsup : e.superseded s := .inr (.inl hdone)
  exact ⟨s, s', e, hreach, happlied, he, hsup, hs', (turns_fenced hreach).2 _ _ hok hs' e he hfin hsup⟩

end Jarvis.Missions
