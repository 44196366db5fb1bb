/-
  Jarvis.Workers.Attempts — what holds of a run's attempts and invocations in every run (`Inv`).

  An attempt stands between the execution that inserted it and its result: until a result is
  stored it is queued or running, whatever else happens. The attempts of a task are numbered in
  the order of the visits, so the latest is that of the last visit that inserted one.
-/
import Jarvis.Workers.Invocations

namespace Jarvis.Workers

open Steps
open Workflows (FailureClass)

variable {E T : Type}

/-! ## What holds in every run -/

/-- What holds of the rows, wherever the execution stands. -/
structure Rows (pool : Pool E) (attempts : List (Attempt E T)) (invocations : List (Invocation E T))
    (visits : List (E × T)) : Prop where
  numbered : pool.Numbered
  visited : (visits.map Prod.fst).Nodup
  attempted : (attempts.map Attempt.id).Sublist (visits.map Prod.fst)
  /-- A newer attempt of a task has a higher number. -/
  increasing : attempts.Pairwise fun a b => a.task = b.task → b.number < a.number
  invoked : (invocations.map Invocation.id).Nodup
  prepared : ∀ i ∈ invocations,
    i.request.attempt = i.id ∧ (∃ a ∈ attempts, a.id = i.id) ∧ pool.Held i.lease i.id
  /-- An attempt without a result is still the worker's. -/
  opened : ∀ a ∈ attempts, (∀ i ∈ invocations, i.id = a.id → i.result = none) →
    a.status = .queued ∨ a.status = .running
  stored : ∀ i ∈ invocations, ∀ r, i.result = some r →
    r.attempt = i.id ∧ (r.status ≠ .succeeded → ∀ a ∈ attempts, a.id = i.id → a.status = .failed)

def NoInvocation (s : St E T) (e : E) : Prop := ∀ i ∈ s.invocations, i.id ≠ e

/-- What an execution has done by the point it has reached. -/
def Standing (s : St E T) (x : Execution E T) : Prop :=
  match x.pc with
  | .entered | .settling _ | .recorded _ => True
  | .dispatching | .requesting => NoInvocation s x.key
  | .requested r => NoInvocation s x.key ∧ r.attempt = x.key ∧ ∃ a ∈ s.attempts, a.id = x.key
  | .acquired r lease =>
    NoInvocation s x.key ∧ (r.attempt = x.key ∧ ∃ a ∈ s.attempts, a.id = x.key) ∧ s.pool.Held lease x.key
  | .validating | .preparing | .starting | .polling => ∃ i ∈ s.invocations, i.id = x.key ∧ i.result = none
  | .releasing _ => ∃ i ∈ s.invocations, i.id = x.key

structure Inv [DecidableEq E] (s : St E T) : Prop where
  rows : Rows s.pool s.attempts s.invocations s.visits
  current : ∀ x, s.exec = some x → (∃ rest, s.visits = (x.key, x.task) :: rest) ∧ hasEnded s x.key = false ∧ Standing s x
  earlier : ∀ v rest, s.visits = v :: rest → ∀ w ∈ rest, hasEnded s w.1 = true
  ended : ∀ v ∈ s.ended, v.1 ∈ s.visits.map Prod.fst

namespace Rows

variable {pool q : Pool E} {attempts : List (Attempt E T)} {invocations : List (Invocation E T)} {visits : List (E × T)}

theorem extend (h : Rows pool attempts invocations visits) (hq : q.Numbered) (he : pool.Extends q) :
    Rows q attempts invocations visits :=
  ⟨hq, h.visited, h.attempted, h.increasing, h.invoked,
    fun i hi => ⟨(h.prepared i hi).1, (h.prepared i hi).2.1, (h.prepared i hi).2.2.extends he⟩, h.opened, h.stored⟩

theorem visit (h : Rows pool attempts invocations visits) {e : E} (t : T) (he : ∀ v ∈ visits, v.1 ≠ e) :
    Rows pool attempts invocations ((e, t) :: visits) where
  numbered := h.numbered
  visited := by
    refine List.nodup_cons.mpr ⟨fun hin => ?_, h.visited⟩
    obtain ⟨v, hv, heq⟩ := List.mem_map.mp hin
    exact he v hv heq
  attempted := h.attempted.cons _
  increasing := h.increasing
  invoked := h.invoked
  prepared := h.prepared
  opened := h.opened
  stored := h.stored

/-- The attempt of a task is inserted with the next number. -/
theorem attempt (h : Rows pool attempts invocations visits) {a : Attempt E T}
    (ha : (a.id :: attempts.map Attempt.id).Sublist (visits.map Prod.fst)) (hno : ∀ i ∈ invocations, i.id ≠ a.id)
    (hnum : ∀ b ∈ attempts, a.task = b.task → b.number < a.number) (hst : a.status = .queued) :
    Rows pool (a :: attempts) invocations visits where
  numbered := h.numbered
  visited := h.visited
  attempted := ha
  increasing := List.pairwise_cons.mpr ⟨hnum, h.increasing⟩
  invoked := h.invoked
  prepared i hi := by
    obtain ⟨hr, ⟨b, hb, hid⟩, hl⟩ := h.prepared i hi
    exact ⟨hr, ⟨b, List.mem_cons_of_mem _ hb, hid⟩, hl⟩
  opened b hb hnone := by
    obtain rfl | hb := List.mem_cons.mp hb
    · exact .inl hst
    · exact h.opened b hb hnone
  stored i hi r hr := by
    refine ⟨(h.stored i hi r hr).1, fun hf b hb hid => ?_⟩
    obtain rfl | hb := List.mem_cons.mp hb
    · exact absurd hid.symm (hno i hi)
    · exact (h.stored i hi r hr).2 hf b hb hid

theorem invoke (h : Rows pool attempts invocations visits) {i : Invocation E T} (hno : ∀ j ∈ invocations, j.id ≠ i.id)
    (hreq : i.request.attempt = i.id) (ha : ∃ a ∈ attempts, a.id = i.id) (hl : pool.Held i.lease i.id)
    (hr : i.result = none) : Rows pool attempts (i :: invocations) visits where
  numbered := h.numbered
  visited := h.visited
  attempted := h.attempted
  increasing := h.increasing
  invoked := by
    refine List.nodup_cons.mpr ⟨fun hin => ?_, h.invoked⟩
    obtain ⟨j, hj, heq⟩ := List.mem_map.mp hin
    exact hno j hj heq
  prepared j hj := by
    obtain rfl | hj := List.mem_cons.mp hj
    · exact ⟨hreq, ha, hl⟩
    · exact h.prepared j hj
  opened a hin hnone := h.opened a hin fun j hj => hnone j (List.mem_cons_of_mem _ hj)
  stored j hj r hres := by
    obtain rfl | hj := List.mem_cons.mp hj
    · rw [hr] at hres; cases hres
    · exact h.stored j hj r hres

variable [DecidableEq E]

/-- A rewrite of an attempt that leaves its identity, its task and its number. -/
theorem increasing_replace {e : E} {g : Attempt E T → Attempt E T}
    (hg : ∀ a, (g a).id = a.id ∧ (g a).task = a.task ∧ (g a).number = a.number)
    (h : attempts.Pairwise fun a b => a.task = b.task → b.number < a.number) :
    (Keyed.replace Attempt.id e g attempts).Pairwise fun a b => a.task = b.task → b.number < a.number := by
  have hsame : ∀ a : Attempt E T, (if a.id = e then g a else a).task = a.task ∧
      (if a.id = e then g a else a).number = a.number := by
    intro a
    split
    · exact (hg a).2
    · exact ⟨rfl, rfl⟩
  refine List.pairwise_map.mpr (h.imp fun {a b} hab htask => ?_)
  rw [(hsame a).2, (hsame b).2]
  exact hab (by rw [← (hsame a).1, ← (hsame b).1]; exact htask)

theorem mem_replace_id {e k : E} {g : Attempt E T → Attempt E T}
    (hg : ∀ a, (g a).id = a.id ∧ (g a).task = a.task ∧ (g a).number = a.number) (h : ∃ a ∈ attempts, a.id = k) :
    ∃ a ∈ Keyed.replace Attempt.id e g attempts, a.id = k := by
  obtain ⟨a, ha, hid⟩ := h
  by_cases hk : a.id = e
  · exact ⟨g a, Keyed.mem_replace.mpr (.inr ⟨a, ha, hk, rfl⟩), (hg a).1.trans hid⟩
  · exact ⟨a, Keyed.mem_replace.mpr (.inl ⟨ha, hk⟩), hid⟩

/-- An attempt is rewritten: its identity, its task and its number stay. -/
theorem rewrite (h : Rows pool attempts invocations visits) {e : E} {g : Attempt E T → Attempt E T}
    (hg : ∀ a, (g a).id = a.id ∧ (g a).task = a.task ∧ (g a).number = a.number)
    (hopen : ∀ a ∈ attempts, a.id = e → (∀ i ∈ invocations, i.id = e → i.result = none) →
      (g a).status = .queued ∨ (g a).status = .running)
    (hstored : ∀ i ∈ invocations, ∀ r, i.result = some r → r.status ≠ .succeeded → i.id = e →
      ∀ a ∈ attempts, a.id = e → (g a).status = .failed) :
    Rows pool (Keyed.replace Attempt.id e g attempts) invocations visits where
  numbered := h.numbered
  visited := h.visited
  attempted := by
    rw [Keyed.map_key_replace fun a ha => (hg a).1.trans ha]
    exact h.attempted
  increasing := increasing_replace hg h.increasing
  invoked := h.invoked
  prepared i hi := ⟨(h.prepared i hi).1, mem_replace_id hg (h.prepared i hi).2.1, (h.prepared i hi).2.2⟩
  opened a ha hnone := by
    obtain ⟨ha, -⟩ | ⟨old, hold, hid, rfl⟩ := Keyed.mem_replace.mp ha
    · exact h.opened a ha hnone
    · refine hopen old hold hid fun i hi hie => hnone i hi ?_
      rw [hie, (hg old).1, hid]
  stored i hi r hr := by
    refine ⟨(h.stored i hi r hr).1, fun hf a ha hid => ?_⟩
    obtain ⟨ha, -⟩ | ⟨old, hold, hoid, rfl⟩ := Keyed.mem_replace.mp ha
    · exact (h.stored i hi r hr).2 hf a ha hid
    · refine hstored i hi r hr hf ?_ old hold hoid
      rw [← hid, (hg old).1, hoid]

/-- The result of an invocation is stored, and its attempt is moved. -/
theorem store (h : Rows pool attempts invocations visits) {e : E} {r : WorkerResult E T} {g : Attempt E T → Attempt E T}
    (hr : r.attempt = e) (hi : ∃ i ∈ invocations, i.id = e)
    (hg : ∀ a, (g a).id = a.id ∧ (g a).task = a.task ∧ (g a).number = a.number)
    (hfailed : r.status ≠ .succeeded → ∀ a, (g a).status = .failed) :
    Rows pool (Keyed.replace Attempt.id e g attempts)
      (Keyed.replace Invocation.id e (fun i => { i with result := some r }) invocations) visits where
  numbered := h.numbered
  visited := h.visited
  attempted := by
    rw [Keyed.map_key_replace fun a ha => (hg a).1.trans ha]
    exact h.attempted
  increasing := increasing_replace hg h.increasing
  invoked := by
    have hids := @Keyed.map_key_replace _ _ Invocation.id invocations _ e (fun i => { i with result := some r }) fun _ hid => hid
    rw [hids]
    exact h.invoked
  prepared i hin := by
    obtain ⟨hin, -⟩ | ⟨old, hold, -, rfl⟩ := Keyed.mem_replace.mp hin
    · exact ⟨(h.prepared i hin).1, mem_replace_id hg (h.prepared i hin).2.1, (h.prepared i hin).2.2⟩
    · exact ⟨(h.prepared old hold).1, mem_replace_id hg (h.prepared old hold).2.1, (h.prepared old hold).2.2⟩
  opened a ha hnone := by
    obtain ⟨ha, hne⟩ | ⟨old, hold, hid, rfl⟩ := Keyed.mem_replace.mp ha
    · refine h.opened a ha fun i hin hid => hnone i (Keyed.mem_replace.mpr (.inl ⟨hin, ?_⟩)) hid
      rw [hid]
      exact hne
    · obtain ⟨i, hin, hie⟩ := hi
      have hres := hnone { i with result := some r } (Keyed.mem_replace.mpr (.inr ⟨i, hin, hie, rfl⟩))
        (by rw [(hg old).1, hid]; exact hie)
      cases hres
  stored i hin r' hr' := by
    obtain ⟨hin, hne⟩ | ⟨old, hold, hid, rfl⟩ := Keyed.mem_replace.mp hin
    · refine ⟨(h.stored i hin r' hr').1, fun hf a ha haid => ?_⟩
      obtain ⟨ha, -⟩ | ⟨was, hwas, hwid, rfl⟩ := Keyed.mem_replace.mp ha
      · exact (h.stored i hin r' hr').2 hf a ha haid
      · exact absurd (by rw [← haid, (hg was).1, hwid]) hne
    · cases hr'
      refine ⟨hr.trans hid.symm, fun hf a ha haid => ?_⟩
      obtain ⟨-, hne⟩ | ⟨was, -, -, rfl⟩ := Keyed.mem_replace.mp ha
      · exact absurd (haid.trans hid) hne
      · exact hfailed hf was

end Rows

theorem Standing.mono {s t : St E T} {x : Execution E T} (h : Standing s x) (hi : t.invocations = s.invocations)
    (ha : ∀ e, (∃ a ∈ s.attempts, a.id = e) → ∃ a ∈ t.attempts, a.id = e) (hp : s.pool.Extends t.pool) : Standing t x := by
  unfold Standing NoInvocation at h ⊢
  rw [hi]
  split at h
  all_goals try exact h
  · exact ⟨h.1, h.2.1, ha _ h.2.2⟩
  · exact ⟨h.1, ⟨h.2.1.1, ha _ h.2.1.2⟩, h.2.2.extends hp⟩

section Lookup

variable {s : St E T}

theorem mem_of_attempt? [DecidableEq E] {e : E} {a : Attempt E T} (h : s.attempt? e = some a) : a ∈ s.attempts ∧ a.id = e :=
  ⟨List.mem_of_find?_eq_some h, by simpa using List.find?_some h⟩

theorem mem_of_invocation? [DecidableEq E] {e : E} {i : Invocation E T} (h : s.invocation? e = some i) : i ∈ s.invocations ∧ i.id = e :=
  ⟨List.mem_of_find?_eq_some h, by simpa using List.find?_some h⟩

theorem noInvocation [DecidableEq E] {e : E} (h : s.invocation? e = none) : NoInvocation s e :=
  fun i hi heq => absurd (List.find?_eq_none.mp h i hi) (by simp [heq])

theorem attempt?_none [DecidableEq E] {e : E} (h : s.attempt? e = none) : ∀ a ∈ s.attempts, a.id ≠ e :=
  fun a ha heq => absurd (List.find?_eq_none.mp h a ha) (by simp [heq])

theorem mem_of_latest? [DecidableEq T] {t : T} {a : Attempt E T} (h : s.latest? t = some a) : a ∈ s.attempts ∧ a.task = t := by
  have hmem : a ∈ s.attempts.filter fun a => a.task = t := List.argmax_mem h
  simpa using hmem

/-- No attempt of the task has a higher number than the latest. -/
theorem le_latest? [DecidableEq T] {t : T} {b : Attempt E T} (hb : b ∈ s.attempts) (ht : b.task = t) :
    ∃ a, s.latest? t = some a ∧ b.number ≤ a.number := by
  have hmem : b ∈ s.attempts.filter fun a => a.task = t := by simp [hb, ht]
  cases h : s.latest? t with
  | none =>
    rw [St.latest?, List.argmax_eq_none] at h
    exact absurd (h ▸ hmem) List.not_mem_nil
  | some a => exact ⟨a, rfl, List.le_of_mem_argmax hmem h⟩

/-- What the request source does when it does not refuse. -/
theorem request_ok [DecidableEq E] [DecidableEq T] {B : Binding} {u : St E T} {e : E} {t : T} {profile : Nat} {r : Request E T}
    (h : request B s e t profile = .ok (u, r)) :
    (u = s ∧ r.attempt = e ∧ ∃ a ∈ s.attempts, a.id = e) ∨
      ∃ a : Attempt E T, s.attempt? e = none ∧ u = { s with attempts := a :: s.attempts } ∧ r.attempt = e ∧ a.id = e ∧
        a.task = t ∧ a.status = .queued ∧ ∀ b ∈ s.attempts, a.task = b.task → b.number < a.number := by
  unfold request at h
  split at h
  · rename_i a ha
    cases h
    obtain ⟨hin, hid⟩ := mem_of_attempt? ha
    exact .inl ⟨rfl, hid, a, hin, hid⟩
  · rename_i hnone
    split at h
    · cases h
    · cases h
      refine .inr ⟨_, hnone, rfl, rfl, rfl, rfl, rfl, fun b hb htask => ?_⟩
      obtain ⟨latest, hlatest, hle⟩ := le_latest? hb htask.symm
      show b.number < ((s.latest? t).map Attempt.number).getD 0 + 1
      rw [hlatest]
      exact Nat.lt_succ_of_le hle

/-- Only an attempt with a successful result is judged. -/
theorem verified_cases [DecidableEq E] [DecidableEq T] {u : St E T} {t : T} {status : AttemptStatus}
    (h : verified s t status = some u) :
    ∃ (a : Attempt E T) (i : Invocation E T) (r : WorkerResult E T), i ∈ s.invocations ∧ i.request.attempt = a.id ∧ i.result = some r ∧ r.status = .succeeded ∧
      u = s.setAttempt a.id fun a => { a with status } := by
  unfold verified at h
  split at h
  · cases h
  rename_i a ha
  split at h
  · cases h
  rename_i r hr
  split at h
  · rename_i hok
    cases h
    obtain ⟨i, hi, hres⟩ := Option.bind_eq_some_iff.mp hr
    have hatt := List.find?_some hi
    simp only [Bool.and_eq_true, decide_eq_true_eq] at hatt
    exact ⟨a, i, r, List.mem_of_find?_eq_some hi, hatt.1, hres, hok.1, rfl⟩
  · cases h

end Lookup

namespace Inv

variable [DecidableEq E] {B : Binding} {s t : St E T} {x : Execution E T}

theorem init : Inv (Workers.init E T) where
  rows := ⟨⟨List.nodup_nil, fun _ hm => absurd hm List.not_mem_nil⟩, List.nodup_nil, List.Sublist.refl _, List.Pairwise.nil,
    List.nodup_nil, fun _ hi => absurd hi List.not_mem_nil, fun _ ha => absurd ha List.not_mem_nil,
    fun _ hi => absurd hi List.not_mem_nil⟩
  current _ hy := by cases hy
  earlier _ _ hv := by cases hv
  ended _ hv := absurd hv List.not_mem_nil

theorem halt (h : Inv s) : Inv s.halt :=
  ⟨h.rows, fun _ hy => absurd hy (by simp [St.halt]), h.earlier, h.ended⟩

theorem proceed (h : Inv s) (hx : s.exec = some x) {pc : Pc E T} (hstand : Standing s { x with pc }) : Inv (s.at x pc) := by
  refine ⟨h.rows, fun y hy => ?_, h.earlier, h.ended⟩
  cases hy
  exact ⟨(h.current x hx).1, (h.current x hx).2.1, hstand.mono rfl (fun _ ha => ha) Pool.Extends.refl⟩

/-- An execution in progress has not ended. -/
theorem not_ended (h : Inv s) (hx : s.exec = some x) (outcome : Outcome) : (x.key, outcome) ∉ s.ended := by
  intro hin
  have hended : hasEnded s x.key = true := List.any_eq_true.mpr ⟨_, hin, decide_eq_true rfl⟩
  rw [(h.current x hx).2.1] at hended
  cases hended

theorem hasEnded_cons {e : E} {v : E × Outcome} (h : hasEnded s e = true) :
    hasEnded { s with ended := v :: s.ended } e = true := by
  simp only [hasEnded, List.any_cons] at h ⊢
  rw [h, Bool.or_true]

theorem finish (h : Inv s) (hx : s.exec = some x) (outcome : Outcome) : Inv (s.finish x outcome) := by
  refine ⟨h.rows, fun _ hy => absurd hy (by simp [St.finish]),
    fun v rest hv w hw => hasEnded_cons (h.earlier v rest hv w hw), fun v hv => ?_⟩
  obtain rfl | hv := List.mem_cons.mp hv
  · obtain ⟨rest, hvisits⟩ := (h.current x hx).1
    show x.key ∈ s.visits.map Prod.fst
    rw [hvisits]
    exact List.mem_cons_self
  · exact h.ended v hv

theorem fail (h : Inv s) (hx : s.exec = some x) (cls : FailureClass) : Inv (s.fail x cls) := by
  unfold St.fail
  split
  · exact h.finish hx _
  · exact h.halt

/-- The slots move on, and what the execution stands on stays. -/
theorem slots (h : Inv s) {q : Pool E} (hq : q.Numbered) (he : s.pool.Extends q) : Inv { s with pool := q } :=
  ⟨h.rows.extend hq he, fun y hy => ⟨(h.current y hy).1, (h.current y hy).2.1,
    (h.current y hy).2.2.mono rfl (fun _ ha => ha) he⟩, h.earlier, h.ended⟩

theorem enter (h : Inv s) {e : E} {task : T} (hv : ∃ rest, s.visits = (e, task) :: rest) (hended : hasEnded s e = false) :
    Inv (s.enter e task) := by
  refine ⟨h.rows, fun y hy => ?_, h.earlier, h.ended⟩
  cases hy
  refine ⟨hv, hended, ?_⟩
  unfold Standing
  split <;> first | trivial | (rename_i heq; revert heq; split <;> intro heq <;> cases heq)

theorem visit (h : Inv s) {e : E} {task : T} (hidle : idle s = true) (hnew : ∀ v ∈ s.visits, v.1 ≠ e) :
    Inv ({ s with visits := (e, task) :: s.visits }.enter e task) := by
  have hvisited : Inv { s with exec := none, visits := (e, task) :: s.visits } := by
    refine ⟨h.rows.visit task hnew, fun _ hy => absurd hy (by simp), fun v rest hv w hw => ?_,
      fun v hv => List.mem_cons_of_mem _ (h.ended v hv)⟩
    cases hv
    simp only [idle, Bool.and_eq_true, List.all_eq_true] at hidle
    exact hidle.2 w hw
  refine hvisited.enter ⟨_, rfl⟩ (Bool.eq_false_iff.mpr fun hended => ?_)
  obtain ⟨v, hv, heq⟩ := List.any_eq_true.mp hended
  obtain ⟨w, hw, hkey⟩ := List.mem_map.mp (h.ended v hv)
  exact hnew w hw (hkey.trans (by simpa using heq))

theorem activate (h : Inv s) (hx : s.exec = some x) {r : Request E T} {lease : SlotFence} (hpc : x.pc = .acquired r lease)
    (digest : String) : Inv (Workers.activate s x r lease digest) := by
  obtain ⟨hvisits, hended, hstand⟩ := h.current x hx
  obtain ⟨hno, ⟨hid, hin⟩, hheld⟩ : NoInvocation s x.key ∧ (r.attempt = x.key ∧ ∃ a ∈ s.attempts, a.id = x.key) ∧
      s.pool.Held lease x.key := by simpa only [Standing, hpc] using hstand
  unfold Workers.activate
  split
  · have hg : ∀ a : Attempt E T, ({ a with status := .running } : Attempt E T).id = a.id ∧
        ({ a with status := .running } : Attempt E T).task = a.task ∧
        ({ a with status := .running } : Attempt E T).number = a.number := fun _ => ⟨rfl, rfl, rfl⟩
    have hrows := h.rows.rewrite (e := r.attempt) hg (fun _ _ _ _ => .inr rfl)
      fun i hi _ _ _ hie => absurd (hie.trans hid) (hno i hi)
    have hrows := hrows.invoke (i := ⟨x.key, r, digest, lease, none⟩) hno hid (Rows.mem_replace_id hg hin) hheld rfl
    refine ⟨hrows, fun y hy => ?_, h.earlier, h.ended⟩
    cases hy
    exact ⟨hvisits, hended, ⟨x.key, r, digest, lease, none⟩, List.mem_cons_self, rfl, rfl⟩
  · exact h.halt

variable [DecidableEq T]

/-- The request source inserts the attempt of the visit. -/
theorem request (h : Inv s) (hx : s.exec = some x) (hpc : x.pc = .requesting) {profile : Nat} {r : Request E T}
    (hr : Workers.request B s x.key x.task profile = .ok (t, r)) : Inv (t.at x (.requested r)) := by
  obtain ⟨⟨rest, hvisits⟩, hended, hstand⟩ := h.current x hx
  have hno : NoInvocation s x.key := by simpa only [Standing, hpc] using hstand
  obtain ⟨rfl, hid, hin⟩ | ⟨a, hnone, rfl, hid, haid, -, hqueued, hnum⟩ := request_ok hr
  · exact h.proceed hx ⟨hno, hid, hin⟩
  · have hkeys : (s.attempts.map Attempt.id).Sublist (rest.map Prod.fst) := by
      have hsub := h.rows.attempted
      rw [hvisits, List.map_cons, List.sublist_cons_iff] at hsub
      obtain hsub | ⟨l, hl, -⟩ := hsub
      · exact hsub
      · have hmem : x.key ∈ s.attempts.map Attempt.id := by rw [hl]; exact List.mem_cons_self
        obtain ⟨b, hb, hbid⟩ := List.mem_map.mp hmem
        exact absurd hbid (attempt?_none hnone b hb)
    have hrows : Rows s.pool (a :: s.attempts) s.invocations s.visits := by
      refine h.rows.attempt ?_ (by rw [haid]; exact hno) hnum hqueued
      rw [hvisits, haid]
      exact hkeys.cons_cons _
    refine ⟨hrows, fun y hy => ?_, h.earlier, h.ended⟩
    cases hy
    exact ⟨⟨rest, hvisits⟩, hended, hno, hid, a, List.mem_cons_self, haid⟩

theorem store (h : Inv s) (hx : s.exec = some x) {i : Invocation E T} (hi : s.invocation? x.key = some i)
    {r : WorkerResult E T} (hr : r.answers i = true) : Inv (s.store x r) := by
  obtain ⟨hvisits, hended, -⟩ := h.current x hx
  obtain ⟨hin, hid⟩ := mem_of_invocation? hi
  have hattempt : r.attempt = x.key := by
    simp only [WorkerResult.answers, Bool.and_eq_true, decide_eq_true_eq] at hr
    rw [hr.1.1.1.1.1.2, (h.rows.prepared i hin).1, hid]
  have hrows := h.rows.store (e := x.key) (r := r) hattempt ⟨i, hin, hid⟩
    (g := fun a => { a with
      status := if r.status = .succeeded then .verifying else .failed, resultSha := some r.endHead })
    (fun _ => ⟨rfl, rfl, rfl⟩) fun hf a => if_neg hf
  refine ⟨?_, fun y hy => ?_, h.earlier, h.ended⟩
  · show Rows s.pool (Keyed.replace Attempt.id r.attempt _ s.attempts) _ s.visits
    rw [hattempt]
    exact hrows
  · cases hy
    exact ⟨hvisits, hended, { i with result := some r }, Keyed.mem_replace.mpr (.inr ⟨i, hin, hid, rfl⟩), hid⟩

theorem inspect (h : Inv s) (hx : s.exec = some x) (answer : Except FailureClass (Reconciled E T)) :
    Inv (Workers.inspect B s x answer) := by
  unfold Workers.inspect
  split
  · rename_i hnone
    split
    · exact h.proceed hx (noInvocation hnone)
    · exact h.halt
  · rename_i i hi
    obtain ⟨hin, hid⟩ := mem_of_invocation? hi
    split
    · exact h.proceed hx trivial
    · rename_i hres
      split
      · have hs : Inv { s with pool := s.pool.renew s.now B.ttl i.lease } :=
          h.slots (h.rows.numbered.renew _ _ _) (Pool.renew_extends _ _)
        unfold inspectPrepared
        split
        · exact hs.fail hx _
        · split
          · exact hs.proceed hx ⟨i, hin, hid, hres⟩
          · exact hs.halt
        · exact hs.halt
        · split
          · rename_i pool hrel
            exact (hs.slots (hs.rows.numbered.release hrel) (Pool.release_extends hrel)).halt
          · exact hs.halt
        · exact hs.fail hx _
        · exact hs.proceed hx ⟨i, hin, hid, hres⟩
        · exact hs.proceed hx ⟨i, hin, hid⟩
        · split
          · rename_i hr
            exact hs.store hx hi hr
          · exact hs.halt
      · exact h.halt

theorem verified (h : Inv s) {task : T} {status : AttemptStatus} (hv : Workers.verified s task status = some t) : Inv t := by
  obtain ⟨a, i, r, hi, hatt, hres, hok, rfl⟩ := verified_cases hv
  have hid : i.id = a.id := (h.rows.prepared i hi).1.symm.trans hatt
  have hg : ∀ b : Attempt E T, ({ b with status } : Attempt E T).id = b.id ∧
      ({ b with status } : Attempt E T).task = b.task ∧ ({ b with status } : Attempt E T).number = b.number :=
    fun _ => ⟨rfl, rfl, rfl⟩
  refine ⟨h.rows.rewrite hg (fun _ _ _ hnone => ?_) (fun j hj r' hr' hf hjd => ?_), fun y hy => ?_, h.earlier, h.ended⟩
  · rw [hnone i hi hid] at hres
    cases hres
  · obtain rfl := Keyed.unique h.rows.invoked hi hj (hid.trans hjd.symm)
    rw [hres] at hr'
    cases hr'
    exact absurd hok hf
  · exact ⟨(h.current y hy).1, (h.current y hy).2.1,
      (h.current y hy).2.2.mono rfl (fun _ hin => Rows.mem_replace_id hg hin) Pool.Extends.refl⟩

/-- A move of the execution. -/
theorem execStep (h : Inv s) (hx : s.exec = some x) {act : Act E T} (hs : Workers.execStep B s x act = some t) : Inv t := by
  have hstand := (h.current x hx).2.2
  cases act with
  | tick | visit | resume | verified | grant | giveBack => cases hs
  | stop => cases hs; exact h.halt
  | inspect answer =>
    simp only [Workers.execStep] at hs
    split at hs <;> cases hs
    exact h.inspect hx answer
  | prepareWorkspace error =>
    simp only [Workers.execStep] at hs
    split at hs
    · rename_i hpc
      have hno : NoInvocation s x.key := by simpa only [Standing, hpc] using hstand
      split at hs <;> cases hs
      · exact h.fail hx _
      · exact h.proceed hx hno
    · cases hs
  | request profile admitted =>
    simp only [Workers.execStep] at hs
    split at hs
    · rename_i hpc
      split at hs
      · rename_i u r hr
        split at hs <;> cases hs
        · exact h.request hx hpc hr
        · exact h.halt
      · cases hs
        exact h.halt
    · cases hs
  | acquire =>
    simp only [Workers.execStep] at hs
    split at hs
    · rename_i r hpc
      obtain ⟨hno, hid, hin⟩ : NoInvocation s x.key ∧ r.attempt = x.key ∧ ∃ a ∈ s.attempts, a.id = x.key := by
        simpa only [Standing, hpc] using hstand
      split at hs
      · rename_i pool lease hacq
        cases hs
        obtain ⟨hkeeps, hnum, hheld⟩ := h.rows.numbered.acquire hacq
        exact (h.slots hnum hkeeps.extends).proceed hx ⟨hno, ⟨hid, hin⟩, hid ▸ hheld⟩
      · cases hs
        exact h
    · cases hs
  | activate digest =>
    simp only [Workers.execStep] at hs
    split at hs
    · rename_i hpc
      cases hs
      exact h.activate hx hpc digest
    · cases hs
  | validate report =>
    simp only [Workers.execStep] at hs
    split at hs
    · rename_i hpc
      cases hs
      unfold validated
      split
      · exact h.fail hx _
      · split
        · exact h.proceed hx (by simpa only [Standing, hpc] using hstand)
        · exact h.fail hx _
    · cases hs
  | prepare error =>
    simp only [Workers.execStep] at hs
    split at hs
    · rename_i hpc
      have hopen : ∃ i ∈ s.invocations, i.id = x.key ∧ i.result = none := by simpa only [Standing, hpc] using hstand
      split at hs <;> cases hs
      · exact h.fail hx _
      · exact h.proceed hx hopen
    · cases hs
  | start error =>
    simp only [Workers.execStep] at hs
    split at hs
    · rename_i hpc
      have hopen : ∃ i ∈ s.invocations, i.id = x.key ∧ i.result = none := by simpa only [Standing, hpc] using hstand
      split at hs
      · cases hs
        exact h.fail hx _
      · split at hs <;> cases hs
        · exact h.proceed hx hopen
        · exact h.halt
    · cases hs
  | renew =>
    simp only [Workers.execStep, Workers.renew] at hs
    split at hs
    · cases hs
    · split at hs <;> cases hs
      exact h.slots (h.rows.numbered.renew _ _ _) (Pool.renew_extends _ _)
  | release =>
    simp only [Workers.execStep] at hs
    split at hs
    · cases hs
      unfold Workers.release
      split
      · rename_i pool hpool
        obtain ⟨i, -, hrel⟩ := Option.bind_eq_some_iff.mp hpool
        exact (h.slots (h.rows.numbered.release hrel) (Pool.release_extends hrel)).proceed hx trivial
      · exact h.halt
    · cases hs
  | record =>
    simp only [Workers.execStep] at hs
    split at hs
    · rename_i outcome hpc
      cases hs
      have hrecorded : Inv { s with effects := (x.key, outcome) :: s.effects } := ⟨h.rows, h.current, h.earlier, h.ended⟩
      exact hrecorded.proceed hx trivial
    · cases hs
  | complete =>
    simp only [Workers.execStep] at hs
    split at hs
    · rename_i outcome hpc
      cases hs
      cases outcome with
      | none => exact h.finish hx _
      | some cls => exact h.fail hx cls
    · cases hs

theorem step (h : Inv s) {act : Act E T} (hs : Workers.step B s act = some t) : Inv t := by
  unfold Workers.step at hs
  split at hs
  · cases hs
    exact ⟨h.rows, h.current, h.earlier, h.ended⟩
  · split at hs
    · rename_i hguard
      cases hs
      simp only [Bool.and_eq_true, Bool.not_eq_true', List.any_eq_false, decide_eq_true_eq] at hguard
      exact h.visit hguard.1 hguard.2
    · cases hs
  · split at hs
    · rename_i e task hexec hhead
      split at hs
      · cases hs
      · rename_i hended
        cases hs
        obtain ⟨rest, hvisits⟩ : ∃ rest, s.visits = (e, task) :: rest := by
          cases hv : s.visits with
          | nil => rw [hv] at hhead; cases hhead
          | cons v rest => rw [hv] at hhead; cases hhead; exact ⟨rest, rfl⟩
        exact h.enter ⟨rest, hvisits⟩ (Bool.eq_false_iff.mpr hended)
    · cases hs
  · exact h.verified hs
  · split at hs <;> cases hs
    have hreg : (s.pool.register B.capacity).Numbered := h.rows.numbered
    exact h.slots (hreg.grant _ _ _) (Pool.grant_keeps _ _ _).extends
  · cases hs
    exact h.slots (h.rows.numbered.giveBack _) (Pool.giveBack_extends _)
  · obtain ⟨x, hx, hs⟩ := Option.bind_eq_some_iff.mp hs
    exact h.execStep hx hs

theorem reach {ok : St E T → Act E T → Prop} (h : ReachIf (Workers.step B) ok (Workers.init E T) s) : Inv s :=
  h.invariant Inv init fun _ _ _ hi _ hs => hi.step hs

end Inv

end Jarvis.Workers
