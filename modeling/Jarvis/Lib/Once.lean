/-
  Jarvis.Lib.Once — requests that take effect once.

  A state keeps, under the key of each request, the digest of the request and what it was answered. A
  request whose key is on record is answered from there if its digest is the same, and refused if not; one
  whose key is new is carried out and recorded. So a request that was accepted can be sent again at any
  time: it gets its answer and does nothing (`serve_recorded`), as long as records are kept.
-/
import Jarvis.Lib.Keyed
import Jarvis.Lib.Steps

namespace Jarvis.Once

structure Entry (κ δ ρ : Type) where
  key : κ
  digest : δ
  response : ρ

/-- Where a state keeps its records. -/
structure Table (σ κ δ ρ : Type) where
  entries : σ → List (Entry κ δ ρ)
  record : σ → Entry κ δ ρ → σ
  entries_record : ∀ s e, entries (record s e) = entries s ++ [e]

variable {σ κ δ ρ ε : Type} {table : Table σ κ δ ρ} {s t : σ} {key : κ} {digest : δ} {run : Except ε (ρ × σ)} {response : ρ}

/-- A request that is accepted is answered from a record, or carried out and recorded. -/
inductive Served (table : Table σ κ δ ρ) (s : σ) (key : κ) (digest : δ) (run : Except ε (ρ × σ)) (response : ρ) : σ → Prop
  | again (h : ⟨key, digest, response⟩ ∈ table.entries s) : Served table s key digest run response s
  | fresh {done : σ} (hfresh : ∀ e ∈ table.entries s, e.key ≠ key) (hrun : run = .ok (response, done)) :
      Served table s key digest run response (table.record done ⟨key, digest, response⟩)

/-- What was accepted is on record. -/
theorem Served.recorded (h : Served table s key digest run response t) : ⟨key, digest, response⟩ ∈ table.entries t := by
  cases h with
  | again h => exact h
  | fresh =>
    rw [table.entries_record]
    exact List.mem_append_right _ (.head _)

/-- Keys stay distinct where what carries requests out leaves the records alone. -/
theorem Served.nodup (h : Served table s key digest run response t) (hs : ((table.entries s).map Entry.key).Nodup)
    (hrun : ∀ done, run = .ok (response, done) → table.entries done = table.entries s) : ((table.entries t).map Entry.key).Nodup := by
  cases h with
  | again => exact hs
  | fresh hfresh hdone =>
    rw [table.entries_record, hrun _ hdone]
    exact Keyed.nodup_append hs hfresh

theorem Served.prefix (h : Served table s key digest run response t)
    (hrun : ∀ done, run = .ok (response, done) → table.entries done = table.entries s) : table.entries s <+: table.entries t := by
  cases h with
  | again => exact List.prefix_rfl
  | fresh hfresh hdone =>
    rw [table.entries_record, hrun _ hdone]
    exact List.prefix_append _ _

variable [DecidableEq κ] [DecidableEq δ]

/-- A request in the state `s`, which `run` carries out where it is new. -/
def serve (table : Table σ κ δ ρ) (s : σ) (key : κ) (digest : δ) (conflict : ε) (run : Except ε (ρ × σ)) : Except ε (ρ × σ) :=
  match (table.entries s).find? fun e => e.key = key with
  | some e => if e.digest = digest then .ok (e.response, s) else .error conflict
  | none => run.map fun done => (done.1, table.record done.2 ⟨key, digest, done.1⟩)

variable {conflict : ε}

theorem serve_ok (h : serve table s key digest conflict run = .ok (response, t)) : Served table s key digest run response t := by
  unfold serve at h
  cases hfound : (table.entries s).find? fun e => e.key = key with
  | some e =>
    simp only [hfound] at h
    by_cases hdigest : e.digest = digest
    · rw [if_pos hdigest] at h
      cases h
      have hkey : e.key = key := by simpa using List.find?_some hfound
      exact .again (hkey ▸ hdigest ▸ List.mem_of_find?_eq_some hfound)
    · rw [if_neg hdigest] at h
      cases h
  | none =>
    rw [hfound] at h
    obtain ⟨done, hrun, heq⟩ := Steps.map_ok h
    cases heq
    exact .fresh (by simpa using hfound) hrun

/-- A request whose key is on record. -/
theorem serve_recorded (hkeys : ((table.entries s).map Entry.key).Nodup) {e : Entry κ δ ρ} (he : e ∈ table.entries s) (hkey : e.key = key) :
    serve table s key digest conflict run = if e.digest = digest then .ok (e.response, s) else .error conflict := by
  have hfound : (table.entries s).find? (fun e => e.key = key) = some e := hkey ▸ Keyed.find?_of_mem hkeys he
  simp only [serve, hfound]

end Jarvis.Once
