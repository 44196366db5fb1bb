/-
  Jarvis.Events.Stream — reading a run's events page by page (`EventRepository.page`,
  `EventStream.iter_frames` of `jarvis_api.events.sse`).

  A page is five statements, each on the log as it is then: the high watermark, the earliest
  position, the rows, the sequence before them and the sequences between them. Writers may
  commit between any two of them. A stream asks for the page after the last event it has
  emitted; a client that follows `next_after` does the same until there is none.
-/
import Jarvis.Events.Log
import Jarvis.Lib.Window

namespace Jarvis.Events

inductive PageError where
  | cursorRange
  | limitRange
  | cursorExpired (requested earliest latest : Nat)
  | sequenceGap (expected : Nat) (actual : Option Nat) (position : Nat)
  deriving DecidableEq, Repr

/-! ## The statements of a page -/

/-- `ORDER BY global_position`. -/
def inOrder (rows : List EventRow) : List EventRow := rows.insertionSort fun a b => a.globalPosition ≤ b.globalPosition

/-- The visibilities of a page. -/
def EventVisibility.shown : EventVisibility → Bool
  | .owner | .operator => true
  | .internal => false

/-- The checks of the arguments. -/
def checkArguments (after limit : Nat) : Except PageError Unit :=
  if bigintMax < after then .error .cursorRange
  else if limit < 1 ∨ 1000 < limit then .error .limitRange
  else .ok ()

namespace Log

/-- `func.min(global_position)`. -/
def earliest (log : Log) : Option Nat := (log.events.map (·.globalPosition)).min?

/-- The rows of a page and one more. -/
def pageRows (log : Log) (run after counter limit : Nat) : List EventRow :=
  (inOrder (log.events.filter fun row =>
    row.runId = some run ∧ after < row.globalPosition ∧ row.globalPosition ≤ counter ∧ row.visibility.shown)).take (limit + 1)

/-- `func.max(run_sequence)` up to the cursor. -/
def priorSequence (log : Log) (run after : Nat) : Option Nat :=
  ((log.events.filter fun row => row.runId = some run ∧ row.globalPosition ≤ after).filterMap (·.runSequence)).max?

/-- The sequences and positions between the cursor and the last row of the page. -/
def durableRows (log : Log) (run after last : Nat) : List (Option Nat × Nat) :=
  (inOrder (log.events.filter fun row =>
    row.runId = some run ∧ after < row.globalPosition ∧ row.globalPosition ≤ last)).map fun row =>
      (row.runSequence, row.globalPosition)

end Log

/-- The cursor against the retained range. -/
def checkCursor (after counter : Nat) (earliest : Option Nat) : Except PageError Unit :=
  if counter < after then .error (.cursorExpired after (earliest.getD 0) counter)
  else
    match earliest with
    | some first => if 0 < after ∧ after < first - 1 then .error (.cursorExpired after first counter) else .ok ()
    | none => .ok ()

/-- The loop over `durable_rows`. -/
def checkSequence : Nat → List (Option Nat × Nat) → Except PageError Unit
  | _, [] => .ok ()
  | expected, (actual, position) :: rows =>
    if actual ≠ some expected then .error (.sequenceGap expected actual position) else checkSequence (expected + 1) rows

/-! ## A reader -/

/-- What the statements of a page have returned so far. -/
inductive ReadPc where
  | idle
  | counted (limit counter : Nat)
  | bounded (limit counter : Nat)
  | selected (limit counter : Nat) (rows : List EventRow)
  | prior (limit counter : Nat) (rows : List EventRow) (sequence : Option Nat)
  | raised (error : PageError)
  deriving DecidableEq, Repr

structure Reader where
  log : Log
  run : Nat
  cursor : Nat
  pc : ReadPc := .idle
  emitted : List EventRow := []
  /-- The last page had no next cursor: its high watermark. -/
  watermark : Option Nat := none
  deriving DecidableEq

inductive Move where
  | write (w : Write)
  | count (limit : Nat)
  | bound
  | select
  | prior
  | finish
  deriving DecidableEq, Repr

namespace Reader

/-- The page is returned: its items are emitted and the cursor moves to the last of them,
    which is `next_after` if there is one. -/
def complete (s : Reader) (limit counter : Nat) (rows : List EventRow) : Reader :=
  let items := rows.take limit
  { s with
    pc := .idle
    cursor := (items.getLast?.map (·.globalPosition)).getD s.cursor
    emitted := s.emitted ++ items
    watermark := if limit < rows.length then none else some counter }

def step (s : Reader) : Move → Option Reader
  | .write w => (Events.write s.log w).map fun log => { s with log }
  | .count limit =>
    match s.pc with
    | .idle =>
      match checkArguments s.cursor limit with
      | .error e => some { s with pc := .raised e }
      | .ok () => some { s with pc := .counted limit s.log.lastPosition }
    | _ => none
  | .bound =>
    match s.pc with
    | .counted limit counter =>
      match checkCursor s.cursor counter s.log.earliest with
      | .error e => some { s with pc := .raised e }
      | .ok () => some { s with pc := .bounded limit counter }
    | _ => none
  | .select =>
    match s.pc with
    | .bounded limit counter =>
      let rows := s.log.pageRows s.run s.cursor counter limit
      if rows.take limit = [] then some (s.complete limit counter rows)
      else some { s with pc := .selected limit counter rows }
    | _ => none
  | .prior =>
    match s.pc with
    | .selected limit counter rows =>
      some { s with pc := .prior limit counter rows (s.log.priorSequence s.run s.cursor) }
    | _ => none
  | .finish =>
    match s.pc with
    | .prior limit counter rows sequence =>
      let last := ((rows.take limit).getLast?.map (·.globalPosition)).getD s.cursor
      match checkSequence (sequence.getD 0 + 1) (s.log.durableRows s.run s.cursor last) with
      | .error e => some { s with pc := .raised e }
      | .ok () => some (s.complete limit counter rows)
    | _ => none

end Reader

/-! ## What the statements return on an ordered log -/

abbrev position (row : EventRow) : Nat := row.globalPosition

namespace Log

/-- The events of a run that a page shows. -/
def shownOf (log : Log) (run : Nat) : List EventRow := (log.ofRun run).filter (·.visibility.shown)

variable {log log' : Log} {run lo hi : Nat}

theorem Ordered.increasing (h : Ordered log) : Increasing position log.events := by
  have hrange : (log.events.map position).Pairwise (· < ·) := by
    rw [show log.events.map position = _ from h.positions]
    exact List.pairwise_lt_range'
  exact List.pairwise_map.mp hrange

theorem Ordered.ofRun_increasing (h : Ordered log) (run : Nat) : Increasing position (log.ofRun run) :=
  h.increasing.sublist List.filter_sublist

theorem Ordered.shown_increasing (h : Ordered log) (run : Nat) : Increasing position (log.shownOf run) :=
  (h.ofRun_increasing run).sublist List.filter_sublist

theorem Ordered.position_le (h : Ordered log) {row : EventRow} (hrow : row ∈ log.events) :
    0 < row.globalPosition ∧ row.globalPosition ≤ log.lastPosition := by
  have hmem : row.globalPosition ∈ List.range' 1 log.lastPosition := h.positions ▸ List.mem_map_of_mem hrow
  have := List.mem_range'_1.mp hmem
  omega

theorem inOrder_eq {rows : List EventRow} (h : Increasing position rows) : inOrder rows = rows :=
  List.Pairwise.insertionSort_eq (h.imp Nat.le_of_lt)

theorem Ordered.pageRows_eq (h : Ordered log) (run after counter limit : Nat) :
    log.pageRows run after counter limit = (window position after counter (log.shownOf run)).take (limit + 1) := by
  unfold pageRows
  rw [inOrder_eq (h.increasing.sublist List.filter_sublist)]
  congr 1
  unfold window shownOf ofRun
  rw [List.filter_filter, List.filter_filter]
  refine List.filter_congr fun row _ => ?_
  rw [Bool.eq_iff_iff]
  simp only [decide_eq_true_eq, Bool.and_eq_true]
  tauto

theorem Ordered.durableRows_eq (h : Ordered log) (run after last : Nat) : log.durableRows run after last =
    (window position after last (log.ofRun run)).map fun row => (row.runSequence, row.globalPosition) := by
  unfold durableRows
  rw [inOrder_eq (h.increasing.sublist List.filter_sublist)]
  congr 1
  unfold window ofRun
  rw [List.filter_filter]
  refine List.filter_congr fun row _ => ?_
  rw [Bool.eq_iff_iff]
  simp only [decide_eq_true_eq, Bool.and_eq_true]
  tauto

theorem Ordered.priorSequence_eq (h : Ordered log) (run after : Nat) : log.priorSequence run after =
    ((window position 0 after (log.ofRun run)).filterMap (·.runSequence)).max? := by
  unfold priorSequence window ofRun
  congr 2
  rw [List.filter_filter]
  refine List.filter_congr fun row hrow => ?_
  have := (h.position_le hrow).1
  rw [Bool.eq_iff_iff]
  simp only [decide_eq_true_eq, Bool.and_eq_true]
  tauto

/-! ## Sequences -/

/-- A piece of counted elements is counted on from the piece before it. -/
theorem counted_pieces {s n : Nat} {before piece after : List (Option Nat)}
    (h : before ++ piece ++ after = (List.range' s n).map some) :
    before = (List.range' s before.length).map some ∧
      piece = (List.range' (s + before.length) piece.length).map some := by
  rw [List.append_assoc] at h
  obtain ⟨xs, rest, hrange, rfl, hrest⟩ := List.map_eq_append_iff.mp h.symm
  obtain ⟨k, -, rfl, rfl⟩ := List.range'_eq_append_iff.mp hrange
  obtain ⟨ys, zs, hrange', rfl, rfl⟩ := List.map_eq_append_iff.mp hrest
  obtain ⟨m, -, rfl, rfl⟩ := List.range'_eq_append_iff.mp hrange'
  simp

/-- The events up to a cursor and those after it up to another are counted without a gap. -/
theorem Ordered.counted (h : Ordered log) (run : Nat) (hle : lo ≤ hi) (hhi : hi ≤ log.lastPosition) :
    let before := (window position 0 lo (log.ofRun run)).map (·.runSequence)
    let piece := (window position lo hi (log.ofRun run)).map (·.runSequence)
    before = (List.range' 1 before.length).map some ∧ piece = (List.range' (1 + before.length) piece.length).map some := by
  have hall : window position 0 log.lastPosition (log.ofRun run) = log.ofRun run := by
    refine List.filter_eq_self.mpr fun row hrow => ?_
    have := h.position_le (List.mem_of_mem_filter hrow)
    simpa using this
  have hsplit : window position 0 lo (log.ofRun run) ++ window position lo hi (log.ofRun run) ++
      window position hi log.lastPosition (log.ofRun run) = log.ofRun run := by
    rw [window_append (h.ofRun_increasing run) (Nat.zero_le _) hle,
      window_append (h.ofRun_increasing run) (Nat.zero_le _) hhi, hall]
  have hseq := h.sequences run
  rw [← hsplit, List.map_append, List.map_append] at hseq
  exact counted_pieces hseq

theorem max?_range' (s n : Nat) : (List.range' s (n + 1)).max? = some (s + n) := by
  rw [List.max?_eq_some_iff]
  refine ⟨List.mem_range'_1.mpr ⟨Nat.le_add_right _ _, by omega⟩, fun m hm => ?_⟩
  have := List.mem_range'_1.mp hm
  omega

theorem checkSequence_ok : ∀ {rows : List (Option Nat × Nat)} {expected : Nat},
    rows.map (·.1) = (List.range' expected rows.length).map some → checkSequence expected rows = .ok () := by
  intro rows
  induction rows with
  | nil => intro expected _; rfl
  | cons row rows ih =>
    intro expected h
    rw [List.length_cons, List.range'_succ, List.map_cons, List.map_cons, List.cons.injEq] at h
    obtain ⟨actual, position⟩ := row
    obtain ⟨rfl, hrest⟩ := h
    rw [checkSequence, if_neg (fun h => h rfl)]
    exact ih hrest

/-- The sequence check of a page passes. -/
theorem Ordered.checkSequence (h : Ordered log) (run : Nat) (hle : lo ≤ hi) (hhi : hi ≤ log.lastPosition) :
    checkSequence ((log.priorSequence run lo).getD 0 + 1) (log.durableRows run lo hi) = .ok () := by
  obtain ⟨hbefore, hpiece⟩ := h.counted run hle hhi
  have hmap : (window position 0 lo (log.ofRun run)).filterMap (·.runSequence) =
      ((window position 0 lo (log.ofRun run)).map (·.runSequence)).filterMap id := by
    rw [List.filterMap_map]
    rfl
  have hprior : (log.priorSequence run lo).getD 0 = (window position 0 lo (log.ofRun run)).length := by
    rw [h.priorSequence_eq, hmap, hbefore, List.length_map]
    cases (window position 0 lo (log.ofRun run)).length with
    | zero => rfl
    | succ n => simp [List.filterMap_map, max?_range', Nat.add_comm]
  refine checkSequence_ok ?_
  rw [hprior, h.durableRows_eq, List.map_map, List.length_map]
  simpa [Function.comp_def, Nat.add_comm] using hpiece

end Log

end Jarvis.Events
