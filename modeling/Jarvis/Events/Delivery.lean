/-
  Jarvis.Events.Delivery — what a reader of a run's events is given.

  Writes only add events beyond the last position, so what a page has read up to its high
  watermark does not change while it reads on. What has been emitted is therefore always
  exactly the run's shown events between the first cursor and the present one, in order
  (`Delivered`), and a page without a next cursor leaves none up to its watermark. From every
  state, reading alone comes to the end of the log (`drains`).
-/
import Jarvis.Events.Stream

namespace Jarvis.Events

namespace Log

/-- The run's shown events after `lo` and up to `hi`. -/
def between (log : Log) (run lo hi : Nat) : List EventRow := window position lo hi (log.shownOf run)

variable {log log' : Log} {run lo hi : Nat}

/-- What a write does to the events: it adds some beyond the last position. -/
structure Growth (log log' : Log) : Prop where
  lastPosition : log.lastPosition ≤ log'.lastPosition
  events : ∃ added, log'.events = log.events ++ added ∧ ∀ row ∈ added, log.lastPosition < row.globalPosition

theorem Growth.of_events_eq (hlast : log'.lastPosition = log.lastPosition) (hevents : log'.events = log.events) :
    Growth log log' where
  lastPosition := hlast.ge
  events := ⟨[], by rw [hevents, List.append_nil], fun _ h => nomatch h⟩

theorem write_growth {w : Write} (h : write log w = some log') : Growth log log' := by
  cases w with
  | append event references =>
    obtain ⟨⟨next, row⟩, hok, rfl⟩ := Option.map_eq_some_iff.mp h
    obtain rfl | ⟨rfl, -⟩ := append_cases (Steps.toOption_ok hok)
    · exact .of_events_eq rfl rfl
    · refine ⟨Nat.le_succ _, [log.newRow event], rfl, fun row hrow => ?_⟩
      rw [List.mem_singleton.mp hrow]
      exact Nat.lt_succ_self _
  | createProject id =>
    cases h
    exact .of_events_eq rfl rfl
  | createJob job =>
    simp only [write] at h
    split at h
    · cases h
    · cases h
      exact .of_events_eq rfl rfl
  | createRun id jobId =>
    simp only [write] at h
    split at h
    · cases h
    · cases h
      exact .of_events_eq rfl rfl

theorem Growth.ofRun (h : Growth log log') (run : Nat) (hhi : hi ≤ log.lastPosition) :
    window position lo hi (log'.ofRun run) = window position lo hi (log.ofRun run) := by
  obtain ⟨added, hevents, hbeyond⟩ := h.events
  unfold Log.ofRun
  rw [hevents, List.filter_append]
  exact window_grow fun row hrow => Nat.lt_of_le_of_lt hhi (hbeyond row (List.mem_of_mem_filter hrow))

theorem Growth.between (h : Growth log log') (run : Nat) (hhi : hi ≤ log.lastPosition) :
    log'.between run lo hi = log.between run lo hi := by
  have hwindow : window position lo hi (log'.ofRun run) = window position lo hi (log.ofRun run) := h.ofRun run hhi
  unfold Log.between shownOf window at *
  rw [List.filter_comm, hwindow, List.filter_comm]

theorem Growth.priorSequence (h : Growth log log') (ho : Ordered log) (ho' : Ordered log') (run : Nat)
    (hhi : hi ≤ log.lastPosition) : log'.priorSequence run hi = log.priorSequence run hi := by
  rw [ho'.priorSequence_eq, ho.priorSequence_eq, h.ofRun run hhi]

end Log

/-- Moves that only read. -/
def Move.reads : Move → Prop
  | .write _ => False
  | _ => True

/-! ## The invariant of a reader -/

namespace Reader

/-- A page that is being read is about the log's events up to its counter. -/
def Reading (s : Reader) (limit counter : Nat) : Prop :=
  1 ≤ limit ∧ s.cursor ≤ counter ∧ counter ≤ s.log.lastPosition

/-- What the page read so far agrees with the log. -/
def PageRead (s : Reader) : ReadPc → Prop
  | .idle => True
  | .counted limit counter | .bounded limit counter => s.Reading limit counter
  | .selected limit counter rows =>
    s.Reading limit counter ∧ rows = (s.log.between s.run s.cursor counter).take (limit + 1)
  | .prior limit counter rows sequence =>
    (s.Reading limit counter ∧ rows = (s.log.between s.run s.cursor counter).take (limit + 1)) ∧
      sequence = s.log.priorSequence s.run s.cursor
  | .raised error => error = .limitRange

/-- Exactly the shown events after the first cursor have been emitted, up to the present one. -/
structure Delivered (after : Nat) (s : Reader) : Prop where
  ordered : s.log.Ordered
  started : after ≤ s.cursor
  committed : s.cursor ≤ s.log.lastPosition
  emitted : s.emitted = s.log.between s.run after s.cursor
  drained : ∀ high, s.watermark = some high →
    s.cursor ≤ high ∧ high ≤ s.log.lastPosition ∧ s.log.between s.run s.cursor high = []
  page : s.PageRead s.pc

variable {s s' : Reader} {after limit counter : Nat} {rows : List EventRow}

theorem Delivered.write {log : Log} {w : Write} (h : Delivered after s) (hw : write s.log w = some log) :
    Delivered after { s with log } := by
  have hgrow := Log.write_growth hw
  have hordered := h.ordered.write hw
  have hreading : ∀ {limit counter}, s.Reading limit counter → Reading { s with log } limit counter :=
    fun hr => ⟨hr.1, hr.2.1, hr.2.2.trans hgrow.lastPosition⟩
  refine ⟨hordered, h.started, h.committed.trans hgrow.lastPosition, ?_, fun high hhigh => ?_, ?_⟩
  · exact h.emitted.trans (hgrow.between s.run h.committed).symm
  · obtain ⟨hle, hlast, hnone⟩ := h.drained high hhigh
    exact ⟨hle, hlast.trans hgrow.lastPosition, (hgrow.between s.run hlast).trans hnone⟩
  · have hpage := h.page
    revert hpage
    show s.PageRead s.pc → PageRead { s with log } s.pc
    cases s.pc with
    | idle => exact id
    | counted limit counter => exact hreading
    | bounded limit counter => exact hreading
    | selected limit counter rows =>
      rintro ⟨hr, hrows⟩
      exact ⟨hreading hr, hrows.trans (congrArg (List.take _) (hgrow.between s.run hr.2.2).symm)⟩
    | prior limit counter rows sequence =>
      rintro ⟨⟨hr, hrows⟩, hsequence⟩
      exact ⟨⟨hreading hr, hrows.trans (congrArg (List.take _) (hgrow.between s.run hr.2.2).symm)⟩,
        hsequence.trans (hgrow.priorSequence h.ordered hordered s.run h.committed).symm⟩
    | raised error => exact id

/-- The last position of a page's items, or the cursor of an empty page. -/
def lastOf (s : Reader) (items : List EventRow) : Nat := (items.getLast?.map (·.globalPosition)).getD s.cursor

/-- The items of a page are the shown events up to the last of them. -/
theorem items_eq (h : s.log.Ordered) (hr : s.Reading limit counter) :
    let items := (s.log.between s.run s.cursor counter).take limit
    s.cursor ≤ s.lastOf items ∧ s.lastOf items ≤ counter ∧ items = s.log.between s.run s.cursor (s.lastOf items) ∧
      (items ≠ [] → s.cursor < s.lastOf items) := by
  intro items
  cases hlast : items.getLast? with
  | none =>
    have hnil : items = [] := List.getLast?_eq_none_iff.mp hlast
    have hcursor : s.lastOf items = s.cursor := by rw [lastOf, hlast]; rfl
    rw [hcursor, hnil]
    refine ⟨Nat.le_refl _, hr.2.1, (window_eq_nil fun row _ hrow => ?_).symm, fun h => absurd rfl h⟩
    omega
  | some last =>
    have hcursor : s.lastOf items = last.globalPosition := by rw [lastOf, hlast]; rfl
    have hmem := List.mem_of_mem_take (List.mem_of_getLast? hlast)
    obtain ⟨-, hlow, hhigh⟩ := mem_window.mp hmem
    rw [hcursor]
    exact ⟨hlow.le, hhigh, (window_take (h.shown_increasing s.run) hlast).symm, fun _ => hlow⟩

/-- A page that is complete leaves the cursor at its last item, nothing between it and the
    watermark if there is no next page, and moves it forward if there is one. -/
theorem Delivered.complete (h : Delivered after s) (hr : s.Reading limit counter)
    (hrows : rows = (s.log.between s.run s.cursor counter).take (limit + 1)) :
    Delivered after (s.complete limit counter rows) ∧
      ((s.complete limit counter rows).watermark = some counter ∨ s.cursor < (s.complete limit counter rows).cursor) := by
  obtain ⟨hlow, hhigh, hitems, hforward⟩ := items_eq h.ordered hr
  have htake : rows.take limit = (s.log.between s.run s.cursor counter).take limit := by
    rw [hrows, List.take_take, Nat.min_eq_left (Nat.le_succ _)]
  have hcursor : (s.complete limit counter rows).cursor = s.lastOf ((s.log.between s.run s.cursor counter).take limit) := by
    rw [← htake]
    rfl
  have hwhole : rows.length ≤ limit → (s.log.between s.run s.cursor counter).take limit = s.log.between s.run s.cursor counter := by
    intro hlen
    rw [hrows, List.length_take] at hlen
    exact List.take_of_length_le (by omega)
  refine ⟨⟨h.ordered, ?_, ?_, ?_, fun high hwm => ?_, trivial⟩, ?_⟩
  · rw [hcursor]
    exact h.started.trans hlow
  · rw [hcursor]
    exact hhigh.trans hr.2.2
  · show s.emitted ++ rows.take limit = s.log.between s.run after _
    rw [hcursor, htake, h.emitted]
    conv_lhs => rw [hitems]
    exact window_append (h.ordered.shown_increasing s.run) h.started hlow
  · have hlen : rows.length ≤ limit ∧ counter = high := by
      unfold Reader.complete at hwm
      dsimp only at hwm
      split at hwm
      · cases hwm
      · rename_i hlen
        cases hwm
        exact ⟨Nat.not_lt.mp hlen, rfl⟩
    obtain ⟨hlen, rfl⟩ := hlen
    rw [hcursor]
    refine ⟨hhigh, hr.2.2, ?_⟩
    -- the items are all there was, and they end at the cursor
    have hall := window_append (h.ordered.shown_increasing s.run) hlow hhigh
    have hsame : s.log.between s.run s.cursor (s.lastOf ((s.log.between s.run s.cursor counter).take limit)) =
        s.log.between s.run s.cursor counter := hitems.symm.trans (hwhole hlen)
    exact List.append_right_eq_self.mp ((congrArg (· ++ _) hsame).symm.trans hall)
  · by_cases hlen : limit < rows.length
    · refine .inr ?_
      rw [hcursor]
      refine hforward fun hnil => ?_
      rw [← htake] at hnil
      have hpos := hr.1
      have hzero := congrArg List.length hnil
      rw [List.length_take, List.length_nil] at hzero
      omega
    · exact .inl (if_neg hlen)

/-- The checks of a cursor that is committed pass. -/
theorem checkCursor_ok (h : s.log.Ordered) (hr : s.Reading limit counter) :
    checkCursor s.cursor counter s.log.earliest = .ok () := by
  unfold checkCursor
  rw [if_neg (Nat.not_lt.mpr hr.2.1)]
  cases hearliest : s.log.earliest with
  | none => rfl
  | some first =>
    -- the first event is at position one
    have hfirst : first = 1 := by
      unfold Log.earliest at hearliest
      rw [h.positions] at hearliest
      obtain ⟨hmem, hleast⟩ := List.min?_eq_some_iff.mp hearliest
      have hrange := List.mem_range'_1.mp hmem
      have := hleast 1 (List.mem_range'_1.mpr ⟨Nat.le_refl _, by omega⟩)
      omega
    show (if 0 < s.cursor ∧ s.cursor < first - 1 then _ else _) = _
    rw [if_neg (by omega)]

theorem checkArguments_ok (h : Delivered after s) (hlimit : 1 ≤ limit ∧ limit ≤ 1000) :
    checkArguments s.cursor limit = .ok () := by
  unfold checkArguments
  have hbound := h.committed.trans h.ordered.bounded
  rw [if_neg (Nat.not_lt.mpr hbound), if_neg (by omega)]

theorem Delivered.count (h : Delivered after s) (hlimit : 1 ≤ limit) : s.Reading limit s.log.lastPosition :=
  ⟨hlimit, h.committed, Nat.le_refl _⟩

/-- The rows of a page are the shown events up to its counter. -/
theorem Delivered.pageRows (h : Delivered after s) :
    s.log.pageRows s.run s.cursor counter limit = (s.log.between s.run s.cursor counter).take (limit + 1) :=
  h.ordered.pageRows_eq s.run s.cursor counter limit

/-- The sequences of a page have no gap. -/
theorem Delivered.checkSequence (h : Delivered after s) (hr : s.Reading limit counter)
    (hrows : rows = (s.log.between s.run s.cursor counter).take (limit + 1)) :
    checkSequence ((s.log.priorSequence s.run s.cursor).getD 0 + 1)
      (s.log.durableRows s.run s.cursor (s.lastOf (rows.take limit))) = .ok () := by
  have htake : rows.take limit = (s.log.between s.run s.cursor counter).take limit := by
    rw [hrows, List.take_take, Nat.min_eq_left (Nat.le_succ _)]
  obtain ⟨hlow, hhigh, -⟩ := items_eq h.ordered hr
  rw [htake]
  exact h.ordered.checkSequence s.run hlow (hhigh.trans hr.2.2)

/-- Every move keeps what has been delivered exact. -/
theorem Delivered.step {move : Move} (h : Delivered after s) (hs : s.step move = some s') : Delivered after s' := by
  have hpage := h.page
  cases move with
  | write w =>
    obtain ⟨log, hlog, rfl⟩ := Option.map_eq_some_iff.mp hs
    exact h.write hlog
  | count limit =>
    simp only [Reader.step] at hs
    split at hs
    · split at hs
      · rename_i e he
        cases hs
        have herror : e = .limitRange := by
          unfold checkArguments at he
          rw [if_neg (Nat.not_lt.mpr (h.committed.trans h.ordered.bounded))] at he
          split at he <;> cases he
          rfl
        exact ⟨h.ordered, h.started, h.committed, h.emitted, h.drained, herror⟩
      · rename_i hok
        cases hs
        have hlimit : 1 ≤ limit := by
          by_contra hlt
          unfold checkArguments at hok
          rw [if_neg (Nat.not_lt.mpr (h.committed.trans h.ordered.bounded)), if_pos (.inl (not_le.mp hlt))] at hok
          cases hok
        exact ⟨h.ordered, h.started, h.committed, h.emitted, h.drained, h.count hlimit⟩
    · cases hs
  | bound =>
    simp only [Reader.step] at hs
    split at hs
    · rename_i limit counter hpc
      rw [hpc] at hpage
      rw [checkCursor_ok h.ordered hpage] at hs
      cases hs
      exact ⟨h.ordered, h.started, h.committed, h.emitted, h.drained, hpage⟩
    · cases hs
  | select =>
    simp only [Reader.step] at hs
    split at hs
    · rename_i limit counter hpc
      rw [hpc] at hpage
      split at hs
      · cases hs
        exact (h.complete hpage h.pageRows).1
      · cases hs
        exact ⟨h.ordered, h.started, h.committed, h.emitted, h.drained, hpage, h.pageRows⟩
    · cases hs
  | prior =>
    simp only [Reader.step] at hs
    split at hs
    · rename_i limit counter rows hpc
      rw [hpc] at hpage
      cases hs
      exact ⟨h.ordered, h.started, h.committed, h.emitted, h.drained, hpage, rfl⟩
    · cases hs
  | finish =>
    simp only [Reader.step] at hs
    split at hs
    · rename_i limit counter rows sequence hpc
      rw [hpc] at hpage
      obtain ⟨⟨hr, hrows⟩, rfl⟩ := hpage
      have hcheck := h.checkSequence hr hrows
      unfold lastOf at hcheck
      rw [hcheck] at hs
      cases hs
      exact (h.complete hr hrows).1
    · cases hs

/-- A reader that starts at a committed cursor of an ordered log. -/
theorem delivered_start {log : Log} (h : log.Ordered) (run : Nat) (hafter : after ≤ log.lastPosition) :
    Delivered after { log, run, cursor := after } := by
  refine ⟨h, Nat.le_refl _, hafter, (window_eq_nil fun row _ hrow => ?_).symm, (fun _ hw => nomatch hw), trivial⟩
  dsimp only at hrow
  omega

theorem reach_delivered {log : Log} (h : log.Ordered) (run : Nat) (hafter : after ≤ log.lastPosition)
    (hs : Steps.Reach Reader.step { log, run, cursor := after } s) : Delivered after s :=
  hs.invariant (Delivered after) (delivered_start h run hafter) fun _ _ _ hd _ hm => hd.step hm

theorem step_run {move : Move} (hs : s.step move = some s') : s'.run = s.run := by
  cases move <;> simp only [Reader.step] at hs
  case write => obtain ⟨log, -, rfl⟩ := Option.map_eq_some_iff.mp hs; rfl
  all_goals
    split at hs
    · first
      | (split at hs <;> cases hs <;> rfl)
      | (cases hs; rfl)
    · cases hs

/-! ## Reading to the end -/

/-- States that reading alone leads to. -/
abbrev Reads (s : Reader) : Reader → Prop := Steps.ReachIf Reader.step (fun _ move => move.reads) s

theorem step_log {move : Move} (hread : move.reads) (hs : s.step move = some s') : s'.log = s.log := by
  cases move <;> simp only [Reader.step] at hs
  case write => exact hread.elim
  all_goals
    split at hs
    · first
      | (split at hs <;> cases hs <;> rfl)
      | (cases hs; rfl)
    · cases hs

theorem Reads.log (h : Reads s s') : s'.log = s.log :=
  h.invariant (fun t => t.log = s.log) rfl fun _ _ _ ht hread hs => (step_log hread hs).trans ht

theorem Reads.run (h : Reads s s') : s'.run = s.run :=
  h.invariant (fun t => t.run = s.run) rfl fun _ _ _ ht _ hs => (step_run hs).trans ht

theorem Reads.delivered (h : Reads s s') (hd : Delivered after s) : Delivered after s' :=
  h.invariant (Delivered after) hd fun _ _ _ ht _ hs => ht.step hs

/-- The page being read, and where it was begun, up to the counter. -/
def counter? : ReadPc → Option Nat
  | .counted _ counter | .bounded _ counter | .selected _ counter _ | .prior _ counter _ _ => some counter
  | _ => none

/-- A page that has been begun is read to its end: it is the last one, or the cursor has moved. -/
theorem finishes (h : Delivered after s) (hpc : counter? s.pc = some counter) :
    ∃ s', Reads s s' ∧ s'.pc = .idle ∧ (s'.watermark = some counter ∨ s.cursor < s'.cursor) := by
  have hfinish : ∀ {t : Reader} {limit rows sequence}, Delivered after t → t.pc = .prior limit counter rows sequence →
      ∃ t', Reads t t' ∧ t'.pc = .idle ∧ (t'.watermark = some counter ∨ t.cursor < t'.cursor) := by
    intro t limit rows sequence ht hpc
    have hpage := ht.page
    rw [hpc] at hpage
    obtain ⟨⟨hr, hrows⟩, rfl⟩ := hpage
    have hcheck := ht.checkSequence hr hrows
    unfold lastOf at hcheck
    refine ⟨t.complete limit counter rows, .step .finish .init trivial ?_, rfl, (ht.complete hr hrows).2⟩
    simp only [Reader.step, hpc, hcheck]
  have hselected : ∀ {t : Reader} {limit rows}, Delivered after t → t.pc = .selected limit counter rows →
      ∃ t', Reads t t' ∧ t'.pc = .idle ∧ (t'.watermark = some counter ∨ t.cursor < t'.cursor) := by
    intro t limit rows ht hpc
    have hs : t.step .prior = some { t with pc := .prior limit counter rows (t.log.priorSequence t.run t.cursor) } := by
      simp only [Reader.step, hpc]
    obtain ⟨t', hreads, hend⟩ := hfinish (ht.step hs) rfl
    exact ⟨t', (Steps.ReachIf.step .prior .init trivial hs).trans hreads, hend⟩
  have hbounded : ∀ {t : Reader} {limit}, Delivered after t → t.pc = .bounded limit counter →
      ∃ t', Reads t t' ∧ t'.pc = .idle ∧ (t'.watermark = some counter ∨ t.cursor < t'.cursor) := by
    intro t limit ht hpc
    have hpage := ht.page
    rw [hpc] at hpage
    by_cases hnil : (t.log.pageRows t.run t.cursor counter limit).take limit = []
    · refine ⟨_, .step .select .init trivial ?_, rfl, (ht.complete hpage ht.pageRows).2⟩
      simp only [Reader.step, hpc, if_pos hnil]
    · have hs : t.step .select =
          some { t with pc := .selected limit counter (t.log.pageRows t.run t.cursor counter limit) } := by
        simp only [Reader.step, hpc, if_neg hnil]
      obtain ⟨t', hreads, hend⟩ := hselected (ht.step hs) rfl
      exact ⟨t', (Steps.ReachIf.step .select .init trivial hs).trans hreads, hend⟩
  cases hcase : s.pc with
  | idle => rw [hcase] at hpc; cases hpc
  | raised e => rw [hcase] at hpc; cases hpc
  | counted limit c =>
    rw [hcase] at hpc
    cases hpc
    have hpage := h.page
    rw [hcase] at hpage
    have hs : s.step .bound = some { s with pc := .bounded limit counter } := by
      simp only [Reader.step, hcase, checkCursor_ok h.ordered hpage]
    obtain ⟨s', hreads, hend⟩ := hbounded (h.step hs) rfl
    exact ⟨s', (Steps.ReachIf.step .bound .init trivial hs).trans hreads, hend⟩
  | bounded limit c =>
    rw [hcase] at hpc
    cases hpc
    exact hbounded h hcase
  | selected limit c rows =>
    rw [hcase] at hpc
    cases hpc
    exact hselected h hcase
  | prior limit c rows sequence =>
    rw [hcase] at hpc
    cases hpc
    exact hfinish h hcase

/-- From between two pages, page after page comes to a last one that reaches the end of the log. -/
theorem drains_from_idle (hlimit : 1 ≤ limit ∧ limit ≤ 1000) : ∀ (remaining : Nat) {s : Reader}, Delivered after s →
    s.pc = .idle → s.log.lastPosition - s.cursor ≤ remaining →
    ∃ s', Reads s s' ∧ s'.pc = .idle ∧ s'.watermark = some s.log.lastPosition := by
  intro remaining
  induction remaining with
  | zero =>
    intro s h hidle hremaining
    have hs : s.step (.count limit) = some { s with pc := .counted limit s.log.lastPosition } := by
      simp only [Reader.step, hidle, checkArguments_ok h hlimit]
    obtain ⟨s', hreads, hidle', hend⟩ := finishes (h.step hs) rfl
    have hall := (Steps.ReachIf.step (.count limit) .init trivial hs).trans hreads
    refine ⟨s', hall, hidle', hend.resolve_right fun hlt => ?_⟩
    have hcommitted := (Reads.delivered hall h).committed
    rw [Reads.log hall] at hcommitted
    have : s.cursor < s'.cursor := hlt
    omega
  | succ remaining ih =>
    intro s h hidle hremaining
    have hs : s.step (.count limit) = some { s with pc := .counted limit s.log.lastPosition } := by
      simp only [Reader.step, hidle, checkArguments_ok h hlimit]
    obtain ⟨s', hreads, hidle', hend⟩ := finishes (h.step hs) rfl
    have hall := (Steps.ReachIf.step (.count limit) .init trivial hs).trans hreads
    rcases hend with hlast | hlt
    · exact ⟨s', hall, hidle', hlast⟩
    · have hmoved : s.cursor < s'.cursor := hlt
      have hlog := Reads.log hall
      obtain ⟨s'', hreads', hidle'', hlast⟩ := ih (Reads.delivered hall h) hidle' (by rw [hlog]; omega)
      exact ⟨s'', hall.trans hreads', hidle'', hlog ▸ hlast⟩

/-- Reading alone comes to the end of the log from every state that has not raised. -/
theorem drains (h : Delivered after s) (hlimit : 1 ≤ limit ∧ limit ≤ 1000) (hpc : ∀ e, s.pc ≠ .raised e) :
    ∃ s', Reads s s' ∧ s'.emitted = s.log.between s.run after s.log.lastPosition := by
  have hfrom : ∀ {t : Reader}, Reads s t → t.pc = .idle →
      ∃ s', Reads s s' ∧ s'.emitted = s.log.between s.run after s.log.lastPosition := by
    intro t ht hidle
    have hlog := Reads.log ht
    obtain ⟨s', hreads, -, hlast⟩ := drains_from_idle hlimit _ (Reads.delivered ht h) hidle (Nat.le_refl _)
    have hall := ht.trans hreads
    have hd := Reads.delivered hall h
    obtain ⟨hle, -, hnone⟩ := hd.drained _ hlast
    refine ⟨s', hall, ?_⟩
    have happend := window_append (hd.ordered.shown_increasing s'.run) hd.started hle
    have hrest : window position s'.cursor t.log.lastPosition (s'.log.shownOf s'.run) = [] := hnone
    rw [hd.emitted, Log.between, ← List.append_nil (window _ _ _ _), ← hrest, happend, Reads.log hall, Reads.run hall, hlog]
    rfl
  cases hcase : s.pc with
  | idle => exact hfrom .init hcase
  | raised e => exact absurd hcase (hpc e)
  | counted limit counter =>
    have hcounter : counter? s.pc = some counter := by
      rw [hcase]
      rfl
    obtain ⟨t, ht, hidle, -⟩ := finishes h hcounter
    exact hfrom ht hidle
  | bounded limit counter =>
    have hcounter : counter? s.pc = some counter := by
      rw [hcase]
      rfl
    obtain ⟨t, ht, hidle, -⟩ := finishes h hcounter
    exact hfrom ht hidle
  | selected limit counter rows =>
    have hcounter : counter? s.pc = some counter := by
      rw [hcase]
      rfl
    obtain ⟨t, ht, hidle, -⟩ := finishes h hcounter
    exact hfrom ht hidle
  | prior limit counter rows sequence =>
    have hcounter : counter? s.pc = some counter := by
      rw [hcase]
      rfl
    obtain ⟨t, ht, hidle, -⟩ := finishes h hcounter
    exact hfrom ht hidle

end Reader

/-- After any writes, positions and each run's sequences are contiguous and each run's projection
    is at its last event. A reader of a run that starts at a committed cursor has emitted, however
    writes fall between the statements of its pages, exactly the shown events between the two
    cursors in order, has left none up to its watermark, and has raised nothing but a bad limit;
    and reading on emits the rest. -/
theorem events_delivered {log : Log} (h : Steps.Reach write {} log) :
    log.events.map (·.globalPosition) = List.range' 1 log.lastPosition ∧
    (∀ run, (log.ofRun run).map (·.runSequence) = (List.range' 1 (log.lastSequence run)).map some) ∧
    (∀ run ∈ log.runs,
      run.lastEventPosition = ((log.ofRun run.id).getLast?.map (·.globalPosition)).getD 0 ∧
        run.lastRunSequence = log.lastSequence run.id) ∧
    ∀ run after, after ≤ log.lastPosition → ∀ s, Steps.Reach Reader.step { log, run, cursor := after } s →
      s.emitted = s.log.between run after s.cursor ∧ Increasing position s.emitted ∧
      (∀ high, s.watermark = some high → s.cursor ≤ high ∧ s.log.between run s.cursor high = []) ∧
      (∀ error, s.pc = .raised error → error = .limitRange) ∧
      ∀ limit, 1 ≤ limit → limit ≤ 1000 → (∀ error, s.pc ≠ .raised error) →
        ∃ s', Reader.Reads s s' ∧ s'.emitted = s.log.between run after s.log.lastPosition := by
  have hordered := Log.reach_ordered h
  refine ⟨hordered.positions, hordered.sequences, hordered.projections, fun run after hafter s hs => ?_⟩
  have hd := Reader.reach_delivered hordered run hafter hs
  have hrun : s.run = run := hs.invariant (·.run = run) rfl fun _ _ _ ht _ hm => (Reader.step_run hm).trans ht
  subst hrun
  refine ⟨hd.emitted, ?_, fun high hhigh => ?_, fun error hraised => ?_, fun limit hpos hmax hpc => ?_⟩
  · rw [hd.emitted]
    exact (hd.ordered.shown_increasing s.run).window after s.cursor
  · obtain ⟨hle, -, hnone⟩ := hd.drained high hhigh
    exact ⟨hle, hnone⟩
  · have hpage := hd.page
    rw [hraised] at hpage
    exact hpage
  · exact Reader.drains hd ⟨hpos, hmax⟩ hpc

/-- A run's events with one that is internal and one of no run between them. -/
def mixedWrites : List Write :=
  let source : EventSource := { kind := "service", name := "orchestrator" }
  [.createProject 1, .createJob { id := 2, projectId := 1 }, .createRun 3 2,
    .append { scope := { runId := some 3 }, source } true,
    .append { scope := { runId := some 3 }, source, visibility := .internal } true,
    .append { source } true,
    .append { scope := { runId := some 3 }, source, visibility := .operator } true]

theorem events_delivered_mixed : ∃ log, Steps.run write {} mixedWrites = some log ∧ log.lastPosition = 4 ∧
    ∀ s, Steps.Reach Reader.step { log, run := 3, cursor := 1 } s → s.emitted = s.log.between 3 1 s.cursor := by
  obtain ⟨log, hlog⟩ : ∃ log, Steps.run write {} mixedWrites = some log := ⟨_, rfl⟩
  have hlast : log.lastPosition = 4 := by
    cases hlog
    decide
  have hdelivered := (events_delivered (Steps.run_reach mixedWrites hlog)).2.2.2
  exact ⟨log, hlog, hlast, fun s hs => (hdelivered 3 1 (by omega) s hs).1⟩

end Jarvis.Events
