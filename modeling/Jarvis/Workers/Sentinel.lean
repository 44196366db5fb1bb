/-
  Jarvis.Workers.Sentinel — the sentinel of a worker's output (`workers/safety.py`:
  `parse_sentinel`; `workers/capture.py`: `LogCapture.sentinel`).

  The parser judges every record of the output it is given, a line ended by "\n" or "\r" at a time.
  A capture keeps one line, ended by "\n", the last whose record is valid, and the parser is given
  that one alone: `retained_eq`. So it judges fewer records (`records_retained`), and what the
  others said is lost: `sentinel_agrees_iff`, and `retainedAgrees_plain` where no "\r" stands in a
  line.

  `str.casefold` is a parameter, as the check of a record is.
-/
import Jarvis.Workers.Capture
import Mathlib.Data.List.Induction

namespace Jarvis.Workers

open Jarvis.Lines (lf cr splitlines lfLines body)
open Jarvis.Utf8 (encode)

variable (valid : Bytes → Option LegacyResult) (casefold : String → String)

/-- One line of the loop of `parse_sentinel`: whether a marker was found, and the result. -/
def parseLine (taskKey : String) (maxBytes : Nat) (state : Bool × Option LegacyResult) (line : Bytes) :
    Except String (Bool × Option LegacyResult) :=
  if !marker.isPrefixOf line then .ok state
  else if maxBytes < line.length then .error "result_oversized"
  else
    match valid (record line) with
    | none => .ok (true, state.2)
    | some candidate =>
      if candidate.taskId ≠ taskKey then .error "task_identity_mismatch" else .ok (true, some candidate)

/-- `status`. -/
def observedStatus (result : LegacyResult) : String :=
  let status := (casefold result.executionStatus).toList
  let before := "conversationexecutionstatus.".toList
  String.ofList (if before.isPrefixOf status then status.drop before.length else status)

/-- What is asked of the last record's status. -/
def judgeStatus (result : LegacyResult) : Except String LegacyResult :=
  let status := observedStatus casefold result
  if status ∉ ["finished", "error", "stopped"] then .error "impossible_execution_status"
  else if decide (status = "finished") ≠ result.error.isNone then .error "inconsistent_execution_status"
  else .ok result

/-- `parse_sentinel`. -/
def parseSentinel (stdout : Bytes) (exitCode : Int) (taskKey : String) (maxBytes : Nat) : Except String LegacyResult :=
  if maxBytes < stdout.length then .error "result_oversized"
  else if exitCode ≠ 0 then .error "runner_nonzero_exit"
  else do
    match ← ((splitlines stdout).map body).foldlM (parseLine valid taskKey maxBytes) (false, none) with
    | (found, none) => .error (if found then "malformed_sentinel" else "missing_sentinel")
    | (_, some result) => judgeStatus casefold result

/-! ## The records of an output -/

/-- The record of a line, where it is valid. -/
def recordOf (line : Bytes) : Option LegacyResult := if marker.isPrefixOf line then valid (record line) else none

/-- The valid records that the parser finds. -/
def records (stdout : Bytes) : List LegacyResult := ((splitlines stdout).map body).filterMap (recordOf valid)

/-- The status is one that a run ends with, and agrees with the error. -/
def Acceptable (result : LegacyResult) : Prop :=
  observedStatus casefold result ∈ ["finished", "error", "stopped"] ∧
    (observedStatus casefold result = "finished" ↔ result.error = none)

instance (result : LegacyResult) : Decidable (Acceptable casefold result) := by
  unfold Acceptable
  infer_instance

/-- The line that is kept of an output. -/
def retained (stdout : Bytes) : Bytes :=
  ((lfLines stdout).filter fun line => (recordOf valid line).isSome).getLast?.getD []

variable {valid casefold} {taskKey : String} {maxBytes : Nat}

theorem parseLine_eq {line : Bytes} (hline : line.length ≤ maxBytes) (state : Bool × Option LegacyResult) :
    parseLine valid taskKey maxBytes state line =
      match recordOf valid line with
      | none => .ok (state.1 || marker.isPrefixOf line, state.2)
      | some candidate =>
        if candidate.taskId = taskKey then .ok (true, some candidate) else .error "task_identity_mismatch" := by
  unfold parseLine recordOf
  by_cases hmarker : marker.isPrefixOf line
  · simp only [hmarker, Bool.not_true, Bool.false_eq_true, if_false, Nat.not_lt.mpr hline, if_true, Bool.or_true]
    cases valid (record line) with
    | none => rfl
    | some candidate => simp only [ne_eq, ite_not]
  · simp [hmarker]

/-- The loop ends with the last record, if every one is the task's own. -/
theorem parseLines_eq (valid : Bytes → Option LegacyResult) (taskKey : String) (lines : List Bytes)
    (hlines : ∀ line ∈ lines, line.length ≤ maxBytes) (state : Bool × Option LegacyResult) :
    lines.foldlM (parseLine valid taskKey maxBytes) state =
      if ∀ r ∈ lines.filterMap (recordOf valid), r.taskId = taskKey then
        .ok (state.1 || lines.any marker.isPrefixOf, (lines.filterMap (recordOf valid)).getLast?.or state.2)
      else .error "task_identity_mismatch" := by
  induction lines generalizing state with
  | nil => simp [pure, Except.pure]
  | cons line lines ih =>
    have hrest := ih fun other hother => hlines other (List.mem_cons_of_mem _ hother)
    rw [List.foldlM_cons, parseLine_eq (hlines line List.mem_cons_self), List.any_cons, List.filterMap_cons]
    cases hrecord : recordOf valid line with
    | none =>
      show lines.foldlM (parseLine valid taskKey maxBytes) (state.1 || marker.isPrefixOf line, state.2) = _
      rw [hrest, Bool.or_assoc]
    | some candidate =>
      have hmarker : marker.isPrefixOf line = true := by
        unfold recordOf at hrecord
        split at hrecord
        · assumption
        · cases hrecord
      simp only [List.forall_mem_cons, hmarker, Bool.true_or, Bool.or_true, List.getLast?_cons]
      by_cases hid : candidate.taskId = taskKey
      · simp only [hid, if_true, true_and]
        show lines.foldlM (parseLine valid taskKey maxBytes) (true, some candidate) = _
        rw [hrest, Bool.true_or]
        cases (lines.filterMap (recordOf valid)).getLast? <;> rfl
      · simp only [hid, if_false, false_and]
        rfl

theorem judgeStatus_ok (r result : LegacyResult) :
    judgeStatus casefold r = .ok result ↔ r = result ∧ Acceptable casefold r := by
  unfold judgeStatus Acceptable
  by_cases hstatus : observedStatus casefold r ∈ ["finished", "error", "stopped"]
  · simp only [hstatus, not_true, if_false, true_and]
    by_cases hfinished : observedStatus casefold r = "finished"
    · cases r.error <;> simp [hfinished]
    · cases r.error <;> simp [hfinished]
  · simp [hstatus]

theorem length_le_of_mem {stdout line : Bytes} (h : line ∈ (splitlines stdout).map body) : line.length ≤ stdout.length := by
  obtain ⟨whole, hwhole, rfl⟩ := List.mem_map.mp h
  exact (Lines.body_isPrefix whole).length_le.trans (Lines.sublist_of_mem hwhole).length_le

/-- An output is accepted if every record of it is the task's own and the last one is acceptable. -/
theorem parseSentinel_ok {stdout : Bytes} (hlength : stdout.length ≤ maxBytes) (exitCode : Int) (result : LegacyResult) :
    parseSentinel valid casefold stdout exitCode taskKey maxBytes = .ok result ↔
      exitCode = 0 ∧ (∀ r ∈ records valid stdout, r.taskId = taskKey) ∧
        (records valid stdout).getLast? = some result ∧ Acceptable casefold result := by
  have hloop := parseLines_eq valid taskKey ((splitlines stdout).map body)
    (fun line hline => (length_le_of_mem hline).trans hlength) (false, none)
  change _ = if ∀ r ∈ records valid stdout, r.taskId = taskKey then
    Except.ok (_, (records valid stdout).getLast?.or none) else _ at hloop
  unfold parseSentinel
  rw [if_neg (Nat.not_lt.mpr hlength), hloop]
  by_cases hexit : exitCode = 0
  · rw [if_neg (not_not.mpr hexit)]
    by_cases hown : ∀ r ∈ records valid stdout, r.taskId = taskKey
    · rw [if_pos hown, Option.or_none, and_iff_right hexit, and_iff_right hown]
      cases hlast : (records valid stdout).getLast? with
      | none => exact iff_of_false (fun h => by cases h) fun h => by cases h.1
      | some r =>
        show judgeStatus casefold r = .ok result ↔ _
        rw [judgeStatus_ok, Option.some.injEq]
        constructor <;> (rintro ⟨rfl, h⟩; exact ⟨rfl, h⟩)
    · rw [if_neg hown]
      exact iff_of_false (fun h => nomatch h) fun h => hown h.2.1
  · rw [if_pos hexit]
    exact iff_of_false (fun h => nomatch h) fun h => hexit h.1

/-! ## The line that is kept -/

variable {limits : CaptureLimits} {redact : String → String}

@[simp] theorem stage_sentinel (s : LogCapture) : (s.stage limits).sentinel = s.sentinel := by
  unfold LogCapture.stage
  split_ifs <;> rfl

theorem finishLine_sentinel (s : LogCapture) {line : Bytes} (hline : line.length ≤ limits.lineLimit) :
    (s.finishLine valid limits line).sentinel = if (recordOf valid line).isSome then line else s.sentinel := by
  have hoverflow : decide (limits.lineLimit < line.length) = false := decide_eq_false (Nat.not_lt.mpr hline)
  simp only [LogCapture.finishLine, LogCapture.lineFinished, stage_sentinel, List.take_of_length_le hline, hoverflow,
    LogCapture.keepSentinel, recordOf]
  by_cases hmarker : marker.isPrefixOf line
  · by_cases hvalid : (valid (record line)).isSome
    · simp [hmarker, hvalid]
    · simp [hmarker, hvalid]
  · simp [hmarker]

theorem foldl_finishLine_sentinel (lines : List Bytes) (hfit : ∀ line ∈ lines, line.length ≤ limits.lineLimit)
    (s : LogCapture) :
    (lines.foldl (LogCapture.finishLine valid limits) s).sentinel =
      (lines.filter fun line => (recordOf valid line).isSome).getLast?.getD s.sentinel := by
  induction lines generalizing s with
  | nil => rfl
  | cons line lines ih =>
    rw [List.foldl_cons, ih fun other hother => hfit other (List.mem_cons_of_mem _ hother),
      finishLine_sentinel s (hfit line List.mem_cons_self), List.filter_cons]
    by_cases hrecord : (recordOf valid line).isSome
    · rw [if_pos hrecord, if_pos hrecord, List.getLast?_cons]
      rfl
    · rw [if_neg hrecord, if_neg hrecord]

theorem finish_sentinel (s : LogCapture) :
    (s.finish valid limits redact).1.sentinel = (s.flush valid limits).sentinel := by
  simp only [LogCapture.finish]
  split <;> rfl

/-- What a capture has kept at the end of an output whose lines fit. -/
theorem retained_eq (blocks : List Bytes) (hfit : ∀ line ∈ lfLines blocks.flatten, line.length ≤ limits.lineLimit) :
    ((LogCapture.feedAll valid limits blocks).finish valid limits redact).1.sentinel = retained valid blocks.flatten := by
  rw [finish_sentinel, feedAll_eq, flush_feed valid limits rfl rfl, foldl_finishLine_sentinel _ hfit]
  rfl

theorem retained_cases (valid : Bytes → Option LegacyResult) (stdout : Bytes) :
    retained valid stdout = [] ∨ retained valid stdout ∈ lfLines stdout := by
  unfold retained
  cases hlast : ((lfLines stdout).filter fun line => (recordOf valid line).isSome).getLast? with
  | none => exact .inl rfl
  | some line => exact .inr (List.mem_filter.mp (List.mem_of_getLast? hlast)).1

theorem records_eq_flatMap (stdout : Bytes) : records valid stdout = (lfLines stdout).flatMap (records valid) := by
  unfold records
  rw [Lines.splitlines_eq_flatMap, List.map_flatMap, List.filterMap_flatMap]

/-- The parser finds no record in the line that is kept that it does not find in the output. -/
theorem records_retained {stdout : Bytes} {r : LegacyResult} (h : r ∈ records valid (retained valid stdout)) :
    r ∈ records valid stdout := by
  rcases retained_cases valid stdout with hnil | hmem
  · rw [hnil] at h
    cases h
  · rw [records_eq_flatMap]
    exact List.mem_flatMap.mpr ⟨_, hmem, h⟩

/-! ## The two verdicts -/

/-- Where every record of the output is the task's own, the last one is the last of the line that is
    kept, or neither is acceptable. Where another task's is among them, one is in the line that is
    kept too, or the last of that line is not acceptable. -/
def RetainedAgrees (valid : Bytes → Option LegacyResult) (casefold : String → String) (taskKey : String)
    (stdout : Bytes) : Prop :=
  let last := (records valid stdout).getLast?
  let kept := records valid (retained valid stdout)
  if ∀ r ∈ records valid stdout, r.taskId = taskKey then
    last = kept.getLast? ∨ (∀ r ∈ last, ¬ Acceptable casefold r) ∧ ∀ r ∈ kept.getLast?, ¬ Acceptable casefold r
  else (∃ r ∈ kept, r.taskId ≠ taskKey) ∨ ∀ r ∈ kept.getLast?, ¬ Acceptable casefold r

instance (valid : Bytes → Option LegacyResult) (casefold : String → String) (taskKey : String) (stdout : Bytes) :
    Decidable (RetainedAgrees valid casefold taskKey stdout) := by
  unfold RetainedAgrees
  infer_instance

theorem acceptable_agree {a b : Option LegacyResult} :
    (∀ r, b = some r ∧ Acceptable casefold r ↔ a = some r ∧ Acceptable casefold r) ↔
      a = b ∨ (∀ r ∈ a, ¬ Acceptable casefold r) ∧ ∀ r ∈ b, ¬ Acceptable casefold r := by
  constructor
  · intro h
    by_cases ha : ∃ r ∈ a, Acceptable casefold r
    · obtain ⟨r, hr, hok⟩ := ha
      have hb := (h r).mpr ⟨hr, hok⟩
      exact .inl (hr.trans hb.1.symm)
    · refine .inr ⟨fun r hr hok => ha ⟨r, hr, hok⟩, fun r hr hok => ?_⟩
      exact ha ⟨r, ((h r).mp ⟨hr, hok⟩).1, hok⟩
  · rintro (rfl | ⟨ha, hb⟩) r
    · exact Iff.rfl
    · exact iff_of_false (fun h => hb r h.1 h.2) fun h => ha r h.1 h.2

/-- When the sentinel that is kept is judged as the whole output is. -/
theorem sentinel_agrees_iff (valid : Bytes → Option LegacyResult) (casefold redact : String → String)
    (limits : CaptureLimits) (blocks : List Bytes) (exitCode : Int) (taskKey : String) {maxBytes : Nat}
    (hfit : ∀ line ∈ lfLines blocks.flatten, line.length ≤ limits.lineLimit) (hmax : blocks.flatten.length ≤ maxBytes) :
    (∀ result,
      parseSentinel valid casefold ((LogCapture.feedAll valid limits blocks).finish valid limits redact).1.sentinel
        exitCode taskKey limits.lineLimit = .ok result ↔
      parseSentinel valid casefold blocks.flatten exitCode taskKey maxBytes = .ok result) ↔
    exitCode ≠ 0 ∨ RetainedAgrees valid casefold taskKey blocks.flatten := by
  have hkept : (retained valid blocks.flatten).length ≤ limits.lineLimit := by
    rcases retained_cases valid blocks.flatten with hnil | hmem
    · rw [hnil]
      exact Nat.zero_le _
    · exact hfit _ hmem
  rw [retained_eq blocks hfit]
  simp only [parseSentinel_ok hkept, parseSentinel_ok hmax]
  by_cases hexit : exitCode = 0
  · simp only [hexit, true_and, ne_eq, not_true, false_or, RetainedAgrees]
    by_cases hown : ∀ r ∈ records valid blocks.flatten, r.taskId = taskKey
    · have hkeptOwn : ∀ r ∈ records valid (retained valid blocks.flatten), r.taskId = taskKey :=
        fun r hr => hown r (records_retained hr)
      rw [if_pos hown, ← acceptable_agree]
      exact forall_congr' fun r => by rw [and_iff_right hkeptOwn, and_iff_right hown]
    · rw [if_neg hown]
      constructor
      · intro h
        by_cases hkeptOwn : ∀ r ∈ records valid (retained valid blocks.flatten), r.taskId = taskKey
        · exact .inr fun r hr hok => hown ((h r).mp ⟨hkeptOwn, hr, hok⟩).1
        · exact .inl (by simpa using hkeptOwn)
      · rintro (⟨r, hr, hid⟩ | hlast) result
        · exact iff_of_false (fun h => hid (h.1 r hr)) fun h => hown h.1
        · exact iff_of_false (fun h => hlast result h.2.1 h.2.2) fun h => hown h.1
  · simp [hexit]

/-! ## Outputs without a carriage return -/

/-- A line is one for the parser as it is for a capture, if the end of it does not matter. -/
theorem records_line (hvalid : ∀ bs, valid (bs ++ [lf]) = valid bs) {stdout line : Bytes} (hcr : cr ∉ stdout)
    (hline : line ∈ lfLines stdout) : records valid line = (recordOf valid line).toList := by
  have hlineCr : cr ∉ line := fun h => hcr ((Lines.sublist_of_mem hline).subset h)
  rcases Lines.line_cases hline with ⟨w, hlf, rfl⟩ | ⟨hlf, hne⟩
  · have hw : cr ∉ w := fun h => hlineCr (List.mem_append_left _ h)
    have hmarker : marker.isPrefixOf (w ++ [lf]) = marker.isPrefixOf w := by
      rw [Bool.eq_iff_iff, List.isPrefixOf_iff_prefix, List.isPrefixOf_iff_prefix, List.prefix_concat_iff]
      refine or_iff_right fun h => ?_
      have hmem : lf ∈ marker := h ▸ List.mem_append_right _ List.mem_cons_self
      exact absurd hmem (by decide +kernel)
    have hrecord : recordOf valid w = recordOf valid (w ++ [lf]) := by
      unfold recordOf
      rw [hmarker]
      by_cases hstarts : marker.isPrefixOf w
      · have hlong : marker.length ≤ w.length := (List.isPrefixOf_iff_prefix.mp hstarts).length_le
        rw [if_pos hstarts, if_pos hstarts, record, record, List.drop_append_of_le_length hlong, hvalid]
      · rw [if_neg hstarts, if_neg hstarts]
    rw [records, Lines.splitlines_single hlf hw, List.map_singleton, Lines.body_single hw, ← hrecord]
    cases h : recordOf valid w <;> simp [h]
  · rw [records, Lines.splitlines_last hlf hlineCr hne, List.map_singleton, Lines.body_of_notMem hlf hlineCr]
    cases h : recordOf valid line <;> simp [h]

theorem getLast?_filterMap {α β : Type} (f : α → Option β) (xs : List α) :
    (xs.filterMap f).getLast? = (xs.filter fun x => (f x).isSome).getLast?.bind f := by
  induction xs using List.reverseRecOn with
  | nil => rfl
  | append_singleton xs x ih =>
    rw [List.filterMap_append, List.filter_append, List.getLast?_append, List.getLast?_append, ih]
    cases h : f x <;> simp [h]

/-- Then the verdicts agree unless another task's record is in an output that ends with one of the
    task's own that is acceptable. -/
theorem retainedAgrees_plain (hvalid : ∀ bs, valid (bs ++ [lf]) = valid bs) {stdout : Bytes} (hcr : cr ∉ stdout) :
    RetainedAgrees valid casefold taskKey stdout ↔
      (∀ r ∈ records valid stdout, r.taskId = taskKey) ∨
        ∀ r ∈ (records valid stdout).getLast?, r.taskId = taskKey → ¬ Acceptable casefold r := by
  have hall : records valid stdout = (lfLines stdout).filterMap (recordOf valid) := by
    rw [records_eq_flatMap, List.filterMap_eq_flatMap_toList]
    exact List.flatMap_congr fun line hline => records_line hvalid hcr hline
  have hkept : records valid (retained valid stdout) = (records valid stdout).getLast?.toList := by
    rw [hall, getLast?_filterMap, retained]
    cases hlast : ((lfLines stdout).filter fun line => (recordOf valid line).isSome).getLast? with
    | none => rfl
    | some line => exact records_line hvalid hcr (List.mem_filter.mp (List.mem_of_getLast? hlast)).1
  have hlast : (records valid stdout).getLast?.toList.getLast? = (records valid stdout).getLast? := by
    cases (records valid stdout).getLast? <;> rfl
  simp only [RetainedAgrees, hkept, hlast]
  by_cases hown : ∀ r ∈ records valid stdout, r.taskId = taskKey
  · rw [if_pos hown]
    exact iff_of_true (.inl trivial) (.inl hown)
  · rw [if_neg hown, or_iff_right hown]
    cases (records valid stdout).getLast? with
    | none => simp
    | some r => by_cases hid : r.taskId = taskKey <;> simp [hid]

/-- The text of a record of a run that finished. -/
def finishedText (taskKey : String) : Bytes :=
  encode "\x7b\"task_id\":\"" ++ encode taskKey ++ encode "\",\"workspace\":\"/w\"," ++ encode "\"start_head\":\"" ++
    List.replicate 40 48 ++ encode "\",\"end_head\":\"" ++ List.replicate 40 48 ++ encode "\",\"diff_stat\":\"\"," ++
    encode "\"error\":null," ++ encode "\"execution_status\":" ++ encode "\"finished\"\x7d"

def finishedResult (taskKey : String) : LegacyResult :=
  { taskId := taskKey, workspace := "/w", startHead := String.ofList (List.replicate 40 '0'),
    endHead := String.ofList (List.replicate 40 '0'), diffStat := "", error := none, executionStatus := "finished" }

/-- A check that knows the records of two tasks. -/
def knownRecords (bs : Bytes) : Option LegacyResult :=
  ["DEV-001", "DEV-002"].findSome? fun taskKey =>
    if body bs = finishedText taskKey then some (finishedResult taskKey) else none

def resultLine (taskKey : String) : Bytes := marker ++ finishedText taskKey ++ [Lines.lf]

/-- A run that printed its result. -/
theorem sentinel_agrees_iff_own :
    (∀ result,
      parseSentinel knownRecords id
        ((LogCapture.feedAll knownRecords { limit := 1024 } [resultLine "DEV-001"]).finish knownRecords
          { limit := 1024 } id).1.sentinel 0 "DEV-001" 65536 = .ok result ↔
      parseSentinel knownRecords id [resultLine "DEV-001"].flatten 0 "DEV-001" 65536 = .ok result) ↔
    (0 : Int) ≠ 0 ∨ RetainedAgrees knownRecords id "DEV-001" [resultLine "DEV-001"].flatten :=
  sentinel_agrees_iff knownRecords id id { limit := 1024 } [resultLine "DEV-001"] 0 "DEV-001" (by decide +kernel)
    (by decide +kernel)

/-- Another task's record before the task's own: the whole output is refused, and the line that is
    kept is accepted. -/
theorem mismatch_lost :
    parseSentinel knownRecords id [resultLine "DEV-002", resultLine "DEV-001"].flatten 0 "DEV-001" 65536 =
      .error "task_identity_mismatch" ∧
    parseSentinel knownRecords id
      ((LogCapture.feedAll knownRecords { limit := 1024 } [resultLine "DEV-002", resultLine "DEV-001"]).finish
        knownRecords { limit := 1024 } id).1.sentinel 0 "DEV-001" 65536 = .ok (finishedResult "DEV-001") := by
  have hfit : ∀ line ∈ lfLines [resultLine "DEV-002", resultLine "DEV-001"].flatten, line.length ≤ 65536 := by
    decide +kernel
  have hkept : retained knownRecords [resultLine "DEV-002", resultLine "DEV-001"].flatten = resultLine "DEV-001" := by
    decide +kernel
  rw [retained_eq _ hfit, hkept]
  exact ⟨by decide +kernel, by decide +kernel⟩

end Jarvis.Workers
