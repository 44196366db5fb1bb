/-
  Jarvis.Workers.Capture — the bounded capture of a worker's output
  (`workers/capture.py`: `LogCapture`).

  The check of a record's schema and the redactor are parameters: nothing here rests on which
  records are valid or on what is redacted. The digest of a published log is that of its content
  and is left out.

  `feed_append` says that a capture sees bytes, not blocks; `finishLine` is what it does with a
  line, whatever blocks it came in, and `staging_eq` which lines it stages.
-/
import Jarvis.Lib.Lines
import Jarvis.Lib.Utf8

namespace Jarvis.Workers

open Jarvis.Lines (lf cr splitlines lfLines)
open Jarvis.Utf8 (encode decode)

/-- `LegacyResult`. -/
structure LegacyResult where
  taskId : String
  workspace : String
  startHead : String
  endHead : String
  diffStat : String
  error : Option String
  executionStatus : String
  deriving DecidableEq, Repr

/-- The arguments of `LogCapture`; others raise "invalid capture limits". -/
structure CaptureLimits where
  limit : Nat
  lineLimit : Nat := 65536
  limit_range : 1024 ≤ limit ∧ limit ≤ 104857600 := by decide
  lineLimit_range : 1024 ≤ lineLimit ∧ lineLimit ≤ 262144 := by decide

structure LogCapture where
  staging : Bytes := []
  line : Bytes := []
  truncated : Bool := false
  lineOverflow : Bool := false
  sentinel : Bytes := []
  malformedSentinelSeen : Bool := false
  deriving DecidableEq, Repr

structure RedactedLog where
  content : Bytes
  truncated : Bool
  deriving DecidableEq, Repr

/-- `b"JARVIS_RESULT_JSON="`. -/
def marker : Bytes := encode "JARVIS_RESULT_JSON="

variable (valid : Bytes → Option LegacyResult) (limits : CaptureLimits)

/-- `line.split(b"=", 1)[1]` of a line that starts with the marker, whose "=" is its last byte. -/
def record (line : Bytes) : Bytes := line.drop marker.length

/-- The part of `_line_finished` about the sentinel. -/
def LogCapture.keepSentinel (s : LogCapture) : LogCapture :=
  if marker.isPrefixOf s.line then
    if s.lineOverflow then { s with malformedSentinelSeen := true }
    else if (valid (record s.line)).isSome then { s with sentinel := s.line }
    else { s with malformedSentinelSeen := true }
  else s

/-- The part of `_line_finished` about the staging. -/
def LogCapture.stage (s : LogCapture) : LogCapture :=
  if !s.truncated ∧ !s.lineOverflow ∧ s.staging.length + s.line.length ≤ limits.limit then
    { s with staging := s.staging ++ s.line }
  else { s with truncated := true }

/-- `_line_finished`. -/
def LogCapture.lineFinished (s : LogCapture) : LogCapture :=
  { (s.keepSentinel valid).stage limits with line := [], lineOverflow := false }

/-- The body of the loop of `feed`. -/
def LogCapture.feedPart (s : LogCapture) (part : Bytes) : LogCapture :=
  let remaining := limits.lineLimit - s.line.length
  let s := { s with
    line := s.line ++ part.take remaining, lineOverflow := s.lineOverflow || decide (remaining < part.length) }
  if part.getLast? = some lf then s.lineFinished valid limits else s

/-- `feed`. -/
def LogCapture.feed (s : LogCapture) (block : Bytes) : LogCapture :=
  (splitlines block).foldl (LogCapture.feedPart valid limits) s

/-- The last line, which nothing ended. -/
def LogCapture.flush (s : LogCapture) : LogCapture := if s.line = [] then s else s.lineFinished valid limits

/-- `encoded.rsplit(b"\n", 1)[0]`. -/
def rsplitNewline (bs : Bytes) : Bytes :=
  match bs.reverse.dropWhile (· ≠ lf) with
  | [] => bs
  | _ :: before => before.reverse

/-- `b"[output truncated]\n"`. -/
def truncationNotice : Bytes := encode "[output truncated]\n"

/-- `finish`, with the redactor's `redact_text`. -/
def LogCapture.finish (redact : String → String) (s : LogCapture) : LogCapture × RedactedLog :=
  let s := s.flush valid limits
  let encoded := encode (redact (decode s.staging))
  let (s, encoded) :=
    if limits.limit < encoded.length then ({ s with truncated := true }, rsplitNewline (encoded.take limits.limit))
    else (s, encoded)
  let content := if s.truncated then truncationNotice ++ encoded.take (limits.limit - 20) else encoded
  (s, ⟨content, s.truncated⟩)

/-- The blocks of a stream, fed one after another. -/
def LogCapture.feedAll (blocks : List Bytes) : LogCapture := blocks.foldl (LogCapture.feed valid limits) {}

/-! ## Blocks do not matter -/

variable {valid limits}

theorem feedPart_cons (s : LogCapture) {b : UInt8} {part : Bytes} (hb : b ≠ lf) (hpart : part ≠ []) :
    s.feedPart valid limits (b :: part) = (s.feedPart valid limits [b]).feedPart valid limits part := by
  have hlast : (b :: part).getLast? = part.getLast? := List.getLast?_cons_of_ne_nil hpart
  have hone : ¬ [b].getLast? = some lf := by simpa using hb
  unfold LogCapture.feedPart
  simp only [hlast, hone, if_false]
  rcases hremaining : limits.lineLimit - s.line.length with _ | remaining
  · simp [hremaining]
  · have hnext : limits.lineLimit - (s.line.length + 1) = remaining := by omega
    simp [hnext]

theorem feedPart_eq_foldl (s : LogCapture) {part : Bytes} (hne : part ≠ []) (hpart : lf ∉ part.dropLast) :
    s.feedPart valid limits part = part.foldl (fun s b => s.feedPart valid limits [b]) s := by
  induction part generalizing s with
  | nil => exact absurd rfl hne
  | cons b part ih =>
    by_cases hnil : part = []
    · rw [hnil]
      rfl
    · rw [List.dropLast_cons_of_ne_nil hnil, List.mem_cons, not_or] at hpart
      rw [feedPart_cons s (Ne.symm hpart.1) hnil, ih _ hnil hpart.2]
      rfl

/-- A block is fed byte by byte. -/
theorem feed_eq_foldl (s : LogCapture) (block : Bytes) :
    s.feed valid limits block = block.foldl (fun s b => s.feedPart valid limits [b]) s := by
  have hparts : ∀ (parts : List Bytes) (s : LogCapture), (∀ part ∈ parts, part ≠ [] ∧ lf ∉ part.dropLast) →
      parts.foldl (LogCapture.feedPart valid limits) s =
        parts.flatten.foldl (fun s b => s.feedPart valid limits [b]) s := by
    intro parts
    induction parts with
    | nil => exact fun _ _ => rfl
    | cons part parts ih =>
      intro s h
      obtain ⟨hne, hpart⟩ := h part List.mem_cons_self
      rw [List.foldl_cons, List.flatten_cons, List.foldl_append, feedPart_eq_foldl s hne hpart]
      exact ih _ fun other hother => h other (List.mem_cons_of_mem _ hother)
  rw [LogCapture.feed, hparts, splitlines, Lines.flatten_splitAfter]
  intro part hpart
  exact ⟨Lines.ne_nil_of_mem hpart, Lines.lf_notMem_dropLast (fun next => by simp) hpart⟩

theorem feed_append (s : LogCapture) (a b : Bytes) :
    s.feed valid limits (a ++ b) = (s.feed valid limits a).feed valid limits b := by
  rw [feed_eq_foldl, feed_eq_foldl, feed_eq_foldl, List.foldl_append]

/-- The blocks of a stream are fed as the stream is. -/
theorem feedAll_eq (blocks : List Bytes) :
    LogCapture.feedAll valid limits blocks = LogCapture.feed valid limits {} blocks.flatten := by
  have hall : ∀ (blocks : List Bytes) (s : LogCapture),
      blocks.foldl (LogCapture.feed valid limits) s = s.feed valid limits blocks.flatten := by
    intro blocks
    induction blocks with
    | nil => exact fun _ => rfl
    | cons block blocks ih =>
      intro s
      rw [List.foldl_cons, ih, List.flatten_cons, feed_append]
  exact hall blocks {}

/-! ## What is published -/

theorem length_truncationNotice : truncationNotice.length = 19 := by decide +kernel

theorem finish_content_le (redact : String → String) (s : LogCapture) :
    (s.finish valid limits redact).2.content.length ≤ limits.limit := by
  have hlimit := limits.limit_range.1
  simp only [LogCapture.finish]
  by_cases hlong : limits.limit < (encode (redact (decode (s.flush valid limits).staging))).length
  · rw [if_pos hlong]
    simp only [if_true, List.length_append, length_truncationNotice, List.length_take]
    omega
  · rw [if_neg hlong]
    split
    · simp only [List.length_append, length_truncationNotice, List.length_take]
      omega
    · exact Nat.not_lt.mp hlong

/-- Two partitions of a stream leave the same capture and publish the same, within the limit. -/
theorem capture_chunks (valid : Bytes → Option LegacyResult) (limits : CaptureLimits) (redact : String → String)
    {blocks blocks' : List Bytes} (h : blocks.flatten = blocks'.flatten) :
    LogCapture.feedAll valid limits blocks = LogCapture.feedAll valid limits blocks' ∧
    (LogCapture.feedAll valid limits blocks).finish valid limits redact =
      (LogCapture.feedAll valid limits blocks').finish valid limits redact ∧
    ((LogCapture.feedAll valid limits blocks).finish valid limits redact).2.content.length ≤ limits.limit := by
  have hsame : LogCapture.feedAll valid limits blocks = LogCapture.feedAll valid limits blocks' := by
    rw [feedAll_eq, feedAll_eq, h]
  exact ⟨hsame, by rw [hsame], finish_content_le redact _⟩

/-- A line end that two blocks share, and a line that three of them do. -/
theorem capture_chunks_split :
    LogCapture.feedAll (fun _ => none) { limit := 1024 } [[104, 105, 13], [10, 106], [106, 10]] =
      LogCapture.feedAll (fun _ => none) { limit := 1024 } [[104], [105, 13, 10, 106, 106], [10]] ∧
    (LogCapture.feedAll (fun _ => none) { limit := 1024 } [[104], [105, 13, 10, 106, 106], [10]]).staging =
      [104, 105, 13, 10, 106, 106, 10] := by
  have hbytes : ([[104, 105, 13], [10, 106], [106, 10]] : List Bytes).flatten =
      ([[104], [105, 13, 10, 106, 106], [10]] : List Bytes).flatten := by decide
  exact ⟨(capture_chunks (fun _ => none) { limit := 1024 } id hbytes).1, by decide +kernel⟩

/-! ## A line at a time -/

/-- What a capture does with a line, in whatever blocks it came. -/
def LogCapture.finishLine (valid : Bytes → Option LegacyResult) (limits : CaptureLimits) (s : LogCapture) (line : Bytes) :
    LogCapture :=
  { s with line := line.take limits.lineLimit, lineOverflow := decide (limits.lineLimit < line.length) }.lineFinished
    valid limits

theorem feedPart_whole {s : LogCapture} (hline : s.line = []) (hoverflow : s.lineOverflow = false) (part : Bytes) :
    s.feedPart valid limits part =
      if part.getLast? = some lf then s.finishLine valid limits part
      else { s with line := part.take limits.lineLimit, lineOverflow := decide (limits.lineLimit < part.length) } := by
  simp only [LogCapture.feedPart, LogCapture.finishLine, hline, hoverflow, List.length_nil, Nat.sub_zero, List.nil_append,
    Bool.false_or]

/-- A stream is read line by line, and the last line when it is finished. -/
theorem flush_feed (valid : Bytes → Option LegacyResult) (limits : CaptureLimits) {s : LogCapture}
    (hline : s.line = []) (hoverflow : s.lineOverflow = false) (bs : Bytes) :
    (s.feed valid limits bs).flush valid limits = (lfLines bs).foldl (LogCapture.finishLine valid limits) s := by
  induction bs using Lines.lines_induction generalizing s with
  | nil => simp [LogCapture.feed, LogCapture.flush, splitlines, Lines.splitAfter, lfLines, hline]
  | last line hne hlf =>
    have hlast : ¬ line.getLast? = some lf := fun h => hlf (List.mem_of_getLast? h)
    have hdrop : lf ∉ line.dropLast := fun h => hlf (List.dropLast_subset _ h)
    have htake : line.take limits.lineLimit ≠ [] := by
      have := limits.lineLimit_range.1
      intro hnil
      rcases List.take_eq_nil_iff.mp hnil with hzero | hnil
      · omega
      · exact hne hnil
    rw [feed_eq_foldl, ← feedPart_eq_foldl s hne hdrop, feedPart_whole hline hoverflow, if_neg hlast,
      Lines.lfLines_last hlf hne, LogCapture.flush, if_neg htake]
    rfl
  | more line rest hlf ih =>
    have hdrop : lf ∉ (line ++ [lf]).dropLast := by rwa [List.dropLast_concat]
    have hone : s.feed valid limits (line ++ [lf]) = s.finishLine valid limits (line ++ [lf]) := by
      rw [feed_eq_foldl, ← feedPart_eq_foldl s (by simp) hdrop, feedPart_whole hline hoverflow, if_pos (by simp)]
    rw [List.append_cons, feed_append, hone, ih rfl rfl, ← List.append_cons, Lines.lfLines_cons hlf]
    rfl

/-! ## What is staged -/

/-- The lines that fit: up to the first that is too long or for which there is no room. -/
def admitted (limits : CaptureLimits) (room : Nat) : List Bytes → List Bytes
  | [] => []
  | line :: lines =>
    if line.length ≤ limits.lineLimit ∧ line.length ≤ room then line :: admitted limits (room - line.length) lines else []

@[simp] theorem keepSentinel_staging (s : LogCapture) : (s.keepSentinel valid).staging = s.staging := by
  unfold LogCapture.keepSentinel
  split_ifs <;> rfl

@[simp] theorem keepSentinel_truncated (s : LogCapture) : (s.keepSentinel valid).truncated = s.truncated := by
  unfold LogCapture.keepSentinel
  split_ifs <;> rfl

@[simp] theorem keepSentinel_line (s : LogCapture) : (s.keepSentinel valid).line = s.line := by
  unfold LogCapture.keepSentinel
  split_ifs <;> rfl

@[simp] theorem keepSentinel_lineOverflow (s : LogCapture) : (s.keepSentinel valid).lineOverflow = s.lineOverflow := by
  unfold LogCapture.keepSentinel
  split_ifs <;> rfl

/-- A line is staged while nothing was cut, if it fits. -/
theorem finishLine_staging (valid : Bytes → Option LegacyResult) (limits : CaptureLimits) (s : LogCapture)
    (line : Bytes) :
    (s.finishLine valid limits line).staging = (if s.truncated = false ∧ line.length ≤ limits.lineLimit ∧
        s.staging.length + line.length ≤ limits.limit then s.staging ++ line else s.staging) ∧
    (s.finishLine valid limits line).truncated = !decide (s.truncated = false ∧ line.length ≤ limits.lineLimit ∧
        s.staging.length + line.length ≤ limits.limit) := by
  simp only [LogCapture.finishLine, LogCapture.lineFinished, LogCapture.stage, keepSentinel_staging,
    keepSentinel_truncated, keepSentinel_line, keepSentinel_lineOverflow]
  by_cases hlong : line.length ≤ limits.lineLimit
  · have htake : line.take limits.lineLimit = line := List.take_of_length_le hlong
    rw [htake]
    by_cases hfits : s.truncated = false ∧ s.staging.length + line.length ≤ limits.limit
    · simp [hlong, hfits]
    · by_cases htruncated : s.truncated = false
      · have hroom : ¬ s.staging.length + line.length ≤ limits.limit := fun h => hfits ⟨htruncated, h⟩
        simp [hroom, htruncated]
      · simp [htruncated]
  · simp [hlong, Nat.not_le.mp hlong]

theorem staging_eq (valid : Bytes → Option LegacyResult) (limits : CaptureLimits) (lines : List Bytes)
    {s : LogCapture} (hopen : s.truncated = false) (hroom : s.staging.length ≤ limits.limit) :
    (lines.foldl (LogCapture.finishLine valid limits) s).staging =
      s.staging ++ (admitted limits (limits.limit - s.staging.length) lines).flatten ∧
    ((lines.foldl (LogCapture.finishLine valid limits) s).truncated = true ↔
      admitted limits (limits.limit - s.staging.length) lines ≠ lines) := by
  have hclosed : ∀ (lines : List Bytes) (s : LogCapture), s.truncated = true →
      (lines.foldl (LogCapture.finishLine valid limits) s).staging = s.staging ∧
      (lines.foldl (LogCapture.finishLine valid limits) s).truncated = true := by
    intro lines
    induction lines with
    | nil => exact fun s h => ⟨rfl, h⟩
    | cons line lines ih =>
      intro s h
      obtain ⟨hstaging, htruncated⟩ := finishLine_staging valid limits s line
      simp only [h, Bool.true_eq_false, false_and, if_false, decide_false, Bool.not_false] at hstaging htruncated
      rw [List.foldl_cons, ← hstaging]
      exact ih _ htruncated
  induction lines generalizing s with
  | nil => simp [admitted, hopen]
  | cons line lines ih =>
    obtain ⟨hstaging, htruncated⟩ := finishLine_staging valid limits s line
    rw [List.foldl_cons, admitted]
    by_cases hfits : line.length ≤ limits.lineLimit ∧ line.length ≤ limits.limit - s.staging.length
    · have hall : s.truncated = false ∧ line.length ≤ limits.lineLimit ∧
          s.staging.length + line.length ≤ limits.limit := ⟨hopen, hfits.1, by omega⟩
      rw [if_pos hall] at hstaging
      rw [decide_eq_true hall, Bool.not_true] at htruncated
      obtain ⟨ihs, iht⟩ := ih htruncated (by rw [hstaging, List.length_append]; omega)
      have hrest : limits.limit - (s.staging ++ line).length = limits.limit - s.staging.length - line.length := by
        rw [List.length_append]
        omega
      rw [hstaging, hrest] at ihs iht
      rw [if_pos hfits, ihs, iht, List.flatten_cons, List.append_assoc]
      exact ⟨rfl, by simp⟩
    · have hnone : ¬ (s.truncated = false ∧ line.length ≤ limits.lineLimit ∧
          s.staging.length + line.length ≤ limits.limit) := fun h => hfits ⟨h.2.1, by omega⟩
      rw [if_neg hnone] at hstaging
      rw [decide_eq_false hnone, Bool.not_false] at htruncated
      obtain ⟨hs, ht⟩ := hclosed lines _ htruncated
      rw [if_neg hfits, hs, hstaging, ht]
      simp

end Jarvis.Workers
