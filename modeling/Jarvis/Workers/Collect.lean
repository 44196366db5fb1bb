/-
  Jarvis.Workers.Collect — a published log on its way back (`workers/wrapper.py`: `bounded_log` in
  `collect`; `workers/openhands.py`: the loop over the logs in `OpenHandsSSHAdapter.collect`).

  The wrapper decodes what was published and the adapter encodes it again, so what the size check
  sees is the published text but for the character that the truncation may have cut through:
  `recoded_notice`. Where that cut is right behind the first byte of a character, one byte too
  many comes back.
-/
import Jarvis.Workers.Capture

namespace Jarvis.Workers

open Jarvis.Lines (lf lfLines)
open Jarvis.Utf8 (encode decode encodeChars decodeChars decodeFrom recoded)

/-- `bounded_log`: one byte more than is allowed is read. -/
def boundedLog (content : Bytes) : Except String String :=
  let content := content.take 10485761
  if 10485760 < content.length then .error "log_oversized" else .ok (decode content)

/-- What the adapter publishes of a log that the wrapper answered. -/
def publishLog (redact : String → String) (maxOutputBytes : Nat) (log : String) : Except String Bytes :=
  let raw := encode log
  if maxOutputBytes < raw.length then .error "log_oversized" else .ok (encode (redact (decode raw)))

/-- A log that was captured, collected with the limit it was captured with. -/
def collect (redact : String → String) (limits : CaptureLimits) (content : Bytes) : Except String Bytes := do
  publishLog redact limits.limit (← boundedLog content)

/-! ## The text of a stream -/

/-- The redacted text of the lines that fit. -/
def capturedText (redact : String → String) (limits : CaptureLimits) (stream : Bytes) : Bytes :=
  encode (redact (decode (admitted limits limits.limit (lfLines stream)).flatten))

/-- A line of the stream did not fit, or the redacted text did not. -/
def Truncates (redact : String → String) (limits : CaptureLimits) (stream : Bytes) : Prop :=
  admitted limits limits.limit (lfLines stream) ≠ lfLines stream ∨
    limits.limit < (capturedText redact limits stream).length

instance (redact : String → String) (limits : CaptureLimits) (stream : Bytes) :
    Decidable (Truncates redact limits stream) := by
  unfold Truncates
  infer_instance

/-- The text, or its whole lines where it is too long. -/
def wholeLines (redact : String → String) (limits : CaptureLimits) (stream : Bytes) : Bytes :=
  let text := capturedText redact limits stream
  if limits.limit < text.length then rsplitNewline (text.take limits.limit) else text

/-- A log that is not truncated is within the wrapper's bound. One that is has no first byte of a
    character of several bytes right before the cut, and is within the bound. -/
def Collectable (redact : String → String) (limits : CaptureLimits) (stream : Bytes) : Prop :=
  if Truncates redact limits stream then
    (limits.limit - 20 ≤ (wholeLines redact limits stream).length →
      ∀ b ∈ (capturedText redact limits stream)[limits.limit - 21]?, b.toNat < 0xC0) ∧
    19 + min (limits.limit - 20) (wholeLines redact limits stream).length ≤ 10485760
  else (capturedText redact limits stream).length ≤ 10485760

instance decidableLast (last : Option UInt8) : Decidable (∀ b ∈ last, b.toNat < 0xC0) :=
  Option.decidableForallMem last

instance (redact : String → String) (limits : CaptureLimits) (stream : Bytes) :
    Decidable (Collectable redact limits stream) := by
  unfold Collectable
  infer_instance

variable {valid : Bytes → Option LegacyResult} {redact : String → String} {limits : CaptureLimits} {stream : Bytes}

/-- What a capture publishes of a stream. -/
theorem finish_content (stream : Bytes) :
    (({} : LogCapture).feed valid limits stream |>.finish valid limits redact).2.content =
      if Truncates redact limits stream then
        truncationNotice ++ (wholeLines redact limits stream).take (limits.limit - 20)
      else capturedText redact limits stream := by
  have hflush := flush_feed valid limits (s := {}) rfl rfl stream
  obtain ⟨hstaging, htruncated⟩ := staging_eq valid limits (lfLines stream) (s := {}) rfl (Nat.zero_le _)
  rw [← hflush] at hstaging htruncated
  simp only [List.nil_append, List.length_nil, Nat.sub_zero] at hstaging htruncated
  have htext : encode (redact (decode ((({} : LogCapture).feed valid limits stream).flush valid limits).staging)) =
      capturedText redact limits stream := by rw [hstaging, capturedText]
  simp only [LogCapture.finish, htext]
  by_cases hlong : limits.limit < (capturedText redact limits stream).length
  · have hcutT : Truncates redact limits stream := .inr hlong
    rw [if_pos hlong, if_pos hcutT, wholeLines, if_pos hlong]
    rfl
  · rw [if_neg hlong, wholeLines, if_neg hlong]
    by_cases hcut : admitted limits limits.limit (lfLines stream) = lfLines stream
    · have hwhole : ¬ Truncates redact limits stream := fun h => h.elim (fun h => h hcut) hlong
      rw [if_neg hwhole, if_neg (fun h => htruncated.mp h hcut)]
    · have hcutT : Truncates redact limits stream := .inl hcut
      rw [if_pos hcutT, if_pos (htruncated.mpr hcut)]

/-! ## Decoded and encoded again -/

/-- Whole lines of a text are the text up to somewhere. -/
theorem rsplitNewline_isPrefix (bs : Bytes) : rsplitNewline bs <+: bs := by
  unfold rsplitNewline
  cases hrest : bs.reverse.dropWhile (· ≠ lf) with
  | nil => exact List.prefix_refl bs
  | cons b before =>
    have hsuffix : before <:+ bs.reverse := (List.suffix_cons b before).trans (hrest ▸ List.dropWhile_suffix _)
    simpa using List.reverse_prefix.mpr hsuffix

theorem wholeLines_eq_take (redact : String → String) (limits : CaptureLimits) (stream : Bytes) :
    wholeLines redact limits stream =
      (capturedText redact limits stream).take (wholeLines redact limits stream).length := by
  have h : wholeLines redact limits stream <+: capturedText redact limits stream := by
    unfold wholeLines
    simp only
    split
    · exact (rsplitNewline_isPrefix _).trans (List.take_prefix _ _)
    · exact List.prefix_refl _
  exact List.prefix_iff_eq_take.mp h

/-- The notice comes back as it is. -/
theorem recoded_notice (bs : Bytes) : recoded (truncationNotice ++ bs) = 19 + recoded bs := by
  have hdecode : decodeChars (truncationNotice ++ bs) = "[output truncated]\n".toList ++ decodeChars bs :=
    Utf8.decodeFrom_encodeChars _ bs
  rw [recoded, hdecode, Utf8.encodeChars_append, List.length_append]
  exact congrArg (· + _) length_truncationNotice

theorem length_encode_decode (bs : Bytes) : (encode (decode bs)).length = recoded bs := by
  rw [encode, decode, String.toList_ofList]
  rfl

/-- A log passes if it is within the wrapper's bound and comes back within the limit. -/
theorem collect_eq (content : Bytes) :
    collect redact limits content =
      if content.length ≤ 10485760 ∧ recoded content ≤ limits.limit then
        .ok (encode (redact (decode (encode (decode content)))))
      else .error "log_oversized" := by
  have hread : (10485760 < (content.take 10485761).length) ↔ ¬ content.length ≤ 10485760 := by
    rw [List.length_take]
    omega
  unfold collect boundedLog
  by_cases hlong : content.length ≤ 10485760
  · rw [if_neg (by rw [hread]; exact fun h => h hlong), List.take_of_length_le (by omega)]
    show publishLog redact limits.limit (decode content) = _
    unfold publishLog
    simp only [length_encode_decode, hlong, true_and]
    by_cases hback : recoded content ≤ limits.limit
    · rw [if_neg (Nat.not_lt.mpr hback), if_pos hback]
    · rw [if_pos (Nat.not_le.mp hback), if_neg hback]
  · rw [if_pos (hread.mpr hlong), if_neg fun h => hlong h.1]
    rfl

theorem collect_ok (content : Bytes) :
    (∃ safe, collect redact limits content = .ok safe) ↔ content.length ≤ 10485760 ∧ recoded content ≤ limits.limit := by
  rw [collect_eq]
  split
  · rename_i h
    exact iff_of_true ⟨_, rfl⟩ h
  · rename_i h
    exact iff_of_false (fun ⟨_, hok⟩ => nomatch hok) h

/-- A text that is cut comes back at most two bytes longer, and just two behind a first byte. -/
theorem recoded_take_le (text : String) {n : Nat} (hn : n ≤ (encode text).length) (hpos : 0 < n) :
    recoded ((encode text).take n) ≤ n + 2 ∧
    (recoded ((encode text).take n) ≤ n + 1 ↔ ∀ b ∈ (encode text)[n - 1]?, b.toNat < 0xC0) := by
  obtain ⟨hlead, hother⟩ := Utf8.recoded_take text.toList hn
  have hlast : ((encodeChars text.toList).take n).getLast? = (encode text)[n - 1]? := by
    rw [List.getLast?_take, if_neg (by omega), List.getElem?_eq_getElem (by simp only [encode] at hn; omega)]
    exact (List.getElem?_eq_getElem _).symm
  rw [hlast] at hlead hother
  by_cases hcut : ∃ b ∈ (encode text)[n - 1]?, 0xC0 ≤ b.toNat
  · have hlength : recoded ((encode text).take n) = n + 2 := hlead hcut
    obtain ⟨b, hb, hle⟩ := hcut
    refine ⟨by omega, by omega, fun h => ?_⟩
    have := h b hb
    omega
  · have hall : ∀ b ∈ (encode text)[n - 1]?, b.toNat < 0xC0 := fun b hb => Nat.lt_of_not_le fun hle => hcut ⟨b, hb, hle⟩
    have hlength : recoded ((encode text).take n) ≤ n + 1 := hother hall
    exact ⟨by omega, fun _ => hall, fun _ => hlength⟩

/-- Which captured logs are collected: a text that is cut right behind the first byte of a character
    of several bytes is one byte too long when it comes back. -/
theorem collect_ok_iff (valid : Bytes → Option LegacyResult) (redact : String → String) (limits : CaptureLimits)
    (blocks : List Bytes) :
    (∃ safe, collect redact limits ((LogCapture.feedAll valid limits blocks).finish valid limits redact).2.content =
      .ok safe) ↔ Collectable redact limits blocks.flatten := by
  have hlimit := limits.limit_range.1
  rw [feedAll_eq, finish_content, collect_ok, Collectable]
  generalize blocks.flatten = stream
  by_cases hcut : Truncates redact limits stream
  · rw [if_pos hcut, if_pos hcut, recoded_notice, List.length_append, length_truncationNotice, List.length_take,
      and_comm]
    refine and_congr_left fun _ => ?_
    obtain ⟨text, htext⟩ : ∃ text, capturedText redact limits stream = encode text := ⟨_, rfl⟩
    have hwhole := wholeLines_eq_take redact limits stream
    have hle : (wholeLines redact limits stream).length ≤ (encode text).length := by
      rw [hwhole, htext, List.length_take]
      exact Nat.min_le_right _ _
    have hcontent : (wholeLines redact limits stream).take (limits.limit - 20) =
        (encode text).take (min (limits.limit - 20) (wholeLines redact limits stream).length) := by
      rw [hwhole, htext, List.take_take, ← htext, ← hwhole]
    rw [hcontent, htext]
    by_cases hfull : limits.limit - 20 ≤ (wholeLines redact limits stream).length
    · obtain ⟨-, hiff⟩ := recoded_take_le text (n := limits.limit - 20) (by omega) (by omega)
      rw [Nat.min_eq_left hfull, show limits.limit - 21 = limits.limit - 20 - 1 from rfl, ← hiff]
      constructor
      · intro h _
        omega
      · intro h
        have := h hfull
        omega
    · -- a text whose whole lines leave room may come back longer
      refine iff_of_true ?_ fun h => absurd h hfull
      rw [Nat.min_eq_right (Nat.le_of_not_le hfull)]
      by_cases hzero : (wholeLines redact limits stream).length = 0
      · rw [hzero, List.take_zero]
        show 19 + 0 ≤ limits.limit
        omega
      · obtain ⟨hlength, -⟩ := recoded_take_le text hle (Nat.pos_of_ne_zero hzero)
        omega
  · rw [if_neg hcut, if_neg hcut]
    have hshort : (capturedText redact limits stream).length ≤ limits.limit := Nat.not_lt.mp fun h => hcut (.inr h)
    have hsame : recoded (capturedText redact limits stream) = (capturedText redact limits stream).length :=
      Utf8.recoded_encodeChars _
    rw [hsame]
    exact and_iff_left hshort

/-- 1003 bytes and a character of two on a line, and a line that does not fit. -/
def cutLog : Bytes := List.replicate 1003 46 ++ [0xC3, 0xA9, 10] ++ List.replicate 99 46 ++ [10]

/-- The cut goes through that character. -/
theorem cut_log_oversized :
    collect id { limit := 1024 } ((LogCapture.feedAll (fun _ => none) { limit := 1024 } [cutLog]).finish
      (fun _ => none) { limit := 1024 } id).2.content = .error "log_oversized" := by
  have hkept : admitted { limit := 1024 } 1024 (lfLines cutLog) = [List.replicate 1003 46 ++ [0xC3, 0xA9, 10]] := by
    decide +kernel
  have htext : capturedText id { limit := 1024 } cutLog = List.replicate 1003 46 ++ [0xC3, 0xA9, 10] := by
    rw [capturedText, hkept, List.flatten_singleton, encode, decode, id, String.toList_ofList]
    decide +kernel
  have hcut : Truncates id { limit := 1024 } cutLog := by
    refine .inl fun h => ?_
    have hlength := congrArg List.length (hkept.symm.trans h)
    exact absurd hlength (by decide +kernel)
  have hshort : ¬ 1024 < (List.replicate 1003 46 ++ [0xC3, 0xA9, 10] : Bytes).length := by
    rw [List.length_append, List.length_replicate]
    decide
  rw [feedAll_eq, List.flatten_singleton, finish_content, if_pos hcut, wholeLines, htext, if_neg hshort, collect_eq,
    if_neg fun h => absurd h.2 _]
  rw [recoded_notice]
  decide +kernel

end Jarvis.Workers
