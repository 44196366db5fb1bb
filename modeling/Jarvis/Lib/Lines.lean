/-
  Jarvis.Lib.Lines — byte strings cut into lines.

  `splitAfter ends` cuts behind every byte at which `ends` says so, given the byte and the next
  one. `splitlines` are the lines of `bytes.splitlines(keepends=True)`, ended by "\n", "\r" or
  "\r\n"; `lfLines` are those ended by "\n" alone. A line between two "\n" is cut by itself:
  `splitlines_eq_flatMap`.
-/
import Mathlib.Data.List.Basic
import Mathlib.Tactic.Common

namespace Jarvis

abbrev Bytes := List UInt8

namespace Lines

def lf : UInt8 := 10
def cr : UInt8 := 13

/-- Cut behind every byte that ends a line. -/
def splitAfter (ends : UInt8 → Option UInt8 → Bool) : Bytes → List Bytes
  | [] => []
  | b :: rest =>
    if ends b rest.head? then [b] :: splitAfter ends rest
    else
      match splitAfter ends rest with
      | [] => [[b]]
      | line :: lines => (b :: line) :: lines

/-- `bytes.splitlines(keepends=True)`: "\r\n" is one end. -/
def splitlines (bs : Bytes) : List Bytes := splitAfter (fun b next => b = lf ∨ b = cr ∧ next ≠ some lf) bs

/-- The lines that "\n" ends. -/
def lfLines (bs : Bytes) : List Bytes := splitAfter (fun b _ => b = lf) bs

/-- A line without its end. -/
def body (line : Bytes) : Bytes :=
  let line := if line.getLast? = some lf then line.dropLast else line
  if line.getLast? = some cr then line.dropLast else line

variable {ends : UInt8 → Option UInt8 → Bool} {b : UInt8} {bs cs line : Bytes}

theorem splitAfter_cons_of_ends (h : ends b bs.head? = true) : splitAfter ends (b :: bs) = [b] :: splitAfter ends bs := by
  rw [splitAfter, if_pos h]

theorem splitAfter_cons_of_not_ends {lines : List Bytes} (h : ends b bs.head? = false)
    (hlines : splitAfter ends bs = line :: lines) : splitAfter ends (b :: bs) = (b :: line) :: lines := by
  rw [splitAfter, if_neg (by simp [h]), hlines]

theorem splitAfter_eq_nil : splitAfter ends bs = [] ↔ bs = [] := by
  cases bs with
  | nil => simp [splitAfter]
  | cons b bs =>
    rw [splitAfter]
    split
    · simp
    · split <;> simp

theorem flatten_splitAfter (ends : UInt8 → Option UInt8 → Bool) (bs : Bytes) : (splitAfter ends bs).flatten = bs := by
  induction bs with
  | nil => rfl
  | cons b bs ih =>
    rw [splitAfter]
    split
    · rw [List.flatten_cons, ih]
      rfl
    · split
      · rename_i hnil
        rw [splitAfter_eq_nil.mp hnil]
        rfl
      · rename_i line lines hlines
        rw [hlines] at ih
        rw [List.flatten_cons, List.cons_append, ← List.flatten_cons, ih]

theorem ne_nil_of_mem (h : line ∈ splitAfter ends bs) : line ≠ [] := by
  induction bs generalizing line with
  | nil => cases h
  | cons b bs ih =>
    rw [splitAfter] at h
    split at h
    · rcases List.mem_cons.mp h with rfl | h
      · simp
      · exact ih h
    · split at h
      · rw [List.mem_singleton.mp h]
        simp
      · rename_i head lines hlines
        rcases List.mem_cons.mp h with rfl | h
        · simp
        · exact ih (hlines ▸ List.mem_cons_of_mem _ h)

theorem sublist_of_mem (h : line ∈ splitAfter ends bs) : line.Sublist bs := by
  have hflat := List.sublist_flatten_of_mem h
  rwa [flatten_splitAfter] at hflat

/-- Where every "\n" ends a line, a line has none but at its end. -/
theorem lf_notMem_dropLast (hends : ∀ next, ends lf next = true) (h : line ∈ splitAfter ends bs) : lf ∉ line.dropLast := by
  induction bs generalizing line with
  | nil => cases h
  | cons b bs ih =>
    rw [splitAfter] at h
    split at h
    · rcases List.mem_cons.mp h with rfl | h
      · simp
      · exact ih h
    · rename_i hb
      have hne : lf ≠ b := fun heq => hb (heq ▸ hends _)
      split at h
      · rw [List.mem_singleton.mp h]
        simp
      · rename_i head lines hlines
        rcases List.mem_cons.mp h with rfl | h
        · have hhead : head ∈ splitAfter ends bs := hlines ▸ List.mem_cons_self
          rw [List.dropLast_cons_of_ne_nil (ne_nil_of_mem hhead), List.mem_cons, not_or]
          exact ⟨hne, ih hhead⟩
        · exact ih (hlines ▸ List.mem_cons_of_mem _ h)

/-- A cut may be made first wherever the next byte does not matter. -/
theorem splitAfter_append (hends : ∀ next, ends b next = true) (bs cs : Bytes) :
    splitAfter ends (bs ++ b :: cs) = splitAfter ends (bs ++ [b]) ++ splitAfter ends cs := by
  induction bs with
  | nil => rw [List.nil_append, List.nil_append, splitAfter_cons_of_ends (hends _), splitAfter_cons_of_ends (hends _)]; rfl
  | cons a bs ih =>
    have hhead : (bs ++ b :: cs).head? = (bs ++ [b]).head? := by cases bs <;> rfl
    rw [List.cons_append, List.cons_append]
    by_cases ha : ends a (bs ++ [b]).head? = true
    · rw [splitAfter_cons_of_ends (hhead ▸ ha), splitAfter_cons_of_ends ha, ih, List.cons_append]
    · have ha : ends a (bs ++ [b]).head? = false := by simpa using ha
      cases hlines : splitAfter ends (bs ++ [b]) with
      | nil => exact absurd (splitAfter_eq_nil.mp hlines) (by simp)
      | cons line lines =>
        rw [hlines, List.cons_append] at ih
        rw [splitAfter_cons_of_not_ends (hhead ▸ ha) ih, splitAfter_cons_of_not_ends ha hlines, List.cons_append]

theorem body_isPrefix (line : Bytes) : body line <+: line := by
  unfold body
  simp only
  split <;> split
  · exact (List.dropLast_prefix _).trans (List.dropLast_prefix _)
  · exact List.dropLast_prefix _
  · exact List.dropLast_prefix _
  · exact List.prefix_refl _

/-! ## Lines that "\n" ends -/

theorem splitAfter_of_not_ends (h : ∀ c ∈ bs, ∀ next, ends c next = false) (hne : bs ≠ []) : splitAfter ends bs = [bs] := by
  induction bs with
  | nil => exact absurd rfl hne
  | cons b bs ih =>
    have hb := h b List.mem_cons_self bs.head?
    by_cases hnil : bs = []
    · subst hnil
      have hb : ends b none = false := hb
      simp [splitAfter, hb]
    · exact splitAfter_cons_of_not_ends hb (ih (fun c hc => h c (List.mem_cons_of_mem _ hc)) hnil)

theorem lfLines_last (hline : lf ∉ bs) (hne : bs ≠ []) : lfLines bs = [bs] :=
  splitAfter_of_not_ends (fun _ hc _ => decide_eq_false fun heq => hline (heq ▸ hc)) hne

theorem splitAfter_single (h : ∀ c ∈ bs, ∀ next, ends c next = false) (hb : ends b none = true) :
    splitAfter ends (bs ++ [b]) = [bs ++ [b]] := by
  induction bs with
  | nil => exact splitAfter_cons_of_ends hb
  | cons c bs ih =>
    exact splitAfter_cons_of_not_ends (h c List.mem_cons_self _) (ih fun d hd => h d (List.mem_cons_of_mem _ hd))

theorem lfLines_single (hline : lf ∉ bs) : lfLines (bs ++ [lf]) = [bs ++ [lf]] :=
  splitAfter_single (fun _ hc _ => decide_eq_false fun heq => hline (heq ▸ hc)) rfl

theorem lfLines_cons (hline : lf ∉ bs) (rest : Bytes) : lfLines (bs ++ lf :: rest) = (bs ++ [lf]) :: lfLines rest := by
  rw [lfLines, splitAfter_append fun _ => rfl]
  exact congrArg (· ++ lfLines rest) (lfLines_single hline)

/-- Bytes are read a line at a time, and then what is left. -/
theorem lines_induction {P : Bytes → Prop} (nil : P []) (last : ∀ line, line ≠ [] → lf ∉ line → P line)
    (more : ∀ line rest, lf ∉ line → P rest → P (line ++ lf :: rest)) (bs : Bytes) : P bs := by
  by_cases hlf : lf ∈ bs
  · obtain ⟨line, rest, rfl, hline⟩ := List.eq_append_cons_of_mem hlf
    exact more line rest hline (lines_induction nil last more rest)
  · by_cases hne : bs = []
    · rw [hne]
      exact nil
    · exact last bs hne hlf
termination_by bs.length
decreasing_by
  subst_vars
  simp only [List.length_append, List.length_cons]
  omega

/-! ## Lines without a carriage return -/

theorem splitlines_ends_false (hlf : lf ∉ bs) (hcr : cr ∉ bs) {c : UInt8} (hc : c ∈ bs) (next : Option UInt8) :
    decide (c = lf ∨ c = cr ∧ next ≠ some lf) = false :=
  decide_eq_false fun h => h.elim (fun heq => hlf (heq ▸ hc)) fun heq => hcr (heq.1 ▸ hc)

theorem splitlines_single (hlf : lf ∉ bs) (hcr : cr ∉ bs) : splitlines (bs ++ [lf]) = [bs ++ [lf]] :=
  splitAfter_single (fun _ hc => splitlines_ends_false hlf hcr hc) rfl

theorem splitlines_last (hlf : lf ∉ bs) (hcr : cr ∉ bs) (hne : bs ≠ []) : splitlines bs = [bs] :=
  splitAfter_of_not_ends (fun _ hc => splitlines_ends_false hlf hcr hc) hne

theorem body_of_notMem (hlf : lf ∉ bs) (hcr : cr ∉ bs) : body bs = bs := by
  have hlast : ∀ c, c ∉ bs → bs.getLast? ≠ some c := fun c hc h => hc (List.mem_of_getLast? h)
  simp only [body, hlast lf hlf, hlast cr hcr, if_false]

theorem body_single (hcr : cr ∉ bs) : body (bs ++ [lf]) = bs := by
  have hlast : bs.getLast? ≠ some cr := fun h => hcr (List.mem_of_getLast? h)
  simp only [body, List.getLast?_concat, if_true, List.dropLast_concat, hlast, if_false]

/-- A line that "\n" ends, or the last one, which nothing does. -/
theorem line_cases (h : line ∈ lfLines bs) : (∃ w, lf ∉ w ∧ line = w ++ [lf]) ∨ lf ∉ line ∧ line ≠ [] := by
  have hne := ne_nil_of_mem h
  have hdrop : lf ∉ line.dropLast := lf_notMem_dropLast (fun _ => rfl) h
  by_cases hlast : line.getLast hne = lf
  · exact .inl ⟨_, hdrop, by rw [← hlast, List.dropLast_append_getLast]⟩
  · refine .inr ⟨fun hmem => ?_, hne⟩
    rw [← List.dropLast_append_getLast hne, List.mem_append, List.mem_singleton] at hmem
    exact hmem.elim hdrop fun heq => hlast heq.symm

/-- No line of `splitlines` crosses a "\n". -/
theorem splitlines_eq_flatMap (bs : Bytes) : splitlines bs = (lfLines bs).flatMap splitlines := by
  induction bs using lines_induction with
  | nil => rfl
  | last line hne hline => simp [lfLines_last hline hne]
  | more line rest hline ih =>
    rw [lfLines_cons hline, List.flatMap_cons, ← ih, splitlines, splitAfter_append fun next => by simp]
    rfl

end Lines

end Jarvis
