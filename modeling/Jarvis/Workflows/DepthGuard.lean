/-
  Jarvis.Workflows.DepthGuard — how deep a workflow document may nest: the scan of its bytes before
  it is parsed (`security.py`: `_workflow_depth_exceeded`) and the check of the parsed value
  (`workflows/validation.py`: `_resource_issues`).

  The scan is over a text's containers in order, so what it says of a text follows the text's
  grammar (`scan_text`). It counts every member of an object; the parsed value has lost those that
  a later member of the same key replaced.

  Whether a float is finite, and the length of `json.dumps`, are parameters.
-/
import Jarvis.Lib.JsonText
import Jarvis.Lib.Utf8
import Jarvis.Workflows.Validation

namespace Jarvis.Workflows

open Jarvis.JsonText

def maxWorkflowBytes : Nat := 1048576

def maxJsonDepth : Nat := 24

/-! ## The scan -/

structure DepthScan where
  depth : Int := 0
  quoted : Bool := false
  escaped : Bool := false
  deriving DecidableEq, Repr

/-- The body of the loop: `none` where it returns True. -/
def DepthScan.step (s : DepthScan) (character : UInt8) : Option DepthScan :=
  if s.quoted then
    if s.escaped then some { s with escaped := false }
    else if character = 92 then some { s with escaped := true }
    else if character = 34 then some { s with quoted := false }
    else some s
  else if character = 34 then some { s with quoted := true }
  else if character = 91 ∨ character = 123 then
    if (maxJsonDepth : Int) + 1 < s.depth + 1 then none else some { s with depth := s.depth + 1 }
  else if character = 93 ∨ character = 125 then some { s with depth := s.depth - 1 }
  else some s

def DepthScan.scan (s : DepthScan) : Bytes → Bool
  | [] => false
  | character :: body =>
    match s.step character with
    | none => true
    | some s => DepthScan.scan s body

/-- `_workflow_depth_exceeded`. -/
def workflowDepthExceeded (body : Bytes) : Bool := DepthScan.scan {} body

/-! ## The validator -/

def depthIssue : WorkflowIssue :=
  { code := "resource.json_depth", message := "Workflow JSON nesting/complexity exceeds limits" }

/-- `pending.extend`, of a list whose end is popped. -/
def extendPending (items : List Value) (depth : Nat) (pending : List (Value × Nat)) : List (Value × Nat) :=
  (items.map fun item => (item, depth)).reverse ++ pending

/-- The loop of `_resource_issues`: `left` is what `count` is short of its limit. -/
def resourceLoop (isfinite : Number → Bool) : Nat → List (Value × Nat) → Option (List WorkflowIssue)
  | _, [] => none
  | 0, _ :: _ => some [depthIssue]
  | left + 1, (value, depth) :: pending =>
    if maxJsonDepth < depth then some [depthIssue]
    else
      match value with
      | .obj members => resourceLoop isfinite left (extendPending (members.map Prod.snd) (depth + 1) pending)
      | .list items => resourceLoop isfinite left (extendPending items (depth + 1) pending)
      | .scalar (.float n) =>
        if isfinite n then resourceLoop isfinite left pending
        else some [{ code := "resource.non_finite", message := "Workflow JSON must contain finite numbers" }]
      | .scalar _ => resourceLoop isfinite left pending

/-- `_resource_issues`. -/
def resourceIssues (isfinite : Number → Bool) (dumpsLength : Value → Option Nat) (raw : Value) : List WorkflowIssue :=
  match resourceLoop isfinite maxWorkflowBytes [(raw, 0)] with
  | some issues => issues
  | none =>
    match dumpsLength raw with
    | none => [{ code := "schema.invalid_json", message := "Workflow must contain JSON data only" }]
    | some size =>
      check (decide (maxWorkflowBytes < size))
        { code := "resource.json_size", message := "Workflow JSON exceeds the 1 MiB limit" }

/-! ## Bytes that the scan passes over -/

/-- Not a quote, nor a bracket or brace. -/
def Inert (b : UInt8) : Prop := b ≠ 34 ∧ b ≠ 91 ∧ b ≠ 123 ∧ b ≠ 93 ∧ b ≠ 125

instance (b : UInt8) : Decidable (Inert b) := by
  unfold Inert
  infer_instance

variable {d : Int}

theorem scan_inert {bs : Bytes} (h : ∀ b ∈ bs, Inert b) (rest : Bytes) :
    DepthScan.scan { depth := d } (bs ++ rest) = DepthScan.scan { depth := d } rest := by
  induction bs with
  | nil => rfl
  | cons b bs ih =>
    obtain ⟨h1, h2, h3, h4, h5⟩ := h b List.mem_cons_self
    rw [List.cons_append, DepthScan.scan]
    simp only [DepthScan.step, Bool.false_eq_true, if_false, h1, h2, h3, h4, h5, or_self]
    exact ih fun other hother => h other (List.mem_cons_of_mem _ hother)

theorem scan_quoted {bs : Bytes} (h : ∀ b ∈ bs, b ≠ 34 ∧ b ≠ 92) (rest : Bytes) :
    DepthScan.scan { depth := d, quoted := true } (bs ++ rest) = DepthScan.scan { depth := d, quoted := true } rest := by
  induction bs with
  | nil => rfl
  | cons b bs ih =>
    obtain ⟨hquote, hbackslash⟩ := h b List.mem_cons_self
    rw [List.cons_append, DepthScan.scan]
    simp only [DepthScan.step, Bool.false_eq_true, if_false, if_true, hquote, hbackslash]
    exact ih fun other hother => h other (List.mem_cons_of_mem _ hother)

theorem inert_single {b : UInt8} (h : Inert b) : ∀ c ∈ ([b] : Bytes), Inert c := by
  intro c hc
  rw [List.mem_singleton.mp hc]
  exact h

theorem inert_comma (first : Bool) : ∀ b ∈ (if first then [] else [44] : Bytes), Inert b := by
  cases first with
  | true => exact fun _ hb => absurd hb List.not_mem_nil
  | false => exact inert_single (by decide)

theorem inert_blankBytes (blanks : Blanks) : ∀ b ∈ blankBytes blanks, Inert b := by
  intro b hb
  obtain ⟨blank, -, rfl⟩ := List.mem_map.mp hb
  cases blank <;> decide

theorem inert_digitBytes (digits : Digits) : ∀ b ∈ digitBytes digits, Inert b := by
  intro b hb
  obtain ⟨digit, -, rfl⟩ := List.mem_map.mp hb
  have hall : ∀ digit : Fin 10, Inert (UInt8.ofNat (48 + digit.val)) := by decide
  exact hall digit

theorem inert_exponent (e : Exponent) : ∀ b ∈ e.bytes, Inert b := by
  intro b hb
  simp only [Exponent.bytes, List.cons_append, List.mem_cons, List.mem_append, List.mem_map] at hb
  rcases hb with rfl | ⟨negative, -, rfl⟩ | hb
  · cases e.upper <;> decide
  · cases negative <;> decide
  · exact inert_digitBytes _ b hb

theorem inert_number (n : Number) : ∀ b ∈ n.bytes, Inert b := by
  intro b hb
  simp only [Number.bytes, List.mem_append] at hb
  rcases hb with ((hb | hb) | hb) | hb
  · split at hb
    · rw [List.mem_singleton.mp hb]
      decide
    · cases hb
  · exact inert_digitBytes _ b hb
  · split at hb
    · cases hb
    · rcases List.mem_cons.mp hb with rfl | hb
      · decide
      · exact inert_digitBytes _ b hb
  · cases hexponent : n.exponent with
    | none => simp [hexponent] at hb
    | some e => exact inert_exponent e b (by simpa [hexponent] using hb)

/-! ## Strings -/

/-- No byte of a character that stands for itself is a quote or a backslash. -/
theorem char_bytes {c : Char} (h : c ≠ '"' ∧ c ≠ '\\' ∧ 0x20 ≤ c.toNat) :
    ∀ b ∈ String.utf8EncodeChar c, b ≠ 34 ∧ b ≠ 92 := by
  intro b hb
  rcases Utf8.encodeChar_cases c with ⟨first, -, heq, hc⟩ | ⟨first, rest, p, heq, hlead, -, hspells⟩
  · rw [heq, List.mem_singleton] at hb
    constructor
    · rintro rfl
      exact h.1 (hc ▸ hb ▸ rfl)
    · rintro rfl
      exact h.2.1 (hc ▸ hb ▸ rfl)
  · have hhigh : 0x80 ≤ b.toNat := by
      rw [heq] at hb
      rcases List.mem_cons.mp hb with rfl | hb
      · omega
      · exact (hspells.continues b hb).1
    constructor <;> (rintro rfl; exact absurd hhigh (by decide))

theorem hexDigit_byte (digit : HexDigit) : digit.byte ≠ 34 ∧ digit.byte ≠ 92 := by
  obtain ⟨value, upper⟩ := digit
  revert value
  cases upper <;> decide

/-- A part of a string leaves the scan in the string. -/
theorem scan_part (part : Part) (rest : Bytes) :
    DepthScan.scan { depth := d, quoted := true } (part.bytes ++ rest) =
      DepthScan.scan { depth := d, quoted := true } rest := by
  cases part with
  | char c h => exact scan_quoted (char_bytes h) rest
  | escape e => rfl
  | unicode a b c e =>
    have hdigits : ∀ byte ∈ [a.byte, b.byte, c.byte, e.byte], byte ≠ 34 ∧ byte ≠ 92 := by
      intro byte hbyte
      simp only [List.mem_cons, List.not_mem_nil, or_false] at hbyte
      rcases hbyte with rfl | rfl | rfl | rfl <;> exact hexDigit_byte _
    exact scan_quoted hdigits rest

theorem scan_string (parts : List Part) (rest : Bytes) :
    DepthScan.scan { depth := d } (stringBytes parts ++ rest) = DepthScan.scan { depth := d } rest := by
  have hparts : ∀ parts : List Part,
      DepthScan.scan { depth := d, quoted := true } (parts.flatMap Part.bytes ++ ([34] ++ rest)) =
        DepthScan.scan { depth := d } rest := by
    intro parts
    induction parts with
    | nil => rfl
    | cons part parts ih => rw [List.flatMap_cons, List.append_assoc, scan_part, ih]
  have hopen : DepthScan.scan { depth := d } (stringBytes parts ++ rest) =
      DepthScan.scan { depth := d, quoted := true } (parts.flatMap Part.bytes ++ ([34] ++ rest)) := by
    rw [stringBytes, List.cons_append, List.cons_append, List.append_assoc]
    rfl
  rw [hopen, hparts]

theorem scan_scalar (s : ScalarText) (rest : Bytes) :
    DepthScan.scan { depth := d } (s.bytes ++ rest) = DepthScan.scan { depth := d } rest := by
  cases s with
  | null => rfl
  | false => rfl
  | true => rfl
  | number n => exact scan_inert (inert_number n) rest
  | string parts => exact scan_string parts rest

/-! ## Texts -/

theorem scan_open {b : UInt8} (hb : b = 91 ∨ b = 123) (rest : Bytes) :
    DepthScan.scan { depth := d } (b :: rest) =
      (decide ((maxJsonDepth : Int) + 1 < d + 1) || DepthScan.scan { depth := d + 1 } rest) := by
  have hquote : b ≠ 34 := by rcases hb with rfl | rfl <;> decide
  rw [DepthScan.scan]
  simp only [DepthScan.step, Bool.false_eq_true, if_false, hquote, hb, if_true]
  by_cases hdeep : (maxJsonDepth : Int) + 1 < d + 1 <;> simp [hdeep]

theorem scan_close {b : UInt8} (hb : b = 93 ∨ b = 125) (rest : Bytes) :
    DepthScan.scan { depth := d + 1 } (b :: rest) = DepthScan.scan { depth := d } rest := by
  have hquote : b ≠ 34 := by rcases hb with rfl | rfl <;> decide
  have hopen : ¬ (b = 91 ∨ b = 123) := by rcases hb with rfl | rfl <;> decide
  rw [DepthScan.scan]
  simp only [DepthScan.step, Bool.false_eq_true, if_false, hquote, hopen, hb, if_true]
  show DepthScan.scan { depth := d + 1 - 1 } rest = DepthScan.scan { depth := d } rest
  rw [Int.add_sub_cancel]

/-- The bytes of a container, from what stands in it. -/
theorem scan_container {opens closes : UInt8} (hopens : opens = 91 ∨ opens = 123) (hcloses : closes = 93 ∨ closes = 125)
    (blanks : Blanks) {inner : Bytes} {nesting : Nat}
    (hinner : d + 1 ≤ maxJsonDepth + 1 → ∀ rest, DepthScan.scan { depth := d + 1 } (inner ++ rest) =
      (decide ((maxJsonDepth : Int) + 1 < d + 1 + nesting) || DepthScan.scan { depth := d + 1 } rest)) (rest : Bytes) :
    DepthScan.scan { depth := d } (opens :: blankBytes blanks ++ inner ++ [closes] ++ rest) =
      (decide ((maxJsonDepth : Int) + 1 < d + (nesting + 1 : Nat)) || DepthScan.scan { depth := d } rest) := by
  have hassoc : opens :: blankBytes blanks ++ inner ++ [closes] ++ rest =
      opens :: (blankBytes blanks ++ (inner ++ (closes :: rest))) := by simp
  rw [hassoc, scan_open hopens, scan_inert (inert_blankBytes blanks)]
  by_cases hdeep : (maxJsonDepth : Int) + 1 < d + 1
  · have hall : (maxJsonDepth : Int) + 1 < d + (nesting + 1 : Nat) := by omega
    rw [decide_eq_true hdeep, decide_eq_true hall, Bool.true_or, Bool.true_or]
  · have hsum : d + 1 + (nesting : Int) = d + (nesting + 1 : Nat) := by omega
    rw [decide_eq_false hdeep, Bool.false_or, hinner (by omega), scan_close hcloses, hsum]

mutual

/-- From a depth that is allowed, the scan of a text is over it if it nests too deep, and is else
    where it was. -/
theorem scan_text : ∀ (text : Text) {d : Int}, d ≤ maxJsonDepth + 1 → ∀ rest,
    DepthScan.scan { depth := d } (text.bytes ++ rest) =
      (decide ((maxJsonDepth : Int) + 1 < d + text.nesting) || DepthScan.scan { depth := d } rest)
  | .scalar s, d, hd, rest => by
    have hshallow : ¬ (maxJsonDepth : Int) + 1 < d + (0 : Nat) := by omega
    show DepthScan.scan { depth := d } (s.bytes ++ rest) = (decide ((maxJsonDepth : Int) + 1 < d + (0 : Nat)) || _)
    rw [scan_scalar, decide_eq_false hshallow, Bool.false_or]
  | .array blanks items, d, _, rest =>
    scan_container (.inl rfl) (.inl rfl) blanks (fun hd rest => scan_items items true hd rest) rest
  | .object blanks members, d, _, rest =>
    scan_container (.inr rfl) (.inr rfl) blanks (fun hd rest => scan_members members true hd rest) rest

theorem scan_items : ∀ (items : Items) (first : Bool) {d : Int}, d ≤ maxJsonDepth + 1 → ∀ rest,
    DepthScan.scan { depth := d } (items.bytes first ++ rest) =
      (decide ((maxJsonDepth : Int) + 1 < d + items.nesting) || DepthScan.scan { depth := d } rest)
  | .nil, first, d, hd, rest => by
    have hshallow : ¬ (maxJsonDepth : Int) + 1 < d + (0 : Nat) := by omega
    show DepthScan.scan { depth := d } rest = (decide ((maxJsonDepth : Int) + 1 < d + (0 : Nat)) || _)
    rw [decide_eq_false hshallow, Bool.false_or]
  | .cons before value after more, first, d, hd, rest => by
    have hcomma := inert_comma first
    have hmax : decide ((maxJsonDepth : Int) + 1 < d + (max value.nesting more.nesting : Nat)) =
        (decide ((maxJsonDepth : Int) + 1 < d + value.nesting) || decide ((maxJsonDepth : Int) + 1 < d + more.nesting)) := by
      rw [← Bool.decide_or, decide_eq_decide]
      omega
    rw [Items.bytes, Items.nesting, hmax]
    simp only [List.append_assoc]
    rw [scan_inert hcomma, scan_inert (inert_blankBytes before), scan_text value hd,
      scan_inert (inert_blankBytes after), scan_items more false hd, Bool.or_assoc]

theorem scan_members : ∀ (members : Members) (first : Bool) {d : Int}, d ≤ maxJsonDepth + 1 → ∀ rest,
    DepthScan.scan { depth := d } (members.bytes first ++ rest) =
      (decide ((maxJsonDepth : Int) + 1 < d + members.nesting) || DepthScan.scan { depth := d } rest)
  | .nil, first, d, hd, rest => by
    have hshallow : ¬ (maxJsonDepth : Int) + 1 < d + (0 : Nat) := by omega
    show DepthScan.scan { depth := d } rest = (decide ((maxJsonDepth : Int) + 1 < d + (0 : Nat)) || _)
    rw [decide_eq_false hshallow, Bool.false_or]
  | .cons before key behindKey behindColon value after more, first, d, hd, rest => by
    have hcomma := inert_comma first
    have hcolon := inert_single (b := 58) (by decide)
    have hmax : decide ((maxJsonDepth : Int) + 1 < d + (max value.nesting more.nesting : Nat)) =
        (decide ((maxJsonDepth : Int) + 1 < d + value.nesting) || decide ((maxJsonDepth : Int) + 1 < d + more.nesting)) := by
      rw [← Bool.decide_or, decide_eq_decide]
      omega
    rw [Members.bytes, Members.nesting, hmax]
    simp only [List.append_assoc]
    rw [scan_inert hcomma, scan_inert (inert_blankBytes before), scan_string, scan_inert (inert_blankBytes behindKey),
      scan_inert hcolon, scan_inert (inert_blankBytes behindColon), scan_text value hd,
      scan_inert (inert_blankBytes after), scan_members more false hd, Bool.or_assoc]

end

theorem workflowDepthExceeded_iff (document : Document) :
    workflowDepthExceeded document.bytes = true ↔ maxJsonDepth + 1 < document.text.nesting := by
  have hscan : workflowDepthExceeded document.bytes =
      (decide ((maxJsonDepth : Int) + 1 < 0 + document.text.nesting) || DepthScan.scan {} (blankBytes document.after ++ [])) := by
    unfold workflowDepthExceeded Document.bytes
    rw [List.append_assoc, scan_inert (inert_blankBytes document.before), List.append_nil]
    exact scan_text document.text (by decide) _
  have hend : DepthScan.scan {} (blankBytes document.after ++ []) = false := scan_inert (inert_blankBytes document.after) []
  rw [hscan, hend, Bool.or_false, decide_eq_true_eq]
  omega

/-! ## The value -/

/-- A value at a depth, too deep for the scan. -/
def TooDeep (e : Value × Nat) : Prop := maxJsonDepth + 1 < e.2 + e.1.nesting

/-- What is pushed of a container that is too deep has a value that is. -/
theorem extendPending_deep {items : List Value} {depth : Nat} {pending : List (Value × Nat)}
    (hdepth : ¬ maxJsonDepth < depth)
    (h : maxJsonDepth + 1 < depth + (itemsNesting items + 1) ∨ ∃ e ∈ pending, TooDeep e) :
    ∃ e ∈ extendPending items (depth + 1) pending, TooDeep e := by
  rcases h with hdeep | ⟨e, he, hdeep⟩
  · have hitem : ∃ item ∈ items, maxJsonDepth - depth < item.nesting := by
      by_contra hnone
      have hle : itemsNesting items ≤ maxJsonDepth - depth :=
        itemsNesting_le.mpr fun item hitem => Nat.not_lt.mp fun hlt => hnone ⟨item, hitem, hlt⟩
      omega
    obtain ⟨item, hmem, hlt⟩ := hitem
    refine ⟨(item, depth + 1), List.mem_append_left _ (List.mem_reverse.mpr (List.mem_map.mpr ⟨item, hmem, rfl⟩)), ?_⟩
    show maxJsonDepth + 1 < depth + 1 + item.nesting
    omega
  · exact ⟨e, List.mem_append_right _ he, hdeep⟩

/-- The loop reports an issue if it has a value to look at that is too deep. -/
theorem resourceLoop_deep (isfinite : Number → Bool) (left : Nat) {pending : List (Value × Nat)}
    (h : ∃ e ∈ pending, TooDeep e) : ∃ issues, issues ≠ [] ∧ resourceLoop isfinite left pending = some issues := by
  induction left generalizing pending with
  | zero =>
    cases pending with
    | nil => exact absurd h (by simp)
    | cons e pending => exact ⟨[depthIssue], by simp, rfl⟩
  | succ left ih =>
    cases pending with
    | nil => exact absurd h (by simp)
    | cons first pending =>
      obtain ⟨value, depth⟩ := first
      obtain ⟨e, he, hdeep⟩ := h
      by_cases hdepth : maxJsonDepth < depth
      · refine ⟨[depthIssue], by simp, ?_⟩
        unfold resourceLoop
        rw [if_pos hdepth]
      have hfirst : TooDeep (value, depth) ∨ ∃ e ∈ pending, TooDeep e := by
        rcases List.mem_cons.mp he with rfl | he
        · exact .inl hdeep
        · exact .inr ⟨e, he, hdeep⟩
      unfold resourceLoop
      rw [if_neg hdepth]
      cases value with
      | obj members =>
        refine ih (extendPending_deep hdepth (hfirst.imp_left fun h => ?_))
        rwa [TooDeep, Value.nesting, membersNesting_eq] at h
      | list items => exact ih (extendPending_deep hdepth hfirst)
      | scalar s =>
        have hrest : ∃ e ∈ pending, TooDeep e := by
          refine hfirst.resolve_left fun h => ?_
          have hshallow : maxJsonDepth + 1 < depth + 0 := h
          omega
        cases s with
        | float n =>
          by_cases hfinite : isfinite n
          · simp only [hfinite, if_true]
            exact ih hrest
          · simp only [hfinite]
            exact ⟨_, by simp, rfl⟩
        | null => exact ih hrest
        | bool b => exact ih hrest
        | int n => exact ih hrest
        | str codes => exact ih hrest

theorem resourceIssues_deep (isfinite : Number → Bool) (dumpsLength : Value → Option Nat) {raw : Value}
    (h : maxJsonDepth + 1 < raw.nesting) : resourceIssues isfinite dumpsLength raw ≠ [] := by
  obtain ⟨issues, hne, hloop⟩ := resourceLoop_deep isfinite maxWorkflowBytes
    ⟨(raw, 0), List.mem_singleton_self _, by rw [TooDeep, Nat.zero_add]; exact h⟩
  rw [resourceIssues, hloop]
  exact hne

/-- The scan is exact for the nesting of a text, of which that of its value falls short only where an
    object repeats a key; a value that is too deep does not pass the validator. -/
theorem depth_guard_exact (isfinite : Number → Bool) (dumpsLength : Value → Option Nat) (document : Document) :
    (workflowDepthExceeded document.bytes = true ↔ maxJsonDepth + 1 < document.text.nesting) ∧
    (maxJsonDepth + 1 < document.text.value.nesting →
      workflowDepthExceeded document.bytes = true ∧ resourceIssues isfinite dumpsLength document.text.value ≠ []) ∧
    (document.text.Distinct →
      (workflowDepthExceeded document.bytes = true ↔ maxJsonDepth + 1 < document.text.value.nesting) ∧
      (workflowDepthExceeded document.bytes = true →
        resourceIssues isfinite dumpsLength document.text.value ≠ [])) := by
  have hexact := workflowDepthExceeded_iff document
  refine ⟨hexact, fun h => ⟨?_, resourceIssues_deep isfinite dumpsLength h⟩, fun hdistinct => ?_⟩
  · exact hexact.mpr (h.trans_le (nesting_value_le document.text))
  · rw [← nesting_value document.text hdistinct] at hexact
    exact ⟨hexact, fun h => resourceIssues_deep isfinite dumpsLength (hexact.mp h)⟩

/-- `n + 1` arrays in one another. -/
def nestedArrays : Nat → Text
  | 0 => .array [] .nil
  | n + 1 => .array [] (.cons [] (nestedArrays n) [] .nil)

/-- The key "a". -/
def keyA : List Part := [.char 'a' (by decide)]

/-- Twenty-five arrays in one another, and a null, as members of one key. -/
def repeatedKey : Document where
  before := []
  text := .object [] (.cons [] keyA [] [] (nestedArrays 24) []
    (.cons [] keyA [] [] (.scalar .null) [] .nil))
  after := []

/-- The scan refuses a text whose value is no deeper than one object and has no issue. -/
theorem repeated_key_refused :
    workflowDepthExceeded repeatedKey.bytes = true ∧ repeatedKey.text.value.nesting = 1 ∧
    resourceIssues (fun _ => true) (fun _ => some 11) repeatedKey.text.value = [] := by
  decide +kernel

end Jarvis.Workflows
