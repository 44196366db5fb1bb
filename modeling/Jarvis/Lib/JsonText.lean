/-
  Jarvis.Lib.JsonText — JSON texts, with everything the grammar lets a writer choose: blanks, the
  spelling of numbers and the escapes of strings.

  `bytes` is the text in UTF-8 and `value` what it is read as: a string as its code points, an
  object with one member for each key, of which the last that the text gives counts. So a text can
  nest deeper than its value does (`nesting_value_le`), but not if no object repeats a key
  (`nesting_value`).
-/
import Jarvis.Lib.Dict
import Jarvis.Lib.Lines

namespace Jarvis.JsonText

/-! ## Scalars -/

inductive Blank where
  | space
  | tab
  | lf
  | cr
  deriving DecidableEq, Repr

def Blank.byte : Blank → UInt8
  | .space => 32
  | .tab => 9
  | .lf => 10
  | .cr => 13

abbrev Blanks := List Blank

def blankBytes (blanks : Blanks) : Bytes := blanks.map Blank.byte

abbrev Digits := List (Fin 10)

def digitBytes (digits : Digits) : Bytes := digits.map fun d => UInt8.ofNat (48 + d.val)

structure Exponent where
  upper : Bool
  negative : Option Bool
  lead : Fin 10
  more : Digits
  deriving DecidableEq, Repr

def Exponent.bytes (e : Exponent) : Bytes :=
  (if e.upper then 69 else 101) :: (e.negative.toList.map fun negative => if negative then 45 else 43) ++
    digitBytes (e.lead :: e.more)

/-- A number. There is no fraction where `fraction` is empty. -/
structure Number where
  negative : Bool
  lead : Fin 10
  more : Digits
  no_leading_zero : lead = 0 → more = []
  fraction : Digits
  exponent : Option Exponent
  deriving DecidableEq

/-- The text `0`. -/
def Number.zero : Number := ⟨false, 0, [], fun _ => rfl, [], none⟩

def Number.bytes (n : Number) : Bytes :=
  (if n.negative then [45] else []) ++ digitBytes (n.lead :: n.more) ++
    (if n.fraction = [] then [] else 46 :: digitBytes n.fraction) ++ (n.exponent.map Exponent.bytes).getD []

inductive Escape where
  | quote
  | backslash
  | slash
  | backspace
  | formFeed
  | newline
  | carriageReturn
  | tab
  deriving DecidableEq, Repr

/-- The byte behind the backslash. -/
def Escape.byte : Escape → UInt8
  | .quote => 34
  | .backslash => 92
  | .slash => 47
  | .backspace => 98
  | .formFeed => 102
  | .newline => 110
  | .carriageReturn => 114
  | .tab => 116

def Escape.code : Escape → Nat
  | .quote => 34
  | .backslash => 92
  | .slash => 47
  | .backspace => 8
  | .formFeed => 12
  | .newline => 10
  | .carriageReturn => 13
  | .tab => 9

structure HexDigit where
  value : Fin 16
  upper : Bool
  deriving DecidableEq, Repr

def HexDigit.byte (d : HexDigit) : UInt8 :=
  UInt8.ofNat (if d.value.val < 10 then 48 + d.value.val else if d.upper then 55 + d.value.val else 87 + d.value.val)

/-- A part of a string. -/
inductive Part where
  | char (c : Char) (h : c ≠ '"' ∧ c ≠ '\\' ∧ 0x20 ≤ c.toNat)
  | escape (e : Escape)
  | unicode (a b c d : HexDigit)

def Part.bytes : Part → Bytes
  | .char c _ => String.utf8EncodeChar c
  | .escape e => [92, e.byte]
  | .unicode a b c d => [92, 117, a.byte, b.byte, c.byte, d.byte]

def Part.code : Part → Nat
  | .char c _ => c.toNat
  | .escape e => e.code
  | .unicode a b c d => ((a.value.val * 16 + b.value.val) * 16 + c.value.val) * 16 + d.value.val

/-- The code points of a string: two escapes that are a surrogate pair are one. -/
def codePoints : List Part → List Nat
  | .unicode a b c d :: .unicode a' b' c' d' :: parts =>
    let high := (Part.unicode a b c d).code
    let low := (Part.unicode a' b' c' d').code
    if 0xD800 ≤ high ∧ high ≤ 0xDBFF ∧ 0xDC00 ≤ low ∧ low ≤ 0xDFFF then
      (0x10000 + (high - 0xD800) * 0x400 + (low - 0xDC00)) :: codePoints parts
    else high :: codePoints (.unicode a' b' c' d' :: parts)
  | part :: parts => part.code :: codePoints parts
  | [] => []

def stringBytes (parts : List Part) : Bytes := 34 :: parts.flatMap Part.bytes ++ [34]

inductive ScalarText where
  | null
  | false
  | true
  | number (n : Number)
  | string (parts : List Part)

def ScalarText.bytes : ScalarText → Bytes
  | .null => [110, 117, 108, 108]
  | .false => [102, 97, 108, 115, 101]
  | .true => [116, 114, 117, 101]
  | .number n => n.bytes
  | .string parts => stringBytes parts

/-! ## Texts and values -/

mutual

/-- A text, without the blanks around it. -/
inductive Text where
  | scalar (s : ScalarText)
  | array (blanks : Blanks) (items : Items)
  | object (blanks : Blanks) (members : Members)

inductive Items where
  | nil
  | cons (before : Blanks) (value : Text) (after : Blanks) (rest : Items)

inductive Members where
  | nil
  | cons (before : Blanks) (key : List Part) (behindKey behindColon : Blanks) (value : Text) (after : Blanks)
      (rest : Members)

end

mutual

def Text.bytes : Text → Bytes
  | .scalar s => s.bytes
  | .array blanks items => 91 :: blankBytes blanks ++ items.bytes true ++ [93]
  | .object blanks members => 123 :: blankBytes blanks ++ members.bytes true ++ [125]

/-- The items, each but the first behind a comma. -/
def Items.bytes : Items → Bool → Bytes
  | .nil, _ => []
  | .cons before value after rest, first =>
    (if first then [] else [44]) ++ blankBytes before ++ value.bytes ++ blankBytes after ++ rest.bytes false

def Members.bytes : Members → Bool → Bytes
  | .nil, _ => []
  | .cons before key behindKey behindColon value after rest, first =>
    (if first then [] else [44]) ++ blankBytes before ++ stringBytes key ++ blankBytes behindKey ++ [58] ++
      blankBytes behindColon ++ value.bytes ++ blankBytes after ++ rest.bytes false

end

/-- A whole text. -/
structure Document where
  before : Blanks
  text : Text
  after : Blanks

def Document.bytes (d : Document) : Bytes := blankBytes d.before ++ d.text.bytes ++ blankBytes d.after

/-- What a scalar is read as: a number with a fraction or an exponent is a float. -/
inductive Scalar where
  | null
  | bool (b : Bool)
  | int (n : Int)
  | float (n : Number)
  | str (codes : List Nat)
  deriving DecidableEq

inductive Value where
  | scalar (s : Scalar)
  | list (items : List Value)
  | obj (members : List (List Nat × Value))

def Number.scalar (n : Number) : Scalar :=
  if n.fraction = [] ∧ n.exponent = none then
    let magnitude : Int := (n.lead :: n.more).foldl (fun (m : Int) d => m * 10 + d.val) 0
    .int (if n.negative then -magnitude else magnitude)
  else .float n

def ScalarText.scalar : ScalarText → Scalar
  | .null => .null
  | .false => .bool Bool.false
  | .true => .bool Bool.true
  | .number n => n.scalar
  | .string parts => .str (codePoints parts)

mutual

def Text.value : Text → Value
  | .scalar s => .scalar s.scalar
  | .array _ items => .list items.values
  | .object _ members => .obj (Dict.ofList members.pairs).entries

def Items.values : Items → List Value
  | .nil => []
  | .cons _ value _ rest => value.value :: rest.values

/-- The members, also those that a later one of the same key replaces. -/
def Members.pairs : Members → List (List Nat × Value)
  | .nil => []
  | .cons _ key _ _ value _ rest => (codePoints key, value.value) :: rest.pairs

end

/-! ## Nesting -/

mutual

/-- How many containers of a text are inside one another. -/
def Text.nesting : Text → Nat
  | .scalar _ => 0
  | .array _ items => items.nesting + 1
  | .object _ members => members.nesting + 1

def Items.nesting : Items → Nat
  | .nil => 0
  | .cons _ value _ rest => max value.nesting rest.nesting

def Members.nesting : Members → Nat
  | .nil => 0
  | .cons _ _ _ _ value _ rest => max value.nesting rest.nesting

end

mutual

/-- How many containers of a value are inside one another. -/
def Value.nesting : Value → Nat
  | .scalar _ => 0
  | .list items => itemsNesting items + 1
  | .obj members => membersNesting members + 1

def itemsNesting : List Value → Nat
  | [] => 0
  | value :: items => max value.nesting (itemsNesting items)

def membersNesting : List (List Nat × Value) → Nat
  | [] => 0
  | (_, value) :: members => max value.nesting (membersNesting members)

end

mutual

/-- No object of the text repeats a key. -/
def Text.Distinct : Text → Prop
  | .scalar _ => True
  | .array _ items => items.Distinct
  | .object _ members => (members.pairs.map Prod.fst).Nodup ∧ members.Distinct

def Items.Distinct : Items → Prop
  | .nil => True
  | .cons _ value _ rest => value.Distinct ∧ rest.Distinct

def Members.Distinct : Members → Prop
  | .nil => True
  | .cons _ _ _ _ value _ rest => value.Distinct ∧ rest.Distinct

end

theorem itemsNesting_le {items : List Value} {n : Nat} : itemsNesting items ≤ n ↔ ∀ value ∈ items, value.nesting ≤ n := by
  induction items with
  | nil => simp [itemsNesting]
  | cons value items ih => simp [itemsNesting, ih]

theorem membersNesting_le {members : List (List Nat × Value)} {n : Nat} :
    membersNesting members ≤ n ↔ ∀ e ∈ members, e.2.nesting ≤ n := by
  induction members with
  | nil => simp [membersNesting]
  | cons e members ih => simp [membersNesting, ih]

theorem membersNesting_eq (members : List (List Nat × Value)) :
    membersNesting members = itemsNesting (members.map Prod.snd) := by
  induction members with
  | nil => rfl
  | cons e members ih => rw [membersNesting, ih, List.map_cons, itemsNesting]

mutual

/-- A value is no deeper than its text. -/
theorem nesting_value_le : ∀ text : Text, text.value.nesting ≤ text.nesting
  | .scalar _ => Nat.le_refl 0
  | .array _ items => Nat.succ_le_succ (itemsNesting_le.mpr (nesting_values_le items))
  | .object _ members => by
    refine Nat.succ_le_succ (membersNesting_le.mpr fun e he => nesting_pairs_le members e ?_)
    exact (Dict.mem_entries_update he).resolve_left List.not_mem_nil

theorem nesting_values_le : ∀ items : Items, ∀ value ∈ items.values, value.nesting ≤ items.nesting
  | .nil => fun _ hmem => absurd hmem List.not_mem_nil
  | .cons _ value _ rest => by
    intro other hmem
    rcases List.mem_cons.mp hmem with rfl | hmem
    · exact (nesting_value_le value).trans (Nat.le_max_left _ _)
    · exact (nesting_values_le rest other hmem).trans (Nat.le_max_right _ _)

theorem nesting_pairs_le : ∀ members : Members, ∀ e ∈ members.pairs, e.2.nesting ≤ members.nesting
  | .nil => fun _ hmem => absurd hmem List.not_mem_nil
  | .cons _ _ _ _ value _ rest => by
    intro e hmem
    rcases List.mem_cons.mp hmem with rfl | hmem
    · exact (nesting_value_le value).trans (Nat.le_max_left _ _)
    · exact (nesting_pairs_le rest e hmem).trans (Nat.le_max_right _ _)

end

mutual

/-- Where no object repeats a key, a value is as deep as its text. -/
theorem nesting_value : ∀ text : Text, text.Distinct → text.value.nesting = text.nesting
  | .scalar _, _ => rfl
  | .array _ items, h => congrArg (· + 1) (nesting_values items h)
  | .object _ members, h => by
    show membersNesting (Dict.ofList members.pairs).entries + 1 = members.nesting + 1
    rw [Dict.entries_ofList h.1, nesting_pairs members h.2]

theorem nesting_values : ∀ items : Items, items.Distinct → itemsNesting items.values = items.nesting
  | .nil, _ => rfl
  | .cons _ value _ rest, h => by
    show max value.value.nesting (itemsNesting rest.values) = max value.nesting rest.nesting
    rw [nesting_value value h.1, nesting_values rest h.2]

theorem nesting_pairs : ∀ members : Members, members.Distinct → membersNesting members.pairs = members.nesting
  | .nil, _ => rfl
  | .cons _ _ _ _ value _ rest, h => by
    show max value.value.nesting (membersNesting rest.pairs) = max value.nesting rest.nesting
    rw [nesting_value value h.1, nesting_pairs rest h.2]

end

end Jarvis.JsonText
