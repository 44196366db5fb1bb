/-
  Jarvis.Lib.Utf8 — UTF-8, and its decoding with `errors="replace"`.

  The decoder reads a byte at a time. A byte that cannot go on with the character that was begun
  makes one U+FFFD of what was read of it, and is read again as a first byte; so does the end of
  the bytes. `decode_encode` is the round trip. A cut through an encoded text leaves whole
  characters, and one U+FFFD when it goes through a character: `recoded_take`.
-/
import Mathlib.Data.List.Basic
import Mathlib.Tactic.Common
import Mathlib.Data.String.Basic

namespace Jarvis.Utf8

def encodeChars (cs : List Char) : List UInt8 := cs.flatMap String.utf8EncodeChar

/-- `str.encode()`. -/
def encode (s : String) : List UInt8 := encodeChars s.toList

/-- A character that was begun: the bytes it needs yet, the bounds of the next one and the value so
    far. -/
structure Pending where
  need : Nat
  lo : Nat := 0x80
  hi : Nat := 0xBF
  value : Nat

/-- What the first byte of a character of several bytes begins. -/
def lead (b : Nat) : Option Pending :=
  if 0xC2 ≤ b ∧ b ≤ 0xDF then some { need := 1, value := b - 0xC0 }
  else if b = 0xE0 then some { need := 2, lo := 0xA0, value := 0 }
  else if b = 0xED then some { need := 2, hi := 0x9F, value := 0xD }
  else if 0xE1 ≤ b ∧ b ≤ 0xEF then some { need := 2, value := b - 0xE0 }
  else if b = 0xF0 then some { need := 3, lo := 0x90, value := 0 }
  else if b = 0xF4 then some { need := 3, hi := 0x8F, value := 4 }
  else if 0xF1 ≤ b ∧ b ≤ 0xF3 then some { need := 3, value := b - 0xF0 }
  else none

def replacement : Char := Char.ofNat 0xFFFD

/-- A first byte. -/
def first (b : Nat) : List Char × Option Pending :=
  if b < 0x80 then ([Char.ofNat b], none)
  else
    match lead b with
    | some p => ([], some p)
    | none => ([replacement], none)

/-- A byte. -/
def push (state : Option Pending) (b : Nat) : List Char × Option Pending :=
  match state with
  | none => first b
  | some p =>
    if p.lo ≤ b ∧ b ≤ p.hi then
      let value := p.value * 64 + b % 64
      if p.need = 1 then ([Char.ofNat value], none) else ([], some { need := p.need - 1, value })
    else (replacement :: (first b).1, (first b).2)

def decodeFrom : Option Pending → List UInt8 → List Char
  | none, [] => []
  | some _, [] => [replacement]
  | state, b :: bs => (push state b.toNat).1 ++ decodeFrom (push state b.toNat).2 bs

def decodeChars (bs : List UInt8) : List Char := decodeFrom none bs

/-- `bytes.decode("utf-8", errors="replace")`. -/
def decode (bs : List UInt8) : String := String.ofList (decodeChars bs)

/-! ## One character -/

theorem decodeFrom_cons (state : Option Pending) (b : UInt8) (bs : List UInt8) :
    decodeFrom state (b :: bs) = (push state b.toNat).1 ++ decodeFrom (push state b.toNat).2 bs := by
  cases state <;> rfl

theorem toNat_ofNat_lt {n : Nat} (h : n < 256) : (UInt8.ofNat n).toNat = n := by
  rw [UInt8.toNat_ofNat']
  exact Nat.mod_eq_of_lt h

/-- The values a character can have. -/
theorem toNat_valid (c : Char) : c.toNat < 0xD800 ∨ 0xDFFF < c.toNat ∧ c.toNat < 0x110000 := c.valid

/-- Continuation bytes that complete what was begun. -/
inductive Spells (c : Char) : Pending → List UInt8 → Prop
  | last {p : Pending} {b : UInt8} : 0x80 ≤ b.toNat ∧ b.toNat < 0xC0 → push (some p) b.toNat = ([c], none) →
      Spells c p [b]
  | more {p q : Pending} {b : UInt8} {bs : List UInt8} : 0x80 ≤ b.toNat ∧ b.toNat < 0xC0 →
      push (some p) b.toNat = ([], some q) → Spells c q bs → Spells c p (b :: bs)

theorem push_last {p : Pending} {b : Nat} {c : Char} (hneed : p.need = 1) (hlo : p.lo ≤ b) (hhi : b ≤ p.hi)
    (hvalue : p.value * 64 + b % 64 = c.toNat) : push (some p) b = ([c], none) := by
  simp only [push, hlo, hhi, and_self, if_true, hneed, hvalue, Char.ofNat_toNat]

theorem push_more {p q : Pending} {b : Nat} (hneed : p.need = q.need + 1) (hpos : 0 < q.need) (hlo : p.lo ≤ b)
    (hhi : b ≤ p.hi) (hq : q = { need := q.need, value := p.value * 64 + b % 64 }) : push (some p) b = ([], some q) := by
  have hne : ¬ p.need = 1 := by omega
  have hpred : p.need - 1 = q.need := by omega
  simp only [push, hlo, hhi, and_self, if_true, hne, if_false, hpred]
  rw [← hq]

theorem lead_two {v : Nat} (h : 0x80 ≤ v) (h' : v ≤ 0x7FF) : lead (v / 64 + 0xC0) = some { need := 1, value := v / 64 } := by
  rw [lead, if_pos (by omega)]
  simp

theorem lead_three {v : Nat} (h : 0x800 ≤ v) (h' : v ≤ 0xFFFF) (hvalid : v < 0xD800 ∨ 0xDFFF < v) :
    ∃ p, lead (v / 4096 + 0xE0) = some p ∧ p.need = 2 ∧ p.value = v / 4096 ∧ p.lo ≤ v / 64 % 64 + 0x80 ∧
      v / 64 % 64 + 0x80 ≤ p.hi := by
  unfold lead
  rw [if_neg (by omega)]
  by_cases hE0 : v / 4096 + 0xE0 = 0xE0
  · rw [if_pos hE0]
    refine ⟨_, rfl, rfl, ?_, ?_, ?_⟩ <;> (simp only; omega)
  rw [if_neg hE0]
  by_cases hED : v / 4096 + 0xE0 = 0xED
  · rw [if_pos hED]
    refine ⟨_, rfl, rfl, ?_, ?_, ?_⟩ <;> (simp only; omega)
  rw [if_neg hED, if_pos (by omega)]
  refine ⟨_, rfl, rfl, ?_, ?_, ?_⟩ <;> (simp only; omega)

theorem lead_four {v : Nat} (h : 0x10000 ≤ v) (h' : v ≤ 0x10FFFF) :
    ∃ p, lead (v / 262144 + 0xF0) = some p ∧ p.need = 3 ∧ p.value = v / 262144 ∧ p.lo ≤ v / 4096 % 64 + 0x80 ∧
      v / 4096 % 64 + 0x80 ≤ p.hi := by
  unfold lead
  rw [if_neg (by omega), if_neg (by omega), if_neg (by omega), if_neg (by omega)]
  by_cases hF0 : v / 262144 + 0xF0 = 0xF0
  · rw [if_pos hF0]
    refine ⟨_, rfl, rfl, ?_, ?_, ?_⟩ <;> (simp only; omega)
  rw [if_neg hF0]
  by_cases hF4 : v / 262144 + 0xF0 = 0xF4
  · rw [if_pos hF4]
    refine ⟨_, rfl, rfl, ?_, ?_, ?_⟩ <;> (simp only; omega)
  rw [if_neg hF4, if_pos (by omega)]
  refine ⟨_, rfl, rfl, ?_, ?_, ?_⟩ <;> (simp only; omega)

theorem push_none_lead {b : Nat} {p : Pending} (hb : 0x80 ≤ b) (h : lead b = some p) : push none b = ([], some p) := by
  have hb : ¬ b < 0x80 := by omega
  simp [push, first, hb, h]

/-- A character is one byte below 0x80, or a first byte and continuation bytes. -/
theorem encodeChar_cases (c : Char) :
    (∃ b : UInt8, b.toNat < 0x80 ∧ String.utf8EncodeChar c = [b] ∧ Char.ofNat b.toNat = c) ∨
    ∃ (b : UInt8) (bs : List UInt8) (p : Pending), String.utf8EncodeChar c = b :: bs ∧ 0xC0 ≤ b.toNat ∧
      push none b.toNat = ([], some p) ∧ Spells c p bs := by
  have hvalid := toNat_valid c
  have hval : c.val.toNat = c.toNat := rfl
  unfold String.utf8EncodeChar
  simp only [hval]
  have hlast : (UInt8.ofNat (c.toNat % 0x40 + 0x80)).toNat = c.toNat % 64 + 0x80 := toNat_ofNat_lt (by omega)
  have hthird : (UInt8.ofNat (c.toNat / 64 % 0x40 + 0x80)).toNat = c.toNat / 64 % 64 + 0x80 := toNat_ofNat_lt (by omega)
  have hsecond : (UInt8.ofNat (c.toNat / 4096 % 0x40 + 0x80)).toNat = c.toNat / 4096 % 64 + 0x80 :=
    toNat_ofNat_lt (by omega)
  by_cases h1 : c.toNat ≤ 0x7F
  · rw [if_pos h1]
    refine .inl ⟨_, ?_, rfl, ?_⟩
    · rw [toNat_ofNat_lt (by omega)]
      omega
    · rw [toNat_ofNat_lt (by omega), Char.ofNat_toNat]
  rw [if_neg h1]
  right
  by_cases h2 : c.toNat ≤ 0x7FF
  · rw [if_pos h2]
    have hb : (UInt8.ofNat (c.toNat / 64 % 0x20 + 0xC0)).toNat = c.toNat / 64 + 0xC0 := by
      rw [toNat_ofNat_lt (by omega)]
      omega
    refine ⟨_, _, { need := 1, value := c.toNat / 64 }, rfl, by omega, ?_, .last (by omega) ?_⟩
    · rw [hb]
      exact push_none_lead (by omega) (lead_two (by omega) h2)
    · rw [hlast]
      exact push_last rfl (by simp only; omega) (by simp only; omega) (by simp only; omega)
  rw [if_neg h2]
  by_cases h3 : c.toNat ≤ 0xFFFF
  · rw [if_pos h3]
    have hb : (UInt8.ofNat (c.toNat / 4096 % 0x10 + 0xE0)).toNat = c.toNat / 4096 + 0xE0 := by
      rw [toNat_ofNat_lt (by omega)]
      omega
    obtain ⟨p, hlead, hneed, hvalue, hlo, hhi⟩ := lead_three (by omega : 0x800 ≤ c.toNat) h3 (by omega)
    refine ⟨_, _, p, rfl, by omega, ?_, .more (q := { need := 1, value := c.toNat / 64 }) (by omega) ?_
      (.last (by omega) ?_)⟩
    · rw [hb]
      exact push_none_lead (by omega) hlead
    · rw [hthird]
      exact push_more hneed Nat.one_pos hlo hhi (by simp only [hvalue, Pending.mk.injEq, true_and]; omega)
    · rw [hlast]
      exact push_last rfl (by simp only; omega) (by simp only; omega) (by simp only; omega)
  · rw [if_neg h3]
    have hb : (UInt8.ofNat (c.toNat / 262144 % 0x08 + 0xF0)).toNat = c.toNat / 262144 + 0xF0 := by
      rw [toNat_ofNat_lt (by omega)]
      omega
    obtain ⟨p, hlead, hneed, hvalue, hlo, hhi⟩ := lead_four (by omega : 0x10000 ≤ c.toNat) (by omega)
    refine ⟨_, _, p, rfl, by omega, ?_, .more (q := { need := 2, value := c.toNat / 4096 }) (by omega) ?_
      (.more (q := { need := 1, value := c.toNat / 64 }) (by omega) ?_ (.last (by omega) ?_))⟩
    · rw [hb]
      exact push_none_lead (by omega) hlead
    · rw [hsecond]
      exact push_more hneed Nat.two_pos hlo hhi (by simp only [hvalue, Pending.mk.injEq, true_and]; omega)
    · rw [hthird]
      exact push_more rfl Nat.one_pos (by simp only; omega) (by simp only; omega)
        (by simp only [Pending.mk.injEq, true_and]; omega)
    · rw [hlast]
      exact push_last rfl (by simp only; omega) (by simp only; omega) (by simp only; omega)

variable {c : Char} {p : Pending} {bs : List UInt8}

theorem Spells.ne_nil (h : Spells c p bs) : bs ≠ [] := by cases h <;> simp

theorem Spells.decode (h : Spells c p bs) (rest : List UInt8) : decodeFrom (some p) (bs ++ rest) = c :: decodeFrom none rest := by
  induction h with
  | last hb hpush => rw [List.singleton_append, decodeFrom_cons, hpush]; rfl
  | more hb hpush hrest ih => rw [List.cons_append, decodeFrom_cons, hpush, ih]; rfl

/-- Broken off, a character that was begun is one U+FFFD. -/
theorem Spells.decode_take (h : Spells c p bs) {j : Nat} (hj : j < bs.length) :
    decodeFrom (some p) (bs.take j) = [replacement] := by
  induction h generalizing j with
  | last hb hpush =>
    have hzero : j = 0 := by simpa using hj
    rw [hzero]
    rfl
  | more hb hpush hrest ih =>
    cases j with
    | zero => rfl
    | succ j => rw [List.take_succ_cons, decodeFrom_cons, hpush, ih (by simpa using hj)]; rfl

theorem Spells.continues (h : Spells c p bs) : ∀ b ∈ bs, 0x80 ≤ b.toNat ∧ b.toNat < 0xC0 := by
  induction h with
  | last hb hpush =>
    intro b hmem
    rw [List.mem_singleton.mp hmem]
    exact hb
  | more hb hpush hrest ih =>
    intro b hmem
    rcases List.mem_cons.mp hmem with rfl | hmem
    · exact hb
    · exact ih b hmem

theorem decodeFrom_encodeChar (c : Char) (rest : List UInt8) :
    decodeFrom none (String.utf8EncodeChar c ++ rest) = c :: decodeFrom none rest := by
  rcases encodeChar_cases c with ⟨b, hb, heq, hc⟩ | ⟨b, bs, p, heq, -, hpush, hspells⟩
  · rw [heq, List.singleton_append, decodeFrom_cons]
    simp [push, first, hb, hc]
  · rw [heq, List.cons_append, decodeFrom_cons, hpush, hspells.decode]
    rfl

/-! ## Texts -/

theorem encodeChars_cons (c : Char) (cs : List Char) : encodeChars (c :: cs) = String.utf8EncodeChar c ++ encodeChars cs :=
  List.flatMap_cons

theorem encodeChars_append (cs ds : List Char) : encodeChars (cs ++ ds) = encodeChars cs ++ encodeChars ds :=
  List.flatMap_append

theorem decodeFrom_encodeChars (cs : List Char) (rest : List UInt8) :
    decodeFrom none (encodeChars cs ++ rest) = cs ++ decodeFrom none rest := by
  induction cs with
  | nil => rfl
  | cons c cs ih => rw [encodeChars_cons, List.append_assoc, decodeFrom_encodeChar, ih]; rfl

theorem decodeChars_encodeChars (cs : List Char) : decodeChars (encodeChars cs) = cs := by
  have h := decodeFrom_encodeChars cs []
  rwa [List.append_nil, decodeFrom, List.append_nil] at h

theorem decode_encode (s : String) : decode (encode s) = s := by
  rw [decode, encode, decodeChars_encodeChars, String.ofList_toList]

/-- The last byte of a text is not the first one of several. -/
theorem getLast?_encodeChars (cs : List Char) : ∀ b ∈ (encodeChars cs).getLast?, b.toNat < 0xC0 := by
  intro b hb
  rcases List.eq_nil_or_concat cs with rfl | ⟨before, c, rfl⟩
  · cases hb
  rw [List.concat_eq_append, encodeChars_append, show encodeChars [c] = String.utf8EncodeChar c from List.append_nil _] at hb
  rcases encodeChar_cases c with ⟨d, hd, heq, -⟩ | ⟨d, bs, p, heq, -, -, hspells⟩
  · rw [heq, List.getLast?_append_of_ne_nil _ (by simp), List.getLast?_singleton] at hb
    cases hb
    omega
  · rw [heq, List.getLast?_append_of_ne_nil _ (by simp), List.getLast?_cons_of_ne_nil hspells.ne_nil] at hb
    exact (hspells.continues b (List.mem_of_getLast? hb)).2

/-! ## A text that is cut -/

/-- A cut falls between two characters or through one. -/
theorem take_cases (cs : List Char) {k : Nat} (hk : k ≤ (encodeChars cs).length) :
    (∃ whole, (encodeChars cs).take k = encodeChars whole) ∨
    ∃ whole c rest j, cs = whole ++ c :: rest ∧ 0 < j ∧ j < (String.utf8EncodeChar c).length ∧
      (encodeChars cs).take k = encodeChars whole ++ (String.utf8EncodeChar c).take j := by
  induction cs generalizing k with
  | nil => exact .inl ⟨[], by simp [encodeChars]⟩
  | cons c cs ih =>
    rw [encodeChars_cons] at hk ⊢
    by_cases hzero : k = 0
    · exact .inl ⟨[], by simp [hzero, encodeChars]⟩
    by_cases hin : k < (String.utf8EncodeChar c).length
    · refine .inr ⟨[], c, cs, k, rfl, by omega, hin, ?_⟩
      rw [List.take_append_of_le_length (by omega)]
      rfl
    · rw [List.length_append] at hk
      have htake : (String.utf8EncodeChar c ++ encodeChars cs).take k =
          String.utf8EncodeChar c ++ (encodeChars cs).take (k - (String.utf8EncodeChar c).length) := by
        rw [List.take_append, List.take_of_length_le (by omega)]
      rw [htake]
      rcases ih (k := k - (String.utf8EncodeChar c).length) (by omega) with ⟨whole, hwhole⟩ |
        ⟨whole, d, rest, j, rfl, hpos, hlt, hwhole⟩
      · exact .inl ⟨c :: whole, by rw [hwhole, encodeChars_cons]⟩
      · exact .inr ⟨c :: whole, d, rest, j, rfl, hpos, hlt, by rw [hwhole, encodeChars_cons, List.append_assoc]⟩

/-- A character broken off is one U+FFFD. -/
theorem decodeFrom_take_char {c : Char} {j : Nat} (hpos : 0 < j) (hj : j < (String.utf8EncodeChar c).length) :
    decodeFrom none ((String.utf8EncodeChar c).take j) = [replacement] := by
  rcases encodeChar_cases c with ⟨b, -, heq, -⟩ | ⟨b, bs, p, heq, -, hpush, hspells⟩
  · rw [heq] at hj
    simp only [List.length_singleton] at hj
    omega
  · rw [heq] at hj ⊢
    cases j with
    | zero => omega
    | succ j =>
      rw [List.take_succ_cons, decodeFrom_cons, hpush, hspells.decode_take (by simpa using hj)]
      rfl

theorem length_encode_replacement : (encodeChars [replacement]).length = 3 := by decide

/-- The length of a cut text, decoded and encoded again. -/
def recoded (bs : List UInt8) : Nat := (encodeChars (decodeChars bs)).length

theorem recoded_encodeChars (cs : List Char) : recoded (encodeChars cs) = (encodeChars cs).length := by
  rw [recoded, decodeChars_encodeChars]

/-- A cut behind the first byte of a character adds two bytes, and any other cut at most one. -/
theorem recoded_take (cs : List Char) {k : Nat} (hk : k ≤ (encodeChars cs).length) :
    ((∃ b ∈ ((encodeChars cs).take k).getLast?, 0xC0 ≤ b.toNat) → recoded ((encodeChars cs).take k) = k + 2) ∧
    ((∀ b ∈ ((encodeChars cs).take k).getLast?, b.toNat < 0xC0) → recoded ((encodeChars cs).take k) ≤ k + 1) := by
  have hlength : ((encodeChars cs).take k).length = k := by rw [List.length_take, Nat.min_eq_left hk]
  rcases take_cases cs hk with ⟨whole, heq⟩ | ⟨whole, c, -, j, -, hpos, hj, heq⟩
  · rw [heq] at hlength ⊢
    constructor
    · rintro ⟨b, hb, hle⟩
      have := getLast?_encodeChars whole b hb
      omega
    · intro _
      rw [recoded_encodeChars, hlength]
      omega
  · have hrecoded : recoded ((encodeChars cs).take k) + j = k + 3 := by
      have hdecoded : decodeChars ((encodeChars cs).take k) = whole ++ [replacement] := by
        rw [heq, decodeChars, decodeFrom_encodeChars, decodeFrom_take_char hpos hj]
      have hsum : (encodeChars whole).length + j = k := by
        have hparts := congrArg List.length heq
        rw [hlength, List.length_append, List.length_take, Nat.min_eq_left (by omega)] at hparts
        exact hparts.symm
      rw [recoded, hdecoded, encodeChars_append, List.length_append, length_encode_replacement]
      omega
    rcases encodeChar_cases c with ⟨b, -, hchar, -⟩ | ⟨b, bs, p, hchar, hlead, -, hspells⟩
    · rw [hchar] at hj
      simp only [List.length_singleton] at hj
      omega
    · -- the first byte stands last only where the cut is right behind it
      have hlast : ((encodeChars cs).take k).getLast? = if j = 1 then some b else (bs.take (j - 1)).getLast? := by
        obtain ⟨i, rfl⟩ : ∃ i, j = i + 1 := ⟨j - 1, by omega⟩
        rw [heq, hchar, List.take_succ_cons, List.getLast?_append_of_ne_nil _ (by simp)]
        by_cases hi : i = 0
        · simp [hi]
        · have hne : bs.take i ≠ [] := by
            intro hnil
            rcases List.take_eq_nil_iff.mp hnil with hzero | hnil
            · exact hi hzero
            · exact hspells.ne_nil hnil
          rw [List.getLast?_cons_of_ne_nil hne, if_neg (by omega), Nat.add_sub_cancel]
      rw [hlast]
      constructor
      · rintro ⟨d, hd, hle⟩
        by_cases hone : j = 1
        · omega
        · rw [if_neg hone] at hd
          have := hspells.continues d (List.mem_of_mem_take (List.mem_of_getLast? hd))
          omega
      · intro hall
        by_cases hone : j = 1
        · rw [if_pos hone] at hall
          have := hall b rfl
          omega
        · omega

end Jarvis.Utf8
