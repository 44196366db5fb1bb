/-
  Jarvis.Events.Redaction — what is taken out of a value before it is stored or shown
  (`events/redaction.py`: `RecursiveRedactor`).

  What the source's regular expressions match, and how characters that are not ASCII fold, are
  parameters. A pattern parts a text into its matches and what is between them.

  A member is judged by its key as it was rewritten (`fieldClass`), so two members whose keys
  become the same are judged alike, and nothing of what is under a key that is dropped or
  replaced is read.
-/
import Jarvis.Lib.Dict
import Jarvis.Lib.Json
import Mathlib.Data.List.Infix

namespace Jarvis.Events

/-! ## Patterns -/

inductive Piece where
  | between (text : List Char)
  | matched (text : List Char) (group : Nat → List Char)

def Piece.text : Piece → List Char
  | .between text => text
  | .matched text _ => text

def Piece.isMatch : Piece → Bool
  | .between _ => false
  | .matched _ _ => true

/-- A compiled pattern. -/
structure Pattern where
  pieces : List Char → List Piece
  flatMap_text : ∀ s, (pieces s).flatMap Piece.text = s

def Piece.replace (repl : (Nat → List Char) → List Char) : Piece → List Char
  | .between text => text
  | .matched _ group => repl group

/-- `pattern.subn(repl, s)`. -/
def Pattern.subn (p : Pattern) (repl : (Nat → List Char) → List Char) (s : List Char) : List Char × Nat :=
  ((p.pieces s).flatMap (Piece.replace repl), (p.pieces s).countP Piece.isMatch)

/-- The secret's places, from left to right: `skip` is what is left of the last one. -/
def literalPieces (secret : List Char) : Nat → List Char → List Piece
  | _, [] => []
  | skip + 1, _ :: s => literalPieces secret skip s
  | 0, c :: s =>
    if secret.isPrefixOf (c :: s) then .matched secret (fun _ => []) :: literalPieces secret (secret.length - 1) s
    else .between [c] :: literalPieces secret 0 s

theorem literalPieces_text {secret : List Char} (hsecret : secret ≠ []) (skip : Nat) (s : List Char) :
    (literalPieces secret skip s).flatMap Piece.text = s.drop skip := by
  induction s generalizing skip with
  | nil => cases skip <;> rfl
  | cons c s ih =>
    cases skip with
    | succ skip => exact ih skip
    | zero =>
      rw [literalPieces]
      split
      · rename_i hplace
        obtain ⟨rest, hrest⟩ := List.isPrefixOf_iff_prefix.mp hplace
        obtain ⟨d, ds, rfl⟩ := List.exists_cons_of_ne_nil hsecret
        obtain ⟨rfl, rfl⟩ := List.cons.inj hrest
        rw [List.flatMap_cons, ih]
        simp [Piece.text]
      · rw [List.flatMap_cons, ih]
        rfl

/-- `count` and `replace` of a secret. -/
def Pattern.literal (secret : List Char) (hsecret : secret ≠ []) : Pattern where
  pieces := literalPieces secret 0
  flatMap_text s := literalPieces_text hsecret 0 s

/-! ## The redactor -/

/-- The source's patterns, under its names. -/
structure Patterns where
  secretField : List Char → Bool
  privateKey : Pattern
  bearer : Pattern
  credentialUrl : Pattern
  envAssignment : Pattern
  jwt : Pattern
  providerToken : Pattern
  header : Pattern
  inlineAssignment : Pattern

/-- `_HIDDEN_REASONING_FIELDS`. -/
def hiddenReasoningFields : List String :=
  ["analysis", "chain_of_thought", "hidden_reasoning", "internal_reasoning", "provider_reasoning", "reasoning",
    "scratchpad"]

structure RecursiveRedactor where
  patterns : Patterns
  /-- `str.casefold` of a character that is not ASCII. -/
  foldChar : Char → List Char
  knownSecrets : List { secret : List Char // 4 ≤ secret.length }

/-- `__init__`. -/
def RecursiveRedactor.init (patterns : Patterns) (foldChar : Char → List Char) (knownSecretValues : List String) :
    RecursiveRedactor where
  patterns := patterns
  foldChar := foldChar
  knownSecrets := knownSecretValues.filterMap fun value =>
    if h : 4 ≤ value.toList.length then some ⟨value.toList, h⟩ else none

abbrev RuleCounts := Dict String Nat

/-- `_increment`. -/
def increment (counts : RuleCounts) (rule : String) (amount : Nat) : RuleCounts :=
  if amount = 0 then counts else counts.insert rule (counts.getD rule 0 + amount)

/-- `_placeholder`. -/
def placeholder (kind : String) : String := "[REDACTED:" ++ kind ++ "]"

/-- One substitution of `_redact_string`. -/
structure Rule where
  name : String
  pattern : Pattern
  /-- What stands around the placeholder, from the match's groups. -/
  before : (Nat → List Char) → List Char := fun _ => []
  kind : String
  after : List Char := []

def Rule.repl (rule : Rule) (group : Nat → List Char) : List Char :=
  rule.before group ++ (placeholder rule.kind).toList ++ rule.after

namespace RecursiveRedactor

variable (r : RecursiveRedactor)

/-- The substitutions of `_redact_string`, in order. -/
def rules : List Rule :=
  (r.knownSecrets.map fun secret =>
    { name := "known_secret", kind := "known_secret",
      pattern := .literal secret.val fun hnil => by simpa [hnil] using secret.property }) ++
  [{ name := "header", pattern := r.patterns.header, kind := "header" },
    { name := "jwt", pattern := r.patterns.jwt, kind := "jwt" },
    { name := "provider_token", pattern := r.patterns.providerToken, kind := "provider_token" },
    { name := "private_key", pattern := r.patterns.privateKey, kind := "private_key" },
    { name := "bearer_token", pattern := r.patterns.bearer, kind := "bearer_token" },
    { name := "credential_url", pattern := r.patterns.credentialUrl, before := fun group => group 1,
      kind := "credentials", after := ['@'] },
    { name := "environment_assignment", pattern := r.patterns.envAssignment, before := fun group => group 1,
      kind := "environment_secret" },
    { name := "inline_credential", pattern := r.patterns.inlineAssignment, before := fun group => group 1 ++ group 2,
      kind := "credential" }]

def applyRule (state : List Char × RuleCounts) (rule : Rule) : List Char × RuleCounts :=
  let (result, count) := rule.pattern.subn rule.repl state.1
  (result, increment state.2 rule.name count)

/-- `_redact_string`. -/
def redactString (value : String) (counts : RuleCounts) : String × RuleCounts :=
  let (result, counts) := r.rules.foldl applyRule (value.toList, counts)
  (String.ofList result, counts)

/-- `re.sub(r"([a-z])([A-Z])", r"\1_\2", key)`: an upper case letter begins no match. -/
def camelSplit : List Char → List Char
  | a :: b :: rest => if a.isLower && b.isUpper then a :: '_' :: camelSplit (b :: rest) else a :: camelSplit (b :: rest)
  | cs => cs

/-- `str.casefold`. -/
def casefold (s : List Char) : List Char := s.flatMap fun c => if c.toNat < 128 then [c.toLower] else r.foldChar c

/-- `normalized_key`. -/
def normalizedKey (key : String) : List Char :=
  (r.casefold (camelSplit key.toList)).map fun c => if c = '-' then '_' else c

/-- `_field_kind`. -/
def fieldKind (fieldName : List Char) : String :=
  let has (part : String) : Bool := decide (part.toList <:+: fieldName)
  if has "password" || has "passwd" then "password"
  else if has "cookie" then "cookie"
  else if has "authorization" then "authorization"
  else if has "private" then "private_key"
  else if has "connection" || has "database" then "connection_string"
  else "token"

def isHidden (normalized : List Char) : Bool := decide (String.ofList normalized ∈ hiddenReasoningFields)

mutual

/-- `_redact_value`. -/
def redactValue : Json → RuleCounts → Json × RuleCounts
  | .obj members, counts =>
    let (result, counts) := redactMembers members Dict.empty counts
    (.obj result.entries, counts)
  | .list items, counts =>
    let (items, counts) := redactItems items counts
    (.list items, counts)
  | .scalar (.str s), counts =>
    let (s, counts) := r.redactString s counts
    (.str s, counts)
  | .scalar s, counts => (.scalar s, counts)

def redactItems : List Json → RuleCounts → List Json × RuleCounts
  | [], counts => ([], counts)
  | item :: items, counts =>
    let (item, counts) := redactValue item counts
    let (items, counts) := redactItems items counts
    (item :: items, counts)

/-- The loop over an object's members. -/
def redactMembers : List (String × Json) → Dict String Json → RuleCounts → Dict String Json × RuleCounts
  | [], result, counts => (result, counts)
  | (rawKey, item) :: members, result, counts =>
    let (key, counts) := r.redactString rawKey counts
    let normalized := r.normalizedKey key
    if isHidden normalized then redactMembers members result (increment counts "hidden_reasoning" 1)
    else if r.patterns.secretField normalized then
      redactMembers members (result.insert key (.str (placeholder (fieldKind normalized))))
        (increment counts "secret_field" 1)
    else
      let (item, counts) := redactValue item counts
      redactMembers members (result.insert key item) counts

end

end RecursiveRedactor

structure RedactionReport where
  value : Json
  ruleCounts : RuleCounts

/-- `redact`. -/
def RecursiveRedactor.redact (r : RecursiveRedactor) (value : Json) : RedactionReport :=
  let (value, counts) := r.redactValue value Dict.empty
  ⟨value, counts⟩

/-! ## The class of a key -/

inductive FieldClass where
  | hidden
  | secret
  | plain
  deriving DecidableEq, Repr

namespace RecursiveRedactor

/-- The text of a key or a value, whatever was counted before. -/
def redactText (r : RecursiveRedactor) (value : String) : String := (r.redactString value Dict.empty).1

def fieldClass (r : RecursiveRedactor) (rawKey : String) : FieldClass :=
  if isHidden (r.normalizedKey (r.redactText rawKey)) then .hidden
  else if r.patterns.secretField (r.normalizedKey (r.redactText rawKey)) then .secret
  else .plain

variable {r : RecursiveRedactor}

theorem foldl_applyRule_fst (rules : List Rule) (text : List Char) (counts : RuleCounts) :
    (rules.foldl applyRule (text, counts)).1 =
      rules.foldl (fun text rule => (rule.pattern.subn rule.repl text).1) text := by
  induction rules generalizing text counts with
  | nil => rfl
  | cons rule rules ih => exact ih _ _

theorem redactString_fst (value : String) (counts : RuleCounts) : (r.redactString value counts).1 = r.redactText value := by
  show String.ofList _ = String.ofList _
  rw [foldl_applyRule_fst, foldl_applyRule_fst]

theorem redactMembers_hidden {rawKey : String} (h : r.fieldClass rawKey = .hidden) (item : Json)
    (members : List (String × Json)) (result : Dict String Json) (counts : RuleCounts) :
    r.redactMembers ((rawKey, item) :: members) result counts =
      r.redactMembers members result (increment (r.redactString rawKey counts).2 "hidden_reasoning" 1) := by
  have hhidden : isHidden (r.normalizedKey (r.redactText rawKey)) = true := by
    by_contra hnot
    rw [fieldClass, if_neg hnot] at h
    split at h <;> cases h
  rw [redactMembers]
  simp only [redactString_fst, hhidden, if_true]

theorem redactMembers_secret {rawKey : String} (h : r.fieldClass rawKey = .secret) (item : Json)
    (members : List (String × Json)) (result : Dict String Json) (counts : RuleCounts) :
    r.redactMembers ((rawKey, item) :: members) result counts =
      r.redactMembers members
        (result.insert (r.redactText rawKey)
          (.str (placeholder (fieldKind (r.normalizedKey (r.redactText rawKey))))))
        (increment (r.redactString rawKey counts).2 "secret_field" 1) := by
  unfold fieldClass at h
  split_ifs at h with hhidden hsecret
  rw [redactMembers]
  simp only [redactString_fst, hhidden, hsecret, Bool.false_eq_true, if_true, if_false]

theorem redactMembers_plain {rawKey : String} (h : r.fieldClass rawKey = .plain) (item : Json)
    (members : List (String × Json)) (result : Dict String Json) (counts : RuleCounts) :
    r.redactMembers ((rawKey, item) :: members) result counts =
      r.redactMembers members
        (result.insert (r.redactText rawKey) (r.redactValue item (r.redactString rawKey counts).2).1)
        (r.redactValue item (r.redactString rawKey counts).2).2 := by
  unfold fieldClass at h
  split_ifs at h with hhidden hsecret
  rw [redactMembers]
  simp only [redactString_fst, hhidden, hsecret, Bool.false_eq_true, if_false]

/-! ## Non-interference -/

mutual

/-- Equal but for what is under a key that is secret or hidden. -/
def Agrees (r : RecursiveRedactor) : Json → Json → Prop
  | .scalar s, .scalar t => s = t
  | .list items, .list items' => ItemsAgree r items items'
  | .obj members, .obj members' => MembersAgree r members members'
  | _, _ => False

def ItemsAgree (r : RecursiveRedactor) : List Json → List Json → Prop
  | [], [] => True
  | item :: items, item' :: items' => Agrees r item item' ∧ ItemsAgree r items items'
  | _, _ => False

def MembersAgree (r : RecursiveRedactor) : List (String × Json) → List (String × Json) → Prop
  | [], [] => True
  | (key, item) :: members, (key', item') :: members' =>
    key = key' ∧ (r.fieldClass key = .plain → Agrees r item item') ∧ MembersAgree r members members'
  | _, _ => False

end

theorem redactItems_agree {items : List Json}
    (ih : ∀ item ∈ items, ∀ item', Agrees r item item' → ∀ counts, r.redactValue item counts = r.redactValue item' counts) :
    ∀ {items' : List Json}, ItemsAgree r items items' → ∀ counts, r.redactItems items counts = r.redactItems items' counts := by
  induction items with
  | nil =>
    intro items' h counts
    cases items' with
    | nil => rfl
    | cons _ _ => exact h.elim
  | cons item items hitems =>
    intro items' h counts
    cases items' with
    | nil => exact h.elim
    | cons item' items' =>
      obtain ⟨hitem, hrest⟩ := h
      rw [redactItems, redactItems, ih item List.mem_cons_self item' hitem]
      simp only [hitems (fun other hother => ih other (List.mem_cons_of_mem _ hother)) hrest]

theorem redactMembers_agree {members : List (String × Json)}
    (ih : ∀ e ∈ members, ∀ item', Agrees r e.2 item' → ∀ counts, r.redactValue e.2 counts = r.redactValue item' counts) :
    ∀ {members' : List (String × Json)}, MembersAgree r members members' → ∀ result counts,
      r.redactMembers members result counts = r.redactMembers members' result counts := by
  induction members with
  | nil =>
    intro members' h result counts
    cases members' with
    | nil => rfl
    | cons _ _ => exact h.elim
  | cons e members hmembers =>
    obtain ⟨key, item⟩ := e
    intro members' h result counts
    cases members' with
    | nil => exact h.elim
    | cons e' members' =>
      obtain ⟨key', item'⟩ := e'
      obtain ⟨rfl, hitem, hrest⟩ := h
      have hnext := hmembers (fun other hother => ih other (List.mem_cons_of_mem _ hother)) hrest
      cases hclass : r.fieldClass key with
      | hidden => rw [redactMembers_hidden hclass, redactMembers_hidden hclass, hnext]
      | secret => rw [redactMembers_secret hclass, redactMembers_secret hclass, hnext]
      | plain =>
        rw [redactMembers_plain hclass, redactMembers_plain hclass, ih _ List.mem_cons_self item' (hitem hclass), hnext]

/-- What is redacted of two values that agree, and what is counted, is the same. -/
theorem redactValue_agree (a : Json) : ∀ {b : Json}, Agrees r a b → ∀ counts, r.redactValue a counts = r.redactValue b counts := by
  induction a using Json.induct with
  | scalar s =>
    intro b h counts
    cases b with
    | scalar t =>
      obtain rfl : s = t := h
      rfl
    | list _ => exact h.elim
    | obj _ => exact h.elim
  | list items ih =>
    intro b h counts
    cases b with
    | scalar _ => exact h.elim
    | list items' =>
      rw [redactValue, redactValue]
      rw [redactItems_agree (fun item hitem _ => ih item hitem) h]
    | obj _ => exact h.elim
  | obj members ih =>
    intro b h counts
    cases b with
    | scalar _ => exact h.elim
    | list _ => exact h.elim
    | obj members' =>
      rw [redactValue, redactValue]
      rw [redactMembers_agree (fun e he _ => ih e he) h]

/-! ## Keys of what is redacted -/

theorem mem_placeholder (kind : String) : '[' ∈ (placeholder kind).toList := by
  simp [placeholder, String.toList_append]

theorem mem_repl (rule : Rule) (group : Nat → List Char) : '[' ∈ rule.repl group :=
  List.mem_append_left _ (List.mem_append_right _ (mem_placeholder rule.kind))

/-- A substitution leaves the text as it was, or a placeholder in it. -/
theorem subn_cases (rule : Rule) (s : List Char) :
    (rule.pattern.subn rule.repl s).1 = s ∨ '[' ∈ (rule.pattern.subn rule.repl s).1 := by
  by_cases hmatch : ∃ piece ∈ rule.pattern.pieces s, piece.isMatch
  · obtain ⟨piece, hpiece, hmatch⟩ := hmatch
    refine .inr (List.mem_flatMap.mpr ⟨piece, hpiece, ?_⟩)
    cases piece with
    | between text => cases hmatch
    | matched text group => exact mem_repl rule group
  · left
    have hsame : ∀ piece ∈ rule.pattern.pieces s, piece.replace rule.repl = piece.text := by
      intro piece hpiece
      cases piece with
      | between text => rfl
      | matched text group => exact absurd ⟨_, hpiece, rfl⟩ hmatch
    exact (List.flatMap_congr hsame).trans (rule.pattern.flatMap_text s)

theorem redactText_cases (value : String) : r.redactText value = value ∨ '[' ∈ (r.redactText value).toList := by
  have hrules : ∀ (rules : List Rule) (text : List Char),
      rules.foldl (fun text rule => (rule.pattern.subn rule.repl text).1) text = text ∨
      '[' ∈ rules.foldl (fun text rule => (rule.pattern.subn rule.repl text).1) text := by
    intro rules
    induction rules with
    | nil => exact fun _ => .inl rfl
    | cons rule rules ih =>
      intro text
      rw [List.foldl_cons]
      rcases ih (rule.pattern.subn rule.repl text).1 with hsame | hmem
      · rw [hsame]
        exact subn_cases rule text
      · exact .inr hmem
  have htext : r.redactText value =
      String.ofList (r.rules.foldl (fun text rule => (rule.pattern.subn rule.repl text).1) value.toList) :=
    congrArg String.ofList (foldl_applyRule_fst _ _ _)
  rw [htext, String.toList_ofList]
  rcases hrules r.rules value.toList with hsame | hmem
  · rw [hsame, String.ofList_toList]
    exact .inl rfl
  · exact .inr hmem

theorem mem_camelSplit {c : Char} {s : List Char} (h : c ∈ s) : c ∈ camelSplit s := by
  induction s with
  | nil => cases h
  | cons a s ih =>
    cases s with
    | nil => exact h
    | cons b rest =>
      rw [camelSplit]
      rcases List.mem_cons.mp h with rfl | h
      · split <;> exact List.mem_cons_self
      · split
        · exact List.mem_cons_of_mem _ (List.mem_cons_of_mem _ (ih h))
        · exact List.mem_cons_of_mem _ (ih h)

/-- A bracket in a key stays where the key is normalized, and no hidden field has one. -/
theorem not_hidden_of_mem {key : String} (h : '[' ∈ key.toList) : isHidden (r.normalizedKey key) = false := by
  have hbracket : '[' ∈ if '['.toNat < 128 then ['['.toLower] else r.foldChar '[' := by
    rw [if_pos (by decide)]
    decide
  have hfold : '[' ∈ r.casefold (camelSplit key.toList) := List.mem_flatMap.mpr ⟨'[', mem_camelSplit h, hbracket⟩
  have hnormal : '[' ∈ r.normalizedKey key := List.mem_map.mpr ⟨'[', hfold, by decide⟩
  refine decide_eq_false fun hfield => ?_
  have hfields : ∀ field ∈ hiddenReasoningFields, '[' ∉ field.toList := by decide +kernel
  exact hfields _ hfield (by rwa [String.toList_ofList])

/-- A key that was rewritten, and kept. -/
def KeptKey (r : RecursiveRedactor) (key : String) : Prop :=
  ∃ rawKey, key = r.redactText rawKey ∧ r.fieldClass rawKey ≠ .hidden

theorem redactItems_keys {items : List Json}
    (ih : ∀ item ∈ items, ∀ counts, ∀ key ∈ (r.redactValue item counts).1.keys, KeptKey r key) (counts : RuleCounts) :
    ∀ item ∈ (r.redactItems items counts).1, ∀ key ∈ item.keys, KeptKey r key := by
  induction items generalizing counts with
  | nil => exact fun _ hitem => absurd hitem List.not_mem_nil
  | cons item items hitems =>
    intro out hout
    rw [redactItems] at hout
    rcases List.mem_cons.mp hout with rfl | hout
    · exact ih item List.mem_cons_self counts
    · exact hitems (fun other hother => ih other (List.mem_cons_of_mem _ hother)) _ out hout

theorem redactMembers_keys {members : List (String × Json)}
    (ih : ∀ e ∈ members, ∀ counts, ∀ key ∈ (r.redactValue e.2 counts).1.keys, KeptKey r key) {result : Dict String Json}
    (hresult : ∀ e ∈ result.entries, KeptKey r e.1 ∧ ∀ key ∈ e.2.keys, KeptKey r key) (counts : RuleCounts) :
    ∀ e ∈ (r.redactMembers members result counts).1.entries, KeptKey r e.1 ∧ ∀ key ∈ e.2.keys, KeptKey r key := by
  induction members generalizing result counts with
  | nil => exact hresult
  | cons e members hmembers =>
    obtain ⟨rawKey, item⟩ := e
    have htail : ∀ e ∈ members, ∀ counts, ∀ key ∈ (r.redactValue e.2 counts).1.keys, KeptKey r key :=
      fun other hother => ih other (List.mem_cons_of_mem _ hother)
    -- the dictionary after a member that is kept
    have hinsert : ∀ value : Json, r.fieldClass rawKey ≠ .hidden → (∀ key ∈ value.keys, KeptKey r key) →
        ∀ e ∈ (result.insert (r.redactText rawKey) value).entries, KeptKey r e.1 ∧ ∀ key ∈ e.2.keys, KeptKey r key := by
      intro value hclass hvalue e he
      rcases Dict.mem_entries_insert he with rfl | he
      · exact ⟨⟨rawKey, rfl, hclass⟩, hvalue⟩
      · exact hresult e he
    cases hclass : r.fieldClass rawKey with
    | hidden =>
      rw [redactMembers_hidden hclass]
      exact hmembers htail hresult _
    | secret =>
      rw [redactMembers_secret hclass]
      exact hmembers htail (hinsert _ (by simp [hclass]) fun _ hkey => absurd hkey List.not_mem_nil) _
    | plain =>
      rw [redactMembers_plain hclass]
      exact hmembers htail (hinsert _ (by simp [hclass]) (ih _ List.mem_cons_self _)) _

/-- The keys of a redacted value were rewritten, and none of them was hidden. -/
theorem redactValue_keys (value : Json) (counts : RuleCounts) :
    ∀ key ∈ (r.redactValue value counts).1.keys, KeptKey r key := by
  induction value using Json.induct generalizing counts with
  | scalar s =>
    intro key hkey
    cases s <;> cases hkey
  | list items ih =>
    intro key hkey
    rw [redactValue] at hkey
    obtain ⟨item, hitem, hkey⟩ := Json.mem_keys_list.mp hkey
    exact redactItems_keys ih counts item hitem key hkey
  | obj members ih =>
    intro key hkey
    rw [redactValue] at hkey
    obtain ⟨e, he, hkey⟩ := Json.mem_keys_obj.mp hkey
    obtain ⟨hown, hunder⟩ := redactMembers_keys ih (fun _ he => absurd he List.not_mem_nil) counts e he
    rcases hkey with rfl | hkey
    · exact hown
    · exact hunder key hkey

theorem isHidden_iff (rawKey : String) : isHidden (r.normalizedKey (r.redactText rawKey)) = true ↔ r.fieldClass rawKey = .hidden := by
  unfold fieldClass
  by_cases h : isHidden (r.normalizedKey (r.redactText rawKey)) = true
  · simp [h]
  · rw [if_neg h]
    split <;> simp [h]

/-- A key that was kept is not hidden as it stands, nor if it were rewritten once more. -/
theorem KeptKey.not_hidden {key : String} (h : KeptKey r key) :
    isHidden (r.normalizedKey key) = false ∧ r.fieldClass key ≠ .hidden := by
  obtain ⟨rawKey, rfl, hclass⟩ := h
  have hnormal : isHidden (r.normalizedKey (r.redactText rawKey)) = false := by
    rw [← Bool.not_eq_true, isHidden_iff]
    exact hclass
  refine ⟨hnormal, ?_⟩
  rw [Ne, ← isHidden_iff, Bool.not_eq_true]
  rcases redactText_cases (r.redactText rawKey) with hsame | hbracket
  · rw [hsame]
    exact hnormal
  · exact not_hidden_of_mem hbracket

end RecursiveRedactor

end Jarvis.Events
