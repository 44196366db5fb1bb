/-
  Jarvis.Events.Dedupe — when an append takes its event for a stored one.

  Both keys join texts with colons. A source's kind has no colon and its sequence only digits,
  so the two ends of its key read back. What is between them, the name, the instance and the
  host, does not: each may have colons of its own, and an instance or host that is missing, one
  that is empty and one that is a dash are written the same. A scope's id does not say whether
  it is a run's, a job's or a project's.
-/
import Jarvis.Events.Stream

namespace Jarvis.Events

/-! ## Around a separator -/

section Separator

variable {α : Type} {sep : α} {x y z w : List α}

theorem split_left (hx : sep ∉ x) (hy : sep ∉ y) (h : x ++ sep :: z = y ++ sep :: w) : x = y ∧ z = w := by
  rcases List.append_eq_append_iff.mp h with ⟨l, rfl, hl⟩ | ⟨l, rfl, hl⟩
  · cases l with
    | nil => simpa using hl
    | cons first l =>
      obtain ⟨rfl, -⟩ := List.cons.inj hl
      exact absurd (List.mem_append_right x List.mem_cons_self) hy
  · cases l with
    | nil => simpa using hl.symm
    | cons first l =>
      obtain ⟨rfl, -⟩ := List.cons.inj hl
      exact absurd (List.mem_append_right y List.mem_cons_self) hx

theorem split_right (hz : sep ∉ z) (hw : sep ∉ w) (h : x ++ sep :: z = y ++ sep :: w) : x = y ∧ z = w := by
  have hreverse : z.reverse ++ sep :: x.reverse = w.reverse ++ sep :: y.reverse := by
    simpa using congrArg List.reverse h
  obtain ⟨hzw, hxy⟩ := split_left (by simpa using hz) (by simpa using hw) hreverse
  exact ⟨List.reverse_injective hxy, List.reverse_injective hzw⟩

end Separator

/-! ## The source's key -/

theorem colon_notMem_kind (source : EventSource) : ':' ∉ source.kind.toList := by
  intro hcolon
  have hpattern := source.kind_ok.2
  unfold kindPattern at hpattern
  split at hpattern
  · cases hpattern
  · rename_i first rest hchars
    rw [hchars] at hcolon
    simp only [Bool.and_eq_true, List.all_eq_true] at hpattern
    rcases List.mem_cons.mp hcolon with rfl | hrest
    · exact absurd hpattern.1 (by decide)
    · exact absurd (hpattern.2 ':' hrest) (by decide)

theorem colon_notMem_toString (n : Nat) : ':' ∉ (toString n).toList := by
  intro hcolon
  have hdigit := Nat.isDigit_of_mem_toDigits (by omega) (Nat.le_refl 10) (Nat.toList_repr ▸ hcolon)
  exact absurd hdigit (by decide)

theorem toString_inj {m n : Nat} (h : toString m = toString n) : m = n := by
  have hdigits : Nat.toDigits 10 m = Nat.toDigits 10 n := by
    rw [← Nat.toList_repr, ← Nat.toList_repr]
    exact congrArg String.toList h
  calc m = Nat.ofDigitChars 10 (Nat.toDigits 10 m) 0 := (Nat.ofDigitChars_toDigits (by omega) (by omega)).symm
    _ = Nat.ofDigitChars 10 (Nat.toDigits 10 n) 0 := by rw [hdigits]
    _ = n := Nat.ofDigitChars_toDigits (by omega) (by omega)

/-- What stands between the kind and the sequence of a source's key. -/
def EventSource.origin (source : EventSource) : String :=
  ":".intercalate [source.name, orDash source.instanceId, orDash source.hostId]

theorem sourceDedupeKey_chars {source : EventSource} {sequence : Nat} (h : source.sourceSequence = some sequence) :
    ∃ key, sourceDedupeKey source = some key ∧
      key.toList = source.kind.toList ++ ':' :: (source.origin.toList ++ ':' :: (toString sequence).toList) := by
  refine ⟨_, by rw [sourceDedupeKey, h]; rfl, ?_⟩
  simp [EventSource.origin]

/-- Two sources with a sequence have one key exactly if they differ between the kind and the
    sequence at most, and there read the same. -/
theorem sourceDedupeKey_eq {a b : EventSource} {sequence : Nat} (h : b.sourceSequence = some sequence) :
    sourceDedupeKey a = sourceDedupeKey b ↔
      a.kind = b.kind ∧ a.sourceSequence = some sequence ∧ a.origin = b.origin := by
  obtain ⟨keyB, hkeyB, hcharsB⟩ := sourceDedupeKey_chars h
  rw [hkeyB]
  constructor
  · intro hkeys
    cases ha : a.sourceSequence with
    | none => simp [sourceDedupeKey, ha] at hkeys
    | some other =>
      obtain ⟨keyA, hkeyA, hcharsA⟩ := sourceDedupeKey_chars ha
      rw [hkeyA, Option.some_inj] at hkeys
      rw [hkeys, hcharsB] at hcharsA
      obtain ⟨hkind, hrest⟩ := split_left (colon_notMem_kind b) (colon_notMem_kind a) hcharsA
      obtain ⟨horigin, hsequence⟩ := split_right (colon_notMem_toString sequence) (colon_notMem_toString other) hrest
      refine ⟨(String.toList_inj.mp hkind).symm, ?_, (String.toList_inj.mp horigin).symm⟩
      exact congrArg some (toString_inj (String.toList_inj.mp hsequence)).symm
  · rintro ⟨hkind, ha, horigin⟩
    obtain ⟨keyA, hkeyA, hcharsA⟩ := sourceDedupeKey_chars ha
    rw [hkeyA, Option.some_inj, ← String.toList_inj, hcharsA, hcharsB, hkind, horigin]

/-- A text whose place in the key can be read back. -/
def Plain (text : String) : Prop := ':' ∉ text.toList

/-- A part that is there, and neither empty nor a dash. -/
def PlainPart (value : Option String) : Prop := ∀ text ∈ value, Plain text ∧ text ≠ "" ∧ text ≠ "-"

theorem orDash_inj {a b : Option String} (ha : PlainPart a) (hb : PlainPart b) (h : orDash a = orDash b) : a = b := by
  cases a with
  | none =>
    cases b with
    | none => rfl
    | some text => 
      obtain ⟨-, hempty, hdash⟩ := hb text rfl
      exact absurd h.symm (by simpa [orDash, hempty] using hdash)
  | some text =>
    obtain ⟨-, hempty, hdash⟩ := ha text rfl
    cases b with
    | none => exact absurd h (by simpa [orDash, hempty] using hdash)
    | some other =>
      obtain ⟨-, hother, -⟩ := hb other rfl
      simpa [orDash, hempty, hother] using h

theorem plain_orDash {value : Option String} (h : PlainPart value) : Plain (orDash value) := by
  cases value with
  | none => show ':' ∉ "-".toList; decide
  | some text =>
    obtain ⟨hplain, hempty, -⟩ := h text rfl
    simpa [orDash, hempty] using hplain

structure EventSource.PlainParts (source : EventSource) : Prop where
  name : Plain source.name
  instanceId : PlainPart source.instanceId
  hostId : PlainPart source.hostId

/-- Sources of plain parts that read the same are the same there. -/
theorem origin_inj {a b : EventSource} (ha : a.PlainParts) (hb : b.PlainParts) (h : a.origin = b.origin) :
    a.name = b.name ∧ a.instanceId = b.instanceId ∧ a.hostId = b.hostId := by
  obtain ⟨hname, hinstance, hhost⟩ := ha
  obtain ⟨hname', hinstance', hhost'⟩ := hb
  have hchars : a.name.toList ++ ':' :: ((orDash a.instanceId).toList ++ ':' :: (orDash a.hostId).toList) =
      b.name.toList ++ ':' :: ((orDash b.instanceId).toList ++ ':' :: (orDash b.hostId).toList) := by
    simpa [EventSource.origin] using congrArg String.toList h
  obtain ⟨hn, hrest⟩ := split_left hname hname' hchars
  obtain ⟨hi, hh⟩ := split_left (plain_orDash hinstance) (plain_orDash hinstance') hrest
  exact ⟨String.toList_inj.mp hn, orDash_inj hinstance hinstance' (String.toList_inj.mp hi),
    orDash_inj hhost hhost' (String.toList_inj.mp hh)⟩

/-! ## The scope's key -/

/-- The id that the key of an owner begins with; a system event's begins with a word. -/
def KeyScope.id? : KeyScope → Option Nat
  | .run id => some id
  | .job id => some id
  | .project id => some id
  | .system => none

theorem colon_notMem_text (owner : KeyScope) : ':' ∉ owner.text.toList := by
  cases owner with
  | run id => exact colon_notMem_toString id
  | job id => exact colon_notMem_toString id
  | project id => exact colon_notMem_toString id
  | system => show ':' ∉ "system".toList; decide

theorem toString_ne_system (n : Nat) : toString n ≠ "system" := by
  intro h
  have hs : 's' ∈ (toString n).toList := by
    rw [h]
    decide
  exact absurd (Nat.isDigit_of_mem_toDigits (by omega) (Nat.le_refl 10) (Nat.toList_repr ▸ hs)) (by decide)

theorem text_of_id (owner : KeyScope) : owner.text = (owner.id?.map toString).getD "system" := by
  cases owner <;> rfl

theorem text_eq {a b : KeyScope} : a.text = b.text ↔ a.id? = b.id? := by
  rw [text_of_id, text_of_id]
  cases a.id? with
  | none =>
    cases b.id? with
    | none => simp
    | some n => simpa using (toString_ne_system n).symm
  | some m =>
    cases b.id? with
    | none => simpa using toString_ne_system m
    | some n =>
      show toString m = toString n ↔ some m = some n
      exact ⟨fun h => congrArg some (toString_inj h), fun h => congrArg toString (Option.some_inj.mp h)⟩

theorem idempotencyScopeKey_eq {a b : EventScope} {given : Option String} {key : String} :
    idempotencyScopeKey a given = idempotencyScopeKey b (some key) ↔ given = some key ∧ a.owner.id? = b.owner.id? := by
  cases given with
  | none => simp [idempotencyScopeKey]
  | some other =>
    rw [← text_eq]
    simp only [idempotencyScopeKey, Option.map_some, Option.some_inj]
    constructor
    · intro h
      have hchars : a.owner.text.toList ++ ':' :: other.toList = b.owner.text.toList ++ ':' :: key.toList := by
        simpa using congrArg String.toList h
      obtain ⟨htext, hkey⟩ := split_left (colon_notMem_text a.owner) (colon_notMem_text b.owner) hchars
      exact ⟨String.toList_inj.mp hkey, String.toList_inj.mp htext⟩
    · rintro ⟨rfl, htext⟩
      rw [htext]

/-! ## Appending an event of its own -/

namespace Log

/-- The event has a source and, if it has a key, an owner and key that no stored event has. -/
structure Distinct (log : Log) (event : NewEvent) : Prop where
  source : ∀ row ∈ log.events, row.source ≠ event.source
  key : ∀ row ∈ log.events, ∀ key, event.idempotencyKey = some key → row.idempotencyKey = some key →
    row.scope.owner ≠ event.scope.owner

/-- No stored event of the event's kind and sequence reads the same between them, and none with
    its idempotency key has an owner with the id of the event's. -/
structure Apart (log : Log) (event : NewEvent) : Prop where
  source : ∀ row ∈ log.events, ∀ sequence, event.source.sourceSequence = some sequence →
    row.source.sourceSequence = some sequence → row.source.kind = event.source.kind →
    row.source.origin ≠ event.source.origin
  key : ∀ row ∈ log.events, ∀ key, event.idempotencyKey = some key → row.idempotencyKey = some key →
    row.scope.owner.id? ≠ event.scope.owner.id?

/-- Every source has plain parts, and no id is that of two kinds of owner. -/
structure Readable (log : Log) (event : NewEvent) : Prop where
  source : event.source.PlainParts
  sources : ∀ row ∈ log.events, row.source.PlainParts
  ids : ∀ row ∈ log.events, row.scope.owner.id? = event.scope.owner.id? → row.scope.owner = event.scope.owner

theorem Distinct.apart {log : Log} {event : NewEvent} (h : log.Distinct event) (hread : log.Readable event) :
    log.Apart event where
  source row hrow sequence he hr hkind horigin := by
    obtain ⟨hname, hinstance, hhost⟩ := origin_inj (hread.sources row hrow) hread.source horigin
    exact h.source row hrow (EventSource.ext hkind hname hinstance hhost (hr.trans he.symm))
  key row hrow key he hr hid := h.key row hrow key he hr (hread.ids row hrow hid)

/-- The append wrote the event as a row of its own, at a position that no event had. -/
structure Stored (log : Log) (event : NewEvent) (log' : Log) (row : EventRow) : Prop where
  written : log' = log.store event
  returned : row = log.newRow event
  fresh : ∀ old ∈ log.events, old.globalPosition ≠ row.globalPosition

/-- Every row has the keys of its own source, scope and key. -/
def Derived (log : Log) : Prop :=
  ∀ row ∈ log.events, row.sourceDedupeKey = sourceDedupeKey row.source ∧
    row.idempotencyScopeKey = idempotencyScopeKey row.scope row.idempotencyKey

theorem Derived.store {log : Log} (h : Derived log) (event : NewEvent) : Derived (log.store event) := by
  intro row hrow
  rcases List.mem_append.mp hrow with hold | hnew
  · exact h row hold
  · rw [List.mem_singleton.mp hnew]
    exact ⟨rfl, rfl⟩

theorem Derived.write {log log' : Log} {w : Write} (h : Derived log) (hw : write log w = some log') : Derived log' := by
  cases w with
  | append event references =>
    obtain ⟨⟨next, row⟩, hok, rfl⟩ := Option.map_eq_some_iff.mp hw
    obtain rfl | ⟨rfl, -⟩ := append_cases (Steps.toOption_ok hok)
    · exact h
    · exact h.store event
  | createProject id =>
    cases hw
    exact h
  | createJob job =>
    simp only [Events.write] at hw
    split at hw <;> cases hw
    exact h
  | createRun id jobId =>
    simp only [Events.write] at hw
    split at hw <;> cases hw
    exact h

theorem reach_derived {log : Log} (h : Steps.Reach Events.write {} log) : Derived log :=
  h.invariant Derived (fun _ hrow => absurd hrow List.not_mem_nil) fun _ _ _ hd _ hw => hd.write hw

theorem findDuplicate_eq_none {log : Log} (h : Derived log) (event : NewEvent) :
    log.findDuplicate (idempotencyScopeKey event.scope event.idempotencyKey) (sourceDedupeKey event.source) = none ↔
      log.Apart event := by
  unfold findDuplicate
  simp only [List.find?_eq_none, decide_eq_true_eq, not_or, not_and]
  constructor
  · intro hnone
    refine ⟨fun row hrow sequence he hr hkind horigin => ?_, fun row hrow key he hr hid => ?_⟩
    · refine (hnone row hrow).2 (by simp [sourceDedupeKey, he]) ?_
      rw [(h row hrow).1]
      exact (sourceDedupeKey_eq he).mpr ⟨hkind, hr, horigin⟩
    · refine (hnone row hrow).1 (by simp [idempotencyScopeKey, he]) ?_
      rw [(h row hrow).2, he]
      exact idempotencyScopeKey_eq.mpr ⟨hr, hid⟩
  · intro hapart row hrow
    refine ⟨fun hsome hkey => ?_, fun hsome hkey => ?_⟩
    · obtain ⟨key, he⟩ := Option.isSome_iff_exists.mp (show event.idempotencyKey.isSome by simpa [idempotencyScopeKey] using hsome)
      rw [(h row hrow).2, he] at hkey
      obtain ⟨hr, hid⟩ := idempotencyScopeKey_eq.mp hkey
      exact hapart.key row hrow key he hr hid
    · obtain ⟨sequence, he⟩ := Option.isSome_iff_exists.mp (show event.source.sourceSequence.isSome by simpa [sourceDedupeKey] using hsome)
      rw [(h row hrow).1] at hkey
      obtain ⟨hkind, hr, horigin⟩ := (sourceDedupeKey_eq he).mp hkey
      exact hapart.source row hrow sequence he hr hkind horigin

end Log

/-- An append of a new source and key stores its event exactly if neither reads like a stored
    one's, so at the latest when every part is plain; otherwise it returns a stored event. -/
theorem distinct_event_stored_iff {log log' : Log} {event : NewEvent} {references : Bool} {row : EventRow}
    (h : Steps.Reach write {} log) (hdistinct : log.Distinct event)
    (happend : log.append event references = .ok (log', row)) :
    (log.Stored event log' row ↔ log.Apart event) ∧ (¬ log.Apart event → log' = log ∧ row ∈ log.events) ∧
      (log.Readable event → log.Stored event log' row) := by
  have hordered := Log.reach_ordered h
  have hnone := Log.findDuplicate_eq_none (Log.reach_derived h) event
  unfold Log.append at happend
  split at happend
  · cases happend
  split at happend
  · rename_i duplicate hfound
    cases happend
    have hmem : row ∈ log.events := List.mem_of_find?_eq_some hfound
    have hclash : ¬ log.Apart event := fun hapart => by
      rw [hnone.mpr hapart] at hfound
      cases hfound
    refine ⟨⟨fun hstored => ?_, fun hapart => absurd hapart hclash⟩, fun _ => ⟨rfl, hmem⟩, fun hread => ?_⟩
    · exact absurd rfl (hstored.fresh row hmem)
    · exact absurd (hdistinct.apart hread) hclash
  · rename_i hmissing
    split at happend
    · cases happend
    cases happend
    have hapart := hnone.mp hmissing
    have hstored : log.Stored event (log.store event) (log.newRow event) := by
      refine ⟨rfl, rfl, fun old hold => ?_⟩
      have := hordered.position_le hold
      show old.globalPosition ≠ log.lastPosition + 1
      omega
    exact ⟨⟨fun _ => hapart, fun _ => hstored⟩, fun hclash => absurd hapart hclash, fun _ => hstored⟩

/-- The log after the first event of runner `runner`, instance `eu:1`. -/
def runnerLog : Log :=
  ({} : Log).store { source := { kind := "worker", name := "runner", instanceId := some "eu:1", sourceSequence := some 7 } }

theorem runnerLog_reach : Steps.Reach write {} runnerLog :=
  Steps.run_reach [.append { source := { kind := "worker", name := "runner", instanceId := some "eu:1", sourceSequence := some 7 } } true]
    (by decide)

/-- The next event of that runner is stored. -/
theorem distinct_event_stored_iff_next : ∃ event log' row, runnerLog.append event true = .ok (log', row) ∧
    runnerLog.Stored event log' row := by
  let event : NewEvent :=
    { source := { kind := "worker", name := "runner", instanceId := some "eu:1", sourceSequence := some 8 } }
  have hdistinct : runnerLog.Distinct event := ⟨by decide, fun _ _ _ hkey => nomatch hkey⟩
  have happend : runnerLog.append event true = .ok (runnerLog.store event, runnerLog.newRow event) := rfl
  refine ⟨event, _, _, happend, (distinct_event_stored_iff runnerLog_reach hdistinct happend).1.mpr ?_⟩
  refine ⟨fun row hrow sequence he hr => ?_, fun _ _ _ hkey => nomatch hkey⟩
  obtain rfl := List.mem_singleton.mp hrow
  cases he
  cases hr

/-- A runner whose name ends, and whose instance begins, one colon later has the first one's key. -/
theorem distinct_event_dropped : ∃ log event log' row, Steps.Reach write {} log ∧ log.Distinct event ∧
    log.append event true = .ok (log', row) ∧ row ∈ log.events ∧ ¬ log.Stored event log' row := by
  let event : NewEvent :=
    { source := { kind := "worker", name := "runner:eu", instanceId := some "1", sourceSequence := some 7 } }
  have hdistinct : runnerLog.Distinct event := ⟨by decide, fun _ _ _ hkey => nomatch hkey⟩
  have hmem : runnerLog.events.head (by decide) ∈ runnerLog.events := List.head_mem _
  exact ⟨runnerLog, event, runnerLog, _, runnerLog_reach, hdistinct, by decide, hmem,
    fun hstored => hstored.fresh _ hmem rfl⟩

end Jarvis.Events
