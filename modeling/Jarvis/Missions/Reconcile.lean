/-
  Jarvis.Missions.Reconcile — what one pass of `reconcile_items` does to work items.

  The pass runs four loops over rows it has read before; with distinct identities each item
  is written by at most one of the first three. `reconcileItems_item?` says what becomes of
  each item: it is settled by its run, made ready, or keeps everything but its event cursor.
-/
import Jarvis.Missions.Identities

namespace Jarvis.Missions

open Jarvis.Runtime (RunStatus DesiredState Mode)

/-! ## The stages of a pass -/

/-- The started items whose runs have ended. -/
def endedRuns (db : Db) : List (WorkItemRow × RunRow) := (startedRuns db).filter fun (_, run) => run.terminal

/-- After the first loop. -/
def awaited (db : Db) (now : Nat) : Db := ((startedRuns db).filter fun (_, run) => !run.terminal).foldl (awaitApproval now) db

/-- After the second loop. -/
def settledItems (db : Db) (now : Nat) : Db := (endedRuns db).foldl (settleItem now) (awaited db now)

def pendingItems (db : Db) : List WorkItemRow := db.items.filter (·.lifecycle = .pending)

/-- After the third loop. -/
def readied (db : Db) (now : Nat) : Db := (pendingItems (settledItems db now)).foldl readyItem (settledItems db now)

/-- The items the last loop announces. -/
def announced (db : Db) (now : Nat) : List Nat :=
  (endedRuns db).map (·.1.id) ++
    ((pendingItems (settledItems db now)).filter fun item => !dependsOnIncomplete (settledItems db now) item.id).map (·.id)

theorem awaited_writes (db : Db) (now : Nat) : Writes [.missions] db (awaited db now) :=
  Writes.foldl (awaitApproval_writes now) _ _

theorem reconcileItems_eq (db : Db) (now : Nat) :
    reconcileItems db now = (announced db now).foldl (announce now) (readied db now) := by
  have hended : startedRuns (awaited db now) = startedRuns db :=
    startedRuns_congr (awaited_writes db now .items (by decide)) (awaited_writes db now .runs (by decide))
  show (let ended := (startedRuns (awaited db now)).filter fun (_, run) => run.terminal
    let settled := ended.foldl (settleItem now) (awaited db now)
    (ended.map (·.1.id) ++
      ((pendingItems settled).filter fun item => !dependsOnIncomplete settled item.id).map (·.id)).foldl (announce now)
      ((pendingItems settled).foldl readyItem settled)) = _
  rw [hended]
  rfl

/-! ## Items -/

section Items

variable {db : Db} {now : Nat}

theorem endedRuns_nodup (hk : db.keys.Distinct) : ((endedRuns db).map (·.1.id)).Nodup := by
  have hsub : ((endedRuns db).map (·.1)).Sublist db.items :=
    (List.filter_sublist.map _).trans (startedRuns_sublist db)
  have hids : (((endedRuns db).map (·.1)).map fun item : WorkItemRow => item.id).Nodup :=
    List.Nodup.sublist (hsub.map _) hk.items.nodup
  rw [List.map_map] at hids
  exact hids

theorem mem_endedRuns {item : WorkItemRow} {run : RunRow} :
    (item, run) ∈ endedRuns db ↔
      item ∈ db.items ∧ item.lifecycle = .started ∧ itemRun db item = some run ∧ run.terminal = true := by
  unfold endedRuns
  rw [List.mem_filter, mem_startedRuns]
  simp only [and_assoc]

theorem item?_of_mem (hk : db.keys.Distinct) {item : WorkItemRow} (h : item ∈ db.items) : db.item? item.id = some item :=
  (find?_key hk.items.nodup).mpr ⟨h, rfl⟩

/-- An item its run settles. -/
def WorkItemRow.settledBy (item : WorkItemRow) (run : RunRow) : WorkItemRow :=
  { item with lifecycle := settledLifecycle run.status, version := item.version + 1 }

/-- An item whose dependencies are accepted. -/
def WorkItemRow.readied (item : WorkItemRow) : WorkItemRow := { item with lifecycle := .ready, version := item.version + 1 }

theorem settleItem_items (now : Nat) (db : Db) (ended : WorkItemRow × RunRow) :
    (settleItem now db ended).items = (db.writeItem (ended.1.settledBy ended.2)).items := by
  unfold settleItem
  dsimp only
  repeat' split
  all_goals rfl

/-- The second loop writes the items of the runs that have ended. -/
theorem settle_fold (now : Nat) : ∀ (pairs : List (WorkItemRow × RunRow)) (db : Db), (pairs.map (·.1.id)).Nodup →
    ∀ id, (∀ pair ∈ pairs, pair.1.id = id → db.item? id = some pair.1 →
        (pairs.foldl (settleItem now) db).item? id = some (pair.1.settledBy pair.2)) ∧
      ((∀ pair ∈ pairs, pair.1.id ≠ id) → (pairs.foldl (settleItem now) db).item? id = db.item? id) := by
  intro pairs
  induction pairs with
  | nil => intro db _ id; exact ⟨fun _ h => absurd h List.not_mem_nil, fun _ => rfl⟩
  | cons head pairs ih =>
    intro db hnodup id
    rw [List.map_cons, List.nodup_cons] at hnodup
    obtain ⟨hhead, htail⟩ := hnodup
    obtain ⟨hin, hout⟩ := ih (settleItem now db head) htail id
    have hitem : ∀ j, (settleItem now db head).item? j = (db.writeItem (head.1.settledBy head.2)).item? j := by
      intro j
      unfold Db.item?
      rw [settleItem_items]
    rw [List.foldl_cons]
    refine ⟨fun pair hpair hid hrow => ?_, fun hother => ?_⟩
    · obtain rfl | hpair := List.mem_cons.mp hpair
      · rw [hout fun p hp hpid => hhead (List.mem_map.mpr ⟨p, hp, hpid.trans hid.symm⟩), hitem, ← hid]
        exact Db.item?_writeItem_self (pair.1.settledBy pair.2) (hid ▸ hrow)
      · refine hin pair hpair hid ?_
        rw [hitem, Db.item?_writeItem_of_ne, hrow]
        rintro rfl
        exact hhead (List.mem_map.mpr ⟨pair, hpair, hid⟩)
    · rw [hout fun p hp => hother p (List.mem_cons_of_mem _ hp), hitem]
      exact Db.item?_writeItem_of_ne fun heq => hother head List.mem_cons_self heq.symm

/-- Dependencies see of an item only whether it is accepted. -/
theorem dependsOnIncomplete_writeItem (hk : db.keys.Distinct) (item : WorkItemRow) {old : WorkItemRow} (hold : db.item? item.id = some old)
    (hsame : item.lifecycle = .accepted ↔ old.lifecycle = .accepted) (id : Nat) :
    dependsOnIncomplete (db.writeItem item) id = dependsOnIncomplete db id := by
  unfold dependsOnIncomplete
  show (db.dependencies.any fun dependency => _) = _
  congr 1
  funext dependency
  congr 2
  rw [eq_iff_iff]
  show (db.items.map _).any _ = true ↔ _
  rw [List.any_map]
  simp only [List.any_eq_true, Function.comp, decide_eq_true_eq]
  refine exists_congr fun row => and_congr_right fun hrow => ?_
  split
  · rename_i hid
    have hrow' : row = old := by
      have := item?_of_mem hk hrow
      rw [hid, hold] at this
      exact (Option.some.inj this).symm
    subst hrow'
    simp [hid, hsame]
  · exact Iff.rfl

theorem readyItem_incomplete (hk : db.keys.Distinct) {item : WorkItemRow} (hrow : db.item? item.id = some item)
    (hpending : item.lifecycle = .pending) (id : Nat) :
    dependsOnIncomplete (readyItem db item) id = dependsOnIncomplete db id := by
  unfold readyItem
  split
  · rfl
  · refine dependsOnIncomplete_writeItem hk item.readied hrow ⟨nofun, fun h => ?_⟩ id
    rw [hpending] at h
    cases h

theorem readyItem_keys (db : Db) (item : WorkItemRow) : (readyItem db item).keys = db.keys := by
  unfold readyItem
  split
  · rfl
  · exact keys_writeItem db _

/-- The third loop makes the pending items ready that wait for nothing. -/
theorem ready_fold : ∀ (items : List WorkItemRow) (db : Db), db.keys.Distinct → (items.map (·.id)).Nodup →
    (∀ item ∈ items, db.item? item.id = some item ∧ item.lifecycle = .pending) →
    ∀ id, (∀ item ∈ items, item.id = id → (items.foldl readyItem db).item? id =
        some (if dependsOnIncomplete db id then item else item.readied)) ∧
      ((∀ item ∈ items, item.id ≠ id) → (items.foldl readyItem db).item? id = db.item? id) ∧
      dependsOnIncomplete (items.foldl readyItem db) id = dependsOnIncomplete db id := by
  intro items
  induction items with
  | nil => intro db _ _ _ id; exact ⟨fun _ h => absurd h List.not_mem_nil, fun _ => rfl, rfl⟩
  | cons head items ih =>
    intro db hk hnodup hrows id
    rw [List.map_cons, List.nodup_cons] at hnodup
    obtain ⟨hhead, htail⟩ := hnodup
    obtain ⟨hrow, hpending⟩ := hrows head List.mem_cons_self
    have hself : (readyItem db head).item? head.id = some (if dependsOnIncomplete db head.id then head else head.readied) := by
      unfold readyItem
      split
      · exact hrow
      · exact Db.item?_writeItem_self head.readied hrow
    have hother : ∀ j, j ≠ head.id → (readyItem db head).item? j = db.item? j := by
      intro j hj
      unfold readyItem
      split
      · rfl
      · exact Db.item?_writeItem_of_ne hj
    have hrows' : ∀ item ∈ items, (readyItem db head).item? item.id = some item ∧ item.lifecycle = .pending := by
      intro item hitem
      rw [hother _ fun heq => hhead (List.mem_map.mpr ⟨item, hitem, heq⟩)]
      exact hrows item (List.mem_cons_of_mem _ hitem)
    obtain ⟨hin, hout, hincomplete⟩ := ih (readyItem db head) ((readyItem_keys db head).symm ▸ hk) htail hrows' id
    rw [readyItem_incomplete hk hrow hpending] at hin hincomplete
    rw [List.foldl_cons]
    refine ⟨fun item hitem hid => ?_, fun hne => ?_, hincomplete⟩
    · obtain rfl | hitem := List.mem_cons.mp hitem
      · rw [hout fun other hmem heq => hhead (List.mem_map.mpr ⟨other, hmem, heq.trans hid.symm⟩), ← hid]
        exact hself
      · exact hin item hitem hid
    · rw [hout fun item hitem => hne item (List.mem_cons_of_mem _ hitem)]
      exact hother id fun heq => hne head List.mem_cons_self heq.symm

/-- An item that has been settled. -/
def WorkItemLifecycle.settled (lifecycle : WorkItemLifecycle) : Prop :=
  lifecycle = .accepted ∨ lifecycle = .blocked ∨ lifecycle = .cancelled

/-- The last loop writes nothing of an item but its event cursor. -/
theorem announce_items (now : Nat) (db : Db) (itemId : Nat) :
    (announce now db itemId).items = db.items ∨
      ∃ item cursor, db.item? itemId = some item ∧ item.lifecycle.settled ∧
        (announce now db itemId).items = (db.writeItem { item with acceptedEventCursor := cursor }).items := by
  unfold announce
  split
  · exact .inl rfl
  · rename_i item hitem
    dsimp only
    split
    · rename_i hsettled
      refine .inr ⟨item, some db.emit.lastPosition, hitem, hsettled, ?_⟩
      split
      · rfl
      · split
        · rfl
        · split
          · exact wakeMission_writes _ _ _ _ _ .items (by decide)
          · rfl
    · exact .inl rfl

theorem announce_item? (now : Nat) (db : Db) (itemId id : Nat) :
    ∃ cursor : Option (Option Nat), (announce now db itemId).item? id =
      (db.item? id).map fun item => { item with acceptedEventCursor := cursor.getD item.acceptedEventCursor } := by
  have hsame : (db.item? id) = (db.item? id).map fun item =>
      { item with acceptedEventCursor := (none : Option (Option Nat)).getD item.acceptedEventCursor } := by
    cases db.item? id <;> rfl
  obtain hitems | ⟨item, cursor, hitem, -, hitems⟩ := announce_items now db itemId
  · refine ⟨none, ?_⟩
    rw [← hsame]
    unfold Db.item?
    rw [hitems]
  · have hfind : (announce now db itemId).item? id = (db.writeItem { item with acceptedEventCursor := cursor }).item? id := by
      unfold Db.item?
      rw [hitems]
    obtain ⟨-, hid⟩ := Db.item?_eq_some hitem
    by_cases heq : id = itemId
    · refine ⟨some cursor, ?_⟩
      rw [hfind, heq, hitem, ← hid]
      exact Db.item?_writeItem_self { item with acceptedEventCursor := cursor } (hid ▸ hitem)
    · refine ⟨none, ?_⟩
      rw [hfind, ← hsame]
      exact Db.item?_writeItem_of_ne fun h => heq (h.trans hid)

theorem announce_fold (now : Nat) : ∀ (ids : List Nat) (db : Db) (id : Nat), ∃ cursor : Option (Option Nat),
    (ids.foldl (announce now) db).item? id =
      (db.item? id).map fun item => { item with acceptedEventCursor := cursor.getD item.acceptedEventCursor } := by
  intro ids
  induction ids with
  | nil =>
    intro db id
    refine ⟨none, ?_⟩
    show db.item? id = _
    cases db.item? id <;> rfl
  | cons head ids ih =>
    intro db id
    obtain ⟨later, hlater⟩ := ih (announce now db head) id
    obtain ⟨here, hhere⟩ := announce_item? now db head id
    refine ⟨later.or here, ?_⟩
    rw [List.foldl_cons, hlater, hhere]
    cases db.item? id with
    | none => rfl
    | some item => cases later <;> cases here <;> rfl

theorem announce_incomplete (hk : db.keys.Distinct) (now itemId id : Nat) :
    dependsOnIncomplete (announce now db itemId) id = dependsOnIncomplete db id := by
  have hdeps : (announce now db itemId).dependencies = db.dependencies := announce_writes now db itemId .dependencies (by decide)
  obtain hitems | ⟨item, cursor, hitem, -, hitems⟩ := announce_items now db itemId
  · unfold dependsOnIncomplete
    rw [hdeps, hitems]
  · have hrow : db.item? item.id = some item := item?_of_mem hk (Db.item?_eq_some hitem).1
    rw [← dependsOnIncomplete_writeItem hk { item with acceptedEventCursor := cursor } hrow Iff.rfl id]
    unfold dependsOnIncomplete
    rw [hdeps, hitems]
    rfl

theorem announce_fold_incomplete (now : Nat) : ∀ (ids : List Nat) (db : Db), db.keys.Distinct → ∀ id,
    dependsOnIncomplete (ids.foldl (announce now) db) id = dependsOnIncomplete db id := by
  intro ids
  induction ids with
  | nil => intro db _ id; rfl
  | cons head ids ih =>
    intro db hk id
    rw [List.foldl_cons, ih _ (announce_distinct now db head hk), announce_incomplete hk]

theorem settledItems_keys (db : Db) (now : Nat) : (settledItems db now).keys = db.keys := by
  have hfold : ∀ {β : Type} {g : Db → β → Db}, (∀ db x, (g db x).keys = db.keys) → ∀ (xs : List β) (db : Db),
      (xs.foldl g db).keys = db.keys := by
    intro β g hg xs
    induction xs with
    | nil => intro db; rfl
    | cons x xs ih => intro db; rw [List.foldl_cons, ih, hg]
  unfold settledItems awaited
  rw [hfold, hfold]
  · intro db active
    unfold awaitApproval
    repeat' split
    · rfl
    · exact keys_writeMission _ _ _
    · exact keys_writeMission _ _ _
    · rfl
  · intro db ended
    unfold settleItem
    dsimp only
    repeat' split
    all_goals exact keys_writeItem db _

theorem settledLifecycle_settled (status : RunStatus) : (settledLifecycle status).settled := by
  unfold WorkItemLifecycle.settled
  cases status <;> decide

/-! ## The stages, item by item -/

theorem settledItems_ended (hk : db.keys.Distinct) (now : Nat) {item : WorkItemRow} {run : RunRow}
    (h : (item, run) ∈ endedRuns db) : (settledItems db now).item? item.id = some (item.settledBy run) := by
  refine (settle_fold now (endedRuns db) (awaited db now) (endedRuns_nodup hk) item.id).1 _ h rfl ?_
  unfold Db.item?
  rw [awaited_writes db now .items (by decide)]
  exact item?_of_mem hk (mem_endedRuns.mp h).1

theorem settledItems_other (hk : db.keys.Distinct) (now : Nat) {item : WorkItemRow} (hitem : item ∈ db.items)
    (h : ∀ run, (item, run) ∉ endedRuns db) : (settledItems db now).item? item.id = some item := by
  have hout := (settle_fold now (endedRuns db) (awaited db now) (endedRuns_nodup hk) item.id).2
  have hawaited : (awaited db now).item? item.id = some item := by
    unfold Db.item?
    rw [awaited_writes db now .items (by decide)]
    exact item?_of_mem hk hitem
  refine (hout fun pair hpair hid => ?_).trans hawaited
  obtain ⟨other, run⟩ := pair
  cases Keyed.unique hk.items.nodup (mem_endedRuns.mp hpair).1 hitem hid
  exact h run hpair

theorem settledItems_distinct (hk : db.keys.Distinct) (now : Nat) : (settledItems db now).keys.Distinct :=
  (settledItems_keys db now).symm ▸ hk

/-- The third loop, from the items that the second leaves. -/
theorem readied_fold (hk : db.keys.Distinct) (now id : Nat) :
    (∀ item ∈ pendingItems (settledItems db now), item.id = id → (readied db now).item? id =
        some (if dependsOnIncomplete (settledItems db now) id then item else item.readied)) ∧
      ((∀ item ∈ pendingItems (settledItems db now), item.id ≠ id) →
        (readied db now).item? id = (settledItems db now).item? id) ∧
      dependsOnIncomplete (readied db now) id = dependsOnIncomplete (settledItems db now) id := by
  have hks := settledItems_distinct hk now
  refine ready_fold _ _ hks (Keyed.nodup_filter hks.items.nodup _) (fun row hrow => ?_) id
  obtain ⟨hmem, hpend⟩ := List.mem_filter.mp hrow
  exact ⟨item?_of_mem hks hmem, of_decide_eq_true hpend⟩

theorem readied_pending (hk : db.keys.Distinct) (now : Nat) {item : WorkItemRow}
    (hitem : (settledItems db now).item? item.id = some item) (hpend : item.lifecycle = .pending) :
    (readied db now).item? item.id =
      some (if dependsOnIncomplete (settledItems db now) item.id then item else item.readied) :=
  (readied_fold hk now item.id).1 item
    (List.mem_filter.mpr ⟨(Db.item?_eq_some hitem).1, decide_eq_true hpend⟩) rfl

theorem readied_other (hk : db.keys.Distinct) (now : Nat) {id : Nat} {item : WorkItemRow}
    (hitem : (settledItems db now).item? id = some item) (hpend : item.lifecycle ≠ .pending) :
    (readied db now).item? id = some item := by
  refine ((readied_fold hk now id).2.1 fun other hother hid => ?_).trans hitem
  obtain ⟨hmem, hlife⟩ := List.mem_filter.mp hother
  have hfind := item?_of_mem (settledItems_distinct hk now) hmem
  rw [hid, hitem] at hfind
  cases hfind
  exact hpend (of_decide_eq_true hlife)

theorem readied_ended (hk : db.keys.Distinct) (now : Nat) {item : WorkItemRow} {run : RunRow}
    (h : (item, run) ∈ endedRuns db) : (readied db now).item? item.id = some (item.settledBy run) := by
  refine readied_other hk now (settledItems_ended hk now h) ?_
  show settledLifecycle run.status ≠ .pending
  cases run.status <;> decide

theorem readied_distinct (hk : db.keys.Distinct) (now : Nat) : (readied db now).keys.Distinct :=
  foldl_distinct (fun db item h => (readyItem_keys db item).symm ▸ h) _ (settledItems_distinct hk now)

/-- Of the items announced, only those of ended runs are settled. -/
theorem announced_settled (hk : db.keys.Distinct) {now id : Nat} {row : WorkItemRow} (hid : id ∈ announced db now)
    (hrow : (readied db now).item? id = some row) (hsettled : row.lifecycle.settled) :
    ∃ item run, (item, run) ∈ endedRuns db ∧ row = item.settledBy run := by
  obtain hid | hid := List.mem_append.mp hid
  · obtain ⟨⟨item, run⟩, hpair, rfl⟩ := List.mem_map.mp hid
    rw [readied_ended hk now hpair] at hrow
    exact ⟨item, run, hpair, (Option.some.inj hrow).symm⟩
  · obtain ⟨item, hitem, rfl⟩ := List.mem_map.mp hid
    obtain ⟨hpend, -⟩ := List.mem_filter.mp hitem
    rw [(readied_fold hk now item.id).1 item hpend rfl] at hrow
    have hlife : item.lifecycle = .pending := of_decide_eq_true (List.mem_filter.mp hpend).2
    cases hrow
    unfold WorkItemLifecycle.settled at hsettled
    split at hsettled
    · simp [hlife] at hsettled
    · simp [WorkItemRow.readied] at hsettled

/-! ## A whole pass -/

/-- What a pass makes of an item, its event cursor apart. -/
inductive Passed (db after : Db) (item : WorkItemRow) : WorkItemRow → Prop
  /-- Its run has ended. -/
  | settled (run : RunRow) : item.lifecycle = .started → itemRun db item = some run → run.terminal = true →
      Passed db after item (item.settledBy run)
  | readied : item.lifecycle = .pending → Passed db after item item.readied
  /-- A started item's run goes on, and a pending item waits for another one. -/
  | kept : (item.lifecycle = .started → ∀ run, itemRun db item = some run → run.terminal = false) →
      (item.lifecycle = .pending → dependsOnIncomplete after item.id = true) → Passed db after item item

/-- What an item still waits for is known once the runs' items are settled. -/
theorem reconcileItems_incomplete (hk : db.keys.Distinct) (now id : Nat) :
    dependsOnIncomplete (reconcileItems db now) id = dependsOnIncomplete (settledItems db now) id := by
  rw [reconcileItems_eq, announce_fold_incomplete now _ _ (readied_distinct hk now)]
  exact (readied_fold hk now id).2.2

/-- A pass settles the items of runs that have ended, makes pending items ready that wait for
    nothing, and leaves the others. -/
theorem reconcileItems_item? (hk : db.keys.Distinct) (now : Nat) {item : WorkItemRow} (hitem : item ∈ db.items) :
    ∃ row cursor, Passed db (reconcileItems db now) item row ∧
      (reconcileItems db now).item? item.id = some { row with acceptedEventCursor := cursor } := by
  obtain ⟨cursor, hcursor⟩ := announce_fold now (announced db now) (readied db now) item.id
  rw [← reconcileItems_eq] at hcursor
  by_cases hended : ∃ run, (item, run) ∈ endedRuns db
  · obtain ⟨run, hrun⟩ := hended
    obtain ⟨-, hstarted, hitemRun, hterminal⟩ := mem_endedRuns.mp hrun
    rw [readied_ended hk now hrun] at hcursor
    exact ⟨_, _, .settled run hstarted hitemRun hterminal, hcursor⟩
  · have hrow := settledItems_other hk now hitem fun run hrun => hended ⟨run, hrun⟩
    have hgoes : item.lifecycle = .started → ∀ run, itemRun db item = some run → run.terminal = false := by
      intro hstarted run hrun
      refine Bool.eq_false_of_not_eq_true fun hterminal => ?_
      exact hended ⟨run, mem_endedRuns.mpr ⟨hitem, hstarted, hrun, hterminal⟩⟩
    by_cases hpend : item.lifecycle = .pending
    · rw [readied_pending hk now hrow hpend] at hcursor
      split at hcursor
      · rename_i hdep
        exact ⟨_, _, .kept hgoes fun _ => (reconcileItems_incomplete hk now item.id).trans hdep, hcursor⟩
      · exact ⟨_, _, .readied hpend, hcursor⟩
    · rw [readied_other hk now hrow hpend] at hcursor
      exact ⟨_, _, .kept hgoes fun h => absurd h hpend, hcursor⟩

/-- A pass makes no items. -/
theorem reconcileItems_item?_none (hk : db.keys.Distinct) (now : Nat) {id : Nat} (h : db.item? id = none) :
    (reconcileItems db now).item? id = none := by
  have hne : ∀ item ∈ db.items, item.id ≠ id := by
    intro item hitem hid
    exact List.find?_eq_none.mp h item hitem (decide_eq_true hid)
  have hsettled : (settledItems db now).item? id = none := by
    refine ((settle_fold now _ _ (endedRuns_nodup hk) id).2 fun pair hpair => ?_).trans ?_
    · exact hne pair.1 (mem_endedRuns.mp hpair).1
    · unfold Db.item?
      rw [awaited_writes db now .items (by decide)]
      exact h
  have hreadied : (readied db now).item? id = none := by
    refine ((readied_fold hk now id).2.1 fun item hitem hid => ?_).trans hsettled
    exact List.find?_eq_none.mp hsettled item (List.mem_filter.mp hitem).1 (decide_eq_true hid)
  obtain ⟨cursor, hcursor⟩ := announce_fold now (announced db now) (readied db now) id
  rw [reconcileItems_eq, hcursor, hreadied]
  rfl

end Items

end Jarvis.Missions
