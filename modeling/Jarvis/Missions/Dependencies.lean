/-
  Jarvis.Missions.Dependencies — the dependencies between the work items of a mission.

  A decision is checked on its own, and its items are merged into those of earlier decisions.
  The items it names lose the dependencies they had (`applyItems_spec`), and the new ones lead
  only from these items to these items. So an applied decision replaces the edges of a set of
  vertices that none of its edges leaves, and the graph stays acyclic over any number of
  decisions (`dependencies_acyclic`).
-/
import Jarvis.Lib.Acyclic
import Jarvis.Missions.Starts
import Jarvis.Missions.Turns

namespace Jarvis.Missions

open Jarvis.Steps

/-! ## What the contract checks -/

theorem visit_eq (items : List WorkItemProposal) (fuel : Nat) : visit items fuel = Acyclic.search (dependenciesOf items) fuel := by
  induction fuel with
  | zero => rfl
  | succ fuel ih =>
    funext visiting visited key
    rw [visit, Acyclic.search, ih]

/-- No key of an accepted decision depends on itself. -/
theorem ManagerDecision.keys_acyclic (decision : ManagerDecision) {key : String} (hkey : key ∈ decision.workItems.map (·.key)) :
    ¬ Relation.TransGen (fun a b => b ∈ dependenciesOf decision.workItems a) key key := by
  obtain ⟨visited, hvisited⟩ := Option.isSome_iff_exists.mp decision.acyclic
  rw [visit_eq] at hvisited
  obtain ⟨hordered, hkeys, -⟩ := Acyclic.foldlM_ordered (Acyclic.search_ordered _ _) _ _ _ hvisited trivial
  exact hordered.no_cycle (hkeys hkey)

/-- The dependencies of a key are those of its proposal. -/
theorem ManagerDecision.dependenciesOf_eq (decision : ManagerDecision) {proposal : WorkItemProposal}
    (h : proposal ∈ decision.workItems) : dependenciesOf decision.workItems proposal.key = proposal.dependencies := by
  unfold dependenciesOf
  cases hfind : decision.workItems.find? (·.key = proposal.key) with
  | none => exact absurd (List.find?_eq_none.mp hfind proposal h) (by simp)
  | some found =>
    have hkey : found.key = proposal.key := by simpa using List.find?_some hfind
    rw [Keyed.unique decision.keys_nodup (List.mem_of_find?_eq_some hfind) h hkey]
    rfl

/-! ## The items of a decision -/

/-- The mission's item of that key. -/
def Db.itemOf? (db : Db) (missionId : Nat) (key : String) : Option WorkItemRow :=
  db.items.find? fun item => item.missionId = missionId ∧ item.key = key

/-- The key of an item. -/
def Db.keyOf (db : Db) (id : Nat) : String := ((db.item? id).map (·.key)).getD ""

/-- The row `a` depends on the row `b`. -/
def Db.dependsOn (db : Db) (a b : Nat) : Prop := (⟨a, b⟩ : DependencyRow) ∈ db.dependencies

/-- Both ends of every dependency are items of one mission. -/
def DependenciesNamed (db : Db) : Prop :=
  ∀ row ∈ db.dependencies, ∃ item other, db.item? row.workItemId = some item ∧ db.item? row.dependsOnWorkItemId = some other ∧
    item.missionId = other.missionId

/-- How a decision leaves an item that it names. -/
def proposedLifecycle (proposal : WorkItemProposal) : WorkItemLifecycle :=
  if proposal.dependencies = [] then .ready else .pending

variable {db db' : Db}

theorem Db.itemOf?_eq_some {missionId : Nat} {key : String} {item : WorkItemRow} (h : db.itemOf? missionId key = some item) :
    item ∈ db.items ∧ item.missionId = missionId ∧ item.key = key := by
  have hfound := List.find?_some h
  simp only [decide_eq_true_eq] at hfound
  exact ⟨List.mem_of_find?_eq_some h, hfound⟩

/-- What the items of a decision, applied one after another, have done. -/
structure Merged (missionId : Nat) (proposals : List WorkItemProposal) (db db' : Db) : Prop where
  found : ∀ proposal ∈ proposals, ∃ item, db'.itemOf? missionId proposal.key = some item ∧
    item.lifecycle = proposedLifecycle proposal
  /-- The items that are named have lost their dependencies. -/
  dependencies : ∀ row ∈ db'.dependencies, row ∈ db.dependencies ∧
    ∀ proposal ∈ proposals, ∀ item, db'.itemOf? missionId proposal.key = some item → row.workItemId ≠ item.id
  kept : ∀ row ∈ db.dependencies, row ∈ db'.dependencies ∨
    ∃ proposal ∈ proposals, ∃ item, db'.itemOf? missionId proposal.key = some item ∧ row.workItemId = item.id
  /-- They were not started. -/
  unstarted : ∀ proposal ∈ proposals, ∀ item, db'.itemOf? missionId proposal.key = some item →
    ∀ old, db.item? item.id = some old → old.lifecycle.unstarted
  others : ∀ id, (∀ proposal ∈ proposals, ∀ item, db'.itemOf? missionId proposal.key = some item → item.id ≠ id) →
    db'.item? id = db.item? id
  otherKeys : ∀ key, key ∉ proposals.map (·.key) → db'.itemOf? missionId key = db.itemOf? missionId key

theorem Merged.nil (missionId : Nat) (db : Db) : Merged missionId [] db db where
  found := fun _ h => absurd h List.not_mem_nil
  dependencies := fun _ hrow => ⟨hrow, fun _ h => absurd h List.not_mem_nil⟩
  kept := fun _ hrow => .inl hrow
  unstarted := fun _ h => absurd h List.not_mem_nil
  others := fun _ _ => rfl
  otherKeys := fun _ _ => rfl

/-- One item, and then the others. -/
theorem Merged.cons {missionId : Nat} {proposal : WorkItemProposal} {proposals : List WorkItemProposal} {next : Db}
    (hfirst : Merged missionId [proposal] db next) (hrest : Merged missionId proposals next db')
    (hkey : proposal.key ∉ proposals.map (·.key)) : Merged missionId (proposal :: proposals) db db' := by
  have hsame := hrest.otherKeys proposal.key hkey
  refine ⟨fun p hp => ?_, fun row hrow => ?_, fun row hrow => ?_, fun p hp item hitem old hold => ?_, fun id hid => ?_,
    fun key hkey => ?_⟩
  · rcases List.mem_cons.mp hp with rfl | hp
    · rw [hsame]
      exact hfirst.found p List.mem_cons_self
    · exact hrest.found p hp
  · obtain ⟨hnext, hnamed⟩ := hrest.dependencies row hrow
    obtain ⟨hrow, hfree⟩ := hfirst.dependencies row hnext
    refine ⟨hrow, fun p hp item hitem => ?_⟩
    rcases List.mem_cons.mp hp with rfl | hp
    · exact hfree p List.mem_cons_self item (hsame.symm.trans hitem)
    · exact hnamed p hp item hitem
  · rcases hfirst.kept row hrow with hnext | ⟨p, hp, item, hitem, hid⟩
    · refine (hrest.kept row hnext).imp id fun ⟨p, hp, hitem⟩ => ⟨p, List.mem_cons_of_mem _ hp, hitem⟩
    · obtain rfl := List.mem_singleton.mp hp
      exact .inr ⟨p, List.mem_cons_self, item, hsame.trans hitem, hid⟩
  · rcases List.mem_cons.mp hp with rfl | hp
    · exact hfirst.unstarted p List.mem_cons_self item (hsame.symm.trans hitem) old hold
    · obtain ⟨first, hfound, -⟩ := hfirst.found proposal List.mem_cons_self
      by_cases hid : first.id = item.id
      · exact hfirst.unstarted proposal List.mem_cons_self first hfound old (hid ▸ hold)
      · refine hrest.unstarted p hp item hitem old ?_
        rw [hfirst.others item.id fun q hq other hother heq => hid ?_]
        · exact hold
        · rw [List.mem_singleton.mp hq, hfound] at hother
          rw [Option.some.inj hother]
          exact heq
  · rw [hrest.others id fun p hp => hid p (List.mem_cons_of_mem _ hp)]
    refine hfirst.others id fun p hp item hitem => ?_
    obtain rfl := List.mem_singleton.mp hp
    exact hid p List.mem_cons_self item (hsame.trans hitem)
  · rw [List.map_cons, List.mem_cons, not_or] at hkey
    rw [hrest.otherKeys key hkey.2]
    exact hfirst.otherKeys key (by simpa using hkey.1)

/-- A new item of a decision. -/
theorem create_merged (hk : db.keys.Distinct) (hnamed : DependenciesNamed db) {missionId : Nat} {proposal : WorkItemProposal}
    {row : WorkItemRow} (hid : row.id = db.nextId) (hmission : row.missionId = missionId) (hkey : row.key = proposal.key)
    (hlife : row.lifecycle = proposedLifecycle proposal) (hnone : db.itemOf? missionId proposal.key = none)
    (hitems : db'.items = db.items ++ [row]) (hdeps : db'.dependencies = db.dependencies) :
    Merged missionId [proposal] db db' := by
  have hfresh : ∀ id item, db.item? id = some item → id ≠ row.id := by
    intro id item hitem heq
    obtain ⟨hmem, hof⟩ := Db.item?_eq_some hitem
    have hused : db.nextId ∈ db.keys.items := List.mem_map.mpr ⟨item, hmem, hof.trans (heq.trans hid)⟩
    exact hk.items.unused (Nat.le_refl _) hused
  have hfound : db'.itemOf? missionId proposal.key = some row := by
    unfold Db.itemOf? at hnone ⊢
    rw [hitems, List.find?_append, hnone, List.find?_cons, decide_eq_true ⟨hmission, hkey⟩]
    rfl
  have hone : ∀ p ∈ [proposal], ∀ item, db'.itemOf? missionId p.key = some item → item = row := by
    intro p hp item hitem
    obtain rfl := List.mem_singleton.mp hp
    exact Option.some.inj (hitem.symm.trans hfound)
  refine ⟨fun p hp => ?_, fun dep hdep => ?_, fun dep hdep => .inl (hdeps ▸ hdep), fun p hp item hitem old hold => ?_,
    fun id hother => ?_, fun key hother => ?_⟩
  · obtain rfl := List.mem_singleton.mp hp
    exact ⟨row, hfound, hlife⟩
  · rw [hdeps] at hdep
    refine ⟨hdep, fun p hp item hitem => ?_⟩
    obtain ⟨old, -, hold, -⟩ := hnamed dep hdep
    rw [hone p hp item hitem]
    exact hfresh _ old hold
  · rw [hone p hp item hitem] at hold
    exact absurd rfl (hfresh _ old hold)
  · have hne := hother proposal List.mem_cons_self row hfound
    unfold Db.item?
    rw [hitems, List.find?_append, List.find?_cons, decide_eq_false hne]
    exact Option.or_none
  · have hne : proposal.key ≠ key := fun heq => hother (by simp [heq])
    unfold Db.itemOf?
    rw [hitems, List.find?_append, List.find?_cons, decide_eq_false fun h => hne (hkey.symm.trans h.2)]
    exact Option.or_none

/-- An item that a decision names again. -/
theorem update_merged (hk : db.keys.Distinct) {missionId : Nat} {proposal : WorkItemProposal} {item row : WorkItemRow}
    (hfind : db.itemOf? missionId proposal.key = some item) (hopen : item.lifecycle.unstarted)
    (hitems : db'.items = (db.writeItem row).items) (hid : row.id = item.id) (hmission : row.missionId = item.missionId)
    (hkey : row.key = item.key) (hlife : row.lifecycle = proposedLifecycle proposal)
    (hdeps : db'.dependencies = db.dependencies.filter (·.workItemId ≠ item.id)) : Merged missionId [proposal] db db' := by
  obtain ⟨hmem, hitemMission, hitemKey⟩ := Db.itemOf?_eq_some hfind
  have hitem? := item?_of_mem hk hmem
  have hthis : ∀ old ∈ db.items, old.id = row.id → old = item := fun old hold heq =>
    Keyed.unique hk.items.nodup hold hmem (heq.trans hid)
  -- the row that is written answers to the same mission and key
  have hlookup : ∀ key, db'.itemOf? missionId key =
      (db.itemOf? missionId key).map fun old => if old.id = row.id then row else old := by
    intro key
    unfold Db.itemOf?
    rw [hitems]
    refine Keyed.find?_replace_of_iff (f := fun _ => row) fun old hold heq => ?_
    rw [hthis old hold heq, hmission, hkey]
  have hfound : db'.itemOf? missionId proposal.key = some row := by
    rw [hlookup, hfind, Option.map_some, if_pos hid.symm]
  have hone : ∀ p ∈ [proposal], ∀ found, db'.itemOf? missionId p.key = some found → found = row := by
    intro p hp found hfound'
    obtain rfl := List.mem_singleton.mp hp
    exact Option.some.inj (hfound'.symm.trans hfound)
  refine ⟨fun p hp => ?_, fun dep hdep => ?_, fun dep hdep => ?_, fun p hp found hf old hold => ?_, fun id hother => ?_,
    fun key hother => ?_⟩
  · obtain rfl := List.mem_singleton.mp hp
    exact ⟨row, hfound, hlife⟩
  · rw [hdeps, List.mem_filter] at hdep
    refine ⟨hdep.1, fun p hp found hf => ?_⟩
    rw [hone p hp found hf, hid]
    exact of_decide_eq_true hdep.2
  · by_cases hof : dep.workItemId = item.id
    · exact .inr ⟨proposal, List.mem_cons_self, row, hfound, hof.trans hid.symm⟩
    · rw [hdeps, List.mem_filter]
      exact .inl ⟨hdep, decide_eq_true hof⟩
  · rw [hone p hp found hf, hid, hitem?] at hold
    obtain rfl := Option.some.inj hold
    exact hopen
  · have hne := hother proposal List.mem_cons_self row hfound
    have hrow : db'.item? id = (db.writeItem row).item? id := by
      unfold Db.item?
      rw [hitems]
    rw [hrow, Db.item?_writeItem_of_ne (Ne.symm hne)]
  · rw [hlookup]
    cases hold : db.itemOf? missionId key with
    | none => rfl
    | some old =>
      obtain ⟨holdMem, -, holdKey⟩ := Db.itemOf?_eq_some hold
      rw [Option.map_some, if_neg]
      intro heq
      rw [hthis old holdMem heq, hitemKey] at holdKey
      exact hother (by simp [← holdKey])

theorem applyItem_merged (hk : db.keys.Distinct) (hnamed : DependenciesNamed db) {turn : TurnRow} {proposal : WorkItemProposal}
    (h : applyItem turn db proposal = .ok db') : Merged turn.missionId [proposal] db db' := by
  unfold applyItem at h
  dsimp only at h
  split at h
  · rename_i hnone
    cases h
    exact create_merged hk hnamed rfl rfl rfl rfl hnone rfl rfl
  · rename_i item hfind
    split at h
    · cases h
    · rename_i hopen
      cases h
      refine update_merged hk hfind ?_ rfl rfl rfl rfl rfl rfl
      unfold WorkItemLifecycle.unstarted
      by_contra hnot
      exact hopen (not_or.mp hnot)

/-- Applying an item leaves every dependency between items of one mission. -/
theorem DependenciesNamed.of_replanned (h : DependenciesNamed db) (hitems : Replanned db db')
    (hdeps : ∀ row ∈ db'.dependencies, row ∈ db.dependencies) : DependenciesNamed db' := by
  intro row hrow
  obtain ⟨item, other, hitem, hother, hmission⟩ := h row (hdeps row hrow)
  obtain ⟨item', hitem', hlink, -⟩ := hitems.old _ item hitem
  obtain ⟨other', hother', hlink', -⟩ := hitems.old _ other hother
  exact ⟨item', other', hitem', hother', by rw [hlink.2.1, hlink'.2.1, hmission]⟩

theorem applyItems_merged {turn : TurnRow} : ∀ {proposals : List WorkItemProposal} {db db' : Db}, db.keys.Distinct →
    DependenciesNamed db → (proposals.map (·.key)).Nodup → proposals.foldlM (applyItem turn) db = .ok db' →
      Merged turn.missionId proposals db db' := by
  intro proposals
  induction proposals with
  | nil =>
    intro db db' _ _ _ h
    cases h
    exact .nil _ _
  | cons proposal proposals ih =>
    intro db db' hk hnamed hkeys h
    rw [List.foldlM_cons] at h
    obtain ⟨next, hitem, h⟩ := Steps.bind_ok h
    obtain ⟨hkey, hkeys⟩ := List.nodup_cons.mp hkeys
    have hfirst := applyItem_merged hk hnamed hitem
    have hnext := hnamed.of_replanned (applyItem_replanned hk hitem) fun row hrow => (hfirst.dependencies row hrow).1
    exact hfirst.cons (ih (applyItem_distinct hk hitem) hnext hkeys h) hkey

/-! ## A decision -/

/-- What an applied decision writes: its items, and the dependencies among them. -/
theorem apply_merged (hk : db.keys.Distinct) (hnamed : DependenciesNamed db) {turnId : TurnId} {decision : ManagerDecision}
    {now : Nat} (h : apply db turnId decision now = .ok db') : (db'.items = db.items ∧ db'.dependencies = db.dependencies) ∨
      ∃ missionId proposed, Merged missionId decision.workItems db proposed ∧ proposed.keys.Distinct ∧
        db'.items = proposed.items ∧
        db'.dependencies = proposed.dependencies ++ proposedDependencies proposed missionId decision := by
  unfold apply at h
  split at h
  · cases h
  · rename_i turn hturn
    split at h
    · cases h
    · rename_i mission hmission
      split at h
      · cases h
        exact .inl ⟨rfl, rfl⟩
      · obtain ⟨ledger, ledger', proposed, hproposed, rfl⟩ := applyCurrent_ok h
        have hkl : ({ db with ledger } : Db).keys.Distinct := hk
        have hmerged := applyItems_merged hkl hnamed decision.keys_nodup hproposed
        refine .inr ⟨mission.id, proposed, ?_, applyItems_distinct _ hkl hproposed, ?_, ?_⟩
        · rw [(Db.mission?_eq_some hmission).2]
          exact ⟨hmerged.found, hmerged.dependencies, hmerged.kept, hmerged.unstarted, hmerged.others, hmerged.otherKeys⟩
        · exact recordDecision_writes proposed _ _ _ _ .items (by decide)
        · show (recordDecision proposed mission turn decision now).dependencies = _
          unfold recordDecision
          exact scheduleDeadline_writes _ _ _ _ _ .dependencies (by decide)

/-- The dependencies a decision adds. -/
theorem mem_proposedDependencies {missionId : Nat} {decision : ManagerDecision} {a b : Nat} :
    ⟨a, b⟩ ∈ proposedDependencies db missionId decision ↔ ∃ proposal ∈ decision.workItems, ∃ key ∈ proposal.dependencies,
      ∃ item other, db.itemOf? missionId proposal.key = some item ∧ db.itemOf? missionId key = some other ∧
        item.id = a ∧ other.id = b := by
  unfold proposedDependencies
  rw [List.mem_flatMap]
  refine exists_congr fun proposal => and_congr_right fun _ => ?_
  rw [List.mem_filterMap]
  refine exists_congr fun key => and_congr_right fun _ => ?_
  unfold Db.itemOf?
  split
  · rename_i item other hitem hother
    constructor
    · intro heq
      cases heq
      exact ⟨item, other, hitem, hother, rfl, rfl⟩
    · rintro ⟨item', other', hitem', hother', rfl, rfl⟩
      rw [Option.some.inj (hitem'.symm.trans hitem), Option.some.inj (hother'.symm.trans hother)]
  · rename_i hnone
    constructor
    · intro heq
      cases heq
    · rintro ⟨item, other, hitem, hother, -⟩
      exact absurd hother (hnone item other hitem)

/-- The identities of the items that a decision names. -/
def Named (missionId : Nat) (decision : ManagerDecision) (proposed : Db) (id : Nat) : Prop :=
  ∃ proposal ∈ decision.workItems, ∃ item, proposed.itemOf? missionId proposal.key = some item ∧ item.id = id

/-- What is new among the edges of a named item leads, key by key, along the decision's dependencies. -/
theorem named_edge {missionId : Nat} {decision : ManagerDecision} {proposed : Db} (hk : proposed.keys.Distinct)
    (hmerged : Merged missionId decision.workItems db proposed)
    (hdeps : db'.dependencies = proposed.dependencies ++ proposedDependencies proposed missionId decision) {a b : Nat}
    (ha : Named missionId decision proposed a) (hab : db'.dependsOn a b) :
    Named missionId decision proposed b ∧ proposed.keyOf b ∈ dependenciesOf decision.workItems (proposed.keyOf a) := by
  obtain ⟨named, hnamed, row, hrow, rfl⟩ := ha
  unfold Db.dependsOn at hab
  rw [hdeps] at hab
  rcases List.mem_append.mp hab with hold | hnew
  · exact absurd rfl ((hmerged.dependencies _ hold).2 named hnamed row hrow)
  · obtain ⟨proposal, hproposal, key, hkey, item, other, hitem, hother, hid, rfl⟩ := mem_proposedDependencies.mp hnew
    obtain ⟨hitemMem, -, hitemKey⟩ := Db.itemOf?_eq_some hitem
    obtain ⟨hotherMem, -, hotherKey⟩ := Db.itemOf?_eq_some hother
    refine ⟨?_, ?_⟩
    · obtain ⟨next, hnext, hnextKey⟩ := List.mem_map.mp (decision.dependencies_mem proposal hproposal key hkey)
      exact ⟨next, hnext, other, hnextKey ▸ hother, rfl⟩
    · rw [← hid, Db.keyOf, Db.keyOf, item?_of_mem hk hitemMem, item?_of_mem hk hotherMem]
      show other.key ∈ dependenciesOf decision.workItems item.key
      rw [hitemKey, hotherKey, decision.dependenciesOf_eq hproposal]
      exact hkey

theorem apply_acyclic (hk : db.keys.Distinct) (hnamed : DependenciesNamed db) (hacyclic : ∀ a, ¬ Relation.TransGen db.dependsOn a a)
    {turnId : TurnId} {decision : ManagerDecision} {now : Nat} (h : apply db turnId decision now = .ok db') (a : Nat) :
    ¬ Relation.TransGen db'.dependsOn a a := by
  rcases apply_merged hk hnamed h with ⟨-, hdeps⟩ | ⟨missionId, proposed, hmerged, hkp, -, hdeps⟩
  · have hsame : db'.dependsOn = db.dependsOn := by
      unfold Db.dependsOn
      rw [hdeps]
    rw [hsame]
    exact hacyclic a
  · have hclosed : ∀ a b, Named missionId decision proposed a → db'.dependsOn a b → Named missionId decision proposed b :=
      fun a b ha hab => (named_edge hkp hmerged hdeps ha hab).1
    have hinside : ∀ a, Named missionId decision proposed a → ¬ Relation.TransGen db'.dependsOn a a := by
      intro a ha hcycle
      have hkeys := (Acyclic.transGen_lift (f := proposed.keyOf) (q := fun a b => b ∈ dependenciesOf decision.workItems a)
        (fun a b (ha : Named missionId decision proposed a) => named_edge hkp hmerged hdeps ha) ha hcycle).2
      obtain ⟨proposal, hproposal, item, hitem, rfl⟩ := ha
      obtain ⟨hmem, -, hkey⟩ := Db.itemOf?_eq_some hitem
      refine decision.keys_acyclic ?_ hkeys
      rw [Db.keyOf, item?_of_mem hkp hmem]
      exact List.mem_map.mpr ⟨proposal, hproposal, hkey.symm⟩
    have hkept : ∀ a b, ¬ Named missionId decision proposed a → db'.dependsOn a b → db.dependsOn a b := by
      intro a b ha hab
      unfold Db.dependsOn at hab
      rw [hdeps] at hab
      rcases List.mem_append.mp hab with hold | hnew
      · exact (hmerged.dependencies _ hold).1
      · obtain ⟨proposal, hproposal, key, -, item, other, hitem, -, hid, -⟩ := mem_proposedDependencies.mp hnew
        exact absurd ⟨proposal, hproposal, item, hitem, hid⟩ ha
    exact Acyclic.acyclic_of_closed hacyclic hclosed hinside hkept a

theorem apply_named (hk : db.keys.Distinct) (hnamed : DependenciesNamed db) {turnId : TurnId} {decision : ManagerDecision}
    {now : Nat} (h : apply db turnId decision now = .ok db') : DependenciesNamed db' := by
  have hitems := apply_replanned hk h
  rcases apply_merged hk hnamed h with ⟨-, hdeps⟩ | ⟨missionId, proposed, hmerged, hkp, hsame, hdeps⟩
  · exact hnamed.of_replanned hitems fun row hrow => hdeps ▸ hrow
  · intro row hrow
    rw [hdeps] at hrow
    rcases List.mem_append.mp hrow with hold | hnew
    · obtain ⟨item, other, hitem, hother, hmission⟩ := hnamed row (hmerged.dependencies row hold).1
      obtain ⟨item', hitem', hlink, -⟩ := hitems.old _ item hitem
      obtain ⟨other', hother', hlink', -⟩ := hitems.old _ other hother
      exact ⟨item', other', hitem', hother', by rw [hlink.2.1, hlink'.2.1, hmission]⟩
    · obtain ⟨proposal, -, key, -, item, other, hitem, hother, hid, hid'⟩ := mem_proposedDependencies.mp hnew
      obtain ⟨hmem, hmission, -⟩ := Db.itemOf?_eq_some hitem
      obtain ⟨hmem', hmission', -⟩ := Db.itemOf?_eq_some hother
      have hrow : ∀ id, db'.item? id = proposed.item? id := fun id => by rw [Db.item?, hsame, Db.item?]
      exact ⟨item, other, (hrow _).trans (hid ▸ item?_of_mem hkp hmem), (hrow _).trans (hid' ▸ item?_of_mem hkp hmem'),
        hmission.trans hmission'.symm⟩

/-! ## Runs -/

/-- The dependencies between work items are in order. -/
structure DependenciesSound (db : Db) : Prop where
  named : DependenciesNamed db
  acyclic : ∀ a, ¬ Relation.TransGen db.dependsOn a a

/-- Only decisions write dependencies, and no action takes an item away. -/
theorem DependenciesSound.step {s s' : Sys} {action : Action} (hs : DependenciesSound s.db) (hk : s.db.keys.Distinct)
    (h : step s action = some s') : DependenciesSound s'.db := by
  have hsame (hdeps : s'.db.dependencies = s.db.dependencies) : DependenciesSound s'.db := by
    refine ⟨fun row hrow => ?_, ?_⟩
    · obtain ⟨item, other, hitem, hother, hmission⟩ := hs.named row (hdeps ▸ hrow)
      obtain ⟨item', hitem', hmove⟩ := (item_moves hk h row.workItemId).1 item hitem
      obtain ⟨other', hother', hmove'⟩ := (item_moves hk h row.dependsOnWorkItemId).1 other hother
      exact ⟨item', other', hitem', hother', by rw [hmove.same_mission, hmove'.same_mission, hmission]⟩
    · have hedges : s'.db.dependsOn = s.db.dependsOn := by
        unfold Db.dependsOn
        rw [hdeps]
      rw [hedges]
      exact hs.acyclic
  by_cases hframe : Table.dependencies ∈ footprint action
  · cases action with
    | apply eid now =>
      obtain ⟨e, -, hmove⟩ := Option.bind_eq_some_iff.mp h
      simp only [executionStep] at hmove
      split at hmove
      · split at hmove <;> cases hmove
        · rename_i happly
          exact ⟨apply_named hk hs.named happly, apply_acyclic hk hs.named hs.acyclic happly⟩
        · exact hs
      · cases hmove
    | _ => simp [footprint] at hframe
  · exact hsame (step_writes h .dependencies hframe)

theorem reach_dependencies {versions : List Nat} {s : Sys} (h : Reach step (Sys.init versions) s) : DependenciesSound s.db := by
  refine h.invariant_with (·.db.keys.Distinct) (fun s => DependenciesSound s.db) (fun _ => reach_distinct)
    ⟨fun row hrow => absurd hrow List.not_mem_nil, fun a hcycle => ?_⟩ fun _ _ _ hk hs _ hstep => hs.step hk hstep
  obtain ⟨b, hab, -⟩ := Relation.TransGen.head'_iff.mp hcycle
  exact absurd hab List.not_mem_nil

/-- In every reachable state no work item depends on itself, however many decisions have been
    applied, and every dependency is between two items of one mission. -/
theorem dependencies_acyclic {versions : List Nat} {s : Sys} (h : Reach step (Sys.init versions) s) :
    (∀ a, ¬ Relation.TransGen s.db.dependsOn a a) ∧
    ∀ row ∈ s.db.dependencies, ∃ item other, s.db.item? row.workItemId = some item ∧
      s.db.item? row.dependsOnWorkItemId = some other ∧ item.missionId = other.missionId :=
  ⟨(reach_dependencies h).acyclic, (reach_dependencies h).named⟩

/-! ## A decision that turns a dependency round -/

/-- The second item waits for the first. -/
def inOrder : ManagerDecision where
  action := .propose
  message := "a, then b"
  workItems := [sampleProposal "a" [], sampleProposal "b" ["a"]]
  propose_iff := by decide
  complete_lifecycle := propose_incomplete
  keys_nodup := by decide
  dependencies_mem := by decide
  acyclic := by decide

/-- The first waits for the second. -/
def turnedRound : ManagerDecision where
  action := .propose
  message := "b, then a"
  workItems := [sampleProposal "a" ["b"], sampleProposal "b" []]
  propose_iff := by decide
  complete_lifecycle := propose_incomplete
  keys_nodup := by decide
  dependencies_mem := by decide
  acyclic := by decide

/-- A turn that ends in the decision. -/
def turnOf (execution now : Nat) (decision : ManagerDecision) : List Action :=
  callOf execution 1 now ++
    [.invoke execution (some { decision := some decision, inputTokens := some 10, outputTokens := some 10 }),
      .storeReceipt execution now, .apply execution now]

theorem dependencies_acyclic_turned_round :
    ∃ s, Reach step (Sys.init [7]) s ∧ s.db.dependencies = [⟨5, 6⟩] ∧ s.applied.length = 2 ∧
      (∀ a, ¬ Relation.TransGen s.db.dependsOn a a) := by
  let actions := opening ++ turnOf 0 0 inOrder ++ [.createMessage 0 "again" 3 false "again" 2] ++ turnOf 1 3 turnedRound
  have hrun : (run step (Sys.init [7]) actions).any (fun s => s.db.dependencies = [⟨5, 6⟩] ∧ s.applied.length = 2) = true := by
    decide +kernel
  obtain ⟨s, hs, hend⟩ := (Option.any_eq_true _ _).mp hrun
  have hreach := run_reach actions hs
  exact ⟨s, hreach, (of_decide_eq_true hend).1, (of_decide_eq_true hend).2, (dependencies_acyclic hreach).1⟩

end Jarvis.Missions
