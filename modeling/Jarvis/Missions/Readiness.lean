/-
  Jarvis.Missions.Readiness — work items are started after what they depend on.

  An item is ready when it has no dependencies or a pass has found them all accepted, and
  `dispatch_ready` takes only ready items. `start_item` asks for both in its first transaction
  and links the run in its last, which does not ask again: a decision in between can make the
  item wait for another one, and it is started all the same (`started_while_waiting`). While
  the last transaction finds its item neither pending nor accepted, the dependencies of every
  started item are accepted (`started_after_dependencies`).
-/
import Jarvis.Missions.Dependencies

namespace Jarvis.Missions

open Jarvis.Steps

/-- The item has been accepted. -/
def Db.accepted (db : Db) (id : Nat) : Prop := ∃ item, db.item? id = some item ∧ item.lifecycle = .accepted

/-- Everything that the item depends on has been accepted. -/
def Db.prepared (db : Db) (id : Nat) : Prop := ∀ row ∈ db.dependencies, row.workItemId = id → db.accepted row.dependsOnWorkItemId

/-- The last transaction of `start_item` finds its item as the first one left it, or started:
    not waiting again, and not accepted. -/
def linksReadied (s : Sys) : Action → Prop
  | .linkItem id _ =>
    ∀ call ∈ s.starts, call.id = id → ∀ target ∈ call.pc.target, ∀ item ∈ s.db.items, item.id = call.itemId →
      (item.runId = none ∨ item.runId = some target.2) → item.lifecycle ≠ .pending ∧ item.lifecycle ≠ .accepted
  | _ => True

instance (s : Sys) (action : Action) : Decidable (linksReadied s action) := by
  induction action using Action.casesOn <;> dsimp only [linksReadied] <;> infer_instance

/-- What an item depends on is accepted, unless it is pending. -/
def Prepared (db : Db) : Prop := ∀ id item, db.item? id = some item → item.lifecycle ≠ .pending → db.prepared id

variable {db db' : Db}

theorem Prepared.of_same (h : Prepared db) (hitems : db'.items = db.items) (hdeps : db'.dependencies = db.dependencies) :
    Prepared db' := by
  have hitem : ∀ id, db'.item? id = db.item? id := fun id => by rw [Db.item?, hitems, Db.item?]
  intro id item hfind hlife row hrow hid
  rw [hitem] at hfind
  obtain ⟨other, hother, haccepted⟩ := h id item hfind hlife row (hdeps ▸ hrow) hid
  exact ⟨other, (hitem _).trans hother, haccepted⟩

/-- An item is started that is neither pending nor accepted. -/
theorem Prepared.launch (h : Prepared db) (hk : db.keys.Distinct) {item : WorkItemRow} {jobId : JobId} {runId : RunId}
    (hitem : item ∈ db.items) (hlife : item.lifecycle ≠ .pending ∧ item.lifecycle ≠ .accepted)
    (hitems : db'.items = (db.writeItem (item.launched jobId runId)).items) (hdeps : db'.dependencies = db.dependencies) :
    Prepared db' := by
  have hitem? := item?_of_mem hk hitem
  have hrow : ∀ id, db'.item? id = (db.writeItem (item.launched jobId runId)).item? id := fun id => by
    rw [Db.item?, hitems, Db.item?]
  have hother : ∀ id, id ≠ item.id → db'.item? id = db.item? id := fun id hne =>
    (hrow id).trans (Db.item?_writeItem_of_ne hne)
  have hprepared : ∀ id old, db.item? id = some old → old.lifecycle ≠ .pending → db'.prepared id := by
    intro id old hold hopen row hmem hid
    obtain ⟨other, hfind, haccepted⟩ := h id old hold hopen row (hdeps ▸ hmem) hid
    refine ⟨other, (hother _ fun heq => hlife.2 ?_).trans hfind, haccepted⟩
    rw [heq, hitem?] at hfind
    rw [Option.some.inj hfind]
    exact haccepted
  intro id found hfound hopen
  by_cases hid : id = item.id
  · exact hprepared id item (hid ▸ hitem?) hlife.1
  · exact hprepared id found ((hother id hid).symm.trans hfound) hopen

/-! ## A pass -/

theorem prepared_of_complete (hnamed : DependenciesNamed db) {id : Nat} (h : dependsOnIncomplete db id = false) :
    db.prepared id := by
  intro row hrow hid
  obtain ⟨-, other, -, hother, -⟩ := hnamed row hrow
  obtain ⟨hmem, hof⟩ := Db.item?_eq_some hother
  refine ⟨other, hother, ?_⟩
  by_contra hopen
  refine Bool.eq_false_iff.mp h (List.any_eq_true.mpr ⟨row, hrow, decide_eq_true ⟨hid, ?_⟩⟩)
  exact List.any_eq_true.mpr ⟨other, hmem, decide_eq_true ⟨hof, hopen⟩⟩

/-- A pass makes a pending item ready only when nothing is left to wait for. -/
theorem reconcileItems_readied (hk : db.keys.Distinct) (now : Nat) {item row : WorkItemRow} (hitem : item ∈ db.items)
    (hpend : item.lifecycle = .pending) (hrow : (reconcileItems db now).item? item.id = some row)
    (hready : row.lifecycle ≠ .pending) : dependsOnIncomplete (reconcileItems db now) item.id = false := by
  have hsettled : (settledItems db now).item? item.id = some item := by
    refine settledItems_other hk now hitem fun run hrun => ?_
    obtain ⟨-, hstarted, -⟩ := mem_endedRuns.mp hrun
    rw [hpend] at hstarted
    cases hstarted
  obtain ⟨cursor, hcursor⟩ := announce_fold now (announced db now) (readied db now) item.id
  rw [← reconcileItems_eq, hrow, readied_pending hk now hsettled hpend] at hcursor
  rw [reconcileItems_incomplete hk now]
  refine Bool.eq_false_iff.mpr fun hincomplete => hready ?_
  rw [if_pos hincomplete, Option.map_some] at hcursor
  rw [Option.some.inj hcursor]
  exact hpend

/-- A pass leaves what has been accepted. -/
theorem reconcileItems_accepted (hk : db.keys.Distinct) (now : Nat) {id : Nat} (h : db.accepted id) :
    (reconcileItems db now).accepted id := by
  obtain ⟨item, hitem, haccepted⟩ := h
  obtain ⟨hmem, rfl⟩ := Db.item?_eq_some hitem
  obtain ⟨row, cursor, hpassed, hrow⟩ := reconcileItems_item? hk now hmem
  refine ⟨_, hrow, ?_⟩
  cases hpassed with
  | settled run hstarted =>
    rw [haccepted] at hstarted
    cases hstarted
  | readied hpend =>
    rw [haccepted] at hpend
    cases hpend
  | kept => exact haccepted

theorem Prepared.pass (h : Prepared db) (hk : db.keys.Distinct) (now : Nat) (hnamed : DependenciesNamed (reconcileItems db now)) :
    Prepared (reconcileItems db now) := by
  intro id row hrow hopen
  cases hbefore : db.item? id with
  | none =>
    rw [reconcileItems_item?_none hk now hbefore] at hrow
    cases hrow
  | some item =>
    obtain ⟨hmem, rfl⟩ := Db.item?_eq_some hbefore
    by_cases hpend : item.lifecycle = .pending
    · exact prepared_of_complete hnamed (reconcileItems_readied hk now hmem hpend hrow hopen)
    · intro dep hdep hid
      rw [reconcileItems_writes db now .dependencies (by decide)] at hdep
      exact reconcileItems_accepted hk now (h item.id item hbefore hpend dep hdep hid)

/-! ## A decision -/

/-- A decision leaves what has been accepted: it is not among the items it may name. -/
theorem Merged.accepted {missionId : Nat} {proposals : List WorkItemProposal} (hmerged : Merged missionId proposals db db') {id : Nat}
    (h : db.accepted id) : db'.accepted id := by
  obtain ⟨item, hitem, haccepted⟩ := h
  refine ⟨item, (hmerged.others id fun proposal hproposal named hnamed heq => ?_).trans hitem, haccepted⟩
  have hopen := hmerged.unstarted proposal hproposal named hnamed item (heq ▸ hitem)
  unfold WorkItemLifecycle.unstarted at hopen
  simp [haccepted] at hopen

theorem Prepared.decided (h : Prepared db) (hk : db.keys.Distinct) (hnamed : DependenciesNamed db) {turnId : TurnId}
    {decision : ManagerDecision} {now : Nat} (happly : apply db turnId decision now = .ok db') : Prepared db' := by
  rcases apply_merged hk hnamed happly with ⟨hitems, hdeps⟩ | ⟨missionId, proposed, hmerged, hkp, hitems, hdeps⟩
  · exact h.of_same hitems hdeps
  · have hsame : ∀ id, db'.item? id = proposed.item? id := fun id => by rw [Db.item?, hitems, Db.item?]
    intro id item hitem hopen row hrow hid
    rw [hsame] at hitem
    rw [hdeps] at hrow
    rcases List.mem_append.mp hrow with hold | hnew
    · -- the item is not one of the decision's
      obtain ⟨hbefore, hother⟩ := hmerged.dependencies row hold
      have hkept := hmerged.others id fun proposal hproposal named hnamed heq =>
        hother proposal hproposal named hnamed (hid.trans heq.symm)
      obtain ⟨other, hfind, haccepted⟩ := hmerged.accepted (h id item (hkept.symm.trans hitem) hopen row hbefore hid)
      exact ⟨other, (hsame _).trans hfind, haccepted⟩
    · -- an item with dependencies is made pending
      obtain ⟨proposal, hproposal, key, hkey, named, -, hnamed, -, hof, -⟩ := mem_proposedDependencies.mp hnew
      obtain ⟨found, hfound, hlife⟩ := hmerged.found proposal hproposal
      obtain rfl : found = named := Option.some.inj (hfound.symm.trans hnamed)
      have hrow := item?_of_mem hkp (Db.itemOf?_eq_some hfound).1
      rw [hof.trans hid, hitem] at hrow
      have hwaits : proposal.dependencies ≠ [] := List.ne_nil_of_mem hkey
      rw [Option.some.inj hrow, hlife, proposedLifecycle, if_neg hwaits] at hopen
      exact absurd rfl hopen

/-! ## Runs -/

theorem Prepared.step {s s' : Sys} {action : Action} (hs : Prepared s.db) (hk : s.db.keys.Distinct) (hnamed : DependenciesNamed s.db)
    (hnamed' : DependenciesNamed s'.db) (hok : linksReadied s action) (h : step s action = some s') : Prepared s'.db := by
  by_cases hframe : Table.items ∈ footprint action
  · cases action with
    | linkItem callId now =>
      obtain ⟨call, hcall, hmove⟩ := Option.bind_eq_some_iff.mp h
      obtain hsame | ⟨jobId, runId, hpc, hlink⟩ := startStep_linkItem hmove
      · exact hs.of_same (congrArg Db.items hsame) (congrArg Db.dependencies hsame)
      · obtain ⟨item, hitem, hid, -, hrun, hitems⟩ := linkItem_ok hlink
        have hcallId : call.id = callId := by simpa using List.find?_some hcall
        have hlife := hok call (List.mem_of_find?_eq_some hcall) hcallId (jobId, runId) (by rw [hpc]; rfl) item hitem hid hrun
        exact hs.launch hk hitem hlife hitems (step_writes h .dependencies (by simp [footprint]))
    | reconcileItems now =>
      cases h
      exact hs.pass hk now hnamed'
    | dispatchReady mode lockedMissions lockedItems now =>
      cases h
      obtain hwrites | ⟨mission, item, ledger, hselected, -, heq⟩ := dispatchReady_cases s.db mode lockedMissions lockedItems now
      · exact hs.of_same (hwrites .items (by decide)) (hwrites .dependencies (by decide))
      · obtain ⟨-, hitem, -, hready⟩ := selectedItem_mem hselected
        have hitems : (dispatchReady s.db mode lockedMissions lockedItems now).items =
            (s.db.writeItem (item.launched (.assignment item.id) (.assignment item.id))).items := by
          rw [heq, assign_items]
          rfl
        exact hs.launch hk hitem (by rw [hready]; decide) hitems (dispatchReady_writes _ _ _ _ _ .dependencies (by decide))
    | apply eid now =>
      obtain ⟨e, -, hmove⟩ := Option.bind_eq_some_iff.mp h
      simp only [executionStep] at hmove
      split at hmove
      · split at hmove <;> cases hmove
        · rename_i happly
          exact hs.decided hk hnamed happly
        · exact hs
      · cases hmove
    | _ => simp [footprint] at hframe
  · have hdeps : Table.dependencies ∉ footprint action := by
      cases action <;> simp [footprint] at hframe ⊢
    exact hs.of_same (step_writes h .items hframe) (step_writes h .dependencies hdeps)

/-- In every run in which the last transaction of `start_item` finds its item neither pending
    again nor accepted, everything that a started item depends on is accepted, from the moment it
    is started. -/
theorem started_after_dependencies {versions : List Nat} {s : Sys} (h : ReachIf step linksReadied (Sys.init versions) s) :
    ∀ id item, s.db.item? id = some item → item.lifecycle = .started →
      ∀ row ∈ s.db.dependencies, row.workItemId = id →
        ∃ other, s.db.item? row.dependsOnWorkItemId = some other ∧ other.lifecycle = .accepted := by
  have hprepared : Prepared s.db := by
    refine h.invariant_with (fun s => Reach step (Sys.init versions) s) (fun s => Prepared s.db) (fun _ hr => hr.reach)
      (fun _ _ hfind => nomatch hfind) fun s action t hr hs hok hstep => ?_
    exact hs.step (reach_distinct hr) (reach_dependencies hr).named (reach_dependencies (hr.step action trivial hstep)).named
      hok hstep
  intro id item hitem hstarted
  exact hprepared id item hitem (by rw [hstarted]; decide)

/-! ## An item that waits again -/

/-- As `opening`, for a mission and a team with the default limits on time. -/
def roomyOpening : List Action :=
  [.createMission { sampleMission with resourceLimits := { maxActiveJobs := 2 } } { sampleTeam with maxExecutionSeconds := 14400 } 0,
    .createMessage 0 "go" 1 false "message" 0]

/-- The first item runs and is accepted, and the scheduler starts the second. -/
theorem started_after_dependencies_in_order :
    ∃ s, ReachIf step linksReadied (Sys.init [7]) s ∧ s.db.dependencies = [⟨6, 5⟩] ∧
      ∃ item other, s.db.item? 6 = some item ∧ item.lifecycle = .started ∧
        s.db.item? 5 = some other ∧ other.lifecycle = .accepted := by
  let actions := roomyOpening ++ turnOf 0 0 inOrder ++ [.startItem 0 5 3 2, .createJob 1 true true, .linkItem 1 3,
    .executeRun (.fresh 9) .completed .running 4, .reconcileItems 5, .dispatchReady .real [] [] 6]
  have hrun : (runIf step linksReadied (Sys.init [7]) actions).any (fun s =>
      s.db.dependencies = [⟨6, 5⟩] ∧ (s.db.item? 6).any (·.lifecycle = .started)) = true := by decide +kernel
  obtain ⟨s, hs, hend⟩ := (Option.any_eq_true _ _).mp hrun
  obtain ⟨hdeps, hany⟩ := of_decide_eq_true hend
  obtain ⟨item, hitem, hstarted⟩ := (Option.any_eq_true _ _).mp hany
  have hreach := runIf_reachIf actions hs
  obtain ⟨other, hother, haccepted⟩ := started_after_dependencies hreach 6 item hitem (of_decide_eq_true hstarted) ⟨6, 5⟩
    (by rw [hdeps]; exact List.mem_singleton_self _) rfl
  exact ⟨s, hreach, hdeps, item, other, hitem, of_decide_eq_true hstarted, hother, haccepted⟩

/-- Between the first and the last transaction of `start_item` a decision makes the item wait for
    the other one; then it is started. -/
theorem started_while_waiting :
    ∃ s s', Reach step (Sys.init [7]) s ∧ step s (.linkItem 1 4) = some s' ∧ ⟨5, 6⟩ ∈ s'.db.dependencies ∧
      (s.db.item? 5).any (·.lifecycle = .pending) = true ∧ (s'.db.item? 5).any (·.lifecycle = .started) = true ∧
      (s'.db.item? 6).any (·.lifecycle = .accepted) = false := by
  let actions := roomyOpening ++ turnOf 0 0 sampleDecision ++ [.startItem 0 5 3 2, .createJob 1 true true,
    .createMessage 0 "again" 3 false "again" 2] ++ turnOf 2 3 turnedRound
  have hrun : (run step (Sys.init [7]) actions).any (fun s => (step s (.linkItem 1 4)).any fun s' =>
      ⟨5, 6⟩ ∈ s'.db.dependencies ∧ (s.db.item? 5).any (·.lifecycle = .pending) = true ∧
        (s'.db.item? 5).any (·.lifecycle = .started) = true ∧ (s'.db.item? 6).any (·.lifecycle = .accepted) = false) = true := by
    decide +kernel
  obtain ⟨s, hs, hlinked⟩ := (Option.any_eq_true _ _).mp hrun
  obtain ⟨s', hs', hend⟩ := (Option.any_eq_true _ _).mp hlinked
  exact ⟨s, s', run_reach actions hs, hs', of_decide_eq_true hend⟩

end Jarvis.Missions
