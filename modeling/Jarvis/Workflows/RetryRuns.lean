/-
  Jarvis.Workflows.RetryRuns — the retries the rows count over whole runs, with crashes.

  At every checkpoint the rows and the graph agree, with one exception: between the
  observer's commit and the checkpoint of its node the row is one ahead, and a run found
  cancelled in that window ends there (`retry_accounts_agree`, `cancelled_keeps_retry`). The
  invariant is `Accounted`: the key of the node the graph is at is either new and the counts
  are even, or applied and its recorded result says what the checkpoint will add. A key is
  applied once because a checkpoint raises the visit counter the key is made of.
-/
import Jarvis.Workflows.RetryAccounts

namespace Jarvis.Workflows

variable {spec : WorkflowSpec} {snapshot : WorkflowResolvedSnapshot} {node : WorkflowNode}

/-! ## Branches -/

/-- A branch of the graph: it counts the retries its main graph counts. -/
structure BranchPlaced (spec : WorkflowSpec) (f j : String) (main : WorkflowStateV1) (b : Branch) : Prop where
  child : IsChild spec f j b.child
  identity : ∃ i, b.state.childIdentity = some i ∧ ':' ∈ i.toList
  place : ∀ id, b.place = .node id → id ∈ region spec j b.child
  counts : ∀ id cls, b.state.counter (retryKey id cls) = main.counter (retryKey id cls)

/-- A quiet update leaves the retry counters. -/
theorem mergedState_quiet {state update next : WorkflowStateV1} (hq : Quiet update)
    (h : mergedState state update = .ok next) (id : String) (cls : FailureClass) :
    next.counter (retryKey id cls) = state.counter (retryKey id cls) := by
  rw [mergedState_counter h]
  cases hg : (update.counters.getD .empty).get? (retryKey id cls) with
  | none => rfl
  | some value =>
    have hfalse := hq _ _ hg
    rw [isRetryKey_retryKey] at hfalse
    cases hfalse

theorem quiet_of_counters {update : WorkflowStateV1} (h : update.counters = none) : Quiet update := by
  intro key value hk
  rw [h] at hk
  cases hk

/-- A node of a region sets no retry counter. -/
theorem BranchPlaced.quiet (h : Checked spec snapshot) {f j : String} {main : WorkflowStateV1} {b : Branch}
    (hb : BranchPlaced spec f j main b) (hid : node.id ∈ region spec j b.child) (hn : node ∈ spec.nodes)
    {state update routed : WorkflowStateV1} (hquiet : Quiet update)
    (hrouted : routedUpdate spec snapshot node state update = .ok routed) : Quiet routed := by
  obtain hq | ⟨cls, policy, rule, hc⟩ := routed_consumes h hquiet hrouted
  · exact hq
  · obtain ⟨edge, hedge, hk⟩ := hc.edge
    obtain ⟨fanout, hfn, rfl, children, maxFanout, hconfig, -⟩ := hb.child
    exact absurd hk (RegionChecked.not_retry h (h.fanoutChecked hfn hconfig) (h.regionChecked hb.child) hid hn
      (mem_routeEdges.mp hedge))

theorem arriveBranch_eq (joinId : String) (b : Branch) (node : WorkflowNode) (state : WorkflowStateV1) :
    (arriveBranch spec joinId b node state).child = b.child ∧ (arriveBranch spec joinId b node state).state = state ∧
    (arriveBranch spec joinId b node state).place = advanceBranch spec joinId node state := by
  unfold arriveBranch
  split
  · rename_i he
    exact ⟨rfl, rfl, he.symm⟩
  · exact ⟨rfl, rfl, rfl⟩

/-- A branch routes along an edge of its node. -/
theorem BranchPlaced.advance (h : Checked spec snapshot) {f j : String} {main : WorkflowStateV1} {b : Branch}
    (hb : BranchPlaced spec f j main b) (hid : node.id ∈ region spec j b.child) (hn : node ∈ spec.nodes)
    {state update routed next : WorkflowStateV1} {outcome : Option (Dict String Json)}
    (hrouted : routedUpdate spec snapshot node state update = .ok routed)
    (hm : mergedState b.state { routed with outcome := outcome } = .ok next) {id : String}
    (ha : advanceBranch spec j node next = .node id) : id ∈ region spec j b.child := by
  have hr := h.regionChecked hb.child
  unfold advanceBranch at ha
  split at ha
  · cases ha
  · rename_i hlive
    split at ha
    · cases ha
    · rename_i hj
      cases ha
      rw [not_or, List.isEmpty_iff] at hlive
      rcases routedUpdate_cases hrouted with ⟨-, hnone | hf⟩ | ⟨merged, route, -, hroute, -, hf, rfl⟩
      · exact absurd hnone hlive.2
      · exact absurd hf (hr.node_type hid hn).1
      · obtain ⟨edge, ht⟩ := h.takes hn hf hroute
        have hnext : next.route = some route.1 := (mergedState_ok hm).2.2.2.2.2.2
        rw [hnext, Option.getD_some, ← ht.target]
        have hout : edge ∈ spec.outgoing node.id := List.mem_filter.mpr ⟨ht.mem, decide_eq_true ht.source⟩
        refine ((hr.routes hid hn).2 edge hout).resolve_right fun he => hj ?_
        rw [hnext, ← ht.target, he]

/-- The checkpoint of a branch. -/
theorem BranchPlaced.checkpoint (h : Checked spec snapshot) {f j : String} {main : WorkflowStateV1} {b : Branch}
    (hb : BranchPlaced spec f j main b) (hid : node.id ∈ region spec j b.child) (hn : node ∈ spec.nodes)
    {final next : WorkflowStateV1} (hm : mergedState b.state final = .ok next)
    (hfinal : final = cancelUpdate ∨ ∃ update routed outcome, Quiet update ∧ update.childIdentity = none ∧
      routedUpdate spec snapshot node b.state update = .ok routed ∧ final = { routed with outcome := outcome }) :
    BranchPlaced spec f j main (arriveBranch spec j b node next) := by
  obtain ⟨hchild, hstate, hplace⟩ := @arriveBranch_eq spec j b node next
  obtain ⟨i, hi, hcolon⟩ := hb.identity
  have hquiet : Quiet final ∧ final.childIdentity = none := by
    rcases hfinal with rfl | ⟨update, routed, outcome, hq, hident, hrouted, rfl⟩
    · exact ⟨quiet_of_counters rfl, rfl⟩
    · have hroutedq : Quiet routed := hb.quiet h hid hn hq hrouted
      refine ⟨hroutedq, ?_⟩
      rcases routedUpdate_cases hrouted with ⟨rfl, -⟩ | ⟨_, _, -, -, -, -, rfl⟩
      · exact hident
      · exact hident
  refine ⟨by rw [hchild]; exact hb.child, ⟨i, ?_, hcolon⟩, fun id hp => ?_, fun id cls => ?_⟩
  · rw [hstate, (mergedState_ok hm).2.2.2.2.2.1, hquiet.2]
    exact hi
  · rw [hplace] at hp
    rw [hchild]
    rcases hfinal with rfl | ⟨update, routed, outcome, -, -, hrouted, rfl⟩
    · have hc : next.cancelled = some true := (mergedState_ok hm).2.2.2.2.1
      unfold advanceBranch at hp
      rw [if_pos (.inl hc)] at hp
      cases hp
    · exact hb.advance h hid hn hrouted hm hp
  · rw [hstate, mergedState_quiet hquiet.1 hm]
    exact hb.counts id cls

theorem BranchPlaced.complete {f j : String} {main : WorkflowStateV1} {b b' : Branch} (hb : BranchPlaced spec f j main b)
    (h : completeBranch b = .ok b') : b'.child = b.child ∧ BranchPlaced spec f j main b' := by
  unfold completeBranch at h
  split at h
  · cases h
  · rename_i next hm
    cases h
    obtain ⟨i, hi, hcolon⟩ := hb.identity
    refine ⟨rfl, hb.child, ⟨i, ?_, hcolon⟩, fun id hp => absurd hp (by simp), fun id cls => ?_⟩
    · rw [(mergedState_ok hm).2.2.2.2.2.1]
      exact hi
    · rw [mergedState_quiet (quiet_of_counters rfl) hm]
      exact hb.counts id cls

/-- The branches a fan-out sends. -/
theorem BranchPlaced.sendTo (h : Checked spec snapshot) {children : List String} {j : String} {maxFanout : Nat}
    (hn : node ∈ spec.nodes) (hconfig : node.config = .fanout children j maxFanout) (state : WorkflowStateV1) :
    ∀ b ∈ children.map (sendTo state node.id), BranchPlaced spec node.id j state b := by
  intro b hb
  obtain ⟨child, hchild, rfl⟩ := List.mem_map.mp hb
  have hc : IsChild spec node.id j child := ⟨node, hn, rfl, children, maxFanout, hconfig, hchild⟩
  refine ⟨hc, ⟨_, rfl, ?_⟩, fun id hp => ?_, fun _ _ => rfl⟩
  · rw [childId_toList]
    simp
  · cases hp
    exact (h.regionChecked hc).child_mem_region

/-- Merging the branches leaves the retry counters. -/
theorem mergeBranches_counts {f j : String} : ∀ {branches : List Branch} {state next : WorkflowStateV1},
    (∀ b ∈ branches, BranchPlaced spec f j state b) → mergeBranches state branches = .ok next →
      next.childIdentity = state.childIdentity ∧ (∀ key, state.counter key ≤ next.counter key) ∧
      ∀ id cls, next.counter (retryKey id cls) = state.counter (retryKey id cls) := by
  intro branches
  induction branches with
  | nil =>
    intro state next _ h
    cases h
    exact ⟨rfl, fun _ => le_refl _, fun _ _ => rfl⟩
  | cons b branches ih =>
    intro state next hb h
    unfold mergeBranches at h
    split at h
    · cases h
    · rename_i merged hm
      have hsame : ∀ id cls, merged.counter (retryKey id cls) = state.counter (retryKey id cls) := by
        intro id cls
        have hcount := (hb b List.mem_cons_self).counts id cls
        unfold WorkflowStateV1.counter Dict.getD at hcount
        rw [mergedState_counter hm]
        cases hg : ((branchOutput b.state).counters.getD .empty).get? (retryKey id cls) with
        | none => rfl
        | some value =>
          have hvalue : (b.state.counters.getD .empty).get? (retryKey id cls) = some value := hg
          rw [hvalue] at hcount
          simp only [Option.map_some, Option.getD_some]
          exact max_eq_left (le_of_eq hcount)
      obtain ⟨hident, hle, hcounts⟩ := ih (fun b' hb' =>
        have hb' := hb b' (List.mem_cons_of_mem _ hb')
        ⟨hb'.child, hb'.identity, hb'.place, fun id cls => (hb'.counts id cls).trans (hsame id cls).symm⟩) h
      refine ⟨hident.trans (mergedState_ok hm).2.2.2.2.2.1, fun key => ?_, fun id cls => (hcounts id cls).trans (hsame id cls)⟩
      exact (counter_le_mergedState hm key).trans (hle key)

/-! ## Sites -/

theorem find?_replaceBranch {b' : Branch} {child : String} (h : child ≠ b'.child) : ∀ branches : List Branch,
    (replaceBranch branches b').find? (fun b => b.child = child) = branches.find? fun b => b.child = child := by
  intro branches
  induction branches with
  | nil => rfl
  | cons b branches ih =>
    have hcons : replaceBranch (b :: branches) b' =
        (if b.child = b'.child then b' else b) :: replaceBranch branches b' := rfl
    rw [hcons]
    by_cases hb : b.child = b'.child
    · rw [if_pos hb, List.find?_cons_of_neg (by simpa using Ne.symm h),
        List.find?_cons_of_neg (by simpa [hb] using Ne.symm h), ih]
    · rw [if_neg hb]
      by_cases hc : b.child = child
      · rw [List.find?_cons_of_pos (by simpa using hc), List.find?_cons_of_pos (by simpa using hc)]
      · rw [List.find?_cons_of_neg (by simpa using hc), List.find?_cons_of_neg (by simpa using hc), ih]

theorem site_main {r : Run} {state : WorkflowStateV1} (h : site spec r none = some (node, state)) :
    r.place = .node node.id ∧ spec.node? node.id = some node ∧ state = r.state := by
  unfold site at h
  dsimp only at h
  split at h
  · rename_i id hplace
    obtain ⟨_, hnode, he⟩ := Option.map_eq_some_iff.mp h
    cases he
    obtain ⟨-, rfl⟩ := WorkflowSpec.node?_eq_some.mp hnode
    exact ⟨hplace, hnode, rfl⟩
  · cases h

/-- The branch a child graph is. -/
structure BranchAt (r : Run) (child : String) (b : Branch) (f j : String) (branches : List Branch) : Prop where
  place : r.place = .parallel f j branches
  find : branches.find? (fun b => b.child = child) = some b

theorem BranchAt.mem {r : Run} {child f j : String} {b : Branch} {branches : List Branch}
    (h : BranchAt r child b f j branches) : b ∈ branches := List.mem_of_find?_eq_some h.find

theorem BranchAt.child {r : Run} {child f j : String} {b : Branch} {branches : List Branch}
    (h : BranchAt r child b f j branches) : b.child = child := by simpa using List.find?_some h.find

theorem site_branch {r : Run} {child : String} {state : WorkflowStateV1} (h : site spec r (some child) = some (node, state)) :
    ∃ b f j branches, BranchAt r child b f j branches ∧ b.place = .node node.id ∧ spec.node? node.id = some node ∧
      state = b.state := by
  unfold site at h
  dsimp only at h
  split at h
  · rename_i b hfind
    split at h
    · rename_i id hbplace
      obtain ⟨_, hnode, he⟩ := Option.map_eq_some_iff.mp h
      cases he
      obtain ⟨-, rfl⟩ := WorkflowSpec.node?_eq_some.mp hnode
      cases hplace : r.place with
      | parallel f j branches =>
        have hbranches : r.branches = branches := by
          unfold Run.branches
          rw [hplace]
        rw [hbranches] at hfind
        exact ⟨b, f, j, branches, ⟨hplace, hfind⟩, hbplace, hnode, rfl⟩
      | _ =>
        have hbranches : r.branches = [] := by
          unfold Run.branches
          rw [hplace]
        rw [hbranches] at hfind
        cases hfind
    · cases h
  · cases h

/-- Only a fan-out has sites of children. -/
theorem site_child_none {r : Run} (h : ∀ f j branches, r.place ≠ .parallel f j branches) (child : String) :
    site spec r (some child) = none := by
  cases hs : site spec r (some child) with
  | none => rfl
  | some at' =>
    obtain ⟨_, _, _, _, hb, -⟩ := @site_branch spec at'.1 r child at'.2 hs
    exact absurd hb.place (h _ _ _)

/-- Moving a branch leaves the sites of the others. -/
theorem site_replaceBranch {r : Run} {f j : String} {branches : List Branch} (hplace : r.place = .parallel f j branches)
    {b' : Branch} {child : String} (h : child ≠ b'.child) (log : List Execution) :
    site spec ⟨r.state, .parallel f j (replaceBranch branches b'), r.supersteps, log⟩ (some child) =
      site spec r (some child) := by
  unfold site
  dsimp only [Run.branches]
  rw [find?_replaceBranch h, hplace]

/-! ## The invariant -/

/-- What a graph has in flight at its node. -/
def InFlight (spec : WorkflowSpec) (snapshot : WorkflowResolvedSnapshot) (store : Store) (node : WorkflowNode)
    (state : WorkflowStateV1) : Flight → Prop
  | .recorded update => update = cancelUpdate ∨ Kept store (executionId state node.id) update
  | .observed update => update = cancelUpdate ∨ ∃ kept routed outcome, Kept store (executionId state node.id) kept ∧
      routedUpdate spec snapshot node state kept = .ok routed ∧ update = { routed with outcome := outcome }

theorem InFlight.grows {store later : Store} {state : WorkflowStateV1} {f : Flight} (h : InFlight spec snapshot store node state f)
    (hg : Grows store later) : InFlight spec snapshot later node state f := by
  cases f with
  | recorded update => exact h.imp id fun hk => hk.grows hg
  | observed update =>
    exact h.imp id fun ⟨kept, routed, outcome, hk, hr⟩ => ⟨kept, routed, outcome, hk.grows hg, hr⟩

theorem Committed.grows {store later : Store} {state : WorkflowStateV1} (h : Committed spec snapshot node store state)
    (hg : Grows store later) (hc : later.retryCounters = store.retryCounters) : Committed spec snapshot node later state := by
  obtain ⟨kept, routed, hk, hr, hcount⟩ := h
  refine ⟨kept, routed, hk.grows hg, hr, fun id cls => ?_⟩
  rw [← hcount]
  unfold Store.consumed
  rw [hc]

/-- An applied key of the main graph is of a visit that has its checkpoint, or of the node the graph is at. -/
def AppliedOnce (r : Run) (store : Store) : Prop :=
  ∀ id visit, ':' ∉ id.toList → "route:" ++ execKey "main" id visit ∈ store.routes →
    visit ≤ r.state.counter (visitKey id) ∨ r.place = .ended ∨
      (r.place = .node id ∧ visit = r.state.counter (visitKey id) + 1)

/-- At most one ahead. -/
def Ahead (store : Store) (state : WorkflowStateV1) : Prop :=
  ∀ id cls, store.consumed id cls = state.counter (retryKey id cls) ∨
    store.consumed id cls = state.counter (retryKey id cls) + 1

def Accounts (spec : WorkflowSpec) (snapshot : WorkflowResolvedSnapshot) (r : Run) (store : Store) : Prop :=
  match r.place with
  | .node id => (spec.node? id = none → Even store r.state) ∧ ∀ node, spec.node? id = some node →
      (appliedKey r.state node.id ∉ store.routes ∧ Even store r.state) ∨
      (appliedKey r.state node.id ∈ store.routes ∧ Committed spec snapshot node store r.state)
  | .ended => Even store r.state ∨ r.state.cancelled = some true ∧ Ahead store r.state
  | _ => Even store r.state

theorem Accounts.even {r : Run} {store : Store} (h : Accounts spec snapshot r store) {f j : String} {branches : List Branch}
    (hp : r.place = .parallel f j branches) : Even store r.state := by
  unfold Accounts at h
  rw [hp] at h
  exact h

/-- The rows of a run and its graph. -/
structure Accounted (spec : WorkflowSpec) (snapshot : WorkflowResolvedSnapshot) (s : Durable) : Prop where
  main : s.run.state.childIdentity = none
  nonneg : ∀ id cls, 0 ≤ s.run.state.counter (retryKey id cls)
  branches : ∀ f j branches, s.run.place = .parallel f j branches → ∀ b ∈ branches, BranchPlaced spec f j s.run.state b
  rows : ∀ key update, s.store.result? key = some update → reportedChecks update = .ok () →
    update = cancelUpdate ∨ RowLive key update
  flights : ∀ who f, s.flight who = some f → (∃ e, s.run.place = .raised e) ∨
    ∃ node state, site spec s.run who = some (node, state) ∧ InFlight spec snapshot s.store node state f
  observed : ∀ node state update, site spec s.run none = some (node, state) → s.flight none = some (.observed update) →
    update = cancelUpdate ∨ appliedKey state node.id ∈ s.store.routes
  applied : AppliedOnce s.run s.store
  accounts : Accounts spec snapshot s.run s.store
  limits : Limits spec snapshot s.store

theorem Accounted.rowLive {s : Durable} (h : Accounted spec snapshot s) {key : String} {update : WorkflowStateV1}
    (hk : Kept s.store key update) : RowLive key update := by
  rcases h.rows key update hk.result hk.checks with rfl | hlive
  · exact absurd rfl hk.live
  · exact hlive

theorem site_raised {r : Run} {e : Raised} (h : r.place = .raised e) (who : Option String) : site spec r who = none := by
  cases who with
  | none =>
    unfold site
    rw [h]
  | some child => exact site_child_none (fun f j branches hp => by rw [h] at hp; cases hp) child

theorem Accounted.inFlight {s : Durable} (h : Accounted spec snapshot s) {who : Option String} {f : Flight}
    {state : WorkflowStateV1} (hs : site spec s.run who = some (node, state)) (hw : s.flight who = some f) :
    InFlight spec snapshot s.store node state f := by
  rcases h.flights who f hw with ⟨e, he⟩ | ⟨_, _, hs', hin⟩
  · rw [site_raised he] at hs
    cases hs
  · rw [hs] at hs'
    cases hs'
    exact hin

theorem Accounted.init : Accounted spec snapshot Durable.init where
  main := rfl
  nonneg := fun _ _ => le_refl _
  branches := fun _ _ _ h => by cases h
  rows := fun key update h => by cases h
  flights := fun _ _ h => by cases h
  observed := fun _ _ _ _ h => by cases h
  applied := fun _ _ _ h => absurd h List.not_mem_nil
  accounts := fun _ _ => rfl
  limits := fun _ _ _ h => by cases h

/-- A process that stops loses what it had in flight, and nothing else. -/
theorem Accounted.drop {s : Durable} (h : Accounted spec snapshot s) {flight : Option String → Option Flight}
    (hf : ∀ who f, flight who = some f → s.flight who = some f) : Accounted spec snapshot { s with flight := flight } :=
  ⟨h.main, h.nonneg, h.branches, h.rows, fun who f hw => h.flights who f (hf who f hw),
    fun node state update hs hw => h.observed node state update hs (hf none _ hw), h.applied, h.accounts, h.limits⟩

theorem setFlight_none {flight : Option String → Option Flight} {who who' : Option String} {f : Flight}
    (h : setFlight flight who none who' = some f) : flight who' = some f ∧ who' ≠ who := by
  unfold setFlight at h
  split at h
  · cases h
  · rename_i hne
    exact ⟨h, hne⟩

theorem setFlight_some {flight : Option String → Option Flight} {who who' : Option String} {f g : Flight}
    (h : setFlight flight who (some g) who' = some f) : who' = who ∧ f = g ∨ who' ≠ who ∧ flight who' = some f := by
  unfold setFlight at h
  split at h
  · rename_i he
    exact .inl ⟨he, (Option.some.inj h).symm⟩
  · rename_i hne
    exact .inr ⟨hne, h⟩

/-- The main graph arrives at a place with nothing in flight and even counts. -/
theorem Accounted.enter {s : Durable} (h : Accounted spec snapshot s) {run : Run} {flight : Option String → Option Flight}
    (hflight : ∀ who, flight who = none) (hmain : run.state.childIdentity = none)
    (hnonneg : ∀ id cls, 0 ≤ run.state.counter (retryKey id cls))
    (hbranches : ∀ f j branches, run.place = .parallel f j branches → ∀ b ∈ branches, BranchPlaced spec f j run.state b)
    (hvisits : ∀ id visit, ':' ∉ id.toList → "route:" ++ execKey "main" id visit ∈ s.store.routes →
      visit ≤ run.state.counter (visitKey id))
    (heven : Even s.store run.state) : Accounted spec snapshot ⟨run, s.store, flight⟩ where
  main := hmain
  nonneg := hnonneg
  branches := hbranches
  rows := h.rows
  flights := fun who f hw => absurd hw (by simp [hflight])
  observed := fun _ _ _ _ hw => absurd hw (by simp [hflight])
  applied := fun id visit hid hin => .inl (hvisits id visit hid hin)
  accounts := by
    unfold Accounts
    split
    · refine ⟨fun _ => heven, fun node _ => .inl ⟨fun hin => ?_, heven⟩⟩
      have hkey : appliedKey run.state node.id = "route:" ++ execKey "main" node.id (visitOf run.state node.id) := by
        rw [appliedKey_eq, hmain]
        rfl
      rw [hkey] at hin
      have hle := hvisits node.id _ (colon_not_mem node) hin
      rw [visitOf, invocationKey_main hmain] at hle
      omega
    · exact .inl heven
    · exact heven
  limits := h.limits

/-! ## Executing a node -/

theorem Accounted.identified {s : Durable} (h : Accounted spec snapshot s) {who : Option String} {state : WorkflowStateV1}
    (hs : site spec s.run who = some (node, state)) : Identified state := by
  cases who with
  | none =>
    obtain ⟨-, -, rfl⟩ := site_main hs
    intro i hi
    rw [h.main] at hi
    cases hi
  | some child =>
    obtain ⟨b, f, j, branches, hb, -, -, rfl⟩ := site_branch hs
    obtain ⟨i, hi, hcolon⟩ := (h.branches f j branches hb.place b hb.mem).identity
    intro i' hi'
    rw [hi] at hi'
    cases hi'
    exact hcolon

/-- What the middleware writes keeps the accounts. -/
theorem Accounted.records {s : Durable} (h : Accounted spec snapshot s) {who : Option String} {state : WorkflowStateV1}
    (hs : site spec s.run who = some (node, state)) {result : HandlerResult} {cancelled : Bool} {later : Store}
    (hr : RecordsResult spec node state result cancelled s.store later) : Accounted spec snapshot { s with store := later } where
  main := h.main
  nonneg := h.nonneg
  branches := h.branches
  rows := by
    intro key update hkey hchecks
    rcases hr.results with hsame | ⟨-, recorded, hput, hwrap⟩
    · rw [hsame] at hkey
      exact h.rows key update hkey hchecks
    · rw [hput] at hkey
      dsimp only at hkey
      split at hkey
      · rename_i he
        cases hkey
        rw [he]
        exact wrap_rowLive (h.identified hs) (hwrap hchecks)
      · exact h.rows key update hkey hchecks
  flights := by
    intro who' f hw
    exact (h.flights who' f hw).imp id fun ⟨node', state', hs', hin⟩ => ⟨node', state', hs', hin.grows hr.grows⟩
  observed := by
    intro node' state' update hs' hw
    rw [hr.routes]
    exact h.observed node' state' update hs' hw
  applied := by
    intro id visit hid hin
    rw [hr.routes] at hin
    exact h.applied id visit hid hin
  accounts := by
    have hconsumed : later.consumed = s.store.consumed := by
      funext id cls
      unfold Store.consumed
      rw [hr.retryCounters]
    have ha := h.accounts
    unfold Accounts Even Ahead at ha ⊢
    dsimp only at ha ⊢
    rw [hconsumed, hr.routes]
    split at ha
    · exact ⟨ha.1, fun node' hn => (ha.2 node' hn).imp id fun hc => ⟨hc.1, hc.2.grows hr.grows hr.retryCounters⟩⟩
    · exact ha
    · exact ha
  limits := by
    intro id cls row hrow
    rw [hr.retryCounters] at hrow
    exact h.limits id cls row hrow

/-- A graph has something in flight at its node. -/
theorem Accounted.set {s : Durable} (h : Accounted spec snapshot s) {who : Option String} {state : WorkflowStateV1}
    (hs : site spec s.run who = some (node, state)) {f : Flight} (hin : InFlight spec snapshot s.store node state f)
    (hobserved : who = none → ∀ update, f = .observed update →
      update = cancelUpdate ∨ appliedKey state node.id ∈ s.store.routes) :
    Accounted spec snapshot { s with flight := setFlight s.flight who (some f) } where
  main := h.main
  nonneg := h.nonneg
  branches := h.branches
  rows := h.rows
  flights := by
    intro who' g hw
    rcases setFlight_some hw with ⟨rfl, rfl⟩ | ⟨-, hw⟩
    · exact .inr ⟨node, state, hs, hin⟩
    · exact h.flights who' g hw
  observed := by
    intro node' state' update hs' hw
    rcases setFlight_some hw with ⟨rfl, hf⟩ | ⟨-, hw⟩
    · rw [hs] at hs'
      cases hs'
      exact hobserved rfl update hf.symm
    · exact h.observed node' state' update hs' hw
  applied := h.applied
  accounts := h.accounts
  limits := h.limits

theorem Accounted.execute {s : Durable} (h : Accounted spec snapshot s) {who : Option String} {state : WorkflowStateV1}
    (hs : site spec s.run who = some (node, state)) {desired : Desired} {result : HandlerResult} {cancelled : Bool}
    {update : WorkflowStateV1} {later : Store}
    (hw : wrapRows spec node state desired result cancelled s.store = (.returned update, later)) :
    Accounted spec snapshot { s with store := later, flight := setFlight s.flight who (some (.recorded update)) } := by
  have hr := wrapRows_recorded spec node state desired result cancelled s.store
  rw [hw] at hr
  refine (h.records hs hr).set hs ?_ fun _ _ hf => by cases hf
  obtain ⟨-, rfl, -⟩ | ⟨-, hresult, hchecks, -⟩ := wrapRows_returned hw
  · exact .inl rfl
  · rcases (h.records hs hr).rows _ _ hresult hchecks with rfl | hlive
    · exact .inl rfl
    · exact .inr ⟨hresult, hchecks, hlive.live⟩

/-! ## Observing -/

/-- The counts a graph's node starts from. -/
theorem Accounted.site_nonneg {s : Durable} (h : Accounted spec snapshot s) {who : Option String} {state : WorkflowStateV1}
    (hs : site spec s.run who = some (node, state)) (id : String) (cls : FailureClass) :
    0 ≤ state.counter (retryKey id cls) := by
  cases who with
  | none =>
    obtain ⟨-, -, rfl⟩ := site_main hs
    exact h.nonneg id cls
  | some child =>
    obtain ⟨b, f, j, branches, hb, -, -, rfl⟩ := site_branch hs
    rw [(h.branches f j branches hb.place b hb.mem).counts id cls]
    exact h.nonneg id cls

theorem Accounted.site_node {s : Durable} {who : Option String} {state : WorkflowStateV1}
    (hs : site spec s.run who = some (node, state)) : spec.node? node.id = some node := by
  cases who with
  | none => exact (site_main hs).2.1
  | some child =>
    obtain ⟨_, _, _, _, -, -, hn, -⟩ := site_branch hs
    exact hn

/-- A branch's node sets no retry counter. -/
theorem Accounted.branch_quiet (hv : Checked spec snapshot) {s : Durable} (h : Accounted spec snapshot s) {child : String}
    {state kept routed : WorkflowStateV1} (hs : site spec s.run (some child) = some (node, state)) (hquiet : Quiet kept)
    (hrouted : routedUpdate spec snapshot node state kept = .ok routed) : Quiet routed := by
  obtain ⟨b, f, j, branches, hb, hplace, hn, rfl⟩ := site_branch hs
  have hplaced := h.branches f j branches hb.place b hb.mem
  exact hplaced.quiet hv (hplaced.place _ hplace) (WorkflowSpec.node?_eq_some.mp hn).1 hquiet hrouted

/-- The observer's commit keeps the accounts: the main graph's node is then applied, a branch's moves no row. -/
theorem Accounted.observes (hv : Checked spec snapshot) {s : Durable} (h : Accounted spec snapshot s) {who : Option String}
    {state kept routed : WorkflowStateV1} (hs : site spec s.run who = some (node, state))
    (hflight : s.flight who = some (.recorded kept)) (hkept : Kept s.store (executionId state node.id) kept)
    (hrouted : routedUpdate spec snapshot node state kept = .ok routed) {later : Store}
    (hnew : appliedKey state node.id ∉ s.store.routes) (ho : Observes spec snapshot node state routed s.store later) :
    Accounted spec snapshot { s with store := later } where
  main := h.main
  nonneg := h.nonneg
  branches := h.branches
  rows := by
    rw [ho.result?]
    exact h.rows
  flights := by
    intro who' f hw
    exact (h.flights who' f hw).imp id fun ⟨node', state', hs', hin⟩ =>
      ⟨node', state', hs', hin.grows fun key update hr => by rw [ho.result?]; exact hr⟩
  observed := by
    intro node' state' update hs' hw
    cases who with
    | none =>
      rw [hflight] at hw
      cases hw
    | some child =>
      -- the main graph is at its fan-out
      obtain ⟨b, f, j, branches, hb, -⟩ := site_branch hs
      have hplace := (site_main hs').1
      rw [hb.place] at hplace
      cases hplace
  applied := by
    intro id visit hid hin
    rw [ho.routes, List.mem_append, List.mem_singleton] at hin
    rcases hin with hin | heq
    · exact h.applied id visit hid (List.mem_of_mem_drop hin)
    · obtain ⟨hident, rfl, rfl⟩ := appliedKey_inj (colon_not_mem node) hid heq.symm
      cases who with
      | none =>
        obtain ⟨hplace, -, rfl⟩ := site_main hs
        refine .inr (.inr ⟨hplace, ?_⟩)
        rw [visitOf, invocationKey_main h.main]
      | some child =>
        have hnone := (h.identified hs).main hident
        obtain ⟨b, f, j, branches, hb, -, -, rfl⟩ := site_branch hs
        obtain ⟨i, hi, -⟩ := (h.branches f j branches hb.place b hb.mem).identity
        rw [hi] at hnone
        cases hnone
  accounts := by
    cases who with
    | none =>
      obtain ⟨hplace, hn, rfl⟩ := site_main hs
      have ha := h.accounts
      unfold Accounts at ha ⊢
      dsimp only at ha ⊢
      rw [hplace] at ha ⊢
      refine ⟨fun hnone => absurd (hn.symm.trans hnone) (by simp), fun node' hn' => ?_⟩
      rw [hn] at hn'
      cases hn'
      right
      refine ⟨by rw [ho.routes]; exact List.mem_append_right _ List.mem_cons_self, ?_⟩
      rcases ha.2 node hn with ⟨-, heven⟩ | ⟨hin, -⟩
      · exact ho.committed heven hkept hrouted
      · exact absurd hin hnew
    | some child =>
      have hquiet := h.branch_quiet hv hs (h.rowLive hkept).quiet hrouted
      obtain ⟨b, f, j, branches, hb, -⟩ := site_branch hs
      have heven := h.accounts.even hb.place
      unfold Accounts
      dsimp only
      rw [hb.place]
      intro id cls
      rw [← heven id cls]
      rcases ho.counters with ⟨hsame, -⟩ | ⟨cls', _, _, hc, -⟩
      · unfold Store.consumed
        rw [hsame]
      · have hfalse := hquiet _ _ hc.count
        rw [isRetryKey_retryKey] at hfalse
        cases hfalse
  limits := ho.limits (Accounted.site_node hs) h.limits (h.site_nonneg hs node.id)

theorem Accounted.observe (hv : Checked spec snapshot) {s : Durable} (h : Accounted spec snapshot s) {who : Option String}
    {state update final : WorkflowStateV1} (hs : site spec s.run who = some (node, state))
    (hflight : s.flight who = some (.recorded update)) {later : Store}
    (ho : observeRows spec snapshot node state update s.store = .ok (final, later)) :
    Accounted spec snapshot { s with store := later, flight := setFlight s.flight who (some (.observed final)) } := by
  rcases h.inFlight hs hflight with rfl | hkept
  · -- a cancellation is not routed
    cases ho
    refine h.set hs (.inl rfl) fun _ _ hf => ?_
    cases hf
    exact .inl rfl
  · obtain ⟨routed, outcome, hrouted, rfl, hcases⟩ :=
      observeRows_ok hv (h.rowLive hkept).quiet hkept.live (h.site_nonneg hs node.id) ho
    rcases hcases with ⟨hin, rfl⟩ | ⟨hnew, hobs⟩
    · exact h.set hs (.inr ⟨update, routed, outcome, hkept, hrouted, rfl⟩) fun _ _ _ => .inr hin
    · refine (h.observes hv hs hflight hkept hrouted hnew hobs).set hs
        (.inr ⟨update, routed, outcome, ?_, hrouted, rfl⟩) fun _ _ _ => .inr ?_
      · exact hkept.grows fun key u hr => by rw [hobs.result?]; exact hr
      · rw [hobs.routes]
        exact List.mem_append_right _ List.mem_cons_self

/-! ## Checkpoints -/

theorem arrive_eq (r : Run) (node : WorkflowNode) (state : WorkflowStateV1) (log : List Execution) :
    (arrive spec r node state log).state = state ∧ (arrive spec r node state log).place = advance spec node state := by
  unfold arrive
  split
  · rename_i he
    exact ⟨rfl, he.symm⟩
  · exact ⟨rfl, rfl⟩

/-- A graph without a site has nothing in flight. -/
theorem Accounted.idle {s : Durable} (h : Accounted spec snapshot s) (hp : ∀ e, s.run.place ≠ .raised e) {who : Option String}
    (hs : site spec s.run who = none) : s.flight who = none := by
  cases hw : s.flight who with
  | none => rfl
  | some f =>
    rcases h.flights who f hw with ⟨e, he⟩ | ⟨_, _, hs', -⟩
    · exact absurd he (hp e)
    · rw [hs] at hs'
      cases hs'

/-- Nothing else is in flight while the main graph is at a node. -/
theorem Accounted.alone {s : Durable} (h : Accounted spec snapshot s) {id : String} (hplace : s.run.place = .node id)
    (who : Option String) : setFlight s.flight none none who = none := by
  unfold setFlight
  split
  · rfl
  · rename_i hne
    cases who with
    | none => exact absurd rfl hne
    | some child =>
      refine h.idle (fun e he => ?_) (site_child_none (fun f j branches hp => ?_) child)
      · rw [hplace] at he
        cases he
      · rw [hplace] at hp
        cases hp

/-- The visit counter a main node's checkpoint leaves covers its applied key. -/
theorem RowLive.visited {state kept routed next : WorkflowStateV1} {outcome : Option (Dict String Json)}
    (hmain : state.childIdentity = none) (hlive : RowLive (executionId state node.id) kept)
    (hrouted : routedUpdate spec snapshot node state kept = .ok routed)
    (hm : mergedState state { routed with outcome := outcome } = .ok next) :
    visitOf state node.id ≤ next.counter (visitKey node.id) := by
  have hkey : executionId state node.id = execKey "main" node.id (visitOf state node.id) := by
    rw [executionId, hmain]
    rfl
  have hvisit := hlive.visit node.id _ (colon_not_mem node) hkey
  refine update_counter_le_mergedState hm ?_
  rcases routedUpdate_cases hrouted with ⟨rfl, -⟩ | ⟨_, route, -, hroute, -, -, rfl⟩
  · exact hvisit
  · dsimp only
    rw [Option.getD_some, Dict.get?_update_of_not_mem _ _ fun e he =>
      routeKey_ne (chooseFrom_keys hroute e he) node.id]
    exact hvisit

/-- The checkpoint of a node of the main graph. -/
theorem Accounted.checkpoint_main (hv : Checked spec snapshot) {s : Durable} (h : Accounted spec snapshot s)
    {state update next : WorkflowStateV1} {log : List Execution} (hs : site spec s.run none = some (node, state))
    (hflight : s.flight none = some (.observed update)) (hm : mergedState s.run.state update = .ok next) :
    Accounted spec snapshot ⟨arrive spec s.run node next log, s.store, setFlight s.flight none none⟩ := by
  have hin := h.inFlight hs hflight
  have hobserved := h.observed node state update hs hflight
  obtain ⟨hplace, hn, rfl⟩ := site_main hs
  obtain ⟨hstate, hnext⟩ := @arrive_eq spec s.run node next log
  have halone := h.alone hplace
  have hle := counter_le_mergedState hm
  have hnonneg : ∀ id cls, 0 ≤ next.counter (retryKey id cls) := fun id cls =>
    le_trans (h.nonneg id cls) (hle _)
  have hidentity : update.childIdentity = none := by
    rcases hin with rfl | ⟨kept, routed, outcome, hkept, hrouted, rfl⟩
    · rfl
    · rcases routedUpdate_cases hrouted with ⟨rfl, -⟩ | ⟨_, _, -, -, -, -, rfl⟩
      · exact (h.rowLive hkept).identity
      · exact (h.rowLive hkept).identity
  have hmain : next.childIdentity = none := by
    rw [(mergedState_ok hm).2.2.2.2.2.1, hidentity]
    exact h.main
  have hacc := h.accounts
  unfold Accounts at hacc
  rw [hplace] at hacc
  replace hacc := hacc.2 node hn
  rcases hin with rfl | ⟨kept, routed, outcome, hkept, hrouted, rfl⟩
  · -- the run was found cancelled: it ends where the observer left the rows
    have hc : next.cancelled = some true := (mergedState_ok hm).2.2.2.2.1
    have hended : advance spec node next = .ended := by
      unfold advance
      rw [if_pos hc]
    have hquiet := mergedState_quiet (quiet_of_counters rfl) hm
    refine ⟨by rw [hstate]; exact hmain, by rw [hstate]; exact hnonneg, fun f j branches hp => ?_, h.rows,
      fun who f hw => absurd hw (by simp [halone]), fun _ _ _ _ hw => absurd hw (by simp [halone]),
      fun id visit _ _ => .inr (.inl (by rw [hnext, hended])), ?_, h.limits⟩
    · rw [hnext, hended] at hp
      cases hp
    · unfold Accounts
      dsimp only
      rw [hnext, hended, hstate]
      rcases hacc with ⟨-, heven⟩ | ⟨-, hcommitted⟩
      · exact .inl fun id cls => (heven id cls).trans (hquiet id cls).symm
      · refine .inr ⟨hc, fun source cls => ?_⟩
        rw [hquiet]
        exact (hcommitted.ahead hv (fun u hu => (h.rowLive hu).quiet) source cls).imp id And.right
  · have hlive := h.rowLive hkept
    have hin : appliedKey s.run.state node.id ∈ s.store.routes := by
      refine hobserved.resolve_left fun he => ?_
      have hcancelled : routed.cancelled = some true := congrArg WorkflowStateV1.cancelled he
      rcases routedUpdate_cases hrouted with ⟨rfl, -⟩ | ⟨_, _, -, -, -, -, rfl⟩
      · exact hlive.live hcancelled
      · exact hlive.live hcancelled
    have heven : Even s.store next := by
      rcases hacc with ⟨hnot, -⟩ | ⟨-, hcommitted⟩
      · exact absurd hin hnot
      · exact hcommitted.checkpoint hv hkept hlive.quiet hrouted hm
    refine h.enter halone (by rw [hstate]; exact hmain) (by rw [hstate]; exact hnonneg) (fun f j branches hp => ?_)
      (fun id visit hid hroute => ?_) (by rw [hstate]; exact heven)
    · rw [hnext] at hp
      obtain ⟨children, maxFanout, hconfig, rfl, rfl⟩ := advance_parallel hp
      rw [hstate]
      exact BranchPlaced.sendTo hv (WorkflowSpec.node?_eq_some.mp hn).1 hconfig next
    · rw [hstate]
      rcases h.applied id visit hid hroute with hcovered | hended | ⟨hat, rfl⟩
      · exact le_trans hcovered (hle _)
      · rw [hplace] at hended
        cases hended
      · rw [hplace] at hat
        cases hat
        have hvisited := hlive.visited h.main hrouted hm
        rw [visitOf, invocationKey_main h.main] at hvisited
        exact hvisited

/-- A branch that moved, with nothing of it in flight. -/
theorem Accounted.moved {s : Durable} (h : Accounted spec snapshot s) {f j : String} {branches : List Branch}
    (hplace : s.run.place = .parallel f j branches) {b' : Branch} (hb' : BranchPlaced spec f j s.run.state b')
    {log : List Execution} {flight : Option String → Option Flight}
    (hflight : ∀ who g, flight who = some g → s.flight who = some g ∧ who ≠ some b'.child) :
    Accounted spec snapshot
      ⟨⟨s.run.state, .parallel f j (replaceBranch branches b'), s.run.supersteps, log⟩, s.store, flight⟩ where
  main := h.main
  nonneg := h.nonneg
  branches := by
    intro f' j' branches' hp b hb
    cases hp
    obtain ⟨old, hold, rfl⟩ := List.mem_map.mp hb
    split
    · exact hb'
    · exact h.branches f j branches hplace old hold
  rows := h.rows
  flights := by
    intro who g hw
    obtain ⟨hw, hne⟩ := hflight who g hw
    rcases h.flights who g hw with ⟨e, he⟩ | ⟨node, state, hs, hin⟩
    · rw [hplace] at he
      cases he
    cases who with
    | none =>
      rw [(site_main hs).1] at hplace
      cases hplace
    | some child =>
      refine .inr ⟨node, state, ?_, hin⟩
      rw [site_replaceBranch hplace (fun he => hne (by rw [he])) log]
      exact hs
  observed := by
    intro node state update hs
    cases (site_main hs).1
  applied := by
    intro id visit hid hin
    rcases h.applied id visit hid hin with hcovered | hended | ⟨hat, -⟩
    · exact .inl hcovered
    · rw [hplace] at hended
      cases hended
    · rw [hplace] at hat
      cases hat
  accounts := h.accounts.even hplace
  limits := h.limits

theorem Accounted.checkpointed (hv : Checked spec snapshot) {s : Durable} (h : Accounted spec snapshot s) {who : Option String}
    {state update : WorkflowStateV1} (hs : site spec s.run who = some (node, state))
    (hflight : s.flight who = some (.observed update)) :
    Accounted spec snapshot { s with
      run := (checkpoint spec s.run who node update).getD s.run
      flight := setFlight s.flight who none } := by
  cases hc : checkpoint spec s.run who node update with
  | none => exact h.drop fun who' f hw => (setFlight_none hw).1
  | some run =>
    rw [Option.getD_some]
    cases who with
    | none =>
      obtain ⟨next, hm, rfl⟩ := Option.map_eq_some_iff.mp hc
      exact h.checkpoint_main hv hs hflight (Steps.toOption_ok hm)
    | some child =>
      obtain ⟨b, f, j, branches, hb, hplace, hn, rfl⟩ := site_branch hs
      unfold checkpoint at hc
      dsimp only at hc
      rw [hb.place] at hc
      dsimp only at hc
      rw [hb.find, Option.bind_some] at hc
      obtain ⟨next, hm, rfl⟩ := Option.map_eq_some_iff.mp hc
      have hm := Steps.toOption_ok hm
      have hplaced := h.branches f j branches hb.place b hb.mem
      have hin := h.inFlight hs hflight
      have hnext : BranchPlaced spec f j s.run.state (arriveBranch spec j b node next) := by
        refine hplaced.checkpoint hv (hplaced.place _ hplace) (WorkflowSpec.node?_eq_some.mp hn).1 hm ?_
        exact hin.imp id fun ⟨kept, routed, outcome, hkept, hrouted, he⟩ =>
          ⟨kept, routed, outcome, (h.rowLive hkept).quiet, (h.rowLive hkept).identity, hrouted, he⟩
      refine h.moved hb.place hnext fun who' g hw => ?_
      rw [arriveBranch_eq j b node next |>.1, hb.child]
      exact setFlight_none hw

/-! ## Steps of the graph that execute no node -/

/-- A graph that raised goes nowhere. -/
theorem Accounted.raise {s : Durable} (h : Accounted spec snapshot s) {f j : String} {branches : List Branch}
    (hplace : s.run.place = .parallel f j branches) (e : Raised) (supersteps : Nat) (log : List Execution) :
    Accounted spec snapshot { s with run := ⟨s.run.state, .raised e, supersteps, log⟩ } where
  main := h.main
  nonneg := h.nonneg
  branches := fun _ _ _ hp => by cases hp
  rows := h.rows
  flights := fun _ _ _ => .inl ⟨e, rfl⟩
  observed := fun _ _ _ hs => by cases (site_main hs).1
  applied := fun id visit hid hin => by
    rcases h.applied id visit hid hin with hcovered | hended | ⟨hat, -⟩
    · exact .inl hcovered
    · rw [hplace] at hended
      cases hended
    · rw [hplace] at hat
      cases hat
  accounts := h.accounts.even hplace
  limits := h.limits

/-- A branch that is at no node has nothing in flight. -/
theorem Accounted.branch_idle {s : Durable} (h : Accounted spec snapshot s) {f j child : String} {branches : List Branch}
    {b : Branch} (hb : BranchAt s.run child b f j branches) (hplace : ∀ id, b.place ≠ .node id) :
    s.flight (some child) = none := by
  refine h.idle (fun e he => ?_) ?_
  · rw [hb.place] at he
    cases he
  · cases hs : site spec s.run (some child) with
    | none => rfl
    | some at' =>
      obtain ⟨b₂, f₂, j₂, branches₂, hb₂, hat, -⟩ := @site_branch spec at'.1 s.run child at'.2 hs
      have hp := hb₂.place
      rw [hb.place] at hp
      cases hp
      have hf := hb₂.find
      rw [hb.find] at hf
      cases hf
      exact absurd hat (hplace _)

theorem Accounted.start {s : Durable} (h : Accounted spec snapshot s) (hplace : s.run.place = .start) :
    Accounted spec snapshot { s with run := ⟨s.run.state, .node spec.entrypoint, s.run.supersteps + 1, s.run.log⟩ } := by
  have heven : Even s.store s.run.state := by
    have ha := h.accounts
    unfold Accounts at ha
    rw [hplace] at ha
    exact ha
  refine h.enter (fun who => ?_) h.main h.nonneg (fun _ _ _ hp => by cases hp) (fun id visit hid hin => ?_) heven
  · refine h.idle (fun e he => by rw [hplace] at he; cases he) ?_
    cases who with
    | none =>
      unfold site
      rw [hplace]
    | some child => exact site_child_none (fun f j branches hp => by rw [hplace] at hp; cases hp) child
  · rcases h.applied id visit hid hin with hcovered | hended | ⟨hat, -⟩
    · exact hcovered
    · rw [hplace] at hended
      cases hended
    · rw [hplace] at hat
      cases hat

theorem Accounted.join {s : Durable} (h : Accounted spec snapshot s) {f j : String} {branches : List Branch}
    (hplace : s.run.place = .parallel f j branches) (hended : ∀ b ∈ branches, b.place = .ended) {next : WorkflowStateV1}
    (hm : mergeBranches s.run.state branches = .ok next) :
    Accounted spec snapshot { s with run := ⟨next, .node j, s.run.supersteps + 1, s.run.log⟩ } := by
  obtain ⟨hident, hle, hcounts⟩ := mergeBranches_counts (h.branches f j branches hplace) hm
  have heven := h.accounts.even hplace
  refine h.enter (fun who => ?_) (hident.trans h.main) (fun id cls => le_trans (h.nonneg id cls) (hle _))
    (fun _ _ _ hp => by cases hp) (fun id visit hid hin => ?_) fun id cls => (heven id cls).trans (hcounts id cls).symm
  · cases who with
    | none =>
      refine h.idle (fun e he => by rw [hplace] at he; cases he) ?_
      unfold site
      rw [hplace]
    | some child =>
      cases hfind : branches.find? fun b => b.child = child with
      | some b =>
        have hb : BranchAt s.run child b f j branches := ⟨hplace, hfind⟩
        exact h.branch_idle hb fun id hp => by rw [hended b hb.mem] at hp; cases hp
      | none =>
        refine h.idle (fun e he => by rw [hplace] at he; cases he) ?_
        unfold site
        dsimp only [Run.branches]
        rw [hplace]
        dsimp only
        rw [hfind]
  · rcases h.applied id visit hid hin with hcovered | hended' | ⟨hat, -⟩
    · exact le_trans hcovered (hle _)
    · rw [hplace] at hended'
      cases hended'
    · rw [hplace] at hat
      cases hat

theorem Accounted.graph {s : Durable} (h : Accounted spec snapshot s) {action : Action} {run : Run}
    (hnode : ∀ attempt, action ≠ .exec attempt) (hchild : ∀ child attempt, action ≠ .child child attempt)
    (hs : step spec snapshot s.run action = some run) : Accounted spec snapshot { s with run := run } := by
  cases action with
  | exec attempt => exact absurd rfl (hnode attempt)
  | child child attempt => exact absurd rfl (hchild child attempt)
  | start =>
    unfold step at hs
    dsimp only at hs
    split at hs
    · rename_i hplace
      cases hs
      exact h.start hplace
    · cases hs
  | complete child =>
    unfold step at hs
    dsimp only at hs
    split at hs
    · rename_i f j branches hplace
      split at hs
      · rename_i b hfind
        split at hs
        · rename_i hbplace
          cases hs
          have hb : BranchAt s.run child b f j branches := ⟨hplace, hfind⟩
          unfold moveBranch
          cases hc : completeBranch b with
          | error e => exact h.raise hplace e _ _
          | ok b' =>
            obtain ⟨hchild', hb'⟩ := (h.branches f j branches hplace b hb.mem).complete hc
            refine h.moved hplace hb' fun who g hw => ⟨hw, ?_⟩
            rintro rfl
            rw [hchild', hb.child, h.branch_idle hb fun id hp => by rw [hbplace] at hp; cases hp] at hw
            cases hw
        · cases hs
      · cases hs
    · cases hs
  | join =>
    unfold step at hs
    dsimp only at hs
    split at hs
    · rename_i f j branches hplace
      split at hs
      · rename_i hended
        simp only [List.all_eq_true, decide_eq_true_eq] at hended
        split at hs
        · cases hs
          exact h.raise hplace _ _ _
        · rename_i next hm
          cases hs
          exact h.join hplace hended hm
      · cases hs
    · cases hs

/-! ## Runs -/

/-- Every step of a run keeps the accounts. -/
theorem Accounted.step (hv : Checked spec snapshot) {s s' : Durable} (h : Accounted spec snapshot s) {action : DurableAction}
    (hs : durableStep spec snapshot s action = some s') : Accounted spec snapshot s' := by
  cases action with
  | graph action =>
    cases action with
    | exec attempt => cases hs
    | child child attempt => cases hs
    | start =>
      obtain ⟨run, hrun, rfl⟩ := Option.map_eq_some_iff.mp hs
      exact h.graph (by simp) (by simp) hrun
    | complete child =>
      obtain ⟨run, hrun, rfl⟩ := Option.map_eq_some_iff.mp hs
      exact h.graph (by simp) (by simp) hrun
    | join =>
      obtain ⟨run, hrun, rfl⟩ := Option.map_eq_some_iff.mp hs
      exact h.graph (by simp) (by simp) hrun
  | execute who desired result cancelled =>
    unfold durableStep at hs
    dsimp only at hs
    split at hs
    · rename_i node state hflight hsite
      split at hs
      · rename_i update later hwrap
        cases hs
        exact h.execute hsite hwrap
      · rename_i nodeEnd later hother hwrap
        cases hs
        have hr := wrapRows_recorded spec node state desired result cancelled s.store
        rw [hwrap] at hr
        exact h.records hsite hr
    · cases hs
  | observe who =>
    unfold durableStep at hs
    dsimp only at hs
    split at hs
    · rename_i update node state hflight hsite
      split at hs
      · rename_i observed later ho
        cases hs
        exact h.observe hv hsite hflight ho
      · cases hs
        exact h.drop fun who' f hw => (setFlight_none hw).1
    · cases hs
  | checkpoint who =>
    unfold durableStep at hs
    dsimp only at hs
    split at hs
    · rename_i update node state hflight hsite
      cases hs
      exact h.checkpointed hv hsite hflight
    · cases hs
  | crash =>
    cases hs
    exact h.drop fun who f hw => by cases hw

/-- The observer has committed for the node the main graph is at; its checkpoint is to come. -/
def Awaits (s : Durable) (id : String) : Prop :=
  s.run.place = .node id ∧ appliedKey s.run.state id ∈ s.store.routes

/-- How far the rows are from the graph. -/
theorem Accounted.difference (hv : Checked spec snapshot) {s : Durable} (h : Accounted spec snapshot s)
    (id : String) (cls : FailureClass) : s.store.consumed id cls = s.run.state.counter (retryKey id cls) ∨
      s.store.consumed id cls = s.run.state.counter (retryKey id cls) + 1 ∧
        (Awaits s id ∨ s.run.place = .ended ∧ s.run.state.cancelled = some true) := by
  have hacc := h.accounts
  unfold Accounts at hacc
  split at hacc
  · rename_i at' hplace
    cases hn : spec.node? at' with
    | none => exact .inl (hacc.1 hn id cls)
    | some node =>
      obtain ⟨-, rfl⟩ := WorkflowSpec.node?_eq_some.mp hn
      rcases hacc.2 node hn with ⟨-, heven⟩ | ⟨hin, hcommitted⟩
      · exact .inl (heven id cls)
      · rcases hcommitted.ahead hv (fun u hu => (h.rowLive hu).quiet) id cls with heq | ⟨rfl, hahead⟩
        · exact .inl heq
        · exact .inr ⟨hahead, .inl ⟨hplace, hin⟩⟩
  · rename_i hplace
    rcases hacc with heven | ⟨hc, hahead⟩
    · exact .inl (heven id cls)
    · rcases hahead id cls with heq | hahead
      · exact .inl heq
      · exact .inr ⟨hahead, .inr ⟨hplace, hc⟩⟩
  · exact .inl (hacc id cls)

/-- In every validated workflow the policy retries whatever the compiler retries; in every run, whatever
    stops it and wherever, the observer's commit goes through, the rows count what the graph counts, within
    the policy's maximum, and one more while a commit awaits its checkpoint or where the run was found
    cancelled before it. -/
theorem retry_accounts_agree {digests : Digests} {spec : WorkflowSpec} {snapshot : WorkflowResolvedSnapshot}
    (h : (validateWorkflow digests spec (some snapshot)).1 = true) :
    (∀ node ∈ (normalizeWorkflow spec).nodes, ∀ state route cls n,
      chooseRoute (normalizeWorkflow spec) snapshot node (routeEdges (normalizeWorkflow spec) node.id) state = .ok route →
      (retryKey node.id cls, n) ∈ route.2 → 0 < n →
      ∃ policy, observedPolicy (normalizeWorkflow spec) snapshot node = some policy ∧
        ∀ counters : FailureClass → Int, counters cls = n - 1 →
          ∃ decision, evaluateRetry policy cls counters = some decision ∧ decision.retry = true) ∧
    ∀ s, Steps.Reach (durableStep (normalizeWorkflow spec) snapshot) Durable.init s →
      (∀ who node state update routed, site (normalizeWorkflow spec) s.run who = some (node, state) →
        s.flight who = some (.recorded update) → update.cancelled ≠ some true →
        routedUpdate (normalizeWorkflow spec) snapshot node state update = .ok routed →
        ∃ committed, routeRows (normalizeWorkflow spec) snapshot node state routed s.store = .ok committed) ∧
      (∀ id cls, s.store.consumed id cls = s.run.state.counter (retryKey id cls) ∨
        s.store.consumed id cls = s.run.state.counter (retryKey id cls) + 1 ∧
          (Awaits s id ∨ s.run.place = .ended ∧ s.run.state.cancelled = some true)) ∧
      (∀ f j branches, s.run.place = .parallel f j branches → ∀ b ∈ branches, ∀ id cls,
        b.state.counter (retryKey id cls) = s.run.state.counter (retryKey id cls)) ∧
      Limits (normalizeWorkflow spec) snapshot s.store := by
  have hv := checked_of_valid h
  refine ⟨fun node hn state route cls n hroute hmem hpos => ?_, fun s hs => ?_⟩
  · rcases hv.retries hroute with hnone | ⟨cls', policy, rule, edge, ht, hretryable⟩
    · have hfalse := hnone _ hmem
      rw [isRetryKey_retryKey] at hfalse
      cases hfalse
    · rw [ht.route, List.mem_singleton] at hmem
      obtain ⟨hkey, rfl⟩ := Prod.mk.inj hmem
      obtain ⟨-, rfl⟩ := retryKey_unique hkey
      have hleft := ht.left
      refine ⟨policy, ht.observed, fun counters hcount => ?_⟩
      obtain ⟨decision, hdecision, hretry, -⟩ := @evaluateRetry_retries policy cls rule ht.ruled hretryable counters
        (by omega) (by omega)
      exact ⟨decision, hdecision, hretry⟩
  · have hacc : Accounted (normalizeWorkflow spec) snapshot s :=
      hs.invariant _ Accounted.init fun _ _ _ ha _ hstep => ha.step hv hstep
    refine ⟨fun who node state update routed hsite hflight hlive hrouted => ?_, hacc.difference hv,
      fun f j branches hplace b hb => (hacc.branches f j branches hplace b hb).counts, hacc.limits⟩
    rcases hacc.inFlight hsite hflight with rfl | hkept
    · exact absurd rfl hlive
    · obtain ⟨outcome, later, hrows, -⟩ := routeRows_ok hv (hacc.rowLive hkept).quiet (hacc.site_nonneg hsite node.id) hrouted
      exact ⟨_, hrows⟩

/-- A timeout, its retry observed, the process lost; the replay finds the run cancelled. -/
def cancelledRetry : List DurableAction :=
  [.graph .start, .execute none .running (.raises .infrastructureTimeout) false, .observe none, .crash,
    .execute none .cancelled .breaks false, .observe none, .checkpoint none]

theorem retry_accounts_agree_retriedBuild :
    (validateWorkflow sampleDigests retriedBuild (some sampleSnapshot)).1 = true ∧
    Limits (normalizeWorkflow retriedBuild) sampleSnapshot
      ((Steps.run (durableStep (normalizeWorkflow retriedBuild) sampleSnapshot) Durable.init
        (cancelledRetry.take 3)).getD Durable.init).store := by
  have h : (validateWorkflow sampleDigests retriedBuild (some sampleSnapshot)).1 = true := by decide
  refine ⟨h, ?_⟩
  cases hrun : Steps.run (durableStep (normalizeWorkflow retriedBuild) sampleSnapshot) Durable.init (cancelledRetry.take 3) with
  | none => exact ((retry_accounts_agree h).2 _ .init).2.2.2
  | some s => exact ((retry_accounts_agree h).2 s (Steps.run_reach _ hrun)).2.2.2

/-- The checkpoint that ends the cancelled run leaves the row one ahead of the graph. -/
theorem cancelled_keeps_retry :
    (validateWorkflow sampleDigests retriedBuild (some sampleSnapshot)).1 = true ∧
    ∃ s, Steps.Reach (durableStep (normalizeWorkflow retriedBuild) sampleSnapshot) Durable.init s ∧
      s.run.place = .ended ∧ s.store.consumed "build" .infrastructureTimeout = 1 ∧
      s.run.state.counter (retryKey "build" .infrastructureTimeout) = 0 := by
  refine ⟨by decide, ?_⟩
  have hrun : (Steps.run (durableStep (normalizeWorkflow retriedBuild) sampleSnapshot) Durable.init cancelledRetry).any
      (fun s => s.run.ended &&
        decide (s.store.consumed "build" .infrastructureTimeout = 1) &&
        decide (s.run.state.counter (retryKey "build" .infrastructureTimeout) = 0)) = true := by
    decide +kernel
  obtain ⟨s, hs, hcheck⟩ := (Option.any_eq_true _ _).mp hrun
  simp only [Bool.and_eq_true, decide_eq_true_eq] at hcheck
  exact ⟨s, Steps.run_reach _ hs, Run.ended_iff.mp hcheck.1.1, hcheck.1.2, hcheck.2⟩

end Jarvis.Workflows
