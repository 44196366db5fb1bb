/-
  Jarvis.Repositories.Scheduling — which worker of a frozen pool a run gets
  (`workers/scheduler.py`: `select_worker`).

  `Leads` and `Preferred` say what the selection means: of the eligible workers the one with the
  smallest revision speaks for its physical resource, and the least loaded resource is taken,
  ties broken by its name (`selectWorker_eq_some`). Loads are compared as doubles, which for the
  capacities that are frozen is the order of the exact ratios (`selectWorker_exact`). Times are in
  one unit of the clock.
-/
import Mathlib.Data.List.MinMax
import Mathlib.Data.Prod.Lex
import Mathlib.Data.Rat.Defs
import Mathlib.Algebra.Order.Field.Rat
import Mathlib.Data.String.Basic
import Jarvis.Lib.Binary64
import Jarvis.Lib.Keyed

namespace Jarvis.Repositories

/-- `EligibleWorker`. -/
structure EligibleWorker where
  revisionId : Nat
  physicalResourceId : String
  capabilities : List String
  permittedProjectIds : List Nat
  executionProfileIds : List Nat
  capacity : Nat
  slotsInUse : Nat
  health : String
  observedAt : Option Int
  enabled : Bool := true
  deriving DecidableEq, Repr

/-- `AssignmentRequest`, without what only `fair_order` reads. -/
structure AssignmentRequest where
  projectId : Nat
  requiredCapabilities : List String
  executionProfileIds : List Nat
  healthFreshness : Int
  deriving DecidableEq, Repr

/-- The vetoes of `select_worker`. -/
def eligible (request : AssignmentRequest) (now : Int) (disabledRevisionIds : List Nat) (disabledResourceIds : List String)
    (allowSaturated : Bool) (worker : EligibleWorker) : Bool :=
  worker.enabled && !disabledRevisionIds.contains worker.revisionId &&
    !disabledResourceIds.contains worker.physicalResourceId && worker.health == "healthy" &&
    (worker.observedAt.any fun observed => decide (now - observed ≤ request.healthFreshness)) &&
    (worker.permittedProjectIds.isEmpty || worker.permittedProjectIds.contains request.projectId) &&
    (request.requiredCapabilities.all worker.capabilities.contains) &&
    (request.executionProfileIds.all worker.executionProfileIds.contains) &&
    (allowSaturated || decide (worker.slotsInUse < worker.capacity))

/-- One eligible worker for each physical resource. -/
def place (byResource : List EligibleWorker) (worker : EligibleWorker) : List EligibleWorker :=
  match byResource.find? fun existing => existing.physicalResourceId = worker.physicalResourceId with
  | none => byResource ++ [worker]
  | some existing =>
    if worker.revisionId < existing.revisionId then
      Keyed.replace EligibleWorker.physicalResourceId worker.physicalResourceId (fun _ => worker) byResource
    else byResource

/-- The load of a resource as a double, its name and the revision. A capacity is at least 1, so the
    division does not raise. -/
def EligibleWorker.load (worker : EligibleWorker) : ℚ≥0 ×ₗ (String ×ₗ Nat) :=
  toLex (Binary64.div worker.slotsInUse worker.capacity, toLex (worker.physicalResourceId, worker.revisionId))

/-- `select_worker`. -/
def selectWorker (request : AssignmentRequest) (frozenWorkers : List EligibleWorker) (now : Int)
    (disabledRevisionIds : List Nat := []) (disabledResourceIds : List String := []) (allowSaturated : Bool := false) :
    Option EligibleWorker × String :=
  let isEligible := eligible request now disabledRevisionIds disabledResourceIds allowSaturated
  match ((frozenWorkers.filter isEligible).foldl place []).argmin EligibleWorker.load with
  | none => (none, "waiting_for_eligible_worker_capacity")
  | some selected => (some selected, "selected")

/-! ## What is selected -/

/-- A worker speaks for its resource: no other one on it has a smaller revision. -/
def Leads (workers : List EligibleWorker) (worker : EligibleWorker) : Prop :=
  worker ∈ workers ∧ ∀ other ∈ workers, other.physicalResourceId = worker.physicalResourceId →
    worker.revisionId ≤ other.revisionId

/-- The least loaded of the workers that speak for a resource. -/
def Preferred (workers : List EligibleWorker) (worker : EligibleWorker) : Prop :=
  Leads workers worker ∧ ∀ other, Leads workers other → worker.load ≤ other.load

instance (workers : List EligibleWorker) (worker : EligibleWorker) : Decidable (Leads workers worker) :=
  inferInstanceAs (Decidable (_ ∧ _))

/-- A revision names one worker of the list. -/
def OneEach (workers : List EligibleWorker) : Prop :=
  ∀ a ∈ workers, ∀ b ∈ workers, a.revisionId = b.revisionId → a = b

/-- Resources are distinct, and exactly the leading workers of those seen so far are placed. -/
structure Placed (workers placed : List EligibleWorker) : Prop where
  distinct : (placed.map EligibleWorker.physicalResourceId).Nodup
  leads : ∀ worker, worker ∈ placed ↔ Leads workers worker

variable {workers placed : List EligibleWorker} {worker : EligibleWorker}

/-- A resource with a worker has one that speaks for it. -/
theorem exists_leads (hworker : worker ∈ workers) :
    ∃ leader, Leads workers leader ∧ leader.physicalResourceId = worker.physicalResourceId := by
  have hmem : worker ∈ workers.filter fun v => v.physicalResourceId = worker.physicalResourceId := by simp [hworker]
  cases hleader : (workers.filter fun v => v.physicalResourceId = worker.physicalResourceId).argmin EligibleWorker.revisionId with
  | none =>
    rw [List.argmin_eq_none] at hleader
    exact absurd (hleader ▸ hmem) List.not_mem_nil
  | some leader =>
    have hin := List.mem_filter.mp (List.argmin_mem hleader)
    have hres : leader.physicalResourceId = worker.physicalResourceId := by simpa using hin.2
    refine ⟨leader, ⟨hin.1, fun other hother hsame => ?_⟩, hres⟩
    exact List.le_of_mem_argmin (List.mem_filter.mpr ⟨hother, by simp [hsame, hres]⟩) hleader

theorem Placed.nil : Placed [] [] := ⟨List.nodup_nil, fun _ => by simp [Leads]⟩

theorem leads_append (v : EligibleWorker) :
    Leads (workers ++ [worker]) v ↔
      (Leads workers v ∧ (worker.physicalResourceId = v.physicalResourceId → v.revisionId ≤ worker.revisionId)) ∨
        v = worker ∧ ∀ other ∈ workers, other.physicalResourceId = worker.physicalResourceId →
          worker.revisionId ≤ other.revisionId := by
  unfold Leads
  constructor
  · rintro ⟨hv, hle⟩
    obtain hv | hv := List.mem_append.mp hv
    · exact .inl ⟨⟨hv, fun other hother => hle other (List.mem_append_left _ hother)⟩,
        hle worker (List.mem_append_right _ List.mem_cons_self)⟩
    · obtain rfl := List.mem_singleton.mp hv
      exact .inr ⟨rfl, fun other hother => hle other (List.mem_append_left _ hother)⟩
  · rintro (⟨⟨hv, hle⟩, hnew⟩ | ⟨rfl, hle⟩)
    · refine ⟨List.mem_append_left _ hv, fun other hother => ?_⟩
      obtain hother | hother := List.mem_append.mp hother
      · exact hle other hother
      · obtain rfl := List.mem_singleton.mp hother
        exact hnew
    · refine ⟨List.mem_append_right _ List.mem_cons_self, fun other hother hres => ?_⟩
      obtain hother | hother := List.mem_append.mp hother
      · exact hle other hother hres
      · obtain rfl := List.mem_singleton.mp hother
        exact Nat.le_refl _

theorem Placed.step (h : Placed workers placed) (hone : OneEach (workers ++ [worker])) :
    Placed (workers ++ [worker]) (place placed worker) := by
  unfold place
  split
  · -- The resource is new.
    rename_i hnone
    have hnew : ∀ v ∈ workers, v.physicalResourceId ≠ worker.physicalResourceId := by
      intro v hv hres
      obtain ⟨leader, hleader, hsame⟩ := exists_leads hv
      exact absurd (List.find?_eq_none.mp hnone leader ((h.leads leader).mpr hleader)) (by simp [hsame, hres])
    refine ⟨Keyed.nodup_append h.distinct fun v hv => hnew v ((h.leads v).mp hv).1, fun v => ?_⟩
    rw [leads_append, List.mem_append, List.mem_singleton, h.leads]
    refine or_congr (iff_self_and.mpr fun hv hres => absurd hres.symm (hnew v hv.1)) (iff_self_and.mpr fun _ => ?_)
    exact fun other hother hres => absurd hres (hnew other hother)
  rename_i existing hfound
  have hin : existing ∈ placed := List.mem_of_find?_eq_some hfound
  have hres : existing.physicalResourceId = worker.physicalResourceId := by simpa using List.find?_some hfound
  have hexisting : Leads workers existing := (h.leads existing).mp hin
  split
  · rename_i hlt
    refine ⟨?_, fun v => ?_⟩
    · rw [Keyed.map_key_replace fun _ _ => rfl]
      exact h.distinct
    · rw [leads_append, ← hres, Keyed.mem_replace_of_mem h.distinct hin, h.leads]
      refine or_congr (and_congr_right fun hv => ⟨fun hne heq => absurd heq.symm hne, fun hle heq => ?_⟩)
        (iff_self_and.mpr fun _ other hother hsame => ?_)
      · have := hle heq.symm
        have := hexisting.2 v hv.1 heq
        omega
      · have := hexisting.2 other hother hsame
        omega
  · rename_i hge
    refine ⟨h.distinct, fun v => ?_⟩
    rw [leads_append, h.leads]
    constructor
    · intro hv
      refine .inl ⟨hv, fun heq => ?_⟩
      have := hv.2 existing hexisting.1 (hres.trans heq)
      omega
    · rintro (⟨hv, -⟩ | ⟨rfl, hle⟩)
      · exact hv
      · have hsame : existing.revisionId = v.revisionId := by
          have := hle existing hexisting.1 hres
          omega
        rw [← hone existing (List.mem_append_left _ hexisting.1) v (List.mem_append_right _ List.mem_cons_self) hsame]
        exact hexisting

theorem placed_foldl (hone : OneEach workers) : Placed workers (workers.foldl place []) := by
  induction workers using List.reverseRecOn with
  | nil => exact Placed.nil
  | append_singleton workers worker ih =>
    rw [List.foldl_append]
    have hbefore : OneEach workers := fun a ha b hb =>
      hone a (List.mem_append_left _ ha) b (List.mem_append_left _ hb)
    exact (ih hbefore).step hone

/-- Two workers of the same load are one. -/
theorem OneEach.eq_of_load (hone : OneEach workers) {a b : EligibleWorker} (ha : a ∈ workers) (hb : b ∈ workers)
    (h : a.load = b.load) : a = b := by
  refine hone a ha b hb ?_
  unfold EligibleWorker.load at h
  have hpair := congrArg (fun k => ofLex (ofLex k).2) h
  exact congrArg Prod.snd hpair

variable {request : AssignmentRequest} {now : Int} {disabledRevisionIds : List Nat} {disabledResourceIds : List String}
  {allowSaturated : Bool}

/-- `select_worker` returns the preferred one of the eligible workers. -/
theorem selectWorker_eq_some (hone : OneEach workers) :
    (selectWorker request workers now disabledRevisionIds disabledResourceIds allowSaturated).1 = some worker ↔
      Preferred (workers.filter (eligible request now disabledRevisionIds disabledResourceIds allowSaturated)) worker := by
  have hsub : OneEach (workers.filter (eligible request now disabledRevisionIds disabledResourceIds allowSaturated)) :=
    fun a ha b hb => hone a (List.mem_of_mem_filter ha) b (List.mem_of_mem_filter hb)
  have hplaced := placed_foldl hsub
  simp only [selectWorker, Preferred]
  constructor
  · intro h
    split at h
    · cases h
    · rename_i selected hmin
      cases h
      exact ⟨(hplaced.leads _).mp (List.argmin_mem hmin),
        fun other hother => List.le_of_mem_argmin ((hplaced.leads other).mpr hother) hmin⟩
  · rintro ⟨hleads, hle⟩
    have hin := (hplaced.leads worker).mpr hleads
    split
    · rename_i hnone
      rw [List.argmin_eq_none] at hnone
      rw [hnone] at hin
      cases hin
    · rename_i selected hmin
      have hselected := (hplaced.leads selected).mp (List.argmin_mem hmin)
      have hload : selected.load = worker.load :=
        le_antisymm (List.le_of_mem_argmin hin hmin) (hle selected hselected)
      rw [hsub.eq_of_load hselected.1 hleads.1 hload]

/-! ## Exact loads -/

/-- The load ratio itself. -/
def EligibleWorker.ratio (worker : EligibleWorker) : ℚ≥0 := worker.slotsInUse / worker.capacity

/-- What a frozen worker is built from: a capacity that `WorkerSpec` admits (`max_concurrency`), and a
    count of leases. A slot has one lease at most, and a resource 128 slots; the bound is far above. -/
structure Frozen (worker : EligibleWorker) : Prop where
  capacity_ge : 1 ≤ worker.capacity
  capacity_le : worker.capacity ≤ 128
  slots_le : worker.slotsInUse ≤ 2 ^ 44

/-- Doubles order frozen workers by their ratios. -/
theorem Frozen.ratio_le {a b : EligibleWorker} (ha : Frozen a) (hb : Frozen b) (h : a.load ≤ b.load) : a.ratio ≤ b.ratio := by
  have hfirst : Binary64.div a.slotsInUse a.capacity ≤ Binary64.div b.slotsInUse b.capacity := by
    rcases Prod.Lex.le_iff.mp h with hlt | ⟨heq, -⟩
    · exact hlt.le
    · exact heq.le
  by_contra hlt
  have hbits : b.capacity * a.slotsInUse ≤ 128 * 2 ^ 44 := Nat.mul_le_mul hb.capacity_le ha.slots_le
  exact absurd hfirst (not_le.mpr (Binary64.div_lt_div hb.capacity_ge ha.capacity_ge (by omega) (not_le.mp hlt)))

theorem preferred_congr {others : List EligibleWorker} (h : ∀ v, v ∈ others ↔ v ∈ workers) :
    Preferred others worker ↔ Preferred workers worker := by
  have hleads : ∀ v, Leads others v ↔ Leads workers v := fun v => by simp only [Leads, h]
  simp only [Preferred, hleads]

theorem oneEach_of_nodup (h : (workers.map EligibleWorker.revisionId).Nodup) : OneEach workers :=
  fun _ ha _ hb => List.inj_on_of_nodup_map h ha hb

/-- The worker tells the reason. -/
theorem selectWorker_reason {others : List EligibleWorker}
    (h : (selectWorker request others now disabledRevisionIds disabledResourceIds allowSaturated).1 =
      (selectWorker request workers now disabledRevisionIds disabledResourceIds allowSaturated).1) :
    selectWorker request others now disabledRevisionIds disabledResourceIds allowSaturated =
      selectWorker request workers now disabledRevisionIds disabledResourceIds allowSaturated := by
  simp only [selectWorker] at h ⊢
  split at h <;> split at h
  · rfl
  · cases h
  · cases h
  · cases h
    rfl

/-- Nothing is selected where nothing is eligible. -/
theorem selectWorker_eq_none (hone : OneEach workers) :
    (selectWorker request workers now disabledRevisionIds disabledResourceIds allowSaturated).1 = none ↔
      ∀ v ∈ workers, eligible request now disabledRevisionIds disabledResourceIds allowSaturated v = false := by
  have hsub : OneEach (workers.filter (eligible request now disabledRevisionIds disabledResourceIds allowSaturated)) :=
    fun a ha b hb => hone a (List.mem_of_mem_filter ha) b (List.mem_of_mem_filter hb)
  have hplaced := placed_foldl hsub
  simp only [selectWorker]
  constructor
  · intro h v hv
    split at h
    · rename_i hnone
      by_contra heligible
      obtain ⟨leader, hleader, -⟩ := exists_leads (List.mem_filter.mpr ⟨hv, by simpa using heligible⟩)
      have hin := (hplaced.leads leader).mpr hleader
      rw [List.argmin_eq_none] at hnone
      rw [hnone] at hin
      cases hin
    · cases h
  · intro h
    have hempty : workers.filter (eligible request now disabledRevisionIds disabledResourceIds allowSaturated) = [] :=
      List.filter_eq_nil_iff.mpr fun v hv => by simp [h v hv]
    rw [hempty]
    rfl

/-- `select_worker` does not depend on the order of the workers, selects none where none is eligible,
    and else an eligible one whose load ratio no other worker that speaks for a resource is below. -/
theorem selectWorker_exact (hrevisions : (workers.map EligibleWorker.revisionId).Nodup)
    (hfrozen : ∀ v ∈ workers, Frozen v) :
    (∀ others : List EligibleWorker, others.Perm workers →
      selectWorker request others now disabledRevisionIds disabledResourceIds allowSaturated =
        selectWorker request workers now disabledRevisionIds disabledResourceIds allowSaturated) ∧
    ((selectWorker request workers now disabledRevisionIds disabledResourceIds allowSaturated).1 = none ↔
      ∀ v ∈ workers, eligible request now disabledRevisionIds disabledResourceIds allowSaturated v = false) ∧
    ∀ selected, (selectWorker request workers now disabledRevisionIds disabledResourceIds allowSaturated).1 = some selected →
      selected ∈ workers ∧ eligible request now disabledRevisionIds disabledResourceIds allowSaturated selected = true ∧
      Leads (workers.filter (eligible request now disabledRevisionIds disabledResourceIds allowSaturated)) selected ∧
      ∀ v, Leads (workers.filter (eligible request now disabledRevisionIds disabledResourceIds allowSaturated)) v →
        selected.ratio ≤ v.ratio := by
  have hone := oneEach_of_nodup hrevisions
  refine ⟨fun others hperm => selectWorker_reason (Option.ext fun v => ?_), selectWorker_eq_none hone, fun selected h => ?_⟩
  · have hothers := oneEach_of_nodup ((hperm.map EligibleWorker.revisionId).nodup_iff.mpr hrevisions)
    rw [selectWorker_eq_some hothers, selectWorker_eq_some hone]
    exact preferred_congr fun w => (hperm.filter _).mem_iff
  · obtain ⟨hleads, hleast⟩ := (selectWorker_eq_some hone).mp h
    obtain ⟨hmem, heligible⟩ := List.mem_filter.mp hleads.1
    refine ⟨hmem, heligible, hleads, fun v hv => ?_⟩
    exact (hfrozen selected hmem).ratio_le (hfrozen v (List.mem_of_mem_filter hv.1)) (hleast v hv)

/-- A healthy worker of three slots on a host, with as many leases as its revision's number. -/
def sampleWorker (revisionId : Nat) (host : String) : EligibleWorker :=
  { revisionId, physicalResourceId := host, capabilities := ["code", "git"], permittedProjectIds := []
    executionProfileIds := [], capacity := 3, slotsInUse := revisionId, health := "healthy", observedAt := some 0 }

def sampleWorkers : List EligibleWorker := [sampleWorker 2 "host-a", sampleWorker 1 "host-b"]

def sampleRequest : AssignmentRequest := ⟨0, ["code"], [], 60⟩

/-- Of a host with two leases and one with a single one the latter is selected, in either order. -/
theorem selectWorker_exact_two :
    selectWorker sampleRequest sampleWorkers.reverse 5 = selectWorker sampleRequest sampleWorkers 5 ∧
    (selectWorker sampleRequest sampleWorkers 5).1 = some (sampleWorker 1 "host-b") ∧
    (sampleWorker 1 "host-b").ratio ≤ (sampleWorker 2 "host-a").ratio := by
  have hfrozen : ∀ v ∈ sampleWorkers, Frozen v := by
    intro v hv
    simp only [sampleWorkers, List.mem_cons, List.not_mem_nil, or_false] at hv
    rcases hv with rfl | rfl <;> exact ⟨by decide, by decide, by decide⟩
  have hselected : (selectWorker sampleRequest sampleWorkers 5).1 = some (sampleWorker 1 "host-b") := by decide +kernel
  obtain ⟨horder, -, hleast⟩ := @selectWorker_exact sampleWorkers sampleRequest 5 [] [] false (by decide) hfrozen
  exact ⟨horder _ (List.reverse_perm _), hselected, (hleast _ hselected).2.2.2 _ (by decide +kernel)⟩

end Jarvis.Repositories
