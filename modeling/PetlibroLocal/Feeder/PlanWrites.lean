import PetlibroLocal.Feeder.Plans

/-!
# A Plan Write Touches One Plan

Whatever a patch or a deletion does to a plan collection with distinct IDs, the collection
built for the feeder differs from the baseline in the target plan only, the predicate that
will judge the write is always constructed, and it accepts exactly the collections that are
the built one up to what the feeder regenerates.

The main results are `PlanCollectionPredicate.matchesTruth_iff` and `plan_write_isolated`.
-/

namespace PetlibroLocal

open List

/-! ### Collections -/

variable {plans : List FeederPlan}

theorem mem_keySet_id {k : ℕ} : k ∈ keySet FeederPlan.id plans ↔ k ∈ planIds plans :=
  mem_toFinset

theorem keySet_id_eq_iff {plans' : List FeederPlan} :
    keySet FeederPlan.id plans = keySet FeederPlan.id plans' ↔
      ∀ k, k ∈ planIds plans ↔ k ∈ planIds plans' := by
  rw [Finset.ext_iff]
  simp only [mem_keySet_id]

theorem mem_planIds {k : ℕ} : k ∈ planIds plans ↔ ∃ plan ∈ plans, plan.id = k :=
  mem_map

theorem transportError?_eq_none_iff :
    transportError? plans = none ↔
      ∀ plan ∈ plans, plan.enableAudioRaw = 0 ∨ plan.enableAudioRaw = 1 := by
  rw [transportError?, List.findSome?_eq_none_iff]
  refine forall₂_congr fun plan _ => ?_
  split_ifs with h
  · exact iff_of_true rfl h
  · exact iff_of_false not_false h

/-! ### What the predicate accepts -/

namespace PlanCollectionPredicate

variable {baseline expected : List FeederPlan} {target : ℕ} {operation : PlanOperation}

theorem error?_eq_none_iff :
    error? baseline expected target operation = none ↔
      (planIds baseline).Nodup ∧ (planIds expected).Nodup ∧
        operationError? baseline expected target operation = none ∧
        ∀ plan ∈ baseline, recordError? expected target operation plan = none := by
  have hbaseline : (keySet FeederPlan.id baseline).card = baseline.length ↔
      (planIds baseline).Nodup := card_keySet_eq_length_iff
  have hexpected : (keySet FeederPlan.id expected).card = expected.length ↔
      (planIds expected).Nodup := card_keySet_eq_length_iff
  rw [error?]
  by_cases hdup : (planIds baseline).Nodup ∧ (planIds expected).Nodup
  · rw [if_neg (by rw [not_or, not_not, not_not, hbaseline, hexpected]; exact hdup),
      Option.or_eq_none_iff, List.findSome?_eq_none_iff]
    exact ⟨fun h => ⟨hdup.1, hdup.2, h⟩, fun h => h.2.2⟩
  · rw [if_pos (by rw [← not_and_or, hbaseline, hexpected]; exact hdup)]
    exact iff_of_false (Option.some_ne_none _) fun h => hdup ⟨h.1, h.2.1⟩

/-- **What the predicate accepts**: the same IDs, each once, and for each plan the expected
one. -/
theorem matchesTruth_iff (p : PlanCollectionPredicate) (truth : FeederTruth) :
    p.matchesTruth truth = true ↔
      (planIds truth.plans.semanticRecords).Nodup ∧
        (∀ k, k ∈ planIds truth.plans.semanticRecords ↔ k ∈ planIds p.expected) ∧
        ∀ expectedPlan ∈ p.expected, ∀ actualPlan ∈ truth.plans.semanticRecords,
          actualPlan.id = expectedPlan.id → p.planMatches expectedPlan actualPlan = true := by
  obtain ⟨-, hexpected, -⟩ := error?_eq_none_iff.mp p.valid
  rw [matchesTruth, ← keySet_id_eq_iff]
  constructor
  · intro h
    split_ifs at h with hlen hkeys
    rw [not_or, not_not, not_not] at hlen
    rw [not_not] at hkeys
    have hactual : (planIds truth.plans.semanticRecords).Nodup :=
      nodup_of_keySet_eq hexpected hlen.2 hkeys.symm
    refine ⟨hactual, hkeys.symm, fun expectedPlan he actualPlan ha hid => ?_⟩
    have hall := all_eq_true.mp h expectedPlan he
    rwa [(byKey_eq_some_iff hactual).mpr ⟨ha, hid⟩] at hall
  · rintro ⟨hactual, hkeys, hplans⟩
    have hlen : truth.plans.semanticRecords.length = p.expected.length :=
      length_eq_of_keySet_eq hexpected hactual hkeys
    have hcount : truth.plans.count = p.expected.length := truth.plans.count_eq.trans hlen
    rw [if_neg (by simp [hlen, hcount]), if_neg (by simp [hkeys])]
    refine all_eq_true.mpr fun expectedPlan he => ?_
    obtain ⟨actualPlan, ha, hid⟩ : ∃ plan ∈ truth.plans.semanticRecords,
        plan.id = expectedPlan.id := by
      rw [← mem_planIds, ← mem_keySet_id, hkeys, mem_keySet_id]
      exact mem_planIds.mpr ⟨expectedPlan, he, rfl⟩
    rw [(byKey_eq_some_iff hactual).mpr ⟨ha, hid⟩]
    exact hplans expectedPlan he actualPlan ha hid

end PlanCollectionPredicate

/-! ### Edits -/

/-- A feeding-plan operation of the user. -/
inductive PlanEdit
  | patch (patch : PlanPatch)
  | delete (planId : ℕ)
  deriving DecidableEq, Repr

namespace PlanEdit

/-- The plan that is edited. -/
def target : PlanEdit → ℕ
  | .patch p => p.planId
  | .delete planId => planId

/-- The collection built for the feeder. -/
def build (now : ℕ) (baseline : List FeederPlan) : PlanEdit → Except String (List FeederPlan)
  | .patch p => buildPatchedPlanCollection now baseline p
  | .delete planId => buildDeletedPlanCollection baseline planId

/-- The operation that `_publish_pending` names in the predicate. -/
def operation (baseline : List FeederPlan) : PlanEdit → PlanOperation
  | .patch p => if baseline.any (·.id == p.planId) then .update else .create
  | .delete _ => .delete

/-- Only an existing plan with an ID that Home Assistant shows can be deleted. -/
def Allowed (baseline : List FeederPlan) : PlanEdit → Prop
  | .patch _ => True
  | .delete planId => (1 ≤ planId ∧ planId ≤ 9) ∧ planId ∈ planIds baseline

end PlanEdit

theorem any_id_eq_iff {k : ℕ} : plans.any (·.id == k) = true ↔ k ∈ planIds plans := by
  rw [any_eq_true, mem_planIds]
  simp only [beq_iff_eq]

/-- The target record after an update: what the feeder owns is kept, and the update marker
advances. -/
structure UpdatedFrom (before after : FeederPlan) : Prop where
  id : after.id = before.id
  enableAudioRaw : after.enableAudioRaw = before.enableAudioRaw
  audioTimes : after.audioTimes = before.audioTimes
  skipEndTime : after.skipEndTime = before.skipEndTime
  opaqueHex : after.opaqueHex = before.opaqueHex
  syncTime : before.syncTime < after.syncTime

/-- **The built collection differs from the baseline in the target only.** -/
structure EditsOnly (baseline expected : List FeederPlan) (target : ℕ)
    (operation : PlanOperation) : Prop where
  nodup : (planIds expected).Nodup
  others : ∀ plan : FeederPlan, plan.id ≠ target → (plan ∈ expected ↔ plan ∈ baseline)
  update : operation = .update → target ∈ planIds baseline ∧
    List.Forall₂ (fun before after => (before.id ≠ target → after = before) ∧
      (before.id = target → UpdatedFrom before after)) baseline expected
  create : operation = .create → target ∉ planIds baseline ∧
    ∃ plan ∈ expected, plan.id = target ∧ plan.opaqueHex = none
  delete : operation = .delete → target ∈ planIds baseline ∧ target ∉ planIds expected

section

variable {baseline expected : List FeederPlan} {target now : ℕ} {patch : PlanPatch}

theorem editsOnly_update (hnodup : (planIds baseline).Nodup)
    (htarget : patch.planId ∈ planIds baseline) :
    EditsOnly baseline (baseline.map fun plan =>
      if plan.id ≠ patch.planId then plan else patchPlan now patch plan) patch.planId .update := by
  have hids : planIds (baseline.map fun plan =>
      if plan.id ≠ patch.planId then plan else patchPlan now patch plan) = planIds baseline := by
    rw [planIds, map_map, planIds]
    refine map_congr_left fun plan _ => ?_
    simp only [Function.comp_apply]
    split_ifs <;> rfl
  refine ⟨hids ▸ hnodup, fun plan hne => ?_, fun _ => ⟨htarget, ?_⟩, fun h => ?_, fun h => ?_⟩
  · rw [mem_map]
    constructor
    · rintro ⟨before, hbefore, rfl⟩
      split_ifs at hne ⊢ with hid
      · exact hbefore
      · exact absurd (not_not.mp hid) hne
    · intro hplan
      exact ⟨plan, hplan, if_pos hne⟩
  · rw [forall₂_map_right_iff]
    refine forall₂_same.mpr fun plan _ => ⟨fun hne => if_pos hne, fun heq => ?_⟩
    rw [if_neg (not_not.mpr heq)]
    exact ⟨rfl, rfl, rfl, rfl, rfl, Nat.lt_of_lt_of_le (Nat.lt_succ_self _) (Nat.le_max_left _ _)⟩
  · exact absurd h (by decide)
  · exact absurd h (by decide)

theorem editsOnly_create (hnodup : (planIds baseline).Nodup)
    (htarget : patch.planId ∉ planIds baseline) :
    EditsOnly baseline ((baseline ++ [createPlanFromPatch now patch]).insertionSort
      (·.id ≤ ·.id)) patch.planId .create := by
  have hperm := perm_insertionSort (fun p q : FeederPlan => p.id ≤ q.id)
    (baseline ++ [createPlanFromPatch now patch])
  have hids : (planIds (baseline ++ [createPlanFromPatch now patch])).Nodup := by
    rw [planIds, map_append]
    refine List.Nodup.append hnodup (nodup_singleton _) ?_
    exact disjoint_singleton.mpr htarget
  refine ⟨((hperm.map _).nodup_iff).mpr hids, fun plan hne => ?_, fun h => ?_,
    fun _ => ⟨htarget, ?_⟩, fun h => ?_⟩
  · rw [hperm.mem_iff, mem_append, mem_singleton]
    refine or_iff_left fun heq => hne ?_
    rw [heq]
    rfl
  · exact absurd h (by decide)
  · refine ⟨createPlanFromPatch now patch, hperm.mem_iff.mpr ?_, rfl, rfl⟩
    exact mem_append_right _ (mem_singleton_self _)
  · exact absurd h (by decide)

theorem editsOnly_delete (hnodup : (planIds baseline).Nodup)
    (htarget : target ∈ planIds baseline) :
    EditsOnly baseline (baseline.filter (·.id ≠ target)) target .delete := by
  refine ⟨hnodup.sublist (filter_sublist.map _), fun plan hne => ?_, fun h => ?_,
    fun h => ?_, fun _ => ⟨htarget, ?_⟩⟩
  · rw [mem_filter, and_iff_left (by simpa using hne)]
  · exact absurd h (by decide)
  · exact absurd h (by decide)
  · rw [mem_planIds]
    rintro ⟨plan, hplan, rfl⟩
    simp at hplan

theorem EditsOnly.planIds_eq (h : EditsOnly baseline expected target .update) :
    planIds expected = planIds baseline := by
  have hids : List.Forall₂ (fun before after : FeederPlan => before.id = after.id) baseline
      expected := by
    refine (h.update rfl).2.imp fun before after hrec => ?_
    by_cases hid : before.id = target
    · exact (hrec.2 hid).id.symm
    · rw [hrec.1 hid]
  rw [planIds, planIds, eq_comm, ← forall₂_eq_eq_eq, forall₂_map_left_iff, forall₂_map_right_iff]
  exact hids

variable {operation : PlanOperation}

theorem EditsOnly.mem_planIds_iff (h : EditsOnly baseline expected target operation) {k : ℕ}
    (hk : k ≠ target) : k ∈ planIds expected ↔ k ∈ planIds baseline := by
  rw [mem_planIds, mem_planIds]
  refine exists_congr fun plan => and_congr_left fun hid => ?_
  exact h.others plan (hid.symm ▸ hk)

theorem EditsOnly.operationError?_eq_none (h : EditsOnly baseline expected target operation) :
    PlanCollectionPredicate.operationError? baseline expected target operation = none := by
  cases operation with
  | update =>
    rw [PlanCollectionPredicate.operationError?, if_neg]
    rw [not_or, not_not, not_not, keySet_id_eq_iff, mem_keySet_id, h.planIds_eq]
    exact ⟨fun _ => Iff.rfl, (h.update rfl).1⟩
  | create =>
    obtain ⟨hnew, plan, hplan, hid, -⟩ := h.create rfl
    have hmem : target ∈ planIds expected := mem_planIds.mpr ⟨plan, hplan, hid⟩
    rw [PlanCollectionPredicate.operationError?, if_neg (mem_keySet_id.not.mpr hnew),
      if_neg (not_not.mpr (mem_keySet_id.mpr hmem)), if_neg]
    rw [not_not]
    intro k hk
    rw [mem_keySet_id] at hk ⊢
    have hne : k ≠ target := fun heq => hnew (heq ▸ hk)
    exact (h.mem_planIds_iff hne).mpr hk
  | delete =>
    obtain ⟨hold, hgone⟩ := h.delete rfl
    rw [PlanCollectionPredicate.operationError?,
      if_neg (not_not.mpr (mem_keySet_id.mpr hold)), if_neg (mem_keySet_id.not.mpr hgone), if_neg]
    rw [not_not, Finset.ext_iff]
    intro k
    rw [Finset.mem_sdiff, Finset.mem_singleton, mem_keySet_id, mem_keySet_id]
    by_cases hk : k = target
    · rw [hk]
      exact iff_of_false hgone fun h' => h'.2 rfl
    · rw [and_iff_left hk, h.mem_planIds_iff hk]

theorem EditsOnly.exists_updated (h : EditsOnly baseline expected target .update)
    {plan : FeederPlan} (hplan : plan ∈ baseline) (hid : plan.id = target) :
    ∃ after ∈ expected, UpdatedFrom plan after := by
  obtain ⟨i, rfl⟩ := mem_iff_get.mp hplan
  obtain ⟨hlen, hget⟩ := forall₂_iff_get.mp (h.update rfl).2
  have hi : i.1 < expected.length := hlen ▸ i.2
  exact ⟨_, get_mem expected ⟨i.1, hi⟩, (hget i.1 i.2 hi).2 hid⟩

theorem EditsOnly.recordError?_eq_none (h : EditsOnly baseline expected target operation)
    {plan : FeederPlan} (hplan : plan ∈ baseline) :
    PlanCollectionPredicate.recordError? expected target operation plan = none := by
  rw [PlanCollectionPredicate.recordError?]
  by_cases hid : plan.id = target
  · cases operation with
    | delete => exact if_pos ⟨rfl, hid⟩
    | create => exact absurd (mem_planIds.mpr ⟨plan, hplan, hid⟩) (h.create rfl).1
    | update =>
      obtain ⟨after, hafter, hupdated⟩ := h.exists_updated hplan hid
      have hfound : byKey FeederPlan.id expected plan.id = some after :=
        (byKey_eq_some_iff h.nodup).mpr ⟨hafter, hupdated.id⟩
      rw [if_neg (by simp), hfound]
      simp [hid, hupdated.enableAudioRaw, hupdated.audioTimes, hupdated.skipEndTime,
        hupdated.opaqueHex]
  · have hkept : byKey FeederPlan.id expected plan.id = some plan :=
      (byKey_eq_some_iff h.nodup).mpr ⟨(h.others plan hid).mpr hplan, rfl⟩
    rw [if_neg fun h' => hid h'.2, hkept]
    simp [hid]

/-- **The predicate of an edit is always constructed.** -/
theorem EditsOnly.error?_eq_none (h : EditsOnly baseline expected target operation)
    (hnodup : (planIds baseline).Nodup) :
    PlanCollectionPredicate.error? baseline expected target operation = none :=
  PlanCollectionPredicate.error?_eq_none_iff.mpr
    ⟨hnodup, h.nodup, h.operationError?_eq_none, fun _ hplan => h.recordError?_eq_none hplan⟩

/-- **What is built for an edit** of a collection with distinct IDs, whenever something is. -/
theorem PlanEdit.editsOnly_of_build (hnodup : (planIds baseline).Nodup) (edit : PlanEdit)
    (hbuild : edit.build now baseline = .ok expected) :
    EditsOnly baseline expected edit.target (edit.operation baseline) := by
  cases edit with
  | patch p =>
    rw [PlanEdit.build, buildPatchedPlanCollection] at hbuild
    rw [PlanEdit.operation]
    cases htransport : transportError? baseline with
    | some message =>
      rw [htransport] at hbuild
      cases hbuild
    | none =>
      rw [htransport] at hbuild
      by_cases hold : p.planId ∈ planIds baseline
      · have hany := any_id_eq_iff.mpr hold
        simp only [hany, Bool.not_true, Bool.false_eq_true, if_false, if_true] at hbuild ⊢
        cases hbuild
        exact editsOnly_update hnodup hold
      · have hany := eq_false_of_ne_true (any_id_eq_iff.not.mpr hold)
        simp only [hany, Bool.not_false, if_true, Bool.false_eq_true, if_false] at hbuild ⊢
        cases hbuild
        exact editsOnly_create hnodup hold
  | delete planId =>
    rw [PlanEdit.build, buildDeletedPlanCollection] at hbuild
    split_ifs at hbuild with hrange hmissing
    have hold : planId ∈ planIds baseline := by
      rw [← any_id_eq_iff]
      simpa using hmissing
    cases htransport : transportError? (baseline.filter (·.id ≠ planId)) with
    | some message =>
      simp only [htransport] at hbuild
      cases hbuild
    | none =>
      simp only [htransport] at hbuild
      cases hbuild
      exact editsOnly_delete hnodup hold

theorem PlanEdit.exists_build
    (haudio : ∀ plan ∈ baseline, plan.enableAudioRaw = 0 ∨ plan.enableAudioRaw = 1)
    (edit : PlanEdit) (hallowed : edit.Allowed baseline) (now : ℕ) :
    ∃ expected, edit.build now baseline = .ok expected := by
  cases edit with
  | patch p =>
    have htransport : transportError? baseline = none := transportError?_eq_none_iff.mpr haudio
    rw [PlanEdit.build, buildPatchedPlanCollection, htransport]
    simp only
    split_ifs
    · exact ⟨_, rfl⟩
    · exact ⟨_, rfl⟩
  | delete planId =>
    obtain ⟨hrange, hold⟩ := hallowed
    have htransport : transportError? (baseline.filter (·.id ≠ planId)) = none :=
      transportError?_eq_none_iff.mpr fun plan hplan =>
        haudio plan (mem_of_mem_filter hplan)
    refine ⟨baseline.filter (·.id ≠ planId), ?_⟩
    rw [PlanEdit.build, buildDeletedPlanCollection, if_neg (not_not.mpr hrange),
      any_id_eq_iff.mpr hold]
    simp only [htransport, Bool.not_true, Bool.false_eq_true, if_false]

end

/-- **A plan write is isolated**: the collection for the feeder and the predicate exist, they
touch the target only, and the predicate accepts exactly the collections with the same IDs,
each once, and the same plans: by their semantic fingerprints for a plan that was just
created, by their stable ones for all others. -/
theorem plan_write_isolated (baseline : List FeederPlan) (hnodup : (planIds baseline).Nodup)
    (haudio : ∀ plan ∈ baseline, plan.enableAudioRaw = 0 ∨ plan.enableAudioRaw = 1)
    (edit : PlanEdit) (hallowed : edit.Allowed baseline) (now : ℕ) :
    ∃ expected predicate, edit.build now baseline = .ok expected ∧
      PlanCollectionPredicate.make baseline expected edit.target (edit.operation baseline) =
        .ok predicate ∧
      EditsOnly baseline expected edit.target (edit.operation baseline) ∧
      ∀ truth : FeederTruth, predicate.matchesTruth truth = true ↔
        (planIds truth.plans.semanticRecords).Nodup ∧
        (∀ k, k ∈ planIds truth.plans.semanticRecords ↔ k ∈ planIds expected) ∧
        ∀ plan ∈ expected, ∀ actual ∈ truth.plans.semanticRecords, actual.id = plan.id →
          if edit.operation baseline = .create ∧ plan.id = edit.target then
            actual.semanticFingerprint = plan.semanticFingerprint
          else actual.stableFingerprint = plan.stableFingerprint := by
  obtain ⟨expected, hbuild⟩ := edit.exists_build haudio hallowed now
  have hedits := edit.editsOnly_of_build hnodup hbuild
  have hvalid := hedits.error?_eq_none hnodup
  refine ⟨expected, ⟨baseline, expected, edit.target, edit.operation baseline, hvalid⟩, hbuild,
    ?_, hedits, fun truth => ?_⟩
  · rw [PlanCollectionPredicate.make]
    split
    · next heq => exact absurd (hvalid.symm.trans heq) (by simp)
    · rfl
  rw [PlanCollectionPredicate.matchesTruth_iff]
  refine and_congr_right fun _ => and_congr_right fun _ => forall₂_congr fun plan hplan =>
    forall₂_congr fun actual _ => imp_congr_right fun _ => ?_
  rw [PlanCollectionPredicate.planMatches]
  by_cases hnew : edit.operation baseline = .create ∧ plan.id = edit.target
  · -- the created plan is the only one with the target's ID
    have hopaque : plan.opaqueHex = none := by
      obtain ⟨-, created, hcreated, hid, hnone⟩ := hedits.create hnew.1
      have heq : plan = created :=
        inj_on_of_nodup_map hedits.nodup hplan hcreated (hnew.2.trans hid.symm)
      rw [heq, hnone]
    rw [if_pos ⟨hnew.1, hnew.2, hopaque⟩, if_pos hnew, beq_iff_eq]
  · rw [if_neg fun h => hnew ⟨h.1, h.2.1⟩, if_neg hnew, beq_iff_eq]

/-- A plan at eight o'clock every Monday. -/
def samplePlan (planId : ℕ) : FeederPlan where
  id := planId
  minute := 0
  hourUtc := 8
  oneShot := false
  oneShotRaw := 0
  timeUtc := "08:00"
  timeLocalCandidate := "08:00"
  daysRaw := [1]
  days := ["monday"]
  portions := 2
  enableAudioRaw := 1
  audioTimes := 3
  executionState := 0
  syncTime := 1000
  skipEndTime := 0
  opaqueHex := some "00000000000000000000"

/-- Plan 2 moves to half past nine, on two days. -/
def samplePatch : PlanPatch where
  planId := 2
  hourUtc := 9
  minute := 30
  daysRaw := [2, 5]
  portions := 1
  planId_mem := by decide
  time_valid := by decide
  days_sorted := by decide
  days_mem := by decide
  portions_le := by decide

/-- Of two plans the second is patched: the first one is sent as it was, and the predicate
accepts what was sent. -/
theorem plan_write_isolated_samplePatch :
    ∃ expected predicate,
      (PlanEdit.patch samplePatch).build 500 [samplePlan 1, samplePlan 2] = .ok expected ∧
      PlanCollectionPredicate.make [samplePlan 1, samplePlan 2] expected 2 .update =
        .ok predicate ∧
      samplePlan 1 ∈ expected := by
  obtain ⟨expected, predicate, hbuild, hmake, hedits, -⟩ :=
    plan_write_isolated [samplePlan 1, samplePlan 2] (by decide) (by decide)
      (.patch samplePatch) trivial 500
  exact ⟨expected, predicate, hbuild, hmake, (hedits.others _ (by decide)).mpr (by simp)⟩

end PetlibroLocal
