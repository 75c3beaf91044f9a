import PetlibroLocal.Feeder.Normalization

/-!
# The Rewrite Is a Lossless Renaming

What `build_plan_id_normalization` returns is the collection it was given, with other IDs for the
plans that Home Assistant cannot show, and nothing else but the time of the last change is
different. The predicate that judges the write accepts exactly the collections that hold these
records, up to what the feeder regenerates.

The main results are `renumbering_lossless`, `PlanIdNormalizationPredicate.matchesTruth_iff_perm`
and `plan_ids_renamed`.
-/

namespace PetlibroLocal

open List

/-! ### What a renaming is -/

/-- A record and its rewrite: a canonical ID is kept with all the rest of the record, and under any
other ID only the ID and the time of the last change are new. -/
structure RecordRenamed (before after : FeederPlan) : Prop where
  kept : canonicalId before.id = true → after = before
  renamed : canonicalId before.id = false →
    after = { before with id := after.id, syncTime := after.syncTime } ∧
      before.id ≠ after.id ∧ before.syncTime < after.syncTime

/-- **A lossless renaming** of the plans. -/
structure LosslessRenaming (plans : List FeederPlan) (n : PlanIdNormalization) : Prop where
  baseline : n.baseline = plans
  distinct : (planIds n.normalized).Nodup
  canonical : ∀ plan ∈ n.normalized, 1 ≤ plan.id ∧ plan.id ≤ 9
  /-- Order and fields. -/
  records : List.Forall₂ RecordRenamed plans n.normalized
  /-- The mapping lists the changed records, each once. -/
  indices : (n.mapping.map PlanIdMapping.recordIndex).Nodup
  changed : ∀ entry : PlanIdMapping, entry ∈ n.mapping ↔
    ∃ before after, plans[entry.recordIndex]? = some before ∧
      n.normalized[entry.recordIndex]? = some after ∧ before ≠ after ∧
        entry.sourceId = before.id ∧ entry.targetId = after.id

/-! ### The records of the rewrite -/

section

variable {plans : List FeederPlan} (now : ℕ)

theorem getElem?_renumbering (i : ℕ) :
    (renumbering now plans).normalized[i]? =
      plans[i]?.map (renumberPlan now (renumbering now plans).mapping i) :=
  List.getElem?_mapIdx

theorem planIds_renumbering (hlen : plans.length ≤ 9) (hnodup : (planIds plans).Nodup) :
    (planIds (renumbering now plans).normalized).Nodup ∧
      ∀ k ∈ planIds (renumbering now plans).normalized, canonicalId k = true := by
  have hsuffices := suffices_availableIds hlen
  have hfrom : (renumbering now plans).normalized =
      renumberFrom now 0 (availableIds plans) plans := by
    rw [← mapIdx_renumberPlan now 0 hsuffices]
    simp only [renumbering, Nat.zero_add]
  rw [hfrom]
  obtain ⟨hids, hshown⟩ := planIds_renumberFrom now 0 hsuffices hnodup nodup_availableIds
    (fun _ => notMem_of_mem_availableIds) (fun _ => canonical_of_mem_availableIds)
  exact ⟨hids, fun k hk => (hshown k hk).1⟩

theorem mappingOf?_renumbering {i : ℕ} {before : FeederPlan} {entry : PlanIdMapping}
    (hbefore : plans[i]? = some before)
    (hentry : mappingOf? (renumbering now plans).mapping i = some entry) :
    entry ∈ (renumbering now plans).mapping ∧ entry.recordIndex = i ∧
      entry.sourceId = before.id ∧ canonicalId before.id = false ∧
        canonicalId entry.targetId = true := by
  obtain ⟨hmem, hindex⟩ := mem_of_byKey hentry
  obtain ⟨-, htarget, plan, hget, hsource, hold⟩ := assignIds_entry 0 hmem
  rw [Nat.sub_zero, hindex, hbefore] at hget
  cases hget
  exact ⟨hmem, hindex, hsource.symm, hold, canonical_of_mem_availableIds htarget⟩

/-- **One record**: it stays as it is and is not in the mapping, or the mapping names its new
ID. -/
theorem renumbered_record (hlen : plans.length ≤ 9) (hnodup : (planIds plans).Nodup) {i : ℕ}
    {before after : FeederPlan} (hbefore : plans[i]? = some before)
    (hafter : (renumbering now plans).normalized[i]? = some after) :
    (canonicalId before.id = true ∧ after = before ∧
        mappingOf? (renumbering now plans).mapping i = none) ∨
      (canonicalId before.id = false ∧ canonicalId after.id = true ∧
        before.syncTime < after.syncTime ∧
        after = { before with id := after.id, syncTime := after.syncTime } ∧
        ∃ entry ∈ (renumbering now plans).mapping, entry = ⟨i, before.id, after.id⟩) := by
  have hcanonical : canonicalId after.id = true :=
    (planIds_renumbering now hlen hnodup).2 _
      (mem_planIds.mpr ⟨after, mem_of_getElem? hafter, rfl⟩)
  rw [getElem?_renumbering, hbefore, Option.map_some, Option.some.injEq, renumberPlan] at hafter
  cases hentry : mappingOf? (renumbering now plans).mapping i with
  | none =>
    rw [hentry] at hafter
    obtain rfl : before = after := hafter
    exact .inl ⟨hcanonical, rfl, rfl⟩
  | some entry =>
    obtain ⟨hmem, hindex, hsource, hold, -⟩ := mappingOf?_renumbering now hbefore hentry
    rw [hentry] at hafter
    subst hafter
    refine .inr ⟨hold, hcanonical, ?_, rfl, entry, hmem, ?_⟩
    · exact Nat.lt_of_lt_of_le (Nat.lt_succ_self _) (Nat.le_max_left _ _)
    · rw [← hindex, ← hsource]

/-- **The rewrite is a lossless renaming.** -/
theorem renumbering_lossless (hlen : plans.length ≤ 9) (hnodup : (planIds plans).Nodup) :
    LosslessRenaming plans (renumbering now plans) := by
  obtain ⟨hids, hcanonical⟩ := planIds_renumbering now hlen hnodup
  have hindices := (assignIds_indices 0 (suffices_availableIds hlen)).2
  refine ⟨rfl, hids, fun plan hplan => ?_, ?_, hindices, fun entry => ⟨fun hmem => ?_, ?_⟩⟩
  · have hid := hcanonical _ (mem_planIds.mpr ⟨plan, hplan, rfl⟩)
    simpa [canonicalId] using hid
  · refine forall₂_iff_get.mpr ⟨(length_mapIdx).symm, fun i hi hi' => ?_⟩
    have hbefore : plans[i]? = some (plans.get ⟨i, hi⟩) := List.getElem?_eq_getElem hi
    have hafter : (renumbering now plans).normalized[i]? =
        some ((renumbering now plans).normalized.get ⟨i, hi'⟩) := List.getElem?_eq_getElem hi'
    rcases renumbered_record now hlen hnodup hbefore hafter with
      ⟨hold, heq, -⟩ | ⟨hold, hnew, hsync, heq, -⟩
    · exact ⟨fun _ => heq, fun hfalse => absurd (hold.symm.trans hfalse) Bool.noConfusion⟩
    · refine ⟨fun htrue => absurd (htrue.symm.trans hold) Bool.noConfusion, fun _ =>
        ⟨heq, fun hsame => ?_, hsync⟩⟩
      rw [hsame, hnew] at hold
      cases hold
  · -- an entry is found under its index, and names its record
    have hfound : mappingOf? (renumbering now plans).mapping entry.recordIndex = some entry :=
      (byKey_eq_some_iff hindices).mpr ⟨hmem, rfl⟩
    obtain ⟨-, -, before, hbefore, -⟩ := assignIds_entry 0 hmem
    rw [Nat.sub_zero] at hbefore
    have hafter := @getElem?_renumbering plans now entry.recordIndex
    rw [hbefore, Option.map_some] at hafter
    rcases renumbered_record now hlen hnodup hbefore hafter with
      ⟨-, -, hnone⟩ | ⟨hold, hnew, -, -, e, he, heq⟩
    · rw [hfound] at hnone
      cases hnone
    · refine ⟨before, _, hbefore, hafter, fun hsame => ?_, ?_⟩
      · rw [← hsame, hold] at hnew
        cases hnew
      · have hsame : e = entry := by
          have hfound' : mappingOf? (renumbering now plans).mapping entry.recordIndex = some e :=
            (byKey_eq_some_iff hindices).mpr ⟨he, by rw [heq]⟩
          exact Option.some.inj (hfound'.symm.trans hfound)
        rw [← hsame, heq]
        exact ⟨rfl, rfl⟩
  · rintro ⟨before, after, hbefore, hafter, hne, hsource, htarget⟩
    rcases renumbered_record now hlen hnodup hbefore hafter with
      ⟨-, heq, -⟩ | ⟨-, -, -, -, e, he, heq⟩
    · exact absurd heq.symm hne
    · have hentry : entry = e := by
        rw [heq, ← hsource, ← htarget]
      rw [hentry]
      exact he

/-- **The rewrite needs no further rewrite.** -/
theorem buildPlanIdNormalization_of_canonical {plans : List FeederPlan} (hlen : plans.length ≤ 9)
    (hnodup : (planIds plans).Nodup) (hcanonical : ∀ k ∈ planIds plans, canonicalId k = true) :
    buildPlanIdNormalization now plans = .ok ⟨plans, plans, []⟩ := by
  have hnone : ∀ index available, takeIds? index available plans = some [] := by
    clear hlen hnodup
    induction plans with
    | nil => exact fun _ _ => rfl
    | cons plan plans ih =>
      intro index available
      obtain ⟨hplan, hplans⟩ := forall_mem_cons.mp hcanonical
      rw [takeIds?.eq_def]
      simp only [hplan, if_true]
      exact ih hplans _ _
  rw [buildPlanIdNormalization, if_neg (Nat.not_lt.mpr hlen), if_neg (not_not_intro hnodup), hnone]
  rfl

end

/-! ### What the predicate accepts -/

/-- A record without what the predicate ignores. -/
def persistentRecord (plan : FeederPlan) : FeederPlan :=
  { plan with timeLocalCandidate := "", executionState := 0, syncTime := 0 }

theorem persistentRecord_eq_iff {p q : FeederPlan} :
    persistentRecord p = persistentRecord q ↔
      p.id = q.id ∧ preservationFingerprint p = preservationFingerprint q := by
  simp only [persistentRecord, preservationFingerprint, FeederPlan.mk.injEq]
  tauto

theorem nodup_persistentRecord {plans : List FeederPlan} (h : (planIds plans).Nodup) :
    (plans.map persistentRecord).Nodup := by
  have hids : (plans.map persistentRecord).map FeederPlan.id = planIds plans := by
    rw [map_map]
    rfl
  rw [← hids] at h
  exact h.of_map _

/-- **The predicate accepts the collections that hold the rewritten records**, in any order, up to
what the feeder regenerates. -/
theorem PlanIdNormalizationPredicate.matchesTruth_iff_perm (p : PlanIdNormalizationPredicate)
    (hexpected : (planIds p.normalization.normalized).Nodup) (truth : FeederTruth) :
    p.matchesTruth truth = true ↔
      (truth.plans.semanticRecords.map persistentRecord).Perm
        (p.normalization.normalized.map persistentRecord) := by
  rw [matchesTruth]
  constructor
  · intro h
    split_ifs at h with hlen hcard hkeys
    rw [not_not] at hcard hkeys
    have hactual : (planIds truth.plans.semanticRecords).Nodup := card_keySet_eq_length_iff.mp hcard
    -- the record with the ID of an expected one is that one
    have hsame : ∀ plan ∈ p.normalization.normalized,
        ∀ actualPlan ∈ truth.plans.semanticRecords, actualPlan.id = plan.id →
          persistentRecord actualPlan = persistentRecord plan := by
      intro plan hplan actualPlan hactualPlan hid
      have hall := all_eq_true.mp h plan hplan
      rw [(byKey_eq_some_iff hactual).mpr ⟨hactualPlan, hid⟩] at hall
      exact persistentRecord_eq_iff.mpr ⟨hid, eq_of_beq hall⟩
    have hids := keySet_id_eq_iff.mp hkeys
    refine (perm_ext_iff_of_nodup (nodup_persistentRecord hactual)
      (nodup_persistentRecord hexpected)).mpr fun record => ?_
    simp only [mem_map]
    constructor
    · rintro ⟨actualPlan, hactualPlan, rfl⟩
      obtain ⟨plan, hplan, hid⟩ := mem_planIds.mp
        ((hids _).mp (mem_planIds.mpr ⟨actualPlan, hactualPlan, rfl⟩))
      exact ⟨plan, hplan, (hsame plan hplan actualPlan hactualPlan hid.symm).symm⟩
    · rintro ⟨plan, hplan, rfl⟩
      obtain ⟨actualPlan, hactualPlan, hid⟩ := mem_planIds.mp
        ((hids _).mpr (mem_planIds.mpr ⟨plan, hplan, rfl⟩))
      exact ⟨actualPlan, hactualPlan, hsame plan hplan actualPlan hactualPlan hid⟩
  · intro hperm
    have hids : (planIds truth.plans.semanticRecords).Perm
        (planIds p.normalization.normalized) := by
      have hmap := hperm.map FeederPlan.id
      rw [map_map, map_map] at hmap
      exact hmap
    have hactual := hids.nodup_iff.mpr hexpected
    have hlen : truth.plans.semanticRecords.length = p.normalization.normalized.length := by
      simpa using hperm.length_eq
    have hcount := truth.plans.count_eq.trans hlen
    have hkeys := keySet_id_eq_iff.mpr fun k => hids.mem_iff (a := k)
    rw [if_neg (by simp [hlen, hcount]),
      if_neg (not_not_intro (card_keySet_eq_length_iff.mpr hactual)), if_neg (not_not_intro hkeys)]
    refine all_eq_true.mpr fun plan hplan => ?_
    obtain ⟨actualPlan, hactualPlan, hsame⟩ := mem_map.mp
      (hperm.mem_iff.mpr (mem_map_of_mem hplan))
    obtain ⟨hid, hfingerprint⟩ := persistentRecord_eq_iff.mp hsame
    rw [(byKey_eq_some_iff hactual).mpr ⟨hactualPlan, hid⟩]
    exact beq_iff_eq.mpr hfingerprint

/-! ### Every collection -/

/-- **Every collection of plans is refused, or renamed without loss**: the result needs no further
rewrite, and if it has a mapping, then its predicate can be built and accepts exactly the
collections with the rewritten records. -/
theorem plan_ids_renamed (now : ℕ) (plans : List FeederPlan) :
    (∃ message, buildPlanIdNormalization now plans = .error (.refused message)) ∨
      ∃ n, buildPlanIdNormalization now plans = .ok n ∧ LosslessRenaming plans n ∧
        (∀ later, ∃ again, buildPlanIdNormalization later n.normalized = .ok again ∧
          again.mapping = []) ∧
        (n.mapping ≠ [] → ∃ p : PlanIdNormalizationPredicate, p.normalization = n ∧
          ∀ truth, p.matchesTruth truth = true ↔
            (truth.plans.semanticRecords.map persistentRecord).Perm
              (n.normalized.map persistentRecord)) := by
  rcases buildPlanIdNormalization_spec now plans with hrefused | ⟨hok, hlen, hnodup, hvalid⟩
  · exact .inl hrefused
  · obtain ⟨hids, hcanonical⟩ := planIds_renumbering now hlen hnodup
    refine .inr ⟨_, hok, renumbering_lossless now hlen hnodup, fun later => ?_, fun hmapping => ?_⟩
    · have hlen' : (renumbering now plans).normalized.length ≤ 9 := by
        rw [renumbering, length_mapIdx]
        exact hlen
      exact ⟨_, buildPlanIdNormalization_of_canonical later hlen' hids hcanonical, rfl⟩
    · exact ⟨⟨_, (hvalid hmapping).2⟩, rfl, fun truth =>
        PlanIdNormalizationPredicate.matchesTruth_iff_perm _ hids truth⟩

end PetlibroLocal
