import PetlibroLocal.Feeder.PlanWrites
import Mathlib.Algebra.Group.Nat.Defs

/-!
# Normalization of Plan IDs

Home Assistant shows plans 1 to 9. A plan with another ID is moved to a free one by
rewriting the whole collection (`build_plan_id_normalization`), provided nothing that is
known about the plans is lost on the way to the feeder. The rewrite is checked against its
own predicate before it is returned; this check never fails, so that the rewrite is either
refused or returned.
-/

namespace PetlibroLocal

open List

/-! ### The rewrite -/

/-- `PlanIdMapping`: one record gets another ID. -/
structure PlanIdMapping where
  recordIndex : ℕ
  sourceId : ℕ
  targetId : ℕ
  deriving DecidableEq, Repr

/-- `PlanIdNormalization`. -/
structure PlanIdNormalization where
  baseline : List FeederPlan
  normalized : List FeederPlan
  mapping : List PlanIdMapping
  deriving DecidableEq, Repr

/-- An ID that Home Assistant shows. -/
def canonicalId (planId : ℕ) : Bool := 1 ≤ planId && planId ≤ 9

/-- The name of a weekday in lower case. -/
def weekdayNameLower? (day : ℕ) : Option String := (weekdayName? day).map String.toLower

/-- What keeps one plan from being rewritten without loss. -/
def losslessPlanError? (plan : FeederPlan) : Option String :=
  if plan.opaqueHex ≠ some "00000000000000000000" then
    some s!"feeding plan {plan.id} has an opaque tail that MQTT cannot preserve"
  else if ¬ (plan.oneShotRaw = 0 ∨ plan.oneShotRaw = 1) then
    some s!"feeding plan {plan.id} has unsupported one_shot_raw value"
  else if plan.oneShot ≠ (plan.oneShotRaw != 0) then
    some s!"feeding plan {plan.id} has inconsistent one-shot fields"
  else if plan.oneShot ≠ plan.daysRaw.isEmpty then
    some s!"feeding plan {plan.id} cannot round-trip one-shot semantics"
  else if plan.executionState ≠ 0 then
    some s!"feeding plan {plan.id} has a non-idle execution_state"
  else if plan.timeUtc ≠ timeOfDay plan.hourUtc plan.minute then
    some s!"feeding plan {plan.id} has inconsistent UTC time fields"
  else if plan.daysRaw.insertionSort (· ≤ ·) ≠ plan.daysRaw then
    some s!"feeding plan {plan.id} has weekday ordering MQTT cannot preserve"
  else
    match plan.daysRaw.find? fun day => (weekdayNameLower? day).isNone with
    | some day => some s!"{day} is not a valid Weekday"
    | none =>
      if plan.days ≠ plan.daysRaw.filterMap weekdayNameLower? then
        some s!"feeding plan {plan.id} has inconsistent weekday fields"
      else none

/-- `validate_lossless_plan_normalization`. -/
def losslessError? (plans : List FeederPlan) : Option String :=
  (transportError? plans).or (plans.findSome? losslessPlanError?)

/-- The free canonical IDs, lowest first. -/
def availableIds (plans : List FeederPlan) : List ℕ :=
  (List.range' 1 9).filter fun planId => planId ∉ planIds plans

/-- The generator of the mapping: the plans without a canonical ID take the free ones in turn,
from record `index` on. There is no mapping if the free ones run out. -/
def takeIds? : ℕ → List ℕ → List FeederPlan → Option (List PlanIdMapping)
  | _, _, [] => some []
  | index, available, plan :: plans =>
    if canonicalId plan.id then takeIds? (index + 1) available plans
    else
      match available with
      | [] => none
      | target :: available =>
        (takeIds? (index + 1) available plans).map (⟨index, plan.id, target⟩ :: ·)

/-- The same mapping as long as there are free IDs. -/
def assignIds : ℕ → List ℕ → List FeederPlan → List PlanIdMapping
  | _, _, [] => []
  | index, available, plan :: plans =>
    if canonicalId plan.id then assignIds (index + 1) available plans
    else
      match available with
      | [] => []
      | target :: available =>
        ⟨index, plan.id, target⟩ :: assignIds (index + 1) available plans

/-- The mapping of a record, if it has one. -/
def mappingOf? (mapping : List PlanIdMapping) (index : ℕ) : Option PlanIdMapping :=
  byKey PlanIdMapping.recordIndex mapping index

/-- The rewritten record. -/
def renumberPlan (now : ℕ) (mapping : List PlanIdMapping) (index : ℕ) (plan : FeederPlan) :
    FeederPlan :=
  match mappingOf? mapping index with
  | some entry =>
    { plan with id := entry.targetId, syncTime := max (plan.syncTime + 1) (now + index) }
  | none => plan

/-! ### The predicate -/

/-- `_plan_preservation_fingerprint` without the ID: all that is known to persist. -/
def preservationFingerprint (plan : FeederPlan) : FeederPlan :=
  { plan with id := 0, timeLocalCandidate := "", executionState := 0, syncTime := 0 }

namespace PlanIdNormalizationPredicate

/-- What the constructor refuses about one record and its rewrite. -/
def recordError? (mapping : List PlanIdMapping) (index : ℕ) (before after : FeederPlan) :
    Option String :=
  if preservationFingerprint before ≠ preservationFingerprint after then
    some "feeding-plan normalization mutated plan content"
  else
    match mappingOf? mapping index with
    | some entry =>
      if before.id ≠ entry.sourceId ∨ after.id ≠ entry.targetId then
        some "feeding-plan normalization mapping is inconsistent"
      else if before.id = after.id then
        some "feeding-plan normalization mapping is redundant"
      else if { before with id := after.id, syncTime := after.syncTime } ≠ after then
        some "feeding-plan normalization changed more than ID and sync time"
      else none
    | none =>
      if before ≠ after then some "feeding-plan normalization changed an unmapped record"
      else none

/-- The exception of `__post_init__`, if it raises one. -/
def error? (n : PlanIdNormalization) : Option String :=
  if n.mapping = [] ∨ n.baseline.length ≠ n.normalized.length then
    some "feeding-plan normalization is empty or misaligned"
  else if (keySet PlanIdMapping.recordIndex n.mapping).card ≠ n.mapping.length then
    some "feeding-plan normalization has duplicate record indexes"
  else if n.mapping.any fun entry => n.baseline.length ≤ entry.recordIndex then
    some "feeding-plan normalization has an invalid record index"
  else if (keySet FeederPlan.id n.normalized).card ≠ n.normalized.length ∨
      n.normalized.any fun plan => !canonicalId plan.id then
    some "feeding-plan normalization did not produce unique IDs 1-9"
  else
    (n.baseline.zip n.normalized).zipIdx.findSome? fun entry =>
      recordError? n.mapping entry.2 entry.1.1 entry.1.2

end PlanIdNormalizationPredicate

/-- `PlanIdNormalizationPredicate`: a value exists only if its constructor does not
raise. -/
structure PlanIdNormalizationPredicate where
  normalization : PlanIdNormalization
  valid : PlanIdNormalizationPredicate.error? normalization = none
  deriving DecidableEq, Repr

/-- `PlanIdNormalizationPredicate.matches`. -/
def PlanIdNormalizationPredicate.matchesTruth (p : PlanIdNormalizationPredicate)
    (truth : FeederTruth) : Bool :=
  let actual := truth.plans.semanticRecords
  let expected := p.normalization.normalized
  if truth.plans.count ≠ expected.length ∨ actual.length ≠ expected.length then false
  else if (keySet FeederPlan.id actual).card ≠ actual.length then false
  else if keySet FeederPlan.id actual ≠ keySet FeederPlan.id expected then false
  else
    expected.all fun plan =>
      match byKey FeederPlan.id actual plan.id with
      | some actualPlan => preservationFingerprint actualPlan == preservationFingerprint plan
      | none => false

/-! ### Building the rewrite -/

/-- How `build_plan_id_normalization` can fail: it refuses the rewrite, or it raises because the
free IDs run out or the check of its own result fails. -/
inductive NormalizationFailure
  | refused (message : String)
  | raised (message : String)
  deriving DecidableEq, Repr

/-- `build_plan_id_normalization`. -/
def buildPlanIdNormalization (now : ℕ) (plans : List FeederPlan) :
    Except NormalizationFailure PlanIdNormalization :=
  if 9 < plans.length then
    .error (.refused "more than nine feeding plans cannot be represented by Home Assistant")
  else if ¬ (planIds plans).Nodup then .error (.refused "feeding plans contain duplicate IDs")
  else
    match takeIds? 0 (availableIds plans) plans with
    | none => .error (.raised "generator raised StopIteration")
    | some mapping =>
      if mapping = [] then .ok ⟨plans, plans, []⟩
      else if mapping.any fun entry =>
          plans[entry.recordIndex]?.any fun plan => 2 ^ 64 - 1 ≤ plan.syncTime then
        .error (.refused "feeding-plan sync_time cannot be advanced safely")
      else
        match losslessError? plans with
        | some message => .error (.refused message)
        | none =>
          let result := ⟨plans, plans.mapIdx (renumberPlan now mapping), mapping⟩
          match PlanIdNormalizationPredicate.error? result with
          | some message => .error (.raised message)
          | none => .ok result

/-! ### The assignment of IDs -/

section

variable {available : List ℕ} {plan : FeederPlan} {plans : List FeederPlan}

theorem assignIds_cons_canonical (index : ℕ) (h : canonicalId plan.id = true) :
    assignIds index available (plan :: plans) = assignIds (index + 1) available plans := by
  rw [assignIds.eq_def]
  exact if_pos h

theorem assignIds_cons_other (index : ℕ) (h : canonicalId plan.id = false) (target : ℕ) :
    assignIds index (target :: available) (plan :: plans) =
      ⟨index, plan.id, target⟩ :: assignIds (index + 1) available plans := by
  rw [assignIds.eq_def]
  simp only [h, Bool.false_eq_true, if_false]

/-- There is a free ID for every plan that needs one. -/
def Suffices (available : List ℕ) (plans : List FeederPlan) : Prop :=
  (plans.filter fun plan => !canonicalId plan.id).length ≤ available.length

theorem Suffices.tail_canonical (h : Suffices available (plan :: plans))
    (hid : canonicalId plan.id = true) : Suffices available plans := by
  rw [Suffices, filter_cons_of_neg (by simp [hid])] at h
  exact h

theorem Suffices.tail_other (h : Suffices available (plan :: plans))
    (hid : canonicalId plan.id = false) :
    ∃ target rest, available = target :: rest ∧ Suffices rest plans := by
  rw [Suffices, filter_cons_of_pos (by simp [hid]), length_cons] at h
  cases available with
  | nil => exact absurd h (Nat.not_succ_le_zero _)
  | cons target rest => exact ⟨target, rest, rfl, Nat.le_of_succ_le_succ h⟩

/-- **The free IDs do not run out** if there are enough. -/
theorem takeIds?_eq (index : ℕ) (h : Suffices available plans) :
    takeIds? index available plans = some (assignIds index available plans) := by
  induction plans generalizing index available with
  | nil => rfl
  | cons plan plans ih =>
    rw [takeIds?.eq_def]
    cases hid : canonicalId plan.id with
    | true =>
      rw [assignIds_cons_canonical index hid]
      simpa [hid] using ih (index + 1) (h.tail_canonical hid)
    | false =>
      obtain ⟨target, rest, rfl, hrest⟩ := h.tail_other hid
      rw [assignIds_cons_other index hid]
      simp [hid, ih (index + 1) hrest]

theorem assignIds_indices (index : ℕ) (h : Suffices available plans) :
    (∀ entry ∈ assignIds index available plans,
        index ≤ entry.recordIndex ∧ entry.recordIndex < index + plans.length) ∧
      ((assignIds index available plans).map (·.recordIndex)).Nodup := by
  induction plans generalizing index available with
  | nil => exact ⟨forall_mem_nil _, nodup_nil⟩
  | cons plan plans ih =>
    rw [length_cons]
    cases hid : canonicalId plan.id with
    | true =>
      obtain ⟨hrange, hnodup⟩ := ih (index + 1) (h.tail_canonical hid)
      rw [assignIds_cons_canonical index hid]
      refine ⟨fun entry he => ?_, hnodup⟩
      have := hrange entry he
      omega
    | false =>
      obtain ⟨target, rest, rfl, hrest⟩ := h.tail_other hid
      obtain ⟨hrange, hnodup⟩ := ih (index + 1) hrest
      rw [assignIds_cons_other index hid]
      constructor
      · intro entry he
        rcases mem_cons.mp he with rfl | he
        · exact ⟨Nat.le_refl _, by simp only; omega⟩
        · have := hrange entry he
          omega
      · rw [map_cons, nodup_cons]
        refine ⟨fun hmem => ?_, hnodup⟩
        obtain ⟨entry, he, heq⟩ := mem_map.mp hmem
        have hlow := (hrange entry he).1
        simp only at heq
        omega

theorem mappingOf?_assignIds_succ (index : ℕ) (h : Suffices available plans) :
    mappingOf? (assignIds (index + 1) available plans) index = none := by
  refine byKey_eq_none_iff.mpr fun hmem => ?_
  obtain ⟨entry, he, heq⟩ := mem_keySet.mp hmem
  have := ((assignIds_indices (index + 1) h).1 entry he).1
  omega

theorem mappingOf?_cons {entry : PlanIdMapping} {mapping : List PlanIdMapping} {k : ℕ}
    (hnone : mappingOf? mapping entry.recordIndex = none) :
    mappingOf? (entry :: mapping) k =
      if k = entry.recordIndex then some entry else mappingOf? mapping k := by
  rw [mappingOf?, byKey, reverse_cons, List.find?_append]
  change (mappingOf? mapping k).or _ = _
  split_ifs with hk
  · subst hk
    rw [hnone]
    simp
  · simp [Ne.symm hk]

/-- The rewritten records, from record `index` on, with the free IDs at hand. -/
def renumberFrom (now : ℕ) : ℕ → List ℕ → List FeederPlan → List FeederPlan
  | _, _, [] => []
  | index, available, plan :: plans =>
    if canonicalId plan.id then plan :: renumberFrom now (index + 1) available plans
    else
      match available with
      | [] => plan :: renumberFrom now (index + 1) [] plans
      | target :: available =>
        { plan with id := target, syncTime := max (plan.syncTime + 1) (now + index) } ::
          renumberFrom now (index + 1) available plans

theorem renumberFrom_cons_canonical (now index : ℕ) (h : canonicalId plan.id = true) :
    renumberFrom now index available (plan :: plans) =
      plan :: renumberFrom now (index + 1) available plans := by
  rw [renumberFrom.eq_def]
  exact if_pos h

theorem renumberFrom_cons_other (now index : ℕ) (h : canonicalId plan.id = false)
    (target : ℕ) :
    renumberFrom now index (target :: available) (plan :: plans) =
      { plan with id := target, syncTime := max (plan.syncTime + 1) (now + index) } ::
        renumberFrom now (index + 1) available plans := by
  rw [renumberFrom.eq_def]
  exact if_neg (by simp [h])

theorem mapIdx_renumberPlan (now index : ℕ) (h : Suffices available plans) :
    (plans.mapIdx fun j => renumberPlan now (assignIds index available plans) (index + j)) =
      renumberFrom now index available plans := by
  induction plans generalizing index available with
  | nil => rfl
  | cons plan plans ih =>
    rw [mapIdx_cons]
    cases hid : canonicalId plan.id with
    | true =>
      have hrest := h.tail_canonical hid
      rw [assignIds_cons_canonical index hid, renumberFrom_cons_canonical now index hid]
      refine congrArg₂ List.cons ?_ ?_
      · change renumberPlan now (assignIds (index + 1) available plans) index plan = plan
        rw [renumberPlan, mappingOf?_assignIds_succ index hrest]
      · rw [← ih (index + 1) hrest]
        refine mapIdx_eq_mapIdx_iff.mpr fun j _ => ?_
        rw [Nat.add_right_comm, Nat.add_assoc]
    | false =>
      obtain ⟨target, rest, rfl, hrest⟩ := h.tail_other hid
      have hnone := mappingOf?_assignIds_succ index hrest
      rw [assignIds_cons_other index hid, renumberFrom_cons_other now index hid]
      refine congrArg₂ List.cons ?_ ?_
      · change renumberPlan now (_ :: assignIds (index + 1) rest plans) index plan = _
        rw [renumberPlan, mappingOf?_cons hnone, if_pos rfl]
      · rw [← ih (index + 1) hrest]
        refine mapIdx_eq_mapIdx_iff.mpr fun j _ => ?_
        rw [renumberPlan, renumberPlan, mappingOf?_cons hnone, if_neg (by simp),
          Nat.add_right_comm index 1 j, Nat.add_assoc]

/-- **The rewritten records have distinct canonical IDs**, old ones or free ones. -/
theorem planIds_renumberFrom (now index : ℕ) (h : Suffices available plans)
    (hnodup : (planIds plans).Nodup) (hfree : available.Nodup)
    (hunused : ∀ target ∈ available, target ∉ planIds plans)
    (hcanonical : ∀ target ∈ available, canonicalId target = true) :
    (planIds (renumberFrom now index available plans)).Nodup ∧
      ∀ k ∈ planIds (renumberFrom now index available plans),
        canonicalId k = true ∧ (k ∈ planIds plans ∨ k ∈ available) := by
  induction plans generalizing index available with
  | nil => exact ⟨nodup_nil, forall_mem_nil _⟩
  | cons plan plans ih =>
    obtain ⟨hplan, hplans⟩ := nodup_cons.mp hnodup
    cases hid : canonicalId plan.id with
    | true =>
      obtain ⟨hdistinct, hids⟩ := ih (index + 1) (h.tail_canonical hid) hplans hfree
        (fun target ht hmem => hunused target ht (mem_cons_of_mem _ hmem)) hcanonical
      rw [renumberFrom_cons_canonical now index hid]
      refine ⟨nodup_cons.mpr ⟨fun hmem => ?_, hdistinct⟩, fun k hk => ?_⟩
      · rcases (hids _ hmem).2 with hold | hnew
        · exact hplan hold
        · exact hunused _ hnew mem_cons_self
      · rcases mem_cons.mp hk with rfl | hk
        · exact ⟨hid, .inl mem_cons_self⟩
        · exact ⟨(hids k hk).1, (hids k hk).2.imp_left (mem_cons_of_mem _)⟩
    | false =>
      obtain ⟨target, rest, rfl, hrest⟩ := h.tail_other hid
      obtain ⟨htarget, hfree'⟩ := nodup_cons.mp hfree
      obtain ⟨hdistinct, hids⟩ := ih (index + 1) hrest hplans hfree'
        (fun t ht hmem => hunused t (mem_cons_of_mem _ ht) (mem_cons_of_mem _ hmem))
        fun t ht => hcanonical t (mem_cons_of_mem _ ht)
      rw [renumberFrom_cons_other now index hid]
      refine ⟨nodup_cons.mpr ⟨fun hmem => ?_, hdistinct⟩, fun k hk => ?_⟩
      · rcases (hids _ hmem).2 with hold | hnew
        · exact hunused target mem_cons_self (mem_cons_of_mem _ hold)
        · exact htarget hnew
      · rcases mem_cons.mp hk with rfl | hk
        · exact ⟨hcanonical _ mem_cons_self, .inr mem_cons_self⟩
        · exact ⟨(hids k hk).1, (hids k hk).2.imp (mem_cons_of_mem _)
            (mem_cons_of_mem _)⟩

theorem assignIds_entry (index : ℕ) {entry : PlanIdMapping}
    (h : entry ∈ assignIds index available plans) :
    index ≤ entry.recordIndex ∧ entry.targetId ∈ available ∧
      ∃ plan, plans[entry.recordIndex - index]? = some plan ∧ plan.id = entry.sourceId ∧
        canonicalId plan.id = false := by
  induction plans generalizing index available with
  | nil => exact absurd h not_mem_nil
  | cons plan plans ih =>
    -- an entry behind the first record is an entry of the rest
    have hbehind : ∀ {rest : List ℕ}, (∀ target ∈ rest, target ∈ available) →
        entry ∈ assignIds (index + 1) rest plans → index ≤ entry.recordIndex ∧
          entry.targetId ∈ available ∧ ∃ plan', (plan :: plans)[entry.recordIndex - index]? =
            some plan' ∧ plan'.id = entry.sourceId ∧ canonicalId plan'.id = false := by
      intro rest hrest hentry
      obtain ⟨hle, htarget, plan', hget, hplan'⟩ := ih (index + 1) hentry
      refine ⟨Nat.le_of_succ_le hle, hrest _ htarget, plan', ?_, hplan'⟩
      have hsucc : entry.recordIndex - index = entry.recordIndex - (index + 1) + 1 := by omega
      rw [hsucc, List.getElem?_cons_succ, hget]
    cases hid : canonicalId plan.id with
    | true =>
      rw [assignIds_cons_canonical index hid] at h
      exact hbehind (fun _ h => h) h
    | false =>
      cases available with
      | nil =>
        rw [assignIds.eq_def] at h
        simp [hid] at h
      | cons target rest =>
        rw [assignIds_cons_other index hid] at h
        rcases mem_cons.mp h with rfl | h
        · refine ⟨Nat.le_refl _, mem_cons_self, plan, ?_, rfl, hid⟩
          rw [Nat.sub_self, List.getElem?_cons_zero]
        · exact hbehind (fun _ => mem_cons_of_mem _) h

theorem recordError?_renumberPlan (now index : ℕ) {mapping : List PlanIdMapping}
    (h : ∀ entry, mappingOf? mapping index = some entry → plan.id = entry.sourceId ∧
      canonicalId plan.id = false ∧ canonicalId entry.targetId = true) :
    PlanIdNormalizationPredicate.recordError? mapping index plan
      (renumberPlan now mapping index plan) = none := by
  rw [PlanIdNormalizationPredicate.recordError?, renumberPlan]
  cases hentry : mappingOf? mapping index with
  | none => simp
  | some entry =>
    obtain ⟨hsource, hold, hnew⟩ := h entry hentry
    have hne : entry.sourceId ≠ entry.targetId := by
      intro heq
      rw [hsource, heq, hnew] at hold
      exact Bool.false_ne_true hold.symm
    simp [preservationFingerprint, hsource, hne]

/-- **The rewrite satisfies its own predicate.** -/
theorem error?_renumbered (now : ℕ) (h : Suffices available plans)
    (hnodup : (planIds plans).Nodup) (hfree : available.Nodup)
    (hunused : ∀ target ∈ available, target ∉ planIds plans)
    (hcanonical : ∀ target ∈ available, canonicalId target = true)
    (hmapping : assignIds 0 available plans ≠ []) :
    PlanIdNormalizationPredicate.error? ⟨plans,
      plans.mapIdx (renumberPlan now (assignIds 0 available plans)),
      assignIds 0 available plans⟩ = none := by
  obtain ⟨hindices, hdistinct⟩ := assignIds_indices 0 h
  have hfrom : plans.mapIdx (renumberPlan now (assignIds 0 available plans)) =
      renumberFrom now 0 available plans := by
    rw [← mapIdx_renumberPlan now 0 h]
    simp only [Nat.zero_add]
  obtain ⟨hids, hshown⟩ := planIds_renumberFrom now 0 h hnodup hfree hunused hcanonical
  rw [← hfrom] at hids hshown
  rw [PlanIdNormalizationPredicate.error?, if_neg, if_neg, if_neg, if_neg]
  · refine List.findSome?_eq_none_iff.mpr fun entry hentry => ?_
    obtain ⟨hbefore, hafter⟩ := List.getElem?_zip_eq_some.mp
      (mem_zipIdx_iff_getElem?.mp hentry)
    rw [List.getElem?_mapIdx, hbefore, Option.map_some, Option.some.injEq] at hafter
    rw [← hafter]
    refine recordError?_renumberPlan now entry.2 fun e he => ?_
    obtain ⟨hmem, hindex⟩ := mem_of_byKey he
    obtain ⟨-, htarget, plan, hget, hsource, hold⟩ := assignIds_entry 0 hmem
    rw [Nat.sub_zero, hindex, hbefore] at hget
    cases hget
    exact ⟨hsource, hold, hcanonical _ htarget⟩
  · rw [not_or, not_not, card_keySet_eq_length_iff]
    refine ⟨hids, ?_⟩
    simp only [any_eq_true, Bool.not_eq_true', not_exists, not_and, Bool.not_eq_false]
    exact fun plan hplan => (hshown _ (mem_planIds.mpr ⟨plan, hplan, rfl⟩)).1
  · simp only [any_eq_true, decide_eq_true_eq, not_exists, not_and, Nat.not_le]
    intro entry hentry
    have := (hindices entry hentry).2
    omega
  · rw [not_not, card_keySet_eq_length_iff]
    exact hdistinct
  · rw [not_or, not_not, length_mapIdx]
    exact ⟨hmapping, rfl⟩

end

/-! ### The free IDs -/

section

variable {plans : List FeederPlan}

theorem nodup_availableIds : (availableIds plans).Nodup := List.Nodup.filter _ nodup_range'

theorem notMem_of_mem_availableIds {target : ℕ} (h : target ∈ availableIds plans) :
    target ∉ planIds plans :=
  of_decide_eq_true (mem_filter.mp h).2

theorem mem_range'_canonical {k : ℕ} : k ∈ List.range' 1 9 ↔ canonicalId k = true := by
  rw [mem_range'_1, canonicalId, Bool.and_eq_true, decide_eq_true_eq, decide_eq_true_eq]
  omega

theorem canonical_of_mem_availableIds {target : ℕ} (h : target ∈ availableIds plans) :
    canonicalId target = true :=
  mem_range'_canonical.mp (mem_of_mem_filter h)

/-- **Nine plans fit into the canonical IDs.** -/
theorem suffices_availableIds (hlen : plans.length ≤ 9) : Suffices (availableIds plans) plans := by
  -- the canonical IDs in use are those of plans that keep their ID
  have hused : ((List.range' 1 9).filter fun k => k ∈ planIds plans).length ≤
      (plans.filter fun plan => canonicalId plan.id).length := by
    have hids : ((plans.filter fun plan => canonicalId plan.id).map FeederPlan.id).length =
        (plans.filter fun plan => canonicalId plan.id).length := length_map _
    rw [← hids]
    refine (List.Nodup.subperm (List.Nodup.filter _ nodup_range') fun k hk => ?_).length_le
    obtain ⟨hrange, hmem⟩ := mem_filter.mp hk
    obtain ⟨plan, hplan, rfl⟩ := mem_planIds.mp (of_decide_eq_true hmem)
    refine mem_map.mpr ⟨plan, mem_filter.mpr ⟨hplan, ?_⟩, rfl⟩
    exact mem_range'_canonical.mp hrange
  have hids := length_eq_length_filter_add (l := List.range' 1 9) fun k =>
    decide (k ∈ planIds plans)
  have hplans := length_eq_length_filter_add (l := plans) fun plan => canonicalId plan.id
  have hsize : (List.range' 1 9).length = 9 := length_range'
  have hfree : availableIds plans =
      (List.range' 1 9).filter fun k => !decide (k ∈ planIds plans) := by
    rw [availableIds]
    exact filter_congr fun k _ => by simp
  rw [Suffices, hfree]
  omega

/-- The rewrite of a collection. -/
def renumbering (now : ℕ) (plans : List FeederPlan) : PlanIdNormalization :=
  let mapping := assignIds 0 (availableIds plans) plans
  ⟨plans, plans.mapIdx (renumberPlan now mapping), mapping⟩

theorem mapIdx_renumberPlan_nil (now : ℕ) (plans : List FeederPlan) :
    plans.mapIdx (renumberPlan now []) = plans := by
  have hid : renumberPlan now [] = fun _ plan => plan := rfl
  rw [hid]
  exact ext_getElem? fun i => by simp

/-- **A rewrite is refused or returned**: neither the free IDs nor the check of the result
raise. -/
theorem buildPlanIdNormalization_spec (now : ℕ) (plans : List FeederPlan) :
    (∃ message, buildPlanIdNormalization now plans = .error (.refused message)) ∨
      (buildPlanIdNormalization now plans = .ok (renumbering now plans) ∧ plans.length ≤ 9 ∧
        (planIds plans).Nodup ∧ ((renumbering now plans).mapping ≠ [] →
          losslessError? plans = none ∧
            PlanIdNormalizationPredicate.error? (renumbering now plans) = none)) := by
  generalize hbuild : buildPlanIdNormalization now plans = result
  unfold buildPlanIdNormalization at hbuild
  split_ifs at hbuild with hlen hdup
  · exact .inl ⟨_, hbuild.symm⟩
  · have hsuffices := suffices_availableIds (Nat.le_of_not_lt hlen)
    rw [takeIds?_eq 0 hsuffices] at hbuild
    simp only at hbuild
    split_ifs at hbuild with hmapping hsync
    · refine .inr ⟨?_, Nat.le_of_not_lt hlen, hdup, fun h => absurd hmapping h⟩
      rw [← hbuild, renumbering, hmapping, mapIdx_renumberPlan_nil]
    · exact .inl ⟨_, hbuild.symm⟩
    · have hvalid := error?_renumbered now hsuffices hdup nodup_availableIds
        (fun _ => notMem_of_mem_availableIds) (fun _ => canonical_of_mem_availableIds) hmapping
      cases hlossless : losslessError? plans with
      | some message =>
        rw [hlossless] at hbuild
        exact .inl ⟨_, hbuild.symm⟩
      | none =>
        rw [hlossless] at hbuild
        simp only [hvalid] at hbuild
        exact .inr ⟨hbuild.symm, Nat.le_of_not_lt hlen, hdup, fun _ => ⟨rfl, hvalid⟩⟩
  · exact .inl ⟨_, hbuild.symm⟩

theorem buildPlanIdNormalization_cases (now : ℕ) (plans : List FeederPlan) :
    (∃ message, buildPlanIdNormalization now plans = .error (.refused message)) ∨
      ∃ n, buildPlanIdNormalization now plans = .ok n ∧ n.baseline = plans ∧
        (n.mapping ≠ [] → losslessError? plans = none ∧
          PlanIdNormalizationPredicate.error? n = none) := by
  rcases buildPlanIdNormalization_spec now plans with hrefused | ⟨hok, -, -, hvalid⟩
  · exact .inl hrefused
  · exact .inr ⟨_, hok, rfl, hvalid⟩

end

end PetlibroLocal
