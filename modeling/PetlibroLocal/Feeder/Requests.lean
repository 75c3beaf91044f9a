import PetlibroLocal.Feeder.Normalization

/-!
# Persistent Writes

A user control hands the coordinator a `PersistentWriteRequest`: a publisher, the predicate
that will judge the write, and perhaps a plan operation, for which the predicate is built
only when the write is published. This module holds the requests and the part of
`_publish_pending` that comes before the publisher is called (`prepare`).

A plan edit of a collection with distinct IDs always yields a valid predicate
(`PlanEdit.editsOnly_of_build`), so `prepare` carries it along: the constructor of
`PlanCollectionPredicate` stands outside the `try` for patches, and nothing has to be said
about an exception there.
-/

namespace PetlibroLocal

/-! ### Predicates -/

/-- `TruthPredicate`: the three predicates that a write can have. -/
inductive TruthPredicate
  | settingEquals (field : String) (expected : SettingValue)
  | planCollection (p : PlanCollectionPredicate)
  | planIdNormalization (p : PlanIdNormalizationPredicate)
  deriving DecidableEq, Repr

/-- `TruthPredicate.matches`. -/
def TruthPredicate.matchesTruth (truth : FeederTruth) : TruthPredicate → Bool
  | .settingEquals field expected =>
    truth.settings.isPersistent field && (truth.settings.get field).pyEq expected
  | .planCollection p => p.matchesTruth truth
  | .planIdNormalization p => p.matchesTruth truth

/-! ### Requests -/

/-- `VerificationMode`. -/
inductive VerificationMode
  | full
  | ackOnlyUnverified
  deriving DecidableEq, Repr

/-- `CommandReceipt`: what a publisher returns. -/
structure CommandReceipt where
  ackKind : String
  messageId : String
  deriving DecidableEq, Repr

/-- `MqttAck`. -/
structure MqttAck where
  ackKind : String
  messageId : String
  success : Bool
  deriving DecidableEq, Repr

/-- The acknowledgement is the one that the receipt waits for. -/
def MqttAck.Answers (ack : MqttAck) (receipt : CommandReceipt) : Prop :=
  receipt.ackKind = ack.ackKind ∧ receipt.messageId = ack.messageId

instance (ack : MqttAck) (receipt : CommandReceipt) : Decidable (ack.Answers receipt) :=
  inferInstanceAs (Decidable (_ ∧ _))

/-- The plan operation of a request: `plan_patch`, `plan_delete_id` or
`plan_id_normalization`, of which a request has at most one. -/
inductive PlanRequest
  | edit (e : PlanEdit)
  | normalize (n : PlanIdNormalization)
  deriving DecidableEq, Repr

/-- `PersistentWriteRequest`. The publisher is a call to the host; `target` and
`command_summary` are for the log only. -/
structure PersistentWriteRequest where
  control : String
  predicate : Option TruthPredicate
  verificationMode : VerificationMode := .full
  requiresFreshPreflight : Bool := false
  rawSettingsDiagnostics : Bool := false
  plan : Option PlanRequest := none
  delete_mem : ∀ planId, plan = some (.edit (.delete planId)) → 1 ≤ planId ∧ planId ≤ 9

theorem delete_mem_of_none (planId : ℕ)
    (h : (none : Option PlanRequest) = some (.edit (.delete planId))) :
    1 ≤ planId ∧ planId ≤ 9 := by
  cases h

/-- The control of the coordinator's own requests. -/
def normalizationControl : String := "food.plan_id_normalization"

/-- The request of `_maybe_normalize_plan_ids`. -/
def normalizationRequest (n : PlanIdNormalization) : PersistentWriteRequest where
  control := normalizationControl
  predicate := none
  plan := some (.normalize n)
  delete_mem := nofun

/-! ### Preparation -/

/-- What `_publish_pending` has computed when it calls the publisher: the predicate of the
pending write, and the truth that the publisher is given. -/
structure Prepared where
  predicate : Option TruthPredicate
  publisherTruth : FeederTruth
  deriving DecidableEq, Repr

namespace PersistentWriteRequest

/-- The part of `_publish_pending` before the call of the publisher, at the wall clock `now`,
for a pending write whose predicate so far is `current`. -/
def prepare (r : PersistentWriteRequest) (now : ℕ) (current : Option TruthPredicate)
    (truth : CoreTruth) : Except String Prepared :=
  let baseline := truth.plans.semanticRecords
  match r.plan with
  | none => .ok ⟨current, truth.toFeederTruth⟩
  | some (.edit e) =>
    match h : e.build now baseline with
    | .error message => .error message
    | .ok expected =>
      .ok ⟨some (.planCollection ⟨baseline, expected, e.target, e.operation baseline,
          (e.editsOnly_of_build truth.nodup h).error?_eq_none truth.nodup⟩),
        truth.withPlans expected⟩
  | some (.normalize n) =>
    if baseline ≠ n.baseline then
      .error "feeding-plan truth changed before ID normalization"
    else
      match losslessError? n.baseline with
      | some message => .error message
      | none =>
        match h : PlanIdNormalizationPredicate.error? n with
        | some message => .error message
        | none =>
          .ok ⟨some (.planIdNormalization ⟨n, h⟩), truth.withPlans n.normalized⟩

/-- **The target of a request**: its own predicate, or the one built from its plan operation
and the truth at hand. -/
def target (r : PersistentWriteRequest) (now : ℕ) (truth : CoreTruth) :
    Option TruthPredicate :=
  match r.prepare now r.predicate truth with
  | .ok prepared => prepared.predicate
  | .error _ => none

variable {r : PersistentWriteRequest} {now : ℕ} {current : Option TruthPredicate}
  {truth : CoreTruth} {prepared : Prepared}

/-- **A prepared write is judged by its own target** if it has a plan operation, or if the
predicate in place is the request's. -/
theorem prepare_predicate (h : r.prepare now current truth = .ok prepared)
    (hcurrent : r.plan.isSome ∨ current = r.predicate) :
    prepared.predicate = r.target now truth := by
  have hown : r.prepare now r.predicate truth = .ok prepared := by
    rcases hcurrent with hplan | rfl
    · rw [← h]
      cases hop : r.plan with
      | none => rw [hop] at hplan; cases hplan
      | some op => cases op <;> simp only [prepare, hop]
    · exact h
  rw [target, hown]

theorem prepare_normalizationRequest {n : PlanIdNormalization}
    (hbuild : buildPlanIdNormalization now truth.plans.semanticRecords = .ok n)
    (hmapping : n.mapping ≠ []) (later : ℕ) :
    ∃ prepared, (normalizationRequest n).prepare later current truth = .ok prepared := by
  rcases buildPlanIdNormalization_cases now truth.plans.semanticRecords with
    ⟨message, hrefused⟩ | ⟨m, hok, hbaseline, hvalid⟩
  · rw [hrefused] at hbuild
    cases hbuild
  · obtain rfl : m = n := Except.ok.inj (hok.symm.trans hbuild)
    obtain ⟨hlossless, herror⟩ := hvalid hmapping
    rw [← hbaseline] at hlossless
    simp only [prepare, normalizationRequest, ne_eq, hbaseline.symm, not_true_eq_false, if_false,
      hlossless]
    split
    · next message heq => exact absurd (herror.symm.trans heq) (by simp)
    · exact ⟨_, rfl⟩

end PersistentWriteRequest

end PetlibroLocal
