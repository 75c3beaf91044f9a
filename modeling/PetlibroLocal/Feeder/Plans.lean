import PetlibroLocal.Feeder.Truth
import PetlibroLocal.Lib.Keyed

/-!
# Edits of the Plan Collection

A plan is written by sending the feeder its whole plan collection. This module models how
`state_coordinator.py` builds the collection for a patch or a deletion, and the predicate
that decides later whether the feeder has taken it (`PlanCollectionPredicate`). Errors carry
the messages of the exceptions; the current time is a parameter.
-/

namespace PetlibroLocal

/-! ### Patches -/

/-- `PlanPatch`, as its constructor leaves it: in range, with sorted weekdays. -/
structure PlanPatch where
  planId : ℕ
  hourUtc : ℕ
  minute : ℕ
  daysRaw : List ℕ
  portions : ℕ
  planId_mem : 1 ≤ planId ∧ planId ≤ 255
  time_valid : hourUtc ≤ 23 ∧ minute ≤ 59
  days_sorted : daysRaw.Pairwise (· < ·)
  days_mem : ∀ day ∈ daysRaw, 1 ≤ day ∧ day ≤ 7
  portions_le : portions ≤ 255
  deriving DecidableEq, Repr

/-- The name of a weekday (`Weekday(day).name`). -/
def weekdayName? : ℕ → Option String
  | 0 => some "INVALID"
  | 1 => some "MONDAY"
  | 2 => some "TUESDAY"
  | 3 => some "WEDNESDAY"
  | 4 => some "THURSDAY"
  | 5 => some "FRIDAY"
  | 6 => some "SATURDAY"
  | 7 => some "SUNDAY"
  | _ => none

/-- A number with two digits at least. -/
def twoDigits (n : ℕ) : String := if n < 10 then "0" ++ toString n else toString n

/-- The UTC time of day, as `HH:MM`. -/
def timeOfDay (hour minute : ℕ) : String := twoDigits hour ++ ":" ++ twoDigits minute

/-- The first plan with a field that cannot be sent (`validate_plan_transport_fields`). -/
def transportError? (plans : List FeederPlan) : Option String :=
  plans.findSome? fun plan =>
    if plan.enableAudioRaw = 0 ∨ plan.enableAudioRaw = 1 then none
    else some s!"feeding plan {plan.id} has unsupported enable_audio_raw value"

/-- `create_plan_from_patch`. The weekdays of a patch all have a name. -/
def createPlanFromPatch (now : ℕ) (patch : PlanPatch) : FeederPlan where
  id := patch.planId
  hourUtc := patch.hourUtc
  minute := patch.minute
  oneShot := patch.daysRaw.isEmpty
  oneShotRaw := if patch.daysRaw.isEmpty then 1 else 0
  timeUtc := timeOfDay patch.hourUtc patch.minute
  timeLocalCandidate := timeOfDay patch.hourUtc patch.minute
  daysRaw := patch.daysRaw.insertionSort (· ≤ ·)
  days := (patch.daysRaw.insertionSort (· ≤ ·)).filterMap weekdayName?
  portions := patch.portions
  enableAudioRaw := 0
  audioTimes := 0
  skipEndTime := 0
  opaqueHex := none
  executionState := 0
  syncTime := now

/-- The target record of an update. -/
def patchPlan (now : ℕ) (patch : PlanPatch) (plan : FeederPlan) : FeederPlan :=
  { plan with
    hourUtc := patch.hourUtc
    minute := patch.minute
    oneShot := patch.daysRaw.isEmpty
    oneShotRaw := if patch.daysRaw.isEmpty then 1 else 0
    timeUtc := timeOfDay patch.hourUtc patch.minute
    daysRaw := patch.daysRaw.insertionSort (· ≤ ·)
    portions := patch.portions
    syncTime := max (plan.syncTime + 1) now }

/-- `build_patched_plan_collection`. -/
def buildPatchedPlanCollection (now : ℕ) (baseline : List FeederPlan) (patch : PlanPatch) :
    Except String (List FeederPlan) :=
  match transportError? baseline with
  | some message => .error message
  | none =>
    if !baseline.any (·.id == patch.planId) then
      .ok ((baseline ++ [createPlanFromPatch now patch]).insertionSort (·.id ≤ ·.id))
    else
      .ok (baseline.map fun plan =>
        if plan.id ≠ patch.planId then plan else patchPlan now patch plan)

/-- `build_deleted_plan_collection`. -/
def buildDeletedPlanCollection (baseline : List FeederPlan) (planId : ℕ) :
    Except String (List FeederPlan) :=
  if ¬ (1 ≤ planId ∧ planId ≤ 9) then
    .error "feeding-plan delete ID must be between 1 and 9"
  else if !baseline.any (·.id == planId) then
    .error s!"feeding plan {planId} does not exist"
  else
    let expected := baseline.filter (·.id ≠ planId)
    match transportError? expected with
    | some message => .error message
    | none => .ok expected

/-! ### The predicate -/

/-- `PlanOperation`. -/
inductive PlanOperation
  | update
  | create
  | delete
  deriving DecidableEq, Repr

namespace PlanCollectionPredicate

/-- What the constructor refuses about the IDs of the two collections. -/
def operationError? (baseline expected : List FeederPlan) (target : ℕ) :
    PlanOperation → Option String
  | .update =>
    if keySet FeederPlan.id baseline ≠ keySet FeederPlan.id expected ∨
        target ∉ keySet FeederPlan.id baseline then
      some "feeding-plan update verification collections do not align"
    else none
  | .create =>
    if target ∈ keySet FeederPlan.id baseline then
      some "feeding-plan create target already exists"
    else if target ∉ keySet FeederPlan.id expected then
      some "feeding-plan create target missing from expected collection"
    else if ¬ keySet FeederPlan.id baseline ⊆ keySet FeederPlan.id expected then
      some "feeding-plan create removed an existing plan"
    else none
  | .delete =>
    if target ∉ keySet FeederPlan.id baseline then
      some "feeding-plan delete target does not exist"
    else if target ∈ keySet FeederPlan.id expected then
      some "feeding-plan delete target remains present"
    else if keySet FeederPlan.id expected ≠ keySet FeederPlan.id baseline \ {target} then
      some "feeding-plan delete changed other plan IDs"
    else none

/-- What the constructor refuses about one record of the baseline. -/
def recordError? (expected : List FeederPlan) (target : ℕ) (operation : PlanOperation)
    (plan : FeederPlan) : Option String :=
  if operation = .delete ∧ plan.id = target then none
  else
    match byKey FeederPlan.id expected plan.id with
    | none => some "existing feeding plan disappeared"
    | some expectedPlan =>
      if plan.id ≠ target then
        if plan.stableFingerprint ≠ expectedPlan.stableFingerprint then
          some "non-target feeding plan was mutated"
        else none
      else if operation = .create then none
      else if plan.enableAudioRaw ≠ expectedPlan.enableAudioRaw ∨
          plan.audioTimes ≠ expectedPlan.audioTimes ∨
          plan.skipEndTime ≠ expectedPlan.skipEndTime ∨
          plan.opaqueHex ≠ expectedPlan.opaqueHex then
        some "target feeding-plan preserved fields were mutated"
      else none

/-- The exception of `__post_init__`, if it raises one. -/
def error? (baseline expected : List FeederPlan) (target : ℕ) (operation : PlanOperation) :
    Option String :=
  if (keySet FeederPlan.id baseline).card ≠ baseline.length ∨
      (keySet FeederPlan.id expected).card ≠ expected.length then
    some "feeding-plan verification collections contain duplicate IDs"
  else
    (operationError? baseline expected target operation).or
      (baseline.findSome? (recordError? expected target operation))

end PlanCollectionPredicate

/-- `PlanCollectionPredicate`: a value exists only if its constructor does not raise. -/
structure PlanCollectionPredicate where
  baseline : List FeederPlan
  expected : List FeederPlan
  targetPlanId : ℕ
  operation : PlanOperation
  valid : PlanCollectionPredicate.error? baseline expected targetPlanId operation = none
  deriving DecidableEq, Repr

namespace PlanCollectionPredicate

/-- The constructor. -/
def make (baseline expected : List FeederPlan) (target : ℕ) (operation : PlanOperation) :
    Except String PlanCollectionPredicate :=
  match h : error? baseline expected target operation with
  | some message => .error message
  | none => .ok ⟨baseline, expected, target, operation, h⟩

/-- A plan of the feeder is the expected one. -/
def planMatches (p : PlanCollectionPredicate) (expectedPlan actualPlan : FeederPlan) : Bool :=
  if p.operation = .create ∧ expectedPlan.id = p.targetPlanId ∧ expectedPlan.opaqueHex = none then
    actualPlan.semanticFingerprint == expectedPlan.semanticFingerprint
  else actualPlan.stableFingerprint == expectedPlan.stableFingerprint

/-- `PlanCollectionPredicate.matches`. -/
def matchesTruth (p : PlanCollectionPredicate) (truth : FeederTruth) : Bool :=
  let actual := truth.plans.semanticRecords
  if truth.plans.count ≠ p.expected.length ∨ actual.length ≠ p.expected.length then false
  else if keySet FeederPlan.id p.expected ≠ keySet FeederPlan.id actual then false
  else
    p.expected.all fun expectedPlan =>
      match byKey FeederPlan.id actual expectedPlan.id with
      | some actualPlan => p.planMatches expectedPlan actualPlan
      | none => false

end PlanCollectionPredicate

end PetlibroLocal
