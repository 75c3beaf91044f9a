import Mathlib.Data.List.Sort

/-!
# Feeder Truth

What the state agent on the feeder reports (`state_agent.py`): the settings, the feeding
plans and the revisions they were read at. Two fingerprints of a plan say what counts as
the same plan.

The reading time, the feed queue, the raw settings and the layout fields of the plan file
are read by no function modelled here and are left out.
-/

namespace PetlibroLocal

/-! ### Settings -/

/-- The class of a setting (`SettingClass`). -/
inductive SettingClass
  | persistent
  | effectiveCached
  | runtime
  deriving DecidableEq, Repr

/-- A value of a setting. Numbers with a fraction, arrays and objects are kept as they are
written. -/
inductive SettingValue
  | none
  | bool (b : Bool)
  | int (n : ℤ)
  | str (s : String)
  | other (json : String)
  deriving DecidableEq, Repr

/-- The number a value is in a comparison. -/
def SettingValue.number? : SettingValue → Option ℤ
  | .bool b => some (if b then 1 else 0)
  | .int n => some n
  | _ => Option.none

/-- Equality of values: `True` is `1` and `False` is `0`. -/
def SettingValue.pyEq (a b : SettingValue) : Bool :=
  match a.number?, b.number? with
  | some m, some n => m == n
  | _, _ => a == b

/-- `FeederSettings`. -/
structure FeederSettings where
  values : List (String × SettingValue)
  classes : List (String × SettingClass)
  deriving DecidableEq, Repr

/-- `FeederSettings.get`, with the default `None`. -/
def FeederSettings.get (s : FeederSettings) (key : String) : SettingValue :=
  (s.values.lookup key).getD .none

/-- `FeederSettings.is_persistent`. -/
def FeederSettings.isPersistent (s : FeederSettings) (key : String) : Bool :=
  s.classes.lookup key == some .persistent

/-! ### Plans -/

/-- `FeederPlan`: one record of the feeder's plan file. -/
structure FeederPlan where
  id : ℕ
  minute : ℕ
  hourUtc : ℕ
  oneShot : Bool
  oneShotRaw : ℕ
  timeUtc : String
  timeLocalCandidate : String
  daysRaw : List ℕ
  days : List String
  portions : ℕ
  enableAudioRaw : ℕ
  audioTimes : ℕ
  executionState : ℕ
  syncTime : ℕ
  skipEndTime : ℕ
  opaqueHex : Option String
  deriving DecidableEq, Repr

/-- What `semantic_fingerprint` compares. -/
structure SemanticFingerprint where
  id : ℕ
  hourUtc : ℕ
  minute : ℕ
  oneShot : Bool
  days : List ℕ
  portions : ℕ
  enableAudioRaw : ℕ
  audioTimes : ℕ
  skipEndTime : ℕ
  deriving DecidableEq, Repr

/-- `FeederPlan.semantic_fingerprint`. -/
def FeederPlan.semanticFingerprint (p : FeederPlan) : SemanticFingerprint where
  id := p.id
  hourUtc := p.hourUtc
  minute := p.minute
  oneShot := p.oneShot
  days := p.daysRaw.insertionSort (· ≤ ·)
  portions := p.portions
  enableAudioRaw := p.enableAudioRaw
  audioTimes := p.audioTimes
  skipEndTime := p.skipEndTime

/-- `FeederPlan.stable_fingerprint`: also the bytes whose meaning is not known. -/
def FeederPlan.stableFingerprint (p : FeederPlan) : SemanticFingerprint × Option String :=
  (p.semanticFingerprint, p.opaqueHex)

/-- `FeederPlans`: the count is the number of records. -/
structure FeederPlans where
  count : ℕ
  semanticRecords : List FeederPlan
  count_eq : count = semanticRecords.length
  deriving DecidableEq, Repr

/-- The collection with the given records. -/
def FeederPlans.ofRecords (records : List FeederPlan) : FeederPlans :=
  ⟨records.length, records, rfl⟩

/-- The IDs of the plans, in order. -/
def planIds (plans : List FeederPlan) : List ℕ := plans.map (·.id)

/-! ### Truth -/

/-- `FeederRevisions`; the coordinator compares the core revision only. -/
structure FeederRevisions where
  coreRev : String
  deriving DecidableEq, Repr

/-- `FeederTruth`. -/
structure FeederTruth where
  revisions : FeederRevisions
  settings : FeederSettings
  plans : FeederPlans
  deriving DecidableEq, Repr

/-- The truth with other plans. -/
def FeederTruth.withPlans (t : FeederTruth) (records : List FeederPlan) : FeederTruth :=
  { t with plans := .ofRecords records }

/-- A truth as `core` returns it: `FeederPlans.from_dict` has checked that the plan IDs are
pairwise distinct. -/
structure CoreTruth extends FeederTruth where
  nodup : (planIds plans.semanticRecords).Nodup
  deriving DecidableEq, Repr

end PetlibroLocal
