import PetlibroLocal.Agent.PlanText
import PetlibroLocal.Lib.JsonLoads

/-!
# The Collection of Plans

The plans of the feeder go through a text: the state agent writes them (`append_plans`), and the
add-on reads the text with `json.loads` and checks it (`FeederPlans.from_dict`). This module
follows the bytes of the two files from end to end.

The main results are `fromDict_appendPlans_iff`, `sameUpToZeroDays_of_recordPlan` and
`plan_files_decode`.
-/

namespace PetlibroLocal

open JsonGrammar List

/-! ### Accepted collections -/

variable {localOffsetHours : ℤ} {r' : Bytes}

theorem mapM_fromDict_iff {records : List Bytes} {rawRecords : Bool} {plans : List FeederPlan} :
    (records.map (appendPlan · localOffsetHours rawRecords)).zipIdx.mapM
        (fun (value, index) => FeederPlan.fromDict value index) = .ok plans ↔
      (∀ record ∈ records, ValidRecord record) ∧
        records.map (recordPlan · localOffsetHours) = plans := by
  have hzip : (records.map (appendPlan · localOffsetHours rawRecords)).zipIdx =
      records.zipIdx.map fun p => (appendPlan p.1 localOffsetHours rawRecords, p.2) := by
    rw [zipIdx_map]
    rfl
  rw [hzip, mapM_map, mapM_zipIdx_eq_ok (P := fun record plan => ValidRecord record ∧
    recordPlan record localOffsetHours = plan) fun _ _ _ => fromDict_appendPlan_iff,
    forall₂_and_left, ← forall₂_map_left_iff (f := (recordPlan · localOffsetHours)),
    forall₂_eq_eq_eq]

/-- **Which files are accepted, and as which plans**: all records are valid and have distinct IDs,
and the plans are what the records say. -/
theorem fromDict_appendPlans_iff {first : UInt8} {rest plan : Bytes} {rawRecords : Bool}
    {plans : FeederPlans} (hsize : plan.length = first.toNat * 47) :
    FeederPlans.fromDict
        (appendPlans (some (first :: rest)) (some plan) localOffsetHours rawRecords) =
        .ok plans ↔
      (∀ record ∈ Agent.planRecords plan first.toNat, ValidRecord record) ∧
        ((Agent.planRecords plan first.toNat).map (leAt · 0x00 4)).Nodup ∧
        plans.semanticRecords =
          (Agent.planRecords plan first.toNat).map (recordPlan · localOffsetHours) := by
  have hids (records : List Bytes) : planIds (records.map (recordPlan · localOffsetHours)) =
      records.map (leAt · 0x00 4) := by
    rw [planIds, map_map]
    rfl
  have hcount : first.toNat ≤ 255 := Nat.le_of_lt_succ first.toNat_lt
  have hrecords : (List.range first.toNat).map (fun i =>
      appendPlan ((plan.drop (i * 47)).take 47) localOffsetHours rawRecords) =
      (Agent.planRecords plan first.toNat).map (appendPlan · localOffsetHours rawRecords) := by
    rw [Agent.planRecords, map_map]
    rfl
  have hlength : (Agent.planRecords plan first.toNat).length = first.toNat := by
    simp [Agent.planRecords]
  simp only [FeederPlans.fromDict, appendPlans, Json.object, bind_eq_ok, Except.ok.injEq,
    exists_eq_left', Json.get, hsize, decide_true, if_true, append_nil, lookup_append,
    lookup_cons, lookup_nil, String.reduceBEq, Option.some_or, Option.none_or,
    Option.getD_some, Json.array_eq_ok, Json.arr.injEq, hrecords, mapM_fromDict_iff, and_assoc,
    exists_and_left, Json.integer_int_eq_ok, Nat.zero_le, hcount, true_and,
    length_map, hlength, dite_true, hids, ite_error_eq_ok, not_not]
  refine and_congr_right fun _ => and_congr_right fun _ => ?_
  constructor
  · rintro ⟨_, -, _, -, _, -, -, rfl⟩
    rfl
  · intro hplans
    refine ⟨first.toNat * 47, Json.integer_eq_ok.mpr ⟨⟨Nat.zero_le _, by simp⟩, rfl⟩, 47,
      Json.integer_eq_ok.mpr ⟨⟨Nat.zero_le _, by simp⟩, rfl⟩, true, rfl, by simp, ?_⟩
    obtain ⟨count, records, hcount⟩ := plans
    obtain rfl : records = _ := hplans
    simp only [hcount, length_map, hlength]

/-! ### The bytes of a record -/

/-- Two records that differ at most in where the zeros among the weekdays stand. -/
structure SameUpToZeroDays (r r' : Bytes) : Prop where
  front : r.take 0x07 = r'.take 0x07
  days : (weekdayBytes r).filter (· != 0) = (weekdayBytes r').filter (· != 0)
  rear : r.drop 0x0e = r'.drop 0x0e

theorem leValue_injective {bs bs' : Bytes} (hlength : bs.length = bs'.length)
    (h : leValue bs = leValue bs') : bs = bs' := by
  rw [← leBytes_leValue bs, hlength, h, leBytes_leValue]

theorem slice_eq_of_leAt {r : Bytes} {off n : ℕ} (hr : off + n ≤ r.length)
    (hr' : off + n ≤ r'.length) (h : leAt r off n = leAt r' off n) :
    (r.drop off).take n = (r'.drop off).take n := by
  refine leValue_injective ?_ h
  simp only [length_take, length_drop]
  omega

theorem slice_append {r : Bytes} {off m n : ℕ} (h : (r.drop off).take m = (r'.drop off).take m)
    (h' : (r.drop (off + m)).take n = (r'.drop (off + m)).take n) :
    (r.drop off).take (m + n) = (r'.drop off).take (m + n) := by
  rw [take_add, take_add, h, drop_drop, drop_drop, h']

theorem digitChar_injective {m n : ℕ} (hm : m < 16) (hn : n < 16)
    (h : Nat.digitChar m = Nat.digitChar n) : m = n := by
  have hall : ∀ m < 16, ∀ n < 16, Nat.digitChar m = Nat.digitChar n → m = n := by decide
  exact hall m hm n hn h

theorem compactHex_injective {bs bs' : Bytes} (h : compactHex bs = compactHex bs') : bs = bs' := by
  induction bs generalizing bs' with
  | nil =>
    cases bs' with
    | nil => rfl
    | cons b' bs' => simp [compactHex, hexDigits] at h
  | cons b bs ih =>
    cases bs' with
    | nil => simp [compactHex, hexDigits] at h
    | cons b' bs' =>
      simp only [compactHex, hexDigits, flatMap_cons, cons_append, nil_append, List.cons.injEq] at h
      obtain ⟨hhigh, hlow, hrest⟩ := h
      have hb := b.toNat_lt
      have hb' := b'.toNat_lt
      have hdiv := digitChar_injective (by omega) (by omega) hhigh
      have hmod := digitChar_injective (by omega) (by omega) hlow
      have heq : b.toNat = b'.toNat := by omega
      rw [UInt8.toNat_inj.mp heq, ih hrest]

/-- **A plan determines the bytes of its record**, up to the zeros among the weekdays. -/
theorem sameUpToZeroDays_of_recordPlan {r : Bytes} (hr : r.length = 47) (hr' : r'.length = 47)
    (h : recordPlan r localOffsetHours = recordPlan r' localOffsetHours) :
    SameUpToZeroDays r r' := by
  have field {off n : ℕ} (hn : off + n ≤ 47) (h : leAt r off n = leAt r' off n) :=
    slice_eq_of_leAt (hn.trans_eq hr.symm) (hn.trans_eq hr'.symm) h
  have hid := field (by omega) (congrArg FeederPlan.id h)
  have hminute := field (by omega) (congrArg FeederPlan.minute h)
  have hhour := field (by omega) (congrArg FeederPlan.hourUtc h)
  have honeShot := field (by omega) (congrArg FeederPlan.oneShotRaw h)
  have haudio := field (by omega) (congrArg FeederPlan.enableAudioRaw h)
  have htimes := field (by omega) (congrArg FeederPlan.audioTimes h)
  have hportions := field (by omega) (congrArg FeederPlan.portions h)
  have hexecution := field (by omega) (congrArg FeederPlan.executionState h)
  have hsync := field (by omega) (congrArg FeederPlan.syncTime h)
  have hskip := field (by omega) (congrArg FeederPlan.skipEndTime h)
  have hopaque : (r.drop 0x25).take 10 = (r'.drop 0x25).take 10 := by
    have htext := Option.some.inj (congrArg FeederPlan.opaqueHex h)
    exact compactHex_injective (by simpa using congrArg String.toList htext)
  refine ⟨?_, congrArg FeederPlan.daysRaw h, ?_⟩
  · exact slice_append hid (slice_append hminute (slice_append hhour honeShot))
  · have hrear := slice_append haudio (slice_append htimes (slice_append hportions
      (slice_append hexecution (slice_append hsync (slice_append hskip hopaque)))))
    rwa [take_of_length_le (by rw [length_drop]; omega),
      take_of_length_le (by rw [length_drop]; omega)] at hrear

theorem length_of_mem_planRecords {plan record : Bytes} {count : ℕ}
    (hsize : plan.length = count * 47) (h : record ∈ Agent.planRecords plan count) :
    record.length = 47 := by
  obtain ⟨i, hi, rfl⟩ := mem_map.mp h
  have hi := mem_range.mp hi
  rw [length_take, length_drop]
  omega

/-- **Records with the same plans are the same**, up to the zeros among the weekdays. -/
theorem forall₂_sameUpToZeroDays {records records' : List Bytes}
    (hlength : ∀ r ∈ records, r.length = 47) (hlength' : ∀ r ∈ records', r.length = 47)
    (h : records.map (recordPlan · localOffsetHours) =
      records'.map (recordPlan · localOffsetHours)) :
    List.Forall₂ SameUpToZeroDays records records' := by
  induction records generalizing records' with
  | nil =>
    rw [map_nil, eq_comm, map_eq_nil_iff] at h
    rw [h]
    exact .nil
  | cons r records ih =>
    obtain ⟨r', records', rfl, hr, hrecords⟩ := map_eq_cons_iff.mp h.symm
    rw [forall_mem_cons] at hlength hlength'
    exact .cons (sameUpToZeroDays_of_recordPlan hlength.1 hlength'.1 hr.symm)
      (ih hlength.2 hlength'.2 hrecords.symm)

/-! ### From file to file -/

/-- **The add-on decodes the files to the truth.** What `append_plans` writes of files whose sizes
fit is read by `json.loads`. It is accepted if and only if every record is valid and the IDs are
distinct, and then the plans are what the records say. So accepted files with the same plans have
the same records, up to the zeros among the weekdays. -/
theorem plan_files_decode {first : UInt8} {plan : Bytes} (rest : Bytes)
    (hsize : plan.length = first.toNat * 47) (localOffsetHours : ℤ) (rawRecords : Bool) :
    ∃ text data,
      utf8 text =
        Agent.appendPlans (some (first :: rest)) (some plan) localOffsetHours rawRecords ∧
      jsonLoads text = some data ∧
      (∀ plans, FeederPlans.fromDict data = .ok plans ↔
        (∀ record ∈ Agent.planRecords plan first.toNat, ValidRecord record) ∧
          ((Agent.planRecords plan first.toNat).map (leAt · 0x00 4)).Nodup ∧
          plans.semanticRecords =
            (Agent.planRecords plan first.toNat).map (recordPlan · localOffsetHours)) ∧
      ∀ (first' : UInt8) (rest' plan' : Bytes) (text' : List Char) (data' : Json)
        (plans : FeederPlans), plan'.length = first'.toNat * 47 →
        utf8 text' =
          Agent.appendPlans (some (first' :: rest')) (some plan') localOffsetHours rawRecords →
        jsonLoads text' = some data' →
        FeederPlans.fromDict data = .ok plans → FeederPlans.fromDict data' = .ok plans →
        List.Forall₂ SameUpToZeroDays (Agent.planRecords plan first.toNat)
          (Agent.planRecords plan' first'.toNat) := by
  have hloads {first : UInt8} {plan : Bytes} (rest : Bytes)
      (hsize : plan.length = first.toNat * 47) : ∃ text,
      utf8 text =
        Agent.appendPlans (some (first :: rest)) (some plan) localOffsetHours rawRecords ∧
      jsonLoads text =
        some (appendPlans (some (first :: rest)) (some plan) localOffsetHours rawRecords) := by
    have hdigits : ∀ bytes ∈ some plan, ∀ m ∈ some 4300,
        (Nat.toDigits 10 bytes.length).length ≤ m := by
      rintro _ ⟨⟩ _ ⟨⟩
      have hlt := first.toNat_lt
      refine le_trans ((Nat.length_toDigits_le_iff (by omega) (by omega : 0 < 5)).mpr ?_)
        (by omega)
      omega
    have hencodes := @Agent.encodes_appendPlans (some 4300) (by simp)
      (some (first :: rest)) (some plan) hdigits localOffsetHours rawRecords
    obtain ⟨text, htext, hjson⟩ := hencodes.jsonText
    exact ⟨text, htext, loads_of_jsonText hjson⟩
  obtain ⟨text, htext, hdata⟩ := hloads rest hsize
  refine ⟨text, _, htext, hdata, fun plans => fromDict_appendPlans_iff hsize, ?_⟩
  intro first' rest' plan' text' data' plans hsize' htext' hdata' hok hok'
  obtain ⟨text'', htext'', hdata''⟩ := hloads rest' hsize'
  rw [utf8_injective (htext'.trans htext''.symm), hdata''] at hdata'
  cases hdata'
  obtain ⟨-, -, hplans⟩ := (fromDict_appendPlans_iff hsize).mp hok
  obtain ⟨-, -, hplans'⟩ := (fromDict_appendPlans_iff hsize').mp hok'
  exact forall₂_sameUpToZeroDays (fun _ => length_of_mem_planRecords hsize)
    (fun _ => length_of_mem_planRecords hsize') (hplans.symm.trans hplans')

/-- A record: a plan at 08:30 on Mondays and Wednesdays, three portions. -/
def sampleRecord (id : UInt8) : Bytes :=
  [id, 0, 0, 0, 30, 8, 0, 1, 0, 3, 0, 0, 0, 0, 1, 2, 3] ++ List.replicate 30 0

/-- A file of two plans is accepted. -/
theorem plan_files_decode_sample :
    ∃ text data,
      utf8 text =
        Agent.appendPlans (some [2]) (some (sampleRecord 1 ++ sampleRecord 2)) (-4) true ∧
      jsonLoads text = some data ∧
      FeederPlans.fromDict data =
        .ok (.ofRecords [recordPlan (sampleRecord 1) (-4), recordPlan (sampleRecord 2) (-4)]) := by
  obtain ⟨text, data, htext, hdata, hiff, -⟩ :=
    @plan_files_decode 2 (sampleRecord 1 ++ sampleRecord 2) [] (by decide) (-4) true
  have hrecords : Agent.planRecords (sampleRecord 1 ++ sampleRecord 2) (2 : UInt8).toNat =
      [sampleRecord 1, sampleRecord 2] := by decide
  rw [hrecords] at hiff
  refine ⟨text, data, htext, hdata, (hiff _).mpr ⟨?_, by decide, rfl⟩⟩
  rw [forall_mem_cons, forall_mem_singleton]
  exact ⟨⟨by decide, by decide, by decide, by decide, by decide, by decide⟩,
    by decide, by decide, by decide, by decide, by decide, by decide⟩

end PetlibroLocal
