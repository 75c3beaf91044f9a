import PetlibroLocal.Feeder.PlanRecords

/-!
# Displayed Plans

Home Assistant shows each plan of the feeder with its local time (`plan_state_payload` of
`feed_plans.py`), and sends the shown plan back when it is saved (`parse_plan_patch`). The shown
time is the one that the state agent has put into the record, with the agent's own offset; the
saved time is converted with the zone of the add-on.

The main result is `saved_plan_iff`.
-/

namespace PetlibroLocal

open List

/-- What a plan command may raise. A slot mismatch has the text
`feeding-plan slot {slot} does not match plan ID {plan_id}`. -/
inductive PlanCommandError
  | valueError (message : String)
  | keyError (key : Json)
  | typeError
  | planSlotMismatch (slot : ℕ) (planId : ℤ)

/-! ### Python's access to values -/

namespace Json

/-- `int(value)`. -/
def toInt : Json → Except PlanCommandError ℤ
  | .int n => .ok n
  | .bool b => .ok (if b then 1 else 0)
  | .float q => .ok (q.num.tdiv q.den)
  | .str s =>
    match pyInt s.toList with
    | some n => .ok n
    | none => .error (.valueError s!"invalid literal for int() with base 10: '{s}'")
  | _ => .error .typeError

/-- `data[key]`. -/
def item (data : Json) (key : String) : Except PlanCommandError Json :=
  match data with
  | .obj fields =>
    match fields.lookup key with
    | some value => .ok value
    | none => .error (.keyError (.str key))
  | _ => .error .typeError

/-- What a loop over a value goes through. -/
def items : Json → Except PlanCommandError (List Json)
  | .arr items => .ok items
  | .str s => .ok (s.toList.map fun c => .str (String.singleton c))
  | .obj fields => .ok (fields.map fun field => .str field.1)
  | _ => .error .typeError

end Json

/-- `Weekday[item]`, as its value. Lists and objects cannot be looked up. -/
def weekdayNamed : Json → Except PlanCommandError ℕ
  | .str name =>
    match (List.range 8).find? fun day => weekdayName? day == some name with
    | some day => .ok day
    | none => .error (.keyError (.str name))
  | .arr _ => .error .typeError
  | .obj _ => .error .typeError
  | value => .error (.keyError value)

/-! ### Display -/

/-- `str.upper` of an ASCII text. -/
def upper (s : String) : String := String.ofList (s.toList.map Char.toUpper)

/-- `HourMinTimestamp.to_dict`. -/
def HourMinTimestamp.toDict (t : HourMinTimestamp) : Json :=
  .obj [("hour", .int t.hour), ("minute", .int t.minute)]

/-- `plan_state_payload`. -/
def planStatePayload (z : Zone) (today : ℤ) (plan : FeederPlan) : Except String Json := do
  let localTime ← match hourMin plan.timeLocalCandidate with
    | some (hour, minute) => .ok (.obj [("hour", .int hour), ("minute", .int minute)])
    | none => (HourMinTimestamp.createFromUtc z today plan.hourUtc plan.minute).map (·.toDict)
  .ok (.obj [
    ("id", .int plan.id),
    ("execution_time", localTime),
    ("scheduled_days", .arr (plan.days.map fun day => .str (upper day))),
    ("grain_num", .int plan.portions)])

/-! ### Commands -/

/-- `HourMinTimestamp.from_dict`. -/
def HourMinTimestamp.fromDict (data : Json) : Except PlanCommandError HourMinTimestamp := do
  let hourItem ← data.item "hour"
  let hour ← hourItem.toInt
  let minuteItem ← data.item "minute"
  let minute ← minuteItem.toInt
  (createFromLocalTimezone hour minute).mapError .valueError

theorem pairwise_lt_insertionSort {days : List ℕ} (h : (days.insertionSort (· ≤ ·)).Nodup) :
    (days.insertionSort (· ≤ ·)).Pairwise (· < ·) :=
  ((pairwise_insertionSort (· ≤ ·) days).and h).imp fun h => lt_of_le_of_ne h.1 h.2

/-- The constructor of `PlanPatch`, with its `__post_init__`. -/
def PlanPatch.create (planId hourUtc minute : ℤ) (daysRaw : List ℕ) (portions : ℤ) :
    Except PlanCommandError PlanPatch :=
  if hid : 1 ≤ planId ∧ planId ≤ 255 then
    if htime : (0 ≤ hourUtc ∧ hourUtc ≤ 23) ∧ 0 ≤ minute ∧ minute ≤ 59 then
      if hdays : (daysRaw.insertionSort (· ≤ ·)).Nodup ∧
          ∀ day ∈ daysRaw.insertionSort (· ≤ ·), 1 ≤ day ∧ day ≤ 7 then
        if hportions : 0 ≤ portions ∧ portions ≤ 255 then .ok {
          planId := planId.toNat
          hourUtc := hourUtc.toNat
          minute := minute.toNat
          daysRaw := daysRaw.insertionSort (· ≤ ·)
          portions := portions.toNat
          planId_mem := by omega
          time_valid := by omega
          days_sorted := pairwise_lt_insertionSort hdays.1
          days_mem := hdays.2
          portions_le := by omega }
        else .error (.valueError "plan portions are invalid")
      else .error (.valueError "plan weekdays are invalid")
    else .error (.valueError "plan time is invalid")
  else .error (.valueError "plan ID must be between 1 and 255")

/-- `parse_plan_patch`, of the value that `json.loads` gives. -/
def parsePlanPatch (z : Zone) (today : ℤ) (payload : Json) (planSlot : ℕ) :
    Except PlanCommandError PlanPatch :=
  match payload with
  | .obj _ => do
    let idItem ← payload.item "id"
    let planId ← idItem.toInt
    if planId ≠ planSlot then .error (.planSlotMismatch planSlot planId)
    else do
      let timeItem ← payload.item "execution_time"
      let executionTime ← HourMinTimestamp.fromDict timeItem
      match hourMin (executionTime.toMqttPayloadValue z today) with
      -- Never taken: the text of a time is read back.
      | none => .error (.valueError "not enough values to unpack")
      | some (hourUtc, minute) => do
        let daysItem ← payload.item "scheduled_days"
        let days ← daysItem.items
        let schedule ← days.mapM weekdayNamed
        let grainItem ← payload.item "grain_num"
        let portions ← grainItem.toInt
        PlanPatch.create planId hourUtc minute schedule portions
  | _ => .error (.valueError "feeding-plan payload must be an object")

/-! ### Saving a displayed plan -/

theorem Zone.utcoffset_fixed (c : ℤ) (hc : c.natAbs < 1440) (t : ℤ) (fold : Bool) :
    (Zone.fixed c hc).utcoffset t fold = c := by
  rw [utcoffset_of_change (T := t) hc hc (by omega) fun _ _ _ => (ite_self c).symm]
  simp only [resolved, ite_self]

theorem HourMinTimestamp.toMqttPayloadValue_fixed (c : ℤ) (hc : c.natAbs < 1440) (today : ℤ)
    (t : HourMinTimestamp) :
    ∃ hour minute : ℕ, hour < 24 ∧ minute < 60 ∧
      t.toMqttPayloadValue (Zone.fixed c hc) today = timeOfDay hour minute ∧
        (60 * hour + minute : ℤ) = (t.minutes - c) % 1440 := by
  refine ⟨_, _, (t.timeToUtcTimezone (Zone.fixed c hc) today).hour_lt,
    (t.timeToUtcTimezone (Zone.fixed c hc) today).minute_lt, rfl, ?_⟩
  simp only [timeToUtcTimezone, Zone.utcoffset_fixed, combine, ofMinutes]
  omega

theorem mapM_weekdayNamed {names : List String} {days : List ℕ}
    (h : List.Forall₂ (fun name day => agentWeekdayName day = some name) names days) :
    (names.map fun name => Json.str (upper name)).mapM weekdayNamed = .ok days := by
  refine mapM_eq_ok.mpr (forall₂_map_left_iff.mpr (h.imp fun name day hday => ?_))
  unfold agentWeekdayName at hday
  split at hday <;> first | (obtain rfl := Option.some.inj hday; rfl) | exact absurd hday (by simp)

theorem PlanPatch.create_eq_ok {planId hourUtc minute portions : ℕ} {daysRaw : List ℕ}
    (hid : 1 ≤ planId ∧ planId ≤ 255) (hhour : hourUtc < 24) (hminute : minute < 60)
    (hnodup : daysRaw.Nodup) (hdays : ∀ day ∈ daysRaw, 1 ≤ day ∧ day ≤ 7)
    (hportions : portions ≤ 255) :
    ∃ patch, PlanPatch.create planId hourUtc minute daysRaw portions = .ok patch ∧
      patch.planId = planId ∧ patch.hourUtc = hourUtc ∧ patch.minute = minute ∧
        patch.daysRaw = daysRaw.insertionSort (· ≤ ·) ∧ patch.portions = portions := by
  have hsorted : (daysRaw.insertionSort (· ≤ ·)).Nodup :=
    (perm_insertionSort (· ≤ ·) daysRaw).nodup_iff.mpr hnodup
  have hmem : ∀ day ∈ daysRaw.insertionSort (· ≤ ·), 1 ≤ day ∧ day ≤ 7 := fun day hday =>
    hdays day ((mem_insertionSort (· ≤ ·)).mp hday)
  unfold PlanPatch.create
  rw [dif_pos (by omega), dif_pos (by omega), dif_pos ⟨hsorted, hmem⟩, dif_pos (by omega)]
  exact ⟨_, rfl, rfl, rfl, rfl, rfl, rfl⟩

/-- What the display of a plan rests on: the shown time is a time of the day, and each weekday has
its name. -/
structure FeederPlan.Shown (plan : FeederPlan) (hour : ℕ) : Prop where
  id_pos : 1 ≤ plan.id
  hour_lt : hour < 24
  minute_lt : plan.minute < 60
  time : plan.timeLocalCandidate = timeOfDay hour plan.minute
  days : List.Forall₂ (fun name day => agentWeekdayName day = some name) plan.days plan.daysRaw
  nodup : plan.daysRaw.Nodup
  days_mem : ∀ day ∈ plan.daysRaw, 1 ≤ day ∧ day ≤ 7
  portions_le : plan.portions ≤ 255

/-- The payload of a plan that is shown at a time. -/
def shownPayload (plan : FeederPlan) (hour : ℕ) : Json := .obj [
  ("id", .int plan.id),
  ("execution_time", .obj [("hour", .int hour), ("minute", .int plan.minute)]),
  ("scheduled_days", .arr (plan.days.map fun day => .str (upper day))),
  ("grain_num", .int plan.portions)]

/-- **A shown plan that is saved is accepted**, with the same weekdays and portions, and at the
shown time in the zone of the add-on. -/
theorem FeederPlan.Shown.parsePlanPatch {plan : FeederPlan} {hour : ℕ} (h : plan.Shown hour)
    (hid : plan.id ≤ 255) (c : ℤ) (hc : c.natAbs < 1440) (shown saved : ℤ) :
    ∃ payload patch, planStatePayload (Zone.fixed c hc) shown plan = .ok payload ∧
      parsePlanPatch (Zone.fixed c hc) saved payload plan.id = .ok patch ∧
        patch.planId = plan.id ∧ patch.daysRaw = plan.daysRaw.insertionSort (· ≤ ·) ∧
          patch.portions = plan.portions ∧
            (60 * patch.hourUtc + patch.minute : ℤ) = (60 * hour + plan.minute - c) % 1440 := by
  obtain ⟨t, ht⟩ : ∃ t, HourMinTimestamp.time hour plan.minute = .ok t :=
    ⟨⟨hour, plan.minute, false, h.hour_lt, h.minute_lt⟩,
      HourMinTimestamp.time_eq_ok.mpr ⟨rfl, rfl, rfl⟩⟩
  obtain ⟨hhour, hminute, -⟩ := HourMinTimestamp.time_eq_ok.mp ht
  obtain ⟨hourUtc, minute, hhour_lt, hminute_lt, htext, hminutes⟩ :=
    t.toMqttPayloadValue_fixed c hc saved
  rw [HourMinTimestamp.minutes, hhour, hminute] at hminutes
  obtain ⟨patch, hpatch, hplanId, hhourUtc, hpatchMinute, hdays, hportions⟩ :=
    PlanPatch.create_eq_ok ⟨h.id_pos, hid⟩ hhour_lt hminute_lt h.nodup h.days_mem h.portions_le
  refine ⟨shownPayload plan hour, patch, ?_, ?_, hplanId, hdays, hportions, ?_⟩
  · rw [planStatePayload, h.time, hourMin_timeOfDay h.hour_lt h.minute_lt]
    rfl
  · have hfromDict : HourMinTimestamp.fromDict
        (.obj [("hour", .int hour), ("minute", .int plan.minute)]) = .ok t := by
      simp [HourMinTimestamp.fromDict, Json.item, lookup_cons, Json.toInt,
        HourMinTimestamp.createFromLocalTimezone, ht, bind, Except.bind, Except.mapError]
    simp [PetlibroLocal.parsePlanPatch, shownPayload, Json.item, lookup_cons, Json.toInt,
      Json.items, bind, Except.bind, hfromDict, htext, hourMin_timeOfDay hhour_lt hminute_lt,
      mapM_weekdayNamed h.days, hpatch]
  · rw [hhourUtc, hpatchMinute, hminutes]

theorem exists_agentWeekdayName {day : ℕ} (hpos : 0 < day) (hle : day ≤ 7) :
    ∃ name, agentWeekdayName day = some name := by
  have hall : ∀ day < 8, 0 < day → (agentWeekdayName day).isSome = true := by decide
  exact Option.isSome_iff_exists.mp (hall day (by omega) hpos)

theorem forall₂_agentWeekdayName {days : List ℕ} (h : ∀ day ∈ days, day ≤ 7) :
    List.Forall₂ (fun name day => agentWeekdayName day = some name)
      (days.filterMap agentWeekdayName) (days.filter (· != 0)) := by
  induction days with
  | nil => exact .nil
  | cons day days ih =>
    have ih := ih fun d hd => h d (mem_cons_of_mem day hd)
    obtain rfl | hpos := Nat.eq_zero_or_pos day
    · exact ih
    · obtain ⟨name, hname⟩ := exists_agentWeekdayName hpos (h day mem_cons_self)
      rw [filterMap_cons_some hname, filter_cons_of_pos (by simpa using hpos.ne')]
      exact .cons hname ih

theorem ValidRecord.shown {record : Bytes} (h : ValidRecord record) (localOffsetHours : ℤ) :
    (recordPlan record localOffsetHours).Shown
      (hourLocal (byteAt record 0x05) localOffsetHours).toNat where
  id_pos := h.id_pos
  hour_lt := by
    have := hourLocal_bounds (byteAt record 0x05) localOffsetHours
    omega
  minute_lt := Nat.lt_succ_of_le h.minute_le
  time := rfl
  days := forall₂_agentWeekdayName h.days_le
  nodup := h.nodup
  days_mem := by
    intro day hday
    obtain ⟨hmem, hzero⟩ := mem_filter.mp hday
    exact ⟨Nat.pos_of_ne_zero (by simpa using hzero), h.days_le day hmem⟩
  portions_le := byteAt_le record 0x10

/-- **Saving a displayed plan changes nothing but its time, and keeps the time exactly if the zone
of the add-on is four hours behind UTC**, as the agent assumes. -/
theorem saved_plan_iff {record : Bytes} {rawRecords : Bool} {index : ℕ} {plan : FeederPlan}
    (h : FeederPlan.fromDict (appendPlan record (-4) rawRecords) index = .ok plan)
    (hid : plan.id ≤ 255) (c : ℤ) (hc : c.natAbs < 1440) (shown saved : ℤ) :
    ∃ payload patch, planStatePayload (Zone.fixed c hc) shown plan = .ok payload ∧
      parsePlanPatch (Zone.fixed c hc) saved payload plan.id = .ok patch ∧
        patch.planId = plan.id ∧ (∀ day, day ∈ patch.daysRaw ↔ day ∈ plan.daysRaw) ∧
          patch.portions = plan.portions ∧
            (patch.hourUtc = plan.hourUtc ∧ patch.minute = plan.minute ↔
              (c + 240) % 1440 = 0) := by
  obtain ⟨hrecord, rfl⟩ := fromDict_appendPlan_iff.mp h
  obtain ⟨payload, patch, hpayload, hpatch, hplanId, hdays, hportions, htime⟩ :=
    (hrecord.shown (-4)).parsePlanPatch hid c hc shown saved
  refine ⟨payload, patch, hpayload, hpatch, hplanId, fun day => ?_, hportions, ?_⟩
  · rw [hdays, mem_insertionSort]
  · have hhour : (recordPlan record (-4)).hourUtc ≤ 23 := hrecord.hour_le
    have hminute : (recordPlan record (-4)).minute ≤ 59 := hrecord.minute_le
    obtain ⟨hpatchHour, hpatchMinute⟩ := patch.time_valid
    have hlocal : ((hourLocal (byteAt record 0x05) (-4)).toNat : ℤ) =
        ((recordPlan record (-4)).hourUtc + 20) % 24 := by
      have hbounds := hourLocal_bounds (byteAt record 0x05) (-4)
      have heq := hourLocal_eq (byteAt record 0x05) (-4)
      show _ = ((byteAt record 0x05 : ℤ) + 20) % 24
      omega
    rw [hlocal] at htime
    omega

/-- A record of a plan at 8:30 UTC on Mondays, Wednesdays and Fridays. -/
def breakfastRecord : Bytes :=
  [1, 0, 0, 0, 30, 8, 0, 1, 3, 5, 0, 0, 0, 0, 1, 1, 2] ++ List.replicate 30 0

theorem validRecord_breakfastRecord : ValidRecord breakfastRecord where
  length_le := by decide
  id_pos := by decide
  minute_le := by decide
  hour_le := by decide
  days_le := by decide
  nodup := by decide

theorem fromDict_breakfastRecord :
    FeederPlan.fromDict (appendPlan breakfastRecord (-4) false) 0 =
      .ok (recordPlan breakfastRecord (-4)) :=
  fromDict_appendPlan_iff.mpr ⟨validRecord_breakfastRecord, rfl⟩

/-- In New York in summer, saving the plan as it is shown changes nothing. -/
theorem saved_plan_summer :
    ∃ plan, FeederPlan.fromDict (appendPlan breakfastRecord (-4) false) 0 = .ok plan ∧
      plan.id ≤ 9 ∧
      ∃ payload patch, planStatePayload (Zone.fixed (-240) (by decide)) 20635 plan = .ok payload ∧
        parsePlanPatch (Zone.fixed (-240) (by decide)) 20635 payload plan.id = .ok patch ∧
          patch.hourUtc = plan.hourUtc ∧ patch.minute = plan.minute := by
  obtain ⟨payload, patch, hpayload, hpatch, -, -, -, htime⟩ :=
    saved_plan_iff fromDict_breakfastRecord (by decide) (-240) (by decide) 20635 20635
  obtain ⟨hhour, hminute⟩ := htime.mpr (by decide)
  exact ⟨_, fromDict_breakfastRecord, by decide, payload, patch, hpayload, hpatch, hhour, hminute⟩

/-- **In UTC, the plan at 8:30 is shown at 4:30 and saved at 4:30 UTC.** -/
theorem saved_plan_moved :
    ∃ plan, FeederPlan.fromDict (appendPlan breakfastRecord (-4) false) 0 = .ok plan ∧
      (plan.id = 1 ∧ plan.hourUtc = 8 ∧ plan.minute = 30) ∧
      ∃ payload patch, planStatePayload (Zone.fixed 0 (by decide)) 20635 plan = .ok payload ∧
        parsePlanPatch (Zone.fixed 0 (by decide)) 20635 payload plan.id = .ok patch ∧
          patch.hourUtc = 4 ∧ patch.minute = 30 := by
  obtain ⟨payload, patch, hpayload, hpatch, -, -, -, htime⟩ :=
    (validRecord_breakfastRecord.shown (-4)).parsePlanPatch (by decide) 0 (by decide) 20635 20635
  refine ⟨_, fromDict_breakfastRecord, by decide, payload, patch, hpayload, hpatch, ?_⟩
  have hshown : (60 * patch.hourUtc + patch.minute : ℤ) = 270 := htime.trans (by decide)
  have hminute := patch.time_valid.2
  omega

end PetlibroLocal
