import PetlibroLocal.Lib.Checked
import PetlibroLocal.Lib.Decimal
import PetlibroLocal.Lib.Scan
import PetlibroLocal.Feeder.Plans

/-!
# Feeding Times on the Wire

The feeder keeps the times of its plans in UTC. `HourMinTimestamp` (`protocol.py`) converts them
to the local zone of the add-on and back, each time on the current date. A plan of the feeder goes
through both conversions when the plan collection is written (`feed_plans.py`).

Instants and readings of the local clock are counted in minutes from the same origin: all times
here have no seconds. A date is the number of its day. `date.today()` is called once when a plan is
built and once when it is sent. The synchronisation time of a plan is left out.

The main results are `times_sent_iff` and `Zone.ChangesOnce.keepsSide_iff`.
-/

namespace PetlibroLocal

/-! ### Zones -/

/-- A time zone: its offset from UTC at every instant. -/
structure Zone where
  offset : ℤ → ℤ
  natAbs_offset_lt : ∀ u, (offset u).natAbs < 1440

namespace Zone

variable (z : Zone)

/-- The reading of the local clock. -/
def toLocal (u : ℤ) : ℤ := u + z.offset u

/-- The fold of the reading at an instant, as `ZoneInfo.fromutc` gives it: the clock was set back
at the last change of the offset, and by more than the time since then. -/
def fold (u : ℤ) : Bool :=
  ((List.range 2880).find? fun (k : ℕ) => z.offset (u - k - 1) != z.offset u).any fun (k : ℕ) =>
    k < z.offset (u - k - 1) - z.offset u

/-- The instant of a local reading (`local_to_seconds` of `datetime`). -/
def fromLocal (t : ℤ) (fold : Bool) : ℤ :=
  let u₁ := t - z.offset t
  -- If `u₁` is a solution, there may be another one up to a day later or earlier.
  let b := if z.toLocal u₁ = t then z.offset (if fold then u₁ + 1440 else u₁ - 1440)
    else z.offset u₁
  let u₂ := t - b
  if z.toLocal u₁ = t ∧ z.offset t = b then u₁
  else if z.toLocal u₂ = t then u₂
  else if z.toLocal u₁ = t then u₁
  -- The clock never shows `t`.
  else if fold then min u₁ u₂ else max u₁ u₂

/-- The offset of a local reading (`_local_timezone` of `datetime`). In a gap it is the offset
before the gap, or behind it with a fold. -/
def utcoffset (t : ℤ) (fold : Bool) : ℤ :=
  let ts := z.fromLocal t fold
  let ts₂ := z.fromLocal t (!fold)
  if ts₂ ≠ ts ∧ decide (ts < ts₂) = fold then z.offset ts₂ else z.offset ts

/-- The zone with one offset. -/
def fixed (c : ℤ) (h : c.natAbs < 1440) : Zone := ⟨fun _ => c, fun _ => h⟩

/-- The clock has shown the reading at an instant before: at the last change of the offset it was
set back, and by more than the time since then. -/
def Repeats (z : Zone) (u : ℤ) : Prop :=
  ∃ w ≤ u, (∀ v, w ≤ v → v ≤ u → z.offset v = z.offset u) ∧ u + z.offset u < w + z.offset (w - 1)

theorem fold_iff {z : Zone} {u : ℤ} : z.fold u = true ↔ z.Repeats u := by
  simp only [fold, Option.any_eq_true, List.find?_range_eq_some, decide_eq_true_eq, bne_iff_ne,
    Bool.not_eq_true', bne_eq_false_iff_eq, List.mem_range]
  constructor
  · rintro ⟨k, ⟨-, -, hbefore⟩, hlt⟩
    refine ⟨u - k, by omega, fun v hlow hhigh => ?_, by omega⟩
    rcases Int.lt_or_eq_of_le hhigh with hv | rfl
    · have := hbefore (u - 1 - v).toNat (by omega)
      rwa [show u - ((u - 1 - v).toNat : ℤ) - 1 = v by omega] at this
    · rfl
  · rintro ⟨w, hle, hsame, hlt⟩
    have h₁ := z.natAbs_offset_lt u
    have h₂ := z.natAbs_offset_lt (w - 1)
    have hk : u - ((u - w).toNat : ℤ) = w := by omega
    refine ⟨(u - w).toNat, ⟨by rw [hk]; omega, by omega, fun j hj => ?_⟩, by rw [hk]; omega⟩
    exact hsame _ (by omega) (by omega)

/-- Around a day the offset changes at most once: it is `a` before the instant `T`, and `b` from
then on. The clock is not set back by more than a day. -/
structure ChangesOnce (z : Zone) (day T a b : ℤ) : Prop where
  offset : ∀ v, 1440 * day - 2880 < v → v < 1440 * day + 4320 →
    z.offset v = if v < T then a else b
  before_lt : a.natAbs < 1440
  behind_lt : b.natAbs < 1440
  back_le : a - b ≤ 1440

/-- The offset of a reading near one change of the offset: the old one before the readings that
the clock shows twice or skips, the new one behind them, and one of the two for these. -/
def resolved (T a b t : ℤ) (fold : Bool) : ℤ :=
  if t < T + a ∧ t < T + b then a else if T + a ≤ t ∧ T + b ≤ t then b else if fold then b else a

variable {z} {day T a b t : ℤ}

/-- **A reading is resolved by its side of the change.** -/
theorem fromLocal_of_change (ha : a.natAbs < 1440) (hb : b.natAbs < 1440) (hback : a - b ≤ 1440)
    (h : ∀ v, t - 2880 < v → v < t + 2880 → z.offset v = if v < T then a else b) (fold : Bool) :
    z.fromLocal t fold = t - resolved T a b t fold := by
  have hside : ∀ v, t - 2880 < v → v < t + 2880 →
      v < T ∧ z.offset v = a ∨ T ≤ v ∧ z.offset v = b := by
    intro v hlow hhigh
    rw [h v hlow hhigh]
    split_ifs with hv
    · exact .inl ⟨hv, rfl⟩
    · exact .inr ⟨Int.not_lt.mp hv, rfl⟩
  have hsol : ∀ s, z.toLocal (t - s) = t ↔ z.offset (t - s) = s := fun s => by
    rw [toLocal]
    omega
  -- the offsets that the search reads are those of the two sides
  have hp := hside t (by omega) (by omega)
  simp only [fromLocal, hsol]
  generalize z.offset t = p at hp ⊢
  have hop := hside (t - p) (by omega) (by omega)
  have hod := hside (if fold then t - p + 1440 else t - p - 1440) (by split <;> omega)
    (by split <;> omega)
  generalize z.offset (if fold then t - p + 1440 else t - p - 1440) = d at hod ⊢
  have hq : ∃ q, q = if z.offset (t - p) = p then d else z.offset (t - p) := ⟨_, rfl⟩
  obtain ⟨q, hq⟩ := hq
  rw [← hq]
  generalize z.offset (t - p) = op at hop hq ⊢
  have hoq := hside (t - q) (by split_ifs at hq <;> omega) (by split_ifs at hq <;> omega)
  generalize z.offset (t - q) = oq at hoq ⊢
  unfold resolved
  cases fold <;> simp only [Bool.false_eq_true, if_true, if_false] at hod ⊢ <;>
    split_ifs at hq ⊢ <;> omega

/-- The offset of a reading lies on its side of the change, too. -/
theorem utcoffset_of_change (ha : a.natAbs < 1440) (hb : b.natAbs < 1440) (hback : a - b ≤ 1440)
    (h : ∀ v, t - 2880 < v → v < t + 2880 → z.offset v = if v < T then a else b) (fold : Bool) :
    z.utcoffset t fold = resolved T a b t fold := by
  have hs := fromLocal_of_change ha hb hback h
  simp only [utcoffset, hs]
  have hab : ∀ fold, resolved T a b t fold = a ∨ resolved T a b t fold = b := fun fold => by
    unfold resolved
    split_ifs <;> simp
  have hbound := fun fold => h (t - resolved T a b t fold) (by have := hab fold; omega)
    (by have := hab fold; omega)
  rw [hbound, hbound]
  unfold resolved
  cases fold <;> simp <;> split_ifs <;> omega

end Zone

/-! ### Times of the day -/

/-- `HourMinTimestamp`: a reading of the clock, without its date. -/
structure HourMinTimestamp where
  hour : ℕ
  minute : ℕ
  fold : Bool
  hour_lt : hour < 24
  minute_lt : minute < 60
  deriving DecidableEq

namespace HourMinTimestamp

/-- The minutes since midnight. -/
def minutes (t : HourMinTimestamp) : ℤ := 60 * t.hour + t.minute

/-- The time of the day at an instant or of a reading. -/
def ofMinutes (n : ℤ) (fold : Bool) : HourMinTimestamp where
  hour := (n % 1440 / 60).toNat
  minute := (n % 60).toNat
  fold := fold
  hour_lt := by omega
  minute_lt := by omega

/-- `datetime.time`. -/
def time (hour minute : ℤ) : Except String HourMinTimestamp :=
  if h : 0 ≤ hour ∧ hour ≤ 23 then
    if m : 0 ≤ minute ∧ minute ≤ 59 then
      .ok ⟨hour.toNat, minute.toNat, false, by omega, by omega⟩
    else .error "minute must be in 0..59"
  else .error "hour must be in 0..23"

/-- `datetime.datetime.combine`. -/
def combine (today : ℤ) (t : HourMinTimestamp) : ℤ := 1440 * today + t.minutes

/-- `create_from_local_timezone`. -/
def createFromLocalTimezone (hour minute : ℤ) : Except String HourMinTimestamp := time hour minute

/-- `create_from_utc`: the date of the local reading is dropped. -/
def createFromUtc (z : Zone) (today hour minute : ℤ) : Except String HourMinTimestamp := do
  let utcTime ← time hour minute
  let u := combine today utcTime
  .ok (ofMinutes (z.toLocal u) (z.fold u))

/-- `_time_to_utc_timezone`. -/
def timeToUtcTimezone (z : Zone) (today : ℤ) (t : HourMinTimestamp) : HourMinTimestamp :=
  ofMinutes (combine today t - z.utcoffset (combine today t) t.fold) false

/-- `to_mqtt_payload_value`. -/
def toMqttPayloadValue (z : Zone) (today : ℤ) (t : HourMinTimestamp) : String :=
  let utcTime := t.timeToUtcTimezone z today
  timeOfDay utcTime.hour utcTime.minute

end HourMinTimestamp

/-! ### Plans on the wire -/

/-- `FeedingPlanOut`, and `GetFeedingPlanOut` with the same fields. -/
structure FeedingPlanOut where
  planId : ℕ
  executionTime : HourMinTimestamp
  repeatDay : List ℕ
  enableAudio : Bool
  audioTimes : ℕ
  grainNum : ℕ
  skipEndTime : Option ℕ
  deriving DecidableEq

/-- `Weekday(day)`, as its value. -/
def weekday (day : ℕ) : Except String ℕ :=
  if (weekdayName? day).isSome then .ok day else .error s!"{day} is not a valid Weekday"

variable (z : Zone)

/-- `_wire_plan`. The weekdays are a set. -/
def wirePlan (today : ℤ) (plan : FeederPlan) : Except String FeedingPlanOut :=
  if plan.enableAudioRaw ≠ 0 ∧ plan.enableAudioRaw ≠ 1 then
    .error s!"feeding plan {plan.id} has unsupported enable_audio_raw"
  else do
    let executionTime ← HourMinTimestamp.createFromUtc z today plan.hourUtc plan.minute
    let repeatDay ← plan.daysRaw.mapM weekday
    .ok {
      planId := plan.id
      executionTime := executionTime
      repeatDay := repeatDay.dedup
      enableAudio := plan.enableAudioRaw != 0
      audioTimes := plan.audioTimes
      grainNum := plan.portions
      skipEndTime := if plan.skipEndTime = 0 then none else some plan.skipEndTime }

/-- `build_plan_service`. -/
def buildPlanService (today : ℤ) (plans : List FeederPlan) :
    Except String (List FeedingPlanOut) :=
  plans.mapM (wirePlan z today)

/-- The object of one plan in the message. -/
structure PlanPayload where
  planId : ℕ
  executionTime : String
  repeatDay : List ℕ
  enableAudio : Bool
  audioTimes : ℕ
  grainNum : ℕ
  skipEndTime : Option ℕ
  deriving DecidableEq, Repr

/-- `WeekdaySchedule.to_mqtt_payload_value`: sorted, and padded to seven days. -/
def weekdaySchedulePayload (days : List ℕ) : List ℕ :=
  days.insertionSort (· ≤ ·) ++ List.replicate (7 - days.length) 0

/-- What `to_mqtt_payload` makes of one plan. -/
def FeedingPlanOut.toPayload (today : ℤ) (plan : FeedingPlanOut) : PlanPayload where
  planId := plan.planId
  executionTime := plan.executionTime.toMqttPayloadValue z today
  repeatDay := weekdaySchedulePayload plan.repeatDay
  enableAudio := plan.enableAudio
  audioTimes := plan.audioTimes
  grainNum := plan.grainNum
  skipEndTime := plan.skipEndTime

/-- The plans of `FeedingPlanServiceOut.to_mqtt_payload`. -/
def toMqttPayload (today : ℤ) (plans : List FeedingPlanOut) : List PlanPayload :=
  plans.map (·.toPayload z today)

/-! ### Texts of times -/

/-- `str.isspace` of an ASCII character. -/
def isSpace (c : Char) : Bool :=
  (9 ≤ c.toNat && c.toNat ≤ 13) || (28 ≤ c.toNat && c.toNat ≤ 32)

/-- `int` of a text of ASCII characters: spaces around it, a sign, and underscores between its
digits are allowed. -/
def pyInt (text : List Char) : Option ℤ :=
  let unsigned (ds : List Char) : Option ℤ :=
    if (ds.splitOn '_').all fun part => !part.isEmpty && part.all Char.isDigit then
      some (decimal (ds.filter (· != '_')))
    else none
  match ((text.dropWhile isSpace).reverse.dropWhile isSpace).reverse with
  | '-' :: ds => (unsigned ds).map (- ·)
  | '+' :: ds => unsigned ds
  | ds => unsigned ds

/-- `hour, minute = map(int, value.split(":"))`. -/
def hourMin (value : String) : Option (ℤ × ℤ) :=
  match (value.toList.splitOn ':').map pyInt with
  | [some hour, some minute] => some (hour, minute)
  | _ => none

theorem twoDigits_spec {n : ℕ} (h : n < 60) :
    ':' ∉ (twoDigits n).toList ∧ pyInt (twoDigits n).toList = some (n : ℤ) := by
  have hall : ∀ n < 60, ':' ∉ (twoDigits n).toList ∧
      pyInt (twoDigits n).toList = some (n : ℤ) := by decide +kernel
  exact hall n h

/-- **The text of a time is read back.** -/
theorem hourMin_timeOfDay {hour minute : ℕ} (hh : hour < 24) (hm : minute < 60) :
    hourMin (timeOfDay hour minute) = some ((hour : ℤ), (minute : ℤ)) := by
  obtain ⟨hhour, hhourInt⟩ := twoDigits_spec (show hour < 60 by omega)
  obtain ⟨hminute, hminuteInt⟩ := twoDigits_spec hm
  have hsplit : (timeOfDay hour minute).toList.splitOn ':' =
      [(twoDigits hour).toList, (twoDigits minute).toList] := by
    have htext : (timeOfDay hour minute).toList =
        (twoDigits hour).toList ++ ':' :: (twoDigits minute).toList := by
      simp [timeOfDay, String.toList_append]
    rw [htext, splitOn_append_cons hhour, splitOn_of_notMem hminute]
  rw [hourMin, hsplit, List.map_cons, List.map_cons, hhourInt, hminuteInt, List.map_nil]

theorem timeOfDay_inj {hour minute hour' minute' : ℕ} (hh : hour < 24) (hm : minute < 60)
    (hh' : hour' < 24) (hm' : minute' < 60) :
    timeOfDay hour minute = timeOfDay hour' minute' ↔ hour = hour' ∧ minute = minute' := by
  constructor
  · intro h
    have hread := hourMin_timeOfDay hh hm
    rw [h, hourMin_timeOfDay hh' hm'] at hread
    simp only [Option.some.injEq, Prod.mk.injEq, Nat.cast_inj] at hread
    exact ⟨hread.1.symm, hread.2.symm⟩
  · rintro ⟨rfl, rfl⟩
    rfl

/-! ### Conversions -/

namespace HourMinTimestamp

theorem time_eq_ok {hour minute : ℤ} {t : HourMinTimestamp} :
    time hour minute = .ok t ↔ t.hour = hour ∧ t.minute = minute ∧ t.fold = false := by
  obtain ⟨h, m, fold, hh, hm⟩ := t
  unfold time
  constructor
  · intro heq
    split at heq
    · split at heq
      · simp only [Except.ok.injEq, mk.injEq] at heq
        refine ⟨?_, ?_, heq.2.2.symm⟩ <;> simp only <;> omega
      · exact absurd heq (by simp)
    · exact absurd heq (by simp)
  · rintro ⟨rfl, rfl, rfl⟩
    rw [dif_pos (by simp only; omega), dif_pos (by simp only; omega)]
    simp

theorem combine_ofMinutes (today n : ℤ) (fold : Bool) :
    combine today (ofMinutes n fold) = 1440 * today + n % 1440 := by
  simp only [combine, minutes, ofMinutes]
  omega

end HourMinTimestamp

/-- Around the day of sending the offset changes from `a` to `b` at the instant `T`. A UTC time is
converted to a local reading on the day of creation. On the day of sending the reading lies on the
side of the change that its offset is from, up to whole days. The readings that the clock shows
twice or skips lie before the change, unless the clock showed the reading for the second time. -/
def Zone.KeepsSide (created sent T a b hour minute : ℤ) : Prop :=
  let u := 1440 * created + (60 * hour + minute)
  let t := 1440 * sent + (u + z.offset u) % 1440
  (a - z.offset u) % 1440 = 0 ∧ (t < T + a ∧ t < T + b ∨ (t < T + a ∨ t < T + b) ∧ ¬z.Repeats u) ∨
    (b - z.offset u) % 1440 = 0 ∧ (T + a ≤ t ∧ T + b ≤ t ∨ (T + a ≤ t ∨ T + b ≤ t) ∧ z.Repeats u)

namespace Zone.ChangesOnce

variable {z : Zone} {day T a b : ℤ} (h : z.ChangesOnce day T a b)
include h

theorem utcoffset_sub_iff (created hour minute : ℤ) :
    let u := 1440 * created + (60 * hour + minute)
    (z.utcoffset (1440 * day + z.toLocal u % 1440) (z.fold u) - z.offset u) % 1440 = 0 ↔
      z.KeepsSide created day T a b hour minute := by
  simp only [KeepsSide, ← fold_iff, toLocal]
  generalize 1440 * created + (60 * hour + minute) = u
  rw [utcoffset_of_change h.before_lt h.behind_lt h.back_le fun v hlow hhigh =>
    h.offset v (by omega) (by omega), resolved]
  generalize z.offset u = c
  generalize (u + c) % 1440 = r
  cases z.fold u <;> simp only [Bool.false_eq_true, if_true, if_false, not_true, not_false_iff,
    and_true, and_false, or_false] <;> split_ifs <;> omega

/-- At an instant of the day, a reading is shown for the second time exactly if the one change has
set the clock back by more than the time since then. -/
theorem repeats_iff {u : ℤ} (hlow : 1440 * day ≤ u) (hhigh : u < 1440 * day + 1440) :
    z.Repeats u ↔ T ≤ u ∧ u + b < T + a := by
  have ha := h.before_lt
  have hb := h.behind_lt
  have hu := h.offset u (by omega) (by omega)
  constructor
  · rintro ⟨w, hwu, hsame, hlt⟩
    have h₁ := z.natAbs_offset_lt u
    have h₂ := z.natAbs_offset_lt (w - 1)
    have hw := h.offset w (by omega) (by omega)
    have hpred := h.offset (w - 1) (by omega) (by omega)
    have hwsame := hsame w le_rfl hwu
    split_ifs at hu hw hpred <;> omega
  · rintro ⟨hT, hlt⟩
    have hpred := h.offset (T - 1) (by omega) (by omega)
    rw [if_neg (by omega)] at hu
    rw [if_pos (by omega)] at hpred
    refine ⟨T, hT, fun v hv hvu => ?_, by rw [hu, hpred]; exact hlt⟩
    rw [hu, h.offset v (by omega) (by omega), if_neg (by omega)]

/-- **A plan that is built and sent on one day**: a time before the change must have a reading
before it, and a time behind it a reading behind it. What the clock shows twice or skips counts as
before, and as behind it if the clock showed the reading of the time for the second time. -/
theorem keepsSide_iff {hour minute : ℤ} (hh : 0 ≤ hour ∧ hour ≤ 23)
    (hm : 0 ≤ minute ∧ minute ≤ 59) :
    let u := 1440 * day + (60 * hour + minute)
    let t := 1440 * day + (u + if u < T then a else b) % 1440
    z.KeepsSide day day T a b hour minute ↔
      (a - b) % 1440 = 0 ∨ if u < T then t < T + a ∨ t < T + b
        else if u + b < T + a then T + b ≤ t else T + a ≤ t ∧ T + b ≤ t := by
  simp only [KeepsSide, h.repeats_iff (show 1440 * day ≤ 1440 * day + (60 * hour + minute) by omega)
    (by omega), h.offset (1440 * day + (60 * hour + minute)) (by omega) (by omega)]
  generalize 1440 * day + (60 * hour + minute) = u
  generalize 1440 * day + (u + if u < T then a else b) % 1440 = t
  have ha := h.before_lt
  have hb := h.behind_lt
  split_ifs <;> omega

end Zone.ChangesOnce

namespace HourMinTimestamp

/-- **A time survives the two conversions exactly if the offset is kept**, up to whole days. -/
theorem toMqttPayloadValue_createFromUtc (created sent : ℤ) {hour minute : ℕ}
    {t : HourMinTimestamp} (h : createFromUtc z created hour minute = .ok t) :
    let u := 1440 * created + (60 * (hour : ℤ) + minute)
    t.toMqttPayloadValue z sent = timeOfDay hour minute ↔
      (z.utcoffset (1440 * sent + z.toLocal u % 1440) (z.fold u) - z.offset u) % 1440 = 0 := by
  obtain ⟨utcTime, htime, h⟩ := bind_eq_ok.mp h
  obtain ⟨hhour, hminute, -⟩ := time_eq_ok.mp htime
  have hhour : utcTime.hour = hour := Int.ofNat.inj hhour
  have hminute : utcTime.minute = minute := Int.ofNat.inj hminute
  have hhour_lt := hhour ▸ utcTime.hour_lt
  have hminute_lt := hminute ▸ utcTime.minute_lt
  have hu : combine created utcTime = 1440 * created + (60 * hour + minute) := by
    rw [combine, minutes, hhour, hminute]
  obtain rfl : ofMinutes _ _ = t := Except.ok.inj h
  rw [toMqttPayloadValue, timeOfDay_inj (timeToUtcTimezone z sent _).hour_lt
    (timeToUtcTimezone z sent _).minute_lt hhour_lt hminute_lt, timeToUtcTimezone,
    combine_ofMinutes, hu]
  simp only [ofMinutes]
  generalize z.utcoffset _ _ = resolved
  rw [Zone.toLocal]
  omega

theorem exists_createFromUtc (today : ℤ) {hour minute : ℕ} (hh : hour ≤ 23)
    (hm : minute ≤ 59) : ∃ t, createFromUtc z today hour minute = .ok t := by
  have htime : time hour minute = .ok ⟨hour, minute, false, by omega, by omega⟩ :=
    time_eq_ok.mpr ⟨rfl, rfl, rfl⟩
  exact ⟨_, bind_eq_ok.mpr ⟨_, htime, rfl⟩⟩

end HourMinTimestamp

/-! ### Collections -/

theorem wirePlan_executionTime {z : Zone} {today : ℤ} {plan : FeederPlan} {out : FeedingPlanOut}
    (h : wirePlan z today plan = .ok out) :
    HourMinTimestamp.createFromUtc z today plan.hourUtc plan.minute = .ok out.executionTime := by
  obtain ⟨-, h⟩ := ite_error_eq_ok.mp h
  obtain ⟨t, ht, h⟩ := bind_eq_ok.mp h
  obtain ⟨days, -, h⟩ := bind_eq_ok.mp h
  cases h
  exact ht

theorem map_executionTime_iff {z : Zone} {created sent T a b : ℤ}
    (hz : z.ChangesOnce sent T a b) {plans : List FeederPlan} {outs : List FeedingPlanOut}
    (h : List.Forall₂ (fun plan out => wirePlan z created plan = .ok out) plans outs) :
    (toMqttPayload z sent outs).map (·.executionTime) =
        plans.map (fun plan => timeOfDay plan.hourUtc plan.minute) ↔
      ∀ plan ∈ plans, z.KeepsSide created sent T a b plan.hourUtc plan.minute := by
  induction h with
  | nil => simp [toMqttPayload]
  | cons hout _ ih =>
    have htime := HourMinTimestamp.toMqttPayloadValue_createFromUtc z created sent
      (wirePlan_executionTime hout)
    have htime := htime.trans (hz.utcoffset_sub_iff created _ _)
    rw [toMqttPayload, List.map_cons, List.map_cons, List.map_cons, List.cons.injEq,
      List.forall_mem_cons]
    exact and_congr htime ih

/-- **The times of plans are sent unchanged exactly if their readings keep their sides** of the one
change of the offset around the day of sending: for a single time, and for every collection that is
written. -/
theorem times_sent_iff (created sent T a b : ℤ) (hz : z.ChangesOnce sent T a b) :
    (∀ hour minute : ℕ, hour ≤ 23 → minute ≤ 59 →
      ∃ t, HourMinTimestamp.createFromUtc z created hour minute = .ok t ∧
        (t.toMqttPayloadValue z sent = timeOfDay hour minute ↔
          z.KeepsSide created sent T a b hour minute)) ∧
    ∀ plans outs, buildPlanService z created plans = .ok outs →
      ((toMqttPayload z sent outs).map (·.executionTime) =
          plans.map (fun plan => timeOfDay plan.hourUtc plan.minute) ↔
        ∀ plan ∈ plans, z.KeepsSide created sent T a b plan.hourUtc plan.minute) := by
  refine ⟨fun hour minute hh hm => ?_,
    fun plans outs h => map_executionTime_iff hz (mapM_eq_ok.mp h)⟩
  obtain ⟨t, ht⟩ := HourMinTimestamp.exists_createFromUtc z created hh hm
  have hkept := HourMinTimestamp.toMqttPayloadValue_createFromUtc z created sent ht
  exact ⟨t, ht, hkept.trans (hz.utcoffset_sub_iff created hour minute)⟩

/-- New York in 2026: the clock is four hours behind UTC from 8 March, 7:00 UTC, to 1 November,
6:00 UTC, and five hours in winter. -/
def newYork : Zone where
  offset u := if 1440 * 20520 + 420 ≤ u ∧ u < 1440 * 20758 + 360 then -240 else -300
  natAbs_offset_lt u := by split <;> decide

/-- A plan that feeds at 2:00 UTC on Mondays. -/
def nightFeed : FeederPlan where
  id := 1
  minute := 0
  hourUtc := 2
  oneShot := false
  oneShotRaw := 0
  timeUtc := "02:00"
  timeLocalCandidate := "22:00"
  daysRaw := [1]
  days := ["monday"]
  portions := 2
  enableAudioRaw := 1
  audioTimes := 1
  executionState := 0
  syncTime := 0
  skipEndTime := 0
  opaqueHex := none

/-- A plan that feeds at 8:00 UTC on Mondays. -/
def morningFeed : FeederPlan :=
  { nightFeed with hourUtc := 8, timeUtc := "08:00", timeLocalCandidate := "03:00" }

theorem newYork_november : newYork.ChangesOnce 20758 (1440 * 20758 + 360) (-240) (-300) where
  offset v hlow hhigh := by
    simp only [newYork]
    split_ifs <;> omega
  before_lt := by decide
  behind_lt := by decide
  back_le := by decide

/-- On 1 November the morning plan is sent as it is: its reading 3:00 is behind the change. -/
theorem times_sent_november :
    (∃ t, HourMinTimestamp.createFromUtc newYork 20758 8 0 = .ok t ∧
      t.toMqttPayloadValue newYork 20758 = "08:00") ∧
    ∃ outs, buildPlanService newYork 20758 [morningFeed] = .ok outs ∧
      (toMqttPayload newYork 20758 outs).map (·.executionTime) = ["08:00"] := by
  have hkeeps : newYork.KeepsSide 20758 20758 (1440 * 20758 + 360) (-240) (-300) 8 0 :=
    (newYork_november.keepsSide_iff (by decide) (by decide)).mpr (by decide)
  obtain ⟨htime, hplans⟩ := times_sent_iff newYork 20758 20758 _ _ _ newYork_november
  obtain ⟨t, ht, hiff⟩ := htime 8 0 (by decide) (by decide)
  refine ⟨⟨t, ht, hiff.mpr hkeeps⟩, ?_⟩
  obtain ⟨outs, houts⟩ : ∃ outs, buildPlanService newYork 20758 [morningFeed] = .ok outs := ⟨_, rfl⟩
  exact ⟨outs, houts, (hplans _ outs houts).mpr (List.forall_mem_singleton.mpr hkeeps)⟩

/-- **On 1 November the plan is moved to 3:00 UTC**: 2:00 UTC is 22:00 on the evening before, in
summer time, and 22:00 on 1 November is in winter time. -/
theorem time_moved_november :
    (∃ t, HourMinTimestamp.createFromUtc newYork 20758 2 0 = .ok t ∧
      t.toMqttPayloadValue newYork 20758 = "03:00") ∧
    ∃ outs, buildPlanService newYork 20758 [nightFeed] = .ok outs ∧
      (toMqttPayload newYork 20758 outs).map (·.executionTime) = ["03:00"] := by
  have hfold : newYork.fold (1440 * 20758 + 120) = false := by
    rw [← Bool.not_eq_true, Zone.fold_iff, newYork_november.repeats_iff (by decide) (by decide)]
    decide
  have ht : HourMinTimestamp.createFromUtc newYork 20758 2 0 =
      .ok (.ofMinutes (newYork.toLocal (1440 * 20758 + 120)) false) := by
    rw [← hfold]
    rfl
  have hplan : wirePlan newYork 20758 nightFeed = .ok _ :=
    ite_error_eq_ok.mpr ⟨by decide, bind_eq_ok.mpr ⟨_, ht, rfl⟩⟩
  exact ⟨⟨_, ht, by decide +kernel⟩, _, mapM_eq_ok.mpr (.cons hplan .nil), by decide +kernel⟩

end PetlibroLocal
