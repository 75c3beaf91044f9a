import PetlibroLocal.Lib.Bytes
import PetlibroLocal.Lib.Json
import PetlibroLocal.Feeder.LocalTime

/-!
# Plan Records

The feeder keeps its plans in a file of records of 47 bytes. The state agent decodes the records
into JSON (`append_plans` of `plaf203_state_agent.c`), and the add-on checks every field before it
accepts a plan (`FeederPlan.from_dict` of `state_agent.py`). JSON is modelled by its values, not
by its text.
-/

namespace PetlibroLocal

open List

/-! ### The state agent -/

/-- `weekday_name`. -/
def agentWeekdayName : ℕ → Option String
  | 1 => some "monday"
  | 2 => some "tuesday"
  | 3 => some "wednesday"
  | 4 => some "thursday"
  | 5 => some "friday"
  | 6 => some "saturday"
  | 7 => some "sunday"
  | _ => none

/-- `append_time_hhmm`. -/
def appendTimeHhmm (hour minute : ℤ) : Json :=
  if hour < 0 ∨ hour > 23 ∨ minute < 0 ∨ minute > 59 then .null
  else .str (timeOfDay hour.toNat minute.toNat)

/-- The two digits of a byte. -/
def hexDigits (b : UInt8) : List Char :=
  [Nat.digitChar (b.toNat / 16), Nat.digitChar (b.toNat % 16)]

/-- `append_hex_string`: with spaces between the bytes. -/
def appendHexString (data : Bytes) : Json :=
  .str (String.ofList ([' '].intercalate (data.map hexDigits)))

/-- One byte of a record. -/
def byteAt (record : Bytes) (i : ℕ) : ℕ := leAt record i 1

/-- The local hour that is shown: the offset is a constant of the agent. -/
def hourLocal (hourUtc : ℕ) (localOffsetHours : ℤ) : ℤ :=
  let hour := (hourUtc + localOffsetHours).tmod 24
  if hour < 0 then hour + 24 else hour

/-- The weekday bytes of a record. -/
def weekdayBytes (record : Bytes) : List ℕ := (List.range 7).map fun j => byteAt record (0x07 + j)

/-- One record of `append_plans`. -/
def appendPlan (record : Bytes) (localOffsetHours : ℤ) (rawRecords : Bool) : Json :=
  let minute := byteAt record 0x04
  let hourUtc := byteAt record 0x05
  .obj ([
    ("id", .int (leAt record 0x00 4)),
    ("minute", .int minute),
    ("hour_utc", .int hourUtc),
    ("one_shot", .bool (byteAt record 0x06 != 0)),
    ("one_shot_raw", .int (byteAt record 0x06)),
    ("time_utc", appendTimeHhmm hourUtc minute),
    ("time_local_candidate", appendTimeHhmm (hourLocal hourUtc localOffsetHours) minute),
    ("days_raw", .arr (((weekdayBytes record).filter (· != 0)).map fun (day : ℕ) => .int day)),
    ("days", .arr (((weekdayBytes record).filterMap agentWeekdayName).map .str)),
    ("portions", .int (byteAt record 0x10)),
    ("enable_audio", .bool (byteAt record 0x0e != 0)),
    ("enable_audio_raw", .int (byteAt record 0x0e)),
    ("audio_times", .int (byteAt record 0x0f)),
    ("execution_state", .int (leAt record 0x11 4)),
    ("sync_time", .int (leAt record 0x15 8)),
    ("skip_end_time", .int (leAt record 0x1d 8)),
    ("opaque_hex", appendHexString ((record.drop 0x25).take 10))] ++
    if rawRecords then [("raw", .obj [("hex", appendHexString record)])] else [])

/-- `append_plans`: the index file holds the count, the plan file the records. A file that could
not be read is `none`. -/
def appendPlans (idx plan : Option Bytes) (localOffsetHours : ℤ) (rawRecords : Bool) : Json :=
  match idx, plan with
  | some (first :: _), some plan =>
    let count := first.toNat
    let valid : Bool := plan.length = count * 47
    .obj ([
      ("ok", .bool valid),
      ("count", .int count),
      ("plan_bin_size", .int plan.length),
      ("record_size", .int 47),
      ("even_split", .bool valid)] ++
      (if valid then [] else [("error", .str "plan.bin size does not match 47-byte records")]) ++
      [("semantic_records", .arr (if valid then (List.range count).map fun i =>
        appendPlan ((plan.drop (i * 47)).take 47) localOffsetHours rawRecords else []))])
  | _, _ => .obj [("ok", .bool false), ("error", .str "missing plan files")]

/-! ### Checks of the add-on -/

/-- `obj.get(key)`. -/
def Json.get (fields : List (String × Json)) (key : String) : Json :=
  (fields.lookup key).getD .null

/-- `_object`. -/
def Json.object (data : Json) (name : String) : Except String (List (String × Json)) :=
  match data with
  | .obj fields => .ok fields
  | _ => .error s!"{name} must be an object"

/-- A check for an array. -/
def Json.array (data : Json) (name : String) : Except String (List Json) :=
  match data with
  | .arr items => .ok items
  | _ => .error s!"{name} must be an array"

/-- `_integer`, with a minimum that is not negative. -/
def Json.integer (data : Json) (name : String) (minimum : ℕ) (maximum : Option ℕ) :
    Except String ℕ :=
  match data with
  | .int n =>
    if n < minimum then .error s!"{name} is below its minimum"
    else if maximum.any fun (m : ℕ) => m < n then .error s!"{name} exceeds its maximum"
    else .ok n.toNat
  | _ => .error s!"{name} must be an integer"

/-- `_boolean`. -/
def Json.boolean (data : Json) (name : String) : Except String Bool :=
  match data with
  | .bool b => .ok b
  | _ => .error s!"{name} must be a boolean"

/-- `_nonempty_string`. -/
def Json.nonemptyString (data : Json) (name : String) : Except String String :=
  match data with
  | .str s => if s = "" then .error s!"{name} must be a non-empty string" else .ok s
  | _ => .error s!"{name} must be a non-empty string"

/-- A digit of `bytes.fromhex`. -/
def isHexDigit (c : Char) : Bool := c.isDigit || ('a' ≤ c && c ≤ 'f') || ('A' ≤ c && c ≤ 'F')

/-- `_fixed_hex`, for ASCII texts. -/
def Json.fixedHex (data : Json) (name : String) (expectedBytes : ℕ) : Except String String := do
  let value ← data.nonemptyString name
  let compact := (value.toList.filter (!isSpace ·)).map Char.toLower
  if compact.length ≠ expectedBytes * 2 then .error s!"{name} must encode {expectedBytes} bytes"
  else if compact.all isHexDigit then .ok (String.ofList compact)
  else .error s!"{name} must be hexadecimal"

/-- `FeederPlan.from_dict`. -/
def FeederPlan.fromDict (data : Json) (index : ℕ) : Except String FeederPlan := do
  let name := s!"plans.semantic_records[{index}]"
  let obj ← data.object name
  let daysRawObj ← (Json.get obj "days_raw").array s!"{name}.days_raw"
  let daysObj ← (Json.get obj "days").array s!"{name}.days"
  let daysRaw ← daysRawObj.zipIdx.mapM fun (value, dayIndex) =>
    value.integer s!"{name}.days_raw[{dayIndex}]" 1 (some 7)
  if ¬daysRaw.Nodup then .error s!"{name}.days_raw contains duplicates"
  else do
    let days ← daysObj.zipIdx.mapM fun (value, dayIndex) =>
      value.nonemptyString s!"{name}.days[{dayIndex}]"
    let id ← (Json.get obj "id").integer s!"{name}.id" 1 (some 0xFFFFFFFF)
    let minute ← (Json.get obj "minute").integer s!"{name}.minute" 0 (some 59)
    let hourUtc ← (Json.get obj "hour_utc").integer s!"{name}.hour_utc" 0 (some 23)
    let oneShot ← (Json.get obj "one_shot").boolean s!"{name}.one_shot"
    let oneShotRaw ← (Json.get obj "one_shot_raw").integer s!"{name}.one_shot_raw" 0 (some 255)
    let timeUtc ← (Json.get obj "time_utc").nonemptyString s!"{name}.time_utc"
    let timeLocalCandidate ← (Json.get obj "time_local_candidate").nonemptyString
      s!"{name}.time_local_candidate"
    let portions ← (Json.get obj "portions").integer s!"{name}.portions" 0 (some 255)
    let enableAudioRaw ← (Json.get obj "enable_audio_raw").integer s!"{name}.enable_audio_raw" 0
      (some 255)
    let audioTimes ← (Json.get obj "audio_times").integer s!"{name}.audio_times" 0 (some 255)
    let executionState ← (Json.get obj "execution_state").integer s!"{name}.execution_state" 0
      (some 0xFFFFFFFF)
    let syncTime ← (Json.get obj "sync_time").integer s!"{name}.sync_time" 0
      (some 0xFFFFFFFFFFFFFFFF)
    let skipEndTime ← (Json.get obj "skip_end_time").integer s!"{name}.skip_end_time" 0
      (some 0xFFFFFFFFFFFFFFFF)
    let opaqueHex ← (Json.get obj "opaque_hex").fixedHex s!"{name}.opaque_hex" 10
    .ok { id, minute, hourUtc, oneShot, oneShotRaw, timeUtc, timeLocalCandidate, daysRaw, days,
          portions, enableAudioRaw, audioTimes, executionState, syncTime, skipEndTime,
          opaqueHex := some opaqueHex }

/-- `FeederPlans.from_dict`. -/
def FeederPlans.fromDict (data : Json) : Except String FeederPlans := do
  let obj ← data.object "plans"
  match Json.get obj "ok" with
  | .bool true => do
    let recordsObj ← (Json.get obj "semantic_records").array "plans.semantic_records"
    let records ← recordsObj.zipIdx.mapM fun (value, index) => FeederPlan.fromDict value index
    let count ← (Json.get obj "count").integer "plans.count" 0 (some 255)
    if hcount : count = records.length then
      if ¬(planIds records).Nodup then
        .error "plans.semantic_records contains duplicate IDs"
      else do
        let planBinSize ← (Json.get obj "plan_bin_size").integer "plans.plan_bin_size" 0 none
        let recordSize ← (Json.get obj "record_size").integer "plans.record_size" 0 none
        let evenSplit ← (Json.get obj "even_split").boolean "plans.even_split"
        if recordSize ≠ 47 ∨ planBinSize ≠ count * 47 ∨ evenSplit = false then
          .error "plans must contain exact 47-byte records"
        else .ok ⟨count, records, hcount⟩
    else .error "plans.count does not match plans.semantic_records"
  | _ => .error "plans.ok must be true"

/-! ### Accepted values -/

namespace Json

variable {data : Json} {name : String}

theorem array_eq_ok {items : List Json} : data.array name = .ok items ↔ data = .arr items := by
  cases data <;> simp [array]

theorem boolean_eq_ok {b : Bool} : data.boolean name = .ok b ↔ data = .bool b := by
  cases data <;> simp [boolean]

theorem nonemptyString_eq_ok {s : String} :
    data.nonemptyString name = .ok s ↔ s ≠ "" ∧ data = .str s := by
  cases data with
  | str t =>
    simp only [nonemptyString, ite_error_eq_ok, Except.ok.injEq, Json.str.injEq]
    constructor <;> (rintro ⟨hne, rfl⟩; exact ⟨hne, rfl⟩)
  | _ => simp [nonemptyString]

theorem integer_eq_ok {n lo : ℕ} {hi : Option ℕ} :
    data.integer name lo hi = .ok n ↔ (lo ≤ n ∧ ∀ m ∈ hi, n ≤ m) ∧ data = .int n := by
  cases data with
  | int k =>
    have habove : (hi.any fun (m : ℕ) => m < k) = true ↔ ¬∀ m ∈ hi, k ≤ (m : ℤ) := by
      cases hi <;> simp
    simp only [integer, ite_error_eq_ok, habove, not_not, not_lt, Except.ok.injEq, Json.int.injEq]
    constructor
    · rintro ⟨hlo, hhi, rfl⟩
      exact ⟨⟨by omega, fun m hm => by have := hhi m hm; omega⟩, by omega⟩
    · rintro ⟨⟨hlo, hhi⟩, rfl⟩
      exact ⟨by omega, fun m hm => by have := hhi m hm; omega, by omega⟩
  | _ => simp [integer]

theorem integer_int_eq_ok {k n lo hi : ℕ} :
    (Json.int k).integer name lo (some hi) = .ok n ↔ (lo ≤ k ∧ k ≤ hi) ∧ k = n := by
  simp only [integer_eq_ok, Option.mem_some_iff, forall_eq', Json.int.injEq, Nat.cast_inj]
  constructor <;> (rintro ⟨h, rfl⟩; exact ⟨h, rfl⟩)

end Json

theorem timeOfDay_ne_empty (hour minute : ℕ) : timeOfDay hour minute ≠ "" := by
  intro h
  have hcolon : ':' ∈ (timeOfDay hour minute).toList := by simp [timeOfDay]
  simp [h] at hcolon

theorem appendTimeHhmm_eq_ok {name t : String} {hour minute : ℤ} :
    (appendTimeHhmm hour minute).nonemptyString name = .ok t ↔
      ((0 ≤ hour ∧ hour ≤ 23) ∧ 0 ≤ minute ∧ minute ≤ 59) ∧
        timeOfDay hour.toNat minute.toNat = t := by
  unfold appendTimeHhmm
  split
  · have hinvalid : ¬((0 ≤ hour ∧ hour ≤ 23) ∧ 0 ≤ minute ∧ minute ≤ 59) := by omega
    simp [Json.nonemptyString_eq_ok, hinvalid]
  · have hvalid : (0 ≤ hour ∧ hour ≤ 23) ∧ 0 ≤ minute ∧ minute ≤ 59 := by omega
    rw [Json.nonemptyString_eq_ok, Json.str.injEq, and_iff_right hvalid]
    constructor
    · rintro ⟨-, h⟩
      exact h
    · rintro rfl
      exact ⟨timeOfDay_ne_empty _ _, rfl⟩

theorem daysRaw_eq_ok {days ys : List ℕ} {check : Json × ℕ → Except String ℕ}
    (hcheck : ∀ value i y, check (value, i) = .ok y ↔
      (1 ≤ y ∧ ∀ m ∈ some 7, y ≤ m) ∧ value = .int y) :
    (days.map fun (day : ℕ) => Json.int day).zipIdx.mapM check = .ok ys ↔
      (∀ day ∈ days, 1 ≤ day ∧ day ≤ 7) ∧ days = ys := by
  have hday : (fun (day y : ℕ) => (1 ≤ y ∧ ∀ m ∈ some 7, y ≤ m) ∧ Json.int day = .int y) =
      fun day y => (1 ≤ day ∧ day ≤ 7) ∧ day = y := by
    funext day y
    simp only [Option.mem_some_iff, forall_eq', Json.int.injEq, Nat.cast_inj, eq_iff_iff]
    constructor <;> (rintro ⟨h, rfl⟩; exact ⟨h, rfl⟩)
  rw [mapM_zipIdx_eq_ok hcheck, forall₂_map_left_iff, hday, forall₂_and_left, forall₂_eq_eq_eq]

theorem days_eq_ok {days : List ℕ} {ys : List String} {check : Json × ℕ → Except String String}
    (hcheck : ∀ value i y, check (value, i) = .ok y ↔ y ≠ "" ∧ value = .str y) :
    ((days.filterMap agentWeekdayName).map Json.str).zipIdx.mapM check = .ok ys ↔
      days.filterMap agentWeekdayName = ys := by
  have hname : (fun (s t : String) => t ≠ "" ∧ Json.str s = .str t) =
      fun s t => s ≠ "" ∧ s = t := by
    funext s t
    simp only [Json.str.injEq, eq_iff_iff]
    constructor <;> (rintro ⟨h, rfl⟩; exact ⟨h, rfl⟩)
  have hall : ∀ s ∈ days.filterMap agentWeekdayName, s ≠ "" := by
    intro s hs
    obtain ⟨day, -, hday⟩ := mem_filterMap.mp hs
    unfold agentWeekdayName at hday
    split at hday <;> simp at hday <;> simp [← hday]
  rw [mapM_zipIdx_eq_ok hcheck, forall₂_map_left_iff, hname, forall₂_and_left,
    forall₂_eq_eq_eq, and_iff_right hall]

/-! ### Hexadecimal texts -/

theorem digitChar_spec {n : ℕ} (h : n < 16) :
    isSpace (Nat.digitChar n) = false ∧ (Nat.digitChar n).toLower = Nat.digitChar n ∧
      isHexDigit (Nat.digitChar n) = true := by
  have hall : ∀ n < 16, isSpace (Nat.digitChar n) = false ∧
      (Nat.digitChar n).toLower = Nat.digitChar n ∧ isHexDigit (Nat.digitChar n) = true := by
    decide
  exact hall n h

theorem hexDigits_spec (b : UInt8) :
    ((hexDigits b).filter (!isSpace ·)).map Char.toLower = hexDigits b ∧
      ∀ c ∈ hexDigits b, isHexDigit c = true := by
  have hb := b.toNat_lt
  obtain ⟨hspace, hlower, hhex⟩ := digitChar_spec (show b.toNat / 16 < 16 by omega)
  obtain ⟨hspace', hlower', hhex'⟩ := digitChar_spec (show b.toNat % 16 < 16 by omega)
  simp [hexDigits, hspace, hlower, hhex, hspace', hlower', hhex']

/-- The text without its spaces. -/
def compactHex (data : Bytes) : List Char := data.flatMap hexDigits

theorem compactHex_intercalate (data : Bytes) :
    (([' '].intercalate (data.map hexDigits)).filter (!isSpace ·)).map Char.toLower =
      compactHex data := by
  induction data with
  | nil => rfl
  | cons b data ih =>
    cases data with
    | nil => simp [compactHex, (hexDigits_spec b).1]
    | cons b' data =>
      rw [map_cons, map_cons, intercalate_cons_cons, ← map_cons,
        filter_append, filter_append, map_append, map_append, ih,
        (hexDigits_spec b).1]
      rfl

theorem length_compactHex (data : Bytes) : (compactHex data).length = data.length * 2 := by
  simp [compactHex, hexDigits, length_flatMap]

theorem all_compactHex (data : Bytes) : (compactHex data).all isHexDigit = true := by
  refine all_eq_true.mpr fun c hc => ?_
  obtain ⟨b, -, hb⟩ := mem_flatMap.mp hc
  exact (hexDigits_spec b).2 c hb

theorem fixedHex_eq_ok {data : Bytes} {name s : String} {expected : ℕ} (hpos : 0 < expected) :
    (appendHexString data).fixedHex name expected = .ok s ↔
      data.length = expected ∧ String.ofList (compactHex data) = s := by
  have hcheck : (appendHexString data).fixedHex name expected = .ok s ↔
      String.ofList ([' '].intercalate (data.map hexDigits)) ≠ "" ∧
        data.length * 2 = expected * 2 ∧ String.ofList (compactHex data) = s := by
    simp only [Json.fixedHex, bind_eq_ok, Json.nonemptyString_eq_ok, appendHexString,
      Json.str.injEq, ite_error_eq_ok, not_not]
    constructor
    · rintro ⟨value, ⟨hne, rfl⟩, h⟩
      rw [String.toList_ofList, compactHex_intercalate, length_compactHex,
        if_pos (all_compactHex data)] at h
      exact ⟨hne, h.1, Except.ok.inj h.2⟩
    · rintro ⟨hne, hlength, rfl⟩
      refine ⟨_, ⟨hne, rfl⟩, ?_⟩
      rw [String.toList_ofList, compactHex_intercalate, length_compactHex,
        if_pos (all_compactHex data)]
      exact ⟨hlength, rfl⟩
  rw [hcheck]
  constructor
  · rintro ⟨-, hlength, h⟩
    exact ⟨by omega, h⟩
  · rintro ⟨hlength, h⟩
    refine ⟨fun hempty => ?_, by omega, h⟩
    have hnil : [' '].intercalate (data.map hexDigits) = [] := by
      simpa using congrArg String.toList hempty
    have hcompact := compactHex_intercalate data
    rw [hnil] at hcompact
    have hzero := length_compactHex data
    rw [← hcompact] at hzero
    simp only [filter_nil, map_nil, length_nil] at hzero
    omega

/-! ### Accepted records -/

/-- What a record must fulfil to be accepted. -/
structure ValidRecord (record : Bytes) : Prop where
  length_le : 47 ≤ record.length
  id_pos : 1 ≤ leAt record 0x00 4
  minute_le : byteAt record 0x04 ≤ 59
  hour_le : byteAt record 0x05 ≤ 23
  days_le : ∀ day ∈ weekdayBytes record, day ≤ 7
  nodup : ((weekdayBytes record).filter (· != 0)).Nodup

/-- The plan that a record stands for, with the local time that is shown. -/
def recordPlan (record : Bytes) (localOffsetHours : ℤ) : FeederPlan where
  id := leAt record 0x00 4
  minute := byteAt record 0x04
  hourUtc := byteAt record 0x05
  oneShot := byteAt record 0x06 != 0
  oneShotRaw := byteAt record 0x06
  timeUtc := timeOfDay (byteAt record 0x05) (byteAt record 0x04)
  timeLocalCandidate :=
    timeOfDay (hourLocal (byteAt record 0x05) localOffsetHours).toNat (byteAt record 0x04)
  daysRaw := (weekdayBytes record).filter (· != 0)
  days := (weekdayBytes record).filterMap agentWeekdayName
  portions := byteAt record 0x10
  enableAudioRaw := byteAt record 0x0e
  audioTimes := byteAt record 0x0f
  executionState := leAt record 0x11 4
  syncTime := leAt record 0x15 8
  skipEndTime := leAt record 0x1d 8
  opaqueHex := some (String.ofList (compactHex ((record.drop 0x25).take 10)))

theorem hourLocal_eq (hourUtc : ℕ) (localOffsetHours : ℤ) :
    hourLocal hourUtc localOffsetHours = (hourUtc + localOffsetHours) % 24 := by
  simp only [hourLocal, Int.tmod_eq_emod]
  split <;> split <;> omega

theorem hourLocal_bounds (hourUtc : ℕ) (localOffsetHours : ℤ) :
    0 ≤ hourLocal hourUtc localOffsetHours ∧ hourLocal hourUtc localOffsetHours ≤ 23 := by
  rw [hourLocal_eq]
  omega

theorem byteAt_le (record : Bytes) (i : ℕ) : byteAt record i ≤ 255 :=
  Nat.le_of_lt_succ (leAt_lt record i 1)

/-- **The add-on accepts exactly the valid records**, and takes the plan as the record says. -/
theorem fromDict_appendPlan_iff {record : Bytes} {localOffsetHours : ℤ} {rawRecords : Bool}
    {index : ℕ} {plan : FeederPlan} :
    FeederPlan.fromDict (appendPlan record localOffsetHours rawRecords) index = .ok plan ↔
      ValidRecord record ∧ recordPlan record localOffsetHours = plan := by
  have hlocal := hourLocal_bounds (byteAt record 0x05) localOffsetHours
  have hword (off : ℕ) : leAt record off 4 ≤ 0xFFFFFFFF := Nat.le_of_lt_succ (leAt_lt record off 4)
  have hlong (off : ℕ) : leAt record off 8 ≤ 0xFFFFFFFFFFFFFFFF :=
    Nat.le_of_lt_succ (leAt_lt record off 8)
  simp only [FeederPlan.fromDict, appendPlan, Json.object, bind_eq_ok, Except.ok.injEq,
    exists_eq_left', Json.get, lookup_append, lookup_cons, String.reduceBEq,
    Option.some_or, Option.getD_some, Json.array_eq_ok, Json.arr.injEq, ite_error_eq_ok, not_not,
    Json.integer_int_eq_ok, Json.boolean_eq_ok, Json.bool.injEq, appendTimeHhmm_eq_ok, and_assoc,
    exists_and_left, Int.toNat_natCast, byteAt_le, hword, hlong, hlocal, Nat.zero_le,
    Int.natCast_nonneg, true_and]
  constructor
  · rintro ⟨daysRaw, hdaysRaw, hnodup, days, hdays, hid, hminute, hhour, -, -, -, hex, hhex, rfl⟩
    obtain ⟨hvalid, rfl⟩ := (daysRaw_eq_ok fun value i y => Json.integer_eq_ok).mp hdaysRaw
    obtain rfl := (days_eq_ok fun value i y => Json.nonemptyString_eq_ok).mp hdays
    obtain ⟨hlength, rfl⟩ := (fixedHex_eq_ok (by decide)).mp hhex
    refine ⟨⟨?_, hid, hminute, hhour, ?_, hnodup⟩, rfl⟩
    · rw [length_take, length_drop] at hlength
      omega
    · intro day hday
      by_cases hzero : day = 0
      · omega
      · exact (hvalid day (mem_filter.mpr ⟨hday, by simpa using hzero⟩)).2
  · rintro ⟨hrecord, rfl⟩
    have hdays : ∀ day ∈ (weekdayBytes record).filter (· != 0), 1 ≤ day ∧ day ≤ 7 := by
      intro day hday
      obtain ⟨hmem, hzero⟩ := mem_filter.mp hday
      exact ⟨Nat.pos_of_ne_zero (by simpa using hzero), hrecord.days_le day hmem⟩
    have hlength : ((record.drop 0x25).take 10).length = 10 := by
      have := hrecord.length_le
      rw [length_take, length_drop]
      omega
    have hminute := hrecord.minute_le
    have hhour := hrecord.hour_le
    exact ⟨_, (daysRaw_eq_ok fun value i y => Json.integer_eq_ok).mpr ⟨hdays, rfl⟩, hrecord.nodup,
      _, (days_eq_ok fun value i y => Json.nonemptyString_eq_ok).mpr rfl, hrecord.id_pos,
      hminute, hhour, by omega, by omega, by omega,
      _, (fixedHex_eq_ok (by decide)).mpr ⟨hlength, rfl⟩, rfl⟩

end PetlibroLocal
