import PetlibroLocal.Agent.JsonWriter
import PetlibroLocal.Feeder.PlanRecords

/-!
# The Text of the Plans

`append_plans` of `plaf203_state_agent.c` as it writes: the bytes that it appends to the response,
with each bracket and comma where the source places it. The values behind the text are those of
`PetlibroLocal.appendPlans`.
-/

namespace PetlibroLocal.Agent

open JsonGrammar List

/-! ### The writers -/

/-- `append_hex_string`: with spaces between the bytes. -/
def appendHexString (data : Bytes) : Bytes :=
  lit "\"" ++ (utf8 ([' '].intercalate (data.map hexDigits)) ++ lit "\"")

/-- `%02d`. -/
def twoDigitText (n : ℕ) : Bytes := (if n < 10 then lit "0" else []) ++ natText n

/-- `append_time_hhmm`. -/
def appendTimeHhmm (hour minute : ℤ) : Bytes :=
  if hour < 0 ∨ hour > 23 ∨ minute < 0 ∨ minute > 59 then lit "null"
  else lit "\"" ++ twoDigitText hour.toNat ++ lit ":" ++ twoDigitText minute.toNat ++ lit "\""

/-- `json_string` of a name. -/
def nameText (name : String) : Bytes := jsonString (lit name)

/-- One record of `append_plans`. -/
def appendPlan (record : Bytes) (localOffsetHours : ℤ) (rawRecords : Bool) : Bytes :=
  let minute := byteAt record 0x04
  let hourUtc := byteAt record 0x05
  let days := weekdayBytes record
  lit "\x7b" ++
  key "id" ++ natText (leAt record 0x00 4) ++ lit "," ++
  key "minute" ++ natText minute ++ lit "," ++
  key "hour_utc" ++ natText hourUtc ++ lit "," ++
  key "one_shot" ++ boolText (byteAt record 0x06 != 0) ++ lit "," ++
  key "one_shot_raw" ++ natText (byteAt record 0x06) ++ lit "," ++
  key "time_utc" ++ appendTimeHhmm hourUtc minute ++ lit "," ++
  key "time_local_candidate" ++ appendTimeHhmm (hourLocal hourUtc localOffsetHours) minute ++
    lit "," ++
  key "days_raw" ++ lit "[" ++ separated true ((days.filter (· != 0)).map natText) ++
  lit "]," ++ key "days" ++ lit "[" ++
    separated true ((days.filterMap agentWeekdayName).map nameText) ++
  lit "]," ++
  key "portions" ++ natText (byteAt record 0x10) ++ lit "," ++
  key "enable_audio" ++ boolText (byteAt record 0x0e != 0) ++ lit "," ++
  key "enable_audio_raw" ++ natText (byteAt record 0x0e) ++ lit "," ++
  key "audio_times" ++ natText (byteAt record 0x0f) ++ lit "," ++
  key "execution_state" ++ natText (leAt record 0x11 4) ++ lit "," ++
  key "sync_time" ++ natText (leAt record 0x15 8) ++ lit "," ++
  key "skip_end_time" ++ natText (leAt record 0x1d 8) ++ lit "," ++
  key "opaque_hex" ++ appendHexString ((record.drop 0x25).take 10) ++
  (if rawRecords then
    lit "," ++ key "raw" ++ lit "\x7b" ++ key "hex" ++ appendHexString record ++ lit "\x7d"
  else []) ++
  lit "\x7d"

/-- `append_plans`. A file that could not be read is `none`. -/
def appendPlans (idx plan : Option Bytes) (localOffsetHours : ℤ) (rawRecords : Bool) : Bytes :=
  lit "\x7b" ++
  match idx, plan with
  | some (first :: _), some plan =>
    let count := first.toNat
    let valid : Bool := plan.length = count * 47
    key "ok" ++ boolText valid ++ lit "," ++
    key "count" ++ natText count ++ lit "," ++
    key "plan_bin_size" ++ natText plan.length ++ lit "," ++
    key "record_size" ++ natText 47 ++ lit "," ++
    key "even_split" ++ boolText valid ++ lit "," ++
    (if valid then []
    else key "error" ++ lit "\"plan.bin size does not match 47-byte records\",") ++
    key "semantic_records" ++ lit "[" ++
    (if valid then separated true ((List.range count).map fun i =>
      appendPlan ((plan.drop (i * 47)).take 47) localOffsetHours rawRecords) else []) ++
    lit "]\x7d"
  | _, _ => key "ok" ++ lit "false," ++ key "error" ++ lit "\"missing plan files\"\x7d"

/-! ### The values behind the texts -/

variable {lim : Option ℕ}

theorem encodes_u64 (hlim : ∀ m ∈ lim, 20 ≤ m) {n : ℕ} (hn : n < 2 ^ 64) :
    Encodes lim (.int n) (natText n) := by
  refine encodes_nat fun m hm => le_trans ?_ (hlim m hm)
  rw [Nat.length_toDigits_le_iff (by omega) (by omega)]
  omega

theorem isUnescaped_hexDigits {b : UInt8} {c : Char} (h : c ∈ hexDigits b) :
    isUnescaped c = true := by
  have hall : ∀ n < 16, isUnescaped (Nat.digitChar n) = true := by decide
  have hb := b.toNat_lt
  simp only [hexDigits, mem_cons, not_mem_nil, or_false] at h
  rcases h with rfl | rfl
  · exact hall _ (by omega)
  · exact hall _ (by omega)

theorem encodes_appendHexString (data : Bytes) :
    Encodes lim (PetlibroLocal.appendHexString data) (appendHexString data) := by
  have hplain : ∀ c ∈ [' '].intercalate (data.map hexDigits), isUnescaped c = true := by
    intro c hc
    rcases mem_intercalate_of_mem hc with rfl | ⟨_, hmem, hc⟩
    · decide
    · obtain ⟨b, -, rfl⟩ := mem_map.mp hmem
      exact isUnescaped_hexDigits hc
  have hstr := @encodes_str lim _ _ (.mk (chars_self hplain))
  rwa [utf8_cons, utf8_append] at hstr

theorem isUnescaped_of_isDigit {c : Char} (h : c.isDigit = true) : isUnescaped c = true := by
  obtain ⟨hlo, hhi⟩ := isDigit_iff.mp h
  have hne {d : Char} (hd : d.toNat < 48 ∨ 57 < d.toNat) : c ≠ d := by
    rintro rfl
    omega
  simp only [isUnescaped, Bool.and_eq_true, decide_eq_true_eq, bne_iff_ne]
  exact ⟨⟨by omega, hne (by decide)⟩, hne (by decide)⟩

theorem toList_twoDigits (n : ℕ) :
    (twoDigits n).toList = (if n < 10 then ['0'] else []) ++ Nat.toDigits 10 n := by
  unfold twoDigits
  split <;> simp

theorem lit_twoDigits (n : ℕ) : lit (twoDigits n) = twoDigitText n := by
  rw [lit, toList_twoDigits, utf8_append, twoDigitText, natText]
  split <;> rfl

theorem isUnescaped_timeOfDay (hour minute : ℕ) :
    (timeOfDay hour minute).toList.all isUnescaped = true := by
  have hdigits : ∀ n, ∀ c ∈ (twoDigits n).toList, isUnescaped c = true := by
    intro n c hc
    refine isUnescaped_of_isDigit ?_
    rw [toList_twoDigits, mem_append] at hc
    rcases hc with hc | hc
    · split at hc
      · rw [mem_singleton.mp hc]
        decide
      · simp at hc
    · exact Nat.isDigit_of_mem_toDigits (by omega) (by omega) hc
  refine all_eq_true.mpr fun c hc => ?_
  simp only [timeOfDay, String.toList_append, mem_append] at hc
  rcases hc with (hc | hc) | hc
  · exact hdigits hour c hc
  · rw [show c = ':' by simpa using hc]
    decide
  · exact hdigits minute c hc

theorem encodes_appendTimeHhmm (hour minute : ℤ) :
    Encodes lim (PetlibroLocal.appendTimeHhmm hour minute) (appendTimeHhmm hour minute) := by
  unfold PetlibroLocal.appendTimeHhmm appendTimeHhmm
  split
  · exact ⟨_, rfl, .null⟩
  · have hplain := @encodes_plain lim _ (isUnescaped_timeOfDay hour.toNat minute.toNat)
    have htext : lit (timeOfDay hour.toNat minute.toNat) =
        twoDigitText hour.toNat ++ lit ":" ++ twoDigitText minute.toNat := by
      rw [← lit_twoDigits, ← lit_twoDigits, timeOfDay]
      simp only [lit, String.toList_append, utf8_append]
    rw [htext] at hplain
    simpa only [append_assoc] using hplain

theorem encodes_nameText {name : String} (h : Char.ofNat 0 ∉ name.toList) :
    Encodes lim (.str name) (nameText name) := by
  obtain ⟨text, htext, hstring⟩ := stringText_jsonString h
  rw [String.ofList_toList] at hstring
  rw [nameText, lit, htext]
  exact encodes_str hstring

theorem encodes_weekdays (hlim : ∀ m ∈ lim, 20 ≤ m) (record : Bytes) :
    Encodes lim (.arr (((weekdayBytes record).filter (· != 0)).map fun (day : ℕ) => .int day))
      (lit "[" ++ (separated true (((weekdayBytes record).filter (· != 0)).map natText) ++
        lit "]")) := by
  rw [separated_eq]
  refine Encodes.arr ?_
  rw [forall₂_map_left_iff, forall₂_map_right_iff, forall₂_same]
  intro day hday
  obtain ⟨j, -, rfl⟩ := mem_map.mp (mem_of_mem_filter hday)
  exact encodes_u64 hlim (Nat.lt_of_le_of_lt (byteAt_le _ _) (by omega))

theorem encodes_weekdayNames (days : List ℕ) :
    Encodes lim (.arr ((days.filterMap agentWeekdayName).map .str))
      (lit "[" ++ (separated true ((days.filterMap agentWeekdayName).map nameText) ++
        lit "]")) := by
  rw [separated_eq]
  refine Encodes.arr ?_
  rw [forall₂_map_left_iff, forall₂_map_right_iff, forall₂_same]
  intro name hname
  obtain ⟨day, -, hday⟩ := mem_filterMap.mp hname
  refine encodes_nameText ?_
  unfold agentWeekdayName at hday
  split at hday <;> simp at hday <;> simp [← hday]

/-- A member that is a number. -/
def number (k : String) (n : ℕ) : String × Json × Bytes := (k, .int n, natText n)

/-- A member that is a flag. -/
def flag (k : String) (b : Bool) : String × Json × Bytes := (k, .bool b, boolText b)

/-- A member that is a time. -/
def time (k : String) (hour minute : ℤ) : String × Json × Bytes :=
  (k, PetlibroLocal.appendTimeHhmm hour minute, appendTimeHhmm hour minute)

/-- The members of a record: keys, values and texts. -/
def planEntries (record : Bytes) (localOffsetHours : ℤ) (rawRecords : Bool) :
    List (String × Json × Bytes) :=
  [number "id" (leAt record 0x00 4), number "minute" (byteAt record 0x04),
    number "hour_utc" (byteAt record 0x05), flag "one_shot" (byteAt record 0x06 != 0),
    number "one_shot_raw" (byteAt record 0x06),
    time "time_utc" (byteAt record 0x05) (byteAt record 0x04),
    time "time_local_candidate" (hourLocal (byteAt record 0x05) localOffsetHours)
      (byteAt record 0x04),
    ("days_raw", .arr (((weekdayBytes record).filter (· != 0)).map fun (day : ℕ) => .int day),
      lit "[" ++ (separated true (((weekdayBytes record).filter (· != 0)).map natText) ++ lit "]")),
    ("days", .arr (((weekdayBytes record).filterMap agentWeekdayName).map .str), lit "[" ++
        (separated true (((weekdayBytes record).filterMap agentWeekdayName).map nameText) ++
          lit "]")),
    number "portions" (byteAt record 0x10), flag "enable_audio" (byteAt record 0x0e != 0),
    number "enable_audio_raw" (byteAt record 0x0e), number "audio_times" (byteAt record 0x0f),
    number "execution_state" (leAt record 0x11 4), number "sync_time" (leAt record 0x15 8),
    number "skip_end_time" (leAt record 0x1d 8),
    ("opaque_hex", PetlibroLocal.appendHexString ((record.drop 0x25).take 10),
      appendHexString ((record.drop 0x25).take 10))] ++
    if rawRecords then
      [("raw", .obj [("hex", PetlibroLocal.appendHexString record)],
        lit "\x7b" ++ ((key "hex" ++ appendHexString record) ++ lit "\x7d"))]
    else []

/-- The keys of a record. -/
def planKeys : List String :=
  ["id", "minute", "hour_utc", "one_shot", "one_shot_raw", "time_utc", "time_local_candidate",
    "days_raw", "days", "portions", "enable_audio", "enable_audio_raw", "audio_times",
    "execution_state", "sync_time", "skip_end_time", "opaque_hex"]

theorem encodes_rawHex (record : Bytes) :
    Encodes lim (.obj [("hex", PetlibroLocal.appendHexString record)])
      (lit "\x7b" ++ ((key "hex" ++ appendHexString record) ++ lit "\x7d")) := by
  have hentries := @encodes_entries lim
    [("hex", PetlibroLocal.appendHexString record, appendHexString record)] (by simp)
    (by decide : ["hex"].all (·.toList.all isUnescaped) = true)
    (by simpa using encodes_appendHexString record)
  simpa only [map_cons, map_nil, intercalate_singleton] using hentries

theorem encodes_planEntries (hlim : ∀ m ∈ lim, 20 ≤ m) (record : Bytes) (localOffsetHours : ℤ)
    (rawRecords : Bool) :
    ∀ e ∈ planEntries record localOffsetHours rawRecords, Encodes lim e.2.1 e.2.2 := by
  have hbyte (i : ℕ) : Encodes lim (.int (byteAt record i)) (natText (byteAt record i)) :=
    encodes_u64 hlim (Nat.lt_of_le_of_lt (byteAt_le record i) (by omega))
  have hword (off : ℕ) : Encodes lim (.int (leAt record off 4)) (natText (leAt record off 4)) :=
    encodes_u64 hlim (Nat.lt_of_lt_of_le (leAt_lt record off 4) (by decide))
  have hlong (off : ℕ) : Encodes lim (.int (leAt record off 8)) (natText (leAt record off 8)) :=
    encodes_u64 hlim (leAt_lt record off 8)
  simp only [planEntries, forall_mem_append, forall_mem_cons]
  refine ⟨⟨hword _, hbyte _, hbyte _, encodes_bool _, hbyte _, encodes_appendTimeHhmm _ _,
    encodes_appendTimeHhmm _ _, encodes_weekdays hlim record, encodes_weekdayNames _, hbyte _,
    encodes_bool _, hbyte _, hbyte _, hword _, hlong _, hlong _, encodes_appendHexString _,
    forall_mem_nil _⟩, ?_⟩
  cases rawRecords with
  | false => exact forall_mem_nil _
  | true =>
    rw [if_pos rfl, forall_mem_singleton]
    exact encodes_rawHex record

theorem appendPlan_eq (record : Bytes) (localOffsetHours : ℤ) (rawRecords : Bool) :
    appendPlan record localOffsetHours rawRecords =
      lit "\x7b" ++ ((lit ",").intercalate
        ((planEntries record localOffsetHours rawRecords).map fun e => key e.1 ++ e.2.2) ++
          lit "\x7d") := by
  have hclose : lit "]," = lit "]" ++ lit "," := rfl
  unfold appendPlan planEntries
  rw [hclose]
  -- only where the literals stand matters here
  generalize lit "," = comma, lit "[" = open', lit "]" = close, lit "\x7b" = brace,
    lit "\x7d" = brace'
  cases rawRecords <;>
    simp only [number, flag, time, if_true, Bool.false_eq_true, if_false, append_nil,
      map_cons, map_nil, cons_append, nil_append,
      intercalate_cons_cons, intercalate_singleton, append_assoc]

/-- **A record is written as the JSON of its values.** -/
theorem encodes_appendPlan (hlim : ∀ m ∈ lim, 20 ≤ m) (record : Bytes) (localOffsetHours : ℤ)
    (rawRecords : Bool) :
    Encodes lim (PetlibroLocal.appendPlan record localOffsetHours rawRecords)
      (appendPlan record localOffsetHours rawRecords) := by
  have hvalue : PetlibroLocal.appendPlan record localOffsetHours rawRecords =
      .obj ((planEntries record localOffsetHours rawRecords).map fun e => (e.1, e.2.1)) := by
    cases rawRecords <;> rfl
  rw [hvalue, appendPlan_eq]
  refine encodes_entries (cons_ne_nil _ _) ?_
    (encodes_planEntries hlim record localOffsetHours rawRecords)
  have hkeys : (planEntries record localOffsetHours rawRecords).map Prod.fst =
      planKeys ++ if rawRecords then ["raw"] else [] := by
    cases rawRecords <;> rfl
  rw [hkeys]
  cases rawRecords <;> decide

/-- A text in quotes. -/
def quoted (s : String) : Bytes := lit "\"" ++ (lit s ++ lit "\"")

/-- The records of a file of plans. -/
def planRecords (plan : Bytes) (count : ℕ) : List Bytes :=
  (List.range count).map fun i => (plan.drop (i * 47)).take 47

theorem encodes_records (hlim : ∀ m ∈ lim, 20 ≤ m) (records : List Bytes) (localOffsetHours : ℤ)
    (rawRecords : Bool) :
    Encodes lim (.arr (records.map (PetlibroLocal.appendPlan · localOffsetHours rawRecords)))
      (lit "[" ++ (separated true (records.map (appendPlan · localOffsetHours rawRecords)) ++
        lit "]")) := by
  rw [separated_eq]
  refine Encodes.arr ?_
  rw [forall₂_map_left_iff, forall₂_map_right_iff, forall₂_same]
  intro record _
  exact encodes_appendPlan hlim record localOffsetHours rawRecords

/-- The members of the collection: keys, values and texts. -/
def plansEntries (count size : ℕ) (valid : Bool) (records : Json) (text : Bytes) :
    List (String × Json × Bytes) :=
  [flag "ok" valid, number "count" count, number "plan_bin_size" size, number "record_size" 47,
    flag "even_split" valid] ++
    (if valid then []
    else [("error", .str "plan.bin size does not match 47-byte records",
      quoted "plan.bin size does not match 47-byte records")]) ++
    [("semantic_records", records, text)]

theorem encodes_plansEntries (hlim : ∀ m ∈ lim, 20 ≤ m) {count size : ℕ} {valid : Bool}
    {records : Json} {text : Bytes} (hcount : count < 2 ^ 64)
    (hsize : ∀ m ∈ lim, (Nat.toDigits 10 size).length ≤ m) (hrecords : Encodes lim records text) :
    Encodes lim (.obj ((plansEntries count size valid records text).map fun e => (e.1, e.2.1)))
      (lit "\x7b" ++ ((lit ",").intercalate
        ((plansEntries count size valid records text).map fun e => key e.1 ++ e.2.2) ++
          lit "\x7d")) := by
  refine encodes_entries (cons_ne_nil _ _) ?_ ?_
  · have hkeys : (plansEntries count size valid records text).map Prod.fst =
        ["ok", "count", "plan_bin_size", "record_size", "even_split"] ++
          (if valid then [] else ["error"]) ++ ["semantic_records"] := by
      cases valid <;> rfl
    rw [hkeys]
    cases valid <;> decide
  · simp only [plansEntries, forall_mem_append, forall_mem_cons]
    refine ⟨⟨⟨encodes_bool _, encodes_u64 hlim hcount, encodes_nat hsize,
      encodes_u64 hlim (by omega), encodes_bool _, forall_mem_nil _⟩, ?_⟩, hrecords,
      forall_mem_nil _⟩
    cases valid with
    | true => exact forall_mem_nil _
    | false =>
      rw [if_neg Bool.false_ne_true, forall_mem_singleton]
      exact encodes_plain (by decide)

/-- The records that `append_plans` writes. -/
def writtenRecords (plan : Bytes) (count : ℕ) : List Bytes :=
  if plan.length = count * 47 then planRecords plan count else []

theorem appendPlans_value (first : UInt8) (rest plan : Bytes) (localOffsetHours : ℤ)
    (rawRecords : Bool) (text : Bytes) :
    PetlibroLocal.appendPlans (some (first :: rest)) (some plan) localOffsetHours rawRecords =
      .obj ((plansEntries first.toNat plan.length (plan.length = first.toNat * 47)
        (.arr ((writtenRecords plan first.toNat).map
          (PetlibroLocal.appendPlan · localOffsetHours rawRecords))) text).map
            fun e => (e.1, e.2.1)) := by
  by_cases hvalid : plan.length = first.toNat * 47
  · simp only [PetlibroLocal.appendPlans, plansEntries, writtenRecords, planRecords, number, flag,
      hvalid, decide_true, if_true, append_nil, map_cons, map_nil, map_map, cons_append, nil_append]
    rfl
  · simp only [PetlibroLocal.appendPlans, plansEntries, writtenRecords, number, flag, hvalid,
      decide_false, Bool.false_eq_true, if_false, map_cons, map_nil, cons_append, nil_append]
    rfl

theorem appendPlans_text (first : UInt8) (rest plan : Bytes) (localOffsetHours : ℤ)
    (rawRecords : Bool) (v : Json) :
    appendPlans (some (first :: rest)) (some plan) localOffsetHours rawRecords =
      lit "\x7b" ++ ((lit ",").intercalate
        ((plansEntries first.toNat plan.length (plan.length = first.toNat * 47) v
          (lit "[" ++ (separated true ((writtenRecords plan first.toNat).map
            (appendPlan · localOffsetHours rawRecords)) ++ lit "]"))).map
              fun e => key e.1 ++ e.2.2) ++ lit "\x7d") := by
  have hclose : lit "]\x7d" = lit "]" ++ lit "\x7d" := rfl
  have herror : lit "\"plan.bin size does not match 47-byte records\"," =
      quoted "plan.bin size does not match 47-byte records" ++ lit "," := rfl
  have hnone : separated true [] = [] := rfl
  unfold appendPlans plansEntries writtenRecords planRecords
  rw [hclose, herror]
  generalize lit "," = comma, lit "[" = open', lit "]" = close, lit "\x7b" = brace,
    lit "\x7d" = brace', quoted "plan.bin size does not match 47-byte records" = message
  by_cases hvalid : plan.length = first.toNat * 47
  · simp only [number, flag, hvalid, decide_true, if_true, append_nil, map_cons,
      map_nil, map_map, cons_append, nil_append, intercalate_cons_cons,
      intercalate_singleton, append_assoc]
    rfl
  · simp only [number, flag, hvalid, hnone, decide_false, Bool.false_eq_true, if_false,
      map_cons, map_nil, cons_append, nil_append,
      intercalate_cons_cons, intercalate_singleton, append_assoc]

theorem encodes_missing :
    Encodes lim (.obj [("ok", .bool false), ("error", .str "missing plan files")])
      (lit "\x7b" ++ (key "ok" ++ lit "false," ++ key "error" ++
        lit "\"missing plan files\"\x7d")) := by
  have hentries := @encodes_entries lim
    [("ok", .bool false, lit "false"), ("error", .str "missing plan files",
      quoted "missing plan files")] (cons_ne_nil _ _)
    (by decide : ["ok", "error"].all (·.toList.all isUnescaped) = true) (by
        rw [forall_mem_cons, forall_mem_singleton]
        exact ⟨encodes_bool false, encodes_plain (by decide)⟩)
  simp only [map_cons, map_nil, intercalate_cons_cons,
    intercalate_singleton, append_assoc] at hentries
  exact hentries

/-- **What `append_plans` writes is the JSON of its values.** -/
theorem encodes_appendPlans (hlim : ∀ m ∈ lim, 20 ≤ m) (idx plan : Option Bytes)
    (hsize : ∀ bytes ∈ plan, ∀ m ∈ lim, (Nat.toDigits 10 bytes.length).length ≤ m)
    (localOffsetHours : ℤ) (rawRecords : Bool) :
    Encodes lim (PetlibroLocal.appendPlans idx plan localOffsetHours rawRecords)
      (appendPlans idx plan localOffsetHours rawRecords) := by
  rcases idx with _ | (_ | ⟨first, rest⟩)
  · exact encodes_missing
  · exact encodes_missing
  · cases plan with
    | none => exact encodes_missing
    | some plan =>
      rw [appendPlans_value, appendPlans_text]
      exact encodes_plansEntries hlim (Nat.lt_trans first.toNat_lt (by omega)) (hsize plan rfl)
        (encodes_records hlim _ localOffsetHours rawRecords)

end PetlibroLocal.Agent
