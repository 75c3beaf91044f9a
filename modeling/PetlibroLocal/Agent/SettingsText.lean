import PetlibroLocal.Agent.PlanText

/-!
# The Text of the Settings

The three texts that the agent makes of `attr/state.bin`: the settings under their names
(`append_settings_summary`), the numbers behind them (`append_settings_raw`), and the constant
list of their classes (`append_setting_classes`). The calls of the source are rows of a table:
the key, how the value is made of the bytes, and whether a comma follows.
-/

namespace PetlibroLocal.Agent

open JsonGrammar List

/-! ### Files and their fields -/

/-- A C string: a text without the character zero. -/
structure CText where
  text : String
  noZero : Char.ofNat 0 ∉ text.toList

/-- A file as `read_file_rel` returns it: its bytes, or what went wrong. -/
abbrev FileRead := Except CText Bytes

/-- `byte_at`, `u16le_at` and `u32le_at`: a field of `width` bytes, or zero if the file does not
reach so far. -/
def FileRead.field (file : FileRead) (off width : ℕ) : ℕ :=
  match file with
  | .ok data => if off + width ≤ data.length then leAt data off width else 0
  | .error _ => 0

/-- The bytes that `append_bounded_string` copies. -/
def FileRead.bounded (file : FileRead) (off width : ℕ) : Bytes :=
  match file with
  | .ok data => ((data.drop off).take (min width 100)).takeWhile (· != 0)
  | .error _ => []

/-! ### Names of values -/

/-- A function from numbers to names, as a table with a name for all other numbers. -/
structure NameTable where
  names : List (ℕ × String)
  other : String
  plain : (other :: names.map Prod.snd).all isPlain = true := by decide

/-- The name of a number. -/
def NameTable.name (table : NameTable) (v : ℕ) : String := (table.names.lookup v).getD table.other

/-- `map_bool01`. -/
def bool01 : NameTable where
  names := [(0, "disabled"), (1, "enabled")]
  other := "unknown"

/-- `map_always_scheduled`. -/
def alwaysScheduled : NameTable where
  names := [(1, "always_active"), (2, "scheduled")]
  other := "unknown"

/-- `map_bowl_mode`. -/
def bowlMode : NameTable where
  names := [(0, "single_bowl"), (1, "dual_bowl")]
  other := "unknown"

/-- `map_feeding_audio_type`. -/
def feedingAudioType : NameTable where
  names := [(0, "disabled"), (1, "builtin"), (2, "custom")]
  other := "unknown"

/-- Whether there is audio. -/
def audioEnabled : NameTable where
  names := [(0, "disabled")]
  other := "enabled"

/-- `map_resolution`. -/
def resolution : NameTable where
  names := [(1, "1080p"), (2, "720p")]
  other := "unknown"

/-- `map_night_vision`. -/
def nightVision : NameTable where
  names := [(1, "auto"), (2, "on"), (3, "off")]
  other := "unknown"

/-- `map_recording_type`. -/
def recordingType : NameTable where
  names := [(1, "continuous"), (2, "motion_detection")]
  other := "unknown"

/-- `map_motion_sensitivity`. -/
def motionSensitivity : NameTable where
  names := [(5, "high"), (7, "medium"), (10, "low")]
  other := "unknown"

/-- `map_motion_range`. -/
def motionRange : NameTable where
  names := [(1, "large"), (2, "medium"), (3, "small")]
  other := "unknown"

/-- `map_sound_sensitivity`. -/
def soundSensitivity : NameTable where
  names := [(70, "high"), (80, "medium"), (90, "low")]
  other := "unknown"

/-! ### The tables -/

/-- The offset and the width of a field. -/
structure Field where
  off : ℕ
  width : ℕ

/-- How the value of a setting is made: `append_setting_int` and `append_setting_u32`,
`append_setting_str`, `append_setting_bool`, and `append_bounded_string`. -/
inductive SettingValue
  | number (field : Field)
  | name (table : NameTable) (field : Field)
  | flag (test : ℕ → Bool) (field : Field)
  | text (off width : ℕ)

/-- One call: the key, the value, and whether a comma follows. -/
structure Setting where
  key : String
  value : SettingValue
  comma : Bool

/-- The calls of `append_settings_summary`. -/
def summarySettings : List Setting :=
  [⟨"motor_dir_raw", .number ⟨0x08, 1⟩, true⟩, ⟨"bowl_mode", .name bowlMode ⟨0x09, 1⟩, true⟩,
    ⟨"power_type_raw", .number ⟨0x0a, 1⟩, true⟩, ⟨"power_mode_raw", .number ⟨0x0b, 1⟩, true⟩,
    ⟨"electric_quantity", .number ⟨0x0c, 1⟩, true⟩,
    ⟨"surplus_grain", .flag (· != 0) ⟨0x0d, 1⟩, true⟩, ⟨"motor_state_raw", .number ⟨0x0e, 1⟩, true⟩,
    ⟨"feeding_active", .flag (fun v => v == 1 || v == 3) ⟨0x0e, 1⟩, true⟩,
    ⟨"motor_monitor_flag", .flag (fun v => v == 0 || v == 3) ⟨0x0e, 1⟩, true⟩,
    ⟨"grain_outlet_state", .flag (· != 0) ⟨0x0f, 1⟩, true⟩, ⟨"volume", .number ⟨0x10, 1⟩, true⟩,
    ⟨"auto_change_mode", .number ⟨0x11, 1⟩, true⟩, ⟨"auto_threshold", .number ⟨0x12, 1⟩, true⟩,
    ⟨"feeding_audio_type", .name feedingAudioType ⟨0x13, 1⟩, true⟩,
    ⟨"feeding_audio_enabled", .name audioEnabled ⟨0x13, 1⟩, true⟩,
    ⟨"light_effective_cached", .name bool01 ⟨0x14, 1⟩, true⟩,
    ⟨"light_switch", .name bool01 ⟨0x15, 1⟩, true⟩,
    ⟨"button_lights_mode", .name alwaysScheduled ⟨0x16, 1⟩, true⟩,
    ⟨"light_start_hour_utc", .number ⟨0x17, 1⟩, true⟩,
    ⟨"light_start_minute_utc", .number ⟨0x18, 1⟩, true⟩,
    ⟨"light_end_hour_utc", .number ⟨0x19, 1⟩, true⟩,
    ⟨"light_end_minute_utc", .number ⟨0x1a, 1⟩, true⟩,
    ⟨"lighting_times_raw", .number ⟨0x1b, 2⟩, true⟩,
    ⟨"sound_effective_cached", .name bool01 ⟨0x20, 1⟩, true⟩,
    ⟨"sound_switch", .name bool01 ⟨0x21, 1⟩, true⟩,
    ⟨"sound_mode", .name alwaysScheduled ⟨0x22, 1⟩, true⟩,
    ⟨"sound_start_hour_utc", .number ⟨0x23, 1⟩, true⟩,
    ⟨"sound_start_minute_utc", .number ⟨0x24, 1⟩, true⟩,
    ⟨"sound_end_hour_utc", .number ⟨0x25, 1⟩, true⟩,
    ⟨"sound_end_minute_utc", .number ⟨0x26, 1⟩, true⟩,
    ⟨"sound_times_raw", .number ⟨0x27, 2⟩, true⟩, ⟨"audio_url", .text 0x2c 100, true⟩,
    ⟨"camera_effective_cached", .name bool01 ⟨0x90, 1⟩, true⟩,
    ⟨"camera_switch", .name bool01 ⟨0x91, 1⟩, true⟩,
    ⟨"camera_mode", .name alwaysScheduled ⟨0x92, 4⟩, true⟩,
    ⟨"camera_start_hour_utc", .number ⟨0x96, 1⟩, true⟩,
    ⟨"camera_start_minute_utc", .number ⟨0x97, 1⟩, true⟩,
    ⟨"camera_end_hour_utc", .number ⟨0x98, 1⟩, true⟩,
    ⟨"camera_end_minute_utc", .number ⟨0x99, 1⟩, true⟩,
    ⟨"camera_resolution", .name resolution ⟨0x9a, 4⟩, true⟩,
    ⟨"night_vision_mode", .name nightVision ⟨0x9e, 4⟩, true⟩,
    ⟨"video_record_effective_cached", .name bool01 ⟨0xa2, 1⟩, true⟩,
    ⟨"video_record_switch", .name bool01 ⟨0xa3, 1⟩, true⟩,
    ⟨"local_camera_recording_type", .name recordingType ⟨0xa4, 4⟩, true⟩,
    ⟨"local_recording_mode", .name alwaysScheduled ⟨0xa8, 4⟩, true⟩,
    ⟨"video_record_start_hour_utc", .number ⟨0xac, 1⟩, true⟩,
    ⟨"video_record_start_minute_utc", .number ⟨0xad, 1⟩, true⟩,
    ⟨"video_record_end_hour_utc", .number ⟨0xae, 1⟩, true⟩,
    ⟨"video_record_end_minute_utc", .number ⟨0xaf, 1⟩, true⟩,
    ⟨"feeding_video_recording_enable", .name bool01 ⟨0xb0, 1⟩, true⟩,
    ⟨"record_scheduled_feedings", .name bool01 ⟨0xb1, 1⟩, true⟩,
    ⟨"record_manual_feedings", .name bool01 ⟨0xb2, 1⟩, true⟩,
    ⟨"before_feeding_plan_minutes", .number ⟨0xb3, 1⟩, true⟩,
    ⟨"automatic_recording_minutes", .number ⟨0xb4, 1⟩, true⟩,
    ⟨"after_manual_feeding_minutes", .number ⟨0xb5, 1⟩, true⟩,
    ⟨"video_watermark_enable", .name bool01 ⟨0xb6, 1⟩, true⟩,
    ⟨"motion_detection_effective_cached", .name bool01 ⟨0xb7, 1⟩, true⟩,
    ⟨"motion_detection_switch", .name bool01 ⟨0xb8, 1⟩, true⟩,
    ⟨"motion_detection_mode", .name alwaysScheduled ⟨0xb9, 4⟩, true⟩,
    ⟨"motion_start_hour_utc", .number ⟨0xbd, 1⟩, true⟩,
    ⟨"motion_start_minute_utc", .number ⟨0xbe, 1⟩, true⟩,
    ⟨"motion_end_hour_utc", .number ⟨0xbf, 1⟩, true⟩,
    ⟨"motion_end_minute_utc", .number ⟨0xc0, 1⟩, true⟩,
    ⟨"motion_detection_sensitivity", .name motionSensitivity ⟨0xc1, 4⟩, true⟩,
    ⟨"motion_detection_sensitivity_raw", .number ⟨0xc1, 4⟩, true⟩,
    ⟨"motion_detection_range", .name motionRange ⟨0xc5, 4⟩, true⟩,
    ⟨"motion_detection_range_raw", .number ⟨0xc5, 4⟩, true⟩,
    ⟨"sound_detection_effective_cached", .name bool01 ⟨0xc9, 1⟩, true⟩,
    ⟨"sound_detection_switch", .name bool01 ⟨0xca, 1⟩, true⟩,
    ⟨"sound_detection_mode", .name alwaysScheduled ⟨0xcb, 4⟩, true⟩,
    ⟨"sound_detection_start_hour_utc", .number ⟨0xcf, 1⟩, true⟩,
    ⟨"sound_detection_start_minute_utc", .number ⟨0xd0, 1⟩, true⟩,
    ⟨"sound_detection_end_hour_utc", .number ⟨0xd1, 1⟩, true⟩,
    ⟨"sound_detection_end_minute_utc", .number ⟨0xd2, 1⟩, true⟩,
    ⟨"sound_detection_sensitivity", .name soundSensitivity ⟨0xd3, 4⟩, true⟩,
    ⟨"sound_detection_sensitivity_raw", .number ⟨0xd3, 4⟩, true⟩,
    ⟨"sd_card_state_raw", .number ⟨0xd7, 4⟩, true⟩,
    ⟨"sd_card_filesystem_raw", .number ⟨0xdb, 4⟩, true⟩,
    ⟨"sd_card_total_capacity", .number ⟨0xdf, 4⟩, true⟩,
    ⟨"sd_card_used_capacity", .number ⟨0xe3, 4⟩, true⟩,
    ⟨"cloud_video_record_switch", .name bool01 ⟨0xe7, 1⟩, false⟩]

/-- The table of `append_settings_raw`: names, offsets and widths. -/
def rawFields : List (String × ℕ × ℕ) :=
  [("motor_dir_u8_0x08", 0x08, 1), ("bowl_mode_u8_0x09", 0x09, 1),
    ("power_type_u8_0x0a", 0x0a, 1), ("power_mode_u8_0x0b", 0x0b, 1),
    ("electric_quantity_u8_0x0c", 0x0c, 1), ("surplus_grain_u8_0x0d", 0x0d, 1),
    ("motor_state_u8_0x0e", 0x0e, 1), ("grain_outlet_state_u8_0x0f", 0x0f, 1),
    ("volume_u8_0x10", 0x10, 1), ("auto_change_mode_u8_0x11", 0x11, 1),
    ("auto_threshold_u8_0x12", 0x12, 1), ("feeding_audio_type_u8_0x13", 0x13, 1),
    ("light_effective_cached_u8_0x14", 0x14, 1), ("light_switch_u8_0x15", 0x15, 1),
    ("light_mode_u8_0x16", 0x16, 1), ("lighting_times_u16le_0x1b", 0x1b, 2),
    ("sound_effective_cached_u8_0x20", 0x20, 1), ("sound_switch_u8_0x21", 0x21, 1),
    ("sound_mode_u8_0x22", 0x22, 1), ("sound_times_u16le_0x27", 0x27, 2),
    ("camera_effective_cached_u8_0x90", 0x90, 1), ("camera_switch_u8_0x91", 0x91, 1),
    ("camera_mode_u32le_0x92", 0x92, 4), ("resolution_u32le_0x9a", 0x9a, 4),
    ("night_vision_u32le_0x9e", 0x9e, 4), ("video_record_effective_cached_u8_0xa2", 0xa2, 1),
    ("video_record_switch_u8_0xa3", 0xa3, 1), ("video_record_mode_u32le_0xa4", 0xa4, 4),
    ("video_record_schedule_mode_u32le_0xa8", 0xa8, 4), ("feeding_video_switch_u8_0xb0", 0xb0, 1),
    ("record_scheduled_feedings_u8_0xb1", 0xb1, 1), ("record_manual_feedings_u8_0xb2", 0xb2, 1),
    ("before_feeding_plan_minutes_u8_0xb3", 0xb3, 1),
    ("automatic_recording_minutes_u8_0xb4", 0xb4, 1),
    ("after_manual_feeding_minutes_u8_0xb5", 0xb5, 1), ("video_watermark_switch_u8_0xb6", 0xb6, 1),
    ("motion_detection_effective_cached_u8_0xb7", 0xb7, 1),
    ("motion_detection_switch_u8_0xb8", 0xb8, 1), ("motion_detection_mode_u32le_0xb9", 0xb9, 4),
    ("motion_sensitivity_u32le_0xc1", 0xc1, 4), ("motion_range_u32le_0xc5", 0xc5, 4),
    ("sound_detection_effective_cached_u8_0xc9", 0xc9, 1),
    ("sound_detection_switch_u8_0xca", 0xca, 1), ("sound_detection_mode_u32le_0xcb", 0xcb, 4),
    ("sound_detection_sensitivity_u32le_0xd3", 0xd3, 4), ("sd_card_state_u32le_0xd7", 0xd7, 4),
    ("sd_card_filesystem_u32le_0xdb", 0xdb, 4), ("sd_card_total_capacity_u32le_0xdf", 0xdf, 4),
    ("sd_card_used_capacity_u32le_0xe3", 0xe3, 4), ("cloud_video_record_switch_u8_0xe7", 0xe7, 1)]

/-- The class `persistent`. -/
def persistentSettings : List String :=
  ["bowl_mode", "volume", "auto_change_mode", "auto_threshold", "feeding_audio_type",
    "feeding_audio_enabled", "audio_url", "light_switch", "button_lights_mode",
    "light_start_hour_utc", "light_start_minute_utc", "light_end_hour_utc", "light_end_minute_utc",
    "lighting_times_raw", "sound_switch", "sound_mode", "sound_start_hour_utc",
    "sound_start_minute_utc", "sound_end_hour_utc", "sound_end_minute_utc", "sound_times_raw",
    "camera_switch", "camera_mode", "camera_start_hour_utc", "camera_start_minute_utc",
    "camera_end_hour_utc", "camera_end_minute_utc", "camera_resolution", "night_vision_mode",
    "video_record_switch", "local_camera_recording_type", "local_recording_mode",
    "feeding_video_recording_enable", "record_scheduled_feedings", "record_manual_feedings",
    "before_feeding_plan_minutes", "automatic_recording_minutes", "after_manual_feeding_minutes",
    "video_watermark_enable", "motion_detection_switch", "motion_detection_mode",
    "motion_detection_sensitivity", "motion_detection_range", "sound_detection_switch",
    "sound_detection_mode", "sound_detection_sensitivity", "cloud_video_record_switch"]

/-- The class `effective_cached`. -/
def effectiveSettings : List String :=
  ["light_effective_cached", "sound_effective_cached", "camera_effective_cached",
    "video_record_effective_cached", "motion_detection_effective_cached",
    "sound_detection_effective_cached"]

/-- The class `runtime`. -/
def runtimeSettings : List String :=
  ["motor_dir_raw", "power_type_raw", "power_mode_raw", "electric_quantity", "surplus_grain",
    "motor_state_raw", "feeding_active", "motor_monitor_flag", "grain_outlet_state",
    "sd_card_state_raw", "sd_card_filesystem_raw", "sd_card_total_capacity",
    "sd_card_used_capacity"]

/-! ### The writers -/

/-- What a call writes behind the colon. -/
def SettingValue.write (state : FileRead) : SettingValue → Bytes
  | number f => natText (state.field f.off f.width)
  | name table f => nameText (table.name (state.field f.off f.width))
  | flag test f => boolText (test (state.field f.off f.width))
  | text off width => jsonString (state.bounded off width)

/-- `append_settings_summary`. -/
def appendSettingsSummary (state : FileRead) : Bytes :=
  lit "\x7b" ++ (terminated (summarySettings.map fun s =>
    (nameText s.key ++ (lit ":" ++ s.value.write state), s.comma)) ++ lit "\x7d")

/-- `append_settings_raw`: a comma follows each field but the last. -/
def appendSettingsRaw (state : FileRead) : Bytes :=
  lit "\x7b" ++ (terminated (rawFields.zipIdx.map fun (f, i) =>
    (nameText f.1 ++ (lit ":" ++ natText (state.field f.2.1 f.2.2)),
      decide (i + 1 < rawFields.length))) ++ lit "\x7d")

/-- One class of `append_setting_classes`. -/
def classText (settings : List String) : Bytes :=
  lit "[" ++ ((lit ",").intercalate (settings.map quoted) ++ lit "]")

/-- `append_setting_classes`: a constant text. -/
def appendSettingClasses : Bytes :=
  lit "\x7b" ++ (key "persistent" ++ classText persistentSettings ++ lit "," ++
    key "effective_cached" ++ classText effectiveSettings ++ lit "," ++
    key "runtime" ++ classText runtimeSettings ++ lit "\x7d")

/-! ### The values behind the texts -/

/-- The value that a call writes; `audio` is the URL of the audio file. -/
def SettingValue.json (state : FileRead) (audio : List Char) : SettingValue → Json
  | number f => .int (state.field f.off f.width)
  | name table f => .str (table.name (state.field f.off f.width))
  | flag test f => .bool (test (state.field f.off f.width))
  | text _ _ => .str (String.ofList audio)

/-- The field of a string that a call copies. -/
def SettingValue.copied : SettingValue → Option (ℕ × ℕ)
  | text off width => some (off, width)
  | _ => none

/-- The settings under their names. -/
def settingsSummary (state : FileRead) (audio : List Char) : Json :=
  .obj (summarySettings.map fun s => (s.key, s.value.json state audio))

/-- The numbers behind the settings. -/
def settingsRaw (state : FileRead) : Json :=
  .obj (rawFields.map fun f => (f.1, .int (state.field f.2.1 f.2.2)))

/-- The classes of the settings. -/
def settingClasses : Json :=
  .obj [("persistent", .arr (persistentSettings.map .str)),
    ("effective_cached", .arr (effectiveSettings.map .str)),
    ("runtime", .arr (runtimeSettings.map .str))]

/-! ### One call -/

theorem NameTable.isPlain_name (table : NameTable) (v : ℕ) : isPlain (table.name v) = true := by
  refine all_eq_true.mp table.plain _ ?_
  unfold NameTable.name
  cases hlookup : table.names.lookup v with
  | none => exact mem_cons_self
  | some s =>
    obtain ⟨before, after, hnames, -⟩ := lookup_eq_some_iff.mp hlookup
    rw [hnames]
    simp

variable {state : FileRead} {audio : List Char}

theorem zero_notMem_bounded {off width : ℕ} (h : utf8 audio = state.bounded off width) :
    Char.ofNat 0 ∉ audio := by
  intro hmem
  have hbyte : (0 : UInt8) ∈ utf8 audio := mem_flatMap.mpr ⟨_, hmem, by decide⟩
  rw [h] at hbyte
  unfold FileRead.bounded at hbyte
  split at hbyte
  · simpa using mem_takeWhile hbyte
  · simp at hbyte

/-- **What a call writes is its value**, if a string that it copies is the encoding of a text. -/
theorem encodes_settingValue {v : SettingValue}
    (h : ∀ off width, v = .text off width → utf8 audio = state.bounded off width) :
    Encodes none (v.json state audio) (v.write state) := by
  cases v with
  | number f => exact encodes_nat (by simp)
  | name table f =>
    have hplain := isUnescaped_of_isPlain (table.isPlain_name (state.field f.off f.width))
    exact encodes_nameText (zero_notMem_of_unescaped hplain)
  | flag test f => exact encodes_bool _
  | text off width =>
    have hcopy := h off width rfl
    obtain ⟨text, htext, hstring⟩ := stringText_jsonString (zero_notMem_bounded hcopy)
    rw [SettingValue.write, ← hcopy, htext]
    exact encodes_str hstring

theorem encodesMember_nameText {k : String} {v : Json} {bs : Bytes}
    (hk : isPlain k = true) (hv : Encodes none v bs) :
    EncodesMember none (k, v) (nameText k ++ (lit ":" ++ bs)) := by
  obtain ⟨text, htext, hstring⟩ :=
    stringText_jsonString (zero_notMem_of_unescaped (isUnescaped_of_isPlain hk))
  rw [String.ofList_toList] at hstring
  rw [nameText, lit, htext]
  exact encodesMember hstring hv

/-! ### The tables -/

theorem summarySettings_nodup : (summarySettings.map Setting.key).Nodup := by decide +kernel

theorem summarySettings_copied {s : Setting} (h : s ∈ summarySettings) {off width : ℕ}
    (hs : s.value = .text off width) : off = 0x2c ∧ width = 100 := by
  have hall : summarySettings.all (·.value.copied.all (· == (0x2c, 100))) = true := by decide
  have hcopied := all_eq_true.mp hall s h
  rw [hs] at hcopied
  simpa [SettingValue.copied] using hcopied

theorem rawFields_nodup : (rawFields.map Prod.fst).Nodup := by decide +kernel

theorem classes_plain :
    (persistentSettings ++ effectiveSettings ++ runtimeSettings).all isPlain = true := by
  decide +kernel

theorem encodes_terminated {α : Type} {rows : List α} {member : α → String × Json}
    {piece : α → Bytes} {comma : α → Bool} (hne : rows ≠ [])
    (hcommas : rows.map comma = List.replicate (rows.length - 1) true ++ [false])
    (h : ∀ r ∈ rows, EncodesMember none (member r) (piece r)) :
    Encodes none (.obj (rows.map member))
      (lit "\x7b" ++ (terminated (rows.map fun r => (piece r, comma r)) ++ lit "\x7d")) := by
  have hflags : (rows.map fun r => (piece r, comma r)).map Prod.snd =
      List.replicate ((rows.map fun r => (piece r, comma r)).length - 1) true ++ [false] := by
    rw [map_map, length_map]
    exact hcommas
  rw [terminated_eq hflags, map_map]
  refine Encodes.obj ?_ (by simpa using hne)
  rw [forall₂_map_left_iff, forall₂_map_right_iff, forall₂_same]
  exact h

/-- **The settings are JSON**, if the URL of the audio file is text. -/
theorem encodes_settingsSummary (h : utf8 audio = state.bounded 0x2c 100) :
    Encodes none (settingsSummary state audio) (appendSettingsSummary state) := by
  refine encodes_terminated (cons_ne_nil _ _) rfl fun s hs => ?_
  refine encodesMember_nameText (all_eq_true.mp (by decide +kernel) _
    (mem_map_of_mem hs)) (encodes_settingValue fun off width htext => ?_)
  obtain ⟨rfl, rfl⟩ := summarySettings_copied hs htext
  exact h

/-- **The numbers behind the settings are JSON.** -/
theorem encodes_settingsRaw (state : FileRead) :
    Encodes none (settingsRaw state) (appendSettingsRaw state) := by
  have hfields : settingsRaw state =
      .obj (rawFields.zipIdx.map fun f => (f.1.1, .int (state.field f.1.2.1 f.1.2.2))) := rfl
  rw [hfields]
  refine encodes_terminated (cons_ne_nil _ _) rfl fun f hf => ?_
  have hmem : f.1 ∈ rawFields := fst_mem_of_mem_zipIdx hf
  exact encodesMember_nameText (all_eq_true.mp (by decide +kernel) _ (mem_map_of_mem hmem))
    (encodes_nat (by simp))

theorem encodes_classText {settings : List String} (h : settings.all isPlain = true) :
    Encodes none (.arr (settings.map .str)) (classText settings) := by
  refine Encodes.arr ?_
  rw [forall₂_map_left_iff, forall₂_map_right_iff, forall₂_same]
  exact fun s hs => encodes_plain (isUnescaped_of_isPlain (all_eq_true.mp h s hs))

/-- **The classes are JSON.** -/
theorem encodes_settingClasses : Encodes none settingClasses appendSettingClasses := by
  have hplain := classes_plain
  rw [all_append, all_append, Bool.and_eq_true, Bool.and_eq_true] at hplain
  obtain ⟨⟨hpersistent, heffective⟩, hruntime⟩ := hplain
  have hentries := @encodes_entries none
    [("persistent", .arr (persistentSettings.map .str), classText persistentSettings),
      ("effective_cached", .arr (effectiveSettings.map .str), classText effectiveSettings),
      ("runtime", .arr (runtimeSettings.map .str), classText runtimeSettings)]
    (cons_ne_nil _ _) rfl (by
      rw [forall_mem_cons, forall_mem_cons, forall_mem_singleton]
      exact ⟨encodes_classText hpersistent, encodes_classText heffective,
        encodes_classText hruntime⟩)
  rw [settingClasses, appendSettingClasses]
  simp only [map_cons, map_nil, intercalate_cons_cons, intercalate_singleton,
    append_assoc] at hentries ⊢
  exact hentries

end PetlibroLocal.Agent
