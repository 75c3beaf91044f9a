import PetlibroLocal.Agent.SettingsText

/-!
# The Response to `/v1/core`

`build_core_response` reads the files of the feeder and answers with one JSON object: the
revisions, the settings, the plans, the queue and, on request, the files themselves.

Every byte of the answer is under the agent's control but one string: the URL of the audio file is
copied from `attr/state.bin`, and `json_string` passes bytes from 0x80 on as they are. So the
answer is text if and only if these bytes are.

The main result is `core_response_json`.
-/

namespace PetlibroLocal.Agent

open JsonGrammar List

/-! ### The files -/

/-- The files as `open` and `read` give them, before the bound on their size. -/
abbrev Root := String → FileRead

/-- `"file too large"`. -/
def fileTooLarge : CText := ⟨"file too large", zero_notMem_of_unescaped (by decide)⟩

/-- `read_file_rel`: at most `maxBytes` bytes. -/
def readFileRel (root : Root) (rel : String) (maxBytes : ℕ) : FileRead :=
  match root rel with
  | .ok data => if data.length > maxBytes then .error fileTooLarge else .ok data
  | .error message => .error message

/-- `CoreFiles`. -/
structure CoreFiles where
  state : FileRead
  idx : FileRead
  plan : FileRead
  head : FileRead
  tail : FileRead
  rtc : FileRead

/-- `read_core_files`. -/
def readCoreFiles (root : Root) : CoreFiles where
  state := readFileRel root "attr/state.bin" 8192
  idx := readFileRel root "feed_plan/index.bin" 64
  plan := readFileRel root "feed_plan/plan.bin" 8192
  head := readFileRel root "feed_plan/rec_index_head.bin" 64
  tail := readFileRel root "feed_plan/rec_index_tail.bin" 64
  rtc := readFileRel root "rtc/rtc_time.bin" 64

/-! ### Revisions -/

/-- `fnv64_init`. -/
def fnv64Init : UInt64 := 14695981039346656037

/-- `fnv64_update`. -/
def fnv64Update (h : UInt64) (data : Bytes) : UInt64 :=
  data.foldl (fun h b => (h ^^^ b.toUInt64) * 1099511628211) h

/-- `fnv64_u64`: the bytes of the number as they lie in memory. -/
def fnv64U64 (h v : UInt64) : UInt64 :=
  fnv64Update h ((List.range 8).map fun i => (v.toNat / 256 ^ i).toUInt8)

/-- The ranges of `settings_rev_from_state`. -/
def settingsRanges : List (ℕ × ℕ) :=
  [(0x09, 1), (0x10, 4), (0x15, 8), (0x21, 8), (0x2c, 100), (0x91, 17), (0xa3, 20), (0xb8, 17),
    (0xca, 13), (0xe7, 1)]

/-- `settings_rev_from_state`. -/
def settingsRevFromState (state : FileRead) : UInt64 :=
  match state with
  | .ok data =>
    if data.length ≠ 236 then fnv64Init
    else settingsRanges.foldl (fun h (off, len) =>
      fnv64Update (fnv64Update h [off.toUInt8, len.toUInt8]) ((data.drop off).take len)) fnv64Init
  | .error _ => fnv64Init

/-- `plans_rev_from_files`. -/
def plansRevFromFiles (idx plan : FileRead) : UInt64 :=
  match idx, plan with
  | .ok (count :: _), .ok data =>
    let h := fnv64Update fnv64Init [count]
    if data.length ≠ count.toNat * 47 then fnv64Update h data
    -- neither the execution state nor the time of the last change counts
    else (planRecords data count.toNat).foldl (fun h record =>
      fnv64Update (fnv64Update h (record.take 0x11)) (record.drop 0x1d)) h
  | _, _ => fnv64Init

/-- `queue_rev_from_files`. -/
def queueRevFromFiles (head tail : FileRead) : UInt64 :=
  fnv64Update fnv64Init [(head.field 0 1).toUInt8, (tail.field 0 1).toUInt8]

/-- `core_rev`. -/
def coreRev (settingsRev plansRev queueRev : UInt64) : UInt64 :=
  fnv64U64 (fnv64U64 (fnv64U64 fnv64Init settingsRev) plansRev) queueRev

/-! ### The writers -/

/-- `fnv64:%016llx`. -/
def revChars (rev : UInt64) : List Char := "fnv64:".toList ++ hexPadded 16 rev.toNat

/-- A revision in quotes. -/
def revText (rev : UInt64) : Bytes := lit "\"" ++ (utf8 (revChars rev) ++ lit "\"")

/-- `append_rev`, without the comma. -/
def appendRev (k : String) (rev : UInt64) : Bytes := key k ++ revText rev

/-- `append_revisions`. -/
def appendRevisions (sr pr qr : UInt64) : Bytes :=
  lit "\x7b" ++ appendRev "core_rev" (coreRev sr pr qr) ++ lit "," ++
  appendRev "settings_rev" sr ++ lit "," ++ appendRev "plans_rev" pr ++ lit "," ++
  appendRev "queue_index_rev" qr ++ lit "\x7d"

/-- `append_queue`. -/
def appendQueue (head tail : FileRead) : Bytes :=
  let h := head.field 0 1
  let t := tail.field 0 1
  lit "\x7b" ++ key "head" ++ natText h ++ lit "," ++ key "tail" ++ natText t ++ lit "," ++
  key "pending" ++ boolText (h != t) ++ lit "\x7d"

/-- `append_raw_file`, without the comma. -/
def appendRawFile (name : String) (file : FileRead) : Bytes :=
  nameText name ++ lit ":" ++ lit "\x7b" ++
  match file with
  | .ok data =>
    key "ok" ++ boolText true ++ lit "," ++ key "size" ++ natText data.length ++ lit "," ++
    key "hex" ++ appendHexString data ++ lit "\x7d"
  | .error message =>
    key "ok" ++ boolText false ++ lit "," ++ key "size" ++ natText 0 ++ lit "," ++
    key "error" ++ nameText message.text ++ lit "\x7d"

variable (cf : CoreFiles)

/-- The files of the answer. -/
def rawFiles : List (String × FileRead) :=
  [("attr/state.bin", cf.state), ("feed_plan/index.bin", cf.idx), ("feed_plan/plan.bin", cf.plan),
    ("feed_plan/rec_index_head.bin", cf.head), ("feed_plan/rec_index_tail.bin", cf.tail),
    ("rtc/rtc_time.bin", cf.rtc)]

/-- The answer without a valid state. -/
def invalidState (size : ℕ) : Bytes :=
  lit "\x7b" ++ key "ok" ++ boolText false ++ lit "," ++
  key "error" ++ quoted "invalid attr/state.bin length" ++ lit "," ++
  key "expected_size" ++ natText 236 ++ lit "," ++ key "actual_size" ++ natText size ++ lit "\x7d"

/-- The answer with a valid state. -/
def coreBody (readMs : UInt64) (raw : Bool) : Bytes :=
  lit "\x7b" ++ key "ok" ++ boolText true ++ lit "," ++
  key "read_ms" ++ natText readMs.toNat ++ lit "," ++
  key "revisions" ++ appendRevisions (settingsRevFromState cf.state)
    (plansRevFromFiles cf.idx cf.plan) (queueRevFromFiles cf.head cf.tail) ++ lit "," ++
  key "settings" ++ appendSettingsSummary cf.state ++ lit "," ++
  key "setting_classes" ++ appendSettingClasses ++ lit "," ++
  key "settings_raw" ++ appendSettingsRaw cf.state ++ lit "," ++
  key "plans" ++ appendPlans cf.idx.toOption cf.plan.toOption (-4) raw ++ lit "," ++
  key "queue" ++ appendQueue cf.head cf.tail ++
  (if raw then
    lit "," ++ key "raw" ++ lit "\x7b" ++
      (lit ",").intercalate ((rawFiles cf).map fun f => appendRawFile f.1 f.2) ++ lit "\x7d"
  else []) ++
  lit "\x7d"

/-- `build_core_response`; `readMs` is the time that the reading took. -/
def buildCoreResponse (root : Root) (readMs : UInt64) (raw : Bool) : Bytes :=
  let cf := readCoreFiles root
  match cf.state with
  | .ok state => if state.length ≠ 236 then invalidState state.length else coreBody cf readMs raw
  | .error _ => invalidState 0

/-! ### The values behind the texts -/

/-- The bytes are the encoding of the value, and no object in it gives a key twice. -/
structure Written (v : Json) (bs : Bytes) : Prop where
  encodes : Encodes none v bs
  unique : v.UniqueKeys

theorem written_nat (n : ℕ) : Written (.int n) (natText n) := ⟨encodes_nat (by simp), .int n⟩

theorem written_bool (b : Bool) : Written (.bool b) (boolText b) := ⟨encodes_bool b, .bool b⟩

/-- Keys of an object: none needs an escape, and none is given twice. -/
def goodKeys (keys : List String) : Bool := decide keys.Nodup && keys.all isPlain

/-- **An object of members with literal keys.** -/
theorem written_entries {entries : List (String × Json × Bytes)} (hne : entries ≠ [])
    (hkeys : goodKeys (entries.map Prod.fst) = true)
    (hvalues : ∀ e ∈ entries, Written e.2.1 e.2.2) :
    Written (.obj (entries.map fun e => (e.1, e.2.1)))
      (lit "\x7b" ++ ((lit ",").intercalate (entries.map fun e => key e.1 ++ e.2.2) ++
        lit "\x7d")) := by
  rw [goodKeys, Bool.and_eq_true, decide_eq_true_eq] at hkeys
  refine ⟨encodes_entries hne ?_ fun e he => (hvalues e he).encodes, .obj ?_ ?_⟩
  · exact all_eq_true.mpr fun k hk =>
      isUnescaped_of_isPlain (all_eq_true.mp hkeys.2 k hk)
  · rw [map_map]
    exact hkeys.1
  · intro m hm
    obtain ⟨e, he, rfl⟩ := mem_map.mp hm
    exact (hvalues e he).unique

theorem isUnescaped_hexPadded {width n : ℕ} {c : Char} (h : c ∈ hexPadded width n) :
    isUnescaped c = true := by
  obtain ⟨i, -, rfl⟩ := mem_map.mp h
  have hall : ∀ d < 16, isUnescaped (Nat.digitChar d) = true := by decide
  exact hall _ (Nat.mod_lt _ (by omega))

theorem written_revText (rev : UInt64) :
    Written (.str (String.ofList (revChars rev))) (revText rev) := by
  refine ⟨?_, .str _⟩
  have hplain : ∀ c ∈ revChars rev, isUnescaped c = true := by
    intro c hc
    rcases mem_append.mp hc with hc | hc
    · exact all_eq_true.mp (by decide : "fnv64:".toList.all isUnescaped = true) c hc
    · exact isUnescaped_hexPadded hc
  have hstr := @encodes_str none _ _ (.mk (chars_self hplain))
  rwa [utf8_cons, utf8_append] at hstr

/-- A member that is a revision. -/
def revision (k : String) (rev : UInt64) : String × Json × Bytes :=
  (k, .str (String.ofList (revChars rev)), revText rev)

/-- The members of `append_revisions`. -/
def revisionEntries (sr pr qr : UInt64) : List (String × Json × Bytes) :=
  [revision "core_rev" (coreRev sr pr qr), revision "settings_rev" sr, revision "plans_rev" pr,
    revision "queue_index_rev" qr]

theorem written_appendRevisions (sr pr qr : UInt64) :
    Written (.obj ((revisionEntries sr pr qr).map fun e => (e.1, e.2.1)))
      (appendRevisions sr pr qr) := by
  have hentries := @written_entries (revisionEntries sr pr qr) (cons_ne_nil _ _)
    (by decide : goodKeys ["core_rev", "settings_rev", "plans_rev", "queue_index_rev"] = true) (by
      simp only [revisionEntries, revision, forall_mem_cons]
      exact ⟨written_revText _, written_revText _, written_revText _, written_revText _,
        forall_mem_nil _⟩)
  unfold appendRevisions appendRev
  simp only [revisionEntries, revision, map_cons, map_nil, intercalate_cons_cons,
    intercalate_singleton, append_assoc] at hentries ⊢
  exact hentries

/-- The members of `append_queue`. -/
def queueEntries (h t : ℕ) : List (String × Json × Bytes) :=
  [number "head" h, number "tail" t, flag "pending" (h != t)]

theorem written_appendQueue (head tail : FileRead) :
    Written (.obj ((queueEntries (head.field 0 1) (tail.field 0 1)).map fun e => (e.1, e.2.1)))
      (appendQueue head tail) := by
  unfold appendQueue
  generalize head.field 0 1 = h, tail.field 0 1 = t
  have hentries := @written_entries (queueEntries h t) (cons_ne_nil _ _)
    (by decide : goodKeys ["head", "tail", "pending"] = true) (by
      simp only [queueEntries, number, flag, forall_mem_cons]
      exact ⟨written_nat _, written_nat _, written_bool _, forall_mem_nil _⟩)
  simp only [queueEntries, number, flag, map_cons, map_nil, intercalate_cons_cons,
    intercalate_singleton, append_assoc] at hentries ⊢
  exact hentries

/-! ### The files themselves -/

/-- The members of `append_raw_file`. -/
def rawFileEntries (file : FileRead) : List (String × Json × Bytes) :=
  match file with
  | .ok data => [flag "ok" true, number "size" data.length,
      ("hex", PetlibroLocal.appendHexString data, appendHexString data)]
  | .error message => [flag "ok" false, number "size" 0,
      ("error", .str message.text, nameText message.text)]

theorem written_appendRawFile {name : String} (hname : isPlain name = true) (file : FileRead) :
    EncodesMember none (name, .obj ((rawFileEntries file).map fun e => (e.1, e.2.1)))
        (appendRawFile name file) ∧
      (Json.obj ((rawFileEntries file).map fun e => (e.1, e.2.1))).UniqueKeys := by
  have hvalue : Written (.obj ((rawFileEntries file).map fun e => (e.1, e.2.1)))
      (lit "\x7b" ++ ((lit ",").intercalate ((rawFileEntries file).map fun e => key e.1 ++ e.2.2) ++
        lit "\x7d")) := by
    cases file with
    | ok data =>
      refine written_entries (cons_ne_nil _ _)
        (by decide : goodKeys ["ok", "size", "hex"] = true) ?_
      simp only [rawFileEntries, number, flag, forall_mem_cons]
      exact ⟨written_bool _, written_nat _, ⟨encodes_appendHexString _, .str _⟩, forall_mem_nil _⟩
    | error message =>
      refine written_entries (cons_ne_nil _ _)
        (by decide : goodKeys ["ok", "size", "error"] = true) ?_
      simp only [rawFileEntries, number, flag, forall_mem_cons]
      exact ⟨written_bool _, written_nat _, ⟨encodes_nameText message.noZero, .str _⟩,
        forall_mem_nil _⟩
  have htext : appendRawFile name file = nameText name ++ (lit ":" ++ (lit "\x7b" ++
      ((lit ",").intercalate ((rawFileEntries file).map fun e => key e.1 ++ e.2.2) ++
        lit "\x7d"))) := by
    unfold appendRawFile
    cases file with
    | ok | error =>
      simp only [rawFileEntries, number, flag, map_cons, map_nil,
        intercalate_cons_cons, intercalate_singleton, append_assoc]
  rw [htext]
  exact ⟨encodesMember_nameText hname hvalue.encodes, hvalue.unique⟩

/-- The value of the files. -/
def rawValue : Json :=
  .obj ((rawFiles cf).map fun f => (f.1, .obj ((rawFileEntries f.2).map fun e => (e.1, e.2.1))))

/-- The text of the files. -/
def rawText : Bytes :=
  lit "\x7b" ++ ((lit ",").intercalate ((rawFiles cf).map fun f => appendRawFile f.1 f.2) ++
    lit "\x7d")

theorem written_rawText : Written (rawValue cf) (rawText cf) := by
  have hkeys : goodKeys ((rawFiles cf).map Prod.fst) = true := rfl
  rw [goodKeys, Bool.and_eq_true, decide_eq_true_eq] at hkeys
  have hplain : ∀ f ∈ rawFiles cf, isPlain f.1 = true := fun f hf =>
    all_eq_true.mp hkeys.2 f.1 (mem_map_of_mem hf)
  refine ⟨Encodes.obj ?_ (cons_ne_nil _ _), .obj ?_ ?_⟩
  · rw [forall₂_map_left_iff, forall₂_map_right_iff, forall₂_same]
    exact fun f hf => (written_appendRawFile (hplain f hf) f.2).1
  · rw [map_map]
    exact hkeys.1
  · intro m hm
    obtain ⟨f, hf, rfl⟩ := mem_map.mp hm
    exact (written_appendRawFile (hplain f hf) f.2).2

/-! ### Unique keys of the parts -/

theorem uniqueKeys_settingsSummary (state : FileRead) (audio : List Char) :
    (settingsSummary state audio).UniqueKeys := by
  refine .obj ?_ ?_
  · rw [map_map]
    exact summarySettings_nodup
  · intro m hm
    obtain ⟨s, -, rfl⟩ := mem_map.mp hm
    cases hvalue : s.value with
    | number f => exact .int _
    | name | text => exact .str _
    | flag test f => exact .bool _

theorem uniqueKeys_settingsRaw (state : FileRead) : (settingsRaw state).UniqueKeys := by
  refine .obj ?_ ?_
  · rw [map_map]
    exact rawFields_nodup
  · intro m hm
    obtain ⟨f, -, rfl⟩ := mem_map.mp hm
    exact .int _

theorem uniqueKeys_arr_map {α : Type} {f : α → Json} (h : ∀ a, (f a).UniqueKeys) (l : List α) :
    (Json.arr (l.map f)).UniqueKeys := by
  refine .arr fun v hv => ?_
  obtain ⟨a, -, rfl⟩ := mem_map.mp hv
  exact h a

theorem uniqueKeys_settingClasses : settingClasses.UniqueKeys := by
  have hnodup : ["persistent", "effective_cached", "runtime"].Nodup := by decide
  refine .obj hnodup ?_
  simp only [forall_mem_cons]
  exact ⟨uniqueKeys_arr_map .str _, uniqueKeys_arr_map .str _, uniqueKeys_arr_map .str _,
    forall_mem_nil _⟩

theorem uniqueKeys_appendTimeHhmm (hour minute : ℤ) :
    (PetlibroLocal.appendTimeHhmm hour minute).UniqueKeys := by
  unfold PetlibroLocal.appendTimeHhmm
  split
  · exact .null
  · exact .str _

theorem uniqueKeys_appendPlan (record : Bytes) (localOffsetHours : ℤ) (rawRecords : Bool) :
    (PetlibroLocal.appendPlan record localOffsetHours rawRecords).UniqueKeys := by
  refine .obj ?_ ?_
  · cases rawRecords <;> exact of_decide_eq_true rfl
  · simp only [forall_mem_append, forall_mem_cons]
    refine ⟨⟨.int _, .int _, .int _, .bool _, .int _, uniqueKeys_appendTimeHhmm _ _,
      uniqueKeys_appendTimeHhmm _ _, uniqueKeys_arr_map (fun _ => .int _) _,
      uniqueKeys_arr_map .str _, .int _, .bool _, .int _, .int _, .int _, .int _, .int _, .str _,
      forall_mem_nil _⟩, ?_⟩
    cases rawRecords with
    | false => exact forall_mem_nil _
    | true =>
      rw [if_pos rfl, forall_mem_singleton]
      refine .obj (nodup_singleton _) ?_
      rw [forall_mem_singleton]
      exact .str _

theorem uniqueKeys_appendPlans (idx plan : Option Bytes) (localOffsetHours : ℤ)
    (rawRecords : Bool) :
    (PetlibroLocal.appendPlans idx plan localOffsetHours rawRecords).UniqueKeys := by
  have hmissing : (Json.obj [("ok", .bool false),
      ("error", .str "missing plan files")]).UniqueKeys := by
    refine .obj (by decide) ?_
    simp only [forall_mem_cons]
    exact ⟨.bool _, .str _, forall_mem_nil _⟩
  rcases idx with _ | (_ | ⟨first, rest⟩)
  · exact hmissing
  · exact hmissing
  · cases plan with
    | none => exact hmissing
    | some plan =>
      simp only [PetlibroLocal.appendPlans]
      generalize hvalid : decide (plan.length = first.toNat * 47) = valid
      refine .obj ?_ ?_
      · cases valid <;> exact of_decide_eq_true rfl
      · simp only [forall_mem_append, forall_mem_cons]
        refine ⟨⟨⟨.bool _, .int _, .int _, .int _, .bool _, forall_mem_nil _⟩, ?_⟩, ?_,
          forall_mem_nil _⟩
        · cases valid with
          | true => exact forall_mem_nil _
          | false =>
            rw [if_neg Bool.false_ne_true, forall_mem_singleton]
            exact .str _
        · cases valid with
          | true => exact uniqueKeys_arr_map (fun _ => uniqueKeys_appendPlan _ _ _) _
          | false => exact .arr (forall_mem_nil _)

/-! ### The answer -/

/-- The members of the answer. -/
def coreEntries (readMs : UInt64) (raw : Bool) (audio : List Char) :
    List (String × Json × Bytes) :=
  let sr := settingsRevFromState cf.state
  let pr := plansRevFromFiles cf.idx cf.plan
  let qr := queueRevFromFiles cf.head cf.tail
  [flag "ok" true, number "read_ms" readMs.toNat,
    ("revisions", .obj ((revisionEntries sr pr qr).map fun e => (e.1, e.2.1)),
      appendRevisions sr pr qr),
    ("settings", settingsSummary cf.state audio, appendSettingsSummary cf.state),
    ("setting_classes", settingClasses, appendSettingClasses),
    ("settings_raw", settingsRaw cf.state, appendSettingsRaw cf.state),
    ("plans", PetlibroLocal.appendPlans cf.idx.toOption cf.plan.toOption (-4) raw,
      appendPlans cf.idx.toOption cf.plan.toOption (-4) raw),
    ("queue", .obj ((queueEntries (cf.head.field 0 1) (cf.tail.field 0 1)).map
      fun e => (e.1, e.2.1)), appendQueue cf.head cf.tail)] ++
    if raw then [("raw", rawValue cf, rawText cf)] else []

theorem coreBody_eq (readMs : UInt64) (raw : Bool) (audio : List Char) :
    coreBody cf readMs raw =
      lit "\x7b" ++ ((lit ",").intercalate
        ((coreEntries cf readMs raw audio).map fun e => key e.1 ++ e.2.2) ++ lit "\x7d") := by
  unfold coreBody coreEntries rawText
  generalize lit "," = comma, lit "\x7b" = brace, lit "\x7d" = brace'
  cases raw <;>
    simp only [number, flag, if_true, Bool.false_eq_true, if_false, append_nil,
      map_cons, map_nil, cons_append, nil_append,
      intercalate_cons_cons, intercalate_singleton, append_assoc]

/-- **The answer is JSON without duplicate keys**, if the URL of the audio file is text. -/
theorem written_coreBody {cf : CoreFiles} {audio : List Char}
    (h : utf8 audio = cf.state.bounded 0x2c 100) (readMs : UInt64) (raw : Bool) :
    Written (.obj ((coreEntries cf readMs raw audio).map fun e => (e.1, e.2.1)))
      (coreBody cf readMs raw) := by
  rw [coreBody_eq cf readMs raw audio]
  refine written_entries (cons_ne_nil _ _) ?_ ?_
  · cases raw <;> rfl
  · have hplans : Written (PetlibroLocal.appendPlans cf.idx.toOption cf.plan.toOption (-4) raw)
        (appendPlans cf.idx.toOption cf.plan.toOption (-4) raw) :=
      ⟨encodes_appendPlans (by simp) _ _ (by simp) _ _, uniqueKeys_appendPlans _ _ _ _⟩
    simp only [coreEntries, forall_mem_append, forall_mem_cons]
    refine ⟨⟨written_bool _, written_nat _, written_appendRevisions _ _ _,
      ⟨encodes_settingsSummary h, uniqueKeys_settingsSummary _ _⟩,
      ⟨encodes_settingClasses, uniqueKeys_settingClasses⟩,
      ⟨encodes_settingsRaw _, uniqueKeys_settingsRaw _⟩, hplans, written_appendQueue _ _,
      forall_mem_nil _⟩, ?_⟩
    cases raw with
    | false => exact forall_mem_nil _
    | true =>
      rw [if_pos rfl, forall_mem_singleton]
      exact written_rawText cf

theorem buildCoreResponse_eq {root : Root} {state : Bytes}
    (hstate : root "attr/state.bin" = .ok state) (hsize : state.length = 236) (readMs : UInt64)
    (raw : Bool) :
    buildCoreResponse root readMs raw = coreBody (readCoreFiles root) readMs raw ∧
      (readCoreFiles root).state = .ok state := by
  have hread : (readCoreFiles root).state = .ok state := by
    simp [readCoreFiles, readFileRel, hstate, hsize]
  refine ⟨?_, hread⟩
  unfold buildCoreResponse
  simp only [hread]
  rw [if_neg (not_not_intro hsize)]

/-! ### Bytes that are no text -/

theorem escapeByte_cases (b : UInt8) :
    (128 ≤ b.toNat ∧ escapeByte b = [b]) ∨
      (b.toNat < 128 ∧ ∃ c cs, escapeByte b = c :: cs ∧ ∀ x ∈ c :: cs, x.toNat < 128) := by
  by_cases hlarge : 128 ≤ b.toNat
  · refine .inl ⟨hlarge, ?_⟩
    have hfind : (escapes.find? fun e => e.1.toNat == b.toNat) = none := by
      rw [List.find?_eq_none]
      intro e he heq
      have hlt := (escaped_of_mem_escapes he).2
      rw [beq_iff_eq] at heq
      omega
    rw [escapeByte, hfind]
    exact if_neg (by omega)
  · refine .inr ⟨by omega, ?_⟩
    have hall : ∀ n < 128, (escapeByte n.toUInt8).isEmpty = false ∧
        (escapeByte n.toUInt8).all (·.toNat < 128) = true := by
      decide
    obtain ⟨hne, hascii⟩ := hall b.toNat (by omega)
    have hself : b.toNat.toUInt8 = b := UInt8.ofNat_toNat
    rw [hself] at hne hascii
    cases hbytes : escapeByte b with
    | nil => rw [hbytes] at hne; cases hne
    | cons c cs =>
      rw [hbytes] at hascii
      exact ⟨c, cs, rfl, by simpa using hascii⟩

/-- Escaping makes no text of bytes that are none: what has been written so far is text, and so is
what is still to be written. -/
theorem isUtf8_of_escaped {done bs : Bytes} (h : IsUtf8 (done ++ bs.flatMap escapeByte)) :
    IsUtf8 (done ++ bs) := by
  induction bs generalizing done with
  | nil => exact h
  | cons b bs ih =>
    rw [flatMap_cons] at h
    rcases escapeByte_cases b with ⟨-, hself⟩ | ⟨hascii, c, cs, hbytes, hall⟩
    · rw [hself, ← append_assoc] at h
      simpa using ih h
    · obtain ⟨hc, hcs⟩ := forall_mem_cons.mp hall
      rw [hbytes, cons_append, isUtf8_append_cons hc] at h
      rw [isUtf8_append_cons hascii]
      exact ⟨h.1, @ih [] (h.2.of_ascii_append hcs)⟩

theorem isUtf8_of_jsonString {v body : Bytes} (hv : ∀ b ∈ v, (b != 0) = true)
    (hpart : jsonString v <:+: body) (h : IsUtf8 body) : IsUtf8 v := by
  obtain ⟨before, after, rfl⟩ := hpart
  have htake : (v ++ []).takeWhile (· != 0) = v := takeWhile_append_exact hv (by simp)
  rw [append_nil] at htake
  have hquote : lit "\"" = [0x22] := rfl
  rw [jsonString, htake, hquote, append_assoc, singleton_append, cons_append,
    isUtf8_append_cons (by decide), append_assoc, singleton_append,
    isUtf8_append_cons (by decide)] at h
  exact @isUtf8_of_escaped [] v h.2.1

theorem part_of_mem_intercalate {sep x : Bytes} {l : List Bytes} (h : x ∈ l) :
    x <:+: sep.intercalate l := by
  induction l with
  | nil => cases h
  | cons y l ih =>
    cases l with
    | nil =>
      obtain rfl := mem_singleton.mp h
      rw [intercalate_singleton]
    | cons z l =>
      rw [intercalate_cons_cons]
      rcases mem_cons.mp h with rfl | h
      · exact ⟨[], sep ++ sep.intercalate (z :: l), by simp⟩
      · exact (ih h).trans ⟨y ++ sep, [], by simp⟩

theorem part_of_mem_terminated {piece : Bytes} {comma : Bool} {pieces : List (Bytes × Bool)}
    (h : (piece, comma) ∈ pieces) : piece <:+: terminated pieces := by
  obtain ⟨l, l', rfl⟩ := append_of_mem h
  refine ⟨terminated l, (if comma then lit "," else []) ++ terminated l', ?_⟩
  simp [terminated]

theorem audio_part_settings (state : FileRead) :
    jsonString (state.bounded 0x2c 100) <:+: appendSettingsSummary state := by
  have hsetting : (⟨"audio_url", .text 0x2c 100, true⟩ : Setting) ∈ summarySettings := by
    simp [summarySettings]
  have hpiece := mem_map_of_mem
    (f := fun s : Setting => (nameText s.key ++ (lit ":" ++ s.value.write state), s.comma)) hsetting
  obtain ⟨before, after, hpieces⟩ := part_of_mem_terminated hpiece
  rw [appendSettingsSummary, ← hpieces]
  refine ⟨lit "\x7b" ++ (before ++ (nameText "audio_url" ++ lit ":")), after ++ lit "\x7d", ?_⟩
  simp only [SettingValue.write, append_assoc]

theorem settings_part_coreBody (readMs : UInt64) (raw : Bool) :
    appendSettingsSummary cf.state <:+: coreBody cf readMs raw := by
  have hentry : ("settings", settingsSummary cf.state [], appendSettingsSummary cf.state) ∈
      coreEntries cf readMs raw [] := by
    simp [coreEntries]
  have hmember := mem_map_of_mem
    (f := fun e : String × Json × Bytes => key e.1 ++ e.2.2) hentry
  obtain ⟨before, after, hentries⟩ := @part_of_mem_intercalate (lit ",") _ _ hmember
  rw [coreBody_eq cf readMs raw [], ← hentries]
  refine ⟨lit "\x7b" ++ (before ++ key "settings"), after ++ lit "\x7d", ?_⟩
  simp only [append_assoc]

/-! ### The main result -/

/-- The URL of the audio file: the bytes of `attr/state.bin` at 0x2c up to the first NUL, at most
100. -/
def audioBytes (state : Bytes) : Bytes := ((state.drop 0x2c).take 100).takeWhile (· != 0)

theorem bounded_audio (state : Bytes) :
    FileRead.bounded (.ok state) 0x2c 100 = audioBytes state := rfl

/-- **The answer is UTF-8 if and only if the URL of the audio file is.** -/
theorem isUtf8_buildCoreResponse_iff {root : Root} {state : Bytes}
    (hstate : root "attr/state.bin" = .ok state) (hsize : state.length = 236) (readMs : UInt64)
    (raw : Bool) :
    IsUtf8 (buildCoreResponse root readMs raw) ↔ IsUtf8 (audioBytes state) := by
  obtain ⟨hbody, hread⟩ := buildCoreResponse_eq hstate hsize readMs raw
  rw [hbody]
  constructor
  · intro h
    have hpart := (audio_part_settings (readCoreFiles root).state).trans
      (settings_part_coreBody (readCoreFiles root) readMs raw)
    rw [hread, bounded_audio] at hpart
    exact isUtf8_of_jsonString (fun b => mem_takeWhile) hpart h
  · rintro ⟨audio, haudio⟩
    have hwritten := @written_coreBody (readCoreFiles root) audio
      (by rw [hread, bounded_audio, haudio]) readMs raw
    obtain ⟨cs, hcs, -⟩ := hwritten.encodes
    exact ⟨cs, hcs⟩

/-- A member of an object. -/
def member (v : Json) (k : String) : Option Json :=
  match v with
  | .obj fields => fields.lookup k
  | _ => none

theorem member_audio (state : FileRead) (audio : List Char) :
    member (settingsSummary state audio) "audio_url" = some (.str (String.ofList audio)) := by
  simp [member, settingsSummary, summarySettings, lookup_cons, SettingValue.json]

theorem member_settings (readMs : UInt64) (raw : Bool) (audio : List Char) :
    member (.obj ((coreEntries cf readMs raw audio).map fun e => (e.1, e.2.1))) "settings" =
      some (settingsSummary cf.state audio) := by
  simp [member, coreEntries, lookup_cons, flag, number]

/-- **The answer to `/v1/core` is UTF-8 exactly if the `audio_url` of `attr/state.bin` is.** Then it
is JSON, no object in it gives a key twice, and its `audio_url` is the one of `attr/state.bin`. -/
theorem core_response_json (root : Root) (state : Bytes)
    (hstate : root "attr/state.bin" = .ok state) (hsize : state.length = 236) (readMs : UInt64)
    (raw : Bool) :
    (IsUtf8 (buildCoreResponse root readMs raw) ↔ IsUtf8 (audioBytes state)) ∧
      (IsUtf8 (audioBytes state) →
        ∃ cs v url, utf8 cs = buildCoreResponse root readMs raw ∧ JsonText none v cs ∧
          v.UniqueKeys ∧ (member v "settings").bind (member · "audio_url") = some (.str url) ∧
          utf8 url.toList = audioBytes state) := by
  refine ⟨isUtf8_buildCoreResponse_iff hstate hsize readMs raw, ?_⟩
  obtain ⟨hbody, hread⟩ := buildCoreResponse_eq hstate hsize readMs raw
  rintro ⟨audio, haudio⟩
  have hwritten := @written_coreBody (readCoreFiles root) audio
    (by rw [hread, bounded_audio, haudio]) readMs raw
  obtain ⟨cs, hcs, htext⟩ := hwritten.encodes.jsonText
  refine ⟨cs, _, String.ofList audio, by rw [hcs, hbody], htext, hwritten.unique, ?_, ?_⟩
  · rw [member_settings, Option.bind_some, member_audio]
  · rw [String.toList_ofList, haudio]

/-- A feeder with a state of 236 bytes, of which the first of the URL is `byte`, and without other
files. -/
def feederWith (byte : UInt8) : Root
  | "attr/state.bin" => .ok (List.replicate 0x2c 0 ++ byte :: List.replicate 191 0)
  | _ => .error fileTooLarge

/-- The answer of a feeder whose URL is the letter `a`. -/
theorem core_response_json_ascii :
    ∃ cs v url, utf8 cs = buildCoreResponse (feederWith 0x61) 0 true ∧ JsonText none v cs ∧
      v.UniqueKeys ∧ (member v "settings").bind (member · "audio_url") = some (.str url) ∧
      utf8 url.toList = [0x61] :=
  (core_response_json (feederWith 0x61) _ rfl rfl 0 true).2 ⟨['a'], rfl⟩

/-- **One byte 0xff in `attr/state.bin`** and the answer is no text. -/
theorem core_response_notUtf8 :
    (∃ state, feederWith 0xff "attr/state.bin" = .ok state ∧ state.length = 236) ∧
      ¬ IsUtf8 (buildCoreResponse (feederWith 0xff) 0 false) := by
  refine ⟨⟨_, rfl, rfl⟩, fun h => ?_⟩
  obtain ⟨cs, hcs⟩ := (isUtf8_buildCoreResponse_iff rfl rfl 0 false).mp h
  have hdecode : decodeUtf8 [0xff] = some cs := decodeUtf8_eq_some.mpr hcs
  have hnone : decodeUtf8 [0xff] = none := rfl
  rw [hnone] at hdecode
  cases hdecode

end PetlibroLocal.Agent
