import PetlibroLocal.Render.StreamNames

/-!
# The Names that are Rendered

Two questions about the names in the configuration of go2rtc and AppDaemon, for registries that
feeders and options have filled in any order. Is the status of a camera written where the discovery
app reads it? It is, if the stored name does not end with an underscore. And does each feeder have
a stream and an app of its own? It does, if the serials are short and consist of letters and
digits, no two of them differ in case only, and the names that the user prefers do not look like
the names that are made of serials.

The main results are `status_files_agree`, `status_file_missed`, `feeders_have_own_names` and
`feeders_share_names`.
-/

namespace PetlibroLocal.Render

open Discovery List

variable {py : ConfigPython} {options : Options} {devices : List (String × Entry)}
  {given : List Given}

/-! ### Rendered entries -/

theorem fieldText_of_get {device : Entry} {k s : String} (h : Json.get device k = .str s)
    (default : String) : fieldText py device k default = s := by
  rw [Json.get] at h
  cases hlookup : device.lookup k with
  | none =>
    rw [hlookup] at h
    cases h
  | some v =>
    rw [hlookup, Option.getD_some] at h
    rw [fieldText, hlookup, Option.getD_some, h, py.str_str]

theorem productText_of_get {device : Entry} {s : String} (h : Json.get device "product" = .str s) :
    productText py options device = s := by
  rw [Json.get] at h
  cases hlookup : device.lookup "product" with
  | none =>
    rw [hlookup] at h
    cases h
  | some v =>
    rw [hlookup, Option.getD_some] at h
    rw [productText, hlookup, Option.getD_some, h, py.str_str]

theorem renderedName_of_get {device : Entry} {product serial name : String}
    (hproduct : Json.get device "product" = .str product)
    (hserial : Json.get device "serial" = .str serial)
    (hname : Json.get device "stream_name" = .str name) :
    renderedName py options device = streamNameFor product serial name := by
  rw [renderedName, productText_of_get hproduct, serialText, fieldText_of_get hserial,
    fieldText_of_get hname]

theorem mem_of_mem_registryDevices {m : String × Entry} (h : m ∈ registryDevices py devices) :
    m ∈ devices ∧ Json.get m.2 "product" = .str "PLAF203" := by
  obtain ⟨hmem, hfilter⟩ := mem_filter.mp h
  rw [Bool.and_eq_true] at hfilter
  exact ⟨(mem_insertionSort _).mp hmem, Json.isStr_iff.mp hfilter.1⟩

theorem of_mem_renderGo2rtc {m : String × Stream} (h : m ∈ renderGo2rtc py options devices) :
    ∃ device, (m.1, device) ∈ prepareRegistry py options devices ∧
      Json.get device "product" = .str "PLAF203" ∧ go2rtcStream py options device = some m.2 := by
  obtain ⟨⟨key, device⟩, hmem, hmap⟩ := mem_filterMap.mp h
  obtain ⟨stream, hstream, rfl⟩ := Option.map_eq_some_iff.mp hmap
  obtain ⟨hmem, hproduct⟩ := mem_of_mem_registryDevices hmem
  exact ⟨device, hmem, hproduct, hstream⟩

theorem of_mem_renderAppdaemon {m : String × FeederApp}
    (h : m ∈ renderAppdaemon py options devices) :
    ∃ device, (m.1, device) ∈ prepareRegistry py options devices ∧
      Json.get device "product" = .str "PLAF203" ∧ feederApp py options device = some m.2 := by
  obtain ⟨⟨key, device⟩, hmem, hmap⟩ := mem_filterMap.mp h
  obtain ⟨app, happ, rfl⟩ := Option.map_eq_some_iff.mp hmap
  obtain ⟨hmem, hproduct⟩ := mem_of_mem_registryDevices hmem
  exact ⟨device, hmem, hproduct, happ⟩

theorem mem_of_mem_queryIf {c : Bool} {entries : List (String × String)} {e : String × String}
    (h : e ∈ queryIf c entries) : e ∈ entries := by
  cases c with
  | false => cases h
  | true => exact h

theorem of_go2rtcStream {device : Entry} {stream : Stream}
    (h : go2rtcStream py options device = some stream) :
    stream.name = renderedName py options device ∧
      ∀ path, ("status_file", path) ∈ stream.query → path = statusFileFor stream.name := by
  rw [go2rtcStream] at h
  split at h
  · cases h
    refine ⟨rfl, fun path hpath => ?_⟩
    simp only [mem_append] at hpath
    rcases hpath with (((hbase | hstatus) | hverbose) | htrace) | hdump
    · simp at hbase
    · simpa using mem_of_mem_queryIf hstatus
    · simpa using mem_of_mem_queryIf hverbose
    · simpa using mem_of_mem_queryIf htrace
    · simpa using mem_of_mem_queryIf hdump
  · cases h

theorem of_feederApp {device : Entry} {app : FeederApp}
    (h : feederApp py options device = some app) :
    app.appName = appNameFor (serialText py device) ∧
      app.cameraStatusFile = statusFileFor (renderedName py options device) := by
  rw [feederApp] at h
  split at h
  · cases h
  · cases h
    exact ⟨rfl, rfl⟩

/-! ### Where the status is written and read -/

variable {ops : List Op} {options' : Options}

theorem named_rendered (hrun : run? py ops [] = some devices)
    (hvalid : validate py options = .ok options') :
    ∀ m ∈ prepareRegistry py options' devices,
      Named (ops.flatMap (Op.given py) ++ (Op.prepare options).given py) m := by
  refine named_step (named_run (forall_mem_nil _) (subset_append_left _ _) hrun)
    (subset_append_right _ _) ?_
  simp only [step?, hvalid]

theorem mem_keys_putManuals {manuals : List Entry} {k : String} :
    k ∈ (manuals.foldl (putManual py options) devices).map Prod.fst ↔
      k ∈ devices.map Prod.fst ∨ ∃ manual ∈ manuals, manualKey py options manual = k := by
  induction manuals generalizing devices with
  | nil => simp
  | cons manual manuals ih =>
    rw [foldl_cons, ih, putManual, Dict.mem_keys_setItem]
    simp only [mem_cons, exists_eq_or_imp]
    constructor
    · rintro ((rfl | hk) | hk)
      · exact .inr (.inl rfl)
      · exact .inl hk
      · exact .inr (.inr hk)
    · rintro (hk | rfl | hk)
      · exact .inl (.inr hk)
      · exact .inl (.inl rfl)
      · exact .inr hk

theorem listed_prepared (hvalid : validate py options = .ok options') {manual : Entry}
    (hmanual : manual ∈ listedDevices options') :
    isWord (serialText py manual).toList = true ∧
      registryKey "PLAF203" (serialText py manual) ∈
        (prepareRegistry py options' devices).map Prod.fst := by
  obtain ⟨hfilter, items, hitems, hlisted⟩ := of_validate hvalid
  have hmem : Json.obj manual ∈ items := by
    simp only [listedDevices, hitems] at hmanual
    obtain ⟨item, hitem, hobj⟩ := mem_filterMap.mp hmanual
    split at hobj
    · cases hobj
      exact hitem
    · cases hobj
  obtain ⟨fields, hfields, hgood⟩ := hlisted _ hmem
  obtain rfl := Json.obj.inj hfields
  have hproduct : productText py options' manual = "PLAF203" := by
    rw [productText, hfilter]
    exact hgood.product
  refine ⟨hgood.serial, mem_keys_putManuals.mpr (.inr ⟨manual, ?_, ?_⟩)⟩
  · exact mem_append_left _ hmanual
  · rw [manualKey, hproduct]

/-- **The status is read where it is written**, if the stored name does not end with an
underscore. -/
theorem status_files_agree (hrun : run? py ops [] = some devices)
    (hvalid : validate py options = .ok options') :
    (∀ manual ∈ listedDevices options', isWord (serialText py manual).toList = true ∧
      registryKey "PLAF203" (serialText py manual) ∈
        (prepareRegistry py options' devices).map Prod.fst) ∧
    (∀ m ∈ prepareRegistry py options' devices, ∃ product serial name,
      Json.get m.2 "product" = .str product ∧ Json.get m.2 "serial" = .str serial ∧
        Json.get m.2 "stream_name" = .str name ∧
        healthFile py m.2 = some (Discovery.statusFileFor name) ∧
        (streamNameFor product serial name = name ↔ name.toList.getLast? ≠ some '_')) ∧
    (∀ m ∈ renderGo2rtc py options' devices, ∃ device name,
      (m.1, device) ∈ prepareRegistry py options' devices ∧
        Json.get device "stream_name" = .str name ∧
        (name.toList.getLast? ≠ some '_' → ∀ path, ("status_file", path) ∈ m.2.query →
          healthFile py device = some path)) ∧
    (∀ m ∈ renderAppdaemon py options' devices, ∃ device name,
      (m.1, device) ∈ prepareRegistry py options' devices ∧
        Json.get device "stream_name" = .str name ∧
        (name.toList.getLast? ≠ some '_' →
          healthFile py device = some m.2.cameraStatusFile)) := by
  have hentry : ∀ m ∈ prepareRegistry py options' devices, ∃ product serial name,
      Json.get m.2 "product" = .str product ∧ Json.get m.2 "serial" = .str serial ∧
        Json.get m.2 "stream_name" = .str name ∧
        healthFile py m.2 = some (Discovery.statusFileFor name) ∧
        (streamNameFor product serial name = name ↔ name.toList.getLast? ≠ some '_') := by
    intro m hm
    obtain ⟨product, serial, preferred, -, -, hproduct, hserial, hname⟩ :=
      named_rendered hrun hvalid m hm
    have hform := isStreamName_streamNameFor product serial preferred
    have hne : streamNameFor product serial preferred ≠ "" := fun heq =>
      hform.nonempty (by rw [heq]; rfl)
    refine ⟨product, serial, _, hproduct, hserial, hname, ?_,
      streamNameFor_eq_self_iff hform product serial⟩
    rw [healthFile, fieldText_of_get hname, if_neg hne]
  refine ⟨fun manual => listed_prepared hvalid, hentry, fun m hm => ?_, fun m hm => ?_⟩
  · obtain ⟨device, hmem, -, hstream⟩ := of_mem_renderGo2rtc hm
    obtain ⟨product, serial, name, hproduct, hserial, hname, hhealth, hiff⟩ := hentry _ hmem
    refine ⟨device, name, hmem, hname, fun hlast path hpath => ?_⟩
    obtain ⟨hstreamName, hstatus⟩ := of_go2rtcStream hstream
    rw [hhealth, hstatus path hpath, hstreamName, renderedName_of_get hproduct hserial hname,
      hiff.mpr hlast]
  · obtain ⟨device, hmem, -, happ⟩ := of_mem_renderAppdaemon hm
    obtain ⟨product, serial, name, hproduct, hserial, hname, hhealth, hiff⟩ := hentry _ hmem
    refine ⟨device, name, hmem, hname, fun hlast => ?_⟩
    rw [hhealth, (of_feederApp happ).2, renderedName_of_get hproduct hserial hname, hiff.mpr hlast]

/-- Libraries that know one address. -/
def sampleLibraries : ConfigPython where
  str := fun
    | .str s => s
    | .int n => toString n
    | _ => ""
  str_str _ := rfl
  ipAddress s := if s = "10.0.0.9" then some ⟨4, s⟩ else none
  parseTimestamp _ := none
  formatTimestamp _ := ""
  uidDigest uid := uid
  int := fun
    | .int n => some n
    | _ => none
  int_int _ := rfl
  isSpace c := c == ' '
  ipNetwork _ := some (4, 24)
  checkNetloc _ := none

/-- The default options, as far as they are used, with these devices. -/
def sampleOptions (devices : List Json) : Options :=
  [("product_filter", .str "PLAF203"), ("lan_cidr", .str "192.168.1.0/24"),
    ("mqtt_client_id", .str "petlibro_local_backend"), ("persist_feeder_mqtt", .bool false),
    ("feeder_mqtt_host", .str ""), ("petlibro_state_agent_url", .str ""),
    ("petlibro_state_agent_timeout_seconds", .int 2),
    ("state_agent_updates", .obj [("enabled", .bool false), ("manifest_url", .str ""),
      ("check_on_connect", .bool true), ("check_interval_hours", .int 24)]),
    ("ip_resolve_timeout_seconds", .int 15), ("ip_discovery_broadcast_seconds", .int 2),
    ("ip_discovery_max_unicast_per_second", .int 32), ("ip_refresh_interval_minutes", .int 360),
    ("ip_retry_backoff_seconds", .int 60), ("devices", .arr devices),
    ("go2rtc_stream_name", .str "petlibro_feeder"), ("camera_quality", .str "hd"),
    ("send_delay_ctrl", .bool true), ("hd_probe_wait_ms", .int 15000),
    ("publish_camera_metadata", .bool true), ("camera_metadata_topic_prefix", .str ""),
    ("camera_metadata_interval_seconds", .int 30), ("log_level", .str "info"),
    ("enable_debug_dumps", .bool false), ("mqtt_port", .int 1883), ("feeder_mqtt_port", .int 1883),
    ("go2rtc_api_port", .int 1984), ("go2rtc_rtsp_port", .int 8554),
    ("go2rtc_webrtc_port", .int 8555)]

/-- A feeder that was observed, with its UID and its address. -/
def sampleOps (serial : String) : List Op :=
  [.observe (.str s!"dl/PLAF203/{serial}/device") 0,
    .setUid s!"PLAF203/{serial}" "ABCDEFGHIJ0123456789",
    .resolutionSucceeded s!"PLAF203/{serial}" "10.0.0.9" 0]

/-- The files that are written by go2rtc, that the app is told, and that are read. -/
def statusFiles (options : Options) (devices : List (String × Entry)) :
    List (Option String) × List String × List (Option String) :=
  ((renderGo2rtc sampleLibraries options devices).map (·.2.query.lookup "status_file"),
    (renderAppdaemon sampleLibraries options devices).map (·.2.cameraStatusFile),
    (prepareRegistry sampleLibraries options devices).map (healthFile sampleLibraries ·.2))

theorem validate_sampleOptions :
    validate sampleLibraries (sampleOptions []) = .ok (sampleOptions []) := rfl

/-- **A status that is not read where it is written**: of a feeder whose serial is a hyphen. And a
name that is cut behind an underscore, which is stripped when the name is made anew. -/
theorem status_file_missed :
    validate sampleLibraries (sampleOptions []) = .ok (sampleOptions []) ∧
    (run? sampleLibraries (sampleOps "-") []).map (statusFiles (sampleOptions [])) =
      some ([some "/data/petlibro_camera_status_petlibro_plaf203.json"],
        ["/data/petlibro_camera_status_petlibro_plaf203.json"],
        [some "/data/petlibro_camera_status_petlibro_plaf203_.json"]) ∧
    streamNameFor "PLAF203" "A" (String.ofList (List.replicate 95 'a' ++ ['_', 'b'])) =
      String.ofList (List.replicate 95 'a' ++ ['_']) ∧
    streamNameFor "PLAF203" "A" (String.ofList (List.replicate 95 'a' ++ ['_'])) =
      String.ofList (List.replicate 95 'a') := by
  exact ⟨validate_sampleOptions, by decide +kernel, by decide +kernel, by decide +kernel⟩

/-- The feeder A. -/
theorem status_files_agree_sample :
    ∃ devices, run? sampleLibraries (sampleOps "A") [] = some devices ∧
      statusFiles (sampleOptions []) devices =
        ([some "/data/petlibro_camera_status_petlibro_plaf203_a.json"],
          ["/data/petlibro_camera_status_petlibro_plaf203_a.json"],
          [some "/data/petlibro_camera_status_petlibro_plaf203_a.json"]) ∧
      ∀ m ∈ renderAppdaemon sampleLibraries (sampleOptions []) devices, ∃ device name,
        (m.1, device) ∈ prepareRegistry sampleLibraries (sampleOptions []) devices ∧
          Json.get device "stream_name" = .str name ∧
          (name.toList.getLast? ≠ some '_' →
            healthFile sampleLibraries device = some m.2.cameraStatusFile) := by
  have hfiles : (run? sampleLibraries (sampleOps "A") []).map (statusFiles (sampleOptions [])) =
      some ([some "/data/petlibro_camera_status_petlibro_plaf203_a.json"],
        ["/data/petlibro_camera_status_petlibro_plaf203_a.json"],
        [some "/data/petlibro_camera_status_petlibro_plaf203_a.json"]) := by decide +kernel
  obtain ⟨devices, hrun, hfiles⟩ := Option.map_eq_some_iff.mp hfiles
  exact ⟨devices, hrun, hfiles, (status_files_agree hrun validate_sampleOptions).2.2.2⟩

/-! ### Streams and apps of different feeders -/

/-- **Names that cannot be confused**: short serials of letters and digits, no two of which differ
in case only, and preferred names that do not look like those made of serials, with one device
each. -/
structure Unambiguous (given : List Given) : Prop where
  alphanumeric : ∀ x ∈ given, x.2.1 ≠ "" ∧ ∀ c ∈ x.2.1.toList, c.isAlphanum = true
  length : ∀ x ∈ given, x.2.1.toList.length ≤ 79
  caseless : ∀ x ∈ given, ∀ y ∈ given,
    x.2.1.toList.map Char.toLower = y.2.1.toList.map Char.toLower → x.2.1 = y.2.1
  preferredLength : ∀ x ∈ given, (candidateName x.2.2).length ≤ 96
  preferredForm : ∀ x ∈ given, ¬"petlibro_plaf203_".toList <+: candidateName x.2.2
  preferredOnce : ∀ x ∈ given, ∀ y ∈ given, candidateName x.2.2 ≠ [] →
    candidateName x.2.2 = candidateName y.2.2 → x.2.1 = y.2.1

theorem isAlphanum_ne_underscore {c : Char} (h : c.isAlphanum = true) : c ≠ '_' := by
  rintro rfl
  exact absurd h (by decide)

theorem namePart_of_isAlphanum {text : String} (h : ∀ c ∈ text.toList, c.isAlphanum = true) :
    namePart text = text.toList.map Char.toLower := by
  rw [namePart, subRuns_eq_self h, strip_eq_self]
  · exact fun hhead => isAlphanum_ne_underscore (h _ (mem_of_mem_head? hhead)) rfl
  · exact fun hlast => isAlphanum_ne_underscore (h _ (mem_of_mem_getLast? hlast)) rfl

theorem toList_appNameFor {serial : String} (h : ∀ c ∈ serial.toList, c.isAlphanum = true) :
    (appNameFor serial).toList = "plaf203_".toList ++ serial.toList.map Char.toLower := by
  have hkeep : ∀ c ∈ serial.toList, isAppChar c = true := fun c hc => by
    rw [isAppChar, h c hc, Bool.true_or]
  have hname : appNameFor serial =
      String.ofList ("plaf203_".toList ++ serial.toList.map Char.toLower) := by
    delta appNameFor
    rw [subRuns_eq_self hkeep]
  exact (congrArg String.toList hname).trans String.toList_ofList

namespace Unambiguous

variable {x y : Given} (h : Unambiguous given) (hx : x ∈ given) (hy : y ∈ given)
include h hx

theorem toList_serialName :
    (Discovery.streamNameFor "PLAF203" x.2.1).toList =
      "petlibro_plaf203_".toList ++ x.2.1.toList.map Char.toLower := by
  have hproduct : namePart "PLAF203" = "plaf203".toList := by decide
  rw [Discovery.streamNameFor, String.toList_ofList, hproduct,
    namePart_of_isAlphanum (h.alphanumeric x hx).2]
  have hlength := h.length x hx
  rw [take_of_length_le]
  · rfl
  · simp only [length_append, length_cons, length_map]
    simp only [String.reduceToList, length_cons, length_nil]
    omega

theorem toList_preferredName (hne : candidateName x.2.2 ≠ []) :
    (streamNameFor "PLAF203" x.2.1 x.2.2).toList = candidateName x.2.2 := by
  rw [streamNameFor, if_pos hne, String.toList_ofList, take_of_length_le (h.preferredLength x hx)]

theorem toList_defaultName (hnil : candidateName x.2.2 = []) :
    (streamNameFor "PLAF203" x.2.1 x.2.2).toList =
      "petlibro_plaf203_".toList ++ x.2.1.toList.map Char.toLower := by
  rw [streamNameFor, if_neg (not_not.mpr hnil), h.toList_serialName hx]

theorem getLast?_name : (streamNameFor "PLAF203" x.2.1 x.2.2).toList.getLast? ≠ some '_' := by
  by_cases hne : candidateName x.2.2 ≠ []
  · rw [h.toList_preferredName hx hne]
    exact getLast?_strip
  · rw [h.toList_defaultName hx (not_not.mp hne), List.getLast?_append]
    intro hlast
    have hserial : x.2.1.toList ≠ [] := fun hnil =>
      (h.alphanumeric x hx).1 (String.toList_inj.mp hnil)
    have hc := List.getLast?_eq_some_getLast hserial
    rw [List.getLast?_map, hc, Option.map_some, Option.some_or, Option.some.injEq] at hlast
    have halnum := isAlphanum_toLower ((h.alphanumeric x hx).2 _ (getLast_mem hserial))
    exact isAlphanum_ne_underscore halnum hlast

include hy

/-- **Different serials, different names.** -/
theorem serial_eq_of_name_eq
    (heq : streamNameFor "PLAF203" x.2.1 x.2.2 = streamNameFor "PLAF203" y.2.1 y.2.2) :
    x.2.1 = y.2.1 := by
  have hchars := congrArg String.toList heq
  by_cases hx' : candidateName x.2.2 = []
  · rw [h.toList_defaultName hx hx'] at hchars
    by_cases hy' : candidateName y.2.2 = []
    · rw [h.toList_defaultName hy hy'] at hchars
      exact h.caseless x hx y hy (append_cancel_left hchars)
    · rw [h.toList_preferredName hy hy'] at hchars
      exact absurd (hchars ▸ prefix_append _ _) (h.preferredForm y hy)
  · rw [h.toList_preferredName hx hx'] at hchars
    by_cases hy' : candidateName y.2.2 = []
    · rw [h.toList_defaultName hy hy'] at hchars
      exact absurd (hchars ▸ prefix_append _ _) (h.preferredForm x hx)
    · rw [h.toList_preferredName hy hy'] at hchars
      exact h.preferredOnce x hx y hy hx' hchars

theorem serial_eq_of_appName_eq (heq : appNameFor x.2.1 = appNameFor y.2.1) : x.2.1 = y.2.1 := by
  have hchars := congrArg String.toList heq
  rw [toList_appNameFor (h.alphanumeric x hx).2, toList_appNameFor (h.alphanumeric y hy).2]
    at hchars
  exact h.caseless x hx y hy (append_cancel_left hchars)

end Unambiguous

theorem eq_of_enclosed_eq {opening closing name name' : String}
    (h : opening ++ name ++ closing = opening ++ name' ++ closing) : name = name' := by
  have hchars := congrArg String.toList h
  rw [String.toList_append, String.toList_append, String.toList_append,
    String.toList_append] at hchars
  exact String.toList_inj.mp (append_cancel_left (append_cancel_right hchars))

theorem statusFileFor_injective {name name' : String}
    (h : statusFileFor name = statusFileFor name') : name = name' := by
  delta statusFileFor at h
  exact eq_of_enclosed_eq h

theorem renderedName_of_unambiguous (h : Unambiguous given) {key : String} {device : Entry}
    (hnamed : Named given (key, device)) (hproduct : Json.get device "product" = .str "PLAF203") :
    ∃ x ∈ given, key = registryKey "PLAF203" x.2.1 ∧ serialText py device = x.2.1 ∧
      renderedName py options device = streamNameFor "PLAF203" x.2.1 x.2.2 := by
  obtain ⟨product, serial, preferred, hmem, hkey, hproduct', hserial, hname⟩ := hnamed
  obtain rfl : product = "PLAF203" := Json.str.inj (hproduct'.symm.trans hproduct)
  have hlast := h.getLast?_name hmem
  have hstays := (streamNameFor_eq_self_iff (isStreamName_streamNameFor "PLAF203" serial preferred)
    "PLAF203" serial).mpr hlast
  have hrendered : renderedName py options device = streamNameFor "PLAF203" serial preferred :=
    (renderedName_of_get hproduct hserial hname).trans hstays
  exact ⟨("PLAF203", serial, preferred), hmem, hkey, fieldText_of_get hserial "", hrendered⟩

/-- **Each feeder has a stream and an app of its own**, if the names cannot be confused. -/
theorem feeders_have_own_names (hrun : run? py ops [] = some devices)
    (hvalid : validate py options = .ok options')
    (h : Unambiguous (ops.flatMap (Op.given py) ++ (Op.prepare options).given py)) :
    (∀ m ∈ renderGo2rtc py options' devices, ∀ m' ∈ renderGo2rtc py options' devices,
      m.1 ≠ m'.1 → m.2.name ≠ m'.2.name ∧ statusFileFor m.2.name ≠ statusFileFor m'.2.name) ∧
    ∀ m ∈ renderAppdaemon py options' devices, ∀ m' ∈ renderAppdaemon py options' devices,
      m.1 ≠ m'.1 → m.2.appName ≠ m'.2.appName := by
  have hnamed := named_rendered hrun hvalid
  constructor
  · intro m hm m' hm' hne
    suffices hname : m.2.name ≠ m'.2.name from
      ⟨hname, fun heq => hname (statusFileFor_injective heq)⟩
    intro heq
    obtain ⟨device, hmem, hproduct, hstream⟩ := of_mem_renderGo2rtc hm
    obtain ⟨device', hmem', hproduct', hstream'⟩ := of_mem_renderGo2rtc hm'
    obtain ⟨x, hx, hkey, -, hname⟩ := renderedName_of_unambiguous h (hnamed _ hmem) hproduct
    obtain ⟨y, hy, hkey', -, hname'⟩ := renderedName_of_unambiguous h (hnamed _ hmem') hproduct'
    rw [(of_go2rtcStream hstream).1, (of_go2rtcStream hstream').1, hname, hname'] at heq
    exact hne (by rw [hkey, hkey', h.serial_eq_of_name_eq hx hy heq])
  · intro m hm m' hm' hne heq
    obtain ⟨device, hmem, hproduct, happ⟩ := of_mem_renderAppdaemon hm
    obtain ⟨device', hmem', hproduct', happ'⟩ := of_mem_renderAppdaemon hm'
    obtain ⟨x, hx, hkey, hserial, -⟩ := @renderedName_of_unambiguous py options' _ h _ _
      (hnamed _ hmem) hproduct
    obtain ⟨y, hy, hkey', hserial', -⟩ := @renderedName_of_unambiguous py options' _ h _ _
      (hnamed _ hmem') hproduct'
    rw [(of_feederApp happ).1, (of_feederApp happ').1, hserial, hserial'] at heq
    exact hne (by rw [hkey, hkey', h.serial_eq_of_appName_eq hx hy heq])

/-- The names of the streams and of the apps. -/
def namesOf (devices : List (String × Entry)) : List (String × String) × List (String × String) :=
  ((renderGo2rtc sampleLibraries (sampleOptions []) devices).map fun m => (m.1, m.2.name),
    (renderAppdaemon sampleLibraries (sampleOptions []) devices).map fun m => (m.1, m.2.appName))

/-- **Two feeders with one stream and one app**: their serials differ in case only. -/
theorem feeders_share_names :
    validate sampleLibraries (sampleOptions []) = .ok (sampleOptions []) ∧
    (run? sampleLibraries (sampleOps "A" ++ sampleOps "a") []).map namesOf =
      some ([("PLAF203/A", "petlibro_plaf203_a"), ("PLAF203/a", "petlibro_plaf203_a")],
        [("PLAF203/A", "plaf203_a"), ("PLAF203/a", "plaf203_a")]) := by
  exact ⟨validate_sampleOptions, by decide +kernel⟩

/-- The feeders A and B. -/
theorem feeders_have_own_names_sample :
    ∃ devices, run? sampleLibraries (sampleOps "A" ++ sampleOps "B") [] = some devices ∧
      (namesOf devices).1.map Prod.fst = ["PLAF203/A", "PLAF203/B"] ∧
      ∀ m ∈ renderGo2rtc sampleLibraries (sampleOptions []) devices,
        ∀ m' ∈ renderGo2rtc sampleLibraries (sampleOptions []) devices,
          m.1 ≠ m'.1 → m.2.name ≠ m'.2.name ∧ statusFileFor m.2.name ≠ statusFileFor m'.2.name := by
  have hkeys : (run? sampleLibraries (sampleOps "A" ++ sampleOps "B") []).map
      (fun devices => (namesOf devices).1.map Prod.fst) = some ["PLAF203/A", "PLAF203/B"] := by
    decide +kernel
  obtain ⟨devices, hrun, hkeys⟩ := Option.map_eq_some_iff.mp hkeys
  have hgiven : (sampleOps "A" ++ sampleOps "B").flatMap (Op.given sampleLibraries) ++
      (Op.prepare (sampleOptions [])).given sampleLibraries =
        [("PLAF203", "A", ""), ("PLAF203", "B", "")] := by decide +kernel
  have hclear : Unambiguous [("PLAF203", "A", ""), ("PLAF203", "B", "")] := by
    have hserials : ["A", "B"].all (fun s => s != "" && s.toList.all Char.isAlphanum) = true := by
      decide
    refine ⟨fun x hx => ?_, by decide, by decide, by decide, by decide, by decide⟩
    have hserial := all_eq_true.mp hserials x.2.1 (by
      simp only [mem_cons, not_mem_nil, or_false] at hx ⊢
      rcases hx with rfl | rfl <;> simp)
    rw [Bool.and_eq_true, bne_iff_ne, all_eq_true] at hserial
    exact hserial
  rw [← hgiven] at hclear
  exact ⟨devices, hrun, hkeys, (feeders_have_own_names hrun validate_sampleOptions hclear).1⟩

end PetlibroLocal.Render
