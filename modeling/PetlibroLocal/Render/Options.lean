import PetlibroLocal.Lib.UrlSplit
import PetlibroLocal.Discovery.Registry

/-!
# The Options of the Add-on

`validate` of `render_config.py` checks the options of the add-on before anything is rendered.
Options are a dictionary of JSON values; `load_options` has put the defaults into it, truth values
under the keys of flags, and integers under those of numbers. A check raises a `ValueError` with a
message, or Python raises something itself.
-/

namespace PetlibroLocal.Render

open Discovery

/-- What the renderer uses of Python's libraries in addition. -/
structure ConfigPython extends Python where
  /-- `int(value)`. -/
  int : Json → Option ℤ
  int_int : ∀ n, int (.int n) = some n
  /-- `str.isspace`. -/
  isSpace : Char → Bool
  /-- `ipaddress.ip_network(text, strict=False)`: the version and the length of the mask. -/
  ipNetwork : String → Option (ℕ × ℕ)
  /-- What `urlsplit` finds wrong with an authority. -/
  checkNetloc : List Char → Option String

/-- Why options are refused. -/
inductive OptionsError
  | valueError (message : String)
  | other
  deriving DecidableEq

/-- The options. -/
abbrev Options := List (String × Json)

variable (py : ConfigPython) (options : Options)

/-- `text.strip()`. -/
def stripSpace (text : List Char) : List Char := (text.dropWhile py.isSpace).rdropWhile py.isSpace

/-- The occurrences of a pattern are replaced from left to right; `skip` characters belong to the
last one. -/
def replaceFrom (pattern replacement : List Char) : ℕ → List Char → List Char
  | _, [] => []
  | skip + 1, _ :: cs => replaceFrom pattern replacement skip cs
  | 0, c :: cs =>
    if pattern <+: c :: cs then
      replacement ++ replaceFrom pattern replacement (pattern.length - 1) cs
    else c :: replaceFrom pattern replacement 0 cs

/-- `text.replace(pattern, replacement)`. -/
def replaceAll (pattern replacement : String) (text : List Char) : List Char :=
  replaceFrom pattern.toList replacement.toList 0 text

/-- `str(options[key])`. -/
def textOption (key : String) : List Char := (py.str (Json.get options key)).toList

/-- `parse_bool`. -/
def parseBool (value : Json) (key : String) : Except OptionsError Bool :=
  match value with
  | .bool b => .ok b
  | value =>
    let normalized := String.ofList ((stripSpace py (py.str value).toList).map Char.toLower)
    if normalized ∈ ["1", "true", "yes", "on"] then .ok true
    else if normalized ∈ ["0", "false", "no", "off"] then .ok false
    else .error (.valueError s!"{key} must be true or false")

/-- A number between two bounds. -/
def validateRange (key : String) (lo hi : ℤ) (message : String) : Except OptionsError Unit :=
  match py.int (Json.get options key) with
  | none => .error .other
  | some n => require (lo ≤ n ∧ n ≤ hi) (.valueError message)

/-- The network of the cameras. -/
def validateNetwork : Except OptionsError Unit :=
  match py.ipNetwork (py.str (Json.get options "lan_cidr")) with
  | none => .error (.valueError "lan_cidr must be a valid IPv4 CIDR")
  | some (version, prefixlen) =>
    require (version = 4 ∧ 16 ≤ prefixlen)
      (.valueError "lan_cidr must be an IPv4 network no larger than /16")

/-- A URL without credentials, query and fragment. -/
def validateUrl (schemes : List String) (url : List Char) (message : String) :
    Except OptionsError Unit :=
  match urlsplit py.checkNetloc url with
  | .error _ => .error .other
  | .ok parsed =>
    require (String.ofList parsed.scheme ∈ schemes ∧ parsed.hostname ≠ [] ∧
      parsed.username.getD [] = [] ∧ parsed.password.getD [] = [] ∧ parsed.query = [] ∧
      parsed.fragment = []) (.valueError message)

/-- The URL of the state agent. -/
def validateStateAgentUrl : Except OptionsError Unit :=
  let url := stripSpace py (textOption py options "petlibro_state_agent_url")
  if url = [] then .ok ()
  else do
    validateUrl py ["http", "https"] (replaceAll "\x7bip\x7d" "192.0.2.1" url)
      "petlibro_state_agent_url must be an HTTP(S) URL without credentials, query, or fragment"
    let rest := replaceAll "\x7bip\x7d" "" url
    require ('{' ∉ rest ∧ '}' ∉ rest)
      (.valueError "petlibro_state_agent_url only supports the \x7bip\x7d placeholder")

/-- The hours between two looks for a release. -/
def validateInterval (value : Json) : Except OptionsError ℤ :=
  match py.int value with
  | none => .error (.valueError "state_agent_updates.check_interval_hours must be an integer")
  | some n => do
    require (1 ≤ n ∧ n ≤ 168)
      (.valueError "state_agent_updates.check_interval_hours must be between 1 and 168")
    .ok n

/-- The URL of the releases. -/
def validateManifestUrl (enabled : Bool) (url : List Char) : Except OptionsError Unit :=
  if url = [] then
    require (enabled = false) (.valueError ("state_agent_updates.manifest_url is required when " ++
      "state_agent_updates.enabled is true"))
  else
    validateUrl py ["https"] url ("state_agent_updates.manifest_url must be an HTTPS URL " ++
      "without credentials, query, or fragment")

/-- The options of the updates, normalised. -/
def validateUpdates : Except OptionsError Json :=
  match Json.get options "state_agent_updates" with
  | .obj updates => do
    let enabled ← parseBool py ((updates.lookup "enabled").getD (.bool false))
      "state_agent_updates.enabled"
    let manifestUrl := stripSpace py
      (py.str ((updates.lookup "manifest_url").getD (.str ""))).toList
    let checkOnConnect ← parseBool py ((updates.lookup "check_on_connect").getD (.bool true))
      "state_agent_updates.check_on_connect"
    let intervalHours ← validateInterval py
      ((updates.lookup "check_interval_hours").getD (.int 24))
    validateManifestUrl py enabled manifestUrl
    .ok (.obj [("enabled", .bool enabled), ("manifest_url", .str (String.ofList manifestUrl)),
      ("check_on_connect", .bool checkOnConnect), ("check_interval_hours", .int intervalHours)])
  | _ => .error (.valueError "state_agent_updates must be an object")

/-! ### Names of streams -/

/-- The name that the user prefers, as far as it can be used. -/
def candidateName (preferred : String) : List Char :=
  strip '_' (subRuns isWordChar '_' preferred.toList)

/-- `stream_name_for`. -/
def streamNameFor (product serial preferred : String) : String :=
  if candidateName preferred ≠ [] then String.ofList ((candidateName preferred).take 96)
  else Discovery.streamNameFor product serial

/-! ### Devices -/

/-- `device.get(key, default)` as a text. -/
def fieldText (device : Entry) (key default : String) : String :=
  py.str ((device.lookup key).getD (.str default))

/-- The checks of one device that is listed, with the keys and the names of the ones before. -/
def validateDevice (index : ℕ) (device : Json) (seen : List String × List String) :
    Except OptionsError (List String × List String) :=
  match device with
  | .obj device => do
    let product := fieldText py device "product" "PLAF203"
    require (product = "PLAF203") (.valueError s!"devices[{index}].product must be PLAF203")
    let serial := fieldText py device "serial" ""
    require (isWord serial.toList = true) (.valueError (s!"devices[{index}].serial must " ++
      "contain letters, numbers, underscores, or hyphens"))
    let deviceKey := s!"{product}/{serial}"
    require (deviceKey ∉ seen.1) (.valueError s!"devices[{index}] duplicates {deviceKey}")
    let streamName := streamNameFor product serial (fieldText py device "name" "")
    require (streamName ∉ seen.2)
      (.valueError s!"devices[{index}] has a duplicate stream name")
    let uid := fieldText py device "uid" ""
    require (uid = "" ∨ isUid uid = true)
      (.valueError s!"devices[{index}].uid must contain exactly 20 letters or numbers")
    let ipAddress := fieldText py device "ip_address" ""
    require (ipAddress = "" ∨ (py.ipAddress ipAddress).isSome = true)
      (.valueError s!"devices[{index}].ip_address is invalid")
    .ok (deviceKey :: seen.1, streamName :: seen.2)
  | _ => .error (.valueError s!"devices[{index}] must be an object")

/-- The loop over the devices that are listed. -/
def validateDeviceList : ℕ → List Json → List String × List String →
    Except OptionsError (List String × List String)
  | _, [], seen => .ok seen
  | index, device :: devices, seen =>
    validateDevice py index device seen >>= validateDeviceList (index + 1) devices

/-- The devices that are listed. -/
def validateDevices : Except OptionsError Unit :=
  match Json.get options "devices" with
  | .arr devices => (validateDeviceList py 0 devices ([], [])).map fun _ => ()
  | _ => .error (.valueError "devices must be a list")

/-- `options[key] not in names`, unless this raises a `TypeError`. -/
def validateChoice (key : String) (names : List String) (message : String) :
    Except OptionsError Unit :=
  let value := Json.get options key
  if value.hashable then require (names.any value.isStr = true) (.valueError message)
  else .error .other

/-- The port numbers. -/
def validatePorts : List String → Except OptionsError Unit
  | [] => .ok ()
  | key :: keys =>
    validateRange py options key 1 65535 s!"{key} must be between 1 and 65535" >>= fun _ =>
      validatePorts keys

/-- `validate`, up to the devices; the options of the updates are replaced. -/
def validateConnections : Except OptionsError Options := do
  require ((Json.get options "product_filter").isStr "PLAF203" = true)
    (.valueError "product_filter must be PLAF203")
  validateNetwork py options
  require (isWord (textOption py options "mqtt_client_id") = true)
    (.valueError "mqtt_client_id contains unsupported characters")
  require (¬((Json.get options "persist_feeder_mqtt").truthy = true ∧
      stripSpace py (textOption py options "feeder_mqtt_host") = []))
    (.valueError "feeder_mqtt_host is required when persist_feeder_mqtt is enabled")
  validateStateAgentUrl py options
  validateRange py options "petlibro_state_agent_timeout_seconds" 1 10
    "petlibro_state_agent_timeout_seconds must be between 1 and 10"
  let updates ← validateUpdates py options
  let options := Dict.setItem options "state_agent_updates" updates
  validateRange py options "ip_resolve_timeout_seconds" 1 60
    "ip_resolve_timeout_seconds must be between 1 and 60"
  validateRange py options "ip_discovery_broadcast_seconds" 1 10
    "ip_discovery_broadcast_seconds must be between 1 and 10"
  validateRange py options "ip_discovery_max_unicast_per_second" 1 512
    "ip_discovery_max_unicast_per_second must be between 1 and 512"
  validateRange py options "ip_refresh_interval_minutes" 1 10080
    "ip_refresh_interval_minutes must be between 1 and 10080"
  validateRange py options "ip_retry_backoff_seconds" 5 3600
    "ip_retry_backoff_seconds must be between 5 and 3600"
  .ok options

/-- `validate`, behind the devices. -/
def validateOutputs : Except OptionsError Unit := do
  require (isWord (textOption py options "go2rtc_stream_name") = true)
    (.valueError "go2rtc_stream_name contains unsupported characters")
  validateChoice options "camera_quality" ["hd", "sd"] "camera_quality must be hd or sd"
  validateChoice options "log_level" ["critical", "error", "warning", "info", "debug", "trace"]
    "log_level must be critical, error, warning, info, debug, or trace"
  validateRange py options "hd_probe_wait_ms" 0 60000
    "hd_probe_wait_ms must be between 0 and 60000"
  validateRange py options "camera_metadata_interval_seconds" 5 300
    "camera_metadata_interval_seconds must be between 5 and 300"
  let topic := textOption py options "camera_metadata_topic_prefix"
  require (topic = [] ∨ ((topic.splitOn '/').all isWord) = true)
    (.valueError "camera_metadata_topic_prefix must contain MQTT path segments without wildcards")
  validatePorts py options
    ["mqtt_port", "feeder_mqtt_port", "go2rtc_api_port", "go2rtc_rtsp_port", "go2rtc_webrtc_port"]

/-- `validate`: the options as they are used afterwards. -/
def validate : Except OptionsError Options := do
  let options ← validateConnections py options
  validateDevices py options
  validateOutputs py options
  .ok options

/-! ### What is known afterwards -/

variable {py} {options} {options' : Options}

/-- A device that is listed by hand and accepted. -/
structure Listed (py : ConfigPython) (device : Entry) : Prop where
  product : fieldText py device "product" "PLAF203" = "PLAF203"
  serial : isWord (fieldText py device "serial" "").toList = true

theorem listed_of_validateDevice {index : ℕ} {device : Json}
    {seen seen' : List String × List String}
    (h : validateDevice py index device seen = .ok seen') :
    ∃ fields, device = .obj fields ∧ Listed py fields := by
  rw [validateDevice.eq_def] at h
  split at h
  · next fields =>
      simp only [bind_eq_ok, require_eq_ok, exists_and_left] at h
      obtain ⟨hproduct, hserial, -⟩ := h
      exact ⟨fields, rfl, hproduct, hserial⟩
  · cases h

theorem listed_of_validateDeviceList {index : ℕ} {devices : List Json}
    {seen seen' : List String × List String}
    (h : validateDeviceList py index devices seen = .ok seen') :
    ∀ device ∈ devices, ∃ fields, device = .obj fields ∧ Listed py fields := by
  induction devices generalizing index seen with
  | nil => exact List.forall_mem_nil _
  | cons device devices ih =>
    obtain ⟨seen₁, hdevice, hrest⟩ := bind_eq_ok.mp h
    exact List.forall_mem_cons.mpr ⟨listed_of_validateDevice hdevice, ih hrest⟩

theorem productFilter_of_validateConnections
    (h : validateConnections py options = .ok options') :
    Json.get options' "product_filter" = .str "PLAF203" := by
  simp only [validateConnections, bind_eq_ok, require_eq_ok, exists_and_left] at h
  obtain ⟨hfilter, -, -, -, -, -, -, -, -, -, -, -, updates, -, -, -, -, -, -, -, -, -, -, -,
    hupdated⟩ := h
  cases hupdated
  rw [get_setItem_of_ne (by decide)]
  exact Json.isStr_iff.mp hfilter

/-- **Options that are accepted**: one product, and a list of devices that are accepted. -/
theorem of_validate (h : validate py options = .ok options') :
    Json.get options' "product_filter" = .str "PLAF203" ∧
      ∃ devices, Json.get options' "devices" = .arr devices ∧
        ∀ device ∈ devices, ∃ fields, device = .obj fields ∧ Listed py fields := by
  simp only [validate, bind_eq_ok] at h
  obtain ⟨options₁, hconnections, _, hdevices, -, -, h⟩ := h
  cases h
  refine ⟨productFilter_of_validateConnections hconnections, ?_⟩
  simp only [validateDevices] at hdevices
  split at hdevices
  · next devices harr =>
      cases hlist : validateDeviceList py 0 devices ([], []) with
      | error e =>
        rw [hlist] at hdevices
        cases hdevices
      | ok seen => exact ⟨devices, harr, listed_of_validateDeviceList hlist⟩
  · cases hdevices

end PetlibroLocal.Render
