import PetlibroLocal.Render.Options

/-!
# Rendering the Registry

`render_config.py` puts the devices that are listed in the options into the registry
(`prepare_registry`), and makes a stream of go2rtc and an app of AppDaemon of each entry. Of a
stream its name, its address and its query are modelled, and of an app what depends on the device;
the rest is the same for all devices. The registry is passed between the processes by value.
-/

namespace PetlibroLocal.Render

open Discovery

variable (py : ConfigPython) (options : Options)

/-! ### The registry -/

/-- The fields of an entry that are kept. -/
def allowedFields : List String :=
  ["product", "serial", "uid", "uid_source", "ip_address", "ip_resolution_method", "stream_name",
    "mqtt_topic_root", "last_mqtt_seen", "last_ip_resolved", "last_ip_attempt", "manual_override",
    "ready"]

/-- `_sanitize_registry_device`. -/
def sanitizeRegistryDevice (device : Entry) : Entry :=
  let clean := device.filter (allowedFields.contains ·.1)
  Dict.setItem clean "ready" (.obj (fullReady clean))

/-- `load_registry`. -/
def loadRegistry (devices : List (String × Entry)) : List (String × Entry) :=
  devices.map fun m => (m.1, sanitizeRegistryDevice m.2)

/-- The devices that are listed. -/
def listedDevices : List Entry :=
  match Json.get options "devices" with
  | .arr items => items.filterMap fun
      | .obj fields => some fields
      | _ => none
  | _ => []

/-- The device of the legacy options. -/
def legacyDevice : Option Entry :=
  let serial := fieldText py options "serial" ""
  let uid := fieldText py options "uid" ""
  let ip := fieldText py options "device_ip" ""
  if serial ≠ "" ∧ uid ≠ "" ∧ ip ≠ "" then
    some [
      ("name", .str (fieldText py options "go2rtc_stream_name" "petlibro_feeder")),
      ("product", .str (py.str ((options.lookup "product").getD
        (Json.get options "product_filter")))),
      ("serial", .str serial), ("uid", .str uid), ("ip_address", .str ip), ("legacy", .bool true)]
  else none

/-- `_manual_devices`. -/
def manualDevices : List Entry := listedDevices options ++ (legacyDevice py options).toList

/-- The product of a device, by default the one of the options. -/
def productText (device : Entry) : String :=
  py.str ((device.lookup "product").getD (Json.get options "product_filter"))

/-- The serial of a device. -/
def serialText (device : Entry) : String := fieldText py device "serial" ""

/-- The key of an entry. -/
def registryKey (product serial : String) : String := s!"{product}/{serial}"

/-- The key of a device that is given by hand. -/
def manualKey (manual : Entry) : String :=
  registryKey (productText py options manual) (serialText py manual)

/-- The name of its stream. -/
def manualName (manual : Entry) : String :=
  streamNameFor (productText py options manual) (serialText py manual)
    (fieldText py manual "name" "")

/-- A field that is set if its text is not empty, with where it comes from. -/
def setOverride (device : Entry) (key source value : String) : Entry :=
  if value = "" then device
  else Dict.setItem (Dict.setItem device key (.str value)) source (.str "manual_override")

/-- The fields of a device that is given by hand. -/
def manualFields (manual : Entry) : Entry :=
  let product := productText py options manual
  let serial := serialText py manual
  [("product", .str product),
    ("serial", .str serial),
    ("stream_name", .str (manualName py options manual)),
    ("mqtt_topic_root", .str s!"dl/{product}/{serial}/device")]

/-- The entry of a device that is given by hand, made of the one that is there. -/
def manualEntry (manual current : Entry) : Entry :=
  let current := Dict.update current (manualFields py options manual)
  let current := setOverride current "uid" "uid_source" (fieldText py manual "uid" "")
  let current := setOverride current "ip_address" "ip_resolution_method"
    (fieldText py manual "ip_address" "")
  let uidDiscovered := (Json.get current "uid").truthy
  let ipResolved := (Json.get current "ip_address").truthy
  let ready := Dict.update (fullReady current) [
    ("uid_discovered", .bool uidDiscovered),
    ("ip_resolved", .bool ipResolved),
    ("stream_configured", .bool (uidDiscovered && ipResolved))]
  Dict.setItem (Dict.setItem current "ready" (.obj ready)) "manual_override" (.bool true)

/-- The device is put into the registry. -/
def putManual (devices : List (String × Entry)) (manual : Entry) : List (String × Entry) :=
  let key := manualKey py options manual
  Dict.setItem devices key (manualEntry py options manual ((devices.lookup key).getD []))

/-- `prepare_registry`. -/
def prepareRegistry (devices : List (String × Entry)) : List (String × Entry) :=
  let manual := manualDevices py options
  let devices := (loadRegistry devices).map fun m =>
    if (manual.map (manualKey py options)).contains m.1 then m
    else (m.1, Dict.pop m.2 "manual_override")
  manual.foldl (putManual py options) devices

/-- `_registry_devices`. -/
def registryDevices (devices : List (String × Entry)) : List (String × Entry) :=
  (devices.insertionSort (·.1 ≤ ·.1)).filter fun m =>
    (Json.get m.2 "product").isStr "PLAF203" && isWord (serialText py m.2).toList

/-! ### Streams and apps -/

/-- The name of the stream of an entry, made anew. -/
def renderedName (device : Entry) : String :=
  streamNameFor (productText py options device) (serialText py device)
    (fieldText py device "stream_name" "")

/-- A stream of go2rtc: its name, and its URL before it is encoded. -/
structure Stream where
  name : String
  ipAddress : String
  query : List (String × String)
  deriving DecidableEq

/-- An entry of the query that depends on an option. -/
def queryIf (c : Bool) (entries : List (String × String)) : List (String × String) :=
  if c then entries else []

/-- The stream of an entry, if its UID and its address are known. -/
def go2rtcStream (device : Entry) : Option Stream :=
  let uid := fieldText py device "uid" ""
  let ipAddress := fieldText py device "ip_address" ""
  if isUid uid = true ∧ (py.ipAddress ipAddress).isSome = true then
    let name := renderedName py options device
    let logLevel := Json.get options "log_level"
    some ⟨name, ipAddress, [("uid", uid), ("quality", py.str (Json.get options "camera_quality")),
        ("send_delay_ctrl", if (Json.get options "send_delay_ctrl").truthy then "1" else "0"),
        ("hd_probe_wait_ms", py.str (Json.get options "hd_probe_wait_ms"))] ++
      queryIf (Json.get options "publish_camera_metadata").truthy
        [("status_file", statusFileFor name)] ++
      queryIf (logLevel.isStr "debug" || logLevel.isStr "trace") [("verbose", "1")] ++
      queryIf (logLevel.isStr "trace") [("trace_packets", "1"), ("trace_ack", "1"),
        ("trace_frag", "1"), ("trace_frameinfo", "1")] ++
      queryIf (Json.get options "enable_debug_dumps").truthy
        [("dump_c2d_plain", s!"/data/petlibro_c2d_{name}.dat"),
          ("dump_d2c_plain", s!"/data/petlibro_d2c_{name}.dat")]⟩
  else none

/-- `render_go2rtc`: the streams, with the keys of their entries. -/
def renderGo2rtc (devices : List (String × Entry)) : List (String × Stream) :=
  (registryDevices py (prepareRegistry py options devices)).filterMap fun m =>
    (go2rtcStream py options m.2).map (m.1, ·)

/-- An app of a feeder. -/
structure FeederApp where
  appName : String
  product : String
  serialNumber : String
  deviceUid : String
  stateAgentUrl : String
  go2rtcStreamName : String
  cameraStatusFile : String
  cameraMetadataTopic : String
  deriving DecidableEq

/-- `[A-Za-z0-9_]`. -/
def isAppChar (c : Char) : Bool := c.isAlphanum || c == '_'

/-- The name of an app. -/
def appNameFor (serial : String) : String :=
  String.ofList ("plaf203_".toList ++ (subRuns isAppChar '_' serial.toList).map Char.toLower)

/-- `_camera_topic_prefix`. -/
def cameraTopic (product serial : String) : String :=
  let configured := String.ofList
    ((textOption py options "camera_metadata_topic_prefix").rdropWhile (· == '/'))
  if configured ≠ "" then s!"{configured}/{product}/{serial}/camera"
  else s!"petlibro_local/{product}/{serial}/camera"

/-- `state_agent_url_for`. -/
def stateAgentUrlFor (device : Entry) : String :=
  let configured :=
    (stripSpace py (textOption py options "petlibro_state_agent_url")).rdropWhile (· == '/')
  let ipAddress := String.ofList (stripSpace py (fieldText py device "ip_address" "").toList)
  if configured ≠ [] then
    if "\x7bip\x7d".toList <:+: configured then
      if ipAddress ≠ "" then String.ofList (replaceAll "\x7bip\x7d" ipAddress configured) else ""
    else String.ofList configured
  else if ipAddress ≠ "" then s!"http://{ipAddress}:8765"
  else ""

/-- The app of an entry. -/
def feederApp (device : Entry) : Option FeederApp :=
  let product := productText py options device
  let serial := serialText py device
  if serial = "" ∨ product ≠ "PLAF203" then none
  else
    let streamName := renderedName py options device
    some ⟨appNameFor serial, product, serial, fieldText py device "uid" "",
      stateAgentUrlFor py options device, streamName, statusFileFor streamName,
      cameraTopic py options product serial⟩

/-- `render_appdaemon`: the apps of the feeders, with the keys of their entries. -/
def renderAppdaemon (devices : List (String × Entry)) : List (String × FeederApp) :=
  (registryDevices py (prepareRegistry py options devices)).filterMap fun m =>
    (feederApp py options m.2).map (m.1, ·)

/-- The file that `_camera_health` reads for an entry; without a name it reads none. -/
def healthFile (device : Entry) : Option String :=
  let streamName := fieldText py device "stream_name" ""
  if streamName = "" then none else some (Discovery.statusFileFor streamName)

end PetlibroLocal.Render
