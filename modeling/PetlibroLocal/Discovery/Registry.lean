import PetlibroLocal.Lib.Dict
import PetlibroLocal.Lib.JsonLoads
import PetlibroLocal.Lib.Sanitize
import PetlibroLocal.Lib.Utf8
import PetlibroLocal.Feeder.PlanRecords

/-!
# The Registry of Devices

The discovery app learns feeders from their MQTT topics and keeps what it knows of them in a
registry (`DeviceRegistry` of `device_discovery.py`). An entry is a JSON object. It may have been
read from a file, so nothing is known of its fields in advance.

Timestamps are counted in microseconds. Their texts, the texts of numbers and containers, IP
addresses and SHA-256 belong to Python's libraries; what the code uses of them is a parameter
(`Python`).
-/

namespace PetlibroLocal

/-! ### Values of Python -/

/-- `bool(value)`. -/
def Json.truthy : Json → Bool
  | .null => false
  | .bool b => b
  | .int n => n != 0
  | .float q => q != 0
  | .str s => s != ""
  | .arr items => !items.isEmpty
  | .obj fields => !fields.isEmpty

/-- The number behind a value, if it is one; truth values are numbers. -/
def Json.number? : Json → Option Rat
  | .bool b => some (if b then 1 else 0)
  | .int n => some n
  | .float q => some q
  | _ => none

/-- `==` between scalar values; a list or an object is equal to none. -/
def Json.scalarEq : Json → Json → Bool
  | .str s, .str t => s == t
  | .null, .null => true
  | v, w =>
    match v.number?, w.number? with
    | some x, some y => x == y
    | _, _ => false

/-- The value is this string. -/
def Json.isStr (v : Json) (s : String) : Bool := v.scalarEq (.str s)

theorem Json.isStr_iff {v : Json} {s : String} : v.isStr s = true ↔ v = .str s := by
  cases v <;> simp [Json.isStr, Json.scalarEq, Json.number?]

/-- `hash(value)` does not raise. -/
def Json.hashable : Json → Bool
  | .arr _ => false
  | .obj _ => false
  | _ => true

/-- An IP address as `ipaddress` returns it. -/
structure IpAddress where
  version : ℕ
  compressed : String

/-- What the code uses of Python's libraries. -/
structure Python where
  /-- `str(value)`. -/
  str : Json → String
  str_str : ∀ s, str (.str s) = s
  /-- `ipaddress.ip_address(text)`, or its `ValueError`. -/
  ipAddress : String → Option IpAddress
  /-- `parse_timestamp`. -/
  parseTimestamp : Json → Option ℤ
  /-- `format_timestamp`. -/
  formatTimestamp : ℤ → String
  /-- `_uid_digest`. -/
  uidDigest : String → String

namespace Discovery

/-! ### Topics -/

/-- `[A-Za-z0-9_-]`. -/
def isWordChar (c : Char) : Bool := c.isAlphanum || c == '_' || c == '-'

/-- `[A-Za-z0-9_-]+`. -/
def isWord (s : List Char) : Bool := !s.isEmpty && s.all isWordChar

/-- `[A-Za-z0-9]{20}`. -/
def isUid (s : String) : Bool := s.toList.length == 20 && s.toList.all Char.isAlphanum

/-- `parse_device_topic`: the product, the serial and the root of the topics. -/
def parseDeviceTopic (topic : Json) (productFilter : String) : Option (String × String × String) :=
  match topic with
  | .str topic =>
    match topic.toList.splitOn '/' with
    | dl :: product :: serial :: device :: rest =>
      -- a period of the expression matches all characters but line feeds
      if dl = "dl".toList ∧ isWord product = true ∧ isWord serial = true ∧
          device = "device".toList ∧ (rest.all (!·.contains '\n')) = true ∧
          String.ofList product = productFilter then
        let product := String.ofList product
        let serial := String.ofList serial
        some (product, serial, s!"dl/{product}/{serial}/device")
      else none
    | _ => none
  | _ => none

/-- **The topics that are accepted.** -/
theorem of_parseDeviceTopic {topic : Json} {productFilter product serial topicRoot : String}
    (h : parseDeviceTopic topic productFilter = some (product, serial, topicRoot)) :
    isWord product.toList = true ∧ isWord serial.toList = true ∧ product = productFilter := by
  rw [parseDeviceTopic.eq_def] at h
  split at h
  · split at h
    · split at h
      · next hok =>
          simp only [Option.some.injEq, Prod.mk.injEq] at h
          obtain ⟨rfl, rfl, -⟩ := h
          simp only [String.toList_ofList]
          exact ⟨hok.2.1, hok.2.2.1, hok.2.2.2.2.2⟩
      · cases h
    · cases h
  · cases h

/-- The payload of a message: bytes, or a value (a text is a string). -/
inductive Payload
  | bytes (data : Bytes)
  | value (v : Json)

/-- What `json.loads` does with a text: an integer with too many digits is another error than a
malformed text. -/
inductive Decoded
  | value (v : Json)
  | decodeError
  | valueError

/-- `json.loads`. -/
def decodeJson (text : List Char) : Decoded :=
  match JsonGrammar.jsonLoads text, JsonGrammar.loads none text with
  | some v, _ => .value v
  | none, none => .decodeError
  | none, some _ => .valueError

/-- The UID in the object of a start event. -/
def deviceStartUid (payload : Json) : Option String :=
  match payload with
  | .obj fields =>
    match Json.get fields "cmd", Json.get fields "uuid" with
    | .str cmd, .str uid =>
      if cmd = "DEVICE_START_EVENT" ∧ isUid uid = true then some uid else none
    | _, _ => none
  | _ => none

/-- `extract_device_start_uid`; the error is an integer with too many digits. -/
def extractDeviceStartUid (topic : Json) (payload : Payload) (productFilter : String) :
    Except Unit (Option String) :=
  match topic, parseDeviceTopic topic productFilter with
  | .str topic, some _ =>
    if ¬"/event/post".toList <:+ topic.toList then .ok none
    else
      let text : Option Json := match payload with
        | .bytes data => (decodeUtf8 data).map fun text => .str (String.ofList text)
        | .value v => some v
      match text with
      | none => .ok none
      | some (.str text) =>
        match decodeJson text.toList with
        | .value v => .ok (deviceStartUid v)
        | .decodeError => .ok none
        | .valueError => .error ()
      | some v => .ok (deviceStartUid v)
  | _, _ => .ok none

/-! ### Names of streams -/

/-- A part of a name: `re.sub(r"[^A-Za-z0-9]+", "_", text).strip("_").lower()`. -/
def namePart (text : String) : List Char :=
  (strip '_' (subRuns Char.isAlphanum '_' text.toList)).map Char.toLower

/-- `stream_name_for`. -/
def streamNameFor (product serial : String) : String :=
  String.ofList
    (("petlibro_".toList ++ namePart product ++ '_' :: namePart serial).take 96)

/-- `status_file_for`. -/
def statusFileFor (streamName : String) : String :=
  s!"/data/petlibro_camera_status_{streamName}.json"

/-! ### Entries -/

/-- An entry of the registry. -/
abbrev Entry := List (String × Json)

/-- `default_ready`. -/
def defaultReady : List (String × Json) :=
  [("mqtt_discovered", .bool false), ("uid_discovered", .bool false), ("ip_resolved", .bool false),
    ("stream_configured", .bool false), ("camera_online", .bool false)]

/-- `_ready`. -/
def ready (device : Entry) : List (String × Json) :=
  match Json.get device "ready" with
  | .obj fields => fields
  | _ => []

/-- `default_ready() | self._ready(device)`. -/
def fullReady (device : Entry) : List (String × Json) := Dict.update defaultReady (ready device)

/-- The UID, if it is one: `_device_has_uid`. -/
def deviceUid (device : Entry) : Option String :=
  match Json.get device "uid" with
  | .str uid => if isUid uid then some uid else none
  | _ => none

variable (py : Python)

/-- The name of the stream: the one that is stored, or a new one. -/
def storedName (device : Entry) (product serial : String) : String :=
  let streamName := Json.get device "stream_name"
  if streamName.truthy then py.str streamName else streamNameFor product serial

/-- `observe`: the key of the entry, the registry, and whether the entry is new. -/
def observe (devices : List (String × Entry)) (product serial topicRoot : String) (now : ℤ) :
    String × List (String × Entry) × Bool :=
  let key := s!"{product}/{serial}"
  let created := (devices.lookup key).isNone
  let device := (devices.lookup key).getD []
  let device := Dict.update device [
    ("product", .str product),
    ("serial", .str serial),
    ("mqtt_topic_root", .str topicRoot),
    ("last_mqtt_seen", .str (py.formatTimestamp now)),
    ("stream_name", .str (storedName py device product serial))]
  let ready := Dict.setItem (fullReady device) "mqtt_discovered" (.bool true)
  (key, Dict.setItem devices key (Dict.setItem device "ready" (.obj ready)), created)

/-- `set_uid`: whether something changed, and the entry. -/
def setUid (device : Entry) (uid source : String) : Bool × Entry :=
  let changed := !(Json.get device "uid").isStr uid || !(Json.get device "uid_source").isStr source
  let device := Dict.setItem (Dict.setItem device "uid" (.str uid)) "uid_source" (.str source)
  let ready := Dict.setItem (fullReady device) "uid_discovered" (.bool true)
  (changed, Dict.setItem device "ready" (.obj ready))

/-- `resolution_succeeded`: whether something changed, and the entry; or the `ValueError` for
something that is no address. -/
def resolutionSucceeded (device : Entry) (ipAddress : String) (now : ℤ) : Option (Bool × Entry) :=
  if (py.ipAddress ipAddress).isNone then none
  else
    let configured := ((ready device).lookup "stream_configured").getD (.bool false)
    let changed := !(Json.get device "ip_address").isStr ipAddress || !configured.truthy
    let device := Dict.update device [
      ("ip_address", .str ipAddress),
      ("ip_resolution_method", .str "lan_search3"),
      ("last_ip_resolved", .str (py.formatTimestamp now)),
      ("last_ip_attempt", .str (py.formatTimestamp now))]
    let ready := Dict.setItem (Dict.setItem (fullReady device) "ip_resolved" (.bool true))
      "stream_configured" (.bool true)
    some (changed, Dict.setItem device "ready" (.obj ready))

/-- `resolution_failed`. -/
def resolutionFailed (device : Entry) (now : ℤ) : Entry :=
  let device := Dict.setItem device "last_ip_attempt" (.str (py.formatTimestamp now))
  let ready := Dict.setItem (fullReady device) "ip_resolved" (.bool false)
  Dict.setItem device "ready" (.obj ready)

/-- `set_camera_online`: whether something changed, and the entry. -/
def setCameraOnline (device : Entry) (online : Bool) : Bool × Entry :=
  let ready := fullReady device
  let changed := !(Json.get ready "camera_online").scalarEq (.bool online)
  (changed, Dict.setItem device "ready" (.obj (Dict.setItem ready "camera_online" (.bool online))))

/-! ### What the operations keep -/

/-- Whether the stream is configured, as `public_payload` reads it. -/
def streamConfigured (device : Entry) : Json := Json.get (fullReady device) "stream_configured"

theorem nodup_fullReady (device : Entry) : ((fullReady device).map Prod.fst).Nodup :=
  Dict.nodup_update (by decide)

theorem get_setItem_of_ne {device : List (String × Json)} {k k' : String} {v : Json}
    (h : k' ≠ k) : Json.get (Dict.setItem device k v) k' = Json.get device k' := by
  rw [Json.get, Dict.lookup_setItem_of_ne h, Json.get]

theorem get_update_of_notMem {device e : List (String × Json)} {k : String}
    (h : k ∉ e.map Prod.fst) : Json.get (Dict.update device e) k = Json.get device k := by
  rw [Json.get, Dict.lookup_update_of_notMem h, Json.get]

theorem fullReady_congr {device device' : Entry}
    (h : Json.get device' "ready" = Json.get device "ready") :
    fullReady device' = fullReady device := by
  rw [fullReady, ready, h, fullReady, ready]

theorem streamConfigured_setItem {device : Entry} {fields : List (String × Json)}
    (hnodup : (fields.map Prod.fst).Nodup) {v : Json}
    (h : fields.lookup "stream_configured" = some v) :
    streamConfigured (Dict.setItem device "ready" (.obj fields)) = v := by
  have hready : ready (Dict.setItem device "ready" (.obj fields)) = fields := by
    rw [ready, Json.get, Dict.lookup_setItem_self, Option.getD_some]
  rw [streamConfigured, fullReady, hready, Json.get, Dict.lookup_update hnodup, h, Option.some_or,
    Option.getD_some]

/-- **A failed resolution** changes neither the address nor the readiness of the stream. -/
theorem resolutionFailed_keeps (device : Entry) (now : ℤ) :
    Json.get (resolutionFailed py device now) "ip_address" = Json.get device "ip_address" ∧
      streamConfigured (resolutionFailed py device now) = streamConfigured device := by
  refine ⟨?_, ?_⟩
  · rw [resolutionFailed, get_setItem_of_ne (by decide), get_setItem_of_ne (by decide)]
  · obtain ⟨v, hv⟩ : ∃ v, (fullReady device).lookup "stream_configured" = some v :=
      Dict.exists_lookup_update (by decide)
    rw [resolutionFailed, fullReady_congr (get_setItem_of_ne (by decide))]
    rw [streamConfigured_setItem (Dict.nodup_setItem (nodup_fullReady device))
      ((Dict.lookup_setItem_of_ne (by decide)).trans hv), streamConfigured, Json.get, hv,
      Option.getD_some]

/-- **A successful resolution** stores the address, which is one. -/
theorem resolutionSucceeded_eq_some {device device' : Entry} {ipAddress : String} {now : ℤ}
    {changed : Bool} (h : resolutionSucceeded py device ipAddress now = some (changed, device')) :
    (py.ipAddress ipAddress).isSome = true ∧ Json.get device' "ip_address" = .str ipAddress ∧
      Json.get device' "uid" = Json.get device "uid" := by
  rw [resolutionSucceeded] at h
  split at h
  · cases h
  next hip =>
    simp only [Option.some.injEq, Prod.mk.injEq] at h
    obtain ⟨-, rfl⟩ := h
    refine ⟨by simpa [Option.isNone_iff_eq_none, Option.isSome_iff_ne_none] using hip, ?_, ?_⟩
    · rw [get_setItem_of_ne (by decide)]
      simp [Dict.update, Json.get, Dict.lookup_setItem]
    · rw [get_setItem_of_ne (by decide), get_update_of_notMem (by simp)]

end Discovery

end PetlibroLocal
