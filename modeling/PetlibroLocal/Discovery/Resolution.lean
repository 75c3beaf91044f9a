import Mathlib.Data.Finset.Basic
import PetlibroLocal.Discovery.Registry

/-!
# Resolving Addresses

The app looks the address of a camera up by its UID (`PetlibroDiscovery` of
`device_discovery.py`). A resolution is scheduled, a timer submits a job to the executor, and the
result of the job comes back as a callback. Which resolutions are under way is kept in a set of
keys and in a table of attempts.

The system takes one callback after the other. The results of jobs are arbitrary values; they come
late, out of order, and more than once. Beside the state of the app, the model keeps the timers
that are scheduled, the jobs that have no result yet, those that have one, and all attempts so far,
the newest first. A callback reads the clock once. The set of futures is left out: only `terminate`
reads it. So are the logs and what is published.
-/

namespace PetlibroLocal.Discovery

/-! ### Results -/

/-- The counters in the statistics of the resolver. -/
def statCounters : List String :=
  ["lan_search_w3_1_sent", "lan_search_w3_2_sent", "knock2_sent", "lan_search_r_received",
    "knock_rr2_received", "wrong_uid_rejected", "nonce_mismatch_rejected", "broadcasts_sent",
    "unicasts_sent", "packets_received", "responses_rejected", "send_errors"]

/-- A number that is not negative; truth values do not count. -/
def isCount : Json → Bool
  | .int n => 0 ≤ n
  | _ => false

/-- `_valid_resolver_result`: the fields of the result, if it is valid. -/
def validResolverResult (result : Json) : Option (Bool × List (String × Json)) :=
  match result with
  | .obj fields =>
    match Json.get fields "resolved", Json.get fields "method", Json.get fields "stats" with
    | .bool resolved, .str _, .obj stats =>
      if isCount (Json.get fields "elapsed_ms") = true ∧
          (statCounters.all fun key => isCount (Json.get stats key)) = true then
        match Json.get stats "deadline_exceeded" with
        | .bool _ => some (resolved, fields)
        | _ => none
      else none
    | _, _, _ => none
  | _ => none

/-- What is used of a sanitised result. -/
inductive ResolverResult
  | resolved (ipAddress : String)
  | failed (errorCode : String)

/-- `_sanitized_resolver_result`; the statistics are for the log. -/
def sanitizedResolverResult (py : Python) (result : Json) : ResolverResult :=
  match validResolverResult result with
  | none => .failed "invalid_helper_output"
  | some (true, fields) => .resolved (py.str ((fields.lookup "ip_address").getD (.str "")))
  | some (false, fields) =>
    .failed (py.str ((fields.lookup "error_code").getD (.str "invalid_helper_output")))

/-! ### Resolutions under way -/

/-- A job of the resolver. -/
structure Job where
  key : String
  token : String
  uid : String
  cachedIp : Option String
  candidates : List String
  deriving DecidableEq

/-- The resolutions: `resolving` and `resolve_attempts` of the app, the timers and jobs that are
outstanding, the jobs whose result was delivered, and all attempts. -/
structure Flights where
  resolving : Finset String
  resolveAttempts : List (String × String × String)
  timers : List String
  jobs : List Job
  delivered : List Job
  attempts : List Job

namespace Flights

/-- Nothing is under way. -/
def none : Flights := ⟨∅, [], [], [], [], []⟩

variable (f : Flights)

/-- The timers and jobs that are outstanding for a device. -/
def outstanding (key : String) : ℕ := f.timers.count key + f.jobs.countP (·.key = key)

/-- The latest attempt for a device. -/
def latest (key : String) : Option Job := f.attempts.find? (·.key = key)

/-- A timer for `_resolve`. -/
def schedule (key : String) : Flights :=
  { f with resolving := insert key f.resolving, timers := key :: f.timers }

/-- The timer fires. -/
def fire (key : String) : Flights := { f with timers := f.timers.erase key }

/-- `self.resolving.discard(key)`. -/
def discard (key : String) : Flights := { f with resolving := f.resolving.erase key }

/-- `self.resolve_attempts.pop(key, None)`. -/
def popAttempt (key : String) : Flights :=
  { f with resolveAttempts := Dict.pop f.resolveAttempts key }

/-- `self.resolve_attempts[key] = attempt`. -/
def begin (job : Job) (attempt : String × String) : Flights :=
  { f with
    resolveAttempts := Dict.setItem f.resolveAttempts job.key attempt
    attempts := job :: f.attempts }

/-- The executor takes the job. -/
def submit (job : Job) : Flights := { f with jobs := job :: f.jobs }

/-- The result of a job is delivered for the first time. -/
def deliver (job : Job) : Flights :=
  { f with jobs := f.jobs.erase job, delivered := job :: f.delivered }

end Flights

/-! ### The app -/

/-- What the app reads of its arguments. -/
structure Settings where
  enabled : Bool
  productFilter : String
  refreshMinutes : ℤ
  retrySeconds : ℤ

/-- The app and its resolutions. -/
structure World where
  devices : List (String × Entry)
  flushHandle : Bool
  configDirty : Bool
  uidWarningScheduled : Finset String
  uidMissingWarned : Finset String
  flights : Flights

namespace World

variable (py : Python) (o : Settings) (s : World)

/-- `_schedule_flush`. -/
def scheduleFlush (configDirty : Bool) : World :=
  { s with configDirty := s.configDirty || configDirty, flushHandle := true }

/-- `_flush`; `applied` says whether the configuration was applied, if it had to be. -/
def flush (applied : Bool) : World :=
  let s := { s with flushHandle := false }
  if !s.configDirty then s
  else if applied then { s with configDirty := false }
  else { s with flushHandle := true }

/-- `_schedule_uid_missing_warning`. -/
def scheduleUidMissingWarning (key : String) : World :=
  if key ∈ s.uidWarningScheduled ∨ key ∈ s.uidMissingWarned then s
  else { s with uidWarningScheduled := insert key s.uidWarningScheduled }

/-- `_warn_uid_missing`. -/
def warnUidMissing (key : String) : World :=
  let s := { s with uidWarningScheduled := s.uidWarningScheduled.erase key }
  match s.devices.lookup key with
  | none => s
  | some device =>
    if (deviceUid device).isSome ∨ key ∈ s.uidMissingWarned then s
    else { s with uidMissingWarned := insert key s.uidMissingWarned }

/-- `initialize`. -/
def start (devices : List (String × Entry)) : World :=
  let s : World := ⟨devices, false, false, ∅, ∅, .none⟩
  devices.foldl (fun s (key, device) =>
    if (deviceUid device).isNone then s.scheduleUidMissingWarning key else s) s

/-- The address was given by hand. -/
def overridden (device : Entry) : Bool :=
  (Json.get device "manual_override").truthy && (Json.get device "ip_address").truthy

/-- `_resolution_due`. -/
def resolutionDue (device : Entry) (now : ℤ) (unhealthy : Bool) : Bool :=
  match Json.get device "uid" with
  | .str uid =>
    if uid.toList.length ≠ 20 then false
    else if overridden device then false
    else if (py.parseTimestamp (Json.get device "last_ip_attempt")).any
        (now - · < o.retrySeconds * 1000000) then false
    else
      let expired := (py.parseTimestamp (Json.get device "last_ip_resolved")).all
        (o.refreshMinutes * 60000000 ≤ now - ·)
      !(Json.get device "ip_address").truthy || expired || unhealthy
  | _ => false

/-- `_schedule_resolution`. -/
def scheduleResolution (key : String) (force : Bool) (now : ℤ) : World :=
  if key ∈ s.flights.resolving then s
  else
    match s.devices.lookup key with
    | none => s
    | some device =>
      match Json.get device "uid" with
      | .str _ =>
        if overridden device then s
        else if !force && !resolutionDue py o device now false then s
        else { s with flights := s.flights.schedule key }
      | _ => s

/-- `_mqtt_device_event`. -/
def mqttDeviceEvent (topic : Json) (payload : Payload) (now : ℤ) : World :=
  match parseDeviceTopic topic o.productFilter with
  | none => s
  | some (product, serial, topicRoot) =>
    let (key, devices, created) := observe py s.devices product serial topicRoot now
    let s := { s with devices := devices }
    match extractDeviceStartUid topic payload o.productFilter with
    | .error _ => s
    | .ok none =>
      let s := if created then s.scheduleUidMissingWarning key else s
      s.scheduleFlush created
    | .ok (some uid) =>
      let (changed, device) :=
        setUid ((s.devices.lookup key).getD []) uid "DEVICE_START_EVENT.uuid"
      let s := { s with devices := Dict.setItem s.devices key device }
      let s :=
        if changed then { s with uidMissingWarned := s.uidMissingWarned.erase key } else s
      (s.scheduleFlush (created || changed)).scheduleResolution py o key false now

/-- `requested in {key, device.get("serial")}`, unless this raises a `TypeError`. -/
def isRequested (requested : Json) (key : String) (device : Entry) : Option Bool :=
  let serial := Json.get device "serial"
  if serial.hashable && requested.hashable then
    some (requested.isStr key || requested.scalarEq serial)
  else none

/-- The loop of `_manual_refresh_event`; an exception ends it. -/
def refreshDevices (requested : Json) (now : ℤ) : List (String × Entry) → World → World
  | [], s => s
  | (key, device) :: rest, s =>
    match requested with
    | .null => refreshDevices requested now rest (s.scheduleResolution py o key true now)
    | _ =>
      match isRequested requested key device with
      | none => s
      | some true => refreshDevices requested now rest (s.scheduleResolution py o key true now)
      | some false => refreshDevices requested now rest s

/-- `_manual_refresh_event`. -/
def manualRefreshEvent (payload : Payload) (now : ℤ) : World :=
  match payload with
  | .value (.str text) =>
    if text = "" ∨ text = "all" then s.refreshDevices py o .null now s.devices
    else
      match decodeJson text.toList with
      | .decodeError => s.refreshDevices py o (.str text) now s.devices
      | .valueError => s
      | .value (.obj fields) =>
        s.refreshDevices py o (Json.get fields "serial") now s.devices
      | .value _ => s.refreshDevices py o .null now s.devices
  | _ => s.refreshDevices py o .null now s.devices

/-- One device of `_periodic`; `health` is what `_camera_health` says of it. -/
def checkDevice (key : String) (health : Bool × Bool) (now : ℤ) : World × Bool :=
  match s.devices.lookup key with
  | none => (s, false)
  | some device =>
    let (changed, device) := setCameraOnline device health.1
    let s := { s with devices := Dict.setItem s.devices key device }
    (if resolutionDue py o device now health.2 then s.scheduleResolution py o key false now
      else s, changed)

/-- The loop of `_periodic`. -/
def checkDevices (health : String → Bool × Bool) (now : ℤ) : List String → World → World × Bool
  | [], s => (s, false)
  | key :: keys, s =>
    let (s, changed) := s.checkDevice py o key (health key) now
    let (s, others) := checkDevices health now keys s
    (s, changed || others)

/-- `_periodic`. -/
def periodic (health : String → Bool × Bool) (now : ℤ) : World :=
  let (s, changed) := s.checkDevices py o health now (s.devices.map Prod.fst)
  if changed then s.scheduleFlush false else s

/-- `_known_candidate_ips`. -/
def knownCandidateIps (currentKey : String) :
    List String → List (String × Entry) → List String
  | candidates, [] => candidates
  | candidates, (key, device) :: rest =>
    if key = currentKey then knownCandidateIps currentKey candidates rest
    else
      match py.ipAddress (py.str (Json.get device "ip_address")) with
      | none => knownCandidateIps currentKey candidates rest
      | some parsed =>
        let candidates :=
          if parsed.version = 4 ∧ parsed.compressed ∉ candidates then
            candidates ++ [parsed.compressed]
          else candidates
        if candidates.length ≥ 32 then candidates
        else knownCandidateIps currentKey candidates rest

/-- The job for a device. -/
def jobFor (key token uid : String) (device : Entry) : Job where
  key := key
  token := token
  uid := uid
  cachedIp :=
    let ip := Json.get device "ip_address"
    if ip.truthy ∧ py.str ip ≠ "" then some (py.str ip) else none
  candidates := knownCandidateIps py key [] s.devices

/-- `_resolve`; `raises` says whether the submission raises. -/
def resolve (key token : String) (raises : Bool) (now : ℤ) : World :=
  match s.devices.lookup key with
  | none => { s with flights := s.flights.discard key }
  | some device =>
    match deviceUid device with
    | none => { s with flights := s.flights.discard key }
    | some uid =>
      let attempt := (token, py.uidDigest uid)
      let job := s.jobFor py key token uid device
      let s := { s with flights := s.flights.begin job attempt }
      if raises then
        let s := if s.flights.resolveAttempts.lookup key = some attempt then
            { s with flights := (s.flights.popAttempt key).discard key }
          else s
        let device := resolutionFailed py device now
        scheduleFlush { s with devices := Dict.setItem s.devices key device } false
      else { s with flights := s.flights.submit job }

/-- A result that is not stale is stored. -/
def applyResult (key : String) (device : Entry) (result : Json) (now : ℤ) : World :=
  let failed :=
    scheduleFlush
      { s with devices := Dict.setItem s.devices key (resolutionFailed py device now) } false
  match sanitizedResolverResult py result with
  | .failed _ => failed
  | .resolved ipAddress =>
    match resolutionSucceeded py device ipAddress now with
    -- the `ValueError` is caught
    | none => failed
    | some (changed, device') =>
      let isNull (v : Json) := v.scalarEq .null
      scheduleFlush { s with devices := Dict.setItem s.devices key device' }
        (changed || isNull (Json.get device "ip_address") &&
          !isNull (Json.get device' "ip_address"))

/-- The result is for the attempt that is expected, and for the device as it is now. -/
def isCurrent (expected : Option (String × String)) (token : String) (device : Entry) : Bool :=
  match expected, deviceUid device with
  | some (expectedToken, digest), some uid =>
    expectedToken == token && digest == py.uidDigest uid
  | _, _ => false

/-- The body of `_resolve_complete`: a stale result is discarded. -/
def storeResult (key token : String) (result : Json) (now : ℤ) : World :=
  match s.devices.lookup key with
  | none => s
  | some device =>
    if isCurrent py (s.flights.resolveAttempts.lookup key) token device then
      s.applyResult py key device result now
    else s

/-- `_resolve_complete`; at the end the attempt is over, if it is the one of the result. -/
def resolveComplete (key token : String) (result : Json) (now : ℤ) : World :=
  let expected := s.flights.resolveAttempts.lookup key
  let s := s.storeResult py key token result now
  if (expected.any fun attempt => attempt.1 = token) ∧
      s.flights.resolveAttempts.lookup key = expected then
    { s with flights := (s.flights.popAttempt key).discard key }
  else s

/-! ### Runs -/

/-- What calls the app. -/
inductive Event
  | mqttDevice (topic : Json) (payload : Payload) (now : ℤ)
  | manualRefresh (payload : Payload) (now : ℤ)
  | periodic (health : String → Bool × Bool) (now : ℤ)
  | timer (key token : String) (raises : Bool) (now : ℤ)
  | complete (job : Job) (result : Json) (now : ℤ)
  | flush (applied : Bool)
  | warnUidMissing (key : String)

/-- One callback, if it can happen: a timer has to be scheduled, the token of an attempt is new,
and only the results of jobs are delivered. -/
def step? : Event → Option World
  | .mqttDevice topic payload now =>
    if o.enabled then some (s.mqttDeviceEvent py o topic payload now) else none
  | .manualRefresh payload now => some (s.manualRefreshEvent py o payload now)
  | .periodic health now => some (s.periodic py o health now)
  | .timer key token raises now =>
    if key ∈ s.flights.timers ∧ ∀ job ∈ s.flights.attempts, job.token ≠ token then
      some (resolve py { s with flights := s.flights.fire key } key token raises now)
    else none
  | .complete job result now =>
    if job ∈ s.flights.jobs then
      some (resolveComplete py { s with flights := s.flights.deliver job } job.key job.token
        result now)
    else if job ∈ s.flights.delivered then
      some (s.resolveComplete py job.key job.token result now)
    else none
  | .flush applied => if s.flushHandle then some (s.flush applied) else none
  | .warnUidMissing key =>
    if key ∈ s.uidWarningScheduled then some (s.warnUidMissing key) else none

/-- A sequence of callbacks. -/
def run? : List Event → World → Option World
  | [], s => some s
  | e :: es, s => (s.step? py o e).bind (run? es)

/-- The address that is stored for a device. -/
def ipAddress (key : String) : Option Json := (s.devices.lookup key).map (Json.get · "ip_address")

/-- Whether the stream of a device is configured. -/
def streamConfigured (key : String) : Option Json :=
  (s.devices.lookup key).map Discovery.streamConfigured

end World

end PetlibroLocal.Discovery
