import Mathlib.Data.Int.Notation
import Mathlib.Data.Nat.Notation

/-!
# The Dispensing Status

Home Assistant shows what the feeder's motor does. The status comes from the feeder's own grain
events, and from snapshots that the add-on asks for when the feeder connects and when Home
Assistant starts. `DispensingStatusProjector` (`dispensing_status.py`) holds the status and whether
it is known; the backend (`backend.py`) keeps the connection and the one pending request; the
controller (`plaf203.py`) connects the two.

The system takes one callback after the other. A message may be lost, late or repeated, so a
response may come at any time and carry any message ID. The add-on's sends and timers may fail. The
message ID of the request `k` is `ids k`.

What happens is also noted in a history, which nothing reads.
-/

namespace PetlibroLocal.Dispensing

/-! ### The projector -/

/-- `FoodOutputProgress`. -/
inductive FoodOutputProgress
  | idle
  | running
  | blocked
  | error
  | recovering
  deriving DecidableEq, Repr

/-- `RuntimeSnapshotRequest`. -/
structure RuntimeSnapshotRequest where
  messageId : String
  connectionGeneration : ℕ
  runtimeEventGeneration : ℕ
  reason : String
  deriving DecidableEq, Repr

/-- `RuntimeSnapshotResult`. -/
structure RuntimeSnapshotResult where
  request : RuntimeSnapshotRequest
  motorState : Option ℤ
  failureReason : Option String
  deriving DecidableEq, Repr

/-- A value that is published: to `food_output/progress`, or to
`food_output/progress_available`. -/
inductive Publication
  | progress (progress : FoodOutputProgress)
  | available (available : Bool)
  deriving DecidableEq, Repr

/-- `DispensingStatusProjector`, with what it has published, the newest first. -/
structure Projector where
  currentState : Option FoodOutputProgress
  available : Bool
  connectionGeneration : Option ℕ
  runtimeEventGeneration : ℕ
  published : List Publication
  deriving DecidableEq, Repr

namespace Projector

/-- `MOTOR_STATE_MAPPING`. -/
def motorStateMapping : ℤ → Option FoodOutputProgress
  | 1 => some .running
  | 2 => some .idle
  | 3 => some .recovering
  | _ => none

/-- `mark_unavailable`. -/
def markUnavailable (p : Projector) : Projector :=
  { p with available := false, published := .available false :: p.published }

/-- The projector after `__init__` and `initialize`. -/
def initialized : Projector := markUnavailable ⟨none, false, none, 0, []⟩

/-- `on_feeder_connected`. -/
def onFeederConnected (p : Projector) (connectionGeneration : ℕ) : Projector :=
  markUnavailable { p with connectionGeneration := some connectionGeneration }

/-- `on_feeder_disconnected`. -/
def onFeederDisconnected (p : Projector) : Projector :=
  markUnavailable { p with connectionGeneration := none }

/-- `runtime_snapshot_started`. -/
def runtimeSnapshotStarted (p : Projector) (request : RuntimeSnapshotRequest) : Projector :=
  if some request.connectionGeneration ≠ p.connectionGeneration then p else p.markUnavailable

/-- `_publish`. -/
def publish (p : Projector) (progress : FoodOutputProgress) : Projector :=
  { p with
    currentState := some progress
    available := true
    published := .available true :: .progress progress :: p.published }

/-- `apply_runtime_snapshot`. -/
def applyRuntimeSnapshot (p : Projector) (result : RuntimeSnapshotResult) : Projector :=
  if some result.request.connectionGeneration ≠ p.connectionGeneration then p
  else if result.request.runtimeEventGeneration ≠ p.runtimeEventGeneration then p
  else if result.failureReason.isSome then p.markUnavailable
  else
    match result.motorState.bind motorStateMapping with
    | none => p.markUnavailable
    | some progress => p.publish progress

/-- `apply_grain_event`: whether the event is accepted, and the projector after it. -/
def applyGrainEvent (p : Projector) (progress : FoodOutputProgress) (connectionGeneration : ℕ) :
    Bool × Projector :=
  if some connectionGeneration ≠ p.connectionGeneration then (false, p)
  else if progress ≠ .running ∧ progress ≠ .blocked ∧ progress ≠ .idle then (false, p)
  else (true, publish { p with runtimeEventGeneration := p.runtimeEventGeneration + 1 } progress)

end Projector

/-! ### The system -/

/-- `Code`, of an acknowledgement. -/
inductive Code
  | ok
  | error1
  | error2
  | error3
  | error4
  | errorDeviceNotBound
  deriving DecidableEq, Repr

/-- `ExecStep`. -/
inductive ExecStep
  | invalid
  | grainStart
  | grainEnd
  | grainBlocking
  deriving DecidableEq, Repr

/-- What has happened. -/
inductive Entry
  /-- The feeder went online. -/
  | connected
  /-- The feeder went offline. -/
  | disconnected
  /-- A grain event was accepted. -/
  | grain (progress : FoodOutputProgress)
  /-- A snapshot was requested. -/
  | requested (k : ℕ)
  /-- An attribute response came. -/
  | response (messageId : String) (code : Code) (motorState : ℤ)
  deriving DecidableEq, Repr

/-- The arguments of a timer for `_runtime_snapshot_timeout`. -/
structure SnapshotTimer where
  messageId : String
  connectionGeneration : ℕ
  deriving DecidableEq, Repr

/-- The timer of a request. -/
def RuntimeSnapshotRequest.timer (request : RuntimeSnapshotRequest) : SnapshotTimer :=
  ⟨request.messageId, request.connectionGeneration⟩

/-- The backend, the projector, the timers that are running and the history. -/
structure Controller where
  isOnline : Bool
  lastHeartbeatCount : ℤ
  connectionGeneration : ℕ
  runtimeSnapshotPending : Option RuntimeSnapshotRequest
  runtimeSnapshotTimeoutHandle : Option SnapshotTimer
  timers : List SnapshotTimer
  /-- How many snapshot requests have been made. -/
  requests : ℕ
  projector : Projector
  history : List Entry
  deriving DecidableEq, Repr

namespace Controller

/-- The add-on has started. -/
def init : Controller where
  isOnline := false
  lastHeartbeatCount := 0
  connectionGeneration := 0
  runtimeSnapshotPending := none
  runtimeSnapshotTimeoutHandle := none
  timers := []
  requests := 0
  projector := .initialized
  history := []

variable (s : Controller)

/-- An entry of the history. -/
def note (entry : Entry) : Controller :=
  { s with history := s.history ++ [entry] }

/-- `_clear_runtime_snapshot_pending`. -/
def clearRuntimeSnapshotPending : Controller :=
  match s.runtimeSnapshotTimeoutHandle with
  | none => { s with runtimeSnapshotPending := none }
  | some timer => { s with
      runtimeSnapshotPending := none
      runtimeSnapshotTimeoutHandle := none
      timers := s.timers.erase timer }

/-- `runtime_snapshot_result_callback`. -/
def snapshotResult (result : RuntimeSnapshotResult) : Controller :=
  { s with projector := s.projector.applyRuntimeSnapshot result }

/-- How far a request gets: its timer cannot be set, or it cannot be sent, or it is sent. -/
inductive Attempt
  | timerFails
  | sendFails
  | sent
  deriving DecidableEq, Repr

/-- The request that is made next. -/
def nextRequest (ids : ℕ → String) (s : Controller) (reason : String) : RuntimeSnapshotRequest where
  messageId := ids s.requests
  connectionGeneration := s.connectionGeneration
  runtimeEventGeneration := s.projector.runtimeEventGeneration
  reason := reason

/-- `run_in`, for the timeout of a request. -/
def runIn (request : RuntimeSnapshotRequest) : Controller :=
  { s with
    runtimeSnapshotTimeoutHandle := some request.timer
    timers := request.timer :: s.timers }

/-- `request_runtime_snapshot`, up to the timer. -/
def startRuntimeSnapshot (ids : ℕ → String) (s : Controller) (reason : String) : Controller :=
  let request := nextRequest ids s reason
  { s.clearRuntimeSnapshotPending with
    runtimeSnapshotPending := some request
    requests := s.requests + 1
    projector := s.projector.runtimeSnapshotStarted request
    history := s.history ++ [.requested s.requests] }

/-- `request_runtime_snapshot`. -/
def requestRuntimeSnapshot (ids : ℕ → String) (s : Controller) (reason : String)
    (attempt : Attempt) : Controller :=
  if s.isOnline = false then s
  else
    let request := nextRequest ids s reason
    let failed : RuntimeSnapshotResult := ⟨request, none, some "runtime snapshot request failed"⟩
    let started := s.startRuntimeSnapshot ids reason
    match attempt with
    | .timerFails => started.clearRuntimeSnapshotPending.snapshotResult failed
    | .sendFails => (started.runIn request).clearRuntimeSnapshotPending.snapshotResult failed
    | .sent => started.runIn request

/-- The feeder goes offline: the pending request is dropped, and `_went_offline` is called. -/
def goOffline : Controller :=
  { s.clearRuntimeSnapshotPending with
    isOnline := false
    projector := s.projector.onFeederDisconnected
    history := s.history ++ [.disconnected] }

/-- The feeder goes online, and `_went_online` is called. -/
def goOnline : Controller :=
  { s with
    isOnline := true
    connectionGeneration := s.connectionGeneration + 1
    projector := s.projector.onFeederConnected (s.connectionGeneration + 1)
    history := s.history ++ [.connected] }

/-- A heartbeat with a smaller count: the feeder has restarted. -/
def checkRestart (count : ℤ) : Controller :=
  if count < s.lastHeartbeatCount ∧ s.isOnline = true then s.goOffline else s

/-- A feeder that is offline is brought online. The request for its configuration may fail. -/
def bringOnline (ids : ℕ → String) (s : Controller) (configSent : Bool) (attempt : Attempt) :
    Controller :=
  if s.isOnline = false ∧ configSent = true then
    s.goOnline.requestRuntimeSnapshot ids "feeder connected" attempt
  else s

/-- `_heartbeat_cb`. -/
def heartbeatCb (ids : ℕ → String) (s : Controller) (count : ℤ) (configSent : Bool)
    (attempt : Attempt) : Controller :=
  { s.checkRestart count with lastHeartbeatCount := count }.bringOnline ids configSent attempt

/-- `_heartbeat_watchdog_trigger`. -/
def heartbeatWatchdogTrigger : Controller :=
  if s.isOnline then s.goOffline else s

/-- `_device_reboot_cb`, `_restore_cb` and `_wifi_reconnect_service_cb`. -/
def offlineAckCb (code : Code) : Controller :=
  if code ≠ .ok then s else s.goOffline

/-- The progress that `_grain_output_event_cb` reports for a step. -/
def grainProgress : ExecStep → Option FoodOutputProgress
  | .grainStart => some .running
  | .grainBlocking => some .blocked
  | .grainEnd => some .idle
  | .invalid => none

/-- `_food_output_progress`. -/
def foodOutputProgress (progress : FoodOutputProgress) : Controller :=
  match s.projector.applyGrainEvent progress s.connectionGeneration with
  | (true, projector) => { s with projector, history := s.history ++ [.grain progress] }
  | (false, projector) => { s with projector }

/-- `_grain_output_event_cb`. -/
def grainOutputEventCb (step : ExecStep) : Controller :=
  match grainProgress step with
  | some progress => s.foodOutputProgress progress
  | none => s

/-- `_home_assistant_status_cb`, of the birth message. -/
def homeAssistantBirth (ids : ℕ → String) (s : Controller) (attempt : Attempt) : Controller :=
  { s with projector := s.projector.markUnavailable }.requestRuntimeSnapshot ids
    "Home Assistant birth" attempt

/-- `_attr_get_service_cb`, behind the telemetry. -/
def snapshotResponse (messageId : String) (code : Code) (motorState : ℤ) :
    Controller :=
  match s.runtimeSnapshotPending with
  | none => s
  | some pending =>
    if messageId ≠ pending.messageId then s
    else if pending.connectionGeneration ≠ s.connectionGeneration then
      s.clearRuntimeSnapshotPending
    else if code ≠ .ok then
      s.clearRuntimeSnapshotPending.snapshotResult
        ⟨pending, none, some "feeder rejected runtime snapshot request"⟩
    else s.clearRuntimeSnapshotPending.snapshotResult ⟨pending, some motorState, none⟩

/-- `_attr_get_service_cb`. -/
def attrGetServiceCb (messageId : String) (code : Code) (motorState : ℤ) :
    Controller :=
  (s.note (.response messageId code motorState)).snapshotResponse messageId code motorState

/-- `_runtime_snapshot_timeout`. -/
def runtimeSnapshotTimeout (timer : SnapshotTimer) : Controller :=
  match s.runtimeSnapshotPending with
  | none => s
  | some pending =>
    if timer.messageId ≠ pending.messageId ∨
        timer.connectionGeneration ≠ pending.connectionGeneration then s
    else
      snapshotResult
        { s with runtimeSnapshotPending := none, runtimeSnapshotTimeoutHandle := none }
        ⟨pending, none, some "runtime snapshot request timed out"⟩

/-- A timer ends. A cancelled timer does not. -/
def timerEnds (timer : SnapshotTimer) : Controller :=
  if timer ∈ s.timers then
    { s with timers := s.timers.erase timer }.runtimeSnapshotTimeout timer
  else s

/-! ### Runs -/

/-- What the system reacts to. -/
inductive Event
  | heartbeat (count : ℤ) (configSent : Bool) (attempt : Attempt)
  | watchdog
  | reboot (code : Code)
  | restore (code : Code)
  | wifiReconnect (code : Code)
  | grainOutput (step : ExecStep)
  | homeAssistantBirth (attempt : Attempt)
  | requestSnapshot (reason : String) (attempt : Attempt)
  | attrResponse (messageId : String) (code : Code) (motorState : ℤ)
  | timeout (timer : SnapshotTimer)
  deriving DecidableEq, Repr

/-- One callback. -/
def step (ids : ℕ → String) (s : Controller) : Event → Controller
  | .heartbeat count configSent attempt => s.heartbeatCb ids count configSent attempt
  | .watchdog => s.heartbeatWatchdogTrigger
  | .reboot code => s.offlineAckCb code
  | .restore code => s.offlineAckCb code
  | .wifiReconnect code => s.offlineAckCb code
  | .grainOutput step => s.grainOutputEventCb step
  | .homeAssistantBirth attempt => s.homeAssistantBirth ids attempt
  | .requestSnapshot reason attempt => s.requestRuntimeSnapshot ids reason attempt
  | .attrResponse messageId code motorState => s.attrGetServiceCb messageId code motorState
  | .timeout timer => s.timerEnds timer

/-- The system after a run from the start. -/
def run (ids : ℕ → String) (events : List Event) : Controller := events.foldl (step ids) init

end Controller

end PetlibroLocal.Dispensing
