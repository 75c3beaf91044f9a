import PetlibroLocal.Feeder.Requests

/-!
# The State Coordinator

`FeederStateCoordinator` serializes persistent writes: at most one write is pending, others
wait in a queue, and a write is verified by reading the feeder's state back. All its methods
run on one thread, as callbacks of the host: messages of the feeder, requests of the user,
timers, and the completions of calls to the state agent.

## Conventions

* `World` is the coordinator together with what the host holds for it (armed timers, calls
  to the agent that have not completed) and with a `log` of what happened, in order. The log
  and the counters are for the statements only; no method reads them.
* `Host` says how each call out of the coordinator ends: the publisher and the executor may
  raise, the projection of a truth into Home Assistant may fail, and the availability sink
  may call `request_persistent_write` again. Calls are numbered by `tick`.
* Names that the code draws at random (IDs of pending writes, operation tokens, timer
  handles) are fresh numbers. A request is told apart from an equal one by its `ticket`.
* A timer fires, and a call completes, only while the host holds it. Delays are left out, so
  every order of callbacks is a run.
* `_applying_feeder_truth` holds only while the truth sink runs and refuses every request
  made from inside it; such requests are left out together with the flag. So are the texts
  for the logger and the fields that only the logger reads, such as `MqttAck.detail`.
* The availability sink is told `False` only where a request made from inside it cannot start
  a write; `offer` is `request_persistent_write` without that branch, and
  `World.Barred.sinkUnavailable_eq` says that nothing is lost.
-/

namespace PetlibroLocal

/-! ### Data -/

/-- `FeederState`. -/
inductive FeederState
  | disconnected
  | connected
  | reconciling
  | ready
  | pendingWrite
  | verifyingWrite
  | diverged
  deriving DecidableEq, Repr

/-- `PendingStage`. -/
inductive PendingStage
  | preparing
  | awaitingAck
  | verifying
  deriving DecidableEq, Repr

/-- A request with the number of the call of `request_persistent_write` that brought it. -/
structure QueuedWrite where
  ticket : ℕ
  request : PersistentWriteRequest

/-- The control of the request. -/
def QueuedWrite.control (w : QueuedWrite) : String := w.request.control

/-- `PendingWrite`. -/
structure PendingWrite where
  id : ℕ
  write : QueuedWrite
  stage : PendingStage
  receipt : Option CommandReceipt := none
  predicate : Option TruthPredicate
  retryCount : ℕ := 0
  lastObservedTruth : Option CoreTruth := none

/-- The write with another request in its place. -/
def PendingWrite.carrying (p : PendingWrite) (w : QueuedWrite) : PendingWrite :=
  { p with write := w }

/-- The write after another failed attempt to verify it. -/
def PendingWrite.retried (p : PendingWrite) : PendingWrite :=
  { p with retryCount := p.retryCount + 1 }

/-- The write after a truth was read back for it. -/
def PendingWrite.observing (p : PendingWrite) (truth : CoreTruth) : PendingWrite :=
  { p with lastObservedTruth := some truth }

/-- The methods of the state agent. -/
inductive AgentMethod
  | core
  | coreRaw
  | revisions
  deriving DecidableEq, Repr

/-- What a call to the state agent is for. -/
inductive AgentPurpose
  | heartbeat
  | reconcile
  | writePreflight
  | verify
  | planSnapshot
  deriving DecidableEq, Repr

/-- A call that was submitted to the executor, with what its completion carries. -/
structure AgentCall where
  token : ℕ
  generation : ℕ
  method : AgentMethod
  purpose : AgentPurpose
  deriving DecidableEq, Repr

/-- The result of a call: an error, or a value of some type. -/
inductive AgentResult
  | failed
  | truth (t : CoreTruth)
  | revisions (r : FeederRevisions)
  | other
  deriving DecidableEq, Repr

/-- The two timers of the coordinator. -/
inductive TimerKind
  | ackTimeout
  | verification
  deriving DecidableEq, Repr

/-- A timer that the host holds. -/
structure Timer where
  handle : ℕ
  kind : TimerKind
  pendingId : ℕ
  deriving DecidableEq, Repr

/-! ### The log -/

/-- How a published write ended, other than by a disconnect or a shutdown. -/
inductive Resolution
  | rejected
  | ackTimeout
  | unverified
  | verified (predicate : TruthPredicate) (truth : CoreTruth)
  | diverged (predicate : Option TruthPredicate) (truth : CoreTruth)
  | failed

/-- Where an accepted request went: it started, it joined the queue, it took the place of a
queued write, or that of the pending one. -/
inductive Placement
  | started
  | queued
  | replacedQueued (old : QueuedWrite)
  | replacedPending (old : QueuedWrite)

/-- What is recorded of a run. -/
inductive LogEntry
  | available (value : Bool)
  | accepted (w : QueuedWrite) (place : Placement)
  | dequeued (w : QueuedWrite)
  | unprepared (w : QueuedWrite)
  | published (pendingId : ℕ) (w : QueuedWrite) (now : ℕ) (truth : CoreTruth)
      (receipt : Option CommandReceipt)
  | acknowledged (pendingId : ℕ) (ack : MqttAck)
  | submitted (call : AgentCall)
  | completed (call : AgentCall) (result : AgentResult) (generation : ℕ) (credited : Bool)
  | resolved (pendingId : ℕ) (w : QueuedWrite) (how : Resolution)
  | cleared

/-! ### State -/

/-- `FeederStateCoordinator`. Of the plan snapshot callbacks only their number matters. -/
structure FeederStateCoordinator where
  state : FeederState := .disconnected
  mqttConnected : Bool := false
  stateApiHealthy : Bool := false
  latestTruth : Option CoreTruth := none
  latestRevisions : Option FeederRevisions := none
  pendingWrite : Option PendingWrite := none
  queuedWrites : List QueuedWrite := []
  generation : ℕ := 0
  operationToken : Option ℕ := none
  refreshRequested : Bool := false
  planSnapshotCallbacks : ℕ := 0
  ackTimeoutHandle : Option ℕ := none
  verifyTimerHandle : Option ℕ := none

/-- The coordinator, what the host holds for it, and the record of the run. -/
structure World extends FeederStateCoordinator where
  timers : List Timer := []
  calls : List AgentCall := []
  nextId : ℕ := 0
  tick : ℕ := 0
  log : List LogEntry := []

/-- How the calls out of the coordinator end. -/
structure Host where
  publisher : ℕ → Option CommandReceipt
  truthSink : ℕ → Bool
  executor : ℕ → Bool
  reenter : ℕ → List PersistentWriteRequest
  clock : ℕ → ℕ
  planCollectionPublisher : Bool

namespace World

variable (host : Host) (s : World)

/-- Records an entry. -/
def note (e : LogEntry) : World := { s with log := s.log ++ [e] }

/-- The pending write is `p`. -/
def withPending (p : PendingWrite) : World := { s with pendingWrite := some p }

/-- No write is pending. -/
def dropPending : World := { s with pendingWrite := none }

/-- The queue is `queue`. -/
def withQueue (queue : List QueuedWrite) : World := { s with queuedWrites := queue }

/-- `_transition`. -/
def transition (new : FeederState) : World := { s with state := new }

/-! ### Timers -/

/-- `_cancel_ack_timeout`. -/
def cancelAckTimeout : World :=
  match s.ackTimeoutHandle with
  | none => s
  | some handle =>
    { s with timers := s.timers.filter (·.handle ≠ handle), ackTimeoutHandle := none }

/-- `_cancel_pending_timers`. -/
def cancelPendingTimers : World :=
  let s := s.cancelAckTimeout
  match s.verifyTimerHandle with
  | none => s
  | some handle =>
    { s with timers := s.timers.filter (·.handle ≠ handle), verifyTimerHandle := none }

/-- `_schedule_verification`. -/
def scheduleVerification : World :=
  match s.pendingWrite with
  | none => s
  | some p =>
    { s with
      timers := s.timers ++ [⟨s.nextId, .verification, p.id⟩]
      verifyTimerHandle := some s.nextId
      nextId := s.nextId + 1 }

/-! ### Accepting requests -/

/-- What `request_persistent_write` does with a request. -/
inductive Decision
  | refuse
  | coalesce (p : PendingWrite)
  | queue
  | start

/-- The checks of `request_persistent_write`, in order. -/
def decision (r : PersistentWriteRequest) : Decision :=
  if !s.mqttConnected || !s.stateApiHealthy then .refuse
  else
    match s.pendingWrite with
    | some p =>
      if p.stage = .preparing ∧ p.write.control = r.control then .coalesce p else .queue
    | none =>
      if s.state ≠ .ready ∨ s.latestTruth.isNone then .refuse
      else if s.operationToken.isSome then .queue
      else .start

/-- The queue with its last write of the same control replaced, and that write. -/
def replaceLast (w : QueuedWrite) : List QueuedWrite → Option (QueuedWrite × List QueuedWrite)
  | [] => none
  | q :: rest =>
    match replaceLast w rest with
    | some (old, rest') => some (old, q :: rest')
    | none => if q.control = w.control then some (q, w :: rest) else none

/-- `MAX_QUEUED_WRITES`. -/
def maxQueuedWrites : ℕ := 8

/-- `_queue_write`. -/
def queueWrite (w : QueuedWrite) : Bool × World :=
  match replaceLast w s.queuedWrites with
  | some (old, queue) =>
    (true, (s.withQueue queue).note (.accepted w (.replacedQueued old)))
  | none =>
    if maxQueuedWrites ≤ s.queuedWrites.length then (false, s)
    else (true, (s.withQueue (s.queuedWrites ++ [w])).note (.accepted w .queued))

/-- The write that a request becomes. -/
def ticketed (r : PersistentWriteRequest) : QueuedWrite := ⟨s.nextId, r⟩

/-- The world in which the next ticket has been drawn. -/
def drawn : World := { s with nextId := s.nextId + 1 }

/-- `request_persistent_write` of a request that does not start. -/
def offer (r : PersistentWriteRequest) : Bool × World :=
  match s.decision r with
  | .refuse => (false, s.drawn)
  | .coalesce p =>
    (true, (s.drawn.withPending (p.carrying (s.ticketed r))).note
      (.accepted (s.ticketed r) (.replacedPending p.write)))
  | .queue => s.drawn.queueWrite (s.ticketed r)
  | .start => (false, s.drawn)

/-! ### Sinks -/

/-- `availability_sink(False)`, with the requests made from inside it. -/
def sinkUnavailable : World :=
  (host.reenter s.tick).foldl (fun s r => (s.offer r).2)
    { s with tick := s.tick + 1, log := s.log ++ [.available false] }

/-- `_commit_verified_truth`. -/
def commitVerifiedTruth (truth : CoreTruth) : Bool × World :=
  (host.truthSink s.tick,
    { s with
      tick := s.tick + 1
      latestTruth := some truth
      latestRevisions := some truth.revisions })

/-- `_finish_plan_snapshots`. -/
def finishPlanSnapshots : World := { s with planSnapshotCallbacks := 0 }

/-! ### The end of a write -/

/-- The pending write is given up; `ending` is recorded. -/
def retire (ending : Option LogEntry) : World :=
  { s.cancelPendingTimers with pendingWrite := none, log := s.log ++ ending.toList }

/-- `_complete_failed_write` with `degraded`. -/
def completeDegradedWrite (ending : Option LogEntry) : World :=
  ((s.retire ending).transition .disconnected).sinkUnavailable host

/-- `_complete_failed_write` without `degraded`, up to `_start_next_write`; the flag says
whether it gets there. -/
def retainTruth : Bool × World :=
  match s.latestTruth with
  | none => (true, s.transition .ready)
  | some truth =>
    match s.commitVerifiedTruth host truth with
    | (true, s) => (true, s.transition .ready)
    | (false, s) => (false, (s.transition .disconnected).sinkUnavailable host)

/-! ### Calls to the agent -/

/-- `len(VERIFY_DELAYS_SECONDS)`. -/
def verifyAttempts : ℕ := 4

/-- `_retry_verification` with `api_failure`, when no attempt is left. -/
def giveUpAfterApiFailure (p : PendingWrite) : World :=
  let s := s.transition .diverged
  match p.lastObservedTruth with
  | some truth =>
    let s := (s.commitVerifiedTruth host truth).2
    let s := s.dropPending.note
      (.resolved p.id p.write (.diverged p.predicate truth))
    (s.transition .disconnected).sinkUnavailable host
  | none => s.completeDegradedWrite host (some (.resolved p.id p.write .failed))

/-- `_retry_verification` with `api_failure`. -/
def retryAfterApiFailure (p : PendingWrite) : World :=
  let s := s.withPending p.retried
  if p.retried.retryCount < verifyAttempts then s.scheduleVerification
  else s.giveUpAfterApiFailure host p.retried

/-- `_handle_agent_failure`. -/
def handleAgentFailure (purpose : AgentPurpose) : World :=
  let s := { s with stateApiHealthy := false }.sinkUnavailable host
  match purpose with
  | .verify =>
    match s.pendingWrite with
    | some p => s.retryAfterApiFailure host p
    | none => s.transition .disconnected
  | .planSnapshot => s.finishPlanSnapshots.transition .disconnected
  | .writePreflight =>
    s.completeDegradedWrite host (s.pendingWrite.map fun p => .unprepared p.write)
  | .heartbeat | .reconcile => s.transition .disconnected

/-- `_submit_agent_call`. -/
def submitAgentCall (method : AgentMethod) (purpose : AgentPurpose) : World :=
  if s.operationToken.isSome then { s with refreshRequested := true }
  else
    let call : AgentCall := ⟨s.nextId, s.generation, method, purpose⟩
    let drawn := { s with nextId := s.nextId + 1, tick := s.tick + 1 }
    if host.executor s.tick then
      { drawn with operationToken := some call.token, calls := s.calls ++ [call] }.note
        (.submitted call)
    else drawn.handleAgentFailure host purpose

/-- The method that reads the truth for a request. -/
def coreMethod (r : PersistentWriteRequest) : AgentMethod :=
  if r.rawSettingsDiagnostics then .coreRaw else .core

/-! ### Starting writes -/

/-- The pending write of `_start_write`. -/
def newPending (id : ℕ) (w : QueuedWrite) : PendingWrite where
  id := id
  write := w
  stage := if w.request.requiresFreshPreflight then .preparing else .awaitingAck
  predicate := w.request.predicate

/-- The world in which the command of `p` has been sent and its acknowledgement is awaited. -/
def sent (p : PendingWrite) (now : ℕ) (truth : CoreTruth)
    (predicate : Option TruthPredicate) (receipt : CommandReceipt) : World :=
  { s with
    tick := s.tick + 1
    nextId := s.nextId + 1
    pendingWrite := some
      { p with predicate := predicate, receipt := some receipt, stage := .awaitingAck }
    timers := s.timers ++ [⟨s.nextId, .ackTimeout, p.id⟩]
    ackTimeoutHandle := some s.nextId
    log := s.log ++ [.published p.id p.write now truth (some receipt)] }

/-- `_publish_pending` up to the call of `_complete_failed_write`, if it comes to that: then
the result is how the write ended. -/
def tryPublish (p : PendingWrite) (truth : Option CoreTruth) :
    Except (LogEntry × World) World :=
  match truth with
  | none => .error (.unprepared p.write, s)
  | some truth =>
    let now := host.clock s.tick
    match p.write.request.prepare now p.predicate truth with
    | .error _ => .error (.unprepared p.write, s)
    | .ok prepared =>
      match host.publisher s.tick with
      | none =>
        .error (.published p.id p.write now truth none, { s with tick := s.tick + 1 })
      | some receipt => .ok (s.sent p now truth prepared.predicate receipt)

/-- The world in which `w` has become the pending write, with `queue` behind it. -/
def begun (queue : List QueuedWrite) (w : QueuedWrite) : World :=
  { s with
    nextId := s.nextId + 1
    queuedWrites := queue
    pendingWrite := some (newPending s.nextId w)
    state := .pendingWrite }

/-- `_start_write` of `w`, with `queue` behind it. When the write fails at once,
`_start_next_write` goes on with the queue. -/
def startWrite : List QueuedWrite → QueuedWrite → World → World
  | queue, w, s =>
    let s' := s.begun queue w
    if w.request.requiresFreshPreflight then
      s'.submitAgentCall host (coreMethod w.request) .writePreflight
    else
      match s'.tryPublish host (newPending s.nextId w) s'.latestTruth with
      | .ok s => s
      | .error (ending, s) =>
        match (s.retire (some ending)).retainTruth host with
        | (false, s) => s
        | (true, s) =>
          match queue with
          | [] => s
          | next :: rest => startWrite rest next (s.note (.dequeued next))

/-- `_start_next_write`. -/
def startNextWrite : World :=
  if s.pendingWrite.isNone ∧ s.state = .ready then
    match s.queuedWrites with
    | [] => s
    | next :: rest => startWrite host rest next (s.note (.dequeued next))
  else s

/-- `_complete_failed_write` without `degraded`. -/
def completeFailedWrite (ending : Option LogEntry) : World :=
  match (s.retire ending).retainTruth host with
  | (false, s) => s
  | (true, s) => s.startNextWrite host

/-- `_publish_pending`. -/
def publishPending (truth : Option CoreTruth) : World :=
  match s.pendingWrite with
  | none => s.completeFailedWrite host none
  | some p =>
    match s.tryPublish host p truth with
    | .ok s => s
    | .error (ending, s) => s.completeFailedWrite host (some ending)

/-- `request_persistent_write`. -/
def requestPersistentWrite (r : PersistentWriteRequest) : Bool × World :=
  match s.decision r with
  | .start =>
    (true, startWrite host s.queuedWrites (s.ticketed r)
      (s.drawn.note (.accepted (s.ticketed r) .started)))
  | _ => s.offer r

/-- `availability_sink(True)`, with the requests made from inside it. -/
def sinkAvailable : World :=
  (host.reenter s.tick).foldl (fun s r => (s.requestPersistentWrite host r).2)
    { s with tick := s.tick + 1, log := s.log ++ [.available true] }

/-- `_maybe_normalize_plan_ids`. -/
def maybeNormalizePlanIds (truth : CoreTruth) : World :=
  match buildPlanIdNormalization (host.clock s.tick) truth.plans.semanticRecords with
  | .error _ => s
  | .ok n =>
    if n.mapping = [] then s
    else if !host.planCollectionPublisher then s
    else (s.requestPersistentWrite host (normalizationRequest n)).2

/-! ### Verification -/

/-- `_retry_verification` without `api_failure`, when no attempt is left. -/
def giveUpVerification (p : PendingWrite) : World :=
  let s := s.transition .diverged
  match p.lastObservedTruth with
  | some truth =>
    let (projected, s) := s.commitVerifiedTruth host truth
    let s := s.dropPending.note
      (.resolved p.id p.write (.diverged p.predicate truth))
    if !projected then (s.transition .disconnected).sinkUnavailable host
    else
      let s := (s.transition .ready).sinkAvailable host
      let s := match p.write.request.plan with
        | some (.normalize _) => s
        | _ => s.maybeNormalizePlanIds host truth
      s.startNextWrite host
  | none => s.completeFailedWrite host (some (.resolved p.id p.write .failed))

/-- `_retry_verification` without `api_failure`. -/
def retryVerification (p : PendingWrite) : World :=
  let s := s.withPending p.retried
  if p.retried.retryCount < verifyAttempts then s.scheduleVerification
  else s.giveUpVerification host p.retried

/-- `_handle_verification_truth` of a truth that the predicate accepts. -/
def acceptVerification (p : PendingWrite) (predicate : TruthPredicate)
    (truth : CoreTruth) : World :=
  match s.commitVerifiedTruth host truth with
  | (false, s) => s.completeDegradedWrite host (some (.resolved p.id p.write .failed))
  | (true, s) =>
    let s := s.dropPending.note
      (.resolved p.id p.write (.verified predicate truth))
    let s := (s.transition .ready).sinkAvailable host
    (s.maybeNormalizePlanIds host truth).startNextWrite host

/-- `_handle_verification_truth`. -/
def handleVerificationTruth (value : AgentResult) : World :=
  match s.pendingWrite with
  | none => s
  | some p =>
    if p.stage ≠ .verifying then s
    else
      match value with
      | .truth truth =>
        let p := p.observing truth
        let s := s.withPending p
        match p.predicate with
        | some predicate =>
          if predicate.matchesTruth truth.toFeederTruth then
            s.acceptVerification host p predicate truth
          else s.retryVerification host p
        | none => s.retryVerification host p
      | _ => s.retryVerification host p

/-! ### Results of other calls -/

/-- `_handle_revision_snapshot`. -/
def handleRevisionSnapshot (value : AgentResult) : World :=
  match value with
  | .revisions revisions =>
    if s.latestRevisions.map (·.coreRev) ≠ some revisions.coreRev then
      s.submitAgentCall host .core .reconcile
    else s
  | _ => s.handleAgentFailure host .heartbeat

/-- `_handle_reconciled_truth`. -/
def handleReconciledTruth (value : AgentResult) : World :=
  match value with
  | .truth truth =>
    match s.commitVerifiedTruth host truth with
    | (false, s) => (s.transition .disconnected).sinkUnavailable host
    | (true, s) =>
      let s := (s.transition .ready).maybeNormalizePlanIds host truth
      (s.sinkAvailable host).startNextWrite host
  | _ => s.handleAgentFailure host .reconcile

/-- `_handle_write_preflight`. -/
def handleWritePreflight (value : AgentResult) : World :=
  match s.pendingWrite with
  | none => s
  | some p =>
    if p.stage ≠ .preparing then s
    else
      match value with
      | .truth truth =>
        match s.commitVerifiedTruth host truth with
        | (false, s) => s.completeDegradedWrite host (some (.unprepared p.write))
        | (true, s) => s.publishPending host (some truth)
      | _ => s.completeFailedWrite host (some (.unprepared p.write))

/-- `_handle_plan_snapshot`. -/
def handlePlanSnapshot (value : AgentResult) : World :=
  match value with
  | .truth truth =>
    match s.commitVerifiedTruth host truth with
    | (false, s) => ((s.transition .disconnected).sinkUnavailable host).finishPlanSnapshots
    | (true, s) =>
      let s := if s.state = .disconnected then (s.transition .ready).sinkAvailable host else s
      let s := s.finishPlanSnapshots
      if s.state = .ready then s.maybeNormalizePlanIds host truth else s
  | _ => s.finishPlanSnapshots

/-- `refresh_revisions`. -/
def refreshRevisions : World :=
  if !s.mqttConnected || s.operationToken.isSome then { s with refreshRequested := true }
  else { s with refreshRequested := false }.submitAgentCall host .revisions .heartbeat

/-- `_maybe_process_deferred`, with the cases by the pending write. -/
def maybeProcessDeferred : World :=
  if s.operationToken.isSome then s
  else
    match s.pendingWrite with
    | some p =>
      if p.stage = .preparing then
        s.submitAgentCall host (coreMethod p.write.request) .writePreflight
      else s
    | none =>
      if s.planSnapshotCallbacks ≠ 0 then s.submitAgentCall host .core .planSnapshot
      else if s.state = .ready ∧ s.queuedWrites ≠ [] then s.startNextWrite host
      else if s.refreshRequested then s.refreshRevisions host
      else s

/-- The handler of a value, by the purpose of the call. -/
def handleValue (purpose : AgentPurpose) (value : AgentResult) : World :=
  match purpose with
  | .heartbeat => s.handleRevisionSnapshot host value
  | .reconcile => s.handleReconciledTruth host value
  | .writePreflight => s.handleWritePreflight host value
  | .verify => s.handleVerificationTruth host value
  | .planSnapshot => s.handlePlanSnapshot host value

/-- The completion of `call` is the one that the coordinator waits for. -/
def Credits (call : AgentCall) : Prop :=
  call.generation = s.generation ∧ s.operationToken = some call.token

instance (call : AgentCall) : Decidable (s.Credits call) :=
  inferInstanceAs (Decidable (_ ∧ _))

/-- The world in which the call is no longer held by the host. -/
def settled (call : AgentCall) (result : AgentResult) : World :=
  { s with calls := s.calls.erase call }.note
    (.completed call result s.generation (s.Credits call))

/-- The world in which no call is waited for. -/
def released : World := { s with operationToken := none }

/-- `_mark_agent_recovered`. -/
def markAgentRecovered : World := { s with stateApiHealthy := true }

/-- `_agent_call_complete`. -/
def agentCallComplete (call : AgentCall) (result : AgentResult) : World :=
  if ¬ s.Credits call then s.settled call result
  else
    let s := (s.settled call result).released
    match result with
    | .failed => (s.handleAgentFailure host call.purpose).maybeProcessDeferred host
    | value =>
      (s.markAgentRecovered.handleValue host call.purpose value).maybeProcessDeferred host

/-! ### Callbacks of the host -/

/-- `reconcile_from_feeder`. -/
def reconcileFromFeeder : World :=
  if !s.mqttConnected || s.operationToken.isSome then s
  else (s.transition .reconciling).submitAgentCall host .core .reconcile

/-- `on_feeder_connected`. -/
def onFeederConnected : World :=
  if s.mqttConnected ∧ s.state ≠ .disconnected then s
  else
    let generation := if s.mqttConnected then s.generation else s.generation + 1
    let s := { s with generation := generation, mqttConnected := true }
    ((s.sinkUnavailable host).transition .connected).reconcileFromFeeder host

/-- What `on_feeder_disconnected` and `shutdown` both do. -/
def cleared : World :=
  { s.cancelPendingTimers with
    mqttConnected := false
    stateApiHealthy := false
    generation := s.generation + 1
    operationToken := none
    pendingWrite := none
    queuedWrites := []
    log := s.log ++ [.cleared] }

/-- `on_feeder_disconnected`. -/
def onFeederDisconnected : World :=
  (s.cleared.sinkUnavailable host).transition .disconnected

/-- `shutdown`. -/
def shutdown : World :=
  { s.cleared with refreshRequested := false, planSnapshotCallbacks := 0 }.transition .disconnected

/-- `on_heartbeat`. -/
def onHeartbeat : World :=
  if !s.mqttConnected then s.onFeederConnected host
  else if s.state = .disconnected ∨ s.stateApiHealthy = false then s.reconcileFromFeeder host
  else if s.pendingWrite.isSome then { s with refreshRequested := true }
  else s.refreshRevisions host

/-- `on_persistent_state_hint`. -/
def onPersistentStateHint : World :=
  if s.state = .ready ∧ s.pendingWrite.isNone then
    { s with refreshRequested := true }.refreshRevisions host
  else s

/-- `request_plan_snapshot`. -/
def requestPlanSnapshot : World :=
  let s := { s with planSnapshotCallbacks := s.planSnapshotCallbacks + 1 }
  if !s.mqttConnected then s.finishPlanSnapshots
  else if s.operationToken.isNone ∧ s.pendingWrite.isNone then
    s.submitAgentCall host .core .planSnapshot
  else s

/-- `on_mqtt_ack` with the pending write and the receipt that it waits for. -/
def acceptAck (p : PendingWrite) (ack : MqttAck) : World :=
  let s := s.cancelAckTimeout.note (.acknowledged p.id ack)
  if ack.success = false then s.completeFailedWrite host (some (.resolved p.id p.write .rejected))
  else if p.write.request.verificationMode = .ackOnlyUnverified then
    ((s.retire (some (.resolved p.id p.write .unverified))).transition .ready).startNextWrite host
  else
    ((s.withPending { p with stage := .verifying }).transition .verifyingWrite).scheduleVerification

/-- `on_mqtt_ack`. -/
def onMqttAck (ack : MqttAck) : World :=
  match s.pendingWrite with
  | none => s
  | some p =>
    match p.stage, p.receipt with
    | .awaitingAck, some receipt => if ack.Answers receipt then s.acceptAck host p ack else s
    | _, _ => s

/-- `_ack_timeout`. -/
def ackTimeout (pendingId : ℕ) : World :=
  let s := { s with ackTimeoutHandle := none }
  match s.pendingWrite with
  | none => s
  | some p =>
    if p.id ≠ pendingId then s
    else s.completeFailedWrite host (some (.resolved p.id p.write .ackTimeout))

/-- `_verification_timer`. -/
def verificationTimer (pendingId : ℕ) : World :=
  let s := { s with verifyTimerHandle := none }
  match s.pendingWrite with
  | none => s
  | some p =>
    if p.id ≠ pendingId then s
    else if s.operationToken.isSome then s.scheduleVerification
    else s.submitAgentCall host (coreMethod p.write.request) .verify

/-- A timer fires: the host no longer holds it. -/
def fireTimer (timer : Timer) : World :=
  let s := { s with timers := s.timers.erase timer }
  match timer.kind with
  | .ackTimeout => s.ackTimeout host timer.pendingId
  | .verification => s.verificationTimer host timer.pendingId

/-- The callbacks of the coordinator. -/
inductive Callback
  | feederConnected
  | feederDisconnected
  | heartbeat
  | persistentStateHint
  | requestWrite (r : PersistentWriteRequest)
  | requestPlanSnapshot
  | mqttAck (ack : MqttAck)
  | timer (timer : Timer)
  | agentComplete (call : AgentCall) (result : AgentResult)
  | shutdown

/-- **One callback.** A timer or a call that the host does not hold cannot come back. -/
def handle : Callback → World
  | .feederConnected => s.onFeederConnected host
  | .feederDisconnected => s.onFeederDisconnected host
  | .heartbeat => s.onHeartbeat host
  | .persistentStateHint => s.onPersistentStateHint host
  | .requestWrite r => (s.requestPersistentWrite host r).2
  | .requestPlanSnapshot => s.requestPlanSnapshot host
  | .mqttAck ack => s.onMqttAck host ack
  | .timer timer => if timer ∈ s.timers then s.fireTimer host timer else s
  | .agentComplete call result =>
    if call ∈ s.calls then s.agentCallComplete host call result else s
  | .shutdown => s.shutdown

/-- **A run** of the coordinator from its construction. -/
def run (callbacks : List Callback) : World := callbacks.foldl (handle host) {}

end World

/-- A host on which every call succeeds, and whose sink makes no request. -/
def steadyHost : Host where
  publisher _ := some ⟨"ATTR_SET_SERVICE", "1"⟩
  truthSink _ := true
  executor _ := true
  reenter _ := []
  clock _ := 500
  planCollectionPublisher := true

/-- A request for a switch. -/
def switchRequest (control field value : String) : PersistentWriteRequest where
  control := control
  predicate := some (.settingEquals field (.str value))
  delete_mem := delete_mem_of_none

end PetlibroLocal
