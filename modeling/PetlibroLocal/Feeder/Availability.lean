import PetlibroLocal.Feeder.CoordinatorRuns
import PetlibroLocal.Lib.Splits

/-!
# Availability

Home Assistant shows the feeder's entities as available or not, by the last value that the
availability sink was given. The coordinator is honest if that value is `True` only while the
feeder is connected, its state agent answers and the coordinator is not `DISCONNECTED`.

`handleAgentFailure` and every other method that goes to `DISCONNECTED` tell the sink
`False` when they do, so honesty is kept whatever fails, as long as the sink is told `True`
only by a coordinator that is up. `_handle_reconciled_truth` is the exception: it tells the
sink `True` after `_maybe_normalize_plan_ids`, which may have called a publisher that raised
and then failed to project the retained truth (`available_after_disconnect`); the two other
callers of `_maybe_normalize_plan_ids` tell the sink first. `shutdown` does not tell the sink
at all; the application publishes the feeder as offline itself when it terminates.

The main results are `World.handleAgentFailure_told`, `World.Launches.honest` and
`availability_honest`.
-/

namespace PetlibroLocal

/-! ### The last value -/

/-- The value that the sink is told. -/
def LogEntry.available? : LogEntry → Option Bool
  | .available value => some value
  | _ => none

/-- **The last value that the availability sink was told.** -/
def lastAvailable (log : List LogEntry) : Option Bool := lastSome LogEntry.available? log

theorem lastAvailable_concat (log : List LogEntry) {e : LogEntry} (he : e.available? = none) :
    lastAvailable (log ++ [e]) = lastAvailable log :=
  lastSome_concat_none log he

namespace World

/-- The coordinator can serve requests. -/
structure Up (s : World) : Prop where
  connected : s.mqttConnected = true
  healthy : s.stateApiHealthy = true
  state : s.state ≠ .disconnected

/-- **The sink was told `True` last only if the coordinator is up.** -/
def Honest (s : World) : Prop := lastAvailable s.log = some true → s.Up

/-- The sink was told `False` last. -/
def Told (s : World) : Prop := lastAvailable s.log = some false

variable {host : Host} {s s' : World} {p : PendingWrite}

theorem Told.honest (h : s.Told) : s.Honest := by
  intro hlast
  exact absurd (hlast.symm.trans h) (by simp)

theorem Honest.keep (h : s.Honest) (hlog : lastAvailable s'.log = lastAvailable s.log)
    (hup : s.Up → s'.Up) : s'.Honest :=
  fun hlast => hup (h (hlog ▸ hlast))

theorem Up.transition {new : FeederState} (h : s.Up) (hnew : new ≠ .disconnected) :
    (s.transition new).Up :=
  ⟨h.connected, h.healthy, hnew⟩

theorem Honest.transition (h : s.Honest) (new : FeederState) (hnew : new ≠ .disconnected) :
    (s.transition new).Honest :=
  h.keep rfl fun hup => hup.transition hnew

/-! ### Accepting requests -/

/-- What a request that starts no write leaves alone. -/
structure Undisturbed (s s' : World) : Prop where
  mqttConnected : s'.mqttConnected = s.mqttConnected
  stateApiHealthy : s'.stateApiHealthy = s.stateApiHealthy
  state : s'.state = s.state
  told : lastAvailable s'.log = lastAvailable s.log

theorem Undisturbed.up (h : s.Undisturbed s') (hup : s.Up) : s'.Up :=
  ⟨h.mqttConnected.trans hup.connected, h.stateApiHealthy.trans hup.healthy,
    h.state.symm ▸ hup.state⟩

theorem Honest.undisturbed (h : s.Honest) (hsame : s.Undisturbed s') : s'.Honest :=
  h.keep hsame.told hsame.up

theorem offer_undisturbed (s : World) (r : PersistentWriteRequest) :
    s.Undisturbed (s.offer r).2 := by
  have hnote : ∀ e : LogEntry, e.available? = none →
      lastAvailable (s.log ++ [e]) = lastAvailable s.log :=
    fun e he => lastAvailable_concat s.log he
  rw [offer]
  split
  · exact ⟨rfl, rfl, rfl, rfl⟩
  · exact ⟨rfl, rfl, rfl, hnote _ rfl⟩
  · rw [queueWrite]
    split
    · exact ⟨rfl, rfl, rfl, hnote _ rfl⟩
    · split_ifs
      · exact ⟨rfl, rfl, rfl, rfl⟩
      · exact ⟨rfl, rfl, rfl, hnote _ rfl⟩
  · exact ⟨rfl, rfl, rfl, rfl⟩

theorem sinkUnavailable_told (s : World) (host : Host) : (s.sinkUnavailable host).Told := by
  refine List.foldlRecOn (motive := Told) _ _ (lastSome_concat_some _ rfl) ?_
  intro s h r _
  exact (offer_undisturbed s r).told.trans h

/-! ### The end of a write -/

variable {truth : CoreTruth} {ending : LogEntry}

theorem commitVerifiedTruth_undisturbed {projected : Bool}
    (h : s.commitVerifiedTruth host truth = (projected, s')) : s.Undisturbed s' := by
  rw [commitVerifiedTruth, Prod.mk.injEq] at h
  obtain ⟨-, rfl⟩ := h
  exact ⟨rfl, rfl, rfl, rfl⟩

theorem note_undisturbed (s : World) {e : LogEntry} (he : e.available? = none) :
    s.Undisturbed (s.note e) :=
  ⟨rfl, rfl, rfl, lastAvailable_concat _ he⟩

theorem retire_undisturbed (s : World) {ending : Option LogEntry}
    (hending : ∀ e ∈ ending, e.available? = none) : s.Undisturbed (s.retire ending) := by
  have hlog : lastAvailable (s.log ++ ending.toList) = lastAvailable s.log := by
    cases ending with
    | none => rw [Option.toList_none, List.append_nil]
    | some e => exact lastAvailable_concat _ (hending e rfl)
  obtain ⟨timers, ack, verify, heq⟩ := s.exists_cancelPendingTimers
  rw [retire, heq]
  exact ⟨rfl, rfl, rfl, hlog⟩

theorem retire_some_undisturbed (s : World) (hending : ending.available? = none) :
    s.Undisturbed (s.retire (some ending)) := by
  refine retire_undisturbed s fun e he => ?_
  obtain rfl := Option.mem_some.mp he
  exact hending

theorem completeDegradedWrite_told (s : World) (host : Host) (ending : Option LogEntry) :
    (s.completeDegradedWrite host ending).Told :=
  sinkUnavailable_told _ host

theorem retainTruth_honest (h : s.Honest) : (s.retainTruth host).2.Honest := by
  rw [retainTruth]
  split
  · exact h.transition .ready (by simp)
  · split
    · next heq =>
      exact (h.undisturbed (commitVerifiedTruth_undisturbed heq)).transition .ready (by simp)
    · exact (sinkUnavailable_told _ host).honest

/-! ### Calls to the agent -/

theorem giveUpAfterApiFailure_told (s : World) (host : Host) (p : PendingWrite) :
    (s.giveUpAfterApiFailure host p).Told := by
  rw [giveUpAfterApiFailure]
  cases p.lastObservedTruth with
  | some truth => exact sinkUnavailable_told _ host
  | none => exact completeDegradedWrite_told _ host _

theorem scheduleVerification_undisturbed (s : World) : s.Undisturbed s.scheduleVerification := by
  rw [scheduleVerification]
  split <;> exact ⟨rfl, rfl, rfl, rfl⟩

theorem Told.retryAfterApiFailure (h : s.Told) (host : Host) (p : PendingWrite) :
    (s.retryAfterApiFailure host p).Told := by
  rw [World.retryAfterApiFailure]
  split_ifs
  · exact (scheduleVerification_undisturbed _).told.trans h
  · exact giveUpAfterApiFailure_told _ host _

/-- **A failed call is always told.** -/
theorem handleAgentFailure_told (s : World) (host : Host) (purpose : AgentPurpose) :
    (s.handleAgentFailure host purpose).Told := by
  have htold := sinkUnavailable_told { s with stateApiHealthy := false } host
  rw [handleAgentFailure.eq_def]
  cases purpose with
  | verify =>
    simp only
    split
    · exact htold.retryAfterApiFailure host _
    · exact htold
  | writePreflight => exact completeDegradedWrite_told _ host _
  | planSnapshot | heartbeat | reconcile => exact htold

theorem submitAgentCall_honest (h : s.Honest) (method : AgentMethod) (purpose : AgentPurpose) :
    (s.submitAgentCall host method purpose).Honest := by
  rw [submitAgentCall]
  split_ifs
  · exact h.undisturbed ⟨rfl, rfl, rfl, rfl⟩
  · exact h.undisturbed ⟨rfl, rfl, rfl, lastAvailable_concat _ rfl⟩
  · exact (handleAgentFailure_told _ host purpose).honest

/-! ### Starting writes -/

theorem tryPublish_error_undisturbed {truth : Option CoreTruth}
    (h : s.tryPublish host p truth = .error (ending, s')) :
    s.Undisturbed s' ∧ ending.available? = none := by
  cases truth with
  | none =>
    cases h
    exact ⟨⟨rfl, rfl, rfl, rfl⟩, rfl⟩
  | some t =>
    simp only [tryPublish] at h
    split at h
    · cases h
      exact ⟨⟨rfl, rfl, rfl, rfl⟩, rfl⟩
    · split at h
      · cases h
        exact ⟨⟨rfl, rfl, rfl, rfl⟩, rfl⟩
      · cases h

theorem sent_honest (h : s.Honest) (p : PendingWrite) (now : ℕ) (truth : CoreTruth)
    (predicate : Option TruthPredicate) (receipt : CommandReceipt) :
    (s.sent p now truth predicate receipt).Honest :=
  h.undisturbed ⟨rfl, rfl, rfl, lastAvailable_concat _ rfl⟩

theorem begun_honest (h : s.Honest) {e : LogEntry} (he : e.available? = none)
    (queue : List QueuedWrite) (w : QueuedWrite) : ((s.note e).begun queue w).Honest :=
  (h.undisturbed (note_undisturbed s he)).keep rfl fun hup => ⟨hup.connected, hup.healthy, nofun⟩

theorem retain_honest (h : s.Honest) {t : World} {truth : Option CoreTruth}
    (hpublish : s.tryPublish host p truth = .error (ending, t)) :
    ((t.retire (some ending)).retainTruth host).2.Honest := by
  obtain ⟨hsame, hending⟩ := tryPublish_error_undisturbed hpublish
  exact retainTruth_honest
    ((h.undisturbed hsame).undisturbed (retire_some_undisturbed t hending))

/-- **The start of a write keeps honesty.** -/
theorem Launches.honest (h : Launches host s s') (hs : s.Honest) : s'.Honest := by
  induction h with
  | preflight => exact submitAgentCall_honest hs _ _
  | sent _ _ hpublish =>
    obtain ⟨now, truth, prepared, receipt, -, rfl⟩ := tryPublish_ok hpublish
    exact sent_honest hs _ _ _ _ _
  | degraded _ _ hpublish hretain | drained _ _ hpublish hretain =>
    have h := retain_honest hs hpublish
    rwa [hretain] at h
  | next _ _ hpublish hretain _ _ ih =>
    have h := retain_honest hs hpublish
    rw [hretain] at h
    exact ih (begun_honest h rfl _ _)

theorem startNextWrite_honest (h : s.Honest) : (s.startNextWrite host).Honest := by
  rw [startNextWrite]
  split_ifs
  · split
    · exact h
    · exact (startWrite_launches host _ _ _).honest (begun_honest h rfl _ _)
  · exact h

theorem completeFailedWrite_honest {ending : Option LogEntry} (h : (s.retire ending).Honest) :
    (s.completeFailedWrite host ending).Honest := by
  have hretain : ((s.retire ending).retainTruth host).2.Honest := retainTruth_honest h
  rw [completeFailedWrite]
  split
  · next heq => rwa [heq] at hretain
  · next heq =>
    rw [heq] at hretain
    exact startNextWrite_honest hretain

theorem failed_honest (h : s.Honest) (hending : ending.available? = none) :
    (s.completeFailedWrite host (some ending)).Honest :=
  completeFailedWrite_honest (h.undisturbed (retire_some_undisturbed s hending))

theorem publishPending_honest (h : s.Honest) (truth : Option CoreTruth) :
    (s.publishPending host truth).Honest := by
  rw [publishPending]
  split
  · exact completeFailedWrite_honest (h.undisturbed (retire_undisturbed s (by simp)))
  · split
    · next hpublish =>
      obtain ⟨now, truth, prepared, receipt, -, rfl⟩ := tryPublish_ok hpublish
      exact sent_honest h _ _ _ _ _
    · next hpublish =>
      obtain ⟨hsame, hending⟩ := tryPublish_error_undisturbed hpublish
      exact failed_honest (h.undisturbed hsame) hending

theorem request_honest (h : s.Honest) (r : PersistentWriteRequest) :
    (s.requestPersistentWrite host r).2.Honest := by
  rw [requestPersistentWrite]
  split
  · refine (startWrite_launches host _ _ _).honest (begun_honest ?_ rfl _ _)
    exact h.undisturbed ⟨rfl, rfl, rfl, rfl⟩
  · exact h.undisturbed (offer_undisturbed s r)

/-- The sink is told `True` by a coordinator that is up; the requests it makes keep honesty. -/
theorem Up.sinkAvailable (h : s.Up) (host : Host) : (s.sinkAvailable host).Honest := by
  refine List.foldlRecOn (motive := Honest) _ _ ?_ fun s h r _ => request_honest h r
  exact fun _ => ⟨h.connected, h.healthy, h.state⟩

theorem maybeNormalizePlanIds_honest (h : s.Honest) (truth : CoreTruth) :
    (s.maybeNormalizePlanIds host truth).Honest := by
  rw [maybeNormalizePlanIds]
  split
  · exact h
  · split_ifs
    · exact h
    · exact h
    · exact request_honest h _

/-! ### Results of calls -/

/-- The feeder is connected and its agent has just answered. -/
structure Answering (s : World) : Prop where
  connected : s.mqttConnected = true
  healthy : s.stateApiHealthy = true

theorem Answering.ready (h : s.Answering) : (s.transition .ready).Up :=
  ⟨h.connected, h.healthy, nofun⟩

theorem Undisturbed.answering (h : s.Undisturbed s') (hs : s.Answering) : s'.Answering :=
  ⟨h.mqttConnected.trans hs.connected, h.stateApiHealthy.trans hs.healthy⟩

theorem giveUpVerification_honest (hanswering : s.Answering) (h : s.Honest) (p : PendingWrite) :
    (s.giveUpVerification host p).Honest := by
  rw [giveUpVerification]
  cases p.lastObservedTruth with
  | some truth =>
    have hup : ((((s.transition .diverged).commitVerifiedTruth host truth).2.dropPending.note
        (.resolved p.id p.write (.diverged p.predicate truth))).transition .ready).Up :=
      ⟨hanswering.connected, hanswering.healthy, by simp [transition]⟩
    have hsink := hup.sinkAvailable host
    simp only
    split_ifs
    · exact (sinkUnavailable_told _ host).honest
    · split
      · exact startNextWrite_honest hsink
      · exact startNextWrite_honest (maybeNormalizePlanIds_honest hsink truth)
  | none => exact failed_honest (h.transition .diverged (by simp)) rfl

theorem retryVerification_honest (hanswering : s.Answering) (h : s.Honest) (p : PendingWrite) :
    (s.retryVerification host p).Honest := by
  have hretried : (s.withPending p.retried).Honest := h.undisturbed ⟨rfl, rfl, rfl, rfl⟩
  have hanswering' : (s.withPending p.retried).Answering :=
    ⟨hanswering.connected, hanswering.healthy⟩
  rw [retryVerification]
  split_ifs
  · exact hretried.undisturbed (scheduleVerification_undisturbed _)
  · exact giveUpVerification_honest hanswering' hretried _

theorem acceptVerification_honest (hanswering : s.Answering) (p : PendingWrite)
    (predicate : TruthPredicate) (truth : CoreTruth) :
    (s.acceptVerification host p predicate truth).Honest := by
  rw [acceptVerification]
  split
  · exact (completeDegradedWrite_told _ host _).honest
  · next t heq =>
    have hanswering := (commitVerifiedTruth_undisturbed heq).answering hanswering
    have hup : ((t.dropPending.note
        (.resolved p.id p.write (.verified predicate truth))).transition .ready).Up :=
      ⟨hanswering.connected, hanswering.healthy, by simp [transition]⟩
    exact startNextWrite_honest (maybeNormalizePlanIds_honest (hup.sinkAvailable host) truth)

theorem handleVerificationTruth_honest (hanswering : s.Answering) (h : s.Honest)
    (value : AgentResult) : (s.handleVerificationTruth host value).Honest := by
  rw [handleVerificationTruth]
  split
  · exact h
  · next p _ =>
    split_ifs
    · exact h
    · split
      · next truth =>
        have hanswering' : (s.withPending (p.observing truth)).Answering :=
          ⟨hanswering.connected, hanswering.healthy⟩
        have hobserved : (s.withPending (p.observing truth)).Honest :=
          h.undisturbed ⟨rfl, rfl, rfl, rfl⟩
        dsimp only
        split
        · split_ifs
          · exact acceptVerification_honest hanswering' _ _ _
          · exact retryVerification_honest hanswering' hobserved _
        · exact retryVerification_honest hanswering' hobserved _
      · exact retryVerification_honest hanswering h _

theorem handleRevisionSnapshot_honest (h : s.Honest) (value : AgentResult) :
    (s.handleRevisionSnapshot host value).Honest := by
  rw [handleRevisionSnapshot.eq_def]
  split
  · split_ifs
    · exact submitAgentCall_honest h _ _
    · exact h
  · exact (handleAgentFailure_told _ host _).honest

theorem handleWritePreflight_honest (h : s.Honest) (value : AgentResult) :
    (s.handleWritePreflight host value).Honest := by
  rw [handleWritePreflight]
  split
  · exact h
  · split_ifs
    · exact h
    · split
      · split
        · exact (completeDegradedWrite_told _ host _).honest
        · next heq =>
          exact publishPending_honest (h.undisturbed (commitVerifiedTruth_undisturbed heq)) _
      · exact failed_honest h rfl

theorem handlePlanSnapshot_honest (hanswering : s.Answering) (h : s.Honest)
    (value : AgentResult) : (s.handlePlanSnapshot host value).Honest := by
  have hfinish : ∀ {s : World}, s.Honest → s.finishPlanSnapshots.Honest :=
    fun h => h.undisturbed ⟨rfl, rfl, rfl, rfl⟩
  rw [handlePlanSnapshot.eq_def]
  split
  · next truth =>
    split
    · exact hfinish (sinkUnavailable_told _ host).honest
    · next t heq =>
      have hsame := commitVerifiedTruth_undisturbed heq
      have hsink : (if t.state = .disconnected then
          (t.transition .ready).sinkAvailable host else t).Honest := by
        split_ifs
        · exact (hsame.answering hanswering).ready.sinkAvailable host
        · exact h.undisturbed hsame
      dsimp only
      split_ifs at hsink ⊢
      · exact maybeNormalizePlanIds_honest (hfinish hsink) truth
      · exact hfinish hsink
      · exact maybeNormalizePlanIds_honest (hfinish hsink) truth
      · exact hfinish hsink
  · exact hfinish h

/-! ### The reconciled truth -/

/-- The plans of the truth have IDs that Home Assistant cannot show, and can be given others. -/
def NeedsNormalization (now : ℕ) (truth : CoreTruth) : Prop :=
  ∃ n, buildPlanIdNormalization now truth.plans.semanticRecords = .ok n ∧ n.mapping ≠ []

/-- The call of the publisher for the normalization that follows a reconciliation, if it
comes to that, does not take the coordinator down: it does not raise, or nothing is queued and
the retained truth can be projected. Of the calls out of the coordinator, `tick` is the number
of the one that projects the reconciled truth. -/
def NormalizesSafely (host : Host) (s : World) (truth : CoreTruth) : Prop :=
  s.pendingWrite = none → NeedsNormalization (host.clock (s.tick + 1)) truth →
    host.planCollectionPublisher = true →
      host.publisher (s.tick + 1) ≠ none ∨
        s.queuedWrites = [] ∧ host.truthSink (s.tick + 2) = true

theorem tryPublish_error_of_prepare
    (hprepare : ∀ now, ∃ prepared, p.write.request.prepare now p.predicate truth = .ok prepared)
    (h : s.tryPublish host p (some truth) = .error (ending, s')) :
    host.publisher s.tick = none ∧ s' = { s with tick := s.tick + 1 } := by
  obtain ⟨prepared, hok⟩ := hprepare (host.clock s.tick)
  simp only [tryPublish, hok] at h
  split at h
  · next hnone =>
    cases h
    exact ⟨hnone, rfl⟩
  · cases h

theorem retire_tick (s : World) (ending : Option LogEntry) : (s.retire ending).tick = s.tick := by
  obtain ⟨timers, ack, verify, heq⟩ := s.exists_cancelPendingTimers
  rw [retire, heq]

theorem truthSink_of_retainTruth (h : s.retainTruth host = (false, s')) :
    host.truthSink s.tick = false := by
  rw [retainTruth] at h
  split at h
  · cases h
  · split at h
    · cases h
    · next heq => exact (Prod.mk.inj heq).1

/-- The start of a write that can be prepared keeps the coordinator up, if its publisher does
not raise or nothing is queued and the retained truth can be projected. -/
theorem Launches.up (h : Launches host s s') (hpending : s.pendingWrite = some p)
    (hstage : p.stage = .awaitingAck) (hreceipt : p.receipt = none) (hup : s.Up)
    (hlatest : s.latestTruth = some truth)
    (hprepare : ∀ now, ∃ prepared, p.write.request.prepare now p.predicate truth = .ok prepared)
    (hsafe : host.publisher s.tick ≠ none ∨
      s.queuedWrites = [] ∧ host.truthSink (s.tick + 1) = true) :
    s'.Up := by
  cases h with
  | preflight hp hpreparing =>
    obtain rfl := Option.some.inj (hpending.symm.trans hp)
    cases hstage.symm.trans hpreparing
  | sent hp _ hpublish =>
    obtain ⟨now, t, prepared, receipt, -, rfl⟩ := tryPublish_ok hpublish
    exact ⟨hup.connected, hup.healthy, hup.state⟩
  | degraded hp _ hpublish hretain =>
    obtain rfl := Option.some.inj (hpending.symm.trans hp)
    rw [hlatest] at hpublish
    obtain ⟨hnone, rfl⟩ := tryPublish_error_of_prepare hprepare hpublish
    have hsink := truthSink_of_retainTruth hretain
    rw [retire_tick] at hsink
    rcases hsafe with hraises | ⟨-, hprojects⟩
    · exact absurd hnone hraises
    · cases hprojects.symm.trans hsink
  | drained _ _ hpublish hretain =>
    obtain ⟨hsame, hending⟩ := tryPublish_error_undisturbed hpublish
    obtain ⟨tick, latest, revisions, rfl, -⟩ := retainTruth_true hretain
    have hretired := (retire_some_undisturbed _ hending).up (hsame.up hup)
    exact ⟨hretired.connected, hretired.healthy, by simp⟩
  | next hp _ hpublish hretain hqueue =>
    obtain rfl := Option.some.inj (hpending.symm.trans hp)
    have hsame := queuedWrites_of_retain hreceipt hpublish hretain
    rw [hlatest] at hpublish
    obtain ⟨hnone, -⟩ := tryPublish_error_of_prepare hprepare hpublish
    rcases hsafe with hraises | ⟨hempty, -⟩
    · exact absurd hnone hraises
    · cases (hempty.symm.trans hsame.symm).trans hqueue

/-- **The coordinator stays up** when a safe normalization starts. -/
theorem maybeNormalizePlanIds_up (hup : s.Up) (hlatest : s.latestTruth = some truth)
    (hsafe : s.pendingWrite = none → NeedsNormalization (host.clock s.tick) truth →
      host.planCollectionPublisher = true → host.publisher s.tick ≠ none ∨
        s.queuedWrites = [] ∧ host.truthSink (s.tick + 1) = true) :
    (s.maybeNormalizePlanIds host truth).Up := by
  rw [maybeNormalizePlanIds]
  split
  · exact hup
  · next n hbuild =>
    split_ifs with hmapping hpublisher
    · exact hup
    · exact hup
    · have hdecides := s.decides (normalizationRequest n)
      rw [requestPersistentWrite]
      split
      · next hdecision =>
        rw [hdecision] at hdecides
        cases hdecides with
        | start _ _ hpending =>
          have hsafe := hsafe hpending ⟨n, hbuild, hmapping⟩ (by simpa using hpublisher)
          exact (startWrite_launches host _ _ _).up rfl rfl rfl
            ⟨hup.connected, hup.healthy, by simp [begun]⟩ hlatest
            (PersistentWriteRequest.prepare_normalizationRequest hbuild hmapping) hsafe
      · exact (offer_undisturbed s _).up hup

theorem handleReconciledTruth_honest (hanswering : s.Answering) {value : AgentResult}
    (hsafe : ∀ truth, value = .truth truth → NormalizesSafely host s truth) :
    (s.handleReconciledTruth host value).Honest := by
  rw [handleReconciledTruth.eq_def]
  split
  · next truth =>
    split
    · exact (sinkUnavailable_told _ host).honest
    · next t heq =>
      have hup := ((commitVerifiedTruth_undisturbed heq).answering hanswering).ready
      rw [commitVerifiedTruth, Prod.mk.injEq] at heq
      obtain ⟨-, rfl⟩ := heq
      have hnormalized := maybeNormalizePlanIds_up hup rfl (hsafe truth rfl)
      exact startNextWrite_honest (hnormalized.sinkAvailable host)
  · exact (handleAgentFailure_told _ host _).honest

/-! ### Completions -/

theorem refreshRevisions_honest (h : s.Honest) : (s.refreshRevisions host).Honest := by
  have hrefresh : ∀ value, { s with refreshRequested := value }.Honest :=
    fun _ => h.undisturbed ⟨rfl, rfl, rfl, rfl⟩
  rw [refreshRevisions]
  split_ifs
  · exact hrefresh true
  · exact submitAgentCall_honest (hrefresh false) _ _

theorem maybeProcessDeferred_honest (h : s.Honest) : (s.maybeProcessDeferred host).Honest := by
  rw [maybeProcessDeferred]
  by_cases htoken : s.operationToken.isSome = true
  · rw [if_pos htoken]
    exact h
  · rw [if_neg htoken]
    split
    · split_ifs
      · exact submitAgentCall_honest h _ _
      · exact h
    · split_ifs
      · exact submitAgentCall_honest h _ _
      · exact startNextWrite_honest h
      · exact refreshRevisions_honest h
      · exact h

/-- The result of a call keeps honesty; that of a reconciliation must be safe to normalize. -/
def KeepsAvailable (host : Host) (s : World) : Callback → Prop
  | .agentComplete call (.truth truth) =>
    s.Credits call → call.purpose = .reconcile → NormalizesSafely host s truth
  | .shutdown => lastAvailable s.log ≠ some true
  | _ => True

theorem handleValue_honest (h : s.Honest) (hanswering : s.Answering) {purpose : AgentPurpose}
    {value : AgentResult}
    (hsafe : purpose = .reconcile → ∀ truth, value = .truth truth →
      NormalizesSafely host s truth) : (s.handleValue host purpose value).Honest := by
  cases purpose with
  | heartbeat => exact handleRevisionSnapshot_honest h value
  | reconcile => exact handleReconciledTruth_honest hanswering (hsafe rfl)
  | writePreflight => exact handleWritePreflight_honest h value
  | verify => exact handleVerificationTruth_honest hanswering h value
  | planSnapshot => exact handlePlanSnapshot_honest hanswering h value

theorem agentCallComplete_honest (hs : s.Sound) (h : s.Honest) {call : AgentCall}
    {result : AgentResult} (hkeeps : s.KeepsAvailable host (.agentComplete call result)) :
    (s.agentCallComplete host call result).Honest := by
  have hsettled : (s.settled call result).Honest :=
    h.undisturbed ⟨rfl, rfl, rfl, lastAvailable_concat _ rfl⟩
  rw [agentCallComplete]
  by_cases hcredits : s.Credits call
  · rw [if_neg (not_not.mpr hcredits)]
    have hanswering : (s.settled call result).released.markAgentRecovered.Answering :=
      ⟨hs.mqtt_of_token hcredits.2, rfl⟩
    have hrecovered : (s.settled call result).released.markAgentRecovered.Honest :=
      hsettled.keep rfl fun hup => ⟨hup.connected, rfl, hup.state⟩
    have hvalue : ((s.settled call result).released.markAgentRecovered.handleValue host
        call.purpose result).Honest := by
      refine handleValue_honest hrecovered hanswering ?_
      rintro hpurpose truth rfl
      exact hkeeps hcredits hpurpose
    cases result with
    | failed => exact maybeProcessDeferred_honest (handleAgentFailure_told _ host _).honest
    | truth | revisions | other => exact maybeProcessDeferred_honest hvalue
  · rw [if_pos hcredits]
    exact hsettled

/-! ### Callbacks -/

theorem reconcileFromFeeder_honest (h : s.Honest) : (s.reconcileFromFeeder host).Honest := by
  rw [reconcileFromFeeder]
  split_ifs
  · exact h
  · exact submitAgentCall_honest (h.transition .reconciling (by simp)) _ _

theorem onFeederConnected_honest (h : s.Honest) : (s.onFeederConnected host).Honest := by
  rw [onFeederConnected]
  split_ifs
  · exact h
  all_goals
    exact reconcileFromFeeder_honest
      ((sinkUnavailable_told _ host).honest.transition .connected (by simp))

theorem acceptAck_honest (h : s.Honest) (p : PendingWrite) (ack : MqttAck) :
    (s.acceptAck host p ack).Honest := by
  have hack : (s.cancelAckTimeout.note (.acknowledged p.id ack)).Honest := by
    refine h.undisturbed ?_
    rw [cancelAckTimeout]
    split <;> exact ⟨rfl, rfl, rfl, lastAvailable_concat _ rfl⟩
  rw [acceptAck]
  split_ifs
  · exact failed_honest hack rfl
  · exact startNextWrite_honest
      ((hack.undisturbed (retire_some_undisturbed _ rfl)).transition .ready (by simp))
  · have hverifying : (s.cancelAckTimeout.note (.acknowledged p.id ack) |>.withPending
        { p with stage := .verifying }).Honest := hack.undisturbed ⟨rfl, rfl, rfl, rfl⟩
    exact (hverifying.transition .verifyingWrite (by simp)).undisturbed
      (scheduleVerification_undisturbed _)

theorem onMqttAck_honest (h : s.Honest) (ack : MqttAck) : (s.onMqttAck host ack).Honest := by
  rw [onMqttAck]
  split
  · exact h
  · split
    · split_ifs
      · exact acceptAck_honest h _ ack
      · exact h
    · exact h

theorem fireTimer_honest (h : s.Honest) (timer : Timer) : (s.fireTimer host timer).Honest := by
  have hfired : ∀ ack verify,
      { s with
        timers := s.timers.erase timer
        ackTimeoutHandle := ack
        verifyTimerHandle := verify }.Honest :=
    fun _ _ => h.undisturbed ⟨rfl, rfl, rfl, rfl⟩
  rw [fireTimer]
  cases timer.kind with
  | ackTimeout =>
    simp only [ackTimeout]
    split
    · exact hfired none _
    · split_ifs
      · exact hfired none _
      · exact failed_honest (hfired none _) rfl
  | verification =>
    simp only [verificationTimer]
    split
    · exact hfired _ none
    · split_ifs
      · exact hfired _ none
      · exact (hfired _ none).undisturbed (scheduleVerification_undisturbed _)
      · exact submitAgentCall_honest (hfired _ none) _ _

/-- **Every callback that keeps to the condition keeps honesty.** -/
theorem handle_honest (hs : s.Sound) (h : s.Honest) {callback : Callback}
    (hkeeps : s.KeepsAvailable host callback) : (s.handle host callback).Honest := by
  cases callback with
  | feederConnected => exact onFeederConnected_honest h
  | feederDisconnected => exact Told.honest (sinkUnavailable_told s.cleared host)
  | heartbeat =>
    rw [handle, onHeartbeat]
    split_ifs
    · exact onFeederConnected_honest h
    · exact reconcileFromFeeder_honest h
    · exact h.undisturbed ⟨rfl, rfl, rfl, rfl⟩
    · exact refreshRevisions_honest h
  | persistentStateHint =>
    rw [handle, onPersistentStateHint]
    split_ifs
    · exact refreshRevisions_honest (h.undisturbed ⟨rfl, rfl, rfl, rfl⟩)
    · exact h
  | requestWrite r => exact request_honest h r
  | requestPlanSnapshot =>
    have hcallback :
        { s with planSnapshotCallbacks := s.planSnapshotCallbacks + 1 }.Honest :=
      h.undisturbed ⟨rfl, rfl, rfl, rfl⟩
    simp only [handle, requestPlanSnapshot]
    split_ifs
    · exact hcallback.undisturbed ⟨rfl, rfl, rfl, rfl⟩
    · exact submitAgentCall_honest hcallback _ _
    · exact hcallback
  | mqttAck ack => exact onMqttAck_honest h ack
  | timer timer =>
    rw [handle]
    split_ifs
    · exact fireTimer_honest h timer
    · exact h
  | agentComplete call result =>
    rw [handle]
    split_ifs
    · exact agentCallComplete_honest hs h hkeeps
    · exact h
  | shutdown =>
    intro hlast
    have hlog : lastAvailable s.shutdown.log = lastAvailable s.log :=
      lastAvailable_concat (e := .cleared) _ rfl
    exact absurd (hlog.symm.trans hlast) hkeeps

/-! ### The sink in `on_feeder_connected`

The one call of the sink with `False` whose world is not seen at once to start no write is
that of `on_feeder_connected`. The coordinator is disconnected there, because it is so
whenever the feeder is not connected. -/

/-- Without a connection the coordinator is disconnected. -/
def Offline (s : World) : Prop := s.mqttConnected = false → s.state = .disconnected

theorem offline_of_steps (hsteps : Steps .any s s') (h : s.mqttConnected = true) : s'.Offline :=
  fun hmqtt => nomatch (hsteps.mqttConnected_eq.trans h).symm.trans hmqtt

theorem onFeederConnected_offline (host : Host) (hs : s.Sound) :
    (s.onFeederConnected host).Offline := by
  obtain ⟨t, -, hconnected, hsteps⟩ := onFeederConnected_connects (Policy.any_welcomes host) hs
  exact offline_of_steps hsteps hconnected

theorem handle_offline_of_disconnected (hs : s.Sound) (h : s.Offline)
    (hmqtt : s.mqttConnected = false) (callback : Callback) :
    (s.handle host callback).Offline := by
  have hstate := h hmqtt
  obtain ⟨htoken, hpending, -⟩ := hs.connected hmqtt
  cases callback with
  | feederConnected => exact onFeederConnected_offline host hs
  | feederDisconnected | shutdown => exact fun _ => rfl
  | heartbeat =>
    rw [handle, onHeartbeat, hmqtt]
    exact onFeederConnected_offline host hs
  | persistentStateHint =>
    rw [handle, onPersistentStateHint, hstate, if_neg (by simp)]
    exact h
  | requestWrite r =>
    have hclosed : s.Closed := .inl hmqtt
    rw [handle, requestPersistentWrite, hclosed.decision_eq]
    simp only [hclosed.offer_eq]
    exact h
  | requestPlanSnapshot =>
    rw [handle, requestPlanSnapshot]
    simp only [hmqtt, Bool.not_false, if_true]
    exact fun _ => hstate
  | mqttAck ack =>
    rw [handle, onMqttAck, hpending]
    exact h
  | timer timer =>
    rw [handle, hs.timely.timers_eq_nil_of_none hpending, if_neg List.not_mem_nil]
    exact h
  | agentComplete call result =>
    have hcredits : ¬ s.Credits call := by simp [Credits, htoken]
    rw [handle]
    split_ifs
    · rw [agentCallComplete, if_pos hcredits]
      exact h
    · exact h

theorem handle_offline (hs : s.Sound) (h : s.Offline) (callback : Callback) :
    (s.handle host callback).Offline := by
  have hany := Policy.any_welcomes host
  cases hmqtt : s.mqttConnected with
  | false => exact handle_offline_of_disconnected hs h hmqtt callback
  | true =>
    cases callback with
    | feederConnected => exact onFeederConnected_offline host hs
    | feederDisconnected | shutdown => exact fun _ => rfl
    | heartbeat =>
      rw [handle, onHeartbeat]
      split_ifs
      · exact onFeederConnected_offline host hs
      · exact offline_of_steps (reconcileFromFeeder_steps hany hs) hmqtt
      · exact offline_of_steps (steps_quiet le_rfl) hmqtt
      · exact offline_of_steps (refreshRevisions_steps hany hs) hmqtt
    | persistentStateHint => exact offline_of_steps (onPersistentStateHint_steps hany hs) hmqtt
    | requestWrite r =>
      have hfree : Policy.any.Frees r :=
        ⟨trivial, fun _ => trivial, fun _ => trivial, fun _ => trivial⟩
      exact offline_of_steps (Policy.Frees.request_steps hany hs hfree) hmqtt
    | requestPlanSnapshot => exact offline_of_steps (requestPlanSnapshot_steps hany hs) hmqtt
    | mqttAck ack => exact offline_of_steps (onMqttAck_steps hany hs ack) hmqtt
    | timer timer =>
      rw [handle]
      split_ifs with htimer
      · exact offline_of_steps (fireTimer_steps hany hs htimer) hmqtt
      · exact h
    | agentComplete call result =>
      rw [handle]
      split_ifs with hcall
      · exact offline_of_steps (agentCallComplete_steps hany hs hcall result) hmqtt
      · exact h

theorem run_offline (host : Host) (callbacks : List Callback) : (run host callbacks).Offline := by
  induction callbacks using List.reverseRecOn with
  | nil => exact fun _ => rfl
  | append_singleton callbacks callback ih =>
    rw [run_append_singleton]
    exact handle_offline (run_sound host callbacks) ih callback

/-- `availability_sink(False)` has been called, and has made the given requests so far. -/
def toldUnavailable (host : Host) (s : World) (requests : List PersistentWriteRequest) : World :=
  requests.foldl (fun s r => (s.requestPersistentWrite host r).2)
    { s with tick := s.tick + 1, log := s.log ++ [.available false] }

/-- **No request starts a write inside `on_feeder_connected`.** In every run, whatever the sink
asks for when it is told `False` there, with the whole of `request_persistent_write`, is refused,
queued or merged into the pending write. -/
theorem onFeederConnected_barred (host : Host) (callbacks : List Callback)
    (hacts : ¬ ((run host callbacks).mqttConnected = true ∧
      (run host callbacks).state ≠ .disconnected)) :
    let s := run host callbacks
    let generation := if s.mqttConnected then s.generation else s.generation + 1
    let connected := { s with generation := generation, mqttConnected := true }
    (∀ earlier r, earlier ++ [r] <+: host.reenter s.tick →
      (connected.toldUnavailable host earlier).decision r ≠ .start) ∧
    s.onFeederConnected host = ((connected.toldUnavailable host (host.reenter s.tick)).transition
      .connected).reconcileFromFeeder host := by
  intro s generation connected
  have hstate : s.state = .disconnected := by
    by_contra hstate
    exact hacts ⟨by_contra fun h => hstate
      (run_offline host callbacks (eq_false_of_ne_true h)), hstate⟩
  have hbarred : connected.Barred := .inr (.inr (.inr (hstate ▸ nofun)))
  refine ⟨fun earlier r _ => ?_, ?_⟩
  · have htold : (connected.toldUnavailable host []).Barred := hbarred
    exact (htold.requests host earlier).decision_ne_start r
  · rw [onFeederConnected, if_neg hacts]
    exact congrArg (fun s => (s.transition .connected).reconcileFromFeeder host)
      (hbarred.sinkUnavailable_eq host)

/-- A host whose availability sink asks for a switch each time. -/
def eagerHost : Host :=
  { steadyHost with
    reenter := fun _ => [switchRequest "camera.enable" "camera_switch" "enabled"] }

/-- The feeder connects, its truth is read and the sink's request is started, and the feeder
disconnects. -/
def reconnects : List Callback :=
  [.feederConnected, .agentComplete ⟨1, 1, .core, .reconcile⟩
      (.truth ⟨⟨⟨"1"⟩, ⟨[], []⟩, .ofRecords []⟩, List.nodup_nil⟩), .feederDisconnected]

theorem onFeederConnected_barred_reconnects :
    ((run eagerHost (reconnects.take 2)).pendingWrite.map (·.write.control)) =
        some "camera.enable" ∧
      ∀ r ∈ eagerHost.reenter (run eagerHost reconnects).tick,
        ({ run eagerHost reconnects with
          generation := 3, mqttConnected := true }.toldUnavailable eagerHost []).decision r ≠
            .start := by
  refine ⟨by decide +kernel, fun r hr => ?_⟩
  have hbarred := (onFeederConnected_barred eagerHost reconnects (by decide +kernel)).1 [] r
  rw [List.mem_singleton.mp hr] at hbarred ⊢
  exact hbarred (List.prefix_refl _)

end World

/-- **Honest availability**: in every run in which each reconciliation is safe to normalize,
and which is shut down only while the entities are unavailable, the last value that the
availability sink was told is `True` only if the feeder is connected, the state agent
answers, and the coordinator is not disconnected. -/
theorem availability_honest (host : Host) (callbacks : List World.Callback)
    (hkeeps : AtEach (fun before callback _ =>
      (World.run host before).KeepsAvailable host callback) callbacks) :
    lastAvailable (World.run host callbacks).log = some true →
      (World.run host callbacks).mqttConnected = true ∧
        (World.run host callbacks).stateApiHealthy = true ∧
          (World.run host callbacks).state ≠ .disconnected := by
  have hhonest : (World.run host callbacks).Honest := by
    induction callbacks using List.reverseRecOn with
    | nil => exact fun hlast => nomatch hlast
    | append_singleton callbacks callback ih =>
      obtain ⟨hbefore, hlast⟩ := atEach_concat.mp hkeeps
      rw [World.run_append_singleton]
      exact World.handle_honest (World.run_sound host callbacks) (ih hbefore) hlast
  intro hlast
  obtain ⟨hconnected, hhealthy, hstate⟩ := hhonest hlast
  exact ⟨hconnected, hhealthy, hstate⟩

/-- A single feeding under an ID that Home Assistant cannot show. -/
def appPlan : FeederPlan where
  id := 12
  minute := 0
  hourUtc := 8
  oneShot := true
  oneShotRaw := 1
  timeUtc := "08:00"
  timeLocalCandidate := "08:00"
  daysRaw := []
  days := []
  portions := 2
  enableAudioRaw := 1
  audioTimes := 3
  executionState := 0
  syncTime := 1000
  skipEndTime := 0
  opaqueHex := some "00000000000000000000"

/-- A feeder with that plan. -/
def appTruth : CoreTruth where
  revisions := ⟨"1"⟩
  settings := ⟨[], []⟩
  plans := .ofRecords [appPlan]
  nodup := by decide

/-- A host whose publisher may raise, and whose truth sink may raise at some calls. -/
def faultyHost (publishes : Bool) (projects : ℕ → Bool) : Host where
  publisher _ := if publishes then some ⟨"FEEDING_PLAN_SERVICE", "1"⟩ else none
  truthSink := projects
  executor _ := true
  reenter _ := []
  clock _ := 500
  planCollectionPublisher := true

/-- The feeder connects, and its truth is read. -/
def connects : List World.Callback :=
  [.feederConnected, .agentComplete ⟨0, 1, .core, .reconcile⟩ (.truth appTruth)]

theorem availability_honest_connects :
    lastAvailable (World.run (faultyHost true fun _ => true) connects).log = some true ∧
      (World.run (faultyHost true fun _ => true) connects).state ≠ .disconnected := by
  have hlast : lastAvailable (World.run (faultyHost true fun _ => true) connects).log =
      some true := by decide +kernel
  have hup := availability_honest (faultyHost true fun _ => true) connects ?_ hlast
  · exact ⟨hlast, hup.2.2⟩
  · refine atEach_cons.mpr ⟨trivial, atEach_cons.mpr ⟨?_, atEach_nil _⟩⟩
    exact fun _ _ _ _ _ => .inl (Option.some_ne_none _)

/-- **The entities are left available after the coordinator has disconnected.** The publisher
of the normalization raises, and so does the projection of the retained truth. -/
theorem available_after_disconnect :
    lastAvailable (World.run (faultyHost false (· == 2)) connects).log = some true ∧
      (World.run (faultyHost false (· == 2)) connects).state = .disconnected := by
  decide +kernel

end PetlibroLocal
