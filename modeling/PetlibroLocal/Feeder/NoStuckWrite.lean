import PetlibroLocal.Feeder.CoordinatorRuns

/-!
# No Stuck Write

The pending write blocks all others, so something must always be on its way that will end
it: the call that the operation token stands for, or one of its two timers. Likewise, when
no write is pending and the queue is not empty, a call must be out whose completion starts
the next one.

`Live owed` is this statement. Within a callback of the agent the token is given back before
the result is handled, and `_maybe_process_deferred` comes last; until then a preparing write
and a queue may be left alone, which is what `owed` allows. The lemmas follow the order of
the model; each method leaves the coordinator live whatever raises in it.

The main results are `World.maybeProcessDeferred_live`, `World.handle_live` and
`no_stuck_write`.
-/

namespace PetlibroLocal

namespace World

/-- A timer of the pending write is armed. -/
def Timed (s : World) (p : PendingWrite) : Prop := ∃ t ∈ s.timers, t.pendingId = p.id

/-- Something is on its way that goes on with the pending write. -/
def Attended (owed : Prop) (s : World) (p : PendingWrite) : Prop :=
  match p.stage with
  | .preparing => owed ∨ s.operationToken.isSome
  | .awaitingAck => s.Timed p
  | .verifying => s.Timed p ∨ s.operationToken.isSome ∧
      ∀ c ∈ s.calls, s.operationToken = some c.token → c.purpose = .verify

/-- **Nothing is stuck**, but for what `_maybe_process_deferred` still has to do. -/
structure Live (owed : Prop) (s : World) : Prop where
  attended : ∀ p, s.pendingWrite = some p → s.Attended owed p
  queued : s.pendingWrite = none → s.state = .ready → s.queuedWrites ≠ [] →
    owed ∨ s.operationToken.isSome

variable {owed : Prop} {host : Host} {s s' : World} {p : PendingWrite}

/-! ### Ways to be live -/

/-- A preparing write needs a call. -/
theorem attended_preparing (hstage : p.stage = .preparing) :
    s.Attended owed p ↔ owed ∨ s.operationToken.isSome := by
  simp only [Attended, hstage]

/-- A sent write needs a timer. -/
theorem attended_awaitingAck (hstage : p.stage = .awaitingAck) : s.Attended owed p ↔ s.Timed p := by
  simp only [Attended, hstage]

/-- A write that is verified needs a timer, or its call. -/
theorem attended_verifying (hstage : p.stage = .verifying) :
    s.Attended owed p ↔ s.Timed p ∨ s.operationToken.isSome ∧
      ∀ c ∈ s.calls, s.operationToken = some c.token → c.purpose = .verify := by
  simp only [Attended, hstage]

/-- While a write is pending, it alone counts. -/
theorem live_of_some (hpending : s.pendingWrite = some p) (h : s.Attended owed p) :
    s.Live owed := by
  refine ⟨fun q hq => ?_, fun hnone => absurd (hnone.symm.trans hpending) nofun⟩
  obtain rfl := Option.some.inj (hpending.symm.trans hq)
  exact h

/-- While no write is pending, the queue alone counts. -/
theorem live_of_none (hpending : s.pendingWrite = none)
    (hqueued : s.state = .ready → s.queuedWrites ≠ [] → owed ∨ s.operationToken.isSome) :
    s.Live owed :=
  ⟨fun _ hp => (nomatch hpending.symm.trans hp), fun _ => hqueued⟩

/-- Unless ready, the queue may wait. -/
theorem transition_live {new : FeederState} (hnew : new ≠ .ready)
    (h : ∀ p, s.pendingWrite = some p → s.Attended owed p) : (s.transition new).Live owed :=
  ⟨h, fun _ hready => absurd hready hnew⟩

/-- A disconnected coordinator owes nothing. -/
theorem disconnected_live (hpending : s.pendingWrite = none) :
    (s.transition .disconnected).Live owed :=
  transition_live nofun fun _ hp => nomatch hpending.symm.trans hp

/-- And leaves the pending write attended. -/
theorem Live.disconnect (h : s.Live owed) : (s.transition .disconnected).Live owed :=
  transition_live nofun h.attended

/-- What still follows in a callback is owed. -/
theorem live_owed (h : ∀ p, s.pendingWrite = some p → s.Attended True p) : s.Live True :=
  ⟨h, fun _ _ _ => .inl trivial⟩

variable {owed' : Prop} {method : AgentMethod} {call : AgentCall}

/-- What has to be kept for a write to stay attended: its timers, and the token if it stands for its
call. -/
theorem Attended.imp (h : s.Attended owed p) (htimers : s'.timers = s.timers)
    (hpreparing : p.stage = .preparing → owed ∨ s.operationToken.isSome →
      owed' ∨ s'.operationToken.isSome)
    (hverifying : p.stage = .verifying →
      (s.operationToken.isSome ∧
        ∀ c ∈ s.calls, s.operationToken = some c.token → c.purpose = .verify) →
      s'.operationToken.isSome ∧
        ∀ c ∈ s'.calls, s'.operationToken = some c.token → c.purpose = .verify) :
    s'.Attended owed' p := by
  have htimed : s'.Timed p ↔ s.Timed p := by rw [Timed, Timed, htimers]
  cases hstage : p.stage with
  | preparing =>
    rw [attended_preparing hstage] at h ⊢
    exact hpreparing hstage h
  | awaitingAck =>
    rw [attended_awaitingAck hstage] at h ⊢
    exact htimed.mpr h
  | verifying =>
    rw [attended_verifying hstage] at h ⊢
    exact h.imp htimed.mpr (hverifying hstage)

/-- A token that is taken attends to a preparing write. -/
theorem Attended.of_isSome (h : s.Attended owed p) (htoken : s.operationToken.isSome) :
    s.Attended owed' p :=
  h.imp rfl (fun _ _ => .inr htoken) fun _ => id

/-- A write that was sent does not depend on what is owed. -/
theorem Attended.of_ne_preparing (h : s.Attended owed p) (hother : p.stage ≠ .preparing) :
    s.Attended owed' p :=
  h.imp rfl (fun hstage => absurd hstage hother) fun _ => id

/-- A call that is submitted while none was out attends to whatever is pending. -/
theorem Attended.submitted (h : s.Attended owed p) (htoken : s.operationToken = none)
    (htimers : s'.timers = s.timers) (hsubmitted : s'.operationToken.isSome) :
    s'.Attended owed' p := by
  refine h.imp htimers (fun _ _ => .inr hsubmitted) fun _ hout => ?_
  rw [htoken] at hout
  exact nomatch hout.1

/-- A result for no one takes nothing away. -/
theorem Attended.forget (h : s.Attended owed p) (htimers : s'.timers = s.timers)
    (htoken : s'.operationToken = s.operationToken) (hcalls : ∀ c ∈ s'.calls, c ∈ s.calls) :
    s'.Attended owed p := by
  refine h.imp htimers ?_ ?_
  · rw [htoken]
    exact fun _ => id
  · rw [htoken]
    exact fun _ hout => ⟨hout.1, fun c hc => hout.2 c (hcalls c hc)⟩

/-! ### Accepting requests -/

/-- A write is queued only behind another one, or behind a call. -/
theorem Live.queueWrite (h : s.Live owed) (w : QueuedWrite)
    (hbusy : s.pendingWrite ≠ none ∨ s.operationToken.isSome) :
    (s.queueWrite w).2.Live owed := by
  have hqueued : s.pendingWrite = none → owed ∨ s.operationToken.isSome := fun hnone =>
    .inr (hbusy.resolve_left (not_not.mpr hnone))
  rw [World.queueWrite]
  split
  · exact ⟨h.attended, fun hnone _ _ => hqueued hnone⟩
  · split_ifs
    · exact h
    · exact ⟨h.attended, fun hnone _ _ => hqueued hnone⟩

/-- **A request that starts nothing** leaves nothing stuck. -/
theorem Live.offer (h : s.Live owed) (r : PersistentWriteRequest) : (s.offer r).2.Live owed := by
  have hdrawn : s.drawn.Live owed := ⟨h.attended, h.queued⟩
  have hdecides := s.decides r
  rw [World.offer]
  generalize s.decision r = d at hdecides
  cases hdecides with
  | refuse | start => exact hdrawn
  | coalesce _ hpending hstage =>
    have hattended := (attended_preparing hstage).mp (h.attended _ hpending)
    exact live_of_some rfl ((attended_preparing hstage).mpr hattended)
  | behind _ hpending => exact hdrawn.queueWrite _ (.inl (hpending ▸ Option.some_ne_none _))
  | later _ _ htoken => exact hdrawn.queueWrite _ (.inr htoken)

/-- Requests made from inside the sink leave nothing stuck. -/
theorem Live.sinkUnavailable (h : s.Live owed) (host : Host) :
    (s.sinkUnavailable host).Live owed :=
  List.foldlRecOn _ _ ⟨h.attended, h.queued⟩ fun _ h r _ => h.offer r

/-! ### The end of a write -/

/-- A commit leaves the pending write. -/
theorem commitVerifiedTruth_pendingWrite {truth : CoreTruth} {projected : Bool}
    (h : s.commitVerifiedTruth host truth = (projected, s')) :
    s'.pendingWrite = s.pendingWrite := by
  rw [commitVerifiedTruth, Prod.mk.injEq] at h
  obtain ⟨-, rfl⟩ := h
  rfl

/-- And what attends to it. -/
theorem Live.commit (h : s.Live owed) {truth : CoreTruth} {projected : Bool}
    (heq : s.commitVerifiedTruth host truth = (projected, s')) : s'.Live owed := by
  rw [commitVerifiedTruth, Prod.mk.injEq] at heq
  obtain ⟨-, rfl⟩ := heq
  exact ⟨h.attended, h.queued⟩

/-- Once disconnected, an empty place needs no one. -/
theorem completeDegradedWrite_live (ending : Option LogEntry) :
    (s.completeDegradedWrite host ending).Live owed :=
  (disconnected_live rfl).sinkUnavailable host

/-- A truth that is not retained disconnects. -/
theorem retainTruth_false_live (hpending : s.pendingWrite = none)
    (h : s.retainTruth host = (false, s')) : s'.Live owed := by
  rw [retainTruth] at h
  split at h
  · cases h
  split at h
  · cases h
  next heq =>
  cases h
  have hnone := (commitVerifiedTruth_pendingWrite heq).trans hpending
  exact (disconnected_live hnone).sinkUnavailable host

/-- A write that is given up is gone. -/
theorem giveUpAfterApiFailure_live (p : PendingWrite) :
    (s.giveUpAfterApiFailure host p).Live owed := by
  rw [giveUpAfterApiFailure]
  cases p.lastObservedTruth with
  | some truth => exact (disconnected_live rfl).sinkUnavailable host
  | none => exact completeDegradedWrite_live _

/-! ### Calls to the agent -/

/-- The timer of a verification attends to its write. -/
theorem scheduleVerification_live (hpending : s.pendingWrite = some p)
    (hstage : p.stage = .verifying) : s.scheduleVerification.Live owed := by
  rw [scheduleVerification_eq hpending]
  refine live_of_some hpending ((attended_verifying hstage).mpr (.inl ?_))
  exact ⟨_, List.mem_append_right _ (List.mem_singleton_self _), rfl⟩

/-- A write that is retried has a timer. -/
theorem retryAfterApiFailure_live (hstage : p.stage = .verifying) :
    (s.retryAfterApiFailure host p).Live owed := by
  rw [retryAfterApiFailure]
  split_ifs
  · exact scheduleVerification_live rfl hstage
  · exact giveUpAfterApiFailure_live _

/-- A failed call leaves nothing stuck: its own write is retried or ends, and of the others
the coordinator only becomes disconnected. -/
theorem handleAgentFailure_live {purpose : AgentPurpose}
    (hverify : purpose = .verify → ∃ p, s.pendingWrite = some p ∧ p.stage = .verifying)
    (hother : purpose ≠ .verify → purpose ≠ .writePreflight →
      ∀ p, s.pendingWrite = some p → s.Attended owed p) :
    (s.handleAgentFailure host purpose).Live owed := by
  have hclosed : { s with stateApiHealthy := false }.Closed := .inr (.inl rfl)
  obtain ⟨next, -, heq⟩ := hclosed.sinkUnavailable_eq host
  simp only [handleAgentFailure, heq]
  cases purpose with
  | verify =>
    obtain ⟨p, hp, hstage⟩ := hverify rfl
    simp only [hp]
    exact retryAfterApiFailure_live hstage
  | writePreflight => exact completeDegradedWrite_live _
  | planSnapshot | heartbeat | reconcile =>
    exact transition_live (by simp) (hother (by simp) (by simp))

/-- A call attends to the queue, and its failure leaves no one ready. -/
theorem submitAgentCall_live {purpose : AgentPurpose} (htoken : s.operationToken = none)
    (hverify : purpose ≠ .verify) (h : ∀ p, s.pendingWrite = some p → s.Attended owed p) :
    (s.submitAgentCall host method purpose).Live owed := by
  simp only [submitAgentCall, htoken, Option.isSome_none, Bool.false_eq_true, if_false]
  split_ifs
  · exact ⟨fun p hp => (h p hp).submitted htoken rfl rfl, fun _ _ _ => .inr rfl⟩
  · exact handleAgentFailure_live (fun heq => absurd heq hverify) fun _ _ => h

/-- **A preparing write has a call**, or ends when there can be none. -/
theorem submitPreflight_live (hpending : s.pendingWrite = some p) (hstage : p.stage = .preparing) :
    (s.submitAgentCall host method .writePreflight).Live owed := by
  rw [submitAgentCall]
  split_ifs with htoken
  · exact live_of_some hpending ((attended_preparing hstage).mpr (.inr htoken))
  · exact live_of_some hpending ((attended_preparing hstage).mpr (.inr rfl))
  · exact handleAgentFailure_live (by simp) fun _ h => absurd rfl h

/-- **A write that is verified has its call**, or is retried. -/
theorem submitVerify_live (hs : s.Sound) (hpending : s.pendingWrite = some p)
    (hstage : p.stage = .verifying) (htoken : s.operationToken = none) :
    (s.submitAgentCall host method .verify).Live owed := by
  simp only [submitAgentCall, htoken, Option.isSome_none, Bool.false_eq_true, if_false]
  split_ifs
  · refine live_of_some hpending ((attended_verifying hstage).mpr (.inr ⟨rfl, ?_⟩))
    intro c hc hcurrent
    rw [hs.eq_of_nextId hc hcurrent]
  · exact handleAgentFailure_live (fun _ => ⟨p, hpending, hstage⟩) fun h => absurd rfl h

/-! ### Starting writes -/

/-- A command that was sent has a timeout. -/
theorem sent_live (s : World) (p : PendingWrite) (now : ℕ) (truth : CoreTruth)
    (predicate : Option TruthPredicate) (receipt : CommandReceipt) :
    (s.sent p now truth predicate receipt).Live owed :=
  live_of_some rfl ((attended_awaitingAck rfl).mpr
    ⟨_, List.mem_append_right _ (List.mem_singleton_self _), rfl⟩)

/-- **The start of a write leaves nothing stuck.** -/
theorem Launches.live (h : Launches host s s') : s'.Live owed := by
  induction h with
  | preflight hpending hstage => exact submitPreflight_live hpending hstage
  | sent _ _ hpublish =>
    obtain ⟨now, truth, prepared, receipt, -, rfl⟩ := tryPublish_ok hpublish
    exact sent_live _ _ _ _ _ _
  | degraded _ _ _ hretain => exact retainTruth_false_live rfl hretain
  | drained _ _ _ hretain hqueue =>
    obtain ⟨tick, latest, revisions, rfl, -⟩ := retainTruth_true hretain
    exact live_of_none rfl fun _ hne => absurd hqueue hne
  | next _ _ _ _ _ _ ih => exact ih

/-- The queue goes on if the coordinator is ready, or it is empty. -/
theorem startNextWrite_live (h : ∀ p, s.pendingWrite = some p → s.Attended owed p) :
    (s.startNextWrite host).Live owed := by
  rw [startNextWrite]
  split_ifs with hready
  · split
    · next hqueue => exact ⟨h, fun _ _ hne => absurd hqueue hne⟩
    · exact (startWrite_launches host _ _ _).live
  · refine ⟨h, fun hnone hstate => ?_⟩
    exact absurd ⟨Option.isNone_iff_eq_none.mpr hnone, hstate⟩ hready

/-- **The end of a write** makes room for the next one. -/
theorem completeFailedWrite_live (ending : Option LogEntry) :
    (s.completeFailedWrite host ending).Live owed := by
  rw [completeFailedWrite]
  split
  · next hretain => exact retainTruth_false_live rfl hretain
  · next hretain =>
    obtain ⟨tick, latest, revisions, rfl, -⟩ := retainTruth_true hretain
    exact startNextWrite_live fun _ hp => absurd hp.symm (Option.some_ne_none _)

/-- A preparing write is sent, or makes room. -/
theorem publishPending_live (truth : Option CoreTruth) :
    (s.publishPending host truth).Live owed := by
  rw [publishPending]
  split
  · exact completeFailedWrite_live _
  · split
    · next hpublish =>
      obtain ⟨now, truth, prepared, receipt, -, rfl⟩ := tryPublish_ok hpublish
      exact sent_live _ _ _ _ _ _
    · exact completeFailedWrite_live _

/-- **A request** leaves nothing stuck. -/
theorem Live.request (h : s.Live owed) (host : Host) (r : PersistentWriteRequest) :
    (s.requestPersistentWrite host r).2.Live owed := by
  rw [requestPersistentWrite]
  split
  · exact (startWrite_launches host _ _ _).live
  · exact h.offer r

/-- The sink's requests leave nothing stuck. -/
theorem Live.sinkAvailable (h : s.Live owed) (host : Host) : (s.sinkAvailable host).Live owed :=
  List.foldlRecOn _ _ ⟨h.attended, h.queued⟩ fun _ h r _ => h.request host r

/-- And so does the coordinator's own. -/
theorem Live.maybeNormalizePlanIds (h : s.Live owed) (host : Host) (truth : CoreTruth) :
    (s.maybeNormalizePlanIds host truth).Live owed := by
  rw [World.maybeNormalizePlanIds]
  split
  · exact h
  · split_ifs
    · exact h
    · exact h
    · exact h.request host _

/-! ### Results of calls

The token has been given back, and `_maybe_process_deferred` is still to come. -/

/-- A ready coordinator owes the queue its start. -/
theorem ready_live (hpending : s.pendingWrite = none) : (s.transition .ready).Live True :=
  live_owed fun _ hp => nomatch hpending.symm.trans hp

/-- A write that is given up makes room for the next one. -/
theorem giveUpVerification_live (p : PendingWrite) :
    (s.giveUpVerification host p).Live True := by
  rw [giveUpVerification]
  cases p.lastObservedTruth with
  | some truth =>
    have hsink : ((((s.transition .diverged).commitVerifiedTruth host truth).2.dropPending.note
        (.resolved p.id p.write (.diverged p.predicate truth))).transition .ready |>.sinkAvailable
          host).Live True := (ready_live rfl).sinkAvailable host
    simp only
    split_ifs
    · exact (disconnected_live rfl).sinkUnavailable host
    · split
      · exact startNextWrite_live hsink.attended
      · exact startNextWrite_live (hsink.maybeNormalizePlanIds host truth).attended
  | none => exact completeFailedWrite_live _

/-- A verification that is retried has a timer. -/
theorem retryVerification_live (hstage : p.stage = .verifying) :
    (s.retryVerification host p).Live True := by
  rw [retryVerification]
  split_ifs
  · exact scheduleVerification_live rfl hstage
  · exact giveUpVerification_live _

/-- A verified write makes room for the next one. -/
theorem acceptVerification_live (p : PendingWrite) (predicate : TruthPredicate)
    (truth : CoreTruth) : (s.acceptVerification host p predicate truth).Live True := by
  rw [acceptVerification]
  split
  · exact completeDegradedWrite_live _
  · next t _ =>
    have hready : ((t.dropPending.note
        (.resolved p.id p.write (.verified predicate truth))).transition .ready).Live True :=
      ready_live rfl
    exact startNextWrite_live
      ((hready.sinkAvailable host).maybeNormalizePlanIds host truth).attended

/-- The answer to a verification ends the write or asks again. -/
theorem handleVerificationTruth_live (hpending : s.pendingWrite = some p)
    (hstage : p.stage = .verifying) (value : AgentResult) :
    (s.handleVerificationTruth host value).Live True := by
  simp only [handleVerificationTruth, hpending, hstage, ne_eq, not_true_eq_false, if_false]
  have hretry : (s.retryVerification host p).Live True := retryVerification_live hstage
  cases value with
  | truth truth =>
    simp only
    split
    · split_ifs
      · exact acceptVerification_live _ _ _
      · exact retryVerification_live hstage
    · exact retryVerification_live hstage
  | failed | revisions | other => exact hretry

/-- New revisions ask for a read. -/
theorem handleRevisionSnapshot_live (h : s.Live True) (htoken : s.operationToken = none)
    (value : AgentResult) : (s.handleRevisionSnapshot host value).Live True := by
  have hfailure : (s.handleAgentFailure host .heartbeat).Live True :=
    handleAgentFailure_live (by simp) fun _ _ => h.attended
  cases value with
  | revisions r =>
    rw [handleRevisionSnapshot]
    split_ifs
    · exact submitAgentCall_live htoken (by simp) h.attended
    · exact h
  | failed | truth | other => exact hfailure

/-- A truth starts the queue. -/
theorem handleReconciledTruth_live (h : s.Live True) (value : AgentResult) :
    (s.handleReconciledTruth host value).Live True := by
  have hfailure : (s.handleAgentFailure host .reconcile).Live True :=
    handleAgentFailure_live (by simp) fun _ _ => h.attended
  cases value with
  | truth truth =>
    rw [handleReconciledTruth]
    split
    · next heq =>
      exact (h.commit heq).disconnect.sinkUnavailable host
    · next t heq =>
      have hready : (t.transition .ready).Live True := live_owed (h.commit heq).attended
      exact startNextWrite_live
        ((hready.maybeNormalizePlanIds host truth).sinkAvailable host).attended
  | failed | revisions | other => exact hfailure

/-- The answer to a preflight read ends the write or sends its command. -/
theorem handleWritePreflight_live (hpending : s.pendingWrite = some p)
    (hstage : p.stage = .preparing) (value : AgentResult) :
    (s.handleWritePreflight host value).Live True := by
  simp only [handleWritePreflight, hpending, hstage, ne_eq, not_true_eq_false, if_false]
  cases value with
  | truth truth =>
    simp only
    split
    · exact completeDegradedWrite_live _
    · exact publishPending_live _
  | failed | revisions | other => exact completeFailedWrite_live _

/-- A plan snapshot leaves nothing stuck. -/
theorem handlePlanSnapshot_live (h : s.Live True) (value : AgentResult) :
    (s.handlePlanSnapshot host value).Live True := by
  have hfinish : ∀ {s : World}, s.Live True → s.finishPlanSnapshots.Live True :=
    fun h => ⟨h.attended, h.queued⟩
  cases value with
  | truth truth =>
    rw [handlePlanSnapshot]
    split
    · next heq =>
      exact hfinish ((h.commit heq).disconnect.sinkUnavailable host)
    · next t heq =>
      have hready : (t.transition .ready).Live True := live_owed (h.commit heq).attended
      dsimp only
      split_ifs
      · exact (hfinish (hready.sinkAvailable host)).maybeNormalizePlanIds host truth
      · exact hfinish (hready.sinkAvailable host)
      · exact (hfinish (h.commit heq)).maybeNormalizePlanIds host truth
      · exact hfinish (h.commit heq)
  | failed | revisions | other => exact hfinish h

/-! ### Completions -/

/-- Asking for the revisions leaves nothing stuck. -/
theorem refreshRevisions_live (h : s.Live owed) : (s.refreshRevisions host).Live owed := by
  rw [refreshRevisions]
  split_ifs with hblocked
  · exact ⟨h.attended, h.queued⟩
  · simp only [Bool.or_eq_true, Bool.not_eq_true', not_or, Bool.not_eq_true,
      Option.isSome_eq_false_iff, Option.isNone_iff_eq_none] at hblocked
    exact submitAgentCall_live hblocked.2 (by simp) h.attended

/-- **What was owed is done at the end of a callback.** -/
theorem maybeProcessDeferred_live (h : s.Live True) : (s.maybeProcessDeferred host).Live False := by
  rw [maybeProcessDeferred]
  by_cases htoken : s.operationToken.isSome = true
  · rw [if_pos htoken]
    exact ⟨fun p hp => (h.attended p hp).of_isSome htoken, fun _ _ _ => .inr htoken⟩
  · rw [if_neg htoken]
    have hnone := Option.not_isSome_iff_eq_none.mp htoken
    split
    · next p hpending =>
      split_ifs with hstage
      · exact submitPreflight_live hpending hstage
      · exact live_of_some hpending ((h.attended p hpending).of_ne_preparing hstage)
    · next hpending =>
      have hattended : ∀ p, s.pendingWrite = some p → s.Attended False p :=
        fun _ hp => absurd hp (by simp [hpending])
      split_ifs with hsnapshot hqueue
      · exact submitAgentCall_live hnone (by simp) hattended
      · exact startNextWrite_live hattended
      · exact refreshRevisions_live ⟨hattended, fun _ hready hne => absurd ⟨hready, hne⟩ hqueue⟩
      · exact ⟨hattended, fun _ hready hne => absurd ⟨hready, hne⟩ hqueue⟩

/-- The call that was waited for has completed; unless it verified the pending write, that
write is attended to by something else. -/
theorem Live.released (h : s.Live False) (hcall : call ∈ s.calls) (hcredits : s.Credits call)
    (hpurpose : call.purpose ≠ .verify) (hpending : s'.pendingWrite = s.pendingWrite)
    (htimers : s'.timers = s.timers) : s'.Live True := by
  refine live_owed fun p hp => ?_
  refine (h.attended p (hpending ▸ hp)).imp htimers (fun _ _ => .inl trivial) fun _ hout => ?_
  exact absurd (hout.2 call hcall hcredits.2) hpurpose

/-- **An answer** leaves nothing stuck but what is owed. -/
theorem handleValue_live (host : Host) (hs : s.Sound) (h : s.Live False) (hcall : call ∈ s.calls)
    (hcredits : s.Credits call) (value : AgentResult) {t : World}
    (ht : t = (s.completed call value).markAgentRecovered) :
    (t.handleValue host call.purpose value).Live True := by
  have hpending : t.pendingWrite = s.pendingWrite := ht ▸ rfl
  have hreleased : call.purpose ≠ .verify → t.Live True := fun hpurpose =>
    h.released hcall hcredits hpurpose hpending (ht ▸ rfl)
  cases hpurpose : call.purpose with
  | heartbeat =>
    have htoken : t.operationToken = none := by
      rw [ht, completed_of_credits hcredits]
      rfl
    exact handleRevisionSnapshot_live (hreleased (by simp [hpurpose])) htoken value
  | reconcile => exact handleReconciledTruth_live (hreleased (by simp [hpurpose])) value
  | writePreflight =>
    obtain ⟨p, hp, hstage⟩ := hs.writePreflight call hcall hcredits.2 hpurpose
    exact handleWritePreflight_live (hpending.trans hp) hstage value
  | verify =>
    obtain ⟨p, hp, hstage, -⟩ := hs.verify call hcall hcredits.2 hpurpose
    exact handleVerificationTruth_live (hpending.trans hp) hstage value
  | planSnapshot => exact handlePlanSnapshot_live (hreleased (by simp [hpurpose])) value

/-- **The completion of a call** leaves nothing stuck, be it a current one or not. -/
theorem agentCallComplete_live (hs : s.Sound) (h : s.Live False) (hcall : call ∈ s.calls)
    (result : AgentResult) : (s.agentCallComplete host call result).Live False := by
  rw [agentCallComplete]
  by_cases hcredits : s.Credits call
  · rw [if_neg (not_not.mpr hcredits), ← completed_of_credits hcredits]
    have hvalue := handleValue_live host hs h hcall hcredits result rfl
    cases result with
    | failed =>
      refine maybeProcessDeferred_live (handleAgentFailure_live ?_ ?_)
      · intro hpurpose
        obtain ⟨p, hp, hstage, -⟩ := hs.verify call hcall hcredits.2 hpurpose
        exact ⟨p, hp, hstage⟩
      · intro hpurpose _
        have hreleased : (s.completed call .failed).Live True :=
          h.released hcall hcredits hpurpose rfl rfl
        exact hreleased.attended
    | truth | revisions | other => exact maybeProcessDeferred_live hvalue
  · rw [if_pos hcredits]
    exact ⟨fun p hp => (h.attended p hp).forget rfl rfl fun c => List.mem_of_mem_erase, h.queued⟩

/-! ### Callbacks -/

/-- And so does asking for the truth. -/
theorem reconcileFromFeeder_live (h : s.Live owed) : (s.reconcileFromFeeder host).Live owed := by
  rw [reconcileFromFeeder]
  split_ifs with hblocked
  · exact h
  · simp only [Bool.or_eq_true, Bool.not_eq_true', not_or, Bool.not_eq_true,
      Option.isSome_eq_false_iff, Option.isNone_iff_eq_none] at hblocked
    exact submitAgentCall_live hblocked.2 (by simp) h.attended

/-- A connection starts with a read. -/
theorem onFeederConnected_live (h : s.Live owed) : (s.onFeederConnected host).Live owed := by
  rw [onFeederConnected]
  have hconnected : ∀ generation,
      { s with generation := generation, mqttConnected := true }.Live owed :=
    fun _ => ⟨h.attended, h.queued⟩
  split_ifs
  · exact h
  · exact reconcileFromFeeder_live
      (transition_live (by simp) ((hconnected _).sinkUnavailable host).attended)
  · exact reconcileFromFeeder_live
      (transition_live (by simp) ((hconnected _).sinkUnavailable host).attended)

/-- An acknowledged write is verified, or makes room. -/
theorem acceptAck_live (p : PendingWrite) (ack : MqttAck) : (s.acceptAck host p ack).Live owed := by
  rw [acceptAck]
  split_ifs
  · exact completeFailedWrite_live _
  · exact startNextWrite_live fun _ hp => absurd hp.symm (Option.some_ne_none _)
  · exact scheduleVerification_live rfl rfl

/-- Other acknowledgements change nothing. -/
theorem onMqttAck_live (h : s.Live owed) (ack : MqttAck) : (s.onMqttAck host ack).Live owed := by
  rw [onMqttAck]
  split
  · exact h
  · split
    · split_ifs
      · exact acceptAck_live _ _
      · exact h
    · exact h

/-- **A timer that has run out** ends its write, asks again, or is armed once more. -/
theorem fireTimer_live (hs : s.Sound) {timer : Timer} (htimer : timer ∈ s.timers) :
    (s.fireTimer host timer).Live owed := by
  rcases hs.timely with hnil | ⟨t, p, htimers, hpending, hid, hkind⟩
  · rw [hnil] at htimer
    exact absurd htimer List.not_mem_nil
  · obtain rfl : timer = t := List.mem_singleton.mp (htimers ▸ htimer)
    rcases hkind with ⟨hkind, -⟩ | ⟨hkind, hstage, -⟩
    · simp only [fireTimer, hkind, ackTimeout, hpending, hid, ne_eq, not_true_eq_false, if_false]
      exact completeFailedWrite_live _
    · have hs' : { s with timers := s.timers.erase timer, verifyTimerHandle := none }.Sound := by
        have herase : s.timers.erase timer = [] := by
          rw [htimers, List.erase_cons_head]
        rw [herase]
        exact hs.step (π := .any) (.disarm s s.ackTimeoutHandle none)
      simp only [fireTimer, hkind, verificationTimer, hpending, hid, ne_eq, not_true_eq_false,
        if_false]
      split_ifs with htoken
      · exact scheduleVerification_live rfl hstage
      · rw [hpending] at hs'
        exact submitVerify_live hs' rfl hstage (Option.not_isSome_iff_eq_none.mp htoken)

/-- **Every callback leaves the coordinator live.** -/
theorem handle_live (hs : s.Sound) (h : s.Live False) (callback : Callback) :
    (s.handle host callback).Live False := by
  cases callback with
  | feederConnected => exact onFeederConnected_live h
  | feederDisconnected =>
    have hcleared : s.cleared.Live False := live_of_none rfl fun _ hne => absurd rfl hne
    exact transition_live (by simp) (hcleared.sinkUnavailable host).attended
  | heartbeat =>
    rw [handle, onHeartbeat]
    split_ifs
    · exact onFeederConnected_live h
    · exact reconcileFromFeeder_live h
    · exact ⟨h.attended, h.queued⟩
    · exact refreshRevisions_live h
  | persistentStateHint =>
    rw [handle, onPersistentStateHint]
    split_ifs
    · exact refreshRevisions_live ⟨h.attended, h.queued⟩
    · exact h
  | requestWrite r => exact h.request host r
  | requestPlanSnapshot =>
    simp only [handle, requestPlanSnapshot]
    split_ifs with hmqtt hidle
    · exact ⟨h.attended, h.queued⟩
    · exact submitAgentCall_live (Option.isNone_iff_eq_none.mp hidle.1) (by simp) h.attended
    · exact ⟨h.attended, h.queued⟩
  | mqttAck ack => exact onMqttAck_live h ack
  | timer timer =>
    rw [handle]
    split_ifs with htimer
    · exact fireTimer_live hs htimer
    · exact h
  | agentComplete call result =>
    rw [handle]
    split_ifs with hcall
    · exact agentCallComplete_live hs h hcall result
    · exact h
  | shutdown => exact disconnected_live rfl

/-- **Nothing is stuck between any two callbacks of a run.** -/
theorem run_live (host : Host) (callbacks : List Callback) : (run host callbacks).Live False := by
  induction callbacks using List.reverseRecOn with
  | nil => exact live_of_none rfl fun h => nomatch h
  | append_singleton callbacks callback ih =>
    rw [run_append_singleton]
    exact handle_live (run_sound host callbacks) ih callback

/-- The call that the coordinator waits for is held by the host. -/
def Outstanding (s : World) : Prop :=
  ∃ c ∈ s.calls, s.operationToken = some c.token ∧ c.generation = s.generation

/-- A token that is taken stands for a call that is out. -/
theorem Sound.outstanding (hs : s.Sound) (htoken : s.operationToken.isSome) : s.Outstanding := by
  obtain ⟨k, hk⟩ := Option.isSome_iff_exists.mp htoken
  obtain ⟨c, hc, rfl, hgeneration⟩ := hs.token k hk
  exact ⟨c, hc, hk, hgeneration⟩

end World

/-- **No stuck write**: between any two callbacks of every run, a call with the current token
and generation is outstanding or a timer of the pending write is armed whenever a write is
pending, and such a call is outstanding whenever a ready coordinator has a queue and no
pending write. -/
theorem no_stuck_write (host : Host) (callbacks : List World.Callback) :
    (∀ p, (World.run host callbacks).pendingWrite = some p →
        (World.run host callbacks).Outstanding ∨
          ∃ t ∈ (World.run host callbacks).timers, t.pendingId = p.id) ∧
      ((World.run host callbacks).pendingWrite = none →
        (World.run host callbacks).state = .ready →
          (World.run host callbacks).queuedWrites ≠ [] →
            (World.run host callbacks).Outstanding) := by
  have hs := World.run_sound host callbacks
  have hlive := World.run_live host callbacks
  constructor
  · intro p hp
    have hattended := hlive.attended p hp
    cases hstage : p.stage with
    | preparing =>
      have htoken := ((World.attended_preparing hstage).mp hattended).resolve_left id
      exact .inl (hs.outstanding htoken)
    | awaitingAck => exact .inr ((World.attended_awaitingAck hstage).mp hattended)
    | verifying =>
      rcases (World.attended_verifying hstage).mp hattended with htimed | ⟨htoken, -⟩
      · exact .inr htimed
      · exact .inl (hs.outstanding htoken)
  · intro hnone hready hne
    exact hs.outstanding ((hlive.queued hnone hready hne).resolve_left id)

end PetlibroLocal
