import PetlibroLocal.Feeder.CoordinatorSteps

/-!
# Every Callback Is a Sequence of Steps

For each method of the coordinator, the world it leaves is reached by small steps from the
world it is called in, provided the write, the call or the timer it works on is in the state
its callers have checked. What holds without that comes first; then the methods follow in the
order of the model.
-/

namespace PetlibroLocal

open List

/-- The request may do everything. -/
def Policy.Frees (π : Policy) (r : PersistentWriteRequest) : Prop :=
  π.admits r ∧ (∀ p, π.coalesces p r) ∧ (∀ s, π.queues s r) ∧ ∀ s, π.starts s r

/-- The requests that do not come from a callback may do everything: those made from inside
the availability sink, and the coordinator's own. -/
structure Policy.Welcomes (π : Policy) (host : Host) : Prop where
  reenter : ∀ k, ∀ r ∈ host.reenter k, π.Frees r
  normalization : ∀ n, π.Frees (normalizationRequest n)

/-- The policy that allows everything welcomes every host. -/
theorem Policy.any_welcomes (host : Host) : Policy.any.Welcomes host where
  reenter _ _ _ := ⟨trivial, fun _ => trivial, fun _ => trivial, fun _ => trivial⟩
  normalization _ := ⟨trivial, fun _ => trivial, fun _ => trivial, fun _ => trivial⟩

namespace World

variable {π : Policy} {host : Host} {s s' : World}

/-! ### Quiet changes -/

/-- What is neither logged nor awaited may change at will. -/
theorem steps_quiet {state : FeederState} {healthy refresh : Bool}
    {revisions : Option FeederRevisions} {snapshots tick next : ℕ} (h : s.nextId ≤ next) :
    Steps π s
      { s with
        state := state
        stateApiHealthy := healthy
        latestRevisions := revisions
        refreshRequested := refresh
        planSnapshotCallbacks := snapshots
        tick := tick
        nextId := next } :=
  .single (.quiet ⟨rfl, rfl, rfl, rfl, rfl, rfl, rfl, rfl, rfl, rfl, rfl, h⟩)

/-- A change of the state is quiet. -/
theorem transition_steps (new : FeederState) : Steps π s (s.transition new) := steps_quiet le_rfl

/-! ### Accepting requests -/

/-- What is known of the world when a request is decided on. -/
inductive Decides (s : World) (r : PersistentWriteRequest) : Decision → Prop
  | refuse : s.Decides r .refuse
  | coalesce {p : PendingWrite} (hconnected : s.mqttConnected = true)
      (hpending : s.pendingWrite = some p) (hstage : p.stage = .preparing)
      (hcontrol : p.write.control = r.control) : s.Decides r (.coalesce p)
  | behind {p : PendingWrite} (hconnected : s.mqttConnected = true)
      (hpending : s.pendingWrite = some p)
      (hother : ¬ (p.stage = .preparing ∧ p.write.control = r.control)) : s.Decides r .queue
  | later (hconnected : s.mqttConnected = true) (hpending : s.pendingWrite = none)
      (htoken : s.operationToken.isSome) : s.Decides r .queue
  | start (hconnected : s.mqttConnected = true) (hhealthy : s.stateApiHealthy = true)
      (hpending : s.pendingWrite = none) (hstate : s.state = .ready)
      (htoken : s.operationToken = none) : s.Decides r .start

/-- **What `decision` returns, and when.** -/
theorem decides (s : World) (r : PersistentWriteRequest) : s.Decides r (s.decision r) := by
  rw [decision]
  by_cases hopen : (!s.mqttConnected || !s.stateApiHealthy) = true
  · rw [if_pos hopen]
    exact .refuse
  rw [if_neg hopen]
  simp only [Bool.or_eq_true, Bool.not_eq_true', not_or, Bool.not_eq_false] at hopen
  obtain ⟨hconnected, hhealthy⟩ := hopen
  cases hpending : s.pendingWrite with
  | some p =>
    by_cases hcoalesce : p.stage = .preparing ∧ p.write.control = r.control
    · simp only [if_pos hcoalesce]
      exact .coalesce hconnected hpending hcoalesce.1 hcoalesce.2
    · simp only [if_neg hcoalesce]
      exact .behind hconnected hpending hcoalesce
  | none =>
    by_cases hready : s.state ≠ .ready ∨ s.latestTruth.isNone = true
    · simp only [if_pos hready]
      exact .refuse
    · simp only [if_neg hready]
      split_ifs with htoken
      · exact .later hconnected hpending htoken
      · exact .start hconnected hhealthy hpending (not_not.mp (not_or.mp hready).1)
          (Option.not_isSome_iff_eq_none.mp htoken)

variable {r : PersistentWriteRequest} {truth : CoreTruth} {p : PendingWrite} {ending : LogEntry}
  {call : AgentCall} {value : AgentResult}

/-- A request is queued, takes the place of a queued one, or finds no room. -/
theorem queueWrite_steps (hconnected : s.mqttConnected = true) (hadmits : π.admits r)
    (hqueues : π.queues s r) : Steps π s (s.drawn.queueWrite (s.ticketed r)).2 := by
  rw [queueWrite]
  split
  · next hreplace => exact .single (.requeue s hadmits hqueues hreplace)
  · next hnew =>
    split_ifs with hfull
    · exact steps_quiet (Nat.le_succ _)
    · exact .single (.enqueue s hconnected hadmits hqueues hnew (Nat.lt_of_not_le hfull))

/-- A request that starts nothing. -/
theorem offer_steps (hadmits : π.admits r)
    (hcoalesces : ∀ p, s.decision r = .coalesce p → π.coalesces p r)
    (hqueues : s.decision r = .queue → π.queues s r) : Steps π s (s.offer r).2 := by
  have hdecides := s.decides r
  rw [offer]
  generalize hdecision : s.decision r = d at hcoalesces hqueues hdecides
  cases hdecides with
  | refuse | start => exact steps_quiet (Nat.le_succ _)
  | coalesce _ hpending hstage hcontrol =>
    exact .single (.coalesce s hpending hstage hcontrol hadmits (hcoalesces _ rfl))
  | behind hconnected | later hconnected => exact queueWrite_steps hconnected hadmits (hqueues rfl)

/-- Requests made one after the other. -/
theorem foldl_steps {α : Type} {f : World → α → World} {l : List α} (hs : s.Sound)
    (hf : ∀ s : World, s.Sound → ∀ a ∈ l, Steps π s (f s a)) : Steps π s (l.foldl f s) := by
  induction l generalizing s with
  | nil => exact .refl
  | cons a l ih =>
    have hfirst := hf s hs a mem_cons_self
    exact hfirst.trans (ih (hs.steps hfirst) fun s hs b hb =>
      hf s hs b (mem_cons_of_mem a hb))

/-! ### Sinks -/

/-- A call of the availability sink. -/
theorem available_steps (value : Bool) :
    Steps π s { s with tick := s.tick + 1, log := s.log ++ [.available value] } :=
  Relation.ReflTransGen.trans (.single (.available s value)) (steps_quiet le_rfl)

/-- Every request is refused. -/
def Closed (s : World) : Prop :=
  s.mqttConnected = false ∨ s.stateApiHealthy = false ∨
    s.pendingWrite = none ∧ s.state ≠ .ready

/-- While closed, every request is refused. -/
theorem Closed.decision_eq (h : s.Closed) (r : PersistentWriteRequest) :
    s.decision r = .refuse := by
  rw [decision]
  rcases h with h | h | ⟨hpending, hstate⟩
  · rw [h]
    rfl
  · rw [h, Bool.not_false, Bool.or_true, if_pos rfl]
  · rw [hpending]
    simp only [if_pos (.inl hstate : s.state ≠ .ready ∨ s.latestTruth.isNone = true), ite_self]

/-- A refused request draws a ticket and nothing else. -/
theorem Closed.offer_eq (h : s.Closed) (r : PersistentWriteRequest) :
    s.offer r = (false, s.drawn) := by
  rw [offer, h.decision_eq]

/-- Whatever the sink asks for while closed is refused. -/
theorem Closed.sinkUnavailable_eq (h : s.Closed) (host : Host) :
    ∃ next, s.nextId ≤ next ∧ s.sinkUnavailable host =
      { s with tick := s.tick + 1, nextId := next, log := s.log ++ [.available false] } := by
  have hfold : ∀ (l : List PersistentWriteRequest) (t : World), t.Closed →
      ∃ next, t.nextId ≤ next ∧
        l.foldl (fun s r => (s.offer r).2) t = { t with nextId := next } := by
    intro l
    induction l with
    | nil => exact fun t _ => ⟨t.nextId, le_rfl, rfl⟩
    | cons r l ih =>
      intro t ht
      obtain ⟨next, hnext, heq⟩ := ih t.drawn ht
      refine ⟨next, Nat.le_of_succ_le hnext, ?_⟩
      rw [foldl_cons, ht.offer_eq, heq]
      rfl
  obtain ⟨next, hnext, heq⟩ := hfold (host.reenter s.tick)
    { s with tick := s.tick + 1, log := s.log ++ [.available false] } h
  exact ⟨next, hnext, heq⟩

/-- A truth that was read is committed. -/
theorem commitVerifiedTruth_steps (hread : ReadBack s.log truth) :
    Steps π s (s.commitVerifiedTruth host truth).2 :=
  Relation.ReflTransGen.trans (.single (.commit s hread)) (steps_quiet le_rfl)

/-! ### The end of a write -/

/-- Without its timers a write that nothing else waits for is idle. -/
theorem Idle.disarmed (hpending : s.pendingWrite = some p)
    (hcalls : p.stage = .awaitingAck ∨ s.operationToken = none) :
    { s with timers := [], ackTimeoutHandle := none, verifyTimerHandle := none }.Idle p :=
  ⟨hpending, rfl, hcalls⟩

/-- All timers of a sound coordinator are those of the pending write, so none is left. -/
theorem retire_eq (hs : s.Sound) (ending : Option LogEntry) :
    s.retire ending =
      { s with
        timers := []
        ackTimeoutHandle := none
        verifyTimerHandle := none
        pendingWrite := none
        log := s.log ++ ending.toList } := by
  rw [retire, cancelPendingTimers_eq hs.timely]

/-- A write is retired with its ending. -/
theorem retire_steps (hs : s.Sound) (hpending : s.pendingWrite = some p)
    (hcalls : p.stage = .awaitingAck ∨ s.operationToken = none) (hends : p.Ends ending) :
    Steps π s (s.retire (some ending)) := by
  rw [retire_eq hs]
  exact Relation.ReflTransGen.trans (.single (.disarm s none none))
    (.single (.finish _ (.disarmed hpending hcalls) hends))

/-- Without a token no verification is awaited. -/
theorem noVerify_of_none (htoken : s.operationToken = none) : s.NoVerify :=
  fun _ _ h => nomatch htoken.symm.trans h

/-- A write that diverged commits the truth that was observed. -/
theorem diverge_steps (host : Host) (hs : s.Sound) (hidle : s.Idle p)
    (hstage : p.stage = .verifying) (hobserved : p.lastObservedTruth = some truth) :
    Steps π s (((s.transition .diverged).commitVerifiedTruth host truth).2.dropPending.note
      (.resolved p.id p.write (.diverged p.predicate truth))) := by
  have hread := hs.observed p truth hidle.pendingWrite hobserved
  have hcommit : Steps π s ((s.transition .diverged).commitVerifiedTruth host truth).2 :=
    (transition_steps _).trans (commitVerifiedTruth_steps hread)
  exact hcommit.tail
    (.finish _ ⟨hidle.pendingWrite, hidle.timers, hidle.calls⟩ (.diverged hstage hobserved))

/-! ### Starting writes -/

section

variable {p : PendingWrite} {truth : Option CoreTruth} {ending : LogEntry}

/-- The publisher is called with what was prepared. -/
theorem tryPublish_ok (h : s.tryPublish host p truth = .ok s') :
    ∃ now t prepared receipt, p.write.request.prepare now p.predicate t = .ok prepared ∧
      s' = s.sent p now t prepared.predicate receipt := by
  cases truth with
  | none => cases h
  | some t =>
    simp only [tryPublish] at h
    split at h
    · cases h
    next prepared hprepare =>
    split at h
    · cases h
    next receipt _ =>
    cases h
    exact ⟨_, t, prepared, receipt, hprepare, rfl⟩

/-- A write that was not sent ends. -/
theorem tryPublish_error (hreceipt : p.receipt = none)
    (h : s.tryPublish host p truth = .error (ending, s')) :
    p.Ends ending ∧ ∃ tick, s' = { s with tick := tick } := by
  cases truth with
  | none =>
    cases h
    exact ⟨.unprepared hreceipt, s.tick, rfl⟩
  | some t =>
    simp only [tryPublish] at h
    split at h
    · cases h
      exact ⟨.unprepared hreceipt, s.tick, rfl⟩
    · next hprepare =>
      split at h
      · cases h
        exact ⟨.raised hreceipt hprepare, _, rfl⟩
      · cases h

end

/-- What a truth that is retained changes. -/
theorem retainTruth_true (h : s.retainTruth host = (true, s')) :
    ∃ tick latest revisions, s' =
      { s with
        tick := tick
        latestTruth := latest
        latestRevisions := revisions
        state := .ready } ∧ latest = s.latestTruth := by
  rw [retainTruth] at h
  split at h
  · cases h
    exact ⟨s.tick, s.latestTruth, s.latestRevisions, rfl, rfl⟩
  · next truth hlatest =>
    split at h
    · next heq =>
      cases h
      rw [commitVerifiedTruth, Prod.mk.injEq] at heq
      obtain ⟨-, rfl⟩ := heq
      exact ⟨_, _, _, rfl, hlatest.symm⟩
    · cases h

/-- **The start of a write**, from the world in which it has become the pending one: it is
sent to preflight, its command is sent, or it ends at once and the queue goes on. -/
inductive Launches (host : Host) : World → World → Prop
  | preflight {s : World} {p : PendingWrite} (hpending : s.pendingWrite = some p)
      (hstage : p.stage = .preparing) :
      Launches host s (s.submitAgentCall host (coreMethod p.write.request) .writePreflight)
  | sent {s s' : World} {p : PendingWrite} (hpending : s.pendingWrite = some p)
      (hstage : p.stage = .awaitingAck)
      (hpublish : s.tryPublish host p s.latestTruth = .ok s') : Launches host s s'
  | degraded {s t s' : World} {p : PendingWrite} {ending : LogEntry}
      (hpending : s.pendingWrite = some p) (hstage : p.stage = .awaitingAck)
      (hpublish : s.tryPublish host p s.latestTruth = .error (ending, t))
      (hretain : (t.retire (some ending)).retainTruth host = (false, s')) : Launches host s s'
  | drained {s t s' : World} {p : PendingWrite} {ending : LogEntry}
      (hpending : s.pendingWrite = some p) (hstage : p.stage = .awaitingAck)
      (hpublish : s.tryPublish host p s.latestTruth = .error (ending, t))
      (hretain : (t.retire (some ending)).retainTruth host = (true, s'))
      (hqueue : s'.queuedWrites = []) : Launches host s s'
  | next {s t t' s' : World} {p : PendingWrite} {ending : LogEntry} {w : QueuedWrite}
      {rest : List QueuedWrite} (hpending : s.pendingWrite = some p)
      (hstage : p.stage = .awaitingAck)
      (hpublish : s.tryPublish host p s.latestTruth = .error (ending, t))
      (hretain : (t.retire (some ending)).retainTruth host = (true, t'))
      (hqueue : t'.queuedWrites = w :: rest)
      (hnext : Launches host ((t'.note (.dequeued w)).begun rest w) s') : Launches host s s'

/-- A write that could not be sent leaves the queue as it was. -/
theorem queuedWrites_of_retain {t t' : World} {truth : Option CoreTruth}
    (hreceipt : p.receipt = none) (hpublish : s.tryPublish host p truth = .error (ending, t))
    (hretain : (t.retire (some ending)).retainTruth host = (true, t')) :
    t'.queuedWrites = s.queuedWrites := by
  obtain ⟨-, tick, ht⟩ := tryPublish_error hreceipt hpublish
  obtain ⟨timers, ack, verify, heq⟩ := t.exists_cancelPendingTimers
  obtain ⟨tick', latest, revisions, rfl, -⟩ := retainTruth_true hretain
  rw [retire, heq, ht]

/-- Starting a write launches it. -/
theorem startWrite_launches (host : Host) (queue : List QueuedWrite) (w : QueuedWrite)
    (s : World) : Launches host (s.begun queue w) (startWrite host queue w s) := by
  fun_induction startWrite host queue w s with
  | case1 queue w s t hpreflight =>
    have hstage : (newPending s.nextId w).stage = .preparing := if_pos hpreflight
    exact .preflight rfl hstage
  | case2 queue w s t hpreflight t' hpublish => exact .sent rfl (if_neg hpreflight) hpublish
  | case3 queue w s t hpreflight ending t' hpublish t'' hretain =>
    exact .degraded rfl (if_neg hpreflight) hpublish hretain
  | case4 w s hpreflight ending t' t'' hretain t hpublish =>
    exact .drained rfl (if_neg hpreflight) hpublish hretain
      (queuedWrites_of_retain rfl hpublish hretain)
  | case5 w s hpreflight ending t' t'' hretain next rest t hpublish ih =>
    exact .next rfl (if_neg hpreflight) hpublish hretain
      (queuedWrites_of_retain rfl hpublish hretain) ih

/-- A write that has begun is not published yet. -/
structure Begun (s : World) : Prop where
  sound : s.Sound
  receipt : ∀ p, s.pendingWrite = some p → p.receipt = none

/-- The command of a write that was just started has not been sent. -/
theorem Sound.begun_begun {queue : List QueuedWrite} {w : QueuedWrite}
    (hs : (s.begun queue w).Sound) : (s.begun queue w).Begun :=
  ⟨hs, fun _ hp => Option.some.inj hp ▸ rfl⟩

/-- And if it needs no preparation, nothing is awaited for it. -/
theorem Begun.idle (hs : s.Begun) (hpending : s.pendingWrite = some p)
    (hstage : p.stage = .awaitingAck) : s.Idle p := by
  refine ⟨hpending, hs.sound.timely.timers_eq_nil fun q hq => ⟨hs.receipt q hq, ?_⟩, .inl hstage⟩
  obtain rfl := Option.some.inj (hpending.symm.trans hq)
  exact hstage ▸ nofun

/-- A write is prepared by a call that returns a truth. -/
theorem coreMethod_ne (r : PersistentWriteRequest) : coreMethod r ≠ .revisions := by
  rw [coreMethod]
  split_ifs <;> exact nofun

/-- No request can start a write. -/
def Barred (s : World) : Prop :=
  s.mqttConnected = false ∨ s.stateApiHealthy = false ∨ s.pendingWrite ≠ none ∨ s.state ≠ .ready

/-- While barred, no request starts a write. -/
theorem Barred.decision_ne_start (h : s.Barred) (r : PersistentWriteRequest) :
    s.decision r ≠ .start := by
  intro hdecision
  have hdecides := s.decides r
  rw [hdecision] at hdecides
  cases hdecides with
  | start hconnected hhealthy hpending hstate =>
    rcases h with h | h | h | h
    · exact nomatch hconnected.symm.trans h
    · exact nomatch hhealthy.symm.trans h
    · exact h hpending
    · exact h hstate

/-- So every request is only offered. -/
theorem Barred.request_eq (h : s.Barred) (host : Host) (r : PersistentWriteRequest) :
    s.requestPersistentWrite host r = s.offer r := by
  rw [requestPersistentWrite]
  split
  · next hdecision => exact absurd hdecision (h.decision_ne_start r)
  · rfl

/-- Queueing a write keeps the bar. -/
theorem Barred.queueWrite (h : s.Barred) (w : QueuedWrite) : (s.queueWrite w).2.Barred := by
  rw [World.queueWrite]
  split
  · exact h
  · split_ifs <;> exact h

/-- And so does any other offer. -/
theorem Barred.offer (h : s.Barred) (r : PersistentWriteRequest) : (s.offer r).2.Barred := by
  rw [World.offer]
  split
  · exact h
  · exact .inr (.inr (.inl (Option.some_ne_none _)))
  · exact Barred.queueWrite (s := s.drawn) h _
  · exact h

/-- **Requests leave the coordinator barred.** -/
theorem Barred.requests (h : s.Barred) (host : Host) (l : List PersistentWriteRequest) :
    (l.foldl (fun s r => (s.requestPersistentWrite host r).2) s).Barred :=
  List.foldlRecOn l _ h fun _ ht r _ => ht.request_eq host r ▸ ht.offer r

/-- **`availability_sink(False)` with the whole of `request_persistent_write`.** -/
theorem Barred.sinkUnavailable_eq (h : s.Barred) (host : Host) :
    s.sinkUnavailable host =
      (host.reenter s.tick).foldl (fun s r => (s.requestPersistentWrite host r).2)
        { s with tick := s.tick + 1, log := s.log ++ [.available false] } := by
  have hfold : ∀ (l : List PersistentWriteRequest) (t : World), t.Barred →
      l.foldl (fun s r => (s.offer r).2) t =
        l.foldl (fun s r => (s.requestPersistentWrite host r).2) t := by
    intro l
    induction l with
    | nil => exact fun _ _ => rfl
    | cons r l ih =>
      intro t ht
      rw [foldl_cons, foldl_cons, ht.request_eq host r]
      exact ih _ (ht.offer r)
  exact hfold _ _ h

/-! ### Answers -/

/-- A call has just been answered, and the answer is not ignored. -/
def Answered (s : World) (call : AgentCall) (value : AgentResult) : Prop :=
  ∃ log, s.log = log ++ [.completed call value call.generation true]

/-- An answer with a truth was read back. -/
theorem Answered.readBack (h : s.Answered call (.truth truth))
    (hmethod : call.method ≠ .revisions) :
    ReadBack s.log truth := by
  obtain ⟨log, hlog⟩ := h
  refine ⟨call, ?_, hmethod⟩
  rw [hlog]
  exact mem_append_right _ (mem_singleton_self _)

/-- The result that is waited for frees the token. -/
theorem completed_of_credits (h : s.Credits call) (result : AgentResult) :
    s.completed call result = (s.settled call result).released := by
  rw [completed, if_pos h]
  rfl

/-- Any other result frees nothing. -/
theorem completed_of_not_credits (h : ¬ s.Credits call) (result : AgentResult) :
    s.completed call result = s.settled call result := by
  rw [completed, if_neg h]
  rfl

/-- A call that completes was answered. -/
theorem completed_answered (h : s.Credits call) (result : AgentResult) :
    (s.completed call result).Answered call result :=
  ⟨s.log, by simp only [completed, settled, note, h, h.1, decide_true]⟩

/-! ### Sequences of steps -/

/-- Steps are moves. -/
theorem Steps.moves (h : Steps π s s') : Moves π s s' :=
  Relation.ReflTransGen.mono (fun _ _ => Move.step) _ _ h

/-- `shutdown` clears the coordinator. -/
theorem shutdown_moves : Moves π s s.shutdown :=
  Relation.ReflTransGen.trans (.single (.clear s)) (Steps.moves (steps_quiet le_rfl))

/-- A sequence of steps goes on from a world that is sound again. -/
theorem Sound.andThen {t t' : World} (hs : s.Sound) (h : Steps π s t)
    (ht : t.Sound → Steps π t t') : Steps π s t' :=
  h.trans (ht (hs.steps h))

section Methods

variable (hπ : π.Welcomes host) (hs : s.Sound)

include hπ hs

/-! ### Sinks -/

/-- The requests made from inside the sink are offered one after the other. -/
theorem sinkUnavailable_steps : Steps π s (s.sinkUnavailable host) := by
  refine hs.andThen (available_steps false) fun hs => foldl_steps hs ?_
  intro s _ r hr
  obtain ⟨hadmits, hcoalesces, hqueues, -⟩ := hπ.reenter _ r hr
  exact offer_steps hadmits (fun p _ => hcoalesces p) fun _ => hqueues _

/-- The sink is told, and may ask for writes. -/
theorem disconnected_steps : Steps π s ((s.transition .disconnected).sinkUnavailable host) :=
  hs.andThen (transition_steps _) fun hs => sinkUnavailable_steps hπ hs

/-! ### The end of a write -/

/-- The truth of before the write is projected again. -/
theorem retainTruth_steps : Steps π s (s.retainTruth host).2 := by
  rw [retainTruth]
  cases hlatest : s.latestTruth with
  | none => exact transition_steps _
  | some truth =>
    have hcommit : Steps π s (s.commitVerifiedTruth host truth).2 :=
      commitVerifiedTruth_steps (hs.latest truth hlatest)
    simp only
    split
    · next heq =>
      rw [heq] at hcommit
      exact hcommit.trans (transition_steps _)
    · next heq =>
      rw [heq] at hcommit
      exact hs.andThen hcommit fun hs => disconnected_steps hπ hs

/-- A write ends, and the feeder counts as disconnected. -/
theorem completeDegradedWrite_steps (hpending : s.pendingWrite = some p)
    (hcalls : p.stage = .awaitingAck ∨ s.operationToken = none) (hends : p.Ends ending) :
    Steps π s (s.completeDegradedWrite host (some ending)) :=
  hs.andThen (retire_steps hs hpending hcalls hends) fun hs => disconnected_steps hπ hs

/-! ### Calls to the agent -/

/-- A verification is given up after too many failures. -/
theorem giveUpAfterApiFailure_steps (hidle : s.Idle p) (hstage : p.stage = .verifying) :
    Steps π s (s.giveUpAfterApiFailure host p) := by
  rw [giveUpAfterApiFailure]
  cases hobserved : p.lastObservedTruth with
  | some truth =>
    exact hs.andThen (diverge_steps host hs hidle hstage hobserved) fun hs =>
      disconnected_steps hπ hs
  | none =>
    obtain ⟨receipt, hreceipt⟩ :=
      Option.ne_none_iff_exists'.mp (hs.verifying p hidle.pendingWrite hstage)
    exact hs.andThen (transition_steps _) fun hs => completeDegradedWrite_steps hπ hs
      hidle.pendingWrite hidle.calls (.resolved hreceipt rfl)

/-- A verification waits for its next attempt. -/
theorem retryAfterApiFailure_steps (hpending : s.pendingWrite = some p)
    (hstage : p.stage = .verifying) (htimers : s.timers = []) (htoken : s.operationToken = none) :
    Steps π s (s.retryAfterApiFailure host p) := by
  rw [retryAfterApiFailure]
  have hretry : Steps π s (s.withPending p.retried) := .single (.retry s hpending)
  split_ifs with hmore
  · exact hretry.tail (.arm _ rfl hstage htimers (noVerify_of_none htoken))
  · exact hs.andThen hretry fun hs =>
      giveUpAfterApiFailure_steps hπ hs ⟨rfl, htimers, .inr htoken⟩ hstage

/-- **A failed call.** The agent is unhealthy while the sink runs, so that every request made from
inside it is refused. -/
theorem handleAgentFailure_steps (htoken : s.operationToken = none) {purpose : AgentPurpose}
    (hverify : purpose = .verify →
      ∃ p, s.pendingWrite = some p ∧ p.stage = .verifying ∧ s.timers = [])
    (hpreflight : purpose = .writePreflight →
      ∃ p, s.pendingWrite = some p ∧ p.stage = .preparing) :
    Steps π s (s.handleAgentFailure host purpose) := by
  have hclosed : { s with stateApiHealthy := false }.Closed := .inr (.inl rfl)
  obtain ⟨next, hnext, heq⟩ := hclosed.sinkUnavailable_eq host
  simp only [handleAgentFailure, heq]
  have htold : Steps π s
      { s with
        stateApiHealthy := false
        tick := s.tick + 1
        nextId := next
        log := s.log ++ [.available false] } :=
    (available_steps false).trans (steps_quiet hnext)
  cases purpose with
  | verify =>
    obtain ⟨p, hp, hstage, htimers⟩ := hverify rfl
    simp only [hp]
    rw [hp] at htold
    exact hs.andThen htold fun hs => retryAfterApiFailure_steps hπ hs rfl hstage htimers htoken
  | writePreflight =>
    obtain ⟨p, hp, hstage⟩ := hpreflight rfl
    have hreceipt := hs.preparing p hp hstage
    simp only [hp, Option.map_some]
    rw [hp] at htold
    exact hs.andThen htold fun hs =>
      completeDegradedWrite_steps hπ hs rfl (.inr htoken) (.unprepared hreceipt)
  | planSnapshot => exact htold.trans (steps_quiet le_rfl)
  | heartbeat | reconcile => exact htold.trans (transition_steps _)

/-- **A call is handed to the executor**, or fails at once. -/
theorem submitAgentCall_steps {method : AgentMethod} {purpose : AgentPurpose}
    (hsubmits : s.Submits method purpose) :
    Steps π s (s.submitAgentCall host method purpose) := by
  rw [submitAgentCall]
  split_ifs with htoken hexecutor
  · exact steps_quiet le_rfl
  · have hnone := Option.not_isSome_iff_eq_none.mp htoken
    exact Relation.ReflTransGen.trans (.single (.submit s hsubmits hnone)) (steps_quiet le_rfl)
  · have hnone := Option.not_isSome_iff_eq_none.mp htoken
    have hdrawn : Steps π s { s with nextId := s.nextId + 1, tick := s.tick + 1 } :=
      steps_quiet (Nat.le_succ _)
    exact hs.andThen hdrawn fun hs =>
      handleAgentFailure_steps hπ hs hnone hsubmits.verify hsubmits.writePreflight

/-! ### Starting writes -/

omit hs in
/-- A write that cannot be published ends, and the truth of before it is kept. -/
theorem Begun.retain_steps (hs : s.Begun) (hpending : s.pendingWrite = some p)
    (hstage : p.stage = .awaitingAck) {t : World}
    (hpublish : s.tryPublish host p s.latestTruth = .error (ending, t)) :
    Steps π s ((t.retire (some ending)).retainTruth host).2 := by
  obtain ⟨hends, tick, rfl⟩ := tryPublish_error (hs.receipt p hpending) hpublish
  have htick : Steps π s { s with tick := tick } := steps_quiet le_rfl
  have hretire := htick.trans
    (retire_steps (hs.sound.steps htick) hpending (.inl hstage) hends)
  exact hs.sound.andThen hretire fun hs => retainTruth_steps hπ hs

omit hs in
/-- **The start of a write**, with the writes that are started when it ends at once. -/
theorem Launches.steps (h : Launches host s s') (hs : s.Begun) : Steps π s s' := by
  induction h with
  | preflight hpending hstage =>
    exact submitAgentCall_steps hπ hs.sound ⟨hs.sound.mqtt_of_pending hpending, nofun,
      fun _ => ⟨_, hpending, hstage⟩, fun _ => coreMethod_ne _⟩
  | sent hpending hstage hpublish =>
    obtain ⟨now, t, prepared, receipt, hprepare, rfl⟩ := tryPublish_ok hpublish
    exact .single (.publish _ (hs.idle hpending hstage) (hs.receipt _ hpending) hprepare receipt)
  | degraded hpending hstage hpublish hretain | drained hpending hstage hpublish hretain =>
    have h := hs.retain_steps hπ hpending hstage hpublish
    rwa [hretain] at h
  | next hpending hstage hpublish hretain hqueue _ ih =>
    have h := hs.retain_steps hπ hpending hstage hpublish
    rw [hretain] at h
    obtain ⟨tick, latest, revisions, rfl, -⟩ := retainTruth_true hretain
    exact hs.sound.andThen (h.tail (.dequeue _ rfl hqueue)) fun hs => ih hs.begun_begun

/-- The first queued write is started. -/
theorem startNextWrite_steps : Steps π s (s.startNextWrite host) := by
  rw [startNextWrite]
  split_ifs with hready
  · split
    · exact .refl
    · next next rest hqueue =>
      have hdequeue : Steps π s ((s.note (.dequeued next)).begun rest next) :=
        .single (.dequeue s (Option.isNone_iff_eq_none.mp hready.1) hqueue)
      exact hs.andThen hdequeue fun hs =>
        (startWrite_launches host rest next _).steps hπ hs.begun_begun
  · exact .refl

/-- A write ends and the next one is started. -/
theorem completeFailedWrite_steps (hpending : s.pendingWrite = some p)
    (hcalls : p.stage = .awaitingAck ∨ s.operationToken = none) (hends : p.Ends ending) :
    Steps π s (s.completeFailedWrite host (some ending)) := by
  have hretain := hs.andThen (retire_steps hs hpending hcalls hends) fun hs =>
    retainTruth_steps hπ hs
  rw [completeFailedWrite]
  split
  · next heq => rwa [heq] at hretain
  · next heq =>
    rw [heq] at hretain
    exact hs.andThen hretain fun hs => startNextWrite_steps hπ hs

/-- The command of the pending write is sent, or the write ends. -/
theorem publishPending_steps (hidle : s.Idle p) (hreceipt : p.receipt = none)
    (truth : Option CoreTruth) : Steps π s (s.publishPending host truth) := by
  simp only [publishPending, hidle.pendingWrite]
  split
  · next hpublish =>
    obtain ⟨now, t, prepared, receipt, hprepare, rfl⟩ := tryPublish_ok hpublish
    exact .single (.publish _ hidle hreceipt hprepare receipt)
  · next hpublish =>
    obtain ⟨hends, tick, rfl⟩ := tryPublish_error hreceipt hpublish
    have htick : Steps π s { s with tick := tick } := steps_quiet le_rfl
    exact hs.andThen htick fun hs =>
      completeFailedWrite_steps hπ hs hidle.pendingWrite hidle.calls hends

/-- **A request** is refused, merged, queued or started. -/
theorem requestPersistentWrite_steps (hadmits : π.admits r)
    (hcoalesces : ∀ p, s.decision r = .coalesce p → π.coalesces p r)
    (hqueues : s.decision r = .queue → π.queues s r)
    (hstarts : s.decision r = .start → π.starts s r) :
    Steps π s (s.requestPersistentWrite host r).2 := by
  have hdecides := s.decides r
  rw [requestPersistentWrite]
  split
  · next hdecision =>
    rw [hdecision] at hdecides
    cases hdecides with
    | start hconnected _ hpending =>
      have hstart : Steps π s ((s.drawn.note (.accepted (s.ticketed r) .started)).begun
          s.queuedWrites (s.ticketed r)) :=
        .single (.start s hpending hconnected hadmits (hstarts hdecision))
      exact hs.andThen hstart fun hs =>
        (startWrite_launches host _ _ _).steps hπ hs.begun_begun
  · exact offer_steps hadmits hcoalesces hqueues

/-- **A request that may do everything.** -/
theorem Policy.Frees.request_steps (hr : π.Frees r) :
    Steps π s (s.requestPersistentWrite host r).2 :=
  requestPersistentWrite_steps hπ hs hr.1 (fun p _ => hr.2.1 p) (fun _ => hr.2.2.1 s)
    fun _ => hr.2.2.2 s

/-- The requests made from inside the sink are handled one after the other. -/
theorem sinkAvailable_steps : Steps π s (s.sinkAvailable host) := by
  refine hs.andThen (available_steps true) fun hs => foldl_steps hs ?_
  intro s hs r hr
  exact Policy.Frees.request_steps hπ hs (hπ.reenter _ r hr)

/-- The sink is told, and may ask for writes. -/
theorem ready_steps : Steps π s ((s.transition .ready).sinkAvailable host) :=
  hs.andThen (transition_steps _) fun hs => sinkAvailable_steps hπ hs

/-- The coordinator's own request may do everything. -/
theorem maybeNormalizePlanIds_steps (truth : CoreTruth) :
    Steps π s (s.maybeNormalizePlanIds host truth) := by
  rw [maybeNormalizePlanIds]
  split
  · exact .refl
  · next n _ =>
    split_ifs
    · exact .refl
    · exact .refl
    · exact Policy.Frees.request_steps hπ hs (hπ.normalization n)

/-- It goes ahead of the queue. -/
theorem normalizeThenStart_steps (truth : CoreTruth) :
    Steps π s ((s.maybeNormalizePlanIds host truth).startNextWrite host) :=
  hs.andThen (maybeNormalizePlanIds_steps hπ hs truth) fun hs => startNextWrite_steps hπ hs

/-! ### Verification -/

/-- A verification is given up after too many reads. -/
theorem giveUpVerification_steps (hidle : s.Idle p) (hstage : p.stage = .verifying) :
    Steps π s (s.giveUpVerification host p) := by
  rw [giveUpVerification]
  cases hobserved : p.lastObservedTruth with
  | some truth =>
    have hdiverge := diverge_steps (π := π) host hs hidle hstage hobserved
    simp only
    split_ifs with hprojected
    · exact hs.andThen hdiverge fun hs => disconnected_steps hπ hs
    · have hready := hs.andThen hdiverge fun hs => ready_steps hπ hs
      split
      · exact hs.andThen hready fun hs => startNextWrite_steps hπ hs
      · exact hs.andThen hready fun hs => normalizeThenStart_steps hπ hs truth
  | none =>
    obtain ⟨receipt, hreceipt⟩ :=
      Option.ne_none_iff_exists'.mp (hs.verifying p hidle.pendingWrite hstage)
    exact hs.andThen (transition_steps _) fun hs => completeFailedWrite_steps hπ hs
      hidle.pendingWrite hidle.calls (.resolved hreceipt rfl)

/-- A verification waits for its next read. -/
theorem retryVerification_steps (hpending : s.pendingWrite = some p)
    (hstage : p.stage = .verifying) (htimers : s.timers = []) (htoken : s.operationToken = none) :
    Steps π s (s.retryVerification host p) := by
  rw [retryVerification]
  have hretry : Steps π s (s.withPending p.retried) := .single (.retry s hpending)
  split_ifs with hmore
  · exact hretry.tail (.arm _ rfl hstage htimers (noVerify_of_none htoken))
  · exact hs.andThen hretry fun hs =>
      giveUpVerification_steps hπ hs ⟨rfl, htimers, .inr htoken⟩ hstage

/-- **A write is verified**: the truth that was read matches its predicate. -/
theorem acceptVerification_steps (hidle : s.Idle p) (hstage : p.stage = .verifying)
    {predicate : TruthPredicate} (hobserved : p.lastObservedTruth = some truth)
    (hpredicate : p.predicate = some predicate)
    (hmatches : predicate.matchesTruth truth.toFeederTruth = true) :
    Steps π s (s.acceptVerification host p predicate truth) := by
  obtain ⟨receipt, hreceipt⟩ :=
    Option.ne_none_iff_exists'.mp (hs.verifying p hidle.pendingWrite hstage)
  have hcommit : Steps π s (s.commitVerifiedTruth host truth).2 :=
    commitVerifiedTruth_steps (hs.observed p truth hidle.pendingWrite hobserved)
  have hidle' : (s.commitVerifiedTruth host truth).2.Idle p :=
    ⟨hidle.pendingWrite, hidle.timers, hidle.calls⟩
  rw [acceptVerification]
  split
  · next heq =>
    rw [heq] at hcommit hidle'
    exact hs.andThen hcommit fun hs => completeDegradedWrite_steps hπ hs hidle'.pendingWrite
      hidle'.calls (.resolved hreceipt rfl)
  · next heq =>
    rw [heq] at hcommit hidle'
    have hfinish := hcommit.tail (.finish _ hidle' (.verified hstage hobserved hpredicate hmatches))
    exact hs.andThen (hs.andThen hfinish fun hs => ready_steps hπ hs) fun hs =>
      normalizeThenStart_steps hπ hs truth

/-- **The answer to a verification** is observed, and accepted or asked for again. -/
theorem handleVerificationTruth_steps (hpending : s.pendingWrite = some p)
    (hstage : p.stage = .verifying) (htimers : s.timers = []) (htoken : s.operationToken = none)
    (hpurpose : call.purpose = .verify) (hmethod : call.method ≠ .revisions)
    (hanswered : s.Answered call value) : Steps π s (s.handleVerificationTruth host value) := by
  have hretry := retryVerification_steps hπ hs hpending hstage htimers htoken
  simp only [handleVerificationTruth, hpending, hstage, ne_eq, not_true_eq_false, if_false]
  cases value with
  | truth truth =>
    obtain ⟨log, hlog⟩ := hanswered
    have hobserve : Steps π s (s.withPending (p.observing truth)) :=
      .single (.observe s hpending hstage hpurpose hmethod hlog)
    have hidle : (s.withPending (p.observing truth)).Idle (p.observing truth) :=
      ⟨rfl, htimers, .inr htoken⟩
    have hretry' := hs.andThen hobserve fun hs =>
      retryVerification_steps hπ hs hidle.pendingWrite hstage htimers htoken
    simp only
    split
    · next predicate hpredicate =>
      split_ifs with hmatches
      · exact hs.andThen hobserve fun hs =>
          acceptVerification_steps hπ hs hidle hstage rfl hpredicate hmatches
      · exact hretry'
    · exact hretry'
  | failed | revisions | other => exact hretry

/-! ### Results of other calls -/

/-- New revisions call for a new read. -/
theorem handleRevisionSnapshot_steps (hconnected : s.mqttConnected = true)
    (htoken : s.operationToken = none) (value : AgentResult) :
    Steps π s (s.handleRevisionSnapshot host value) := by
  have hfailure : Steps π s (s.handleAgentFailure host .heartbeat) :=
    handleAgentFailure_steps hπ hs htoken nofun nofun
  cases value with
  | revisions r =>
    rw [handleRevisionSnapshot]
    split_ifs
    · exact submitAgentCall_steps hπ hs ⟨hconnected, nofun, nofun, fun _ => nofun⟩
    · exact .refl
  | failed | truth | other => exact hfailure

/-- The truth is committed, and the writes go on. -/
theorem handleReconciledTruth_steps (htoken : s.operationToken = none)
    (hmethod : call.method ≠ .revisions) (hanswered : s.Answered call value) :
    Steps π s (s.handleReconciledTruth host value) := by
  have hfailure : Steps π s (s.handleAgentFailure host .reconcile) :=
    handleAgentFailure_steps hπ hs htoken nofun nofun
  cases value with
  | truth truth =>
    have hcommit : Steps π s (s.commitVerifiedTruth host truth).2 :=
      commitVerifiedTruth_steps (hanswered.readBack hmethod)
    rw [handleReconciledTruth]
    split
    · next heq =>
      rw [heq] at hcommit
      exact hs.andThen hcommit fun hs => disconnected_steps hπ hs
    · next heq =>
      rw [heq] at hcommit
      have hnormalize := hs.andThen (hcommit.trans (transition_steps .ready)) fun hs =>
        maybeNormalizePlanIds_steps hπ hs truth
      exact hs.andThen (hs.andThen hnormalize fun hs => sinkAvailable_steps hπ hs) fun hs =>
        startNextWrite_steps hπ hs
  | failed | revisions | other => exact hfailure

/-- **The answer to a preflight read**: the command is sent on the truth that was read. -/
theorem handleWritePreflight_steps (hpending : s.pendingWrite = some p)
    (hstage : p.stage = .preparing) (htoken : s.operationToken = none)
    (hmethod : call.method ≠ .revisions) (hanswered : s.Answered call value) :
    Steps π s (s.handleWritePreflight host value) := by
  have hreceipt := hs.preparing p hpending hstage
  have hinvalid : Steps π s (s.completeFailedWrite host (some (.unprepared p.write))) :=
    completeFailedWrite_steps hπ hs hpending (.inr htoken) (.unprepared hreceipt)
  simp only [handleWritePreflight, hpending, hstage, ne_eq, not_true_eq_false, if_false]
  cases value with
  | truth truth =>
    have hcommit : Steps π s (s.commitVerifiedTruth host truth).2 :=
      commitVerifiedTruth_steps (hanswered.readBack hmethod)
    have hidle : (s.commitVerifiedTruth host truth).2.Idle p := by
      refine ⟨hpending, hs.timely.timers_eq_nil fun q hq => ?_, .inr htoken⟩
      obtain rfl := Option.some.inj (hpending.symm.trans hq)
      exact ⟨hreceipt, hstage ▸ nofun⟩
    simp only
    split
    · next heq =>
      rw [heq] at hcommit hidle
      exact hs.andThen hcommit fun hs => completeDegradedWrite_steps hπ hs hidle.pendingWrite
        hidle.calls (.unprepared hreceipt)
    · next heq =>
      rw [heq] at hcommit hidle
      exact hs.andThen hcommit fun hs =>
        publishPending_steps hπ hs hidle hreceipt (some truth)
  | failed | revisions | other => exact hinvalid

/-- The truth is committed for those who asked. -/
theorem handlePlanSnapshot_steps (hmethod : call.method ≠ .revisions)
    (hanswered : s.Answered call value) : Steps π s (s.handlePlanSnapshot host value) := by
  have hfinish : ∀ {s : World}, Steps π s s.finishPlanSnapshots := steps_quiet le_rfl
  cases value with
  | truth truth =>
    have hcommit : Steps π s (s.commitVerifiedTruth host truth).2 :=
      commitVerifiedTruth_steps (hanswered.readBack hmethod)
    rw [handlePlanSnapshot]
    split
    · next heq =>
      rw [heq] at hcommit
      exact (hs.andThen hcommit fun hs => disconnected_steps hπ hs).trans hfinish
    · next t heq =>
      rw [heq] at hcommit
      have hsink : Steps π s (if t.state = .disconnected then
          (t.transition .ready).sinkAvailable host else t) := by
        split_ifs
        · exact hs.andThen hcommit fun hs => ready_steps hπ hs
        · exact hcommit
      have hfinished := hsink.trans hfinish
      dsimp only
      split_ifs at hfinished ⊢
      · exact hs.andThen hfinished fun hs => maybeNormalizePlanIds_steps hπ hs truth
      · exact hfinished
      · exact hs.andThen hfinished fun hs => maybeNormalizePlanIds_steps hπ hs truth
      · exact hfinished
  | failed | revisions | other => exact hfinish

/-- The revisions are asked for if no call is out. -/
theorem refreshRevisions_steps : Steps π s (s.refreshRevisions host) := by
  rw [refreshRevisions]
  split_ifs with hblocked
  · exact steps_quiet le_rfl
  · simp only [Bool.or_eq_true, Bool.not_eq_true', not_or, Bool.not_eq_false] at hblocked
    have hrefresh : Steps π s { s with refreshRequested := false } := steps_quiet le_rfl
    exact hs.andThen hrefresh fun hs => submitAgentCall_steps hπ hs
      ⟨hblocked.1, nofun, nofun, fun h => absurd rfl h⟩

/-- What has been put off while a call was out is taken up again. -/
theorem maybeProcessDeferred_steps (hconnected : s.mqttConnected = true) :
    Steps π s (s.maybeProcessDeferred host) := by
  rw [maybeProcessDeferred]
  by_cases htoken : s.operationToken.isSome = true
  · rw [if_pos htoken]
  · rw [if_neg htoken]
    split
    · next p hpending =>
      split_ifs with hstage
      · exact submitAgentCall_steps hπ hs
          ⟨hconnected, nofun, fun _ => ⟨p, hpending, hstage⟩, fun _ => coreMethod_ne _⟩
      · exact .refl
    · split_ifs
      · exact submitAgentCall_steps hπ hs ⟨hconnected, nofun, nofun, fun _ => nofun⟩
      · exact startNextWrite_steps hπ hs
      · exact refreshRevisions_steps hπ hs
      · exact .refl

/-! ### Completions -/

/-- **The answer to a call that counts** goes to the method of its purpose. -/
theorem handleValue_steps (hcall : call ∈ s.calls) (hcredits : s.Credits call)
    (value : AgentResult) {t : World} (ht : t = (s.completed call value).markAgentRecovered) :
    Steps π t (t.handleValue host call.purpose value) := by
  have hread := hs.reads call hcall
  have htoken : t.operationToken = none := by
    rw [ht, completed_of_credits hcredits]
    rfl
  have hconnected := hs.mqtt_of_token hcredits.2
  have hanswered : t.Answered call value := ht ▸ completed_answered hcredits value
  have hsound : t.Sound := by
    rw [ht]
    exact (hs.completed call value).step (π := .any)
      (.quiet ⟨rfl, rfl, rfl, rfl, rfl, rfl, rfl, rfl, rfl, rfl, rfl, le_rfl⟩)
  cases hpurpose : call.purpose with
  | heartbeat =>
    exact handleRevisionSnapshot_steps hπ hsound (by rw [ht]; exact hconnected) htoken value
  | reconcile =>
    exact handleReconciledTruth_steps hπ hsound htoken (hread (hpurpose ▸ nofun)) hanswered
  | writePreflight =>
    obtain ⟨p, hp, hstage⟩ := hs.writePreflight call hcall hcredits.2 hpurpose
    exact handleWritePreflight_steps hπ hsound (by rw [ht]; exact hp) hstage htoken
      (hread (hpurpose ▸ nofun)) hanswered
  | verify =>
    obtain ⟨p, hp, hstage, htimers⟩ := hs.verify call hcall hcredits.2 hpurpose
    exact handleVerificationTruth_steps hπ hsound (by rw [ht]; exact hp) hstage
      (by rw [ht]; exact htimers) htoken hpurpose (hread (hpurpose ▸ nofun)) hanswered
  | planSnapshot => exact handlePlanSnapshot_steps hπ hsound (hread (hpurpose ▸ nofun)) hanswered

/-- **The completion of a call.** It counts only if the call is the current one. -/
theorem agentCallComplete_steps (hcall : call ∈ s.calls) (result : AgentResult) :
    Steps π s (s.agentCallComplete host call result) := by
  have hcomplete : Steps π s (s.completed call result) := .single (.complete s hcall result)
  rw [agentCallComplete]
  by_cases hcredits : s.Credits call
  · have hconnected := hs.mqtt_of_token hcredits.2
    have hdeferred : ∀ t, Steps π s t → Steps π s (t.maybeProcessDeferred host) := by
      intro t ht
      exact hs.andThen ht fun hs => maybeProcessDeferred_steps hπ hs
        (Steps.mqttConnected_eq ht ▸ hconnected)
    have hvalue : Steps π s ((s.completed call result).markAgentRecovered.handleValue host
        call.purpose result) :=
      hcomplete.trans ((steps_quiet le_rfl).trans
        (handleValue_steps hπ hs hcall hcredits result rfl))
    rw [if_neg (not_not.mpr hcredits), ← completed_of_credits hcredits]
    cases result with
    | failed =>
      refine hdeferred _ (hcomplete.trans ?_)
      refine handleAgentFailure_steps hπ (hs.steps hcomplete) ?_ (hs.verify call hcall hcredits.2)
        (hs.writePreflight call hcall hcredits.2)
      rw [completed_of_credits hcredits]
      rfl
    | truth | revisions | other => exact hdeferred _ hvalue
  · rw [if_pos hcredits, ← completed_of_not_credits hcredits]
    exact hcomplete

/-! ### Callbacks -/

/-- The truth is asked for if no call is out. -/
theorem reconcileFromFeeder_steps : Steps π s (s.reconcileFromFeeder host) := by
  rw [reconcileFromFeeder]
  split_ifs with hblocked
  · exact .refl
  · simp only [Bool.or_eq_true, Bool.not_eq_true', not_or, Bool.not_eq_false] at hblocked
    exact hs.andThen (transition_steps _) fun hs => submitAgentCall_steps hπ hs
      ⟨hblocked.1, nofun, nofun, fun _ => nofun⟩

/-- **A connection** raises the generation if there was none before, and takes steps from there. -/
theorem onFeederConnected_connects :
    ∃ t, Moves π s t ∧ t.mqttConnected = true ∧ Steps π t (s.onFeederConnected host) := by
  have hsink : ∀ t : World, t.Sound →
      Steps π t (((t.sinkUnavailable host).transition .connected).reconcileFromFeeder host) :=
    fun t ht => ht.andThen ((sinkUnavailable_steps hπ ht).trans (transition_steps .connected))
      fun ht => reconcileFromFeeder_steps hπ ht
  rw [onFeederConnected]
  split_ifs with hidle hmqtt
  · exact ⟨s, .refl, hidle.1, .refl⟩
  · have heq : { s with generation := s.generation, mqttConnected := true } = s := by
      rw [← hmqtt]
    simp only [heq]
    exact ⟨s, .refl, hmqtt, hsink s hs⟩
  · have hconnect : Moves π s
        { s with generation := s.generation + 1, mqttConnected := true } :=
      .single (.connect s (hs.connected (eq_false_of_ne_true hmqtt)).1)
    exact ⟨_, hconnect, rfl, hsink _ (hs.moves hconnect)⟩

/-- A new connection starts a generation. -/
theorem onFeederConnected_moves : Moves π s (s.onFeederConnected host) := by
  obtain ⟨t, hmoves, -, hsteps⟩ := onFeederConnected_connects hπ hs
  exact hmoves.trans hsteps.moves

/-- A disconnect clears the coordinator. -/
theorem onFeederDisconnected_moves : Moves π s (s.onFeederDisconnected host) := by
  have hclear : Moves π s s.cleared := .single (.clear s)
  exact hclear.trans
    (Steps.moves ((sinkUnavailable_steps hπ (hs.moves hclear)).trans (transition_steps _)))

/-- A heartbeat may be the first sign of a connection. -/
theorem onHeartbeat_moves : Moves π s (s.onHeartbeat host) := by
  rw [onHeartbeat]
  split_ifs
  · exact onFeederConnected_moves hπ hs
  · exact (reconcileFromFeeder_steps hπ hs).moves
  · exact Steps.moves (steps_quiet le_rfl)
  · exact (refreshRevisions_steps hπ hs).moves

/-- A hint may ask for the revisions. -/
theorem onPersistentStateHint_steps : Steps π s (s.onPersistentStateHint host) := by
  rw [onPersistentStateHint]
  split_ifs
  · have hrefresh : Steps π s { s with refreshRequested := true } := steps_quiet le_rfl
    exact hs.andThen hrefresh fun hs => refreshRevisions_steps hπ hs
  · exact .refl

/-- A snapshot is asked for, or waits for the call that is out. -/
theorem requestPlanSnapshot_steps : Steps π s (s.requestPlanSnapshot host) := by
  have hcallback : Steps π s
      { s with planSnapshotCallbacks := s.planSnapshotCallbacks + 1 } := steps_quiet le_rfl
  rw [requestPlanSnapshot]
  dsimp only
  split_ifs with hmqtt
  · exact hcallback.trans (steps_quiet le_rfl)
  · exact hs.andThen hcallback fun hs => submitAgentCall_steps hπ hs
      ⟨by simpa using hmqtt, nofun, nofun, fun _ => nofun⟩
  · exact hcallback

/-- **An acknowledgement of the pending write** ends it or starts its verification. -/
theorem acceptAck_steps (hpending : s.pendingWrite = some p) (hstage : p.stage = .awaitingAck)
    {receipt : CommandReceipt} (hreceipt : p.receipt = some receipt) {ack : MqttAck}
    (hanswers : ack.Answers receipt) : Steps π s (s.acceptAck host p ack) := by
  have hack : Steps π s (s.cancelAckTimeout.note (.acknowledged p.id ack)) := by
    rw [cancelAckTimeout_eq hs.timely hpending hstage]
    exact Relation.ReflTransGen.tail (.single (.disarm s none s.verifyTimerHandle))
      (.acknowledge _ hpending hstage hreceipt hanswers)
  have hidle : (s.cancelAckTimeout.note (.acknowledged p.id ack)).Idle p := by
    rw [cancelAckTimeout_eq hs.timely hpending hstage]
    exact ⟨hpending, rfl, .inl hstage⟩
  have hs' := hs.steps hack
  rw [acceptAck]
  split_ifs with hfailed hmode
  · exact hack.trans (completeFailedWrite_steps hπ hs' hidle.pendingWrite (.inl hstage)
      (.resolved hreceipt rfl))
  · have hends : p.Ends (.resolved p.id p.write .unverified) := .resolved hreceipt rfl
    have hretire := hack.trans ((retire_steps hs' hidle.pendingWrite (.inl hstage) hends).trans
      (transition_steps .ready))
    exact hs.andThen hretire fun hs => startNextWrite_steps hπ hs
  · have hverifying := hack.tail (.verifying _ hidle hstage hreceipt hanswers
      (Bool.eq_true_of_not_eq_false hfailed) rfl)
    refine (hverifying.trans (transition_steps .verifyingWrite)).tail
      (.arm _ rfl rfl hidle.timers ?_)
    exact fun c hc htoken => (hs'.idle_calls hidle hc htoken).1

/-- An acknowledgement ends a wait, or is for no one. -/
theorem onMqttAck_steps (ack : MqttAck) : Steps π s (s.onMqttAck host ack) := by
  rw [onMqttAck]
  split
  · exact .refl
  · next p hpending =>
    split
    · next receipt hstage hreceipt =>
      split_ifs with hanswers
      · exact acceptAck_steps hπ hs hpending hstage hreceipt hanswers
      · exact .refl
    · exact .refl

/-- **A timer** is the only one, and belongs to the pending write. -/
theorem fireTimer_steps {timer : Timer} (htimer : timer ∈ s.timers) :
    Steps π s (s.fireTimer host timer) := by
  rcases hs.timely with hnil | ⟨t, p, htimers, hpending, hid, hkind⟩
  · rw [hnil] at htimer
    exact absurd htimer not_mem_nil
  · obtain rfl : timer = t := mem_singleton.mp (htimers ▸ htimer)
    have herase : s.timers.erase timer = [] := by
      rw [htimers, erase_cons_head]
    simp only [fireTimer, herase]
    rcases hkind with ⟨hkind, hstage, hreceipt, -⟩ | ⟨hkind, hstage, -⟩
    · have hdisarm : Steps π s { s with timers := [], ackTimeoutHandle := none } :=
        .single (.disarm s none s.verifyTimerHandle)
      obtain ⟨receipt, hreceipt⟩ := Option.ne_none_iff_exists'.mp hreceipt
      simp only [hkind, ackTimeout, hpending, hid, ne_eq, not_true_eq_false, if_false]
      rw [hpending] at hdisarm
      exact hs.andThen hdisarm fun hs =>
        completeFailedWrite_steps hπ hs rfl (.inl hstage) (.resolved hreceipt rfl)
    · have hdisarm : Steps π s { s with timers := [], verifyTimerHandle := none } :=
        .single (.disarm s s.ackTimeoutHandle none)
      -- while the timer was armed, no call for the write was out
      have hcalls : { s with timers := [], verifyTimerHandle := none }.NoVerify := by
        intro c hc htoken hpurpose
        obtain ⟨-, -, -, hnil⟩ := hs.verify c hc htoken hpurpose
        exact nomatch htimers.symm.trans hnil
      simp only [hkind, verificationTimer, hpending, hid, ne_eq, not_true_eq_false, if_false]
      rw [hpending] at hdisarm hcalls
      split_ifs with htoken
      · exact hdisarm.tail (.arm _ rfl hstage rfl hcalls)
      · exact hs.andThen hdisarm fun hs => submitAgentCall_steps hπ hs ⟨hs.mqtt_of_pending rfl,
          fun _ => ⟨p, rfl, hstage, rfl⟩, nofun, fun _ => coreMethod_ne _⟩

end Methods

end World

/-- The callback keeps to the policy. -/
def Policy.Allows (π : Policy) (s : World) : World.Callback → Prop
  | .requestWrite r => π.admits r ∧ (∀ p, s.decision r = .coalesce p → π.coalesces p r) ∧
      (s.decision r = .queue → π.queues s r) ∧ (s.decision r = .start → π.starts s r)
  | _ => True

namespace World

variable {π : Policy} {host : Host} {s : World}

/-- **A callback is a sequence of moves.** -/
theorem handle_moves (hπ : π.Welcomes host) (hs : s.Sound) {callback : Callback}
    (hallows : π.Allows s callback) : Moves π s (s.handle host callback) := by
  cases callback with
  | feederConnected => exact onFeederConnected_moves hπ hs
  | feederDisconnected => exact onFeederDisconnected_moves hπ hs
  | heartbeat => exact onHeartbeat_moves hπ hs
  | persistentStateHint => exact (onPersistentStateHint_steps hπ hs).moves
  | requestWrite r =>
    obtain ⟨hadmits, hcoalesces, hqueues, hstarts⟩ := hallows
    exact (requestPersistentWrite_steps hπ hs hadmits hcoalesces hqueues hstarts).moves
  | requestPlanSnapshot => exact (requestPlanSnapshot_steps hπ hs).moves
  | mqttAck ack => exact (onMqttAck_steps hπ hs ack).moves
  | timer timer =>
    rw [handle]
    split_ifs with htimer
    · exact (fireTimer_steps hπ hs htimer).moves
    · exact .refl
  | agentComplete call result =>
    rw [handle]
    split_ifs with hcall
    · exact (agentCallComplete_steps hπ hs hcall result).moves
    · exact .refl
  | shutdown => exact shutdown_moves

/-- A run is extended by one callback. -/
theorem run_append_singleton (host : Host) (callbacks : List Callback) (callback : Callback) :
    run host (callbacks ++ [callback]) = (run host callbacks).handle host callback := by
  rw [run, foldl_append, foldl_cons, foldl_nil, run]

/-- Every callback of the run keeps to the policy. -/
def Obeys (π : Policy) (host : Host) (callbacks : List Callback) : Prop :=
  ∀ before callback after, callbacks = before ++ callback :: after →
    π.Allows (run host before) callback

/-- **A run is a sequence of moves.** -/
theorem run_moves (hπ : π.Welcomes host) {callbacks : List Callback}
    (hobeys : Obeys π host callbacks) : Moves π {} (run host callbacks) := by
  induction callbacks using List.reverseRecOn with
  | nil => exact .refl
  | append_singleton callbacks callback ih =>
    have hbefore := ih fun before c after h =>
      hobeys before c (after ++ [callback]) (by rw [h, append_assoc, cons_append])
    rw [run_append_singleton]
    exact hbefore.trans (handle_moves hπ (sound_initial.moves hbefore)
      (hobeys callbacks callback [] rfl))

/-- Every run keeps to the policy that allows everything. -/
theorem obeys_any (host : Host) (callbacks : List Callback) : Obeys .any host callbacks := by
  intro before callback after _
  cases callback with
  | requestWrite r => exact ⟨trivial, fun _ _ => trivial, fun _ => trivial, fun _ => trivial⟩
  | _ => exact trivial

/-- **So every run is made of moves.** -/
theorem run_moves_any (host : Host) (callbacks : List Callback) :
    Moves .any {} (run host callbacks) :=
  run_moves (Policy.any_welcomes host) (obeys_any host callbacks)

/-- **The invariant holds between any two callbacks of every run.** -/
theorem run_sound (host : Host) (callbacks : List Callback) : (run host callbacks).Sound :=
  sound_initial.moves (run_moves_any host callbacks)

end World

end PetlibroLocal
