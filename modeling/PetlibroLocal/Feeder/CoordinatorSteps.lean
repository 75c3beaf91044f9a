import PetlibroLocal.Feeder.Coordinator
import Mathlib.Logic.Relation

/-!
# The Coordinator as a Transition System

The methods of the coordinator call each other, and a callback may run through many of them
before it returns. Seen from outside, a callback is a sequence of a few kinds of small
steps: a request is queued, a write becomes the pending one, its command is sent, it is
given up, a timer is armed, a call is submitted. `Step` lists them, each with what is known
when it is taken, and `Move` adds the two that change the connection.

`Sound` is the invariant that ties the pending write, the operation token, the calls that
the host holds and its timers together. Every step keeps it (`Sound.step`), and
`PetlibroLocal.Feeder.CoordinatorRuns` shows that every callback is a sequence of steps.

A `Policy` restricts the requests of a run; what is proved for all runs has none.
-/

namespace PetlibroLocal

open List

/-- What the requests of a run may do. -/
structure Policy where
  admits : PersistentWriteRequest → Prop
  coalesces : PendingWrite → PersistentWriteRequest → Prop
  queues : World → PersistentWriteRequest → Prop
  starts : World → PersistentWriteRequest → Prop

/-- Every request may do everything. -/
def Policy.any : Policy := ⟨fun _ => True, fun _ _ => True, fun _ _ => True, fun _ _ => True⟩

/-- The truth is one that a core call returned while its generation was current. -/
def ReadBack (log : List LogEntry) (t : CoreTruth) : Prop :=
  ∃ call : AgentCall, .completed call (.truth t) call.generation true ∈ log ∧
    call.method ≠ .revisions

theorem ReadBack.append {log : List LogEntry} {t : CoreTruth} (h : ReadBack log t)
    (l : List LogEntry) : ReadBack (log ++ l) t := by
  obtain ⟨call, hmem, hmethod⟩ := h
  exact ⟨call, mem_append_left _ hmem, hmethod⟩

/-- The write was judged by its predicate. -/
def Resolution.judged : Resolution → Bool
  | .verified _ _ => true
  | .diverged _ _ => true
  | _ => false

/-- How a pending write can end, and what is recorded of it. -/
inductive PendingWrite.Ends (p : PendingWrite) : LogEntry → Prop
  | unprepared (hreceipt : p.receipt = none) : p.Ends (.unprepared p.write)
  | raised {now : ℕ} {truth : CoreTruth} {prepared : Prepared} (hreceipt : p.receipt = none)
      (hprepare : p.write.request.prepare now p.predicate truth = .ok prepared) :
      p.Ends (.published p.id p.write now truth none)
  | resolved {receipt : CommandReceipt} {how : Resolution} (hreceipt : p.receipt = some receipt)
      (hjudged : how.judged = false) : p.Ends (.resolved p.id p.write how)
  | diverged {truth : CoreTruth} (hstage : p.stage = .verifying)
      (hobserved : p.lastObservedTruth = some truth) :
      p.Ends (.resolved p.id p.write (.diverged p.predicate truth))
  | verified {truth : CoreTruth} {predicate : TruthPredicate} (hstage : p.stage = .verifying)
      (hobserved : p.lastObservedTruth = some truth) (hpredicate : p.predicate = some predicate)
      (hmatches : predicate.matchesTruth truth.toFeederTruth = true) :
      p.Ends (.resolved p.id p.write (.verified predicate truth))

namespace World

/-! ### Replacing a queued write -/

theorem replaceLast_eq_none_iff {w : QueuedWrite} {queue : List QueuedWrite} :
    replaceLast w queue = none ↔ ∀ q ∈ queue, q.control ≠ w.control := by
  induction queue with
  | nil => exact iff_of_true rfl (forall_mem_nil _)
  | cons q rest ih =>
    rw [replaceLast]
    cases hrest : replaceLast w rest with
    | some found =>
      have hnot : ¬ ∀ q ∈ rest, q.control ≠ w.control := by
        rw [← ih, hrest]
        exact nofun
      exact iff_of_false nofun fun h => hnot fun q hq => h q (mem_cons_of_mem _ hq)
    | none =>
      have hall := ih.mp hrest
      simp only
      split_ifs with hcontrol
      · exact iff_of_false nofun fun h => h q mem_cons_self hcontrol
      · exact iff_of_true rfl (forall_mem_cons.mpr ⟨hcontrol, hall⟩)

theorem replaceLast_eq_some {w old : QueuedWrite} {queue queue' : List QueuedWrite}
    (h : replaceLast w queue = some (old, queue')) :
    ∃ before after, queue = before ++ old :: after ∧ queue' = before ++ w :: after ∧
      old.control = w.control := by
  induction queue generalizing queue' with
  | nil => exact nomatch h
  | cons q rest ih =>
    rw [replaceLast] at h
    cases hrest : replaceLast w rest with
    | some found =>
      obtain ⟨found, rest'⟩ := found
      simp only [hrest, Option.some.injEq, Prod.mk.injEq] at h
      obtain ⟨rfl, rfl⟩ := h
      obtain ⟨before, after, rfl, rfl, hcontrol⟩ := ih hrest
      exact ⟨q :: before, after, rfl, rfl, hcontrol⟩
    | none =>
      simp only [hrest] at h
      split_ifs at h with hcontrol
      simp only [Option.some.injEq, Prod.mk.injEq] at h
      obtain ⟨rfl, rfl⟩ := h
      exact ⟨[], rest, rfl, rfl, hcontrol⟩

/-! ### Steps -/

/-- The worlds differ in what no step depends on: the state for display, the health flag, the
revisions, the deferred work and the counters. -/
structure Alike (s s' : World) : Prop where
  mqttConnected : s'.mqttConnected = s.mqttConnected
  latestTruth : s'.latestTruth = s.latestTruth
  pendingWrite : s'.pendingWrite = s.pendingWrite
  queuedWrites : s'.queuedWrites = s.queuedWrites
  generation : s'.generation = s.generation
  operationToken : s'.operationToken = s.operationToken
  ackTimeoutHandle : s'.ackTimeoutHandle = s.ackTimeoutHandle
  verifyTimerHandle : s'.verifyTimerHandle = s.verifyTimerHandle
  timers : s'.timers = s.timers
  calls : s'.calls = s.calls
  log : s'.log = s.log
  nextId : s.nextId ≤ s'.nextId

/-- No call that verifies a write is waited for. -/
def NoVerify (s : World) : Prop :=
  ∀ c ∈ s.calls, s.operationToken = some c.token → c.purpose ≠ .verify

/-- The pending write can be published or given up: no call and no timer is out for it. -/
structure Idle (s : World) (p : PendingWrite) : Prop where
  pendingWrite : s.pendingWrite = some p
  timers : s.timers = []
  calls : p.stage = .awaitingAck ∨ s.operationToken = none

/-- What holds when a call is submitted. -/
structure Submits (s : World) (method : AgentMethod) (purpose : AgentPurpose) : Prop where
  connected : s.mqttConnected = true
  verify : purpose = .verify →
    ∃ p, s.pendingWrite = some p ∧ p.stage = .verifying ∧ s.timers = []
  writePreflight : purpose = .writePreflight →
    ∃ p, s.pendingWrite = some p ∧ p.stage = .preparing
  reads : purpose ≠ .heartbeat → method ≠ .revisions

/-- The world after the submission of a call. -/
def submitted (s : World) (method : AgentMethod) (purpose : AgentPurpose) : World :=
  { s with
    nextId := s.nextId + 1
    operationToken := some s.nextId
    calls := s.calls ++ [⟨s.nextId, s.generation, method, purpose⟩]
    log := s.log ++ [.submitted ⟨s.nextId, s.generation, method, purpose⟩] }

/-- The world after the completion of a call, before its result is handled. -/
def completed (s : World) (call : AgentCall) (result : AgentResult) : World :=
  { s.settled call result with
    operationToken := if s.Credits call then none else s.operationToken }

/-- **One small step.** -/
inductive Step (π : Policy) : World → World → Prop
  | quiet {s s' : World} (h : s.Alike s') : Step π s s'
  | available (s : World) (value : Bool) : Step π s (s.note (.available value))
  | commit (s : World) {truth : CoreTruth} (hread : ReadBack s.log truth) :
      Step π s { s with latestTruth := some truth }
  | enqueue (s : World) {r : PersistentWriteRequest} (hconnected : s.mqttConnected = true)
      (hadmits : π.admits r) (hqueues : π.queues s r)
      (hnew : replaceLast (s.ticketed r) s.queuedWrites = none)
      (hroom : s.queuedWrites.length < maxQueuedWrites) :
      Step π s ((s.drawn.withQueue (s.queuedWrites ++ [s.ticketed r])).note
        (.accepted (s.ticketed r) .queued))
  | requeue (s : World) {r : PersistentWriteRequest} {old : QueuedWrite}
      {queue : List QueuedWrite} (hadmits : π.admits r) (hqueues : π.queues s r)
      (hreplace : replaceLast (s.ticketed r) s.queuedWrites = some (old, queue)) :
      Step π s ((s.drawn.withQueue queue).note
        (.accepted (s.ticketed r) (.replacedQueued old)))
  | coalesce (s : World) {r : PersistentWriteRequest} {p : PendingWrite}
      (hpending : s.pendingWrite = some p) (hstage : p.stage = .preparing)
      (hcontrol : p.write.control = r.control) (hadmits : π.admits r)
      (hcoalesces : π.coalesces p r) :
      Step π s ((s.drawn.withPending (p.carrying (s.ticketed r))).note
        (.accepted (s.ticketed r) (.replacedPending p.write)))
  | start (s : World) {r : PersistentWriteRequest} (hpending : s.pendingWrite = none)
      (hconnected : s.mqttConnected = true) (hadmits : π.admits r) (hstarts : π.starts s r) :
      Step π s ((s.drawn.note (.accepted (s.ticketed r) .started)).begun s.queuedWrites
        (s.ticketed r))
  | dequeue (s : World) {next : QueuedWrite} {rest : List QueuedWrite}
      (hpending : s.pendingWrite = none) (hqueue : s.queuedWrites = next :: rest) :
      Step π s ((s.note (.dequeued next)).begun rest next)
  | publish (s : World) {p : PendingWrite} {now : ℕ} {truth : CoreTruth} {prepared : Prepared}
      (hidle : s.Idle p) (hreceipt : p.receipt = none)
      (hprepare : p.write.request.prepare now p.predicate truth = .ok prepared)
      (receipt : CommandReceipt) : Step π s (s.sent p now truth prepared.predicate receipt)
  | finish (s : World) {p : PendingWrite} {ending : LogEntry} (hidle : s.Idle p)
      (hends : p.Ends ending) : Step π s (s.dropPending.note ending)
  | disarm (s : World) (ack verify : Option ℕ) :
      Step π s { s with timers := [], ackTimeoutHandle := ack, verifyTimerHandle := verify }
  | acknowledge (s : World) {p : PendingWrite} {receipt : CommandReceipt} {ack : MqttAck}
      (hpending : s.pendingWrite = some p) (hstage : p.stage = .awaitingAck)
      (hreceipt : p.receipt = some receipt) (hanswers : ack.Answers receipt) :
      Step π s (s.note (.acknowledged p.id ack))
  | verifying (s : World) {p : PendingWrite} {receipt : CommandReceipt} {ack : MqttAck}
      {log : List LogEntry} (hidle : s.Idle p) (hstage : p.stage = .awaitingAck)
      (hreceipt : p.receipt = some receipt) (hanswers : ack.Answers receipt)
      (hsuccess : ack.success = true) (hlog : s.log = log ++ [.acknowledged p.id ack]) :
      Step π s (s.withPending { p with stage := .verifying })
  | arm (s : World) {p : PendingWrite} (hpending : s.pendingWrite = some p)
      (hstage : p.stage = .verifying) (htimers : s.timers = []) (hcalls : s.NoVerify) :
      Step π s s.scheduleVerification
  | retry (s : World) {p : PendingWrite} (hpending : s.pendingWrite = some p) :
      Step π s (s.withPending p.retried)
  | observe (s : World) {p : PendingWrite} {truth : CoreTruth} {call : AgentCall}
      {log : List LogEntry} (hpending : s.pendingWrite = some p) (hstage : p.stage = .verifying)
      (hpurpose : call.purpose = .verify) (hmethod : call.method ≠ .revisions)
      (hlog : s.log = log ++ [.completed call (.truth truth) call.generation true]) :
      Step π s (s.withPending (p.observing truth))
  | submit (s : World) {method : AgentMethod} {purpose : AgentPurpose}
      (hsubmits : s.Submits method purpose) (htoken : s.operationToken = none) :
      Step π s (s.submitted method purpose)
  | complete (s : World) {call : AgentCall} (hcall : call ∈ s.calls) (result : AgentResult) :
      Step π s (s.completed call result)

/-- A small step, or a change of the connection. -/
inductive Move (π : Policy) : World → World → Prop
  | step {s s' : World} (h : Step π s s') : Move π s s'
  | connect (s : World) (htoken : s.operationToken = none) :
      Move π s { s with generation := s.generation + 1, mqttConnected := true }
  | clear (s : World) : Move π s s.cleared

/-- A sequence of small steps. -/
abbrev Steps (π : Policy) : World → World → Prop := Relation.ReflTransGen (Step π)

/-- A sequence of moves. -/
abbrev Moves (π : Policy) : World → World → Prop := Relation.ReflTransGen (Move π)

/-! ### The invariant -/

/-- At most one timer is armed, and it is the one of the pending write. -/
def Timely (s : World) : Prop :=
  s.timers = [] ∨ ∃ t p, s.timers = [t] ∧ s.pendingWrite = some p ∧ t.pendingId = p.id ∧
    (t.kind = .ackTimeout ∧ p.stage = .awaitingAck ∧ p.receipt ≠ none ∧
        s.ackTimeoutHandle = some t.handle ∨
      t.kind = .verification ∧ p.stage = .verifying ∧ s.verifyTimerHandle = some t.handle)

/-- **The invariant of the coordinator.** -/
structure Sound (s : World) : Prop where
  timely : s.Timely
  connected : s.mqttConnected = false →
    s.operationToken = none ∧ s.pendingWrite = none ∧ s.queuedWrites = []
  token : ∀ k, s.operationToken = some k →
    ∃ c ∈ s.calls, c.token = k ∧ c.generation = s.generation
  fresh : ∀ c ∈ s.calls, c.token < s.nextId
  verify : ∀ c ∈ s.calls, s.operationToken = some c.token → c.purpose = .verify →
    ∃ p, s.pendingWrite = some p ∧ p.stage = .verifying ∧ s.timers = []
  writePreflight : ∀ c ∈ s.calls, s.operationToken = some c.token → c.purpose = .writePreflight →
    ∃ p, s.pendingWrite = some p ∧ p.stage = .preparing
  reads : ∀ c ∈ s.calls, c.purpose ≠ .heartbeat → c.method ≠ .revisions
  preparing : ∀ p, s.pendingWrite = some p → p.stage = .preparing → p.receipt = none
  verifying : ∀ p, s.pendingWrite = some p → p.stage = .verifying → p.receipt ≠ none
  latest : ∀ t, s.latestTruth = some t → ReadBack s.log t
  observed : ∀ p t, s.pendingWrite = some p → p.lastObservedTruth = some t → ReadBack s.log t

variable {π : Policy} {s s' : World}

theorem Timely.timers_eq_nil (h : s.Timely)
    (hpending : ∀ p, s.pendingWrite = some p → p.receipt = none ∧ p.stage ≠ .verifying) :
    s.timers = [] := by
  rcases h with h | ⟨t, p, -, hp, -, h⟩
  · exact h
  · obtain ⟨hreceipt, hstage⟩ := hpending p hp
    rcases h with ⟨-, -, h, -⟩ | ⟨-, h, -⟩
    · exact absurd hreceipt h
    · exact absurd h hstage

theorem Timely.timers_eq_nil_of_none (h : s.Timely) (hpending : s.pendingWrite = none) :
    s.timers = [] :=
  h.timers_eq_nil fun _ hp => nomatch hpending.symm.trans hp

variable {p : PendingWrite}

theorem scheduleVerification_eq (hpending : s.pendingWrite = some p) :
    s.scheduleVerification =
      { s with
        timers := s.timers ++ [⟨s.nextId, .verification, p.id⟩]
        verifyTimerHandle := some s.nextId
        nextId := s.nextId + 1 } := by
  rw [scheduleVerification, hpending]

/-! ### What the steps do to the invariant -/

/-- What holds of the pending write holds of whatever is pending. -/
theorem forall_pending {P : PendingWrite → Prop} (h : P p) : ∀ q, some p = some q → P q := by
  rintro _ ⟨⟩
  exact h

theorem Sound.note (hs : s.Sound) (e : LogEntry) : (s.note e).Sound :=
  { hs with
    latest := fun t ht => (hs.latest t ht).append _
    observed := fun p t hp ht => (hs.observed p t hp ht).append _ }

theorem Sound.drawn (hs : s.Sound) : s.drawn.Sound :=
  { hs with fresh := fun c hc => Nat.lt_succ_of_lt (hs.fresh c hc) }

theorem Sound.mqtt_of_pending (hs : s.Sound) (hpending : s.pendingWrite = some p) :
    s.mqttConnected = true := by
  by_contra hmqtt
  obtain ⟨-, hnone, -⟩ := hs.connected (eq_false_of_ne_true hmqtt)
  exact nomatch hnone.symm.trans hpending

theorem Sound.mqtt_of_token (hs : s.Sound) {k : ℕ} (htoken : s.operationToken = some k) :
    s.mqttConnected = true := by
  by_contra hmqtt
  obtain ⟨hnone, -⟩ := hs.connected (eq_false_of_ne_true hmqtt)
  exact nomatch hnone.symm.trans htoken

theorem Sound.idle_calls (hs : s.Sound) (hidle : s.Idle p) {c : AgentCall} (hc : c ∈ s.calls)
    (htoken : s.operationToken = some c.token) :
    c.purpose ≠ .verify ∧ c.purpose ≠ .writePreflight := by
  rcases hidle.calls with hstage | hnone
  · constructor
    · intro hpurpose
      obtain ⟨q, hq, hverifying, -⟩ := hs.verify c hc htoken hpurpose
      obtain rfl := Option.some.inj (hidle.pendingWrite.symm.trans hq)
      exact nomatch hstage.symm.trans hverifying
    · intro hpurpose
      obtain ⟨q, hq, hpreparing⟩ := hs.writePreflight c hc htoken hpurpose
      obtain rfl := Option.some.inj (hidle.pendingWrite.symm.trans hq)
      exact nomatch hstage.symm.trans hpreparing
  · exact nomatch hnone.symm.trans htoken

theorem Sound.amend (hs : s.Sound) {q : PendingWrite} (hpending : s.pendingWrite = some p)
    (hid : q.id = p.id) (hstage : q.stage = p.stage) (hreceipt : q.receipt = p.receipt)
    (hobserved : ∀ t, q.lastObservedTruth = some t → ReadBack s.log t) :
    (s.withPending q).Sound := by
  refine { hs with
    timely := ?_
    connected := fun hmqtt => nomatch (hs.mqtt_of_pending hpending).symm.trans hmqtt
    verify := ?_, writePreflight := ?_
    preparing := forall_pending fun hpreparing =>
      hreceipt.trans (hs.preparing p hpending (hstage.symm.trans hpreparing))
    verifying := forall_pending fun hverifying =>
      hreceipt ▸ hs.verifying p hpending (hstage.symm.trans hverifying)
    observed := fun _ t hq ht => hobserved t (Option.some.inj hq ▸ ht) }
  · rcases hs.timely with h | ⟨t, p', htimers, hp', ht, hkind⟩
    · exact .inl h
    · obtain rfl := Option.some.inj (hpending.symm.trans hp')
      rw [← hstage, ← hreceipt] at hkind
      exact .inr ⟨t, q, htimers, rfl, ht.trans hid.symm, hkind⟩
  · intro c hc htoken hpurpose
    obtain ⟨p', hp', hverifying, htimers⟩ := hs.verify c hc htoken hpurpose
    obtain rfl := Option.some.inj (hpending.symm.trans hp')
    exact ⟨q, rfl, hstage.trans hverifying, htimers⟩
  · intro c hc htoken hpurpose
    obtain ⟨p', hp', hpreparing⟩ := hs.writePreflight c hc htoken hpurpose
    obtain rfl := Option.some.inj (hpending.symm.trans hp')
    exact ⟨q, rfl, hstage.trans hpreparing⟩

theorem Sound.begun (hs : s.Sound) (hpending : s.pendingWrite = none)
    (hconnected : s.mqttConnected = true) (queue : List QueuedWrite) (w : QueuedWrite) :
    (s.begun queue w).Sound := by
  refine { hs with
    timely := .inl (hs.timely.timers_eq_nil_of_none hpending)
    connected := fun hmqtt => nomatch hconnected.symm.trans hmqtt
    fresh := fun c hc => Nat.lt_succ_of_lt (hs.fresh c hc)
    verify := ?_, writePreflight := ?_
    preparing := forall_pending fun _ => rfl
    verifying := forall_pending fun hstage => ?_
    observed := fun _ _ hp ht => nomatch (Option.some.inj hp ▸ ht : none = some _) }
  · intro c hc htoken hpurpose
    obtain ⟨p, hp, -⟩ := hs.verify c hc htoken hpurpose
    exact nomatch hpending.symm.trans hp
  · intro c hc htoken hpurpose
    obtain ⟨p, hp, -⟩ := hs.writePreflight c hc htoken hpurpose
    exact nomatch hpending.symm.trans hp
  · rw [newPending] at hstage
    split_ifs at hstage

theorem Sound.sent (hs : s.Sound) {p : PendingWrite} (hidle : s.Idle p) (now : ℕ)
    (truth : CoreTruth) (predicate : Option TruthPredicate) (receipt : CommandReceipt) :
    (s.sent p now truth predicate receipt).Sound := by
  refine { hs with
    timely := ?_
    connected := fun hmqtt => nomatch (hs.mqtt_of_pending hidle.pendingWrite).symm.trans hmqtt
    fresh := fun c hc => Nat.lt_succ_of_lt (hs.fresh c hc)
    verify := fun c hc htoken h => absurd h (hs.idle_calls hidle hc htoken).1
    writePreflight := fun c hc htoken h => absurd h (hs.idle_calls hidle hc htoken).2
    preparing := forall_pending nofun
    verifying := forall_pending nofun
    latest := fun t ht => (hs.latest t ht).append _
    observed := ?_ }
  · refine .inr ⟨⟨s.nextId, .ackTimeout, p.id⟩, _, ?_, rfl, rfl,
      .inl ⟨rfl, rfl, Option.some_ne_none receipt, rfl⟩⟩
    rw [World.sent, hidle.timers]
    rfl
  · rintro _ t ⟨⟩ ht
    exact (hs.observed p t hidle.pendingWrite ht).append _

theorem Sound.ended (hs : s.Sound) (hidle : s.Idle p) : s.dropPending.Sound :=
  { hs with
    timely := .inl hidle.timers
    connected := fun hmqtt => ⟨(hs.connected hmqtt).1, rfl, (hs.connected hmqtt).2.2⟩
    verify := fun _ hc htoken h => absurd h (hs.idle_calls hidle hc htoken).1
    writePreflight := fun _ hc htoken h => absurd h (hs.idle_calls hidle hc htoken).2
    preparing := fun _ hp => absurd hp.symm (Option.some_ne_none _)
    verifying := fun _ hp => absurd hp.symm (Option.some_ne_none _)
    observed := fun _ _ hp => absurd hp.symm (Option.some_ne_none _) }

theorem Sound.acknowledged (hs : s.Sound) (hidle : s.Idle p) (hreceipt : p.receipt ≠ none) :
    (s.withPending { p with stage := .verifying }).Sound := by
  refine { hs with
    timely := .inl hidle.timers
    connected := fun hmqtt =>
      nomatch (hs.mqtt_of_pending hidle.pendingWrite).symm.trans hmqtt
    verify := fun _ hc htoken h => absurd h (hs.idle_calls hidle hc htoken).1
    writePreflight := fun _ hc htoken h => absurd h (hs.idle_calls hidle hc htoken).2
    preparing := forall_pending nofun
    verifying := forall_pending fun _ => hreceipt
    observed := ?_ }
  rintro _ t ⟨⟩ ht
  exact hs.observed p t hidle.pendingWrite ht

theorem Sound.scheduleVerification (hs : s.Sound) (hpending : s.pendingWrite = some p)
    (hstage : p.stage = .verifying) (htimers : s.timers = []) (hcalls : s.NoVerify) :
    s.scheduleVerification.Sound := by
  rw [scheduleVerification_eq hpending]
  refine { hs with
    timely := .inr ⟨⟨s.nextId, .verification, p.id⟩, p, ?_, hpending, rfl,
      .inr ⟨rfl, hstage, rfl⟩⟩
    fresh := fun c hc => Nat.lt_succ_of_lt (hs.fresh c hc)
    verify := fun c hc htoken h => absurd h (hcalls c hc htoken) }
  rw [htimers]
  rfl

theorem Sound.eq_of_nextId (hs : s.Sound) {call c : AgentCall} (hc : c ∈ s.calls ++ [call])
    (htoken : some s.nextId = some c.token) : c = call := by
  rcases mem_append.mp hc with hold | hnew
  · have hlt := hs.fresh c hold
    rw [← Option.some.inj htoken] at hlt
    exact absurd hlt (Nat.lt_irrefl _)
  · exact mem_singleton.mp hnew

theorem Sound.submitted (hs : s.Sound) {method : AgentMethod} {purpose : AgentPurpose}
    (hsubmits : s.Submits method purpose) : (s.submitted method purpose).Sound := by
  refine { hs with
    connected := fun hmqtt => nomatch hsubmits.connected.symm.trans hmqtt
    token := ?_, fresh := ?_, verify := ?_, writePreflight := ?_, reads := ?_
    latest := fun t ht => (hs.latest t ht).append _
    observed := fun p t hp ht => (hs.observed p t hp ht).append _ }
  · intro k hk
    exact ⟨_, mem_append_right _ (mem_singleton_self _), Option.some.inj hk, rfl⟩
  · intro c hc
    rcases mem_append.mp hc with hold | hnew
    · exact Nat.lt_succ_of_lt (hs.fresh c hold)
    · rw [mem_singleton.mp hnew]
      exact Nat.lt_succ_self _
  · intro c hc htoken hpurpose
    rw [hs.eq_of_nextId hc htoken] at hpurpose
    exact hsubmits.verify hpurpose
  · intro c hc htoken hpurpose
    rw [hs.eq_of_nextId hc htoken] at hpurpose
    exact hsubmits.writePreflight hpurpose
  · intro c hc
    rcases mem_append.mp hc with hold | hnew
    · exact hs.reads c hold
    · rw [mem_singleton.mp hnew]
      exact hsubmits.reads

theorem Sound.completed (hs : s.Sound) (call : AgentCall) (result : AgentResult) :
    (s.completed call result).Sound := by
  have htoken : ∀ k, (s.completed call result).operationToken = some k →
      s.operationToken = some k ∧ ¬ s.Credits call := by
    intro k hk
    by_cases hcredits : s.Credits call
    · rw [World.completed, if_pos hcredits] at hk
      exact nomatch hk
    · rw [World.completed, if_neg hcredits] at hk
      exact ⟨hk, hcredits⟩
  refine { hs with
    connected := ?_, token := ?_
    fresh := fun c hc => hs.fresh c (mem_of_mem_erase hc)
    verify := fun c hc h => hs.verify c (mem_of_mem_erase hc) (htoken _ h).1
    writePreflight := fun c hc h => hs.writePreflight c (mem_of_mem_erase hc) (htoken _ h).1
    reads := fun c hc => hs.reads c (mem_of_mem_erase hc)
    latest := fun t ht => (hs.latest t ht).append _
    observed := fun p t hp ht => (hs.observed p t hp ht).append _ }
  · intro hmqtt
    obtain ⟨hnone, hpending, hqueue⟩ := hs.connected hmqtt
    refine ⟨?_, hpending, hqueue⟩
    rw [World.completed, hnone]
    exact ite_self none
  · intro k hk
    obtain ⟨hold, hcredits⟩ := htoken k hk
    obtain ⟨c, hc, rfl, hgen⟩ := hs.token k hold
    refine ⟨c, (mem_erase_of_ne ?_).mpr hc, rfl, hgen⟩
    rintro rfl
    exact hcredits ⟨hgen, hold⟩

/-- **Every step keeps the invariant.** -/
theorem Sound.step (hs : s.Sound) (h : Step π s s') : s'.Sound := by
  cases h with
  | quiet h =>
    obtain ⟨hmqtt, hlatest, hpending, hqueue, hgen, htoken, hack, hverify, htimers, hcalls, hlog,
      hid⟩ := h
    constructor
    · simpa only [Timely, htimers, hpending, hack, hverify] using hs.timely
    · simpa only [hmqtt, htoken, hpending, hqueue] using hs.connected
    · simpa only [htoken, hcalls, hgen] using hs.token
    · rw [hcalls]
      intro c hc
      exact Nat.lt_of_lt_of_le (hs.fresh c hc) hid
    · simpa only [htoken, hcalls, hpending, htimers] using hs.verify
    · simpa only [htoken, hcalls, hpending] using hs.writePreflight
    · simpa only [hcalls] using hs.reads
    · simpa only [hpending] using hs.preparing
    · simpa only [hpending] using hs.verifying
    · simpa only [hlatest, hlog] using hs.latest
    · simpa only [hpending, hlog] using hs.observed
  | available | acknowledge => exact hs.note _
  | commit hread => exact { hs with latest := fun t ht => Option.some.inj ht ▸ hread }
  | enqueue hconnected =>
    refine Sound.note ?_ _
    exact { hs.drawn with connected := fun hmqtt => nomatch hconnected.symm.trans hmqtt }
  | requeue _ _ hreplace =>
    refine Sound.note ?_ _
    refine { hs.drawn with connected := fun hmqtt => ?_ }
    obtain ⟨-, -, hqueue⟩ := hs.connected hmqtt
    rw [hqueue] at hreplace
    exact nomatch hreplace
  | coalesce hpending =>
    refine Sound.note ?_ _
    exact hs.drawn.amend hpending rfl rfl rfl fun t ht => hs.observed _ t hpending ht
  | start hpending hconnected => exact (hs.drawn.note _).begun hpending hconnected _ _
  | dequeue hpending hqueue =>
    refine (hs.note _).begun hpending ?_ _ _
    by_contra hmqtt
    obtain ⟨-, -, hnil⟩ := hs.connected (eq_false_of_ne_true hmqtt)
    exact nomatch hnil.symm.trans hqueue
  | publish hidle _ _ receipt => exact hs.sent hidle _ _ _ receipt
  | finish hidle => exact (hs.ended hidle).note _
  | disarm ack verify =>
    refine { hs with timely := .inl rfl, verify := fun c hc htoken hpurpose => ?_ }
    obtain ⟨p, hp, hstage, -⟩ := hs.verify c hc htoken hpurpose
    exact ⟨p, hp, hstage, rfl⟩
  | verifying hidle _ hreceipt =>
    exact hs.acknowledged hidle (hreceipt ▸ Option.some_ne_none _)
  | arm hpending hstage htimers hcalls =>
    exact hs.scheduleVerification hpending hstage htimers hcalls
  | retry hpending =>
    exact hs.amend hpending rfl rfl rfl fun t ht => hs.observed _ t hpending ht
  | observe hpending _ _ hmethod hlog =>
    refine hs.amend hpending rfl rfl rfl fun t ht => ?_
    cases ht
    refine ⟨_, ?_, hmethod⟩
    rw [hlog]
    exact mem_append_right _ (mem_singleton_self _)
  | submit hsubmits => exact hs.submitted hsubmits
  | complete _ result => exact hs.completed _ result

theorem Sound.steps (hs : s.Sound) (h : Steps π s s') : s'.Sound := by
  induction h with
  | refl => exact hs
  | tail _ hstep ih => exact ih.step hstep

/-! ### Cancelling timers -/

theorem unarmed_eq {ack verify : Option ℕ} (htimers : s.timers = [])
    (hack : s.ackTimeoutHandle = ack) (hverify : s.verifyTimerHandle = verify) :
    { s with timers := [], ackTimeoutHandle := ack, verifyTimerHandle := verify } = s := by
  rw [← htimers, ← hack, ← hverify]

theorem cancelAckTimeout_eq (h : s.Timely) (hpending : s.pendingWrite = some p)
    (hstage : p.stage = .awaitingAck) :
    s.cancelAckTimeout = { s with timers := [], ackTimeoutHandle := none } := by
  rw [cancelAckTimeout]
  rcases h with htimers | ⟨t, q, htimers, hq, -, ⟨-, -, -, hack⟩ | ⟨-, hverifying, -⟩⟩
  · cases hack : s.ackTimeoutHandle with
    | none => exact (unarmed_eq htimers hack rfl).symm
    | some handle => simp only [htimers, filter_nil]
  · simp [hack, htimers]
  · obtain rfl := Option.some.inj (hpending.symm.trans hq)
    exact nomatch hstage.symm.trans hverifying

theorem exists_cancelPendingTimers (s : World) :
    ∃ timers ack verify, s.cancelPendingTimers =
      { s with timers := timers, ackTimeoutHandle := ack, verifyTimerHandle := verify } := by
  rw [cancelPendingTimers, cancelAckTimeout]
  cases s.ackTimeoutHandle with
  | none => cases s.verifyTimerHandle <;> exact ⟨_, _, _, rfl⟩
  | some handle => dsimp only; cases s.verifyTimerHandle <;> exact ⟨_, _, _, rfl⟩

theorem cancelPendingTimers_eq (h : s.Timely) :
    s.cancelPendingTimers =
      { s with timers := [], ackTimeoutHandle := none, verifyTimerHandle := none } := by
  rw [cancelPendingTimers, cancelAckTimeout]
  rcases h with htimers | ⟨t, p, htimers, -, -, ⟨-, -, -, hack⟩ | ⟨-, -, hverify⟩⟩
  · cases hack : s.ackTimeoutHandle with
    | none =>
      cases hverify : s.verifyTimerHandle with
      | none => exact (unarmed_eq htimers hack hverify).symm
      | some handle => simp [htimers, hack]
    | some handle =>
      cases s.verifyTimerHandle with
      | none | some => simp [htimers]
  · cases s.verifyTimerHandle with
    | none | some => simp [hack, htimers]
  · cases hack : s.ackTimeoutHandle with
    | none => simp [hack, hverify, htimers]
    | some handle => simp [hverify, htimers]

/-! ### Moves -/

/-- **Every move keeps the invariant.** -/
theorem Sound.move (hs : s.Sound) (h : Move π s s') : s'.Sound := by
  cases h with
  | step h => exact hs.step h
  | connect htoken =>
    exact { hs with
      connected := fun hmqtt => absurd hmqtt.symm Bool.false_ne_true
      token := fun k hk => nomatch htoken.symm.trans hk }
  | clear =>
    rw [cleared, cancelPendingTimers_eq hs.timely]
    exact { hs with
      timely := .inl rfl
      connected := fun _ => ⟨rfl, rfl, rfl⟩
      token := fun _ h => absurd h.symm (Option.some_ne_none _)
      verify := fun _ _ h => absurd h.symm (Option.some_ne_none _)
      writePreflight := fun _ _ h => absurd h.symm (Option.some_ne_none _)
      preparing := fun _ h => absurd h.symm (Option.some_ne_none _)
      verifying := fun _ h => absurd h.symm (Option.some_ne_none _)
      latest := fun t ht => (hs.latest t ht).append _
      observed := fun _ _ h => absurd h.symm (Option.some_ne_none _) }

theorem Sound.moves (hs : s.Sound) (h : Moves π s s') : s'.Sound := by
  induction h with
  | refl => exact hs
  | tail _ hmove ih => exact ih.move hmove

/-- **The rule for invariants**: what every move keeps holds after all of them. -/
theorem Moves.invariant {I : World → Prop} (h : Moves π s s') (hs : s.Sound) (hI : I s)
    (hmove : ∀ t t' : World, t.Sound → I t → Move π t t' → I t') : I s' := by
  induction h with
  | refl => exact hI
  | tail hmoves hlast ih => exact hmove _ _ (hs.moves hmoves) ih hlast

theorem sound_initial : ({} : World).Sound where
  timely := .inl rfl
  connected _ := ⟨rfl, rfl, rfl⟩
  token _ h := absurd h.symm (Option.some_ne_none _)
  fresh _ h := absurd h not_mem_nil
  verify _ h := absurd h not_mem_nil
  writePreflight _ h := absurd h not_mem_nil
  reads _ h := absurd h not_mem_nil
  preparing _ h := absurd h.symm (Option.some_ne_none _)
  verifying _ h := absurd h.symm (Option.some_ne_none _)
  latest _ h := absurd h.symm (Option.some_ne_none _)
  observed _ _ h := absurd h.symm (Option.some_ne_none _)

theorem Step.mqttConnected_eq (h : Step π s s') : s'.mqttConnected = s.mqttConnected := by
  cases h with
  | quiet h => exact h.mqttConnected
  | arm hpending => rw [scheduleVerification_eq hpending]
  | _ => rfl

theorem Steps.mqttConnected_eq (h : Steps π s s') : s'.mqttConnected = s.mqttConnected := by
  induction h with
  | refl => rfl
  | tail _ hstep ih => exact hstep.mqttConnected_eq.trans ih

end World

end PetlibroLocal
