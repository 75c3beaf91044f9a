import Mathlib.Data.Set.Operations
import PetlibroLocal.Lib.Splits
import PetlibroLocal.Feeder.Dispensing

/-!
# The Dispensing Status Is Never Stale

The main results are `dispensing_status_fresh`, `Controller.inv_run` and `Controller.timed_run`.
-/

namespace PetlibroLocal.Dispensing

/-! ### What the status must come from -/

namespace Entry

/-- The connection begins or ends. -/
def isConnection : Entry → Bool
  | .connected => true
  | .disconnected => true
  | _ => false

/-- A grain event was accepted. -/
def isGrain : Entry → Bool
  | .grain _ => true
  | _ => false

/-- A snapshot was requested. -/
def isRequest : Entry → Bool
  | .requested _ => true
  | _ => false

/-- A response came to the message. -/
def answers (messageId : String) : Entry → Bool
  | .response id _ _ => id == messageId
  | _ => false

/-- Neither the connection nor the status of the feeder has changed, and nothing was asked. -/
def Quiet (e : Entry) : Prop := e.isConnection = false ∧ e.isGrain = false ∧ e.isRequest = false

end Entry

/-- The feeder went online, and the connection has not changed since. -/
def Connected (history : List Entry) : Prop :=
  Since (· = .connected) (fun later => ∀ e ∈ later, e.isConnection = false) history

/-- The status is that of the latest grain event of the connection. -/
def FreshEvent (history : List Entry) (progress : FoodOutputProgress) : Prop :=
  Since (· = .grain progress)
    (fun later => ∀ e ∈ later, e.isConnection = false ∧ e.isGrain = false) history

/-- The request `k` is the latest one. -/
def LatestRequest (history : List Entry) (k : ℕ) : Prop :=
  Since (· = .requested k) (fun later => ∀ e ∈ later, e.isRequest = false) history

/-- Nothing has happened since the request `k` was made, and its first response is `answer`. -/
def SinceRequest (ids : ℕ → String) (k : ℕ) (answer : Option Entry) (history : List Entry) : Prop :=
  Since (· = .requested k)
    (fun later => (∀ e ∈ later, e.Quiet) ∧ later.find? (·.answers (ids k)) = answer) history

/-- The status is the motor state of the response to the latest request, which was made in the
connection and after the latest grain event. -/
def FreshSnapshot (ids : ℕ → String) (history : List Entry) (progress : FoodOutputProgress) :
    Prop :=
  ∃ k motorState, Projector.motorStateMapping motorState = some progress ∧
    SinceRequest ids k (some (.response (ids k) .ok motorState)) history

/-! ### Publications -/

/-- The published availability. -/
def Publication.available? : Publication → Option Bool
  | .available b => some b
  | .progress _ => none

/-- The published status. -/
def Publication.progress? : Publication → Option FoodOutputProgress
  | .available _ => none
  | .progress p => some p

/-- What Home Assistant was told last is what the projector holds. -/
structure Projector.Announced (p : Projector) : Prop where
  available : p.published.findSome? Publication.available? = some p.available
  progress : p.published.findSome? Publication.progress? = p.currentState

theorem Projector.Announced.markUnavailable {p : Projector} (h : p.Announced) :
    p.markUnavailable.Announced := ⟨rfl, h.progress⟩

theorem Projector.announced_publish (p : Projector) (progress : FoodOutputProgress) :
    (p.publish progress).Announced := ⟨rfl, rfl⟩

/-! ### Another entry -/

section Concat

variable {ids : ℕ → String} {history : List Entry} {e : Entry} {k : ℕ}

theorem SinceRequest.concat {answer : Option Entry} (h : SinceRequest ids k answer history)
    (he : e.Quiet) (hanswer : answer = none → e.answers (ids k) = false) :
    SinceRequest ids k answer (history ++ [e]) := by
  refine Since.append h fun later hlater => ⟨?_, ?_⟩
  · exact List.forall_mem_append.mpr ⟨hlater.1, List.forall_mem_singleton.mpr he⟩
  · rw [List.find?_append, hlater.2]
    cases answer with
    | none => simp [hanswer rfl]
    | some a => rfl

theorem SinceRequest.answered (h : SinceRequest ids k none history) (he : e.Quiet)
    (hanswer : e.answers (ids k) = true) : SinceRequest ids k (some e) (history ++ [e]) := by
  refine Since.append h fun later hlater => ⟨?_, ?_⟩
  · exact List.forall_mem_append.mpr ⟨hlater.1, List.forall_mem_singleton.mpr he⟩
  · rw [List.find?_append, hlater.2]
    simp [hanswer]

theorem FreshSnapshot.concat {progress : FoodOutputProgress}
    (h : FreshSnapshot ids history progress) (he : e.Quiet) :
    FreshSnapshot ids (history ++ [e]) progress := by
  obtain ⟨k, motorState, hmotor, hsince⟩ := h
  exact ⟨k, motorState, hmotor, hsince.concat he fun hnone => absurd hnone (by simp)⟩

end Concat

/-! ### Invariant -/

namespace Controller

/-- What is left when the pending request is dropped. -/
@[simp] theorem clear_eq (s : Controller) : s.clearRuntimeSnapshotPending =
    { s with
      runtimeSnapshotPending := none
      runtimeSnapshotTimeoutHandle := none
      timers := s.runtimeSnapshotTimeoutHandle.elim s.timers s.timers.erase } := by
  unfold clearRuntimeSnapshotPending
  split
  · next hnone => simp [hnone]
  · next hsome => simp [hsome]

/-- What is known of the pending request. -/
structure Waiting (ids : ℕ → String) (s : Controller) (r : RuntimeSnapshotRequest) : Prop where
  online : s.isOnline = true
  generation_le : r.runtimeEventGeneration ≤ s.projector.runtimeEventGeneration
  latest : ∃ k, r.messageId = ids k ∧ LatestRequest s.history k ∧
    (r.runtimeEventGeneration = s.projector.runtimeEventGeneration →
      SinceRequest ids k none s.history)

/-- The available status is that of a feeder that is online, and fresh. -/
def Fresh (ids : ℕ → String) (s : Controller) : Prop :=
  s.projector.available = true → s.isOnline = true ∧
    ∃ progress, s.projector.currentState = some progress ∧
      (FreshEvent s.history progress ∨ FreshSnapshot ids s.history progress)

/-- The invariant of the system. -/
structure Inv (ids : ℕ → String) (s : Controller) : Prop where
  generation : s.projector.connectionGeneration =
    if s.isOnline then some s.connectionGeneration else none
  connected : s.isOnline = true → Connected s.history
  waiting : ∀ r, s.runtimeSnapshotPending = some r → s.Waiting ids r
  fresh : s.Fresh ids
  announced : s.projector.Announced

variable {ids : ℕ → String} {s s' : Controller}

theorem fresh_of_unavailable (h : s.projector.available = false) : s.Fresh ids := fun hav =>
  absurd (h.symm.trans hav) Bool.false_ne_true

theorem inv_init : init.Inv ids :=
  ⟨rfl, nofun, fun _ h => absurd h (by simp [init]), fresh_of_unavailable rfl, ⟨rfl, rfl⟩⟩

/-- The projector knows a connection only while the feeder is online. -/
theorem Inv.online (h : s.Inv ids) {generation : ℕ}
    (hgeneration : s.projector.connectionGeneration = some generation) : s.isOnline = true := by
  by_contra hoffline
  rw [h.generation, if_neg hoffline] at hgeneration
  cases hgeneration

theorem Inv.withdraw (h : s.Inv ids) (honline : s'.isOnline = s.isOnline)
    (hgeneration : s'.connectionGeneration = s.connectionGeneration)
    (hhistory : s'.history = s.history)
    (hpending : s'.runtimeSnapshotPending = none ∨
      s'.runtimeSnapshotPending = s.runtimeSnapshotPending)
    (hprojector : s'.projector = s.projector ∨ s'.projector = s.projector.markUnavailable) :
    s'.Inv ids := by
  have hsame : s'.projector.connectionGeneration = s.projector.connectionGeneration ∧
      s'.projector.runtimeEventGeneration = s.projector.runtimeEventGeneration := by
    rcases hprojector with hp | hp <;> rw [hp] <;> exact ⟨rfl, rfl⟩
  refine ⟨?_, fun hon => hhistory ▸ h.connected (honline ▸ hon), fun r hr => ?_, ?_, ?_⟩
  · rw [hsame.1, h.generation, honline, hgeneration]
  · rcases hpending with hnone | hkept
    · rw [hnone] at hr
      exact absurd hr (by simp)
    · obtain ⟨hon, hle, hlatest⟩ := h.waiting r (hkept.symm.trans hr)
      exact ⟨honline.trans hon, hsame.2 ▸ hle, by rw [hsame.2, hhistory]; exact hlatest⟩
  · rcases hprojector with hp | hp
    · unfold Fresh
      rw [hp, hhistory, honline]
      exact h.fresh
    · exact fresh_of_unavailable (by rw [hp]; rfl)
  · rcases hprojector with hp | hp <;> rw [hp]
    · exact h.announced
    · exact h.announced.markUnavailable

/-! ### The connection -/

theorem Inv.goOffline (h : s.Inv ids) : s.goOffline.Inv ids :=
  ⟨rfl, nofun, fun r hr => absurd hr (by simp [Controller.goOffline]), fresh_of_unavailable rfl,
    ⟨rfl, h.announced.progress⟩⟩

theorem Inv.goOnline (h : s.Inv ids) (hoffline : s.isOnline = false) : s.goOnline.Inv ids := by
  refine ⟨rfl, fun _ => since_concat _ rfl (List.forall_mem_nil _), fun r hr => ?_,
    fresh_of_unavailable rfl, ⟨rfl, h.announced.progress⟩⟩
  have honline := (h.waiting r hr).online
  rw [hoffline] at honline
  exact absurd honline Bool.false_ne_true

/-! ### Requests -/

theorem applyRuntimeSnapshot_failure (p : Projector) (request : RuntimeSnapshotRequest)
    (motorState : Option ℤ) (reason : String) :
    p.applyRuntimeSnapshot ⟨request, motorState, some reason⟩ = p ∨
      p.applyRuntimeSnapshot ⟨request, motorState, some reason⟩ = p.markUnavailable := by
  unfold Projector.applyRuntimeSnapshot
  split
  · exact .inl rfl
  · split
    · exact .inl rfl
    · exact .inr rfl

theorem Inv.startRuntimeSnapshot (h : s.Inv ids) (honline : s.isOnline = true) (reason : String) :
    (s.startRuntimeSnapshot ids reason).Inv ids := by
  have hgeneration := h.generation
  rw [honline, if_pos rfl] at hgeneration
  have hprojector : s.projector.runtimeSnapshotStarted (nextRequest ids s reason) =
      s.projector.markUnavailable := if_neg (not_not.mpr hgeneration.symm)
  refine ⟨?_, fun _ => (h.connected honline).concat rfl, fun r hr => ?_, fresh_of_unavailable ?_,
    ?_⟩
  · simp only [Controller.startRuntimeSnapshot, hprojector, clear_eq, honline, if_true]
    exact hgeneration
  · obtain rfl : nextRequest ids s reason = r := Option.some.inj hr
    have hkept : (s.startRuntimeSnapshot ids reason).projector.runtimeEventGeneration =
        s.projector.runtimeEventGeneration := by
      simp only [Controller.startRuntimeSnapshot, hprojector]
      rfl
    refine ⟨?_, Nat.le_of_eq hkept.symm, s.requests, rfl, ?_, fun _ => ?_⟩
    · rw [Controller.startRuntimeSnapshot, clear_eq]
      exact honline
    · exact since_concat _ rfl (List.forall_mem_nil _)
    · exact since_concat _ rfl ⟨List.forall_mem_nil _, rfl⟩
  · simp only [Controller.startRuntimeSnapshot, hprojector]
    rfl
  · simp only [Controller.startRuntimeSnapshot, hprojector]
    exact h.announced.markUnavailable

theorem Inv.requestRuntimeSnapshot (h : s.Inv ids) (reason : String) (attempt : Attempt) :
    (s.requestRuntimeSnapshot ids reason attempt).Inv ids := by
  unfold Controller.requestRuntimeSnapshot
  split
  · exact h
  · rename_i hoffline
    have hstarted := h.startRuntimeSnapshot (Bool.not_eq_false _ ▸ hoffline) reason
    have hfailed := applyRuntimeSnapshot_failure (s.startRuntimeSnapshot ids reason).projector
      (nextRequest ids s reason) none "runtime snapshot request failed"
    cases attempt with
    | timerFails =>
      refine hstarted.withdraw ?_ ?_ ?_ (.inl ?_) ?_ <;> simp [snapshotResult, hfailed]
    | sendFails =>
      refine hstarted.withdraw ?_ ?_ ?_ (.inl ?_) ?_ <;> simp [snapshotResult, runIn, hfailed]
    | sent => exact hstarted.withdraw rfl rfl rfl (.inr rfl) (.inl rfl)

/-! ### Responses -/

theorem response_quiet (messageId : String) (code : Code) (motorState : ℤ) :
    (Entry.response messageId code motorState).Quiet := ⟨rfl, rfl, rfl⟩

theorem Fresh.note_response (h : s.Fresh ids) (messageId : String) (code : Code)
    (motorState : ℤ) : (s.note (.response messageId code motorState)).Fresh ids := by
  intro havailable
  obtain ⟨honline, progress, hcurrent, hfresh⟩ := h havailable
  refine ⟨honline, progress, hcurrent, ?_⟩
  rcases hfresh with hevent | hsnapshot
  · exact .inl (Since.concat hevent ⟨rfl, rfl⟩)
  · exact .inr (hsnapshot.concat (response_quiet _ _ _))

theorem Inv.note_response (h : s.Inv ids) {messageId : String} (code : Code) (motorState : ℤ)
    (hother : ∀ r, s.runtimeSnapshotPending = some r → messageId ≠ r.messageId) :
    (s.note (.response messageId code motorState)).Inv ids := by
  refine ⟨h.generation, fun hon => (h.connected hon).concat rfl, fun r hr => ?_,
    h.fresh.note_response _ _ _, h.announced⟩
  obtain ⟨honline, hle, k, hid, hlatest, hsince⟩ := h.waiting r hr
  refine ⟨honline, hle, k, hid, Since.concat hlatest rfl, fun heq => ?_⟩
  refine (hsince heq).concat (response_quiet _ _ _) fun _ => beq_eq_false_iff_ne.mpr ?_
  rw [← hid]
  exact hother r hr

theorem Inv.note_response_clear (h : s.Inv ids) (messageId : String) (code : Code)
    (motorState : ℤ) :
    (s.note (.response messageId code motorState)).clearRuntimeSnapshotPending.Inv ids := by
  rw [clear_eq]
  exact ⟨h.generation, fun hon => (h.connected hon).concat rfl, nofun,
    h.fresh.note_response messageId code motorState, h.announced⟩

theorem Inv.snapshotResult (h : s.Inv ids) {r : RuntimeSnapshotRequest} {motorState : ℤ}
    (hsince : r.runtimeEventGeneration = s.projector.runtimeEventGeneration →
      ∃ k, SinceRequest ids k (some (.response (ids k) .ok motorState)) s.history) :
    (s.snapshotResult ⟨r, some motorState, none⟩).Inv ids := by
  unfold Controller.snapshotResult Projector.applyRuntimeSnapshot
  split
  · exact h
  · rename_i hgeneration
    have honline := h.online (not_not.mp hgeneration).symm
    split
    · exact h
    · rename_i hevents
      obtain ⟨k, hsince⟩ := hsince (not_not.mp hevents)
      simp only [Option.isSome_none, Bool.false_eq_true, if_false, Option.bind_some]
      split
      · exact h.withdraw rfl rfl rfl (.inr rfl) (.inr rfl)
      · rename_i progress hmotor
        refine ⟨h.generation, h.connected, fun r hr => ?_,
          fun _ => ⟨honline, progress, rfl, .inr ?_⟩, Projector.announced_publish _ _⟩
        · obtain ⟨honline, hle, hlatest⟩ := h.waiting r hr
          exact ⟨honline, hle, hlatest⟩
        · exact ⟨k, motorState, hmotor, hsince⟩

theorem Inv.attrGetServiceCb (h : s.Inv ids) (messageId : String) (code : Code) (motorState : ℤ) :
    (s.attrGetServiceCb messageId code motorState).Inv ids := by
  have hcleared := h.note_response_clear messageId code motorState
  unfold Controller.attrGetServiceCb snapshotResponse
  split
  · rename_i hnone
    exact h.note_response code motorState fun r hr => absurd (hnone.symm.trans hr) (by simp)
  · rename_i pending hpending
    split
    · rename_i hother
      refine h.note_response code motorState fun r hr => ?_
      obtain rfl : pending = r := Option.some.inj (hpending.symm.trans hr)
      exact hother
    · rename_i hid
      obtain rfl : messageId = pending.messageId := not_not.mp hid
      split
      · exact hcleared
      · split
        · exact hcleared.withdraw rfl rfl rfl (.inr rfl)
            (applyRuntimeSnapshot_failure _ pending none "feeder rejected runtime snapshot request")
        · rename_i hcode
          obtain rfl : code = .ok := not_not.mp hcode
          obtain ⟨-, -, k, hk, -, hsince⟩ := h.waiting pending hpending
          refine hcleared.snapshotResult fun heq => ⟨k, ?_⟩
          rw [clear_eq] at heq ⊢
          rw [hk]
          exact (hsince heq).answered (response_quiet _ _ _) (beq_self_eq_true _)

theorem Inv.attrGetServiceCb_projector (h : s.Inv ids) {messageId : String}
    (hother : ∀ k, LatestRequest s.history k → messageId ≠ ids k) (code : Code) (motorState : ℤ) :
    (s.attrGetServiceCb messageId code motorState).projector = s.projector := by
  unfold Controller.attrGetServiceCb snapshotResponse
  split
  · rfl
  · rename_i pending hpending
    obtain ⟨-, -, k, hk, hlatest, -⟩ := h.waiting pending hpending
    rw [if_pos (hk ▸ hother k hlatest)]
    rfl

/-! ### Grain events and timeouts -/

theorem applyGrainEvent_cases (p : Projector) (progress : FoodOutputProgress) (generation : ℕ) :
    p.applyGrainEvent progress generation = (false, p) ∨
      p.connectionGeneration = some generation ∧ p.applyGrainEvent progress generation =
        (true, { p with runtimeEventGeneration := p.runtimeEventGeneration + 1 }.publish
          progress) := by
  unfold Projector.applyGrainEvent
  split
  · exact .inl rfl
  · rename_i hgeneration
    split
    · exact .inl rfl
    · exact .inr ⟨(not_not.mp hgeneration).symm, rfl⟩

theorem Inv.foodOutputProgress (h : s.Inv ids) (progress : FoodOutputProgress) :
    (s.foodOutputProgress progress).Inv ids := by
  unfold Controller.foodOutputProgress
  rcases applyGrainEvent_cases s.projector progress s.connectionGeneration with
    heq | ⟨hgeneration, heq⟩
  · rw [heq]
    exact h
  · rw [heq]
    refine ⟨h.generation, fun hon => (h.connected hon).concat rfl, fun r hr => ?_,
      fun _ => ⟨h.online hgeneration, progress, rfl, .inl ?_⟩, Projector.announced_publish _ _⟩
    · obtain ⟨honline, hle, k, hid, hlatest, -⟩ := h.waiting r hr
      refine ⟨honline, Nat.le_succ_of_le hle, k, hid, Since.concat hlatest rfl, fun heq => ?_⟩
      exact absurd heq (Nat.ne_of_lt (Nat.lt_succ_of_le hle))
    · exact since_concat _ rfl (List.forall_mem_nil _)

theorem Inv.runtimeSnapshotTimeout (h : s.Inv ids) (timer : SnapshotTimer) :
    (s.runtimeSnapshotTimeout timer).Inv ids := by
  unfold Controller.runtimeSnapshotTimeout
  split
  · exact h
  · rename_i pending hpending
    split
    · exact h
    · exact h.withdraw rfl rfl rfl (.inl rfl)
        (applyRuntimeSnapshot_failure _ pending none "runtime snapshot request timed out")

theorem Inv.timerEnds (h : s.Inv ids) (timer : SnapshotTimer) : (s.timerEnds timer).Inv ids := by
  unfold Controller.timerEnds
  split
  · have hended : { s with timers := s.timers.erase timer }.Inv ids :=
      h.withdraw rfl rfl rfl (.inr rfl) (.inl rfl)
    exact hended.runtimeSnapshotTimeout timer
  · exact h

/-! ### Runs -/

/-- **What every callback keeps**, if the parts that callbacks are made of keep it. -/
theorem step_keeps {P : Controller → Prop} (offline : ∀ {s}, P s → P s.goOffline)
    (counted : ∀ {s} count, P s → P { s with lastHeartbeatCount := count })
    (online : ∀ {s}, P s → s.isOnline = false → P s.goOnline)
    (requested : ∀ {s} reason attempt, P s → P (s.requestRuntimeSnapshot ids reason attempt))
    (grain : ∀ {s} progress, P s → P (s.foodOutputProgress progress))
    (unavailable : ∀ {s}, P s → P { s with projector := s.projector.markUnavailable })
    (response : ∀ {s} messageId code motorState, P s →
      P (s.attrGetServiceCb messageId code motorState))
    (timed : ∀ {s} timer, P s → P (s.timerEnds timer)) (h : P s) (event : Event) :
    P (s.step ids event) := by
  have hacked : ∀ code, P (s.offlineAckCb code) := by
    intro code
    unfold offlineAckCb
    split
    · exact h
    · exact offline h
  cases event with
  | heartbeat count configSent attempt =>
    have hchecked : P (s.checkRestart count) := by
      unfold checkRestart
      split
      · exact offline h
      · exact h
    show P (s.heartbeatCb ids count configSent attempt)
    unfold heartbeatCb bringOnline
    split
    · next hoffline => exact requested _ _ (online (counted count hchecked) hoffline.1)
    · exact counted count hchecked
  | watchdog =>
    show P (if s.isOnline then s.goOffline else s)
    split
    · exact offline h
    · exact h
  | reboot code | restore code | wifiReconnect code => exact hacked code
  | grainOutput step =>
    show P (s.grainOutputEventCb step)
    unfold grainOutputEventCb
    split
    · exact grain _ h
    · exact h
  | homeAssistantBirth attempt => exact requested _ _ (unavailable h)
  | requestSnapshot reason attempt => exact requested reason attempt h
  | attrResponse messageId code motorState => exact response messageId code motorState h
  | timeout timer => exact timed timer h

/-- **Every callback keeps the invariant.** -/
theorem Inv.step (h : s.Inv ids) (event : Event) : (s.step ids event).Inv ids :=
  step_keeps (fun h => h.goOffline) (fun _ h => h.withdraw rfl rfl rfl (.inr rfl) (.inl rfl))
    (fun h => h.goOnline) (fun reason attempt h => h.requestRuntimeSnapshot reason attempt)
    (fun progress h => h.foodOutputProgress progress)
    (fun h => h.withdraw rfl rfl rfl (.inr rfl) (.inr rfl))
    (fun messageId code motorState h => h.attrGetServiceCb messageId code motorState)
    (fun timer h => h.timerEnds timer) h event

/-- **The invariant holds in every run.** -/
theorem inv_run (ids : ℕ → String) (events : List Event) : (run ids events).Inv ids :=
  List.foldlRecOn events (step ids) inv_init fun _ h event _ => h.step event

/-! ### Timers -/

/-- The timer of the pending request is the only one that is running. -/
structure Timed (s : Controller) : Prop where
  handle : s.runtimeSnapshotTimeoutHandle = s.runtimeSnapshotPending.map (·.timer)
  timers : s.timers = s.runtimeSnapshotTimeoutHandle.toList

theorem timed_clear (h : s.timers = s.runtimeSnapshotTimeoutHandle.toList) :
    s.clearRuntimeSnapshotPending.Timed ∧ s.clearRuntimeSnapshotPending.timers = [] := by
  unfold clearRuntimeSnapshotPending
  split
  · rename_i hnone
    rw [hnone] at h
    exact ⟨⟨hnone, h.trans (by rw [hnone])⟩, h⟩
  · rename_i timer hsome
    have hnil : s.timers.erase timer = [] := by
      rw [h, hsome]
      exact List.erase_cons_head timer []
    exact ⟨⟨rfl, hnil⟩, hnil⟩

theorem Timed.requestRuntimeSnapshot (h : s.Timed) (reason : String) (attempt : Attempt) :
    (s.requestRuntimeSnapshot ids reason attempt).Timed := by
  have hset : ((s.startRuntimeSnapshot ids reason).runIn (nextRequest ids s reason)).Timed :=
    ⟨rfl, congrArg (_ :: ·) (timed_clear h.timers).2⟩
  unfold Controller.requestRuntimeSnapshot
  split
  · exact h
  · cases attempt with
    | timerFails =>
      obtain ⟨hhandle, hnil⟩ := timed_clear h.timers
      have hstarted : (s.startRuntimeSnapshot ids reason).timers =
          (s.startRuntimeSnapshot ids reason).runtimeSnapshotTimeoutHandle.toList :=
        hhandle.timers
      exact ⟨(timed_clear hstarted).1.handle, (timed_clear hstarted).1.timers⟩
    | sendFails => exact ⟨(timed_clear hset.timers).1.handle, (timed_clear hset.timers).1.timers⟩
    | sent => exact hset

theorem Timed.goOffline (h : s.Timed) : s.goOffline.Timed :=
  ⟨(timed_clear h.timers).1.handle, (timed_clear h.timers).1.timers⟩

theorem Timed.foodOutputProgress (h : s.Timed) (progress : FoodOutputProgress) :
    (s.foodOutputProgress progress).Timed := by
  unfold Controller.foodOutputProgress
  split
  · exact ⟨h.handle, h.timers⟩
  · exact ⟨h.handle, h.timers⟩

theorem Timed.snapshotResponse (h : s.Timed) (messageId : String) (code : Code) (motorState : ℤ) :
    (s.snapshotResponse messageId code motorState).Timed := by
  have hcleared := (timed_clear h.timers).1
  unfold Controller.snapshotResponse
  split
  · exact h
  · split
    · exact h
    · split
      · exact hcleared
      · split
        · exact ⟨hcleared.handle, hcleared.timers⟩
        · exact ⟨hcleared.handle, hcleared.timers⟩

theorem Timed.timerEnds (h : s.Timed) (timer : SnapshotTimer) : (s.timerEnds timer).Timed := by
  unfold Controller.timerEnds
  split
  · rename_i hrunning
    rw [h.timers, h.handle, Option.mem_toList, Option.map_eq_some_iff] at hrunning
    obtain ⟨pending, hpending, rfl⟩ := hrunning
    have hnil : s.timers.erase pending.timer = [] := by
      rw [h.timers, h.handle, hpending]
      exact List.erase_cons_head _ []
    unfold Controller.runtimeSnapshotTimeout
    simp only [hpending, RuntimeSnapshotRequest.timer, ne_eq, not_true_eq_false, or_self, if_false]
    exact ⟨rfl, hnil⟩
  · exact h

theorem Timed.step (h : s.Timed) (event : Event) : (s.step ids event).Timed :=
  step_keeps (fun h => h.goOffline) (fun _ h => ⟨h.handle, h.timers⟩)
    (fun h _ => ⟨h.handle, h.timers⟩)
    (fun reason attempt h => h.requestRuntimeSnapshot reason attempt)
    (fun progress h => h.foodOutputProgress progress) (fun h => ⟨h.handle, h.timers⟩)
    (fun messageId code motorState h =>
      Timed.snapshotResponse ⟨h.handle, h.timers⟩ messageId code motorState)
    (fun timer h => h.timerEnds timer) h event

/-- **A request that waits has a running timer**, the only one. -/
theorem timed_run (ids : ℕ → String) (events : List Event) : (run ids events).Timed :=
  List.foldlRecOn events (Controller.step ids) ⟨rfl, rfl⟩ fun _ h event _ => h.step event

end Controller

open Controller in
/-- **The dispensing status is never stale.** In every run, a status is available only while the
feeder is connected, and is that of the latest grain event of the connection, or of the response to
the latest request; and a response to another request, or to none, changes nothing. -/
theorem dispensing_status_fresh (ids : ℕ → String) (hids : Function.Injective ids)
    (events : List Event) :
    ((run ids events).projector.available = true →
      (run ids events).isOnline = true ∧ Connected (run ids events).history ∧
      ∃ progress, (run ids events).projector.currentState = some progress ∧
        (FreshEvent (run ids events).history progress ∨
          FreshSnapshot ids (run ids events).history progress)) ∧
    (∀ j code motorState, ¬LatestRequest (run ids events).history j →
      ((run ids events).attrGetServiceCb (ids j) code motorState).projector =
        (run ids events).projector) ∧
    ∀ messageId code motorState, messageId ∉ Set.range ids →
      ((run ids events).attrGetServiceCb messageId code motorState).projector =
        (run ids events).projector := by
  have hinv := inv_run ids events
  refine ⟨fun havailable => ?_, fun j code motorState hj => ?_,
    fun messageId code motorState hrange => ?_⟩
  · obtain ⟨honline, hfresh⟩ := hinv.fresh havailable
    exact ⟨honline, hinv.connected honline, hfresh⟩
  · refine hinv.attrGetServiceCb_projector (fun k hk hid => ?_) code motorState
    obtain rfl := hids hid
    exact hj hk
  · refine hinv.attrGetServiceCb_projector (fun k _ hid => ?_) code motorState
    exact hrange ⟨k, hid.symm⟩

/-- Message IDs of different lengths. -/
def sampleIds (k : ℕ) : String := String.ofList (List.replicate k 'x')

theorem sampleIds_injective : Function.Injective sampleIds := by
  intro j k h
  have hlength := congrArg (·.toList.length) h
  simpa [sampleIds] using hlength

/-- The feeder connects and feeds, restarts between two heartbeats, and answers the first request
late and the second one in time. -/
def restartRun : List Controller.Event :=
  [.heartbeat 5 true .sent, .grainOutput .grainStart, .heartbeat 1 true .sent,
    .attrResponse (sampleIds 0) .ok 1, .attrResponse (sampleIds 1) .ok 2]

theorem dispensing_status_fresh_restart :
    (Controller.run sampleIds restartRun).projector.available = true ∧
      (Controller.run sampleIds restartRun).isOnline = true ∧
      Connected (Controller.run sampleIds restartRun).history ∧
      ∃ progress, (Controller.run sampleIds restartRun).projector.currentState = some progress ∧
        (FreshEvent (Controller.run sampleIds restartRun).history progress ∨
          FreshSnapshot sampleIds (Controller.run sampleIds restartRun).history progress) :=
  ⟨by decide, (dispensing_status_fresh sampleIds sampleIds_injective restartRun).1 (by decide)⟩

end PetlibroLocal.Dispensing
