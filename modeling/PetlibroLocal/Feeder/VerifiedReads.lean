import PetlibroLocal.Feeder.CoordinatorRuns
import PetlibroLocal.Lib.Splits

/-!
# Verified by a Later Read

One operation token is shared by all calls to the state agent, and calls complete at any
time, perhaps after the write they were made for is gone and another one is pending. A write
is nevertheless verified only by a truth that was read for it: its command was sent, the
acknowledgement that its receipt waits for came, a call was submitted after that, and this
call returned the truth, all within one connection.

The invariant `Traced` keeps the order of these entries for the pending write. A call for a
verification is submitted only while a write is verified, so the call that the token stands
for belongs to the pending write (`Reads.current`), and only its completion is credited.

The main results are `World.Traced.step`, `World.handle_of_ne_generation` and
`verified_by_later_read`.
-/

namespace PetlibroLocal

open List

/-! ### What the log says about a verified write -/

/-- The command of the write is sent. -/
def LogEntry.Publishes (pendingId : ℕ) (w : QueuedWrite) (receipt : CommandReceipt)
    (e : LogEntry) : Prop :=
  ∃ now truth, e = .published pendingId w now truth (some receipt)

/-- The acknowledgement that the receipt waits for is accepted, and it says success. -/
def LogEntry.Confirms (pendingId : ℕ) (receipt : CommandReceipt) (e : LogEntry) : Prop :=
  ∃ ack, e = .acknowledged pendingId ack ∧ ack.Answers receipt ∧ ack.success = true

/-- The truth was returned by a call that was submitted before. -/
def ReadSince (truth : CoreTruth) (l : List LogEntry) : Prop :=
  ∃ call : AgentCall, Since (· = .submitted call)
    (fun l => .completed call (.truth truth) call.generation true ∈ l) l

/-- The command was sent, with no disconnect since, and then acknowledged; what follows
satisfies `P`. -/
def Confirmed (pendingId : ℕ) (w : QueuedWrite) (P : List LogEntry → Prop)
    (log : List LogEntry) : Prop :=
  ∃ receipt, Since (LogEntry.Publishes pendingId w receipt)
    (fun l => .cleared ∉ l ∧ Since (LogEntry.Confirms pendingId receipt) P l) log

/-- The call was submitted in an earlier connection. -/
def Stale (log : List LogEntry) (call : AgentCall) : Prop :=
  Since (· = .submitted call) (.cleared ∈ ·) log

section

variable {pendingId : ℕ} {w : QueuedWrite} {P Q : List LogEntry → Prop} {log : List LogEntry}
  {e : LogEntry}

theorem not_mem_concat {x : LogEntry} {l : List LogEntry} (hx : x ∉ l) (he : x ≠ e) :
    x ∉ l ++ [e] := by
  intro h
  rcases mem_append.mp h with h | h
  · exact hx h
  · exact he (mem_singleton.mp h)

theorem Confirmed.concat (h : Confirmed pendingId w P log) (he : LogEntry.cleared ≠ e)
    (hPQ : ∀ l, P l → Q (l ++ [e])) : Confirmed pendingId w Q (log ++ [e]) := by
  obtain ⟨receipt, hsince⟩ := h
  exact ⟨receipt, hsince.append fun l hl => ⟨not_mem_concat hl.1 he, hl.2.append hPQ⟩⟩

theorem Confirmed.mono (h : Confirmed pendingId w P log) (hPQ : ∀ l, P l → Q l) :
    Confirmed pendingId w Q log := by
  obtain ⟨receipt, hsince⟩ := h
  exact ⟨receipt, hsince.mono fun l hl => ⟨hl.1, hl.2.mono hPQ⟩⟩

theorem Confirmed.of_concat (h : Confirmed pendingId w P (log ++ [e]))
    (hpublishes : ∀ receipt, ¬ e.Publishes pendingId w receipt)
    (hconfirms : ∀ receipt, ¬ e.Confirms pendingId receipt) :
    Confirmed pendingId w (fun l => P (l ++ [e])) log := by
  obtain ⟨receipt, hsince⟩ := h
  rcases hsince.of_concat with ⟨hlast, -⟩ | hsince
  · exact absurd hlast (hpublishes receipt)
  refine ⟨receipt, hsince.mono fun l hl => ⟨fun h => hl.1 (mem_append_left _ h), ?_⟩⟩
  rcases hl.2.of_concat with ⟨hlast, -⟩ | hafter
  · exact absurd hlast (hconfirms receipt)
  exact hafter

theorem ReadSince.concat {truth : CoreTruth} {l : List LogEntry} (h : ReadSince truth l)
    (e : LogEntry) : ReadSince truth (l ++ [e]) := by
  obtain ⟨call, hsince⟩ := h
  exact ⟨call, hsince.append fun _ hmem => mem_append_left _ hmem⟩

end

namespace World

/-! ### The invariant -/

/-- What was recorded since the acknowledgement of the pending write: the call that is waited
for was submitted, so was every call that was credited, and the last truth was read. -/
structure Reads (s : World) (observed : Option CoreTruth) (l : List LogEntry) : Prop where
  current : ∀ c ∈ s.calls, s.operationToken = some c.token → c.purpose = .verify →
    .submitted c ∈ l
  credited : AtEach (fun before e _ => ∀ call result generation,
    e = .completed call result generation true → call.purpose = .verify →
      .submitted call ∈ before) l
  read : ∀ truth, observed = some truth → ReadSince truth l

/-- **The log keeps the order of what happened to the pending write.** -/
structure Traced (s : World) : Prop where
  sent : ∀ p receipt, s.pendingWrite = some p → p.receipt = some receipt →
    Since (LogEntry.Publishes p.id p.write receipt) (.cleared ∉ ·) s.log
  unread : ∀ p, s.pendingWrite = some p → p.stage ≠ .verifying → p.lastObservedTruth = none
  verifying : ∀ p, s.pendingWrite = some p → p.stage = .verifying →
    Confirmed p.id p.write (s.Reads p.lastObservedTruth) s.log
  verified : AtEach (fun before e _ => ∀ pendingId w predicate truth,
    e = .resolved pendingId w (.verified predicate truth) →
      predicate.matchesTruth truth.toFeederTruth = true ∧
        Confirmed pendingId w (ReadSince truth) before) s.log

variable {π : Policy} {s s' : World} {e : LogEntry}

theorem Reads.concat {observed : Option CoreTruth} {l : List LogEntry} (h : s.Reads observed l)
    (hcurrent : ∀ c ∈ s'.calls, s'.operationToken = some c.token → c.purpose = .verify →
      (.submitted c ∈ l ∨ e = .submitted c))
    (hcredited : ∀ call result generation, e = .completed call result generation true →
      call.purpose = .verify → .submitted call ∈ l) : s'.Reads observed (l ++ [e]) := by
  refine ⟨?_, atEach_concat.mpr ⟨h.credited, hcredited⟩, fun truth ht => (h.read truth ht).concat e⟩
  intro c hc htoken hpurpose
  rcases hcurrent c hc htoken hpurpose with hold | rfl
  · exact mem_append_left _ hold
  · exact mem_append_right _ (mem_singleton_self _)

theorem Reads.same {observed : Option CoreTruth} {l : List LogEntry} (h : s.Reads observed l)
    (hcalls : s'.calls = s.calls) (htoken : s'.operationToken = s.operationToken) :
    s'.Reads observed l := by
  refine ⟨?_, h.credited, h.read⟩
  rw [hcalls, htoken]
  exact h.current

/-- The pending write is as it was, but for the number of attempts to verify it. -/
def KeepsPending (s s' : World) : Prop :=
  ∀ q, s'.pendingWrite = some q → ∃ p, s.pendingWrite = some p ∧ (q = p ∨ q = p.retried)

theorem KeepsPending.of_eq (h : s'.pendingWrite = s.pendingWrite) : s.KeepsPending s' :=
  fun q hq => ⟨q, h ▸ hq, .inl rfl⟩

theorem Traced.verified_concat (h : s.Traced)
    (he : ∀ pendingId w predicate truth, e ≠ .resolved pendingId w (.verified predicate truth)) :
    AtEach (fun before e _ => ∀ pendingId w predicate truth,
      e = .resolved pendingId w (.verified predicate truth) →
        predicate.matchesTruth truth.toFeederTruth = true ∧
          Confirmed pendingId w (ReadSince truth) before) (s.log ++ [e]) :=
  atEach_concat.mpr ⟨h.verified, fun _ _ _ _ heq => absurd heq (he _ _ _ _)⟩

theorem Traced.keep (h : s.Traced) (hlog : s'.log = s.log) (hcalls : s'.calls = s.calls)
    (htoken : s'.operationToken = s.operationToken) (hpending : s.KeepsPending s') :
    s'.Traced := by
  refine ⟨?_, ?_, ?_, hlog ▸ h.verified⟩
  · intro q receipt hq hreceipt
    obtain ⟨p, hp, rfl | rfl⟩ := hpending q hq
    · exact hlog ▸ h.sent _ receipt hp hreceipt
    · exact hlog ▸ h.sent p receipt hp hreceipt
  · intro q hq hstage
    obtain ⟨p, hp, rfl | rfl⟩ := hpending q hq
    · exact h.unread _ hp hstage
    · exact h.unread p hp hstage
  · intro q hq hstage
    rw [hlog]
    obtain ⟨p, hp, rfl | rfl⟩ := hpending q hq
    · exact (h.verifying _ hp hstage).mono fun l hl => hl.same hcalls htoken
    · exact (h.verifying p hp hstage).mono fun l hl => hl.same hcalls htoken

theorem Traced.concat (h : s.Traced) (hlog : s'.log = s.log ++ [e]) (hcleared : .cleared ≠ e)
    (he : ∀ pendingId w predicate truth, e ≠ .resolved pendingId w (.verified predicate truth))
    (hreads : ∀ observed l, s.Reads observed l → s'.Reads observed (l ++ [e]))
    (hpending : s'.pendingWrite = s.pendingWrite) : s'.Traced := by
  refine ⟨?_, ?_, ?_, hlog ▸ h.verified_concat he⟩
  · intro p receipt hp hreceipt
    rw [hlog]
    exact (h.sent p receipt (hpending ▸ hp) hreceipt).append
      fun l hl => not_mem_concat hl hcleared
  · intro p hp hstage
    exact h.unread p (hpending ▸ hp) hstage
  · intro p hp hstage
    rw [hlog]
    exact (h.verifying p (hpending ▸ hp) hstage).concat hcleared (hreads _)

theorem Traced.note (h : s.Traced) (hlog : s'.log = s.log ++ [e]) (hcleared : .cleared ≠ e)
    (he : ∀ pendingId w predicate truth, e ≠ .resolved pendingId w (.verified predicate truth))
    (hcall : ∀ call result generation credited, e ≠ .completed call result generation credited)
    (hcalls : s'.calls = s.calls) (htoken : s'.operationToken = s.operationToken)
    (hpending : s'.pendingWrite = s.pendingWrite) : s'.Traced := by
  refine h.concat hlog hcleared he (fun observed l hl => ?_) hpending
  refine (hl.same hcalls htoken).concat (fun c hc htoken' hpurpose => .inl ?_) ?_
  · exact (hl.same hcalls htoken).current c hc htoken' hpurpose
  · intro call result generation heq
    exact absurd heq (hcall call result generation true)

theorem Traced.unsent (h : s.Traced) (hlog : s'.log = s.log ++ [e])
    (he : ∀ pendingId w predicate truth, e ≠ .resolved pendingId w (.verified predicate truth))
    {q : PendingWrite} (hpending : s'.pendingWrite = some q) (hreceipt : q.receipt = none)
    (hstage : q.stage ≠ .verifying) (hobserved : q.lastObservedTruth = none) : s'.Traced := by
  refine ⟨?_, ?_, ?_, hlog ▸ h.verified_concat he⟩
  · intro p receipt hp hsent
    obtain rfl := Option.some.inj (hpending.symm.trans hp)
    exact nomatch hreceipt.symm.trans hsent
  · intro p hp _
    obtain rfl := Option.some.inj (hpending.symm.trans hp)
    exact hobserved
  · intro p hp hverifying
    obtain rfl := Option.some.inj (hpending.symm.trans hp)
    exact absurd hverifying hstage

theorem newPending_stage_ne (id : ℕ) (w : QueuedWrite) :
    (newPending id w).stage ≠ .verifying := by
  rw [newPending]
  split_ifs <;> simp

theorem Traced.publish (h : s.Traced) (hs : s.Sound) {p : PendingWrite}
    (hpending : s.pendingWrite = some p) (hreceipt : p.receipt = none) (now : ℕ)
    (truth : CoreTruth) (predicate : Option TruthPredicate) (receipt : CommandReceipt) :
    (s.sent p now truth predicate receipt).Traced := by
  refine ⟨?_, ?_, ?_, h.verified_concat fun _ _ _ _ => nofun⟩
  · rintro _ receipt' ⟨⟩ hsent
    cases hsent
    exact since_concat s.log ⟨now, truth, rfl⟩ not_mem_nil
  · rintro _ ⟨⟩ _
    exact h.unread p hpending fun hstage => hs.verifying p hpending hstage hreceipt
  · rintro _ ⟨⟩ hstage
    exact nomatch hstage

theorem Traced.finish (h : s.Traced) {p : PendingWrite} (hpending : s.pendingWrite = some p)
    {ending : LogEntry} (hends : p.Ends ending) : (s.dropPending.note ending).Traced := by
  refine ⟨fun _ _ hq => absurd hq.symm (Option.some_ne_none _),
    fun _ hq => absurd hq.symm (Option.some_ne_none _),
    fun _ hq => absurd hq.symm (Option.some_ne_none _), atEach_concat.mpr ⟨h.verified, ?_⟩⟩
  rintro pendingId w predicate truth rfl
  cases hends with
  | resolved _ hjudged => exact nomatch hjudged
  | verified hstage hobserved _ hmatches =>
    exact ⟨hmatches, (h.verifying p hpending hstage).mono fun l hl => hl.read truth hobserved⟩

theorem Traced.acknowledged (h : s.Traced) (hs : s.Sound) {p : PendingWrite}
    (hidle : s.Idle p) (hstage : p.stage = .awaitingAck) {receipt : CommandReceipt}
    (hreceipt : p.receipt = some receipt) {ack : MqttAck} (hanswers : ack.Answers receipt)
    (hsuccess : ack.success = true) {log : List LogEntry}
    (hlog : s.log = log ++ [.acknowledged p.id ack]) :
    (s.withPending { p with stage := .verifying }).Traced := by
  have hunread := h.unread p hidle.pendingWrite (hstage ▸ nofun)
  have hsent := h.sent p receipt hidle.pendingWrite hreceipt
  refine ⟨?_, ?_, ?_, h.verified⟩
  · rintro _ receipt' ⟨⟩ hreceipt'
    exact h.sent p receipt' hidle.pendingWrite hreceipt'
  · rintro _ ⟨⟩ hverifying
    exact absurd rfl hverifying
  · rintro _ ⟨⟩ _
    refine ⟨receipt, ?_⟩
    rw [hlog] at hsent
    show Since _ _ s.log
    rw [hlog]
    rcases hsent.of_concat with ⟨⟨_, _, hlast⟩, -⟩ | hbefore
    · exact nomatch hlast
    refine hbefore.append fun l hl => ⟨hl, since_concat l ⟨ack, rfl, hanswers, hsuccess⟩ ?_⟩
    refine ⟨fun c hc htoken hpurpose => ?_, atEach_nil _, fun truth ht => ?_⟩
    · exact absurd hpurpose (hs.idle_calls hidle hc htoken).1
    · exact nomatch hunread.symm.trans ht

theorem Traced.observe (h : s.Traced) {p : PendingWrite} (hpending : s.pendingWrite = some p)
    (hstage : p.stage = .verifying) {truth : CoreTruth} {call : AgentCall}
    (hpurpose : call.purpose = .verify) {log : List LogEntry}
    (hlog : s.log = log ++ [.completed call (.truth truth) call.generation true]) :
    (s.withPending (p.observing truth)).Traced := by
  refine ⟨?_, ?_, ?_, h.verified⟩
  · rintro _ receipt ⟨⟩ hreceipt
    exact h.sent p receipt hpending hreceipt
  · rintro _ ⟨⟩ hother
    exact absurd hstage hother
  · rintro _ ⟨⟩ _
    have hconfirmed := h.verifying p hpending hstage
    rw [hlog] at hconfirmed
    show Confirmed _ _ _ s.log
    rw [hlog]
    refine (hconfirmed.of_concat (fun _ ⟨_, _, heq⟩ => nomatch heq)
      fun _ ⟨_, heq, _⟩ => nomatch heq).concat nofun fun l hl => ⟨hl.current, hl.credited, ?_⟩
    rintro _ ⟨⟩
    -- the credited call was submitted after the acknowledgement
    have hsubmitted := (atEach_concat.mp hl.credited).2 call _ _ rfl hpurpose
    obtain ⟨front, back, rfl⟩ := append_of_mem hsubmitted
    refine ⟨call, front, _, back ++ [_], ?_, rfl, mem_append_right _ (mem_singleton_self _)⟩
    rw [append_assoc, cons_append]

theorem Traced.submit (h : s.Traced) (hs : s.Sound) (method : AgentMethod)
    (purpose : AgentPurpose) : (s.submitted method purpose).Traced := by
  refine h.concat rfl nofun (fun _ _ _ _ => nofun) (fun observed l hl => ?_) rfl
  refine hl.concat (fun c hc htoken _ => .inr ?_) fun _ _ _ => nofun
  rw [hs.eq_of_nextId hc htoken]

theorem Traced.complete (h : s.Traced) {call : AgentCall} (hcall : call ∈ s.calls)
    (result : AgentResult) : (s.completed call result).Traced := by
  refine h.concat rfl nofun (fun _ _ _ _ => nofun) (fun observed l hl => ?_) rfl
  refine hl.concat (fun c hc htoken hpurpose => .inl ?_) ?_
  · by_cases hcredits : s.Credits call
    · rw [completed, if_pos hcredits] at htoken
      cases htoken
    · rw [completed, if_neg hcredits] at htoken
      exact hl.current c (mem_of_mem_erase hc) htoken hpurpose
  · intro call' result' generation heq hpurpose
    obtain ⟨rfl, -, -, hcredits⟩ := LogEntry.completed.inj heq
    exact hl.current call hcall (of_decide_eq_true hcredits).2 hpurpose

/-- **Every step keeps the order.** -/
theorem Traced.step (h : s.Traced) (hs : s.Sound) (hstep : Step π s s') : s'.Traced := by
  cases hstep with
  | quiet halike =>
    exact h.keep halike.log halike.calls halike.operationToken (.of_eq halike.pendingWrite)
  | available | enqueue | requeue | acknowledge =>
    exact h.note rfl nofun (fun _ _ _ _ => nofun) (fun _ _ _ _ => nofun) rfl rfl rfl
  | commit | disarm => exact h.keep rfl rfl rfl (.of_eq rfl)
  | @coalesce r p hpending hstage _ _ _ =>
    have hother : p.stage ≠ .verifying := hstage ▸ nofun
    exact h.unsent rfl (fun _ _ _ _ => nofun) rfl (hs.preparing p hpending hstage) hother
      (h.unread p hpending hother)
  | start | dequeue =>
    exact h.unsent rfl (fun _ _ _ _ => nofun) rfl rfl (newPending_stage_ne _ _) rfl
  | publish hidle hreceipt _ receipt => exact h.publish hs hidle.pendingWrite hreceipt _ _ _ receipt
  | finish hidle hends => exact h.finish hidle.pendingWrite hends
  | verifying hidle hstage hreceipt hanswers hsuccess hlog =>
    exact h.acknowledged hs hidle hstage hreceipt hanswers hsuccess hlog
  | arm hpending =>
    rw [scheduleVerification_eq hpending]
    exact h.keep rfl rfl rfl (.of_eq rfl)
  | @retry p hpending =>
    refine h.keep rfl rfl rfl fun q hq => ?_
    exact ⟨p, hpending, .inr (Option.some.inj hq).symm⟩
  | observe hpending hstage hpurpose _ hlog => exact h.observe hpending hstage hpurpose hlog
  | submit => exact h.submit hs _ _
  | complete hcall result => exact h.complete hcall result

theorem Traced.move (h : s.Traced) (hs : s.Sound) (hmove : Move π s s') : s'.Traced := by
  cases hmove with
  | step hstep => exact h.step hs hstep
  | connect => exact h.keep rfl rfl rfl (.of_eq rfl)
  | clear =>
    exact ⟨fun _ _ hq => absurd hq.symm (Option.some_ne_none _),
      fun _ hq => absurd hq.symm (Option.some_ne_none _),
      fun _ hq => absurd hq.symm (Option.some_ne_none _), h.verified_concat fun _ _ _ _ => nofun⟩

theorem traced_initial : ({} : World).Traced where
  sent _ _ hq := absurd hq.symm (Option.some_ne_none _)
  unread _ hq := absurd hq.symm (Option.some_ne_none _)
  verifying _ hq := absurd hq.symm (Option.some_ne_none _)
  verified := atEach_nil _

/-! ### Results of an earlier connection -/

/-- Calls carry the generation in which they were submitted, and each disconnect ends it. -/
structure Dated (s : World) : Prop where
  submitted : ∀ call, .submitted call ∈ s.log → call.generation ≤ s.generation
  stale : ∀ call, Stale s.log call → call.generation < s.generation

theorem Dated.concat (h : s.Dated) (hlog : s'.log = s.log ++ [e]) (hcleared : e ≠ .cleared)
    (hgeneration : s'.generation = s.generation)
    (hsubmitted : ∀ call, e = .submitted call → call.generation = s.generation) : s'.Dated := by
  refine ⟨?_, ?_⟩
  · intro call hmem
    rw [hgeneration]
    rcases mem_append.mp (hlog ▸ hmem) with hold | hnew
    · exact h.submitted call hold
    · exact (hsubmitted call (mem_singleton.mp hnew).symm).le
  · intro call hstale
    rw [hgeneration]
    refine h.stale call ?_
    rw [Stale, hlog] at hstale
    rcases hstale.of_concat with ⟨-, hmem⟩ | hold
    · exact absurd hmem not_mem_nil
    refine hold.mono fun l hl => ?_
    rcases mem_append.mp hl with hl | hl
    · exact hl
    · exact absurd (mem_singleton.mp hl).symm hcleared

theorem Dated.same (h : s.Dated) (hlog : s'.log = s.log)
    (hgeneration : s.generation ≤ s'.generation) : s'.Dated :=
  ⟨fun call hmem => (h.submitted call (hlog ▸ hmem)).trans hgeneration,
    fun call hstale => (h.stale call (hlog ▸ hstale)).trans_le hgeneration⟩

theorem PendingWrite.Ends.ne_cleared {p : PendingWrite} (h : p.Ends e) :
    e ≠ .cleared ∧ ∀ call, e ≠ .submitted call := by
  cases h <;> exact ⟨nofun, fun _ => nofun⟩

theorem Dated.step (h : s.Dated) (hstep : Step π s s') : s'.Dated := by
  cases hstep with
  | quiet halike => exact h.same halike.log halike.generation.ge
  | available | enqueue | requeue | coalesce | start | dequeue | publish | acknowledge | complete =>
    exact h.concat rfl nofun rfl fun _ => nofun
  | finish _ hends =>
    obtain ⟨hcleared, hsubmitted⟩ := PendingWrite.Ends.ne_cleared hends
    exact h.concat rfl hcleared rfl fun call heq => absurd heq (hsubmitted call)
  | arm hpending =>
    rw [scheduleVerification_eq hpending]
    exact h.same rfl le_rfl
  | submit =>
    refine h.concat rfl nofun rfl fun call heq => ?_
    rw [← LogEntry.submitted.inj heq]
  | _ => exact h.same rfl le_rfl

theorem Dated.move (h : s.Dated) (hmove : Move π s s') : s'.Dated := by
  cases hmove with
  | step hstep => exact h.step hstep
  | connect => exact h.same rfl (Nat.le_succ _)
  | clear =>
    have hlt : ∀ call, .submitted call ∈ s.log ++ [LogEntry.cleared] →
        call.generation < s.generation + 1 := by
      intro call hmem
      rcases mem_append.mp hmem with hold | hnew
      · exact Nat.lt_succ_of_le (h.submitted call hold)
      · exact nomatch mem_singleton.mp hnew
    refine ⟨fun call hmem => (hlt call hmem).le, fun call hstale => hlt call ?_⟩
    obtain ⟨front, entry, back, heq, rfl, -⟩ := hstale
    have hmem : .submitted call ∈ s.cleared.log := heq ▸ mem_append_right _ mem_cons_self
    exact hmem

theorem dated_initial : ({} : World).Dated :=
  ⟨fun _ hmem => absurd hmem not_mem_nil, by
    rintro call ⟨front, entry, back, heq, -⟩
    exact absurd heq (append_ne_nil_of_right_ne_nil _ (cons_ne_nil _ _)).symm⟩

/-- **A result of another generation changes nothing in the coordinator.** -/
theorem handle_of_ne_generation (host : Host) {call : AgentCall}
    (h : call.generation ≠ s.generation) (result : AgentResult) :
    (s.handle host (.agentComplete call result)).toFeederStateCoordinator =
      s.toFeederStateCoordinator := by
  have hcredits : ¬ s.Credits call := fun hcredits => h hcredits.1
  rw [handle]
  split_ifs with hcall
  · rw [agentCallComplete, if_pos hcredits]
    rfl
  · rfl

end World

/-- **A write is verified only by a read after its acknowledgement**, and within one
connection; the latest truth is one that a core call returned while its generation was
current, and results of an earlier connection change nothing. -/
theorem verified_by_later_read (host : Host) (callbacks : List World.Callback) :
    AtEach (fun before e _ => ∀ pendingId w predicate truth,
        e = .resolved pendingId w (.verified predicate truth) →
          predicate.matchesTruth truth.toFeederTruth = true ∧
            Confirmed pendingId w (ReadSince truth) before) (World.run host callbacks).log ∧
      (∀ truth, (World.run host callbacks).latestTruth = some truth →
        ReadBack (World.run host callbacks).log truth) ∧
      ∀ call result, Stale (World.run host callbacks).log call →
        ((World.run host callbacks).handle host
            (.agentComplete call result)).toFeederStateCoordinator =
          (World.run host callbacks).toFeederStateCoordinator := by
  have hmoves := World.run_moves_any host callbacks
  have htraced := hmoves.invariant World.sound_initial World.traced_initial
    fun _ _ hs h hmove => h.move hs hmove
  have hdated := hmoves.invariant World.sound_initial World.dated_initial
    fun _ _ _ h hmove => h.move hmove
  refine ⟨htraced.verified, (World.run_sound host callbacks).latest, ?_⟩
  intro call result hstale
  exact World.handle_of_ne_generation host (hdated.stale call hstale).ne result

end PetlibroLocal
