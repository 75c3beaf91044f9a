import PetlibroLocal.Feeder.CoordinatorRuns
import PetlibroLocal.Lib.Splits

/-!
# What a Write Is Judged By

A write is verified, or found to have diverged, by the predicate of the pending write. That
predicate is copied from the request when the write starts and is built anew for a plan
operation when its command is sent. A request for the same control that arrives while the
write is still preparing takes the place of the request, and its publisher is the one that
is called, but the predicate stays.

So a setting write can be verified against the value that the user had asked for before
(`coalesced_write_judged_by_old_target`). As long as every request that takes the place of
a preparing write is a plan operation or has the predicate that is in place, each write is
judged by its own target (`judged_by_own_target`).

The main results are `World.Judged.step` and `judged_by_own_target`.
-/

namespace PetlibroLocal

open List

/-! ### Verdicts -/

/-- The predicate is the target of the write whose command was sent under this ID, for the
truth that its publisher was called with. -/
def JudgedBy (log : List LogEntry) (pendingId : ℕ) (w : QueuedWrite)
    (predicate : Option TruthPredicate) : Prop :=
  ∃ now truth receipt, .published pendingId w now truth (some receipt) ∈ log ∧
    w.request.target now truth = predicate

/-- A verdict on a write was reached by its own target. -/
def FairVerdict (before : List LogEntry) : LogEntry → Prop
  | .resolved pendingId w (.verified predicate _) => JudgedBy before pendingId w (some predicate)
  | .resolved pendingId w (.diverged predicate _) => JudgedBy before pendingId w predicate
  | _ => True

theorem JudgedBy.append {log : List LogEntry} {pendingId : ℕ} {w : QueuedWrite}
    {predicate : Option TruthPredicate} (h : JudgedBy log pendingId w predicate)
    (l : List LogEntry) : JudgedBy (log ++ l) pendingId w predicate := by
  obtain ⟨now, truth, receipt, hmem, htarget⟩ := h
  exact ⟨now, truth, receipt, mem_append_left _ hmem, htarget⟩

/-! ### Requests that keep the target -/

/-- A request that would take the place of the preparing write is a plan operation, or has
the predicate that is in place. -/
def World.KeepsTarget (s : World) (r : PersistentWriteRequest) : Prop :=
  ∀ p, s.decision r = .coalesce p → r.plan.isSome ∨ r.predicate = p.predicate

/-- The requests of a run: those of its callbacks, those made from inside the availability
sink, and the coordinator's own. -/
inductive Requested (host : Host) (callbacks : List World.Callback) :
    PersistentWriteRequest → Prop
  | callback {r : PersistentWriteRequest} (h : .requestWrite r ∈ callbacks) :
      Requested host callbacks r
  | reentered {r : PersistentWriteRequest} {k : ℕ} (h : r ∈ host.reenter k) :
      Requested host callbacks r
  | normalization (n : PlanIdNormalization) : Requested host callbacks (normalizationRequest n)

/-- The request is a plan operation, or every request for its control has its predicate. -/
def Steady (requested : PersistentWriteRequest → Prop) (r : PersistentWriteRequest) : Prop :=
  r.plan.isSome ∨ ∀ other, requested other → other.control = r.control →
    other.predicate = r.predicate

/-- Requests that take the place of a preparing write keep its target. -/
def targetPolicy (requested : PersistentWriteRequest → Prop) : Policy where
  admits := requested
  coalesces p r := r.predicate = p.predicate ∨ Steady requested r
  queues _ _ := True
  starts _ _ := True

namespace World

/-! ### The predicate of the pending write -/

/-- The predicate of the pending write belongs to its request: it is the request's own, or
will be replaced when the command is sent, and once it is sent it is the target. -/
structure Judged (requested : PersistentWriteRequest → Prop) (s : World) : Prop where
  queued : ∀ w ∈ s.queuedWrites, requested w.request
  unsent : ∀ p, s.pendingWrite = some p → p.receipt = none →
    (p.write.request.plan.isSome ∨ p.predicate = p.write.request.predicate) ∧
      ∃ r, requested r ∧ r.control = p.write.control ∧ p.predicate = r.predicate
  sent : ∀ p, s.pendingWrite = some p → p.receipt ≠ none →
    JudgedBy s.log p.id p.write p.predicate
  fair : AtEach (fun before e _ => FairVerdict before e) s.log

variable {requested : PersistentWriteRequest → Prop} {s s' : World}

/-- The pending write is as it was in all that decides on its verdict. -/
def SamePending (s s' : World) : Prop :=
  ∀ q, s'.pendingWrite = some q → ∃ p, s.pendingWrite = some p ∧ q.id = p.id ∧
    q.write = p.write ∧ q.receipt = p.receipt ∧ q.predicate = p.predicate

theorem SamePending.of_eq (h : s'.pendingWrite = s.pendingWrite) : s.SamePending s' :=
  fun q hq => ⟨q, h ▸ hq, rfl, rfl, rfl, rfl⟩

theorem SamePending.amend {p q : PendingWrite} (hp : s.pendingWrite = some p)
    (hq : s'.pendingWrite = some q) (hid : q.id = p.id) (hwrite : q.write = p.write)
    (hreceipt : q.receipt = p.receipt) (hpredicate : q.predicate = p.predicate) :
    s.SamePending s' := by
  intro q' hq'
  obtain rfl := Option.some.inj (hq.symm.trans hq')
  exact ⟨p, hp, hid, hwrite, hreceipt, hpredicate⟩

theorem Judged.fair_append (h : s.Judged requested) {l : List LogEntry}
    (hl : ∀ e ∈ l, ∀ before, FairVerdict before e) :
    AtEach (fun before e _ => FairVerdict before e) (s.log ++ l) := by
  refine atEach_append.mpr ⟨h.fair, ?_⟩
  rintro before e after rfl
  exact hl e (mem_append_right _ mem_cons_self) _

theorem Judged.keep (h : s.Judged requested) {l : List LogEntry} (hlog : s'.log = s.log ++ l)
    (hl : ∀ e ∈ l, ∀ before, FairVerdict before e)
    (hqueued : ∀ w ∈ s'.queuedWrites, requested w.request) (hpending : s.SamePending s') :
    s'.Judged requested := by
  refine ⟨hqueued, ?_, ?_, ?_⟩
  · intro q hq hreceipt
    obtain ⟨p, hp, -, hwrite, hsame, hpredicate⟩ := hpending q hq
    rw [hwrite, hpredicate]
    exact h.unsent p hp (hsame ▸ hreceipt)
  · intro q hq hreceipt
    obtain ⟨p, hp, hid, hwrite, hsame, hpredicate⟩ := hpending q hq
    rw [hid, hwrite, hpredicate, hlog]
    exact (h.sent p hp (hsame ▸ hreceipt)).append l
  · rw [hlog]
    exact h.fair_append hl

theorem Judged.concat (h : s.Judged requested) {e : LogEntry} (hlog : s'.log = s.log ++ [e])
    (he : ∀ before, FairVerdict before e)
    (hqueued : ∀ w ∈ s'.queuedWrites, requested w.request) (hpending : s.SamePending s') :
    s'.Judged requested :=
  h.keep hlog (forall_mem_singleton.mpr he) hqueued hpending

theorem Judged.same (h : s.Judged requested) (hlog : s'.log = s.log)
    (hqueued : s'.queuedWrites = s.queuedWrites) (hpending : s.SamePending s') :
    s'.Judged requested :=
  h.keep (hlog.trans (append_nil _).symm) (forall_mem_nil _)
    (hqueued ▸ h.queued) hpending

theorem Judged.begun (h : s.Judged requested) {queue : List QueuedWrite} {w : QueuedWrite}
    {t : World} {e : LogEntry} (hlog : t.log = s.log ++ [e])
    (he : ∀ before, FairVerdict before e) (hqueue : ∀ w ∈ queue, requested w.request)
    (hw : requested w.request) : (t.begun queue w).Judged requested := by
  refine ⟨hqueue, ?_, ?_, ?_⟩
  · rintro _ ⟨⟩ _
    exact ⟨.inr rfl, w.request, hw, rfl, rfl⟩
  · rintro _ ⟨⟩ hreceipt
    exact absurd rfl hreceipt
  · have hlog' : (t.begun queue w).log = s.log ++ [e] := hlog
    rw [hlog']
    exact h.fair_append (forall_mem_singleton.mpr he)

theorem Judged.coalesce (h : s.Judged requested) {p : PendingWrite} {r : PersistentWriteRequest}
    (hpending : s.pendingWrite = some p) (hreceipt : p.receipt = none)
    (hcontrol : p.write.control = r.control)
    (hkeeps : r.predicate = p.predicate ∨ Steady requested r) :
    ((s.drawn.withPending (p.carrying (s.ticketed r))).note
      (.accepted (s.ticketed r) (.replacedPending p.write))).Judged requested := by
  obtain ⟨-, first, hfirst, hsame, hpredicate⟩ := h.unsent p hpending hreceipt
  refine ⟨h.queued, ?_, ?_, h.fair_append (forall_mem_singleton.mpr fun _ => trivial)⟩
  · rintro _ ⟨⟩ _
    refine ⟨?_, first, hfirst, hsame.trans hcontrol, hpredicate⟩
    rcases hkeeps with heq | hplan | hsteady
    · exact .inr heq.symm
    · exact .inl hplan
    · exact .inr (hpredicate.trans (hsteady first hfirst (hsame.trans hcontrol)))
  · rintro _ ⟨⟩ hsent
    exact absurd hreceipt hsent

theorem Judged.publish (h : s.Judged requested) {p : PendingWrite}
    (hpending : s.pendingWrite = some p) (hreceipt : p.receipt = none) {now : ℕ}
    {truth : CoreTruth} {prepared : Prepared}
    (hprepare : p.write.request.prepare now p.predicate truth = .ok prepared)
    (receipt : CommandReceipt) :
    (s.sent p now truth prepared.predicate receipt).Judged requested := by
  have htarget := PersistentWriteRequest.prepare_predicate hprepare
    (h.unsent p hpending hreceipt).1
  refine ⟨h.queued, ?_, ?_, h.fair_append (forall_mem_singleton.mpr fun _ => trivial)⟩
  · rintro _ ⟨⟩ hnone
    exact absurd hnone (Option.some_ne_none receipt)
  · rintro _ ⟨⟩ _
    exact ⟨now, truth, receipt, mem_append_right _ (mem_singleton_self _), htarget.symm⟩

theorem Judged.finish (h : s.Judged requested) (hs : s.Sound) {p : PendingWrite}
    (hpending : s.pendingWrite = some p) {ending : LogEntry} (hends : p.Ends ending) :
    (s.dropPending.note ending).Judged requested := by
  refine ⟨h.queued, fun q hq => absurd hq.symm (Option.some_ne_none q),
    fun q hq => absurd hq.symm (Option.some_ne_none q), atEach_concat.mpr ⟨h.fair, ?_⟩⟩
  cases hends with
  | unprepared | raised => exact trivial
  | @resolved receipt how _ hjudged =>
    cases how with
    | verified | diverged => exact nomatch hjudged
    | _ => exact trivial
  | diverged hstage => exact h.sent p hpending (hs.verifying p hpending hstage)
  | verified hstage _ hpredicate =>
    have hsent := h.sent p hpending (hs.verifying p hpending hstage)
    rwa [hpredicate] at hsent

/-- **Every step keeps the predicate in line with the request.** -/
theorem Judged.step (h : s.Judged requested) (hs : s.Sound)
    (hstep : Step (targetPolicy requested) s s') : s'.Judged requested := by
  cases hstep with
  | quiet halike => exact h.same halike.log halike.queuedWrites (.of_eq halike.pendingWrite)
  | available | acknowledge | submit | complete =>
    exact h.concat rfl (fun _ => trivial) h.queued (.of_eq rfl)
  | commit | disarm => exact h.same rfl rfl (.of_eq rfl)
  | enqueue _ hadmits =>
    refine h.concat rfl (fun _ => trivial) (fun w hw => ?_) (.of_eq rfl)
    rcases mem_append.mp hw with hold | hnew
    · exact h.queued w hold
    · rw [mem_singleton.mp hnew]
      exact hadmits
  | requeue hadmits _ hreplace =>
    obtain ⟨front, back, hqueue, rfl, -⟩ := replaceLast_eq_some hreplace
    have hall := hqueue ▸ h.queued
    refine h.concat rfl (fun _ => trivial) (fun w hw => ?_) (.of_eq rfl)
    rcases mem_append.mp hw with hfront | hback
    · exact hall w (mem_append_left _ hfront)
    · rcases mem_cons.mp hback with rfl | hback
      · exact hadmits
      · exact hall w (mem_append_right _ (mem_cons_of_mem _ hback))
  | coalesce hpending hstage hcontrol _ hkeeps =>
    exact h.coalesce hpending (hs.preparing _ hpending hstage) hcontrol hkeeps
  | start _ _ hadmits => exact h.begun rfl (fun _ => trivial) h.queued hadmits
  | dequeue _ hqueue =>
    have hall := hqueue ▸ h.queued
    exact h.begun rfl (fun _ => trivial) (fun w hw => hall w (mem_cons_of_mem _ hw))
      (hall _ mem_cons_self)
  | publish hidle hreceipt hprepare receipt =>
    exact h.publish hidle.pendingWrite hreceipt hprepare receipt
  | finish hidle hends => exact h.finish hs hidle.pendingWrite hends
  | verifying hidle =>
    exact h.same rfl rfl (.amend hidle.pendingWrite rfl rfl rfl rfl rfl)
  | arm hpending =>
    rw [scheduleVerification_eq hpending]
    exact h.same rfl rfl (.of_eq rfl)
  | retry hpending | observe hpending => exact h.same rfl rfl (.amend hpending rfl rfl rfl rfl rfl)

theorem Judged.move (h : s.Judged requested) (hs : s.Sound)
    (hmove : Move (targetPolicy requested) s s') : s'.Judged requested := by
  cases hmove with
  | step hstep => exact h.step hs hstep
  | connect => exact h.same rfl rfl (.of_eq rfl)
  | clear =>
    exact h.concat (e := .cleared) rfl (fun _ => trivial)
      (forall_mem_nil _) fun q hq => absurd hq.symm (Option.some_ne_none q)

theorem judged_initial : ({} : World).Judged requested where
  queued _ hw := absurd hw not_mem_nil
  unsent p hp := absurd hp.symm (Option.some_ne_none p)
  sent p hp := absurd hp.symm (Option.some_ne_none p)
  fair := atEach_nil _

end World

/-! ### The statement -/

theorem targetPolicy_welcomes {host : Host} {callbacks : List World.Callback}
    (hreenter : ∀ k, ∀ r ∈ host.reenter k, Steady (Requested host callbacks) r) :
    (targetPolicy (Requested host callbacks)).Welcomes host where
  reenter k r hr :=
    ⟨.reentered hr, fun _ => .inr (hreenter k r hr), fun _ => trivial, fun _ => trivial⟩
  normalization n :=
    ⟨.normalization n, fun _ => .inr (.inl rfl), fun _ => trivial, fun _ => trivial⟩

/-- **A write is judged by its own target** in every run in which each request that takes the
place of a preparing write is a plan operation or has the predicate that is in place, and
each setting request made from inside the availability sink has the predicate of all
requests for its control. -/
theorem judged_by_own_target (host : Host) (callbacks : List World.Callback)
    (hkeeps : AtEach (fun before callback _ => ∀ r, callback = .requestWrite r →
      (World.run host before).KeepsTarget r) callbacks)
    (hreenter : ∀ k, ∀ r ∈ host.reenter k, Steady (Requested host callbacks) r) :
    AtEach (fun before e _ => FairVerdict before e) (World.run host callbacks).log := by
  have hobeys : World.Obeys (targetPolicy (Requested host callbacks)) host callbacks := by
    intro before callback after hsplit
    cases callback with
    | requestWrite r =>
      have hmem : .requestWrite r ∈ callbacks := hsplit ▸ mem_append_right _ mem_cons_self
      refine ⟨.callback hmem, fun p hdecision => ?_, fun _ => trivial, fun _ => trivial⟩
      rcases hkeeps before _ after hsplit r rfl p hdecision with hplan | heq
      · exact .inr (.inl hplan)
      · exact .inl heq
    | _ => exact trivial
  have hmoves := World.run_moves (targetPolicy_welcomes hreenter) hobeys
  exact (hmoves.invariant World.sound_initial World.judged_initial
    fun _ _ hs h hmove => h.move hs hmove).fair

/-! ### A request that is judged by another's target -/

/-- The request of `audio/cmd/enable`. -/
def audioRequest (value : String) : PersistentWriteRequest where
  control := "audio.enable"
  predicate := some (.settingEquals "feeding_audio_enabled" (.str value))
  requiresFreshPreflight := true
  delete_mem := delete_mem_of_none

/-- What a feeder without plans reports. -/
def audioTruth (value : String) : CoreTruth where
  revisions := ⟨value⟩
  settings := ⟨[("feeding_audio_enabled", .str value)], [("feeding_audio_enabled", .persistent)]⟩
  plans := .ofRecords []
  nodup := nodup_nil

/-- The user asks for audio, which is on, and then for no audio while the first request is
prepared. The command is acknowledged, but the feeder still reports audio. -/
def changedMind : List World.Callback :=
  [.feederConnected, .agentComplete ⟨0, 1, .core, .reconcile⟩ (.truth (audioTruth "enabled")),
    .requestWrite (audioRequest "enabled"), .requestWrite (audioRequest "disabled"),
    .agentComplete ⟨3, 1, .core, .writePreflight⟩ (.truth (audioTruth "enabled")),
    .mqttAck ⟨"ATTR_SET_SERVICE", "1", true⟩, .timer ⟨6, .verification, 2⟩,
    .agentComplete ⟨7, 1, .core, .verify⟩ (.truth (audioTruth "enabled"))]

/-- The targets of the commands that were sent under an ID. -/
def sentTargets (pendingId : ℕ) (log : List LogEntry) : List (Option TruthPredicate) :=
  log.filterMap fun
    | .published id w now truth (some _) =>
      if id = pendingId then some (w.request.target now truth) else none
    | _ => none

/-- The predicate of a verdict, with the ID of the write. -/
def LogEntry.verdict? : LogEntry → Option (ℕ × Option TruthPredicate)
  | .resolved pendingId _ (.verified predicate _) => some (pendingId, some predicate)
  | .resolved pendingId _ (.diverged predicate _) => some (pendingId, predicate)
  | _ => none

theorem JudgedBy.mem_sentTargets {log : List LogEntry} {pendingId : ℕ} {w : QueuedWrite}
    {predicate : Option TruthPredicate} (h : JudgedBy log pendingId w predicate) :
    predicate ∈ sentTargets pendingId log := by
  obtain ⟨now, truth, receipt, hmem, rfl⟩ := h
  exact mem_filterMap.mpr ⟨_, hmem, if_pos rfl⟩

theorem mem_sentTargets_of_fair {log : List LogEntry}
    (h : AtEach (fun before e _ => FairVerdict before e) log) {verdict : ℕ × Option TruthPredicate}
    (hverdict : verdict ∈ log.filterMap LogEntry.verdict?) :
    verdict.2 ∈ sentTargets verdict.1 log := by
  obtain ⟨e, he, heq⟩ := mem_filterMap.mp hverdict
  obtain ⟨before, after, rfl⟩ := append_of_mem he
  have hfair := h before e after rfl
  rw [LogEntry.verdict?.eq_def] at heq
  split at heq
  · cases heq
    exact (JudgedBy.append hfair _).mem_sentTargets
  · cases heq
    exact (JudgedBy.append hfair _).mem_sentTargets
  · cases heq

/-- **The write that turned audio off is verified because audio is on.** -/
theorem coalesced_write_judged_by_old_target :
    ¬ AtEach (fun before e _ => FairVerdict before e) (World.run steadyHost changedMind).log := by
  intro h
  have hverdict : (2, some (.settingEquals "feeding_audio_enabled" (.str "enabled"))) ∈
      (World.run steadyHost changedMind).log.filterMap LogEntry.verdict? := by decide +kernel
  have hsent : sentTargets 2 (World.run steadyHost changedMind).log =
      [some (.settingEquals "feeding_audio_enabled" (.str "disabled"))] := by decide +kernel
  have hmem := mem_sentTargets_of_fair h hverdict
  rw [hsent] at hmem
  exact absurd hmem (by decide)

/-- One request for no audio, and its verification. -/
def audioOff : List World.Callback :=
  [.feederConnected, .agentComplete ⟨0, 1, .core, .reconcile⟩ (.truth (audioTruth "enabled")),
    .requestWrite (audioRequest "disabled"),
    .agentComplete ⟨3, 1, .core, .writePreflight⟩ (.truth (audioTruth "enabled")),
    .mqttAck ⟨"ATTR_SET_SERVICE", "1", true⟩, .timer ⟨5, .verification, 2⟩,
    .agentComplete ⟨6, 1, .core, .verify⟩ (.truth (audioTruth "disabled"))]

theorem judged_by_own_target_audioOff :
    (2, some (.settingEquals "feeding_audio_enabled" (.str "disabled"))) ∈
        (World.run steadyHost audioOff).log.filterMap LogEntry.verdict? ∧
      AtEach (fun before e _ => FairVerdict before e) (World.run steadyHost audioOff).log := by
  refine ⟨by decide +kernel, judged_by_own_target steadyHost audioOff ?_
    fun _ _ h => absurd h not_mem_nil⟩
  have hfree : ∀ r, (World.run steadyHost (audioOff.take 2)).KeepsTarget r := by
    intro r p hdecision
    have hpending : (World.run steadyHost (audioOff.take 2)).pendingWrite.isNone = true := by
      decide +kernel
    have hdecides := (World.run steadyHost (audioOff.take 2)).decides r
    rw [hdecision] at hdecides
    cases hdecides with
    | coalesce _ hp =>
      rw [hp] at hpending
      exact nomatch hpending
  simp only [audioOff, atEach_cons, reduceCtorEq, false_imp_iff, implies_true, true_and]
  exact ⟨fun r _ => hfree r, atEach_nil _⟩

end PetlibroLocal
