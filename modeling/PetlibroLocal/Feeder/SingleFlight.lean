import PetlibroLocal.Feeder.CoordinatorRuns
import PetlibroLocal.Lib.Splits
import Mathlib.Data.List.Perm.Subperm

/-!
# One Command at a Time

The feeder takes whole collections of plans, so two commands that are out at once could undo
each other. The coordinator calls no publisher twice for one request, and none at all while
an earlier command is unresolved.

Each accepted request has its own ticket. The tickets that were handed to a publisher and
those of the writes that still wait for theirs are pairwise distinct, and every step keeps
that: a write leaves the waiting ones when its publisher is called. An unresolved command is
always the one of the pending write, and a publisher is called for a pending write only.

The main results are `World.Step.draws` and `single_flight`.
-/

namespace PetlibroLocal

open List

/-! ### What the log says about publications -/

/-- The ticket of the request whose publisher is called. -/
def LogEntry.sentTicket? : LogEntry → Option ℕ
  | .published _ w _ _ _ => some w.ticket
  | _ => none

/-- The tickets of the publications, in order. -/
def sentTickets (log : List LogEntry) : List ℕ := log.filterMap LogEntry.sentTicket?

theorem sentTickets_concat (log : List LogEntry) (e : LogEntry) :
    sentTickets (log ++ [e]) = sentTickets log ++ e.sentTicket?.toList := by
  rw [sentTickets, filterMap_append, sentTickets]
  cases h : e.sentTicket? <;> simp [h]

/-- The entry resolves the command of the pending write with this ID. -/
def LogEntry.ends (pendingId : ℕ) : LogEntry → Bool
  | .resolved id _ _ => id = pendingId
  | .cleared => true
  | _ => false

/-- The command was sent, and nothing has resolved it since. -/
def Unresolved (log : List LogEntry) (pendingId : ℕ) : Prop :=
  ∃ before w now truth receipt after,
    log = before ++ .published pendingId w now truth (some receipt) :: after ∧
      ∀ e ∈ after, e.ends pendingId = false

theorem not_unresolved_nil (pendingId : ℕ) : ¬ Unresolved [] pendingId := by
  rintro ⟨before, w, now, truth, receipt, after, hlog, -⟩
  exact absurd hlog (append_ne_nil_of_right_ne_nil _ (cons_ne_nil _ _)).symm

theorem Unresolved.of_concat {log : List LogEntry} {e : LogEntry} {pendingId : ℕ}
    (h : Unresolved (log ++ [e]) pendingId) :
    (Unresolved log pendingId ∧ e.ends pendingId = false) ∨
      ∃ w now truth receipt, e = .published pendingId w now truth (some receipt) := by
  obtain ⟨before, w, now, truth, receipt, after, hlog, hafter⟩ := h
  rcases eq_nil_or_concat after with rfl | ⟨after, last, rfl⟩
  · right
    obtain ⟨-, hlast⟩ := append_inj' hlog rfl
    exact ⟨w, now, truth, receipt, singleton_inj.mp hlast⟩
  · left
    rw [concat_eq_append] at hlog hafter
    rw [← cons_append, ← append_assoc] at hlog
    obtain ⟨hbefore, hlast⟩ := append_inj' hlog rfl
    obtain rfl := singleton_inj.mp hlast
    refine ⟨⟨before, w, now, truth, receipt, after, hbefore, fun e he => ?_⟩, ?_⟩
    · exact hafter e (mem_append_left _ he)
    · exact hafter _ (mem_append_right _ (mem_singleton_self _))

namespace World

/-! ### Writes that wait for their publisher -/

/-- The pending write, if its publisher has not been called. -/
def unsentPending : Option PendingWrite → List QueuedWrite
  | some p => if p.receipt.isNone then [p.write] else []
  | none => []

/-- **The accepted writes whose publisher has not been called.** -/
def unsent (s : World) : List QueuedWrite := unsentPending s.pendingWrite ++ s.queuedWrites

variable {p : PendingWrite} {e : LogEntry}

theorem unsentPending_of_none (h : p.receipt = none) : unsentPending (some p) = [p.write] := by
  rw [unsentPending, h]
  rfl

theorem unsentPending_of_some {receipt : CommandReceipt} (h : p.receipt = some receipt) :
    unsentPending (some p) = [] := by
  rw [unsentPending, h]
  rfl

/-- The tickets that were handed to a publisher, and those of the writes that wait. -/
def tickets (s : World) : List ℕ := sentTickets s.log ++ s.unsent.map (·.ticket)

/-- What a step does to the tickets: none is drawn, or one. -/
inductive Draws (s s' : World) : Prop
  | none (hnext : s.nextId ≤ s'.nextId) (hsub : s'.tickets.Subperm s.tickets)
  | one (hnext : s.nextId < s'.nextId) (hsub : s'.tickets.Subperm (s.nextId :: s.tickets))

variable {π : Policy} {s s' : World}

theorem Draws.same (hnext : s.nextId ≤ s'.nextId) (h : s'.tickets = s.tickets) : s.Draws s' :=
  .none hnext (h ▸ List.Subperm.refl _)

theorem tickets_concat_of {log : List LogEntry} (he : e.sentTicket? = none)
    (hlog : s.log = log ++ [e]) : s.tickets = sentTickets log ++ s.unsent.map (·.ticket) := by
  rw [tickets, hlog, sentTickets_concat, he, Option.toList_none, append_nil]

theorem tickets_concat (he : e.sentTicket? = none) (hlog : s'.log = s.log ++ [e])
    (hunsent : s'.unsent = s.unsent) : s'.tickets = s.tickets := by
  rw [tickets_concat_of he hlog, hunsent, tickets]

theorem tickets_note (he : e.sentTicket? = none) : (s.note e).tickets = s.tickets :=
  tickets_concat he rfl rfl

theorem unsent_amend {q : PendingWrite} (hpending : s.pendingWrite = some p)
    (hwrite : q.write = p.write) (hreceipt : q.receipt = p.receipt) :
    (s.withPending q).unsent = s.unsent := by
  simp only [unsent, withPending, hpending, unsentPending, hwrite, hreceipt]

theorem tickets_amend {q : PendingWrite} (hpending : s.pendingWrite = some p)
    (hwrite : q.write = p.write) (hreceipt : q.receipt = p.receipt) :
    (s.withPending q).tickets = s.tickets := by
  rw [tickets, unsent_amend hpending hwrite hreceipt]
  rfl

theorem unsent_of_pending_none (h : s.pendingWrite = none) : s.unsent = s.queuedWrites := by
  rw [unsent, h]
  rfl

theorem unsent_of_receipt_none (hpending : s.pendingWrite = some p) (hreceipt : p.receipt = none) :
    s.unsent = p.write :: s.queuedWrites := by
  rw [unsent, hpending, unsentPending_of_none hreceipt]
  rfl

theorem unsent_withPending (p : PendingWrite) :
    (s.withPending p).unsent = unsentPending (some p) ++ s.queuedWrites :=
  rfl

theorem unsent_begun (queue : List QueuedWrite) (w : QueuedWrite) :
    (s.begun queue w).unsent = w :: queue :=
  rfl

theorem unsent_sent (p : PendingWrite) (now : ℕ) (truth : CoreTruth)
    (predicate : Option TruthPredicate) (receipt : CommandReceipt) :
    (s.sent p now truth predicate receipt).unsent = s.queuedWrites :=
  rfl

theorem subperm_replace (before after : List ℕ) (old new : ℕ) :
    (before ++ new :: after).Subperm (new :: (before ++ old :: after)) := by
  refine perm_middle.subperm.trans (List.Sublist.subperm (List.Sublist.cons_cons _ ?_))
  exact (List.Sublist.refl before).append (sublist_cons_self old after)

theorem sentTicket_sublist_of_ends (h : p.Ends e) :
    e.sentTicket?.toList.Sublist ((unsentPending (some p)).map (·.ticket)) := by
  cases h with
  | raised hreceipt =>
    rw [unsentPending_of_none hreceipt]
    exact List.Sublist.refl _
  | _ => exact nil_sublist _

/-- **What a step does to the tickets.** -/
theorem Step.draws (h : Step π s s') (hs : s.Sound) : s.Draws s' := by
  cases h with
  | quiet h =>
    refine .same h.nextId ?_
    simp only [tickets, unsent, h.log, h.pendingWrite, h.queuedWrites]
  | available | acknowledge | complete => exact .same le_rfl (tickets_concat rfl rfl rfl)
  | commit | disarm => exact .same le_rfl rfl
  | enqueue =>
    refine .one (Nat.lt_succ_self _) ?_
    rw [tickets_note rfl]
    simp only [tickets, unsent, withQueue, drawn, map_append, ← append_assoc]
    exact (perm_append_singleton _ _).subperm
  | requeue _ _ hreplace =>
    refine .one (Nat.lt_succ_self _) ?_
    obtain ⟨before, after, hqueue, rfl, -⟩ := replaceLast_eq_some hreplace
    rw [tickets_note rfl]
    simp only [tickets, unsent, withQueue, drawn, hqueue, map_append, map_cons, ← append_assoc]
    exact subperm_replace _ _ _ _
  | @coalesce r p hpending hstage _ _ _ =>
    refine .one (Nat.lt_succ_self _) ?_
    have hreceipt := hs.preparing p hpending hstage
    have hcarrying : (p.carrying (s.ticketed r)).receipt = none := hreceipt
    rw [tickets_note rfl, tickets, tickets, unsent_withPending, unsentPending_of_none hcarrying,
      unsent_of_receipt_none hpending hreceipt]
    exact subperm_replace _ _ _ _
  | start hpending =>
    refine .one (Nat.lt_of_lt_of_le (Nat.lt_succ_self _) (Nat.le_succ _)) ?_
    rw [tickets_concat_of rfl rfl, unsent_begun, tickets, unsent_of_pending_none hpending]
    exact perm_middle.subperm
  | dequeue hpending hqueue =>
    refine .same (Nat.le_succ _) ?_
    rw [tickets_concat_of rfl rfl, unsent_begun, tickets, unsent_of_pending_none hpending, hqueue]
  | publish hidle hreceipt _ receipt =>
    refine .same (Nat.le_succ _) ?_
    rw [tickets, unsent_sent, sent, sentTickets_concat, append_assoc, tickets,
      unsent_of_receipt_none hidle.pendingWrite hreceipt]
    rfl
  | @finish p ending hidle hends =>
    refine .none le_rfl (List.Sublist.subperm ?_)
    have hunsent : s.unsent = unsentPending (some p) ++ s.queuedWrites := by
      rw [unsent, hidle.pendingWrite]
    rw [tickets, note, sentTickets_concat, append_assoc, tickets, hunsent, map_append]
    exact (List.Sublist.refl _).append
      ((sentTicket_sublist_of_ends hends).append (List.Sublist.refl _))
  | verifying hidle => exact .same le_rfl (tickets_amend hidle.pendingWrite rfl rfl)
  | arm hpending =>
    rw [scheduleVerification_eq hpending]
    exact .same (Nat.le_succ _) rfl
  | retry hpending | observe hpending => exact .same le_rfl (tickets_amend hpending rfl rfl)
  | submit => exact .same (Nat.le_succ _) (tickets_concat rfl rfl rfl)

theorem Move.draws (h : Move π s s') (hs : s.Sound) : s.Draws s' := by
  cases h with
  | step h => exact h.draws hs
  | connect => exact .same le_rfl rfl
  | clear =>
    have hnext : s.cleared.nextId = s.nextId := by
      rw [cleared, cancelPendingTimers_eq hs.timely]
    refine .none hnext.ge (List.Sublist.subperm ?_)
    rw [tickets_concat_of (e := .cleared) rfl rfl, tickets]
    exact (List.Sublist.refl _).append (nil_sublist _)

/-! ### At most once -/

/-- No ticket was handed to a publisher twice, none that was still waits, and the next
ticket is new. -/
structure Distinct (s : World) : Prop where
  nodup : s.tickets.Nodup
  lt : ∀ k ∈ s.tickets, k < s.nextId

theorem Draws.distinct (h : s.Draws s') (hs : s.Distinct) : s'.Distinct := by
  have hkeep : ∀ {l : List ℕ}, l.Nodup → s'.tickets.Subperm l → s'.tickets.Nodup := by
    intro l hl hsub
    obtain ⟨l', hperm, hsublist⟩ := hsub
    exact hperm.nodup_iff.mp (hl.sublist hsublist)
  cases h with
  | none hnext hsub =>
    refine ⟨hkeep hs.nodup hsub, ?_⟩
    intro k hk
    exact Nat.lt_of_lt_of_le (hs.lt k (hsub.subset hk)) hnext
  | one hnext hsub =>
    have hnew : s.nextId ∉ s.tickets := fun hk => Nat.lt_irrefl _ (hs.lt _ hk)
    refine ⟨hkeep (nodup_cons.mpr ⟨hnew, hs.nodup⟩) hsub, ?_⟩
    intro k hk
    rcases mem_cons.mp (hsub.subset hk) with rfl | hold
    · exact hnext
    · exact (hs.lt k hold).trans hnext

theorem distinct_initial : ({} : World).Distinct := ⟨nodup_nil, forall_mem_nil _⟩

theorem run_distinct (host : Host) (callbacks : List Callback) :
    (run host callbacks).Distinct :=
  (run_moves_any host callbacks).invariant sound_initial distinct_initial
    fun _ _ hs hd hmove => (hmove.draws hs).distinct hd

/-! ### One at a time -/

/-- Publishers are called only while no command is unresolved, and an unresolved command is
the one of the pending write. -/
structure OneFlight (s : World) : Prop where
  pending : ∀ pendingId, Unresolved s.log pendingId →
    ∃ p, s.pendingWrite = some p ∧ p.id = pendingId ∧ p.receipt ≠ none
  quiet : AtEach (fun before e _ =>
    e.sentTicket? ≠ none → ∀ pendingId, ¬ Unresolved before pendingId) s.log

theorem OneFlight.concat (h : s.OneFlight) (hlog : s'.log = s.log ++ [e])
    (he : e.sentTicket? = none)
    (hpending : ∀ p, s.pendingWrite = some p → p.receipt ≠ none → e.ends p.id = false →
      ∃ q, s'.pendingWrite = some q ∧ q.id = p.id ∧ q.receipt ≠ none) :
    s'.OneFlight := by
  constructor
  · intro pendingId hunresolved
    rw [hlog] at hunresolved
    rcases hunresolved.of_concat with ⟨hold, hends⟩ | ⟨w, now, truth, receipt, rfl⟩
    · obtain ⟨p, hp, rfl, hreceipt⟩ := h.pending pendingId hold
      exact hpending p hp hreceipt hends
    · exact nomatch he
  · rw [hlog]
    exact atEach_concat.mpr ⟨h.quiet, fun hsent => absurd he hsent⟩

theorem OneFlight.keep (h : s.OneFlight) (hlog : s'.log = s.log)
    (hpending : ∀ p, s.pendingWrite = some p → p.receipt ≠ none →
      ∃ q, s'.pendingWrite = some q ∧ q.id = p.id ∧ q.receipt ≠ none) : s'.OneFlight := by
  constructor
  · intro pendingId hunresolved
    obtain ⟨p, hp, rfl, hreceipt⟩ := h.pending pendingId (hlog ▸ hunresolved)
    exact hpending p hp hreceipt
  · rw [hlog]
    exact h.quiet

theorem OneFlight.not_unresolved (h : s.OneFlight) (hpending : s.pendingWrite = some p)
    (hreceipt : p.receipt = none) (pendingId : ℕ) : ¬ Unresolved s.log pendingId := by
  intro hunresolved
  obtain ⟨q, hq, -, hsent⟩ := h.pending pendingId hunresolved
  obtain rfl := Option.some.inj (hpending.symm.trans hq)
  exact hsent hreceipt

theorem OneFlight.publish (h : s.OneFlight) (hpending : s.pendingWrite = some p)
    (hreceipt : p.receipt = none) (now : ℕ) (truth : CoreTruth) (predicate : Option TruthPredicate)
    (receipt : CommandReceipt) : (s.sent p now truth predicate receipt).OneFlight := by
  constructor
  · intro pendingId hunresolved
    rcases hunresolved.of_concat with ⟨hold, -⟩ | ⟨w, now', truth', receipt', heq⟩
    · exact absurd hold (h.not_unresolved hpending hreceipt pendingId)
    · obtain ⟨rfl, -⟩ := LogEntry.published.inj heq
      exact ⟨_, rfl, rfl, Option.some_ne_none receipt⟩
  · exact atEach_concat.mpr ⟨h.quiet, fun _ => h.not_unresolved hpending hreceipt⟩

theorem OneFlight.finish (h : s.OneFlight) {p : PendingWrite}
    (hpending : s.pendingWrite = some p) {ending : LogEntry} (hends : p.Ends ending) :
    (s.dropPending.note ending).OneFlight := by
  -- a command that was out is resolved by what is recorded
  have hresolved : ∀ how, (s.dropPending.note (.resolved p.id p.write how)).OneFlight := by
    intro how
    refine h.concat rfl rfl fun q hq _ hopen => ?_
    obtain rfl := Option.some.inj (hpending.symm.trans hq)
    exact absurd hopen (by simp [LogEntry.ends])
  cases hends with
  | unprepared hreceipt =>
    refine h.concat rfl rfl fun q hq hsent _ => ?_
    obtain rfl := Option.some.inj (hpending.symm.trans hq)
    exact absurd hreceipt hsent
  | raised hreceipt =>
    constructor
    · intro pendingId hunresolved
      rcases hunresolved.of_concat with ⟨hold, -⟩ | ⟨w, now, truth, receipt, heq⟩
      · exact absurd hold (h.not_unresolved hpending hreceipt pendingId)
      · obtain ⟨-, -, -, -, hnone⟩ := LogEntry.published.inj heq
        exact nomatch hnone
    · exact atEach_concat.mpr ⟨h.quiet, fun _ => h.not_unresolved hpending hreceipt⟩
  | resolved | diverged | verified => exact hresolved _

theorem OneFlight.step (h : s.OneFlight) (hstep : Step π s s') : s'.OneFlight := by
  have hsame : ∀ p, s.pendingWrite = some p → p.receipt ≠ none →
      ∃ q, s.pendingWrite = some q ∧ q.id = p.id ∧ q.receipt ≠ none :=
    fun p hp hreceipt => ⟨p, hp, rfl, hreceipt⟩
  cases hstep with
  | quiet halike => exact h.keep halike.log (halike.pendingWrite ▸ hsame)
  | available | enqueue | requeue | acknowledge | submit | complete =>
    exact h.concat rfl rfl fun p hp hreceipt _ => hsame p hp hreceipt
  | commit | disarm => exact h.keep rfl hsame
  | coalesce hpending =>
    refine h.concat rfl rfl fun p hp hreceipt _ => ?_
    obtain rfl := Option.some.inj (hpending.symm.trans hp)
    exact ⟨_, rfl, rfl, hreceipt⟩
  | start hpending | dequeue hpending =>
    exact h.concat rfl rfl fun p hp => nomatch hpending.symm.trans hp
  | publish hidle hreceipt _ receipt => exact h.publish hidle.pendingWrite hreceipt _ _ _ receipt
  | finish hidle hends => exact h.finish hidle.pendingWrite hends
  | verifying hidle =>
    refine h.keep rfl fun p hp hreceipt => ?_
    obtain rfl := Option.some.inj (hidle.pendingWrite.symm.trans hp)
    exact ⟨_, rfl, rfl, hreceipt⟩
  | arm hpending =>
    rw [scheduleVerification_eq hpending]
    exact h.keep rfl hsame
  | retry hpending | observe hpending =>
    refine h.keep rfl fun p hp hreceipt => ?_
    obtain rfl := Option.some.inj (hpending.symm.trans hp)
    exact ⟨_, rfl, rfl, hreceipt⟩

theorem OneFlight.move (h : s.OneFlight) (hmove : Move π s s') : s'.OneFlight := by
  cases hmove with
  | step hstep => exact h.step hstep
  | connect => exact h.keep rfl fun p hp hreceipt => ⟨p, hp, rfl, hreceipt⟩
  | clear => exact h.concat (e := .cleared) rfl rfl fun p _ _ hopen => nomatch hopen

theorem oneFlight_initial : ({} : World).OneFlight :=
  ⟨fun pendingId h => absurd h (not_unresolved_nil pendingId), atEach_nil _⟩

end World

/-- **At most one publication for each request, and one command at a time**: over every run,
the publisher of an accepted request is called at most once, and none is called while an
earlier command is unresolved. -/
theorem single_flight (host : Host) (callbacks : List World.Callback) :
    (sentTickets (World.run host callbacks).log).Nodup ∧
      AtEach (fun before e _ => ∀ pendingId w now truth receipt,
        e = .published pendingId w now truth receipt → ∀ other, ¬ Unresolved before other)
        (World.run host callbacks).log := by
  have hflight : (World.run host callbacks).OneFlight :=
    (World.run_moves_any host callbacks).invariant World.sound_initial World.oneFlight_initial
      fun _ _ _ h hmove => h.move hmove
  refine ⟨(World.run_distinct host callbacks).nodup.of_append_left, ?_⟩
  rintro before e after hlog pendingId w now truth receipt rfl
  exact hflight.quiet before _ after hlog (Option.some_ne_none _)

end PetlibroLocal
