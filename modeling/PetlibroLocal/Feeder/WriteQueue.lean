import PetlibroLocal.Feeder.NoStuckWrite
import PetlibroLocal.Feeder.SingleFlight

/-!
# The Write Queue

What a user asked for last is what the feeder is told: a request takes the place of an
earlier one for the same control that still waits, be it queued or in preparation, and
nothing else makes an accepted request disappear before its publisher is called.

The abstract queue is an ordered map from controls to requests. An accepted request that is
queued is put into it with `upsert`, so that it takes the place of the one it replaces, and
requests leave it at the front. `replay` computes the map from the log alone; the queue of the
coordinator is that map, and every request that is started from it is its first entry.

`Turn` says what a move does to the queue and to the write that is in preparation, without the
rest of the coordinator. The invariants are about these two and the log, and are proved from it;
that every move of the coordinator is a turn is shown afterwards.

The coordinator's own requests, which renumber plans, are made in the middle of a callback and
may start ahead of the queue. They have a control of their own, so user requests are not
affected; `QueuedWrite.User` sets them apart.

The main results are `World.Orderly.turn`, `World.Accounted.turn`, `World.Newest.turn`,
`World.Move.turns` and `write_queue`.
-/

namespace PetlibroLocal

open List

/-- The write was requested by a user. -/
def QueuedWrite.User (w : QueuedWrite) : Prop := w.control ≠ normalizationControl

/-! ### The abstract queue -/

/-- What an entry of the log does to the queue. -/
def queueAfter (queue : List QueuedWrite) : LogEntry → List QueuedWrite
  | .accepted w .queued => upsert QueuedWrite.control w queue
  | .accepted w (.replacedQueued _) => upsert QueuedWrite.control w queue
  | .dequeued _ => queue.tail
  | .cleared => []
  | _ => queue

/-- **The queue, computed from the log.** -/
def replay (log : List LogEntry) : List QueuedWrite := log.foldl queueAfter []

theorem replay_concat (log : List LogEntry) (e : LogEntry) :
    replay (log ++ [e]) = queueAfter (replay log) e := by
  rw [replay, foldl_append, foldl_cons, foldl_nil, replay]

/-- The request that the entry accepts for the control. -/
def LogEntry.acceptedFor? (control : String) : LogEntry → Option QueuedWrite
  | .accepted w _ => if w.control = control then some w else none
  | _ => none

/-- **The last request that was accepted for a control.** -/
def lastAccepted (control : String) (log : List LogEntry) : Option QueuedWrite :=
  lastSome (LogEntry.acceptedFor? control) log

theorem lastAccepted_concat_ne (log : List LogEntry) {w : QueuedWrite} (place : Placement)
    {control : String} (h : control ≠ w.control) :
    lastAccepted control (log ++ [.accepted w place]) = lastAccepted control log :=
  lastSome_concat_none log (if_neg h.symm)

/-- If the entry says that the publisher of a user's request was called, the request is the last
one that was accepted for its control. -/
def LogEntry.Current (before : List LogEntry) (e : LogEntry) : Prop :=
  ∀ pendingId w now truth receipt, e = .published pendingId w now truth receipt → w.User →
    lastAccepted w.control before = some w

/-- The entry says why the write no longer waits: its publisher was called, it could not be
prepared, a later request for its control took its place, or the feeder disconnected. -/
def LogEntry.Settles (w : QueuedWrite) : LogEntry → Prop
  | .published _ sent _ _ _ => sent = w
  | .unprepared failed => failed = w
  | .accepted later (.replacedQueued old) => old = w ∧ later.control = w.control
  | .accepted later (.replacedPending old) => old = w ∧ later.control = w.control
  | .cleared => True
  | _ => False

/-- The entry is about no waiting write. -/
def LogEntry.neutral : LogEntry → Bool
  | .available _ | .acknowledged _ _ | .submitted _ | .completed _ _ _ _ | .resolved _ _ _ => true
  | _ => false

/-- Users do not start a write ahead of the queue, and queue none for the control of the
write that is in preparation. -/
def queuePolicy : Policy where
  admits _ := True
  coalesces _ _ := True
  queues s r := r.control = normalizationControl ∨
    ∀ w ∈ World.unsentPending s.pendingWrite, w.control ≠ r.control
  starts s r := r.control = normalizationControl ∨ s.queuedWrites = []

namespace World

/-! ### What a move does -/

/-- **What a move does to the waiting writes**, the one that is in preparation and the queue, and
what it appends to the log. -/
inductive Turn : (ws qs : List QueuedWrite) → List LogEntry → (ws' qs' : List QueuedWrite) → Prop
  | still {ws qs} : Turn ws qs [] ws qs
  | noted {ws qs e} (he : e.neutral = true) : Turn ws qs [e] ws qs
  | queued {ws qs w} (hnew : ∀ q ∈ qs, q.control ≠ w.control)
      (hroom : qs.length < maxQueuedWrites) (hapart : w.User → ∀ q ∈ ws, q.control ≠ w.control) :
      Turn ws qs [.accepted w .queued] ws (qs ++ [w])
  | requeued {ws front old back w} (hcontrol : old.control = w.control) :
      Turn ws (front ++ old :: back) [.accepted w (.replacedQueued old)] ws (front ++ w :: back)
  | replaced {qs old w} (hcontrol : old.control = w.control) :
      Turn [old] qs [.accepted w (.replacedPending old)] [w] qs
  | started {qs w} (hempty : w.User → qs = []) : Turn [] qs [.accepted w .started] [w] qs
  | dequeued {qs w} : Turn [] (w :: qs) [.dequeued w] [w] qs
  | sent {qs w pendingId now truth receipt} :
      Turn [w] qs [.published pendingId w now truth receipt] [] qs
  | unprepared {qs w} : Turn [w] qs [.unprepared w] [] qs
  | cleared {ws qs} : Turn ws qs [.cleared] [] []

section Waiting

variable {ws ws' qs qs' : List QueuedWrite} {log es : List LogEntry} {e : LogEntry}
  {w : QueuedWrite}

/-! ### The queue is an ordered map -/

/-- The queue is the abstract one, it is bounded, it has one write for each control, and what
is started from it is its first entry. -/
structure Orderly (qs : List QueuedWrite) (log : List LogEntry) : Prop where
  bounded : qs.length ≤ maxQueuedWrites
  nodup : (qs.map QueuedWrite.control).Nodup
  replayed : qs = replay log
  first : AtEach (fun before e _ => ∀ w, e = .dequeued w → (replay before).head? = some w) log

theorem queueAfter_of_neutral (qs : List QueuedWrite) (he : e.neutral = true) :
    queueAfter qs e = qs := by
  cases e <;> first | rfl | cases he

theorem Orderly.concat (h : Orderly qs log) (hqueue : queueAfter qs e = qs')
    (hfirst : ∀ w, e = .dequeued w → qs.head? = some w) (hbounded : qs'.length ≤ maxQueuedWrites)
    (hnodup : (qs'.map QueuedWrite.control).Nodup) : Orderly qs' (log ++ [e]) := by
  obtain ⟨-, -, rfl, hrest⟩ := h
  exact ⟨hbounded, hnodup, hqueue.symm.trans (replay_concat log e).symm,
    atEach_concat.mpr ⟨hrest, hfirst⟩⟩

theorem Orderly.keep (h : Orderly qs log) (hsame : queueAfter qs e = qs)
    (hfirst : ∀ w, e ≠ .dequeued w) : Orderly qs (log ++ [e]) :=
  h.concat hsame (fun w he => absurd he (hfirst w)) h.bounded h.nodup

theorem control_ne_of_front {front back : List QueuedWrite} {old q : QueuedWrite}
    (h : ((front ++ old :: back).map QueuedWrite.control).Nodup) (hq : q ∈ front ∨ q ∈ back) :
    q.control ≠ old.control := by
  rw [map_append, map_cons, nodup_middle, nodup_cons, ← map_append] at h
  intro heq
  exact h.1 (heq ▸ mem_map_of_mem (mem_append.mpr hq))

/-- The queue stays the ordered map of the log. -/
theorem Orderly.turn (h : Orderly qs log) (hturn : Turn ws qs es ws' qs') :
    Orderly qs' (log ++ es) := by
  cases hturn with
  | still => rwa [append_nil]
  | noted he => exact h.keep (queueAfter_of_neutral _ he) fun w heq => nomatch heq ▸ he
  | queued hnew hroom =>
    refine h.concat (upsert_eq_concat hnew) (fun _ => nofun) ?_ ?_
    · rw [length_append]
      exact hroom
    · rw [map_append, map_singleton]
      refine nodup_append.mpr ⟨h.nodup, nodup_singleton _, ?_⟩
      intro a ha b hb
      obtain ⟨q, hq, rfl⟩ := mem_map.mp ha
      rw [mem_singleton.mp hb]
      exact hnew q hq
  | requeued hcontrol =>
    refine h.concat (upsert_append_cons (fun q hq => ?_) hcontrol) (fun _ => nofun) ?_ ?_
    · exact hcontrol ▸ control_ne_of_front h.nodup (.inl hq)
    · simpa using h.bounded
    · rw [map_append, map_cons, ← hcontrol, ← map_cons, ← map_append]
      exact h.nodup
  | replaced | started | sent | unprepared => exact h.keep rfl fun _ => nofun
  | dequeued =>
    exact h.concat rfl (fun w heq => congrArg some (LogEntry.dequeued.inj heq))
      (Nat.le_of_succ_le h.bounded) (nodup_cons.mp h.nodup).2
  | cleared => exact h.concat rfl (fun _ => nofun) (Nat.zero_le _) nodup_nil

theorem orderly_nil : Orderly [] [] where
  bounded := Nat.zero_le _
  nodup := nodup_nil
  replayed := rfl
  first := atEach_nil _

/-! ### No request is lost -/

/-- Every accepted request is unsent, or something later in the log says why it is not. -/
def Accounted (unsent : List QueuedWrite) (log : List LogEntry) : Prop :=
  AtEach (fun _ e after => ∀ w place, e = .accepted w place →
    w ∈ unsent ∨ ∃ later ∈ after, later.Settles w) log

theorem Accounted.concat (h : Accounted ws log) (hold : ∀ w ∈ ws, w ∈ ws' ∨ e.Settles w)
    (hnew : ∀ w place, e = .accepted w place → w ∈ ws') : Accounted ws' (log ++ [e]) := by
  refine atEach_concat.mpr ⟨?_, fun w place he => .inl (hnew w place he)⟩
  intro before e' after heq w place he
  rcases h before e' after heq w place he with hwaits | ⟨later, hmem, hsettles⟩
  · rcases hold w hwaits with hstill | hsettles
    · exact .inl hstill
    · exact .inr ⟨e, mem_append_right _ (mem_singleton_self _), hsettles⟩
  · exact .inr ⟨later, mem_append_left _ hmem, hsettles⟩

/-- No accepted request disappears. -/
theorem Accounted.turn (h : Accounted (ws ++ qs) log) (hturn : Turn ws qs es ws' qs') :
    Accounted (ws' ++ qs') (log ++ es) := by
  cases hturn with
  | still => rwa [append_nil]
  | noted he => exact h.concat (fun _ => .inl) fun w place heq => nomatch heq ▸ he
  | queued =>
    refine h.concat (fun x hx => .inl ?_) ?_
    · rw [← append_assoc]
      exact mem_append_left _ hx
    · rintro _ _ ⟨⟩
      simp only [mem_append, mem_singleton, or_true]
  | requeued hcontrol =>
    refine h.concat (fun x hx => ?_) ?_
    · simp only [mem_append, mem_cons] at hx ⊢
      rcases hx with hx | hx | rfl | hx
      · exact .inl (.inl hx)
      · exact .inl (.inr (.inl hx))
      · exact .inr ⟨rfl, hcontrol.symm⟩
      · exact .inl (.inr (.inr (.inr hx)))
    · rintro _ _ ⟨⟩
      simp only [mem_append, mem_cons, true_or, or_true]
  | replaced hcontrol =>
    refine h.concat (fun x hx => ?_) ?_
    · rcases mem_cons.mp hx with rfl | hx
      · exact .inr ⟨rfl, hcontrol.symm⟩
      · exact .inl (mem_cons_of_mem _ hx)
    · rintro _ _ ⟨⟩
      exact mem_cons_self
  | started =>
    refine h.concat (fun x hx => .inl (mem_cons_of_mem _ hx)) ?_
    rintro _ _ ⟨⟩
    exact mem_cons_self
  | dequeued => exact h.concat (fun _ => .inl) fun _ _ => nofun
  | sent | unprepared =>
    exact h.concat (fun x hx => (mem_cons.mp hx).symm.imp id Eq.symm) fun _ _ => nofun
  | cleared => exact h.concat (fun _ _ => .inr trivial) fun _ _ => nofun

/-! ### The last request counts -/

/-- A user's request that waits is the last one that was accepted for its control, and so was
every one whose publisher was called. -/
structure Newest (ws qs : List QueuedWrite) (log : List LogEntry) : Prop where
  apart : ∀ w ∈ ws, w.User → ∀ q ∈ qs, q.control ≠ w.control
  newest : ∀ w ∈ ws ++ qs, w.User → lastAccepted w.control log = some w
  current : AtEach (fun before e _ => e.Current before) log

theorem control_ne_of_user {x : QueuedWrite} (hx : x.User) (h : w.User → x.control ≠ w.control) :
    x.control ≠ w.control := by
  by_cases hw : w.User
  · exact h hw
  · intro heq
    exact hx (heq.trans (not_not.mp hw))

theorem Newest.accept (h : Newest ws qs log) {place : Placement}
    (hothers : ∀ x ∈ ws' ++ qs', x = w ∨ x ∈ ws ++ qs ∧ (x.User → x.control ≠ w.control))
    (hapart : ∀ x ∈ ws', x.User → ∀ q ∈ qs', q.control ≠ x.control) :
    Newest ws' qs' (log ++ [.accepted w place]) := by
  refine ⟨hapart, fun x hx huser => ?_, atEach_concat.mpr ⟨h.current, fun _ _ _ _ _ => nofun⟩⟩
  rcases hothers x hx with rfl | ⟨hold, hne⟩
  · exact lastSome_concat_some _ (if_pos rfl)
  · rw [lastAccepted_concat_ne _ _ (hne huser)]
    exact h.newest x hold huser

theorem Newest.drop (h : Newest ws qs log) (he : ∀ control, e.acceptedFor? control = none)
    (hsent : ∀ pendingId w now truth receipt, e = .published pendingId w now truth receipt →
      w ∈ ws ++ qs)
    (hunsent : ws' ++ qs' ⊆ ws ++ qs)
    (hapart : ∀ x ∈ ws', x.User → ∀ q ∈ qs', q.control ≠ x.control) :
    Newest ws' qs' (log ++ [e]) := by
  refine ⟨hapart, fun x hx huser => ?_, atEach_concat.mpr ⟨h.current, ?_⟩⟩
  · rw [lastAccepted, lastSome_concat_none _ (he _)]
    exact h.newest x (hunsent hx) huser
  · intro pendingId w now truth receipt heq
    exact h.newest w (hsent pendingId w now truth receipt heq)

theorem Newest.begin (h : Newest ws qs log) {place : Placement}
    (hne : ∀ q ∈ qs, w.User → q.control ≠ w.control) :
    Newest [w] qs (log ++ [.accepted w place]) := by
  refine h.accept (fun x hx => ?_) fun x hx huser q hq => ?_
  · refine (mem_cons.mp hx).imp id fun hx => ⟨mem_append_right _ hx, fun huser => ?_⟩
    exact control_ne_of_user huser (hne x hx)
  · obtain rfl := mem_singleton.mp hx
    exact hne q hq huser

theorem acceptedFor?_of_neutral (he : e.neutral = true) (control : String) :
    e.acceptedFor? control = none := by
  cases e <;> first | rfl | cases he

/-- What waits stays the last request for its control. -/
theorem Newest.turn (h : Newest ws qs log) (horderly : Orderly qs log)
    (hturn : Turn ws qs es ws' qs') : Newest ws' qs' (log ++ es) := by
  cases hturn with
  | still => rwa [append_nil]
  | noted he =>
    refine h.drop (acceptedFor?_of_neutral he) ?_ (fun _ => id) h.apart
    rintro pendingId w now truth receipt rfl
    exact nomatch he
  | @queued _ _ w hnew _ hapart =>
    have hne : ∀ x ∈ ws ++ qs, x.User → x.control ≠ w.control := by
      intro x hx huser
      rcases mem_append.mp hx with hx | hx
      · exact control_ne_of_user huser fun hw => hapart hw x hx
      · exact hnew x hx
    refine h.accept (fun x hx => ?_) fun x hx huser q hq => ?_
    · rw [← append_assoc, mem_append, mem_singleton] at hx
      exact hx.symm.imp id fun hx => ⟨hx, hne x hx⟩
    · rcases mem_append.mp hq with hq | hq
      · exact h.apart x hx huser q hq
      · rw [mem_singleton.mp hq]
        exact (hne x (mem_append_left _ hx) huser).symm
  | @requeued _ front old back w hcontrol =>
    have hold : old ∈ front ++ old :: back := mem_append_right _ mem_cons_self
    have hmem : ∀ x, x ∈ front ∨ x ∈ back →
        x ∈ front ++ old :: back ∧ x.control ≠ w.control := fun x hx =>
      ⟨mem_append.mpr (hx.imp id (mem_cons_of_mem _)),
        hcontrol ▸ control_ne_of_front horderly.nodup hx⟩
    have hsplit : ∀ x ∈ front ++ w :: back, x = w ∨ x ∈ front ∨ x ∈ back := by
      intro x hx
      rw [mem_append, mem_cons] at hx
      exact or_left_comm.mp hx
    refine h.accept (fun x hx => ?_) fun x hx huser q hq => ?_
    · rcases mem_append.mp hx with hx | hx
      · refine .inr ⟨mem_append_left _ hx, fun huser => ?_⟩
        exact hcontrol ▸ (h.apart x hx huser old hold).symm
      · refine (hsplit x hx).imp id fun hx => ?_
        exact ⟨mem_append_right _ (hmem x hx).1, fun _ => (hmem x hx).2⟩
    · rcases hsplit q hq with rfl | hq
      · exact hcontrol ▸ h.apart x hx huser old hold
      · exact h.apart x hx huser q (hmem q hq).1
  | @replaced _ old w hcontrol =>
    refine h.begin fun q hq huser => ?_
    rw [← hcontrol]
    refine h.apart old (mem_singleton_self _) ?_ q hq
    rwa [QueuedWrite.User, hcontrol]
  | started hempty =>
    refine h.begin fun q hq huser => ?_
    rw [hempty huser] at hq
    exact absurd hq not_mem_nil
  | dequeued =>
    refine h.drop (fun _ => rfl) (fun _ _ _ _ _ => nofun) (fun _ => id) fun x hx _ q hq heq => ?_
    obtain rfl := mem_singleton.mp hx
    exact (nodup_cons.mp horderly.nodup).1 (heq ▸ mem_map_of_mem hq)
  | sent =>
    refine h.drop (fun _ => rfl) ?_ (fun _ => mem_cons_of_mem _) (forall_mem_nil _)
    rintro _ _ _ _ _ ⟨⟩
    exact mem_cons_self
  | unprepared =>
    exact h.drop (fun _ => rfl) (fun _ _ _ _ _ => nofun) (fun _ => mem_cons_of_mem _)
      (forall_mem_nil _)
  | cleared =>
    exact h.drop (fun _ => rfl) (fun _ _ _ _ _ => nofun) (nil_subset _) (forall_mem_nil _)

end Waiting

/-! ### The moves of the coordinator -/

/-- The write that is in preparation, if there is one. -/
def waiting (s : World) : List QueuedWrite := unsentPending s.pendingWrite

/-- The move is a turn of the waiting writes. -/
def Turns (s s' : World) : Prop :=
  ∃ es, s'.log = s.log ++ es ∧ Turn s.waiting s.queuedWrites es s'.waiting s'.queuedWrites

variable {s s' : World} {p : PendingWrite}

theorem waiting_of_none (h : s.pendingWrite = none) : s.waiting = [] := by
  rw [waiting, h]
  rfl

theorem waiting_of_unsent (hpending : s.pendingWrite = some p) (hreceipt : p.receipt = none) :
    s.waiting = [p.write] := by
  rw [waiting, hpending, unsentPending_of_none hreceipt]

theorem waiting_of_sent (hpending : s.pendingWrite = some p) {receipt : CommandReceipt}
    (hreceipt : p.receipt = some receipt) : s.waiting = [] := by
  rw [waiting, hpending, unsentPending_of_some hreceipt]

theorem waiting_amend {q : PendingWrite} (hpending : s.pendingWrite = some p)
    (hwrite : q.write = p.write) (hreceipt : q.receipt = p.receipt) :
    (s.withPending q).waiting = s.waiting := by
  simp only [waiting, withPending, hpending, unsentPending, hwrite, hreceipt]

theorem turns_still (hlog : s'.log = s.log) (hwaiting : s'.waiting = s.waiting)
    (hqueue : s'.queuedWrites = s.queuedWrites) : s.Turns s' := by
  rw [Turns, hlog, hwaiting, hqueue]
  exact ⟨[], (append_nil _).symm, .still⟩

/-- The pending write ends: its publisher raised, it could not be prepared, or its command had
been sent. -/
theorem turns_of_ends (hs : s.Sound) (hpending : s.pendingWrite = some p) {ending : LogEntry}
    (hends : p.Ends ending) : s.Turns (s.dropPending.note ending) := by
  refine ⟨_, rfl, ?_⟩
  have hresolved : p.receipt ≠ none → ∀ how,
      Turn s.waiting s.queuedWrites [.resolved p.id p.write how] [] s.queuedWrites := by
    intro hreceipt how
    obtain ⟨receipt, hreceipt⟩ := Option.ne_none_iff_exists'.mp hreceipt
    rw [waiting_of_sent hpending hreceipt]
    exact .noted rfl
  cases hends with
  | unprepared hreceipt => exact waiting_of_unsent hpending hreceipt ▸ .unprepared
  | raised hreceipt => exact waiting_of_unsent hpending hreceipt ▸ .sent
  | resolved hreceipt => exact hresolved (hreceipt ▸ Option.some_ne_none _) _
  | diverged hstage | verified hstage => exact hresolved (hs.verifying p hpending hstage) _

theorem Step.turns (h : Step queuePolicy s s') (hs : s.Sound) : s.Turns s' := by
  cases h with
  | quiet halike =>
    refine turns_still halike.log ?_ halike.queuedWrites
    rw [waiting, halike.pendingWrite, waiting]
  | available | acknowledge | submit | complete => exact ⟨_, rfl, .noted rfl⟩
  | commit | disarm => exact turns_still rfl rfl rfl
  | enqueue _ _ hqueues hnew hroom =>
    exact ⟨_, rfl, .queued (replaceLast_eq_none_iff.mp hnew) hroom
      fun huser => hqueues.resolve_left huser⟩
  | requeue _ _ hreplace =>
    obtain ⟨front, back, hqueue, rfl, hcontrol⟩ := replaceLast_eq_some hreplace
    exact ⟨_, rfl, hqueue ▸ .requeued hcontrol⟩
  | @coalesce r p hpending hstage hcontrol _ _ =>
    have hreceipt := hs.preparing p hpending hstage
    have hcarrying : (p.carrying (s.ticketed r)).receipt = none := hreceipt
    refine ⟨_, rfl, ?_⟩
    rw [waiting_of_unsent hpending hreceipt, waiting_of_unsent rfl hcarrying]
    exact .replaced hcontrol
  | start hpending _ _ hstarts =>
    exact ⟨_, rfl, waiting_of_none hpending ▸ .started fun huser => hstarts.resolve_left huser⟩
  | dequeue hpending hqueue =>
    exact ⟨_, rfl, waiting_of_none hpending ▸ hqueue ▸ .dequeued⟩
  | publish hidle hreceipt =>
    exact ⟨_, rfl, waiting_of_unsent hidle.pendingWrite hreceipt ▸ .sent⟩
  | finish hidle hends => exact turns_of_ends hs hidle.pendingWrite hends
  | verifying hidle => exact turns_still rfl (waiting_amend hidle.pendingWrite rfl rfl) rfl
  | arm hpending =>
    rw [scheduleVerification_eq hpending]
    exact turns_still rfl rfl rfl
  | retry hpending | observe hpending =>
    exact turns_still rfl (waiting_amend hpending rfl rfl) rfl

/-- Every move of the coordinator is a turn of its waiting writes. -/
theorem Move.turns (h : Move queuePolicy s s') (hs : s.Sound) : s.Turns s' := by
  cases h with
  | step hstep => exact hstep.turns hs
  | connect => exact turns_still rfl rfl rfl
  | clear => exact ⟨_, rfl, .cleared⟩

/-- The three invariants together. -/
structure Queues (s : World) : Prop where
  orderly : Orderly s.queuedWrites s.log
  accounted : Accounted s.unsent s.log
  newest : Newest s.waiting s.queuedWrites s.log

theorem Queues.move (h : s.Queues) (hs : s.Sound) (hmove : Move queuePolicy s s') : s'.Queues := by
  obtain ⟨es, hlog, hturn⟩ := hmove.turns hs
  exact ⟨hlog ▸ h.orderly.turn hturn, hlog ▸ h.accounted.turn hturn,
    hlog ▸ h.newest.turn h.orderly hturn⟩

theorem queues_initial : ({} : World).Queues :=
  ⟨orderly_nil, atEach_nil _, forall_mem_nil _, forall_mem_nil _, atEach_nil _⟩

/-! ### Requests of users -/

theorem Live.preparing_of_unsent (h : s.Live False) (hs : s.Sound)
    (hpending : s.pendingWrite = some p) (hreceipt : p.receipt = none) : p.stage = .preparing := by
  cases hstage : p.stage with
  | preparing => rfl
  | awaitingAck =>
    have htimed := (attended_awaitingAck hstage).mp (h.attended p hpending)
    have htimers := hs.timely.timers_eq_nil fun q hq => by
      obtain rfl := Option.some.inj (hpending.symm.trans hq)
      exact ⟨hreceipt, hstage ▸ nofun⟩
    obtain ⟨t, ht, -⟩ := htimed
    rw [htimers] at ht
    exact absurd ht not_mem_nil
  | verifying => exact absurd hreceipt (hs.verifying p hpending hstage)

/-- **A request that a user makes between callbacks keeps to the policy.** -/
theorem Live.allows (h : s.Live False) (hs : s.Sound) (r : PersistentWriteRequest) :
    queuePolicy.Allows s (.requestWrite r) := by
  have hdecides := s.decides r
  refine ⟨trivial, fun _ _ => trivial, fun hdecision => .inr ?_, fun hdecision => .inr ?_⟩
  · rw [hdecision] at hdecides
    cases hdecides with
    | @behind p _ hpending hother =>
      intro w hw heq
      cases hreceipt : p.receipt with
      | none =>
        rw [hpending, unsentPending_of_none hreceipt, mem_singleton] at hw
        exact hother ⟨h.preparing_of_unsent hs hpending hreceipt, hw ▸ heq⟩
      | some receipt =>
        rw [hpending, unsentPending_of_some hreceipt] at hw
        exact absurd hw not_mem_nil
    | later _ hpending =>
      rw [hpending]
      exact forall_mem_nil _
  · rw [hdecision] at hdecides
    cases hdecides with
    | start _ _ hpending hready htoken =>
      by_contra hne
      have hout := (h.queued hpending hready hne).resolve_left id
      rw [htoken] at hout
      exact nomatch hout

theorem Step.log_prefix {π : Policy} (h : Step π s s') : s.log <+: s'.log := by
  cases h with
  | quiet halike => exact halike.log ▸ prefix_rfl
  | commit | disarm | verifying | retry | observe => exact prefix_rfl
  | arm hpending =>
    rw [scheduleVerification_eq hpending]
  | _ => exact prefix_append _ _

theorem Steps.log_prefix {π : Policy} (h : Steps π s s') : s.log <+: s'.log := by
  induction h with
  | refl => exact prefix_rfl
  | tail _ hstep ih => exact ih.trans hstep.log_prefix

theorem offer_returns (s : World) (r : PersistentWriteRequest) :
    (∃ place, (s.offer r).1 = true ∧
        (s.offer r).2.log = s.log ++ [.accepted (s.ticketed r) place]) ∨
      (s.offer r).1 = false ∧ (s.offer r).2 = s.drawn := by
  rw [offer]
  split
  · exact .inr ⟨rfl, rfl⟩
  · exact .inl ⟨_, rfl, rfl⟩
  · rw [queueWrite]
    split
    · exact .inl ⟨_, rfl, rfl⟩
    · split_ifs
      · exact .inr ⟨rfl, rfl⟩
      · exact .inl ⟨_, rfl, rfl⟩
  · exact .inr ⟨rfl, rfl⟩

/-- **A request is recorded as accepted exactly if `request_persistent_write` returns `True`.** -/
theorem request_returns (host : Host) (hs : s.Sound) (r : PersistentWriteRequest) :
    (s.requestPersistentWrite host r).1 = true ↔
      ∃ place rest, (s.requestPersistentWrite host r).2.log =
        s.log ++ .accepted (s.ticketed r) place :: rest := by
  have hdecides := s.decides r
  rw [requestPersistentWrite]
  split
  · next hdecision =>
    rw [hdecision] at hdecides
    cases hdecides with
    | start hconnected _ hpending =>
      refine iff_of_true rfl ?_
      have hbegun : ((s.drawn.note (.accepted (s.ticketed r) .started)).begun s.queuedWrites
          (s.ticketed r)).Sound := (hs.drawn.note _).begun hpending hconnected _ _
      have hsteps := (startWrite_launches host s.queuedWrites (s.ticketed r)
        (s.drawn.note (.accepted (s.ticketed r) .started))).steps (Policy.any_welcomes host)
          hbegun.begun_begun
      obtain ⟨rest, hrest⟩ := hsteps.log_prefix
      refine ⟨.started, rest, hrest.symm.trans ?_⟩
      exact append_assoc _ _ _
  · rcases offer_returns s r with ⟨place, htrue, hlog⟩ | ⟨hfalse, hdrawn⟩
    · exact iff_of_true htrue ⟨place, [], hlog⟩
    · refine iff_of_false (hfalse ▸ Bool.false_ne_true) ?_
      rintro ⟨place, rest, hlog⟩
      rw [hdrawn] at hlog
      exact absurd (self_eq_append_right.mp hlog) (cons_ne_nil _ _)

end World

theorem queuePolicy_welcomes {host : Host} (hreenter : ∀ k, host.reenter k = []) :
    queuePolicy.Welcomes host where
  reenter k _ hr := absurd (hreenter k ▸ hr) not_mem_nil
  normalization _ := ⟨trivial, fun _ => trivial, fun _ => .inl rfl, fun _ => .inl rfl⟩

/-- **The write queue** of every run in which requests come from top-level callbacks and from
the coordinator only. The queue is bounded and has one request for each control. It is the
ordered map of the log, and what is started from it is its first entry. The publisher of a
user's request is called only if the request is the last one that was accepted for its
control. Every accepted request waits, or its publisher was called, it could not be prepared, a
later one for its control took its place, or the feeder disconnected. Requests are accepted
exactly if `request_persistent_write` returns `True`. -/
theorem write_queue (host : Host) (callbacks : List World.Callback)
    (hreenter : ∀ k, host.reenter k = []) :
    (World.run host callbacks).queuedWrites.length ≤ 8 ∧
      ((World.run host callbacks).queuedWrites.map QueuedWrite.control).Nodup ∧
      (World.run host callbacks).queuedWrites = replay (World.run host callbacks).log ∧
      AtEach (fun before e after =>
        (∀ w, e = .dequeued w → (replay before).head? = some w) ∧
        (∀ pendingId w now truth receipt, e = .published pendingId w now truth receipt →
          w.User → lastAccepted w.control before = some w) ∧
        ∀ w place, e = .accepted w place →
          w ∈ (World.run host callbacks).unsent ∨ ∃ later ∈ after, later.Settles w)
        (World.run host callbacks).log ∧
      ∀ r, ((World.run host callbacks).requestPersistentWrite host r).1 = true ↔
        ∃ place rest, ((World.run host callbacks).requestPersistentWrite host r).2.log =
          (World.run host callbacks).log ++
            .accepted ((World.run host callbacks).ticketed r) place :: rest := by
  have hobeys : World.Obeys queuePolicy host callbacks := by
    intro before callback after _
    cases callback with
    | requestWrite r => exact (World.run_live host before).allows (World.run_sound host before) r
    | _ => exact trivial
  have hmoves := World.run_moves (queuePolicy_welcomes hreenter) hobeys
  obtain ⟨horderly, haccounted, hnewest⟩ := hmoves.invariant World.sound_initial
    World.queues_initial fun _ _ hs h hmove => h.move hs hmove
  refine ⟨horderly.bounded, horderly.nodup, horderly.replayed, ?_,
    World.request_returns host (World.run_sound host callbacks)⟩
  intro before e after hlog
  exact ⟨horderly.first before e after hlog, hnewest.current before e after hlog,
    haccounted before e after hlog⟩

/-- While the camera is switched on, the user asks for recording and then for none. -/
def switches : List World.Callback :=
  [.feederConnected, .agentComplete ⟨0, 1, .core, .reconcile⟩
      (.truth ⟨⟨⟨"1"⟩, ⟨[], []⟩, .ofRecords []⟩, nodup_nil⟩),
    .requestWrite (switchRequest "camera.enable" "camera_switch" "enabled"),
    .requestWrite (switchRequest "recording.enable" "video_record_switch" "enabled"),
    .requestWrite (switchRequest "recording.enable" "video_record_switch" "disabled")]

theorem write_queue_switches :
    (World.run steadyHost switches).queuedWrites.map (·.ticket) = [5] ∧
      (World.run steadyHost switches).queuedWrites =
        replay (World.run steadyHost switches).log := by
  obtain ⟨-, -, hreplay, -⟩ := write_queue steadyHost switches fun _ => rfl
  exact ⟨by decide +kernel, hreplay⟩

end PetlibroLocal
