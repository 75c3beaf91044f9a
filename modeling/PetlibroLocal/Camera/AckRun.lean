import PetlibroLocal.Camera.AckWindow
import Mathlib.Logic.Relation

/-!
# The Acknowledgement Protocol over Whole Runs

Three parties touch the ACK state: the receiver records datagrams, the maintenance loop
builds reports, and a report commits its window after its send has succeeded
(`recv.go`: `maintenanceLoop`). The calls interleave in any order; a window may be
committed late, after newer ones, or more than once, and a report whose send failed is
never committed. `AckRun.Step` is one call, and the run keeps the list of calls made so
far, so that a result can refer to what happened before a report was built.

The main results are `retired_was_received` and `committed_was_acknowledged`.
-/

namespace PetlibroLocal

open Span Serial List

/-- One call on the ACK state. -/
inductive AckEvent
  | received (subExt : ℕ)
  | built (a : TransportACK) (w : AckWindow)
  | sent (w : AckWindow)
  deriving DecidableEq

/-- The ACK state with the calls made so far, oldest first. -/
structure AckRun where
  client : AckTracking
  events : List AckEvent

/-- **One call.** Any position may be received, a report may be built at any time, and
any window built so far may be committed. -/
inductive AckRun.Step (σ : AckRun) : AckRun → Prop
  | received (subExt : ℕ) :
      Step σ ⟨σ.client.markACKReceived subExt, σ.events ++ [.received subExt]⟩
  | built (ordinal tick : UInt16) :
      Step σ ⟨(σ.client.nextTransportACK ordinal tick).2.2,
        σ.events ++ [.built (σ.client.nextTransportACK ordinal tick).1
          (σ.client.nextTransportACK ordinal tick).2.1]⟩
  | sent (a : TransportACK) (w : AckWindow) (hbuilt : .built a w ∈ σ.events) :
      Step σ ⟨σ.client.markTransportACKSent w, σ.events ++ [.sent w]⟩

/-- The runs that start with `initACKTracking w0`. -/
def AckRun.Reaches (c₀ : AckTracking) (w0 : ℕ) (σ : AckRun) : Prop :=
  Relation.ReflTransGen AckRun.Step ⟨c₀.initACKTracking w0, []⟩ σ

/-! ### The run invariant -/

/-- A window that was built: it starts at or below the base reported now, and does not
list what was contiguous when it was built. -/
structure AckTracking.Commits (c : AckTracking) (w : AckWindow) : Prop where
  base_le : w.baseExt ≤ c.ackReportedExt
  contiguous_le : w.contiguousExt ≤ c.ackWatermarkExt
  positive : ∀ p, w.baseExt < p → p ≤ min w.contiguousExt w.highExt →
    low16 (p - w.baseExt) ∉ w.missing

/-- **The run invariant.** -/
structure AckRun.Inv (σ : AckRun) (w0 : ℕ) : Prop where
  tracker : σ.client.Inv
  start_le : w0 ≤ σ.client.ackReportedExt
  reported_le : σ.client.ackReportedExt ≤ σ.client.ackWatermarkExt
  tracked : ∀ p, σ.client.Tracked p → p ≤ w0 ∨ .received p ∈ σ.events
  commits : ∀ a w, .built a w ∈ σ.events → σ.client.Commits w
  retired : ∀ pre a w post, σ.events = pre ++ .built a w :: post →
    ∀ p, Retires a.marshal w.baseExt p → p ≤ w0 ∨ .received p ∈ pre
  committed : ∀ p, w0 < p → p ≤ σ.client.ackReportedExt →
    ∃ a w, .built a w ∈ σ.events ∧ .sent w ∈ σ.events ∧ w.baseExt < p ∧
      p ≤ w.highExt ∧ low16 (p - w.baseExt) ∉ w.missing

/-- Where a given event of an extended log stands: in the old log, or it is the new
one. -/
theorem events_concat {events pre post : List AckEvent} {e x : AckEvent}
    (h : events ++ [e] = pre ++ x :: post) :
    (∃ post', events = pre ++ x :: post') ∨ events = pre ∧ e = x := by
  rcases post.eq_nil_or_concat with rfl | ⟨post', y, rfl⟩
  · obtain ⟨rfl, hx⟩ := append_inj' h rfl
    exact .inr ⟨rfl, head_eq_of_cons_eq hx⟩
  · rw [concat_eq_append, ← cons_append, ← append_assoc] at h
    exact .inl ⟨post', (append_inj' h rfl).1⟩

theorem AckTracking.Commits.mono {c c' : AckTracking} {w : AckWindow} (h : c.Commits w)
    (hreported : c.ackReportedExt ≤ c'.ackReportedExt)
    (hwatermark : c.ackWatermarkExt ≤ c'.ackWatermarkExt) : c'.Commits w where
  base_le := Nat.le_trans h.base_le hreported
  contiguous_le := Nat.le_trans h.contiguous_le hwatermark
  positive := h.positive

/-- Receiving never moves the watermark back, and what is tracked afterwards was tracked
before or is the position received. -/
theorem AckTracking.Inv.markACKReceived_sound {c : AckTracking} (h : c.Inv) (subExt : ℕ) :
    c.ackWatermarkExt ≤ (c.markACKReceived subExt).ackWatermarkExt ∧
      ∀ p, (c.markACKReceived subExt).Tracked p → p = subExt ∨ c.Tracked p := by
  by_cases href : c.Refuses subExt
  · obtain ⟨-, -, hwm, hranges⟩ := href.spec h
    refine ⟨hwm.ge, fun p hp => .inr ?_⟩
    simpa only [AckTracking.Tracked, hwm, hranges] using hp
  · have hrec := AckTracking.recorded_of_not_refuses h href
    exact ⟨hrec.watermark_le, fun p => (hrec.tracked p).mp⟩

theorem AckRun.inv_init (c₀ : AckTracking) (w0 : ℕ) :
    (⟨c₀.initACKTracking w0, []⟩ : AckRun).Inv w0 where
  tracker := c₀.inv_initACKTracking w0
  start_le := le_rfl
  reported_le := le_rfl
  tracked p hp := by
    simpa [AckTracking.Tracked, AckTracking.initACKTracking] using hp
  commits a w hw := absurd hw not_mem_nil
  retired pre a w post h := by simp at h
  committed p hlt hle := by
    simp only [AckTracking.initACKTracking] at hle
    omega

variable {σ : AckRun} {w0 : ℕ}

theorem AckRun.Inv.received (h : σ.Inv w0) (subExt : ℕ) :
    AckRun.Inv ⟨σ.client.markACKReceived subExt, σ.events ++ [.received subExt]⟩ w0 := by
  obtain ⟨hwm, htracked⟩ := h.tracker.markACKReceived_sound subExt
  have hrep := σ.client.markACKReceived_reported subExt
  refine
    { tracker := h.tracker.markACKReceived subExt
      start_le := hrep ▸ h.start_le
      reported_le := hrep ▸ Nat.le_trans h.reported_le hwm
      tracked := fun p hp => ?_
      commits := fun a w hw => ?_
      retired := fun pre a w post hev => ?_
      committed := fun p hlt hle => ?_ }
  · rcases htracked p hp with rfl | hold
    · exact .inr (by simp)
    · exact (h.tracked p hold).imp_right (mem_append_left _)
  · have hmem : .built a w ∈ σ.events := by simpa using hw
    exact (h.commits a w hmem).mono hrep.ge hwm
  · rcases events_concat hev with ⟨post', heq⟩ | ⟨-, hx⟩
    · exact h.retired pre a w post' heq
    · cases hx
  · obtain ⟨a, w, hbuilt, hsent, hrest⟩ := h.committed p hlt (hrep ▸ hle)
    exact ⟨a, w, mem_append_left _ hbuilt, mem_append_left _ hsent, hrest⟩

/-- Building a report keeps the invariant: the report retires only positions received
before, and its window lists nothing that is contiguous. -/
theorem AckRun.Inv.built (h : σ.Inv w0) (ordinal tick : UInt16) :
    AckRun.Inv ⟨(σ.client.nextTransportACK ordinal tick).2.2,
      σ.events ++ [.built (σ.client.nextTransportACK ordinal tick).1
        (σ.client.nextTransportACK ordinal tick).2.1]⟩ w0 := by
  have hhigh : σ.client.ackReportedExt ≤ σ.client.ackHighExt :=
    Nat.le_trans h.reported_le h.tracker.watermark_le_high
  obtain ⟨hwin, -, -⟩ := h.tracker.ackWindowLocked_spec hhigh
  refine
    { tracker := ⟨h.tracker.1, h.tracker.2, h.tracker.3, h.tracker.4, h.tracker.5⟩
      start_le := h.start_le
      reported_le := h.reported_le
      tracked := fun p hp => ?_
      commits := fun a w hw => ?_
      retired := fun pre a w post hev p hret => ?_
      committed := fun p hlt hle => ?_ }
  · exact (h.tracked p hp).imp_right (mem_append_left _)
  · rcases mem_append.mp hw with hold | hnew
    · exact (h.commits a w hold).mono le_rfl le_rfl
    · obtain ⟨-, rfl⟩ := AckEvent.built.inj (mem_singleton.mp hnew)
      refine ⟨le_rfl, le_rfl, fun p hlt hle hlisted => ?_⟩
      obtain ⟨hcont, hph⟩ := Nat.le_min.mp hle
      exact (hwin.listed p hlt hph).mp hlisted (.inl hcont)
  · rcases events_concat hev with ⟨post', heq⟩ | ⟨rfl, hx⟩
    · exact h.retired pre a w post' heq p hret
    · obtain ⟨rfl, rfl⟩ := AckEvent.built.inj hx
      exact h.tracked p (σ.client.tracked_of_retires h.tracker hhigh hret)
  · obtain ⟨a, w, hbuilt, hsent, hrest⟩ := h.committed p hlt hle
    exact ⟨a, w, mem_append_left _ hbuilt, mem_append_left _ hsent, hrest⟩

/-- Committing a window built earlier keeps the invariant: the positions it moves the
base over are the ones its report acknowledged. -/
theorem AckRun.Inv.sent {σ : AckRun} {w0 : ℕ} (h : σ.Inv w0) {a : TransportACK}
    {w : AckWindow} (hbuilt : .built a w ∈ σ.events) :
    AckRun.Inv ⟨σ.client.markTransportACKSent w, σ.events ++ [.sent w]⟩ w0 := by
  have hcommits := h.commits a w hbuilt
  have hcont := hcommits.contiguous_le
  have hrep := h.reported_le
  rw [AckTracking.markTransportACKSent_eq]
  refine
    { tracker := ⟨h.tracker.1, h.tracker.2, h.tracker.3, h.tracker.4, h.tracker.5⟩
      start_le := Nat.le_trans h.start_le (Nat.le_max_left _ _)
      reported_le := by simp only; omega
      tracked := fun p hp => (h.tracked p hp).imp_right (mem_append_left _)
      commits := fun a' w' hw => ?_
      retired := fun pre a' w' post hev => ?_
      committed := fun p hlt hle => ?_ }
  · have hmem : .built a' w' ∈ σ.events := by simpa using hw
    exact (h.commits a' w' hmem).mono (Nat.le_max_left _ _) le_rfl
  · rcases events_concat hev with ⟨post', heq⟩ | ⟨-, hx⟩
    · exact h.retired pre a' w' post' heq
    · cases hx
  · rcases Nat.lt_or_ge σ.client.ackReportedExt p with hnew | hold
    · -- newly committed: above the old base, hence above the base of the window
      have hbase := hcommits.base_le
      have hend : p ≤ min w.contiguousExt w.highExt := by
        simp only at hle
        omega
      exact ⟨a, w, mem_append_left _ hbuilt, by simp, by omega, by omega,
        hcommits.positive p (by omega) hend⟩
    · obtain ⟨a', w', hb, hs, hrest⟩ := h.committed p hlt hold
      exact ⟨a', w', mem_append_left _ hb, mem_append_left _ hs, hrest⟩

theorem AckRun.Inv.step {σ' : AckRun} (h : σ.Inv w0) (hstep : σ.Step σ') : σ'.Inv w0 := by
  cases hstep with
  | received subExt => exact h.received subExt
  | built ordinal tick => exact h.built ordinal tick
  | sent a w hbuilt => exact h.sent hbuilt

theorem AckRun.Reaches.inv {c₀ : AckTracking} (h : AckRun.Reaches c₀ w0 σ) : σ.Inv w0 := by
  induction h with
  | refl => exact AckRun.inv_init c₀ w0
  | tail _ hstep ih => exact ih.step hstep

theorem AckRun.Step.reported_le {σ' : AckRun} (hstep : σ.Step σ') :
    σ.client.ackReportedExt ≤ σ'.client.ackReportedExt := by
  cases hstep with
  | received subExt => exact (σ.client.markACKReceived_reported subExt).ge
  | built ordinal tick => exact le_rfl
  | sent a w hbuilt =>
    rw [AckTracking.markTransportACKSent_eq]
    exact Nat.le_max_left _ _

/-! ### Safety of acknowledgements -/

/-- **No position is acknowledged that was not received.** In any run from
`initACKTracking w0`, whatever the camera retires on the bytes of a report is at or
below `w0` or was received before that report was built. -/
theorem retired_was_received {c₀ : AckTracking} {w0 : ℕ} {σ : AckRun}
    (hreach : AckRun.Reaches c₀ w0 σ) {pre post : List AckEvent} {a : TransportACK}
    {w : AckWindow} (hbuilt : σ.events = pre ++ .built a w :: post) {p : ℕ}
    (hret : Retires a.marshal w.baseExt p) : p ≤ w0 ∨ .received p ∈ pre :=
  hreach.inv.retired pre a w post hbuilt p hret

/-- A report whose base and high mark lie on the two sides of the 16-bit wrap: `65536` is
listed as missing, `65537` is retired. -/
theorem retired_was_received_across_wrap :
    let c := (AckTracking.zero.initACKTracking 65535).markACKReceived 65537
    let (a, w, _) := c.nextTransportACK 1 7
    a.avBase = 65535 ∧ a.avHigh = 1 ∧ a.missing = [1] ∧
      Retires a.marshal w.baseExt 65537 ∧
      (65537 ≤ 65535 ∨ .received 65537 ∈ [AckEvent.received 65537]) := by
  intro c
  have hret : Retires (c.nextTransportACK 1 7).1.marshal
      (c.nextTransportACK 1 7).2.1.baseExt 65537 :=
    ⟨2, by decide, by decide, by decide, by decide⟩
  refine ⟨by decide, by decide, by decide, hret, ?_⟩
  have hreceived : AckRun.Reaches AckTracking.zero 65535 ⟨c, [.received 65537]⟩ :=
    Relation.ReflTransGen.refl.tail (.received 65537)
  have hreach := hreceived.tail (.built 1 7)
  exact retired_was_received hreach rfl hret

/-- **Every committed position was positively acknowledged.** The reported base stays
between `w0` and the watermark and no call moves it back; and each position above `w0`
that it has passed lies in a window that was built, sent and did not list it. -/
theorem committed_was_acknowledged {c₀ : AckTracking} {w0 : ℕ} {σ : AckRun}
    (hreach : AckRun.Reaches c₀ w0 σ) :
    w0 ≤ σ.client.ackReportedExt ∧
      σ.client.ackReportedExt ≤ σ.client.ackWatermarkExt ∧
      (∀ σ', Relation.ReflTransGen AckRun.Step σ σ' →
        σ.client.ackReportedExt ≤ σ'.client.ackReportedExt) ∧
      ∀ p, w0 < p → p ≤ σ.client.ackReportedExt →
        ∃ a w, .built a w ∈ σ.events ∧ .sent w ∈ σ.events ∧ w.baseExt < p ∧
          p ≤ w.highExt ∧ low16 (p - w.baseExt) ∉ w.missing := by
  have hinv := hreach.inv
  refine ⟨hinv.start_le, hinv.reported_le, fun σ' hrun => ?_, hinv.committed⟩
  induction hrun with
  | refl => exact le_rfl
  | tail _ hstep ih => exact Nat.le_trans ih hstep.reported_le

/-- A report is built and sent; the base it commits is the position it acknowledged. -/
theorem committed_was_acknowledged_once :
    ∃ σ, AckRun.Reaches AckTracking.zero 65535 σ ∧ σ.client.ackReportedExt = 65536 ∧
      ∃ a w, .built a w ∈ σ.events ∧ .sent w ∈ σ.events ∧ w.baseExt < 65536 ∧
        65536 ≤ w.highExt ∧ low16 (65536 - w.baseExt) ∉ w.missing := by
  have hbuilt : AckRun.Reaches AckTracking.zero 65535 _ :=
    (Relation.ReflTransGen.refl.tail (AckRun.Step.received 65536)).tail (.built 1 7)
  have hreach : AckRun.Reaches AckTracking.zero 65535 _ :=
    hbuilt.tail (.sent _ _ (mem_append_right _ (mem_singleton.mpr rfl)))
  refine ⟨_, hreach, by decide, ?_⟩
  exact (committed_was_acknowledged hreach).2.2.2 65536 (by decide) (by decide)

end PetlibroLocal
