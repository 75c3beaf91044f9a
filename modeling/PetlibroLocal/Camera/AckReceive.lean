import PetlibroLocal.Camera.AckTracking
import Mathlib.Data.List.Induction

/-!
# Whole Receive Runs of the ACK Tracker

`markACKReceived` is called once for every accepted AV datagram, in whatever order the
network delivers them. This module follows the tracker over a whole run, next to the
ghost set of positions that were refused at the range cap and have not been received
again since (`ReceiveRun`).

The main results are `receiveRun_canonical`, `hole_progress_iff` and
`hole_refused_at_cap`.
-/

namespace PetlibroLocal

open Span List

/-- The tracker with the ghost set of positions refused at the cap and not received
again since. -/
structure ReceiveRun where
  client : AckTracking
  refused : Finset ℕ

/-- Receive one position: a refusal enters the ghost set, any other call leaves it. -/
def ReceiveRun.receive (σ : ReceiveRun) (subExt : ℕ) : ReceiveRun where
  client := σ.client.markACKReceived subExt
  refused :=
    if σ.client.Refuses subExt then insert subExt σ.refused else σ.refused.erase subExt

/-- The run that starts with `initACKTracking w0` and receives `positions` in order. -/
def receiveRun (c₀ : AckTracking) (w0 : ℕ) (positions : List ℕ) : ReceiveRun :=
  positions.foldl ReceiveRun.receive ⟨c₀.initACKTracking w0, ∅⟩

theorem receiveRun_client (c₀ : AckTracking) (w0 : ℕ) (positions : List ℕ) :
    (receiveRun c₀ w0 positions).client =
      positions.foldl AckTracking.markACKReceived (c₀.initACKTracking w0) := by
  induction positions using List.reverseRecOn with
  | nil => rfl
  | append_singleton positions subExt ih =>
    simp only [receiveRun, foldl_append, foldl_cons, foldl_nil] at ih ⊢
    rw [ReceiveRun.receive, ih]

theorem receiveRun_concat (c₀ : AckTracking) (w0 : ℕ) (positions : List ℕ) (subExt : ℕ) :
    receiveRun c₀ w0 (positions ++ [subExt]) =
      (receiveRun c₀ w0 positions).receive subExt := by
  simp only [receiveRun, foldl_append, foldl_cons, foldl_nil]

/-- **The run invariant**: besides the invariant of the tracker, what is tracked above
`w0` is what was received and is not refused. -/
structure ReceiveRun.Inv (σ : ReceiveRun) (w0 : ℕ) (positions : List ℕ) : Prop where
  tracker : σ.client.Inv
  start_le : w0 ≤ σ.client.ackWatermarkExt
  tracked : ∀ p, σ.client.Tracked p ↔ p ≤ w0 ∨ (p ∈ positions ∧ p ∉ σ.refused)
  refused_above : ∀ p ∈ σ.refused, w0 < p ∧ p ∈ positions

theorem ReceiveRun.Inv.receive {σ : ReceiveRun} {w0 : ℕ} {positions : List ℕ}
    (h : σ.Inv w0 positions) (subExt : ℕ) :
    (σ.receive subExt).Inv w0 (positions ++ [subExt]) := by
  by_cases href : σ.client.Refuses subExt
  · -- refused: the table is unchanged, the position joins the ghost set
    obtain ⟨hinv, hnot, hwm, hranges⟩ := href.spec h.tracker
    have hab : ¬ subExt ≤ w0 := fun hle => hnot ((h.tracked subExt).mpr (.inl hle))
    have htr : ∀ p, (σ.client.markACKReceived subExt).Tracked p ↔ σ.client.Tracked p := by
      intro p
      simp only [AckTracking.Tracked, hwm, hranges]
    refine ⟨hinv, ?_, fun p => ?_, fun p hp => ?_⟩
    · simpa only [ReceiveRun.receive, hwm] using h.start_le
    · simp only [ReceiveRun.receive, if_pos href, htr, h.tracked, mem_append,
        mem_singleton, Finset.mem_insert, not_or]
      constructor
      · rintro (hle | ⟨hmem, hnr⟩)
        · exact .inl hle
        · refine .inr ⟨.inl hmem, ?_, hnr⟩
          rintro rfl
          exact hnot ((h.tracked p).mpr (.inr ⟨hmem, hnr⟩))
      · rintro (hle | ⟨hmem, hne, hnr⟩)
        · exact .inl hle
        · exact .inr ⟨hmem.resolve_right hne, hnr⟩
    · simp only [ReceiveRun.receive, if_pos href, Finset.mem_insert] at hp
      rcases hp with rfl | hp
      · exact ⟨by omega, by simp⟩
      · exact ⟨(h.refused_above p hp).1, by simp [(h.refused_above p hp).2]⟩
  · -- recorded: exactly this position is tracked in addition
    have hrec := AckTracking.recorded_of_not_refuses h.tracker href
    refine ⟨hrec.inv, le_trans h.start_le hrec.watermark_le, fun p => ?_, fun p hp => ?_⟩
    · simp only [ReceiveRun.receive, if_neg href, hrec.tracked, h.tracked,
        mem_append, mem_singleton, Finset.mem_erase, not_and]
      by_cases heq : p = subExt
      · simp [heq]
      · simp [heq]
    · simp only [ReceiveRun.receive, if_neg href, Finset.mem_erase] at hp
      exact ⟨(h.refused_above p hp.2).1, by simp [(h.refused_above p hp.2).2]⟩

theorem receiveRun_inv (c₀ : AckTracking) (w0 : ℕ) (positions : List ℕ) :
    (receiveRun c₀ w0 positions).Inv w0 positions := by
  induction positions using List.reverseRecOn with
  | nil =>
    exact
      { tracker := c₀.inv_initACKTracking w0
        start_le := le_rfl
        tracked := fun p => by
          simp [receiveRun, AckTracking.Tracked, AckTracking.initACKTracking]
        refused_above := fun p hp => by simp [receiveRun] at hp }
  | append_singleton positions subExt ih =>
    rw [receiveRun_concat]
    exact ih.receive subExt

/-- **The receive ranges are canonical after every run**: sorted and pairwise disjoint
with at least one missing position between neighbours, above the first hole, at most
256 of them, none empty; the pending counter is the number of positions in them; a position
is refused exactly when it is above the watermark, there are 256 ranges and none of them
holds or touches it; and the positions above `w0` up to the watermark together with the
ranges are exactly the received positions above `w0` minus those refused and not received
again since. -/
theorem receiveRun_canonical (c₀ : AckTracking) (w0 : ℕ) (positions : List ℕ) :
    let σ := receiveRun c₀ w0 positions
    let c := positions.foldl AckTracking.markACKReceived (c₀.initACKTracking w0)
    c.ackSeenRanges.Pairwise (fun a b => a.last + 2 ≤ b.first) ∧
      (∀ r ∈ c.ackSeenRanges, c.ackWatermarkExt + 2 ≤ r.first ∧ r.first ≤ r.last) ∧
      c.ackSeenRanges.length ≤ 256 ∧
      c.ackSeenPending = (c.ackSeenRanges.map fun r => r.last + 1 - r.first).sum ∧
      c.ackWatermarkExt ≤ c.ackHighExt ∧
      (∀ earlier subExt, earlier ++ [subExt] <+: positions →
        let d := (receiveRun c₀ w0 earlier).client
        (d.Refuses subExt ↔ d.ackWatermarkExt < subExt ∧ d.ackSeenRanges.length = 256 ∧
          ∀ r ∈ d.ackSeenRanges, ¬ (r.first ≤ subExt + 1 ∧ subExt ≤ r.last + 1))) ∧
      ∀ p, ((w0 < p ∧ p ≤ c.ackWatermarkExt) ∨
          ∃ r ∈ c.ackSeenRanges, r.first ≤ p ∧ p ≤ r.last) ↔
        w0 < p ∧ p ∈ positions ∧ p ∉ σ.refused := by
  intro σ c
  have hrun : σ.Inv w0 positions := receiveRun_inv c₀ w0 positions
  have hc : σ.client = c := receiveRun_client c₀ w0 positions
  have hinv : c.Inv := hc ▸ hrun.tracker
  have hstart : w0 ≤ c.ackWatermarkExt := hc ▸ hrun.start_le
  obtain ⟨hbound, hpw⟩ := separated_iff.mp hinv.separated
  have hrefuses : ∀ earlier subExt, earlier ++ [subExt] <+: positions → _ :=
    fun earlier subExt _ => (receiveRun_inv c₀ w0 earlier).tracker.refuses_iff subExt
  refine ⟨hpw, hbound, hinv.capped, hinv.pending, hinv.watermark_le_high, hrefuses, fun p => ?_⟩
  have htracked := hrun.tracked p
  rw [hc] at htracked
  have hcov : Covers c.ackSeenRanges p → w0 < p := by
    intro hp
    have := hinv.separated.le_of_covers hp
    omega
  change ((w0 < p ∧ p ≤ c.ackWatermarkExt) ∨ Covers c.ackSeenRanges p) ↔ _
  constructor
  · rintro (⟨hlt, hle⟩ | hp)
    · exact ⟨hlt, (htracked.mp (.inl hle)).resolve_left (by omega)⟩
    · have := hcov hp
      exact ⟨this, (htracked.mp (.inr hp)).resolve_left (by omega)⟩
  · rintro ⟨hlt, hmem⟩
    rcases htracked.mpr (.inr hmem) with hle | hp
    · exact .inl ⟨hlt, hle⟩
    · exact .inr hp

/-! ### Progress at the lowest hole -/

/-- Receiving the lowest missing position needs no range beyond the cap: the table has
room, or the position is adjacent to the first range. -/
def AckTracking.HoleFits (c : AckTracking) : Prop :=
  c.ackSeenRanges.length < maxACKSeenRanges ∨
    ∃ r, c.ackSeenRanges.head? = some r ∧ r.first = c.ackWatermarkExt + 2

/-- The end of the run that receiving the lowest missing position closes. -/
def AckTracking.closedEnd (c : AckTracking) : ℕ :=
  match c.ackSeenRanges with
  | [] => c.ackWatermarkExt + 1
  | r :: _ => if r.first = c.ackWatermarkExt + 2 then r.last else c.ackWatermarkExt + 1

theorem AckTracking.Inv.isPrefixEnd {c : AckTracking} (h : c.Inv) {n₀ : ℕ}
    (hle : n₀ ≤ c.ackWatermarkExt) :
    IsPrefixEnd {p | c.Tracked p} n₀ c.ackWatermarkExt :=
  isPrefixEnd_iff.mpr ⟨hle, fun _ _ hm => .inl hm, h.not_tracked_hole⟩

theorem AckTracking.Inv.isPrefixEnd_closedEnd {c : AckTracking} (h : c.Inv) :
    IsPrefixEnd {p | p = c.ackWatermarkExt + 1 ∨ c.Tracked p} c.ackWatermarkExt
      c.closedEnd := by
  have hsep := h.separated
  rw [isPrefixEnd_iff, AckTracking.closedEnd]
  simp only [Set.mem_ofPred_eq, AckTracking.Tracked]
  cases hranges : c.ackSeenRanges with
  | nil =>
    refine ⟨by simp, fun m hm hle => ?_, ?_⟩
    · simp only at hle
      exact .inl (by omega)
    · simp only [covers_nil, or_false]
      omega
  | cons r rest =>
    rw [hranges] at hsep
    obtain ⟨hlo, hne, hrest⟩ := hsep
    by_cases hadj : r.first = c.ackWatermarkExt + 2
    · simp only [if_pos hadj]
      refine ⟨by omega, fun m hm hle => ?_, ?_⟩
      · rcases Nat.lt_or_ge m r.first with hlt | hge
        · exact .inl (by omega)
        · exact .inr (.inr ((covers_cons _ _ _).mpr (.inl ⟨hge, hle⟩)))
      · rintro (heq | hle | hcov)
        · omega
        · omega
        · rcases (covers_cons _ _ _).mp hcov with hr | hcov'
          · have := hr.2
            omega
          · exact not_covers_of_lt hrest (by omega) hcov'
    · simp only [if_neg hadj]
      refine ⟨by omega, fun m hm hle => .inl (by omega), ?_⟩
      rintro (heq | hle | hcov)
      · omega
      · omega
      · have hfirst : Separated r.first (r :: rest) := ⟨le_rfl, hne, hrest⟩
        have := hfirst.le_of_covers hcov
        omega

theorem AckTracking.Inv.refuses_hole_iff {c : AckTracking} (h : c.Inv) :
    c.Refuses (c.ackWatermarkExt + 1) ↔ ¬ c.HoleFits := by
  obtain ⟨hbound, hpw⟩ := separated_iff.mp h.separated
  rw [h.refuses_iff, AckTracking.HoleFits, not_or]
  constructor
  · rintro ⟨-, hlen, hfree⟩
    refine ⟨by omega, ?_⟩
    rintro ⟨r, hhead, hfirst⟩
    have hr : r ∈ c.ackSeenRanges := mem_of_mem_head? hhead
    exact hfree r hr ⟨by omega, by have := (hbound r hr).2; omega⟩
  · rintro ⟨hroom, hhead⟩
    refine ⟨Nat.lt_succ_self _, le_antisymm h.capped (by omega), fun r hr htouch => hhead ?_⟩
    -- only the first range can touch the hole
    have hlo := (hbound r hr).1
    cases hranges : c.ackSeenRanges with
    | nil => simp [hranges] at hr
    | cons first rest =>
      rw [hranges] at hr hpw hbound
      rcases mem_cons.mp hr with rfl | hr
      · exact ⟨r, rfl, by omega⟩
      · have hgap := (pairwise_cons.mp hpw).1 r hr
        have hfirst := hbound first mem_cons_self
        omega

theorem AckTracking.Inv.watermark_of_holeFits {c : AckTracking} (h : c.Inv)
    (hfits : c.HoleFits) :
    c.Recorded (c.markACKReceived (c.ackWatermarkExt + 1)) (c.ackWatermarkExt + 1) ∧
      (c.markACKReceived (c.ackWatermarkExt + 1)).ackWatermarkExt = c.closedEnd := by
  have href : ¬ c.Refuses (c.ackWatermarkExt + 1) := by
    rw [h.refuses_hole_iff]
    exact not_not_intro hfits
  have hrec := AckTracking.recorded_of_not_refuses h href
  refine ⟨hrec, IsGreatest.unique (hrec.inv.isPrefixEnd hrec.watermark_le) ?_⟩
  have hset : {p | (c.markACKReceived (c.ackWatermarkExt + 1)).Tracked p} =
      {p | p = c.ackWatermarkExt + 1 ∨ c.Tracked p} := by
    ext p
    exact hrec.tracked p
  rw [hset]
  exact h.isPrefixEnd_closedEnd

/-- **Progress at the hole.** After any run, receiving the lowest missing position moves
the watermark forward to the end of the contiguous received prefix exactly when the
position fits the table (there is a free range, or the first range starts right behind
the hole) and the position behind the run it closes is not one that was refused at the
cap earlier and not received again since. -/
theorem hole_progress_iff (c₀ : AckTracking) (w0 : ℕ) (positions : List ℕ) :
    let σ := receiveRun c₀ w0 positions
    let c := positions.foldl AckTracking.markACKReceived (c₀.initACKTracking w0)
    let c' := c.markACKReceived (c.ackWatermarkExt + 1)
    (c.ackWatermarkExt < c'.ackWatermarkExt ∧
        IsPrefixEnd {p | p ∈ positions ++ [c.ackWatermarkExt + 1]} w0 c'.ackWatermarkExt) ↔
      c.HoleFits ∧ c.closedEnd + 1 ∉ σ.refused := by
  intro σ c c'
  have hrun : σ.Inv w0 positions := receiveRun_inv c₀ w0 positions
  have hc : σ.client = c := receiveRun_client c₀ w0 positions
  have hinv : c.Inv := hc ▸ hrun.tracker
  have hstart : w0 ≤ c.ackWatermarkExt := hc ▸ hrun.start_le
  have htracked : ∀ p, c.Tracked p ↔ p ≤ w0 ∨ p ∈ positions ∧ p ∉ σ.refused :=
    fun p => hc ▸ hrun.tracked p
  by_cases hfits : c.HoleFits
  · obtain ⟨hrec, hend⟩ := hinv.watermark_of_holeFits hfits
    have hclosed : IsPrefixEnd {p | p = c.ackWatermarkExt + 1 ∨ c.Tracked p}
        c.ackWatermarkExt c.closedEnd := hinv.isPrefixEnd_closedEnd
    obtain ⟨hge, hall, hbreak⟩ := isPrefixEnd_iff.mp hclosed
    have hlt : c.ackWatermarkExt < c.closedEnd := by
      refine lt_of_le_of_ne hge fun heq => hbreak ?_
      exact .inl (by rw [← heq])
    rw [Set.mem_ofPred_eq, not_or, htracked] at hbreak
    rw [isPrefixEnd_iff]
    simp only [c', hend, hfits, true_and, Set.mem_ofPred_eq, mem_append, mem_singleton]
    constructor
    · rintro ⟨-, -, -, hnot⟩ href
      exact hnot (.inl (hrun.refused_above _ href).2)
    · intro hnr
      refine ⟨hlt, by omega, fun m hm hle => ?_, ?_⟩
      · rcases Nat.lt_or_ge c.ackWatermarkExt m with habove | hbelow
        · rcases hall m habove hle with heq | htr
          · exact .inr heq
          · exact .inl ((htracked m).mp htr |>.resolve_left (by omega)).1
        · exact .inl ((htracked m).mp (.inl hbelow) |>.resolve_left (by omega)).1
      · rintro (hmem | heq)
        · exact hbreak.2 (.inr ⟨hmem, hnr⟩)
        · exact hbreak.1 heq
  · have href : c.Refuses (c.ackWatermarkExt + 1) := hinv.refuses_hole_iff.mpr hfits
    obtain ⟨-, -, hwm, -⟩ := href.spec hinv
    constructor
    · rintro ⟨hlt, -⟩
      rw [hwm] at hlt
      exact absurd hlt (lt_irrefl _)
    · rintro ⟨hf, -⟩
      exact absurd hf hfits

/-- A position above every range and not adjacent to the last one opens a new range at
the end of the table. -/
theorem insertACKSeenFrom_last {count subExt : ℕ} {ranges : List AckSeenRange}
    (habove : ∀ r ∈ ranges, r.first ≤ r.last ∧ r.last + 1 < subExt)
    (hroom : count < maxACKSeenRanges) :
    insertACKSeenFrom count subExt ranges = .inserted (ranges ++ [⟨subExt, subExt⟩]) := by
  induction ranges with
  | nil => rw [insertACKSeenFrom, if_neg (by omega), nil_append]
  | cons r rest ih =>
    obtain ⟨hne, hlast⟩ := habove r mem_cons_self
    have hrest := ih fun q hq => habove q (mem_cons_of_mem r hq)
    rw [insertACKSeenFrom, if_neg (by omega), if_neg (by omega), if_neg (by omega),
      if_neg (by omega), hrest]
    rfl

/-- The first `n` of the isolated positions `3, 5, 7, …` above the hole `1, 2`. -/
def isolatedPositions (n : ℕ) : List ℕ := (List.range n).map fun i => 2 * i + 3

theorem receive_isolatedPositions (c₀ : AckTracking) {n : ℕ} (hn : n ≤ maxACKSeenRanges) :
    let c := (isolatedPositions n).foldl AckTracking.markACKReceived (c₀.initACKTracking 0)
    c.ackWatermarkExt = 0 ∧
      c.ackSeenRanges = (List.range n).map fun i => ⟨2 * i + 3, 2 * i + 3⟩ := by
  induction n with
  | zero => exact ⟨rfl, rfl⟩
  | succ n ih =>
    obtain ⟨hwm, hranges⟩ := ih (by omega)
    simp only [isolatedPositions, range_succ, map_append, map_cons,
      map_nil, foldl_append, foldl_cons, foldl_nil] at hwm hranges ⊢
    generalize ((List.range n).map fun i => 2 * i + 3).foldl AckTracking.markACKReceived
      (c₀.initACKTracking 0) = c at hwm hranges ⊢
    have habove : ∀ r ∈ c.ackSeenRanges, r.first ≤ r.last ∧ r.last + 1 < 2 * n + 3 := by
      intro r hr
      rw [hranges, mem_map] at hr
      obtain ⟨i, hi, rfl⟩ := hr
      have := mem_range.mp hi
      exact ⟨le_rfl, by simp only; omega⟩
    have hroom : c.ackSeenRanges.length < maxACKSeenRanges := by
      rw [hranges, length_map, length_range]
      omega
    have hins : insertACKSeenLocked c.ackSeenRanges (2 * n + 3) =
        .inserted (c.ackSeenRanges ++ [⟨2 * n + 3, 2 * n + 3⟩]) :=
      insertACKSeenFrom_last habove hroom
    obtain ⟨hcase, -⟩ | ⟨-, hover, -⟩ | ⟨ranges, -, hins', heq⟩ :=
      c.markACKReceived_cases (2 * n + 3)
    · rcases hcase with hold | ⟨-, hdup⟩
      · omega
      · rw [hins] at hdup
        cases hdup
    · rw [hins] at hover
      cases hover
    · rw [hins] at hins'
      cases hins'
      have habs : absorbPrefix 0 0 (c.ackSeenRanges ++ [⟨2 * n + 3, 2 * n + 3⟩]) =
          (0, 0, c.ackSeenRanges ++ [⟨2 * n + 3, 2 * n + 3⟩]) := by
        rw [hranges]
        cases n with
        | zero => rfl
        | succ n => rw [range_succ_eq_map]; rfl
      rw [heq, AckTracking.raiseHigh_eq]
      simp only [AckTracking.recordInserted, hwm, habs]
      exact ⟨trivial, by rw [hranges]⟩

/-- **The hole is refused at the cap.** After 256 isolated positions the watermark is
still `0`, and receiving the lowest missing position `1` leaves it there. -/
theorem hole_refused_at_cap :
    let c := (isolatedPositions 256).foldl AckTracking.markACKReceived
      (AckTracking.zero.initACKTracking 0)
    c.ackWatermarkExt = 0 ∧ c.ackSeenRanges.length = 256 ∧
      ¬ c.ackWatermarkExt < (c.markACKReceived (c.ackWatermarkExt + 1)).ackWatermarkExt := by
  intro c
  obtain ⟨hwm, hranges⟩ := receive_isolatedPositions AckTracking.zero (n := 256) le_rfl
  have hinv : c.Inv := by
    have hrun := receiveRun_inv .zero 0 (isolatedPositions 256)
    rw [show c = _ from (receiveRun_client .zero 0 (isolatedPositions 256)).symm]
    exact hrun.tracker
  have hlen : c.ackSeenRanges.length = 256 := by
    rw [hranges, length_map, length_range]
  have href : c.Refuses (c.ackWatermarkExt + 1) := by
    rw [hinv.refuses_hole_iff]
    rintro (hroom | ⟨r, hhead, hfirst⟩)
    · exact absurd hroom (by rw [hlen]; exact lt_irrefl _)
    · rw [hranges, range_succ_eq_map] at hhead
      cases hhead
      rw [hwm] at hfirst
      cases hfirst
  refine ⟨hwm, hlen, ?_⟩
  rw [(href.spec hinv).2.2.1]
  exact lt_irrefl _

end PetlibroLocal
