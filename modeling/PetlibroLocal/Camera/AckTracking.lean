import PetlibroLocal.Lib.Spans
import PetlibroLocal.Lib.Prefix
import Mathlib.Data.Finset.Basic

/-!
# Receive Tracking for the Transport Acknowledgement

The camera keeps every AV packet in a resend queue until the client acknowledges it.
The client therefore tracks which sequence positions it has received: a contiguous
watermark, the disjoint ranges received above the first hole, and the highest position
seen (`recv.go`: `initACKTracking`, `markACKReceived`, `insertACKSeenLocked`). The table
of ranges is bounded by `maxACKSeenRanges`; a position that would need one range more is
refused and only counted (`ackTrackingOverflow`).

Positions are 64-bit counters in the source and `ℕ` here: the 16-bit wire counter is
unwrapped from a start below `2 ^ 17` and one datagram moves it by less than `2 ^ 15`, so
the model and the code agree on every position below `2 ^ 64 - 1`. The log timers
(`ackGapStarted`, `ackPendingWarn`) and the gauges that mirror a field are left out.
-/

namespace PetlibroLocal

open Span

/-- The bound on the NACK list of one report (`client.go`). -/
def maxTransportNACKs : ℕ := 256

/-- The bound on the number of disjoint receive ranges (`client.go`). -/
def maxACKSeenRanges : ℕ := 256

/-- One range of consecutive received positions. -/
abbrev AckSeenRange := Span

/-- The fields of the client guarded by `ackMu`, with the counters that
`markACKReceived` reports its outcome through. -/
structure AckTracking where
  ackReportedExt : ℕ
  ackWatermarkExt : ℕ
  ackHighExt : ℕ
  ackSeenRanges : List AckSeenRange
  ackSeenPending : ℕ
  reliableRecvACK : UInt16
  reliableRecvSet : Bool
  reliableSeen : Finset UInt16
  ackSendCount : UInt16
  ackDuplicateOrOld : ℕ
  ackTrackingOverflow : ℕ
  ackAdvanced : ℕ
  deriving DecidableEq

/-- The zero value of the tracking fields, as `Dial` leaves them. -/
def AckTracking.zero : AckTracking where
  ackReportedExt := 0
  ackWatermarkExt := 0
  ackHighExt := 0
  ackSeenRanges := []
  ackSeenPending := 0
  reliableRecvACK := 0
  reliableRecvSet := false
  reliableSeen := ∅
  ackSendCount := 0
  ackDuplicateOrOld := 0
  ackTrackingOverflow := 0
  ackAdvanced := 0

variable (c : AckTracking)

/-- `initACKTracking`: the bootstrap acknowledgement covered everything up to
`watermark`. -/
def AckTracking.initACKTracking (watermark : ℕ) : AckTracking :=
  { c with
    ackReportedExt := watermark
    ackWatermarkExt := watermark
    ackHighExt := watermark
    ackSeenRanges := []
    ackSeenPending := 0 }

/-! ### Insertion into the range table -/

/-- The outcome of `insertACKSeenLocked`: the pair `(inserted, duplicate)` of the source
together with the new table. -/
inductive AckInsertion
  | duplicate
  | overflow
  | inserted (ranges : List AckSeenRange)
  deriving DecidableEq

/-- Put back the ranges the scan has already passed. -/
def AckInsertion.behind (r : AckSeenRange) : AckInsertion → AckInsertion
  | .duplicate => .duplicate
  | .overflow => .overflow
  | .inserted ranges => .inserted (r :: ranges)

/-- Extend the range `r` to the right by one position; when that position was the whole
gap to the next range, the two ranges become one. -/
def extendRight (r : AckSeenRange) (subExt : ℕ) : List AckSeenRange → List AckSeenRange
  | [] => [⟨r.first, subExt⟩]
  | next :: rest =>
    if subExt + 1 = next.first then ⟨r.first, next.last⟩ :: rest
    else ⟨r.first, subExt⟩ :: next :: rest

/-- The scan of `insertACKSeenLocked` over the ranges not passed yet; `count` is the
length of the whole table, which the cap is checked against. -/
def insertACKSeenFrom (count subExt : ℕ) : List AckSeenRange → AckInsertion
  | [] => if maxACKSeenRanges ≤ count then .overflow else .inserted [⟨subExt, subExt⟩]
  | r :: rest =>
    if r.first ≤ subExt ∧ subExt ≤ r.last then .duplicate
    else if subExt + 1 = r.first then .inserted (⟨subExt, r.last⟩ :: rest)
    else if subExt = r.last + 1 then .inserted (extendRight r subExt rest)
    else if subExt < r.first then
      if maxACKSeenRanges ≤ count then .overflow
      else .inserted (⟨subExt, subExt⟩ :: r :: rest)
    else (insertACKSeenFrom count subExt rest).behind r

/-- `insertACKSeenLocked`: insert one position into the sorted range table. -/
def insertACKSeenLocked (ranges : List AckSeenRange) (subExt : ℕ) : AckInsertion :=
  insertACKSeenFrom ranges.length subExt ranges

/-! ### Receiving one position -/

/-- The loop of `markACKReceived` that moves the watermark over the ranges that have
become part of the contiguous prefix. The first component is `advanced`. -/
def absorbPrefix : ℕ → ℕ → List AckSeenRange → ℕ × ℕ × List AckSeenRange
  | advanced, watermark, [] => (advanced, watermark, [])
  | advanced, watermark, r :: rest =>
    if r.first = watermark + 1 then
      absorbPrefix (advanced + (r.last - watermark)) r.last rest
    else (advanced, watermark, r :: rest)

/-- Record a position the table has taken in: count it as pending, then move the
watermark. -/
def AckTracking.recordInserted (ranges : List AckSeenRange) :
    AckTracking :=
  let (advanced, watermark, rest) := absorbPrefix 0 c.ackWatermarkExt ranges
  { c with
    ackWatermarkExt := watermark
    ackSeenRanges := rest
    ackSeenPending := c.ackSeenPending + 1 - advanced
    ackAdvanced := c.ackAdvanced + advanced }

/-- The high mark follows the highest position seen. -/
def AckTracking.raiseHigh (subExt : ℕ) : AckTracking :=
  if c.ackHighExt < subExt then { c with ackHighExt := subExt } else c

/-- `markACKReceived`: record one accepted AV datagram. -/
def AckTracking.markACKReceived (c₀ : AckTracking) (subExt : ℕ) : AckTracking :=
  let c := c₀.raiseHigh subExt
  if subExt ≤ c.ackWatermarkExt then
    { c with ackDuplicateOrOld := c.ackDuplicateOrOld + 1 }
  else
    match insertACKSeenLocked c.ackSeenRanges subExt with
    | .duplicate => { c with ackDuplicateOrOld := c.ackDuplicateOrOld + 1 }
    | .overflow => { c with ackTrackingOverflow := c.ackTrackingOverflow + 1 }
    | .inserted ranges => c.recordInserted ranges

/-! ### The insertion scan -/

/-- What a successful insertion does to a canonical table: the table stays canonical
(its bound drops to the new position if that is lower), it covers exactly one position
more, and it grows by one range only below the cap. -/
structure InsertedInto (count lo subExt : ℕ) (ranges ranges' : List AckSeenRange) :
    Prop where
  separated : Separated (min lo subExt) ranges'
  covers : ∀ p, Covers ranges' p ↔ p = subExt ∨ Covers ranges p
  fresh : ¬ Covers ranges subExt
  size : totalSize ranges' = totalSize ranges + 1
  length : ranges'.length ≤ ranges.length ∨
    (count < maxACKSeenRanges ∧ ranges'.length = ranges.length + 1)

variable {r : AckSeenRange} {rest ranges : List AckSeenRange} {count lo subExt : ℕ}
  {c : AckTracking}

theorem not_covers_of_lt {p : ℕ} (hrest : Separated (r.last + 2) rest) (hp : p < r.last + 2) :
    ¬ Covers rest p :=
  fun h => absurd (hrest.le_of_covers h) (by omega)

theorem InsertedInto.newRange (hsep : Separated lo (r :: rest)) (hlt : subExt + 1 < r.first)
    (hcap : count < maxACKSeenRanges) :
    InsertedInto count lo subExt (r :: rest) (⟨subExt, subExt⟩ :: r :: rest) := by
  obtain ⟨hlo, hne, hrest⟩ := hsep
  have hfresh : ¬ Covers (r :: rest) subExt := by
    rw [covers_cons, not_or]
    exact ⟨fun h => by have := h.1; omega, not_covers_of_lt hrest (by omega)⟩
  exact
    { separated := ⟨by simp, le_rfl, hlt, hne, hrest⟩
      covers := fun p => by rw [covers_cons, contains_single]
      fresh := hfresh
      size := by simp [Span.size]; omega
      length := .inr ⟨hcap, rfl⟩ }

theorem InsertedInto.extendLeft (hsep : Separated lo (r :: rest)) (hadj : subExt + 1 = r.first) :
    InsertedInto count lo subExt (r :: rest) (⟨subExt, r.last⟩ :: rest) := by
  obtain ⟨hlo, hne, hrest⟩ := hsep
  have hfresh : ¬ Covers (r :: rest) subExt := by
    rw [covers_cons, not_or]
    exact ⟨fun h => by have := h.1; omega, not_covers_of_lt hrest (by omega)⟩
  exact
    { separated := ⟨by simp, by simp; omega, hrest⟩
      covers := by
        intro p
        simp only [covers_cons, Span.Contains, ← or_assoc]
        exact or_congr_left (by omega)
      fresh := hfresh
      size := by simp only [totalSize_cons, Span.size]; omega
      length := .inl le_rfl }

/-- A position right above a range extends it to the right, and swallows the next range
when it closes the gap to it. -/
theorem InsertedInto.extendRight (hsep : Separated lo (r :: rest)) (hadj : subExt = r.last + 1) :
    InsertedInto count lo subExt (r :: rest) (extendRight r subExt rest) := by
  obtain ⟨hlo, hne, hrest⟩ := hsep
  have hfresh : ¬ Covers (r :: rest) subExt := by
    rw [covers_cons, not_or]
    exact ⟨fun h => by have := h.2; omega, not_covers_of_lt hrest (by omega)⟩
  cases rest with
  | nil =>
    exact
      { separated := ⟨by simp; omega, by simp; omega, trivial⟩
        covers := by intro p; simp [PetlibroLocal.extendRight, Span.Contains]; omega
        fresh := hfresh
        size := by simp [PetlibroLocal.extendRight, Span.size]; omega
        length := .inl le_rfl }
  | cons next rest =>
    obtain ⟨hnlo, hnne, hnrest⟩ := hrest
    by_cases hmerge : subExt + 1 = next.first
    · rw [PetlibroLocal.extendRight, if_pos hmerge]
      exact
        { separated := ⟨by simp; omega, by simp; omega, hnrest⟩
          covers := by
            intro p
            simp only [covers_cons, Span.Contains, ← or_assoc]
            exact or_congr_left (by omega)
          fresh := hfresh
          size := by simp only [totalSize_cons, Span.size]; omega
          length := .inl (by simp) }
    · rw [PetlibroLocal.extendRight, if_neg hmerge]
      exact
        { separated := ⟨by simp; omega, by simp; omega, by simp; omega, hnne, hnrest⟩
          covers := by
            intro p
            simp only [covers_cons, Span.Contains, ← or_assoc]
            exact or_congr_left (or_congr_left (by omega))
          fresh := hfresh
          size := by simp only [totalSize_cons, Span.size]; omega
          length := .inl le_rfl }

theorem InsertedInto.behind {count lo subExt : ℕ} {r : AckSeenRange}
    {rest rest' : List AckSeenRange} (hlo : lo ≤ r.first) (hne : r.first ≤ r.last)
    (hpast : r.last + 2 ≤ subExt)
    (h : InsertedInto count (r.last + 2) subExt rest rest') :
    InsertedInto count lo subExt (r :: rest) (r :: rest') where
  separated := ⟨by omega, hne, by simpa [Nat.min_eq_left hpast] using h.separated⟩
  covers p := by
    rw [covers_cons, covers_cons, h.covers]
    exact or_left_comm
  fresh := by
    rw [covers_cons, not_or]
    exact ⟨fun hr => by have := hr.2; omega, h.fresh⟩
  size := by
    rw [totalSize_cons, totalSize_cons, h.size]
    omega
  length := by
    have := h.length
    simp only [List.length_cons]
    omega

/-- **The insertion scan.** On a canonical table the scan reports a duplicate exactly
for a covered position, and inserts exactly the given position if it does not refuse. -/
theorem insertACKSeenFrom_spec (count subExt : ℕ) (hsep : Separated lo ranges) :
    match insertACKSeenFrom count subExt ranges with
    | .duplicate => Covers ranges subExt
    | .overflow => True
    | .inserted ranges' => InsertedInto count lo subExt ranges ranges' := by
  induction ranges generalizing lo with
  | nil =>
    rw [insertACKSeenFrom]
    by_cases hcap : maxACKSeenRanges ≤ count
    · rw [if_pos hcap]
      trivial
    · rw [if_neg hcap]
      exact
        { separated := by simp
          covers := fun p => by rw [covers_cons, contains_single]
          fresh := covers_nil _
          size := by simp [Span.size]
          length := .inr ⟨by omega, rfl⟩ }
  | cons r rest ih =>
    rw [insertACKSeenFrom]
    by_cases hin : r.first ≤ subExt ∧ subExt ≤ r.last
    · rw [if_pos hin]
      exact (covers_cons _ _ _).mpr (.inl hin)
    rw [if_neg hin]
    by_cases hleft : subExt + 1 = r.first
    · rw [if_pos hleft]
      exact .extendLeft hsep hleft
    rw [if_neg hleft]
    by_cases hright : subExt = r.last + 1
    · rw [if_pos hright]
      exact .extendRight hsep hright
    rw [if_neg hright]
    obtain ⟨hlo, hne, hrest⟩ := hsep
    by_cases hlt : subExt < r.first
    · rw [if_pos hlt]
      by_cases hcap : maxACKSeenRanges ≤ count
      · rw [if_pos hcap]
        trivial
      · rw [if_neg hcap]
        exact .newRange ⟨hlo, hne, hrest⟩ (by omega) (by omega)
    rw [if_neg hlt]
    have hpast : r.last + 2 ≤ subExt := by omega
    have := ih hrest
    cases hscan : insertACKSeenFrom count subExt rest with
    | duplicate =>
      rw [hscan] at this
      exact (covers_cons _ _ _).mpr (.inr this)
    | overflow => trivial
    | inserted ranges' =>
      rw [hscan] at this
      exact .behind hlo hne hpast this

/-- **When the scan refuses**: exactly at the cap, for a position that no range holds or
touches. -/
theorem insertACKSeenFrom_eq_overflow_iff (count subExt : ℕ) (hsep : Separated lo ranges) :
    insertACKSeenFrom count subExt ranges = .overflow ↔ maxACKSeenRanges ≤ count ∧
      ∀ r ∈ ranges, ¬ (r.first ≤ subExt + 1 ∧ subExt ≤ r.last + 1) := by
  induction ranges generalizing lo with
  | nil =>
    rw [insertACKSeenFrom]
    split_ifs with hcap
    · simp [hcap]
    · simp [hcap]
  | cons r rest ih =>
    obtain ⟨hlo, hne, hrest⟩ := hsep
    rw [insertACKSeenFrom, List.forall_mem_cons]
    split_ifs with hin hleft hright hlt hcap
    · exact iff_of_false (by simp) fun h => h.2.1 ⟨by omega, by omega⟩
    · exact iff_of_false (by simp) fun h => h.2.1 ⟨by omega, by omega⟩
    · exact iff_of_false (by simp) fun h => h.2.1 ⟨by omega, by omega⟩
    · -- the ranges behind start even further up
      refine iff_of_true rfl ⟨hcap, by omega, fun r' hr' => ?_⟩
      have := ((separated_iff.mp hrest).1 r' hr').1
      omega
    · exact iff_of_false (by simp) fun h => hcap h.1
    · have hr : ¬ (r.first ≤ subExt + 1 ∧ subExt ≤ r.last + 1) := by omega
      have hbehind : (insertACKSeenFrom count subExt rest).behind r = .overflow ↔
          insertACKSeenFrom count subExt rest = .overflow := by
        cases insertACKSeenFrom count subExt rest <;> simp [AckInsertion.behind]
      rw [hbehind, ih hrest]
      exact and_congr_right fun _ => (and_iff_right hr).symm

/-! ### The invariant of the tracker -/

/-- **The representation invariant**: the range table is canonical and lies strictly
above the first hole, its size is the pending counter, and the cap holds. -/
structure AckTracking.Inv (c : AckTracking) : Prop where
  separated : Separated (c.ackWatermarkExt + 2) c.ackSeenRanges
  pending : c.ackSeenPending = totalSize c.ackSeenRanges
  capped : c.ackSeenRanges.length ≤ maxACKSeenRanges
  watermark_le_high : c.ackWatermarkExt ≤ c.ackHighExt
  covers_le_high : ∀ p, Covers c.ackSeenRanges p → p ≤ c.ackHighExt

/-- The positions the tracker stands for: everything up to the watermark and everything
in the range table. -/
def AckTracking.Tracked (p : ℕ) : Prop :=
  p ≤ c.ackWatermarkExt ∨ Covers c.ackSeenRanges p

/-- A call of `markACKReceived` is refused when it only counts an overflow. -/
def AckTracking.Refuses (subExt : ℕ) : Prop :=
  (c.markACKReceived subExt).ackTrackingOverflow = c.ackTrackingOverflow + 1

instance (c : AckTracking) (subExt : ℕ) : Decidable (c.Refuses subExt) :=
  inferInstanceAs (Decidable (_ = _))

theorem AckTracking.inv_initACKTracking (watermark : ℕ) :
    (c.initACKTracking watermark).Inv where
  separated := trivial
  pending := rfl
  capped := Nat.zero_le _
  watermark_le_high := le_rfl
  covers_le_high p hp := absurd hp (covers_nil p)

theorem AckTracking.Inv.not_tracked_hole (h : c.Inv) : ¬ c.Tracked (c.ackWatermarkExt + 1) := by
  rintro (hle | hcov)
  · omega
  · have := h.separated.le_of_covers hcov
    omega

theorem absorbPrefix_of_separated {advanced watermark : ℕ} (h : Separated (watermark + 2) ranges) :
    absorbPrefix advanced watermark ranges = (advanced, watermark, ranges) := by
  cases ranges with
  | nil => rfl
  | cons r rest =>
    have hne : r.first ≠ watermark + 1 := by
      have := h.1
      omega
    rw [absorbPrefix, if_neg hne]

theorem absorbPrefix_of_first {watermark : ℕ} (hfirst : r.first = watermark + 1)
    (hrest : Separated (r.last + 2) rest) :
    absorbPrefix 0 watermark (r :: rest) = (r.last - watermark, r.last, rest) := by
  rw [absorbPrefix, if_pos hfirst, absorbPrefix_of_separated hrest, Nat.zero_add]

/-- What a call that is not refused does: the positions tracked afterwards are those
tracked before and the one received. -/
structure AckTracking.Recorded (c c' : AckTracking) (subExt : ℕ) : Prop where
  inv : c'.Inv
  tracked : ∀ p, c'.Tracked p ↔ p = subExt ∨ c.Tracked p
  watermark_le : c.ackWatermarkExt ≤ c'.ackWatermarkExt

theorem AckTracking.recordInserted_above (h : c.Inv) (hhigh : subExt ≤ c.ackHighExt)
    (habove : c.ackWatermarkExt + 2 ≤ subExt)
    (hins : InsertedInto c.ackSeenRanges.length (c.ackWatermarkExt + 2) subExt
      c.ackSeenRanges ranges) :
    c.Recorded (c.recordInserted ranges) subExt := by
  have hsep : Separated (c.ackWatermarkExt + 2) ranges := by
    simpa [Nat.min_eq_left habove] using hins.separated
  have habs : absorbPrefix 0 c.ackWatermarkExt ranges = (0, c.ackWatermarkExt, ranges) :=
    absorbPrefix_of_separated hsep
  have hlen := hins.length
  have hcap := h.capped
  refine ⟨⟨?_, ?_, ?_, ?_, ?_⟩, fun p => ?_, ?_⟩ <;>
    simp only [AckTracking.recordInserted, AckTracking.Tracked, habs, Nat.sub_zero, le_refl]
  · exact hsep
  · rw [h.pending, hins.size]
  · omega
  · exact h.watermark_le_high
  · intro p hp
    rcases (hins.covers p).mp hp with rfl | hp'
    · exact hhigh
    · exact h.covers_le_high p hp'
  · rw [hins.covers]
    exact or_left_comm

/-- The hole itself moves the watermark to the end of the first range of the new
table. -/
theorem AckTracking.recordInserted_hole (h : c.Inv) (hhigh : subExt ≤ c.ackHighExt)
    (hhole : subExt = c.ackWatermarkExt + 1)
    (hins : InsertedInto c.ackSeenRanges.length (c.ackWatermarkExt + 2) subExt
      c.ackSeenRanges ranges) :
    c.Recorded (c.recordInserted ranges) subExt := by
  subst hhole
  have hsep : Separated (c.ackWatermarkExt + 1) ranges := by
    simpa using hins.separated
  obtain ⟨r, rest, rfl, hfirst, hlast, hrest⟩ :=
    hsep.first_of_covers ((hins.covers _).mpr (.inl rfl))
  have habs : absorbPrefix 0 c.ackWatermarkExt (r :: rest) =
      (r.last - c.ackWatermarkExt, r.last, rest) := absorbPrefix_of_first hfirst hrest
  have hcovers : ∀ p, (r.Contains p ∨ Covers rest p) ↔
      p = c.ackWatermarkExt + 1 ∨ Covers c.ackSeenRanges p := by
    intro p
    rw [← covers_cons]
    exact hins.covers p
  have hle : ∀ p, r.Contains p ∨ Covers rest p → p ≤ c.ackHighExt := by
    intro p hp
    rcases (hcovers p).mp hp with rfl | hp'
    · exact hhigh
    · exact h.covers_le_high p hp'
  have hsize := hins.size
  have hlen := hins.length
  have hcap := h.capped
  rw [totalSize_cons, Span.size, hfirst, ← h.pending] at hsize
  rw [List.length_cons] at hlen
  refine ⟨⟨?_, ?_, ?_, ?_, ?_⟩, fun p => ?_, ?_⟩ <;>
    simp only [AckTracking.recordInserted, AckTracking.Tracked, habs]
  · exact hrest
  · omega
  · omega
  · exact hle _ (.inl ⟨by omega, le_rfl⟩)
  · exact fun p hp => hle p (.inr hp)
  · have hp := hcovers p
    simp only [Span.Contains] at hp
    constructor
    · rintro (hle' | hcov)
      · by_cases hw : p ≤ c.ackWatermarkExt
        · exact .inr (.inl hw)
        · exact (hp.mp (.inl ⟨by omega, hle'⟩)).imp id .inr
      · exact (hp.mp (.inr hcov)).imp id .inr
    · rintro (heq | hle' | hcov)
      · exact .inl (by omega)
      · exact .inl (by omega)
      · rcases hp.mpr (.inr hcov) with hr | hrest'
        · exact .inl hr.2
        · exact .inr hrest'
  · omega

/-! ### One call of `markACKReceived` -/

theorem AckTracking.raiseHigh_eq (subExt : ℕ) :
    c.raiseHigh subExt = { c with ackHighExt := max c.ackHighExt subExt } := by
  rw [AckTracking.raiseHigh]
  split_ifs with hlt
  · rw [Nat.max_eq_right (Nat.le_of_lt hlt)]
  · rw [Nat.max_eq_left (Nat.le_of_not_lt hlt)]

theorem AckTracking.Inv.raiseHigh (h : c.Inv) (subExt : ℕ) : (c.raiseHigh subExt).Inv := by
  rw [AckTracking.raiseHigh_eq]
  exact
    { separated := h.separated
      pending := h.pending
      capped := h.capped
      watermark_le_high := le_trans h.watermark_le_high (le_max_left _ _)
      covers_le_high := fun p hp => le_trans (h.covers_le_high p hp) (le_max_left _ _) }

/-- Inversion of one call: the position is old, already in the table, refused at the
cap, or recorded. -/
theorem AckTracking.markACKReceived_cases (subExt : ℕ) :
    ((subExt ≤ c.ackWatermarkExt ∨
        c.ackWatermarkExt < subExt ∧
          insertACKSeenLocked c.ackSeenRanges subExt = .duplicate) ∧
      c.markACKReceived subExt = { c.raiseHigh subExt with
        ackDuplicateOrOld := c.ackDuplicateOrOld + 1 }) ∨
    (c.ackWatermarkExt < subExt ∧
      insertACKSeenLocked c.ackSeenRanges subExt = .overflow ∧
      c.markACKReceived subExt = { c.raiseHigh subExt with
        ackTrackingOverflow := c.ackTrackingOverflow + 1 }) ∨
    (∃ ranges, c.ackWatermarkExt < subExt ∧
      insertACKSeenLocked c.ackSeenRanges subExt = .inserted ranges ∧
      c.markACKReceived subExt = (c.raiseHigh subExt).recordInserted ranges) := by
  simp only [AckTracking.markACKReceived, AckTracking.raiseHigh_eq]
  by_cases hold : subExt ≤ c.ackWatermarkExt
  · exact .inl ⟨.inl hold, if_pos hold⟩
  rw [if_neg hold]
  have habove : c.ackWatermarkExt < subExt := Nat.lt_of_not_le hold
  cases hins : insertACKSeenLocked c.ackSeenRanges subExt with
  | duplicate => exact .inl ⟨.inr ⟨habove, rfl⟩, rfl⟩
  | overflow => exact .inr (.inl ⟨habove, rfl, rfl⟩)
  | inserted ranges => exact .inr (.inr ⟨ranges, habove, rfl, rfl⟩)

theorem AckTracking.markACKReceived_reported (subExt : ℕ) :
    (c.markACKReceived subExt).ackReportedExt = c.ackReportedExt := by
  obtain ⟨-, heq⟩ | ⟨-, -, heq⟩ | ⟨ranges, -, -, heq⟩ := c.markACKReceived_cases subExt
  · rw [heq, AckTracking.raiseHigh_eq]
  · rw [heq, AckTracking.raiseHigh_eq]
  · rw [heq, AckTracking.raiseHigh_eq]
    rfl

theorem AckTracking.refuses_iff (subExt : ℕ) :
    c.Refuses subExt ↔ c.ackWatermarkExt < subExt ∧
      insertACKSeenLocked c.ackSeenRanges subExt = .overflow := by
  rw [AckTracking.Refuses]
  obtain ⟨hcase, heq⟩ | ⟨habove, hins, heq⟩ | ⟨ranges, habove, hins, heq⟩ :=
    c.markACKReceived_cases subExt
  · rw [heq, AckTracking.raiseHigh_eq]
    constructor
    · intro h
      simp only at h
      omega
    · rintro ⟨habove, hover⟩
      rcases hcase with hold | ⟨-, hdup⟩
      · omega
      · rw [hdup] at hover
        cases hover
  · rw [heq, AckTracking.raiseHigh_eq]
    exact ⟨fun _ => ⟨habove, hins⟩, fun _ => rfl⟩
  · rw [heq, AckTracking.raiseHigh_eq, hins]
    constructor
    · intro h
      simp only [AckTracking.recordInserted] at h
      omega
    · rintro ⟨-, hover⟩
      cases hover

/-- **When a call is refused**: for a position above the watermark, at the cap, that no
range holds or touches. -/
theorem AckTracking.Inv.refuses_iff (h : c.Inv) (subExt : ℕ) :
    c.Refuses subExt ↔ c.ackWatermarkExt < subExt ∧
      c.ackSeenRanges.length = maxACKSeenRanges ∧
      ∀ r ∈ c.ackSeenRanges, ¬ (r.first ≤ subExt + 1 ∧ subExt ≤ r.last + 1) := by
  rw [c.refuses_iff, insertACKSeenLocked, insertACKSeenFrom_eq_overflow_iff _ _ h.separated]
  exact and_congr_right fun _ => and_congr_left fun _ => h.capped.ge_iff_eq

/-- **A refused call** happens only at the cap, on a position that is not tracked, and
leaves watermark and table as they are. -/
theorem AckTracking.Refuses.spec (h : c.Inv) (href : c.Refuses subExt) :
    (c.markACKReceived subExt).Inv ∧ ¬ c.Tracked subExt ∧
      (c.markACKReceived subExt).ackWatermarkExt = c.ackWatermarkExt ∧
      (c.markACKReceived subExt).ackSeenRanges = c.ackSeenRanges := by
  obtain ⟨habove, -, hfree⟩ := (h.refuses_iff subExt).mp href
  have hover := ((c.refuses_iff subExt).mp href).2
  have hhigh := h.raiseHigh subExt
  obtain ⟨hcase, -⟩ | ⟨-, -, heq⟩ | ⟨ranges, -, hins, -⟩ := c.markACKReceived_cases subExt
  · rcases hcase with hold | ⟨-, hdup⟩
    · omega
    · rw [hdup] at hover
      cases hover
  · rw [heq]
    rw [AckTracking.raiseHigh_eq] at hhigh ⊢
    refine ⟨⟨hhigh.1, hhigh.2, hhigh.3, hhigh.4, hhigh.5⟩, ?_, rfl, rfl⟩
    rintro (hle | ⟨r, hr, hfirst, hlast⟩)
    · omega
    · exact hfree r hr ⟨by omega, by omega⟩
  · rw [hins] at hover
    cases hover

/-- **A call that is not refused** keeps the invariant and records exactly its
position. -/
theorem AckTracking.recorded_of_not_refuses (h : c.Inv) (href : ¬ c.Refuses subExt) :
    c.Recorded (c.markACKReceived subExt) subExt := by
  have hspec := insertACKSeenFrom_spec c.ackSeenRanges.length subExt h.separated
  rw [← insertACKSeenLocked] at hspec
  have hhigh := h.raiseHigh subExt
  obtain ⟨hcase, heq⟩ | ⟨habove, hover, -⟩ | ⟨ranges, habove, hins, heq⟩ :=
    c.markACKReceived_cases subExt
  · -- an old or duplicate position was tracked before
    have htracked : c.Tracked subExt := by
      rcases hcase with hold | ⟨-, hdup⟩
      · exact .inl hold
      · rw [hdup] at hspec
        exact .inr hspec
    rw [heq]
    rw [AckTracking.raiseHigh_eq] at hhigh ⊢
    refine ⟨⟨hhigh.1, hhigh.2, hhigh.3, hhigh.4, hhigh.5⟩, fun p => ?_, le_rfl⟩
    constructor
    · exact .inr
    · rintro (rfl | hp)
      · exact htracked
      · exact hp
  · exact absurd ((c.refuses_iff subExt).mpr ⟨habove, hover⟩) href
  · rw [hins] at hspec
    rw [heq]
    have hle : subExt ≤ (c.raiseHigh subExt).ackHighExt := by
      rw [AckTracking.raiseHigh_eq]
      exact le_max_right _ _
    have hins' : InsertedInto (c.raiseHigh subExt).ackSeenRanges.length
        ((c.raiseHigh subExt).ackWatermarkExt + 2) subExt
        (c.raiseHigh subExt).ackSeenRanges ranges := by
      rw [AckTracking.raiseHigh_eq]
      exact hspec
    have hwm : (c.raiseHigh subExt).ackWatermarkExt = c.ackWatermarkExt := by
      rw [AckTracking.raiseHigh_eq]
    have htr : ∀ p, (c.raiseHigh subExt).Tracked p ↔ c.Tracked p := by
      intro p
      rw [AckTracking.raiseHigh_eq]
      rfl
    have hrec : (c.raiseHigh subExt).Recorded
        ((c.raiseHigh subExt).recordInserted ranges) subExt := by
      rcases Nat.lt_or_ge subExt (c.ackWatermarkExt + 2) with hlow | hfar
      · exact AckTracking.recordInserted_hole hhigh hle (by omega) hins'
      · exact AckTracking.recordInserted_above hhigh hle (by omega) hins'
    exact ⟨hrec.inv, fun p => by rw [hrec.tracked, htr], hwm ▸ hrec.watermark_le⟩

/-- One call keeps the invariant. -/
theorem AckTracking.Inv.markACKReceived (h : c.Inv) (subExt : ℕ) :
    (c.markACKReceived subExt).Inv := by
  by_cases href : c.Refuses subExt
  · exact (href.spec h).1
  · exact (AckTracking.recorded_of_not_refuses h href).inv

end PetlibroLocal
