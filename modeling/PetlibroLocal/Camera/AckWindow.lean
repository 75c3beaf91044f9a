import PetlibroLocal.Camera.AckTracking
import PetlibroLocal.Lib.Bytes
import PetlibroLocal.Lib.Serial

/-!
# The Transport Acknowledgement

A type-`0x09` report acknowledges every AV position in `(base, high]` that it does not
list as missing (`recv.go`: `ackWindowLocked`, `nextTransportACK`,
`markTransportACKSent`; `templates.go`: `transportACK.marshal`). Base and high are sent
as 16-bit wire values and a missing position as its offset from base, so the window is
cut at a span of `0xffff`; the NACK list holds 256 offsets, and when it is full the
window ends right before the first hole that cannot be listed.

The camera's side is `readReport` and `Retires`: it reads the fields at their offsets
and drops every position of the window that is not listed from its resend queue.
-/

namespace PetlibroLocal

open Span Serial List

/-! ### Building a report -/

/-- The window of one report. -/
structure AckWindow where
  baseExt : ℕ
  highExt : ℕ
  contiguousExt : ℕ
  missing : List UInt16
  seenPending : ℕ
  deriving DecidableEq, Repr

/-- The type-`0x09` receive report. -/
structure TransportACK where
  ordinal : UInt16
  avBase : UInt16
  avHigh : UInt16
  reliableRecvACK : UInt16
  missing : List UInt16
  state : UInt16
  sendCount : UInt16
  tick : UInt16
  deriving DecidableEq, Repr

/-- The wire limit on the span of a window. -/
def cutSpan (baseExt highExt : ℕ) : ℕ :=
  if 0xffff < highExt - baseExt then baseExt + 0xffff else highExt

/-- Whether the first of the remaining ranges contains `seq`. -/
def seenFirst (seq : ℕ) : List AckSeenRange → Bool
  | [] => false
  | r :: _ => decide (r.first ≤ seq ∧ seq ≤ r.last)

/-- The loop of `ackWindowLocked` over `seq`, with `n` iterations left. `ranges` are the
ranges from `rangeIndex` on; the result is the final `highExt` and the missing list. -/
def ackWindowScan (watermark baseExt highExt : ℕ) :
    ℕ → ℕ → List AckSeenRange → List UInt16 → ℕ × List UInt16
  | 0, _, _, missing => (highExt, missing)
  | n + 1, seq, ranges, missing =>
    if seq ≤ watermark then
      ackWindowScan watermark baseExt highExt n (seq + 1) ranges missing
    else
      let rest := ranges.dropWhile fun r => r.last < seq
      if seenFirst seq rest then
        ackWindowScan watermark baseExt highExt n (seq + 1) rest missing
      else if missing.length = maxTransportNACKs then
        -- no room for this hole: the window ends right before it
        (seq - 1, missing)
      else
        ackWindowScan watermark baseExt highExt n (seq + 1) rest
          (missing ++ [low16 (seq - baseExt)])

/-- `ackWindowLocked`: a complete description of `(base, high]`. -/
def AckTracking.ackWindowLocked (c : AckTracking) : AckWindow :=
  let highExt := cutSpan c.ackReportedExt c.ackHighExt
  let (high, missing) := ackWindowScan c.ackWatermarkExt c.ackReportedExt highExt
    (highExt - c.ackReportedExt) (c.ackReportedExt + 1) c.ackSeenRanges []
  { baseExt := c.ackReportedExt
    highExt := high
    contiguousExt := c.ackWatermarkExt
    missing := missing
    seenPending := c.ackSeenPending }

/-- `transportACKLocked`: fill in a report and count it. -/
def AckTracking.transportACKLocked (c : AckTracking) (ordinal base high : UInt16)
    (missing : List UInt16) (tick : UInt16) : TransportACK × AckTracking :=
  ({ ordinal := ordinal
     avBase := base
     avHigh := high
     reliableRecvACK := c.reliableRecvACK
     missing := missing
     state := 0
     sendCount := c.ackSendCount
     tick := tick },
    { c with ackSendCount := c.ackSendCount + 1 })

/-- `nextTransportACK`: build the next periodic report together with its window. -/
def AckTracking.nextTransportACK (c : AckTracking) (ordinal tick : UInt16) :
    TransportACK × AckWindow × AckTracking :=
  let w := c.ackWindowLocked
  let (a, c') := c.transportACKLocked ordinal (low16 w.baseExt) (low16 w.highExt)
    w.missing tick
  (a, w, c')

/-- `markTransportACKSent`: commit the contiguous position that a successfully written
report represents. -/
def AckTracking.markTransportACKSent (c : AckTracking) (w : AckWindow) : AckTracking :=
  let reported := if w.highExt < w.contiguousExt then w.highExt else w.contiguousExt
  if c.ackReportedExt < reported then { c with ackReportedExt := reported } else c

/-- `transportACK.marshal`: the wire form. The 22 header bytes are followed by the
missing offsets; a report without offsets is padded to 24 bytes. -/
def TransportACK.marshal (a : TransportACK) : Bytes :=
  [0x09, 0x00, 0x0c, 0x00] ++ putUint16 a.ordinal ++ [0x00, 0x00] ++
    putUint16 a.avBase ++ putUint16 a.avHigh ++ putUint16 a.reliableRecvACK ++
    putUint16 (low16 a.missing.length) ++ putUint16 a.state ++ putUint16 a.sendCount ++
    putUint16 a.tick ++ a.missing.flatMap putUint16 ++
    if a.missing.isEmpty then [0x00, 0x00] else []

/-! ### The window -/

/-- **A faithful window**: over `(base, high]` a position is listed as missing exactly
when it is not `seen`, and nothing else is listed. The span fits the 16-bit offsets and
the list fits the NACK array. -/
structure WindowOf (seen : ℕ → Prop) (base high : ℕ) (missing : List UInt16) : Prop where
  base_le : base ≤ high
  span : high ≤ base + 0xffff
  listed : ∀ p, base < p → p ≤ high → (low16 (p - base) ∈ missing ↔ ¬ seen p)
  offset : ∀ v ∈ missing, ∃ p, base < p ∧ p ≤ high ∧ v = low16 (p - base)
  room : missing.length ≤ maxTransportNACKs

theorem WindowOf.empty (seen : ℕ → Prop) (base : ℕ) : WindowOf seen base base [] where
  base_le := le_rfl
  span := by omega
  listed p hlt hle := by omega
  offset v hv := absurd hv not_mem_nil
  room := Nat.zero_le _

theorem low16_offset_inj {base p q : ℕ} (hp : base < p ∧ p ≤ base + 0xffff)
    (hq : base < q ∧ q ≤ base + 0xffff) (h : low16 (p - base) = low16 (q - base)) :
    p = q := by
  have := low16_inj_of_near 0 (n := p - base) (m := q - base) (by omega) (by omega) h
  omega

theorem WindowOf.seen {seen : ℕ → Prop} {base high : ℕ} {missing : List UInt16}
    (h : WindowOf seen base high missing) (hspan : high + 1 ≤ base + 0xffff)
    (hseen : seen (high + 1)) : WindowOf seen base (high + 1) missing where
  base_le := Nat.le_succ_of_le h.base_le
  span := hspan
  listed p hlt hle := by
    rcases Nat.lt_or_ge high p with habove | hin
    · obtain rfl : p = high + 1 := by omega
      refine iff_of_false (fun hmem => ?_) (not_not_intro hseen)
      obtain ⟨q, hq, hqle, heq⟩ := h.offset _ hmem
      have := low16_offset_inj (by omega) ⟨hq, by omega⟩ heq
      omega
    · exact h.listed p hlt hin
  offset v hv := by
    obtain ⟨p, hlt, hle, rfl⟩ := h.offset v hv
    exact ⟨p, hlt, by omega, rfl⟩
  room := h.room

theorem WindowOf.hole {seen : ℕ → Prop} {base high : ℕ} {missing : List UInt16}
    (h : WindowOf seen base high missing) (hspan : high + 1 ≤ base + 0xffff)
    (hhole : ¬ seen (high + 1)) (hroom : missing.length ≠ maxTransportNACKs) :
    WindowOf seen base (high + 1) (missing ++ [low16 (high + 1 - base)]) where
  base_le := Nat.le_succ_of_le h.base_le
  span := hspan
  listed p hlt hle := by
    rw [mem_append, mem_singleton]
    rcases Nat.lt_or_ge high p with habove | hin
    · obtain rfl : p = high + 1 := by omega
      exact iff_of_true (.inr rfl) hhole
    · rw [← h.listed p hlt hin, or_iff_left]
      intro heq
      have := low16_offset_inj ⟨hlt, by omega⟩ (by omega) heq
      omega
  offset v hv := by
    rcases mem_append.mp hv with hold | hnew
    · obtain ⟨p, hlt, hle, rfl⟩ := h.offset v hold
      exact ⟨p, hlt, by omega, rfl⟩
    · have := h.base_le
      exact ⟨high + 1, by omega, le_rfl, mem_singleton.mp hnew⟩
  room := by
    have := h.room
    rw [length_append, length_singleton]
    omega

theorem seenFirst_dropWhile {lo : ℕ} {ranges : List AckSeenRange}
    (hsep : Separated lo ranges) (seq : ℕ) :
    seenFirst seq (ranges.dropWhile fun r => r.last < seq) = true ↔ Covers ranges seq := by
  rw [← covers_dropWhile ranges (le_refl seq)]
  have hrest := hsep.dropWhile seq
  cases hdrop : ranges.dropWhile (fun r => r.last < seq) with
  | nil => simp [seenFirst]
  | cons r rest =>
    rw [hdrop] at hrest
    have hpast : ¬ r.last < seq := by
      have := List.head?_dropWhile_not (fun r : AckSeenRange => decide (r.last < seq)) ranges
      simpa [hdrop] using this
    have hnot : ¬ Covers rest seq := not_covers_of_lt hrest.2.2 (by omega)
    rw [covers_cons, or_iff_left hnot, seenFirst, decide_eq_true_iff]
    rfl

/-- **The window loop.** Entered with a faithful window up to `high`, the loop returns a
faithful window that ends at `highExt`, or right before a hole that a full list cannot
take. -/
theorem ackWindowScan_spec (watermark : ℕ) {base highExt lo : ℕ} {seen : ℕ → Prop}
    (hspan : highExt ≤ base + 0xffff) (n high : ℕ) (ranges : List AckSeenRange)
    (missing : List UInt16) (hn : high + n = highExt) (hsep : Separated lo ranges)
    (hseen : ∀ p, high < p → (seen p ↔ p ≤ watermark ∨ Covers ranges p))
    (hwin : WindowOf seen base high missing) :
    let out := ackWindowScan watermark base highExt n (high + 1) ranges missing
    WindowOf seen base out.1 out.2 ∧ out.1 ≤ highExt ∧
      (out.1 = highExt ∨ out.2.length = maxTransportNACKs ∧ ¬ seen (out.1 + 1)) := by
  induction n generalizing high ranges missing with
  | zero =>
    obtain rfl : high = highExt := hn
    exact ⟨hwin, le_rfl, .inl rfl⟩
  | succ n ih =>
    rw [ackWindowScan]
    have hnext := hseen (high + 1) (by omega)
    have hdrop : ∀ p, high + 1 < p → (seen p ↔ p ≤ watermark ∨
        Covers (ranges.dropWhile fun r => r.last < high + 1) p) := by
      intro p hp
      rw [covers_dropWhile ranges (by omega)]
      exact hseen p (by omega)
    by_cases hwm : high + 1 ≤ watermark
    · rw [if_pos hwm]
      exact ih (high + 1) ranges missing (by omega) hsep (fun p hp => hseen p (by omega))
        (hwin.seen (by omega) (hnext.mpr (.inl hwm)))
    rw [if_neg hwm]
    have hcov : seen (high + 1) ↔
        seenFirst (high + 1) (ranges.dropWhile fun r => r.last < high + 1) = true := by
      rw [hnext, or_iff_right hwm, seenFirst_dropWhile hsep]
    by_cases hfirst :
        seenFirst (high + 1) (ranges.dropWhile fun r => r.last < high + 1) = true
    · rw [if_pos hfirst]
      exact ih (high + 1) _ missing (by omega) (hsep.dropWhile _) hdrop
        (hwin.seen (by omega) (hcov.mpr hfirst))
    rw [if_neg hfirst]
    have hhole : ¬ seen (high + 1) := fun h => hfirst (hcov.mp h)
    by_cases hfull : missing.length = maxTransportNACKs
    · rw [if_pos hfull]
      exact ⟨hwin, by simp only [Nat.add_sub_cancel]; omega, .inr ⟨hfull, hhole⟩⟩
    · rw [if_neg hfull]
      exact ih (high + 1) _ _ (by omega) (hsep.dropWhile _) hdrop
        (hwin.hole (by omega) hhole hfull)

/-- **The window of a report** is faithful to the tracker: it starts at the reported
base, ends at the high mark unless one of the two wire limits cuts it, and lists exactly
the untracked positions in between. -/
theorem AckTracking.Inv.ackWindowLocked_spec {c : AckTracking} (h : c.Inv)
    (hle : c.ackReportedExt ≤ c.ackHighExt) :
    let w := c.ackWindowLocked
    WindowOf c.Tracked w.baseExt w.highExt w.missing ∧ w.highExt ≤ c.ackHighExt ∧
      (w.highExt = cutSpan w.baseExt c.ackHighExt ∨
        w.missing.length = maxTransportNACKs ∧ ¬ c.Tracked (w.highExt + 1)) := by
  have hcut : c.ackReportedExt ≤ cutSpan c.ackReportedExt c.ackHighExt ∧
      cutSpan c.ackReportedExt c.ackHighExt ≤ c.ackReportedExt + 0xffff ∧
      cutSpan c.ackReportedExt c.ackHighExt ≤ c.ackHighExt := by
    rw [cutSpan]
    split_ifs <;> omega
  obtain ⟨hwin, hhigh, hend⟩ := ackWindowScan_spec c.ackWatermarkExt
    hcut.2.1 (cutSpan c.ackReportedExt c.ackHighExt - c.ackReportedExt)
    c.ackReportedExt c.ackSeenRanges [] (by omega) h.separated (fun p _ => Iff.rfl)
    (WindowOf.empty c.Tracked c.ackReportedExt)
  exact ⟨hwin, Nat.le_trans hhigh hcut.2.2, hend⟩

/-! ### The camera's reading of a report -/

/-- What the camera reads from a report. -/
structure ReceiveReport where
  avBase : UInt16
  avHigh : UInt16
  missing : List UInt16
  deriving DecidableEq, Repr

/-- The camera reads base, high and the counted missing offsets. -/
def readReport (b : Bytes) : ReceiveReport where
  avBase := uint16At b 8
  avHigh := uint16At b 10
  missing := (List.range (uint16At b 14).toNat).map fun i => uint16At b (22 + 2 * i)

/-- The camera retires position `p` on the report `b`, whose base it knows as the
extended position `baseExt`: `p` is `baseExt + k` for an offset `k` of the window that
the report does not list. -/
def Retires (b : Bytes) (baseExt p : ℕ) : Prop :=
  ∃ k, 1 ≤ k ∧ k ≤ ((readReport b).avHigh - (readReport b).avBase).toNat ∧
    low16 k ∉ (readReport b).missing ∧ p = baseExt + k

theorem uint16At_marshal (a : TransportACK) :
    uint16At a.marshal 8 = a.avBase ∧ uint16At a.marshal 10 = a.avHigh ∧
      uint16At a.marshal 14 = low16 a.missing.length := by
  refine ⟨?_, ?_, ?_⟩ <;>
    simp only [TransportACK.marshal, append_assoc, uint16At_append_right,
      uint16At_putUint16, length_putUint16, length_cons, length_nil,
      Nat.reduceAdd, Nat.reduceSub, Nat.reduceLeDiff]

theorem uint16At_marshal_missing (a : TransportACK) (i : ℕ) (hi : i < a.missing.length) :
    uint16At a.marshal (22 + 2 * i) = a.missing[i] := by
  obtain ⟨header, hlen, heq⟩ : ∃ header : Bytes, header.length = 22 ∧
      a.marshal = header ++ (a.missing.flatMap putUint16 ++
        if a.missing.isEmpty then [0x00, 0x00] else []) := by
    refine ⟨_, ?_, by rw [TransportACK.marshal, append_assoc]⟩
    simp only [length_append, length_putUint16, length_cons, length_nil]
  rw [heq, uint16At_append_right (by omega), hlen, Nat.add_sub_cancel_left,
    uint16At_flatMap a.missing _ i hi]

/-- **The camera reads back the window that was marshalled.** -/
theorem readReport_marshal (a : TransportACK) (hlen : a.missing.length < 65536) :
    readReport a.marshal = ⟨a.avBase, a.avHigh, a.missing⟩ := by
  obtain ⟨hbase, hhigh, hcount⟩ := uint16At_marshal a
  have hmissing : (List.range a.missing.length).map
      (fun i => uint16At a.marshal (22 + 2 * i)) = a.missing := by
    refine ext_getElem (by simp) fun i hi hi' => ?_
    rw [getElem_map, getElem_range, uint16At_marshal_missing a i hi']
  rw [readReport, hbase, hhigh, hcount, low16_toNat, Nat.mod_eq_of_lt hlen, hmissing]

/-- A report describes its window: what the camera retires lies in the window and is not
listed there. -/
theorem AckTracking.retires_nextTransportACK {c : AckTracking} (h : c.Inv)
    (hle : c.ackReportedExt ≤ c.ackHighExt) {ordinal tick : UInt16} {p : ℕ} :
    let (a, w, _) := c.nextTransportACK ordinal tick
    Retires a.marshal w.baseExt p ↔
      w.baseExt < p ∧ p ≤ w.highExt ∧ low16 (p - w.baseExt) ∉ w.missing := by
  obtain ⟨hwin, -, -⟩ := h.ackWindowLocked_spec hle
  have hroom : c.ackWindowLocked.missing.length < 65536 := Nat.lt_of_le_of_lt hwin.room (by decide)
  have hspan : (low16 c.ackWindowLocked.highExt - low16 c.ackWindowLocked.baseExt).toNat =
      c.ackWindowLocked.highExt - c.ackWindowLocked.baseExt :=
    sub_toNat_of_le hwin.base_le (Nat.lt_succ_of_le hwin.span)
  simp only [AckTracking.nextTransportACK, AckTracking.transportACKLocked, Retires]
  rw [readReport_marshal _ hroom]
  simp only [hspan]
  constructor
  · rintro ⟨k, hk, hkle, hnot, rfl⟩
    rw [Nat.add_sub_cancel_left]
    exact ⟨by omega, by omega, hnot⟩
  · rintro ⟨hlt, hple, hnot⟩
    exact ⟨p - c.ackWindowLocked.baseExt, by omega, by omega, hnot, by omega⟩

/-- **A report retires tracked positions only.** -/
theorem AckTracking.tracked_of_retires {c : AckTracking} (h : c.Inv)
    (hle : c.ackReportedExt ≤ c.ackHighExt) {ordinal tick : UInt16} {p : ℕ} :
    let (a, w, _) := c.nextTransportACK ordinal tick
    Retires a.marshal w.baseExt p → c.Tracked p := by
  intro hret
  obtain ⟨hlt, hple, hnot⟩ := (c.retires_nextTransportACK h hle).mp hret
  obtain ⟨hwin, -, -⟩ := h.ackWindowLocked_spec hle
  by_contra hhole
  exact hnot ((hwin.listed p hlt hple).mpr hhole)

/-- Committing a window moves the reported base to the contiguous end of the window, if
that is ahead, and touches nothing else. -/
theorem AckTracking.markTransportACKSent_eq (c : AckTracking) (w : AckWindow) :
    c.markTransportACKSent w = { c with
      ackReportedExt := max c.ackReportedExt (min w.contiguousExt w.highExt) } := by
  have hmin : (if w.highExt < w.contiguousExt then w.highExt else w.contiguousExt) =
      min w.contiguousExt w.highExt := by
    rw [Nat.min_def]
    split_ifs <;> omega
  rw [AckTracking.markTransportACKSent]
  simp only [hmin]
  split_ifs with hlt
  · rw [Nat.max_eq_right (Nat.le_of_lt hlt)]
  · rw [Nat.max_eq_left (Nat.le_of_not_lt hlt)]

end PetlibroLocal
