import PetlibroLocal.Camera.AckTracking
import PetlibroLocal.Lib.Serial
import Mathlib.Data.List.Induction
import Mathlib.Data.Finset.Card

/-!
# Acknowledging Reliable Control Messages

Reliable control messages carry a 16-bit sequence number of their own. The client
acknowledges the contiguous prefix it has received; numbers that arrive ahead of a hole
wait in a sparse set of 16-bit values until the hole is filled (`recv.go`:
`acceptReliableControl`). A number is forward of the acknowledged one when the 16-bit
difference is below `0x8000`.

The abstract tracker knows the true, unbounded numbers: it holds the set of received
numbers and its contiguous prefix (`IsPrefixEnd`). `ReliableView` is the simulation
relation between the two.

The main results are `ReliableView.accept` and `reliableRecvACK_is_prefix`.
-/

namespace PetlibroLocal

open Serial List

/-- The loop that moves the acknowledged number over waiting entries. Every iteration
deletes an entry, so as many iterations as there are entries are enough
(`ReliableView.drain`). -/
def drainReliable : ℕ → UInt16 → Finset UInt16 → UInt16 × Finset UInt16
  | 0, ack, seen => (ack, seen)
  | fuel + 1, ack, seen =>
    if ack + 1 ∈ seen then drainReliable fuel (ack + 1) (seen.erase (ack + 1))
    else (ack, seen)

/-- `acceptReliableControl`: record one reliable control message. -/
def AckTracking.acceptReliableControl (c : AckTracking) (seq : UInt16) : AckTracking :=
  if !c.reliableRecvSet then
    { c with reliableRecvACK := seq, reliableRecvSet := true }
  else if seq - c.reliableRecvACK = 0 ∨ 0x8000 ≤ seq - c.reliableRecvACK then
    -- duplicate, old, or outside the unambiguous forward half-space
    c
  else if seq - c.reliableRecvACK ≠ 1 then
    { c with reliableSeen := insert seq c.reliableSeen }
  else
    let (ack, seen) := drainReliable c.reliableSeen.card seq c.reliableSeen
    { c with reliableRecvACK := ack, reliableSeen := seen }

/-! ### The simulation relation -/

/-- **The 16-bit state stands for the received numbers `R`**: everything from `n0` to
`W` is received, `W` is the acknowledged number, nothing received is further ahead than
the half-space reaches, and the waiting entries are exactly the numbers received beyond
`W`. -/
structure ReliableView (R : Set ℕ) (n0 W : ℕ) (ack : UInt16) (seen : Finset UInt16) :
    Prop where
  start_le : n0 ≤ W
  run : ∀ m, n0 < m → m ≤ W → m ∈ R
  ack_eq : ack = low16 W
  near : ∀ m ∈ R, m < W + 0x8000
  seen_iff : ∀ s, s ∈ seen ↔ ∃ m ∈ R, W < m ∧ s = low16 m

variable {R : Set ℕ} {n0 W : ℕ} {ack : UInt16} {seen : Finset UInt16}

theorem ReliableView.low16_mem_seen {m : ℕ} (h : ReliableView R n0 W ack seen) (hlt : W < m)
    (hnear : m < W + 0x8000) : low16 m ∈ seen ↔ m ∈ R := by
  rw [h.seen_iff]
  constructor
  · rintro ⟨k, hk, hWk, heq⟩
    have hk' := h.near k hk
    obtain rfl : m = k := low16_inj_of_near W (by omega) (by omega) heq
    exact hk
  · intro hm
    exact ⟨m, hm, hlt, rfl⟩

/-- Moving over a waiting entry: the number behind the acknowledged one is received, and
its entry is deleted. -/
theorem ReliableView.advance (h : ReliableView R n0 W ack seen) (hnext : W + 1 ∈ R) :
    ReliableView R n0 (W + 1) (ack + 1) (seen.erase (ack + 1)) where
  start_le := Nat.le_succ_of_le h.start_le
  run m hlt hle := by
    rcases Nat.lt_or_ge W m with hnew | hold
    · obtain rfl : m = W + 1 := by omega
      exact hnext
    · exact h.run m hlt hold
  ack_eq := by rw [h.ack_eq, low16_succ]
  near m hm := by
    have := h.near m hm
    omega
  seen_iff s := by
    rw [Finset.mem_erase, h.seen_iff, h.ack_eq, low16_succ]
    constructor
    · rintro ⟨hne, m, hm, hlt, rfl⟩
      refine ⟨m, hm, lt_of_le_of_ne hlt ?_, rfl⟩
      rintro rfl
      exact hne rfl
    · rintro ⟨m, hm, hlt, rfl⟩
      refine ⟨fun heq => ?_, m, hm, by omega, rfl⟩
      have hm' := h.near m hm
      have := low16_inj_of_near W (by omega) (by omega) heq
      omega

theorem ReliableView.next_mem_iff (h : ReliableView R n0 W ack seen) :
    ack + 1 ∈ seen ↔ W + 1 ∈ R := by
  rw [h.ack_eq, low16_succ]
  exact h.low16_mem_seen (by omega) (by omega)

/-- When the next entry is not waiting, the acknowledged number is the end of the
contiguous prefix. -/
theorem ReliableView.isPrefixEnd (h : ReliableView R n0 W ack seen) (hnot : ack + 1 ∉ seen) :
    IsPrefixEnd R n0 W :=
  isPrefixEnd_iff.mpr ⟨h.start_le, h.run, fun hmem => hnot (h.next_mem_iff.mpr hmem)⟩

/-- **The drain loop** ends at the contiguous prefix: with as many iterations as there
are entries it stops because the next number is not received. -/
theorem ReliableView.drain (h : ReliableView R n0 W ack seen) {fuel : ℕ}
    (hfuel : seen.card ≤ fuel) :
    ∃ W', IsPrefixEnd R n0 W' ∧ ReliableView R n0 W' (drainReliable fuel ack seen).1
      (drainReliable fuel ack seen).2 := by
  induction fuel generalizing W ack seen with
  | zero =>
    obtain rfl := Finset.card_eq_zero.mp (Nat.le_zero.mp hfuel)
    exact ⟨W, h.isPrefixEnd (Finset.notMem_empty _), h⟩
  | succ fuel ih =>
    rw [drainReliable]
    by_cases hmem : ack + 1 ∈ seen
    · rw [if_pos hmem]
      refine ih (h.advance (h.next_mem_iff.mp hmem)) ?_
      rw [Finset.card_erase_of_mem hmem]
      omega
    · rw [if_neg hmem]
      exact ⟨W, h.isPrefixEnd hmem, h⟩

/-! ### One call -/

theorem ReliableView.old {n : ℕ} (h : ReliableView R n0 W ack seen) (hle : n ≤ W) :
    ReliableView (insert n R) n0 W ack seen where
  start_le := h.start_le
  run m hlt hle := .inr (h.run m hlt hle)
  ack_eq := h.ack_eq
  near := by
    rintro m (rfl | hm)
    · omega
    · exact h.near m hm
  seen_iff s := by
    rw [h.seen_iff]
    constructor
    · rintro ⟨m, hm, hlt, rfl⟩
      exact ⟨m, .inr hm, hlt, rfl⟩
    · rintro ⟨m, rfl | hm, hlt, rfl⟩
      · omega
      · exact ⟨m, hm, hlt, rfl⟩

theorem ReliableView.ahead {n : ℕ} (h : ReliableView R n0 W ack seen) (hlt : W < n)
    (hnear : n < W + 0x8000) :
    ReliableView (insert n R) n0 W ack (insert (low16 n) seen) where
  start_le := h.start_le
  run m hlt hle := .inr (h.run m hlt hle)
  ack_eq := h.ack_eq
  near := by
    rintro m (rfl | hm)
    · exact hnear
    · exact h.near m hm
  seen_iff s := by
    rw [Finset.mem_insert, h.seen_iff]
    constructor
    · rintro (rfl | ⟨m, hm, hWm, rfl⟩)
      · exact ⟨n, .inl rfl, hlt, rfl⟩
      · exact ⟨m, .inr hm, hWm, rfl⟩
    · rintro ⟨m, rfl | hm, hWm, rfl⟩
      · exact .inl rfl
      · exact .inr ⟨m, hm, hWm, rfl⟩

theorem ReliableView.next (h : ReliableView R n0 W ack seen) (hend : IsPrefixEnd R n0 W) :
    ReliableView (insert (W + 1) R) n0 (W + 1) (low16 (W + 1)) seen := by
  have hnot : low16 (W + 1) ∉ seen := by
    rw [h.low16_mem_seen (by omega) (by omega)]
    exact hend.notMem
  have h' := (h.ahead (Nat.lt_succ_self W) (by omega)).advance (Set.mem_insert _ R)
  rwa [h.ack_eq, low16_succ, Finset.erase_insert hnot] at h'

/-- **One call simulates one received number.** When the true number `n` is less than
`0x8000` away from the contiguous prefix `W`, accepting its low half leads to the state
that stands for the received numbers and `n`. -/
theorem ReliableView.accept {n : ℕ} {c : AckTracking} (hset : c.reliableRecvSet = true)
    (h : ReliableView R n0 W c.reliableRecvACK c.reliableSeen) (hend : IsPrefixEnd R n0 W)
    (hahead : n < W + 0x8000) (hbehind : W < n + 0x8000) :
    let c' := c.acceptReliableControl (low16 n)
    c'.reliableRecvSet = true ∧ ∃ W', IsPrefixEnd (insert n R) n0 W' ∧
      ReliableView (insert n R) n0 W' c'.reliableRecvACK c'.reliableSeen := by
  have hacc : c.acceptReliableControl (low16 n) =
      if n ≤ W then c
      else if n ≠ W + 1 then { c with reliableSeen := insert (low16 n) c.reliableSeen }
      else { c with
        reliableRecvACK := (drainReliable c.reliableSeen.card (low16 n) c.reliableSeen).1
        reliableSeen := (drainReliable c.reliableSeen.card (low16 n) c.reliableSeen).2 } := by
    rw [AckTracking.acceptReliableControl, hset, h.ack_eq]
    simp only [not_forward_iff hahead hbehind, ne_eq, sub_eq_one_iff hahead hbehind,
      Bool.not_true, Bool.false_eq_true, if_false]
  rw [hacc]
  by_cases hold : n ≤ W
  · rw [if_pos hold]
    refine ⟨hset, W, ?_, h.old hold⟩
    refine isPrefixEnd_iff.mpr ⟨h.start_le, (h.old hold).run, ?_⟩
    rintro (heq | hmem)
    · omega
    · exact hend.notMem hmem
  rw [if_neg hold]
  by_cases hgap : n ≠ W + 1
  · rw [if_pos hgap]
    have h' := h.ahead (n := n) (by omega) hahead
    refine ⟨hset, W, isPrefixEnd_iff.mpr ⟨h.start_le, h'.run, ?_⟩, h'⟩
    rintro (heq | hmem)
    · omega
    · exact hend.notMem hmem
  · rw [if_neg hgap]
    obtain rfl : n = W + 1 := not_not.mp hgap
    exact ⟨hset, (h.next hend).drain le_rfl⟩

/-! ### Whole runs -/

/-- Feed the low halves of true numbers, in order. -/
def AckTracking.acceptAll (c : AckTracking) (ns : List ℕ) : AckTracking :=
  ns.foldl (fun c n => c.acceptReliableControl (low16 n)) c

/-- **Each number arrives near the prefix**: it is less than `0x8000` away from the
contiguous prefix of the numbers received before it. -/
def ArriveNear (n0 : ℕ) (ns : List ℕ) : Prop :=
  ∀ pre n post W, ns = pre ++ n :: post → IsPrefixEnd {m | m ∈ n0 :: pre} n0 W →
    n < W + 0x8000 ∧ W < n + 0x8000

theorem acceptAll_view {c₀ : AckTracking} (hfresh : c₀.reliableRecvSet = false)
    (hempty : c₀.reliableSeen = ∅) (n0 : ℕ) {ns : List ℕ} (hnear : ArriveNear n0 ns) :
    let c := c₀.acceptAll (n0 :: ns)
    c.reliableRecvSet = true ∧ ∃ W, IsPrefixEnd {m | m ∈ n0 :: ns} n0 W ∧
      ReliableView {m | m ∈ n0 :: ns} n0 W c.reliableRecvACK c.reliableSeen := by
  induction ns using List.reverseRecOn with
  | nil =>
    have hfirst : c₀.acceptAll [n0] =
        { c₀ with reliableRecvACK := low16 n0, reliableRecvSet := true } := by
      simp [AckTracking.acceptAll, AckTracking.acceptReliableControl, hfresh]
    rw [hfirst]
    refine ⟨rfl, n0, isPrefixEnd_iff.mpr ⟨le_rfl, fun m hlt hle => by omega, ?_⟩, ?_⟩
    · simp
    · exact
        { start_le := le_rfl
          run := fun m hlt hle => by omega
          ack_eq := rfl
          near := fun m hm => by
            obtain rfl : m = n0 := by simpa using hm
            omega
          seen_iff := fun s => by
            simp only [hempty, Finset.notMem_empty, Set.mem_ofPred_eq, mem_singleton,
              false_iff, not_exists, not_and]
            rintro m rfl hlt
            omega }
  | append_singleton ns n ih =>
    obtain ⟨hset, W, hend, hview⟩ := ih fun pre n' post W' heq =>
      hnear pre n' (post ++ [n]) W' (by rw [heq, append_assoc, cons_append])
    obtain ⟨hahead, hbehind⟩ := hnear ns n [] W rfl hend
    have hstep := hview.accept hset hend hahead hbehind
    have hR : insert n {m | m ∈ n0 :: ns} = {m | m ∈ n0 :: (ns ++ [n])} := by
      ext m
      simp only [Set.mem_insert_iff, Set.mem_ofPred_eq, mem_cons, mem_append, not_mem_nil, or_false]
      rw [or_comm, or_assoc]
    rw [hR] at hstep
    simpa only [AckTracking.acceptAll, ← cons_append, foldl_append,
      foldl_cons, foldl_nil] using hstep

/-- **The acknowledged number is the contiguous prefix.** Feed the low 16 bits of `n0`
and then of any numbers that arrive near the prefix, in any order, with duplicates and
over any number of wraps. After every step the acknowledged value is the low half of the
greatest `W` such that all of `n0 .. W` are received, and every waiting entry is the low
half of a received number strictly between `W + 1` and `W + 0x8000`. -/
theorem reliableRecvACK_is_prefix {c₀ : AckTracking} (hfresh : c₀.reliableRecvSet = false)
    (hempty : c₀.reliableSeen = ∅) (n0 : ℕ) {ns : List ℕ} (hnear : ArriveNear n0 ns)
    {pre post : List ℕ} (hpre : ns = pre ++ post) :
    let c := c₀.acceptAll (n0 :: pre)
    ∃ W, IsGreatest {n | n0 ≤ n ∧ ∀ m, n0 ≤ m → m ≤ n → m ∈ n0 :: pre} W ∧
      c.reliableRecvACK = low16 W ∧
      ∀ s ∈ c.reliableSeen, ∃ m ∈ n0 :: pre, W + 1 < m ∧ m < W + 0x8000 ∧ s = low16 m := by
  have hnear' : ArriveNear n0 pre := fun pre' n post' W' heq =>
    hnear pre' n (post' ++ post) W' (by rw [hpre, heq, append_assoc, cons_append])
  obtain ⟨-, W, hend, hview⟩ := acceptAll_view hfresh hempty n0 hnear'
  refine ⟨W, ?_, hview.ack_eq, fun s hs => ?_⟩
  · have hset : {n | n0 ≤ n ∧ ∀ m, n0 ≤ m → m ≤ n → m ∈ n0 :: pre} =
        {n | n0 ≤ n ∧ ∀ m, n0 < m → m ≤ n → m ∈ {m | m ∈ n0 :: pre}} := by
      ext n
      refine and_congr_right fun _ => ⟨fun h m hlt => h m hlt.le, fun h m hle hmn => ?_⟩
      rcases hle.eq_or_lt with rfl | hlt
      · exact mem_cons_self
      · exact h m hlt hmn
    rw [hset]
    exact hend
  · obtain ⟨m, hm, hlt, rfl⟩ := (hview.seen_iff s).mp hs
    refine ⟨m, hm, lt_of_le_of_ne hlt ?_, hview.near m hm, rfl⟩
    rintro rfl
    exact hend.notMem hm

/-- Three messages across the wrap, the last two exchanged: `65536` waits for `65535`,
then the acknowledged value is the low half of `65536`. -/
theorem reliableRecvACK_is_prefix_across_wrap :
    let c := AckTracking.zero.acceptAll [65534, 65536, 65535]
    c.reliableRecvACK = 0 ∧
      ∃ W, IsGreatest {n | 65534 ≤ n ∧ ∀ m, 65534 ≤ m → m ≤ n →
          m ∈ [65534, 65536, 65535]} W ∧
        c.reliableRecvACK = low16 W ∧
        ∀ s ∈ c.reliableSeen, ∃ m ∈ [65534, 65536, 65535],
          W + 1 < m ∧ m < W + 0x8000 ∧ s = low16 m := by
  have hnear : ArriveNear 65534 [65536, 65535] := by
    intro pre n post W heq hend
    have hn : n ∈ [65536, 65535] := heq ▸ mem_append_right pre mem_cons_self
    have hpre : ∀ m ∈ pre, m ∈ [65536, 65535] := fun m hm =>
      heq ▸ mem_append_left _ hm
    have hW : 65534 < W → W ∈ 65534 :: pre := fun hlt => hend.1.2 W hlt le_rfl
    have hle := hend.1.1
    simp only [mem_cons, not_mem_nil, or_false] at hn hpre hW
    rcases hle.eq_or_lt with rfl | hlt
    · omega
    · have := (hW hlt).imp_right (hpre W)
      omega
  exact ⟨by decide, reliableRecvACK_is_prefix rfl rfl 65534 hnear (append_nil _).symm⟩

end PetlibroLocal
