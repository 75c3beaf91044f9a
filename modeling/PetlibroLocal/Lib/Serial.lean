import Mathlib.Data.Nat.Notation

/-!
# 16-Bit Serial Numbers

A 16-bit wire counter carries the low bits of an unbounded counter. The distance of two
wire values determines the distance of the true values as long as these are less than
`2 ^ 16` apart; with the half-space convention (`< 0x8000` is forward) a wire value is
resolved against a reference without knowing the direction in advance.

* `sub_toNat_of_le` — the forward distance of the wire values of `m ≤ n`;
* `sub_toNat_of_lt` — the same difference when the true value lies behind;
* `forward_iff`, `not_forward_iff`, `sub_eq_one_iff` — the half-space tests decide the order of the
  true values;
* `low16_inj_of_near` — wire values identify true values inside one window.
-/

namespace Serial

/-- The low 16 bits of an unbounded counter. -/
abbrev low16 (n : ℕ) : UInt16 := UInt16.ofNat n

theorem low16_toNat (n : ℕ) : (low16 n).toNat = n % 65536 := UInt16.toNat_ofNat'

theorem low16_succ (n : ℕ) : low16 n + 1 = low16 (n + 1) :=
  (UInt16.ofNat_add n 1).symm

theorem sub_toNat (n m : ℕ) :
    (low16 n - low16 m).toNat = (65536 - m % 65536 + n % 65536) % 65536 := by
  rw [UInt16.toNat_sub, low16_toNat, low16_toNat]

/-- Forward: `n` at or ahead of `m` by less than a full turn. -/
theorem sub_toNat_of_le {n m : ℕ} (hle : m ≤ n) (hlt : n < m + 65536) :
    (low16 n - low16 m).toNat = n - m := by
  rw [sub_toNat]
  omega

/-- Backward: `n` behind `m` by less than a full turn. -/
theorem sub_toNat_of_lt {n m : ℕ} (hlt : n < m) (hle : m ≤ n + 65536) :
    (low16 n - low16 m).toNat = n + 65536 - m := by
  rw [sub_toNat]
  omega

theorem lt_half_iff (d : UInt16) : d < 0x8000 ↔ d.toNat < 0x8000 :=
  UInt16.lt_iff_toNat_lt

/-- Within half a turn, the half-space test decides the order of the true values. -/
theorem forward_iff {n m : ℕ} (hbehind : m ≤ n + 0x8000) (hahead : n < m + 0x8000) :
    low16 n - low16 m < 0x8000 ↔ m ≤ n := by
  rw [lt_half_iff]
  rcases Nat.lt_or_ge n m with hlt | hge
  · rw [sub_toNat_of_lt hlt (by omega)]
    omega
  · rw [sub_toNat_of_le hge (by omega)]
    omega

/-- Within half a turn, the test for "not forward" decides the order of the true
values. -/
theorem not_forward_iff {n m : ℕ} (hahead : n < m + 0x8000) (hbehind : m < n + 0x8000) :
    (low16 n - low16 m = 0 ∨ 0x8000 ≤ low16 n - low16 m) ↔ n ≤ m := by
  have hdist : low16 n - low16 m = 0 ↔ (low16 n - low16 m).toNat = 0 :=
    UInt16.toNat_inj.symm
  rw [← UInt16.not_lt, forward_iff (by omega) hahead, hdist]
  rcases Nat.lt_or_ge n m with hlt | hge
  · rw [sub_toNat_of_lt hlt (by omega)]
    omega
  · rw [sub_toNat_of_le hge (by omega)]
    omega

/-- Within half a turn, a wire distance of one is a true distance of one. -/
theorem sub_eq_one_iff {n m : ℕ} (hahead : n < m + 0x8000) (hbehind : m < n + 0x8000) :
    low16 n - low16 m = 1 ↔ n = m + 1 := by
  rw [← UInt16.toNat_inj]
  change _ = 1 ↔ _
  rcases Nat.lt_or_ge n m with hlt | hge
  · rw [sub_toNat_of_lt hlt (by omega)]
    omega
  · rw [sub_toNat_of_le hge (by omega)]
    omega

/-- Two true values inside one window of `2 ^ 16` have equal wire values only if they
are equal. -/
theorem low16_inj_of_near (lo : ℕ) {n m : ℕ} (hn : lo ≤ n ∧ n < lo + 65536)
    (hm : lo ≤ m ∧ m < lo + 65536) (h : low16 n = low16 m) : n = m := by
  have h' := congrArg UInt16.toNat h
  rw [low16_toNat, low16_toNat] at h'
  omega

end Serial
