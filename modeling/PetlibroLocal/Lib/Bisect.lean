import Mathlib.Data.Int.Notation

/-!
# Bisection

The loop that narrows two bounds to neighbours: the predicate holds at the lower bound and fails at
the upper one. If it fails from a cutoff on, then the upper bound ends at the cutoff.
-/

namespace PetlibroLocal

/-- Narrows the bounds to neighbours and returns the upper one. -/
def bisect (p : ℤ → Bool) (low high : ℤ) : ℤ :=
  if low + 1 < high then
    let middle := (low + high) / 2
    if p middle then bisect p middle high else bisect p low middle
  else high
termination_by (high - low).toNat

/-- **Bisection finds the cutoff.** The bounds enclose it all the time. -/
theorem bisect_eq_cutoff {p : ℤ → Bool} {low high cutoff : ℤ} (hlow : low < cutoff)
    (hhigh : cutoff ≤ high) (hp : ∀ k, low < k → k < high → (p k = true ↔ k < cutoff)) :
    bisect p low high = cutoff := by
  rw [bisect]
  by_cases hgap : low + 1 < high
  · rw [if_pos hgap]
    have hmiddle : low < (low + high) / 2 ∧ (low + high) / 2 < high := by omega
    have hcut := hp _ hmiddle.1 hmiddle.2
    by_cases hbelow : (low + high) / 2 < cutoff
    · rw [if_pos (hcut.mpr hbelow)]
      exact bisect_eq_cutoff hbelow hhigh fun k hk => hp k (by omega)
    · rw [if_neg (mt hcut.mp hbelow)]
      exact bisect_eq_cutoff hlow (by omega) fun k hk hk' => hp k hk (by omega)
  · rw [if_neg hgap]
    omega
termination_by (high - low).toNat

end PetlibroLocal
