import Mathlib.Algebra.GroupWithZero.Nat
import Mathlib.Order.Basic

/-!
# Separated Spans of Positions

A set of natural numbers that is received piecemeal is stored compactly as a list of
closed spans `[first, last]`. The representation is canonical when the list is sorted
and two neighbouring spans never touch: between `last` of one and `first` of the next
at least one position is missing (`Separated`). This module fixes the representation
and the rules the receive trackers use to reason about it:

* `Covers` — the set of positions a list of spans stands for;
* `Separated lo` — the canonical form, every span at or above `lo`;
* `separated_iff` — the recursive form of `Separated` against its pairwise reading;
* `totalSize` — the number of positions, as a sum over the spans.
-/

/-- A closed span of positions. -/
structure Span where
  first : ℕ
  last : ℕ
  deriving DecidableEq, Repr

namespace Span

/-- Position `p` lies in the span. -/
def Contains (r : Span) (p : ℕ) : Prop := r.first ≤ p ∧ p ≤ r.last

instance (r : Span) (p : ℕ) : Decidable (r.Contains p) :=
  inferInstanceAs (Decidable (_ ∧ _))

@[simp] theorem contains_single (q p : ℕ) : (⟨q, q⟩ : Span).Contains p ↔ p = q := by
  simp only [Contains]
  omega

/-- The number of positions in the span. -/
def size (r : Span) : ℕ := r.last + 1 - r.first

/-- A position is covered by a list of spans when one of them contains it. -/
def Covers (spans : List Span) (p : ℕ) : Prop := ∃ r ∈ spans, r.Contains p

@[simp] theorem covers_nil (p : ℕ) : ¬ Covers [] p := by
  simp [Covers]

@[simp] theorem covers_cons (r : Span) (rest : List Span) (p : ℕ) :
    Covers (r :: rest) p ↔ r.Contains p ∨ Covers rest p := by
  simp [Covers]

/-- The number of positions in a list of spans. -/
def totalSize (spans : List Span) : ℕ := (spans.map size).sum

@[simp] theorem totalSize_nil : totalSize [] = 0 := rfl

@[simp] theorem totalSize_cons (r : Span) (rest : List Span) :
    totalSize (r :: rest) = r.size + totalSize rest := by
  simp [totalSize]

/-- **Canonical form**: every span is nonempty and starts at or above `lo`, and each
next span leaves at least one position free after the one before it. -/
def Separated : ℕ → List Span → Prop
  | _, [] => True
  | lo, r :: rest => lo ≤ r.first ∧ r.first ≤ r.last ∧ Separated (r.last + 2) rest

@[simp] theorem separated_nil (lo : ℕ) : Separated lo [] := trivial

@[simp] theorem separated_cons (lo : ℕ) (r : Span) (rest : List Span) :
    Separated lo (r :: rest) ↔
      lo ≤ r.first ∧ r.first ≤ r.last ∧ Separated (r.last + 2) rest := Iff.rfl

variable {lo : ℕ} {spans : List Span}

theorem Separated.mono {lo' : ℕ} (h : Separated lo spans) (hle : lo' ≤ lo) :
    Separated lo' spans := by
  cases spans with
  | nil => trivial
  | cons r rest => exact ⟨Nat.le_trans hle h.1, h.2.1, h.2.2⟩

theorem Separated.le_of_covers {p : ℕ} (h : Separated lo spans) (hp : Covers spans p) : lo ≤ p := by
  induction spans generalizing lo with
  | nil => exact absurd hp (covers_nil p)
  | cons r rest ih =>
    obtain ⟨hlo, hne, hrest⟩ := h
    rcases (covers_cons r rest p).mp hp with hr | hp'
    · exact Nat.le_trans hlo hr.1
    · have := ih hrest hp'
      omega

theorem Separated.first_of_covers (h : Separated lo spans) (hlo : Covers spans lo) :
    ∃ r rest, spans = r :: rest ∧ r.first = lo ∧ lo ≤ r.last ∧
      Separated (r.last + 2) rest := by
  cases spans with
  | nil => exact absurd hlo (covers_nil lo)
  | cons r rest =>
    obtain ⟨hge, hne, hrest⟩ := h
    rcases (covers_cons r rest lo).mp hlo with hr | hcov
    · exact ⟨r, rest, rfl, Nat.le_antisymm hr.1 hge, hr.2, hrest⟩
    · have := hrest.le_of_covers hcov
      omega

theorem Separated.dropWhile (h : Separated lo spans) (p : ℕ) :
    Separated lo (spans.dropWhile fun r => r.last < p) := by
  induction spans generalizing lo with
  | nil => trivial
  | cons r rest ih =>
    obtain ⟨hlo, hne, hrest⟩ := h
    by_cases hpast : r.last < p
    · rw [List.dropWhile_cons_of_pos (by simpa using hpast)]
      exact (ih hrest).mono (by omega)
    · rw [List.dropWhile_cons_of_neg (by simpa using hpast)]
      exact ⟨hlo, hne, hrest⟩

theorem covers_dropWhile (spans : List Span) {p q : ℕ} (hq : p ≤ q) :
    Covers (spans.dropWhile fun r => r.last < p) q ↔ Covers spans q := by
  induction spans with
  | nil => rfl
  | cons r rest ih =>
    by_cases hpast : r.last < p
    · have hnot : ¬ r.Contains q := fun hr => by
        have := hr.2
        omega
      rw [List.dropWhile_cons_of_pos (by simpa using hpast), ih, covers_cons]
      exact (or_iff_right hnot).symm
    · rw [List.dropWhile_cons_of_neg (by simpa using hpast)]

/-- The canonical form in its pairwise reading: spans are nonempty, start at or above
the bound, and any two of them, in list order, leave a gap of at least one position. -/
theorem separated_iff :
    Separated lo spans ↔
      (∀ r ∈ spans, lo ≤ r.first ∧ r.first ≤ r.last) ∧
        spans.Pairwise fun a b => a.last + 2 ≤ b.first := by
  induction spans generalizing lo with
  | nil => simp
  | cons r rest ih =>
    rw [separated_cons, ih, List.forall_mem_cons, List.pairwise_cons]
    constructor
    · rintro ⟨hlo, hne, hall, hpw⟩
      refine ⟨⟨⟨hlo, hne⟩, fun q hq => ?_⟩, fun q hq => (hall q hq).1, hpw⟩
      have := hall q hq
      omega
    · rintro ⟨⟨⟨hlo, hne⟩, hall⟩, hgap, hpw⟩
      exact ⟨hlo, hne, fun q hq => ⟨hgap q hq, (hall q hq).2⟩, hpw⟩

end Span
