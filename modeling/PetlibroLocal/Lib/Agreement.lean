import Mathlib.Data.List.Basic
import Mathlib.Data.Nat.Notation
import Mathlib.Logic.Function.Basic

/-!
# Agreement of Lists on Positions

Two contents of a file are compared at some positions only. `AgreeOn p a b` says that the lists
`a` and `b` have the same entries at the positions `p`; what is computed from the entries of a
range that lies in `p` is then the same for both. A fold whose step loses neither the state nor
the entry tells lists apart that differ in one entry.

* `agreeOn_inRange_iff` — to agree inside a range is to have the same entries there;
* `AgreeOn.range_eq` — the parts that agree;
* `AgreeOn.foldl_ne`, `List.foldl_ne_of_step` — one entry, or one step, shows in the fold.
-/

variable {α : Type*}

/-- The lists have the same entries at the positions `p`. -/
def AgreeOn (p : ℕ → Prop) (a b : List α) : Prop := ∀ i, p i → a[i]? = b[i]?

/-- Position `i` lies in a range, given by its offset and its length. -/
def InRange (range : ℕ × ℕ) (i : ℕ) : Prop := range.1 ≤ i ∧ i < range.1 + range.2

namespace AgreeOn

variable {p q : ℕ → Prop} {a b : List α}

theorem mono (h : AgreeOn p a b) (hqp : ∀ i, q i → p i) : AgreeOn q a b :=
  fun i hi => h i (hqp i hi)

end AgreeOn

/-- **Agreement inside a range.** -/
theorem agreeOn_inRange_iff {off n : ℕ} {a b : List α} :
    AgreeOn (InRange (off, n)) a b ↔ (a.drop off).take n = (b.drop off).take n := by
  constructor
  · intro h
    refine List.ext_getElem? fun i => ?_
    rw [List.getElem?_take, List.getElem?_take, List.getElem?_drop, List.getElem?_drop]
    split
    · next hi => exact h (off + i) ⟨Nat.le_add_right _ _, Nat.add_lt_add_left hi off⟩
    · rfl
  · rintro h i ⟨hoff, hn⟩
    have hentry := congrArg (fun l => l[i - off]?) h
    have hlt : i - off < n := (Nat.sub_lt_iff_lt_add' hoff).mpr hn
    simp only [List.getElem?_take, List.getElem?_drop, if_pos hlt] at hentry
    rwa [Nat.add_sub_cancel' hoff] at hentry

namespace AgreeOn

variable {p : ℕ → Prop} {a b : List α} {i off n : ℕ}

theorem range_eq (h : AgreeOn p a b) (hp : ∀ i, InRange (off, n) i → p i) :
    (a.drop off).take n = (b.drop off).take n :=
  agreeOn_inRange_iff.mp (h.mono hp)

/-- Lists that agree beside position `i` agree beside it inside a range. -/
theorem slice (h : AgreeOn (fun j => InRange (off, n) j ∧ j ≠ i) a b) (hi : off ≤ i) :
    AgreeOn (· ≠ i - off) ((a.drop off).take n) ((b.drop off).take n) := by
  intro j hj
  simp only [List.getElem?_take, List.getElem?_drop]
  split
  · next hn => exact h _ ⟨⟨Nat.le_add_right _ _, Nat.add_lt_add_left hn off⟩, by omega⟩
  · rfl

end AgreeOn

section Folds

variable {σ : Type*} {a b : List α} {i : ℕ} {step f g : σ → α → σ}

/-- A fold whose step does not lose the state does not lose it either. -/
theorem List.foldl_injective (hstate : ∀ x, Function.Injective (step · x)) (l : List α) :
    Function.Injective (l.foldl step ·) := by
  induction l with
  | nil => exact Function.injective_id
  | cons x rest ih => exact ih.comp (hstate x)

/-- **One entry shows in the fold**, if the step loses neither the state nor the entry. -/
theorem AgreeOn.foldl_ne (hstate : ∀ x, Function.Injective (step · x))
    (hentry : ∀ s, Function.Injective (step s)) (hlength : a.length = b.length)
    (h : AgreeOn (· ≠ i) a b) (hne : a[i]? ≠ b[i]?) (s : σ) : a.foldl step s ≠ b.foldl step s := by
  induction a generalizing b i s with
  | nil => exact absurd (congrArg (·[i]?) (List.length_eq_zero_iff.mp hlength.symm).symm) hne
  | cons x xs ih =>
    cases b with
    | nil => cases hlength
    | cons y ys =>
      cases i with
      | zero =>
        obtain rfl : xs = ys := List.ext_getElem? fun j => h (j + 1) (Nat.succ_ne_zero j)
        have hxy : x ≠ y := fun heq => hne (congrArg some heq)
        exact fun heq => hxy (hentry s (List.foldl_injective hstate xs heq))
      | succ i =>
        obtain rfl : x = y := Option.some.inj (h 0 (Nat.succ_ne_zero i).symm)
        exact ih (Nat.succ.inj hlength) (fun j hj => h (j + 1) (by simpa using hj)) hne _

/-- **One step shows in the fold**, if all others are the same and lose no state. -/
theorem List.foldl_ne_of_step {before after : List α} {x : α}
    (hstate : ∀ y, Function.Injective (g · y))
    (hsame : ∀ y ∈ before ++ after, ∀ s, f s y = g s y) (hne : ∀ s, f s x ≠ g s x) (s : σ) :
    (before ++ x :: after).foldl f s ≠ (before ++ x :: after).foldl g s := by
  rw [List.foldl_append, List.foldl_append, List.foldl_cons, List.foldl_cons,
    List.foldl_ext f g s fun s y hy => hsame y (List.mem_append_left _ hy) s,
    List.foldl_ext f g _ fun s y hy => hsame y (List.mem_append_right _ hy) s]
  exact fun heq => hne _ (List.foldl_injective hstate after heq)

end Folds
