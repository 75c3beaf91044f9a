import Mathlib.Data.List.Lex
import Mathlib.Data.Prod.Lex
import Mathlib.Data.Sum.Order
import Mathlib.Order.WithBot

/-!
# Three-Way Comparison

`threeWay a b` is `-1`, `0` or `1`, as comparison functions return it: less, equal or greater in
a linear order. The lemmas compute it on the orders that are put together from others: pairs and
lists lexicographically, sums with one side below the other, and an order with a top.
-/

namespace PetlibroLocal

variable {α β : Type*} [LinearOrder α] [LinearOrder β]

/-- The sign of a comparison. -/
def threeWay (a b : α) : ℤ := if a < b then -1 else if b < a then 1 else 0

/-- The smaller one comes first. -/
theorem threeWay_of_lt {a b : α} (h : a < b) : threeWay a b = -1 := if_pos h

/-- The greater one comes last. -/
theorem threeWay_of_gt {a b : α} (h : b < a) : threeWay a b = 1 := by
  rw [threeWay, if_neg h.asymm, if_pos h]

/-- Nothing differs from itself. -/
@[simp] theorem threeWay_self (a : α) : threeWay a a = 0 := by
  rw [threeWay, if_neg (lt_irrefl a), if_neg (lt_irrefl a)]

/-- Zero says that the two are equal. -/
@[simp] theorem threeWay_eq_zero {a b : α} : threeWay a b = 0 ↔ a = b := by
  rcases lt_trichotomy a b with h | rfl | h
  · simp [threeWay_of_lt h, h.ne]
  · simp
  · simp [threeWay_of_gt h, h.ne']

/-- A positive result says that the first is greater. -/
theorem threeWay_pos {a b : α} : 0 < threeWay a b ↔ b < a := by
  rcases lt_trichotomy a b with h | rfl | h
  · simp [threeWay_of_lt h, h.asymm]
  · simp
  · simp [threeWay_of_gt h, h]

/-- Any other result says that it is not. -/
theorem threeWay_nonpos {a b : α} : threeWay a b ≤ 0 ↔ a ≤ b := by
  rw [← not_lt, threeWay_pos, not_lt]

/-- Swapping the two negates the result. -/
theorem threeWay_swap (a b : α) : threeWay b a = -threeWay a b := by
  rcases lt_trichotomy a b with h | rfl | h
  · rw [threeWay_of_lt h, threeWay_of_gt h, Int.neg_neg]
  · simp
  · rw [threeWay_of_lt h, threeWay_of_gt h]

/-- A strictly monotone function does not change the result. -/
theorem threeWay_map {f : α → β} (hf : StrictMono f) (a b : α) :
    threeWay (f a) (f b) = threeWay a b := by
  rcases lt_trichotomy a b with h | rfl | h
  · rw [threeWay_of_lt h, threeWay_of_lt (hf h)]
  · simp
  · rw [threeWay_of_gt h, threeWay_of_gt (hf h)]

/-- **Pairs** are compared by their first components, and by the second ones if these agree. -/
theorem threeWay_toLex (a a' : α) (b b' : β) :
    threeWay (toLex (a, b)) (toLex (a', b')) =
      if a = a' then threeWay b b' else threeWay a a' := by
  rcases lt_trichotomy a a' with h | rfl | h
  · rw [if_neg h.ne, threeWay_of_lt h, threeWay_of_lt (Prod.Lex.toLex_lt_toLex.mpr (.inl h))]
  · rw [if_pos rfl]
    have hmono : StrictMono fun b : β => toLex (a, b) := by
      intro b b' hb
      change toLex (a, b) < toLex (a, b')
      exact Prod.Lex.toLex_lt_toLex.mpr (.inr ⟨rfl, hb⟩)
    exact threeWay_map hmono b b'
  · rw [if_neg h.ne', threeWay_of_gt h, threeWay_of_gt (Prod.Lex.toLex_lt_toLex.mpr (.inl h))]

/-- The empty list comes first. -/
@[simp] theorem threeWay_nil_cons (a : α) (as : List α) : threeWay [] (a :: as) = -1 :=
  threeWay_of_lt (List.nil_lt_cons a as)

/-- And nothing comes before it. -/
@[simp] theorem threeWay_cons_nil (a : α) (as : List α) : threeWay (a :: as) [] = 1 :=
  threeWay_of_gt (List.nil_lt_cons a as)

/-- Two tests and what follows them: the shape in which programs compare pairs. -/
theorem ite_lt_eq_threeWay (a b : α) (x : ℤ) :
    (if a < b then -1 else if b < a then 1 else x) = if a = b then x else threeWay a b := by
  rcases lt_trichotomy a b with h | rfl | h
  · rw [if_pos h, if_neg h.ne, threeWay_of_lt h]
  · rw [if_neg (lt_irrefl a), if_neg (lt_irrefl a), if_pos rfl]
  · rw [if_neg h.asymm, if_pos h, if_neg h.ne', threeWay_of_gt h]

/-- One test is enough for two that differ. -/
theorem ite_lt_of_ne {a b : α} (h : a ≠ b) : (if a < b then -1 else 1) = threeWay a b := by
  rcases lt_or_gt_of_ne h with hlt | hgt
  · rw [if_pos hlt, threeWay_of_lt hlt]
  · rw [if_neg hgt.asymm, threeWay_of_gt hgt]

/-- The test for equality may come first. -/
theorem ite_eq_threeWay (a b : α) :
    (if a = b then 0 else if a < b then -1 else 1) = threeWay a b := by
  by_cases h : a = b
  · rw [if_pos h, threeWay_eq_zero.mpr h]
  · rw [if_neg h, ite_lt_of_ne h]

/-- **Lists** are compared by their heads, and by the tails if these agree. -/
theorem threeWay_cons (a a' : α) (as as' : List α) :
    threeWay (a :: as) (a' :: as') = if a = a' then threeWay as as' else threeWay a a' := by
  rcases lt_trichotomy a a' with h | rfl | h
  · rw [if_neg h.ne, threeWay_of_lt h, threeWay_of_lt (List.cons_lt_cons_iff.mpr (.inl h))]
  · rw [if_pos rfl]
    have hmono : StrictMono (a :: ·) := fun _ _ has => List.cons_lt_cons_iff.mpr (.inr ⟨rfl, has⟩)
    exact threeWay_map hmono as as'
  · rw [if_neg h.ne', threeWay_of_gt h, threeWay_of_gt (List.cons_lt_cons_iff.mpr (.inl h))]

/-- Within the left side of a lexicographic sum. -/
theorem threeWay_inl (a a' : α) :
    threeWay (toLex (Sum.inl a) : α ⊕ₗ β) (toLex (Sum.inl a')) = threeWay a a' :=
  threeWay_map (f := fun a => (toLex (Sum.inl a) : α ⊕ₗ β))
    (fun _ _ h => Sum.Lex.inl_lt_inl_iff.mpr h) a a'

/-- Within the right side. -/
theorem threeWay_inr (b b' : β) :
    threeWay (toLex (Sum.inr b) : α ⊕ₗ β) (toLex (Sum.inr b')) = threeWay b b' :=
  threeWay_map (f := fun b => (toLex (Sum.inr b) : α ⊕ₗ β))
    (fun _ _ h => Sum.Lex.inr_lt_inr_iff.mpr h) b b'

/-- The left side comes before the right one. -/
theorem threeWay_inl_inr (a : α) (b : β) :
    threeWay (toLex (Sum.inl a) : α ⊕ₗ β) (toLex (Sum.inr b)) = -1 :=
  threeWay_of_lt (Sum.Lex.inl_lt_inr a b)

/-- And the right side after the left one. -/
theorem threeWay_inr_inl (a : α) (b : β) :
    threeWay (toLex (Sum.inr b) : α ⊕ₗ β) (toLex (Sum.inl a)) = 1 :=
  threeWay_of_gt (Sum.Lex.inl_lt_inr a b)

/-- Below the top nothing changes. -/
theorem threeWay_coe (a a' : α) : threeWay (a : WithTop α) a' = threeWay a a' :=
  threeWay_map (f := fun a : α => (a : WithTop α)) (fun _ _ h => WithTop.coe_lt_coe.mpr h) a a'

/-- The top comes last. -/
theorem threeWay_coe_top (a : α) : threeWay (a : WithTop α) ⊤ = -1 :=
  threeWay_of_lt (WithTop.coe_lt_top a)

/-- And nothing comes after it. -/
theorem threeWay_top_coe (a : α) : threeWay (⊤ : WithTop α) a = 1 :=
  threeWay_of_gt (WithTop.coe_lt_top a)

end PetlibroLocal
