import Mathlib.Algebra.GroupWithZero.Nat
import Mathlib.Algebra.Order.BigOperators.Group.List
import Mathlib.Algebra.Order.Group.Nat
import Mathlib.Data.List.Forall2

/-!
# Weighing Lists

Entries of positive weight can be counted by their sum: a sublist that weighs as much as
the list is the list, and blocks that may weigh no more than one given entry each, and
together are these entries, hold one of them each.
-/

namespace PetlibroLocal

open List

variable {α β : Type*} {w : α → ℕ}

/-- A sublist that weighs as much as the list is the list. -/
theorem eq_of_sublist_of_sum_le {l l' : List α} (h : l'.Sublist l) (hpos : ∀ x ∈ l, 0 < w x)
    (hsum : (l.map w).sum ≤ (l'.map w).sum) : l' = l := by
  induction h with
  | slnil => rfl
  | cons x hsub ih =>
    exfalso
    have hle := (hsub.map w).sum_le_sum fun _ _ => Nat.zero_le _
    have hx := hpos x mem_cons_self
    rw [map_cons, sum_cons] at hsum
    omega
  | cons_cons x hsub ih =>
    rw [map_cons, map_cons, sum_cons, sum_cons] at hsum
    rw [ih (fun y hy => hpos y (mem_cons_of_mem _ hy)) (by omega)]

theorem sum_flatten_le {g : β → α} {bs : List β} {blocks : List (List α)}
    (h : List.Forall₂ (fun b block => (block.map w).sum ≤ w (g b)) bs blocks) :
    (blocks.flatten.map w).sum ≤ ((bs.map g).map w).sum := by
  induction h with
  | nil => exact Nat.le_refl 0
  | cons hblock hrest ih =>
    rw [flatten_cons, map_append, sum_append, map_cons, map_cons, sum_cons]
    exact Nat.add_le_add hblock ih

/-- **Blocks that weigh no more than one entry each and together are these entries hold
one of them each.** -/
theorem blocks_eq_singletons {g : β → α} {bs : List β} {blocks : List (List α)}
    (h : List.Forall₂ (fun b block => (block.map w).sum ≤ w (g b)) bs blocks)
    (hpos : ∀ b ∈ bs, 0 < w (g b)) (heq : blocks.flatten = bs.map g) :
    blocks = bs.map fun b => [g b] := by
  induction h with
  | nil => rfl
  | @cons b block bs blocks hblock hrest ih =>
    have hposb := hpos b mem_cons_self
    have hpos' : ∀ b' ∈ bs, 0 < w (g b') := fun b' hb' => hpos b' (mem_cons_of_mem _ hb')
    cases block with
    | nil =>
      exfalso
      have hle := sum_flatten_le hrest
      rw [flatten_cons, nil_append] at heq
      rw [heq, map_cons, map_cons, sum_cons] at hle
      omega
    | cons x block =>
      rw [flatten_cons, map_cons, cons_append] at heq
      obtain ⟨rfl, htail⟩ := List.cons.inj heq
      cases block with
      | nil =>
        rw [ih hpos' htail]
        rfl
      | cons y block =>
        exfalso
        -- the next entry has a bound of its own, but no weight is left for it
        rw [map_cons, sum_cons, map_cons, sum_cons] at hblock
        have hy : y ∈ bs.map g := by
          rw [← htail]
          exact mem_cons_self
        obtain ⟨b', hb', rfl⟩ := mem_map.mp hy
        have := hpos' b' hb'
        omega

end PetlibroLocal
