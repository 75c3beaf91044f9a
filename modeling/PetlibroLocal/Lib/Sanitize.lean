import Mathlib.Data.List.DropRight

/-!
# Sanitised Names

A name is made of a text by putting one character in the place of each run of unsupported ones
(`re.sub` with `[^...]+`) and by stripping that character from both ends (`str.strip`).

* `subRuns`, `strip` — the two operations;
* `subRuns_eq_self`, `strip_eq_self` — texts that they leave as they are;
* `mem_subRuns`, `head?_strip`, `getLast?_strip` — what is left.
-/

namespace PetlibroLocal

open List

variable {α : Type*}

/-- The runs of entries that are not kept become one `r` each; `run` says that the last entry was
not kept. -/
def subRunsFrom (keep : α → Bool) (r : α) : Bool → List α → List α
  | _, [] => []
  | run, x :: xs =>
    if keep x then x :: subRunsFrom keep r false xs
    else if run then subRunsFrom keep r true xs
    else r :: subRunsFrom keep r true xs

/-- `re.sub` of `[^...]+`, with one `r` in the place of a run. -/
def subRuns (keep : α → Bool) (r : α) (xs : List α) : List α := subRunsFrom keep r false xs

/-- `strip`: without the `r` at both ends. -/
def strip [BEq α] (r : α) (xs : List α) : List α := (xs.dropWhile (· == r)).rdropWhile (· == r)

variable {keep : α → Bool} {xs : List α}

theorem subRuns_eq_self (h : ∀ x ∈ xs, keep x = true) (r : α) : subRuns keep r xs = xs := by
  rw [subRuns]
  induction xs with
  | nil => rfl
  | cons x xs ih =>
    rw [subRunsFrom, if_pos (h x mem_cons_self), ih fun y hy =>
      h y (mem_cons_of_mem _ hy)]

theorem mem_subRunsFrom {r : α} {run : Bool} {x : α} (h : x ∈ subRunsFrom keep r run xs) :
    x = r ∨ x ∈ xs ∧ keep x = true := by
  induction xs generalizing run with
  | nil => cases h
  | cons y ys ih =>
    have hrest : ∀ {run}, x ∈ subRunsFrom keep r run ys → x = r ∨ x ∈ y :: ys ∧ keep x = true :=
      fun h => (ih h).imp_right fun h => ⟨mem_cons_of_mem _ h.1, h.2⟩
    rw [subRunsFrom] at h
    split at h
    · next hy =>
        rcases mem_cons.mp h with rfl | h
        · exact .inr ⟨mem_cons_self, hy⟩
        · exact hrest h
    · split at h
      · exact hrest h
      · rcases mem_cons.mp h with rfl | h
        · exact .inl rfl
        · exact hrest h

/-- What is left is kept, or the substitute. -/
theorem mem_subRuns {r : α} {x : α} (h : x ∈ subRuns keep r xs) : x = r ∨ x ∈ xs ∧ keep x = true :=
  mem_subRunsFrom h

section Strip

variable [BEq α] {r : α} {xs : List α}

theorem strip_sublist : (strip r xs).Sublist xs :=
  ( rdropWhile_prefix _ _).sublist.trans (dropWhile_sublist _)

variable [LawfulBEq α]

theorem head?_dropWhile_beq : (xs.dropWhile (· == r)).head? ≠ some r := by
  intro h
  have hnot := List.head?_dropWhile_not (· == r) xs
  rw [h] at hnot
  simp at hnot

/-- A stripped text begins with something else. -/
theorem head?_strip : (strip r xs).head? ≠ some r := by
  intro h
  obtain ⟨rest, hrest⟩ := rdropWhile_prefix (· == r) (xs.dropWhile (· == r))
  refine @head?_dropWhile_beq α _ r xs _ ?_
  rw [← hrest, List.head?_append, ← strip, h, Option.some_or]

/-- A stripped text ends with something else. -/
theorem getLast?_strip : (strip r xs).getLast? ≠ some r := by
  rw [strip, List.rdropWhile, List.getLast?_reverse]
  exact head?_dropWhile_beq

/-- **Texts without the character at their ends are left as they are.** -/
theorem strip_eq_self (hhead : xs.head? ≠ some r) (hlast : xs.getLast? ≠ some r) :
    strip r xs = xs := by
  have hfront : xs.dropWhile (· == r) = xs := by
    cases xs with
    | nil => rfl
    | cons x xs =>
      rw [dropWhile_cons_of_neg]
      simpa using hhead
  rw [strip, hfront, rdropWhile_eq_self_iff]
  intro hne hr
  rw [List.getLast?_eq_some_getLast hne] at hlast
  exact hlast (congrArg some (eq_of_beq hr))

theorem eq_of_strip_eq_nil (h : strip r xs = []) : ∀ x ∈ xs, x = r := by
  rw [strip, rdropWhile_eq_nil_iff] at h
  have hall : ∀ x ∈ xs.dropWhile (· == r), x = r := fun x hx => eq_of_beq (h x hx)
  cases hxs : xs.dropWhile (· == r) with
  | nil => exact fun x hx => eq_of_beq (dropWhile_eq_nil_iff.mp hxs x hx)
  | cons y ys =>
    refine absurd ?_ (@head?_dropWhile_beq α _ r xs _)
    rw [hxs, List.head?_cons, hall y (hxs ▸ mem_cons_self)]

end Strip

end PetlibroLocal
