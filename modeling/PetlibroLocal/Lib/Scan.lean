import Mathlib.Data.List.Basic

/-!
# Scanning Lists

A scanner reads a list up to the first element that it does not take, and splits lists at
separators.
-/

namespace PetlibroLocal

open List

variable {α : Type*} {p : α → Bool} {body rest : List α}

/-- **Scanning takes the body**, if what follows starts with something else. -/
theorem takeWhile_append_exact (hbody : ∀ a ∈ body, p a = true)
    (hrest : ∀ a, rest.head? = some a → p a = false) : (body ++ rest).takeWhile p = body := by
  rw [takeWhile_append_of_pos hbody]
  cases rest with
  | nil => simp
  | cons a rest => simp [hrest a rfl]

/-- **And leaves what follows it.** -/
theorem dropWhile_append_exact (hbody : ∀ a ∈ body, p a = true)
    (hrest : ∀ a, rest.head? = some a → p a = false) : (body ++ rest).dropWhile p = rest := by
  rw [dropWhile_append_of_pos hbody]
  cases rest with
  | nil => simp
  | cons a rest => simp [hrest a rfl]

/-- Scanning stops at an element that fails the test. -/
theorem head?_dropWhile {l : List α} {a : α} (h : (l.dropWhile p).head? = some a) :
    p a = false := by
  have := List.head?_dropWhile_not p l
  rw [h] at this
  exact this

/-- All that is taken passes the test. -/
theorem mem_takeWhile {l : List α} {a : α} (h : a ∈ l.takeWhile p) : p a = true :=
  all_eq_true.mp all_takeWhile a h

/-- An element of joined parts is the separator or in one of the parts. -/
theorem mem_intercalate_of_mem {sep a : α} {ls : List (List α)} (h : a ∈ [sep].intercalate ls) :
    a = sep ∨ ∃ l ∈ ls, a ∈ l := by
  induction ls with
  | nil => simp at h
  | cons l ls ih =>
    cases ls with
    | nil =>
      rw [intercalate_singleton] at h
      exact .inr ⟨l, mem_cons_self, h⟩
    | cons l' ls =>
      rw [intercalate_cons_cons, append_assoc, mem_append, mem_append, mem_singleton] at h
      rcases h with h | h | h
      · exact .inr ⟨l, mem_cons_self, h⟩
      · exact .inl h
      · refine (ih h).imp_right ?_
        rintro ⟨m, hm, ha⟩
        exact ⟨m, mem_cons_of_mem l hm, ha⟩

section Split

variable [BEq α] [LawfulBEq α] {sep a : α}

/-- Without a separator there is one part. -/
theorem splitOn_of_notMem {l : List α} (h : sep ∉ l) : l.splitOn sep = [l] := by
  refine splitOnP_eq_singleton fun x hx => beq_eq_false_iff_ne.mpr ?_
  rintro rfl
  exact h hx

/-- The first separator ends the first part. -/
theorem splitOn_append_cons {l l' : List α} (h : sep ∉ l) :
    (l ++ sep :: l').splitOn sep = l :: l'.splitOn sep := by
  have hl : ∀ x ∈ l, (x == sep) = false := by
    intro x hx
    refine beq_eq_false_iff_ne.mpr ?_
    rintro rfl
    exact h hx
  exact splitOnP_append_cons_of_forall_mem (p := (· == sep)) hl sep (beq_self_eq_true sep) l'

/-- Splitting loses nothing but separators. -/
theorem exists_mem_splitOn {l : List α} (h : a ∈ l) (hne : a ≠ sep) :
    ∃ part ∈ l.splitOn sep, a ∈ part := by
  have hjoin : [sep].intercalate (l.splitOn sep) = l := intercalate_splitOn sep
  rw [← hjoin] at h
  exact (mem_intercalate_of_mem h).resolve_left hne

end Split

end PetlibroLocal
