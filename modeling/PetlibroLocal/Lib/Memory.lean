import Mathlib.Data.List.Infix
import Mathlib.Data.Nat.Notation

/-!
# Computations on a Block of Memory

A program in C works on a block of memory through pointers into it. Here a computation gets the
cells of the block and returns a result and the cells as they are then; an access outside the
block makes it fail. Texts end at a terminator, and a function that is given a text reads it up to
there.

`Confined stop n c φ` is what is to be shown of a computation on a block with a terminator at
position `n`: it does not fail, it leaves the terminator where it is, its result satisfies `φ`,
and what is behind the terminator is neither read nor written.
-/

namespace PetlibroLocal.Memory

open List

variable {β α γ : Type}

/-- A computation on a block. It fails at an access outside the block. -/
abbrev Access (β α : Type) := StateT (List β) Option α

/-- Reads the cell at `i`. -/
def load (i : ℕ) : Access β β := fun m => m[i]?.map fun b => (b, m)

/-- Writes the cell at `i`. -/
def store (i : ℕ) (b : β) : Access β Unit := fun m =>
  if i < m.length then some ((), m.set i b) else none

/-- Writes the cells from `i` on. -/
def storeAll (i : ℕ) (bs : List β) : Access β Unit := fun m =>
  if i + bs.length ≤ m.length then some ((), m.take i ++ bs ++ m.drop (i + bs.length)) else none

/-- Reads `k` cells from `i` on. -/
def loadAll (i k : ℕ) : Access β (List β) := fun m =>
  if i + k ≤ m.length then some ((m.drop i).take k, m) else none

/-- A result that is not there makes the computation fail. -/
def demand (x : Option α) : Access β α := fun m => x.map (·, m)

theorem bind_of_eq {c : Access β α} {f : α → Access β γ} {m m' : List β} {x : α}
    (h : c m = some (x, m')) : (c >>= f) m = f x m' := by
  change (c m).bind (fun p => f p.1 p.2) = _
  rw [h]
  rfl

section Text

variable [DecidableEq β]

/-- The cells in front of the first terminator. -/
def text (stop : β) : List β → Option (List β)
  | [] => none
  | b :: m => if b = stop then some [] else (text stop m).map (b :: ·)

/-- Reads the text at `p`. -/
def loadText (stop : β) (p : ℕ) : Access β (List β) := fun m => (text stop (m.drop p)).map (·, m)

theorem text_append {stop : β} {m cells : List β} (h : text stop m = some cells) (rest : List β) :
    text stop (m ++ rest) = some cells := by
  induction m generalizing cells with
  | nil => cases h
  | cons b m ih =>
    rw [text] at h
    rw [cons_append, text]
    by_cases hb : b = stop
    · rwa [if_pos hb] at h ⊢
    · rw [if_neg hb] at h ⊢
      obtain ⟨cells', hcells, rfl⟩ := Option.map_eq_some_iff.mp h
      rw [ih hcells, Option.map_some]

theorem exists_text {stop : β} {m : List β} {n : ℕ} (h : m[n]? = some stop) :
    ∃ cells, text stop m = some cells ∧ cells.length ≤ n := by
  induction m generalizing n with
  | nil => cases h
  | cons b m ih =>
    by_cases hb : b = stop
    · exact ⟨[], by rw [text, if_pos hb], Nat.zero_le n⟩
    · cases n with
      | zero => exact absurd (Option.some.inj h) hb
      | succ n =>
        obtain ⟨cells, hcells, hle⟩ := ih (n := n) h
        exact ⟨b :: cells, by rw [text, if_neg hb, hcells]; rfl, Nat.succ_le_succ hle⟩

end Text

/-! ### Computations that stay in front of a terminator -/

/-- The block ends at the terminator, which is at position `n`. -/
structure Terminated (stop : β) (n : ℕ) (m : List β) : Prop where
  length : m.length = n + 1
  last : m[n]? = some stop

/-- **The computation is confined to the cells up to the terminator** at position `n`, and its
result satisfies `φ`. -/
def Confined (stop : β) (n : ℕ) (c : Access β α) (φ : α → Prop) : Prop :=
  ∀ m, Terminated stop n m →
    ∃ x m', Terminated stop n m' ∧ φ x ∧ ∀ rest, c (m ++ rest) = some (x, m' ++ rest)

namespace Confined

variable {stop : β} {n : ℕ} {c : Access β α} {φ : α → Prop} {χ : γ → Prop}

theorem pure {x : α} (h : φ x) : Confined stop n (pure x) φ :=
  fun m hm => ⟨x, m, hm, h, fun _ => rfl⟩

/-- One computation after the other. -/
theorem bind {f : α → Access β γ} (hc : Confined stop n c φ)
    (hf : ∀ x, φ x → Confined stop n (f x) χ) : Confined stop n (c >>= f) χ := by
  intro m hm
  obtain ⟨x, m', hm', hx, hrun⟩ := hc m hm
  obtain ⟨y, m'', hm'', hy, hrun'⟩ := hf x hx m' hm'
  refine ⟨y, m'', hm'', hy, fun rest => ?_⟩
  rw [bind_of_eq (hrun rest), hrun' rest]

theorem load {i : ℕ} (hi : i ≤ n) : Confined stop n (load i) fun _ => True := by
  intro m hm
  have hlt : i < m.length := by rw [hm.length]; omega
  refine ⟨m[i], m, hm, trivial, fun rest => ?_⟩
  rw [Memory.load, List.getElem?_append_left hlt, List.getElem?_eq_getElem hlt]
  rfl

/-- Only the terminator is ever written. -/
theorem store {i : ℕ} (hi : i ≤ n) : Confined stop n (store i stop) fun _ => True := by
  intro m hm
  have hlt : i < m.length := by rw [hm.length]; omega
  refine ⟨(), m.set i stop, ⟨?_, ?_⟩, trivial, fun rest => ?_⟩
  · rw [length_set, hm.length]
  · rw [List.getElem?_set]
    by_cases hin : i = n
    · rw [if_pos hin, if_pos (hin ▸ hlt)]
    · rw [if_neg hin, hm.last]
  · rw [Memory.store, length_append, if_pos (Nat.lt_add_right _ hlt), set_append_left _ _ hlt]

theorem demand {x : Option α} {a : α} (hx : x = some a) :
    Confined stop n (demand x) fun y => y = a := by
  subst hx
  exact fun m hm => ⟨a, m, hm, rfl, fun _ => rfl⟩

/-- A text ends in front of the terminator. -/
theorem loadText [DecidableEq β] {p : ℕ} (hp : p ≤ n) :
    Confined stop n (loadText stop p) fun cells => p + cells.length ≤ n := by
  intro m hm
  have hlast : (m.drop p)[n - p]? = some stop := by
    rw [List.getElem?_drop, Nat.add_sub_cancel' hp, hm.last]
  obtain ⟨cells, hcells, hle⟩ := exists_text hlast
  refine ⟨cells, m, hm, by omega, fun rest => ?_⟩
  have hdrop : (m ++ rest).drop p = m.drop p ++ rest :=
    drop_append_of_le_length (by rw [hm.length]; omega)
  rw [Memory.loadText, hdrop, text_append hcells]
  rfl

end Confined

/-! ### Searching -/

section Find

variable [DecidableEq β]

/-- Where the word occurs first. -/
def find (word : List β) : List β → Option ℕ
  | [] => if word = [] then some 0 else none
  | b :: cells => if word <+: b :: cells then some 0 else (find word cells).map (· + 1)

theorem find_eq_some {word cells : List β} {k : ℕ} :
    find word cells = some k ↔
      word <+: cells.drop k ∧ k ≤ cells.length ∧ ∀ j < k, ¬ word <+: cells.drop j := by
  induction cells generalizing k with
  | nil =>
    rw [find, drop_nil, prefix_nil]
    by_cases hword : word = []
    · simp only [hword, if_true, Option.some.injEq, length_nil, Nat.le_zero,
        drop_nil, prefix_rfl, not_true, true_and]
      constructor
      · rintro rfl
        exact ⟨rfl, fun j hj => absurd hj (Nat.not_lt_zero j)⟩
      · exact fun h => h.1.symm
    · simp only [hword, if_false, false_and, reduceCtorEq]
  | cons b cells ih =>
    rw [find]
    by_cases hhere : word <+: b :: cells
    · rw [if_pos hhere, Option.some.injEq]
      constructor
      · rintro rfl
        exact ⟨hhere, Nat.zero_le _, fun j hj => absurd hj (Nat.not_lt_zero j)⟩
      · rintro ⟨-, -, hfirst⟩
        by_contra hne
        exact hfirst 0 (Nat.pos_of_ne_zero (Ne.symm hne)) hhere
    · rw [if_neg hhere, Option.map_eq_some_iff]
      constructor
      · rintro ⟨k, hk, rfl⟩
        obtain ⟨hword, hle, hfirst⟩ := ih.mp hk
        refine ⟨hword, Nat.succ_le_succ hle, fun j hj => ?_⟩
        cases j with
        | zero => exact hhere
        | succ j => exact hfirst j (Nat.lt_of_succ_lt_succ hj)
      · rintro ⟨hword, hle, hfirst⟩
        cases k with
        | zero => exact absurd hword hhere
        | succ k =>
          refine ⟨k, ih.mpr ⟨hword, Nat.le_of_succ_le_succ hle, fun j hj => ?_⟩, rfl⟩
          exact hfirst (j + 1) (Nat.succ_lt_succ hj)

theorem find_of_start {word cells : List β} (h : word <+: cells) : find word cells = some 0 :=
  find_eq_some.mpr ⟨h, Nat.zero_le _, fun j hj => absurd hj (Nat.not_lt_zero j)⟩

theorem length_of_find {word cells : List β} {k : ℕ} (h : find word cells = some k) :
    k + word.length ≤ cells.length := by
  obtain ⟨hword, hle, -⟩ := find_eq_some.mp h
  have := hword.length_le
  rw [length_drop] at this
  omega

/-- **A search in the cells that have arrived** finds what a search in all of them finds, as soon
as it is there. -/
theorem find_of_isPrefix {word cells all : List β} {k : ℕ} (hcells : cells <+: all)
    (hall : find word all = some k) :
    find word cells = if k + word.length ≤ cells.length then some k else none := by
  obtain ⟨rest, rfl⟩ := hcells
  obtain ⟨hword, -, hfirst⟩ := find_eq_some.mp hall
  -- an occurrence in the cells is one in all of them
  have hlift : ∀ j ≤ cells.length, word <+: cells.drop j → word <+: (cells ++ rest).drop j := by
    intro j hj h
    rw [drop_append_of_le_length hj]
    exact h.trans (prefix_append _ _)
  by_cases hle : k + word.length ≤ cells.length
  · rw [if_pos hle]
    refine find_eq_some.mpr ⟨?_, by omega, fun j hj hin => hfirst j hj (hlift j (by omega) hin)⟩
    rw [drop_append_of_le_length (by omega)] at hword
    refine prefix_of_prefix_length_le hword (prefix_append _ rest) ?_
    rw [length_drop]
    omega
  · rw [if_neg hle]
    cases hfind : find word cells with
    | none => rfl
    | some j =>
      have hj := length_of_find hfind
      obtain ⟨hin, hjle, -⟩ := find_eq_some.mp hfind
      exact absurd (hlift j hjle hin) (hfirst j (by omega))

end Find

end PetlibroLocal.Memory
