import Mathlib.Data.List.Nodup
import Mathlib.Logic.Function.Basic

/-!
# Grouping a Stream of Inputs

A component that collects inputs into groups, several groups being open at the same time,
is described by which inputs went into which group. An input is identified by its
position in the stream. `Grouping` holds the open groups, one for each slot, and the
groups that were closed; `Grouping.Valid` says that every group lists inputs in stream
order and that no input is in two groups.

The moves `take`, `close` and `discard` and the passing of an input that no group takes
keep a grouping valid; a component is shown to use each input at most once by matching
each of its steps with such moves.
-/

variable {α ι : Type*}

/-- The open group of each slot and the closed groups, oldest first. -/
structure Grouping (α ι : Type*) where
  pending : ι → List (α × ℕ)
  closed : List (List (α × ℕ))

namespace Grouping

open List

/-- Nothing taken yet. -/
def empty : Grouping α ι where
  pending _ := []
  closed := []

/-- Every group is a selection of the inputs `xs`, in their order, and no two groups
share an input. -/
structure Valid (g : Grouping α ι) (xs : List α) : Prop where
  pending_sublist : ∀ i, (g.pending i).Sublist xs.zipIdx
  closed_sublist : ∀ c ∈ g.closed, c.Sublist xs.zipIdx
  pending_disjoint : ∀ i j, i ≠ j → (g.pending i).Disjoint (g.pending j)
  pending_closed : ∀ i, ∀ c ∈ g.closed, (g.pending i).Disjoint c
  closed_disjoint : g.closed.Pairwise List.Disjoint

theorem valid_empty : (empty : Grouping α ι).Valid [] where
  pending_sublist _ := nil_sublist _
  closed_sublist _ hc := absurd hc not_mem_nil
  pending_disjoint _ _ _ := disjoint_nil_left _
  pending_closed _ _ hc := absurd hc not_mem_nil
  closed_disjoint := List.Pairwise.nil

variable {xs : List α} {g : Grouping α ι}

theorem lt_of_mem_of_sublist {l : List (α × ℕ)} (h : l.Sublist xs.zipIdx) {x : α × ℕ} (hx : x ∈ l) :
    x.2 < xs.length := by
  obtain ⟨_, hlt, _⟩ := mem_zipIdx (h.subset hx)
  simpa using hlt

theorem Valid.skip (h : g.Valid xs) (x : α) : g.Valid (xs ++ [x]) := by
  have hsub : xs.zipIdx.Sublist (xs ++ [x]).zipIdx := by
    rw [zipIdx_append]
    exact sublist_append_left _ _
  exact
    { pending_sublist := fun i => (h.pending_sublist i).trans hsub
      closed_sublist := fun c hc => (h.closed_sublist c hc).trans hsub
      pending_disjoint := h.pending_disjoint
      pending_closed := h.pending_closed
      closed_disjoint := h.closed_disjoint }

theorem Valid.nodup_closed (h : g.Valid xs) : g.closed.flatten.Nodup := by
  refine nodup_flatten.mpr ⟨fun c hc => ?_, h.closed_disjoint⟩
  refine (h.closed_sublist c hc).nodup (List.Nodup.of_map Prod.snd ?_)
  rw [zipIdx_map_snd]
  exact nodup_range'

variable [DecidableEq ι]

/-- The open group of slot `i` takes an input. -/
def take (g : Grouping α ι) (i : ι) (x : α × ℕ) : Grouping α ι :=
  { g with pending := Function.update g.pending i (g.pending i ++ [x]) }

/-- The open group of slot `i` is dropped. -/
def discard (g : Grouping α ι) (i : ι) : Grouping α ι :=
  { g with pending := Function.update g.pending i [] }

/-- The open group of slot `i` is closed. -/
def close (g : Grouping α ι) (i : ι) : Grouping α ι where
  pending := Function.update g.pending i []
  closed := g.closed ++ [g.pending i]

/-- A slot takes the next input. -/
theorem Valid.take (h : g.Valid xs) (i : ι) (x : α) :
    (g.take i (x, xs.length)).Valid (xs ++ [x]) := by
  -- the new input is behind every grouped one, so it is in no other group
  have hfresh : ∀ l : List (α × ℕ), l.Sublist xs.zipIdx → l.Disjoint [(x, xs.length)] := by
    intro l hl y hy hy'
    obtain rfl := mem_singleton.mp hy'
    exact absurd (lt_of_mem_of_sublist hl hy) (Nat.lt_irrefl _)
  have hskip := h.skip x
  refine
    { pending_sublist := fun j => ?_
      closed_sublist := hskip.closed_sublist
      pending_disjoint := fun j k hne => ?_
      pending_closed := fun j c hc => ?_
      closed_disjoint := h.closed_disjoint }
  · simp only [Grouping.take, Function.update_apply]
    split_ifs with hj
    · rw [zipIdx_append]
      refine (h.pending_sublist i).append ?_
      simp
    · exact hskip.pending_sublist j
  · simp only [Grouping.take, Function.update_apply]
    split_ifs with hj hk hk
    · exact absurd (hj.trans hk.symm) hne
    · rw [disjoint_append_left]
      exact ⟨h.pending_disjoint i k (hj ▸ hne), disjoint_symm (hfresh _ (h.pending_sublist k))⟩
    · rw [disjoint_append_right]
      exact ⟨h.pending_disjoint j i (hk ▸ hne), hfresh _ (h.pending_sublist j)⟩
    · exact h.pending_disjoint j k hne
  · simp only [Grouping.take, Function.update_apply]
    split_ifs with hj
    · rw [disjoint_append_left]
      exact ⟨h.pending_closed i c hc, disjoint_symm (hfresh _ (h.closed_sublist c hc))⟩
    · exact h.pending_closed j c hc

/-- An open group may be dropped at any time. -/
theorem Valid.discard (h : g.Valid xs) (i : ι) : (g.discard i).Valid xs := by
  have hsub : ∀ j, ((g.discard i).pending j).Sublist (g.pending j) := by
    intro j
    simp only [Grouping.discard, Function.update_apply]
    split_ifs
    · exact nil_sublist _
    · exact List.Sublist.refl _
  exact
    { pending_sublist := fun j => (hsub j).trans (h.pending_sublist j)
      closed_sublist := h.closed_sublist
      pending_disjoint := fun j k hne => disjoint_of_subset_left (hsub j).subset
        (disjoint_of_subset_right (hsub k).subset (h.pending_disjoint j k hne))
      pending_closed := fun j c hc =>
        disjoint_of_subset_left (hsub j).subset (h.pending_closed j c hc)
      closed_disjoint := h.closed_disjoint }

/-- An open group may be closed at any time. -/
theorem Valid.close (h : g.Valid xs) (i : ι) : (g.close i).Valid xs := by
  have hdisc := h.discard i
  refine
    { pending_sublist := hdisc.pending_sublist
      closed_sublist := fun c hc => ?_
      pending_disjoint := hdisc.pending_disjoint
      pending_closed := fun j c hc => ?_
      closed_disjoint := ?_ }
  · rcases mem_append.mp hc with hold | hnew
    · exact h.closed_sublist c hold
    · obtain rfl := mem_singleton.mp hnew
      exact h.pending_sublist i
  · rcases mem_append.mp hc with hold | hnew
    · exact hdisc.pending_closed j c hold
    · obtain rfl := mem_singleton.mp hnew
      simp only [Grouping.close, Function.update_apply]
      split_ifs with hj
      · exact disjoint_nil_left _
      · exact h.pending_disjoint j i hj
  · refine pairwise_append.mpr ⟨h.closed_disjoint, pairwise_singleton _ _, ?_⟩
    intro c hc d hd
    obtain rfl := mem_singleton.mp hd
    exact disjoint_symm (h.pending_closed i c hc)

@[simp] theorem take_pending_same (g : Grouping α ι) (i : ι) (x : α × ℕ) :
    (g.take i x).pending i = g.pending i ++ [x] := Function.update_self _ _ _

@[simp] theorem discard_pending_same (g : Grouping α ι) (i : ι) :
    (g.discard i).pending i = [] := Function.update_self _ _ _

theorem take_pending_of_ne (g : Grouping α ι) {i j : ι} (x : α × ℕ) (h : j ≠ i) :
    (g.take i x).pending j = g.pending j := Function.update_of_ne h _ _

theorem discard_pending_of_ne (g : Grouping α ι) {i j : ι} (h : j ≠ i) :
    (g.discard i).pending j = g.pending j := Function.update_of_ne h _ _

theorem close_take (g : Grouping α ι) (i : ι) (x : α × ℕ) :
    (g.take i x).close i =
      { g.discard i with closed := g.closed ++ [g.pending i ++ [x]] } := by
  simp only [close, take, discard, Function.update_idem, Function.update_self]

end Grouping
