import PetlibroLocal.Lib.Keyed

/-!
# Dictionaries

A dictionary of Python is a list of pairs, in the order in which the keys were added. It is read
by `List.lookup`. A key that is there keeps its place when its value changes.

* `setItem`, `update`, `pop` — `d[k] = v`, `d.update(e)` (and `d | e`), `d.pop(k, None)`;
* `lookup_setItem`, `lookup_update`, `lookup_pop` — what is read afterwards;
* `nodup_setItem`, `nodup_update`, `mem_keys_setItem` — the keys.
-/

namespace PetlibroLocal.Dict

open List

variable {κ α : Type*} [DecidableEq κ]

/-- `d[k] = v`. -/
def setItem (d : List (κ × α)) (k : κ) (v : α) : List (κ × α) := upsert Prod.fst (k, v) d

/-- `d.update(e)`. -/
def update (d e : List (κ × α)) : List (κ × α) := e.foldl (fun d m => setItem d m.1 m.2) d

/-- `d.pop(k, None)`. -/
def pop (d : List (κ × α)) (k : κ) : List (κ × α) := d.filter (·.1 ≠ k)

variable {d e : List (κ × α)} {k k' : κ} {v : α}

theorem lookup_cons_eq : ((k', v) :: d).lookup k = if k = k' then some v else d.lookup k := by
  rw [lookup_cons]
  by_cases h : k = k'
  · simp [h]
  · rw [beq_eq_false_iff_ne.mpr h, if_neg h]

theorem lookup_setItem :
    (setItem d k v).lookup k' = if k' = k then some v else d.lookup k' := by
  induction d with
  | nil => rw [setItem, upsert, lookup_cons_eq]
  | cons m d ih =>
    obtain ⟨k₀, v₀⟩ := m
    simp only [setItem, upsert] at ih ⊢
    by_cases hk : k₀ = k
    · rw [if_pos hk, lookup_cons_eq, lookup_cons_eq, hk]
      split <;> rfl
    · rw [if_neg hk, lookup_cons_eq, lookup_cons_eq, ih]
      by_cases h : k' = k₀
      · rw [if_pos h, if_neg (h ▸ hk), if_pos h]
      · rw [if_neg h, if_neg h]

@[simp] theorem lookup_setItem_self : (setItem d k v).lookup k = some v := by
  rw [lookup_setItem, if_pos rfl]

theorem lookup_setItem_of_ne (h : k' ≠ k) : (setItem d k v).lookup k' = d.lookup k' := by
  rw [lookup_setItem, if_neg h]

theorem lookup_update_of_notMem (h : k ∉ e.map Prod.fst) : (update d e).lookup k = d.lookup k := by
  induction e generalizing d with
  | nil => rfl
  | cons m e ih =>
    rw [map_cons, mem_cons, not_or] at h
    rw [update, foldl_cons]
    exact (ih h.2).trans (lookup_setItem_of_ne h.1)

theorem lookup_pop : (pop d k).lookup k' = if k' = k then none else d.lookup k' := by
  induction d with
  | nil => simp [pop]
  | cons m d ih =>
    obtain ⟨k₀, v₀⟩ := m
    rw [pop] at ih ⊢
    by_cases hk : k₀ = k
    · rw [filter_cons_of_neg (by simpa using hk), ih, lookup_cons_eq, hk]
      split <;> rfl
    · rw [filter_cons_of_pos (by simpa using hk), lookup_cons_eq, lookup_cons_eq, ih]
      by_cases h : k' = k₀
      · rw [if_pos h, if_neg (h ▸ hk), if_pos h]
      · rw [if_neg h, if_neg h]

theorem lookup_pop_of_ne (h : k' ≠ k) : (pop d k).lookup k' = d.lookup k' := by
  rw [lookup_pop, if_neg h]

/-! ### Members -/

theorem mem_of_lookup (h : d.lookup k = some v) : (k, v) ∈ d := by
  obtain ⟨l₁, l₂, rfl, -⟩ := lookup_eq_some_iff.mp h
  exact mem_append_right _ mem_cons_self

theorem mem_setItem {m : κ × α} (h : m ∈ setItem d k v) : m = (k, v) ∨ m ∈ d := by
  induction d with
  | nil => exact .inl (mem_singleton.mp h)
  | cons m' d ih =>
    simp only [setItem, upsert] at h ih
    split at h
    · rcases mem_cons.mp h with h | h
      · exact .inl h
      · exact .inr (mem_cons_of_mem _ h)
    · rcases mem_cons.mp h with h | h
      · exact .inr (h ▸ mem_cons_self)
      · exact (ih h).imp_right (mem_cons_of_mem _)

theorem lookup_filter {p : κ → Bool} (hk : p k = true) :
    (d.filter fun m => p m.1).lookup k = d.lookup k := by
  induction d with
  | nil => rfl
  | cons m d ih =>
    obtain ⟨k₀, v₀⟩ := m
    rw [lookup_cons_eq, filter_cons]
    split
    · rw [lookup_cons_eq, ih]
    · next hp =>
        have hne : k ≠ k₀ := by
          rintro rfl
          exact hp hk
        rw [if_neg hne, ih]

/-! ### Keys -/

theorem keys_setItem :
    (setItem d k v).map Prod.fst =
      if k ∈ d.map Prod.fst then d.map Prod.fst else d.map Prod.fst ++ [k] := by
  induction d with
  | nil => rfl
  | cons m d ih =>
    obtain ⟨k₀, v₀⟩ := m
    simp only [setItem, upsert] at ih ⊢
    by_cases hk : k₀ = k
    · simp [hk]
    · rw [if_neg hk, map_cons, ih]
      simp only [map_cons, mem_cons, Ne.symm hk, false_or]
      split <;> rfl

theorem mem_keys_setItem : k' ∈ (setItem d k v).map Prod.fst ↔ k' = k ∨ k' ∈ d.map Prod.fst := by
  rw [keys_setItem]
  split
  · next h => exact ⟨.inr, fun h' => h'.elim (fun heq => heq ▸ h) id⟩
  · rw [mem_append, mem_singleton, or_comm]

theorem nodup_setItem (h : (d.map Prod.fst).Nodup) : ((setItem d k v).map Prod.fst).Nodup := by
  rw [keys_setItem]
  split
  · exact h
  · next hk => exact nodup_append'.mpr ⟨h, nodup_singleton k, by simpa using hk⟩

theorem nodup_update (h : (d.map Prod.fst).Nodup) : ((update d e).map Prod.fst).Nodup := by
  induction e generalizing d with
  | nil => exact h
  | cons m e ih => exact ih (nodup_setItem h)

/-- What is read after an update: the new value, if there is one. -/
theorem lookup_update (h : (e.map Prod.fst).Nodup) :
    (update d e).lookup k = (e.lookup k).or (d.lookup k) := by
  induction e generalizing d with
  | nil => rfl
  | cons m e ih =>
    obtain ⟨k₀, v₀⟩ := m
    rw [map_cons, nodup_cons] at h
    rw [update, foldl_cons, ← update, ih h.2, lookup_setItem, lookup_cons_eq]
    by_cases hk : k = k₀
    · subst hk
      have hnone : e.lookup k = none := lookup_eq_none_iff.mpr fun m hm => by
        have hne : k ≠ m.1 := fun heq => h.1 (mem_map.mpr ⟨m, hm, heq.symm⟩)
        simpa using hne
      rw [hnone, if_pos rfl, if_pos rfl, Option.none_or, Option.some_or]
    · rw [if_neg hk, if_neg hk]

theorem exists_lookup_update (h : (d.lookup k).isSome = true) :
    ∃ v, (update d e).lookup k = some v := by
  induction e generalizing d with
  | nil => exact Option.isSome_iff_exists.mp h
  | cons m e ih =>
    refine @ih (setItem d m.1 m.2) ?_
    rw [lookup_setItem]
    split
    · rfl
    · exact h

end PetlibroLocal.Dict
