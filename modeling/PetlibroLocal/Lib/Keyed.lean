import Mathlib.Data.Finset.Card
import Mathlib.Data.List.Dedup

/-!
# Lists Indexed by a Key

A dictionary built from a list by a key keeps, for each key, the last element that has it.
If the keys are pairwise distinct, looking a key up finds exactly the element with that key.
An ordered map keeps an element where the first one with its key was put (`upsert`).
-/

namespace PetlibroLocal

open List

variable {α κ : Type*} [DecidableEq κ] {key : α → κ} {xs ys : List α}

/-- The entry of a key: the last element that has it. -/
def byKey (key : α → κ) (xs : List α) (k : κ) : Option α := xs.reverse.find? fun x => key x = k

/-- The keys of the dictionary. -/
def keySet (key : α → κ) (xs : List α) : Finset κ := (xs.map key).toFinset

theorem mem_keySet {k : κ} : k ∈ keySet key xs ↔ ∃ x ∈ xs, key x = k := by
  rw [keySet, mem_toFinset, mem_map]

theorem byKey_eq_none_iff {k : κ} : byKey key xs k = none ↔ k ∉ keySet key xs := by
  rw [byKey, List.find?_eq_none, mem_keySet, not_exists]
  simp only [mem_reverse, decide_eq_true_eq, not_and]

theorem mem_of_byKey {k : κ} {x : α} (h : byKey key xs k = some x) : x ∈ xs ∧ key x = k := by
  refine ⟨mem_reverse.mp (mem_of_find?_eq_some h), ?_⟩
  simpa using List.find?_some h

/-- **With distinct keys a lookup finds the element with that key.** -/
theorem byKey_eq_some_iff (hnodup : (xs.map key).Nodup) {k : κ} {x : α} :
    byKey key xs k = some x ↔ x ∈ xs ∧ key x = k := by
  refine ⟨mem_of_byKey, fun ⟨hx, hk⟩ => ?_⟩
  cases hfound : byKey key xs k with
  | none => exact absurd (mem_keySet.mpr ⟨x, hx, hk⟩) (byKey_eq_none_iff.mp hfound)
  | some y =>
    obtain ⟨hy, hyk⟩ := mem_of_byKey hfound
    rw [inj_on_of_nodup_map hnodup hy hx (hyk.trans hk.symm)]

/-- No entry is lost exactly if the keys are distinct. -/
theorem card_keySet_eq_length_iff : (keySet key xs).card = xs.length ↔ (xs.map key).Nodup := by
  have hcard : (keySet key xs).card = (Multiset.ofList (xs.map key)).toFinset.card := rfl
  rw [hcard, ← length_map key, ← Multiset.coe_card, Multiset.toFinset_card_eq_card_iff_nodup,
    Multiset.coe_nodup]

/-- **Same length and same keys as a list with distinct keys**: then the keys are distinct. -/
theorem nodup_of_keySet_eq (hnodup : (xs.map key).Nodup) (hlen : ys.length = xs.length)
    (hkeys : keySet key ys = keySet key xs) : (ys.map key).Nodup := by
  rw [← card_keySet_eq_length_iff, hkeys, hlen]
  exact card_keySet_eq_length_iff.mpr hnodup

theorem length_eq_of_keySet_eq (hxs : (xs.map key).Nodup) (hys : (ys.map key).Nodup)
    (hkeys : keySet key ys = keySet key xs) : ys.length = xs.length := by
  rw [← card_keySet_eq_length_iff.mpr hxs, ← card_keySet_eq_length_iff.mpr hys, hkeys]

/-! ### Ordered maps -/

/-- The element takes the place of the first one with its key, or the last place. -/
def upsert (key : α → κ) (x : α) : List α → List α
  | [] => [x]
  | y :: ys => if key y = key x then x :: ys else y :: upsert key x ys

/-- A new key goes to the end. -/
theorem upsert_eq_concat {x : α} (h : ∀ y ∈ xs, key y ≠ key x) : upsert key x xs = xs ++ [x] := by
  induction xs with
  | nil => rfl
  | cons y ys ih =>
    obtain ⟨hy, hys⟩ := forall_mem_cons.mp h
    rw [upsert, if_neg hy, ih hys, cons_append]

/-- An entry with the key is replaced in its place. -/
theorem upsert_append_cons {x y : α} (h : ∀ z ∈ xs, key z ≠ key x) (hy : key y = key x) :
    upsert key x (xs ++ y :: ys) = xs ++ x :: ys := by
  induction xs with
  | nil => exact if_pos hy
  | cons z zs ih =>
    obtain ⟨hz, hzs⟩ := forall_mem_cons.mp h
    rw [cons_append, upsert, if_neg hz, ih hzs, cons_append]

end PetlibroLocal
