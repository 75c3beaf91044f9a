import Mathlib.Data.List.Forall2

/-!
# Checked Computations

A check that fails stops a computation with an error. These rules say what a computation that
ended well has passed.
-/

namespace PetlibroLocal

variable {ε α β : Type}

theorem ite_error_eq_ok {c : Prop} [Decidable c] {e : ε} {x : Except ε α} {a : α} :
    (if c then .error e else x) = .ok a ↔ ¬c ∧ x = .ok a := by
  by_cases hc : c <;> simp [hc]

theorem bind_eq_ok {x : Except ε α} {f : α → Except ε β} {b : β} :
    (x >>= f) = .ok b ↔ ∃ a, x = .ok a ∧ f a = .ok b := by
  cases x with
  | error | ok => simp [bind, Except.bind]

/-- A check that raises `e` if it fails. -/
def require (p : Prop) [Decidable p] (e : ε) : Except ε Unit := if p then .ok () else .error e

theorem require_eq_ok {p : Prop} [Decidable p] {e : ε} {u : Unit} : require p e = .ok u ↔ p := by
  by_cases hp : p <;> simp [require, hp]

theorem require_of {p : Prop} [Decidable p] (hp : p) (e : ε) : require p e = .ok () := if_pos hp

/-- **A list is checked element by element.** -/
theorem mapM_eq_ok {f : α → Except ε β} {xs : List α} {ys : List β} :
    xs.mapM f = .ok ys ↔ List.Forall₂ (fun x y => f x = .ok y) xs ys := by
  induction xs generalizing ys with
  | nil =>
    rw [List.mapM_nil, List.forall₂_nil_left_iff]
    constructor
    · intro h
      exact (Except.ok.inj h).symm
    · rintro rfl
      rfl
  | cons x xs ih =>
    rw [List.mapM_cons, bind_eq_ok, List.forall₂_cons_left_iff]
    constructor
    · rintro ⟨y, hy, h⟩
      obtain ⟨zs, hzs, h⟩ := bind_eq_ok.mp h
      exact ⟨y, zs, hy, ih.mp hzs, (Except.ok.inj h).symm⟩
    · rintro ⟨y, zs, hy, hzs, rfl⟩
      exact ⟨y, hy, bind_eq_ok.mpr ⟨zs, ih.mpr hzs, rfl⟩⟩

theorem mapM_zipIdx_eq_ok {f : α × ℕ → Except ε β} {P : α → β → Prop} {xs : List α}
    {ys : List β} (hf : ∀ x i y, f (x, i) = .ok y ↔ P x y) :
    xs.zipIdx.mapM f = .ok ys ↔ List.Forall₂ P xs ys := by
  have hrel : (fun p y => f p = .ok y) = fun (p : α × ℕ) y => P p.1 y :=
    funext₂ fun p y => propext (hf p.1 p.2 y)
  rw [mapM_eq_ok, hrel, ← List.forall₂_map_left_iff (f := Prod.fst), List.zipIdx_map_fst]

end PetlibroLocal
