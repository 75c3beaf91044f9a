import Mathlib.Computability.RegularExpressions

/-!
# Patterns over Classes of Symbols

The forms in which the patterns of a program are written, as regular expressions: a class of
symbols, a repetition, an optional part, and parts with a separator between them; and the words
that each of them matches.
-/

namespace PetlibroLocal.Regex

open RegularExpression List

variable {α : Type*}

/-- A class: one of the symbols `cs`. -/
def oneOf (cs : List α) : RegularExpression α := cs.foldr (fun c P => char c + P) 0

/-- One or more repetitions. -/
def many1 (P : RegularExpression α) : RegularExpression α := P * P.star

/-- An optional part. -/
def opt (P : RegularExpression α) : RegularExpression α := 1 + P

/-- Parts with a separator between them. -/
def separated (sep : α) (P : RegularExpression α) : RegularExpression α := P * (char sep * P).star

variable {P : RegularExpression α} {w cs : List α}

theorem mem_matches_add {Q : RegularExpression α} :
    w ∈ (P + Q).matches' ↔ w ∈ P.matches' ∨ w ∈ Q.matches' := by
  rw [matches'_add, Language.mem_add]

theorem mem_matches_mul {P Q : RegularExpression α} {w : List α} :
    w ∈ (P * Q).matches' ↔ ∃ x ∈ P.matches', ∃ y ∈ Q.matches', x ++ y = w := by
  rw [matches'_mul, Language.mem_mul]

theorem mem_matches_char {c : α} : w ∈ (char c).matches' ↔ w = [c] := by
  rw [matches'_char]
  exact Set.mem_singleton_iff

theorem mem_matches_char_mul {c : α} :
    w ∈ (char c * P).matches' ↔ ∃ y ∈ P.matches', w = c :: y := by
  rw [mem_matches_mul]
  constructor
  · rintro ⟨x, hx, y, hy, rfl⟩
    exact ⟨y, hy, by rw [mem_matches_char.mp hx]; rfl⟩
  · rintro ⟨y, hy, rfl⟩
    exact ⟨[c], mem_matches_char.mpr rfl, y, hy, rfl⟩

theorem mem_matches_oneOf : w ∈ (oneOf cs).matches' ↔ ∃ c ∈ cs, w = [c] := by
  induction cs with
  | nil =>
    have hzero : (oneOf ([] : List α)).matches' = 0 := rfl
    simp [hzero]
  | cons c cs ih =>
    have hcons : oneOf (c :: cs) = char c + oneOf cs := rfl
    rw [hcons, mem_matches_add, mem_matches_char, ih]
    simp

theorem mem_matches_star_oneOf : w ∈ (oneOf cs).star.matches' ↔ ∀ c ∈ w, c ∈ cs := by
  rw [matches'_star, Language.mem_kstar]
  constructor
  · rintro ⟨ws, rfl, hws⟩ c hc
    obtain ⟨x, hx, hcx⟩ := mem_flatten.mp hc
    obtain ⟨d, hd, rfl⟩ := mem_matches_oneOf.mp (hws x hx)
    rwa [mem_singleton.mp hcx]
  · intro h
    refine ⟨w.map fun c => [c], ?_, ?_⟩
    · induction w with
      | nil => rfl
      | cons c w ih => simp [← ih fun d hd => h d (mem_cons_of_mem _ hd)]
    · intro x hx
      obtain ⟨c, hc, rfl⟩ := mem_map.mp hx
      exact mem_matches_oneOf.mpr ⟨c, h c hc, rfl⟩

theorem mem_matches_many1_oneOf : w ∈ (many1 (oneOf cs)).matches' ↔ w ≠ [] ∧ ∀ c ∈ w, c ∈ cs := by
  rw [many1, mem_matches_mul]
  constructor
  · rintro ⟨x, hx, y, hy, rfl⟩
    obtain ⟨c, hc, rfl⟩ := mem_matches_oneOf.mp hx
    refine ⟨by simp, fun d hd => ?_⟩
    rcases mem_cons.mp hd with rfl | hd
    · exact hc
    · exact mem_matches_star_oneOf.mp hy d hd
  · rintro ⟨hne, h⟩
    cases w with
    | nil => exact absurd rfl hne
    | cons c w =>
      exact ⟨[c], mem_matches_oneOf.mpr ⟨c, h c mem_cons_self, rfl⟩, w,
        mem_matches_star_oneOf.mpr fun d hd => h d (mem_cons_of_mem _ hd), rfl⟩

/-- **Parts with a separator between them.** -/
theorem mem_matches_separated {sep : α} :
    w ∈ (separated sep P).matches' ↔
      ∃ ws : List (List α), ws ≠ [] ∧ (∀ x ∈ ws, x ∈ P.matches') ∧ [sep].intercalate ws = w := by
  rw [separated, mem_matches_mul]
  have hjoin : ∀ (x : List α) (ws : List (List α)),
      [sep].intercalate (x :: ws) = x ++ (ws.map (sep :: ·)).flatten := by
    intro x ws
    induction ws generalizing x with
    | nil => simp
    | cons y ws ih => simp [intercalate_cons_cons, ih]
  constructor
  · rintro ⟨x, hx, y, hy, rfl⟩
    rw [matches'_star, Language.mem_kstar] at hy
    obtain ⟨ys, rfl, hys⟩ := hy
    -- Each repetition is the separator and one more part.
    have hparts : ∃ ws : List (List α), (∀ z ∈ ws, z ∈ P.matches') ∧ ys = ws.map (sep :: ·) := by
      induction ys with
      | nil => exact ⟨[], by simp, rfl⟩
      | cons y ys ih =>
        obtain ⟨ws, hws, rfl⟩ := ih fun z hz => hys z (mem_cons_of_mem _ hz)
        obtain ⟨z, hz, rfl⟩ := mem_matches_char_mul.mp (hys y mem_cons_self)
        exact ⟨z :: ws, forall_mem_cons.mpr ⟨hz, hws⟩, rfl⟩
    obtain ⟨ws, hws, rfl⟩ := hparts
    exact ⟨x :: ws, by simp, forall_mem_cons.mpr ⟨hx, hws⟩, hjoin x ws⟩
  · rintro ⟨ws, hne, hws, rfl⟩
    cases ws with
    | nil => exact absurd rfl hne
    | cons x ws =>
      obtain ⟨hx, hws⟩ := forall_mem_cons.mp hws
      refine ⟨x, hx, _, ?_, (hjoin x ws).symm⟩
      rw [matches'_star, Language.mem_kstar]
      refine ⟨_, rfl, fun y hy => ?_⟩
      obtain ⟨z, hz, rfl⟩ := mem_map.mp hy
      exact mem_matches_char_mul.mpr ⟨z, hws z hz, rfl⟩

end PetlibroLocal.Regex
