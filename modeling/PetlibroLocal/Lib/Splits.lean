import Mathlib.Data.List.Induction

/-!
# Statements About Every Position of a List

`AtEach P es` says that `P` holds at every position of `es`, where `P` may look at what
stands before the position, at the entry itself and at what follows. With a list of events
it is a statement about every moment of a run. `Since p P es` says that some entry of `es`
satisfies `p` and that what follows it satisfies `P`; nested, it says that entries come in a
certain order.
-/

namespace PetlibroLocal

open List

variable {α : Type*}

/-- `P` holds at every position. -/
def AtEach (P : List α → α → List α → Prop) (es : List α) : Prop :=
  ∀ pre e post, es = pre ++ e :: post → P pre e post

theorem atEach_nil (P : List α → α → List α → Prop) : AtEach P [] := by
  intro pre e post h
  exact absurd h (append_ne_nil_of_right_ne_nil _ (cons_ne_nil _ _)).symm

variable {P : List α → α → List α → Prop} {xs es : List α} {p : α → Prop}

/-- The positions of a concatenation are those of its parts. -/
theorem atEach_append {ys : List α} :
    AtEach P (xs ++ ys) ↔
      AtEach (fun pre e post => P pre e (post ++ ys)) xs ∧
        AtEach (fun pre e post => P (xs ++ pre) e post) ys := by
  constructor
  · intro h
    constructor
    · rintro pre e post rfl
      exact h pre e (post ++ ys) (by simp)
    · rintro pre e post rfl
      exact h (xs ++ pre) e post (by simp)
  · rintro ⟨hxs, hys⟩ pre e post heq
    obtain ⟨mid, rfl, rfl⟩ | ⟨mid, rfl, hmid⟩ := append_eq_append_iff.mp heq
    · exact hys mid e post rfl
    · cases mid with
      | nil =>
        rw [nil_append] at hmid
        have := hys [] e post hmid.symm
        rwa [append_nil, append_nil] at this
      | cons x mid =>
        obtain ⟨rfl, rfl⟩ := List.cons.inj hmid
        exact hxs pre e mid rfl

theorem atEach_cons {x : α} :
    AtEach P (x :: xs) ↔ P [] x xs ∧ AtEach (fun pre e post => P (x :: pre) e post) xs := by
  constructor
  · intro h
    refine ⟨h [] x xs rfl, ?_⟩
    rintro pre e post rfl
    exact h (x :: pre) e post rfl
  · rintro ⟨hx, hxs⟩ pre e post heq
    cases pre with
    | nil =>
      obtain ⟨rfl, rfl⟩ := List.cons.inj heq
      exact hx
    | cons y pre =>
      obtain ⟨rfl, rfl⟩ := List.cons.inj heq
      exact hxs pre e post rfl

theorem atEach_concat {x : α} :
    AtEach P (xs ++ [x]) ↔ AtEach (fun pre e post => P pre e (post ++ [x])) xs ∧ P xs x [] := by
  rw [atEach_append, atEach_cons, and_iff_left (atEach_nil _), append_nil]

theorem atEach_congr {Q : List α → α → List α → Prop}
    (h : ∀ pre e post, es = pre ++ e :: post → (P pre e post ↔ Q pre e post)) :
    AtEach P es ↔ AtEach Q es := by
  constructor
  · intro hP pre e post heq
    exact (h pre e post heq).mp (hP pre e post heq)
  · intro hQ pre e post heq
    exact (h pre e post heq).mpr (hQ pre e post heq)

/-- **A statement about the past holds everywhere or fails for a first time.** -/
theorem atEach_or_first (P : List α → α → Prop) (es : List α) :
    AtEach (fun pre e _ => P pre e) es ∨
      ∃ pre e post, es = pre ++ e :: post ∧ ¬ P pre e ∧ AtEach (fun pre e _ => P pre e) pre := by
  induction es using List.reverseRecOn with
  | nil => exact .inl (atEach_nil _)
  | append_singleton es x ih =>
    obtain hall | ⟨pre, e, post, rfl, hfail, hbefore⟩ := ih
    · by_cases hx : P es x
      · exact .inl (atEach_concat.mpr ⟨hall, hx⟩)
      · exact .inr ⟨es, x, [], rfl, hx, hall⟩
    · exact .inr ⟨pre, e, post ++ [x], by simp, hfail, hbefore⟩

/-! ### Since an entry -/

/-- Some entry satisfies `p`, and what follows it satisfies `P`. -/
def Since (p : α → Prop) (P : List α → Prop) (es : List α) : Prop :=
  ∃ pre e post, es = pre ++ e :: post ∧ p e ∧ P post

theorem since_concat {P : List α → Prop} {e : α} (es : List α) (hp : p e) (hP : P []) :
    Since p P (es ++ [e]) :=
  ⟨es, e, [], rfl, hp, hP⟩

/-- More entries. -/
theorem Since.append {P Q : List α → Prop} (h : Since p P es) {more : List α}
    (hPQ : ∀ l, P l → Q (l ++ more)) : Since p Q (es ++ more) := by
  obtain ⟨pre, e, post, rfl, hp, hP⟩ := h
  exact ⟨pre, e, post ++ more, by rw [append_assoc, cons_append], hp, hPQ post hP⟩

/-- One more entry of a kind that all later ones are of. -/
theorem Since.concat {q : α → Prop} {e : α} (h : Since p (fun later => ∀ x ∈ later, q x) es)
    (he : q e) : Since p (fun later => ∀ x ∈ later, q x) (es ++ [e]) :=
  h.append fun _ hlater => forall_mem_append.mpr ⟨hlater, forall_mem_singleton.mpr he⟩

/-- Weaker conditions on the later entries. -/
theorem Since.mono {P Q : List α → Prop} (h : Since p P es) (hPQ : ∀ l, P l → Q l) :
    Since p Q es := by
  obtain ⟨pre, e, post, rfl, hp, hP⟩ := h
  exact ⟨pre, e, post, rfl, hp, hPQ post hP⟩

/-- The entry is the last one, or was there before. -/
theorem Since.of_concat {P : List α → Prop} {last : α} (h : Since p P (es ++ [last])) :
    p last ∧ P [] ∨ Since p (fun l => P (l ++ [last])) es := by
  obtain ⟨pre, e, post, heq, hp, hP⟩ := h
  rcases eq_nil_or_concat post with rfl | ⟨post, x, rfl⟩
  · obtain ⟨-, hlast⟩ := append_inj' heq rfl
    obtain rfl := singleton_inj.mp hlast
    exact .inl ⟨hp, hP⟩
  · rw [concat_eq_append, ← cons_append, ← append_assoc] at heq
    obtain ⟨rfl, hlast⟩ := append_inj' heq rfl
    obtain rfl := singleton_inj.mp hlast
    rw [concat_eq_append] at hP
    exact .inr ⟨pre, e, post, rfl, hp, hP⟩

/-! ### The last entry of a kind -/

/-- What `f` says about the last entry that it says something about. -/
def lastSome {β : Type*} (f : α → Option β) (es : List α) : Option β := (es.filterMap f).getLast?

theorem lastSome_concat_some {β : Type*} {f : α → Option β} {e : α} {b : β} (es : List α)
    (he : f e = some b) : lastSome f (es ++ [e]) = some b := by
  simp [lastSome, he]

theorem lastSome_concat_none {β : Type*} {f : α → Option β} {e : α} (es : List α)
    (he : f e = none) : lastSome f (es ++ [e]) = lastSome f es := by
  simp [lastSome, he]

end PetlibroLocal
