import PetlibroLocal.Lib.Json
import PetlibroLocal.Lib.Utf8

/-!
# JSON in UTF-8

Programs write JSON as bytes, piece by piece. `Encodes` says that bytes are the encoding of a text
that the grammar derives; the rules below put such pieces together with the brackets and commas
between them.
-/

namespace PetlibroLocal.JsonGrammar

open List

/-- The bytes of a literal of the program. -/
def lit (s : String) : Bytes := utf8 s.toList

/-- The bytes encode a text that the grammar derives. -/
def Encodes (lim : Option ℕ) (v : Json) (bs : Bytes) : Prop :=
  ∃ cs, utf8 cs = bs ∧ Derives lim (.value v) cs

/-- The bytes encode a member of an object. -/
def EncodesMember (lim : Option ℕ) (m : String × Json) (bs : Bytes) : Prop :=
  ∃ cs, utf8 cs = bs ∧ MemberText lim m cs

variable {lim : Option ℕ}

/-! ### Simple values -/

theorem encodes_bool (b : Bool) : Encodes lim (.bool b) (lit (if b then "true" else "false")) := by
  cases b with
  | true => exact ⟨_, rfl, .true⟩
  | false => exact ⟨_, rfl, .false⟩

/-- `%u`. -/
def natText (n : ℕ) : Bytes := utf8 (Nat.toDigits 10 n)

theorem encodes_nat {n : ℕ} (h : ∀ m ∈ lim, (Nat.toDigits 10 n).length ≤ m) :
    Encodes lim (.int n) (natText n) := by
  have hint := @NumberText.int lim false _ (isNumeral_toDigits n) h
  rw [decimal_toDigits] at hint
  exact ⟨_, rfl, .number hint⟩

theorem encodes_str {s : String} {cs : List Char} (h : StringText s cs) :
    Encodes lim (.str s) (utf8 cs) := ⟨cs, rfl, .str h⟩

/-! ### Commas -/

/-- Pieces with a comma before each but the first. -/
def separated (first : Bool) : List Bytes → Bytes
  | [] => []
  | piece :: pieces =>
    (if first then [] else lit ",") ++ piece ++ separated false pieces

/-- A list that is written with separators is the join of its parts. -/
theorem separated_eq (pieces : List Bytes) :
    separated true pieces = (lit ",").intercalate pieces := by
  have hrest : ∀ piece pieces, piece ++ separated false pieces =
      (lit ",").intercalate (piece :: pieces) := by
    intro piece pieces
    induction pieces generalizing piece with
    | nil => simp [separated]
    | cons piece' pieces ih =>
      rw [separated, append_assoc, ih, intercalate_cons_cons, append_assoc]
      rfl
  cases pieces with
  | nil => rfl
  | cons piece pieces =>
    rw [separated, append_assoc, hrest]
    rfl

/-- Pieces that each say whether a comma follows. -/
def terminated (pieces : List (Bytes × Bool)) : Bytes :=
  pieces.flatMap fun (piece, comma) => piece ++ if comma then lit "," else []

/-- A comma behind each piece but the last. -/
theorem terminated_eq {pieces : List (Bytes × Bool)}
    (h : pieces.map Prod.snd = List.replicate (pieces.length - 1) true ++ [false]) :
    terminated pieces = (lit ",").intercalate (pieces.map Prod.fst) := by
  induction pieces with
  | nil => rfl
  | cons piece pieces ih =>
    obtain ⟨piece, comma⟩ := piece
    cases pieces with
    | nil =>
      obtain rfl : comma = false := by simpa using h
      simp [terminated]
    | cons piece' pieces =>
      obtain ⟨rfl, hrest⟩ : comma = true ∧ (piece' :: pieces).map Prod.snd =
          List.replicate ((piece' :: pieces).length - 1) true ++ [false] := by
        simpa [replicate_succ] using h
      rw [terminated, flatMap_cons, ← terminated, ih hrest]
      simp only [map_cons, intercalate_cons_cons, if_true]

/-! ### Objects and arrays -/

theorem utf8_intercalate (ts : List (List Char)) :
    utf8 ([','].intercalate ts) = (lit ",").intercalate (ts.map utf8) := by
  induction ts with
  | nil => rfl
  | cons t ts ih =>
    cases ts with
    | nil => simp
    | cons t' ts =>
      rw [intercalate_cons_cons, utf8_append, utf8_append, ih]
      simp only [map_cons, intercalate_cons_cons]
      rfl

theorem exists_texts {α : Type} {R : α → List Char → Prop} {xs : List α} {pieces : List Bytes}
    (h : List.Forall₂ (fun x bs => ∃ cs, utf8 cs = bs ∧ R x cs) xs pieces) :
    ∃ ts, ts.map utf8 = pieces ∧ List.Forall₂ R xs ts := by
  induction h with
  | nil => exact ⟨[], rfl, .nil⟩
  | cons hx _ ih =>
    obtain ⟨t, rfl, ht⟩ := hx
    obtain ⟨ts, rfl, hts⟩ := ih
    exact ⟨t :: ts, rfl, .cons ht hts⟩

theorem encodesMember {k : String} {v : Json} {ks : List Char} {bs : Bytes} (hk : StringText k ks)
    (hv : Encodes lim v bs) : EncodesMember lim (k, v) (utf8 ks ++ (lit ":" ++ bs)) := by
  obtain ⟨cs, rfl, hv⟩ := hv
  refine ⟨ks ++ ':' :: cs, ?_, .mk hk hv⟩
  rw [utf8_append]
  rfl

/-- **An object from its members.** -/
theorem Encodes.obj {ms : List (String × Json)} {pieces : List Bytes}
    (h : List.Forall₂ (EncodesMember lim) ms pieces) (hne : ms ≠ []) :
    Encodes lim (.obj ms) (lit "\x7b" ++ ((lit ",").intercalate pieces ++ lit "\x7d")) := by
  obtain ⟨ts, rfl, hts⟩ := exists_texts h
  refine ⟨'{' :: ([','].intercalate ts ++ ['}']), ?_, .obj (derives_members hts hne)⟩
  rw [← utf8_intercalate, utf8_cons, utf8_append]
  rfl

/-- **An array from its elements.** -/
theorem Encodes.arr {vs : List Json} {pieces : List Bytes}
    (h : List.Forall₂ (Encodes lim) vs pieces) :
    Encodes lim (.arr vs) (lit "[" ++ ((lit ",").intercalate pieces ++ lit "]")) := by
  cases h with
  | nil => exact ⟨_, rfl, .arrNil blank_nil⟩
  | cons hv hvs =>
    obtain ⟨ts, hpieces, hts⟩ := exists_texts
      (R := fun v cs => Derives lim (.value v) cs) (List.Forall₂.cons hv hvs)
    refine ⟨'[' :: ([','].intercalate ts ++ [']']), ?_, .arr (derives_elements hts (by simp))⟩
    rw [← hpieces, ← utf8_intercalate, utf8_cons, utf8_append]
    rfl

/-- **A value that is written is a JSON text.** -/
theorem Encodes.jsonText {v : Json} {bs : Bytes} (h : Encodes lim v bs) :
    ∃ cs, utf8 cs = bs ∧ JsonText lim v cs := by
  obtain ⟨cs, rfl, hv⟩ := h
  refine ⟨cs, rfl, ?_⟩
  simpa using JsonText.mk blank_nil hv blank_nil

end PetlibroLocal.JsonGrammar
