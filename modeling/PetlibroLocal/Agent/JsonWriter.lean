import Mathlib.Data.List.Forall2
import PetlibroLocal.Lib.JsonBytes
import PetlibroLocal.Lib.Scan

/-!
# How the Agent Writes JSON

The helpers with which `plaf203_state_agent.c` appends to its response. Each is the text that it
appends. A C string is a list of bytes without the byte zero, and `key` is the literal of a key
with the colon behind it.
-/

namespace PetlibroLocal.Agent

open JsonGrammar List

/-! ### The helpers -/

/-- The digits of `%0nx`. -/
def hexPadded (width n : ℕ) : List Char :=
  (List.range width).reverse.map fun i => Nat.digitChar (n / 16 ^ i % 16)

/-- The characters that `json_string` writes with a letter behind a backslash. -/
def escapes : List (Char × Char) :=
  [('\\', '\\'), ('"', '"'), ('\x08', 'b'), ('\x0c', 'f'), ('\n', 'n'), ('\r', 'r'), ('\t', 't')]

/-- One byte in `json_string`. -/
def escapeByte (c : UInt8) : Bytes :=
  match escapes.find? fun e => e.1.toNat == c.toNat with
  | some (_, letter) => utf8 ['\\', letter]
  | none => if c.toNat < 0x20 then lit "\\u" ++ utf8 (hexPadded 4 c.toNat) else [c]

/-- `json_string`, of a C string. -/
def jsonString (v : Bytes) : Bytes :=
  lit "\"" ++ ((v.takeWhile (· != 0)).flatMap escapeByte ++ lit "\"")

/-- The literal of a key. -/
def key (k : String) : Bytes := lit "\"" ++ (lit k ++ lit "\":")

/-- `true` or `false`. -/
def boolText (b : Bool) : Bytes := lit (if b then "true" else "false")

/-! ### Strings -/

/-- One character of the text, as `json_string` writes it. -/
def escapeChar (c : Char) : List Char :=
  match escapes.find? fun e => e.1.toNat == c.toNat with
  | some (_, letter) => ['\\', letter]
  | none => if c.toNat < 0x20 then '\\' :: 'u' :: hexPadded 4 c.toNat else [c]

theorem escaped_of_mem_escapes {e : Char × Char} (h : e ∈ escapes) :
    escaped e.2 = some e.1 ∧ e.1.toNat < 128 := by
  have hall : escapes.all (fun e => escaped e.2 == some e.1 && decide (e.1.toNat < 128)) =
      true := by
    decide
  simpa using all_eq_true.mp hall e h

theorem chars_hexPadded {c : Char} (h : c.toNat < 0x20) :
    Chars [c] ('\\' :: 'u' :: hexPadded 4 c.toNat) := by
  have hall : ∀ n < 0x20, hexFour (Nat.digitChar (n / 16 ^ 3 % 16))
      (Nat.digitChar (n / 16 ^ 2 % 16)) (Nat.digitChar (n / 16 ^ 1 % 16))
      (Nat.digitChar (n / 16 ^ 0 % 16)) = some n ∧ isHigh n = false ∧ isLow n = false := by
    decide
  obtain ⟨hhex, hhigh, hlow⟩ := hall _ h
  have hunicode := Chars.unicode hhex hhigh hlow .nil
  rwa [Char.ofNat_toNat] at hunicode

theorem chars_escapeChar (c : Char) : Chars [c] (escapeChar c) := by
  unfold escapeChar
  split
  · rename_i d letter hfind
    obtain ⟨hescaped, -⟩ := escaped_of_mem_escapes (mem_of_find?_eq_some hfind)
    have hd : d.toNat = c.toNat := by simpa using List.find?_some hfind
    obtain rfl : d = c := by rw [← Char.ofNat_toNat d, hd, Char.ofNat_toNat]
    exact .escape hescaped .nil
  · rename_i hfind
    rw [List.find?_eq_none] at hfind
    split
    · rename_i hcontrol
      exact chars_hexPadded hcontrol
    · rename_i hcontrol
      refine .plain ?_ .nil
      have hne : ∀ e ∈ escapes, c ≠ e.1 := by
        rintro e he rfl
        exact hfind e he (by simp)
      simp only [isUnescaped, Bool.and_eq_true, decide_eq_true_eq, bne_iff_ne]
      exact ⟨⟨by omega, hne ('"', '"') (by simp [escapes])⟩, hne ('\\', '\\') (by simp [escapes])⟩

theorem flatMap_escapeByte (c : Char) :
    (String.utf8EncodeChar c).flatMap escapeByte = utf8 (escapeChar c) := by
  rcases utf8EncodeChar_cases c with ⟨hascii, -⟩ | ⟨hlarge, hbytes⟩
  · exact ascii_cases (p := fun c => (String.utf8EncodeChar c).flatMap escapeByte =
      utf8 (escapeChar c)) (by decide) hascii
  · have hfind : ∀ n, 128 ≤ n → (escapes.find? fun e => e.1.toNat == n) = none := by
      intro n hn
      rw [List.find?_eq_none]
      intro e he heq
      have hlt := (escaped_of_mem_escapes he).2
      rw [beq_iff_eq] at heq
      omega
    have hescape : escapeChar c = [c] := by
      rw [escapeChar, hfind _ hlarge]
      exact if_neg (by omega)
    have hbyte : ∀ b ∈ String.utf8EncodeChar c, escapeByte b = [b] := by
      intro b hb
      have hb := hbytes b hb
      rw [escapeByte, hfind _ hb]
      exact if_neg (by omega)
    rw [hescape, flatMap_congr hbyte, flatMap_singleton', utf8_cons, utf8_nil, append_nil]

theorem flatMap_utf8 (cs : List Char) :
    (utf8 cs).flatMap escapeByte = utf8 (cs.flatMap escapeChar) := by
  induction cs with
  | nil => rfl
  | cons c cs ih =>
    rw [utf8_cons, flatMap_append, flatMap_escapeByte, ih, flatMap_cons, utf8_append]

theorem zero_mem_utf8 {cs : List Char} (h : (0 : UInt8) ∈ utf8 cs) : Char.ofNat 0 ∈ cs := by
  obtain ⟨bs, bs', hsplit⟩ := append_of_mem h
  obtain ⟨xs, ys, rfl, -, -⟩ := utf8_eq_append_cons (by decide) hsplit
  simp

/-- **`json_string` writes a string of the grammar**, if its bytes are the encoding of a text. -/
theorem stringText_jsonString {cs : List Char} (h : Char.ofNat 0 ∉ cs) :
    ∃ text, jsonString (utf8 cs) = utf8 text ∧ StringText (String.ofList cs) text := by
  have hnonzero : ∀ b ∈ utf8 cs, (b != 0) = true := by
    intro b hb
    rw [bne_iff_ne]
    rintro rfl
    exact h (zero_mem_utf8 hb)
  have htake : (utf8 cs ++ []).takeWhile (· != 0) = utf8 cs :=
    takeWhile_append_exact hnonzero (by simp)
  rw [append_nil] at htake
  refine ⟨_, ?_, .mk (Chars.flatMap fun c _ => chars_escapeChar c)⟩
  rw [jsonString, htake, flatMap_utf8, utf8_cons, utf8_append]
  rfl

/-- A byte that `json_string` does not escape. -/
def isPlainByte (b : UInt8) : Bool := decide (0x20 ≤ b.toNat) && b != 0x22 && b != 0x5c

/-- No byte of a literal needs an escape. -/
def isPlain (s : String) : Bool := s.toByteArray.data.toList.all isPlainByte

theorem isUnescaped_of_isPlain {s : String} (h : isPlain s = true) :
    s.toList.all isUnescaped = true := by
  rw [isPlain, toList_toByteArray] at h
  refine all_eq_true.mpr fun c hc => ?_
  rcases utf8EncodeChar_cases c with ⟨hascii, hbyte⟩ | ⟨hlarge, -⟩
  · have hplain : isPlainByte (UInt8.ofNat c.toNat) = true :=
      all_eq_true.mp h _ (mem_flatMap.mpr ⟨c, hc, by simp [hbyte]⟩)
    have hall : ∀ n < 128, isPlainByte (UInt8.ofNat n) = isUnescaped (Char.ofNat n) := by decide
    rwa [hall _ hascii, Char.ofNat_toNat] at hplain
  · simp only [isUnescaped, Bool.and_eq_true, decide_eq_true_eq, bne_iff_ne]
    refine ⟨⟨by omega, ?_⟩, ?_⟩ <;> rintro rfl <;> exact absurd hlarge (by decide)

theorem zero_notMem_of_unescaped {s : String} (h : s.toList.all isUnescaped = true) :
    Char.ofNat 0 ∉ s.toList := by
  intro hmem
  have hplain := all_eq_true.mp h _ hmem
  exact absurd hplain (by decide)

theorem stringText_plain {k : String} (h : k.toList.all isUnescaped = true) :
    StringText k ('"' :: (k.toList ++ ['"'])) := by
  have hmk := StringText.mk (chars_self (all_eq_true.mp h))
  rwa [String.ofList_toList] at hmk

theorem encodes_plain {lim : Option ℕ} {s : String} (h : s.toList.all isUnescaped = true) :
    Encodes lim (.str s) (lit "\"" ++ (lit s ++ lit "\"")) := by
  have hstr := @encodes_str lim _ _ (stringText_plain h)
  rwa [utf8_cons, utf8_append] at hstr

theorem encodesMember_key {lim : Option ℕ} {k : String} {v : Json} {bs : Bytes}
    (hk : k.toList.all isUnescaped = true) (hv : Encodes lim v bs) :
    EncodesMember lim (k, v) (key k ++ bs) := by
  have hmember := encodesMember (stringText_plain hk) hv
  rw [utf8_cons, utf8_append] at hmember
  simpa [key, lit] using hmember

/-- **An object of members with literal keys**: of each entry its key, its value and the text of
the value. -/
theorem encodes_entries {lim : Option ℕ} {entries : List (String × Json × Bytes)}
    (hne : entries ≠ [])
    (hkeys : (entries.map Prod.fst).all (·.toList.all isUnescaped) = true)
    (hvalues : ∀ e ∈ entries, Encodes lim e.2.1 e.2.2) :
    Encodes lim (.obj (entries.map fun e => (e.1, e.2.1)))
      (lit "\x7b" ++ ((lit ",").intercalate (entries.map fun e => key e.1 ++ e.2.2) ++
        lit "\x7d")) := by
  refine Encodes.obj ?_ (by simpa using hne)
  rw [forall₂_map_left_iff, forall₂_map_right_iff, forall₂_same]
  intro e he
  exact encodesMember_key (all_eq_true.mp hkeys e.1 (mem_map_of_mem he)) (hvalues e he)

end PetlibroLocal.Agent
