import Mathlib.Data.List.Forall2
import PetlibroLocal.Lib.ByteChars
import PetlibroLocal.Lib.Json
import PetlibroLocal.Lib.Scan

/-!
# Writing JSON

`json.dumps` of Python, without white space: a character that is not printable ASCII is written
with its number, and above the basic plane as a pair of surrogates. What is written is ASCII, and
the grammar derives it for the value.
-/

namespace PetlibroLocal.JsonGrammar

open List

/-- The escape of a code unit. -/
def hexEscape (n : ℕ) : List Char :=
  ['\\', 'u', Nat.digitChar (n / 4096 % 16), Nat.digitChar (n / 256 % 16),
    Nat.digitChar (n / 16 % 16), Nat.digitChar (n % 16)]

/-- A character as `json.dumps` writes it. -/
def dumpsChar (c : Char) : List Char :=
  if c = '"' then ['\\', '"']
  else if c = '\\' then ['\\', '\\']
  else if c = '\n' then ['\\', 'n']
  else if c = '\r' then ['\\', 'r']
  else if c = '\t' then ['\\', 't']
  else if c = '\x0c' then ['\\', 'f']
  else if c = '\x08' then ['\\', 'b']
  else if 0x20 ≤ c.toNat ∧ c.toNat ≤ 0x7e then [c]
  else if c.toNat < 0x10000 then hexEscape c.toNat
  else hexEscape (0xd800 + (c.toNat - 0x10000) / 0x400) ++
    hexEscape (0xdc00 + (c.toNat - 0x10000) % 0x400)

/-- A string. -/
def dumpsString (s : String) : List Char := '"' :: (s.toList.flatMap dumpsChar ++ ['"'])

/-- A number. -/
def dumpsInt (n : ℤ) : List Char := sign (n < 0) ++ Nat.toDigits 10 n.natAbs

/-- A member of a dictionary: its key and the text of its value. -/
def dumpsMember (member : String × List Char) : List Char := dumpsString member.1 ++ ':' :: member.2

/-- A dictionary, with the texts of its values. -/
def dumpsDict (members : List (String × List Char)) : List Char :=
  '{' :: ([','].intercalate (members.map dumpsMember) ++ ['}'])

/-! ### Strings without escapes -/

/-- The character is printable ASCII and needs no escape. -/
def IsPlain (c : Char) : Prop := 0x20 ≤ c.toNat ∧ c.toNat < 0x7f ∧ c ≠ '"' ∧ c ≠ '\\'

instance : DecidablePred IsPlain := fun _ => inferInstanceAs (Decidable (_ ∧ _))

theorem isPlain_of_all {cs : List Char} (h : cs.all (IsPlain ·) = true) : ∀ c ∈ cs, IsPlain c := by
  simpa using h

variable {lim : Option ℕ} {c : Char}

theorem dumpsChar_plain (h : IsPlain c) : dumpsChar c = [c] := by
  have hctrl : ∀ d : Char, d.toNat < 0x20 → c ≠ d := by
    rintro d hd rfl
    have := h.1
    omega
  have hprint : 0x20 ≤ c.toNat ∧ c.toNat ≤ 0x7e := ⟨h.1, by have := h.2.1; omega⟩
  rw [dumpsChar, if_neg h.2.2.1, if_neg h.2.2.2, if_neg (hctrl '\n' (by decide)),
    if_neg (hctrl '\r' (by decide)), if_neg (hctrl '\t' (by decide)),
    if_neg (hctrl '\x0c' (by decide)), if_neg (hctrl '\x08' (by decide)), if_pos hprint]

theorem dumpsString_plain {s : String} (h : ∀ c ∈ s.toList, IsPlain c) :
    dumpsString s = '"' :: (s.toList ++ ['"']) := by
  have hflat : s.toList.flatMap dumpsChar = s.toList := by
    rw [flatMap_congr fun c hc => dumpsChar_plain (h c hc), flatMap_singleton']
  rw [dumpsString, hflat]

theorem dumpsInt_natCast (n : ℕ) : dumpsInt n = Nat.toDigits 10 n := by
  have hneg : ¬ (n : ℤ) < 0 := by omega
  rw [dumpsInt, decide_eq_false hneg, Int.natAbs_natCast]
  rfl

/-! ### What is written is ASCII -/

theorem isAscii_hexEscape (n : ℕ) : isAscii (hexEscape n) = true := by
  have hall : ∀ d < 16, (Nat.digitChar d).toNat < 128 := by decide
  have hdigit : ∀ m, (Nat.digitChar (m % 16)).toNat < 128 := fun m =>
    hall _ (Nat.mod_lt m (by decide))
  simp [isAscii, hexEscape, hdigit]

theorem isAscii_dumpsChar (c : Char) : isAscii (dumpsChar c) = true := by
  unfold dumpsChar
  split_ifs with _ _ _ _ _ _ _ hprint
  any_goals decide
  · have hlt : c.toNat < 128 := by omega
    simp [isAscii, hlt]
  · exact isAscii_hexEscape _
  · rw [isAscii, all_append]
    exact Bool.and_eq_true_iff.mpr ⟨isAscii_hexEscape _, isAscii_hexEscape _⟩

@[simp] theorem isAscii_dumpsString (s : String) : isAscii (dumpsString s) = true := by
  have hchars : isAscii (s.toList.flatMap dumpsChar) = true := by
    rw [isAscii, all_flatMap]
    exact all_eq_true.mpr fun c _ => isAscii_dumpsChar c
  rw [isAscii] at hchars
  simp [dumpsString, isAscii, hchars]

@[simp] theorem isAscii_dumpsInt (n : ℤ) : isAscii (dumpsInt n) = true := by
  have hdigits : isAscii (Nat.toDigits 10 n.natAbs) = true := by
    refine all_eq_true.mpr fun c hc => decide_eq_true ?_
    have := isDigit_iff.mp ((isNumeral_toDigits _).isDigit c hc)
    omega
  have hsign : ∀ neg, isAscii (sign neg) = true := by decide
  rw [dumpsInt, isAscii, all_append]
  exact Bool.and_eq_true_iff.mpr ⟨hsign _, hdigits⟩

/-- **What is written is ASCII** if the texts of the values are. -/
theorem isAscii_dumpsDict {ms : List (String × List Char)}
    (h : (ms.all fun m => isAscii m.2) = true) : isAscii (dumpsDict ms) = true := by
  refine all_eq_true.mpr fun c hc => decide_eq_true ?_
  rw [dumpsDict, mem_cons, mem_append, mem_singleton] at hc
  rcases hc with rfl | hc | rfl
  · decide
  · rcases mem_intercalate_of_mem hc with rfl | ⟨text, htext, hc⟩
    · decide
    · obtain ⟨m, hm, rfl⟩ := mem_map.mp htext
      rw [dumpsMember, mem_append, mem_cons] at hc
      rcases hc with hc | rfl | hc
      · exact lt_of_isAscii (isAscii_dumpsString m.1) c hc
      · decide
      · exact lt_of_isAscii (all_eq_true.mp h m hm) c hc
  · decide

/-! ### What is written is JSON -/

theorem hexValue_digitChar {n : ℕ} (h : n < 16) : hexValue (Nat.digitChar n) = some n := by
  have hall : ∀ n < 16, hexValue (Nat.digitChar n) = some n := by decide
  exact hall n h

theorem hexFour_digitChar {n : ℕ} (h : n < 0x10000) :
    hexFour (Nat.digitChar (n / 4096 % 16)) (Nat.digitChar (n / 256 % 16))
      (Nat.digitChar (n / 16 % 16)) (Nat.digitChar (n % 16)) = some n := by
  have hsum : ((n / 4096 % 16 * 16 + n / 256 % 16) * 16 + n / 16 % 16) * 16 + n % 16 = n := by
    omega
  have hdigit : ∀ m, hexValue (Nat.digitChar (m % 16)) = some (m % 16) := fun m =>
    hexValue_digitChar (Nat.mod_lt m (by decide))
  simp only [hexFour, hdigit, Option.bind_eq_bind, Option.bind_some, hsum]
  rfl

/-- **A character is written by a rule of the grammar**: as it is, with a letter, with its number,
or as a pair of surrogates. -/
theorem chars_dumpsChar (c : Char) : Chars [c] (dumpsChar c) := by
  by_cases hletter : c ∈ ['"', '\\', '\n', '\r', '\t', '\x0c', '\x08']
  · simp only [mem_cons, not_mem_nil, or_false] at hletter
    rcases hletter with rfl | rfl | rfl | rfl | rfl | rfl | rfl <;> exact .escape (by decide) .nil
  · simp only [mem_cons, not_mem_nil, or_false, not_or] at hletter
    obtain ⟨hquote, hbackslash, h₁, h₂, h₃, h₄, h₅⟩ := hletter
    rw [dumpsChar, if_neg hquote, if_neg hbackslash, if_neg h₁, if_neg h₂, if_neg h₃, if_neg h₄,
      if_neg h₅]
    have hvalid : c.toNat < 0xd800 ∨ 0xdfff < c.toNat ∧ c.toNat < 0x110000 := c.valid
    split_ifs with hprint hbmp
    · refine .plain ?_ .nil
      simp [isUnescaped, hprint.1, hquote, hbackslash]
    · have hchars := Chars.unicode (hexFour_digitChar hbmp) (by simp [isHigh]; omega)
        (by simp [isLow]; omega) .nil
      rwa [Char.ofNat_toNat] at hchars
    · have hchars := Chars.pair
        (hexFour_digitChar (show 0xd800 + (c.toNat - 0x10000) / 0x400 < 0x10000 by omega))
        (by simp [isHigh]; omega)
        (hexFour_digitChar (show 0xdc00 + (c.toNat - 0x10000) % 0x400 < 0x10000 by omega))
        (by simp [isLow]; omega) .nil
      have hpair : pairChar (0xd800 + (c.toNat - 0x10000) / 0x400)
          (0xdc00 + (c.toNat - 0x10000) % 0x400) = c := by
        rw [pairChar, show 0x10000 + (0xd800 + (c.toNat - 0x10000) / 0x400 - 0xd800) * 0x400 +
          (0xdc00 + (c.toNat - 0x10000) % 0x400 - 0xdc00) = c.toNat by omega, Char.ofNat_toNat]
      rwa [hpair] at hchars

theorem stringText_dumpsString (s : String) : StringText s (dumpsString s) := by
  have htext : StringText (String.ofList s.toList) (dumpsString s) :=
    .mk (Chars.flatMap fun c _ => chars_dumpsChar c)
  rwa [String.ofList_toList] at htext

theorem derives_dumpsInt {n : ℕ} (h : ∀ m ∈ lim, (Nat.toDigits 10 n).length ≤ m) :
    Derives lim (.value (.int n)) (dumpsInt n) := by
  have hnumber : NumberText lim (.int (signed false (decimal (Nat.toDigits 10 n))))
      (sign false ++ Nat.toDigits 10 n) :=
    .int (isNumeral_toDigits n) h
  rw [decimal_toDigits] at hnumber
  rw [dumpsInt_natCast]
  exact .number hnumber

theorem derives_dumpsDict {ms : List (String × Json)} {ts : List (String × List Char)}
    (h : Forall₂ (fun m t => m.1 = t.1 ∧ Derives lim (.value m.2) t.2) ms ts)
    (hne : ms ≠ []) : Derives lim (.value (.obj ms)) (dumpsDict ts) := by
  refine .obj (derives_members (forall₂_map_right_iff.mpr (h.imp ?_)) hne)
  rintro ⟨k, v⟩ ⟨k', t⟩ ⟨rfl, hvalue⟩
  exact .mk (stringText_dumpsString k) hvalue

end PetlibroLocal.JsonGrammar
