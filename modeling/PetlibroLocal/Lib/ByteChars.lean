import PetlibroLocal.Lib.Utf8

/-!
# Texts Seen Byte by Byte

A program in C reads a text one byte at a time, as if each byte were a character. For ASCII
characters nothing is different; any other character becomes two bytes or more, each of them
above 127. A test that does not tell such bytes apart takes the same part of a text, whether it
looks at bytes or at characters.
-/

namespace PetlibroLocal

open List

/-- The bytes as characters. -/
def byteChars (bs : Bytes) : List Char := bs.map fun b => Char.ofNat b.toNat

/-- The text as its bytes show it. -/
def latin1 (cs : List Char) : List Char := byteChars (utf8 cs)

/-- The text is ASCII. -/
def isAscii (cs : List Char) : Bool := cs.all fun c => decide (c.toNat < 128)

theorem lt_of_isAscii {cs : List Char} (h : isAscii cs = true) : ∀ c ∈ cs, c.toNat < 128 :=
  fun c hc => of_decide_eq_true (all_eq_true.mp h c hc)

/-- The test does not tell characters above 127 apart. -/
def Bytewise (p : Char → Bool) : Prop := ∃ b, ∀ c : Char, 128 ≤ c.toNat → p c = b

@[simp] theorem latin1_nil : latin1 [] = [] := rfl

@[simp] theorem latin1_append (cs ds : List Char) : latin1 (cs ++ ds) = latin1 cs ++ latin1 ds := by
  rw [latin1, utf8_append, byteChars, map_append]
  rfl

theorem toNat_byteChar (b : UInt8) : (Char.ofNat b.toNat).toNat = b.toNat := by
  have := b.toNat_lt
  exact toNat_ofNat_of_lt (by omega)

theorem latin1_cons_ascii {c : Char} (h : c.toNat < 128) (cs : List Char) :
    latin1 (c :: cs) = c :: latin1 cs := by
  have hbyte : (UInt8.ofNat c.toNat).toNat = c.toNat := by
    rw [UInt8.toNat_ofNat', Nat.mod_eq_of_lt (by omega)]
  rw [latin1, utf8_cons, utf8EncodeChar_ascii h, byteChars, map_append, map_singleton,
    hbyte, Char.ofNat_toNat]
  rfl

theorem latin1_cons (c : Char) (cs : List Char) : latin1 (c :: cs) = latin1 [c] ++ latin1 cs :=
  latin1_append [c] cs

theorem latin1_singleton_ne_nil (c : Char) : latin1 [c] ≠ [] := by
  rw [latin1, utf8_cons, utf8_nil, append_nil, byteChars, ne_eq, map_eq_nil_iff]
  exact String.utf8EncodeChar_ne_nil

theorem le_of_mem_latin1 {c : Char} (h : 128 ≤ c.toNat) : ∀ x ∈ latin1 [c], 128 ≤ x.toNat := by
  rw [latin1, utf8_cons, utf8_nil, append_nil]
  intro x hx
  obtain ⟨b, hb, rfl⟩ := mem_map.mp hx
  rw [toNat_byteChar]
  rcases utf8EncodeChar_cases c with ⟨hlt, -⟩ | ⟨-, hle⟩
  · omega
  · exact hle b hb

theorem latin1_ascii {cs : List Char} (h : ∀ c ∈ cs, c.toNat < 128) : latin1 cs = cs := by
  induction cs with
  | nil => rfl
  | cons c cs ih =>
    rw [latin1_cons_ascii (h c mem_cons_self), ih fun d hd => h d (mem_cons_of_mem c hd)]

theorem latin1_eq_nil {cs : List Char} : latin1 cs = [] ↔ cs = [] := by
  constructor
  · intro h
    cases cs with
    | nil => rfl
    | cons c cs =>
      rw [latin1_cons, append_eq_nil_iff] at h
      exact absurd h.1 (latin1_singleton_ne_nil c)
  · rintro rfl
    rfl

/-- **An ASCII byte is an ASCII character.** -/
theorem latin1_eq_append_cons {cs xs ys : List Char} {c : Char} (hc : c.toNat < 128)
    (h : latin1 cs = xs ++ c :: ys) :
    ∃ as bs, cs = as ++ c :: bs ∧ latin1 as = xs ∧ latin1 bs = ys := by
  obtain ⟨bs, ds, hutf8, rfl, hds⟩ := map_eq_append_iff.mp h
  obtain ⟨b, bs', rfl, rfl, rfl⟩ := map_eq_cons_iff.mp hds
  rw [toNat_byteChar] at hc
  obtain ⟨as, as', rfl, rfl, rfl⟩ := utf8_eq_append_cons hc hutf8
  exact ⟨as, as', rfl, rfl, rfl⟩

theorem latin1_eq_cons {cs ys : List Char} {c : Char} (hc : c.toNat < 128)
    (h : latin1 cs = c :: ys) : ∃ bs, cs = c :: bs ∧ latin1 bs = ys := by
  rw [← nil_append (c :: ys)] at h
  obtain ⟨as, bs, rfl, has, hbs⟩ := latin1_eq_append_cons hc h
  rw [latin1_eq_nil] at has
  subst has
  exact ⟨bs, rfl, hbs⟩

theorem eq_of_latin1_eq {cs ds : List Char} (hds : ∀ d ∈ ds, d.toNat < 128)
    (h : latin1 cs = ds) : cs = ds := by
  induction ds generalizing cs with
  | nil => exact latin1_eq_nil.mp h
  | cons d ds ih =>
    obtain ⟨bs, rfl, hbs⟩ := latin1_eq_cons (hds d mem_cons_self) h
    rw [ih (fun d' hd' => hds d' (mem_cons_of_mem d hd')) hbs]

/-- Different texts show different bytes. -/
theorem latin1_inj {cs ds : List Char} : latin1 cs = latin1 ds ↔ cs = ds := by
  constructor
  · intro h
    have hbyte : Function.Injective fun b : UInt8 => Char.ofNat b.toNat := by
      intro b b' hb
      have htoNat := congrArg Char.toNat hb
      rw [toNat_byteChar, toNat_byteChar] at htoNat
      exact UInt8.toNat_inj.mp htoNat
    exact utf8_injective (map_injective_iff.mpr hbyte h)
  · rintro rfl
    rfl

theorem latin1_eq_append {cs xs ys : List Char} (hxs : ∀ x ∈ xs, x.toNat < 128)
    (h : latin1 cs = xs ++ ys) : ∃ bs, cs = xs ++ bs ∧ latin1 bs = ys := by
  induction xs generalizing cs with
  | nil => exact ⟨cs, rfl, h⟩
  | cons x xs ih =>
    obtain ⟨cs, rfl, htail⟩ := latin1_eq_cons (hxs x mem_cons_self) h
    obtain ⟨bs, rfl, hbs⟩ := ih (fun d hd => hxs d (mem_cons_of_mem x hd)) htail
    exact ⟨bs, rfl, hbs⟩

/-! ### Scanning -/

section Scan

variable {p : Char → Bool}

/-- Scanning the bytes and scanning the characters take the same part. -/
theorem latin1_takeWhile (hp : Bytewise p) (cs : List Char) :
    (latin1 cs).takeWhile p = latin1 (cs.takeWhile p) := by
  obtain ⟨b, hb⟩ := hp
  induction cs with
  | nil => rfl
  | cons c cs ih =>
    by_cases hc : c.toNat < 128
    · rw [latin1_cons_ascii hc, takeWhile_cons, takeWhile_cons, ih]
      cases p c with
      | false => rfl
      | true => exact (latin1_cons_ascii hc _).symm
    · have hc : 128 ≤ c.toNat := by omega
      have hbytes : ∀ x ∈ latin1 [c], p x = b := fun x hx => hb x (le_of_mem_latin1 hc x hx)
      rw [latin1_cons, takeWhile_cons, hb c hc]
      cases b with
      | false =>
        obtain ⟨x, xs, hxs⟩ := exists_cons_of_ne_nil (latin1_singleton_ne_nil c)
        rw [hxs, cons_append, takeWhile_cons, hbytes x (hxs ▸ mem_cons_self)]
        rfl
      | true => rw [takeWhile_append_of_pos hbytes, ih, if_pos rfl, ← latin1_cons]

/-- And they leave the same part. -/
theorem latin1_dropWhile (hp : Bytewise p) (cs : List Char) :
    (latin1 cs).dropWhile p = latin1 (cs.dropWhile p) := by
  have htake := latin1_takeWhile hp cs
  have hsplit : (latin1 cs).takeWhile p ++ (latin1 cs).dropWhile p =
      latin1 (cs.takeWhile p) ++ latin1 (cs.dropWhile p) := by
    rw [takeWhile_append_dropWhile, ← latin1_append, takeWhile_append_dropWhile]
  rw [htake] at hsplit
  exact append_cancel_left hsplit

theorem latin1_all (hp : Bytewise p) (cs : List Char) : (latin1 cs).all p = cs.all p := by
  obtain ⟨b, hb⟩ := hp
  induction cs with
  | nil => rfl
  | cons c cs ih =>
    by_cases hc : c.toNat < 128
    · rw [latin1_cons_ascii hc, all_cons, all_cons, ih]
    · have hc : 128 ≤ c.toNat := by omega
      have hbytes : ∀ x ∈ latin1 [c], p x = b := fun x hx => hb x (le_of_mem_latin1 hc x hx)
      have hall : (latin1 [c]).all p = b := by
        cases b with
        | true => exact all_eq_true.mpr hbytes
        | false =>
          obtain ⟨x, xs, hxs⟩ := exists_cons_of_ne_nil (latin1_singleton_ne_nil c)
          rw [hxs, all_cons, hbytes x (hxs ▸ mem_cons_self), Bool.false_and]
      rw [latin1_cons, all_append, all_cons, ih, hall, hb c hc]

theorem mem_latin1 {c : Char} (hc : c.toNat < 128) {cs : List Char} : c ∈ latin1 cs ↔ c ∈ cs := by
  constructor
  · intro h
    obtain ⟨xs, ys, h⟩ := append_of_mem h
    obtain ⟨as, bs, rfl, -, -⟩ := latin1_eq_append_cons hc h
    simp
  · intro h
    obtain ⟨xs, ys, rfl⟩ := append_of_mem h
    rw [latin1_append, latin1_cons_ascii hc]
    simp

end Scan

end PetlibroLocal
