import PetlibroLocal.Lib.Bytes

/-!
# UTF-8

Text as the list of its characters, and the bytes that encode it. The encoding of a character is
the standard library's; what is added is the view of a whole text as a list of bytes, and how
texts are cut: a byte below 128 is a character of its own wherever it stands.
-/

namespace PetlibroLocal

open List

/-- The encoding of a text. -/
def utf8 (cs : List Char) : Bytes := cs.flatMap String.utf8EncodeChar

/-- The bytes encode a text. -/
def IsUtf8 (bs : Bytes) : Prop := ∃ cs, utf8 cs = bs

/-- The text that the bytes encode. -/
def decodeUtf8 (bs : Bytes) : Option (List Char) := bs.toByteArray.utf8Decode?.map Array.toList

@[simp] theorem utf8_nil : utf8 [] = [] := rfl

@[simp] theorem utf8_cons (c : Char) (cs : List Char) :
    utf8 (c :: cs) = String.utf8EncodeChar c ++ utf8 cs := rfl

@[simp] theorem utf8_append (cs ds : List Char) : utf8 (cs ++ ds) = utf8 cs ++ utf8 ds :=
  flatMap_append

/-- **Decoding inverts the encoding.** -/
theorem decodeUtf8_eq_some {bs : Bytes} {cs : List Char} :
    decodeUtf8 bs = some cs ↔ utf8 cs = bs := by
  constructor
  · intro h
    obtain ⟨chars, hchars, rfl⟩ := Option.map_eq_some_iff.mp h
    have hsome : bs.toByteArray.utf8Decode?.isSome = true := by rw [hchars]; rfl
    have hget : bs.toByteArray.utf8Decode?.get hsome = chars := by simp [hchars]
    have hencode := @ByteArray.utf8Encode_get_utf8Decode? bs.toByteArray hsome
    rw [hget] at hencode
    simpa [List.utf8Encode, utf8] using hencode
  · rintro rfl
    have hdecode := @List.utf8Decode?_utf8Encode cs
    rw [List.utf8Encode] at hdecode
    rw [decodeUtf8, utf8, hdecode, Option.map_some, toList_toArray]

theorem utf8_injective {cs ds : List Char} (h : utf8 cs = utf8 ds) : cs = ds := by
  have hc := decodeUtf8_eq_some.mpr (rfl : utf8 cs = utf8 cs)
  rw [h, decodeUtf8_eq_some.mpr rfl] at hc
  exact (Option.some.inj hc).symm

theorem toList_toByteArray (s : String) : s.toByteArray.data.toList = utf8 s.toList := by
  rw [← s.utf8Encode_toList, List.utf8Encode, data_toByteArray, utf8]

/-! ### ASCII -/

theorem toNat_ofNat_of_lt {n : ℕ} (h : n < 0xd800) : (Char.ofNat n).toNat = n := by
  have hvalid : n.isValidChar := .inl h
  rw [Char.ofNat, dif_pos hvalid]
  rfl

theorem ascii_cases {p : Char → Prop} (h : ∀ n < 128, p (Char.ofNat n)) {c : Char}
    (hc : c.toNat < 128) : p c := by
  have hp := h c.toNat hc
  rwa [Char.ofNat_toNat] at hp

/-- An ASCII character is one byte, and the bytes of any other character are at least 128. -/
theorem utf8EncodeChar_cases (c : Char) :
    (c.toNat < 128 ∧ String.utf8EncodeChar c = [UInt8.ofNat c.toNat]) ∨
      (128 ≤ c.toNat ∧ ∀ b ∈ String.utf8EncodeChar c, 128 ≤ b.toNat) := by
  have hval : c.val.toNat = c.toNat := rfl
  rw [String.utf8EncodeChar.eq_1, hval]
  by_cases h : c.toNat ≤ 127
  · exact .inl ⟨by omega, if_pos h⟩
  · refine .inr ⟨by omega, ?_⟩
    have hbyte {n : ℕ} (hn : 128 ≤ n % 256) : 128 ≤ (UInt8.ofNat n).toNat := by
      rw [UInt8.toNat_ofNat']
      exact hn
    rw [if_neg h]
    split
    · rw [forall_mem_cons, forall_mem_cons]
      exact ⟨hbyte (by omega), hbyte (by omega), forall_mem_nil _⟩
    · split
      · rw [forall_mem_cons, forall_mem_cons, forall_mem_cons]
        exact ⟨hbyte (by omega), hbyte (by omega), hbyte (by omega), forall_mem_nil _⟩
      · rw [forall_mem_cons, forall_mem_cons, forall_mem_cons, forall_mem_cons]
        exact ⟨hbyte (by omega), hbyte (by omega), hbyte (by omega), hbyte (by omega),
          forall_mem_nil _⟩

theorem utf8EncodeChar_ascii {c : Char} (h : c.toNat < 128) :
    String.utf8EncodeChar c = [UInt8.ofNat c.toNat] := by
  rcases utf8EncodeChar_cases c with ⟨-, h'⟩ | ⟨h', -⟩
  · exact h'
  · omega

theorem utf8_ascii {cs : List Char} (h : ∀ c ∈ cs, c.toNat < 128) :
    utf8 cs = cs.map fun c => UInt8.ofNat c.toNat := by
  induction cs with
  | nil => rfl
  | cons c cs ih =>
    obtain ⟨hc, hcs⟩ := forall_mem_cons.mp h
    rw [utf8_cons, utf8EncodeChar_ascii hc, ih hcs, map_cons, singleton_append]

/-- **An ASCII byte is a character of its own** in a text, wherever it stands. -/
theorem utf8_eq_append_cons {cs : List Char} {bs bs' : Bytes} {b : UInt8} (hb : b.toNat < 128)
    (h : utf8 cs = bs ++ b :: bs') :
    ∃ xs ys, cs = xs ++ Char.ofNat b.toNat :: ys ∧ utf8 xs = bs ∧ utf8 ys = bs' := by
  induction cs generalizing bs with
  | nil => simp at h
  | cons c cs ih =>
    rw [utf8_cons, append_eq_append_iff] at h
    rcases h with ⟨rest, rfl, h⟩ | ⟨rest, hc, h⟩
    · obtain ⟨xs, ys, rfl, rfl, rfl⟩ := ih h
      exact ⟨c :: xs, ys, rfl, rfl, rfl⟩
    · cases rest with
      | nil =>
        obtain ⟨xs, ys, rfl, hxs, rfl⟩ := @ih [] h.symm
        rw [append_nil] at hc
        exact ⟨c :: xs, ys, rfl, by rw [utf8_cons, hxs, hc, append_nil], rfl⟩
      | cons b' rest =>
        -- the byte lies in the encoding of `c`
        obtain ⟨rfl, rfl⟩ := List.cons.inj h
        rcases utf8EncodeChar_cases c with ⟨hlt, hsingle⟩ | ⟨-, hlarge⟩
        · rw [hsingle] at hc
          obtain ⟨rfl, hlast⟩ : bs = [] ∧ [UInt8.ofNat c.toNat] = b :: rest := by
            cases bs with
            | nil => exact ⟨rfl, hc⟩
            | cons => simp at hc
          obtain ⟨rfl, rfl⟩ := List.cons.inj hlast
          refine ⟨[], cs, ?_, rfl, rfl⟩
          rw [UInt8.toNat_ofNat', Nat.mod_eq_of_lt (by omega), Char.ofNat_toNat, nil_append]
        · have := hlarge b (by rw [hc]; simp)
          omega

/-- **A text may be cut at every ASCII byte.** -/
theorem isUtf8_append_cons {bs bs' : Bytes} {b : UInt8} (hb : b.toNat < 128) :
    IsUtf8 (bs ++ b :: bs') ↔ IsUtf8 bs ∧ IsUtf8 bs' := by
  constructor
  · rintro ⟨cs, h⟩
    obtain ⟨xs, ys, -, rfl, rfl⟩ := utf8_eq_append_cons hb h
    exact ⟨⟨xs, rfl⟩, ⟨ys, rfl⟩⟩
  · rintro ⟨⟨xs, rfl⟩, ⟨ys, rfl⟩⟩
    have hlt := toNat_ofNat_of_lt (show b.toNat < 0xd800 by omega)
    refine ⟨xs ++ Char.ofNat b.toNat :: ys, ?_⟩
    rw [utf8_append, utf8_cons, utf8EncodeChar_ascii (by omega), hlt, UInt8.ofNat_toNat,
      singleton_append]

theorem IsUtf8.of_ascii_append {as bs : Bytes} (has : ∀ a ∈ as, a.toNat < 128)
    (h : IsUtf8 (as ++ bs)) : IsUtf8 bs := by
  induction as with
  | nil => exact h
  | cons a as ih =>
    obtain ⟨ha, has⟩ := forall_mem_cons.mp has
    exact ih has ((@isUtf8_append_cons [] _ _ ha).mp h).2

end PetlibroLocal
