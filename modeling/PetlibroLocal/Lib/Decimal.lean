import Mathlib.Algebra.Group.Nat.Defs
import Mathlib.Algebra.Order.Ring.Nat
import Mathlib.Data.Char
import Mathlib.Tactic.Ring
import PetlibroLocal.Lib.ThreeWay

/-!
# Decimal Numerals

The value of a string of decimal digits, and how values compare: numerals of the same length
compare as strings, and without leading zeros the shorter one is the smaller one. So numbers of
any size can be compared without their values.
-/

namespace PetlibroLocal

open List

/-- The value of a digit. -/
def digitValue (c : Char) : ℕ := c.toNat - '0'.toNat

/-- The value of a string of digits. -/
def decimal (ds : List Char) : ℕ := ds.foldl (fun n c => 10 * n + digitValue c) 0

/-- A number as it is written: digits, and no leading zero unless it is the only digit. -/
structure IsNumeral (ds : List Char) : Prop where
  ne_nil : ds ≠ []
  isDigit : ∀ c ∈ ds, c.isDigit = true
  head : 1 < ds.length → ds.head? ≠ some '0'

instance (ds : List Char) : Decidable (IsNumeral ds) :=
  decidable_of_iff
    (ds ≠ [] ∧ ds.all Char.isDigit = true ∧ (1 < ds.length → ds.head? ≠ some '0'))
    ⟨fun h => ⟨h.1, all_eq_true.mp h.2.1, h.2.2⟩,
      fun h => ⟨h.ne_nil, all_eq_true.mpr h.isDigit, h.head⟩⟩

theorem isNumeral_zero : IsNumeral ['0'] := by decide

theorem isNumeral_one : IsNumeral ['1'] := by decide

variable {c : Char} {as bs : List Char}

theorem IsNumeral.notMem {ds : List Char} (h : IsNumeral ds) (hc : c.isDigit = false) :
    c ∉ ds := fun hmem => by
  simp [h.isDigit c hmem] at hc

/-! ### Digits -/

theorem isDigit_iff : c.isDigit = true ↔ 48 ≤ c.toNat ∧ c.toNat ≤ 57 := by
  simp only [Char.isDigit, Bool.and_eq_true, decide_eq_true_eq, ge_iff_le, UInt32.le_iff_toNat_le]
  exact Iff.rfl

theorem digitValue_lt (h : c.isDigit = true) : digitValue c < 10 := by
  have := isDigit_iff.mp h
  have h0 : '0'.toNat = 48 := rfl
  unfold digitValue
  omega

theorem digitValue_lt_iff {d : Char} (hc : c.isDigit = true) (hd : d.isDigit = true) :
    digitValue c < digitValue d ↔ c < d := by
  have hc := isDigit_iff.mp hc
  have hd := isDigit_iff.mp hd
  have h0 : '0'.toNat = 48 := rfl
  have hlt : c < d ↔ c.toNat < d.toNat := by
    rw [Char.lt_def, UInt32.lt_iff_toNat_lt]
    exact Iff.rfl
  rw [hlt]
  unfold digitValue
  omega

theorem digitValue_inj {d : Char} (hc : c.isDigit = true) (hd : d.isDigit = true) :
    digitValue c = digitValue d ↔ c = d := by
  constructor
  · intro h
    rcases lt_trichotomy c d with hlt | heq | hgt
    · exact absurd h ((digitValue_lt_iff hc hd).mpr hlt).ne
    · exact heq
    · exact absurd h ((digitValue_lt_iff hd hc).mpr hgt).ne'
  · rintro rfl
    rfl

theorem digitValue_pos (h : c.isDigit = true) (h0 : c ≠ '0') : 0 < digitValue c := by
  have hzero : digitValue '0' < digitValue c ↔ '0' < c := digitValue_lt_iff (by decide) h
  have hle : '0' ≤ c := by
    rw [Char.le_def]
    exact UInt32.le_iff_toNat_le.mpr (isDigit_iff.mp h).1
  exact hzero.mpr (lt_of_le_of_ne hle h0.symm)

/-! ### Values -/

theorem foldl_decimal (n : ℕ) (ds : List Char) :
    ds.foldl (fun n c => 10 * n + digitValue c) n = n * 10 ^ ds.length + decimal ds := by
  induction ds generalizing n with
  | nil => simp [decimal]
  | cons d ds ih =>
    have hcons : decimal (d :: ds) = (10 * 0 + digitValue d) * 10 ^ ds.length + decimal ds := ih _
    rw [foldl_cons, ih, hcons, length_cons, pow_succ]
    ring

theorem decimal_cons (d : Char) (ds : List Char) :
    decimal (d :: ds) = digitValue d * 10 ^ ds.length + decimal ds := by
  rw [decimal, foldl_cons, foldl_decimal, Nat.mul_zero, Nat.zero_add]

theorem decimal_lt_pow {ds : List Char} (h : ∀ c ∈ ds, c.isDigit = true) :
    decimal ds < 10 ^ ds.length := by
  induction ds with
  | nil => simp [decimal]
  | cons d ds ih =>
    have hd := digitValue_lt (h d mem_cons_self)
    have hds := ih fun c hc => h c (mem_cons_of_mem d hc)
    have hmul : (digitValue d + 1) * 10 ^ ds.length ≤ 10 * 10 ^ ds.length :=
      Nat.mul_le_mul_right _ hd
    rw [Nat.add_mul] at hmul
    rw [decimal_cons, length_cons, pow_succ]
    omega

theorem mul_add_lt_mul_add_iff {p d e x y : ℕ} (hx : x < p) (hy : y < p) :
    d * p + x < e * p + y ↔ d < e ∨ d = e ∧ x < y := by
  rcases lt_trichotomy d e with h | rfl | h
  · have hmul : (d + 1) * p ≤ e * p := Nat.mul_le_mul_right p h
    rw [Nat.add_mul] at hmul
    omega
  · omega
  · have hmul : (e + 1) * p ≤ d * p := Nat.mul_le_mul_right p h
    rw [Nat.add_mul] at hmul
    omega

/-- **Numerals of the same length compare as strings.** -/
theorem decimal_lt_iff (ha : ∀ c ∈ as, c.isDigit = true) (hb : ∀ c ∈ bs, c.isDigit = true)
    (hlen : as.length = bs.length) : decimal as < decimal bs ↔ as < bs := by
  induction as generalizing bs with
  | nil =>
    obtain rfl : bs = [] := eq_nil_of_length_eq_zero hlen.symm
    simp
  | cons a as ih =>
    cases bs with
    | nil => simp at hlen
    | cons b bs =>
      have hlen : as.length = bs.length := Nat.succ.inj hlen
      have hav := decimal_lt_pow fun c hc => ha c (mem_cons_of_mem a hc)
      have hbv := decimal_lt_pow fun c hc => hb c (mem_cons_of_mem b hc)
      have htail := ih (fun c hc => ha c (mem_cons_of_mem a hc))
        (fun c hc => hb c (mem_cons_of_mem b hc)) hlen
      have hhead := digitValue_lt_iff (ha a mem_cons_self) (hb b mem_cons_self)
      have heq : digitValue a = digitValue b ↔ a = b :=
        digitValue_inj (ha a mem_cons_self) (hb b mem_cons_self)
      rw [hlen] at hav
      rw [decimal_cons, decimal_cons, hlen, mul_add_lt_mul_add_iff hav hbv,
        cons_lt_cons_iff, htail, hhead, heq]

/-- **Without leading zeros, the shorter numeral is the smaller one.** -/
theorem decimal_lt_of_length_lt (ha : ∀ c ∈ as, c.isDigit = true) (hb : IsNumeral bs)
    (hne : as ≠ []) (hlen : as.length < bs.length) : decimal as < decimal bs := by
  cases bs with
  | nil => exact absurd rfl hb.ne_nil
  | cons b bs =>
    have hpos : 0 < as.length := length_pos_iff.mpr hne
    have hb0 : b ≠ '0' := fun h => hb.head (by omega) (by rw [h]; rfl)
    have hdigit : 1 * 10 ^ bs.length ≤ digitValue b * 10 ^ bs.length :=
      Nat.mul_le_mul_right _ (digitValue_pos (hb.isDigit b mem_cons_self) hb0)
    have hlen : as.length ≤ bs.length := Nat.le_of_lt_succ hlen
    have hpow : 10 ^ as.length ≤ 10 ^ bs.length := Nat.pow_le_pow_right (by omega) hlen
    have hav := decimal_lt_pow ha
    rw [decimal_cons]
    omega

/-- **Numerals compare by their lengths, then as strings.** -/
theorem threeWay_decimal (ha : IsNumeral as) (hb : IsNumeral bs) :
    threeWay (decimal as) (decimal bs) =
      if as.length = bs.length then threeWay as bs else threeWay as.length bs.length := by
  rcases lt_trichotomy as.length bs.length with h | h | h
  · rw [if_neg h.ne, threeWay_of_lt h,
      threeWay_of_lt (decimal_lt_of_length_lt ha.isDigit hb ha.ne_nil h)]
  · rw [if_pos h]
    have hlt := decimal_lt_iff ha.isDigit hb.isDigit h
    have hgt := decimal_lt_iff hb.isDigit ha.isDigit h.symm
    rcases lt_trichotomy as bs with h | rfl | h
    · rw [threeWay_of_lt h, threeWay_of_lt (hlt.mpr h)]
    · rw [threeWay_self, threeWay_self]
    · rw [threeWay_of_gt h, threeWay_of_gt (hgt.mpr h)]
  · rw [if_neg h.ne', threeWay_of_gt h,
      threeWay_of_gt (decimal_lt_of_length_lt hb.isDigit ha hb.ne_nil h)]

theorem decimal_inj (ha : IsNumeral as) (hb : IsNumeral bs) :
    decimal as = decimal bs ↔ as = bs := by
  constructor
  · intro h
    have hcmp := threeWay_decimal ha hb
    rw [h, threeWay_self] at hcmp
    by_cases hlen : as.length = bs.length
    · rw [if_pos hlen] at hcmp
      exact threeWay_eq_zero.mp hcmp.symm
    · rw [if_neg hlen] at hcmp
      exact absurd (threeWay_eq_zero.mp hcmp.symm) hlen
  · rintro rfl
    rfl

/-! ### Writing numbers -/

theorem decimal_toDigits (n : ℕ) : decimal (Nat.toDigits 10 n) = n :=
  Nat.ofDigitChars_toDigits (by omega) (by omega)

theorem head?_toDigits {n : ℕ} (h : 0 < n) : (Nat.toDigits 10 n).head? ≠ some '0' := by
  induction n using Nat.strongRecOn with
  | _ n ih =>
    by_cases hlt : n < 10
    · rw [Nat.toDigits_of_lt_base hlt, List.head?_cons, ne_eq, Option.some.injEq]
      have hdigit : ∀ m < 10, 0 < m → m.digitChar ≠ '0' := by decide
      exact hdigit n hlt h
    · rw [Nat.toDigits_of_base_le (by omega) (by omega),
        List.head?_append_of_ne_nil _ Nat.toDigits_ne_nil]
      exact ih (n / 10) (by omega) (by omega)

/-- **A number is written as a numeral.** -/
theorem isNumeral_toDigits (n : ℕ) : IsNumeral (Nat.toDigits 10 n) := by
  refine ⟨Nat.toDigits_ne_nil, fun c hc => Nat.isDigit_of_mem_toDigits (by omega) (by omega) hc,
    fun hlen => ?_⟩
  by_cases hzero : n = 0
  · subst hzero
    exact absurd hlen (by decide)
  · exact head?_toDigits (Nat.pos_of_ne_zero hzero)

end PetlibroLocal
