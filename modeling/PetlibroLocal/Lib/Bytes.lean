import Mathlib.Algebra.Group.Nat.Defs
import Mathlib.Data.Nat.Notation
import Mathlib.Data.List.Basic

/-!
# Little-Endian Fields in Byte Strings

Wire formats are modelled as lists of bytes. A field of `n` bytes is written by
`leBytes n` and read back, at its offset in the whole message, by `leAt`. The two are
inverse for every value that fits the field (`leValue_leBytes`); a read at an offset
skips what stands before the field (`leAt_append_right`) and ignores what follows it
(`leAt_append_left`).

The 16-bit and 32-bit instances carry the machine types.
-/

/-- A byte string. -/
abbrev Bytes := List UInt8

/-- The `n` low bytes of `v`, least significant first. -/
def leBytes : ℕ → ℕ → Bytes
  | 0, _ => []
  | n + 1, v => UInt8.ofNat v :: leBytes n (v / 256)

/-- The value of a byte string, least significant byte first. -/
def leValue : Bytes → ℕ
  | [] => 0
  | b :: bs => b.toNat + 256 * leValue bs

/-- The value of the `n` bytes at offset `off`. -/
def leAt (b : Bytes) (off n : ℕ) : ℕ := leValue ((b.drop off).take n)

@[simp] theorem length_leBytes (n v : ℕ) : (leBytes n v).length = n := by
  induction n generalizing v with
  | zero => rfl
  | succ n ih => rw [leBytes, List.length_cons, ih]

/-- Reading back what was written gives the value modulo the field. -/
theorem leValue_leBytes (n v : ℕ) : leValue (leBytes n v) = v % 256 ^ n := by
  induction n generalizing v with
  | zero => rw [leBytes, leValue, Nat.pow_zero, Nat.mod_one]
  | succ n ih =>
    have hbyte : (UInt8.ofNat v).toNat = v % 256 := UInt8.toNat_ofNat'
    rw [leBytes, leValue, ih, hbyte, Nat.pow_succ, Nat.mul_comm (256 ^ n), Nat.mod_mul]

/-- A read behind the first part of a message is a read of the rest. -/
theorem leAt_append_right {pre post : Bytes} {off n : ℕ} (h : pre.length ≤ off) :
    leAt (pre ++ post) off n = leAt post (off - pre.length) n := by
  rw [leAt, leAt, List.drop_append, List.drop_eq_nil_of_le h, List.nil_append]

/-- A field in front is read whatever follows it. -/
theorem leAt_append_left (field post : Bytes) :
    leAt (field ++ post) 0 field.length = leValue field := by
  rw [leAt, List.drop_zero, List.take_left]

/-- The byte at offset `off`, `0` behind the end. -/
def byteAt (b : Bytes) (off : ℕ) : UInt8 := b.getD off 0

/-- The bytes from offset `start` up to offset `stop`. -/
def slice (b : Bytes) (start stop : ℕ) : Bytes := (b.drop start).take (stop - start)

/-- The 32-bit value at offset `off`. -/
def uint32At (b : Bytes) (off : ℕ) : UInt32 := UInt32.ofNat (leAt b off 4)

/-- The little-endian bytes of a 32-bit value. -/
def putUint32 (v : UInt32) : Bytes := leBytes 4 v.toNat

/-! ### 16-bit fields -/

/-- The little-endian bytes of a 16-bit value. -/
def putUint16 (v : UInt16) : Bytes := leBytes 2 v.toNat

/-- The 16-bit value at offset `off`. -/
def uint16At (b : Bytes) (off : ℕ) : UInt16 := UInt16.ofNat (leAt b off 2)

@[simp] theorem length_putUint16 (v : UInt16) : (putUint16 v).length = 2 := length_leBytes 2 _

theorem uint16At_append_right {pre post : Bytes} {off : ℕ} (h : pre.length ≤ off) :
    uint16At (pre ++ post) off = uint16At post (off - pre.length) := by
  rw [uint16At, leAt_append_right h, uint16At]

theorem uint16At_putUint16 (v : UInt16) (post : Bytes) : uint16At (putUint16 v ++ post) 0 = v := by
  have hmod : v.toNat % 256 ^ 2 = v.toNat := Nat.mod_eq_of_lt v.toNat_lt
  have hread := leAt_append_left (putUint16 v) post
  rw [length_putUint16, putUint16, leValue_leBytes, hmod] at hread
  rw [uint16At, putUint16, hread, UInt16.ofNat_toNat]

theorem uint16At_flatMap (vs : List UInt16) (post : Bytes) (i : ℕ) (hi : i < vs.length) :
    uint16At (vs.flatMap putUint16 ++ post) (2 * i) = vs[i] := by
  induction vs generalizing i with
  | nil => cases hi
  | cons v vs ih =>
    rw [List.flatMap_cons, List.append_assoc]
    cases i with
    | zero => exact uint16At_putUint16 v _
    | succ i =>
      have hskip : 2 * (i + 1) - (putUint16 v).length = 2 * i := by
        rw [length_putUint16]
        omega
      rw [uint16At_append_right (by rw [length_putUint16]; omega), hskip,
        ih i (Nat.lt_of_succ_lt_succ hi), List.getElem_cons_succ]

/-! ### Big-endian fields -/

theorem leBytes_leValue (bs : Bytes) : leBytes bs.length (leValue bs) = bs := by
  induction bs with
  | nil => rfl
  | cons b bs ih =>
    have hlt := b.toNat_lt
    have hbyte : UInt8.ofNat (b.toNat + 256 * leValue bs) = b := by
      rw [← UInt8.toNat_inj, UInt8.toNat_ofNat']
      omega
    have hrest : (b.toNat + 256 * leValue bs) / 256 = leValue bs := by omega
    rw [List.length_cons, leValue, leBytes, hbyte, hrest, ih]

theorem leValue_lt (bs : Bytes) : leValue bs < 256 ^ bs.length := by
  have hvalue := leValue_leBytes bs.length (leValue bs)
  rw [leBytes_leValue] at hvalue
  rw [hvalue]
  exact Nat.mod_lt _ (Nat.pow_pos (by decide))

theorem leAt_lt (b : Bytes) (off n : ℕ) : leAt b off n < 256 ^ n :=
  Nat.lt_of_lt_of_le (leValue_lt _) (Nat.pow_le_pow_right (by decide) (List.length_take_le n _))

/-- The `n` low bytes of `v`, most significant first. -/
def beBytes (n v : ℕ) : Bytes := (leBytes n v).reverse

/-- The value of a byte string, most significant byte first. -/
def beValue (bs : Bytes) : ℕ := leValue bs.reverse

@[simp] theorem length_beBytes (n v : ℕ) : (beBytes n v).length = n := by
  rw [beBytes, List.length_reverse, length_leBytes]

theorem beValue_beBytes {n v : ℕ} (h : v < 256 ^ n) : beValue (beBytes n v) = v := by
  rw [beValue, beBytes, List.reverse_reverse, leValue_leBytes, Nat.mod_eq_of_lt h]

theorem beBytes_beValue (bs : Bytes) : beBytes bs.length (beValue bs) = bs := by
  rw [beBytes, beValue, ← List.length_reverse, leBytes_leValue, List.reverse_reverse]
