import PetlibroLocal.Lib.Serial
import Mathlib.Data.List.Induction

/-!
# Unwrapping the AV Sequence Counter

An AV datagram carries the low 16 bits of its sequence position. `wrapSeq` unwraps them
against the extended counter it keeps (`assembler.go`: `wrapSeq.extend`,
`wrapSeq.advanceTo`); `parseDatagram` advances that counter only when the unwrapped
position is beyond its own high mark `avHighExt`.

The main results are `WrapSeq.extend_low16` and `unwrap_exact`.
-/

namespace PetlibroLocal

open Serial List

/-- The 64-bit counter that follows the 16-bit wire counter. -/
structure WrapSeq where
  ext : ℕ
  deriving DecidableEq, Repr

/-- `wrapSeq.extend`: `none` is the result `ok = false`. -/
def WrapSeq.extend (w : WrapSeq) (wire : UInt16) : Option ℕ :=
  if wire - low16 w.ext < 0x8000 then some (w.ext + (wire - low16 w.ext).toNat)
  else if w.ext < (low16 w.ext - wire).toNat then none
  else some (w.ext - (low16 w.ext - wire).toNat)

/-- `wrapSeq.advanceTo`. -/
def WrapSeq.advanceTo (w : WrapSeq) (wire : UInt16) : WrapSeq :=
  match w.extend wire with
  | some newExt => if w.ext < newExt then ⟨newExt⟩ else w
  | none => w

/-- The counter and the high mark, the two fields `parseDatagram` unwraps with. -/
structure SeqTracker where
  wrap : WrapSeq
  avHighExt : ℕ
  deriving DecidableEq, Repr

/-- The step of `parseDatagram` that unwraps a position and moves the high mark. -/
def SeqTracker.observe (s : SeqTracker) (subWire : UInt16) : Option (ℕ × SeqTracker) :=
  match s.wrap.extend subWire with
  | none => none
  | some subExt =>
    if s.avHighExt < subExt then
      some (subExt, { wrap := s.wrap.advanceTo subWire, avHighExt := subExt })
    else some (subExt, s)

/-- The state `bootstrap` leaves behind for the position `b` it got as `AVMax`. -/
def SeqTracker.start (b : ℕ) : SeqTracker where
  wrap := ⟨b + 1⟩
  avHighExt := b

/-- The end of `bootstrap`: it fails below the control-channel watermark. -/
def SeqTracker.bootstrap (bootstrapAVMax : UInt16) : Option SeqTracker :=
  if bootstrapAVMax < 0x3FFF then none
  else
    let wrap : WrapSeq :=
      if bootstrapAVMax = 0x3FFF then ⟨0x4000⟩ else ⟨bootstrapAVMax.toNat + 1⟩
    some { wrap := wrap, avHighExt := wrap.ext - 1 }

theorem SeqTracker.bootstrap_eq {bootstrapAVMax : UInt16} (h : 0x3FFF ≤ bootstrapAVMax) :
    SeqTracker.bootstrap bootstrapAVMax = some (SeqTracker.start bootstrapAVMax.toNat) := by
  rw [SeqTracker.bootstrap, if_neg (by rwa [UInt16.not_lt])]
  by_cases hmark : bootstrapAVMax = 0x3FFF
  · subst hmark
    rfl
  · simp only [if_neg hmark, SeqTracker.start, Nat.add_sub_cancel]

/-! ### One value -/

/-- **A number is recovered from its low bits**, if the last one is near. -/
theorem WrapSeq.extend_low16 {w : WrapSeq} {n : ℕ} (hbehind : w.ext ≤ n + 0x8000)
    (hahead : n < w.ext + 0x8000) : w.extend (low16 n) = some n := by
  have hdir := forward_iff hbehind hahead
  rw [WrapSeq.extend]
  rcases Nat.lt_or_ge n w.ext with hlt | hge
  · rw [if_neg (by rw [hdir]; omega), sub_toNat_of_le (Nat.le_of_lt hlt) (by omega),
      if_neg (by omega)]
    exact congrArg some (by omega)
  · rw [if_pos (hdir.mpr hge), sub_toNat_of_le hge (by omega)]
    exact congrArg some (by omega)

/-- `extend` fails exactly when the wire value lies behind the counter by more than the
counter has moved since the start of the sequence. -/
theorem WrapSeq.extend_eq_none_iff (w : WrapSeq) (wire : UInt16) :
    w.extend wire = none ↔
      ¬ wire - low16 w.ext < 0x8000 ∧ w.ext < (low16 w.ext - wire).toNat := by
  rw [WrapSeq.extend]
  split_ifs with hfwd hback
  · simp [hfwd]
  · exact iff_of_true rfl ⟨hfwd, hback⟩
  · exact iff_of_false (by simp) fun h => hback h.2

theorem WrapSeq.advanceTo_low16 {w : WrapSeq} {n : ℕ} (hbehind : w.ext ≤ n + 0x8000)
    (hahead : n < w.ext + 0x8000) : (w.advanceTo (low16 n)).ext = max w.ext n := by
  rw [WrapSeq.advanceTo, WrapSeq.extend_low16 hbehind hahead]
  simp only
  split_ifs with hlt
  · exact (Nat.max_eq_right (Nat.le_of_lt hlt)).symm
  · exact (Nat.max_eq_left (Nat.le_of_not_lt hlt)).symm

/-! ### Whole runs -/

/-- The counter runs at the high mark, but never below its start. -/
def SeqTracker.Synced (s : SeqTracker) (b : ℕ) : Prop := s.wrap.ext = max (b + 1) s.avHighExt

theorem SeqTracker.Synced.observe {s : SeqTracker} {b n : ℕ} (h : s.Synced b)
    (hbehind : s.wrap.ext ≤ n + 0x8000) (hahead : n < s.wrap.ext + 0x8000) :
    ∃ s', s.observe (low16 n) = some (n, s') ∧ s'.Synced b ∧
      s'.wrap.ext = max s.wrap.ext n := by
  rw [SeqTracker.observe, WrapSeq.extend_low16 hbehind hahead]
  simp only [SeqTracker.Synced] at h ⊢
  by_cases hhigh : s.avHighExt < n
  · refine ⟨_, if_pos hhigh, ?_, WrapSeq.advanceTo_low16 hbehind hahead⟩
    simp only [WrapSeq.advanceTo_low16 hbehind hahead]
    omega
  · exact ⟨s, if_neg hhigh, h, by omega⟩

/-- Feed wire values in order; a value that cannot be unwrapped is dropped. -/
def SeqTracker.observeAll (s : SeqTracker) (wires : List UInt16) : SeqTracker :=
  wires.foldl (fun s wire => (s.observe wire).elim s Prod.snd) s

theorem SeqTracker.observeAll_concat (s : SeqTracker) (wires : List UInt16)
    (wire : UInt16) : s.observeAll (wires ++ [wire]) =
      ((s.observeAll wires).observe wire).elim (s.observeAll wires) Prod.snd := by
  rw [SeqTracker.observeAll, foldl_append]
  rfl

/-- **Each position arrives within half a turn** of the counter at its arrival. -/
def ArriveWithin (b : ℕ) (ns : List ℕ) : Prop :=
  ∀ pre n post, ns = pre ++ n :: post →
    let E := ((SeqTracker.start b).observeAll (pre.map low16)).wrap.ext
    E ≤ n + 0x8000 ∧ n ≤ E + 0x7FFF

/-- A run of positions within half a turn keeps counter and high mark in step, and the
counter is the highest position seen. -/
theorem observeAll_synced {b : ℕ} {ns : List ℕ} (hnear : ArriveWithin b ns) :
    let s := (SeqTracker.start b).observeAll (ns.map low16)
    s.Synced b ∧ s.wrap.ext = ns.foldl max (b + 1) := by
  induction ns using List.reverseRecOn with
  | nil => exact ⟨(Nat.max_eq_left (Nat.le_succ b)).symm, rfl⟩
  | append_singleton ns n ih =>
    obtain ⟨hsync, hext⟩ := ih fun pre n' post heq =>
      hnear pre n' (post ++ [n]) (by rw [heq, append_assoc, cons_append])
    obtain ⟨hbehind, hahead⟩ := hnear ns n [] rfl
    obtain ⟨s', hobs, hsync', hext'⟩ := hsync.observe hbehind (by omega)
    simp only [map_append, map_cons, map_nil, SeqTracker.observeAll_concat,
      hobs, Option.elim_some, foldl_append, foldl_cons, foldl_nil]
    exact ⟨hsync', by rw [hext', hext]⟩

/-- **Unwrapping is exact over whole runs.** From the state `bootstrap` leaves, feed the
low 16 bits of positions that each lie within half a turn of the counter at their
arrival. Every step recovers the position, and afterwards the counter is the maximum of
`b + 1` and the positions so far, so it never decreases. Conversely `extend` fails
exactly when the backward distance exceeds the counter. -/
theorem unwrap_exact {b : ℕ} {ns : List ℕ} (hnear : ArriveWithin b ns) :
    (∀ pre n post, ns = pre ++ n :: post →
      let s := (SeqTracker.start b).observeAll (pre.map low16)
      let s' := (SeqTracker.start b).observeAll ((pre ++ [n]).map low16)
      s.observe (low16 n) = some (n, s') ∧ s'.wrap.ext = (pre ++ [n]).foldl max (b + 1) ∧
        s.wrap.ext ≤ s'.wrap.ext) ∧
    ∀ (w : WrapSeq) (wire : UInt16), w.extend wire = none ↔
      ¬ wire - low16 w.ext < 0x8000 ∧ w.ext < (low16 w.ext - wire).toNat := by
  refine ⟨fun pre n post heq => ?_, WrapSeq.extend_eq_none_iff⟩
  have hpre : ArriveWithin b pre := fun pre' n' post' heq' =>
    hnear pre' n' (post' ++ n :: post) (by rw [heq, heq', append_assoc, cons_append])
  obtain ⟨hsync, hext⟩ := observeAll_synced hpre
  obtain ⟨hbehind, hahead⟩ := hnear pre n post heq
  obtain ⟨s', hobs, -, hext'⟩ := hsync.observe hbehind (by omega)
  simp only [map_append, map_cons, map_nil, SeqTracker.observeAll_concat,
    hobs, Option.elim_some, foldl_append, foldl_cons, foldl_nil]
  exact ⟨trivial, by rw [hext', hext], by rw [hext']; exact Nat.le_max_left _ _⟩

/-- A run over the wrap with a late position from before it. -/
theorem unwrap_exact_over_wrap :
    let s := (SeqTracker.start 0xFFFE).observeAll ([0xFFFF, 0x10002].map low16)
    s.observe (low16 0xFFFD) =
        some (0xFFFD, (SeqTracker.start 0xFFFE).observeAll
          ([0xFFFF, 0x10002, 0xFFFD].map low16)) ∧ s.wrap.ext = 0x10002 := by
  have hnear : ArriveWithin 0xFFFE [0xFFFF, 0x10002, 0xFFFD] := by
    intro pre n post heq
    match pre, heq with
    | [], heq =>
      cases heq
      decide
    | [_], heq =>
      cases heq
      decide
    | [_, _], heq =>
      cases heq
      decide
    | _ :: _ :: _ :: pre, heq => simp at heq
  exact ⟨((unwrap_exact hnear).1 [0xFFFF, 0x10002] 0xFFFD [] rfl).1, by decide⟩

end PetlibroLocal
