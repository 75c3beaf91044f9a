import PetlibroLocal.Camera.VideoFrame
import PetlibroLocal.Lib.Splits

/-!
# Poisoned Groups of Pictures

In strict mode a frame that is discarded because of a loss poisons its group of pictures:
what follows predicts from a picture the consumer never got, and is held back until an IDR
arrives. One way to lose a frame does not poison the group: the end fragment of an inter
frame of which no data fragment arrived (`zeroDataHardDrop` on the inter channel).

The main results are `Assembler.rekeyed_iff` and `Assembler.lossGuarded_iff`.
-/

namespace PetlibroLocal

open List

/-! ### The law -/

/-- The frame was discarded because of a loss that was detected in it. -/
def AsmEvent.isLoss : AsmEvent → Bool
  | .queued _ => false
  | .dropped _ _ reason _ => reason != .strictGOPPoisonedDrop

/-- A queued H.264 keyframe. -/
def AsmEvent.isKey : AsmEvent → Bool
  | .queued p => p.codec == codecH264 && p.isKeyframe
  | .dropped _ _ _ _ => false

/-- A queued H.264 packet that is no keyframe. -/
def AsmEvent.isPlain : AsmEvent → Bool
  | .queued p => p.codec == codecH264 && !p.isKeyframe
  | .dropped _ _ _ _ => false

/-- A keyframe is queued before any other picture. -/
def Rekeyed (evs : List AsmEvent) : Prop :=
  AtEach (fun mid ev _ => ev.isPlain = true → ∃ k ∈ mid, k.isKey = true) evs

/-- **After every loss nothing but a keyframe is queued first.** -/
def LossGuarded (evs : List AsmEvent) : Prop :=
  AtEach (fun _ ev post => ev.isLoss = true → Rekeyed post) evs

variable {evs : List AsmEvent} {o : Outcome} {os : List Outcome} {s : Assembler}

theorem rekeyed_cons {ev : AsmEvent} :
    Rekeyed (ev :: evs) ↔ ev.isPlain = false ∧ (ev.isKey = true ∨ Rekeyed evs) := by
  rw [Rekeyed, atEach_cons]
  refine and_congr ?_ ?_
  · simp only [not_mem_nil, false_and, exists_false, imp_false, Bool.not_eq_true]
  · by_cases hkey : ev.isKey = true
    · refine iff_of_true (fun mid ev' _ _ _ => ?_) (.inl hkey)
      exact ⟨ev, mem_cons_self, hkey⟩
    · rw [or_iff_right hkey]
      refine atEach_congr fun mid ev' post _ => imp_congr_right fun _ => ?_
      rw [exists_mem_cons_iff, or_iff_right hkey]

theorem lossGuarded_cons {ev : AsmEvent} :
    LossGuarded (ev :: evs) ↔ (ev.isLoss = true → Rekeyed evs) ∧ LossGuarded evs :=
  atEach_cons

/-! ### When it holds -/

/-- What a complete access unit does for a group of pictures that lost a frame: it is too
short to matter, or it is shown, and restarts the group if it brings an IDR slice. -/
def mendsAU (au : Bytes) : Option Bool :=
  if au.length < 5 then none else some (annexbContainsNALType au naluTypeIFrame)

/-- What an outcome does for a group of pictures that lost a frame and is not poisoned:
`some true` if it poisons or restarts the group, `some false` if it shows a picture of
it. -/
def Outcome.mends? : Outcome → Option Bool
  | .audio _ => none
  | .abandoned _ => some true
  | .noData ch _ => if ch = .key then some true else none
  | .ended _ _ au gapped _ _ => if gapped then some true else mendsAU au
  | .flushed _ au lossy _ => if lossy then some true else mendsAU au

/-- The group of pictures is poisoned or restarted before a picture of it is shown. -/
def Mended (os : List Outcome) : Prop := ∀ b ∈ (os.filterMap Outcome.mends?).head?, b = true

instance (os : List Outcome) : Decidable (Mended os) :=
  inferInstanceAs (Decidable (∀ b ∈ (os.filterMap Outcome.mends?).head?, b = true))

theorem mended_nil : Mended [] := by
  intro b hb
  exact absurd hb (Option.not_mem_none b)

theorem mended_cons_none (h : o.mends? = none) : Mended (o :: os) ↔ Mended os := by
  rw [Mended, filterMap_cons_none h, Mended]

theorem mended_cons_some {b : Bool} (h : o.mends? = some b) : Mended (o :: os) ↔ b = true := by
  rw [Mended, filterMap_cons_some h, List.head?_cons]
  simp only [Option.mem_some_iff, forall_eq']

/-- Every inter frame that ends without data finds the group of pictures poisoned, or the
group is poisoned or restarted before a picture of it is shown. -/
def NoDataMended (s : Assembler) (os : List Outcome) : Prop :=
  AtEach (fun pre o post => ∀ frameNum, o = .noData .inter frameNum →
    (s.settleAll pre).gopPoisoned = true ∨ Mended post) os

/-! ### Release, step by step -/

section Release

variable {poisoned poisoned' : Bool} {evs rest : List AsmEvent} {os : List Outcome}

variable {ch : VideoChannel} {frameNum : UInt32} {au : Bytes} {o : Outcome}

theorem rekeyed_cons_dropped {reason : DropReason} {b : Bool} :
    Rekeyed (.dropped ch frameNum reason b :: rest) ↔ Rekeyed rest := by
  refine rekeyed_cons.trans ((and_iff_right rfl).trans ?_)
  exact or_iff_right Bool.false_ne_true

theorem Handed.rekeyed (h : Handed true poisoned ch frameNum au evs poisoned')
    (hrest : Rekeyed rest ↔ poisoned' = true ∨ Mended os) :
    Rekeyed (evs ++ rest) ↔
      poisoned = true ∨ (mendsAU au).elim (Mended os) (· = true) := by
  cases h with
  | short hshort =>
    rw [mendsAU, if_pos hshort]
    exact hrest
  | held hlen _ hpoisoned hkey =>
    rw [singleton_append, rekeyed_cons_dropped]
    exact iff_of_true (hrest.mpr (.inl rfl)) (.inl hpoisoned)
  | queued p hlen hclean hcodec hpayload hnum hch hkey =>
    rw [singleton_append, rekeyed_cons, mendsAU, if_neg (Nat.not_lt.mpr hlen), Option.elim_some]
    cases hidr : annexbContainsNALType au naluTypeIFrame with
    | true =>
      refine iff_of_true ⟨?_, .inl ?_⟩ (.inr rfl)
      · rw [AsmEvent.isPlain, hkey.trans hidr, Bool.not_true, Bool.and_false]
      · rw [AsmEvent.isKey, hkey.trans hidr, hcodec]
        rfl
    | false =>
      have hplain : (AsmEvent.queued p).isPlain = true := by
        rw [AsmEvent.isPlain, hkey.trans hidr, hcodec]
        rfl
      refine iff_of_false (fun hrekeyed => ?_) ?_
      · exact Bool.false_ne_true (hrekeyed.1.symm.trans hplain)
      · rintro (hpoisoned | hfalse)
        · exact Bool.false_ne_true (hidr.symm.trans (hclean rfl hpoisoned))
        · exact Bool.false_ne_true hfalse

theorem Handed.lossGuarded (h : Handed true poisoned ch frameNum au evs poisoned') :
    LossGuarded (evs ++ rest) ↔ LossGuarded rest := by
  cases h with
  | short hshort => exact Iff.rfl
  | held | queued =>
    exact lossGuarded_cons.trans
      (and_iff_right fun hloss => absurd hloss Bool.false_ne_true)

theorem rekeyed_of_poisoning {reason : DropReason} {b : Bool} (hmends : o.mends? = some true)
    (hrest : Rekeyed rest ↔ true = true ∨ Mended os) :
    Rekeyed ([.dropped ch frameNum reason b] ++ rest) ↔ poisoned = true ∨ Mended (o :: os) := by
  rw [singleton_append, rekeyed_cons_dropped]
  exact iff_of_true (hrest.mpr (.inl rfl)) (.inr ((mended_cons_some hmends).mpr rfl))

theorem mended_cons_of_intact (h : o.mends? = mendsAU au) :
    Mended (o :: os) ↔ (mendsAU au).elim (Mended os) (· = true) := by
  cases hau : mendsAU au with
  | none => exact mended_cons_none (h.trans hau)
  | some b => exact mended_cons_some (h.trans hau)

/-- **Release of one outcome**, as far as the next keyframe is concerned. -/
theorem Released.rekeyed (h : Released true poisoned o evs poisoned')
    (hrest : Rekeyed rest ↔ poisoned' = true ∨ Mended os) :
    Rekeyed (evs ++ rest) ↔ poisoned = true ∨ Mended (o :: os) := by
  cases h with
  | audio e p hcodec =>
    have hplain : (AsmEvent.queued p).isPlain = false := by
      rw [AsmEvent.isPlain, hcodec]
      rfl
    have hkey : ¬ (AsmEvent.queued p).isKey = true := by
      rw [AsmEvent.isKey, hcodec]
      exact Bool.false_ne_true
    rw [singleton_append, rekeyed_cons, and_iff_right hplain, or_iff_right hkey,
      mended_cons_none rfl]
    exact hrest
  | abandoned frameNum =>
    rw [Bool.or_true] at hrest
    exact rekeyed_of_poisoning rfl hrest
  | noData ch frameNum =>
    cases ch with
    | key => exact rekeyed_of_poisoning rfl (by simpa using hrest)
    | inter =>
      rw [singleton_append, rekeyed_cons_dropped, mended_cons_none rfl, hrest]
      simp
  | gapped | lossy => exact rekeyed_of_poisoning rfl hrest
  | gappedInter frameNum au ts onlineNum hstrict => exact absurd hstrict.symm Bool.false_ne_true
  | held frameNum au ts onlineNum _ hpoisoned =>
    rw [singleton_append, rekeyed_cons_dropped]
    exact iff_of_true (hrest.mpr (.inl rfl)) (.inl hpoisoned)
  | ended ch frameNum au gapped ts onlineNum hgapped hclean hhanded =>
    have hintact : gapped = false :=
      eq_false_of_ne_true fun hg => absurd (hgapped hg).1.symm Bool.false_ne_true
    have hmends : (Outcome.ended ch frameNum au gapped ts onlineNum).mends? = mendsAU au := by
      rw [hintact]
      rfl
    rw [mended_cons_of_intact hmends]
    exact hhanded.rekeyed hrest
  | flushed frameNum au lossy ts hlossy hhanded =>
    have hintact : lossy = false :=
      eq_false_of_ne_true fun hl => absurd (hlossy hl).symm Bool.false_ne_true
    have hmends : (Outcome.flushed frameNum au lossy ts).mends? = mendsAU au := by
      rw [hintact]
      rfl
    rw [mended_cons_of_intact hmends]
    exact hhanded.rekeyed hrest

/-- A loss that poisons the group of pictures leaves nothing unguarded; the only one that
does not is an inter frame that ends without data. -/
theorem Released.lossGuarded (h : Released true poisoned o evs poisoned')
    (hrest : Rekeyed rest ↔ poisoned' = true ∨ Mended os)
    (hne : ∀ frameNum, o ≠ .noData .inter frameNum) :
    LossGuarded (evs ++ rest) ↔ LossGuarded rest := by
  have hguarded {ev : AsmEvent} (hpoisoned : poisoned' = true) :
      LossGuarded ([ev] ++ rest) ↔ LossGuarded rest :=
    lossGuarded_cons.trans (and_iff_right fun _ => hrest.mpr (.inl hpoisoned))
  cases h with
  | audio e p hcodec =>
    exact lossGuarded_cons.trans
      (and_iff_right fun hloss => absurd hloss Bool.false_ne_true)
  | abandoned frameNum => exact hguarded (Bool.or_true _)
  | noData ch frameNum =>
    cases ch with
    | key => exact hguarded (Bool.or_true _)
    | inter => exact absurd rfl (hne frameNum)
  | gapped | held | lossy => exact hguarded rfl
  | gappedInter frameNum au ts onlineNum hstrict => exact absurd hstrict.symm Bool.false_ne_true
  | ended _ _ _ _ _ _ _ _ hhanded | flushed _ _ _ _ _ hhanded => exact hhanded.lossGuarded

/-- An inter frame that ends without data is a loss, and leaves the group of pictures as it
was. -/
theorem Released.lossGuarded_noData
    (h : Released true poisoned (.noData .inter frameNum) evs poisoned')
    (hrest : Rekeyed rest ↔ poisoned' = true ∨ Mended os) :
    LossGuarded (evs ++ rest) ↔ (poisoned = true ∨ Mended os) ∧ LossGuarded rest := by
  cases h with
  | noData =>
    have hkept : (poisoned || (true && VideoChannel.inter == .key)) = poisoned := Bool.or_false _
    rw [hkept] at hrest
    rw [← hrest]
    exact lossGuarded_cons.trans (and_congr_left' (imp_iff_right rfl))

end Release

/-! ### Release of a whole run -/

theorem Assembler.settleAll_cons_log (hlog : (s.settleAll (o :: os)).log = s.log ++ evs) :
    ∃ evs₁ evs₂, evs = evs₁ ++ evs₂ ∧
      Released s.strict s.gopPoisoned o evs₁ (s.settle o).gopPoisoned ∧
      (s.settle o).strict = s.strict ∧
      ((s.settle o).settleAll os).log = (s.settle o).log ++ evs₂ := by
  obtain ⟨evs₁, hreleased, hlog₁, hstrict⟩ := s.settle_released o
  obtain ⟨evss, hlog₂, -⟩ := (s.settle o).settleAll_released os
  refine ⟨evs₁, evss.flatten, ?_, hreleased, hstrict, hlog₂⟩
  have hboth : s.log ++ evs = s.log ++ (evs₁ ++ evss.flatten) := by
    rw [← append_assoc, ← hlog₁, ← hlog₂]
    exact hlog.symm
  exact append_cancel_left hboth

/-- **What follows in the log** queues a keyframe before any other picture exactly if the
group of pictures is poisoned, or is poisoned or restarted before a picture is shown. -/
theorem Assembler.rekeyed_iff (hs : s.strict = true) (hlog : (s.settleAll os).log = s.log ++ evs) :
    Rekeyed evs ↔ s.gopPoisoned = true ∨ Mended os := by
  induction os generalizing s evs with
  | nil =>
    obtain rfl : evs = [] := append_right_eq_self.mp hlog.symm
    exact iff_of_true (atEach_nil _) (.inr mended_nil)
  | cons o os ih =>
    obtain ⟨evs₁, evs₂, rfl, hreleased, hstrict, hlog₂⟩ := s.settleAll_cons_log hlog
    rw [hs] at hreleased
    exact hreleased.rekeyed (ih (hstrict.trans hs) hlog₂)

/-- **Every loss in the log is guarded** exactly if every inter frame that ended without
data is. -/
theorem Assembler.lossGuarded_iff (hs : s.strict = true)
    (hlog : (s.settleAll os).log = s.log ++ evs) : LossGuarded evs ↔ NoDataMended s os := by
  induction os generalizing s evs with
  | nil =>
    obtain rfl : evs = [] := append_right_eq_self.mp hlog.symm
    exact iff_of_true (atEach_nil _) (atEach_nil _)
  | cons o os ih =>
    obtain ⟨evs₁, evs₂, rfl, hreleased, hstrict, hlog₂⟩ := s.settleAll_cons_log hlog
    rw [hs] at hreleased
    have hrest := Assembler.rekeyed_iff (hstrict.trans hs) hlog₂
    have htail : LossGuarded evs₂ ↔ AtEach (fun pre o' post => ∀ frameNum,
        o' = .noData .inter frameNum →
          (s.settleAll (o :: pre)).gopPoisoned = true ∨ Mended post) os :=
      ih (hstrict.trans hs) hlog₂
    rw [NoDataMended, atEach_cons, ← htail]
    by_cases hnoData : ∃ frameNum, o = .noData .inter frameNum
    · obtain ⟨frameNum, rfl⟩ := hnoData
      rw [hreleased.lossGuarded_noData hrest]
      refine and_congr_left' ⟨fun h _ _ => h, fun h => h frameNum rfl⟩
    · have hne : ∀ frameNum, o ≠ .noData .inter frameNum := not_exists.mp hnoData
      rw [hreleased.lossGuarded hrest hne]
      exact (and_iff_right fun frameNum h => absurd h (hne frameNum)).symm

/-- **In strict mode every loss is followed by a keyframe before any other picture**,
exactly if every inter frame that ends without data finds the group of pictures poisoned, or
the group is poisoned or restarted before a picture of it is shown. -/
theorem strict_losses_guarded_iff (es : List PendingFrag) :
    LossGuarded ((Assembler.new true).emitAll es).log ↔
      NoDataMended (Assembler.new true) (Assembly.zero.run es).2 := by
  refine Assembler.lossGuarded_iff rfl ?_
  rw [Assembler.log_emitAll_new]
  rfl

/-- An inter frame of two fragments. -/
def sampleLongInter : VideoFrame where
  channel := .inter
  frameNum := 199
  data := [[0, 0, 0, 1, 0x41, 0x9A]]
  last := 0xCC :: metadataTrailer 0 60
  endIdx := 1
  position := id
  length_le := by decide
  plain := by decide
  closing := by decide

/-- The data fragment of the first inter frame is lost and its end fragment discarded; the
inter frame behind it is queued all the same. -/
theorem picture_after_lost_inter_frame :
    ¬ LossGuarded
      ((Assembler.new true).emitAll (sampleLongInter.endFrag :: sampleInter.frags)).log := by
  have hlog : ((Assembler.new true).emitAll (sampleLongInter.endFrag :: sampleInter.frags)).log =
      [.dropped .inter 199 .zeroDataHardDrop false, .queued
          { codec := codecH264
            payload := sampleInter.au
            timestamp := 0
            frameNo := 0
            cameraFrameNo := 200
            channel := innerChInter
            onlineNum := 1
            isKeyframe := false }] := by
    decide
  rw [hlog, lossGuarded_cons]
  intro h
  exact absurd (rekeyed_cons.mp (h.1 rfl)).1 (by decide)

end PetlibroLocal
