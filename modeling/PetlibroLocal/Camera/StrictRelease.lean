import PetlibroLocal.Camera.Release
import Mathlib.Data.List.Chain

/-!
# Release in Strict Mode

In strict mode a frame with a detected loss is discarded and poisons its group of
pictures, and a poisoned group holds back whatever does not bring an IDR slice. Without
losses the only thing that poisons a group is an end fragment without data fragments, the
orphan of an IDR that was flushed before. So what strict mode shows of loss-free frames
depends on the order of completions alone.
-/

namespace PetlibroLocal

/-! ### Completions -/

/-- What completes in a stream. -/
inductive Completion
  /-- A frame of the inter channel. -/
  | inter
  /-- A frame of the key channel, by its end fragment or by a flush; `idr` says whether it
  holds an IDR slice. -/
  | key (idr : Bool)
  /-- The end fragment of a frame that was flushed before. -/
  | orphan
  deriving DecidableEq, Repr

/-- A poisoned group of pictures holds the frame back. -/
def Completion.needsIDR : Completion → Bool
  | .inter => true
  | .key idr => !idr
  | .orphan => false

/-- **Nothing that needs an IDR completes right after an orphaned end fragment.** -/
def Served (cs : List Completion) : Prop := cs.IsChain fun c c' => c = .orphan → c'.needsIDR = false

instance (cs : List Completion) : Decidable (Served cs) :=
  inferInstanceAs (Decidable (List.IsChain _ cs))

theorem served_cons {c : Completion} {cs : List Completion} :
    Served (c :: cs) ↔ (c = .orphan → ∀ c' ∈ cs.head?, c'.needsIDR = false) ∧ Served cs := by
  refine List.isChain_cons.trans (and_congr_left' ?_)
  exact ⟨fun h horphan c' hmem => h c' hmem horphan, fun h c' hmem horphan => h horphan c' hmem⟩

/-- The completion of a frame of the key channel. -/
def keyCompletion (au : Bytes) : Completion := .key (annexbContainsNALType au naluTypeIFrame)

/-- What the outcome completes. -/
def Outcome.completion? : Outcome → Option Completion
  | .ended .inter _ _ _ _ _ => some .inter
  | .ended .key _ au _ _ _ => some (keyCompletion au)
  | .flushed _ au _ _ => some (keyCompletion au)
  | .noData _ _ => some .orphan
  | .audio _ => none
  | .abandoned _ => none

/-- The outcome is a frame without a loss, or the orphaned end fragment of one. -/
def Outcome.Regular : Outcome → Prop
  | .audio _ => True
  | .abandoned _ => False
  | .noData ch _ => ch = .key
  | .ended _ _ au gapped _ _ => 5 ≤ au.length ∧ gapped = false
  | .flushed _ au lossy _ => 5 ≤ au.length ∧ lossy = false

/-! ### Release in strict mode -/

variable {frameNum : UInt32} {au : Bytes}

/-- `emitAU` shows an access unit in strict mode unless it has no IDR slice in a poisoned
group of pictures; shown, it leaves the group clean. -/
theorem Handed.shows_iff {poisoned poisoned' : Bool} {ch : VideoChannel} {evs : List AsmEvent}
    (h : Handed true poisoned ch frameNum au evs poisoned') (hlen : 5 ≤ au.length) :
    ((∀ ch', framesOf evs ch' = if ch = ch' then [(frameNum, au)] else []) ↔
        (poisoned = true → annexbContainsNALType au naluTypeIFrame = true)) ∧
      ((poisoned = true → annexbContainsNALType au naluTypeIFrame = true) →
        poisoned' = false) := by
  cases h with
  | short hshort => exact absurd hshort (Nat.not_lt.mpr hlen)
  | held _ _ hpoisoned hkey =>
    have hnot : ¬ (poisoned = true → annexbContainsNALType au naluTypeIFrame = true) :=
      fun h => Bool.false_ne_true (hkey.symm.trans (h hpoisoned))
    refine ⟨⟨fun h => ?_, fun h => absurd h hnot⟩, fun h => absurd h hnot⟩
    have hch := h ch
    rw [if_pos rfl] at hch
    exact absurd hch.symm (List.cons_ne_nil _ _)
  | queued p _ hclean hcodec hpayload hnum hch hkey =>
    refine ⟨⟨fun _ => hclean rfl, fun _ ch' => ?_⟩, fun h => ?_⟩
    · rw [framesOf_queued hcodec hch, hpayload, hnum]
    · cases poisoned with
      | false => rfl
      | true => rw [h rfl]; rfl

theorem out?_ended {ch : VideoChannel} {ts : UInt32} {onlineNum : UInt8} (hlen : 5 ≤ au.length)
    (ch' : VideoChannel) :
    ((Outcome.ended ch frameNum au false ts onlineNum).out? ch').toList =
      if ch = ch' then [(frameNum, au)] else [] := by
  simp only [Outcome.out?, hlen, Bool.false_and, and_true]
  split_ifs <;> rfl

theorem out?_flushed {lossy : Bool} {ts : UInt32} (hlen : 5 ≤ au.length) (ch' : VideoChannel) :
    ((Outcome.flushed frameNum au lossy ts).out? ch').toList =
      if .key = ch' then [(frameNum, au)] else [] := by
  simp only [Outcome.out?, hlen, and_true]
  split_ifs <;> rfl

theorem needsIDR_keyCompletion :
    (∀ c ∈ some (keyCompletion au), c.needsIDR = false) ↔
      annexbContainsNALType au naluTypeIFrame = true := by
  simp [keyCompletion, Completion.needsIDR]

/-- **Release of a regular outcome in strict mode**: it is shown unless it needs an IDR in
a poisoned group of pictures, and then the group is poisoned exactly behind an orphaned
end fragment. -/
theorem Released.regular {poisoned poisoned' : Bool} {o : Outcome} {evs : List AsmEvent}
    (hrel : Released true poisoned o evs poisoned') (h : o.Regular) :
    ((∀ ch, framesOf evs ch = (o.out? ch).toList) ↔
        (poisoned = true → ∀ c ∈ o.completion?, c.needsIDR = false)) ∧
      ((poisoned = true → ∀ c ∈ o.completion?, c.needsIDR = false) →
        poisoned' = o.completion?.elim poisoned (· == .orphan)) := by
  cases hrel with
  | audio e p hcodec =>
    refine ⟨⟨fun _ _ c hc => absurd hc (by simp [Outcome.completion?]), fun _ ch => ?_⟩,
      fun _ => rfl⟩
    simp [framesOf, AsmEvent.video?, hcodec, Outcome.out?, codecAACADTS, codecH264]
  | abandoned frameNum => exact h.elim
  | noData ch frameNum =>
    obtain rfl : ch = .key := h
    refine ⟨⟨fun _ _ c hc => ?_, fun _ _ => rfl⟩, fun _ => Bool.or_true _⟩
    obtain rfl : Completion.orphan = c := by simpa [Outcome.completion?] using hc
    rfl
  | gapped | lossy => exact absurd h.2.symm Bool.false_ne_true
  | gappedInter frameNum au ts onlineNum hstrict =>
    exact absurd hstrict.symm Bool.false_ne_true
  | held frameNum au ts onlineNum hstrict hpoisoned =>
    have hnot : ¬ (poisoned = true → ∀ c ∈ some Completion.inter, c.needsIDR = false) :=
      fun hc => Bool.false_ne_true (hc hpoisoned .inter rfl).symm
    refine ⟨⟨fun hshown => ?_, fun hc => absurd hc hnot⟩, fun hc => absurd hc hnot⟩
    have hinter := (hshown .inter).trans (out?_ended h.1 .inter)
    rw [if_pos rfl] at hinter
    exact absurd hinter.symm (List.cons_ne_nil _ _)
  | ended ch frameNum au gapped ts onlineNum hgapped hclean hhanded =>
    obtain ⟨hlen, rfl⟩ := h
    obtain ⟨hshows, hgop⟩ := hhanded.shows_iff hlen
    simp only [out?_ended hlen]
    cases ch with
    | key =>
      simp only [Outcome.completion?, needsIDR_keyCompletion]
      exact ⟨hshows, hgop⟩
    | inter =>
      have hpoisoned : poisoned = false :=
        eq_false_of_ne_true fun hp => absurd (hclean rfl hp) (by decide)
      have hvacuous {P : Prop} : poisoned = true → P := fun hp =>
        absurd (hpoisoned.symm.trans hp) Bool.false_ne_true
      exact ⟨iff_of_true (hshows.mpr hvacuous) hvacuous, fun _ => hgop hvacuous⟩
  | flushed frameNum au lossy ts hlossy hhanded =>
    obtain ⟨hshows, hgop⟩ := hhanded.shows_iff h.1
    simp only [out?_flushed h.1, Outcome.completion?, needsIDR_keyCompletion]
    exact ⟨hshows, hgop⟩

/-- **Strict mode shows all frames** exactly if nothing that needs an IDR completes right
after an orphaned end fragment, or first in a poisoned group of pictures. -/
theorem Assembler.showsAll_strict {s : Assembler} (hs : s.strict = true) {os : List Outcome}
    (hregular : ∀ o ∈ os, o.Regular) :
    s.ShowsAll os ↔
      (s.gopPoisoned = true →
        ∀ c ∈ (os.filterMap Outcome.completion?).head?, c.needsIDR = false) ∧
        Served (os.filterMap Outcome.completion?) := by
  induction os generalizing s with
  | nil => exact iff_of_true s.showsAll_nil ⟨fun _ c hc => absurd hc (by simp), .nil⟩
  | cons o os ih =>
    obtain ⟨evs, hreleased, hlog, hstrict⟩ := s.settle_released o
    rw [hs] at hreleased
    obtain ⟨hshows, hgop⟩ := hreleased.regular (hregular o List.mem_cons_self)
    have hrest := ih (hstrict.trans hs) fun o' ho' => hregular o' (List.mem_cons_of_mem _ ho')
    rw [Assembler.showsAll_cons, Assembler.shows_iff hlog, hshows, hrest]
    cases hc : o.completion? with
    | none =>
      have hnone : s.gopPoisoned = true → ∀ c ∈ (none : Option Completion),
          c.needsIDR = false := fun _ c hmem => absurd hmem (Option.not_mem_none c)
      rw [hc] at hgop
      rw [List.filterMap_cons_none hc, and_iff_right hnone, hgop hnone]
      rfl
    | some c =>
      rw [hc] at hgop
      rw [List.filterMap_cons_some hc, served_cons]
      refine and_congr_right fun hserved => and_congr_left' ?_
      rw [hgop hserved, Option.elim_some, beq_iff_eq]

theorem Released.framesOf_eq_nil {poisoned poisoned' : Bool} {o : Outcome}
    {evs : List AsmEvent} (h : Released true poisoned o evs poisoned') (hlost : ¬ o.Intact)
    (ch : VideoChannel) : framesOf evs ch = [] := by
  cases h with
  | audio e p hcodec => exact absurd trivial hlost
  | abandoned | noData | gapped | gappedInter | lossy => rfl
  | held frameNum au ts onlineNum hstrict hpoisoned => exact absurd rfl hlost
  | ended ch' frameNum au gapped ts onlineNum hgapped hclean hhanded =>
    exact absurd (hgapped (eq_true_of_ne_false hlost)).1.symm Bool.false_ne_true
  | flushed frameNum au lossy ts hlossy hhanded =>
    exact absurd (hlossy (eq_true_of_ne_false hlost)).symm Bool.false_ne_true

/-- If strict mode shows all frames, no loss was detected in any of them. -/
theorem Assembler.intact_of_showsAll {s : Assembler} (hs : s.strict = true)
    {os : List Outcome} (h : s.ShowsAll os) (ch : VideoChannel) :
    ∀ o ∈ os, o.out? ch ≠ none → o.Intact := by
  induction os generalizing s with
  | nil => exact List.forall_mem_nil _
  | cons o os ih =>
    obtain ⟨evs, hreleased, hlog, hstrict⟩ := s.settle_released o
    obtain ⟨hfirst, hrest⟩ := Assembler.showsAll_cons.mp h
    intro o' ho' hout
    rcases List.mem_cons.mp ho' with rfl | ho'
    · by_contra hlost
      rw [hs] at hreleased
      have hshown := (Assembler.shows_iff hlog).mp hfirst ch
      rw [hreleased.framesOf_eq_nil hlost ch] at hshown
      exact hout (Option.toList_eq_nil_iff.mp hshown.symm)
    · exact ih (hstrict.trans hs) hrest o' ho' hout

end PetlibroLocal
