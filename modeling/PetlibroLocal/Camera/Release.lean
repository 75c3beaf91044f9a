import PetlibroLocal.Camera.Assembly
import Mathlib.Data.List.Forall2

/-!
# What Becomes of the Outcomes

An outcome of the assembly is released into the log: its access unit is queued, or it is
discarded, with or without poisoning the group of pictures. `Released` lists every way
this can end, and everything about the log is derived from it.
-/

namespace PetlibroLocal

open List

/-- **How `emitAU` ends**: what it adds to the log, and the value of `gopPoisoned`
afterwards. -/
inductive Handed (strict poisoned : Bool) (ch : VideoChannel) (frameNum : UInt32)
    (au : Bytes) : List AsmEvent → Bool → Prop
  /-- Too short to be an access unit. -/
  | short (h : au.length < 5) : Handed strict poisoned ch frameNum au [] poisoned
  /-- No IDR, in a poisoned group of pictures. -/
  | held (hlen : 5 ≤ au.length) (hstrict : strict = true) (hpoisoned : poisoned = true)
      (hkey : annexbContainsNALType au naluTypeIFrame = false) :
      Handed strict poisoned ch frameNum au
        [.dropped ch frameNum .strictGOPPoisonedDrop true] true
  /-- Queued; an IDR clears the poison. -/
  | queued (p : Packet) (hlen : 5 ≤ au.length)
      (hclean : strict = true → poisoned = true →
        annexbContainsNALType au naluTypeIFrame = true) (hcodec : p.codec = codecH264)
      (hpayload : p.payload = au) (hnum : p.cameraFrameNo = frameNum)
      (hch : p.channel = ch.byte)
      (hkey : p.isKeyframe = annexbContainsNALType au naluTypeIFrame) :
      Handed strict poisoned ch frameNum au [.queued p]
        (poisoned && !annexbContainsNALType au naluTypeIFrame)

/-- **How release of an outcome ends**: what it adds to the log, and the value of
`gopPoisoned` afterwards. -/
inductive Released (strict poisoned : Bool) : Outcome → List AsmEvent → Bool → Prop
  | audio (e : PendingFrag) (p : Packet) (hcodec : p.codec = codecAACADTS) :
      Released strict poisoned (.audio e) [.queued p] poisoned
  | abandoned (frameNum : UInt32) :
      Released strict poisoned (.abandoned frameNum)
        [.dropped .inter frameNum .frameNumJumpInter (poisoned || strict)]
        (poisoned || strict)
  | noData (ch : VideoChannel) (frameNum : UInt32) :
      Released strict poisoned (.noData ch frameNum)
        [.dropped ch frameNum .zeroDataHardDrop (poisoned || (strict && ch == .key))]
        (poisoned || (strict && ch == .key))
  | gapped (ch : VideoChannel) (frameNum : UInt32) (au : Bytes) (ts : UInt32)
      (onlineNum : UInt8) (hstrict : strict = true) :
      Released strict poisoned (.ended ch frameNum au true ts onlineNum)
        [.dropped ch frameNum
          (match ch with | .key => .gappedIDRDrop | .inter => .strictGappedPDrop) true] true
  | gappedInter (frameNum : UInt32) (au : Bytes) (ts : UInt32) (onlineNum : UInt8)
      (hstrict : strict = false) :
      Released strict poisoned (.ended .inter frameNum au true ts onlineNum)
        [.dropped .inter frameNum .gappedPDrop poisoned] poisoned
  | held (frameNum : UInt32) (au : Bytes) (ts : UInt32) (onlineNum : UInt8)
      (hstrict : strict = true) (hpoisoned : poisoned = true) :
      Released strict poisoned (.ended .inter frameNum au false ts onlineNum)
        [.dropped .inter frameNum .strictGOPPoisonedDrop true] true
  | ended (ch : VideoChannel) (frameNum : UInt32) (au : Bytes) (gapped : Bool) (ts : UInt32)
      (onlineNum : UInt8) {evs : List AsmEvent} {poisoned' : Bool}
      (hgapped : gapped = true → strict = false ∧ ch = .key)
      (hclean : strict = true → poisoned = true → ch = .key)
      (h : Handed strict poisoned ch frameNum au evs poisoned') :
      Released strict poisoned (.ended ch frameNum au gapped ts onlineNum) evs poisoned'
  | lossy (frameNum : UInt32) (au : Bytes) (ts : UInt32) (hstrict : strict = true) :
      Released strict poisoned (.flushed frameNum au true ts)
        [.dropped .key frameNum .gappedIDRDrop true] true
  | flushed (frameNum : UInt32) (au : Bytes) (lossy : Bool) (ts : UInt32)
      {evs : List AsmEvent} {poisoned' : Bool} (hlossy : lossy = true → strict = false)
      (h : Handed strict poisoned .key frameNum au evs poisoned') :
      Released strict poisoned (.flushed frameNum au lossy ts) evs poisoned'

theorem Assembler.emitAU_handed (s : Assembler) (au : Bytes) (frameNum : UInt32)
    (ch : VideoChannel) (onlineNum : UInt8) :
    ∃ evs, Handed s.strict s.gopPoisoned ch frameNum au evs
        (s.emitAU au frameNum ch onlineNum).gopPoisoned ∧
      (s.emitAU au frameNum ch onlineNum).log = s.log ++ evs ∧
      (s.emitAU au frameNum ch onlineNum).strict = s.strict := by
  obtain ⟨hsame, hcases⟩ := s.emitAU_cases au frameNum ch onlineNum
  obtain ⟨hshort, hlog, hgop⟩ | ⟨hlen, hstrict, hpoison, hkey, hgop, hlog⟩ |
    ⟨hlen, hclean, p, hq⟩ := hcases
  · refine ⟨[], ?_, hlog.trans (append_nil _).symm, hsame.strict⟩
    rw [hgop]
    exact .short hshort
  · refine ⟨_, ?_, hlog, hsame.strict⟩
    rw [hgop]
    exact .held hlen hstrict hpoison hkey
  · refine ⟨_, ?_, hq.log, hsame.strict⟩
    rw [hq.gopPoisoned]
    exact .queued p hlen hclean hq.codec hq.payload hq.cameraFrameNo hq.channel hq.isKeyframe

theorem Assembler.discard_poison_if (s : Assembler) (c : Bool) (ch : VideoChannel)
    (frameNum : UInt32) (reason : DropReason) :
    let s' := (if c then s.poison else s).discard ch frameNum reason
    s'.gopPoisoned = (s.gopPoisoned || c) ∧ s'.strict = s.strict ∧
      s'.log = s.log ++ [.dropped ch frameNum reason (s.gopPoisoned || c)] := by
  cases c with
  | false =>
    simp only [Bool.or_false]
    exact ⟨rfl, rfl, rfl⟩
  | true =>
    simp only [Bool.or_true]
    exact ⟨rfl, rfl, rfl⟩

/-- **Release ends in one of the ways of `Released`.** -/
theorem Assembler.settle_released (s : Assembler) (o : Outcome) :
    ∃ evs, Released s.strict s.gopPoisoned o evs (s.settle o).gopPoisoned ∧
      (s.settle o).log = s.log ++ evs ∧ (s.settle o).strict = s.strict := by
  cases o with
  | audio e => exact ⟨_, .audio e _ rfl, rfl, rfl⟩
  | abandoned frameNum =>
    obtain ⟨hgop, hstrict, hlog⟩ :=
      s.discard_poison_if s.strict .inter frameNum .frameNumJumpInter
    refine ⟨_, ?_, hlog, hstrict⟩
    rw [Assembler.settle, hgop]
    exact .abandoned frameNum
  | noData ch frameNum =>
    obtain ⟨hgop, hstrict, hlog⟩ :=
      s.discard_poison_if (s.strict && ch == .key) ch frameNum .zeroDataHardDrop
    refine ⟨_, ?_, hlog, hstrict⟩
    rw [Assembler.settle, hgop]
    exact .noData ch frameNum
  | ended ch frameNum au gapped ts onlineNum =>
    simp only [Assembler.settle.eq_def]
    split_ifs with hlossy hinter hheld
    · obtain ⟨rfl, hstrict⟩ := Bool.and_eq_true_iff.mp hlossy
      exact ⟨_, .gapped ch frameNum au ts onlineNum hstrict, rfl, rfl⟩
    · obtain ⟨rfl, hch⟩ := Bool.and_eq_true_iff.mp hinter
      obtain rfl := eq_of_beq hch
      refine ⟨_, .gappedInter frameNum au ts onlineNum ?_, rfl, rfl⟩
      exact eq_false_of_ne_true fun h => hlossy (Bool.and_eq_true_iff.mpr ⟨rfl, h⟩)
    · simp only [Bool.and_eq_true] at hheld
      obtain ⟨⟨hstrict, hpoisoned⟩, hch⟩ := hheld
      obtain rfl := eq_of_beq hch
      have hgapped : gapped = false := eq_false_of_ne_true fun h => hinter
        (Bool.and_eq_true_iff.mpr ⟨h, rfl⟩)
      subst hgapped
      refine ⟨[.dropped .inter frameNum .strictGOPPoisonedDrop true], ?_, ?_, rfl⟩
      · have hgop : ((s.setPendingTs ts).discard .inter frameNum
            .strictGOPPoisonedDrop).gopPoisoned = true := hpoisoned
        rw [hgop]
        exact .held frameNum au ts onlineNum hstrict hpoisoned
      · exact congrArg (fun b => s.log ++
          [AsmEvent.dropped .inter frameNum .strictGOPPoisonedDrop b]) hpoisoned
    · obtain ⟨evs, hhanded, hlog, hstrict⟩ :=
        (s.setPendingTs ts).emitAU_handed au frameNum ch onlineNum
      refine ⟨evs, .ended ch frameNum au gapped ts onlineNum (fun hgapped => ?_)
        (fun hs hpoisoned => ?_) hhanded, hlog, hstrict⟩
      · rw [hgapped, Bool.true_and] at hlossy hinter
        refine ⟨eq_false_of_ne_true hlossy, ?_⟩
        cases ch with
        | key => rfl
        | inter => exact absurd rfl hinter
      · cases ch with
        | key => rfl
        | inter => exact absurd (by rw [hs, hpoisoned]; rfl) hheld
  | flushed frameNum au lossy ts =>
    rw [Assembler.settle]
    by_cases hlossy : (s.strict && lossy) = true
    · rw [if_pos hlossy]
      obtain ⟨hstrict, rfl⟩ := Bool.and_eq_true_iff.mp hlossy
      exact ⟨_, .lossy frameNum au ts hstrict, rfl, rfl⟩
    rw [if_neg hlossy]
    have hclean : lossy = true → s.strict = false := fun h =>
      eq_false_of_ne_true fun hs => hlossy (Bool.and_eq_true_iff.mpr ⟨hs, h⟩)
    split_ifs with hts
    · obtain ⟨evs, hhanded, hlog, hstrict⟩ :=
        (s.setPendingTs (ts - 40)).emitAU_handed au frameNum .key 0
      exact ⟨evs, .flushed frameNum au lossy ts hclean hhanded, hlog, hstrict⟩
    · obtain ⟨evs, hhanded, hlog, hstrict⟩ := s.emitAU_handed au frameNum .key 0
      exact ⟨evs, .flushed frameNum au lossy ts hclean hhanded, hlog, hstrict⟩

theorem Assembler.settleAll_released (s : Assembler) (os : List Outcome) :
    ∃ evss : List (List AsmEvent), (s.settleAll os).log = s.log ++ evss.flatten ∧
      List.Forall₂ (fun o evs => ∃ poisoned poisoned',
        Released s.strict poisoned o evs poisoned') os evss := by
  induction os generalizing s with
  | nil => exact ⟨[], (append_nil _).symm, .nil⟩
  | cons o os ih =>
    obtain ⟨evs, hreleased, hlog, hstrict⟩ := s.settle_released o
    obtain ⟨evss, hlogs, hall⟩ := ih (s.settle o)
    rw [hstrict] at hall
    refine ⟨evs :: evss, ?_, .cons ⟨_, _, hreleased⟩ hall⟩
    rw [flatten_cons, ← append_assoc, ← hlog]
    exact hlogs

/-! ### What is queued -/

/-- The frames queued on a channel: their camera frame numbers and payloads. -/
def framesOf (evs : List AsmEvent) (ch : VideoChannel) : List (UInt32 × Bytes) :=
  ((evs.filterMap AsmEvent.video?).filter (·.channel == ch.byte)).map
    fun p => (p.cameraFrameNo, p.payload)

/-- The frames that the assembler has queued on a channel. -/
def Assembler.framesOut (s : Assembler) (ch : VideoChannel) : List (UInt32 × Bytes) :=
  framesOf s.log ch

theorem framesOf_append (evs evs' : List AsmEvent) (ch : VideoChannel) :
    framesOf (evs ++ evs') ch = framesOf evs ch ++ framesOf evs' ch := by
  rw [framesOf, filterMap_append, filter_append, map_append, framesOf, framesOf]

/-- The access unit that release hands to `emitAU`, if it is long enough to be queued
there; a damaged inter frame is never handed over. -/
def Outcome.out? (ch : VideoChannel) : Outcome → Option (UInt32 × Bytes)
  | .ended ch' frameNum au gapped _ _ =>
    if ch' = ch ∧ 5 ≤ au.length ∧ (gapped && ch' == .inter) = false then some (frameNum, au)
    else none
  | .flushed frameNum au _ _ =>
    if .key = ch ∧ 5 ≤ au.length then some (frameNum, au) else none
  | _ => none

/-- No loss was detected in the frame. -/
def Outcome.Intact : Outcome → Prop
  | .audio _ => True
  | .ended _ _ _ gapped _ _ => gapped = false
  | .flushed _ _ lossy _ => lossy = false
  | _ => False

theorem framesOf_queued {p : Packet} (hcodec : p.codec = codecH264) {ch : VideoChannel}
    (hch : p.channel = ch.byte) (ch' : VideoChannel) :
    framesOf [.queued p] ch' = if ch = ch' then [(p.cameraFrameNo, p.payload)] else [] := by
  have hvideo : [AsmEvent.queued p].filterMap AsmEvent.video? = [p] := by
    simp [AsmEvent.video?, hcodec]
  rw [framesOf, hvideo, filter_singleton, hch]
  by_cases heq : ch = ch'
  · rw [if_pos heq, heq, beq_self_eq_true]
    rfl
  · have hbyte : (ch.byte == ch'.byte) = false := by simpa [VideoChannel.byte_inj] using heq
    rw [if_neg heq, hbyte]
    rfl

variable {strict poisoned poisoned' : Bool} {evs : List AsmEvent} {o : Outcome} {s : Assembler}

/-- **What `emitAU` shows on a channel**: nothing for a short access unit; else the access
unit, unless it is held back in a poisoned group of pictures. -/
theorem Handed.shows {ch : VideoChannel} {frameNum : UInt32} {au : Bytes}
    (h : Handed strict poisoned ch frameNum au evs poisoned') (ch' : VideoChannel) :
    (poisoned = false → poisoned' = false) ∧
      (framesOf evs ch' = (if ch = ch' ∧ 5 ≤ au.length then [(frameNum, au)] else []) ∨
        strict = true ∧ poisoned = true ∧ framesOf evs ch' = []) := by
  cases h with
  | short hshort =>
    refine ⟨fun h => h, .inl ?_⟩
    rw [if_neg fun h => absurd hshort (Nat.not_lt.mpr h.2)]
    rfl
  | held hlen hstrict hpoisoned hkey =>
    refine ⟨fun h => absurd (h.symm.trans hpoisoned) Bool.false_ne_true, .inr ?_⟩
    exact ⟨hstrict, hpoisoned, rfl⟩
  | queued p hlen hclean hcodec hpayload hnum hch hkey =>
    refine ⟨fun h => by rw [h, Bool.false_and], .inl ?_⟩
    rw [framesOf_queued hcodec hch, hpayload, hnum]
    simp only [hlen, and_true]

/-- **What release shows on a channel**: the access unit of the outcome is queued, or it is
held back, which only strict mode does, after a loss. -/
theorem Released.shows (h : Released strict poisoned o evs poisoned') (ch : VideoChannel) :
    (o.Intact → poisoned = false → poisoned' = false) ∧
      (framesOf evs ch = (o.out? ch).toList ∨
        strict = true ∧ (o.Intact → poisoned = true) ∧ framesOf evs ch = []) := by
  cases h with
  | audio e p hcodec =>
    refine ⟨fun _ h => h, .inl ?_⟩
    simp [framesOf, AsmEvent.video?, hcodec, Outcome.out?, codecAACADTS, codecH264]
  | abandoned | noData => exact ⟨fun h => h.elim, .inl rfl⟩
  | gapped ch' frameNum au ts onlineNum hstrict =>
    have hnot : ¬ Outcome.Intact (.ended ch' frameNum au true ts onlineNum) :=
      Bool.false_ne_true.symm
    exact ⟨fun h => absurd h hnot, .inr ⟨hstrict, fun h => absurd h hnot, rfl⟩⟩
  | gappedInter frameNum au ts onlineNum hstrict =>
    refine ⟨fun _ h => h, .inl ?_⟩
    rw [Outcome.out?, if_neg fun h => absurd h.2.2 (by decide)]
    rfl
  | held frameNum au ts onlineNum hstrict hpoisoned =>
    refine ⟨fun _ h => absurd (h.symm.trans hpoisoned) Bool.false_ne_true, .inr ?_⟩
    exact ⟨hstrict, fun _ => hpoisoned, rfl⟩
  | ended ch' frameNum au gapped ts onlineNum hgapped hclean hhanded =>
    obtain ⟨hgop, hframes⟩ := hhanded.shows ch
    refine ⟨fun _ => hgop, hframes.imp (fun h => h.trans ?_) fun h => ⟨h.1, fun _ => h.2.1, h.2.2⟩⟩
    have hnot : (gapped && ch' == .inter) = false := by
      cases gapped with
      | false => rfl
      | true => rw [(hgapped rfl).2]; rfl
    simp only [Outcome.out?, hnot, and_true]
    split_ifs <;> rfl
  | lossy frameNum au ts hstrict =>
    have hnot : ¬ Outcome.Intact (.flushed frameNum au true ts) := Bool.false_ne_true.symm
    exact ⟨fun h => absurd h hnot, .inr ⟨hstrict, fun h => absurd h hnot, rfl⟩⟩
  | flushed frameNum au lossy ts hlossy hhanded =>
    obtain ⟨hgop, hframes⟩ := hhanded.shows ch
    refine ⟨fun _ => hgop, hframes.imp (fun h => h.trans ?_) fun h => ⟨h.1, fun _ => h.2.1, h.2.2⟩⟩
    rw [Outcome.out?]
    split_ifs <;> rfl

theorem Assembler.framesOut_of_log {s' : Assembler} (h : s'.log = s.log ++ evs)
    (ch : VideoChannel) :
    s'.framesOut ch = s.framesOut ch ++ framesOf evs ch := by
  rw [Assembler.framesOut, h, framesOf_append, Assembler.framesOut]

theorem Assembler.settle_shows (s : Assembler) (o : Outcome) (ch : VideoChannel) :
    (s.settle o).strict = s.strict ∧
      (o.Intact → s.gopPoisoned = false → (s.settle o).gopPoisoned = false) ∧
      ((s.settle o).framesOut ch = s.framesOut ch ++ (o.out? ch).toList ∨
        s.strict = true ∧ (o.Intact → s.gopPoisoned = true) ∧
          (s.settle o).framesOut ch = s.framesOut ch) := by
  obtain ⟨evs, hreleased, hlog, hstrict⟩ := s.settle_released o
  obtain ⟨hgop, hframes⟩ := hreleased.shows ch
  rw [Assembler.framesOut_of_log hlog]
  refine ⟨hstrict, hgop, hframes.imp (fun h => by rw [h]) fun h => ⟨h.1, h.2.1, ?_⟩⟩
  rw [h.2.2, append_nil]

theorem filterMap_out?_cons (o : Outcome) (os : List Outcome) (ch : VideoChannel) :
    (o :: os).filterMap (Outcome.out? ch) =
      (o.out? ch).toList ++ os.filterMap (Outcome.out? ch) := by
  rw [filterMap_cons]
  cases o.out? ch <;> rfl

/-- In any mode release queues nothing but access units of the outcomes, in order. -/
theorem Assembler.framesOut_settleAll_sublist (s : Assembler) (os : List Outcome)
    (ch : VideoChannel) :
    ∃ fs, (s.settleAll os).framesOut ch = s.framesOut ch ++ fs ∧
      fs.Sublist (os.filterMap (Outcome.out? ch)) := by
  induction os generalizing s with
  | nil => exact ⟨[], (append_nil _).symm, .slnil⟩
  | cons o os ih =>
    obtain ⟨fs, hfs, hsub⟩ := ih (s.settle o)
    rw [filterMap_out?_cons]
    obtain ⟨-, -, hout | ⟨-, -, hout⟩⟩ := s.settle_shows o ch
    · exact ⟨(o.out? ch).toList ++ fs, hfs.trans (by rw [hout, append_assoc]), hsub.append_left _⟩
    · exact ⟨fs, hfs.trans (by rw [hout]), hsub.trans (sublist_append_right _ _)⟩

/-- Release queues the access unit of the outcome, if it has one. -/
def Assembler.Shows (s : Assembler) (o : Outcome) : Prop :=
  ∀ ch, (s.settle o).framesOut ch = s.framesOut ch ++ (o.out? ch).toList

theorem Assembler.shows_iff (hlog : (s.settle o).log = s.log ++ evs) :
    s.Shows o ↔ ∀ ch, framesOf evs ch = (o.out? ch).toList := by
  refine forall_congr' fun ch => ?_
  rw [Assembler.framesOut_of_log hlog]
  exact append_right_inj _

/-- Release queues the access units of all outcomes. -/
def Assembler.ShowsAll (s : Assembler) (os : List Outcome) : Prop :=
  ∀ ch, (s.settleAll os).framesOut ch = s.framesOut ch ++ os.filterMap (Outcome.out? ch)

theorem Assembler.showsAll_nil (s : Assembler) : s.ShowsAll [] := fun _ => (append_nil _).symm

theorem Assembler.showsAll_cons {os : List Outcome} :
    s.ShowsAll (o :: os) ↔ s.Shows o ∧ (s.settle o).ShowsAll os := by
  constructor
  · intro h
    have hfirst : s.Shows o := by
      intro ch
      obtain ⟨-, -, hout | ⟨-, -, hheld⟩⟩ := s.settle_shows o ch
      · exact hout
      -- what is held back cannot be made up for by the others
      · obtain ⟨fs, hfs, hsub⟩ := (s.settle o).framesOut_settleAll_sublist os ch
        have hall := (h ch).symm.trans hfs
        rw [hheld, filterMap_out?_cons] at hall
        have hlen := hsub.length_le
        rw [← append_cancel_left hall, length_append] at hlen
        have hnone : (o.out? ch).toList = [] := length_eq_zero_iff.mp (by omega)
        rw [hheld, hnone, append_nil]
    refine ⟨hfirst, fun ch => (h ch).trans ?_⟩
    rw [hfirst ch, filterMap_out?_cons, append_assoc]
  · rintro ⟨hfirst, hrest⟩ ch
    refine (hrest ch).trans ?_
    rw [hfirst ch, filterMap_out?_cons, append_assoc]

/-- Outside strict mode, and as long as no loss was detected also in it, release queues
the access unit of every outcome. -/
theorem Assembler.showsAll_of_intact {os : List Outcome}
    (h : s.strict = false ∨ (s.gopPoisoned = false ∧ ∀ o ∈ os, o.Intact)) : s.ShowsAll os := by
  induction os generalizing s with
  | nil => exact s.showsAll_nil
  | cons o os ih =>
    refine Assembler.showsAll_cons.mpr ⟨fun ch => ?_, ih ?_⟩
    · obtain ⟨-, -, hout⟩ := s.settle_shows o ch
      refine hout.resolve_right fun ⟨hs, hheld, _⟩ => ?_
      rcases h with h | ⟨hclean, hintact⟩
      · exact absurd (h.symm.trans hs) Bool.false_ne_true
      · have hpoison := hheld (hintact o mem_cons_self)
        exact absurd (hclean.symm.trans hpoison) Bool.false_ne_true
    · obtain ⟨hstrict, hgop, -⟩ := s.settle_shows o .key
      refine h.imp (fun h => hstrict.trans h) fun ⟨hclean, hintact⟩ => ?_
      exact ⟨hgop (hintact o mem_cons_self) hclean,
        fun o' ho' => hintact o' (mem_cons_of_mem _ ho')⟩

/-! ### The log of one channel -/

/-- The channel an outcome belongs to. -/
def Outcome.channel? : Outcome → Option VideoChannel
  | .audio _ => none
  | .abandoned _ => some .inter
  | .noData ch _ => some ch
  | .ended ch _ _ _ _ _ => some ch
  | .flushed _ _ _ _ => some .key

/-- The outcomes of one channel. -/
def Outcome.onChannel (ch : VideoChannel) (o : Outcome) : Bool := o.channel? == some ch

/-- What the log says about one video channel. -/
def AsmEvent.onChannel (ch : VideoChannel) : AsmEvent → Bool
  | .queued p => p.codec == codecH264 && p.channel == ch.byte
  | .dropped ch' _ _ _ => ch' == ch

theorem Released.filter_onChannel (h : Released strict poisoned o evs poisoned')
    (ch : VideoChannel) :
    evs.filter (AsmEvent.onChannel ch) = if o.onChannel ch then evs else [] := by
  have hdropped : ∀ ch' frameNum reason b,
      [AsmEvent.dropped ch' frameNum reason b].filter (AsmEvent.onChannel ch) =
        if (some ch' == some ch) then [.dropped ch' frameNum reason b] else [] := by
    intro ch' frameNum reason b
    cases ch <;> cases ch' <;> rfl
  have hhanded : ∀ {ch' frameNum au evs'}, Handed strict poisoned ch' frameNum au evs'
      poisoned' → evs'.filter (AsmEvent.onChannel ch) =
        if (some ch' == some ch) then evs' else [] := by
    intro ch' frameNum au evs' h'
    cases h' with
    | short hshort => exact (ite_self _).symm
    | held hlen hstrict hpoisoned hkey => exact hdropped _ _ _ _
    | queued p hlen hclean hcodec hpayload hnum hch hkey =>
      rw [filter_singleton, AsmEvent.onChannel, hcodec, hch]
      cases ch <;> cases ch' <;> rfl
  cases h with
  | audio e p hcodec =>
    rw [filter_singleton, AsmEvent.onChannel, hcodec]
    rfl
  | abandoned | noData | gapped | gappedInter | held | lossy => exact hdropped _ _ _ _
  | ended _ _ _ _ _ _ _ _ h' | flushed _ _ _ _ _ h' => exact hhanded h'

/-- **The log of one channel** is what the outcomes of that channel are released into. -/
theorem Assembler.settleAll_released_onChannel (s : Assembler) (os : List Outcome)
    (ch : VideoChannel) :
    ∃ evss : List (List AsmEvent),
      (s.settleAll os).log.filter (AsmEvent.onChannel ch) =
        s.log.filter (AsmEvent.onChannel ch) ++ evss.flatten ∧
      List.Forall₂ (fun o evs => ∃ poisoned poisoned',
        Released s.strict poisoned o evs poisoned') (os.filter (Outcome.onChannel ch)) evss := by
  obtain ⟨evss, hlog, hall⟩ := s.settleAll_released os
  have hfilter : ∃ evss' : List (List AsmEvent),
      evss.flatten.filter (AsmEvent.onChannel ch) = evss'.flatten ∧
      List.Forall₂ (fun o evs => ∃ poisoned poisoned',
        Released s.strict poisoned o evs poisoned') (os.filter (Outcome.onChannel ch)) evss' := by
    clear hlog
    induction hall with
    | nil => exact ⟨[], rfl, .nil⟩
    | @cons o evs os evss hreleased hall ih =>
      obtain ⟨evss', hflatten, hall'⟩ := ih
      obtain ⟨poisoned, poisoned', hrel⟩ := hreleased
      rw [flatten_cons, filter_append, hrel.filter_onChannel, hflatten]
      cases hon : o.onChannel ch with
      | true =>
        rw [filter_cons_of_pos hon]
        exact ⟨evs :: evss', rfl, .cons ⟨_, _, hrel⟩ hall'⟩
      | false =>
        rw [filter_cons_of_neg (by simp [hon])]
        exact ⟨evss', rfl, hall'⟩
  obtain ⟨evss', hflatten, hall'⟩ := hfilter
  refine ⟨evss', ?_, hall'⟩
  rw [hlog, filter_append, hflatten]

end PetlibroLocal
