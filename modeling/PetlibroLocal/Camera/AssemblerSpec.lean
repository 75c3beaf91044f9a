import PetlibroLocal.Camera.Assembler

/-!
# What the Assembler's Operations Do

One lemma for each operation of the assembler, so that the results about whole runs never
unfold it: the channel states after an update, the ways `emitAU` can end, and the ways
the pending IDR can be flushed.
-/

namespace PetlibroLocal

/-! ### Channel markers -/

@[simp] theorem VideoChannel.ofByte_byte (ch : VideoChannel) :
    VideoChannel.ofByte ch.byte = some ch := by
  cases ch <;> rfl

variable {ch : VideoChannel} {s s' : Assembler}

theorem VideoChannel.byte_of_ofByte {b : UInt8} (h : VideoChannel.ofByte b = some ch) :
    b = ch.byte := by
  rw [VideoChannel.ofByte] at h
  split_ifs at h with hkey hinter
  · cases h
    exact hkey
  · cases h
    exact hinter

theorem VideoChannel.byte_inj {ch' : VideoChannel} : ch.byte = ch'.byte ↔ ch = ch' := by
  cases ch <;> cases ch' <;> decide

theorem VideoChannel.ne_iff {ch' : VideoChannel} :
    ch ≠ ch' ↔ (ch = .key ∧ ch' = .inter) ∨ (ch = .inter ∧ ch' = .key) := by
  cases ch <;> cases ch' <;> decide

/-! ### Updates of one channel -/

namespace Assembler

variable (s : Assembler) (ch ch' : VideoChannel) (a : ChannelAsm)

@[simp] theorem asm_setAsm_same : (s.setAsm ch a).asm ch = a := by
  cases ch <;> rfl

theorem asm_setAsm_of_ne {ch ch' : VideoChannel} (h : ch' ≠ ch) :
    (s.setAsm ch a).asm ch' = s.asm ch' := by
  rcases VideoChannel.ne_iff.mp h with ⟨rfl, rfl⟩ | ⟨rfl, rfl⟩ <;> rfl

@[simp] theorem gopPoisoned_setAsm : (s.setAsm ch a).gopPoisoned = s.gopPoisoned := by
  cases ch <;> rfl

@[simp] theorem log_setAsm : (s.setAsm ch a).log = s.log := by
  cases ch <;> rfl

@[simp] theorem asm_poison : s.poison.asm ch = s.asm ch := by
  cases ch <;> rfl

@[simp] theorem asm_setPendingTs (ts : UInt32) : (s.setPendingTs ts).asm ch = s.asm ch := by
  cases ch <;> rfl

@[simp] theorem asm_discard (frameNum : UInt32) (reason : DropReason) :
    (s.discard ch' frameNum reason).asm ch = s.asm ch := by
  cases ch <;> rfl

end Assembler

/-! ### The queued packets -/

/-- A queued video packet. -/
def AsmEvent.video? : AsmEvent → Option Packet
  | .queued p => if p.codec = codecH264 then some p else none
  | .dropped _ _ _ _ => none

/-- The queued H.264 packets, oldest first. -/
def Assembler.videoPackets (s : Assembler) : List Packet := s.log.filterMap AsmEvent.video?

theorem Assembler.videoPackets_of_dropped {frameNum : UInt32} {r : DropReason} {b : Bool}
    (h : s'.log = s.log ++ [.dropped ch frameNum r b]) : s'.videoPackets = s.videoPackets := by
  rw [Assembler.videoPackets, h, List.filterMap_append]
  exact List.append_nil _

theorem Assembler.videoPackets_of_queued {p : Packet} (h : s'.log = s.log ++ [.queued p])
    (hcodec : p.codec = codecH264) : s'.videoPackets = s.videoPackets ++ [p] := by
  rw [Assembler.videoPackets, h, List.filterMap_append, Assembler.videoPackets]
  simp [AsmEvent.video?, hcodec]

/-! ### `emitAU` -/

theorem Assembler.noteSPS_eq (s : Assembler) (au : Bytes) :
    ∃ sps, s.noteSPS au = { s with lastSPS := sps } := by
  rw [Assembler.noteSPS]
  split
  · split_ifs
    · exact ⟨_, rfl⟩
    · exact ⟨s.lastSPS, rfl⟩
  · exact ⟨s.lastSPS, rfl⟩

/-- The assembler is as before on both channels and in its mode. -/
structure Assembler.SameAsm (s s' : Assembler) : Prop where
  asm : ∀ ch, s'.asm ch = s.asm ch
  strict : s'.strict = s.strict

/-- An access unit was queued: the packet carries it, and an IDR clears the poison. -/
structure Assembler.Queues (s s' : Assembler) (au : Bytes) (frameNum : UInt32)
    (ch : VideoChannel) (p : Packet) : Prop where
  log : s'.log = s.log ++ [.queued p]
  gopPoisoned : s'.gopPoisoned = (s.gopPoisoned && !annexbContainsNALType au naluTypeIFrame)
  codec : p.codec = codecH264
  payload : p.payload = au
  cameraFrameNo : p.cameraFrameNo = frameNum
  channel : p.channel = ch.byte
  isKeyframe : p.isKeyframe = annexbContainsNALType au naluTypeIFrame

theorem Assembler.Queues.videoPackets {au : Bytes} {frameNum : UInt32} {p : Packet}
    (h : s.Queues s' au frameNum ch p) : s'.videoPackets = s.videoPackets ++ [p] :=
  Assembler.videoPackets_of_queued h.log h.codec

/-- **How `emitAU` ends**: it leaves the channels alone, and the access unit is too
short, discarded because the group of pictures is poisoned, or queued. -/
theorem Assembler.emitAU_cases (s : Assembler) (au : Bytes) (frameNum : UInt32)
    (ch : VideoChannel) (onlineNum : UInt8) :
    let s' := s.emitAU au frameNum ch onlineNum
    s.SameAsm s' ∧
      ((au.length < 5 ∧ s'.log = s.log ∧ s'.gopPoisoned = s.gopPoisoned) ∨
        (5 ≤ au.length ∧ s.strict = true ∧ s.gopPoisoned = true ∧
          annexbContainsNALType au naluTypeIFrame = false ∧ s'.gopPoisoned = true ∧
          s'.log = s.log ++ [.dropped ch frameNum .strictGOPPoisonedDrop true]) ∨
        (5 ≤ au.length ∧ (s.strict = true → s.gopPoisoned = true →
            annexbContainsNALType au naluTypeIFrame = true) ∧
          ∃ p, s.Queues s' au frameNum ch p)) := by
  intro s'
  by_cases hshort : au.length < 5
  · have heq : s' = s := if_pos hshort
    rw [heq]
    exact ⟨⟨fun _ => rfl, rfl⟩, .inl ⟨hshort, rfl, rfl⟩⟩
  have hlen : 5 ≤ au.length := Nat.le_of_not_lt hshort
  obtain ⟨sps, hsps⟩ := s.noteSPS_eq au
  cases hdrop : !annexbContainsNALType au naluTypeIFrame && s.strict && s.gopPoisoned with
  | true =>
    have heq : s' = ({ s with lastSPS := sps } : Assembler).discard ch frameNum
        .strictGOPPoisonedDrop := by
      simp only [s', Assembler.emitAU, if_neg hshort, hsps, hdrop, if_true]
    simp only [Bool.and_eq_true, Bool.not_eq_true'] at hdrop
    obtain ⟨⟨hkey, hstrict⟩, hpoison⟩ := hdrop
    rw [heq]
    refine ⟨⟨fun c => by cases c <;> rfl, rfl⟩, .inr (.inl ?_)⟩
    refine ⟨hlen, hstrict, hpoison, hkey, hpoison, ?_⟩
    simp only [Assembler.discard, hpoison]
  | false =>
    simp only [s', Assembler.emitAU, if_neg hshort, hsps, hdrop, Bool.false_eq_true, if_false]
    refine ⟨⟨fun c => by cases c <;> rfl, rfl⟩, .inr (.inr ?_)⟩
    refine ⟨hlen, fun hstrict hpoison => ?_, _, ⟨rfl, rfl, rfl, rfl, rfl, rfl, rfl⟩⟩
    simpa [hstrict, hpoison] using hdrop

/-! ### `flushPendingIDR` -/

/-- **How the pending IDR leaves**: with bytes in the buffer it is discarded in strict
mode when a loss was detected, and handed to `emitAU` otherwise. -/
theorem Assembler.flushPendingIDR_cases (s : Assembler) (ts : UInt32) :
    let s₀ := s.setAsm .key s.keyAsm.reset
    (s.keyAsm.buf = [] ∧ s.flushPendingIDR ts = s₀) ∨
    (s.keyAsm.buf ≠ [] ∧ s.strict = true ∧
      (s.keyAsm.curAUGapped || s.keyAsm.tailMissing) = true ∧
      s.flushPendingIDR ts = s₀.poison.discard .key s.keyAsm.curFrameNum .gappedIDRDrop) ∨
    (s.keyAsm.buf ≠ [] ∧
      (s.strict && (s.keyAsm.curAUGapped || s.keyAsm.tailMissing)) = false ∧
      ∃ s₁ : Assembler, s₀.SameAsm s₁ ∧ s₁.log = s.log ∧ s₁.gopPoisoned = s.gopPoisoned ∧
        s.flushPendingIDR ts = s₁.emitAU s.keyAsm.buf s.keyAsm.curFrameNum .key 0) := by
  intro s₀
  rw [Assembler.flushPendingIDR]
  simp only
  by_cases hbuf : s.keyAsm.buf = []
  · rw [if_pos (List.isEmpty_iff.mpr hbuf)]
    exact .inl ⟨hbuf, rfl⟩
  rw [if_neg (by rwa [List.isEmpty_iff])]
  cases hloss : s.strict && (s.keyAsm.curAUGapped || s.keyAsm.tailMissing) with
  | true =>
    obtain ⟨hstrict, hgap⟩ := Bool.and_eq_true_iff.mp hloss
    exact .inr (.inl ⟨hbuf, hstrict, hgap, rfl⟩)
  | false =>
    refine .inr (.inr ⟨hbuf, rfl, _, ?_, ?_, ?_, rfl⟩)
    · split_ifs
      · exact ⟨fun c => s₀.asm_setPendingTs c _, rfl⟩
      · exact ⟨fun _ => rfl, rfl⟩
    · split_ifs <;> rfl
    · split_ifs <;> rfl

/-- Whatever becomes of the IDR, its assembly is reset and the inter channel is left
alone. -/
theorem Assembler.flushPendingIDR_asm (s : Assembler) (ts : UInt32) :
    (s.setAsm .key s.keyAsm.reset).SameAsm (s.flushPendingIDR ts) := by
  obtain ⟨-, heq⟩ | ⟨-, -, -, heq⟩ | ⟨-, -, s₁, hsame, -, -, heq⟩ :=
    s.flushPendingIDR_cases ts
  · rw [heq]
    exact ⟨fun _ => rfl, rfl⟩
  · rw [heq]
    exact ⟨fun ch => by rw [Assembler.asm_discard, Assembler.asm_poison], rfl⟩
  · rw [heq]
    have hemit := (s₁.emitAU_cases s.keyAsm.buf s.keyAsm.curFrameNum .key 0).1
    exact ⟨fun ch => by rw [hemit.asm, hsame.asm], by rw [hemit.strict, hsame.strict]⟩

/-! ### One video fragment -/

/-- A fragment of another frame finds bytes of the pending frame in the buffer. -/
def ChannelAsm.Jumps (a : ChannelAsm) (e : PendingFrag) : Prop :=
  a.framePending = true ∧ e.frameNum ≠ a.curFrameNum ∧ a.buf ≠ []

/-- **How a frame-number jump ends**: a pending IDR is flushed, a pending inter frame is
discarded. -/
theorem Assembler.frameNumJump_cases (s : Assembler) (ch : VideoChannel) (e : PendingFrag) :
    (¬ (s.asm ch).Jumps e ∧ s.frameNumJump ch e = s) ∨
    ((s.asm ch).Jumps e ∧ ch = .key ∧ s.frameNumJump ch e = s.flushPendingIDR 0) ∨
    ((s.asm ch).Jumps e ∧ ch = .inter ∧ s.frameNumJump ch e =
      ((if s.strict then s.poison else s).setAsm .inter s.interAsm.reset).discard .inter
        s.interAsm.curFrameNum .frameNumJumpInter) := by
  have hcond : ((s.asm ch).framePending && e.frameNum != (s.asm ch).curFrameNum &&
      !(s.asm ch).buf.isEmpty) = true ↔ (s.asm ch).Jumps e := by
    simp [ChannelAsm.Jumps, and_assoc]
  by_cases hjump : (s.asm ch).Jumps e
  · cases ch with
    | key => exact .inr (.inl ⟨hjump, rfl, if_pos (hcond.mpr hjump)⟩)
    | inter => exact .inr (.inr ⟨hjump, rfl, if_pos (hcond.mpr hjump)⟩)
  · refine .inl ⟨hjump, ?_⟩
    cases ch with
    | key | inter => exact if_neg fun h => hjump (hcond.mp h)

/-- Beginning a frame: afterwards the fragment's frame is pending, over the same
buffer. -/
theorem ChannelAsm.begin_spec (a : ChannelAsm) (e : PendingFrag) :
    (a.begin e).framePending = true ∧ (a.begin e).curFrameNum = e.frameNum ∧
      (a.begin e).buf = a.buf := by
  rw [ChannelAsm.begin]
  by_cases hnew : (!a.framePending || e.frameNum != a.curFrameNum) = true
  · simp only [if_pos hnew]
    split_ifs
    · exact ⟨rfl, rfl, rfl⟩
    · exact ⟨rfl, rfl, rfl⟩
  · simp only [if_neg hnew]
    simp only [Bool.or_eq_true, Bool.not_eq_true', bne_iff_ne, ne_eq, not_or,
      Bool.not_eq_false, not_not] at hnew
    split_ifs
    · exact ⟨hnew.1, hnew.2.symm, rfl⟩
    · exact ⟨hnew.1, hnew.2.symm, rfl⟩

/-- The end of a frame on its channel: the frame is discarded, or handed to `emitAU`
with the stripped end fragment behind its buffer; its assembly is reset either way. -/
theorem Assembler.endFrame_cases (s : Assembler) (ch : VideoChannel) (frameNum : UInt32)
    (f : StrippedFragment) :
    let s₀ := s.setAsm ch (s.asm ch).reset
    let s' := s.endFrame ch frameNum f
    (s₀.SameAsm s' ∧ ∃ reason poisoned, s'.log = s.log ++ [.dropped ch frameNum reason poisoned]) ∨
      ∃ s₁ : Assembler, s₀.SameAsm s₁ ∧ s₁.log = s.log ∧ s₁.gopPoisoned = s.gopPoisoned ∧
        s' = s₁.emitAU ((s.asm ch).buf ++ f.stripped) frameNum ch f.onlineNum := by
  intro s₀ s'
  have hdiscard : ∀ s₁ : Assembler, s₀.SameAsm s₁ → s₁.log = s.log → ∀ reason,
      s' = s₁.discard ch frameNum reason →
      s₀.SameAsm s' ∧ ∃ reason poisoned,
        s'.log = s.log ++ [.dropped ch frameNum reason poisoned] := by
    intro s₁ hsame hlog reason heq
    rw [heq]
    refine ⟨⟨fun c => by rw [Assembler.asm_discard, hsame.asm], hsame.strict⟩,
      reason, s₁.gopPoisoned, ?_⟩
    rw [Assembler.discard, hlog]
  have hpoison : s₀.SameAsm s₀.poison := ⟨fun c => s₀.asm_poison c, rfl⟩
  have hpending : s₀.SameAsm (s₀.setPendingTs f.ts) := ⟨fun c => s₀.asm_setPendingTs c _, rfl⟩
  have hlog : s₀.log = s.log := s.log_setAsm ch _
  simp only [s', Assembler.endFrame] at hdiscard ⊢
  split_ifs at hdiscard ⊢
  · exact .inl (hdiscard _ hpoison hlog _ rfl)
  · exact .inl (hdiscard _ ⟨fun _ => rfl, rfl⟩ hlog _ rfl)
  · exact .inl (hdiscard _ hpoison hlog _ rfl)
  · exact .inl (hdiscard _ ⟨fun _ => rfl, rfl⟩ hlog _ rfl)
  · exact .inl (hdiscard _ hpending hlog _ rfl)
  · exact .inr ⟨_, hpending, hlog, s.gopPoisoned_setAsm ch _, rfl⟩

end PetlibroLocal
