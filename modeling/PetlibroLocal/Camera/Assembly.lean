import PetlibroLocal.Camera.AssemblerSpec

/-!
# Assembly and Release of Frames, Separated

`emit` interleaves two concerns. Which fragments are put together, and when a frame
leaves its channel, depends on the two channel states only, never on the mode or on the
state of the group of pictures; what then becomes of the frame depends on the mode and on
`gopPoisoned`, never on the channel states. This module takes the two apart: the assembly
turns fragments into outcomes (`Assembly.step`), and the release turns outcomes into
packets and discards (`Assembler.settle`).
-/

namespace PetlibroLocal

open Assembler

/-- How a frame leaves the assembly. -/
inductive Outcome
  /-- An audio frame, which is not assembled. -/
  | audio (e : PendingFrag)
  /-- An inter frame is left for another one before its end fragment. -/
  | abandoned (frameNum : UInt32)
  /-- An end fragment came without any of the data fragments of its frame. -/
  | noData (channel : VideoChannel) (frameNum : UInt32)
  /-- A frame left by its end fragment. -/
  | ended (channel : VideoChannel) (frameNum : UInt32) (au : Bytes) (gapped : Bool)
      (ts : UInt32) (onlineNum : UInt8)
  /-- An IDR left without its end fragment; `lossy` is the loss test of the source. -/
  | flushed (frameNum : UInt32) (au : Bytes) (lossy : Bool) (ts : UInt32)
  deriving DecidableEq, Repr

/-! ### Release -/

variable (s : Assembler)

/-- What becomes of an outcome, in the current mode and group of pictures. -/
def Assembler.settle : Outcome → Assembler
  | .audio e => s.emitAudio e
  | .abandoned frameNum =>
    (if s.strict then s.poison else s).discard .inter frameNum .frameNumJumpInter
  | .noData ch frameNum =>
    (if s.strict && ch == .key then s.poison else s).discard ch frameNum .zeroDataHardDrop
  | .ended ch frameNum au gapped ts onlineNum =>
    if gapped && s.strict then
      s.poison.discard ch frameNum
        (match ch with | .key => .gappedIDRDrop | .inter => .strictGappedPDrop)
    else if gapped && ch == .inter then s.discard ch frameNum .gappedPDrop
    else if s.strict && s.gopPoisoned && ch == .inter then
      (s.setPendingTs ts).discard ch frameNum .strictGOPPoisonedDrop
    else (s.setPendingTs ts).emitAU au frameNum ch onlineNum
  | .flushed frameNum au lossy ts =>
    if s.strict && lossy then s.poison.discard .key frameNum .gappedIDRDrop
    else (if 40 ≤ ts then s.setPendingTs (ts - 40) else s).emitAU au frameNum .key 0

/-- Release outcomes in order. -/
def Assembler.settleAll (os : List Outcome) : Assembler :=
  os.foldl Assembler.settle s

/-! ### Assembly -/

/-- The outcome of flushing a pending IDR. -/
def ChannelAsm.flushed (a : ChannelAsm) (ts : UInt32) : Outcome :=
  .flushed a.curFrameNum a.buf (a.curAUGapped || a.tailMissing) ts

/-- The outcome of an end fragment. -/
def ChannelAsm.ended (a : ChannelAsm) (ch : VideoChannel) (frameNum : UInt32)
    (f : StrippedFragment) : Outcome :=
  if 1 ≤ a.expectedData ∧ a.curAUDataCount = 0 then .noData ch frameNum
  else .ended ch frameNum (a.buf ++ f.stripped)
    (a.curAUGapped || a.curAUDataCount < a.expectedData) f.ts f.onlineNum

/-- A fragment of another frame makes the pending one leave. -/
def ChannelAsm.jump (a : ChannelAsm) (ch : VideoChannel) (e : PendingFrag) :
    ChannelAsm × List Outcome :=
  if a.framePending && e.frameNum != a.curFrameNum && !a.buf.isEmpty then
    (a.reset, [match ch with | .key => a.flushed 0 | .inter => .abandoned a.curFrameNum])
  else (a, [])

/-- A fragment of the inter channel makes a pending IDR leave. -/
def ChannelAsm.cut (a : ChannelAsm) (ts : UInt32) : ChannelAsm × List Outcome :=
  if a.framePending = true ∧ a.buf ≠ [] then (a.reset, [a.flushed ts]) else (a, [])

/-- Take a fragment in: begin its frame if needed, then add it. -/
def ChannelAsm.take (a : ChannelAsm) (ch : VideoChannel) (e : PendingFrag) :
    ChannelAsm × List Outcome :=
  let f := stripFragmentMetadataTrailer e.payload
  if !f.hasTs then ((a.begin e).addData e, [])
  else ((a.begin e).reset, [(a.begin e).ended ch e.frameNum f])

/-- The two channel states. -/
structure Assembly where
  key : ChannelAsm
  inter : ChannelAsm
  deriving DecidableEq, Repr

/-- The state of a channel. -/
def Assembly.asm (A : Assembly) : VideoChannel → ChannelAsm
  | .key => A.key
  | .inter => A.inter

/-- Replace the state of a channel. -/
def Assembly.setAsm (A : Assembly) (ch : VideoChannel) (a : ChannelAsm) : Assembly :=
  match ch with
  | .key => ⟨a, A.inter⟩
  | .inter => ⟨A.key, a⟩

/-- One fragment on its channel; a fragment of the inter channel also cuts the key
channel. -/
def Assembly.stepVideo (A : Assembly) (ch : VideoChannel) (e : PendingFrag) :
    Assembly × List Outcome :=
  match ch with
  | .key =>
    let j := A.key.jump .key e
    let t := j.1.take .key e
    (⟨t.1, A.inter⟩, j.2 ++ t.2)
  | .inter =>
    let j := A.inter.jump .inter e
    let k := A.key.cut (stripFragmentMetadataTrailer e.payload).ts
    let t := j.1.take .inter e
    (⟨k.1, t.1⟩, j.2 ++ (k.2 ++ t.2))

/-- One fragment. -/
def Assembly.step (A : Assembly) (e : PendingFrag) : Assembly × List Outcome :=
  if e.isAudio then (A, [.audio e])
  else
    match VideoChannel.ofByte e.channel with
    | some ch => A.stepVideo ch e
    | none => (A, [])

/-- The outcomes of a sequence of fragments, and the assembly behind them. -/
def Assembly.run : Assembly → List PendingFrag → Assembly × List Outcome
  | A, [] => (A, [])
  | A, e :: es => (((A.step e).1.run es).1, (A.step e).2 ++ ((A.step e).1.run es).2)

/-- The empty assembly. -/
def Assembly.zero : Assembly := ⟨.zero, .zero⟩

/-! ### `emit` is assembly followed by release -/

/-- Replace both channel states. -/
def Assembler.setAssembly (A : Assembly) : Assembler :=
  { s with keyAsm := A.key, interAsm := A.inter }

@[simp] theorem Assembler.strict_setAssembly (A : Assembly) :
    (s.setAssembly A).strict = s.strict := rfl

@[simp] theorem Assembler.log_setAssembly (A : Assembly) :
    (s.setAssembly A).log = s.log := rfl

@[simp] theorem Assembler.asm_setAssembly (A : Assembly)
    (ch : VideoChannel) : (s.setAssembly A).asm ch = A.asm ch := by
  cases ch <;> rfl

@[simp] theorem Assembler.setAsm_setAssembly (A : Assembly)
    (ch : VideoChannel) (a : ChannelAsm) :
    (s.setAssembly A).setAsm ch a = s.setAssembly (A.setAsm ch a) := by
  cases ch <;> rfl

@[simp] theorem Assembly.setAsm_asm (A : Assembly) (ch : VideoChannel) :
    A.setAsm ch (A.asm ch) = A := by
  cases ch <;> rfl

theorem Assembler.setAssembly_ite (c : Prop) [Decidable c] (s t : Assembler) (A : Assembly) :
    (if c then s else t).setAssembly A = if c then s.setAssembly A else t.setAssembly A :=
  apply_ite (Assembler.setAssembly · A) c s t

theorem Assembler.discard_setAssembly (A : Assembly) (ch : VideoChannel)
    (frameNum : UInt32) (reason : DropReason) :
    (s.setAssembly A).discard ch frameNum reason =
      (s.discard ch frameNum reason).setAssembly A := rfl

theorem Assembler.noteSPS_setAssembly (A : Assembly) (au : Bytes) :
    (s.setAssembly A).noteSPS au = (s.noteSPS au).setAssembly A := by
  rw [Assembler.noteSPS, Assembler.noteSPS]
  cases annexbNAL naluTypeSPS au with
  | none => rfl
  | some sps =>
    simp only [setAssembly_ite]
    rfl

theorem Assembler.emitAU_setAssembly (A : Assembly) (au : Bytes)
    (frameNum : UInt32) (ch : VideoChannel) (onlineNum : UInt8) :
    (s.setAssembly A).emitAU au frameNum ch onlineNum =
      (s.emitAU au frameNum ch onlineNum).setAssembly A := by
  rw [Assembler.emitAU, Assembler.emitAU, noteSPS_setAssembly]
  generalize s.noteSPS au = t
  simp only [setAssembly_ite]
  rfl

theorem Assembler.settle_setAssembly (A : Assembly) (o : Outcome) :
    (s.setAssembly A).settle o = (s.settle o).setAssembly A := by
  cases o with
  | audio e => rfl
  | abandoned | noData =>
    simp only [Assembler.settle, ← discard_setAssembly, setAssembly_ite]
    rfl
  | ended | flushed =>
    simp only [Assembler.settle, setAssembly_ite, ← emitAU_setAssembly]
    rfl

theorem Assembler.flushPendingIDR_setAssembly (A : Assembly) (ts : UInt32)
    (hbuf : A.key.buf ≠ []) :
    (s.setAssembly A).flushPendingIDR ts =
      (s.settle (A.key.flushed ts)).setAssembly (A.setAsm .key A.key.reset) := by
  have hempty : ¬ A.key.buf.isEmpty = true := by simpa using hbuf
  rw [← settle_setAssembly]
  exact if_neg hempty

theorem Assembler.frameNumJump_setAssembly (A : Assembly)
    (ch : VideoChannel) (e : PendingFrag) :
    (s.setAssembly A).frameNumJump ch e =
      (s.settleAll ((A.asm ch).jump ch e).2).setAssembly
        (A.setAsm ch ((A.asm ch).jump ch e).1) := by
  rw [Assembler.frameNumJump.eq_def, ChannelAsm.jump.eq_def, asm_setAssembly]
  by_cases hjump : ((A.asm ch).framePending && e.frameNum != (A.asm ch).curFrameNum &&
      !(A.asm ch).buf.isEmpty) = true
  · simp only [if_pos hjump]
    have hbuf : (A.asm ch).buf ≠ [] := by
      simp only [Bool.and_eq_true] at hjump
      simpa using hjump.2
    cases ch with
    | key => exact s.flushPendingIDR_setAssembly A 0 hbuf
    | inter =>
      refine Eq.trans ?_ (s.settle_setAssembly _ (.abandoned A.inter.curFrameNum))
      cases hstrict : s.strict <;>
        simp only [Assembler.settle, strict_setAssembly, hstrict, if_true,
          Bool.false_eq_true, if_false] <;> rfl
  · simp only [if_neg hjump, Assembly.setAsm_asm]
    rfl

theorem Assembler.crossChannelFlush_setAssembly (A : Assembly)
    (ts : UInt32) :
    (s.setAssembly A).crossChannelFlush .inter ts =
      (s.settleAll (A.key.cut ts).2).setAssembly (A.setAsm .key (A.key.cut ts).1) := by
  rw [Assembler.crossChannelFlush, ChannelAsm.cut]
  by_cases hcut : A.key.framePending = true ∧ A.key.buf ≠ []
  · simp only [if_pos hcut]
    exact (if_pos ⟨trivial, hcut⟩).trans (s.flushPendingIDR_setAssembly A ts hcut.2)
  · simp only [if_neg hcut]
    exact if_neg fun h => hcut h.2

theorem Assembler.endFrame_setAssembly (A : Assembly) (ch : VideoChannel)
    (frameNum : UInt32) (f : StrippedFragment) :
    (s.setAssembly A).endFrame ch frameNum f =
      (s.settle ((A.asm ch).ended ch frameNum f)).setAssembly
        (A.setAsm ch (A.asm ch).reset) := by
  rw [← settle_setAssembly, Assembler.endFrame.eq_def, ChannelAsm.ended, asm_setAssembly]
  by_cases hdata : 1 ≤ (A.asm ch).expectedData ∧ (A.asm ch).curAUDataCount = 0
  · simp only [if_pos hdata, setAsm_setAssembly]
    rfl
  · simp only [if_neg hdata, setAsm_setAssembly]
    rfl

theorem Assembler.take_setAssembly (A : Assembly) (ch : VideoChannel)
    (e : PendingFrag) :
    (let f := stripFragmentMetadataTrailer e.payload
     let s' := s.setAssembly (A.setAsm ch ((A.asm ch).begin e))
     if !f.hasTs then s'.setAsm ch ((s'.asm ch).addData e)
     else s'.endFrame ch e.frameNum f) =
      (s.settleAll ((A.asm ch).take ch e).2).setAssembly
        (A.setAsm ch ((A.asm ch).take ch e).1) := by
  have hasm : (A.setAsm ch ((A.asm ch).begin e)).asm ch = (A.asm ch).begin e := by
    cases ch <;> rfl
  have hset (a : ChannelAsm) :
      (A.setAsm ch ((A.asm ch).begin e)).setAsm ch a = A.setAsm ch a := by
    cases ch <;> rfl
  rw [ChannelAsm.take]
  by_cases hend : (!(stripFragmentMetadataTrailer e.payload).hasTs) = true
  · simp only [if_pos hend, asm_setAssembly, setAsm_setAssembly, hasm, hset]
    rfl
  · simp only [if_neg hend, endFrame_setAssembly, hasm, hset]
    rfl

theorem Assembler.settleAll_append (os os' : List Outcome) :
    s.settleAll (os ++ os') = (s.settleAll os).settleAll os' :=
  List.foldl_append

theorem Assembler.emitVideo_setAssembly (A : Assembly) (ch : VideoChannel)
    (e : PendingFrag) :
    (s.setAssembly A).emitVideo ch e =
      (s.settleAll (A.stepVideo ch e).2).setAssembly (A.stepVideo ch e).1 := by
  cases ch with
  | key =>
    simp only [Assembler.emitVideo, frameNumJump_setAssembly, asm_setAssembly, setAsm_setAssembly]
    rw [Assembly.stepVideo, settleAll_append]
    exact (s.settleAll (A.key.jump .key e).2).take_setAssembly
      ⟨(A.key.jump .key e).1, A.inter⟩ .key e
  | inter =>
    simp only [Assembler.emitVideo, frameNumJump_setAssembly, asm_setAssembly, setAsm_setAssembly,
      crossChannelFlush_setAssembly]
    rw [Assembly.stepVideo, settleAll_append, settleAll_append]
    exact ((s.settleAll (A.inter.jump .inter e).2).settleAll
      (A.key.cut (stripFragmentMetadataTrailer e.payload).ts).2).take_setAssembly
        ⟨(A.key.cut (stripFragmentMetadataTrailer e.payload).ts).1,
          (A.inter.jump .inter e).1⟩ .inter e

/-- **`emit` is one assembly step followed by the release of its outcomes.** -/
theorem Assembler.emit_eq_settle (A : Assembly) (e : PendingFrag) :
    (s.setAssembly A).emit e = (s.settleAll (A.step e).2).setAssembly (A.step e).1 := by
  rw [Assembler.emit, Assembly.step]
  by_cases haudio : e.isAudio = true
  · simp only [if_pos haudio]
    rfl
  simp only [if_neg haudio]
  cases VideoChannel.ofByte e.channel with
  | none => rfl
  | some ch => exact s.emitVideo_setAssembly A ch e

/-- **A run of `emit` is a run of the assembly followed by the release of all its
outcomes.** -/
theorem Assembler.emitAll_eq_settle (A : Assembly) (es : List PendingFrag) :
    (s.setAssembly A).emitAll es =
      (s.settleAll (A.run es).2).setAssembly (A.run es).1 := by
  induction es generalizing s A with
  | nil => rfl
  | cons e es ih =>
    rw [Assembly.run, settleAll_append, ← ih, ← emit_eq_settle]
    rfl

theorem Assembler.log_emitAll_new (strict : Bool) (es : List PendingFrag) :
    ((Assembler.new strict).emitAll es).log =
      ((Assembler.new strict).settleAll (Assembly.zero.run es).2).log := by
  have hrun := (Assembler.new strict).emitAll_eq_settle .zero es
  exact (congrArg Assembler.log hrun).trans (log_setAssembly _ _)

end PetlibroLocal
