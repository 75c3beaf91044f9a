import PetlibroLocal.Camera.Media

/-!
# The Frame Assembler

`emit` (`assembler.go`) receives the fragments in order and puts video frames together,
one assembly state per channel. A frame leaves its assembly by its end fragment, by a
fragment of another frame on the same channel, or, on the key channel, by any fragment of
the inter channel (`flushPendingIDR`). `emitAU` stamps a finished access unit and queues
it for the consumer.

The consumer's queue is the list `log`; it records, next to the queued packets, every
frame that the source counts in `vidDropped` without queueing it, with the value of
`gopPoisoned` at that point. The consumer is assumed to keep up and the client to be open
(`queuePacket` appends). The diagnostics (`receivedData`, `logAVLoss`, the remaining
counters, the runtime status fed from the SPS) have no influence on the packets and are
left out. The audio timestamp is computed in exact arithmetic.
-/

namespace PetlibroLocal

/-! ### Annex-B NAL units -/

/-- The NAL unit type of an IDR slice (`h264.NALUTypeIFrame`). -/
def naluTypeIFrame : UInt8 := 5

/-- The NAL unit type of a sequence parameter set (`h264.NALUTypeSPS`). -/
def naluTypeSPS : UInt8 := 7

/-- The start-code test at the head of a suffix, as the end of a NAL unit is found. -/
def isStartCode : Bytes → Bool
  | b0 :: b1 :: b2 :: b3 :: _ => b0 == 0 && b1 == 0 && (b2 == 1 || (b2 == 0 && b3 == 1))
  | _ => false

/-- The bytes up to the next start code. -/
def nalBody : Bytes → Bytes
  | [] => []
  | b :: rest => if isStartCode (b :: rest) then [] else b :: nalBody rest

/-- `annexbNAL`: the first NAL unit of type `want`. The argument is the suffix from the
scan position on. -/
def annexbNAL (want : UInt8) : Bytes → Option Bytes
  | b0 :: b1 :: b2 :: b3 :: rest =>
    if b0 != 0 || b1 != 0 then annexbNAL want (b1 :: b2 :: b3 :: rest)
    else if b2 == 1 && b3 &&& 0x1F == want then some (b3 :: nalBody rest)
    else
      match rest with
      | b4 :: rest' =>
        if b2 == 0 && b3 == 1 && b4 &&& 0x1F == want then some (b4 :: nalBody rest')
        else annexbNAL want (b1 :: b2 :: b3 :: b4 :: rest')
      | [] => annexbNAL want [b1, b2, b3]
  | _ => none

/-- `annexbContainsNALType`. -/
def annexbContainsNALType (b : Bytes) (want : UInt8) : Bool := (annexbNAL want b).isSome

/-! ### State -/

/-- The two video channels. -/
inductive VideoChannel
  | key
  | inter
  deriving DecidableEq, Repr

/-- The channel marker on the wire. -/
def VideoChannel.byte : VideoChannel → UInt8
  | .key => innerChKey
  | .inter => innerChInter

/-- The video channel of a channel marker, if it is one. -/
def VideoChannel.ofByte (b : UInt8) : Option VideoChannel :=
  if b = innerChKey then some .key else if b = innerChInter then some .inter else none

/-- One packet for the consumer. -/
structure Packet where
  codec : UInt8
  payload : Bytes
  timestamp : UInt32
  frameNo : UInt32
  cameraFrameNo : UInt32
  channel : UInt8
  onlineNum : UInt8
  isKeyframe : Bool
  deriving DecidableEq, Repr

/-- Why a frame was discarded. -/
inductive DropReason
  | frameNumJumpInter
  | zeroDataHardDrop
  | gappedIDRDrop
  | strictGappedPDrop
  | gappedPDrop
  | strictGOPPoisonedDrop
  deriving DecidableEq, Repr

/-- What leaves the assembler: a queued packet, or a discarded frame with the value of
`gopPoisoned` right after the discard. -/
inductive AsmEvent
  | queued (p : Packet)
  | dropped (channel : VideoChannel) (frameNum : UInt32) (reason : DropReason)
      (gopPoisoned : Bool)
  deriving DecidableEq, Repr

/-- The assembly state of one video channel. -/
structure ChannelAsm where
  buf : Bytes
  curFrameNum : UInt32
  framePending : Bool
  curAUTotal : UInt16
  curAUDataCount : UInt16
  curAUGapped : Bool
  expectFragIdx : UInt16
  deriving DecidableEq, Repr

/-- The zero value. -/
def ChannelAsm.zero : ChannelAsm := ⟨[], 0, false, 0, 0, false, 0⟩

/-- `channelAsm.reset`: the frame number is kept. -/
def ChannelAsm.reset (a : ChannelAsm) : ChannelAsm :=
  { a with
    buf := []
    curAUTotal := 0
    curAUDataCount := 0
    curAUGapped := false
    expectFragIdx := 0
    framePending := false }

/-- The fields of the client that `emit` works on. -/
structure Assembler where
  strict : Bool
  keyAsm : ChannelAsm
  interAsm : ChannelAsm
  gopPoisoned : Bool
  pendingFrameTs : UInt32
  havePendingTs : Bool
  firstFrameTs : UInt32
  haveFirstTs : Bool
  lastEmitTs : UInt32
  emitSeq : UInt32
  emitAudioSeq : UInt32
  lastSPS : Bytes
  log : List AsmEvent
  deriving DecidableEq, Repr

/-- The assembler of a new client. -/
def Assembler.new (strict : Bool) : Assembler where
  strict := strict
  keyAsm := .zero
  interAsm := .zero
  gopPoisoned := false
  pendingFrameTs := 0
  havePendingTs := false
  firstFrameTs := 0
  haveFirstTs := false
  lastEmitTs := 0
  emitSeq := 0
  emitAudioSeq := 0
  lastSPS := []
  log := []

variable (s : Assembler)

/-- The assembly state of a channel. -/
def Assembler.asm : VideoChannel → ChannelAsm
  | .key => s.keyAsm
  | .inter => s.interAsm

/-- Replace the assembly state of a channel. -/
def Assembler.setAsm (ch : VideoChannel) (a : ChannelAsm) : Assembler :=
  match ch with
  | .key => { s with keyAsm := a }
  | .inter => { s with interAsm := a }

/-- Record a discarded frame. -/
def Assembler.discard (ch : VideoChannel) (frameNum : UInt32)
    (reason : DropReason) : Assembler :=
  { s with log := s.log ++ [.dropped ch frameNum reason s.gopPoisoned] }

/-- Poison the current group of pictures. -/
def Assembler.poison : Assembler := { s with gopPoisoned := true }

/-- Note the camera time of the frame about to be queued. -/
def Assembler.setPendingTs (ts : UInt32) : Assembler :=
  { s with pendingFrameTs := ts, havePendingTs := true }

/-! ### Queueing an access unit -/

/-- The SPS bookkeeping of `emitAU`. -/
def Assembler.noteSPS (au : Bytes) : Assembler :=
  match annexbNAL naluTypeSPS au with
  | some sps => if sps ≠ s.lastSPS then { s with lastSPS := sps } else s
  | none => s

/-- The presentation time of the next access unit: from the camera's millisecond clock
if a trailer was seen, else just after the last one; never a repeated one. -/
def Assembler.nextPTS : UInt32 :=
  let pts :=
    if s.havePendingTs then
      (s.pendingFrameTs -
        (if s.haveFirstTs then s.firstFrameTs else s.pendingFrameTs)) * 90
    else s.lastEmitTs + 1
  if pts ≤ s.lastEmitTs ∧ s.lastEmitTs ≠ 0 then s.lastEmitTs + 1 else pts

/-- The clock fields after an access unit was stamped. -/
def Assembler.stampPTS : Assembler :=
  { s with
    firstFrameTs :=
      if s.havePendingTs && !s.haveFirstTs then s.pendingFrameTs else s.firstFrameTs
    haveFirstTs := s.haveFirstTs || s.havePendingTs
    havePendingTs := false
    lastEmitTs := s.nextPTS }

/-- `emitAU`: finalise one access unit and queue it. -/
def Assembler.emitAU (s₀ : Assembler) (au : Bytes) (cameraFrameNum : UInt32)
    (channel : VideoChannel) (onlineNum : UInt8) : Assembler :=
  if au.length < 5 then s₀
  else
    let s := s₀.noteSPS au
    let isKey := annexbContainsNALType au naluTypeIFrame
    if !isKey && s.strict && s.gopPoisoned then
      s.discard channel cameraFrameNum .strictGOPPoisonedDrop
    else
      let s' := s.stampPTS
      { s' with
        gopPoisoned := s.gopPoisoned && !isKey
        emitSeq := s.emitSeq + 1
        log := s.log ++ [.queued
          { codec := codecH264
            payload := au
            timestamp := s.nextPTS
            frameNo := s.emitSeq
            cameraFrameNo := cameraFrameNum
            channel := channel.byte
            onlineNum := onlineNum
            isKeyframe := isKey }] }

/-- The loss test of `flushPendingIDR` for the tail of the frame. -/
def ChannelAsm.tailMissing (a : ChannelAsm) : Bool :=
  0 < a.curAUTotal && a.curAUDataCount + 1 < a.curAUTotal

/-- `flushPendingIDR`: let go of the pending IDR without its end fragment. -/
def Assembler.flushPendingIDR (nextPFrameTs : UInt32) : Assembler :=
  let a := s.keyAsm
  let s' := s.setAsm .key a.reset
  if a.buf.isEmpty then s'
  else if s.strict && (a.curAUGapped || a.tailMissing) then
    s'.poison.discard .key a.curFrameNum .gappedIDRDrop
  else
    -- a camera clock below 40 ms would wrap around
    let s'' := if 40 ≤ nextPFrameTs then s'.setPendingTs (nextPFrameTs - 40) else s'
    s''.emitAU a.buf a.curFrameNum .key 0

/-! ### One fragment -/

/-- A fragment of another frame arrives on the channel while a frame is pending there. -/
def Assembler.frameNumJump (ch : VideoChannel) (e : PendingFrag) :
    Assembler :=
  let a := s.asm ch
  if a.framePending && e.frameNum != a.curFrameNum && !a.buf.isEmpty then
    match ch with
    | .key => s.flushPendingIDR 0
    | .inter =>
      let s' := if s.strict then s.poison else s
      (s'.setAsm .inter a.reset).discard .inter a.curFrameNum .frameNumJumpInter
  else s

/-- Start a new frame unless the fragment belongs to the pending one. -/
def ChannelAsm.begin (a : ChannelAsm) (e : PendingFrag) : ChannelAsm :=
  let a' :=
    if !a.framePending || e.frameNum != a.curFrameNum then
      { a with
        curFrameNum := e.frameNum
        framePending := true
        expectFragIdx := 0
        curAUGapped := false
        curAUDataCount := 0
        curAUTotal := e.totalFrags }
    else a
  if a'.curAUTotal = 0 ∧ e.totalFrags ≠ 0 then { a' with curAUTotal := e.totalFrags } else a'

/-- A fragment of the inter channel flushes the pending IDR. -/
def Assembler.crossChannelFlush (ch : VideoChannel) (frameTs : UInt32) :
    Assembler :=
  if ch = .inter ∧ s.keyAsm.framePending = true ∧ s.keyAsm.buf ≠ [] then
    s.flushPendingIDR frameTs
  else s

/-- Add a data fragment. Index 16 is exempt from gap detection. -/
def ChannelAsm.addData (a : ChannelAsm) (e : PendingFrag) : ChannelAsm :=
  { a with
    curAUGapped := a.curAUGapped || (e.fragIdx != a.expectFragIdx && e.fragIdx != 16)
    expectFragIdx := e.fragIdx + 1
    curAUDataCount := a.curAUDataCount + 1
    buf := a.buf ++ e.payload }

/-- The number of data fragments the frame should have. -/
def ChannelAsm.expectedData (a : ChannelAsm) : UInt16 :=
  if 0 < a.curAUTotal then a.curAUTotal - 1 else 0

/-- The end fragment arrives: the frame leaves the assembly, and is discarded or
queued. -/
def Assembler.endFrame (s₀ : Assembler) (ch : VideoChannel) (frameNum : UInt32)
    (f : StrippedFragment) : Assembler :=
  let a := s₀.asm ch
  let s := s₀.setAsm ch a.reset
  let gapped := a.curAUGapped || a.curAUDataCount < a.expectedData
  if 1 ≤ a.expectedData ∧ a.curAUDataCount = 0 then
    -- an end fragment without any data is no picture
    (if s.strict && ch == .key then s.poison else s).discard ch frameNum .zeroDataHardDrop
  else if gapped && s.strict then
    s.poison.discard ch frameNum
      (match ch with | .key => .gappedIDRDrop | .inter => .strictGappedPDrop)
  else if gapped && ch == .inter then s.discard ch frameNum .gappedPDrop
  else if s.strict && s.gopPoisoned && ch == .inter then
    (s.setPendingTs f.ts).discard ch frameNum .strictGOPPoisonedDrop
  else (s.setPendingTs f.ts).emitAU (a.buf ++ f.stripped) frameNum ch f.onlineNum

/-- `emit` for a video fragment. -/
def Assembler.emitVideo (ch : VideoChannel) (e : PendingFrag) :
    Assembler :=
  let f := stripFragmentMetadataTrailer e.payload
  let s₁ := s.frameNumJump ch e
  let s₂ := s₁.setAsm ch ((s₁.asm ch).begin e)
  let s₃ := s₂.crossChannelFlush ch f.ts
  if !f.hasTs then s₃.setAsm ch ((s₃.asm ch).addData e)
  else s₃.endFrame ch e.frameNum f

/-- `emit` for an audio frame. -/
def Assembler.emitAudio (e : PendingFrag) : Assembler :=
  { s with
    emitAudioSeq := s.emitAudioSeq + 1
    log := s.log ++ [.queued
      { codec := codecAACADTS
        payload := e.payload
        timestamp := UInt32.ofNat (s.emitAudioSeq.toNat * 1024 * 90000 / 44100)
        frameNo := s.emitAudioSeq
        cameraFrameNo := 0
        channel := 0
        onlineNum := 0
        isKeyframe := false }] }

/-- `emit`: handle one in-order fragment. -/
def Assembler.emit (e : PendingFrag) : Assembler :=
  if e.isAudio then s.emitAudio e
  else
    match VideoChannel.ofByte e.channel with
    | some ch => s.emitVideo ch e
    | none => s

/-- Emit a sequence of fragments. -/
def Assembler.emitAll (es : List PendingFrag) : Assembler :=
  es.foldl Assembler.emit s

end PetlibroLocal
