import PetlibroLocal.Lib.Bytes

/-!
# Media Packets

The inner body of a session datagram carries one fragment of a video frame or one audio
frame. Two layouts are in use: the original one (`decodeNormalMedia`) and an extended one
that is eight bytes longer (`decodeExtendedMedia`). The last fragment of a video frame
ends in a 16-byte metadata trailer (`stripFragmentMetadataTrailer`). All functions here
are from `assembler.go`; a returned `ok = false` is `none`, and the reasons that
`decodeExtendedMedia` gives for a rejection are the constructors of `MediaReject`.

Fields that only the packet trace reads (`extraLen`, `extended`) are left out.
-/

namespace PetlibroLocal

/-- Key/IDR-family fragments (`templates.go`). -/
def innerChKey : UInt8 := 0x05

/-- Inter-frame fragments. -/
def innerChInter : UInt8 := 0x07

/-- Audio frames. -/
def innerChAudio : UInt8 := 0x03

/-- The codec identifier of H.264 video (`client.go`). -/
def codecH264 : UInt8 := 0x4E

/-- The codec identifier of ADTS audio. -/
def codecAACADTS : UInt8 := 0x87

/-- One fragment on its way to the assembler. -/
structure PendingFrag where
  channel : UInt8
  isAudio : Bool
  subExt : ℕ
  frameNum : UInt32
  fragIdx : UInt16
  totalFrags : UInt16
  payload : Bytes
  deriving DecidableEq, Repr

/-! ### The metadata trailer -/

/-- What `stripFragmentMetadataTrailer` returns. -/
structure StrippedFragment where
  stripped : Bytes
  ts : UInt32
  onlineNum : UInt8
  hasTs : Bool
  deriving DecidableEq, Repr

/-- The signature test on the last 16 bytes: `codec` is the codec identifier and `t` the
15 bytes after it. -/
def isTrailer (codec : UInt8) (t : Bytes) : Bool :=
  byteAt t 0 == 0x00 && (byteAt t 1 == 0x00 || byteAt t 1 == 0x01) && byteAt t 2 == 0x00 &&
    (byteAt t 4 == 0 && byteAt t 5 == 0 && byteAt t 6 == 0 && byteAt t 7 == 0 &&
      byteAt t 8 == 0 && byteAt t 9 == 0 && byteAt t 10 == 0) &&
    codec == codecH264

/-- `stripFragmentMetadataTrailer`: remove the 16-byte metadata block, if there is one. -/
def stripFragmentMetadataTrailer (p : Bytes) : StrippedFragment :=
  if p.length < 16 then ⟨p, 0, 0, false⟩
  else if isTrailer (byteAt p (p.length - 16)) (p.drop (p.length - 15)) then
    ⟨p.take (p.length - 16), uint32At (p.drop (p.length - 15)) 11,
      byteAt (p.drop (p.length - 15)) 3, true⟩
  else ⟨p, 0, 0, false⟩

/-- The fragment ends in a metadata trailer. -/
def hasTrailer (p : Bytes) : Bool := (stripFragmentMetadataTrailer p).hasTs

theorem stripped_of_hasTrailer {p : Bytes} (h : hasTrailer p = true) :
    16 ≤ p.length ∧ (stripFragmentMetadataTrailer p).stripped = p.take (p.length - 16) := by
  rw [hasTrailer, stripFragmentMetadataTrailer] at h
  rw [stripFragmentMetadataTrailer]
  split_ifs at h ⊢ with hshort
  exact ⟨Nat.le_of_not_lt hshort, rfl⟩

/-! ### Decoding -/

/-- A decoded media packet. -/
structure DecodedMedia where
  b1 : UInt8
  channel : UInt8
  subFlag : UInt8
  subWire : UInt16
  totalFrags : UInt16
  fragIdx : UInt16
  payloadLen : UInt16
  frameNum : UInt32
  nextFrameLike : UInt32
  payload : Bytes
  isAudio : Bool
  isEnd : Bool
  deriving DecidableEq, Repr

/-- The reasons for rejecting an extended packet. -/
inductive MediaReject
  | notExtendedFamily
  | shortHeader
  | invalidChannel
  | zeroTotalFrags
  | zeroPayload
  | payloadOverflow
  | nextFrameIncoherent
  | dataSubFlag
  | dataFragOutOfRange
  | dataHasFrameinfo
  | endSubFlag
  | endFragNot16
  | endMissingFrameinfo
  deriving DecidableEq, Repr

/-- `isExtendedMediaFamily`. -/
def isExtendedMediaFamily (b1 : UInt8) : Bool :=
  b1 == 0x08 || b1 == 0x09 || b1 == 0x0c || b1 == 0x0d

/-- The header of the extended layout. -/
def extendedHeader (inner : Bytes) : DecodedMedia where
  b1 := byteAt inner 1
  channel := byteAt inner 24
  subFlag := byteAt inner 25
  subWire := uint16At inner 26
  totalFrags := uint16At inner 28
  fragIdx := uint16At inner 30
  payloadLen := uint16At inner 32
  frameNum := uint32At inner 36
  nextFrameLike := uint32At inner 40
  payload := slice inner 44 (44 + (uint16At inner 32).toNat)
  isAudio := false
  isEnd := byteAt inner 1 == 0x09 || byteAt inner 1 == 0x0d

/-- `decodeExtendedMedia`. -/
def decodeExtendedMedia (inner : Bytes) : Except MediaReject DecodedMedia :=
  let m := extendedHeader inner
  if !isExtendedMediaFamily m.b1 then .error .notExtendedFamily
  else if inner.length < 44 then .error .shortHeader
  else if m.channel ≠ innerChKey ∧ m.channel ≠ innerChInter then .error .invalidChannel
  else if m.totalFrags = 0 then .error .zeroTotalFrags
  else if m.payloadLen = 0 then .error .zeroPayload
  else if inner.length < 44 + m.payloadLen.toNat then .error .payloadOverflow
  else if m.nextFrameLike ≠ m.frameNum + 1 then .error .nextFrameIncoherent
  else if !m.isEnd then
    if m.subFlag ≠ 0 then .error .dataSubFlag
    else if m.totalFrags ≤ m.fragIdx then .error .dataFragOutOfRange
    else if hasTrailer m.payload then .error .dataHasFrameinfo
    else .ok m
  else
    if m.subFlag ≠ 1 then .error .endSubFlag
    -- end fragments carry the fixed marker value 16, whatever their total is
    else if m.fragIdx ≠ 16 then .error .endFragNot16
    else if !hasTrailer m.payload then .error .endMissingFrameinfo
    else .ok m

/-- The payload of the original layout from offset `start`: `payloadLen` bytes if the
packet has them, else the rest of the packet. -/
def payloadFrom (inner : Bytes) (payloadLen : UInt16) (start : ℕ) : Bytes :=
  if payloadLen ≠ 0 ∧ start + payloadLen.toNat ≤ inner.length then
    slice inner start (start + payloadLen.toNat)
  else inner.drop start

/-- The header of the original layout, before the payload is taken. -/
def normalHeader (inner : Bytes) : DecodedMedia where
  b1 := byteAt inner 1
  channel := byteAt inner 16
  subFlag := byteAt inner 17
  subWire := uint16At inner 18
  totalFrags := (byteAt inner 20).toUInt16
  fragIdx := uint16At inner 22
  payloadLen := uint16At inner 24
  frameNum := uint32At inner 28
  nextFrameLike := 0
  payload := []
  isAudio := false
  isEnd := false

/-- `decodeNormalMedia`. -/
def decodeNormalMedia (inner : Bytes) : Option DecodedMedia :=
  let m := normalHeader inner
  let isVideo := m.channel == innerChKey || m.channel == innerChInter
  if inner.length < 36 then none
  else if isVideo && (m.b1 == 0x00 || m.b1 == 0x04 || m.b1 == 0x05) then
    if m.payloadLen = 0 ∨ inner.length < 36 + m.payloadLen.toNat then none
    else some { m with payload := payloadFrom inner m.payloadLen 36 }
  else if isVideo && m.b1 == 0x01 && m.subFlag == 0x01 then
    some { m with payload := payloadFrom inner m.payloadLen 36, isEnd := true }
  else if m.channel == innerChAudio && m.subFlag == 0x01 && 38 ≤ inner.length &&
      byteAt inner 36 == 0xFF && byteAt inner 37 == 0xF1 then
    let payload := payloadFrom inner m.payloadLen 36
    if payload.isEmpty then none else some { m with isAudio := true, payload := payload }
  else if m.channel == innerChInter && m.subFlag == 0x00 && m.b1 == 0x0d &&
      46 ≤ inner.length && byteAt inner 44 == 0xFF && byteAt inner 45 == 0xF1 then
    let full := payloadFrom inner m.payloadLen 36
    let payload := if 8 < full.length then full.drop 8 else []
    if payload.isEmpty then none else some { m with isAudio := true, payload := payload }
  else none

/-- `reliableControlSequence`: the sequence number of a reliable control packet, told
apart from media by the structure of the packet. -/
def reliableControlSequence (inner : Bytes) : Option UInt16 :=
  if inner.length < 20 ∨ byteAt inner 0 ≠ 0x0c ∨ byteAt inner 1 &&& 0x08 ≠ 0 then none
  else
    let channelFamily := uint16At inner 16
    if channelFamily = 0x0000 ∨ channelFamily = 0x2000 ∨ channelFamily = 0x2100 ∨
        channelFamily = 0x7100 ∨ channelFamily = 0x7200 then
      some (uint16At inner 18)
    else if channelFamily = 0x1000 ∨ channelFamily = 0x7000 then
      if inner.length < 36 ∨ byteAt inner 20 ≠ 1 then none
      else if inner.length - 36 < (uint32At inner 24).toNat then none
      else some (uint16At inner 18)
    else none

/-- `innerTimingFeedback` (`templates.go`). -/
def innerTimingFeedback (ordinal lastRecv : UInt16) (timingStamp metric : UInt32) : Bytes :=
  [0x0b, 0x00, 0x0c, 0x00] ++ putUint16 ordinal ++ putUint16 lastRecv ++
    putUint32 timingStamp ++ putUint32 metric ++ [0x00, 0x00, 0x00, 0x00]

/-- `timingProbeResponse`. -/
def timingProbeResponse (inner : Bytes) : Option Bytes :=
  if inner.length < 10 ∨ byteAt inner 0 ≠ 0x0a ∨ byteAt inner 1 &&& 0x08 = 0 then none
  else some (innerTimingFeedback 0 0 (uint16At inner 8).toUInt32 0)

end PetlibroLocal
