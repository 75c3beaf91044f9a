import PetlibroLocal.Camera.Reliable
import PetlibroLocal.Camera.WrapSeq
import PetlibroLocal.Camera.Assembler
import Mathlib.Data.List.AList
import Mathlib.Data.List.Sort

/-!
# From Datagrams to Fragments in Order

`parseDatagram` (`assembler.go`) takes one decrypted datagram apart: it answers timing
probes, records reliable control messages, and unwraps, acknowledges and buffers media
fragments. `drainContiguous` hands the buffered fragments to `emit` in sequence order
while there is no hole; `forceDrain`, called on a timer, gives up on holes that the high
mark has left behind, or on all of them when the stream stalls.

The buffer `avBuffer` is an association list. The list `emitted` records the calls of
`emit`; the source keeps no such record.
-/

namespace PetlibroLocal

/-- `flagsRecv` (`templates.go`). -/
def flagsRecv : UInt8 := 0x0A

/-- `msgSessionD2C` (`templates.go`). -/
def msgSessionD2C : UInt16 := 0x0408

/-- `forceDrainStallTicks`. -/
def forceDrainStallTicks : UInt8 := 5

/-! ### Classification -/

/-- What a datagram turns out to be. -/
inductive Datagram
  | ignored
  | probe (response : Bytes)
  | reliable (seq : UInt16)
  | media (m : DecodedMedia)
  deriving DecidableEq, Repr

/-- The media part of `parseDatagram`: a valid packet of the original layout wins over a
failed extended candidate. -/
def classifyMedia (inner : Bytes) : Datagram :=
  if isExtendedMediaFamily (byteAt inner 1) then
    match decodeExtendedMedia inner with
    | .ok m => .media m
    | .error _ =>
      match decodeNormalMedia inner with
      | some m => .media m
      | none => .ignored
  else
    match decodeNormalMedia inner with
    | some m => .media m
    | none => .ignored

/-- The inner body of a datagram. -/
def classifyInner (inner : Bytes) : Datagram :=
  if byteAt inner 0 = 0x0a then
    match timingProbeResponse inner with
    | some response => .probe response
    | none => .ignored
  else if byteAt inner 0 = 0x0c then
    match reliableControlSequence inner with
    | some seq => .reliable seq
    | none => if inner.length < 36 then .ignored else classifyMedia inner
  else .ignored

/-- The outer checks of `parseDatagram`. -/
def classifyDatagram (pkt : Bytes) : Datagram :=
  let outerPayloadLen := (uint16At pkt 4).toNat
  if pkt.length < 0x1C + 1 ∨ byteAt pkt 3 ≠ flagsRecv then .ignored
  else if uint16At pkt 8 ≠ msgSessionD2C then .ignored
  else if outerPayloadLen ≤ 0x0c ∨ pkt.length - 0x1c < outerPayloadLen - 0x0c then .ignored
  else classifyInner (slice pkt 0x1c (0x1c + outerPayloadLen - 0x0c))

/-! ### The client -/

/-- The fields of the client that the processor works on. -/
structure Client where
  ack : AckTracking
  seq : SeqTracker
  avBuffer : AList fun _ : ℕ => PendingFrag
  avNextExt : ℕ
  stallTicks : UInt8
  lastHighExt : ℕ
  asm : Assembler
  sent : List Bytes
  emitted : List PendingFrag

/-- A new client, before bootstrap. -/
def Client.new (strict : Bool) : Client where
  ack := .zero
  seq := ⟨⟨0⟩, 0⟩
  avBuffer := ∅
  avNextExt := 0
  stallTicks := 0
  lastHighExt := 0
  asm := .new strict
  sent := []
  emitted := []

/-- Take one fragment out of the buffer, move the cursor behind it and hand it to
`emit`. -/
def Client.release (c : Client) (k : ℕ) (e : PendingFrag) : Client :=
  { c with
    avBuffer := c.avBuffer.erase k
    avNextExt := k + 1
    asm := c.asm.emit e
    emitted := c.emitted ++ [e] }

/-- The loop of `drainContiguous`. Every iteration removes an entry, so as many
iterations as there are entries are enough (`drainContiguous_stops`). -/
def Client.drainLoop : ℕ → Client → Client
  | 0, c => c
  | fuel + 1, c =>
    match c.avBuffer.lookup c.avNextExt with
    | none => c
    | some e => (c.release c.avNextExt e).drainLoop fuel

/-- `drainContiguous`. -/
def Client.drainContiguous (c : Client) : Client := c.drainLoop c.avBuffer.keys.length

/-- The fragment that is buffered for a media packet. -/
def DecodedMedia.fragment (m : DecodedMedia) (subExt : ℕ) : PendingFrag where
  channel := m.channel
  isAudio := m.isAudio
  subExt := subExt
  frameNum := m.frameNum
  fragIdx := m.fragIdx
  totalFrags := m.totalFrags
  payload := m.payload

/-- The rest of `parseDatagram` for an accepted fragment. Receipt is recorded for the ACK
before the late ones are dropped. -/
def Client.bufferFragment (c : Client) (e : PendingFrag) (seq : SeqTracker) : Client :=
  let c' := { c with seq := seq, ack := c.ack.markACKReceived e.subExt }
  if e.subExt < c.avNextExt then c'
  else { c' with avBuffer := c.avBuffer.insert e.subExt e }.drainContiguous

/-- `parseDatagram`. -/
def Client.parseDatagram (c : Client) (pkt : Bytes) : Client :=
  match classifyDatagram pkt with
  | .ignored => c
  | .probe response => { c with sent := c.sent ++ [response] }
  | .reliable seq => { c with ack := c.ack.acceptReliableControl seq }
  | .media m =>
    match c.seq.observe m.subWire with
    | none => c
    | some (subExt, seq) => c.bufferFragment (m.fragment subExt) seq

/-- Release the entry of a key that was collected from the buffer. -/
def Client.releaseKey (c : Client) (k : ℕ) : Client :=
  match c.avBuffer.lookup k with
  | some e => c.release k e
  | none => c

/-- The stall detection of `forceDrain`. -/
def Client.countStall (c : Client) : Client :=
  if c.seq.avHighExt = c.lastHighExt then { c with stallTicks := c.stallTicks + 1 }
  else { c with stallTicks := 0, lastHighExt := c.seq.avHighExt }

/-- The keys that `forceDrain` flushes, in order. -/
def Client.flushKeys (c : Client) (stalled : Bool) : List ℕ :=
  (c.avBuffer.keys.filter fun k =>
    stalled || decide (k ≤ c.seq.avHighExt - 8)).insertionSort (· ≤ ·)

/-- `forceDrain`. -/
def Client.forceDrain (c₀ : Client) : Client :=
  if c₀.avBuffer.keys = [] then
    { c₀ with stallTicks := 0, lastHighExt := c₀.seq.avHighExt }
  else
    let c := c₀.countStall
    let stalled := decide (forceDrainStallTicks ≤ c.stallTicks)
    if !stalled && decide (c.seq.avHighExt < 8) then c
    else if c.flushKeys stalled = [] then c
    else
      let c' := (c.flushKeys stalled).foldl Client.releaseKey c
      if stalled then { c' with stallTicks := 0 } else c'

/-- The state at the end of `bootstrap`; it fails when the camera acknowledged no AV
channel. -/
def Client.bootstrap (c : Client) (bootstrapAVMax : UInt16) : Option Client :=
  match SeqTracker.bootstrap bootstrapAVMax with
  | none => none
  | some seq => some { c with
      seq := seq
      avNextExt := seq.wrap.ext
      avBuffer := ∅
      ack := c.ack.initACKTracking bootstrapAVMax.toNat
      emitted := [] }

/-- What the processor goroutine reacts to. -/
inductive ClientInput
  | datagram (pkt : Bytes)
  | tick

/-- One reaction. -/
def Client.step (c : Client) : ClientInput → Client
  | .datagram pkt => c.parseDatagram pkt
  | .tick => c.forceDrain

/-- A run of reactions. -/
def Client.run (c : Client) (inputs : List ClientInput) : Client := inputs.foldl Client.step c

end PetlibroLocal
