import PetlibroLocal.Camera.AssemblerSpec
import PetlibroLocal.Lib.Grouping
import Mathlib.Data.List.Induction

/-!
# Where the Bytes of a Packet Come From

The assembler reuses one buffer per channel for frame after frame, and resets it on every
path a frame can leave by. This module accounts for the bytes: each fragment passed to
`emit` enters at most one group (`Grouping`), the open group of a channel is what its
buffer holds, and the closed groups are the queued video packets.

The main results are `Accounts.emit` and `no_frankenframes`.
-/

namespace PetlibroLocal

open List Assembler

/-- The payloads of a group of numbered fragments. -/
def payloads (part : List (PendingFrag × ℕ)) : Bytes := part.flatMap fun x => x.1.payload

theorem payloads_concat (part : List (PendingFrag × ℕ)) (x : PendingFrag × ℕ) :
    payloads (part ++ [x]) = payloads part ++ x.1.payload := by
  rw [payloads, flatMap_append, flatMap_singleton, payloads]

/-- **A packet is put together from `part`**: all its fragments are video fragments of
the packet's channel and frame number, and the payload is theirs in order, where only
the last one may be shortened by its 16-byte trailer. -/
structure BuiltFrom (part : List (PendingFrag × ℕ)) (p : Packet) : Prop where
  oneFrame : ∀ x ∈ part, x.1.isAudio = false ∧ x.1.channel = p.channel ∧
    x.1.frameNum = p.cameraFrameNo
  payload : p.payload = payloads part ∨
    ∃ init last, part = init ++ [last] ∧ hasTrailer last.1.payload = true ∧
      p.payload = payloads init ++ last.1.payload.take (last.1.payload.length - 16)

/-- **The buffers hold the open groups**, and the queued packets are the closed ones. -/
structure AsmView (s : Assembler) (g : Grouping PendingFrag VideoChannel) : Prop where
  buf : ∀ ch, (s.asm ch).buf = payloads (g.pending ch)
  owner : ∀ ch, ∀ x ∈ g.pending ch, x.1.isAudio = false ∧ x.1.channel = ch.byte ∧
    x.1.frameNum = (s.asm ch).curFrameNum
  idle : ∀ ch, (s.asm ch).framePending = false → g.pending ch = []
  packets : List.Forall₂ BuiltFrom g.closed s.videoPackets

namespace AsmView

variable {s s' : Assembler} {g : Grouping PendingFrag VideoChannel}

theorem congr (h : AsmView s g) (hsame : s.SameAsm s')
    (hpackets : s'.videoPackets = s.videoPackets) : AsmView s' g where
  buf ch := by rw [hsame.asm, h.buf]
  owner ch := by
    rw [hsame.asm]
    exact h.owner ch
  idle ch := by
    rw [hsame.asm]
    exact h.idle ch
  packets := hpackets ▸ h.packets

theorem reset (h : AsmView s g) (ch : VideoChannel) :
    AsmView (s.setAsm ch (s.asm ch).reset) (g.discard ch) where
  buf ch' := by
    by_cases hch : ch' = ch
    · subst hch
      rw [asm_setAsm_same, Grouping.discard_pending_same]
      rfl
    · rw [asm_setAsm_of_ne _ _ hch, h.buf, g.discard_pending_of_ne hch]
  owner ch' x hx := by
    by_cases hch : ch' = ch
    · subst hch
      rw [Grouping.discard_pending_same] at hx
      exact absurd hx not_mem_nil
    · rw [g.discard_pending_of_ne hch] at hx
      rw [asm_setAsm_of_ne _ _ hch]
      exact h.owner ch' x hx
  idle ch' hidle := by
    by_cases hch : ch' = ch
    · subst hch
      exact g.discard_pending_same ch'
    · rw [asm_setAsm_of_ne _ _ hch] at hidle
      rw [g.discard_pending_of_ne hch]
      exact h.idle ch' hidle
  packets := by
    rw [Assembler.videoPackets, log_setAsm]
    exact h.packets

/-- Handing an access unit to `emitAU` closes at most the group it was put together
from. -/
theorem emitAU (h : AsmView s g) {au : Bytes} {frameNum : UInt32} {ch : VideoChannel}
    {part : List (PendingFrag × ℕ)} (onlineNum : UInt8)
    (hpart : ∀ p : Packet, p.payload = au → p.cameraFrameNo = frameNum →
      p.channel = ch.byte → BuiltFrom part p) :
    AsmView (s.emitAU au frameNum ch onlineNum) g ∨
      AsmView (s.emitAU au frameNum ch onlineNum) { g with closed := g.closed ++ [part] } := by
  obtain ⟨hsame, ⟨-, hlog, -⟩ | ⟨-, -, -, -, -, hlog⟩ | ⟨-, -, p, hq⟩⟩ :=
    s.emitAU_cases au frameNum ch onlineNum
  · exact .inl (h.congr hsame (by rw [Assembler.videoPackets, hlog, Assembler.videoPackets]))
  · exact .inl (h.congr hsame (videoPackets_of_dropped hlog))
  · refine .inr ?_
    refine ⟨fun c => by rw [hsame.asm]; exact h.buf c, fun c => by rw [hsame.asm]; exact h.owner c,
      fun c => by rw [hsame.asm]; exact h.idle c, ?_⟩
    rw [hq.videoPackets]
    exact rel_append h.packets
      (.cons (hpart p hq.payload hq.cameraFrameNo hq.channel) .nil)

theorem flushPendingIDR (h : AsmView s g) (ts : UInt32) :
    AsmView (s.flushPendingIDR ts) (g.discard .key) ∨
      AsmView (s.flushPendingIDR ts) (g.close .key) := by
  have hreset : AsmView (s.setAsm .key s.keyAsm.reset) (g.discard .key) := h.reset .key
  obtain ⟨-, heq⟩ | ⟨-, -, -, heq⟩ | ⟨-, -, s₁, hsame, hlog, -, heq⟩ :=
    s.flushPendingIDR_cases ts
  · rw [heq]
    exact .inl hreset
  · rw [heq]
    refine .inl (hreset.congr ⟨fun c => ?_, rfl⟩ (videoPackets_of_dropped rfl))
    rw [asm_discard, asm_poison]
  · rw [heq]
    have h₁ : AsmView s₁ (g.discard .key) :=
      hreset.congr hsame (by rw [Assembler.videoPackets, hlog, Assembler.videoPackets]; rfl)
    refine h₁.emitAU 0 fun p hpayload hnum hch => ⟨fun x hx => ?_, .inl ?_⟩
    · obtain ⟨haudio, hbyte, hframe⟩ := h.owner .key x hx
      exact ⟨haudio, hbyte.trans hch.symm, hframe.trans hnum.symm⟩
    · rw [hpayload]
      exact h.buf .key

theorem setAsm (h : AsmView s g) (ch : VideoChannel) {a : ChannelAsm}
    (hbuf : a.buf = payloads (g.pending ch))
    (howner : ∀ x ∈ g.pending ch, x.1.frameNum = a.curFrameNum)
    (hidle : a.framePending = false → g.pending ch = []) : AsmView (s.setAsm ch a) g where
  buf ch' := by
    by_cases hch : ch' = ch
    · subst hch
      rw [asm_setAsm_same, hbuf]
    · rw [asm_setAsm_of_ne _ _ hch, h.buf]
  owner ch' x hx := by
    obtain ⟨haudio, hbyte, hnum⟩ := h.owner ch' x hx
    by_cases hch : ch' = ch
    · subst hch
      rw [asm_setAsm_same]
      exact ⟨haudio, hbyte, howner x hx⟩
    · rw [asm_setAsm_of_ne _ _ hch]
      exact ⟨haudio, hbyte, hnum⟩
  idle ch' := by
    by_cases hch : ch' = ch
    · subst hch
      rw [asm_setAsm_same]
      exact hidle
    · rw [asm_setAsm_of_ne _ _ hch]
      exact h.idle ch'
  packets := by
    rw [Assembler.videoPackets, log_setAsm]
    exact h.packets

end AsmView

/-- A view whose grouping accounts for the inputs `es`. -/
def Accounts (s : Assembler) (es : List PendingFrag) : Prop :=
  ∃ g : Grouping PendingFrag VideoChannel, AsmView s g ∧ g.Valid es

namespace Accounts

variable {s : Assembler} {es : List PendingFrag}

theorem flushPendingIDR (h : Accounts s es) (ts : UInt32) : Accounts (s.flushPendingIDR ts) es := by
  obtain ⟨g, hview, hvalid⟩ := h
  rcases hview.flushPendingIDR ts with hdisc | hclose
  · exact ⟨_, hdisc, hvalid.discard .key⟩
  · exact ⟨_, hclose, hvalid.close .key⟩

/-- After the frame-number test, a frame still pending under another number has no bytes
in the buffer. -/
theorem frameNumJump (h : Accounts s es) (ch : VideoChannel) (e : PendingFrag) :
    Accounts (s.frameNumJump ch e) es ∧
      (((s.frameNumJump ch e).asm ch).framePending = true →
        e.frameNum ≠ ((s.frameNumJump ch e).asm ch).curFrameNum →
        ((s.frameNumJump ch e).asm ch).buf = []) := by
  obtain ⟨hnot, heq⟩ | ⟨-, rfl, heq⟩ | ⟨-, rfl, heq⟩ := s.frameNumJump_cases ch e
  · rw [heq]
    refine ⟨h, fun hpending hnum => ?_⟩
    by_contra hbuf
    exact hnot ⟨hpending, hnum, hbuf⟩
  · rw [heq]
    refine ⟨h.flushPendingIDR 0, fun hpending => ?_⟩
    rw [(s.flushPendingIDR_asm 0).asm, asm_setAsm_same] at hpending
    cases hpending
  · rw [heq]
    obtain ⟨g, hview, hvalid⟩ := h
    have hsame : s.SameAsm (if s.strict then s.poison else s) := by
      split_ifs
      · exact ⟨fun c => s.asm_poison c, rfl⟩
      · exact ⟨fun _ => rfl, rfl⟩
    have hview' := (hview.congr hsame (by split_ifs <;> rfl)).reset .inter
    rw [hsame.asm] at hview'
    refine ⟨⟨_, hview'.congr ⟨fun c => asm_discard _ _ _ _ _, rfl⟩ ?_,
      hvalid.discard .inter⟩, fun hpending => ?_⟩
    · exact videoPackets_of_dropped rfl
    · rw [asm_discard, asm_setAsm_same] at hpending
      cases hpending

/-- Beginning the fragment's frame: a frame that was pending under another number is
abandoned without a byte. -/
theorem begin (h : Accounts s es) (ch : VideoChannel) (e : PendingFrag)
    (hother : (s.asm ch).framePending = true → e.frameNum ≠ (s.asm ch).curFrameNum →
      (s.asm ch).buf = []) : Accounts (s.setAsm ch ((s.asm ch).begin e)) es := by
  obtain ⟨g, hview, hvalid⟩ := h
  obtain ⟨hpending, hnum, hbuf⟩ := (s.asm ch).begin_spec e
  by_cases hsame : (s.asm ch).framePending = true ∧ e.frameNum = (s.asm ch).curFrameNum
  · refine ⟨g, hview.setAsm ch (by rw [hbuf, hview.buf]) (fun x hx => ?_) ?_, hvalid⟩
    · rw [hnum, hsame.2]
      exact (hview.owner ch x hx).2.2
    · rw [hpending]
      exact fun hfalse => absurd hfalse (by decide)
  · -- the buffer is empty, so the group may be dropped before the channel is taken over
    have hempty : (s.asm ch).buf = [] := by
      cases hp : (s.asm ch).framePending with
      | true => exact hother hp fun heq => hsame ⟨hp, heq⟩
      | false => rw [hview.buf, hview.idle ch hp, payloads, flatMap_nil]
    have hdisc := (hview.reset ch).setAsm ch (a := (s.asm ch).begin e)
      (by rw [hbuf, hempty, Grouping.discard_pending_same]; rfl)
      (by rw [Grouping.discard_pending_same]; exact forall_mem_nil _)
      fun _ => g.discard_pending_same ch
    refine ⟨g.discard ch, hdisc.congr ⟨fun c => ?_, ?_⟩ ?_, hvalid.discard ch⟩
    · cases ch <;> cases c <;> rfl
    · cases ch <;> rfl
    · cases ch <;> rfl

theorem crossChannelFlush (h : Accounts s es) (ch : VideoChannel) (ts : UInt32) :
    Accounts (s.crossChannelFlush ch ts) es ∧
      (s.crossChannelFlush ch ts).asm ch = s.asm ch := by
  rw [Assembler.crossChannelFlush]
  split_ifs with hflush
  · obtain ⟨rfl, -⟩ := hflush
    refine ⟨h.flushPendingIDR ts, ?_⟩
    rw [(s.flushPendingIDR_asm ts).asm, asm_setAsm_of_ne _ _ (by decide)]
  · exact ⟨h, rfl⟩

variable {ch : VideoChannel} {e : PendingFrag}

theorem addData (h : Accounts s es) (haudio : e.isAudio = false) (hch : e.channel = ch.byte)
    (hnum : (s.asm ch).curFrameNum = e.frameNum) (hpending : (s.asm ch).framePending = true) :
    Accounts (s.setAsm ch ((s.asm ch).addData e)) (es ++ [e]) := by
  obtain ⟨g, hview, hvalid⟩ := h
  refine ⟨g.take ch (e, es.length), ⟨fun c => ?_, fun c x hx => ?_, fun c hidle => ?_, ?_⟩,
    hvalid.take ch e⟩
  · by_cases hc : c = ch
    · subst hc
      rw [asm_setAsm_same, Grouping.take_pending_same, payloads_concat, ← hview.buf]
      rfl
    · rw [asm_setAsm_of_ne _ _ hc, g.take_pending_of_ne _ hc, hview.buf]
  · by_cases hc : c = ch
    · subst hc
      rw [Grouping.take_pending_same] at hx
      rw [asm_setAsm_same]
      rcases mem_append.mp hx with hold | hnew
      · exact hview.owner c x hold
      · obtain rfl := mem_singleton.mp hnew
        exact ⟨haudio, hch, hnum.symm⟩
    · rw [g.take_pending_of_ne _ hc] at hx
      rw [asm_setAsm_of_ne _ _ hc]
      exact hview.owner c x hx
  · by_cases hc : c = ch
    · subst hc
      rw [asm_setAsm_same] at hidle
      exact absurd (hpending.symm.trans hidle) (by decide)
    · rw [asm_setAsm_of_ne _ _ hc] at hidle
      rw [g.take_pending_of_ne _ hc]
      exact hview.idle c hidle
  · rw [Assembler.videoPackets, log_setAsm]
    exact hview.packets

/-- The end fragment joins the open group of its channel, which is then closed, or the
group is dropped with it. -/
theorem endFrame (h : Accounts s es) (haudio : e.isAudio = false) (hch : e.channel = ch.byte)
    (hnum : (s.asm ch).curFrameNum = e.frameNum) (htrailer : hasTrailer e.payload = true) :
    Accounts (s.endFrame ch e.frameNum (stripFragmentMetadataTrailer e.payload))
      (es ++ [e]) := by
  obtain ⟨g, hview, hvalid⟩ := h
  have hreset := hview.reset ch
  obtain ⟨hsame, reason, poisoned, hlog⟩ | ⟨s₁, hsame, hlog, -, heq⟩ :=
    s.endFrame_cases ch e.frameNum (stripFragmentMetadataTrailer e.payload)
  · refine ⟨g.discard ch, hreset.congr hsame ?_, (hvalid.discard ch).skip e⟩
    rw [videoPackets_of_dropped hlog, Assembler.videoPackets, Assembler.videoPackets, log_setAsm]
  · rw [heq]
    have h₁ : AsmView s₁ (g.discard ch) := hreset.congr hsame (by
      rw [Assembler.videoPackets, hlog, Assembler.videoPackets, log_setAsm])
    have hpart : ∀ p : Packet,
        p.payload = (s.asm ch).buf ++ (stripFragmentMetadataTrailer e.payload).stripped →
        p.cameraFrameNo = e.frameNum → p.channel = ch.byte →
        BuiltFrom (g.pending ch ++ [(e, es.length)]) p := by
      intro p hpayload hframe hbyte
      refine ⟨fun x hx => ?_, .inr ⟨g.pending ch, (e, es.length), rfl, htrailer, ?_⟩⟩
      · rcases mem_append.mp hx with hold | hnew
        · obtain ⟨ha, hb, hn⟩ := hview.owner ch x hold
          exact ⟨ha, hb.trans hbyte.symm, (hn.trans hnum).trans hframe.symm⟩
        · obtain rfl := mem_singleton.mp hnew
          exact ⟨haudio, hch.trans hbyte.symm, hframe.symm⟩
      · rw [hpayload, hview.buf, (stripped_of_hasTrailer htrailer).2]
    rcases h₁.emitAU (stripFragmentMetadataTrailer e.payload).onlineNum hpart with
      hnone | hclosed
    · exact ⟨_, hnone, (hvalid.discard ch).skip e⟩
    · exact ⟨_, g.close_take ch (e, es.length) ▸ hclosed, (hvalid.take ch e).close ch⟩

theorem emitVideo (h : Accounts s es) (haudio : e.isAudio = false) (hch : e.channel = ch.byte) :
    Accounts (s.emitVideo ch e) (es ++ [e]) := by
  obtain ⟨h₁, hother⟩ := h.frameNumJump ch e
  have h₂ := h₁.begin ch e hother
  obtain ⟨h₃, hasm⟩ := h₂.crossChannelFlush ch (stripFragmentMetadataTrailer e.payload).ts
  rw [asm_setAsm_same] at hasm
  obtain ⟨hpending, hnum, -⟩ := ((s.frameNumJump ch e).asm ch).begin_spec e
  rw [Assembler.emitVideo]
  cases htrailer : (stripFragmentMetadataTrailer e.payload).hasTs with
  | false => exact h₃.addData haudio hch (by rw [hasm, hnum]) (by rw [hasm, hpending])
  | true => exact h₃.endFrame haudio hch (by rw [hasm, hnum]) htrailer

/-- **One fragment keeps the account.** -/
theorem emit (h : Accounts s es) (e : PendingFrag) : Accounts (s.emit e) (es ++ [e]) := by
  rw [Assembler.emit]
  cases haudio : e.isAudio with
  | true =>
    rw [if_pos rfl]
    obtain ⟨g, hview, hvalid⟩ := h
    refine ⟨g, hview.congr ⟨fun c => by cases c <;> rfl, rfl⟩ ?_, hvalid.skip e⟩
    rw [Assembler.videoPackets, Assembler.emitAudio, filterMap_append]
    exact append_nil _
  | false =>
    rw [if_neg (by decide)]
    cases hch : VideoChannel.ofByte e.channel with
    | some ch => exact h.emitVideo haudio (VideoChannel.byte_of_ofByte hch)
    | none =>
      obtain ⟨g, hview, hvalid⟩ := h
      exact ⟨g, hview, hvalid.skip e⟩

theorem emitAll (strict : Bool) (es : List PendingFrag) :
    Accounts ((Assembler.new strict).emitAll es) es := by
  induction es using List.reverseRecOn with
  | nil =>
    refine ⟨.empty, ⟨fun c => ?_, fun c x hx => absurd hx not_mem_nil,
      fun _ _ => rfl, .nil⟩, Grouping.valid_empty⟩
    cases c <;> rfl
  | append_singleton es e ih =>
    rw [Assembler.emitAll, foldl_append]
    exact ih.emit e

end Accounts

/-- **No frankenframes.** For every sequence of fragments, in both modes, there is for
each queued H.264 packet a selection of the fragments, in emission order, that the packet
is put together from: fragments of the packet's channel and camera frame number, whose
payloads in order are the payload, the last one possibly without its 16-byte trailer. No
fragment is in two of the selections. -/
theorem no_frankenframes (strict : Bool) (es : List PendingFrag) :
    ∃ parts : List (List (PendingFrag × ℕ)),
      List.Forall₂ BuiltFrom parts ((Assembler.new strict).emitAll es).videoPackets ∧
      (∀ part ∈ parts, part.Sublist es.zipIdx) ∧ parts.flatten.Nodup := by
  obtain ⟨g, hview, hvalid⟩ := Accounts.emitAll strict es
  exact ⟨g.closed, hview.packets, hvalid.closed_sublist, hvalid.nodup_closed⟩

end PetlibroLocal
