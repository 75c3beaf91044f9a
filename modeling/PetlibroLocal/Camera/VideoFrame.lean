import PetlibroLocal.Camera.Lane

/-!
# Well-formed Video Frames

A video frame of `N` fragments is sent as `N - 1` data fragments with the indices
`0 … N - 2`, whose payloads do not end in a metadata trailer, and one end fragment whose
payload does; each fragment announces the total `N`. This module says what a channel
state is that holds some of the data fragments of a frame (`Partial`), and what one more
fragment does to it.
-/

namespace PetlibroLocal

open List

/-- **A well-formed video frame.** `endIdx` is the index field of the end fragment and
`position` gives the wire positions; the assembler reads neither. -/
structure VideoFrame where
  channel : VideoChannel
  frameNum : UInt32
  data : List Bytes
  last : Bytes
  endIdx : UInt16
  position : ℕ → ℕ
  length_le : data.length + 1 ≤ 255
  plain : ∀ p ∈ data, hasTrailer p = false
  closing : hasTrailer last = true

namespace VideoFrame

variable (f : VideoFrame)

/-- The number of fragments, as announced in each of them. -/
def total : UInt16 := UInt16.ofNat (f.data.length + 1)

/-- The data fragment with index `i`. -/
def dataFrag (i : ℕ) (p : Bytes) : PendingFrag where
  channel := f.channel.byte
  isAudio := false
  subExt := f.position i
  frameNum := f.frameNum
  fragIdx := UInt16.ofNat i
  totalFrags := f.total
  payload := p

/-- The data fragments in order. -/
def dataFrags : List PendingFrag := f.data.mapIdx f.dataFrag

/-- The end fragment. -/
def endFrag : PendingFrag where
  channel := f.channel.byte
  isAudio := false
  subExt := f.position f.data.length
  frameNum := f.frameNum
  fragIdx := f.endIdx
  totalFrags := f.total
  payload := f.last

/-- All fragments in order. -/
def frags : List PendingFrag := f.dataFrags ++ [f.endFrag]

/-- What the end fragment carries besides its trailer. -/
def tail : StrippedFragment := stripFragmentMetadataTrailer f.last

/-- The access unit: the payloads of all fragments, the trailer stripped. -/
def au : Bytes := f.data.flatten ++ f.tail.stripped

theorem length_dataFrags : f.dataFrags.length = f.data.length := length_mapIdx

theorem length_lt_size : f.data.length + 1 < UInt16.size :=
  Nat.lt_of_le_of_lt f.length_le (by decide)

theorem total_pos : 0 < f.total :=
  (UInt16.ofNat_lt_iff_lt (by decide) f.length_lt_size).mpr (Nat.succ_pos _)

theorem total_sub_one : f.total - 1 = UInt16.ofNat f.data.length := by
  rw [total, UInt16.ofNat_add]
  exact UInt16.add_sub_cancel _ _

variable {e : PendingFrag}

theorem of_mem_frags (h : e ∈ f.frags) :
    e.isAudio = false ∧ e.channel = f.channel.byte ∧ e.frameNum = f.frameNum ∧
      e.totalFrags = f.total := by
  rcases mem_append.mp h with hdata | hend
  · obtain ⟨i, hi, rfl⟩ := mem_mapIdx.mp hdata
    exact ⟨rfl, rfl, rfl, rfl⟩
  · obtain rfl := mem_singleton.mp hend
    exact ⟨rfl, rfl, rfl, rfl⟩

theorem on_of_mem_frags (h : e ∈ f.frags) : e.on f.channel = true := by
  obtain ⟨haudio, hbyte, -, -⟩ := f.of_mem_frags h
  exact PendingFrag.on_iff.mpr ⟨haudio, hbyte⟩

theorem mem_frags_of_mem_dataFrags (h : e ∈ f.dataFrags) : e ∈ f.frags := mem_append_left _ h

theorem endFrag_mem_frags : f.endFrag ∈ f.frags := mem_append_right _ (mem_singleton_self _)

theorem hasTs_of_mem_dataFrags (h : e ∈ f.dataFrags) :
    (stripFragmentMetadataTrailer e.payload).hasTs = false := by
  obtain ⟨i, hi, rfl⟩ := mem_mapIdx.mp h
  exact f.plain _ (getElem_mem hi)

theorem payload_dataFrags : f.dataFrags.flatMap (·.payload) = f.data.flatten := by
  have hpayload : f.dataFrags.map (·.payload) = f.data := by
    refine ext_getElem (by simp [dataFrags]) fun i hi hi' => ?_
    simp [dataFrags, dataFrag]
  rw [flatMap_def, hpayload]

/-- What is queued of a frame: its number and its access unit. -/
def out : UInt32 × Bytes := (f.frameNum, f.au)

end VideoFrame

/-- A metadata trailer with the given frame flag and millisecond clock. -/
def metadataTrailer (flag ts : UInt8) : Bytes :=
  [0x4E, 0, flag, 0, 1, 0, 0, 0, 0, 0, 0, 0, ts, 0, 0, 0]

/-- An IDR of two fragments. -/
def sampleIDR : VideoFrame where
  channel := .key
  frameNum := 100
  data := [[0, 0, 0, 1, 0x65, 0x88]]
  last := 0xEE :: metadataTrailer 1 100
  endIdx := 1
  position := id
  length_le := by decide
  plain := by decide
  closing := by decide

/-- An inter frame of one fragment. -/
def sampleInter : VideoFrame where
  channel := .inter
  frameNum := 200
  data := []
  last := [0x77, 0x88, 0x99, 0xAA, 0xBB] ++ metadataTrailer 0 150
  endIdx := 0
  position := id
  length_le := by decide
  plain := by decide
  closing := by decide

/-! ### Frames in progress -/

/-- The payloads of fragments, one after the other. -/
def payloadBytes (es : List PendingFrag) : Bytes := es.flatMap (·.payload)

theorem payloadBytes_append (es es' : List PendingFrag) :
    payloadBytes (es ++ es') = payloadBytes es ++ payloadBytes es' :=
  flatMap_append

theorem payloadBytes_singleton (e : PendingFrag) : payloadBytes [e] = e.payload :=
  flatMap_singleton _ _

/-- **The channel holds the data fragments `ds` of the frame.** If they are the first ones
without a gap, no gap is noted and the next index is expected. -/
structure Partial (f : VideoFrame) (ds : List PendingFrag) (a : ChannelAsm) : Prop where
  framePending : a.framePending = true
  curFrameNum : a.curFrameNum = f.frameNum
  curAUTotal : a.curAUTotal = f.total
  curAUDataCount : a.curAUDataCount = UInt16.ofNat ds.length
  buf : a.buf = payloadBytes ds
  kept : ds.Sublist f.dataFrags
  whole : ds <+: f.dataFrags →
    a.curAUGapped = false ∧ a.expectFragIdx = UInt16.ofNat ds.length

/-- The channel holds nothing, and a fragment of the frame begins it anew. -/
def Free (f : VideoFrame) (a : ChannelAsm) : Prop :=
  a.buf = [] ∧ (a.framePending = false ∨ a.curFrameNum ≠ f.frameNum)

/-- The channel is ready for the next fragment of the frame after `ds`. -/
def Ready (f : VideoFrame) (ds : List PendingFrag) (a : ChannelAsm) : Prop :=
  Partial f ds a ∨ (ds = [] ∧ Free f a)

/-- The channel holds nothing and has no frame pending. -/
def Idle (a : ChannelAsm) : Prop := a.buf = [] ∧ a.framePending = false

theorem idle_reset (a : ChannelAsm) : Idle a.reset := ⟨rfl, rfl⟩

theorem idle_zero : Idle .zero := ⟨rfl, rfl⟩

variable {a : ChannelAsm}

theorem Idle.free (h : Idle a) (f : VideoFrame) : Free f a := ⟨h.1, .inl h.2⟩

theorem Free.ready {f : VideoFrame} (h : Free f a) : Ready f [] a := .inr ⟨rfl, h⟩

theorem Idle.ready (h : Idle a) (f : VideoFrame) : Ready f [] a :=
  (h.free f).ready

/-- The outcome of the end fragment after the data fragments `ds`. -/
def VideoFrame.ending (f : VideoFrame) (ch : VideoChannel) (ds : List PendingFrag) : Outcome :=
  if f.data ≠ [] ∧ ds = [] then .noData ch f.frameNum
  else .ended ch f.frameNum (payloadBytes ds ++ f.tail.stripped)
    (decide (ds.length < f.data.length)) f.tail.ts f.tail.onlineNum

/-- The outcome of flushing the frame with the data fragments `ds`. -/
def VideoFrame.cutting (f : VideoFrame) (ds : List PendingFrag) (ts : UInt32) : Outcome :=
  .flushed f.frameNum (payloadBytes ds) (decide (ds.length < f.data.length)) ts

section

variable {f : VideoFrame} {ds : List PendingFrag} {a : ChannelAsm} {e : PendingFrag}

theorem Partial.length_le (h : Partial f ds a) : ds.length ≤ f.data.length :=
  f.length_dataFrags ▸ h.kept.length_le

theorem Partial.count_lt_iff (h : Partial f ds a) :
    a.curAUDataCount < UInt16.ofNat f.data.length ↔ ds.length < f.data.length := by
  have hlen := h.length_le
  have hsize := f.length_lt_size
  rw [h.curAUDataCount, UInt16.ofNat_lt_iff_lt (by omega) (by omega)]

theorem Partial.expectedData (h : Partial f ds a) :
    a.expectedData = UInt16.ofNat f.data.length := by
  rw [ChannelAsm.expectedData, h.curAUTotal, if_pos f.total_pos, f.total_sub_one]

theorem Partial.tailMissing (h : Partial f ds a) :
    a.tailMissing = decide (ds.length < f.data.length) := by
  have hlen := h.length_le
  have hsize := f.length_lt_size
  have hcount : a.curAUDataCount + 1 = UInt16.ofNat (ds.length + 1) := by
    rw [h.curAUDataCount, UInt16.ofNat_add]
    rfl
  rw [ChannelAsm.tailMissing, h.curAUTotal, hcount, decide_eq_true f.total_pos, Bool.true_and]
  exact decide_eq_decide.mpr
    ((UInt16.ofNat_lt_iff_lt (by omega) hsize).trans Nat.succ_lt_succ_iff)

theorem Partial.not_gapped (h : Partial f ds a) (hall : ¬ ds.length < f.data.length) :
    a.curAUGapped = false := by
  have hlen := h.length_le
  have hds : ds = f.dataFrags := h.kept.eq_of_length (by rw [f.length_dataFrags]; omega)
  exact (h.whole (hds ▸ prefix_rfl)).1

theorem Partial.gapped_or (h : Partial f ds a) {b : Bool}
    (hb : b = decide (ds.length < f.data.length)) : (a.curAUGapped || b) = b := by
  by_cases hlt : ds.length < f.data.length
  · rw [hb, decide_eq_true hlt, Bool.or_true]
  · rw [h.not_gapped hlt, Bool.false_or]

theorem Ready.begin (h : Ready f ds a) (he : e ∈ f.frags) : Partial f ds (a.begin e) := by
  obtain ⟨-, -, hnum, htotal⟩ := f.of_mem_frags he
  have htotal0 : f.total ≠ 0 := fun h0 => absurd f.total_pos (by rw [h0]; decide)
  obtain h | ⟨rfl, hbuf, hfree⟩ := h
  · have hsame : a.begin e = a := by
      have hold : (!a.framePending || e.frameNum != a.curFrameNum) = false := by
        simp [h.framePending, h.curFrameNum, hnum]
      simp only [ChannelAsm.begin, hold, Bool.false_eq_true, if_false]
      exact if_neg fun h0 => htotal0 (h.curAUTotal.symm.trans h0.1)
    rw [hsame]
    exact h
  · have hnew : (!a.framePending || e.frameNum != a.curFrameNum) = true := by
      rw [hnum]
      rcases hfree with hidle | hother
      · simp [hidle]
      · simp [Ne.symm hother]
    simp only [ChannelAsm.begin, if_pos hnew, htotal, htotal0, false_and, if_false]
    exact ⟨rfl, hnum, rfl, rfl, hbuf, nil_sublist _, fun _ => ⟨rfl, rfl⟩⟩

theorem Ready.jump (h : Ready f ds a) (he : e ∈ f.frags) (ch : VideoChannel) :
    a.jump ch e = (a, []) := by
  obtain ⟨-, -, hnum, -⟩ := f.of_mem_frags he
  have hstay : (a.framePending && e.frameNum != a.curFrameNum && !a.buf.isEmpty) = false := by
    obtain h | ⟨-, hbuf, -⟩ := h
    · simp [hnum, h.curFrameNum]
    · simp [hbuf]
  cases ch <;> simp only [ChannelAsm.jump, hstay, Bool.false_eq_true, if_false]

theorem VideoFrame.fragIdx_of_prefix (h : ds ++ [e] <+: f.dataFrags) :
    e.fragIdx = UInt16.ofNat ds.length := by
  have hget : f.dataFrags[ds.length]? = some e := by
    obtain ⟨rest, hrest⟩ := h
    rw [← hrest, append_assoc, List.getElem?_append_right (Nat.le_refl _), Nat.sub_self]
    rfl
  rw [VideoFrame.dataFrags, List.getElem?_mapIdx] at hget
  obtain ⟨p, -, rfl⟩ := Option.map_eq_some_iff.mp hget
  rfl

theorem Partial.addData (h : Partial f ds a) (hsub : (ds ++ [e]).Sublist f.dataFrags) :
    Partial f (ds ++ [e]) (a.addData e) where
  framePending := h.framePending
  curFrameNum := h.curFrameNum
  curAUTotal := h.curAUTotal
  curAUDataCount := by
    rw [ChannelAsm.addData, h.curAUDataCount, length_append, UInt16.ofNat_add]
    rfl
  buf := by rw [ChannelAsm.addData, h.buf, payloadBytes_append, payloadBytes_singleton]
  kept := hsub
  whole hprefix := by
    obtain ⟨hgapped, hexpect⟩ := h.whole ((prefix_append _ _).trans hprefix)
    have hidx := VideoFrame.fragIdx_of_prefix hprefix
    constructor
    · simp [ChannelAsm.addData, hgapped, hexpect, hidx]
    · rw [ChannelAsm.addData, hidx, length_append, UInt16.ofNat_add]
      rfl

/-- **A data fragment of the frame joins the others.** -/
theorem Ready.own_data (h : Ready f ds a) (hsub : (ds ++ [e]).Sublist f.dataFrags)
    (ch : VideoChannel) :
    Partial f (ds ++ [e]) (a.own ch e).1 ∧ (a.own ch e).2 = [] := by
  have he : e ∈ f.dataFrags := hsub.subset (mem_append_right _ (mem_singleton_self _))
  have he' := f.mem_frags_of_mem_dataFrags he
  simp only [ChannelAsm.own, ChannelAsm.take, h.jump he', f.hasTs_of_mem_dataFrags he,
    Bool.not_false, if_true, append_nil, and_true]
  exact (h.begin he').addData hsub

/-- **The end fragment ends the frame.** -/
theorem Ready.own_end (h : Ready f ds a) (ch : VideoChannel) :
    Idle (a.own ch f.endFrag).1 ∧ (a.own ch f.endFrag).2 = [f.ending ch ds] := by
  have hend : (stripFragmentMetadataTrailer f.endFrag.payload).hasTs = true := f.closing
  have hbegin := h.begin f.endFrag_mem_frags
  simp only [ChannelAsm.own, ChannelAsm.take, h.jump f.endFrag_mem_frags, hend,
    Bool.not_true, Bool.false_eq_true, if_false, nil_append, List.cons.injEq, and_true]
  refine ⟨idle_reset _, ?_⟩
  have hnone : (1 ≤ (a.begin f.endFrag).expectedData ∧
      (a.begin f.endFrag).curAUDataCount = 0) ↔ (f.data ≠ [] ∧ ds = []) := by
    have hlen := hbegin.length_le
    have hsize := f.length_lt_size
    rw [hbegin.expectedData, hbegin.curAUDataCount, ← length_pos_iff, ← length_eq_zero_iff]
    have hone : (1 : UInt16) ≤ UInt16.ofNat f.data.length ↔ 1 ≤ f.data.length :=
      UInt16.ofNat_le_iff_le (by decide) (by omega)
    have hzero : UInt16.ofNat ds.length = 0 ↔ ds.length = 0 := by
      rw [← UInt16.toNat_inj, UInt16.toNat_ofNat_of_lt' (by omega)]
      rfl
    rw [hone, hzero]
    rfl
  rw [ChannelAsm.ended, VideoFrame.ending]
  by_cases hdata : f.data ≠ [] ∧ ds = []
  · rw [if_pos (hnone.mpr hdata), if_pos hdata]
    rfl
  · rw [if_neg fun hn => hdata (hnone.mp hn), if_neg hdata, hbegin.buf, hbegin.expectedData,
      hbegin.gapped_or (decide_eq_decide.mpr hbegin.count_lt_iff),
      decide_eq_decide.mpr hbegin.count_lt_iff]
    rfl

theorem Partial.flushed (h : Partial f ds a) (ts : UInt32) : a.flushed ts = f.cutting ds ts := by
  rw [ChannelAsm.flushed, VideoFrame.cutting, h.curFrameNum, h.buf, h.gapped_or h.tailMissing,
    h.tailMissing]

/-- **A fragment of the inter channel makes a frame with bytes leave**; a channel without
bytes stays as it is. -/
theorem Ready.cut (h : Ready f ds a) (ts : UInt32) :
    (payloadBytes ds = [] ∧ a.cut ts = (a, [])) ∨
      (payloadBytes ds ≠ [] ∧ a.cut ts = (a.reset, [f.cutting ds ts])) := by
  obtain h | ⟨rfl, hbuf, -⟩ := h
  · rw [ChannelAsm.cut, h.flushed ts, h.buf]
    by_cases hds : payloadBytes ds = []
    · exact .inl ⟨hds, if_neg fun hc => hc.2 hds⟩
    · exact .inr ⟨hds, if_pos ⟨h.framePending, hds⟩⟩
  · exact .inl ⟨rfl, if_neg fun hc => hc.2 hbuf⟩

/-- **A fragment of another frame on the key channel makes a frame with bytes leave.** -/
theorem Partial.jump_key (h : Partial f ds a) (hbytes : payloadBytes ds ≠ [])
    (hnum : e.frameNum ≠ f.frameNum) : a.jump .key e = (a.reset, [f.cutting ds 0]) := by
  have hjump : (a.framePending && e.frameNum != a.curFrameNum && !a.buf.isEmpty) = true := by
    simp [h.framePending, h.curFrameNum, h.buf, hnum, hbytes]
  simp only [ChannelAsm.jump, if_pos hjump, h.flushed]

end

theorem VideoFrame.ending_dataFrags (f : VideoFrame) (ch : VideoChannel) :
    f.ending ch f.dataFrags =
      .ended ch f.frameNum f.au false f.tail.ts f.tail.onlineNum := by
  have hdata : ¬ (f.data ≠ [] ∧ f.dataFrags = []) := by
    rintro ⟨hne, hnil⟩
    refine hne (length_eq_zero_iff.mp ?_)
    rw [← f.length_dataFrags, hnil, length_nil]
  rw [VideoFrame.ending, if_neg hdata, payloadBytes, f.payload_dataFrags, f.length_dataFrags,
    decide_eq_false (Nat.lt_irrefl _)]
  rfl

theorem length_au (f : VideoFrame) :
    f.au.length = (payloadBytes f.dataFrags).length + f.tail.stripped.length := by
  rw [VideoFrame.au, length_append, payloadBytes, f.payload_dataFrags]

end PetlibroLocal
