import PetlibroLocal.Camera.FrameRun
import PetlibroLocal.Lib.Blocks

/-!
# Interleaved Frames of the Two Channels

The camera sends the fragments of the two video channels in wire order, an inter frame
possibly in the middle of an IDR. Each channel has its own assembly state, but a fragment
of the inter channel flushes a pending IDR (`flushPendingIDR`), so the channels are not
independent. This module says when they are, for complete frames on both channels in any
interleaving, up to what release holds back in strict mode.
-/

namespace PetlibroLocal

open List

/-! ### The whole stream -/

/-- The bytes of the current IDR behind one more fragment. -/
def keyBytes (here : Bytes) (e : PendingFrag) : Bytes :=
  if e.on .key then (if hasTrailer e.payload then [] else here ++ e.payload) else here

/-- The bytes of the key channel since its last end fragment. -/
def openBytes (es : List PendingFrag) : Bytes := es.foldl keyBytes []

/-- The bytes of the key channel up to its next end fragment, the trailer stripped. -/
def restBytes : List PendingFrag → Bytes
  | [] => []
  | e :: es =>
    if e.on .key then
      if hasTrailer e.payload then (stripFragmentMetadataTrailer e.payload).stripped
      else e.payload ++ restBytes es
    else restBytes es

/-- The next fragment of the key channel is an end fragment with nothing but its trailer. -/
def bareEnd : List PendingFrag → Bool
  | [] => false
  | e :: es =>
    if e.on .key then
      hasTrailer e.payload && (stripFragmentMetadataTrailer e.payload).stripped.isEmpty
    else bareEnd es

/-- **Whenever a fragment of the inter channel arrives**, `Q` holds of the bytes of the
current IDR that are there and of the stream still to come. -/
def AtInter (Q : Bytes → List PendingFrag → Prop) (es : List PendingFrag) : Prop :=
  AtEach (fun pre e post => e.on .inter = true → Q (openBytes pre) post) es

/-- No fragment of the inter channel arrives while bytes of an IDR are pending. -/
def Quiet (es : List PendingFrag) : Prop := AtInter (fun here _ => here = []) es

/-- None arrives while bytes of an IDR are pending and others still to come. -/
def Unsplit (es : List PendingFrag) : Prop :=
  AtInter (fun here rest => here = [] ∨ restBytes rest = []) es

/-- None arrives while bytes of an IDR are pending and anything but a bare end fragment is
still to come. -/
def CutAtEnd (es : List PendingFrag) : Prop :=
  AtInter (fun here rest => here = [] ∨ bareEnd rest = true) es

variable {es : List PendingFrag} {f : VideoFrame}

theorem openBytes_of_plain
    (h : ∀ e ∈ es.filter (PendingFrag.on .key), hasTrailer e.payload = false) :
    openBytes es = payloadBytes (es.filter (PendingFrag.on .key)) := by
  induction es using List.reverseRecOn with
  | nil => rfl
  | append_singleton es e ih =>
    rw [filter_append] at h ⊢
    have hes := ih fun x hx => h x (mem_append_left _ hx)
    rw [openBytes, foldl_append, ← openBytes, hes, payloadBytes_append]
    cases hon : e.on .key with
    | false => simp [keyBytes, hon, payloadBytes]
    | true =>
      have hplain := h e (mem_append_right _ (by simp [hon]))
      simp [keyBytes, hon, hplain, payloadBytes]

theorem openBytes_after_end (hend : f.endFrag.on .key = true) (d pre : List PendingFrag) :
    openBytes (d ++ f.endFrag :: pre) = openBytes pre := by
  have hclosing : hasTrailer f.endFrag.payload = true := f.closing
  rw [openBytes, foldl_append, foldl_cons]
  simp only [keyBytes, hend, hclosing, if_true]
  rfl

theorem restBytes_of_plain (h : ∀ e ∈ es.filter (PendingFrag.on .key), hasTrailer e.payload = false)
    (hend : f.endFrag.on .key = true) (t : List PendingFrag) :
    restBytes (es ++ f.endFrag :: t) =
      payloadBytes (es.filter (PendingFrag.on .key)) ++ f.tail.stripped := by
  have hclosing : hasTrailer f.endFrag.payload = true := f.closing
  induction es with
  | nil =>
    rw [nil_append, restBytes, if_pos hend, if_pos hclosing]
    rfl
  | cons e es ih =>
    rw [cons_append, restBytes]
    cases hon : e.on .key with
    | false =>
      rw [filter_cons_of_neg (by simp [hon])] at h ⊢
      exact (if_neg Bool.false_ne_true).trans (ih h)
    | true =>
      rw [filter_cons_of_pos hon] at h ⊢
      have hplain := h e mem_cons_self
      rw [if_pos rfl, hplain, if_neg Bool.false_ne_true,
        ih fun x hx => h x (mem_cons_of_mem _ hx), ← append_assoc]
      rfl

theorem bareEnd_of_plain (h : ∀ e ∈ es.filter (PendingFrag.on .key), hasTrailer e.payload = false)
    (hend : f.endFrag.on .key = true) (t : List PendingFrag) :
    bareEnd (es ++ f.endFrag :: t) = true ↔
      es.filter (PendingFrag.on .key) = [] ∧ f.tail.stripped = [] := by
  have hclosing : hasTrailer f.endFrag.payload = true := f.closing
  induction es with
  | nil =>
    rw [List.nil_append, bareEnd, if_pos hend, hclosing, Bool.true_and, List.isEmpty_iff]
    exact (and_iff_right rfl).symm
  | cons e es ih =>
    rw [cons_append, bareEnd]
    cases hon : e.on .key with
    | false =>
      rw [filter_cons_of_neg (by simp [hon])] at h ⊢
      rw [if_neg Bool.false_ne_true]
      exact ih h
    | true =>
      rw [filter_cons_of_pos hon] at h ⊢
      rw [if_pos rfl, h e mem_cons_self, Bool.false_and]
      simp

theorem restBytes_of_bareEnd (h : bareEnd es = true) : restBytes es = [] := by
  induction es with
  | nil => rfl
  | cons e es ih =>
    rw [bareEnd] at h
    rw [restBytes]
    split_ifs at h ⊢ with hon htrailer
    · exact isEmpty_iff.mp (Bool.and_eq_true_iff.mp h).2
    · exact absurd (Bool.and_eq_true_iff.mp h).1 htrailer
    · exact ih h

theorem CutAtEnd.unsplit (h : CutAtEnd es) : Unsplit es := by
  intro pre e post heq hinter
  exact (h pre e post heq hinter).imp_right restBytes_of_bareEnd

theorem Quiet.unsplit (h : Quiet es) : Unsplit es := by
  intro pre e post heq hinter
  exact .inl (h pre e post heq hinter)

section

variable {f : VideoFrame} {d : List PendingFrag}

theorem plain_of_split (hdata : d.filter (PendingFrag.on .key) = f.dataFrags)
    {pre post : List PendingFrag} {e : PendingFrag} (hd : d = pre ++ e :: post)
    (hinter : e.on .inter = true) :
    (∀ x ∈ pre.filter (PendingFrag.on .key), hasTrailer x.payload = false) ∧
      ∀ x ∈ post.filter (PendingFrag.on .key), hasTrailer x.payload = false := by
  have hall : ∀ x ∈ d.filter (PendingFrag.on .key), hasTrailer x.payload = false := by
    intro x hx
    rw [hdata] at hx
    exact f.hasTs_of_mem_dataFrags hx
  rw [hd, filter_key_split hinter] at hall
  exact ⟨fun x hx => hall x (mem_append_left _ hx), fun x hx => hall x (mem_append_right _ hx)⟩

variable {t : List PendingFrag}

theorem atInter_segment {Q : Bytes → List PendingFrag → Prop}
    (hdata : d.filter (PendingFrag.on .key) = f.dataFrags) (hend : f.endFrag.on .key = true) :
    AtInter Q (d ++ f.endFrag :: t) ↔
      AtEach (fun pre e post => e.on .inter = true →
        Q (payloadBytes (pre.filter (PendingFrag.on .key))) (post ++ f.endFrag :: t)) d ∧
        AtInter Q t := by
  have hnot : f.endFrag.on .inter = false := PendingFrag.on_of_ne hend (by decide)
  rw [AtInter, atEach_append, atEach_cons]
  refine and_congr (atEach_congr fun pre e post hd => ?_) ?_
  · refine forall_congr' fun hinter => ?_
    rw [openBytes_of_plain (plain_of_split hdata hd hinter).1]
  · simp only [openBytes_after_end hend, hnot, Bool.false_eq_true, false_implies, true_and]
    exact Iff.rfl

theorem quiet_segment (hdata : d.filter (PendingFrag.on .key) = f.dataFrags)
    (hend : f.endFrag.on .key = true) : Quiet (d ++ f.endFrag :: t) ↔ Undisturbed d ∧ Quiet t :=
  atInter_segment hdata hend

theorem unsplit_segment (hdata : d.filter (PendingFrag.on .key) = f.dataFrags)
    (hend : f.endFrag.on .key = true) :
    Unsplit (d ++ f.endFrag :: t) ↔ UnsplitIn f d ∧ Unsplit t := by
  refine (atInter_segment hdata hend).trans (and_congr_left' ?_)
  refine atEach_congr fun pre e post hd => forall_congr' fun hinter => ?_
  rw [restBytes_of_plain (plain_of_split hdata hd hinter).2 hend]

theorem cutAtEnd_segment (hdata : d.filter (PendingFrag.on .key) = f.dataFrags)
    (hend : f.endFrag.on .key = true) :
    CutAtEnd (d ++ f.endFrag :: t) ↔
      AtEach (fun pre e post => e.on .inter = true →
        payloadBytes (pre.filter (PendingFrag.on .key)) = [] ∨
          post.filter (PendingFrag.on .key) = [] ∧ f.tail.stripped = []) d ∧ CutAtEnd t := by
  refine (atInter_segment hdata hend).trans (and_congr_left' ?_)
  refine atEach_congr fun pre e post hd => forall_congr' fun hinter => ?_
  rw [bareEnd_of_plain (plain_of_split hdata hd hinter).2 hend]

end

section

variable {fs : List VideoFrame} {es : List PendingFrag} {a : ChannelAsm}

/-- Frames that no cut gets in the way of all end whole, in order. -/
theorem laneRun_frames_quiet {ch : VideoChannel} (hidle : Idle a)
    (horder : es.filter (PendingFrag.on ch) = fs.flatMap (·.frags))
    (hquiet : ch = .inter ∨ Quiet es) :
    (a.laneRun ch es).2 = fs.map fun f =>
      .ended ch f.frameNum f.au false f.tail.ts f.tail.onlineNum := by
  induction fs generalizing es a with
  | nil =>
    rw [laneRun_idle hidle.1 horder]
    rfl
  | cons f fs ih =>
    rw [flatMap_cons] at horder
    obtain ⟨d, t, rfl, hdata, hend, ht⟩ := segment horder
    have hquiets : (ch = .inter ∨ Undisturbed d) ∧ (ch = .inter ∨ Quiet t) := by
      cases ch with
      | inter => exact ⟨.inl rfl, .inl rfl⟩
      | key =>
        have hkey := hquiet.resolve_left (by decide)
        obtain ⟨hd, ht'⟩ := (quiet_segment hdata hend).mp hkey
        exact ⟨.inr hd, .inr ht'⟩
    obtain ⟨hidle', hout⟩ := laneRun_frame_quiet (hidle.ready f) hdata hend hquiets.1
    rw [laneRun_segment, hout, ih hidle' ht hquiets.2]
    rfl

theorem atInter_of_filter_eq_nil {Q : Bytes → List PendingFrag → Prop} (hQ : ∀ rest, Q [] rest)
    (hnone : es.filter (PendingFrag.on .key) = []) : AtInter Q es := by
  intro pre e post heq hinter
  rw [heq, filter_key_split hinter] at hnone
  have hpre := (append_eq_nil_iff.mp hnone).1
  have hopen : openBytes pre = [] := by
    refine (openBytes_of_plain ?_).trans (by rw [hpre]; rfl)
    rw [hpre]
    exact forall_mem_nil _
  rw [hopen]
  exact hQ _

/-- **The packets of the key channel fall into blocks, one for each IDR**, none longer
than its IDR; and if each block is just the IDR, none was split. -/
theorem laneRun_frames_blocks (hidle : Idle a)
    (horder : es.filter (PendingFrag.on .key) = fs.flatMap (·.frags)) :
    ∃ blocks, (a.laneRun .key es).2.filterMap (Outcome.out? .key) = blocks.flatten ∧
      List.Forall₂ (fun f block => (block.map (·.2.length)).sum ≤ f.out.2.length) fs blocks ∧
      (blocks = fs.map (fun f => [f.out]) →
        Unsplit es) := by
  induction fs generalizing es a with
  | nil =>
    refine ⟨[], by rw [laneRun_idle hidle.1 horder]; rfl, .nil, fun _ => ?_⟩
    exact atInter_of_filter_eq_nil (fun _ => .inl rfl) horder
  | cons f fs ih =>
    rw [flatMap_cons] at horder
    obtain ⟨d, t, rfl, hdata, hend, ht⟩ := segment horder
    obtain ⟨hidle', hsum⟩ := sum_frameOuts_le (hidle.ready f) hdata hend
    obtain ⟨blocks, hflatten, hbound, hwhole⟩ := ih hidle' ht
    refine ⟨frameOuts a d f :: blocks, ?_, .cons hsum hbound, fun heq => ?_⟩
    · rw [laneRun_segment, filterMap_append, hflatten, flatten_cons, frameOuts]
    · obtain ⟨hblock, hblocks⟩ := List.cons.inj heq
      refine (unsplit_segment hdata hend).mpr ⟨?_, hwhole hblocks⟩
      intro pre e post hd hinter
      by_contra hsplit
      obtain ⟨hhere, hcoming⟩ := not_or.mp hsplit
      have hlt := frameOuts_lt_of_split (hidle.ready f) hdata hend hd hinter hhere hcoming
        f.out (by rw [hblock]; exact mem_singleton_self _)
      exact Nat.lt_irrefl _ hlt

/-- As long as every end fragment carries more than its trailer, a cut always has bytes
still to come. -/
theorem quiet_of_tail (htail : ∀ f ∈ fs, f.tail.stripped ≠ [])
    (horder : es.filter (PendingFrag.on .key) = fs.flatMap (·.frags)) (h : Unsplit es) :
    Quiet es := by
  induction fs generalizing es with
  | nil => exact atInter_of_filter_eq_nil (fun _ => rfl) horder
  | cons f fs ih =>
    rw [flatMap_cons] at horder
    obtain ⟨d, t, rfl, hdata, hend, ht⟩ := segment horder
    obtain ⟨hd, ht'⟩ := (unsplit_segment hdata hend).mp h
    refine (quiet_segment hdata hend).mpr ⟨?_, ?_⟩
    · intro pre e post heq hinter
      refine (hd pre e post heq hinter).resolve_right fun hnil => ?_
      exact htail f mem_cons_self (append_eq_nil_iff.mp hnil).2
    · exact ih (fun g hg => htail g (mem_cons_of_mem _ hg)) ht ht'

/-- **If every packet passes for intact, IDRs were cut only at bare end fragments.** -/
theorem cutAtEnd_of_intact (hidle : Idle a)
    (horder : es.filter (PendingFrag.on .key) = fs.flatMap (·.frags))
    (hlong : ∀ f ∈ fs, 5 ≤ f.au.length) (hunsplit : Unsplit es)
    (hintact : ∀ o ∈ (a.laneRun .key es).2, o.out? .key ≠ none → o.Intact) : CutAtEnd es := by
  induction fs generalizing es a with
  | nil => exact atInter_of_filter_eq_nil (fun _ => .inl rfl) horder
  | cons f fs ih =>
    rw [flatMap_cons] at horder
    obtain ⟨d, t, rfl, hdata, hend, ht⟩ := segment horder
    obtain ⟨hd, ht'⟩ := (unsplit_segment hdata hend).mp hunsplit
    obtain ⟨hidle', -⟩ := sum_frameOuts_le (hidle.ready f) hdata hend
    rw [laneRun_segment] at hintact
    have hkeys := keys_after_cut_eq_nil (hidle.ready f) hdata hend
      (hlong f mem_cons_self) hd fun o ho => hintact o (mem_append_left _ ho)
    refine (cutAtEnd_segment hdata hend).mpr ⟨fun pre e post heq hinter => ?_, ?_⟩
    · rcases hd pre e post heq hinter with hhere | hcoming
      · exact .inl hhere
      · refine (hkeys pre e post heq hinter).imp_right fun hpost => ⟨hpost, ?_⟩
        exact (append_eq_nil_iff.mp hcoming).2
    · exact ih hidle' ht (fun g hg => hlong g (mem_cons_of_mem _ hg)) ht'
        fun o ho => hintact o (mem_append_right _ ho)

theorem laneRun_frames_not_split (hidle : Idle a)
    (horder : es.filter (PendingFrag.on .key) = fs.flatMap (·.frags))
    (hlong : ∀ f ∈ fs, 5 ≤ f.au.length)
    (hwhole : Unsplit es) :
    (a.laneRun .key es).2.filterMap (Outcome.out? .key) = fs.map VideoFrame.out := by
  induction fs generalizing es a with
  | nil =>
    rw [laneRun_idle hidle.1 horder]
    rfl
  | cons f fs ih =>
    rw [flatMap_cons] at horder
    obtain ⟨d, t, rfl, hdata, hend, ht⟩ := segment horder
    obtain ⟨hd, ht'⟩ := (unsplit_segment hdata hend).mp hwhole
    obtain ⟨hidle', -⟩ := sum_frameOuts_le (hidle.ready f) hdata hend
    have hframe := frameOuts_eq_of_not_split (hidle.ready f) hdata hend
      (hlong f mem_cons_self) hd
    rw [frameOuts] at hframe
    rw [laneRun_segment, filterMap_append, hframe,
      ih hidle' ht (fun g hg => hlong g (mem_cons_of_mem _ hg)) ht']
    rfl

end

/-! ### Both channels -/

/-- **Complete frames on both channels, in any interleaving**: each channel's fragments
are those of its frames in order. Frame numbers are arbitrary, and audio frames may be
anywhere in the stream. -/
structure Interleaving where
  frames : VideoChannel → List VideoFrame
  stream : List PendingFrag
  channel : ∀ ch, ∀ f ∈ frames ch, f.channel = ch
  long : ∀ ch, ∀ f ∈ frames ch, 5 ≤ f.au.length
  order : ∀ ch, stream.filter (PendingFrag.on ch) = (frames ch).flatMap (·.frags)

/-- Every frame is queued exactly once, with its own bytes, and the frames of one channel
in order. -/
def Interleaving.Assembled (iv : Interleaving) (strict : Bool) : Prop :=
  ∀ ch, ((Assembler.new strict).emitAll iv.stream).framesOut ch =
    (iv.frames ch).map VideoFrame.out

theorem Assembler.framesOut_emitAll_new (strict : Bool) (es : List PendingFrag)
    (ch : VideoChannel) :
    ((Assembler.new strict).emitAll es).framesOut ch =
      ((Assembler.new strict).settleAll (Assembly.zero.run es).2).framesOut ch := by
  rw [Assembler.framesOut, Assembler.log_emitAll_new, Assembler.framesOut]

theorem filterMap_out?_run (es : List PendingFrag) (ch : VideoChannel) :
    (Assembly.zero.run es).2.filterMap (Outcome.out? ch) =
      (ChannelAsm.zero.laneRun ch es).2.filterMap (Outcome.out? ch) := by
  have hzero : Assembly.zero.asm ch = ChannelAsm.zero := by cases ch <;> rfl
  rw [← filterMap_out?_onChannel, (Assembly.zero.run_lane es ch).2, hzero]

namespace Interleaving

variable (iv : Interleaving)

theorem intact_of_quiet (h : Quiet iv.stream) :
    ∀ o ∈ (Assembly.zero.run iv.stream).2, o.Intact := by
  intro o ho
  cases hch : o.channel? with
  | none =>
    cases o with
    | audio e => trivial
    | abandoned | noData | flushed => exact absurd hch (by simp [Outcome.channel?])
    | ended ch frameNum au gapped ts onlineNum =>
      exact absurd hch (by simp [Outcome.channel?])
  | some ch =>
    have hzero : Assembly.zero.asm ch = ChannelAsm.zero := by cases ch <;> rfl
    have hlane : o ∈ (ChannelAsm.zero.laneRun ch iv.stream).2 := by
      rw [← hzero, ← (Assembly.zero.run_lane iv.stream ch).2, mem_filter, Outcome.onChannel, hch]
      exact ⟨ho, beq_self_eq_true _⟩
    rw [laneRun_frames_quiet idle_zero (iv.order ch) (.inr h)] at hlane
    obtain ⟨f, -, rfl⟩ := mem_map.mp hlane
    rfl

theorem filterMap_out?_inter :
    (ChannelAsm.zero.laneRun .inter iv.stream).2.filterMap (Outcome.out? .inter) =
      (iv.frames .inter).map VideoFrame.out := by
  rw [laneRun_frames_quiet idle_zero (iv.order .inter) (.inl rfl), filterMap_map]
  rw [← filterMap_eq_map]
  refine filterMap_congr fun f hf => ?_
  exact if_pos ⟨rfl, iv.long .inter f hf, rfl⟩

theorem filterMap_out?_of_unsplit (h : Unsplit iv.stream) (ch : VideoChannel) :
    (Assembly.zero.run iv.stream).2.filterMap (Outcome.out? ch) =
      (iv.frames ch).map VideoFrame.out := by
  rw [filterMap_out?_run]
  cases ch with
  | key => exact laneRun_frames_not_split idle_zero (iv.order .key) (iv.long .key) h
  | inter => exact iv.filterMap_out?_inter

theorem not_split_of_assembled {strict : Bool} (h : iv.Assembled strict) : Unsplit iv.stream := by
  obtain ⟨blocks, hflatten, hbound, hwhole⟩ :=
    laneRun_frames_blocks idle_zero (iv.order .key)
  obtain ⟨out, hout, hsub⟩ := (Assembler.new strict).framesOut_settleAll_sublist
    (Assembly.zero.run iv.stream).2 .key
  have hqueued : out = (iv.frames .key).map VideoFrame.out := by
    have hkey := h .key
    rw [Assembler.framesOut_emitAll_new, hout] at hkey
    exact hkey
  rw [filterMap_out?_run] at hsub
  have hpos : ∀ x ∈ (ChannelAsm.zero.laneRun .key iv.stream).2.filterMap (Outcome.out? .key),
      0 < x.2.length := fun x hx => Nat.lt_of_lt_of_le (by decide) (five_le_of_mem_out? hx)
  rw [hflatten, hqueued] at hsub
  rw [hflatten] at hpos
  have hall := eq_of_sublist_of_sum_le hsub hpos (sum_flatten_le hbound)
  refine hwhole (blocks_eq_singletons hbound (fun f hf => ?_) hall.symm)
  exact Nat.lt_of_lt_of_le (by decide) (iv.long .key f hf)

/-- **All frames come out whole** exactly if none is split and release shows all of them. -/
theorem assembled_iff {strict : Bool} :
    iv.Assembled strict ↔ Unsplit iv.stream ∧
      (Assembler.new strict).ShowsAll (Assembly.zero.run iv.stream).2 := by
  have hshows : Unsplit iv.stream → (iv.Assembled strict ↔
      (Assembler.new strict).ShowsAll (Assembly.zero.run iv.stream).2) := by
    intro hunsplit
    refine forall_congr' fun ch => ?_
    rw [Assembler.framesOut_emitAll_new, iv.filterMap_out?_of_unsplit hunsplit]
    exact Iff.rfl
  constructor
  · intro h
    have hunsplit := iv.not_split_of_assembled h
    exact ⟨hunsplit, (hshows hunsplit).mp h⟩
  · rintro ⟨hunsplit, h⟩
    exact (hshows hunsplit).mpr h

end Interleaving

end PetlibroLocal
