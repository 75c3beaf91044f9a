import PetlibroLocal.Camera.LossyFrames
import Mathlib.Data.List.Chain

/-!
# Inter Frames Under Loss

Outside strict mode a damaged inter frame is discarded and the others are shown. A frame is
told from the one before it by its frame number alone: what is left of a frame without its
end fragment stays in the assembly until a fragment with another number arrives. So two
frames that follow each other in what arrives may share a number only if the first one was
ended.

The main results are `laneRun_inter_received` and `inter_frames_intact`.
-/

namespace PetlibroLocal

open List

/-- Something of the frame arrives on the inter channel. -/
def Received.onInter (r : Received) : Bool := decide (r.frame.channel = .inter ∧ r.kept ≠ [])

/-- **A frame left without its end fragment can be told from the next one**: they have
different frame numbers. -/
def ToldApart (rs : List Received) : Prop :=
  (rs.filter Received.onInter).IsChain fun r r' =>
    r.ended = false → r.frame.frameNum ≠ r'.frame.frameNum

instance (rs : List Received) : Decidable (ToldApart rs) :=
  inferInstanceAs (Decidable (List.IsChain _ _))

/-- A complete inter frame that is long enough to be an access unit. -/
def Received.shown (r : Received) : Bool :=
  decide (r.frame.channel = .inter ∧ r.Complete ∧ 5 ≤ r.frame.au.length)

/-- The channel holds nothing, or a frame that the fragments of `f` are told from. -/
def Away (f : VideoFrame) (a : ChannelAsm) : Prop :=
  Idle a ∨ (a.framePending = true ∧ a.curFrameNum ≠ f.frameNum)

section

variable {f : VideoFrame} {a : ChannelAsm} {e : PendingFrag}

theorem Away.jump_inter (h : Away f a) (he : e ∈ f.frags) :
    Free f (a.jump .inter e).1 ∧ (a.jump .inter e).2.filterMap (Outcome.out? .inter) = [] := by
  obtain ⟨-, -, hnum, -⟩ := f.of_mem_frags he
  rw [ChannelAsm.jump]
  split_ifs with hjump
  · exact ⟨(idle_reset a).free f, rfl⟩
  · refine ⟨?_, rfl⟩
    obtain hidle | ⟨hpending, hother⟩ := h
    · exact hidle.free f
    · have hbuf : a.buf = [] := by
        simpa [hpending, hnum, Ne.symm hother] using hjump
      exact ⟨hbuf, .inr hother⟩

theorem Away.laneRun (h : Away f a) (he : e ∈ f.frags) (hon : e.on .inter = true)
    (es : List PendingFrag) :
    ∃ a', Free f a' ∧ (a.laneRun .inter (e :: es)).1 = (a'.laneRun .inter (e :: es)).1 ∧
      (a.laneRun .inter (e :: es)).2.filterMap (Outcome.out? .inter) =
        (a'.laneRun .inter (e :: es)).2.filterMap (Outcome.out? .inter) := by
  obtain ⟨hfree, hnone⟩ := h.jump_inter he
  refine ⟨_, hfree, ?_⟩
  have hown : a.own .inter e = (((a.jump .inter e).1.own .inter e).1,
      (a.jump .inter e).2 ++ ((a.jump .inter e).1.own .inter e).2) := by
    simp only [ChannelAsm.own, hfree.ready.jump he, nil_append]
  simp only [ChannelAsm.laneRun, ChannelAsm.lane_of_on hon, hown, filterMap_append, hnone,
    nil_append, and_self]

theorem out?_ending (r : Received) (hinter : r.frame.channel = .inter)
    (hended : r.ended = true) :
    ((r.frame.ending .inter r.data).out? .inter).toList =
      if r.shown then [r.frame.out] else [] := by
  by_cases hall : r.data = r.frame.dataFrags
  · have hshown : r.shown = decide (5 ≤ r.frame.au.length) := by
      simp [Received.shown, Received.Complete, hinter, hall, hended]
    rw [hall, r.frame.ending_dataFrags, hshown]
    simp only [Outcome.out?, Bool.false_and, and_true, true_and, decide_eq_true_eq]
    split_ifs <;> rfl
  · have hshown : r.shown = false := decide_eq_false fun h => hall h.2.1.1
    rw [VideoFrame.ending, decide_eq_true (r.length_lt hall), hshown]
    split_ifs <;> simp_all [Outcome.out?]

/-- **One inter frame**: it comes out if it is complete, and otherwise leaves at most some of
its own data fragments behind. -/
theorem laneRun_inter_kept {r : Received} (hinter : r.frame.channel = .inter)
    (hkept : r.kept ≠ []) (haway : Away r.frame a) :
    (r.ended = true → Idle (a.laneRun .inter r.kept).1) ∧
      (r.ended = false → Partial r.frame r.data (a.laneRun .inter r.kept).1) ∧
      (a.laneRun .inter r.kept).2.filterMap (Outcome.out? .inter) =
        if r.shown then [r.frame.out] else [] := by
  have hon : ∀ e ∈ r.kept, e.on .inter = true := fun e he =>
    hinter ▸ Received.on_of_mem_kept he
  obtain ⟨a', hfree, hstate, hout⟩ : ∃ a', Free r.frame a' ∧
      (a.laneRun .inter r.kept).1 = (a'.laneRun .inter r.kept).1 ∧
      (a.laneRun .inter r.kept).2.filterMap (Outcome.out? .inter) =
        (a'.laneRun .inter r.kept).2.filterMap (Outcome.out? .inter) := by
    obtain ⟨e, es, heq⟩ := exists_cons_of_ne_nil hkept
    have hmem : e ∈ r.kept := heq ▸ mem_cons_self
    rw [heq]
    exact haway.laneRun (r.kept_sublist.subset hmem) (hon e hmem) es
  have hself : r.data.filter (PendingFrag.on .inter) = r.data :=
    filter_eq_self.mpr fun e he => hon e (mem_append_left _ he)
  have hsub : (r.data.filter (PendingFrag.on .inter)).Sublist r.frame.dataFrags :=
    hself.symm ▸ r.sub
  have hdata := laneRun_quiet hfree.ready hsub (.inl rfl)
  rw [hself] at hdata
  rw [hstate, hout]
  cases hended : r.ended with
  | true =>
    have hend : r.frame.endFrag.on .inter = true :=
      hinter ▸ r.frame.on_of_mem_frags r.frame.endFrag_mem_frags
    obtain ⟨hidle, hrun⟩ := laneRun_concat_endFrag hend hdata.1
    rw [Received.kept, if_pos hended, hrun, hdata.2, ← out?_ending r hinter hended]
    refine ⟨fun _ => hidle, fun h => absurd h.symm Bool.false_ne_true, ?_⟩
    rw [nil_append, filterMap_out?_cons]
    exact append_nil _
  | false =>
    have hkeeps : r.kept = r.data := by
      rw [Received.kept, hended, if_neg Bool.false_ne_true, append_nil]
    have hshown : r.shown = false := decide_eq_false fun h =>
      Bool.false_ne_true (hended.symm.trans h.2.1.2)
    rw [hkeeps, hdata.2, hshown]
    refine ⟨fun h => absurd h Bool.false_ne_true, fun _ => ?_, rfl⟩
    exact hdata.1.resolve_right fun h => hkept (hkeeps.trans h.1)

theorem away_after_kept {r r' : Received} (hinter : r.frame.channel = .inter)
    (hkept : r.kept ≠ []) (haway : Away r.frame a)
    (htold : r.ended = false → r.frame.frameNum ≠ r'.frame.frameNum) :
    Away r'.frame (a.laneRun .inter r.kept).1 := by
  obtain ⟨hidle, hpartial, -⟩ := laneRun_inter_kept hinter hkept haway
  cases hended : r.ended with
  | true => exact .inl (hidle hended)
  | false =>
    have hheld := hpartial hended
    exact .inr ⟨hheld.framePending, hheld.curFrameNum ▸ htold hended⟩

theorem laneRun_inter_stay (a : ChannelAsm) {es : List PendingFrag}
    (h : ∀ e ∈ es, e.on .inter = false) : a.laneRun .inter es = (a, []) := by
  induction es with
  | nil => rfl
  | cons e es ih =>
    have hon := h e mem_cons_self
    rw [ChannelAsm.laneRun, ChannelAsm.lane_of_not_on hon (.inl rfl),
      ih fun e' he' => h e' (mem_cons_of_mem _ he')]
    rfl

theorem laneRun_inter_bystander {r : Received} (h : r.onInter = false) (a : ChannelAsm) :
    a.laneRun .inter r.kept = (a, []) ∧ r.shown = false := by
  have hnot : ¬ (r.frame.channel = .inter ∧ r.kept ≠ []) := of_decide_eq_false h
  constructor
  · refine laneRun_inter_stay a fun e he => ?_
    refine PendingFrag.on_of_ne (Received.on_of_mem_kept he) fun hinter => ?_
    exact hnot ⟨hinter, ne_nil_of_mem he⟩
  · refine decide_eq_false fun hshown => hnot ⟨hshown.1, ?_⟩
    rw [Received.kept, if_pos hshown.2.1.2]
    exact append_ne_nil_of_right_ne_nil _ (cons_ne_nil _ _)

/-- **The inter channel lets go of exactly the complete frames**, in order. -/
theorem laneRun_inter_received {rs : List Received} (htold : ToldApart rs)
    (haway : ∀ r ∈ (rs.filter Received.onInter).head?, Away r.frame a) :
    (a.laneRun .inter (rs.flatMap (·.kept))).2.filterMap (Outcome.out? .inter) =
      (rs.filter Received.shown).map (·.frame.out) := by
  induction rs generalizing a with
  | nil => rfl
  | cons r rs ih =>
    rw [flatMap_cons, ChannelAsm.laneRun_append, filterMap_append]
    cases hon : r.onInter with
    | false =>
      obtain ⟨hrun, hshown⟩ := laneRun_inter_bystander hon a
      rw [ToldApart, filter_cons_of_neg (by simp [hon])] at htold
      rw [filter_cons_of_neg (by simp [hon])] at haway
      rw [hrun, filter_cons_of_neg (by simp [hshown])]
      exact ih htold haway
    | true =>
      obtain ⟨hinter, hkept⟩ := of_decide_eq_true hon
      rw [ToldApart, filter_cons_of_pos hon, isChain_cons] at htold
      rw [filter_cons_of_pos hon] at haway
      have hr := haway r rfl
      rw [(laneRun_inter_kept hinter hkept hr).2.2, ih htold.2 fun r' hr' =>
        away_after_kept hinter hkept hr (htold.1 r' hr')]
      cases hshown : r.shown with
      | true => rw [filter_cons_of_pos hshown]; rfl
      | false => rw [filter_cons_of_neg (by simp [hshown])]; rfl

end

/-- **Outside strict mode exactly the complete inter frames are queued**, in order and with
all their bytes, as long as a frame left without its end fragment can be told from the
next. Any subsequence of the frames' fragments may arrive. -/
theorem inter_frames_intact {fs : List VideoFrame} {es : List PendingFrag}
    (harrived : es.Sublist (fs.flatMap (·.frags))) :
    (∃ rs : List Received, rs.map (·.frame) = fs ∧ rs.flatMap (·.kept) = es) ∧
      ∀ rs : List Received, rs.map (·.frame) = fs → rs.flatMap (·.kept) = es → ToldApart rs →
        ((Assembler.new false).emitAll es).framesOut .inter =
          (rs.filter Received.shown).map (·.frame.out) := by
  refine ⟨sublist_frags_iff.mp harrived, ?_⟩
  rintro rs - rfl h
  have hshows : (Assembler.new false).ShowsAll (Assembly.zero.run (rs.flatMap (·.kept))).2 :=
    Assembler.showsAll_of_intact (.inl rfl)
  rw [Assembler.framesOut, Assembler.log_emitAll_new]
  refine (hshows .inter).trans ?_
  rw [← filterMap_out?_onChannel, (Assembly.zero.run_lane _ .inter).2]
  exact laneRun_inter_received h fun r _ => .inl idle_zero

/-- An inter frame of two fragments with the given number and last byte. -/
def twoPartInter (frameNum : UInt32) (byte : UInt8) : VideoFrame where
  channel := .inter
  frameNum := frameNum
  data := [[0, 0, 0, 1, 0x41, byte]]
  last := byte :: metadataTrailer 0 60
  endIdx := 1
  position := id
  length_le := Nat.le_of_ble_eq_true rfl
  plain p hp := by
    obtain rfl := mem_singleton.mp hp
    rfl
  closing := rfl

/-- The first frame loses its end fragment, the second its data fragment, the third
arrives whole. -/
def damagedInters : List Received :=
  [⟨twoPartInter 7 1, (twoPartInter 7 1).dataFrags, false, List.Sublist.refl _⟩,
    ⟨twoPartInter 8 2, [], true, nil_sublist _⟩,
    ⟨twoPartInter 9 3, (twoPartInter 9 3).dataFrags, true, List.Sublist.refl _⟩]

/-- Of `damagedInters` only the last frame is queued. -/
theorem inter_frames_intact_damagedInters :
    ToldApart damagedInters ∧
      ((Assembler.new false).emitAll (damagedInters.flatMap (·.kept))).framesOut .inter =
        [(twoPartInter 9 3).out] :=
  ⟨by decide, (inter_frames_intact (sublist_frags_iff.mpr ⟨damagedInters, rfl, rfl⟩)).2
    damagedInters rfl rfl (by decide)⟩

/-- Two frames with the same number: the first loses its end fragment, the second its data
fragment. The frame between them is lost altogether. -/
def recurringInters : List Received :=
  [⟨twoPartInter 7 1, (twoPartInter 7 1).dataFrags, false, List.Sublist.refl _⟩,
    ⟨twoPartInter 8 2, [], false, nil_sublist _⟩, ⟨twoPartInter 7 3, [], true, nil_sublist _⟩]

/-- **A recurring frame number mixes two frames**: consecutive frames have different
numbers, and a packet is queued that is the access unit of none of them. -/
theorem recurring_number_mixes_inter_frames :
    recurringInters.IsChain (fun r r' => r.frame.frameNum ≠ r'.frame.frameNum) ∧
      ((Assembler.new false).emitAll (recurringInters.flatMap (·.kept))).framesOut .inter =
        [(7, [0, 0, 0, 1, 0x41, 1, 3])] ∧
      ∀ r ∈ recurringInters, r.frame.au ≠ [0, 0, 0, 1, 0x41, 1, 3] := by
  refine ⟨by decide, by decide, by decide⟩

end PetlibroLocal
