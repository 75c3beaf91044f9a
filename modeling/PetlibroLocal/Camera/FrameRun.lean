import PetlibroLocal.Camera.VideoFrame
import PetlibroLocal.Lib.Splits
import Mathlib.Algebra.GroupWithZero.Nat
import Mathlib.Algebra.Order.BigOperators.Group.List
import Mathlib.Algebra.Order.Group.Nat

/-!
# One Frame Within the Stream

The fragments of a frame reach its channel with others in between, and a fragment of the
inter channel may make an IDR leave early. This module follows one frame from its first
fragment to its end fragment, whatever happens in between.

The argument is one of counting bytes. Outside its own fragments a channel only loses
bytes to packets (`laneRun_conserves`), so that the packets of one IDR together are no
longer than the IDR; if it was split none of them is as long.
-/

namespace PetlibroLocal

open List ChannelAsm

/-! ### One frame within the stream -/

variable {ch : VideoChannel}

/-- The fragments of a frame, followed by others of the channel, cut the stream after the
end fragment. -/
theorem segment {f : VideoFrame} {es rest : List PendingFrag}
    (h : es.filter (PendingFrag.on ch) = f.frags ++ rest) :
    ∃ d t, es = d ++ f.endFrag :: t ∧ d.filter (PendingFrag.on ch) = f.dataFrags ∧
      f.endFrag.on ch = true ∧ t.filter (PendingFrag.on ch) = rest := by
  rw [VideoFrame.frags, append_assoc, singleton_append] at h
  obtain ⟨d₁, es₁, rfl, hd₁, hes₁⟩ := filter_eq_append_iff.mp h
  obtain ⟨d₂, t, rfl, hd₂, hend, ht⟩ := filter_eq_cons_iff.mp hes₁
  refine ⟨d₁ ++ d₂, t, by rw [append_assoc], ?_, hend, ht⟩
  rw [filter_append, hd₁, filter_eq_nil_iff.mpr hd₂, append_nil]

theorem laneRun_segment (a : ChannelAsm) (d t : List PendingFrag) (f : VideoFrame) :
    (a.laneRun ch (d ++ f.endFrag :: t)).2 = (a.laneRun ch (d ++ [f.endFrag])).2 ++
      ((a.laneRun ch (d ++ [f.endFrag])).1.laneRun ch t).2 := by
  rw [append_cons, laneRun_append]

theorem laneRun_idle {a : ChannelAsm} (hbuf : a.buf = []) {es : List PendingFrag}
    (hnone : es.filter (PendingFrag.on ch) = []) : a.laneRun ch es = (a, []) := by
  induction es with
  | nil => rfl
  | cons e es ih =>
    have hon : e.on ch = false := by
      simpa using filter_eq_nil_iff.mp hnone e mem_cons_self
    rw [filter_cons_of_neg (by simp [hon])] at hnone
    rw [ChannelAsm.laneRun, lane_stay hon fun _ _ => if_neg fun h => h.2 hbuf, ih hnone]
    rfl

section

variable {f : VideoFrame} {a : ChannelAsm} {ds es : List PendingFrag}

/-- No fragment of the inter channel arrives behind bytes of the key channel. -/
def Undisturbed (es : List PendingFrag) : Prop :=
  AtEach (fun pre e _ => e.on .inter = true →
    payloadBytes (pre.filter (PendingFrag.on .key)) = []) es

theorem Undisturbed.of_append {es es' : List PendingFrag} (h : Undisturbed (es ++ es')) :
    Undisturbed es := by
  rintro pre e post rfl
  exact h pre e (post ++ es') (by simp)

/-- **Without an effective cut the data fragments of a frame gather undisturbed.** -/
theorem laneRun_quiet {ch : VideoChannel} (hready : Ready f [] a)
    (hdata : (es.filter (PendingFrag.on ch)).Sublist f.dataFrags)
    (hquiet : ch = .inter ∨ Undisturbed es) :
    Ready f (es.filter (PendingFrag.on ch)) (a.laneRun ch es).1 ∧ (a.laneRun ch es).2 = [] := by
  induction es using List.reverseRecOn with
  | nil => exact ⟨hready, rfl⟩
  | append_singleton es e ih =>
    rw [filter_append] at hdata ⊢
    obtain ⟨hst, hnone⟩ := ih ((sublist_append_left _ _).trans hdata)
      (hquiet.imp_right Undisturbed.of_append)
    rw [laneRun_append, hnone]
    simp only [ChannelAsm.laneRun, nil_append, append_nil]
    cases hon : e.on ch with
    | true =>
      rw [filter_singleton, hon] at hdata ⊢
      rw [lane_of_on hon]
      obtain ⟨hheld, hout⟩ := hst.own_data hdata ch
      exact ⟨.inl hheld, hout⟩
    | false =>
      rw [filter_singleton, hon]
      have hstay : (a.laneRun ch es).1.lane ch e = ((a.laneRun ch es).1, []) := by
        refine lane_stay hon fun hkey hinter => ?_
        subst hkey
        have hempty := (hquiet.resolve_left (by decide)) es e [] rfl hinter
        exact ((hst.cut _).resolve_right fun h => h.1 hempty).2
      rw [hstay]
      exact ⟨by simpa using hst, rfl⟩

/-- The number of payload bytes that release may queue on the key channel. -/
def outBytes (os : List Outcome) : ℕ :=
  ((os.filterMap (Outcome.out? .key)).map (·.2.length)).sum

theorem outBytes_append (os os' : List Outcome) :
    outBytes (os ++ os') = outBytes os + outBytes os' := by
  rw [outBytes, filterMap_append, map_append, sum_append, outBytes, outBytes]

theorem outBytes_cutting_le (f : VideoFrame) (ds : List PendingFrag) (ts : UInt32) :
    outBytes [f.cutting ds ts] ≤ (payloadBytes ds).length := by
  rw [outBytes, VideoFrame.cutting, filterMap_cons, Outcome.out?]
  split_ifs
  · exact Nat.le_of_eq (Nat.add_zero _)
  · exact Nat.zero_le _

theorem outBytes_ending_le (f : VideoFrame) (ds : List PendingFrag) :
    outBytes [f.ending .key ds] ≤ (payloadBytes ds).length + f.tail.stripped.length := by
  rw [outBytes, VideoFrame.ending]
  split_ifs
  · exact Nat.zero_le _
  · rw [filterMap_cons, Outcome.out?, ← length_append]
    split_ifs
    · exact Nat.le_of_eq (Nat.add_zero _)
    · exact Nat.zero_le _

/-- **The bytes of a frame go to its packets at most once**: what was queued and what is
still held are together no more than what came in. -/
theorem laneRun_conserves (hready : Ready f ds a)
    (hsub : (ds ++ es.filter (PendingFrag.on .key)).Sublist f.dataFrags) :
    ∃ ds', Ready f ds' (a.laneRun .key es).1 ∧
      ds' <:+ ds ++ es.filter (PendingFrag.on .key) ∧
      outBytes (a.laneRun .key es).2 + (payloadBytes ds').length ≤
        (payloadBytes (ds ++ es.filter (PendingFrag.on .key))).length := by
  induction es generalizing ds a with
  | nil =>
    rw [filter_nil, append_nil]
    exact ⟨ds, hready, suffix_rfl, Nat.le_of_eq (Nat.zero_add _)⟩
  | cons e es ih =>
    rw [ChannelAsm.laneRun]
    cases hon : e.on .key with
    | true =>
      rw [filter_cons_of_pos hon, append_cons] at hsub ⊢
      obtain ⟨hheld, hout⟩ :=
        hready.own_data ((sublist_append_left _ _).trans hsub) .key
      rw [lane_of_on hon, hout]
      exact ih (.inl hheld) hsub
    | false =>
      have hskip : (e :: es).filter (PendingFrag.on .key) =
          es.filter (PendingFrag.on .key) := filter_cons_of_neg (by simp [hon])
      rw [hskip] at hsub ⊢
      cases hinter : e.on .inter with
      | false =>
        rw [lane_of_not_on hon (.inr hinter)]
        exact ih hready hsub
      | true =>
        rw [lane_key_of_on_inter hinter]
        obtain ⟨-, hcut⟩ | ⟨-, hcut⟩ :=
          hready.cut (stripFragmentMetadataTrailer e.payload).ts
        · rw [hcut]
          exact ih hready hsub
        · rw [hcut]
          -- the bytes held so far leave in one packet, and the frame begins anew
          obtain ⟨ds', hready', hsuffix, hle⟩ := ih ((idle_reset a).ready f)
            ((sublist_append_right _ _).trans hsub)
          refine ⟨ds', hready', hsuffix.trans (suffix_append _ _), ?_⟩
          have hflush := outBytes_cutting_le f ds
            (stripFragmentMetadataTrailer e.payload).ts
          rw [nil_append] at hle
          simp only [outBytes_append, payloadBytes_append, length_append]
          omega

end

/-! ### The packets of one frame -/

section

variable {f : VideoFrame} {a : ChannelAsm} {d : List PendingFrag}

variable {ch : VideoChannel} {e : PendingFrag} {os : List Outcome} {pre post : List PendingFrag}

/-- Ending a frame after its data fragments, however they were disturbed: the channel is
free again and the outcome is that of the fragments it still holds. -/
theorem laneRun_concat_endFrag (hend : f.endFrag.on ch = true) {ds : List PendingFrag}
    (hready : Ready f ds (a.laneRun ch d).1) :
    Idle (a.laneRun ch (d ++ [f.endFrag])).1 ∧
      (a.laneRun ch (d ++ [f.endFrag])).2 = (a.laneRun ch d).2 ++ [f.ending ch ds] := by
  obtain ⟨hidle, hout⟩ := hready.own_end ch
  rw [laneRun_append]
  simp only [ChannelAsm.laneRun, lane_of_on hend, hout, append_nil]
  exact ⟨hidle, trivial⟩

/-- **A frame no cut gets in the way of ends whole.** -/
theorem laneRun_frame_quiet (hready : Ready f [] a)
    (hdata : d.filter (PendingFrag.on ch) = f.dataFrags) (hend : f.endFrag.on ch = true)
    (hquiet : ch = .inter ∨ Undisturbed d) :
    Idle (a.laneRun ch (d ++ [f.endFrag])).1 ∧
      (a.laneRun ch (d ++ [f.endFrag])).2 =
        [.ended ch f.frameNum f.au false f.tail.ts f.tail.onlineNum] := by
  obtain ⟨hready', hnone⟩ := laneRun_quiet hready (hdata ▸ List.Sublist.refl _) hquiet
  obtain ⟨hidle, hout⟩ := laneRun_concat_endFrag hend (hdata ▸ hready')
  rw [hout, hnone, f.ending_dataFrags]
  exact ⟨hidle, rfl⟩

theorem filter_key_split (hinter : e.on .inter = true) (pre post : List PendingFrag) :
    (pre ++ e :: post).filter (PendingFrag.on .key) =
      pre.filter (PendingFrag.on .key) ++ post.filter (PendingFrag.on .key) := by
  have hkey : e.on .key = false := PendingFrag.on_of_ne hinter (by decide)
  rw [filter_append, filter_cons_of_neg (by simp [hkey])]

/-- What the key channel may queue of a frame. -/
def frameOuts (a : ChannelAsm) (d : List PendingFrag) (f : VideoFrame) :
    List (UInt32 × Bytes) :=
  (a.laneRun .key (d ++ [f.endFrag])).2.filterMap (Outcome.out? .key)

theorem sum_frameOuts_le (hready : Ready f [] a)
    (hdata : d.filter (PendingFrag.on .key) = f.dataFrags) (hend : f.endFrag.on .key = true) :
    Idle (a.laneRun .key (d ++ [f.endFrag])).1 ∧
      ((frameOuts a d f).map (·.2.length)).sum ≤ f.au.length := by
  have hsub : ([] ++ d.filter (PendingFrag.on .key)).Sublist f.dataFrags := by
    rw [hdata]
    exact List.Sublist.refl _
  obtain ⟨ds, hready', -, hle⟩ := laneRun_conserves hready hsub
  obtain ⟨hidle, hout⟩ := laneRun_concat_endFrag hend hready'
  refine ⟨hidle, ?_⟩
  have hlast := outBytes_ending_le f ds
  rw [frameOuts, hout, length_au]
  change outBytes (_ ++ _) ≤ _
  rw [outBytes_append]
  rw [nil_append, hdata] at hle
  omega

theorem length_le_outBytes {x : UInt32 × Bytes} (hx : x ∈ os.filterMap (Outcome.out? .key)) :
    x.2.length ≤ outBytes os :=
  single_le_sum (fun _ _ => Nat.zero_le _) _ (mem_map_of_mem hx)

/-- **An IDR that is cut with bytes on both sides yields only shorter packets.** -/
theorem frameOuts_lt_of_split (hready : Ready f [] a)
    (hdata : d.filter (PendingFrag.on .key) = f.dataFrags) (hend : f.endFrag.on .key = true)
    (hd : d = pre ++ e :: post) (hinter : e.on .inter = true)
    (hhere : payloadBytes (pre.filter (PendingFrag.on .key)) ≠ [])
    (hcoming : payloadBytes (post.filter (PendingFrag.on .key)) ++ f.tail.stripped ≠ []) :
    ∀ x ∈ frameOuts a d f, x.2.length < f.au.length := by
  have hkeys : f.dataFrags =
      pre.filter (PendingFrag.on .key) ++ post.filter (PendingFrag.on .key) := by
    rw [← hdata, hd, filter_key_split hinter]
  have hau := length_au f
  rw [hkeys, payloadBytes_append, length_append] at hau
  have hhere' := length_pos_iff.mpr hhere
  have hcoming' := length_pos_iff.mpr hcoming
  rw [length_append] at hcoming'
  -- before the cut, at the cut and after it
  have hsub₁ : ([] ++ pre.filter (PendingFrag.on .key)).Sublist f.dataFrags := by
    rw [hkeys]
    exact sublist_append_left _ _
  obtain ⟨ds₁, hready₁, hsuffix₁, hle₁⟩ := laneRun_conserves hready hsub₁
  rw [nil_append] at hle₁
  obtain ⟨ds₂, hready₂, hsub₂, hnil₂, hle₂⟩ : ∃ ds₂,
      Ready f ds₂ ((a.laneRun .key pre).1.lane .key e).1 ∧
      (ds₂ ++ post.filter (PendingFrag.on .key)).Sublist f.dataFrags ∧
      payloadBytes ds₂ = [] ∧
      outBytes ((a.laneRun .key pre).1.lane .key e).2 ≤ (payloadBytes ds₁).length := by
    rw [lane_key_of_on_inter hinter]
    obtain ⟨hnil, hcut⟩ | ⟨-, hcut⟩ := hready₁.cut (stripFragmentMetadataTrailer e.payload).ts
    · rw [hcut]
      refine ⟨ds₁, hready₁, ?_, hnil, Nat.zero_le _⟩
      rw [hkeys]
      exact hsuffix₁.sublist.append_right _
    · rw [hcut]
      refine ⟨[], (idle_reset _).ready f, ?_, rfl, outBytes_cutting_le f ds₁ _⟩
      rw [hkeys]
      exact sublist_append_right _ _
  obtain ⟨ds₃, hready₃, -, hle₃⟩ := laneRun_conserves hready₂ hsub₂
  rw [payloadBytes_append, hnil₂, nil_append] at hle₃
  have hrun : (a.laneRun .key d).1 =
      (((a.laneRun .key pre).1.lane .key e).1.laneRun .key post).1 := by
    rw [hd, laneRun_append]
    rfl
  have houts : (a.laneRun .key d).2 = (a.laneRun .key pre).2 ++
      (((a.laneRun .key pre).1.lane .key e).2 ++
        (((a.laneRun .key pre).1.lane .key e).1.laneRun .key post).2) := by
    rw [hd, laneRun_append]
    rfl
  obtain ⟨-, hout⟩ := laneRun_concat_endFrag hend (hrun ▸ hready₃)
  have hle₄ := outBytes_ending_le f ds₃
  intro x hx
  rw [frameOuts, hout, houts] at hx
  simp only [filterMap_append, mem_append] at hx
  rcases hx with (hx | hx | hx) | hx
  · have := length_le_outBytes hx
    omega
  · have := length_le_outBytes hx
    omega
  · have := length_le_outBytes hx
    omega
  · have := length_le_outBytes hx
    omega

theorem five_le_of_mem_out? {x : UInt32 × Bytes} (hx : x ∈ os.filterMap (Outcome.out? ch)) :
    5 ≤ x.2.length := by
  obtain ⟨o, -, ho⟩ := mem_filterMap.mp hx
  cases o with
  | ended ch' frameNum au gapped ts onlineNum =>
    rw [Outcome.out?] at ho
    split_ifs at ho with hlong
    cases ho
    exact hlong.2.1
  | flushed frameNum au lossy ts =>
    rw [Outcome.out?] at ho
    split_ifs at ho with hlong
    cases ho
    exact hlong.2
  | audio | abandoned | noData => exact absurd ho (by simp [Outcome.out?])

theorem filterMap_out?_eq_nil (h : outBytes os = 0) : os.filterMap (Outcome.out? .key) = [] := by
  refine eq_nil_iff_forall_not_mem.mpr fun x hx => ?_
  have hlong := five_le_of_mem_out? hx
  have hle := length_le_outBytes hx
  omega

/-- **The first effective cut** takes all the bytes so far, and what comes behind it is
assembled from an empty channel. -/
theorem laneRun_first_cut (hready : Ready f [] a)
    (hdata : d.filter (PendingFrag.on .key) = f.dataFrags) (hd : d = pre ++ e :: post)
    (hinter : e.on .inter = true) (hhere : payloadBytes (pre.filter (PendingFrag.on .key)) ≠ [])
    (hquiet : Undisturbed pre) :
    ∃ ds ts os, Ready f ds (a.laneRun .key d).1 ∧ ds <:+ post.filter (PendingFrag.on .key) ∧
      (a.laneRun .key d).2 = f.cutting (pre.filter (PendingFrag.on .key)) ts :: os ∧
      outBytes os + (payloadBytes ds).length ≤
        (payloadBytes (post.filter (PendingFrag.on .key))).length := by
  have hkeys : f.dataFrags =
      pre.filter (PendingFrag.on .key) ++ post.filter (PendingFrag.on .key) := by
    rw [← hdata, hd, filter_key_split hinter]
  have hsub₁ : (pre.filter (PendingFrag.on .key)).Sublist f.dataFrags :=
    hkeys ▸ sublist_append_left _ _
  obtain ⟨hready₁, hnone₁⟩ := laneRun_quiet hready hsub₁ (.inr hquiet)
  have hlane : (a.laneRun .key pre).1.lane .key e = ((a.laneRun .key pre).1.reset,
      [f.cutting (pre.filter (PendingFrag.on .key))
        (stripFragmentMetadataTrailer e.payload).ts]) := by
    rw [lane_key_of_on_inter hinter]
    exact ((hready₁.cut _).resolve_left fun h => hhere h.1).2
  have hsub₂ : ([] ++ post.filter (PendingFrag.on .key)).Sublist f.dataFrags := by
    rw [hkeys]
    exact sublist_append_right _ _
  obtain ⟨ds, hready₂, hsuffix, hle⟩ :=
    laneRun_conserves ((idle_reset (a.laneRun .key pre).1).ready f) hsub₂
  have hrun : a.laneRun .key d =
      (((a.laneRun .key pre).1.reset.laneRun .key post).1,
        f.cutting (pre.filter (PendingFrag.on .key))
          (stripFragmentMetadataTrailer e.payload).ts ::
            ((a.laneRun .key pre).1.reset.laneRun .key post).2) := by
    rw [hd, laneRun_append, hnone₁, ChannelAsm.laneRun, hlane]
    rfl
  rw [hrun]
  exact ⟨ds, _, _, hready₂, hsuffix, rfl, hle⟩

/-- No fragment of the inter channel arrives both behind and before bytes of the frame. -/
def UnsplitIn (f : VideoFrame) (d : List PendingFrag) : Prop :=
  AtEach (fun pre e post => e.on .inter = true →
    payloadBytes (pre.filter (PendingFrag.on .key)) = [] ∨
      payloadBytes (post.filter (PendingFrag.on .key)) ++ f.tail.stripped = []) d

theorem au_of_cut (hdata : d.filter (PendingFrag.on .key) = f.dataFrags) (hd : d = pre ++ e :: post)
    (hinter : e.on .inter = true)
    (hcoming : payloadBytes (post.filter (PendingFrag.on .key)) ++ f.tail.stripped = []) :
    payloadBytes (pre.filter (PendingFrag.on .key)) = f.au := by
  obtain ⟨hpost, htail⟩ := append_eq_nil_iff.mp hcoming
  have hkeys : f.data.flatten = payloadBytes (pre.filter (PendingFrag.on .key)) ++
      payloadBytes (post.filter (PendingFrag.on .key)) := by
    rw [← f.payload_dataFrags, ← hdata, hd, filter_key_split hinter]
    exact payloadBytes_append _ _
  rw [VideoFrame.au, hkeys, hpost, htail, append_nil, append_nil]

/-- **An IDR that is never cut with bytes on both sides comes out whole, once.** -/
theorem frameOuts_eq_of_not_split (hready : Ready f [] a)
    (hdata : d.filter (PendingFrag.on .key) = f.dataFrags) (hend : f.endFrag.on .key = true)
    (hlong : 5 ≤ f.au.length)
    (hwhole : UnsplitIn f d) :
    frameOuts a d f = [(f.frameNum, f.au)] := by
  obtain hquiet | ⟨pre, e, post, hd, hcut, hquiet⟩ := atEach_or_first
    (fun pre e => e.on .inter = true → payloadBytes (pre.filter (PendingFrag.on .key)) = []) d
  · obtain ⟨-, hout⟩ := laneRun_frame_quiet hready hdata hend (.inr hquiet)
    rw [frameOuts, hout, filterMap_cons, Outcome.out?, if_pos ⟨rfl, hlong, rfl⟩]
    rfl
  -- the first effective cut takes all the bytes of the frame
  obtain ⟨hinter, hhere⟩ := Classical.not_imp.mp hcut
  have hcoming := (hwhole pre e post hd hinter).resolve_left hhere
  obtain ⟨hpost, htail⟩ := append_eq_nil_iff.mp hcoming
  have hau := au_of_cut hdata hd hinter hcoming
  obtain ⟨ds, ts, os, hreadyd, -, hrun, hle⟩ :=
    laneRun_first_cut hready hdata hd hinter hhere hquiet
  -- and nothing is left for a second packet
  rw [hpost, length_nil] at hle
  obtain ⟨-, hout⟩ := laneRun_concat_endFrag hend hreadyd
  have hlast := outBytes_ending_le f ds
  rw [htail, length_nil] at hlast
  rw [frameOuts, hout, hrun, filterMap_append, filterMap_cons,
    filterMap_out?_eq_nil (by omega : outBytes os = 0),
    filterMap_out?_eq_nil (by omega : outBytes [f.ending .key ds] = 0),
    VideoFrame.cutting, hau, Outcome.out?, if_pos ⟨rfl, hlong⟩]
  rfl

/-- **If every packet of an IDR passes for intact, it was cut only after its last data
fragment.** -/
theorem keys_after_cut_eq_nil (hready : Ready f [] a)
    (hdata : d.filter (PendingFrag.on .key) = f.dataFrags) (hend : f.endFrag.on .key = true)
    (hlong : 5 ≤ f.au.length)
    (hwhole : UnsplitIn f d)
    (hintact : ∀ o ∈ (a.laneRun .key (d ++ [f.endFrag])).2, o.out? .key ≠ none → o.Intact) :
    AtEach (fun pre e post => e.on .inter = true →
      payloadBytes (pre.filter (PendingFrag.on .key)) = [] ∨
        post.filter (PendingFrag.on .key) = []) d := by
  obtain hquiet | ⟨pre, e, post, hd, hcut, hquiet⟩ := atEach_or_first
    (fun pre e => e.on .inter = true → payloadBytes (pre.filter (PendingFrag.on .key)) = []) d
  · intro pre e post hd hinter
    exact .inl (hquiet pre e post hd hinter)
  obtain ⟨hinter, hhere⟩ := Classical.not_imp.mp hcut
  have hau := au_of_cut hdata hd hinter ((hwhole pre e post hd hinter).resolve_left hhere)
  obtain ⟨ds, ts, os, hreadyd, -, hrun, -⟩ :=
    laneRun_first_cut hready hdata hd hinter hhere hquiet
  obtain ⟨-, hout⟩ := laneRun_concat_endFrag hend hreadyd
  -- the packet of the first cut holds all the bytes, so it counted all data fragments
  have hfull : f.data.length ≤ (pre.filter (PendingFrag.on .key)).length := by
    refine Nat.le_of_not_lt (of_decide_eq_false ?_)
    refine hintact (f.cutting (pre.filter (PendingFrag.on .key)) ts) ?_ ?_
    · rw [hout, hrun]
      exact mem_cons_self
    · rw [VideoFrame.cutting, hau, Outcome.out?, if_pos ⟨rfl, hlong⟩]
      exact Option.some_ne_none _
  have hpost : post.filter (PendingFrag.on .key) = [] := by
    have hlen := congrArg List.length hdata
    rw [hd, filter_key_split hinter, length_append, f.length_dataFrags] at hlen
    exact length_eq_zero_iff.mp (by omega)
  rw [hd]
  refine atEach_append.mpr ⟨fun pre' e' post' hpre hinter' => ?_,
    atEach_cons.mpr ⟨fun _ => .inr hpost, fun pre' e' post' heq hinter' => ?_⟩⟩
  · exact .inl (hquiet pre' e' post' hpre hinter')
  · rw [heq, filter_key_split hinter'] at hpost
    exact .inr (append_eq_nil_iff.mp hpost).2

end

end PetlibroLocal
