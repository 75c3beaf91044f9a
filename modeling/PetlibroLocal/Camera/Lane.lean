import PetlibroLocal.Camera.Release

/-!
# One Channel at a Time

The two video channels meet in a single place: a fragment of the inter channel makes a
pending IDR leave (`ChannelAsm.cut`). Apart from that a channel reads only its own
fragments. A lane is what one channel makes of the whole stream, and the outcomes of a
run are, channel by channel, those of its two lanes.
-/

namespace PetlibroLocal

open List

/-! ### Lanes -/

/-- A channel and one of its own fragments. -/
def ChannelAsm.own (a : ChannelAsm) (ch : VideoChannel) (e : PendingFrag) :
    ChannelAsm × List Outcome :=
  let j := a.jump ch e
  let t := j.1.take ch e
  (t.1, j.2 ++ t.2)

/-- A channel and a fragment of the other one, which only the key channel notices. -/
def ChannelAsm.other (a : ChannelAsm) (ch : VideoChannel) (e : PendingFrag) :
    ChannelAsm × List Outcome :=
  match ch with
  | .key => a.cut (stripFragmentMetadataTrailer e.payload).ts
  | .inter => (a, [])

/-- What a channel makes of a fragment. -/
def ChannelAsm.lane (ch : VideoChannel) (a : ChannelAsm) (e : PendingFrag) :
    ChannelAsm × List Outcome :=
  if e.isAudio then (a, [])
  else
    match VideoChannel.ofByte e.channel with
    | some ch' => if ch' = ch then a.own ch e else a.other ch e
    | none => (a, [])

/-- What a channel makes of a sequence of fragments. -/
def ChannelAsm.laneRun (ch : VideoChannel) :
    ChannelAsm → List PendingFrag → ChannelAsm × List Outcome
  | a, [] => (a, [])
  | a, e :: es =>
    ((laneRun ch (a.lane ch e).1 es).1, (a.lane ch e).2 ++ (laneRun ch (a.lane ch e).1 es).2)

theorem ChannelAsm.laneRun_append (ch : VideoChannel) (a : ChannelAsm)
    (es es' : List PendingFrag) :
    a.laneRun ch (es ++ es') =
      (((a.laneRun ch es).1.laneRun ch es').1,
        (a.laneRun ch es).2 ++ ((a.laneRun ch es).1.laneRun ch es').2) := by
  induction es generalizing a with
  | nil => rfl
  | cons e es ih =>
    simp only [cons_append, ChannelAsm.laneRun, ih, append_assoc]

/-- A video fragment of the channel. -/
def PendingFrag.on (ch : VideoChannel) (e : PendingFrag) : Bool :=
  !e.isAudio && e.channel == ch.byte

variable {ch : VideoChannel} {e : PendingFrag}

theorem PendingFrag.on_iff : e.on ch = true ↔ e.isAudio = false ∧ e.channel = ch.byte := by
  rw [PendingFrag.on, Bool.and_eq_true, Bool.not_eq_true', beq_iff_eq]

theorem PendingFrag.on_of_ne {ch' : VideoChannel} (h : e.on ch = true) (hne : ch ≠ ch') :
    e.on ch' = false := by
  rw [← Bool.not_eq_true]
  intro h'
  exact hne (VideoChannel.byte_inj.mp
    ((PendingFrag.on_iff.mp h).2.symm.trans (PendingFrag.on_iff.mp h').2))

theorem ChannelAsm.lane_of_on (h : e.on ch = true) (a : ChannelAsm) : a.lane ch e = a.own ch e := by
  obtain ⟨haudio, hbyte⟩ := PendingFrag.on_iff.mp h
  rw [ChannelAsm.lane, haudio, hbyte, VideoChannel.ofByte_byte]
  simp only [Bool.false_eq_true, if_false, if_true]

theorem ChannelAsm.lane_key_of_on_inter (h : e.on .inter = true) (a : ChannelAsm) :
    a.lane .key e = a.cut (stripFragmentMetadataTrailer e.payload).ts := by
  obtain ⟨haudio, hbyte⟩ := PendingFrag.on_iff.mp h
  rw [ChannelAsm.lane, haudio, hbyte, VideoChannel.ofByte_byte]
  rfl

theorem ChannelAsm.lane_of_not_on (h : e.on ch = false) (hinter : ch = .inter ∨ e.on .inter = false)
    (a : ChannelAsm) : a.lane ch e = (a, []) := by
  rw [ChannelAsm.lane]
  by_cases haudio : e.isAudio = true
  · rw [if_pos haudio]
  rw [if_neg haudio]
  cases hofByte : VideoChannel.ofByte e.channel with
  | none => rfl
  | some ch' =>
    have hon : e.on ch' = true :=
      PendingFrag.on_iff.mpr ⟨eq_false_of_ne_true haudio, VideoChannel.byte_of_ofByte hofByte⟩
    have hne : ch' ≠ ch := by
      rintro rfl
      exact absurd (h.symm.trans hon) Bool.false_ne_true
    simp only [if_neg hne]
    rcases hinter with rfl | hnone
    · rfl
    · cases ch' with
      | inter => exact absurd (hnone.symm.trans hon) Bool.false_ne_true
      | key =>
        cases ch with
        | key => exact absurd rfl hne
        | inter => rfl

theorem ChannelAsm.lane_stay {a : ChannelAsm} (h : e.on ch = false)
    (hcut : ch = .key → e.on .inter = true →
      a.cut (stripFragmentMetadataTrailer e.payload).ts = (a, [])) :
    a.lane ch e = (a, []) := by
  cases hinter : e.on .inter with
  | false => exact ChannelAsm.lane_of_not_on h (.inr hinter) a
  | true =>
    cases ch with
    | inter => exact ChannelAsm.lane_of_not_on h (.inl rfl) a
    | key => exact (ChannelAsm.lane_key_of_on_inter hinter a).trans (hcut rfl hinter)

theorem Assembly.step_of_on_key (h : e.on .key = true) (A : Assembly) :
    A.step e = (⟨(A.key.own .key e).1, A.inter⟩, (A.key.own .key e).2) := by
  obtain ⟨haudio, hbyte⟩ := PendingFrag.on_iff.mp h
  rw [Assembly.step, haudio, hbyte, VideoChannel.ofByte_byte]
  rfl

theorem Assembly.step_of_on_inter (h : e.on .inter = true) {A : Assembly}
    (hjump : A.inter.jump .inter e = (A.inter, [])) :
    A.step e = (⟨(A.key.cut (stripFragmentMetadataTrailer e.payload).ts).1,
        (A.inter.own .inter e).1⟩,
      (A.key.cut (stripFragmentMetadataTrailer e.payload).ts).2 ++
        (A.inter.own .inter e).2) := by
  obtain ⟨haudio, hbyte⟩ := PendingFrag.on_iff.mp h
  rw [Assembly.step, haudio, hbyte, VideoChannel.ofByte_byte]
  simp only [Bool.false_eq_true, if_false, Assembly.stepVideo, ChannelAsm.own, hjump, nil_append]

theorem Assembly.step_of_not_on (A : Assembly) (hkey : e.on .key = false)
    (hinter : e.on .inter = false) :
    (A.step e).1 = A ∧ ((A.step e).2 = [] ∨ (A.step e).2 = [.audio e]) := by
  rw [Assembly.step]
  by_cases haudio : e.isAudio = true
  · rw [if_pos haudio]
    exact ⟨rfl, .inr rfl⟩
  rw [if_neg haudio]
  cases hofByte : VideoChannel.ofByte e.channel with
  | none => exact ⟨rfl, .inl rfl⟩
  | some ch =>
    have hon : e.on ch = true :=
      PendingFrag.on_iff.mpr ⟨eq_false_of_ne_true haudio, VideoChannel.byte_of_ofByte hofByte⟩
    cases ch with
    | key => exact absurd (hkey.symm.trans hon) Bool.false_ne_true
    | inter => exact absurd (hinter.symm.trans hon) Bool.false_ne_true

theorem ChannelAsm.channel?_jump (a : ChannelAsm) (ch : VideoChannel) (e : PendingFrag) :
    ∀ o ∈ (a.jump ch e).2, o.channel? = some ch := by
  intro o ho
  rw [ChannelAsm.jump.eq_def] at ho
  split_ifs at ho
  · obtain rfl := mem_singleton.mp ho
    cases ch <;> rfl
  · exact absurd ho not_mem_nil

theorem ChannelAsm.channel?_cut (a : ChannelAsm) (ts : UInt32) :
    ∀ o ∈ (a.cut ts).2, o.channel? = some .key := by
  intro o ho
  rw [ChannelAsm.cut] at ho
  split_ifs at ho
  · obtain rfl := mem_singleton.mp ho
    rfl
  · exact absurd ho not_mem_nil

theorem ChannelAsm.channel?_take (a : ChannelAsm) (ch : VideoChannel) (e : PendingFrag) :
    ∀ o ∈ (a.take ch e).2, o.channel? = some ch := by
  intro o ho
  simp only [ChannelAsm.take] at ho
  split_ifs at ho
  · exact absurd ho not_mem_nil
  · obtain rfl := mem_singleton.mp ho
    rw [ChannelAsm.ended]
    split_ifs <;> rfl

theorem filter_onChannel_of_forall {os : List Outcome} (h : ∀ o ∈ os, o.channel? = some ch)
    (ch' : VideoChannel) : os.filter (Outcome.onChannel ch') = if ch = ch' then os else [] := by
  by_cases hch : ch = ch'
  · rw [if_pos hch, filter_eq_self]
    intro o ho
    rw [Outcome.onChannel, h o ho, hch]
    exact beq_self_eq_true _
  · rw [if_neg hch, filter_eq_nil_iff]
    intro o ho
    rw [Outcome.onChannel, h o ho]
    simpa using hch

theorem Assembly.step_lane (A : Assembly) (e : PendingFrag) (ch : VideoChannel) :
    (A.step e).1.asm ch = ((A.asm ch).lane ch e).1 ∧
      (A.step e).2.filter (Outcome.onChannel ch) = ((A.asm ch).lane ch e).2 := by
  rw [Assembly.step, ChannelAsm.lane]
  by_cases haudio : e.isAudio = true
  · rw [if_pos haudio, if_pos haudio]
    exact ⟨rfl, rfl⟩
  rw [if_neg haudio, if_neg haudio]
  cases VideoChannel.ofByte e.channel with
  | none => exact ⟨rfl, rfl⟩
  | some ch' =>
    have hjump (ch) := filter_onChannel_of_forall ((A.asm ch).channel?_jump ch e)
    have hcut := filter_onChannel_of_forall
      (A.key.channel?_cut (stripFragmentMetadataTrailer e.payload).ts)
    have htake (ch) := filter_onChannel_of_forall
      (((A.asm ch).jump ch e).1.channel?_take ch e)
    cases ch' <;> cases ch
    · refine ⟨rfl, ?_⟩
      simp only [Assembly.stepVideo, filter_append]
      exact congrArg₂ (· ++ ·) (hjump .key .key) (htake .key .key)
    · refine ⟨rfl, ?_⟩
      simp only [Assembly.stepVideo, filter_append]
      exact congrArg₂ (· ++ ·) (hjump .key .inter) (htake .key .inter)
    · refine ⟨rfl, ?_⟩
      simp only [Assembly.stepVideo, filter_append]
      exact (congrArg₂ (· ++ ·) (hjump .inter .key)
        (congrArg₂ (· ++ ·) (hcut .key) (htake .inter .key))).trans (append_nil _)
    · refine ⟨rfl, ?_⟩
      simp only [Assembly.stepVideo, filter_append]
      exact congrArg₂ (· ++ ·) (hjump .inter .inter)
        (congrArg₂ (· ++ ·) (hcut .inter) (htake .inter .inter))

/-- **A run of the assembly, seen from one channel, is a run of its lane.** -/
theorem Assembly.run_lane (A : Assembly) (es : List PendingFrag) (ch : VideoChannel) :
    (A.run es).1.asm ch = ((A.asm ch).laneRun ch es).1 ∧
      (A.run es).2.filter (Outcome.onChannel ch) = ((A.asm ch).laneRun ch es).2 := by
  induction es generalizing A with
  | nil => exact ⟨rfl, rfl⟩
  | cons e es ih =>
    obtain ⟨hasm, hout⟩ := A.step_lane e ch
    obtain ⟨hasm', hout'⟩ := ih (A.step e).1
    rw [Assembly.run, ChannelAsm.laneRun, filter_append, hout, hout', ← hasm]
    exact ⟨hasm', rfl⟩

theorem filterMap_out?_onChannel (os : List Outcome) (ch : VideoChannel) :
    (os.filter (Outcome.onChannel ch)).filterMap (Outcome.out? ch) =
      os.filterMap (Outcome.out? ch) := by
  rw [filterMap_filter]
  refine filterMap_congr fun o _ => ?_
  by_cases hch : o.channel? = some ch
  · rw [if_pos (by rw [Outcome.onChannel, hch, beq_self_eq_true])]
  · rw [if_neg (by rw [Outcome.onChannel]; simpa using hch)]
    cases o with
    | ended ch' frameNum au gapped ts onlineNum =>
      exact (if_neg fun h => hch (congrArg some h.1)).symm
    | flushed frameNum au lossy ts => exact (if_neg fun h => hch (congrArg some h.1)).symm
    | audio | abandoned | noData => rfl

end PetlibroLocal
