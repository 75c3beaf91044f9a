import PetlibroLocal.Camera.FrameRun

/-!
# IDRs Under Loss, in Strict Mode

Strict mode is to show only intact pictures: an IDR that lost a fragment is discarded and
poisons its group of pictures. The loss is found by comparing counters when the IDR
leaves: by its end fragment, by a fragment of another IDR, or by a fragment of the inter
channel. The last two paths test for missing data fragments only, so an IDR that lost
exactly its end fragment passes for intact.

A sequence of frames under arbitrary loss is a list of `Received` frames: the data
fragments that arrived, and whether the end fragment did.

The main results are `sublist_frags_iff`, `laneRun_received` and `strict_idrs_intact`.
-/

namespace PetlibroLocal

open List

/-- **What arrives of a frame**: some of its data fragments, and its end fragment or not. -/
structure Received where
  frame : VideoFrame
  data : List PendingFrag
  ended : Bool
  sub : data.Sublist frame.dataFrags

namespace Received

/-- The fragments that arrive. -/
def kept (r : Received) : List PendingFrag := r.data ++ if r.ended then [r.frame.endFrag] else []

/-- All fragments arrive. -/
def Complete (r : Received) : Prop := r.data = r.frame.dataFrags ∧ r.ended = true

instance (r : Received) : Decidable r.Complete :=
  inferInstanceAs (Decidable (_ ∧ _))

theorem kept_sublist (r : Received) : r.kept.Sublist r.frame.frags := by
  refine r.sub.append ?_
  cases r.ended with
  | true => exact List.Sublist.refl _
  | false => exact nil_sublist _

theorem on_of_mem_kept {r : Received} {e : PendingFrag} (h : e ∈ r.kept) :
    e.on r.frame.channel = true :=
  r.frame.on_of_mem_frags (r.kept_sublist.subset h)

theorem length_lt (r : Received) (h : r.data ≠ r.frame.dataFrags) :
    r.data.length < r.frame.data.length := by
  refine Nat.lt_of_le_of_ne (r.frame.length_dataFrags ▸ r.sub.length_le) fun heq => ?_
  exact h (r.sub.eq_of_length (heq.trans r.frame.length_dataFrags.symm))

end Received

theorem exists_received {f : VideoFrame} {es : List PendingFrag} (h : es.Sublist f.frags) :
    ∃ r : Received, r.frame = f ∧ r.kept = es := by
  obtain ⟨ds, rest, rfl, hds, hrest⟩ := sublist_append_iff.mp h
  rcases sublist_singleton.mp hrest with rfl | rfl
  · exact ⟨⟨f, ds, false, hds⟩, rfl, rfl⟩
  · exact ⟨⟨f, ds, true, hds⟩, rfl, rfl⟩

/-- **Lists of received frames are the subsequences of the frames' fragments.** -/
theorem sublist_frags_iff {fs : List VideoFrame} {es : List PendingFrag} :
    es.Sublist (fs.flatMap (·.frags)) ↔
      ∃ rs : List Received, rs.map (·.frame) = fs ∧ rs.flatMap (·.kept) = es := by
  constructor
  · intro h
    induction fs generalizing es with
    | nil => exact ⟨[], rfl, (sublist_nil.mp h).symm⟩
    | cons f fs ih =>
      rw [flatMap_cons] at h
      obtain ⟨es₁, es₂, rfl, h₁, h₂⟩ := sublist_append_iff.mp h
      obtain ⟨r, rfl, rfl⟩ := exists_received h₁
      obtain ⟨rs, rfl, rfl⟩ := ih h₂
      exact ⟨r :: rs, rfl, flatMap_cons⟩
  · rintro ⟨rs, rfl, rfl⟩
    induction rs with
    | nil => exact List.Sublist.refl _
    | cons r rs ih =>
      rw [flatMap_cons, map_cons, flatMap_cons]
      exact r.kept_sublist.append ih

/-! ### One outcome for each IDR -/

/-- The IDRs that have left the assembly at the end of the stream: something of them
arrived, and then their end fragment or a fragment of a later frame. -/
def leftIDRs : List Received → List Received
  | [] => []
  | r :: rs =>
    if r.frame.channel = .key ∧ r.kept ≠ [] ∧
        (r.ended = true ∨ rs.flatMap (·.kept) ≠ []) then r :: leftIDRs rs
    else leftIDRs rs

/-- The outcome an IDR leaves with. -/
def Leaves (r : Received) (o : Outcome) : Prop :=
  if r.ended then o = r.frame.ending .key r.data else ∃ ts, o = r.frame.cutting r.data ts

/-- **The loss of an end fragment is noticed**: an IDR that leaves without its end
fragment also lacks a data fragment, has left some bytes, and the next fragment, if it is
on the key channel, has another frame number. -/
def Noticed (rs : List Received) : Prop :=
  AtEach (fun _ r after => r.frame.channel = .key → r.kept ≠ [] → r.ended = false →
    ∀ e ∈ (after.flatMap (·.kept)).head?, r.data ≠ r.frame.dataFrags ∧
      payloadBytes r.data ≠ [] ∧ (e.on .key = true → e.frameNum ≠ r.frame.frameNum)) rs

section

variable {f : VideoFrame} {a : ChannelAsm} {ds : List PendingFrag}

variable {e : PendingFrag} {r : Received}

/-- A pending IDR leaves with the next fragment of another frame, which then finds the
channel empty. -/
theorem Partial.laneRun_leave (h : Partial f ds a) (hbytes : payloadBytes ds ≠ [])
    (he : e.on .inter = true ∨ e.on .key = true ∧ e.frameNum ≠ f.frameNum) (es : List PendingFrag) :
    ∃ ts, (a.laneRun .key (e :: es)).2 =
      f.cutting ds ts :: (a.reset.laneRun .key (e :: es)).2 := by
  rw [ChannelAsm.laneRun, ChannelAsm.laneRun]
  obtain hinter | ⟨hkey, hnum⟩ := he
  · have hcut := ((Ready.cut (.inl h) (stripFragmentMetadataTrailer e.payload).ts).resolve_left
      fun h0 => hbytes h0.1).2
    have hreset : a.reset.cut (stripFragmentMetadataTrailer e.payload).ts = (a.reset, []) :=
      if_neg fun h0 => h0.2 rfl
    rw [ChannelAsm.lane_key_of_on_inter hinter, ChannelAsm.lane_key_of_on_inter hinter, hcut,
      hreset]
    exact ⟨_, rfl⟩
  · have hreset : a.reset.jump .key e = (a.reset, []) := rfl
    rw [ChannelAsm.lane_of_on hkey, ChannelAsm.lane_of_on hkey]
    simp only [ChannelAsm.own, h.jump_key hbytes hnum, hreset]
    exact ⟨0, rfl⟩

theorem laneRun_received_data (hkey : r.frame.channel = .key) (hidle : Idle a) :
    Ready r.frame r.data (a.laneRun .key r.data).1 ∧ (a.laneRun .key r.data).2 = [] := by
  have hon : ∀ e ∈ r.data, e.on .key = true := fun e he =>
    hkey ▸ Received.on_of_mem_kept (mem_append_left _ he)
  have hself : r.data.filter (PendingFrag.on .key) = r.data := filter_eq_self.mpr hon
  have hquiet : Undisturbed r.data := by
    intro pre e post heq hinter
    have hmem : e ∈ r.data := heq ▸ mem_append_right _ mem_cons_self
    have hnot := PendingFrag.on_of_ne (hon e hmem) (show VideoChannel.key ≠ .inter by decide)
    exact absurd (hnot.symm.trans hinter) Bool.false_ne_true
  have hrun := laneRun_quiet (hidle.ready r.frame) (hself.symm ▸ r.sub) (.inr hquiet)
  rwa [hself] at hrun

theorem on_of_mem_flatMap_kept {rs : List Received} (h : e ∈ rs.flatMap (·.kept)) :
    e.on .inter = true ∨ e.on .key = true := by
  obtain ⟨r, -, he⟩ := mem_flatMap.mp h
  have hon := Received.on_of_mem_kept he
  cases hch : r.frame.channel with
  | key => exact .inr (hch ▸ hon)
  | inter => exact .inl (hch ▸ hon)

theorem laneRun_ended (hkey : r.frame.channel = .key) (hended : r.ended = true) (hidle : Idle a)
    (es : List PendingFrag) :
    ∃ a', Idle a' ∧ (a.laneRun .key (r.kept ++ es)).2 =
      r.frame.ending .key r.data :: (a'.laneRun .key es).2 := by
  have hon : r.frame.endFrag.on .key = true :=
    hkey ▸ r.frame.on_of_mem_frags r.frame.endFrag_mem_frags
  obtain ⟨hready, hnone⟩ := laneRun_received_data hkey hidle
  obtain ⟨hidle', hout⟩ := laneRun_concat_endFrag hon hready
  refine ⟨_, hidle', ?_⟩
  rw [Received.kept, if_pos hended, ChannelAsm.laneRun_append, hout, hnone]
  rfl

theorem laneRun_unended (hkey : r.frame.channel = .key) (hended : r.ended = false)
    (hdata : r.data ≠ []) (hidle : Idle a) (hbytes : payloadBytes r.data ≠ [])
    (he : e.on .inter = true ∨ e.on .key = true ∧ e.frameNum ≠ r.frame.frameNum)
    (es : List PendingFrag) :
    ∃ a', Idle a' ∧ ∃ ts, (a.laneRun .key (r.kept ++ e :: es)).2 =
      r.frame.cutting r.data ts :: (a'.laneRun .key (e :: es)).2 := by
  obtain ⟨hready, hnone⟩ := laneRun_received_data hkey hidle
  have hheld := hready.resolve_right fun h0 => hdata h0.1
  obtain ⟨ts, hleave⟩ := hheld.laneRun_leave hbytes he es
  refine ⟨(a.laneRun .key r.data).1.reset, idle_reset _, ts, ?_⟩
  rw [Received.kept, hended, if_neg Bool.false_ne_true, append_nil,
    ChannelAsm.laneRun_append, hnone, hleave]
  rfl

/-- A frame of the inter channel, or one of which nothing arrives, passes by an empty key
channel. -/
theorem laneRun_bystander (hother : ¬ (r.frame.channel = .key ∧ r.kept ≠ [])) (hidle : Idle a)
    (es : List PendingFrag) : (a.laneRun .key (r.kept ++ es)).2 = (a.laneRun .key es).2 := by
  have hnone : r.kept.filter (PendingFrag.on .key) = [] := by
    refine filter_eq_nil_iff.mpr fun e he hon => ?_
    have hch : r.frame.channel ≠ .key := fun hkey => hother ⟨hkey, ne_nil_of_mem he⟩
    have hnot := PendingFrag.on_of_ne (Received.on_of_mem_kept he) hch
    exact absurd (hnot.symm.trans hon) Bool.false_ne_true
  rw [ChannelAsm.laneRun_append, laneRun_idle hidle.1 hnone]
  rfl

/-- **Each IDR leaves the assembly with one outcome**, in order. -/
theorem laneRun_received {rs : List Received} (hidle : Idle a) (h : Noticed rs) :
    List.Forall₂ Leaves (leftIDRs rs) (a.laneRun .key (rs.flatMap (·.kept))).2 := by
  induction rs generalizing a with
  | nil => exact .nil
  | cons r rs ih =>
    obtain ⟨hr, hrs⟩ := atEach_cons.mp h
    rw [flatMap_cons, leftIDRs]
    by_cases hidr : r.frame.channel = .key ∧ r.kept ≠ []
    swap
    · rw [if_neg fun h0 => hidr ⟨h0.1, h0.2.1⟩, laneRun_bystander hidr hidle]
      exact ih hidle hrs
    obtain ⟨hkey, hkept⟩ := hidr
    cases hended : r.ended with
    | true =>
      obtain ⟨a', hidle', hrun⟩ := laneRun_ended hkey hended hidle (rs.flatMap (·.kept))
      rw [if_pos ⟨hkey, hkept, .inl rfl⟩, hrun]
      exact .cons (by rw [Leaves, if_pos hended]) (ih hidle' hrs)
    | false =>
      have hdata : r.kept = r.data := by
        rw [Received.kept, hended, if_neg Bool.false_ne_true, append_nil]
      cases hrest : rs.flatMap (·.kept) with
      | nil =>
        -- nothing follows, so the IDR is still pending
        have hlater := ih hidle hrs
        rw [hrest] at hlater
        rw [if_neg (by simp), hdata, append_nil,
          (laneRun_received_data hkey hidle).2]
        exact hlater
      | cons e es =>
        have hmem : e ∈ rs.flatMap (·.kept) := hrest ▸ mem_cons_self
        obtain ⟨-, hbytes, hnum⟩ := hr hkey hkept hended e (by rw [hrest]; rfl)
        have hother : e.on .inter = true ∨
            e.on .key = true ∧ e.frameNum ≠ r.frame.frameNum :=
          (on_of_mem_flatMap_kept hmem).imp_right fun hon => ⟨hon, hnum hon⟩
        obtain ⟨a', hidle', ts, hrun⟩ :=
          laneRun_unended hkey hended (hdata ▸ hkept) hidle hbytes hother es
        have hlater := ih hidle' hrs
        rw [hrest] at hlater
        rw [if_pos ⟨hkey, hkept, .inr (cons_ne_nil _ _)⟩, hrun]
        refine .cons ?_ hlater
        rw [Leaves, hended, if_neg Bool.false_ne_true]
        exact ⟨ts, rfl⟩

end

/-! ### Strict mode -/

/-- **What strict mode owes an IDR that has left**: a complete one is handed to `emitAU`
as a whole, any other is discarded with the group of pictures poisoned. -/
def Verdict (r : Received) (evs : List AsmEvent) : Prop :=
  (r.Complete ∧ ∃ poisoned poisoned',
      Handed true poisoned .key r.frame.frameNum r.frame.au evs poisoned') ∨
    (¬ r.Complete ∧ ∃ reason, evs = [.dropped .key r.frame.frameNum reason true])

/-- **Strict mode shows intact IDRs only**: every queued packet of the key channel is all
of a complete IDR, and the log of the key channel is one verdict for each IDR that has
left, in order. -/
def StrictIntact (rs : List Received) : Prop :=
  (∀ x ∈ ((Assembler.new true).emitAll (rs.flatMap (·.kept))).framesOut .key,
    ∃ r ∈ rs, r.frame.channel = .key ∧ r.Complete ∧ x = r.frame.out) ∧
  ∃ evss : List (List AsmEvent),
    ((Assembler.new true).emitAll (rs.flatMap (·.kept))).log.filter (AsmEvent.onChannel .key) =
      evss.flatten ∧
    List.Forall₂ Verdict (leftIDRs rs) evss

theorem verdict_of_ending {r : Received} (hended : r.ended = true) {evs : List AsmEvent}
    {poisoned poisoned' : Bool}
    (h : Released true poisoned (r.frame.ending .key r.data) evs poisoned') :
    Verdict r evs := by
  by_cases hall : r.data = r.frame.dataFrags
  · rw [hall, r.frame.ending_dataFrags] at h
    cases h with
    | ended _ _ _ _ _ _ hgapped hclean hhanded => exact .inl ⟨⟨hall, hended⟩, _, _, hhanded⟩
  · refine .inr ⟨fun hc => hall hc.1, ?_⟩
    rw [VideoFrame.ending, decide_eq_true (r.length_lt hall)] at h
    split_ifs at h
    · cases h with
      | noData => exact ⟨.zeroDataHardDrop, by simp⟩
    · cases h with
      | gapped => exact ⟨_, rfl⟩
      | ended _ _ _ _ _ _ hgapped hclean hhanded =>
        exact absurd (hgapped rfl).1.symm Bool.false_ne_true

theorem verdict_of_cutting {r : Received} (hdata : r.data ≠ r.frame.dataFrags)
    {evs : List AsmEvent} {poisoned poisoned' : Bool} {ts : UInt32}
    (h : Released true poisoned (r.frame.cutting r.data ts) evs poisoned') :
    Verdict r evs := by
  rw [VideoFrame.cutting, decide_eq_true (r.length_lt hdata)] at h
  refine .inr ⟨fun hc => hdata hc.1, ?_⟩
  cases h with
  | lossy => exact ⟨_, rfl⟩
  | flushed _ _ _ _ hlossy hhanded => exact absurd (hlossy rfl).symm Bool.false_ne_true

theorem forall_mem_leftIDRs {rs : List Received} (h : Noticed rs) :
    ∀ r ∈ leftIDRs rs, r ∈ rs ∧ r.frame.channel = .key ∧
      (r.ended = false → r.data ≠ r.frame.dataFrags) := by
  induction rs with
  | nil => exact forall_mem_nil _
  | cons r rs ih =>
    obtain ⟨hr, hrs⟩ := atEach_cons.mp h
    have hlater : ∀ r' ∈ leftIDRs rs, r' ∈ r :: rs ∧ r'.frame.channel = .key ∧
        (r'.ended = false → r'.data ≠ r'.frame.dataFrags) := fun r' hr' =>
      ⟨mem_cons_of_mem _ (ih hrs r' hr').1, (ih hrs r' hr').2⟩
    rw [leftIDRs]
    split_ifs with hleft
    · rintro r' hr'
      rcases mem_cons.mp hr' with rfl | hr'
      · obtain ⟨hkey, hkept, hleave⟩ := hleft
        refine ⟨mem_cons_self, hkey, fun hended => ?_⟩
        have hrest := hleave.resolve_left (by rw [hended]; decide)
        obtain ⟨e, es, hcons⟩ := exists_cons_of_ne_nil hrest
        exact (hr hkey hkept hended e (by rw [hcons]; rfl)).1
      · exact hlater r' hr'
    · exact hlater

theorem verdicts_of_leaves {rs : List Received} {os : List Outcome}
    {evss : List (List AsmEvent)} (hleaves : List.Forall₂ Leaves rs os)
    (hreleased : List.Forall₂ (fun o evs => ∃ poisoned poisoned',
      Released true poisoned o evs poisoned') os evss)
    (hlack : ∀ r ∈ rs, r.ended = false → r.data ≠ r.frame.dataFrags) :
    List.Forall₂ Verdict rs evss := by
  induction hleaves generalizing evss with
  | nil =>
    cases hreleased
    exact .nil
  | @cons r o rs os hleave hrest ih =>
    cases hreleased with
    | @cons _ evs _ evss hrel hrels =>
      obtain ⟨poisoned, poisoned', hrel⟩ := hrel
      refine .cons ?_ (ih hrels fun r' hr' => hlack r' (mem_cons_of_mem _ hr'))
      rw [Leaves] at hleave
      cases hended : r.ended with
      | true =>
        rw [if_pos hended] at hleave
        exact verdict_of_ending hended (hleave ▸ hrel)
      | false =>
        rw [hended, if_neg Bool.false_ne_true] at hleave
        obtain ⟨ts, rfl⟩ := hleave
        exact verdict_of_cutting (hlack r mem_cons_self hended) hrel

theorem exists_queued_of_mem_framesOut {s : Assembler} {ch : VideoChannel}
    {x : UInt32 × Bytes} (h : x ∈ s.framesOut ch) :
    ∃ p, AsmEvent.queued p ∈ s.log.filter (AsmEvent.onChannel ch) ∧
      x = (p.cameraFrameNo, p.payload) := by
  obtain ⟨p, hp, rfl⟩ := mem_map.mp h
  obtain ⟨hvideo, hch⟩ := mem_filter.mp hp
  obtain ⟨ev, hev, hsome⟩ := mem_filterMap.mp hvideo
  cases ev with
  | dropped ch' frameNum reason b => exact absurd hsome (by simp [AsmEvent.video?])
  | queued q =>
    rw [AsmEvent.video?] at hsome
    split_ifs at hsome with hcodec
    obtain rfl := Option.some.inj hsome
    refine ⟨q, mem_filter.mpr ⟨hev, ?_⟩, rfl⟩
    rw [AsmEvent.onChannel, hcodec, hch]
    rfl

theorem strictIntact_of_noticed {rs : List Received} (h : Noticed rs) : StrictIntact rs := by
  have hleft := forall_mem_leftIDRs h
  obtain ⟨evss, hlog, hreleased⟩ := (Assembler.new true).settleAll_released_onChannel
    (Assembly.zero.run (rs.flatMap (·.kept))).2 .key
  rw [(Assembly.zero.run_lane _ .key).2] at hreleased
  have hverdicts : List.Forall₂ Verdict (leftIDRs rs) evss :=
    verdicts_of_leaves (laneRun_received idle_zero h) hreleased fun r hr => (hleft r hr).2.2
  have hevents : ((Assembler.new true).emitAll (rs.flatMap (·.kept))).log.filter
      (AsmEvent.onChannel .key) = evss.flatten := by
    rw [Assembler.log_emitAll_new, hlog]
    rfl
  refine ⟨fun x hx => ?_, evss, hevents, hverdicts⟩
  obtain ⟨p, hp, rfl⟩ := exists_queued_of_mem_framesOut hx
  rw [hevents] at hp
  obtain ⟨evs, hevs, hp⟩ := mem_flatten.mp hp
  obtain ⟨i, rfl⟩ := mem_iff_get.mp hevs
  obtain ⟨hlen, hget⟩ := forall₂_iff_get.mp hverdicts
  have hi : i.1 < (leftIDRs rs).length := by
    rw [hlen]
    exact i.2
  obtain ⟨hmem, hkey, -⟩ := hleft _ (get_mem (leftIDRs rs) ⟨i.1, hi⟩)
  obtain ⟨hcomplete, poisoned, poisoned', hhanded⟩ | ⟨-, reason, hdropped⟩ := hget i.1 hi i.2
  · refine ⟨_, hmem, hkey, hcomplete, ?_⟩
    generalize evss.get ⟨i.1, i.2⟩ = evs at hhanded hp
    cases hhanded with
    | short hshort => exact absurd hp not_mem_nil
    | held hlen' hstrict hpoisoned hnokey => simp at hp
    | queued q hlen' hclean hcodec hpayload hnum hch hiskey =>
      obtain rfl : p = q := by simpa using hp
      rw [hpayload, hnum]
      rfl
  · rw [hdropped] at hp
    simp at hp

/-- **Strict mode shows intact IDRs only, as long as lost end fragments are noticed.** Any
subsequence of the frames' fragments may arrive: it is that of some received frames, and
whichever these are, the IDRs among them are shown whole or discarded. -/
theorem strict_idrs_intact {fs : List VideoFrame} {es : List PendingFrag}
    (harrived : es.Sublist (fs.flatMap (·.frags))) :
    (∃ rs : List Received, rs.map (·.frame) = fs ∧ rs.flatMap (·.kept) = es) ∧
      ∀ rs : List Received, rs.map (·.frame) = fs → rs.flatMap (·.kept) = es →
        Noticed rs → StrictIntact rs :=
  ⟨sublist_frags_iff.mp harrived, fun _ _ _ => strictIntact_of_noticed⟩

/-- An IDR of three fragments. -/
def sampleLongIDR : VideoFrame where
  channel := .key
  frameNum := 300
  data := [[0, 0, 0, 1, 0x65, 0x88], [0x99, 0xAA]]
  last := 0xEE :: metadataTrailer 1 180
  endIdx := 2
  position := id
  length_le := by decide
  plain := by decide
  closing := by decide

/-- An IDR loses its second data fragment and its end fragment, an inter frame arrives
whole, and then a whole IDR. -/
def noticedLoss : List Received :=
  [⟨sampleLongIDR, sampleLongIDR.dataFrags.take 1, false, take_sublist _ _⟩,
    ⟨sampleInter, sampleInter.dataFrags, true, List.Sublist.refl _⟩,
    ⟨sampleIDR, sampleIDR.dataFrags, true, List.Sublist.refl _⟩]

theorem noticed_noticedLoss : Noticed noticedLoss := by
  refine atEach_cons.mpr ⟨fun _ _ _ e he => ?_, atEach_cons.mpr ⟨fun hkey => ?_,
    atEach_cons.mpr ⟨fun _ _ hended => ?_, atEach_nil _⟩⟩⟩
  · obtain rfl : sampleInter.endFrag = e := Option.some.inj he
    exact ⟨by decide, by decide, by decide⟩
  · exact absurd hkey (by decide)
  · exact absurd hended (by decide)

/-- Of the three frames of `noticedLoss` only the last one is queued on the key channel;
the first is discarded and the inter frame held back until then. -/
theorem strict_idrs_intact_noticedLoss :
    StrictIntact noticedLoss ∧
      ((Assembler.new true).emitAll (noticedLoss.flatMap (·.kept))).framesOut .key =
        [sampleIDR.out] ∧
      ((Assembler.new true).emitAll (noticedLoss.flatMap (·.kept))).framesOut .inter = [] :=
  ⟨(strict_idrs_intact (sublist_frags_iff.mpr ⟨noticedLoss, rfl, rfl⟩)).2 noticedLoss rfl rfl
    noticed_noticedLoss, by decide, by decide⟩

/-- All data fragments of an IDR arrive, its end fragment is lost, and an inter frame
follows. -/
def lostEnd : List Received :=
  [⟨sampleIDR, sampleIDR.dataFrags, false, List.Sublist.refl _⟩,
    ⟨sampleInter, sampleInter.dataFrags, true, List.Sublist.refl _⟩]

/-- **Strict mode shows a truncated IDR whose end fragment was lost**, and does not poison
the group of pictures. -/
theorem strict_shows_truncated_idr :
    ¬ StrictIntact lostEnd ∧
      ((Assembler.new true).emitAll (lostEnd.flatMap (·.kept))).framesOut .key =
        [(100, [0, 0, 0, 1, 0x65, 0x88])] ∧
      ((Assembler.new true).emitAll (lostEnd.flatMap (·.kept))).gopPoisoned = false := by
  have hout : ((Assembler.new true).emitAll (lostEnd.flatMap (·.kept))).framesOut .key =
      [(100, [0, 0, 0, 1, 0x65, 0x88])] := by decide
  refine ⟨fun h => ?_, hout, by decide⟩
  obtain ⟨r, hr, hkey, hcomplete, -⟩ := h.1 _ (hout ▸ mem_singleton_self _)
  rcases mem_cons.mp hr with rfl | hr
  · exact absurd hcomplete.2 (by decide)
  · obtain rfl := mem_singleton.mp hr
    exact absurd hkey (by decide)

end PetlibroLocal
