import PetlibroLocal.Camera.Interleaving
import PetlibroLocal.Camera.StrictRelease

/-!
# Interleaved Frames in Strict Mode

Strict mode has a second way to lose a frame. A fragment of the inter channel that flushes
an IDR leaves the end fragment of that IDR orphaned: it finds no data fragments, is
discarded, and poisons the group of pictures. What completes next is then held back,
unless it holds an IDR slice.

The order in which frames complete across the two channels is all that matters for this,
and a small machine reads it off the stream (`Progress.completions`). The assembly follows
that machine step by step as long as an IDR is flushed only when nothing but its bare end
fragment is missing.

The main results are `run_completes` and `interleaving_assembled`.
-/

namespace PetlibroLocal

open List

/-! ### The machine -/

/-- How far the current IDR is: its bytes so far, and whether it was flushed. -/
structure Progress where
  here : Bytes
  flushed : Bool
  deriving DecidableEq, Repr

namespace Progress

/-- No IDR has begun. -/
def zero : Progress := ⟨[], false⟩

/-- One more fragment: those of the key channel advance the IDR, and those of the inter
channel flush it. -/
def next (p : Progress) (e : PendingFrag) : Progress where
  here := keyBytes p.here e
  flushed :=
    if e.on .key then p.flushed && !hasTrailer e.payload
    else p.flushed || (e.on .inter && !p.here.isEmpty)

/-- What a flush completes. -/
def flushCompletes (p : Progress) : List Completion :=
  if p.flushed = false ∧ p.here ≠ [] then [keyCompletion p.here] else []

/-- What a fragment completes. -/
def completes (p : Progress) (e : PendingFrag) : List Completion :=
  if e.on .key then
    if hasTrailer e.payload then
      [if p.flushed then .orphan
        else keyCompletion (p.here ++ (stripFragmentMetadataTrailer e.payload).stripped)]
    else []
  else if e.on .inter then
    p.flushCompletes ++ if hasTrailer e.payload then [.inter] else []
  else []

/-- What a stream completes, in order. -/
def completions : Progress → List PendingFrag → List Completion
  | _, [] => []
  | p, e :: es => p.completes e ++ (p.next e).completions es

end Progress

/-! ### The assembly follows the machine -/

/-- The outcomes are regular and complete `cs`. -/
def Completes (os : List Outcome) (cs : List Completion) : Prop :=
  (∀ o ∈ os, o.Regular) ∧ os.filterMap Outcome.completion? = cs

theorem completes_nil : Completes [] [] := ⟨forall_mem_nil _, rfl⟩

theorem completes_singleton {o : Outcome} {c : Completion} (h : o.Regular)
    (hc : o.completion? = some c) : Completes [o] [c] := by
  refine ⟨fun o' ho' => ?_, filterMap_cons_some hc⟩
  obtain rfl := mem_singleton.mp ho'
  exact h

theorem Completes.append {os os' : List Outcome} {cs cs' : List Completion}
    (h : Completes os cs) (h' : Completes os' cs') : Completes (os ++ os') (cs ++ cs') := by
  refine ⟨fun o ho => ?_, ?_⟩
  · rcases mem_append.mp ho with ho | ho
    · exact h.1 o ho
    · exact h'.1 o ho
  · rw [filterMap_append, h.2, h'.2]

/-- **A channel part way through complete frames**: `here` are the bytes it holds, and
`rest` the fragments still to come. -/
def Underway (a : ChannelAsm) (here : Bytes) (rest : List PendingFrag) : Prop :=
  (Idle a ∧ here = [] ∧ rest = []) ∨
    ∃ (f : VideoFrame) (ds todo : List PendingFrag) (fs : List VideoFrame),
      Ready f ds a ∧ ds ++ todo = f.dataFrags ∧ (∀ g ∈ f :: fs, 5 ≤ g.au.length) ∧
        here = payloadBytes ds ∧ rest = todo ++ f.endFrag :: fs.flatMap (·.frags)

section

variable {a : ChannelAsm} {here : Bytes} {e : PendingFrag} {rest : List PendingFrag}

theorem Idle.underway (h : Idle a) {fs : List VideoFrame}
    (hlong : ∀ f ∈ fs, 5 ≤ f.au.length) : Underway a [] (fs.flatMap (·.frags)) := by
  cases fs with
  | nil => exact .inl ⟨h, rfl, rfl⟩
  | cons f fs =>
    refine .inr ⟨f, [], f.dataFrags, fs, h.ready f, rfl, hlong, rfl, ?_⟩
    rw [flatMap_cons, VideoFrame.frags, append_assoc]
    rfl

theorem Underway.own_plain (h : Underway a here (e :: rest))
    (hplain : hasTrailer e.payload = false) (ch : VideoChannel) :
    a.jump ch e = (a, []) ∧ (a.own ch e).2 = [] ∧
      Underway (a.own ch e).1 (here ++ e.payload) rest := by
  obtain ⟨-, -, hnil⟩ | ⟨f, ds, todo, fs, hready, hdata, hlong, rfl, hrest⟩ := h
  · exact absurd hnil (cons_ne_nil _ _)
  cases todo with
  | nil =>
    obtain ⟨rfl, -⟩ := List.cons.inj hrest
    exact absurd (hplain.symm.trans f.closing) Bool.false_ne_true
  | cons x todo =>
    obtain ⟨rfl, rfl⟩ := List.cons.inj hrest
    have hsub : (ds ++ [e]).Sublist f.dataFrags := by
      rw [← hdata, append_cons ds e todo]
      exact sublist_append_left _ _
    have he : e ∈ f.dataFrags := hsub.subset (by simp)
    obtain ⟨hheld, hout⟩ := hready.own_data hsub ch
    refine ⟨hready.jump (f.mem_frags_of_mem_dataFrags he) ch, hout,
      .inr ⟨f, ds ++ [e], todo, fs, .inl hheld, ?_, hlong, ?_, rfl⟩⟩
    · rw [← hdata, append_cons ds e todo]
    · rw [payloadBytes_append, payloadBytes_singleton]

theorem Underway.own_closing (h : Underway a here (e :: rest))
    (hclosing : hasTrailer e.payload = true) (ch : VideoChannel) :
    a.jump ch e = (a, []) ∧ Underway (a.own ch e).1 [] rest ∧
      5 ≤ (here ++ (stripFragmentMetadataTrailer e.payload).stripped).length ∧
      ∃ frameNum ts onlineNum, (a.own ch e).2 = [.ended ch frameNum
        (here ++ (stripFragmentMetadataTrailer e.payload).stripped) false ts onlineNum] := by
  obtain ⟨-, -, hnil⟩ | ⟨f, ds, todo, fs, hready, hdata, hlong, rfl, hrest⟩ := h
  · exact absurd hnil (cons_ne_nil _ _)
  cases todo with
  | nil =>
    obtain ⟨rfl, rfl⟩ := List.cons.inj hrest
    rw [append_nil] at hdata
    subst hdata
    have hau : payloadBytes f.dataFrags ++
        (stripFragmentMetadataTrailer f.endFrag.payload).stripped = f.au := by
      rw [payloadBytes, f.payload_dataFrags]
      rfl
    obtain ⟨hidle, hout⟩ := hready.own_end ch
    rw [hau, hout, f.ending_dataFrags]
    exact ⟨hready.jump f.endFrag_mem_frags ch,
      hidle.underway fun g hg => hlong g (mem_cons_of_mem _ hg),
      hlong f mem_cons_self, _, _, _, rfl⟩
  | cons x todo =>
    obtain ⟨rfl, -⟩ := List.cons.inj hrest
    have he : e ∈ f.dataFrags := by
      rw [← hdata]
      exact mem_append_right _ mem_cons_self
    exact absurd ((f.hasTs_of_mem_dataFrags he).symm.trans hclosing) Bool.false_ne_true

/-- **The key channel follows the machine**: an IDR is under way, or it was flushed and
only its end fragment is still to come. -/
def Tracks (p : Progress) (a : ChannelAsm) (rest : List PendingFrag) : Prop :=
  (p.flushed = false ∧ Underway a p.here rest) ∨
    (p.flushed = true ∧ ∃ (f : VideoFrame) (fs : List VideoFrame), Ready f [] a ∧ f.data ≠ [] ∧
      (∀ g ∈ fs, 5 ≤ g.au.length) ∧ rest = f.endFrag :: fs.flatMap (·.frags))

variable {p : Progress}

theorem Tracks.own (h : Tracks p a (e :: rest)) (hon : e.on .key = true) :
    Completes (a.own .key e).2 (p.completes e) ∧ Tracks (p.next e) (a.own .key e).1 rest := by
  obtain ⟨hflushed, h⟩ | ⟨hflushed, f, fs, hready, hdata, hlong, hrest⟩ := h
  · cases htrailer : hasTrailer e.payload with
    | false =>
      obtain ⟨-, hout, hnext⟩ := h.own_plain htrailer .key
      refine ⟨?_, .inl ?_⟩
      · simp only [Progress.completes, hon, htrailer, hout, if_true, Bool.false_eq_true, if_false]
        exact completes_nil
      · simp only [Progress.next, keyBytes, hon, htrailer, hflushed, if_true,
          Bool.false_eq_true, if_false, Bool.false_and, true_and]
        exact hnext
    | true =>
      obtain ⟨-, hnext, hlen, frameNum, ts, onlineNum, hout⟩ := h.own_closing htrailer .key
      refine ⟨?_, .inl ?_⟩
      · simp only [Progress.completes, hon, htrailer, hflushed, hout, if_true,
          Bool.false_eq_true, if_false]
        exact completes_singleton ⟨hlen, rfl⟩ rfl
      · simp only [Progress.next, keyBytes, hon, htrailer, hflushed, if_true, Bool.false_and,
          true_and]
        exact hnext
  · obtain ⟨rfl, rfl⟩ := List.cons.inj hrest
    have htrailer : hasTrailer f.endFrag.payload = true := f.closing
    obtain ⟨hidle, hout⟩ := hready.own_end .key
    rw [VideoFrame.ending, if_pos ⟨hdata, rfl⟩] at hout
    refine ⟨?_, .inl ?_⟩
    · simp only [Progress.completes, hon, htrailer, hflushed, hout, if_true]
      exact completes_singleton rfl rfl
    · simp only [Progress.next, keyBytes, hon, htrailer, if_true, Bool.not_true, Bool.and_false,
        true_and]
      exact hidle.underway hlong

theorem exists_of_bareEnd {es : List PendingFrag} (h : bareEnd es = true) :
    ∃ e rest, es.filter (PendingFrag.on .key) = e :: rest ∧ hasTrailer e.payload = true ∧
      (stripFragmentMetadataTrailer e.payload).stripped = [] := by
  induction es with
  | nil => exact absurd h Bool.false_ne_true
  | cons e es ih =>
    rw [bareEnd] at h
    cases hon : e.on .key with
    | false =>
      rw [hon, if_neg Bool.false_ne_true] at h
      rw [filter_cons_of_neg (by simp [hon])]
      exact ih h
    | true =>
      rw [hon, if_pos rfl, Bool.and_eq_true, List.isEmpty_iff] at h
      exact ⟨e, _, filter_cons_of_pos hon, h.1, h.2⟩

theorem Underway.cut_nil (h : Underway a [] rest) (ts : UInt32) : a.cut ts = (a, []) := by
  obtain ⟨hidle, -, -⟩ | ⟨f, ds, todo, fs, hready, -, -, hhere, -⟩ := h
  · exact if_neg fun hc => hc.2 hidle.1
  · exact ((hready.cut ts).resolve_right fun hc => hc.1 hhere.symm).2

theorem Underway.cut_bare {es : List PendingFrag}
    (h : Underway a here (es.filter (PendingFrag.on .key))) (hhere : here ≠ [])
    (hbare : bareEnd es = true) (ts : UInt32) :
    Completes (a.cut ts).2 [keyCompletion here] ∧
      ∃ (f : VideoFrame) (fs : List VideoFrame), Ready f [] (a.cut ts).1 ∧ f.data ≠ [] ∧
        (∀ g ∈ fs, 5 ≤ g.au.length) ∧
        es.filter (PendingFrag.on .key) = f.endFrag :: fs.flatMap (·.frags) := by
  obtain ⟨e, rest, hkeys, hclosing, hstripped⟩ := exists_of_bareEnd hbare
  obtain ⟨-, hnil, -⟩ | ⟨f, ds, todo, fs, hready, hdata, hlong, rfl, hrest⟩ := h
  · exact absurd hnil hhere
  cases todo with
  | cons x todo =>
    obtain ⟨rfl, -⟩ := List.cons.inj (hkeys.symm.trans hrest)
    have he : e ∈ f.dataFrags := by
      rw [← hdata]
      exact mem_append_right _ mem_cons_self
    exact absurd ((f.hasTs_of_mem_dataFrags he).symm.trans hclosing) Bool.false_ne_true
  | nil =>
    obtain ⟨rfl, -⟩ := List.cons.inj (hkeys.symm.trans hrest)
    rw [append_nil] at hdata
    subst hdata
    have htail : f.tail.stripped = [] := hstripped
    have hlen : 5 ≤ (payloadBytes f.dataFrags).length := by
      have hau := length_au f
      rw [htail, length_nil, Nat.add_zero] at hau
      exact hau ▸ hlong f mem_cons_self
    obtain ⟨-, hcut⟩ := (hready.cut ts).resolve_left fun hc => hhere hc.1
    rw [hcut]
    refine ⟨completes_singleton ⟨hlen, ?_⟩ rfl, f, fs, (idle_reset a).ready f, ?_,
      fun g hg => hlong g (mem_cons_of_mem _ hg), hrest⟩
    · rw [f.length_dataFrags]
      exact decide_eq_false (Nat.lt_irrefl _)
    · intro hnone
      refine hhere ?_
      rw [payloadBytes, f.payload_dataFrags, hnone]
      rfl

theorem Tracks.cut {es : List PendingFrag}
    (h : Tracks p a (es.filter (PendingFrag.on .key))) (hinter : e.on .inter = true)
    (hcut : p.here = [] ∨ bareEnd es = true) (ts : UInt32) :
    Completes (a.cut ts).2 p.flushCompletes ∧
      Tracks (p.next e) (a.cut ts).1 (es.filter (PendingFrag.on .key)) := by
  have hkey : e.on .key = false := PendingFrag.on_of_ne hinter (by decide)
  have hnext : p.next e = ⟨p.here, p.flushed || !p.here.isEmpty⟩ := by
    simp [Progress.next, keyBytes, hkey, hinter]
  rw [hnext, Progress.flushCompletes]
  obtain ⟨hflushed, h⟩ | ⟨hflushed, f, fs, hready, hrest⟩ := h
  · by_cases hhere : p.here = []
    · rw [hhere] at h
      rw [h.cut_nil ts, if_neg fun hc => hc.2 hhere]
      refine ⟨completes_nil, .inl ⟨?_, hhere ▸ h⟩⟩
      rw [hflushed, hhere]
      rfl
    · obtain ⟨hcompletes, hrest⟩ := h.cut_bare hhere (hcut.resolve_left hhere) ts
      rw [if_pos ⟨hflushed, hhere⟩]
      refine ⟨hcompletes, .inr ⟨?_, hrest⟩⟩
      simpa using .inr hhere
  · have hstay : a.cut ts = (a, []) := ((hready.cut ts).resolve_right fun hc => hc.1 rfl).2
    rw [hstay, if_neg fun hc => Bool.false_ne_true (hc.1.symm.trans hflushed)]
    refine ⟨completes_nil, .inr ⟨?_, f, fs, hready, hrest⟩⟩
    rw [hflushed, Bool.true_or]

end

theorem Underway.own_inter {a : ChannelAsm} {here : Bytes} {e : PendingFrag}
    {rest : List PendingFrag} (h : Underway a here (e :: rest)) :
    a.jump .inter e = (a, []) ∧
      Completes (a.own .inter e).2 (if hasTrailer e.payload then [.inter] else []) ∧
      ∃ here', Underway (a.own .inter e).1 here' rest := by
  cases htrailer : hasTrailer e.payload with
  | false =>
    obtain ⟨hjump, hout, hnext⟩ := h.own_plain htrailer .inter
    rw [hout]
    exact ⟨hjump, completes_nil, _, hnext⟩
  | true =>
    obtain ⟨hjump, hnext, hlen, frameNum, ts, onlineNum, hout⟩ := h.own_closing htrailer .inter
    rw [hout]
    exact ⟨hjump, completes_singleton ⟨hlen, rfl⟩ rfl, _, hnext⟩

/-- **The assembly completes frames in the order of the machine**, as long as an IDR is cut
only at its bare end fragment. -/
theorem run_completes {es : List PendingFrag} {A : Assembly} {p : Progress} {here : Bytes}
    (hkey : Tracks p A.key (es.filter (PendingFrag.on .key)))
    (hinter : Underway A.inter here (es.filter (PendingFrag.on .inter)))
    (hcut : AtEach (fun pre e post => e.on .inter = true →
      pre.foldl keyBytes p.here = [] ∨ bareEnd post = true) es) :
    Completes (A.run es).2 (p.completions es) := by
  induction es generalizing A p here with
  | nil => exact completes_nil
  | cons e es ih =>
    obtain ⟨hnow, hlater⟩ := atEach_cons.mp hcut
    have hlater' : AtEach (fun pre e' post => e'.on .inter = true →
        pre.foldl keyBytes (p.next e).here = [] ∨ bareEnd post = true) es := hlater
    rw [Assembly.run, Progress.completions]
    cases hon : e.on .key with
    | true =>
      have hoff : e.on .inter = false := PendingFrag.on_of_ne hon (by decide)
      rw [filter_cons_of_pos hon] at hkey
      rw [filter_cons_of_neg (by simp [hoff])] at hinter
      obtain ⟨hcompletes, htracks⟩ := hkey.own hon
      rw [Assembly.step_of_on_key hon]
      exact hcompletes.append (ih htracks hinter hlater')
    | false =>
      rw [filter_cons_of_neg (by simp [hon])] at hkey
      cases hon' : e.on .inter with
      | true =>
        rw [filter_cons_of_pos hon'] at hinter
        obtain ⟨hcompletes, htracks⟩ := hkey.cut hon' (hnow hon')
          (stripFragmentMetadataTrailer e.payload).ts
        obtain ⟨hjump, hown, here', hunderway⟩ := hinter.own_inter
        rw [Assembly.step_of_on_inter hon' hjump, Progress.completes, hon, hon',
          if_neg Bool.false_ne_true, if_pos rfl]
        exact (hcompletes.append hown).append (ih htracks hunderway hlater')
      | false =>
        rw [filter_cons_of_neg (by simp [hon'])] at hinter
        have hnext : p.next e = p := by simp [Progress.next, keyBytes, hon, hon']
        have hnone : p.completes e = [] := by simp [Progress.completes, hon, hon']
        obtain ⟨hasm, hout⟩ := A.step_of_not_on hon hon'
        rw [hnext] at hlater'
        rw [hnone, hnext, hasm]
        refine Completes.append ?_ (ih hkey hinter hlater')
        rcases hout with hout | hout
        · rw [hout]
          exact completes_nil
        · rw [hout]
          exact ⟨fun o ho => by obtain rfl := mem_singleton.mp ho; trivial, rfl⟩

/-! ### Both modes -/

namespace Interleaving

variable (iv : Interleaving)

theorem completes_of_cutAtEnd (h : CutAtEnd iv.stream) :
    Completes (Assembly.zero.run iv.stream).2 (Progress.zero.completions iv.stream) := by
  have hunderway : ∀ ch, Underway ChannelAsm.zero [] (iv.stream.filter (PendingFrag.on ch)) := by
    intro ch
    rw [iv.order ch]
    exact idle_zero.underway (iv.long ch)
  exact run_completes (.inl ⟨rfl, hunderway .key⟩) (hunderway .inter) h

theorem cutAtEnd_of_showsAll (hunsplit : Unsplit iv.stream)
    (hshows : (Assembler.new true).ShowsAll (Assembly.zero.run iv.stream).2) :
    CutAtEnd iv.stream := by
  refine cutAtEnd_of_intact idle_zero (iv.order .key) (iv.long .key) hunsplit fun o ho => ?_
  have hlane : (Assembly.zero.run iv.stream).2.filter (Outcome.onChannel .key) =
      (ChannelAsm.zero.laneRun .key iv.stream).2 := (Assembly.zero.run_lane iv.stream .key).2
  rw [← hlane] at ho
  exact Assembler.intact_of_showsAll rfl hshows .key o (mem_of_mem_filter ho)

/-- **Strict mode, exactly.** -/
theorem assembled_strict_iff :
    iv.Assembled true ↔
      CutAtEnd iv.stream ∧ Served (Progress.zero.completions iv.stream) := by
  have hserved : CutAtEnd iv.stream →
      ((Assembler.new true).ShowsAll (Assembly.zero.run iv.stream).2 ↔
        Served (Progress.zero.completions iv.stream)) := by
    intro hcut
    obtain ⟨hregular, hcompletes⟩ := iv.completes_of_cutAtEnd hcut
    rw [Assembler.showsAll_strict rfl hregular, hcompletes]
    exact and_iff_right fun hpoisoned => absurd hpoisoned Bool.false_ne_true
  rw [iv.assembled_iff]
  constructor
  · rintro ⟨hunsplit, hshows⟩
    have hcut := iv.cutAtEnd_of_showsAll hunsplit hshows
    exact ⟨hcut, (hserved hcut).mp hshows⟩
  · rintro ⟨hcut, h⟩
    exact ⟨hcut.unsplit, (hserved hcut).mpr h⟩

end Interleaving

/-- **When interleaved channels do not disturb each other.** Outside strict mode all frames
come out whole exactly if no fragment of the inter channel arrives while bytes of an IDR
are pending and others still to come. In strict mode they do exactly if none arrives while
bytes are pending and anything but a bare end fragment is still to come, and nothing that
needs an IDR completes right after an end fragment orphaned that way. In both modes it is
enough that none arrives while bytes are pending, and that is exactly the condition if
every end fragment of an IDR carries more than its trailer. -/
theorem interleaving_assembled (iv : Interleaving) :
    (iv.Assembled false ↔ Unsplit iv.stream) ∧
      (iv.Assembled true ↔
        CutAtEnd iv.stream ∧ Served (Progress.zero.completions iv.stream)) ∧
      (Quiet iv.stream → ∀ strict, iv.Assembled strict) ∧
      ((∀ f ∈ iv.frames .key, f.tail.stripped ≠ []) →
        ∀ strict, (iv.Assembled strict ↔ Quiet iv.stream)) := by
  have hquiet : Quiet iv.stream → ∀ strict, iv.Assembled strict := fun h strict =>
    iv.assembled_iff.mpr
      ⟨h.unsplit, Assembler.showsAll_of_intact (.inr ⟨rfl, iv.intact_of_quiet h⟩)⟩
  refine ⟨iv.assembled_iff.trans ?_, iv.assembled_strict_iff, hquiet, fun htail strict => ?_⟩
  · exact and_iff_left (Assembler.showsAll_of_intact (.inl rfl))
  · refine ⟨fun h => ?_, fun h => hquiet h strict⟩
    exact quiet_of_tail htail (iv.order .key) (iv.not_split_of_assembled h)

/-- The inter frame arrives between the two fragments of the IDR. -/
def interMidIDR : Interleaving where
  frames
    | .key => [sampleIDR]
    | .inter => [sampleInter]
  stream := sampleIDR.dataFrags ++ sampleInter.frags ++ [sampleIDR.endFrag]
  channel ch f hf := by
    cases ch <;> (obtain rfl := mem_singleton.mp hf; rfl)
  long ch f hf := by
    cases ch <;> (obtain rfl := mem_singleton.mp hf; decide)
  order ch := by cases ch <;> decide

/-- **An inter frame in the middle of an IDR truncates the IDR**: the bytes of its end
fragment are lost, in both modes. -/
theorem idr_truncated_by_inter_frame :
    ¬ interMidIDR.Assembled false ∧ ¬ interMidIDR.Assembled true ∧
      ((Assembler.new false).emitAll interMidIDR.stream).framesOut .key =
        [(100, [0, 0, 0, 1, 0x65, 0x88])] := by
  refine ⟨fun h => ?_, fun h => ?_, by decide⟩
  · exact absurd (h .key) (by decide)
  · exact absurd (h .key) (by decide)

end PetlibroLocal
