import PetlibroLocal.Camera.Datagram

/-!
# Handing Fragments Over in Order

Two drains move the same cursor over the fragment buffer. Both take out the lowest entry
there is, one after the other (`Client.Inv.release`), so what reaches `emit` has strictly
increasing sequence positions, whatever the order, the loss and the duplication on the
wire.

The main results are `Client.Inv.parseDatagram`, `Client.Inv.forceDrain`, `handoff_in_order` and
`buffer_drained`.
-/

namespace PetlibroLocal

open List

/-- The fragment that a datagram carries, when it is a media packet whose sequence
position can be unwrapped, with the sequence counters behind it. -/
def Client.accepts (c : Client) (pkt : Bytes) : Option (PendingFrag × SeqTracker) :=
  match classifyDatagram pkt with
  | .media m => (c.seq.observe m.subWire).map fun r => (m.fragment r.1, r.2)
  | _ => none

/-- **The hand-off invariant**: buffered fragments lie between cursor and high mark,
under their own positions; what was handed to `emit` lies behind the cursor and is
increasing; and every fragment in either place satisfies `P`. The assembler has seen
exactly the fragments handed over. -/
structure Client.Inv (c : Client) (asm₀ : Assembler) (P : PendingFrag → Prop) : Prop where
  cursor_le : ∀ k ∈ c.avBuffer, c.avNextExt ≤ k
  le_high : ∀ k ∈ c.avBuffer, k ≤ c.seq.avHighExt
  next_le : c.avNextExt ≤ c.seq.avHighExt + 1
  position : ∀ k e, c.avBuffer.lookup k = some e → e.subExt = k
  behind : ∀ e ∈ c.emitted, e.subExt < c.avNextExt
  increasing : (c.emitted.map PendingFrag.subExt).Pairwise (· < ·)
  buffered : ∀ k e, c.avBuffer.lookup k = some e → P e
  handed : ∀ e ∈ c.emitted, P e
  assembled : c.asm = asm₀.emitAll c.emitted

namespace Client.Inv

variable {c : Client} {asm₀ : Assembler} {P : PendingFrag → Prop}

theorem mem_of_lookup {k : ℕ} {e : PendingFrag} (h : c.avBuffer.lookup k = some e) :
    k ∈ c.avBuffer :=
  AList.lookup_isSome.mp (by rw [h]; rfl)

theorem mono {Q : PendingFrag → Prop} (h : c.Inv asm₀ P) (hPQ : ∀ e, P e → Q e) :
    c.Inv asm₀ Q :=
  { h with
    buffered := fun k e hk => hPQ e (h.buffered k e hk)
    handed := fun e he => hPQ e (h.handed e he) }

/-- **Releasing the lowest entry** keeps the invariant. -/
theorem release (h : c.Inv asm₀ P) {k : ℕ} {e : PendingFrag}
    (hk : c.avBuffer.lookup k = some e) (hmin : ∀ k' ∈ c.avBuffer, k ≤ k') :
    (c.release k e).Inv asm₀ P := by
  have hmem := mem_of_lookup hk
  have hpos := h.position k e hk
  have hcur := h.cursor_le k hmem
  have hhigh := h.le_high k hmem
  have hlookup : ∀ k' e', (c.avBuffer.erase k).lookup k' = some e' →
      c.avBuffer.lookup k' = some e' := by
    intro k' e' hk'
    by_cases heq : k' = k
    · rw [heq, AList.lookup_erase] at hk'
      cases hk'
    · rwa [AList.lookup_erase_ne heq] at hk'
  refine
    { cursor_le := fun k' hk' => ?_
      le_high := fun k' hk' => h.le_high k' (AList.mem_erase.mp hk').2
      next_le := Nat.succ_le_succ hhigh
      position := fun k' e' hk' => h.position k' e' (hlookup k' e' hk')
      behind := fun e' he' => ?_
      increasing := ?_
      buffered := fun k' e' hk' => h.buffered k' e' (hlookup k' e' hk')
      handed := fun e' he' => ?_
      assembled := ?_ }
  · obtain ⟨hne, hk''⟩ := AList.mem_erase.mp hk'
    exact Nat.lt_of_le_of_ne (hmin k' hk'') (Ne.symm hne)
  · rcases mem_append.mp he' with hold | hnew
    · have := h.behind e' hold
      exact Nat.lt_succ_of_le (by omega)
    · obtain rfl := mem_singleton.mp hnew
      exact Nat.lt_succ_of_le hpos.le
  · rw [Client.release, map_append, pairwise_append]
    refine ⟨h.increasing, pairwise_singleton _ _, fun p hp q hq => ?_⟩
    obtain ⟨e', he', rfl⟩ := mem_map.mp hp
    obtain rfl : q = e.subExt := by simpa using hq
    have := h.behind e' he'
    omega
  · rcases mem_append.mp he' with hold | hnew
    · exact h.handed e' hold
    · obtain rfl := mem_singleton.mp hnew
      exact h.buffered k e' hk
  · simp only [Client.release, h.assembled, Assembler.emitAll, foldl_append, foldl_cons, foldl_nil]

theorem drainLoop (fuel : ℕ) (h : c.Inv asm₀ P) : (c.drainLoop fuel).Inv asm₀ P := by
  induction fuel generalizing c with
  | zero => exact h
  | succ fuel ih =>
    rw [Client.drainLoop]
    cases hk : c.avBuffer.lookup c.avNextExt with
    | none => exact h
    | some e => exact ih (h.release hk h.cursor_le)

theorem releaseKeys (h : c.Inv asm₀ P) {ks : List ℕ} (hsorted : ks.Pairwise (· < ·))
    (hbuffered : ∀ k ∈ ks, k ∈ c.avBuffer)
    (hbelow : ∀ k' ∈ c.avBuffer, k' ∈ ks ∨ ∀ k ∈ ks, k < k') :
    (ks.foldl Client.releaseKey c).Inv asm₀ P := by
  induction ks generalizing c with
  | nil => exact h
  | cons k ks ih =>
    obtain ⟨hlt, hsorted'⟩ := pairwise_cons.mp hsorted
    obtain ⟨e, hk⟩ := Option.isSome_iff_exists.mp
      (AList.lookup_isSome.mpr (hbuffered k mem_cons_self))
    have hrel : c.releaseKey k = c.release k e := by rw [Client.releaseKey, hk]
    have hmin : ∀ k' ∈ c.avBuffer, k ≤ k' := by
      intro k' hk'
      rcases hbelow k' hk' with hmem | habove
      · rcases mem_cons.mp hmem with rfl | hmem'
        · exact le_rfl
        · exact (hlt k' hmem').le
      · exact (habove k mem_cons_self).le
    rw [foldl_cons, hrel]
    refine ih (h.release hk hmin) hsorted' (fun k' hk' => ?_) fun k' hk' => ?_
    · exact AList.mem_erase.mpr
        ⟨(hlt k' hk').ne', hbuffered k' (mem_cons_of_mem k hk')⟩
    · obtain ⟨hne, hk''⟩ := AList.mem_erase.mp hk'
      rcases hbelow k' hk'' with hmem | habove
      · exact .inl ((mem_cons.mp hmem).resolve_left hne)
      · exact .inr fun k₂ hk₂ => habove k₂ (mem_cons_of_mem k hk₂)

theorem countStall (h : c.Inv asm₀ P) : c.countStall.Inv asm₀ P := by
  rw [Client.countStall]
  split_ifs
  · exact { h with }
  · exact { h with }

/-- **A tick keeps the invariant.** -/
theorem forceDrain (h : c.Inv asm₀ P) : c.forceDrain.Inv asm₀ P := by
  rw [Client.forceDrain]
  split_ifs with hempty
  · exact { h with }
  · have hstall := h.countStall
    simp only
    generalize c.countStall = c₁ at hstall
    generalize decide (forceDrainStallTicks ≤ c₁.stallTicks) = stalled
    have hmem : ∀ k, k ∈ c₁.flushKeys stalled ↔
        k ∈ c₁.avBuffer ∧ (stalled = true ∨ k ≤ c₁.seq.avHighExt - 8) := by
      intro k
      rw [Client.flushKeys, mem_insertionSort, mem_filter, AList.mem_keys]
      simp
    have hnodup : (c₁.flushKeys stalled).Nodup :=
      (perm_insertionSort _ _).nodup_iff.mpr (c₁.avBuffer.keys_nodup.filter _)
    have hsorted : (c₁.flushKeys stalled).Pairwise (· < ·) :=
      ((pairwise_insertionSort (· ≤ ·) _).and hnodup).imp
        fun hle => Nat.lt_of_le_of_ne hle.1 hle.2
    have hdrain := hstall.releaseKeys hsorted (fun k hk => ((hmem k).mp hk).1) fun k' hk' => by
      by_cases hflush : stalled = true ∨ k' ≤ c₁.seq.avHighExt - 8
      · exact .inl ((hmem k').mpr ⟨hk', hflush⟩)
      · -- an entry that stays lies above the threshold, hence above every flushed key
        rw [not_or] at hflush
        refine .inr fun k hk => ?_
        have := ((hmem k).mp hk).2.resolve_left hflush.1
        omega
    split_ifs
    · exact hstall
    · exact hstall
    · exact { hdrain with }
    · exact hdrain

theorem withSeq (h : c.Inv asm₀ P) {seq : SeqTracker} (ack : AckTracking)
    (hle : c.seq.avHighExt ≤ seq.avHighExt) :
    ({ c with seq := seq, ack := ack } : Client).Inv asm₀ P :=
  { h with
    le_high := fun k hk => Nat.le_trans (h.le_high k hk) hle
    next_le := Nat.le_trans h.next_le (Nat.succ_le_succ hle) }

theorem insert (h : c.Inv asm₀ P) {e : PendingFrag} (hP : P e)
    (hcursor : c.avNextExt ≤ e.subExt) (hhigh : e.subExt ≤ c.seq.avHighExt) :
    ({ c with avBuffer := c.avBuffer.insert e.subExt e } : Client).Inv asm₀ P := by
  have hlookup : ∀ k e', (c.avBuffer.insert e.subExt e).lookup k = some e' →
      (k = e.subExt ∧ e' = e) ∨ c.avBuffer.lookup k = some e' := by
    intro k e' hk
    by_cases heq : k = e.subExt
    · rw [heq, AList.lookup_insert] at hk
      exact .inl ⟨heq, (Option.some.inj hk).symm⟩
    · rw [AList.lookup_insert_ne heq] at hk
      exact .inr hk
  refine
    { h with
      cursor_le := fun k hk => ?_
      le_high := fun k hk => ?_
      position := fun k e' hk => ?_
      buffered := fun k e' hk => ?_ }
  · rcases (AList.mem_insert _).mp hk with rfl | hold
    · exact hcursor
    · exact h.cursor_le k hold
  · rcases (AList.mem_insert _).mp hk with rfl | hold
    · exact hhigh
    · exact h.le_high k hold
  · rcases hlookup k e' hk with ⟨rfl, rfl⟩ | hold
    · rfl
    · exact h.position k e' hold
  · rcases hlookup k e' hk with ⟨rfl, rfl⟩ | hold
    · exact hP
    · exact h.buffered k e' hold

theorem bufferFragment (h : c.Inv asm₀ P) {e : PendingFrag} {seq : SeqTracker} (hP : P e)
    (hle : c.seq.avHighExt ≤ seq.avHighExt) (hhigh : e.subExt ≤ seq.avHighExt) :
    (c.bufferFragment e seq).Inv asm₀ P := by
  have hseq := h.withSeq (c.ack.markACKReceived e.subExt) hle
  rw [Client.bufferFragment]
  split_ifs with hlate
  · exact hseq
  · exact (hseq.insert hP (Nat.le_of_not_lt hlate) hhigh).drainLoop _

end Client.Inv

theorem SeqTracker.observe_high {s s' : SeqTracker} {wire : UInt16} {n : ℕ}
    (h : s.observe wire = some (n, s')) :
    n ≤ s'.avHighExt ∧ s.avHighExt ≤ s'.avHighExt := by
  rw [SeqTracker.observe] at h
  cases hext : s.wrap.extend wire with
  | none =>
    rw [hext] at h
    cases h
  | some subExt =>
    rw [hext] at h
    simp only at h
    split_ifs at h with hnew
    · cases h
      exact ⟨le_rfl, hnew.le⟩
    · cases h
      exact ⟨Nat.le_of_not_lt hnew, le_rfl⟩

/-- **A datagram keeps the invariant**, when what it carries satisfies `P`. -/
theorem Client.Inv.parseDatagram {c : Client} {asm₀ : Assembler} {P : PendingFrag → Prop}
    (h : c.Inv asm₀ P) {pkt : Bytes} (hP : ∀ e seq, c.accepts pkt = some (e, seq) → P e) :
    (c.parseDatagram pkt).Inv asm₀ P := by
  rw [Client.parseDatagram]
  cases hclass : classifyDatagram pkt with
  | ignored => exact h
  | probe | reliable => exact { h with }
  | media m =>
    simp only
    cases hobs : c.seq.observe m.subWire with
    | none => exact h
    | some r =>
      obtain ⟨hhigh, hle⟩ := SeqTracker.observe_high hobs
      have haccepts : c.accepts pkt = some (m.fragment r.1, r.2) := by
        simp only [Client.accepts, hclass, hobs, Option.map_some]
      exact h.bufferFragment (hP _ _ haccepts) hle hhigh

/-! ### Frame conditions of the drains -/

theorem Client.drainLoop_ack (fuel : ℕ) (c : Client) : (c.drainLoop fuel).ack = c.ack := by
  induction fuel generalizing c with
  | zero => rfl
  | succ fuel ih =>
    rw [Client.drainLoop]
    split
    · rfl
    · rw [ih]
      rfl

theorem Client.releaseKeys_ack (ks : List ℕ) (c : Client) :
    (ks.foldl Client.releaseKey c).ack = c.ack := by
  induction ks generalizing c with
  | nil => rfl
  | cons k ks ih =>
    rw [foldl_cons, ih, Client.releaseKey]
    split <;> rfl

theorem Client.forceDrain_ack (c : Client) : c.forceDrain.ack = c.ack := by
  have hstall : c.countStall.ack = c.ack := by
    rw [Client.countStall]
    split_ifs <;> rfl
  rw [Client.forceDrain]
  split_ifs
  · rfl
  · simp only
    split_ifs
    · exact hstall
    · exact hstall
    · exact (Client.releaseKeys_ack _ _).trans hstall
    · exact (Client.releaseKeys_ack _ _).trans hstall

theorem Client.drainContiguous_stops (c : Client) :
    c.drainContiguous.avBuffer.lookup c.drainContiguous.avNextExt = none := by
  have hloop : ∀ fuel (c : Client), c.avBuffer.keys.length ≤ fuel →
      (c.drainLoop fuel).avBuffer.lookup (c.drainLoop fuel).avNextExt = none := by
    intro fuel
    induction fuel with
    | zero =>
      intro c hlen
      have hnil := eq_nil_of_length_eq_zero (Nat.le_zero.mp hlen)
      rw [Client.drainLoop, AList.lookup_eq_none, AList.mem_keys, hnil]
      exact not_mem_nil
    | succ fuel ih =>
      intro c hlen
      rw [Client.drainLoop]
      cases hk : c.avBuffer.lookup c.avNextExt with
      | none => exact hk
      | some e =>
        refine ih _ ?_
        have hmem := AList.mem_keys.mp (Client.Inv.mem_of_lookup hk)
        rw [Client.release, AList.keys_erase, length_erase_of_mem hmem]
        omega
  exact hloop _ c le_rfl

/-! ### Whole runs -/

theorem Client.run_concat (c : Client) (inputs : List ClientInput) (i : ClientInput) :
    c.run (inputs ++ [i]) = (c.run inputs).step i := by
  rw [Client.run, foldl_append]
  rfl

/-- A fragment came from a datagram of the run that was accepted on its arrival. -/
def Client.CameFrom (c : Client) (inputs : List ClientInput) (e : PendingFrag) : Prop :=
  ∃ pre pkt post seq, inputs = pre ++ .datagram pkt :: post ∧
    (c.run pre).accepts pkt = some (e, seq)

theorem Client.inv_bootstrap {c₀ c : Client} {avMax : UInt16}
    (hboot : c₀.bootstrap avMax = some c) : c.Inv c.asm (c.CameFrom []) := by
  rw [Client.bootstrap] at hboot
  cases hseq : SeqTracker.bootstrap avMax with
  | none =>
    rw [hseq] at hboot
    cases hboot
  | some seq =>
    rw [hseq] at hboot
    cases hboot
    have hle : seq.wrap.ext ≤ seq.avHighExt + 1 := by
      by_cases hlow : avMax < 0x3FFF
      · rw [SeqTracker.bootstrap, if_pos hlow] at hseq
        cases hseq
      · rw [SeqTracker.bootstrap_eq (UInt16.not_lt.mp hlow)] at hseq
        cases hseq
        exact le_rfl
    exact
      { cursor_le := fun k hk => absurd hk (AList.notMem_empty k)
        le_high := fun k hk => absurd hk (AList.notMem_empty k)
        next_le := hle
        position := fun k e hk => by cases (AList.lookup_empty k).symm.trans hk
        behind := forall_mem_nil _
        increasing := List.Pairwise.nil
        buffered := fun k e hk => by cases (AList.lookup_empty k).symm.trans hk
        handed := forall_mem_nil _
        assembled := rfl }

theorem Client.inv_run {c : Client} (h : c.Inv c.asm (c.CameFrom []))
    (inputs : List ClientInput) : (c.run inputs).Inv c.asm (c.CameFrom inputs) := by
  induction inputs using List.reverseRecOn with
  | nil => exact h
  | append_singleton inputs i ih =>
    rw [Client.run_concat]
    have hmono : (c.run inputs).Inv c.asm (c.CameFrom (inputs ++ [i])) := by
      refine ih.mono ?_
      rintro e ⟨pre, pkt, post, seq, rfl, haccepts⟩
      exact ⟨pre, pkt, post ++ [i], seq, by simp, haccepts⟩
    cases i with
    | datagram pkt =>
      exact hmono.parseDatagram fun e seq haccepts => ⟨inputs, pkt, [], seq, rfl, haccepts⟩
    | tick => exact hmono.forceDrain

/-- **Fragments are handed over in order and at most once.** Take any interleaving of
datagrams and ticks from a state that bootstrap leaves. The sequence positions passed to
`emit` are strictly increasing, each was carried by a datagram accepted earlier in the
run, and the buffered positions lie between cursor and high mark. In any state, neither
drain changes the acknowledgement state, and `drainContiguous` goes on to the first
position that is missing. -/
theorem handoff_in_order {c₀ c : Client} {bootstrapAVMax : UInt16}
    (hboot : c₀.bootstrap bootstrapAVMax = some c) (inputs : List ClientInput) :
    let c' := c.run inputs
    c'.asm = c.asm.emitAll c'.emitted ∧
      (c'.emitted.map PendingFrag.subExt).Pairwise (· < ·) ∧
      (∀ e ∈ c'.emitted, ∃ pre pkt post seq, inputs = pre ++ .datagram pkt :: post ∧
        (c.run pre).accepts pkt = some (e, seq)) ∧
      (∀ k ∈ c'.avBuffer, c'.avNextExt ≤ k ∧ k ≤ c'.seq.avHighExt) ∧
      c'.avNextExt ≤ c'.seq.avHighExt + 1 ∧
      ∀ d : Client, d.forceDrain.ack = d.ack ∧ d.drainContiguous.ack = d.ack ∧
        d.drainContiguous.avBuffer.lookup d.drainContiguous.avNextExt = none := by
  have hinv := Client.inv_run (Client.inv_bootstrap hboot) inputs
  refine ⟨hinv.assembled, hinv.increasing, hinv.handed, fun k hk => ?_, hinv.next_le,
    fun d => ⟨d.forceDrain_ack, d.drainLoop_ack _, d.drainContiguous_stops⟩⟩
  exact ⟨hinv.cursor_le k hk, hinv.le_high k hk⟩

/-- A datagram with one data fragment of one byte, at the given sequence position. -/
def oneByteDatagram (subWire : UInt16) : Bytes :=
  [0, 0, 0, flagsRecv, 0x31, 0, 0, 0] ++ putUint16 msgSessionD2C ++ List.replicate 18 0 ++
    [0x0c] ++ List.replicate 15 0 ++ [innerChKey, 0] ++ putUint16 subWire ++
    [2, 0, 0, 0, 1, 0, 0, 0, 7] ++ List.replicate 7 0 ++ [0xAA]

/-- Two datagrams arrive in the wrong order and are handed over in the right one. -/
theorem handoff_in_order_reordered :
    ∃ c, (Client.new false).bootstrap 0x3FFF = some c ∧
      let c' := c.run [.datagram (oneByteDatagram 0x4001), .datagram (oneByteDatagram 0x4000)]
      c'.emitted.map PendingFrag.subExt = [0x4000, 0x4001] ∧
        (c'.emitted.map PendingFrag.subExt).Pairwise (· < ·) := by
  have hboot : (Client.new false).bootstrap 0x3FFF = some _ := rfl
  exact ⟨_, hboot, by decide +kernel, (handoff_in_order hboot _).2.1⟩

/-! ### Nothing stays in the buffer -/

namespace Client

/-- A fragment waits at a position, or it has been handed over. -/
def Holds (c : Client) (k : ℕ) (e : PendingFrag) : Prop :=
  c.avBuffer.lookup k = some e ∨ e ∈ c.emitted

/-- The number of ticks that empty the buffer. -/
def patience (c : Client) : ℕ :=
  if c.seq.avHighExt = c.lastHighExt then 5 - c.stallTicks.toNat else 6

/-- What the release of some keys does. -/
structure Flushed (ks : List ℕ) (c c' : Client) : Prop where
  holds : ∀ {k e}, c.Holds k e → c'.Holds k e
  mem : ∀ {k}, k ∈ c'.avBuffer → k ∈ c.avBuffer ∧ k ∉ ks
  seq : c'.seq = c.seq
  stallTicks : c'.stallTicks = c.stallTicks
  lastHighExt : c'.lastHighExt = c.lastHighExt

/-- What a tick does. -/
structure Ticked (c c' : Client) : Prop where
  holds : ∀ {k e}, c.Holds k e → c'.Holds k e
  stallTicks : c'.stallTicks < forceDrainStallTicks
  waits : ∀ k ∈ c'.avBuffer, k ∈ c.avBuffer ∧ c.seq.avHighExt < k + 8 ∧ c'.patience < c.patience

variable {c : Client} {k n : ℕ} {e : PendingFrag}

theorem flushed_releaseKey (c : Client) (k : ℕ) : Flushed [k] c (c.releaseKey k) := by
  rw [releaseKey]
  split
  · next e hk =>
    refine ⟨?_, fun h => ?_, rfl, rfl, rfl⟩
    · rintro k' e' (hk' | hemitted)
      · by_cases heq : k' = k
        · obtain rfl : e' = e := Option.some.inj (hk'.symm.trans (heq ▸ hk))
          exact .inr (mem_append_right _ mem_cons_self)
        · exact .inl ((AList.lookup_erase_ne heq).trans hk')
      · exact .inr (mem_append_left _ hemitted)
    · obtain ⟨hne, hmem⟩ := AList.mem_erase.mp h
      exact ⟨hmem, by simpa using hne⟩
  · next hnone =>
    refine ⟨id, fun {k'} h => ⟨h, fun hk' => ?_⟩, rfl, rfl, rfl⟩
    obtain rfl := mem_singleton.mp hk'
    exact AList.lookup_eq_none.mp hnone h

theorem flushed (ks : List ℕ) (c : Client) : Flushed ks c (ks.foldl releaseKey c) := by
  induction ks generalizing c with
  | nil => exact ⟨id, fun h => ⟨h, not_mem_nil⟩, rfl, rfl, rfl⟩
  | cons k ks ih =>
    have h₁ := flushed_releaseKey c k
    have h₂ := ih (c.releaseKey k)
    refine ⟨fun h => h₂.holds (h₁.holds h), fun h => ?_, h₂.seq.trans h₁.seq,
      h₂.stallTicks.trans h₁.stallTicks, h₂.lastHighExt.trans h₁.lastHighExt⟩
    obtain ⟨hmem, hks⟩ := h₂.mem h
    obtain ⟨hmem, hk⟩ := h₁.mem hmem
    exact ⟨hmem, fun h => (mem_cons.mp h).elim (hk <| mem_singleton.mpr ·) hks⟩

theorem patience_countStall (h : c.stallTicks < forceDrainStallTicks) :
    c.countStall.patience < c.patience := by
  have ht : c.stallTicks.toNat < 5 := UInt8.lt_iff_toNat_lt.mp h
  by_cases heq : c.seq.avHighExt = c.lastHighExt
  · have hsucc : (c.stallTicks + 1).toNat = c.stallTicks.toNat + 1 := by
      rw [UInt8.toNat_add]
      exact Nat.mod_eq_of_lt (by change _ + 1 < 256; omega)
    simp only [countStall, patience, heq, if_true, hsucc]
    omega
  · simp [countStall, patience, heq]

/-- A flush leaves only what is near the high mark, and nothing after a stall. -/
theorem mem_flush {stalled : Bool} (h : k ∈ ((c.flushKeys stalled).foldl releaseKey c).avBuffer) :
    k ∈ c.avBuffer ∧ stalled = false ∧ c.seq.avHighExt < k + 8 := by
  obtain ⟨hmem, hkeys⟩ := (flushed _ c).mem h
  rw [flushKeys, mem_insertionSort, mem_filter, ← AList.mem_keys] at hkeys
  simp only [hmem, Bool.or_eq_true, decide_eq_true_eq, true_and, not_or] at hkeys
  exact ⟨hmem, eq_false_of_ne_true hkeys.1, by omega⟩

theorem ticked (h : c.stallTicks < forceDrainStallTicks) : c.Ticked c.forceDrain := by
  have hcount := patience_countStall h
  obtain ⟨hbuffer, hemitted, hseq⟩ : c.countStall.avBuffer = c.avBuffer ∧
      c.countStall.emitted = c.emitted ∧ c.countStall.seq = c.seq := by
    rw [countStall]
    split_ifs <;> exact ⟨rfl, rfl, rfl⟩
  have hzero : (0 : UInt8) < forceDrainStallTicks := by decide
  rw [forceDrain]
  split_ifs with hempty
  · exact ⟨id, hzero, fun k hk => absurd (AList.mem_keys.mp hk) (hempty ▸ not_mem_nil)⟩
  · simp only
    rw [← hbuffer] at hempty
    have hholds : ∀ {k e}, c.Holds k e → c.countStall.Holds k e := by
      simp [Holds, hbuffer, hemitted]
    generalize c.countStall = c₁ at *
    by_cases hstalled : forceDrainStallTicks ≤ c₁.stallTicks
    · have hnil : c₁.flushKeys true ≠ [] := by
        intro hnil
        obtain ⟨k, hk⟩ := exists_mem_of_ne_nil _ hempty
        exact absurd (@mem_flush c₁ k true (by rw [hnil]; exact hk)).2.1 (by decide)
      simp only [hstalled, decide_true, Bool.not_true, Bool.false_and, Bool.false_eq_true, if_false,
        if_true, if_neg hnil]
      exact ⟨fun h => (flushed _ c₁).holds (hholds h), hzero,
        fun k hk => absurd (mem_flush hk).2.1 (by decide)⟩
    · have hlt := UInt8.not_le.mp hstalled
      have hflushed := flushed (c₁.flushKeys false) c₁
      have hflush : c.Ticked ((c₁.flushKeys false).foldl releaseKey c₁) := by
        refine ⟨fun h => hflushed.holds (hholds h), hflushed.stallTicks ▸ hlt, fun k hk => ?_⟩
        obtain ⟨hmem, -, hhigh⟩ := mem_flush hk
        refine ⟨hbuffer ▸ hmem, hseq ▸ hhigh, ?_⟩
        rwa [patience, hflushed.seq, hflushed.stallTicks, hflushed.lastHighExt]
      simp only [hstalled, decide_false, Bool.not_false, Bool.true_and, decide_eq_true_eq,
        Bool.false_eq_true, if_false]
      split_ifs with hlow hnil
      · exact ⟨hholds, hlt, fun k hk => ⟨hbuffer ▸ hk, by rw [← hseq]; omega, hcount⟩⟩
      · rwa [hnil] at hflush
      · exact hflush

theorem stallTicks_parseDatagram (c : Client) (pkt : Bytes) :
    (c.parseDatagram pkt).stallTicks = c.stallTicks := by
  have hdrain : ∀ fuel (c : Client), (c.drainLoop fuel).stallTicks = c.stallTicks := by
    intro fuel
    induction fuel with
    | zero => exact fun c => rfl
    | succ fuel ih =>
      intro c
      rw [drainLoop]
      split
      · rfl
      · exact ih _
  rw [parseDatagram]
  split
  · rfl
  · rfl
  · rfl
  · split
    · rfl
    · rw [bufferFragment]
      split_ifs
      · rfl
      · exact hdrain _ _

theorem stallTicks_run (h : c.stallTicks < forceDrainStallTicks) (inputs : List ClientInput) :
    (c.run inputs).stallTicks < forceDrainStallTicks := by
  induction inputs generalizing c with
  | nil => exact h
  | cons i inputs ih =>
    cases i with
    | datagram pkt => exact ih ((stallTicks_parseDatagram c pkt).symm ▸ h)
    | tick => exact ih (ticked h).stallTicks

theorem Holds.ticks (h : c.Holds k e) (hticks : c.stallTicks < forceDrainStallTicks) (n : ℕ) :
    (c.run (List.replicate n .tick)).Holds k e := by
  induction n generalizing c with
  | zero => exact h
  | succ n ih => exact ih ((ticked hticks).holds h) (ticked hticks).stallTicks

theorem lt_patience_of_ticks (hticks : c.stallTicks < forceDrainStallTicks)
    (hk : k ∈ (c.run (List.replicate n .tick)).avBuffer) : k ∈ c.avBuffer ∧ n < c.patience := by
  induction n generalizing c with
  | zero =>
    have ht : c.stallTicks.toNat < 5 := UInt8.lt_iff_toNat_lt.mp hticks
    refine ⟨hk, ?_⟩
    rw [patience]
    split_ifs <;> omega
  | succ n ih =>
    obtain ⟨hmem, hlt⟩ := ih (ticked hticks).stallTicks hk
    obtain ⟨hmem, -, hless⟩ := (ticked hticks).waits k hmem
    exact ⟨hmem, by omega⟩

end Client

/-- **Nothing is stranded in the buffer.** In every run, a tick leaves only positions from which the
high mark is less than eight away, and six ticks without a datagram hand over all that waits. -/
theorem buffer_drained {strict : Bool} {c : Client} {bootstrapAVMax : UInt16}
    (hboot : (Client.new strict).bootstrap bootstrapAVMax = some c) (inputs : List ClientInput) :
    let c' := c.run inputs
    let later := c'.run (List.replicate 6 .tick)
    (∀ k ∈ c'.forceDrain.avBuffer, c'.seq.avHighExt < k + 8) ∧ later.avBuffer.keys = [] ∧
      ∀ k e, c'.avBuffer.lookup k = some e → e ∈ later.emitted := by
  have hzero : c.stallTicks < forceDrainStallTicks := by
    rw [Client.bootstrap] at hboot
    split at hboot
    · cases hboot
    · cases hboot
      exact show (0 : UInt8) < forceDrainStallTicks by decide
  have hticks := Client.stallTicks_run hzero inputs
  have hnone : ∀ k, k ∉ ((c.run inputs).run (List.replicate 6 .tick)).avBuffer := by
    intro k hk
    have hlt := (Client.lt_patience_of_ticks hticks hk).2
    rw [Client.patience] at hlt
    split_ifs at hlt <;> omega
  refine ⟨fun k hk => ((Client.ticked hticks).waits k hk).2.1, ?_, fun k e hk => ?_⟩
  · exact eq_nil_iff_forall_not_mem.mpr fun k hk => hnone k (AList.mem_keys.mpr hk)
  · exact (Client.Holds.ticks (.inl hk) hticks 6).resolve_left fun hwaits =>
      hnone k (Client.Inv.mem_of_lookup hwaits)

/-- A fragment that waits for a lost one is handed over. -/
theorem buffer_drained_gap :
    ∃ c, (Client.new false).bootstrap 0x3FFF = some c ∧
      let c' := c.run [.datagram (oneByteDatagram 0x4001)]
      c'.avBuffer.keys = [0x4001] ∧ (c'.run (List.replicate 6 .tick)).avBuffer.keys = [] := by
  have hboot : (Client.new false).bootstrap 0x3FFF = some _ := rfl
  exact ⟨_, hboot, by decide +kernel, (buffer_drained hboot _).2.1⟩

end PetlibroLocal
