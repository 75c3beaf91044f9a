import PetlibroLocal.Camera.VideoFrame
import PetlibroLocal.Lib.Splits

/-!
# Presentation Times

`emitAU` stamps every access unit with a presentation time: 90 ticks for each millisecond
since the camera time of the first stamped one, or one tick after the last stamp where the
camera time is missing or would go back. The guard against repeated stamps takes a last
stamp of 0 for "nothing stamped yet", although the first stamp is 0.

The main results are `Assembler.nextPTS_gt`, `Assembler.settle_stamp` and
`pts_increasing`.
-/

namespace PetlibroLocal

open List

/-! ### The camera time of an access unit -/

variable (s : Assembler)

/-- The state in which `emitAU` is called for the outcome: the camera time is noted. -/
def Assembler.timed : Outcome → Assembler
  | .ended _ _ _ _ ts _ => s.setPendingTs ts
  | .flushed _ _ _ ts => if 40 ≤ ts then s.setPendingTs (ts - 40) else s
  | _ => s

/-- The origin of the presentation times, for an access unit with camera time `u`. -/
def Assembler.origin (u : UInt32) : UInt32 :=
  if s.haveFirstTs then s.firstFrameTs else u

/-- **The camera time `u` can be stamped**: it is not before the origin, the stamp and
those of `n` access units fit in 32 bits, and it is not the origin itself if the last
stamp was 0. -/
structure Assembler.Stampable (s : Assembler) (n : ℕ) (u : UInt32) : Prop where
  origin_le : s.origin u ≤ u
  fits : (u.toNat - (s.origin u).toNat) * 90 + n < 2 ^ 32
  ne_origin : s.videoPackets ≠ [] → s.lastEmitTs = 0 → u ≠ s.origin u

/-- The access unit of the outcome can be stamped with its camera time, if it has one. -/
def Assembler.OnTime (n : ℕ) (o : Outcome) : Prop :=
  (s.timed o).havePendingTs = true → s.Stampable n (s.timed o).pendingFrameTs

/-! ### One stamp -/

/-- **Stamping keeps to the clock**: all stamps so far are increasing up to the last one,
which leaves room for those still to come. -/
structure Assembler.Clocked (s : Assembler) (n : ℕ) : Prop where
  increasing : (s.videoPackets.map (·.timestamp)).Pairwise (· < ·)
  le_last : ∀ p ∈ s.videoPackets, p.timestamp ≤ s.lastEmitTs
  zero : s.videoPackets = [] → s.lastEmitTs = 0
  room : s.lastEmitTs.toNat + n < 2 ^ 32 + s.videoPackets.length

variable {n : ℕ} {s : Assembler}

theorem toNat_cameraPTS {u origin : UInt32} (hle : origin ≤ u)
    (hfits : (u.toNat - origin.toNat) * 90 + n < 2 ^ 32) :
    ((u - origin) * 90).toNat = (u.toNat - origin.toNat) * 90 := by
  have hticks : (90 : UInt32).toNat = 90 := rfl
  rw [UInt32.toNat_mul, UInt32.toNat_sub_of_le _ _ hle, hticks]
  exact Nat.mod_eq_of_lt (by omega)

theorem toNat_lastEmitTs_succ {t : UInt32} (h : t.toNat + 1 < 2 ^ 32) :
    (t + 1).toNat = t.toNat + 1 := by
  rw [UInt32.toNat_add]
  exact Nat.mod_eq_of_lt h

/-- The stamp before the guard against repeated stamps. -/
def Assembler.rawPTS : UInt32 :=
  if s.havePendingTs then (s.pendingFrameTs - s.origin s.pendingFrameTs) * 90
  else s.lastEmitTs + 1

theorem Assembler.nextPTS_eq :
    s.nextPTS = if s.rawPTS ≤ s.lastEmitTs ∧ s.lastEmitTs ≠ 0 then s.lastEmitTs + 1
      else s.rawPTS := rfl

theorem Assembler.rawPTS_room (hroom : s.lastEmitTs.toNat + n < 2 ^ 32 + s.videoPackets.length)
    (hcount : s.videoPackets.length < n)
    (htime : s.havePendingTs = true → s.Stampable n s.pendingFrameTs) :
    s.rawPTS.toNat + n < 2 ^ 32 + (s.videoPackets.length + 1) ∧
      (s.videoPackets ≠ [] → s.lastEmitTs = 0 → s.rawPTS ≠ 0) := by
  rw [Assembler.rawPTS]
  split_ifs with hpending
  · obtain ⟨hle, hfits, hne⟩ := htime hpending
    have hpts := toNat_cameraPTS hle hfits
    refine ⟨by omega, fun hqueued hlast hzero => hne hqueued hlast ?_⟩
    rw [hzero] at hpts
    have hle' := UInt32.le_iff_toNat_le.mp hle
    refine UInt32.toNat_inj.mp ?_
    have : (0 : UInt32).toNat = 0 := rfl
    omega
  · have hsucc := toNat_lastEmitTs_succ (t := s.lastEmitTs) (by omega)
    refine ⟨by omega, fun _ _ hzero => ?_⟩
    rw [hzero] at hsucc
    exact absurd hsucc (by simp)

/-- **The next stamp is beyond the last one**, and leaves room for those still to come. -/
theorem Assembler.nextPTS_gt (hroom : s.lastEmitTs.toNat + n < 2 ^ 32 + s.videoPackets.length)
    (hcount : s.videoPackets.length < n)
    (htime : s.havePendingTs = true → s.Stampable n s.pendingFrameTs) :
    s.nextPTS.toNat + n < 2 ^ 32 + (s.videoPackets.length + 1) ∧
      (s.videoPackets ≠ [] → s.lastEmitTs < s.nextPTS) := by
  obtain ⟨hraw, hne⟩ := Assembler.rawPTS_room hroom hcount htime
  rw [Assembler.nextPTS_eq]
  split_ifs with hguard
  · have hsucc := toNat_lastEmitTs_succ (t := s.lastEmitTs) (by omega)
    refine ⟨by omega, fun _ => UInt32.lt_iff_toNat_lt.mpr (by omega)⟩
  · refine ⟨hraw, fun hqueued => ?_⟩
    by_contra hle
    have hlast : s.lastEmitTs = 0 := by
      by_contra h0
      exact hguard ⟨UInt32.not_lt.mp hle, h0⟩
    refine hne hqueued hlast ?_
    have := UInt32.not_lt.mp hle
    rw [hlast] at this
    exact UInt32.le_zero_iff.mp this

/-! ### Release of one outcome -/

/-- `emitAU` queues nothing and leaves the last stamp, or queues one packet with the next
stamp. -/
theorem Assembler.emitAU_stamp (au : Bytes) (frameNum : UInt32)
    (ch : VideoChannel) (onlineNum : UInt8) :
    let s' := s.emitAU au frameNum ch onlineNum
    (s'.videoPackets = s.videoPackets ∧ s'.lastEmitTs = s.lastEmitTs) ∨
      ∃ p, s'.videoPackets = s.videoPackets ++ [p] ∧ p.timestamp = s.nextPTS ∧
        s'.lastEmitTs = s.nextPTS := by
  intro s'
  obtain ⟨sps, hsps⟩ := s.noteSPS_eq au
  simp only [s', Assembler.emitAU, hsps]
  split_ifs with hshort hheld
  · exact .inl ⟨rfl, rfl⟩
  · exact .inl ⟨Assembler.videoPackets_of_dropped rfl, rfl⟩
  · exact .inr ⟨_, Assembler.videoPackets_of_queued rfl rfl, rfl, rfl⟩

/-- **Release of an outcome** queues no video packet and leaves the last stamp, or queues one
with the next stamp after the camera time was noted. -/
theorem Assembler.settle_stamp (o : Outcome) :
    ((s.settle o).videoPackets = s.videoPackets ∧ (s.settle o).lastEmitTs = s.lastEmitTs) ∨
      ∃ p, (s.settle o).videoPackets = s.videoPackets ++ [p] ∧
        p.timestamp = (s.timed o).nextPTS ∧ (s.settle o).lastEmitTs = (s.timed o).nextPTS := by
  have hdiscard (s' : Assembler) (hlog : s'.log = s.log) (hlast : s'.lastEmitTs = s.lastEmitTs)
      (ch : VideoChannel) (frameNum : UInt32) (reason : DropReason) :
      (s'.discard ch frameNum reason).videoPackets = s.videoPackets ∧
        (s'.discard ch frameNum reason).lastEmitTs = s.lastEmitTs :=
    ⟨Assembler.videoPackets_of_dropped (by rw [Assembler.discard, hlog]), hlast⟩
  cases o with
  | audio e =>
    refine .inl ⟨?_, rfl⟩
    rw [Assembler.videoPackets, Assembler.settle, Assembler.emitAudio, filterMap_append]
    exact append_nil _
  | abandoned | noData =>
    rw [Assembler.settle]
    split_ifs
    · exact .inl (hdiscard s.poison rfl rfl _ _ _)
    · exact .inl (hdiscard s rfl rfl _ _ _)
  | ended ch frameNum au gapped ts onlineNum =>
    simp only [Assembler.settle.eq_def]
    split_ifs
    · exact .inl (hdiscard s.poison rfl rfl _ _ _)
    · exact .inl (hdiscard s rfl rfl _ _ _)
    · exact .inl (hdiscard (s.setPendingTs ts) rfl rfl _ _ _)
    · exact (s.setPendingTs ts).emitAU_stamp au frameNum ch onlineNum
  | flushed frameNum au lossy ts =>
    rw [Assembler.settle, Assembler.timed]
    by_cases hlossy : (s.strict && lossy) = true
    · rw [if_pos hlossy]
      exact .inl (hdiscard s.poison rfl rfl _ _ _)
    rw [if_neg hlossy]
    split_ifs with hts
    · exact (s.setPendingTs (ts - 40)).emitAU_stamp au frameNum .key 0
    · exact s.emitAU_stamp au frameNum .key 0

theorem Assembler.timed_keeps (o : Outcome) :
    (s.timed o).videoPackets = s.videoPackets ∧ (s.timed o).lastEmitTs = s.lastEmitTs ∧
      ∀ u, (s.timed o).origin u = s.origin u := by
  rw [Assembler.timed.eq_def]
  split
  · exact ⟨rfl, rfl, fun _ => rfl⟩
  · split_ifs
    · exact ⟨rfl, rfl, fun _ => rfl⟩
    · exact ⟨rfl, rfl, fun _ => rfl⟩
  · exact ⟨rfl, rfl, fun _ => rfl⟩

/-- **A step of release keeps to the clock**, if the access unit it queues is on time. -/
theorem Assembler.Clocked.settle (h : s.Clocked n) {o : Outcome}
    (hcount : (s.settle o).videoPackets.length ≤ n)
    (htime : (s.settle o).videoPackets ≠ s.videoPackets → s.OnTime n o) :
    (s.settle o).Clocked n := by
  obtain ⟨hsame, hlast⟩ | ⟨p, hqueued, hpts, hlast⟩ := s.settle_stamp o
  · refine ⟨?_, ?_, ?_, ?_⟩
    · rw [hsame]
      exact h.increasing
    · rw [hsame, hlast]
      exact h.le_last
    · rw [hsame, hlast]
      exact h.zero
    · rw [hsame, hlast]
      exact h.room
  · have hne : (s.settle o).videoPackets ≠ s.videoPackets := by
      rw [hqueued]
      simp
    obtain ⟨hpackets, hlast', horigin⟩ := s.timed_keeps o
    have hpending : (s.timed o).havePendingTs = true →
        (s.timed o).Stampable n (s.timed o).pendingFrameTs := by
      intro hp
      obtain ⟨hle, hfits, hother⟩ := htime hne hp
      refine ⟨?_, ?_, ?_⟩
      · rwa [horigin]
      · rwa [horigin]
      · rwa [hpackets, hlast', horigin]
    rw [hqueued, length_append, length_singleton] at hcount
    obtain ⟨hroom, hgt⟩ := Assembler.nextPTS_gt (s := s.timed o) (n := n)
      (by rw [hpackets, hlast']; exact h.room) (by rw [hpackets]; exact hcount) hpending
    rw [hpackets, hlast'] at hgt
    rw [hpackets] at hroom
    have hbefore : ∀ q ∈ s.videoPackets, q.timestamp < p.timestamp := by
      intro q hq
      rw [hpts]
      exact UInt32.lt_of_le_of_lt (h.le_last q hq) (hgt (ne_nil_of_mem hq))
    refine ⟨?_, ?_, fun hnil => ?_, ?_⟩
    · rw [hqueued, map_append, pairwise_append]
      refine ⟨h.increasing, pairwise_singleton _ _, ?_⟩
      simpa using hbefore
    · intro q hq
      rw [hqueued, mem_append, mem_singleton] at hq
      rw [hlast, ← hpts]
      rcases hq with hq | rfl
      · exact UInt32.le_of_lt (hbefore q hq)
      · exact UInt32.le_refl _
    · rw [hqueued] at hnil
      exact absurd hnil (by simp)
    · rw [hlast, hqueued, length_append, length_singleton]
      exact hroom

/-! ### Release of a whole run -/

/-- Every access unit that release of the outcomes queues is on time, with room for `n`
stamps. -/
def Assembler.AllOnTime (n : ℕ) (os : List Outcome) : Prop :=
  AtEach (fun pre o _ =>
    ((s.settleAll pre).settle o).videoPackets ≠ (s.settleAll pre).videoPackets →
      (s.settleAll pre).OnTime n o) os

theorem Assembler.length_videoPackets_settle (o : Outcome) :
    s.videoPackets.length ≤ (s.settle o).videoPackets.length := by
  obtain ⟨hsame, -⟩ | ⟨p, hqueued, -⟩ := s.settle_stamp o
  · exact Nat.le_of_eq (congrArg List.length hsame.symm)
  · rw [hqueued, length_append]
    exact Nat.le_add_right _ _

/-- **A run of release keeps to the clock**, if the access units it queues are on time. -/
theorem Assembler.Clocked.settleAll (h : s.Clocked n) {os : List Outcome}
    (hcount : (s.settleAll os).videoPackets.length ≤ n) (htime : s.AllOnTime n os) :
    (s.settleAll os).Clocked n := by
  induction os using List.reverseRecOn with
  | nil => exact h
  | append_singleton os o ih =>
    obtain ⟨hbefore, hlast⟩ := atEach_append.mp htime
    have hstep := (atEach_cons.mp hlast).1
    rw [append_nil] at hstep
    rw [Assembler.settleAll_append] at hcount ⊢
    have hgrows := (s.settleAll os).length_videoPackets_settle o
    exact (ih (Nat.le_trans hgrows hcount) hbefore).settle hcount hstep

/-- The run keeps the stamps within the clock: there are fewer than `2 ^ 32` of them, and
each access unit with a camera time can be stamped with it. -/
def OnClock (strict : Bool) (es : List PendingFrag) : Prop :=
  let n := ((Assembler.new strict).emitAll es).videoPackets.length
  n < 2 ^ 32 ∧ (Assembler.new strict).AllOnTime n (Assembly.zero.run es).2

/-- **Presentation times increase strictly**, as long as the run keeps within the clock. -/
theorem pts_increasing (strict : Bool) (es : List PendingFrag) (h : OnClock strict es) :
    (((Assembler.new strict).emitAll es).videoPackets.map (·.timestamp)).Pairwise (· < ·) := by
  obtain ⟨hsize, htime⟩ := h
  have hpackets : ((Assembler.new strict).emitAll es).videoPackets =
      ((Assembler.new strict).settleAll (Assembly.zero.run es).2).videoPackets := by
    rw [Assembler.videoPackets, Assembler.log_emitAll_new, Assembler.videoPackets]
  have hnew : (Assembler.new strict).Clocked
      ((Assembler.new strict).emitAll es).videoPackets.length := by
    refine ⟨List.Pairwise.nil, forall_mem_nil _, fun _ => rfl, ?_⟩
    have hzero : (Assembler.new strict).lastEmitTs.toNat = 0 := rfl
    omega
  have hrun := hnew.settleAll (Nat.le_of_eq (congrArg List.length hpackets.symm)) htime
  rw [hpackets]
  exact hrun.increasing

/-- An IDR at 100 ms and an inter frame at 150 ms. -/
def idrThenInter : List PendingFrag := sampleIDR.frags ++ sampleInter.frags

theorem onClock_idrThenInter : OnClock true idrThenInter := by
  have hrun : (Assembly.zero.run idrThenInter).2 =
      [.ended .key 100 sampleIDR.au false 100 1, .ended .inter 200 sampleInter.au false 150 1] := by
    decide
  refine ⟨by decide, ?_⟩
  rw [hrun]
  refine atEach_cons.mpr ⟨fun _ _ => ⟨?_, ?_, ?_⟩, atEach_cons.mpr ⟨fun _ _ => ⟨?_, ?_, ?_⟩,
    atEach_nil _⟩⟩
  all_goals decide

/-- The two frames are stamped 0 and 4500. -/
theorem pts_increasing_idrThenInter :
    (((Assembler.new true).emitAll idrThenInter).videoPackets.map (·.timestamp)).Pairwise
        (· < ·) ∧
      ((Assembler.new true).emitAll idrThenInter).videoPackets.map (·.timestamp) = [0, 4500] :=
  ⟨pts_increasing true idrThenInter onClock_idrThenInter, by decide⟩

/-- A second inter frame with the camera time of the first. -/
def simultaneousInter : VideoFrame := { sampleInter with frameNum := 201 }

/-- **The first stamp is repeated**: two frames with the same camera time at the start of a
session are both stamped 0. -/
theorem first_pts_repeated :
    let s := (Assembler.new false).emitAll (sampleInter.frags ++ simultaneousInter.frags)
    sampleInter.tail.ts = simultaneousInter.tail.ts ∧
      s.videoPackets.map (·.timestamp) = [0, 0] ∧
      ¬ (s.videoPackets.map (·.timestamp)).Pairwise (· < ·) := by
  intro s
  have hpts : s.videoPackets.map (·.timestamp) = [0, 0] := by decide
  refine ⟨rfl, hpts, ?_⟩
  rw [hpts]
  decide

end PetlibroLocal
