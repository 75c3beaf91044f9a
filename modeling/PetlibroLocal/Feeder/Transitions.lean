import Mathlib.Data.Int.LeastGreatest
import Mathlib.Order.Bounds.Basic
import PetlibroLocal.Lib.Bisect
import PetlibroLocal.Lib.Json

/-!
# The Next Changes of the Local Time

The add-on tells the feeder when the offset of its time zone changes next, and when after that
(`_timezone_payload` of `protocol.py`). It looks at one instant a day for another offset than the
present one, and then searches the day by bisection, in whole seconds.

Instants are counted in microseconds, like those of `datetime`, and so are offsets. The time line
has no end, unlike that of `datetime`, and `int(x.timestamp())` is taken as the floor. A zone is
known by its offset at every instant.

The main results are `RegularZone.nextTimezoneTransition_of_upcoming` and
`dst_transitions_exact`.
-/

namespace PetlibroLocal

/-! ### The search -/

/-- A second. -/
def second : ℤ := 1000000

/-- A day. -/
def day : ℤ := 86400 * second

/-- `int(offset.total_seconds())`. -/
def totalSeconds (offset : ℤ) : ℤ := offset.tdiv second

/-- The loop of `_next_timezone_transition`: so many days, from `cursor` on. -/
def scanDays (offset : ℤ → ℤ) (currentOffset : ℤ) : ℕ → ℤ → Option (ℤ × ℤ)
  | 0, _ => none
  | days + 1, cursor =>
    let candidate := cursor + day
    if offset candidate ≠ currentOffset then
      let high := bisect (fun middle => offset (middle * second) == currentOffset)
        (cursor / second) (candidate / second)
      some (high * second, totalSeconds (offset (high * second)))
    else scanDays offset currentOffset days candidate

/-- `_next_timezone_transition`: the instant of the transition and the offset behind it. -/
def nextTimezoneTransition (offset : ℤ → ℤ) (startUtc : ℤ) : Option (ℤ × ℤ) :=
  scanDays offset (offset startUtc) (366 * 3) startUtc

/-! ### The payload -/

/-- `Timestamp`: its instant, and the offset of its reading. -/
structure Timestamp where
  instant : ℤ
  utcoffset : ℤ

/-- `to_timezone_offset_hours`: an integer if there is one. -/
def Timestamp.toTimezoneOffsetHours (ts : Timestamp) : Json :=
  let hours := mkRat ts.utcoffset (3600 * 1000000)
  if hours.den = 1 then .int hours.num else .float hours

/-- The dictionary of `_timezone_payload`. -/
structure TimezonePayload where
  timezone : Json
  timezoneOffsetSeconds : ℤ
  nextDSTOffsetSeconds : ℤ
  nextDSTTransitionTs : ℤ
  secondNextDSTOffsetSeconds : ℤ
  secondNextDSTTransitionTs : ℤ

/-- What the loop of `_timezone_payload` carries on. -/
structure TransitionSearch where
  searchStart : ℤ
  currentOffsetSeconds : ℤ

/-- One turn of the loop: the entry of `transitions`, and where the search goes on. -/
def TransitionSearch.next (offset : ℤ → ℤ) (s : TransitionSearch) :
    (ℤ × ℤ) × TransitionSearch :=
  match nextTimezoneTransition offset s.searchStart with
  | none => ((s.currentOffsetSeconds, 0), s)
  | some (transitionUtc, nextOffsetSeconds) =>
    ((nextOffsetSeconds, transitionUtc / 1000), ⟨transitionUtc + second, nextOffsetSeconds⟩)

/-- `_timezone_payload`. -/
def timezonePayload (offset : ℤ → ℤ) (ts : Timestamp) : TimezonePayload :=
  let first := TransitionSearch.next offset ⟨ts.instant, totalSeconds (offset ts.instant)⟩
  let next := first.2.next offset
  { timezone := ts.toTimezoneOffsetHours
    timezoneOffsetSeconds := totalSeconds ts.utcoffset
    nextDSTOffsetSeconds := first.1.1
    nextDSTTransitionTs := first.1.2
    secondNextDSTOffsetSeconds := next.1.1
    secondNextDSTTransitionTs := next.1.2 }

/-! ### Zones -/

/-- The offset changes at a second. -/
def ChangesAt (offset : ℤ → ℤ) (s : ℤ) : Prop := offset (s * second) ≠ offset ((s - 1) * second)

/-- A zone whose offset changes only at whole seconds, and at most once in 24 hours and two
seconds. -/
structure RegularZone where
  offset : ℤ → ℤ
  offset_floor : ∀ u, offset u = offset (u / second * second)
  sparse : ∀ s t, ChangesAt offset s → ChangesAt offset t → s < t → s + 86402 ≤ t

namespace RegularZone

variable (z : RegularZone) {start last s t low high : ℤ}

/-- The offset from a second on. -/
def offsetAt (s : ℤ) : ℤ := z.offset (s * second)

/-- The first change behind an instant. -/
def FirstChange (start t : ℤ) : Prop := IsLeast {s | start < s * second ∧ ChangesAt z.offset s} t

/-- The first change behind an instant, if it is not later than `last`; else there is none. -/
def Upcoming (start last : ℤ) : Option ℤ → Prop
  | some t => z.FirstChange start t ∧ t * second ≤ last
  | none => ∀ s, start < s * second → s * second ≤ last → ¬ ChangesAt z.offset s

variable {z}

theorem lt_mul_second_iff : start < s * second ↔ start / second < s := by
  unfold second
  omega

theorem mul_second_le_iff : s * second ≤ last ↔ s ≤ last / second := by
  unfold second
  omega

theorem offsetAt_eq_of_no_change (hle : low ≤ high)
    (h : ∀ s, low < s → s ≤ high → ¬ ChangesAt z.offset s) : z.offsetAt high = z.offsetAt low := by
  induction high, hle using Int.leInduction with
  | base => rfl
  | succ k hk ih =>
    have hstep : z.offsetAt (k + 1) = z.offsetAt k := by
      have hno := h (k + 1) (by omega) (by omega)
      rw [ChangesAt, not_not, Int.add_sub_cancel] at hno
      exact hno
    rw [hstep]
    exact ih fun s hs hs' => h s hs (by omega)

/-- **One change in a stretch of at most a day**: before it the offset is the old one, and from it
on another. -/
theorem offsetAt_eq_iff_lt (hlt : low < t) (hle : t ≤ high) (hday : high ≤ low + 86400)
    (ht : ChangesAt z.offset t) (hs : low < s) (hs' : s ≤ high) :
    z.offsetAt s = z.offsetAt low ↔ s < t := by
  have hother : ∀ r, low < r → r ≤ high → ChangesAt z.offset r → r = t := by
    intro r hr hr' hchange
    rcases Int.lt_trichotomy r t with h | h | h
    · have := z.sparse r t hchange ht h
      omega
    · exact h
    · have := z.sparse t r ht hchange h
      omega
  have hbefore : z.offsetAt (t - 1) = z.offsetAt low :=
    offsetAt_eq_of_no_change (by omega) fun r hr hr' hchange => by
      have := hother r hr (by omega) hchange
      omega
  constructor
  · intro heq
    by_contra hge
    have hstays : z.offsetAt s = z.offsetAt t :=
      offsetAt_eq_of_no_change (by omega) fun r hr hr' hchange => by
        have := hother r (by omega) (by omega) hchange
        omega
    exact ht (hstays.symm.trans (heq.trans hbefore.symm))
  · intro hst
    exact offsetAt_eq_of_no_change (by omega) fun r hr hr' hchange => by
      have := hother r hr (by omega) hchange
      omega

theorem add_day_div (start : ℤ) : (start + day) / second = start / second + 86400 := by
  unfold day second
  omega

theorem FirstChange.mono (h : z.FirstChange start t) {later : ℤ} (hle : start ≤ later)
    (hlt : later < t * second) : z.FirstChange later t :=
  ⟨⟨hlt, h.1.2⟩, fun _ hs => h.2 ⟨Int.lt_of_le_of_lt hle hs.1, hs.2⟩⟩

/-- **The scan finds the first change.** The offset at the cursor is still the present one. -/
theorem scanDays_of_firstChange {current : ℤ} (days : ℕ) (hcurrent : z.offset start = current)
    (ht : z.FirstChange start t) (hlast : t * second ≤ start + days * day) :
    scanDays z.offset current days start =
      some (t * second, totalSeconds (z.offset (t * second))) := by
  induction days generalizing start with
  | zero =>
    have := ht.1.1
    omega
  | succ days ih =>
    have hlow : z.offsetAt (start / second) = current := by
      rw [offsetAt, ← z.offset_floor, hcurrent]
    have hfloor : z.offset (start + day) = z.offsetAt (start / second + 86400) := by
      rw [z.offset_floor, add_day_div]
      rfl
    have hafter := lt_mul_second_iff.mp ht.1.1
    rw [scanDays]
    by_cases hin : t ≤ start / second + 86400
    · -- the change is on this day
      have hcut : ∀ s, start / second < s → s ≤ start / second + 86400 →
          (z.offsetAt s = current ↔ s < t) := by
        intro s hs hs'
        rw [← hlow]
        exact offsetAt_eq_iff_lt hafter hin (Int.le_refl _) ht.1.2 hs hs'
      have hbisect : bisect (fun middle => z.offset (middle * second) == current)
          (start / second) ((start + day) / second) = t := by
        rw [add_day_div]
        refine bisect_eq_cutoff hafter hin fun k hk hk' => ?_
        rw [beq_iff_eq]
        exact hcut k hk (by omega)
      rw [if_pos, hbisect]
      rw [hfloor]
      exact fun heq => absurd ((hcut _ (by omega) (Int.le_refl _)).mp heq) (by omega)
    · have hsame : z.offset (start + day) = current := by
        rw [hfloor, ← hlow]
        refine offsetAt_eq_of_no_change (by omega) fun s hs hs' hchange => ?_
        have := ht.2 ⟨lt_mul_second_iff.mpr hs, hchange⟩
        omega
      have hbehind : start + day < t * second := by
        rw [lt_mul_second_iff, add_day_div]
        omega
      rw [if_neg (not_not_intro hsame)]
      refine ih hsame (ht.mono ?_ hbehind) ?_
      · unfold day second
        omega
      · have hdays : start + day + days * day = start + (days + 1 : ℕ) * day := by
          push_cast
          ring
        rw [hdays]
        exact hlast

/-- **Without a change the scan finds nothing.** -/
theorem scanDays_of_no_change {current : ℤ} (days : ℕ) (hcurrent : z.offset start = current)
    (hno : z.Upcoming start (start + days * day) none) :
    scanDays z.offset current days start = none := by
  induction days generalizing start with
  | zero => rfl
  | succ days ih =>
    have hdays : start + day + days * day = start + (days + 1 : ℕ) * day := by
      push_cast
      ring
    have hnonneg : 0 ≤ days * day := Int.mul_nonneg (Int.natCast_nonneg _) (by decide)
    have hsame : z.offset (start + day) = current := by
      rw [z.offset_floor, add_day_div, ← hcurrent, z.offset_floor start]
      refine offsetAt_eq_of_no_change (by omega) fun s hs hs' => ?_
      refine hno s (lt_mul_second_iff.mpr hs) ?_
      have hin : s * second ≤ start + day := by
        rw [mul_second_le_iff, add_day_div]
        exact hs'
      omega
    rw [scanDays, if_neg (not_not_intro hsame)]
    refine ih hsame fun s hs hs' => hno s ?_ ?_
    · have : 0 ≤ day := by decide
      omega
    · omega

/-- **The search finds the first change within 1098 days**, and only then finds anything. -/
theorem nextTimezoneTransition_of_upcoming {t : Option ℤ}
    (h : z.Upcoming start (start + 1098 * day) t) :
    nextTimezoneTransition z.offset start =
      t.map fun t => (t * second, totalSeconds (z.offset (t * second))) := by
  cases t with
  | none => exact scanDays_of_no_change 1098 rfl h
  | some t => exact scanDays_of_firstChange 1098 rfl h.1 h.2

theorem exists_upcoming (z : RegularZone) (start last : ℤ) : ∃ t, z.Upcoming start last t := by
  classical
  by_cases hany : ∃ s, start < s * second ∧ s * second ≤ last ∧ ChangesAt z.offset s
  · obtain ⟨s, hs, hlast, hchange⟩ := hany
    obtain ⟨t, ht, hleast⟩ := Int.exists_least_of_bdd
      (P := fun s => start < s * second ∧ ChangesAt z.offset s)
      ⟨start / second, fun r hr => Int.le_of_lt (lt_mul_second_iff.mp hr.1)⟩ ⟨s, hs, hchange⟩
    refine ⟨some t, ⟨ht, fun r hr => hleast r hr⟩, ?_⟩
    have hle := hleast s ⟨hs, hchange⟩
    rw [mul_second_le_iff] at hlast ⊢
    exact Int.le_trans hle hlast
  · exact ⟨none, fun s hs hlast hchange => hany ⟨s, hs, hlast, hchange⟩⟩

/-! ### In terms of the offset at the start -/

/-- The first second behind the start with another offset than the start. -/
def FirstOther (z : RegularZone) (start t : ℤ) : Prop :=
  IsLeast {s | start < s * second ∧ z.offset (s * second) ≠ z.offset start} t

theorem offsetAt_eq_of_before (hle : start / second ≤ s)
    (h : ∀ r, start < r * second → r ≤ s → ¬ ChangesAt z.offset r) :
    z.offset (s * second) = z.offset start := by
  rw [z.offset_floor start]
  exact offsetAt_eq_of_no_change hle fun r hr hr' => h r (lt_mul_second_iff.mpr hr) hr'

/-- **The first change is the first second with another offset.** -/
theorem firstOther_iff : z.FirstOther start t ↔ z.FirstChange start t := by
  constructor
  · rintro ⟨⟨hafter, hother⟩, hleast⟩
    have hsame : ∀ s, start / second ≤ s → s < t → z.offset (s * second) = z.offset start := by
      intro s hs hst
      rcases Int.lt_or_eq_of_le hs with hs | rfl
      · by_contra hne
        have := hleast ⟨lt_mul_second_iff.mpr hs, hne⟩
        omega
      · exact (z.offset_floor start).symm
    have hfloor := lt_mul_second_iff.mp hafter
    refine ⟨⟨hafter, ?_⟩, fun s hs => ?_⟩
    · rw [ChangesAt, hsame (t - 1) (by omega) (by omega)]
      exact hother
    · by_contra hlt
      have hs' := lt_mul_second_iff.mp hs.1
      refine hs.2 ?_
      rw [hsame s (by omega) (by omega), hsame (s - 1) (by omega) (by omega)]
  · rintro ⟨⟨hafter, hchange⟩, hleast⟩
    have hno : ∀ r, start < r * second → r < t → ¬ ChangesAt z.offset r := by
      intro r hr hrt hchange
      have := hleast ⟨hr, hchange⟩
      omega
    have hfloor := lt_mul_second_iff.mp hafter
    refine ⟨⟨hafter, fun heq => hchange ?_⟩, fun s hs => ?_⟩
    · rw [heq, offsetAt_eq_of_before (by omega) fun r hr hr' => hno r hr (by omega)]
    · by_contra hlt
      have hs' := lt_mul_second_iff.mp hs.1
      exact hs.2 (offsetAt_eq_of_before (by omega) fun r hr hr' => hno r hr (by omega))

theorem upcoming_none_iff :
    z.Upcoming start last none ↔ ∀ u, start ≤ u → u ≤ last → z.offset u = z.offset start := by
  constructor
  · intro hno u hu hu'
    rw [z.offset_floor u]
    refine offsetAt_eq_of_before (Int.ediv_le_ediv (by decide) hu) fun r hr hr' => hno r hr ?_
    have := mul_second_le_iff.mpr hr'
    omega
  · intro hsame s hs hs' hchange
    refine hchange ?_
    rw [hsame _ (Int.le_of_lt hs) hs']
    rcases Int.lt_or_le start ((s - 1) * second) with hbefore | hbefore
    · rw [hsame _ (Int.le_of_lt hbefore) ?_]
      unfold second at hs' ⊢
      omega
    · have hfloor : start / second = s - 1 := by
        unfold second at hs hbefore ⊢
        omega
      rw [z.offset_floor start, hfloor]

/-! ### The payload -/

/-- What is reported of a transition, or of none. -/
def report (z : RegularZone) (currentOffsetSeconds : ℤ) : Option ℤ → ℤ × ℤ
  | some t => (totalSeconds (z.offset (t * second)), t * 1000)
  | none => (currentOffsetSeconds, 0)

theorem next_of_upcoming {s : TransitionSearch} {t : Option ℤ}
    (h : z.Upcoming s.searchStart (s.searchStart + 1098 * day) t) :
    s.next z.offset = (z.report s.currentOffsetSeconds t, match t with
      | some t => ⟨t * second + second, totalSeconds (z.offset (t * second))⟩
      | none => s) := by
  rw [TransitionSearch.next, nextTimezoneTransition_of_upcoming h]
  cases t with
  | none => rfl
  | some t =>
    have hms : t * second / 1000 = t * 1000 := by
      unfold second
      omega
    simp only [Option.map_some, report, hms]

/-- **The second after a change is as good as the change to search from.** -/
theorem upcoming_add_second (ht : ChangesAt z.offset t) {r : Option ℤ} :
    z.Upcoming (t * second + second) last r ↔ z.Upcoming (t * second) last r := by
  have hno : ∀ s, ChangesAt z.offset s → (t * second + second < s * second ↔
      t * second < s * second) := by
    intro s hs
    constructor
    · unfold second
      omega
    · intro hlt
      have hlt' : t < s := by
        unfold second at hlt
        omega
      have := z.sparse t s ht hs hlt'
      unfold second
      omega
  cases r with
  | none =>
    constructor
    · intro h s hs hs' hchange
      exact h s ((hno s hchange).mpr hs) hs' hchange
    · intro h s hs hs' hchange
      exact h s ((hno s hchange).mp hs) hs' hchange
  | some r =>
    have hset : {s | t * second + second < s * second ∧ ChangesAt z.offset s} =
        {s | t * second < s * second ∧ ChangesAt z.offset s} := by
      ext s
      exact and_congr_left fun hs => hno s hs
    unfold Upcoming FirstChange
    rw [hset]

end RegularZone

/-! ### The main result -/

/-- **The transitions are exact.** The search finds the first second behind the start with another
offset, if it is within 1098 days, with its offset, and finds nothing if and only if the offset
stays. The payload reports the first transition behind the timestamp, and the first behind that,
each within 1098 days of where its search starts; a zero stands for a missing transition, or for
one at the epoch. -/
theorem dst_transitions_exact (z : RegularZone) :
    (∀ start t, z.FirstOther start t → t * second ≤ start + 1098 * day →
      nextTimezoneTransition z.offset start =
        some (t * second, totalSeconds (z.offset (t * second)))) ∧
    (∀ start, nextTimezoneTransition z.offset start = none ↔
      ∀ u, start ≤ u → u ≤ start + 1098 * day → z.offset u = z.offset start) ∧
    ∀ ts : Timestamp, ∃ t₁ t₂,
      z.Upcoming ts.instant (ts.instant + 1098 * day) t₁ ∧
      (match t₁ with
        | some t => z.Upcoming (t * second) (t * second + second + 1098 * day) t₂
        | none => t₂ = none) ∧
      let p := timezonePayload z.offset ts
      (p.nextDSTOffsetSeconds, p.nextDSTTransitionTs) =
          z.report (totalSeconds (z.offset ts.instant)) t₁ ∧
        (p.secondNextDSTOffsetSeconds, p.secondNextDSTTransitionTs) =
          z.report p.nextDSTOffsetSeconds t₂ ∧
        (p.nextDSTTransitionTs = 0 ↔ t₁ = none ∨ t₁ = some 0) ∧
        (p.secondNextDSTTransitionTs = 0 ↔ t₂ = none ∨ t₂ = some 0) := by
  have hzero (c : ℤ) (t : Option ℤ) : (z.report c t).2 = 0 ↔ t = none ∨ t = some 0 := by
    cases t with
    | none | some => simp [RegularZone.report]
  refine ⟨fun start t ht hlast => ?_, fun start => ?_, fun ts => ?_⟩
  · exact RegularZone.nextTimezoneTransition_of_upcoming (t := some t)
      ⟨RegularZone.firstOther_iff.mp ht, hlast⟩
  · rw [← RegularZone.upcoming_none_iff]
    obtain ⟨t, ht⟩ := z.exists_upcoming start (start + 1098 * day)
    rw [RegularZone.nextTimezoneTransition_of_upcoming ht]
    cases t with
    | none => exact iff_of_true rfl ht
    | some t =>
      refine iff_of_false (by simp) fun hno => ?_
      exact hno t ht.1.1.1 ht.2 ht.1.1.2
  · obtain ⟨t₁, h₁⟩ := z.exists_upcoming ts.instant (ts.instant + 1098 * day)
    have hfirst := RegularZone.next_of_upcoming
      (s := ⟨ts.instant, totalSeconds (z.offset ts.instant)⟩) h₁
    cases t₁ with
    | none =>
      refine ⟨none, none, h₁, rfl, ?_⟩
      rw [timezonePayload, hfirst, hfirst]
      exact ⟨rfl, rfl, hzero 0 none, hzero 0 none⟩
    | some t =>
      obtain ⟨t₂, h₂⟩ := z.exists_upcoming (t * second) (t * second + second + 1098 * day)
      have hsecond := RegularZone.next_of_upcoming
        (s := ⟨t * second + second, totalSeconds (z.offset (t * second))⟩)
        ((RegularZone.upcoming_add_second h₁.1.1.2).mpr h₂)
      refine ⟨some t, t₂, h₁, h₂, ?_⟩
      rw [timezonePayload, hfirst, hsecond]
      exact ⟨rfl, rfl, hzero 0 (some t), hzero _ t₂⟩

/-- A zone whose offset changes once, at the epoch. -/
def epochZone : RegularZone where
  offset u := if u < 0 then 0 else 3600 * second
  offset_floor u := by
    have hiff : u < 0 ↔ u / second * second < 0 := by
      unfold second
      omega
    simp only [hiff]
  sparse s t hs ht hst := by
    unfold ChangesAt second at hs ht
    simp only [ne_eq, ite_eq_iff'] at hs ht
    omega

/-- **A transition at the epoch** is reported with a zero, as if it were missing. -/
theorem transition_at_epoch :
    epochZone.FirstOther (-43200 * second) 0 ∧ 0 * second ≤ -43200 * second + 1098 * day ∧
      (timezonePayload epochZone.offset ⟨-43200 * second, 0⟩).nextDSTTransitionTs = 0 := by
  have hfirst : epochZone.FirstOther (-43200 * second) 0 := by
    refine ⟨⟨by decide, by decide⟩, fun s hs => ?_⟩
    by_contra hneg
    refine hs.2 ?_
    have hlt : s * second < 0 := by
      unfold second
      omega
    have hstart : -43200 * second < 0 := by decide
    simp only [epochZone, if_pos hlt, if_pos hstart]
  have hwithin : 0 * second ≤ -43200 * second + 1098 * day := by decide
  have hnext := RegularZone.next_of_upcoming (t := some 0)
    (s := ⟨-43200 * second, totalSeconds (epochZone.offset (-43200 * second))⟩)
    ⟨RegularZone.firstOther_iff.mp hfirst, hwithin⟩
  refine ⟨hfirst, hwithin, ?_⟩
  rw [timezonePayload, hnext]
  rfl

end PetlibroLocal
