import PetlibroLocal.Lib.Agreement
import PetlibroLocal.Agent.CoreResponse
import PetlibroLocal.Feeder.PlanCollection

/-!
# What the Revisions Depend On

The add-on reads the settings and the plans again when a revision has changed. A revision is a
hash of byte ranges (`settings_rev_from_state`, `plans_rev_from_files`), kept in step by hand with
the table of the decoded fields and with the classes of the settings. Here the three tables are
compared: a setting reads the bytes of one range (`SettingValue.span`), the persistent settings
read hashed bytes only, and the others read none of them.

The main results are `hashRanges_congr`, `hashRanges_ne`, `write_congr`, `persistent_hashed`,
`volatile_not_hashed` and `revisions_depend_on_persistent`.
-/

namespace PetlibroLocal.Agent

open List

/-! ### Hashing ranges of a file -/

/-- The factor of `fnv64_update` has an inverse. -/
theorem fnv64_factor : (1099511628211 : UInt64) * 14886173955864302971 = 1 := by decide

theorem fnv64_mul_injective : Function.Injective fun h : UInt64 => h * 1099511628211 := by
  intro h h' heq
  have hback := congrArg (· * 14886173955864302971) heq
  simpa only [UInt64.mul_assoc, fnv64_factor, UInt64.mul_one] using hback

/-- A step of `fnv64_update` does not lose the hash. -/
theorem fnv64_hash_injective (b : UInt8) :
    Function.Injective fun h : UInt64 => (h ^^^ b.toUInt64) * 1099511628211 :=
  fnv64_mul_injective.comp fun _ _ => (UInt64.xor_left_inj _).mp

/-- A step of `fnv64_update` does not lose the byte. -/
theorem fnv64_byte_injective (h : UInt64) :
    Function.Injective fun b : UInt8 => (h ^^^ b.toUInt64) * 1099511628211 :=
  fnv64_mul_injective.comp fun _ _ heq => UInt8.toUInt64_inj.mp ((UInt64.xor_right_inj _).mp heq)

theorem fnv64Update_injective (data : Bytes) : Function.Injective (fnv64Update · data) := by
  unfold fnv64Update
  exact foldl_injective fnv64_hash_injective data

/-- The common shape of the revisions: range after range is hashed, each behind a header. -/
def hashRanges (header : ℕ × ℕ → Bytes) (ranges : List (ℕ × ℕ)) (hash : UInt64) (data : Bytes) :
    UInt64 :=
  ranges.foldl (fun h r => fnv64Update (fnv64Update h (header r)) ((data.drop r.1).take r.2)) hash

section Ranges

variable {s t : Bytes} {i : ℕ} {header : ℕ × ℕ → Bytes} {ranges : List (ℕ × ℕ)} {hash : UInt64}

/-- The hash depends on the bytes in the ranges. -/
theorem hashRanges_congr (h : AgreeOn (fun j => ∃ r ∈ ranges, InRange r j) s t) :
    hashRanges header ranges hash s = hashRanges header ranges hash t := by
  refine foldl_ext _ _ _ fun hash r hr => ?_
  have hrange : (s.drop r.1).take r.2 = (t.drop r.1).take r.2 := h.range_eq fun j hj => ⟨r, hr, hj⟩
  rw [hrange]

/-- **Every byte in the ranges shows in the hash**, if they do not overlap. -/
theorem hashRanges_ne (hordered : ranges.Pairwise fun r r' => r.1 + r.2 ≤ r'.1)
    (hlength : s.length = t.length) (hi : ∃ r ∈ ranges, InRange r i) (hne : s[i]? ≠ t[i]?)
    (h : AgreeOn (fun j => (∃ r ∈ ranges, InRange r j) ∧ j ≠ i) s t) :
    hashRanges header ranges hash s ≠ hashRanges header ranges hash t := by
  obtain ⟨⟨off, n⟩, hmem, hoff, hlast⟩ := hi
  simp only at hoff hlast
  have hranges : ∀ r ∈ ranges, ∀ j, InRange r j → ∃ r ∈ ranges, InRange r j :=
    fun r hr j hj => ⟨r, hr, hj⟩
  obtain ⟨before, after, heq⟩ := append_of_mem hmem
  -- the other ranges do not reach the byte
  have hsame : ∀ r ∈ before ++ after, (s.drop r.1).take r.2 = (t.drop r.1).take r.2 := by
    intro r hr
    rw [heq, pairwise_append, pairwise_cons] at hordered
    have hbeside : r.1 + r.2 ≤ off ∨ off + n ≤ r.1 :=
      (mem_append.mp hr).imp (hordered.2.2 r · _ mem_cons_self) (hordered.2.1.1 r)
    have hr' : r ∈ ranges := by
      rw [heq]
      exact (mem_append.mp hr).elim (mem_append_left _)
        fun hr => mem_append_right _ (mem_cons_of_mem _ hr)
    refine h.range_eq fun j hj => ⟨hranges r hr' j hj, ?_⟩
    simp only [InRange] at hj
    omega
  have hslice : AgreeOn (· ≠ i - off) ((s.drop off).take n) ((t.drop off).take n) :=
    AgreeOn.slice (h.mono fun j hj => ⟨hranges _ hmem j hj.1, hj.2⟩) hoff
  have hentry : ((s.drop off).take n)[i - off]? ≠ ((t.drop off).take n)[i - off]? := by
    have hlt : i - off < n := by omega
    simpa [List.getElem?_take, hlt, Nat.add_sub_cancel' hoff] using hne
  rw [hashRanges, hashRanges, heq]
  refine foldl_ne_of_step (fun r => ?_) (fun r hr hash => by rw [hsame r hr])
    (fun hash => ?_) _
  · exact (fnv64Update_injective _).comp (fnv64Update_injective _)
  · exact hslice.foldl_ne fnv64_hash_injective fnv64_byte_injective (by simp [hlength]) hentry _

end Ranges

/-! ### Settings -/

/-- A byte that `settings_rev_from_state` hashes. -/
def Hashed (i : ℕ) : Prop := ∃ range ∈ settingsRanges, InRange range i

/-- The range of bytes that a setting is made of. -/
def SettingValue.span : SettingValue → ℕ × ℕ
  | number f => (f.off, f.width)
  | name _ f => (f.off, f.width)
  | flag _ f => (f.off, f.width)
  | text off width => (off, min width 100)

theorem field_congr {s t : Bytes} {off width : ℕ} (hlength : s.length = t.length)
    (h : AgreeOn (InRange (off, width)) s t) :
    FileRead.field (.ok s) off width = FileRead.field (.ok t) off width := by
  simp only [FileRead.field, leAt, hlength, agreeOn_inRange_iff.mp h]

/-- A setting depends on its range. -/
theorem write_congr {s t : Bytes} {value : SettingValue} (hlength : s.length = t.length)
    (h : AgreeOn (InRange value.span) s t) : value.write (.ok s) = value.write (.ok t) := by
  cases value with
  | number | name | flag => rw [SettingValue.write, field_congr hlength h, SettingValue.write]
  | text off width =>
    simp only [SettingValue.write, FileRead.bounded, agreeOn_inRange_iff.mp h]

/-- `settings_rev_from_state` hashes the ranges of its table, each behind its offset and length. -/
theorem settingsRev_eq {s : Bytes} (hs : s.length = 236) : settingsRevFromState (.ok s) =
    hashRanges (fun r => [r.1.toUInt8, r.2.toUInt8]) settingsRanges fnv64Init s := by
  rw [settingsRevFromState, if_neg (not_not_intro hs)]
  rfl

/-- The revision depends on the hashed bytes. -/
theorem settingsRev_congr {s t : Bytes} (hs : s.length = 236) (ht : t.length = 236)
    (h : AgreeOn Hashed s t) : settingsRevFromState (.ok s) = settingsRevFromState (.ok t) := by
  rw [settingsRev_eq hs, settingsRev_eq ht]
  exact hashRanges_congr h

/-! ### The tables -/

/-- The settings that are not persistent. -/
def volatileSettings : List String := effectiveSettings ++ runtimeSettings

/-- The range lies in a hashed one. -/
def isHashed (span : ℕ × ℕ) : Bool :=
  settingsRanges.any fun range => range.1 ≤ span.1 && span.1 + span.2 ≤ range.1 + range.2

/-- The range lies beside all hashed ones. -/
def isSpared (span : ℕ × ℕ) : Bool :=
  settingsRanges.all fun range => span.1 + span.2 ≤ range.1 || range.1 + range.2 ≤ span.1

theorem hashed_of_isHashed {span : ℕ × ℕ} (h : isHashed span = true) {i : ℕ}
    (hi : InRange span i) : Hashed i := by
  simp only [isHashed, any_eq_true, Bool.and_eq_true, decide_eq_true_eq] at h
  obtain ⟨range, hmem, hfirst, hlast⟩ := h
  exact ⟨range, hmem, hfirst.trans hi.1, hi.2.trans_le hlast⟩

theorem not_hashed_of_isSpared {span : ℕ × ℕ} (h : isSpared span = true) {i : ℕ}
    (hi : InRange span i) : ¬Hashed i := by
  simp only [isSpared, all_eq_true, Bool.or_eq_true, decide_eq_true_eq] at h
  rintro ⟨range, hmem, hrange⟩
  have hbeside := h range hmem
  have hin := hi.1
  have hin' := hi.2
  have hfirst := hrange.1
  have hlast := hrange.2
  omega

/-- **Persistent settings read hashed bytes only.** -/
theorem persistent_hashed {x : Setting} (hx : x ∈ summarySettings)
    (hkey : x.key ∈ persistentSettings) {i : ℕ} (hi : InRange x.value.span i) : Hashed i := by
  have hall : (summarySettings.all fun x =>
      !persistentSettings.contains x.key || isHashed x.value.span) = true := by decide +kernel
  have hsetting := all_eq_true.mp hall x hx
  rw [contains_iff_mem.mpr hkey, Bool.not_true, Bool.false_or] at hsetting
  exact hashed_of_isHashed hsetting hi

/-- **The other settings read no hashed byte.** -/
theorem volatile_not_hashed {x : Setting} (hx : x ∈ summarySettings)
    (hkey : x.key ∈ volatileSettings) {i : ℕ} (hi : InRange x.value.span i) : ¬Hashed i := by
  have hall : (summarySettings.all fun x =>
      !volatileSettings.contains x.key || isSpared x.value.span) = true := by decide +kernel
  have hsetting := all_eq_true.mp hall x hx
  rw [contains_iff_mem.mpr hkey, Bool.not_true, Bool.false_or] at hsetting
  exact not_hashed_of_isSpared hsetting hi

theorem classified_decoded {k : String} (h : k ∈ persistentSettings ++ volatileSettings) :
    ∃ x ∈ summarySettings, x.key = k := by
  have hall : ((persistentSettings ++ volatileSettings).all fun k =>
      summarySettings.any (·.key == k)) = true := by decide +kernel
  obtain ⟨x, hx, hkey⟩ := any_eq_true.mp (all_eq_true.mp hall k h)
  exact ⟨x, hx, eq_of_beq hkey⟩

/-! ### Plans -/

/-- The bytes of a record that `plans_rev_from_files` leaves out. -/
abbrev LeftOut (i : ℕ) : Prop := 0x11 ≤ i ∧ i ≤ 0x1c

/-- The ranges of a file of plans that `plans_rev_from_files` hashes. -/
def planRanges (count : ℕ) : List (ℕ × ℕ) :=
  (List.range count).flatMap fun k => [(k * 47, 0x11), (k * 47 + 0x1d, 47 - 0x1d)]

/-- `plans_rev_from_files` hashes two ranges of every record. -/
theorem plansRev_eq {count : UInt8} {idx plan : Bytes} (hsize : plan.length = count.toNat * 47) :
    plansRevFromFiles (.ok (count :: idx)) (.ok plan) =
      hashRanges (fun _ => []) (planRanges count.toNat) (fnv64Update fnv64Init [count]) plan := by
  simp only [plansRevFromFiles, hsize, ne_eq, not_true_eq_false, if_false, planRecords,
    foldl_map, hashRanges, planRanges, foldl_flatMap, foldl_cons, foldl_nil,
    take_take, drop_take, drop_drop]
  rfl

theorem planRanges_ordered (count : ℕ) :
    (planRanges count).Pairwise fun r r' => r.1 + r.2 ≤ r'.1 := by
  refine pairwise_flatMap.mpr ⟨fun k _ => by simp, ?_⟩
  refine pairwise_lt_range.imp fun {k k'} hlt r hr r' hr' => ?_
  simp only [mem_cons, not_mem_nil, or_false] at hr hr'
  rcases hr with rfl | rfl <;> rcases hr' with rfl | rfl <;> simp only <;> omega

/-- The bytes of the ranges are those that are not left out. -/
theorem inRange_planRanges_iff {count j : ℕ} :
    (∃ r ∈ planRanges count, InRange r j) ↔ j < count * 47 ∧ ¬LeftOut (j % 47) := by
  simp only [planRanges, mem_flatMap, mem_range, mem_cons, not_mem_nil, or_false, InRange, LeftOut]
  constructor
  · rintro ⟨r, ⟨k, hk, rfl | rfl⟩, hfirst, hlast⟩ <;> simp only at hfirst hlast <;> omega
  · rintro ⟨hj, hkept⟩
    rcases Nat.lt_or_ge (j % 47) 0x11 with hlow | hhigh
    · exact ⟨_, ⟨j / 47, by omega, .inl rfl⟩, by omega, by simp only; omega⟩
    · exact ⟨_, ⟨j / 47, by omega, .inr rfl⟩, by simp only; omega, by simp only; omega⟩

/-- A member of a decoded record. -/
def planMember (record : Bytes) (localOffsetHours : ℤ) (rawRecords : Bool) (k : String) :
    Option Json :=
  match PetlibroLocal.appendPlan record localOffsetHours rawRecords with
  | .obj fields => fields.lookup k
  | _ => none

theorem leAt_congr {r r' : Bytes} {p : ℕ → Prop} (h : AgreeOn p r r') {off n : ℕ}
    (hp : ∀ i, InRange (off, n) i → p i) : leAt r off n = leAt r' off n := by
  rw [leAt, leAt, h.range_eq hp]

/-- The bytes left out are those of the execution state and of the time of the last change. -/
theorem agreeOn_leftOut_iff {r r' : Bytes} (hr : r.length = 47) (hr' : r'.length = 47) :
    AgreeOn LeftOut r r' ↔ leAt r 0x11 4 = leAt r' 0x11 4 ∧ leAt r 0x15 8 = leAt r' 0x15 8 := by
  constructor
  · intro h
    exact ⟨leAt_congr h fun i hi => by simp only [InRange] at hi; omega,
      leAt_congr h fun i hi => by simp only [InRange] at hi; omega⟩
  · rintro ⟨hstate, htime⟩
    have hboth := slice_append (slice_eq_of_leAt (by omega) (by omega) hstate)
      (slice_eq_of_leAt (by omega) (by omega) htime)
    refine (agreeOn_inRange_iff.mpr hboth).mono fun i hi => ?_
    simp only [InRange]
    omega

theorem planMember_congr {r r' : Bytes} (h : AgreeOn (fun i => ¬LeftOut i) r r')
    (localOffsetHours : ℤ) (rawRecords : Bool) {k : String}
    (hk : k ∉ ["execution_state", "sync_time", "raw"]) :
    planMember r localOffsetHours rawRecords k = planMember r' localOffsetHours rawRecords k := by
  have hbyte : ∀ i < 0x11, PetlibroLocal.byteAt r i = PetlibroLocal.byteAt r' i :=
    fun i hi => leAt_congr h fun j hj => by simp only [InRange] at hj; omega
  have hid : leAt r 0x00 4 = leAt r' 0x00 4 :=
    leAt_congr h fun j hj => by simp only [InRange] at hj; omega
  have hskip : leAt r 0x1d 8 = leAt r' 0x1d 8 :=
    leAt_congr h fun j hj => by simp only [InRange] at hj; omega
  have hopaque : (r.drop 0x25).take 10 = (r'.drop 0x25).take 10 :=
    h.range_eq fun j hj => by simp only [InRange] at hj; omega
  have hdays : weekdayBytes r = weekdayBytes r' :=
    map_congr_left fun j hj => hbyte _ (by have := mem_range.mp hj; omega)
  simp only [mem_cons, not_mem_nil, or_false, not_or, ← beq_eq_false_iff_ne] at hk
  obtain ⟨hstate, htime, hraw⟩ := hk
  cases rawRecords <;>
    simp [planMember, PetlibroLocal.appendPlan, lookup_cons, hbyte, hid, hskip, hopaque,
      hdays, hstate, htime, hraw]

/-! ### Both revisions -/

/-- **Revisions depend on the persistent bytes, and on all of them**: files that agree on the
hashed bytes have one revision, files that differ in one hashed byte have two. -/
theorem revisions_depend_on_persistent :
    (∀ s t : Bytes, s.length = 236 → t.length = 236 → AgreeOn Hashed s t →
      settingsRevFromState (.ok s) = settingsRevFromState (.ok t) ∧
        ∀ k ∈ persistentSettings, ∃ x ∈ summarySettings, x.key = k ∧
          x.value.write (.ok s) = x.value.write (.ok t)) ∧
    (∀ (s t : Bytes) (i : ℕ), s.length = 236 → t.length = 236 → Hashed i → s[i]? ≠ t[i]? →
      AgreeOn (fun j => Hashed j ∧ j ≠ i) s t →
      settingsRevFromState (.ok s) ≠ settingsRevFromState (.ok t)) ∧
    (∀ k ∈ effectiveSettings ++ runtimeSettings, ∃ x ∈ summarySettings, x.key = k ∧
      (∀ i, InRange x.value.span i → ¬Hashed i) ∧
        ∀ s t : Bytes, s.length = 236 → t.length = 236 → AgreeOn (fun i => ¬Hashed i) s t →
          x.value.write (.ok s) = x.value.write (.ok t)) ∧
    (∀ s t : Bytes, s.length = 236 → t.length = 236 →
      (∀ i, s[i]? ≠ t[i]? → ∃ x ∈ summarySettings,
        x.key ∈ effectiveSettings ++ runtimeSettings ∧ InRange x.value.span i) →
      settingsRevFromState (.ok s) = settingsRevFromState (.ok t)) ∧
    (∀ (count : UInt8) (idx idx' plan plan' : Bytes), plan.length = count.toNat * 47 →
      plan'.length = count.toNat * 47 →
      (AgreeOn (fun j => ¬LeftOut (j % 47)) plan plan' →
        plansRevFromFiles (.ok (count :: idx)) (.ok plan) =
          plansRevFromFiles (.ok (count :: idx')) (.ok plan')) ∧
      ∀ i, ¬LeftOut (i % 47) → plan[i]? ≠ plan'[i]? →
        AgreeOn (fun j => ¬LeftOut (j % 47) ∧ j ≠ i) plan plan' →
        plansRevFromFiles (.ok (count :: idx)) (.ok plan) ≠
          plansRevFromFiles (.ok (count :: idx')) (.ok plan')) ∧
    ∀ (r r' : Bytes) (localOffsetHours : ℤ) (rawRecords : Bool), r.length = 47 → r'.length = 47 →
      (AgreeOn LeftOut r r' ↔
        planMember r localOffsetHours rawRecords "execution_state" =
            planMember r' localOffsetHours rawRecords "execution_state" ∧
          planMember r localOffsetHours rawRecords "sync_time" =
            planMember r' localOffsetHours rawRecords "sync_time") ∧
      (AgreeOn (fun i => ¬LeftOut i) r r' → ∀ k ∉ ["execution_state", "sync_time", "raw"],
        planMember r localOffsetHours rawRecords k =
          planMember r' localOffsetHours rawRecords k) := by
  refine ⟨?_, ?_, ?_, ?_, ?_, ?_⟩
  · intro s t hs ht h
    refine ⟨settingsRev_congr hs ht h, fun k hk => ?_⟩
    obtain ⟨x, hx, rfl⟩ := classified_decoded (mem_append_left _ hk)
    exact ⟨x, hx, rfl,
      write_congr (hs.trans ht.symm) (h.mono fun i hi => persistent_hashed hx hk hi)⟩
  · intro s t i hs ht hi hne h
    rw [settingsRev_eq hs, settingsRev_eq ht]
    exact hashRanges_ne (by decide) (hs.trans ht.symm) hi hne h
  · intro k hk
    obtain ⟨x, hx, rfl⟩ := classified_decoded (mem_append_right _ hk)
    have hspared : ∀ i, InRange x.value.span i → ¬Hashed i :=
      fun i hi => volatile_not_hashed hx hk hi
    exact ⟨x, hx, rfl, hspared, fun s t hs ht h =>
      write_congr (hs.trans ht.symm) (h.mono hspared)⟩
  · intro s t hs ht h
    refine settingsRev_congr hs ht fun i hi => ?_
    by_contra hne
    obtain ⟨x, hx, hkey, hin⟩ := h i hne
    exact volatile_not_hashed hx hkey hin hi
  · intro count idx idx' plan plan' hsize hsize'
    rw [plansRev_eq hsize, plansRev_eq hsize']
    refine ⟨fun h => hashRanges_congr ?_, fun i hi hne h => ?_⟩
    · exact h.mono fun j hj => (inRange_planRanges_iff.mp hj).2
    · have hin : i < count.toNat * 47 := by
        by_contra hout
        exact hne (by rw [List.getElem?_eq_none (by omega), List.getElem?_eq_none (by omega)])
      refine hashRanges_ne (planRanges_ordered _) (hsize.trans hsize'.symm)
        (inRange_planRanges_iff.mpr ⟨hin, hi⟩) hne ?_
      exact h.mono fun j hj => ⟨(inRange_planRanges_iff.mp hj.1).2, hj.2⟩
  · intro r r' localOffsetHours rawRecords hr hr'
    refine ⟨?_, fun h k hk => planMember_congr h localOffsetHours rawRecords hk⟩
    rw [agreeOn_leftOut_iff hr hr']
    simp [planMember, PetlibroLocal.appendPlan, lookup_cons]

/-- The volume and the hour of a plan show in the revisions. -/
theorem revisions_depend_on_persistent_sample :
    settingsRevFromState (.ok (List.replicate 236 0)) ≠
        settingsRevFromState (.ok ((List.replicate 236 0).set 0x10 1)) ∧
      plansRevFromFiles (.ok [2]) (.ok (List.replicate 94 0)) ≠
        plansRevFromFiles (.ok [2]) (.ok ((List.replicate 94 0).set 52 8)) := by
  obtain ⟨-, hsettings, -, -, hplans, -⟩ := revisions_depend_on_persistent
  have hother : ∀ (n i : ℕ) (b : UInt8) (p : ℕ → Prop),
      AgreeOn (fun j => p j ∧ j ≠ i) (List.replicate n 0) ((List.replicate n 0).set i b) :=
    fun n i b p j hj => (List.getElem?_set_ne hj.2.symm).symm
  have hbyte : ∀ (n i : ℕ) (b : UInt8), i < n → 0 ≠ b →
      (List.replicate n 0)[i]? ≠ ((List.replicate n 0).set i b)[i]? := by
    intro n i b hi hb
    rw [List.getElem?_set_self (by rwa [length_replicate]), List.getElem?_replicate, if_pos hi]
    exact fun heq => hb (Option.some.inj heq)
  have hlength : ∀ (n i : ℕ) (b : UInt8), ((List.replicate n 0).set i b).length = n :=
    fun n i b => length_set.trans length_replicate
  constructor
  · exact hsettings _ _ 0x10 length_replicate (hlength 236 _ _)
      ⟨(0x10, 4), by decide, by decide, by decide⟩ (hbyte 236 _ 1 (by decide) (by decide))
      (hother 236 _ _ _)
  · exact (hplans 2 [] [] _ _ length_replicate (hlength 94 _ _)).2 52 (by decide)
      (hbyte 94 _ 8 (by decide) (by decide)) (hother 94 _ _ _)

end PetlibroLocal.Agent
