import PetlibroLocal.Discovery.Resolution

/-!
# One Resolution per Device

For each device there is one timer or one job at most, and a device is marked as being resolved
exactly as long as there is one. The table of attempts has the token and the digest of the UID of
the job that is outstanding, so a result that comes late or twice finds another entry, or none, and
changes nothing.

SHA-256 is taken to be free of collisions on UIDs.

The main results are `Flights.Inv`, `World.inv_step` and `resolution_single_flight`.
-/

namespace PetlibroLocal.Discovery

open List

variable {py : Python} {o : Settings}

namespace Flights

/-- **The invariant of the resolutions.** -/
structure Inv (py : Python) (f : Flights) : Prop where
  /-- A device is marked as long as a timer or a job is outstanding. -/
  single : ∀ key, f.outstanding key = if key ∈ f.resolving then 1 else 0
  /-- The table has an entry for each job that is outstanding. -/
  table : ∀ key attempt, f.resolveAttempts.lookup key = some attempt ↔
    ∃ job ∈ f.jobs, job.key = key ∧ attempt = (job.token, py.uidDigest job.uid)
  /-- A job that is outstanding is the latest attempt for its device. -/
  latest : ∀ job ∈ f.jobs, f.latest job.key = some job
  uids : ∀ job ∈ f.jobs, isUid job.uid = true
  tokens : (f.attempts.map Job.token).Nodup
  delivered : ∀ job ∈ f.delivered, job ∈ f.attempts
  fresh : ∀ job ∈ f.jobs, job ∉ f.delivered

/-- Before the first event nothing is outstanding. -/
theorem inv_none : none.Inv py where
  single _ := by simp [none, outstanding]
  table _ _ := by simp [none]
  latest _ h := absurd h not_mem_nil
  uids _ h := absurd h not_mem_nil
  tokens := nodup_nil
  delivered _ h := absurd h not_mem_nil
  fresh _ h := absurd h not_mem_nil

variable {f : Flights} {key : String} {job : Job}

namespace Inv

/-- A job that is outstanding was attempted. -/
theorem mem_attempts (h : f.Inv py) (hjob : job ∈ f.jobs) : job ∈ f.attempts :=
  mem_of_find?_eq_some (h.latest job hjob)

/-- **A device with a timer** has one, is marked, and has no job. -/
theorem of_timer (h : f.Inv py) (hkey : key ∈ f.timers) :
    f.timers.count key = 1 ∧ key ∈ f.resolving ∧ ∀ job ∈ f.jobs, job.key ≠ key := by
  have hcount := count_pos_iff.mpr hkey
  have hsingle := h.single key
  rw [outstanding] at hsingle
  split at hsingle
  · next hmarked =>
      refine ⟨by omega, hmarked, fun job hjob hjobKey => ?_⟩
      have hpos : 0 < f.jobs.countP (·.key = key) :=
        countP_pos_iff.mpr ⟨job, hjob, by simpa using hjobKey⟩
      omega
  · omega

/-- **A device with a job** has one, is marked, and has no timer. -/
theorem of_job (h : f.Inv py) (hjob : job ∈ f.jobs) :
    f.timers.count job.key = 0 ∧ f.jobs.countP (·.key = job.key) = 1 ∧
      job.key ∈ f.resolving := by
  have hpos : 0 < f.jobs.countP (·.key = job.key) := countP_pos_iff.mpr ⟨job, hjob, by simp⟩
  have hsingle := h.single job.key
  rw [outstanding] at hsingle
  split at hsingle
  · next hmarked => exact ⟨by omega, by omega, hmarked⟩
  · omega

/-- A timer is started only for a device that is not marked. -/
theorem schedule (h : f.Inv py) (hkey : key ∉ f.resolving) : (f.schedule key).Inv py := by
  refine ⟨fun k => ?_, h.table, h.latest, h.uids, h.tokens, h.delivered, h.fresh⟩
  have hsingle := h.single k
  simp only [Flights.schedule, outstanding, count_cons, Finset.mem_insert] at hsingle ⊢
  by_cases hk : k = key
  · subst hk
    simp only [hkey, if_false] at hsingle
    simp only [beq_self_eq_true, if_true, true_or]
    omega
  · simp only [beq_eq_false_iff_ne.mpr (Ne.symm hk), hk, false_or, Bool.false_eq_true, if_false]
    omega

/-- A timer that fires is no longer outstanding. -/
theorem outstanding_fire (k : String) :
    (f.fire key).outstanding k = f.outstanding k - if k = key ∧ key ∈ f.timers then 1 else 0 := by
  simp only [Flights.fire, outstanding, count_erase]
  by_cases hk : k = key
  · subst hk
    by_cases hmem : k ∈ f.timers
    · have hcount := count_pos_iff.mpr hmem
      simp only [beq_self_eq_true, if_true, hmem, and_self]
      omega
    · simp [hmem, count_eq_zero_of_not_mem hmem]
  · simp [hk, Ne.symm hk]

/-- A timer fires and no job follows. -/
theorem dropTimer (h : f.Inv py) (hkey : key ∈ f.timers) : ((f.fire key).discard key).Inv py := by
  refine ⟨fun k => ?_, h.table, h.latest, h.uids, h.tokens, h.delivered, h.fresh⟩
  have hout : ((f.fire key).discard key).outstanding k = (f.fire key).outstanding k := rfl
  have hresolving : k ∈ ((f.fire key).discard key).resolving ↔ k ≠ key ∧ k ∈ f.resolving :=
    Finset.mem_erase
  simp only [hout, outstanding_fire, h.single, hresolving, hkey, and_true]
  by_cases hk : k = key
  · simp [hk, (h.of_timer hkey).2.1]
  · simp [hk]

variable (hkey : job.key ∈ f.timers) (htoken : ∀ job' ∈ f.attempts, job'.token ≠ job.token)
include hkey htoken

/-- A new attempt, with a new token, leaves the jobs of other devices the latest ones. -/
theorem begin_attempts (h : f.Inv py) (attempt : String × String) :
    (∀ job' ∈ f.jobs, ((f.fire job.key).begin job attempt).latest job'.key = some job') ∧
      (((f.fire job.key).begin job attempt).attempts.map Job.token).Nodup ∧
      ∀ job' ∈ f.delivered, job' ∈ ((f.fire job.key).begin job attempt).attempts := by
  refine ⟨fun job' hjob' => ?_, ?_, fun job' hjob' => mem_cons_of_mem _ (h.delivered _ hjob')⟩
  · have hne := (h.of_timer hkey).2.2 job' hjob'
    rw [Flights.latest, begin, List.find?_cons_of_neg (by simpa using Ne.symm hne)]
    exact h.latest job' hjob'
  · refine nodup_cons.mpr ⟨fun hmem => ?_, h.tokens⟩
    obtain ⟨job', hjob', heq⟩ := mem_map.mp hmem
    exact htoken job' hjob' heq

/-- **A timer fires and its job is submitted.** -/
theorem submit (h : f.Inv py) (huid : isUid job.uid = true) :
    (((f.fire job.key).begin job (job.token, py.uidDigest job.uid)).submit job).Inv py := by
  obtain ⟨hlatest, htokens, hdelivered⟩ :=
    h.begin_attempts hkey htoken (job.token, py.uidDigest job.uid)
  obtain ⟨-, hmarked, hother⟩ := h.of_timer hkey
  refine ⟨fun k => ?_, fun k attempt => ?_, ?_, ?_, htokens, hdelivered, ?_⟩
  · have hsingle := h.single k
    have hout : (((f.fire job.key).begin job (job.token, py.uidDigest job.uid)).submit
        job).outstanding k = (f.fire job.key).outstanding k + if job.key = k then 1 else 0 := by
      simp only [Flights.submit, begin, outstanding, countP_cons, decide_eq_true_eq]
      rw [Nat.add_assoc]
    have hresolving : k ∈ (((f.fire job.key).begin job (job.token, py.uidDigest job.uid)).submit
        job).resolving ↔ k ∈ f.resolving := Iff.rfl
    simp only [hout, outstanding_fire, hsingle, hresolving, hkey, and_true]
    by_cases hk : k = job.key
    · simp [hk, hmarked]
    · simp [hk, Ne.symm hk]
  · simp only [Flights.submit, begin, Flights.fire, Dict.lookup_setItem, mem_cons, exists_eq_or_imp]
    by_cases hk : k = job.key
    · subst hk
      simp only [if_true, Option.some.injEq, true_and]
      constructor
      · exact fun heq => .inl heq.symm
      · rintro (heq | ⟨job', hjob', heq, -⟩)
        · exact heq.symm
        · exact absurd heq (hother job' hjob')
    · simp only [hk, if_false, Ne.symm hk, false_and, false_or]
      exact h.table k attempt
  · refine forall_mem_cons.mpr ⟨?_, hlatest⟩
    rw [Flights.latest, Flights.submit, begin, List.find?_cons_of_pos (by simp)]
  · exact forall_mem_cons.mpr ⟨huid, h.uids⟩
  · refine forall_mem_cons.mpr ⟨fun hmem => ?_, h.fresh⟩
    exact htoken job (h.delivered job hmem) rfl

/-- A timer fires and the submission raises: the attempt is taken back. -/
theorem failSubmission (h : f.Inv py) (attempt : String × String) :
    ((((f.fire job.key).begin job attempt).popAttempt job.key).discard job.key).Inv py := by
  obtain ⟨hlatest, htokens, hdelivered⟩ := h.begin_attempts hkey htoken attempt
  obtain ⟨-, hmarked, hother⟩ := h.of_timer hkey
  refine ⟨(h.dropTimer hkey).single, fun k attempt' => ?_, hlatest, h.uids, htokens, hdelivered,
    h.fresh⟩
  simp only [discard, popAttempt, begin, Flights.fire, Dict.lookup_pop, Dict.lookup_setItem]
  by_cases hk : k = job.key
  · subst hk
    simp only [if_true, reduceCtorEq, false_iff, not_exists, not_and]
    exact fun job' hjob' heq => absurd heq (hother job' hjob')
  · simp only [hk, if_false]
    exact h.table k attempt'

omit hkey htoken

/-- **The result of a job is delivered**, and its device is no longer marked. -/
theorem deliver (h : f.Inv py) (hjob : job ∈ f.jobs) :
    (((f.deliver job).popAttempt job.key).discard job.key).Inv py := by
  obtain ⟨hcount, hcountP, hmarked⟩ := h.of_job hjob
  have hnotMem : job ∉ f.jobs.erase job := fun hmem => by
    have hpos : 0 < (f.jobs.erase job).countP (·.key = job.key) :=
      countP_pos_iff.mpr ⟨job, hmem, by simp⟩
    rw [countP_erase, hcountP] at hpos
    simp [hjob] at hpos
  refine ⟨fun k => ?_, fun k attempt => ?_,
    fun job' hjob' => h.latest job' (mem_of_mem_erase hjob'),
    fun job' hjob' => h.uids job' (mem_of_mem_erase hjob'), h.tokens,
    forall_mem_cons.mpr ⟨h.mem_attempts hjob, h.delivered⟩, ?_⟩
  · have hout : (((f.deliver job).popAttempt job.key).discard job.key).outstanding k =
        f.outstanding k - if k = job.key then 1 else 0 := by
      simp only [discard, popAttempt, Flights.deliver, outstanding, countP_erase, hjob,
        true_and, decide_eq_true_eq]
      by_cases hk : k = job.key
      · subst hk
        simp only [if_true]
        omega
      · simp [hk, Ne.symm hk]
    have hresolving : k ∈ (((f.deliver job).popAttempt job.key).discard job.key).resolving ↔
        k ≠ job.key ∧ k ∈ f.resolving := Finset.mem_erase
    simp only [hout, h.single, hresolving]
    by_cases hk : k = job.key
    · simp [hk, hmarked]
    · simp [hk]
  · simp only [discard, popAttempt, Flights.deliver, Dict.lookup_pop]
    by_cases hk : k = job.key
    · simp only [hk, if_true, reduceCtorEq, false_iff, not_exists, not_and]
      intro job' hjob' heq
      have hsame : job' = job := by
        have hlatest := h.latest job' (mem_of_mem_erase hjob')
        rw [heq, h.latest job hjob, Option.some.injEq] at hlatest
        exact hlatest.symm
      exact absurd (hsame ▸ hjob') hnotMem
    · simp only [hk, if_false]
      rw [h.table]
      constructor
      · rintro ⟨job', hjob', rfl, hattempt⟩
        have hne : job' ≠ job := fun heq => hk (congrArg Job.key heq)
        exact ⟨job', (mem_erase_of_ne hne).mpr hjob', rfl, hattempt⟩
      · rintro ⟨job', hjob', heq, hattempt⟩
        exact ⟨job', mem_of_mem_erase hjob', heq, hattempt⟩
  · intro job' hjob' hmem
    rcases mem_cons.mp hmem with rfl | hmem
    · exact hnotMem hjob'
    · exact h.fresh job' (mem_of_mem_erase hjob') hmem

end Inv

end Flights

namespace World

variable {s s' : World} {key token : String} {now : ℤ}

/-! ### The callbacks keep the invariant -/

/-- `_schedule_resolution` keeps the invariant. -/
theorem inv_scheduleResolution (h : s.flights.Inv py) (key : String) (force : Bool) (now : ℤ) :
    (s.scheduleResolution py o key force now).flights.Inv py := by
  rw [scheduleResolution]
  split
  · exact h
  · next hkey =>
      split
      · exact h
      · split
        · split
          · exact h
          · split
            · exact h
            · exact h.schedule hkey
        · exact h

@[simp] theorem flights_scheduleUidMissingWarning (s : World) (key : String) :
    (s.scheduleUidMissingWarning key).flights = s.flights := by
  rw [scheduleUidMissingWarning]
  split <;> rfl

@[simp] theorem flights_scheduleFlush (s : World) (configDirty : Bool) :
    (s.scheduleFlush configDirty).flights = s.flights := rfl

@[simp] theorem flights_flush (s : World) (applied : Bool) :
    (s.flush applied).flights = s.flights := by
  cases s with
  | mk devices flushHandle configDirty scheduled warned flights =>
    cases configDirty <;> cases applied <;> rfl

@[simp] theorem flights_warnUidMissing (s : World) (key : String) :
    (s.warnUidMissing key).flights = s.flights := by
  rw [warnUidMissing]
  split
  · rfl
  · split <;> rfl

/-- The service starts without resolutions. -/
theorem flights_start (devices : List (String × Entry)) : (start devices).flights = .none := by
  rw [start]
  generalize hworld : (⟨devices, false, false, ∅, ∅, .none⟩ : World) = w
  have hflights : w.flights = .none := by rw [← hworld]
  clear hworld
  induction devices generalizing w with
  | nil => exact hflights
  | cons m devices ih =>
    obtain ⟨key, device⟩ := m
    refine ih _ ?_
    dsimp only
    split
    · rw [flights_scheduleUidMissingWarning, hflights]
    · exact hflights

/-- A message of a device may schedule a resolution for it. -/
theorem inv_mqttDeviceEvent (h : s.flights.Inv py) (topic : Json) (payload : Payload) (now : ℤ) :
    (s.mqttDeviceEvent py o topic payload now).flights.Inv py := by
  rw [mqttDeviceEvent]
  split
  · exact h
  · dsimp only
    split
    · exact h
    · rw [flights_scheduleFlush]
      split
      · rwa [flights_scheduleUidMissingWarning]
      · exact h
    · refine inv_scheduleResolution ?_ _ _ _
      rw [flights_scheduleFlush]
      split <;> exact h

/-- A refresh may schedule one for each device. -/
theorem inv_refreshDevices (requested : Json) (now : ℤ) (devices : List (String × Entry))
    (h : s.flights.Inv py) : (s.refreshDevices py o requested now devices).flights.Inv py := by
  induction devices generalizing s with
  | nil => exact h
  | cons m devices ih =>
    obtain ⟨key, device⟩ := m
    rw [refreshDevices.eq_def]
    dsimp only
    split
    · exact ih (inv_scheduleResolution h _ _ _)
    · split
      · exact h
      · exact ih (inv_scheduleResolution h _ _ _)
      · exact ih h

/-- `_manual_refresh_event` keeps the invariant, whatever the payload is. -/
theorem inv_manualRefreshEvent (h : s.flights.Inv py) (payload : Payload) (now : ℤ) :
    (s.manualRefreshEvent py o payload now).flights.Inv py := by
  rw [manualRefreshEvent.eq_def]
  split
  · split
    · exact inv_refreshDevices _ _ _ h
    · split
      · exact inv_refreshDevices _ _ _ h
      · exact h
      · exact inv_refreshDevices _ _ _ h
      · exact inv_refreshDevices _ _ _ h
  · exact inv_refreshDevices _ _ _ h

/-- The check of a device may schedule a resolution for it. -/
theorem inv_checkDevice (h : s.flights.Inv py) (key : String) (health : Bool × Bool) (now : ℤ) :
    (s.checkDevice py o key health now).1.flights.Inv py := by
  rw [checkDevice]
  split
  · exact h
  · dsimp only
    split
    · refine inv_scheduleResolution ?_ _ _ _
      exact h
    · exact h

/-- And so for all devices. -/
theorem inv_checkDevices (health : String → Bool × Bool) (now : ℤ) (keys : List String)
    (h : s.flights.Inv py) : (s.checkDevices py o health now keys).1.flights.Inv py := by
  induction keys generalizing s with
  | nil => exact h
  | cons key keys ih => exact ih (inv_checkDevice h key (health key) now)

/-- `_periodic` keeps the invariant. -/
theorem inv_periodic (h : s.flights.Inv py) (health : String → Bool × Bool) (now : ℤ) :
    (s.periodic py o health now).flights.Inv py := by
  rw [periodic]
  dsimp only
  split
  · exact inv_checkDevices health now _ h
  · exact inv_checkDevices health now _ h

variable {device : Entry} {job : Job}

/-- What is resolved is the UID of the entry. -/
theorem isUid_of_deviceUid {uid : String} (h : deviceUid device = some uid) :
    isUid uid = true ∧ Json.get device "uid" = .str uid := by
  rw [deviceUid] at h
  split at h
  · next hget =>
      obtain ⟨huid, ⟨⟩⟩ := Option.ite_none_right_eq_some.mp h
      exact ⟨huid, hget⟩
  · cases h

/-- **The timer fires**: `_resolve` submits a job with a new token, or gives up. -/
theorem inv_resolve (h : s.flights.Inv py) (hkey : key ∈ s.flights.timers)
    (htoken : ∀ job ∈ s.flights.attempts, job.token ≠ token) (raises : Bool) (now : ℤ) :
    (resolve py { s with flights := s.flights.fire key } key token raises now).flights.Inv py := by
  rw [resolve]
  split
  · exact h.dropTimer hkey
  · next device _ =>
      split
      · exact h.dropTimer hkey
      · next uid huid =>
          dsimp only
          generalize hjob : jobFor py { s with flights := s.flights.fire key } key token uid device
            = job
          obtain ⟨rfl, rfl, rfl⟩ : key = job.key ∧ token = job.token ∧ uid = job.uid := by
            rw [← hjob]
            exact ⟨rfl, rfl, rfl⟩
          split
          · rw [if_pos]
            · exact h.failSubmission hkey htoken _
            · exact Dict.lookup_setItem_self
          · exact h.submit hkey htoken (isUid_of_deviceUid huid).1

@[simp] theorem flights_applyResult (s : World) (key : String) (device : Entry) (result : Json)
    (now : ℤ) : (s.applyResult py key device result now).flights = s.flights := by
  rw [applyResult]
  split
  · rfl
  · split <;> rfl

@[simp] theorem flights_storeResult (s : World) (key token : String) (result : Json) (now : ℤ) :
    (s.storeResult py key token result now).flights = s.flights := by
  rw [storeResult]
  split
  · rfl
  · split
    · exact flights_applyResult _ _ _ _ _
    · rfl

/-- **Only a result with the expected token** ends a resolution. -/
theorem flights_resolveComplete (s : World) (key token : String) (result : Json) (now : ℤ) :
    (s.resolveComplete py key token result now).flights =
      if ((s.flights.resolveAttempts.lookup key).any fun attempt => attempt.1 = token) = true then
        (s.flights.popAttempt key).discard key
      else s.flights := by
  simp only [resolveComplete, flights_storeResult, and_true]
  split
  · rfl
  · exact flights_storeResult _ _ _ _ _

/-- The table has the entry of a job that is outstanding. -/
theorem lookup_of_job (h : s.flights.Inv py) (hjob : job ∈ s.flights.jobs) :
    s.flights.resolveAttempts.lookup job.key = some (job.token, py.uidDigest job.uid) :=
  (h.table _ _).mpr ⟨job, hjob, rfl, rfl⟩

/-- **A result that was delivered before** has another token than the one that is expected. -/
theorem stale_of_delivered (h : s.flights.Inv py) (hjob : job ∈ s.flights.delivered)
    {attempt : String × String}
    (hattempt : s.flights.resolveAttempts.lookup job.key = some attempt) :
    attempt.1 ≠ job.token := by
  obtain ⟨job', hjob', -, rfl⟩ := (h.table _ _).mp hattempt
  intro htoken
  have hsame := inj_on_of_nodup_map h.tokens (h.mem_attempts hjob') (h.delivered job hjob) htoken
  exact h.fresh job' hjob' (hsame ▸ hjob)

/-- The result of an outstanding job ends its resolution. -/
theorem inv_deliver (h : s.flights.Inv py) (hjob : job ∈ s.flights.jobs) (result : Json) (now : ℤ) :
    (resolveComplete py { s with flights := s.flights.deliver job } job.key job.token result
      now).flights.Inv py := by
  rw [flights_resolveComplete, if_pos]
  · exact h.deliver hjob
  · have hlookup := lookup_of_job h hjob
    simp only [Flights.deliver, hlookup, Option.any_some, decide_true]

/-- A result that comes again ends nothing. -/
theorem flights_redeliver (h : s.flights.Inv py) (hjob : job ∈ s.flights.delivered) (result : Json)
    (now : ℤ) : (s.resolveComplete py job.key job.token result now).flights = s.flights := by
  rw [flights_resolveComplete, if_neg]
  intro hany
  cases hattempt : s.flights.resolveAttempts.lookup job.key with
  | none =>
    rw [hattempt] at hany
    cases hany
  | some attempt =>
    rw [hattempt, Option.any_some, decide_eq_true_eq] at hany
    exact stale_of_delivered h hjob hattempt hany

/-- **Each callback keeps the invariant.** -/
theorem inv_step {e : Event} (h : s.flights.Inv py) (hstep : s.step? py o e = some s') :
    s'.flights.Inv py := by
  cases e with
  | mqttDevice topic payload now =>
    obtain ⟨-, ⟨⟩⟩ := Option.ite_none_right_eq_some.mp hstep
    exact inv_mqttDeviceEvent h topic payload now
  | manualRefresh payload now =>
    cases hstep
    exact inv_manualRefreshEvent h payload now
  | periodic health now =>
    cases hstep
    exact inv_periodic h health now
  | timer key token raises now =>
    obtain ⟨hcan, ⟨⟩⟩ := Option.ite_none_right_eq_some.mp hstep
    exact inv_resolve h hcan.1 hcan.2 raises now
  | complete job result now =>
    rcases ite_eq_iff.mp hstep with ⟨hjob, ⟨⟩⟩ | ⟨-, hstep⟩
    · exact inv_deliver h hjob result now
    · obtain ⟨hjob, ⟨⟩⟩ := Option.ite_none_right_eq_some.mp hstep
      rwa [flights_redeliver h hjob]
  | flush applied =>
    obtain ⟨-, ⟨⟩⟩ := Option.ite_none_right_eq_some.mp hstep
    rwa [flights_flush]
  | warnUidMissing key =>
    obtain ⟨-, ⟨⟩⟩ := Option.ite_none_right_eq_some.mp hstep
    rwa [flights_warnUidMissing]

/-- **And so does each run.** -/
theorem inv_run {events : List Event} (h : s.flights.Inv py)
    (hrun : run? py o events s = some s') : s'.flights.Inv py := by
  induction events generalizing s with
  | nil =>
    cases hrun
    exact h
  | cons e events ih =>
    obtain ⟨s₁, hstep, hrest⟩ := Option.bind_eq_some_iff.mp hrun
    exact ih (inv_step h hstep) hrest

/-! ### What a result changes -/

/-- The address and the readiness of the stream are as they were. -/
def SameStreams (s s' : World) : Prop :=
  ∀ k, s'.ipAddress k = s.ipAddress k ∧ s'.streamConfigured k = s.streamConfigured k

/-- A resolution that failed changes no address. -/
theorem sameStreams_failed (hdevice : s.devices.lookup key = some device) (now : ℤ) :
    SameStreams s (scheduleFlush
      { s with devices := Dict.setItem s.devices key (resolutionFailed py device now) } false) := by
  intro k
  simp only [ipAddress, streamConfigured, scheduleFlush, Dict.lookup_setItem]
  split
  · next hk =>
      obtain ⟨hip, hstream⟩ := resolutionFailed_keeps py device now
      simp only [hk, hdevice, Option.map_some, hip, hstream, and_self]
  · exact ⟨rfl, rfl⟩

/-- A current result has the token and the digest that the table has. -/
theorem isCurrent_eq_true {expected : Option (String × String)}
    (h : isCurrent py expected token device = true) :
    ∃ uid, deviceUid device = some uid ∧ expected = some (token, py.uidDigest uid) := by
  rw [isCurrent.eq_def] at h
  split at h
  · next expectedToken digest uid huid =>
      rw [Bool.and_eq_true, beq_iff_eq, beq_iff_eq] at h
      obtain ⟨rfl, rfl⟩ := h
      exact ⟨uid, huid, rfl⟩
  · cases h

/-- **A result changes no address**, or it is current and was found valid. -/
theorem storeResult_cases (s : World) (key token : String) (result : Json) (now : ℤ) :
    SameStreams s (s.storeResult py key token result now) ∨
      ∃ device uid ip changed device', deviceUid device = some uid ∧
        s.flights.resolveAttempts.lookup key = some (token, py.uidDigest uid) ∧
        resolutionSucceeded py device ip now = some (changed, device') ∧
        (s.storeResult py key token result now).devices = Dict.setItem s.devices key device' := by
  have hrefl : SameStreams s s := fun _ => ⟨rfl, rfl⟩
  rw [storeResult]
  split
  · exact .inl hrefl
  · next device hdevice =>
      split
      · next hcurrent =>
          obtain ⟨uid, huid, hexpected⟩ := isCurrent_eq_true hcurrent
          rw [applyResult]
          split
          · exact .inl (sameStreams_failed hdevice now)
          · next ip _ =>
              split
              · exact .inl (sameStreams_failed hdevice now)
              · next changed device' hsucceeded =>
                  exact .inr ⟨device, uid, ip, changed, device', huid, hexpected, hsucceeded, rfl⟩
      · exact .inl hrefl

/-- Behind the result nothing else changes a device. -/
theorem devices_resolveComplete (s : World) (key token : String) (result : Json) (now : ℤ) :
    (s.resolveComplete py key token result now).devices =
      (s.storeResult py key token result now).devices := by
  rw [resolveComplete]
  split <;> rfl

/-- **A result that changes something** is stored: it is for the attempt that is expected and for
the UID of the device, and the address is one. -/
theorem of_changed {k : String} {result : Json}
    (h : (s.resolveComplete py key token result now).ipAddress k ≠ s.ipAddress k ∨
      (s.resolveComplete py key token result now).streamConfigured k ≠ s.streamConfigured k) :
    k = key ∧ ∃ uid ip, isUid uid = true ∧
      s.flights.resolveAttempts.lookup key = some (token, py.uidDigest uid) ∧
      ((s.resolveComplete py key token result now).devices.lookup key).map (Json.get · "uid") =
        some (.str uid) ∧
      (s.resolveComplete py key token result now).ipAddress key = some (.str ip) ∧
      (py.ipAddress ip).isSome = true := by
  simp only [ipAddress, streamConfigured, devices_resolveComplete] at h ⊢
  rcases @storeResult_cases py s key token result now with
    hsame | ⟨device, uid, ip, changed, device', huid, hexpected, hsucceeded, hdevices⟩
  · exact absurd h (not_or.mpr ⟨not_not.mpr (hsame k).1, not_not.mpr (hsame k).2⟩)
  · rw [hdevices] at h ⊢
    have hk : k = key := by
      by_contra hne
      simp [Dict.lookup_setItem_of_ne hne] at h
    obtain ⟨hvalid, hip, hkept⟩ := resolutionSucceeded_eq_some py hsucceeded
    obtain ⟨hisUid, hget⟩ := isUid_of_deviceUid huid
    refine ⟨hk, uid, ip, hisUid, hexpected, ?_, ?_, hvalid⟩
    · rw [Dict.lookup_setItem_self, Option.map_some, hkept, hget]
    · rw [Dict.lookup_setItem_self, Option.map_some, hip]

end World

/-- **Resolutions are single-flight and safe for identities.** -/
theorem resolution_single_flight {devices : List (String × Entry)} {events : List World.Event}
    {s : World}
    (hdigest : ∀ uid uid', isUid uid = true → isUid uid' = true →
      py.uidDigest uid = py.uidDigest uid' → uid = uid')
    (hrun : World.run? py o events (World.start devices) = some s) :
    (∀ key, s.flights.outstanding key ≤ 1 ∧
      (key ∈ s.flights.resolving ↔ s.flights.outstanding key = 1)) ∧
    ∀ (job : Job) (result : Json) (now : ℤ) (s' : World) (key : String),
      s.step? py o (.complete job result now) = some s' →
      s'.ipAddress key ≠ s.ipAddress key ∨ s'.streamConfigured key ≠ s.streamConfigured key →
      job.key = key ∧ s.flights.latest key = some job ∧
        (s'.devices.lookup key).map (Json.get · "uid") = some (.str job.uid) ∧
        ∃ ip, s'.ipAddress key = some (.str ip) ∧ (py.ipAddress ip).isSome = true := by
  have hinv : s.flights.Inv py :=
    World.inv_run (by rw [World.flights_start]; exact Flights.inv_none) hrun
  refine ⟨fun key => ?_, fun job result now s' key hstep hchanged => ?_⟩
  · rw [hinv.single key]
    split
    · next hkey => exact ⟨le_refl 1, iff_of_true hkey rfl⟩
    · next hkey => exact ⟨Nat.zero_le 1, iff_of_false hkey (by decide)⟩
  · rcases ite_eq_iff.mp hstep with ⟨hjob, ⟨⟩⟩ | ⟨-, hstep⟩
    · obtain ⟨rfl, uid, ip, huid, hattempt, hdevice, hip, hvalid⟩ := World.of_changed hchanged
      have hexpected := World.lookup_of_job hinv hjob
      have hsame := Option.some.inj (hattempt.symm.trans hexpected)
      have hjobUid : uid = job.uid :=
        hdigest _ _ huid (hinv.uids job hjob) (congrArg Prod.snd hsame)
      exact ⟨rfl, hinv.latest job hjob, hjobUid ▸ hdevice, ip, hip, hvalid⟩
    · obtain ⟨hjob, ⟨⟩⟩ := Option.ite_none_right_eq_some.mp hstep
      obtain ⟨rfl, uid, ip, huid, hattempt, hdevice, hip, hvalid⟩ := World.of_changed hchanged
      exact absurd rfl (World.stale_of_delivered hinv hjob hattempt)

/-- Libraries that know one address. -/
def samplePython : Python where
  str := fun
    | .str s => s
    | _ => ""
  str_str _ := rfl
  ipAddress s := if s = "10.0.0.9" then some ⟨4, s⟩ else none
  parseTimestamp _ := none
  formatTimestamp _ := ""
  uidDigest uid := uid

/-- A feeder that has started, with a job for it. -/
def sampleJob : Job := ⟨"PLAF203/A", "1", "ABCDEFGHIJ0123456789", none, []⟩

/-- The feeder starts, and the timer fires. -/
def sampleEvents : List World.Event :=
  [.mqttDevice (.str "dl/PLAF203/A/device/event/post")
      (.value (.obj [("cmd", .str "DEVICE_START_EVENT"), ("uuid", .str sampleJob.uid)])) 0,
    .timer sampleJob.key sampleJob.token false 2]

/-- The address is found. -/
def sampleResult : Json :=
  .obj [("resolved", .bool true), ("method", .str "lan_search3"), ("elapsed_ms", .int 5),
    ("stats", .obj (("deadline_exceeded", .bool false) :: statCounters.map (·, .int 0))),
    ("ip_address", .str "10.0.0.9")]

/-- The address is stored. -/
theorem resolution_single_flight_sample :
    ∃ s s', World.run? samplePython ⟨true, "PLAF203", 360, 60⟩ sampleEvents (.start []) = some s ∧
      s.step? samplePython ⟨true, "PLAF203", 360, 60⟩ (.complete sampleJob sampleResult 5) =
        some s' ∧
      s.flights.outstanding "PLAF203/A" ≤ 1 ∧ s.flights.latest "PLAF203/A" = some sampleJob ∧
      ∃ ip, s'.ipAddress "PLAF203/A" = some (.str ip) ∧
        (samplePython.ipAddress ip).isSome = true := by
  have hcheck : ((World.run? samplePython ⟨true, "PLAF203", 360, 60⟩ sampleEvents
      (.start [])).bind fun s =>
        (s.step? samplePython ⟨true, "PLAF203", 360, 60⟩
          (.complete sampleJob sampleResult 5)).map fun s' =>
            ((s.ipAddress "PLAF203/A").any (·.isStr "10.0.0.9"),
              (s'.ipAddress "PLAF203/A").any (·.isStr "10.0.0.9"))) = some (false, true) := by
    decide +kernel
  obtain ⟨s, hrun, hcheck⟩ := Option.bind_eq_some_iff.mp hcheck
  obtain ⟨s', hstep, hcheck⟩ := Option.map_eq_some_iff.mp hcheck
  have hchanged : s'.ipAddress "PLAF203/A" ≠ s.ipAddress "PLAF203/A" := fun heq => by
    rw [heq] at hcheck
    exact absurd ((congrArg Prod.fst hcheck).symm.trans (congrArg Prod.snd hcheck)) (by decide)
  obtain ⟨hsingle, hsafe⟩ := resolution_single_flight (fun _ _ _ _ h => h) hrun
  obtain ⟨-, hlatest, -, hip⟩ := hsafe _ _ _ _ _ hstep (.inl hchanged)
  exact ⟨s, s', hrun, hstep, (hsingle _).1, hlatest, hip⟩

end PetlibroLocal.Discovery
