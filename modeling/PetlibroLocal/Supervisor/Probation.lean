import PetlibroLocal.Supervisor.PreviousBinary

/-!
# Probation Asks the Candidate

`poll_expected_version` asks whatever process runs under the service. That process should have
been started from the candidate: `sv up` succeeds without a restart if the service runs already,
and then the old process would answer for the candidate.

On the normal path the service is stopped before the swap. But after a reboot between the write
of `backup_committed` and the swap, the service runs again, from the old binary; recovery swaps
the candidate in without stopping it, and the probe asks the old process. The same happens if a
rollback starts the old binary while `status.json` still reads `backup_committed`. Without these
two, the process that is asked is the candidate, whatever else fails.

The main results are `old_process_probed`, `recoverTransaction_tests` and
`probation_tests_candidate`.
-/

namespace PetlibroLocal.Supervisor

variable {B : Type} {w w' : Feeder B}

/-- The commands of `poll_expected_version`: the read of the token, and the probes. -/
def Command.Polls (c : Command) : Prop := c = .readToken ∨ ∃ expected, c = .probe expected

/-- The write of `backup_committed` has taken place, the swap has not, and the feeder reboots. -/
theorem old_process_probed :
    ∃ s w', (system (unreliable Bool)).Reaches (none, firstUpdate) (some s, w') ∧
      s.command? = some .readToken ∧ w'.new = true ∧ w'.running = some false :=
  have cut := System.reaches_cut (unreliable_allows recoverTransaction
    (List.replicate 11 .success) firstUpdate) trivial
  have reboot := cut.tail (System.Step.outside (.inl ⟨trivial, rfl⟩))
  have again := System.reaches_run (unreliable_allows recoverTransaction
    (List.replicate 9 .success) _)
  ⟨_, _, reboot.trans again, rfl, rfl, rfl⟩

/-- The feeder does not reboot between the write of `backup_committed` and the swap, and the
write of `rollback_in_progress` replaces `status.json`. Else every command may fail. -/
def noStaleProcess (B : Type) : Assumptions B where
  allowed _ c o := ∀ m, c = .writeStatus m → m.status = some .rollbackInProgress →
    o.effect = true
  mayKill _ := True
  mayReboot w := w.stage = .committed → w.active = w.new

/-! ### What each stage says of the service -/

/-- `candidate.bin` holds the candidate, if it is there. -/
def OnlyCandidate (w : Feeder B) : Prop := w.candidate = none ∨ w.candidate = some w.new

/-- The process is the candidate, if there is one. -/
def OnlyNew (w : Feeder B) : Prop := w.running = none ∨ w.running = some w.new

/-- What is known of the service, so that recovery asks the candidate. -/
structure Fresh (w : Feeder B) : Prop where
  candidate : w.stage = .waiting ∨ w.stage = .committed → OnlyCandidate w
  running : w.stage = .committed → OnlyNew w

/-- Recovery will not swap the candidate in any more. -/
def Behind (w : Feeder B) : Prop := w.stage = .backedUp ∨ w.stage = .over

/-- The script is in front of the swap. -/
structure Before (w : Feeder B) : Prop where
  stage : w.stage = .waiting ∨ w.stage = .over
  candidate : OnlyCandidate w

/-- The script is at the swap: no old process runs. -/
structure Swapped (w : Feeder B) : Prop where
  candidate : OnlyCandidate w
  running : OnlyNew w

theorem Behind.fresh (h : Behind w) : Fresh w where
  candidate hs := by rcases h with h | h <;> simp [h] at hs
  running hs := by rcases h with h | h <;> simp [h] at hs

theorem Before.fresh (h : Before w) : Fresh w where
  candidate _ := h.candidate
  running hs := by
    have := h.stage
    simp [hs] at this

theorem Swapped.fresh (h : Swapped w) : Fresh w := ⟨fun _ => h.candidate, fun _ => h.running⟩

theorem OnlyCandidate.cleanup (h : OnlyCandidate w) (effect : Bool) :
    (if effect then none else w.candidate) = none ∨
      (if effect then none else w.candidate) = some w.new := by
  cases effect with
  | true => exact .inl rfl
  | false => exact h

variable {c : Command} {s : Shell Bool} {cv pv : String}

theorem Behind.rollsBack (o : Outcome) (hc : c.RollsBack) (h : Behind w) :
    Behind (perform c o w).2 := by
  have copy : ∀ (source : Option B) (f : B → Feeder B), (∀ b, (f b).stage = w.stage) →
      Behind (atomicCopyElf source f o w).2 := by
    intro source f hf
    cases source with
    | none => exact h
    | some b =>
      simp only [atomicCopyElf]
      split
      · rw [Behind, hf]; exact h
      · exact h
  cases hc with
  | cleanup | sv | svOrTrue => exact h
  | validateBackup | restore => exact copy _ _ fun _ => rfl
  | status m hm =>
    simp only [perform]
    split
    · exact hm
    · exact h

theorem Behind.givesUp (o : Outcome) (hc : c.GivesUp) (h : Behind w) :
    Behind (perform c o w).2 := by
  cases hc with
  | jsonField | cleanup | up => exact h
  | status m hm =>
    simp only [perform]
    split
    · exact .inr hm
    · exact h

theorem Before.givesUp (o : Outcome) (hc : c.GivesUp) (h : Before w) :
    Before (perform c o w).2 := by
  cases hc with
  | jsonField key file => exact h
  | cleanup => exact ⟨h.stage, h.candidate.cleanup _⟩
  | up => exact ⟨h.stage, h.candidate⟩
  | status m hm =>
    simp only [perform]
    split
    · exact ⟨.inr hm, h.candidate⟩
    · exact h

theorem OnlyNew.up (h : OnlyNew w) (ha : w.active = w.new) (effect : Bool) :
    OnlyNew (w.sv .up effect) := by
  have hup : w.running.getD w.active = w.new := by
    rcases h with h | h
    · rw [h, Option.getD_none, ha]
    · rw [h, Option.getD_some]
  cases effect with
  | true => exact .inr (congrArg some hup)
  | false => exact h

theorem Swapped.givesUp (o : Outcome) (hc : c.GivesUp) (h : Swapped w ∧ w.active = w.new) :
    Swapped (perform c o w).2 ∧ (perform c o w).2.active = (perform c o w).2.new := by
  cases hc with
  | jsonField key file => exact h
  | cleanup => exact ⟨⟨h.1.candidate.cleanup _, h.1.running⟩, h.2⟩
  | up => exact ⟨⟨h.1.candidate, h.1.running.up h.2 _⟩, h.2⟩
  | status m hm =>
    simp only [perform]
    split
    · exact ⟨⟨h.1.candidate, h.1.running⟩, h.2⟩
    · exact h

/-! ### The steps of the script -/

/-- The service is as its stage says in front of every command, and the candidate runs in front
of every probe. -/
def Asks (c : Command) (w : Feeder B) : Prop := Fresh w ∧ (c.Polls → w.running = some w.new)

theorem Fresh.asks (h : Fresh w) (hc : ¬c.Polls) : Asks c w := ⟨h, fun hp => absurd hp hc⟩

theorem Command.GivesUp.not_polls (h : c.GivesUp) : ¬c.Polls := by
  rintro (rfl | ⟨expected, rfl⟩) <;> cases h

theorem Command.RollsBack.not_polls (h : c.RollsBack) : ¬c.Polls := by
  rintro (rfl | ⟨expected, rfl⟩) <;> cases h

/-- Every probe of the script asks the candidate. -/
def Tests (s : Shell Bool) (w : Feeder B) : Prop :=
  (system (noStaleProcess B)).toDevice.Always Asks (fun _ w => Fresh w) s w

theorem Tests.bind_pure {b : Bool} (h : Tests s w) : Tests (s >>= fun _ => pure b) w :=
  Device.Always.bind h fun _ _ hw => hw

/-- A rollback never polls. -/
theorem Behind.tests (hs : s.Only Command.RollsBack) (h : Behind w) : Tests s w :=
  Device.always_of_only hs (fun _ _ hc h => (Behind.fresh h).asks hc.not_polls)
    (fun _ o _ hc h _ => h.rollsBack o hc) (fun _ _ h => Behind.fresh h) h

theorem Behind.tests_givesUp (hs : s.Only Command.GivesUp) (h : Behind w) : Tests s w :=
  Device.always_of_only hs (fun _ _ hc h => (Behind.fresh h).asks hc.not_polls)
    (fun _ o _ hc h _ => h.givesUp o hc) (fun _ _ h => Behind.fresh h) h

theorem Before.tests (hs : s.Only Command.GivesUp) (h : Before w) : Tests s w :=
  Device.always_of_only hs (fun _ _ hc h => (Before.fresh h).asks hc.not_polls)
    (fun _ o _ hc h _ => h.givesUp o hc) (fun _ _ h => Before.fresh h) h

theorem Swapped.tests (hs : s.Only Command.GivesUp) (h : Swapped w) (ha : w.active = w.new) :
    Tests s w :=
  Device.always_of_only hs (fun _ _ hc h => (Swapped.fresh h.1).asks hc.not_polls)
    (fun _ o _ hc h _ => Swapped.givesUp o hc h) (fun _ _ h => Swapped.fresh h.1) ⟨h, ha⟩

theorem rollbackCandidate_tests {r : Reason} (h : Fresh w) :
    Tests (rollbackCandidate cv pv r) w := by
  refine always_statusWrite_bind (h.asks (by simp [Command.Polls])) fun o ho => ?_
  rw [if_pos (ho _ rfl rfl)]
  exact Behind.tests restoreBackup_only (.inl rfl)

/-- The process under the service is the candidate. -/
theorem probeCandidate_tests (h : Swapped w) (ha : w.active = w.new) (hr : w.running = some w.new) :
    Tests (probeCandidate cv pv) w := by
  have poll : Always (noStaleProcess B) Asks
      (fun r w => (Swapped w ∧ w.active = w.new ∧ w.running = some w.new) ∧
        (r = .confirmed → cv = w.version → w.probed = true))
      (pollExpectedVersion cv) w :=
    always_pollExpectedVersion (fun _ h => ⟨h.1.fresh, fun _ => h.2.2⟩)
      (fun _ h => ⟨h.1.fresh, fun _ => h.2.2⟩) (fun _ h => ⟨h.1.fresh, fun _ => h.2.2⟩)
      (fun _ _ h => ⟨⟨h.1.candidate, h.1.running⟩, h.2⟩) ⟨h, ha, hr⟩
  refine poll.bind fun r w' ⟨⟨h', ha', _⟩, _⟩ => ?_
  cases r with
  | confirmed =>
    refine always_statusWrite_bind (h'.fresh.asks (by simp [Command.Polls])) fun o _ => ?_
    refine Tests.bind_pure (Swapped.tests finishSuccess_only ?_ ?_)
    · split
      · exact ⟨h'.candidate, h'.running⟩
      · exact h'
    · split
      · exact ha'
      · exact ha'
  | unavailable | failed => exact (rollbackCandidate_tests h'.fresh).bind_pure

/-- **Probation**: no old process runs, so `sv up` starts the candidate. -/
theorem completeCandidateProbation_tests (h : Swapped w) (ha : w.active = w.new) :
    Tests (completeCandidateProbation cv pv) w := by
  have start : ∀ w' : Feeder B, Swapped w' → w'.active = w'.new → Tests (do
      if ← sv .up then
        probeCandidate cv pv
      else
        let _ ← rollbackCandidate cv pv .candidateServiceStartFailed
        pure false) w' := by
    intro w' h' ha'
    refine always_sv_bind (h'.fresh.asks (by simp [Command.Polls])) fun o _ => ?_
    have hup : Swapped (w'.sv .up o.effect) := ⟨h'.candidate, h'.running.up ha' _⟩
    cases o with
    | success =>
      refine probeCandidate_tests hup ha' (hup.running.resolve_left ?_)
      simp [Feeder.sv, Feeder.afterSv, Outcome.effect]
    | failure first second => exact (rollbackCandidate_tests hup.fresh).bind_pure
  refine always_statusWrite_bind (h.fresh.asks (by simp [Command.Polls])) fun o _ => ?_
  split
  · exact start _ ⟨h.candidate, h.running⟩ ha
  · exact start _ h ha

/-- The swap, by the script or by recovery: a candidate that is swapped in is the active
binary. -/
theorem Swapped.activate_tests {f : Bool → Shell Bool} (h : Swapped w)
    (hok : ∀ w' : Feeder B, Swapped w' → w'.active = w'.new → Tests (f true) w')
    (hfail : ∀ w' : Feeder B, Swapped w' → Tests (f false) w') :
    Tests (activate >>= f) w := by
  have hw : Asks .activate w := h.fresh.asks (by simp [Command.Polls])
  rcases id h.candidate with hc | hc
  · exact always_activate_bind_none hc hw (hfail w h)
  · refine always_activate_bind hc hw fun o _ => ?_
    cases o with
    | success => exact hok _ ⟨h.candidate, h.running⟩ rfl
    | failure first second =>
      cases first with
      | true => exact hfail _ ⟨h.candidate, h.running⟩
      | false => exact hfail _ h

/-- The service is down, so `sv up` starts the candidate. -/
theorem swapCandidate_tests (h : Before w) (hr : w.running = none) :
    Tests (swapCandidate cv pv) w := by
  refine always_backup_bind (h.fresh.asks (by simp [Command.Polls])) fun o _ => ?_
  cases o with
  | failure first second =>
    have h' : Before (if first then { w with previous := some w.active } else w) := by
      split
      · exact ⟨h.stage, h.candidate⟩
      · exact h
    exact h'.tests ⟨.status _ rfl, fun _ => ⟨.up, fun _ => ⟨.cleanup, fun _ => trivial⟩⟩⟩
  | success =>
    have h' : Swapped { w with previous := some w.active } := ⟨h.candidate, .inl hr⟩
    have swap : ∀ w' : Feeder B, Swapped w' → Tests (do
        if ← activate then
          completeCandidateProbation cv pv
        else
          let _ ← rollbackCandidate cv pv .candidateActivateFailed
          pure false) w' := fun w' h' =>
      h'.activate_tests (fun _ h ha => completeCandidateProbation_tests h ha)
        (fun _ h => (rollbackCandidate_tests h.fresh).bind_pure)
    refine always_statusWrite_bind (h'.fresh.asks (by simp [Command.Polls])) fun o _ => ?_
    split
    · exact swap _ ⟨h.candidate, .inl hr⟩
    · exact swap _ h'

theorem stopService_tests (h : Before w) : Tests (stopService cv pv) w := by
  have exit : ∀ w' : Feeder B, Before w' → ∀ r, Tests (do
      let _ ← statusWrite .failed r cv pv
      let _ ← cleanupTransaction
      pure false) w' := fun w' h' r =>
    h'.tests ⟨.status _ rfl, fun _ => ⟨.cleanup, fun _ => trivial⟩⟩
  have stop : ∀ w' : Feeder B, Before w' → Tests (do
      if ← sv .down then
        swapCandidate cv pv
      else
        let _ ← statusWrite .failed .serviceStopFailed cv pv
        let _ ← cleanupTransaction
        pure false) w' := by
    intro w' h'
    refine always_sv_bind (h'.fresh.asks (by simp [Command.Polls])) fun o _ => ?_
    have hdown : Before (w'.sv .down o.effect) := ⟨h'.stage, h'.candidate⟩
    cases o with
    | success => exact swapCandidate_tests hdown rfl
    | failure first second => exact exit _ hdown _
  refine always_ncExecutable_bind (h.fresh.asks (by simp [Command.Polls])) fun o _ => ?_
  cases o with
  | failure first second => exact exit w h _
  | success =>
    refine always_statusWrite_bind (h.fresh.asks (by simp [Command.Polls])) fun o _ => ?_
    split
    · exact stop _ ⟨.inl rfl, h.candidate⟩
    · exact stop _ h

theorem activatePendingUpdate_tests (h : Before w) : Tests activatePendingUpdate w :=
  always_activatePendingUpdate (fun _ => h.fresh.asks (by simp [Command.Polls]))
    (fun _ => h.fresh.asks (by simp [Command.Polls])) (fun _ _ honly => h.tests honly)
    fun _ _ _ => stopService_tests h

/-- The same where a run was cut off after the backup. -/
theorem resumeActivation_tests (h : Swapped w) : Tests (resumeActivation .backupCommitted) w := by
  refine always_transactionValues_bind (fun _ => h.fresh.asks (by simp [Command.Polls])) ?_
  refine always_isFile_bind (h.fresh.asks (by simp [Command.Polls])) ?_
  cases hc : w.isFile .candidate with
  | false => exact rollbackCandidate_tests h.fresh
  | true =>
    exact h.activate_tests (fun _ h ha => completeCandidateProbation_tests h ha)
      (fun _ h => rollbackCandidate_tests h.fresh)

/-- **In a run of the supervisor, every probe asks the candidate.** -/
theorem recoverTransaction_tests (h : Fresh w) : Tests recoverTransaction w := by
  refine always_recoverTransaction (h.asks (by simp [Command.Polls]))
    (fun _ => h.asks (by simp [Command.Polls])) ?waiting ?committed ?rollback ?resume ?finished
  case waiting =>
    exact fun hs => activatePendingUpdate_tests ⟨.inl hs, h.candidate (.inl hs)⟩
  case committed =>
    intro m hm hs
    have hs : w.stage = .committed := (stage_of_status hm).trans hs
    exact resumeActivation_tests ⟨h.candidate (.inr hs), h.running hs⟩
  case rollback => exact fun _ _ _ _ => rollbackCandidate_tests h
  case resume => exact fun hs _ _ _ => Behind.tests restoreBackup_only (.inl hs)
  case finished => exact fun hs _ honly => Behind.tests_givesUp honly (.inr hs)

/-! ### Every reachable state -/

theorem Feeder.Staged.fresh (h : w.Staged) : Fresh w := by
  obtain ⟨previousVersion, hstatus⟩ := h.status
  have hs : w.stage = .waiting := by rw [stage_of_status hstatus]; rfl
  exact Before.fresh ⟨.inl hs, .inr h.candidate⟩

/-- A reboot or an upload leaves no stale process. -/
theorem fresh_of_outside (h : (system (noStaleProcess B)).outside w w') (hw : Fresh w) :
    Fresh w' := by
  rcases h with ⟨hreboot, rfl⟩ | hupload
  · exact ⟨hw.candidate, fun hs => .inr (congrArg some (hreboot hs))⟩
  · have hover : w.stage = .over := stage_of_not_outstanding hupload.free
    cases hupload with
    | staged free new version previousVersion =>
      exact Feeder.Staged.fresh ⟨rfl, rfl, ⟨_, rfl⟩, ⟨_, rfl⟩, rfl, rfl⟩
    | cut free candidate pending status hstatus =>
      refine Behind.fresh (.inr ?_)
      rcases hstatus with rfl | rfl
      · exact hover
      · rfl

/-- **Probation tests the candidate**, provided that the feeder does not reboot between the
write of `backup_committed` and the swap and that the write of `rollback_in_progress` replaces
`status.json`: whenever `poll_expected_version` reads the token or probes, the process that runs
was started from the candidate. -/
theorem probation_tests_candidate {s : Shell Bool} {c : Command} (h₀ : w.Staged)
    (h : (system (noStaleProcess B)).Reaches (none, w) (some s, w'))
    (hs : s.command? = some c) (hc : c.Polls) : w'.running = some w'.new := by
  have safe : (system (noStaleProcess B)).Safe Fresh Asks (fun _ => Fresh) (some s, w') :=
    h.invariant (fun _ => recoverTransaction_tests) (fun _ _ hw _ => hw.1) (fun _ _ hw => hw)
      (fun _ _ => fresh_of_outside) h₀.fresh
  cases s with
  | done a => simp [Script.command?] at hs
  | run c' next =>
    obtain rfl : c' = c := Option.some.inj hs
    exact safe.1.2 hc

/-- The normal path: the fifteenth command reads the token, and the candidate runs. -/
theorem probation_tests_candidate_firstUpdate :
    ∃ s w', (system (noStaleProcess Bool)).Reaches (none, firstUpdate) (some s, w') ∧
      s.command? = some .readToken ∧ w'.running = some w'.new := by
  have h : (system (noStaleProcess Bool)).Reaches (none, firstUpdate) _ :=
    System.reaches_run (Device.allows_of_forall _ (List.replicate 14 .success) _
      fun _ ho _ _ _ _ _ => List.eq_of_mem_replicate ho ▸ rfl)
  exact ⟨_, _, h, rfl, probation_tests_candidate firstUpdate_staged h rfl (.inl rfl)⟩

end PetlibroLocal.Supervisor
