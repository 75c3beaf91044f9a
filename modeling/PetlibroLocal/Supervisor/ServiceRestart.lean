import PetlibroLocal.Supervisor.PreviousBinary

/-!
# The Service Is Started Again

A transaction that is over should not leave the state agent stopped: if `sv down` was called in
it, the last call of `sv` should be `sv up`. The agent's API is the only remote way to install
another update.

The exits for `service_stop_failed`, `backup_restore_failed` and `backup_invalid` do not start
the service, and neither does a run that finds `nc` gone after a run that was cut off. Where
these do not come up, and the supervisor is not killed in the moment between the status
`backup_create_failed` and the `sv up` behind it, every exit starts the service again.

The main results are `service_left_stopped`, `recoverTransaction_restarts` and
`service_started_again`.
-/

namespace PetlibroLocal.Supervisor

variable {B : Type} {w w' : Feeder B}

/-- The last call of `sv` in the transaction is `sv down`. -/
def Feeder.Stopped (w : Feeder B) : Prop := w.svLog.getLast? = some .down

/-- `sv down` runs into its timeout: the run gives up, and nothing starts the service. -/
theorem service_left_stopped :
    ∃ a w', (system (unreliable Bool)).Reaches (none, firstUpdate) (some (.done a), w') ∧
      w'.phase = some .failed ∧ w'.reason = some .serviceStopFailed ∧ w'.svLog = [.down] ∧
      w'.running = none := by
  have h := System.reaches_run (unreliable_allows recoverTransaction
    (List.replicate 8 .success ++ [.failure true false, .success, .success]) firstUpdate)
  exact ⟨_, _, h, rfl, rfl, rfl, rfl⟩

/-- `sv down` succeeds where its answer counts; while the service is stopped, the backup can be
read and restored and `nc` is there; and a stopped service is not left by a kill when the
transaction is over. -/
def restarting (B : Type) : Assumptions B where
  allowed w c o := (c = .sv .down → o = .success) ∧
    (w.Stopped → c = .restore ∨ c = .validateBackup ∨ c = .ncExecutable → o = .success)
  mayKill w := ¬(w.stage = .over ∧ w.Stopped)
  mayReboot _ := True

/-! ### What each stage says of a stopped service -/

/-- Recovery will come to a start of the service, if it is stopped. -/
structure Restartable (w : Feeder B) : Prop where
  stage : w.Stopped → w.stage ≠ .over
  staged : w.Stopped → w.stage = .waiting → w.pending.isSome ∧ w.candidate.isSome
  backup : w.stage = .committed ∨ w.stage = .backedUp → w.previous.isSome

/-- The service has been started again, or was never stopped. -/
structure Started (w : Feeder B) : Prop where
  up : ¬w.Stopped
  backup : w.stage = .committed ∨ w.stage = .backedUp → w.previous.isSome

/-- The script can roll back. -/
structure Revertible (w : Feeder B) : Prop where
  stage : w.stage ≠ .over
  staged : w.stage = .waiting → w.pending.isSome ∧ w.candidate.isSome
  backup : w.previous.isSome

/-- The script is in front of the swap, and the staged files are there. -/
structure Ready (w : Feeder B) : Prop where
  stage : w.stage = .waiting
  pending : w.pending.isSome
  candidate : w.candidate.isSome

theorem Ready.restartable (h : Ready w) : Restartable w where
  stage _ hs := by simp [h.stage] at hs
  staged _ _ := ⟨h.pending, h.candidate⟩
  backup hs := by simp [h.stage] at hs

theorem Ready.started (h : Ready w) (hup : ¬w.Stopped) : Started w :=
  ⟨hup, fun hs => by simp [h.stage] at hs⟩

theorem Started.restartable (h : Started w) : Restartable w where
  stage hs := absurd hs h.up
  staged hs := absurd hs h.up
  backup := h.backup

theorem Revertible.restartable (h : Revertible w) : Restartable w :=
  ⟨fun _ => h.stage, fun _ => h.staged, fun _ => h.backup⟩

theorem Revertible.started (h : Revertible w) (hup : ¬w.Stopped) : Started w :=
  ⟨hup, fun _ => h.backup⟩

/-- The last call was `sv up`. -/
theorem not_stopped_up {effect : Bool} : ¬(w.sv .up effect).Stopped := by
  simp [Feeder.Stopped, Feeder.sv]

theorem Started.givesUp {c : Command} (o : Outcome) (hc : c.GivesUp) (h : Started w) :
    Started (perform c o w).2 := by
  cases hc with
  | jsonField key file => exact h
  | cleanup => exact ⟨h.up, h.backup⟩
  | up => exact ⟨not_stopped_up, h.backup⟩
  | status m hm =>
    simp only [perform]
    split
    · refine ⟨h.up, fun hs => ?_⟩
      have hover : ({ w with status := some m } : Feeder B).stage = .over := hm
      simp [hover] at hs
    · exact h

theorem Revertible.status {m : Metadata} (effect : Bool) (h : Revertible w)
    (hm : m.stage = .committed ∨ m.stage = .backedUp) :
    Revertible (if effect then { w with status := some m } else w) := by
  cases effect with
  | false => exact h
  | true =>
    have hstage : ({ w with status := some m } : Feeder B).stage = m.stage := rfl
    refine ⟨?_, fun hs => ?_, h.backup⟩
    · rcases hm with hm | hm <;> simp [hstage, hm]
    · rcases hm with hm | hm <;> simp [hstage, hm] at hs

/-! ### The steps of the script -/

/-- Where a kill may come, recovery comes to a start of the service. -/
def Resumable (w : Feeder B) : Prop := ¬(w.stage = .over ∧ w.Stopped) → Restartable w

/-- The service can be started again in front of every command, and at the end. -/
def Restarts (s : Shell Bool) (w : Feeder B) : Prop :=
  (system (restarting B)).toDevice.Always (fun _ w => Resumable w) (fun _ w => Restartable w) s w

theorem Restartable.resumable (h : Restartable w) : Resumable w := fun _ => h

theorem Restarts.bind_pure {s : Shell Bool} {b : Bool} (h : Restarts s w) :
    Restarts (s >>= fun _ => pure b) w :=
  Device.Always.bind h fun _ _ hw => hw

theorem Started.restarts {s : Shell Bool} (hs : s.Only Command.GivesUp) (h : Started w) :
    Restarts s w :=
  Device.always_of_only hs (fun _ _ _ h => (Started.restartable h).resumable)
    (fun _ o _ hc h _ => h.givesUp o hc) (fun _ _ h => Started.restartable h) h

variable {cv pv : String}

/-- **A rollback** ends with a start of the service, or it finds it started. -/
theorem restoreBackup_restarts {r : Reason} (h : Revertible w) :
    Restarts (restoreBackup cv pv r) w := by
  obtain ⟨b, hb⟩ := Option.isSome_iff_exists.mp h.backup
  have exit : ∀ (w' : Feeder B) (reason : Reason), Started w' → Restarts (do
      let _ ← cleanupTransaction
      let _ ← statusWrite .failed reason cv pv
      pure false) w' := fun w' reason h' =>
    h'.restarts ⟨.cleanup, fun _ => ⟨.status _ rfl, fun _ => trivial⟩⟩
  refine always_validateBackup_bind hb h.restartable.resumable fun o ho => ?_
  cases o with
  | failure first second =>
    have hup : ¬w.Stopped := fun hs => by simpa using ho.2 hs (.inr (.inl rfl))
    exact exit w _ (h.started hup)
  | success =>
    refine always_svOrTrue_bind h.restartable.resumable fun o _ => ?_
    have hdown : Revertible (w.sv .down o.effect) := ⟨h.stage, h.staged, h.backup⟩
    have hstopped : (w.sv .down o.effect).Stopped := by simp [Feeder.Stopped, Feeder.sv]
    refine always_restore_bind hb hdown.restartable.resumable fun o' ho => ?_
    obtain rfl : o' = .success := ho.2 hstopped (.inl rfl)
    have hrestored : Revertible { w.sv .down o.effect with active := b } :=
      ⟨h.stage, h.staged, h.backup⟩
    refine always_sv_bind hrestored.restartable.resumable fun o' _ => ?_
    have hstarted : Started (Feeder.sv { w.sv .down o.effect with active := b } .up o'.effect) :=
      ⟨not_stopped_up, fun _ => h.backup⟩
    cases o' with
    | success =>
      exact hstarted.restarts ⟨.cleanup, fun _ => ⟨.status _ rfl, fun _ => trivial⟩⟩
    | failure first second => exact exit _ _ hstarted

/-- The backup is restored before `sv up`. -/
theorem rollbackCandidate_restarts {r : Reason} (h : Revertible w) :
    Restarts (rollbackCandidate cv pv r) w :=
  always_statusWrite_bind h.restartable.resumable fun o _ =>
    restoreBackup_restarts (h.status o.effect (.inr rfl))

/-- The service is up while the candidate is probed. -/
theorem probeCandidate_restarts (h : Revertible w) (hup : ¬w.Stopped) :
    Restarts (probeCandidate cv pv) w := by
  have poll : Always (restarting B) (fun _ w => Resumable w)
      (fun r w => (Revertible w ∧ ¬w.Stopped) ∧
        (r = .confirmed → cv = w.version → w.probed = true))
      (pollExpectedVersion cv) w :=
    always_pollExpectedVersion (fun _ h => h.1.restartable.resumable)
      (fun _ h => h.1.restartable.resumable) (fun _ h => h.1.restartable.resumable)
      (fun _ _ h => ⟨⟨h.1.stage, h.1.staged, h.1.backup⟩, h.2⟩) ⟨h, hup⟩
  refine poll.bind fun r w' ⟨⟨h', hup'⟩, _⟩ => ?_
  cases r with
  | confirmed =>
    have finish : (do let _ ← finishSuccess; pure true : Shell Bool).Only Command.GivesUp :=
      Script.only_bind finishSuccess_only fun _ => trivial
    exact (h'.started hup').restarts ⟨.status _ rfl, fun _ => finish⟩
  | unavailable | failed => exact (rollbackCandidate_restarts h').bind_pure

theorem completeCandidateProbation_restarts (h : Revertible w) :
    Restarts (completeCandidateProbation cv pv) w := by
  refine always_statusWrite_bind h.restartable.resumable fun o _ => ?_
  have h₁ := h.status (m := ⟨some .candidateActive, some .probation, cv, pv⟩) o.effect (.inr rfl)
  refine always_sv_bind h₁.restartable.resumable fun o' _ => ?_
  have h₂ : Revertible (Feeder.sv _ .up o'.effect) := ⟨h₁.stage, h₁.staged, h₁.backup⟩
  cases o' with
  | success => exact probeCandidate_restarts h₂ not_stopped_up
  | failure first second => exact (rollbackCandidate_restarts h₂).bind_pure

theorem Revertible.activate_restarts {f : Bool → Shell Bool} (h : Revertible w)
    (hf : ∀ (ok : Bool) (w' : Feeder B), Revertible w' → Restarts (f ok) w') :
    Restarts (activate >>= f) w := by
  cases hc : w.candidate with
  | none => exact always_activate_bind_none hc h.restartable.resumable (hf false w h)
  | some b =>
    refine always_activate_bind hc h.restartable.resumable fun o _ => ?_
    split
    · exact hf o.ok _ ⟨h.stage, h.staged, h.backup⟩
    · exact hf o.ok _ h

theorem backupFailed_restarts (h : Ready w) : Restarts (do
    let _ ← statusWrite .failed .backupCreateFailed cv pv
    let _ ← svOrTrue .up
    let _ ← cleanupTransaction
    pure false) w := by
  refine always_statusWrite_bind h.restartable.resumable fun o _ => ?_
  split
  · have hover : ({ w with status := some ⟨some .failed, some .backupCreateFailed, cv, pv⟩ } :
        Feeder B).stage = .over := rfl
    refine always_svOrTrue_bind (fun hkill => ?_) fun o _ => ?_
    · have hup := fun hstopped => hkill ⟨hover, hstopped⟩
      exact Started.restartable ⟨hup, fun hs => by simp [hover] at hs⟩
    · refine Started.restarts ⟨.cleanup, fun _ => trivial⟩ ⟨not_stopped_up, fun hs => ?_⟩
      simp [Feeder.stage, Feeder.sv, Metadata.stage] at hs
  · refine always_svOrTrue_bind h.restartable.resumable fun o _ => ?_
    have h' : Ready (w.sv .up o.effect) := ⟨h.stage, h.pending, h.candidate⟩
    exact (h'.started not_stopped_up).restarts ⟨.cleanup, fun _ => trivial⟩

/-- A swap that fails is rolled back, or the service is started. -/
theorem swapCandidate_restarts (h : Ready w) : Restarts (swapCandidate cv pv) w := by
  refine always_backup_bind h.restartable.resumable fun o _ => ?_
  cases o with
  | success =>
    have h' : Revertible { w with previous := some w.active } := by
      refine ⟨fun hs => ?_, fun _ => ⟨h.pending, h.candidate⟩, rfl⟩
      have hs : w.stage = .over := hs
      simp [h.stage] at hs
    refine always_statusWrite_bind h'.restartable.resumable fun o _ => ?_
    refine (h'.status o.effect (.inl rfl)).activate_restarts fun ok w' h'' => ?_
    cases ok with
    | true => exact completeCandidateProbation_restarts h''
    | false => exact (rollbackCandidate_restarts h'').bind_pure
  | failure first second =>
    cases first with
    | true => exact backupFailed_restarts ⟨h.stage, h.pending, h.candidate⟩
    | false => exact backupFailed_restarts h

theorem stopService_restarts (h : Ready w) : Restarts (stopService cv pv) w := by
  refine always_ncExecutable_bind h.restartable.resumable fun o ho => ?_
  cases o with
  | failure first second =>
    have hup : ¬w.Stopped := fun hs => by simpa using ho.2 hs (.inr (.inr rfl))
    exact (h.started hup).restarts ⟨.status _ rfl, fun _ => ⟨.cleanup, fun _ => trivial⟩⟩
  | success =>
    refine always_statusWrite_bind h.restartable.resumable fun o _ => ?_
    have h' : Ready (if o.effect then
        { w with status := some ⟨some .activating, some .preSwap, cv, pv⟩ } else w) := by
      split
      · exact ⟨rfl, h.pending, h.candidate⟩
      · exact h
    refine always_sv_bind h'.restartable.resumable fun o' ho => ?_
    obtain rfl : o' = .success := ho.1 rfl
    exact swapCandidate_restarts ⟨h'.stage, h'.pending, h'.candidate⟩

/-- With the service stopped, the staged files are still there. -/
theorem activatePendingUpdate_restarts (h : Restartable w) (hs : w.stage = .waiting) :
    Restarts activatePendingUpdate w := by
  refine always_activatePendingUpdate (fun _ => h.resumable) (fun _ => h.resumable)
    (fun hno s honly => ?_) fun m hm hc => ?_
  · -- a run that was cut off with the service stopped has left the staged files
    have hup : ¬w.Stopped := fun hstopped => hno (h.staged hstopped hs)
    exact Started.restarts honly ⟨hup, h.backup⟩
  · exact stopService_restarts ⟨hs, by rw [hm]; rfl, hc⟩

theorem resumeActivation_restarts (h : Revertible w) :
    Restarts (resumeActivation .backupCommitted) w := by
  have hw : Resumable w := h.restartable.resumable
  refine always_transactionValues_bind (fun _ => hw) (always_isFile_bind hw ?_)
  cases hc : w.isFile .candidate with
  | false => exact rollbackCandidate_restarts h
  | true =>
    refine h.activate_restarts fun ok w' h' => ?_
    cases ok with
    | true => exact completeCandidateProbation_restarts h'
    | false => exact rollbackCandidate_restarts h'

theorem Restartable.revertible (h : Restartable w)
    (hs : w.stage = .committed ∨ w.stage = .backedUp) : Revertible w where
  stage hover := by simp [hover] at hs
  staged hwaiting := by simp [hwaiting] at hs
  backup := h.backup hs

/-- **A run of the supervisor can always be resumed to a start of the service.** -/
theorem recoverTransaction_restarts (h : Restartable w) : Restarts recoverTransaction w := by
  have hw : Resumable w := h.resumable
  refine always_recoverTransaction hw (fun _ => hw) ?waiting ?committed ?rollback ?resume ?finished
  case waiting => exact activatePendingUpdate_restarts h
  case committed =>
    intro m hm hs
    exact resumeActivation_restarts (h.revertible (.inl ((stage_of_status hm).trans hs)))
  case rollback => exact fun hs _ _ _ => rollbackCandidate_restarts (h.revertible (.inr hs))
  case resume => exact fun hs _ _ _ => restoreBackup_restarts (h.revertible (.inr hs))
  case finished =>
    intro hs s honly
    exact Started.restarts honly ⟨fun hstopped => h.stage hstopped hs, h.backup⟩

/-! ### Every run -/

theorem Feeder.Staged.restartable (h : w.Staged) : Restartable w := by
  obtain ⟨previousVersion, hstatus⟩ := h.status
  obtain ⟨previousVersion', hpending⟩ := h.pending
  have hs : w.stage = .waiting := by rw [stage_of_status hstatus]; rfl
  exact Ready.restartable ⟨hs, by simp [hpending], by simp [h.candidate]⟩

/-- Neither a reboot nor an upload stops the service. -/
theorem restartable_of_outside (h : (system (restarting B)).outside w w')
    (hw : Restartable w) : Restartable w' := by
  rcases h with ⟨-, rfl⟩ | hupload
  · exact ⟨hw.stage, hw.staged, hw.backup⟩
  · have hover : w.stage = .over := stage_of_not_outstanding hupload.free
    cases hupload with
    | staged free new version previousVersion =>
      exact Feeder.Staged.restartable ⟨rfl, rfl, ⟨_, rfl⟩, ⟨_, rfl⟩, rfl, rfl⟩
    | cut free candidate pending status hstatus =>
      have hover' : ({ w with candidate := candidate, pending := pending, status := status } :
          Feeder B).stage = .over := by
        rcases hstatus with rfl | rfl
        · exact hover
        · rfl
      refine Started.restartable ⟨fun hstopped => hw.stage hstopped hover, fun hs => ?_⟩
      simp [hover'] at hs

theorem stage_of_terminal
    (h : w.phase = some .idle ∨ w.phase = some .rolledBack ∨ w.phase = some .failed) :
    w.stage = .over := by
  rcases h with h | h | h <;>
  · obtain ⟨m, hm, hp⟩ := Option.bind_eq_some_iff.mp h
    rw [stage_of_status hm]
    simp only [Metadata.stage, hp]

/-- **The state agent is not left stopped**, under the conditions of `restarting`: where a run
ends with the status `idle`, `rolled_back` or `failed`, `sv down` has not been called in the
transaction, or the last call is `sv up`. -/
theorem service_started_again {a : Bool} (h₀ : w.Staged)
    (h : (system (restarting B)).Reaches (none, w) (some (.done a), w'))
    (hphase : w'.phase = some .idle ∨ w'.phase = some .rolledBack ∨ w'.phase = some .failed) :
    .down ∉ w'.svLog ∨ w'.svLog.getLast? = some .up := by
  have safe : (system (restarting B)).Safe Restartable (fun _ => Resumable) (fun _ => Restartable)
      (some (.done a), w') :=
    h.invariant (fun _ => recoverTransaction_restarts) (fun _ _ hw hkill => hw hkill)
      (fun _ _ hw => hw) (fun _ _ => restartable_of_outside) h₀.restartable
  have hend : Restartable w' := safe
  have hup : ¬w'.Stopped := fun hstopped => hend.stage hstopped (stage_of_terminal hphase)
  cases hlast : w'.svLog.getLast? with
  | none => exact .inl (by simp [List.getLast?_eq_none_iff.mp hlast])
  | some verb =>
    cases verb with
    | up => exact .inr rfl
    | down => exact absurd hlast hup

/-- The run that installs the candidate stops the service and starts it. -/
theorem service_started_again_firstUpdate :
    ∃ a w', (system (restarting Bool)).Reaches (none, firstUpdate) (some (.done a), w') ∧
      w'.phase = some .idle ∧ (.down ∉ w'.svLog ∨ w'.svLog.getLast? = some .up) := by
  have h : (system (restarting Bool)).Reaches (none, firstUpdate) _ :=
    System.reaches_run (Device.allows_of_forall _ (List.replicate 22 .success) _ fun _ ho _ _ =>
      have hsuccess := List.eq_of_mem_replicate ho
      ⟨fun _ => hsuccess, fun _ _ => hsuccess⟩)
  exact ⟨_, _, h, rfl, service_started_again firstUpdate_staged h (.inl rfl)⟩

end PetlibroLocal.Supervisor
