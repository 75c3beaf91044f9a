import PetlibroLocal.Supervisor.Model

/-!
# The Supervisor Is Crash Safe

The file operations succeed when their source exists, `sv` and the probes answer as they like,
and the supervisor is killed or the feeder rebooted between any two operations, any number of
times. Then the active binary is always the old one or the candidate; it is the candidate, and
has answered with its version, where the transaction is over with `idle`; and it is the old one
where it is over with `rolled_back` or `failed`.

What carries the proof is `Fits`: each phase that `status.json` can name, with what the other
files hold in it. A status write goes from one phase to the next, where both fit.

The main results are `recoverTransaction_safe` and `supervisor_crash_safe`.
-/

namespace PetlibroLocal.Supervisor

variable {B : Type} {w w' : Feeder B}

/-- The file operations succeed and `nc` stays executable; `sv` and the probes do as they
like; kills and reboots come at any time. -/
def reliable (B : Type) : Assumptions B where
  allowed _ c o := c.updateFs = true ∨ c = .ncExecutable → o = .success
  mayKill _ := True
  mayReboot _ := True

/-! ### What each phase says of the files -/

namespace Feeder

/-- Nothing has been swapped. -/
structure Waiting (w : Feeder B) : Prop where
  active : w.active = w.old
  candidate : w.candidate = some w.new
  pending : ∃ m, w.pending = some m ∧ m.candidateVersion = w.version

/-- The old binary is backed up, and the candidate is being swapped in. -/
structure Swapping (w : Feeder B) : Prop where
  previous : w.previous = some w.old
  candidate : w.candidate = some w.new
  active : w.active = w.old ∨ w.active = w.new

/-- The old binary is being restored. -/
structure Restoring (w : Feeder B) : Prop where
  previous : w.previous = some w.old
  active : w.active = w.old ∨ (w.active = w.new ∧ w.candidate = some w.new)

/-- The candidate has been probed and is active. -/
structure Applied (w : Feeder B) : Prop where
  probed : w.probed = true
  active : w.active = w.new

/-- What the contents of `status.json` say of the other files. -/
def Fits (w : Feeder B) : Option Metadata → Prop
  | none => w.active = w.old ∨ w.Applied
  | some m =>
    match m.status, m.reason with
    | some .pending, _ => w.Waiting
    | some .activating, some .preSwap => w.Waiting
    | some .activating, some .backupCommitted => m.candidateVersion = w.version ∧ w.Swapping
    | some .candidateActive, _ => w.Swapping
    | some .rollbackInProgress, _ => w.Restoring
    | some .probationConfirmed, _ => w.Applied
    | some .idle, _ => w.Applied
    | some .rolledBack, _ => w.active = w.old
    | some .failed, _ => w.active = w.old
    | _, _ => False

/-- A reboot changes none of the files. -/
theorem Fits.reboot {m : Option Metadata} (h : w.Fits m) : w.reboot.Fits m := by
  revert h
  unfold Fits
  split
  · exact Or.imp_right fun h => ⟨h.probed, h.active⟩
  · split
    · exact fun h => ⟨h.active, h.candidate, h.pending⟩
    · exact fun h => ⟨h.active, h.candidate, h.pending⟩
    · exact fun h => ⟨h.1, h.2.previous, h.2.candidate, h.2.active⟩
    · exact fun h => ⟨h.previous, h.candidate, h.active⟩
    · exact fun h => ⟨h.previous, h.active⟩
    · exact fun h => ⟨h.probed, h.active⟩
    · exact fun h => ⟨h.probed, h.active⟩
    · exact id
    · exact id
    · exact False.elim

/-- The files fit to `status.json`. -/
def Consistent (w : Feeder B) : Prop := w.Fits w.status

/-- A freshly staged feeder fits. -/
theorem Staged.consistent (h : w.Staged) : w.Consistent := by
  obtain ⟨previousVersion, hstatus⟩ := h.status
  obtain ⟨previousVersion', hpending⟩ := h.pending
  rw [Consistent, hstatus]
  exact ⟨h.active, h.candidate, _, hpending, rfl⟩

/-- What fits the phase whatever the reason. -/
theorem consistent_of_phase {p : Phase} (hp : w.phase = some p)
    (h : ∀ m : Metadata, m.status = some p → w.Fits (some m)) : w.Consistent := by
  obtain ⟨m, hm, hp⟩ := Option.bind_eq_some_iff.mp hp
  rw [Consistent, hm]
  exact h m hp

theorem Waiting.consistent (h : w.Waiting) (hp : w.phase = some .activating)
    (hr : w.reason = some .preSwap) : w.Consistent := by
  obtain ⟨m, hm, hp⟩ := Option.bind_eq_some_iff.mp hp
  rw [reason, hm] at hr
  have hr : m.reason = some .preSwap := hr
  rw [Consistent, hm]
  simp only [Fits, hp, hr]
  exact h

theorem Swapping.consistent (h : w.Swapping) (hp : w.phase = some .candidateActive) :
    w.Consistent :=
  consistent_of_phase hp fun m hm => by simp only [Fits, hm]; exact h

theorem Restoring.consistent (h : w.Restoring) (hp : w.phase = some .rollbackInProgress) :
    w.Consistent :=
  consistent_of_phase hp fun m hm => by simp only [Fits, hm]; exact h

theorem Applied.consistent (h : w.Applied) (hp : w.phase = some .probationConfirmed) :
    w.Consistent :=
  consistent_of_phase hp fun m hm => by simp only [Fits, hm]; exact h

/-- A swap that was begun can be undone. -/
theorem Swapping.restoring (h : w.Swapping) : w.Restoring :=
  ⟨h.previous, h.active.imp_right fun ha => ⟨ha, h.candidate⟩⟩

/-- Where nothing is outstanding, the staged files do not matter. -/
theorem Fits.of_not_outstanding (h : w.Fits w.status) (hfree : w.outstanding = false) :
    (w.active = w.old ∨ w.Applied) ∧ ∀ candidate pending,
      ({ w with candidate := candidate, pending := pending } : Feeder B).Fits w.status := by
  cases hs : w.status with
  | none =>
    rw [hs] at h
    exact ⟨h, fun _ _ => h.imp_right fun ha => ⟨ha.probed, ha.active⟩⟩
  | some m =>
    simp only [outstanding, hs] at hfree
    rw [hs] at h
    cases hp : m.status with
    | none => simp [hp] at hfree
    | some p =>
      simp only [Fits, hp] at h ⊢
      cases p with
      | rolledBack | failed => exact ⟨.inl h, fun _ _ => h⟩
      | idle => exact ⟨.inr h, fun _ _ => ⟨h.probed, h.active⟩⟩
      | other token => exact h.elim
      | _ => simp [hp] at hfree

theorem Consistent.fits_of_phase {p : Phase} (h : w.Consistent) (hp : w.phase = some p) :
    ∃ m : Metadata, m.status = some p ∧ w.Fits (some m) := by
  obtain ⟨m, hm, hp⟩ := Option.bind_eq_some_iff.mp hp
  exact ⟨m, hp, hm ▸ h⟩

/-- After `idle`, the candidate is active and has answered. -/
theorem Consistent.applied_of_idle (h : w.Consistent) (hp : w.phase = some .idle) :
    w.Applied := by
  obtain ⟨m, hm, h⟩ := h.fits_of_phase hp
  simpa only [Fits, hm] using h

/-- The active binary is the old one or the candidate. -/
theorem Consistent.active_cases (h : w.Consistent) :
    w.active = w.old ∨ w.active = w.new ∧ (w.probed = true ∨ w.candidate = some w.new) := by
  have swapping : w.Swapping → w.active = w.old ∨
      w.active = w.new ∧ (w.probed = true ∨ w.candidate = some w.new) := fun h =>
    h.active.imp_right fun ha => ⟨ha, .inr h.candidate⟩
  have applied : w.Applied → w.active = w.old ∨
      w.active = w.new ∧ (w.probed = true ∨ w.candidate = some w.new) := fun h =>
    .inr ⟨h.active, .inl h.probed⟩
  rw [Consistent] at h
  unfold Fits at h
  split at h
  · exact h.elim .inl applied
  · split at h
    · exact .inl h.active
    · exact .inl h.active
    · exact swapping h.2
    · exact swapping h
    · exact h.active.imp_right fun ha => ⟨ha.1, .inr ha.2⟩
    · exact applied h
    · exact applied h
    · exact .inl h
    · exact .inl h
    · exact h.elim

end Feeder

open Feeder

/-! ### The steps of the script -/

/-- The files fit in front of every command, and at the end. -/
def KeepsConsistent (s : Shell Bool) (w : Feeder B) : Prop :=
  (system (reliable B)).toDevice.Always (fun _ w => w.Consistent) (fun _ w => w.Consistent) s w

section Steps

variable {f : Bool → Shell Bool} {b : B}

theorem keepsConsistent_statusWrite {p : Phase} {r : Reason} {cv pv : String}
    (hw : w.Consistent)
    (h : KeepsConsistent (f true) { w with status := some ⟨some p, some r, cv, pv⟩ }) :
    KeepsConsistent (statusWrite p r cv pv >>= f) w :=
  always_statusWrite_bind hw fun o ho => by obtain rfl := ho (.inl rfl); exact h

theorem keepsConsistent_cleanup (hw : w.Consistent)
    (h : KeepsConsistent (f true) { w with pending := none, candidate := none }) :
    KeepsConsistent (cleanupTransaction >>= f) w :=
  always_cleanup_bind hw fun o ho => by obtain rfl := ho (.inl rfl); exact h

theorem keepsConsistent_backup (hw : w.Consistent)
    (h : KeepsConsistent (f true) { w with previous := some w.active }) :
    KeepsConsistent (backup >>= f) w :=
  always_backup_bind hw fun o ho => by obtain rfl := ho (.inl rfl); exact h

theorem keepsConsistent_activate (hb : w.candidate = some b) (hw : w.Consistent)
    (h : KeepsConsistent (f true) { w with active := b }) :
    KeepsConsistent (activate >>= f) w :=
  always_activate_bind hb hw fun o ho => by obtain rfl := ho (.inl rfl); exact h

theorem keepsConsistent_restore (hb : w.previous = some b) (hw : w.Consistent)
    (h : KeepsConsistent (f true) { w with active := b }) :
    KeepsConsistent (restore >>= f) w :=
  always_restore_bind hb hw fun o ho => by obtain rfl := ho (.inl rfl); exact h

theorem keepsConsistent_validateBackup (hb : w.previous = some b) (hw : w.Consistent)
    (h : KeepsConsistent (f true) w) : KeepsConsistent (validateBackup >>= f) w :=
  always_validateBackup_bind hb hw fun o ho => by obtain rfl := ho (.inl rfl); exact h

theorem keepsConsistent_ncExecutable (hw : w.Consistent) (h : KeepsConsistent (f true) w) :
    KeepsConsistent (ncExecutable >>= f) w :=
  always_ncExecutable_bind hw fun o ho => by obtain rfl := ho (.inr rfl); exact h

theorem keepsConsistent_sv {verb : SvVerb} (hw : w.Consistent)
    (h : ∀ ok effect, KeepsConsistent (f ok) (w.sv verb effect)) :
    KeepsConsistent (sv verb >>= f) w :=
  always_sv_bind hw fun o _ => h o.ok o.effect

theorem keepsConsistent_svOrTrue {verb : SvVerb} (hw : w.Consistent)
    (h : ∀ ok effect, KeepsConsistent (f ok) (w.sv verb effect)) :
    KeepsConsistent (svOrTrue verb >>= f) w :=
  always_svOrTrue_bind hw fun o _ => h o.ok o.effect

end Steps

variable {r : Reason} {cv pv : String}

theorem keepsConsistent_lastStatus {p : Phase} (hw : w.Consistent)
    (h : ({ w with status := some ⟨some p, some r, cv, pv⟩ } : Feeder B).Consistent) :
    KeepsConsistent (statusWrite p r cv pv) w :=
  ⟨hw, fun o ho => by obtain rfl := ho (.inl rfl); exact h⟩

theorem keepsConsistent_lastCleanup (hw : w.Consistent)
    (h : ({ w with pending := none, candidate := none } : Feeder B).Consistent) :
    KeepsConsistent cleanupTransaction w :=
  ⟨hw, fun o ho => by obtain rfl := ho (.inl rfl); exact h⟩

theorem KeepsConsistent.bind_pure {s : Shell Bool} {b : Bool} (h : KeepsConsistent s w) :
    KeepsConsistent (s >>= fun _ => pure b) w :=
  Device.Always.bind h fun _ _ hw => hw

/-- The update is applied: only cleanup is left. -/
theorem finishSuccess_safe (hp : w.phase = some .probationConfirmed) (h : w.Applied) :
    KeepsConsistent finishSuccess w := by
  have hw : w.Consistent := h.consistent hp
  refine always_transactionValues_bind (fun _ => hw) (keepsConsistent_cleanup hw ?_)
  have h' : ({ w with pending := none, candidate := none } : Feeder B).Applied :=
    ⟨h.probed, h.active⟩
  exact keepsConsistent_lastStatus (h'.consistent hp) ⟨h.probed, h.active⟩

/-- **A rollback** restores the old binary and leaves `rolled_back` or `failed`. -/
theorem restoreBackup_safe (hp : w.phase = some .rollbackInProgress) (h : w.Restoring) :
    KeepsConsistent (restoreBackup cv pv r) w := by
  refine keepsConsistent_validateBackup h.previous (h.consistent hp) ?_
  refine keepsConsistent_svOrTrue (h.consistent hp) fun _ _ => ?_
  refine keepsConsistent_restore (b := w.old) h.previous
    (Restoring.consistent ⟨h.previous, h.active⟩ hp) ?_
  -- the old binary is active from here on, whatever `sv up` answers
  have restored : ∀ w' : Feeder B, w'.phase = some .rollbackInProgress →
      w'.previous = some w'.old → w'.active = w'.old → w'.Consistent := fun w' hp hprev ha =>
    (⟨hprev, .inl ha⟩ : w'.Restoring).consistent hp
  refine keepsConsistent_sv (restored _ hp h.previous rfl) fun ok _ => ?_
  cases ok with
  | true =>
    refine keepsConsistent_cleanup (restored _ hp h.previous rfl) ?_
    exact keepsConsistent_lastStatus (restored _ hp h.previous rfl) rfl
  | false =>
    refine keepsConsistent_cleanup (restored _ hp h.previous rfl) ?_
    refine keepsConsistent_statusWrite (restored _ hp h.previous rfl) ?_
    exact (rfl : w.old = w.old)

/-- A rollback restores the old binary. -/
theorem rollbackCandidate_safe (hw : w.Consistent) (h : w.Restoring) :
    KeepsConsistent (rollbackCandidate cv pv r) w := by
  refine keepsConsistent_statusWrite hw ?_
  exact restoreBackup_safe rfl ⟨h.previous, h.active⟩

/-- The candidate is active and is being probed. -/
structure Probing (cv : String) (w : Feeder B) : Prop where
  phase : w.phase = some .candidateActive
  swapping : w.Swapping
  active : w.active = w.new
  version : cv = w.version

theorem Probing.consistent (h : Probing cv w) : w.Consistent := h.swapping.consistent h.phase

theorem Probing.sv {verb : SvVerb} {effect : Bool} (h : Probing cv w) :
    Probing cv (w.sv verb effect) :=
  ⟨h.phase, ⟨h.swapping.previous, h.swapping.candidate, h.swapping.active⟩, h.active, h.version⟩

/-- A probe that fails rolls the candidate back. -/
theorem probeCandidate_safe (h : Probing cv w) : KeepsConsistent (probeCandidate cv pv) w := by
  have poll : Always (reliable B) (fun _ w => w.Consistent)
      (fun r w => Probing cv w ∧ (r = .confirmed → cv = w.version → w.probed = true))
      (pollExpectedVersion cv) w :=
    always_pollExpectedVersion (fun _ => Probing.consistent) (fun _ => Probing.consistent)
      (fun _ => Probing.consistent)
      (fun _ _ h => ⟨h.phase, ⟨h.swapping.previous, h.swapping.candidate, h.swapping.active⟩,
        h.active, h.version⟩) h
  refine poll.bind fun r w' ⟨h', hprobed⟩ => ?_
  cases r with
  | confirmed =>
    refine keepsConsistent_statusWrite h'.consistent ?_
    refine KeepsConsistent.bind_pure (finishSuccess_safe rfl ?_)
    exact ⟨hprobed rfl h'.version, h'.active⟩
  | unavailable | failed =>
    exact (rollbackCandidate_safe h'.consistent h'.swapping.restoring).bind_pure

theorem completeCandidateProbation_safe (hw : w.Consistent) (h : w.Swapping) (ha : w.active = w.new)
    (hv : cv = w.version) : KeepsConsistent (completeCandidateProbation cv pv) w := by
  refine keepsConsistent_statusWrite hw ?_
  have h' : Probing cv { w with status := some ⟨some .candidateActive, some .probation, cv, pv⟩ } :=
    ⟨rfl, ⟨h.previous, h.candidate, h.active⟩, ha, hv⟩
  refine keepsConsistent_sv h'.consistent fun ok _ => ?_
  cases ok with
  | true => exact probeCandidate_safe h'.sv
  | false => exact (rollbackCandidate_safe h'.sv.consistent h'.sv.swapping.restoring).bind_pure

/-- The backup is committed before the swap. -/
theorem swapCandidate_safe (hp : w.phase = some .activating) (hr : w.reason = some .preSwap)
    (h : w.Waiting) (hv : cv = w.version) : KeepsConsistent (swapCandidate cv pv) w := by
  refine keepsConsistent_backup (h.consistent hp hr) ?_
  refine keepsConsistent_statusWrite
    (Waiting.consistent ⟨h.active, h.candidate, h.pending⟩ hp hr) ?_
  have previous : some w.active = some w.old := congrArg some h.active
  refine keepsConsistent_activate (b := w.new) h.candidate
    ⟨hv, previous, h.candidate, .inl h.active⟩ ?_
  exact completeCandidateProbation_safe ⟨hv, previous, h.candidate, .inr rfl⟩
    ⟨previous, h.candidate, .inr rfl⟩ rfl hv

/-- `pre_swap` is recorded before the service is stopped. -/
theorem stopService_safe (hw : w.Consistent) (h : w.Waiting) (hv : cv = w.version) :
    KeepsConsistent (stopService cv pv) w := by
  refine keepsConsistent_ncExecutable hw (keepsConsistent_statusWrite hw ?_)
  have h' : Waiting { w with status := some ⟨some .activating, some .preSwap, cv, pv⟩ } :=
    ⟨h.active, h.candidate, h.pending⟩
  refine keepsConsistent_sv (h'.consistent rfl rfl) fun ok _ => ?_
  cases ok with
  | true => exact swapCandidate_safe rfl rfl ⟨h.active, h.candidate, h.pending⟩ hv
  | false =>
    refine keepsConsistent_statusWrite (Waiting.consistent ⟨h.active, h.candidate, h.pending⟩
      rfl rfl) ?_
    refine keepsConsistent_cleanup h.active ?_
    exact h.active

/-- What is staged is there, so the swap is made. -/
theorem activatePendingUpdate_safe (hw : w.Consistent) (h : w.Waiting) :
    KeepsConsistent activatePendingUpdate w := by
  obtain ⟨m, hm, hv⟩ := h.pending
  refine always_isFile_bind hw ?_
  simp only [Feeder.isFile, hm, Option.isSome_some]
  refine always_isFile_bind hw ?_
  simp only [Feeder.isFile, h.candidate, Option.isSome_some, if_true]
  refine always_jsonField_bind hw (always_jsonField_bind hw ?_)
  refine stopService_safe hw h ?_
  simp only [Feeder.json, hm, Option.map_some, Option.getD_some, hv]

/-- A swap that was cut off is made again. -/
theorem resumeActivation_safe {m : Metadata} (hs : w.status = some m)
    (hm : m.status = some .activating) (hr : m.reason = some .backupCommitted)
    (hv : m.candidateVersion = w.version) (h : w.Swapping) :
    KeepsConsistent (resumeActivation .backupCommitted) w := by
  have swapping : ∀ w' : Feeder B, w'.status = w.status → w'.version = w.version →
      w'.Swapping → w'.Consistent := by
    intro w' hs' hv' h'
    rw [Consistent, hs', hs]
    simp only [Fits, hm, hr]
    exact ⟨hv.trans hv'.symm, h'⟩
  refine always_transactionValues_bind (fun _ => swapping w rfl rfl h) ?_
  refine always_isFile_bind (swapping w rfl rfl h) ?_
  simp only [Feeder.isFile, h.candidate, Option.isSome_some, if_true]
  refine keepsConsistent_activate h.candidate (swapping w rfl rfl h) ?_
  have h' : Swapping { w with active := w.new } := ⟨h.previous, h.candidate, .inr rfl⟩
  refine completeCandidateProbation_safe (swapping _ rfl rfl h') h' rfl ?_
  simp only [hs, Option.map_some, Option.getD_some, hv]

/-- **Every phase is resumed from files that fit to it.** -/
theorem recoverPhase_safe {m : Metadata} {p : Phase} (hs : w.status = some m)
    (hm : m.status = some p) (hw : w.Consistent) : KeepsConsistent (recoverPhase p) w := by
  have hfits : w.Fits (some m) := hs ▸ hw
  have hp : w.phase = some p := by rw [Feeder.phase, hs]; exact hm
  -- the terminal phases say of the active binary only
  have cleanup : ∀ w' : Feeder B, w'.status = w.status → w'.Fits (some m) → w'.Consistent := by
    intro w' hs' h'
    rw [Consistent, hs', hs]
    exact h'
  simp only [Fits, hm] at hfits cleanup
  cases p with
  | pending => exact activatePendingUpdate_safe hw hfits
  | activating =>
    refine always_jsonField_bind hw ?_
    have hreason : w.jsonField .reason .status = m.reason := by
      simp only [Feeder.jsonField, Feeder.json, hs, Option.bind_some]
    rw [hreason]
    cases hr : m.reason with
    | none => simp only [hr] at hfits
    | some r =>
      simp only [hr] at hfits
      cases r with
      | preSwap => exact activatePendingUpdate_safe hw hfits
      | backupCommitted => exact resumeActivation_safe hs hm hr hfits.1 hfits.2
      | _ => exact hfits.elim
  | candidateActive =>
    refine always_transactionValues_bind (fun _ => hw) ?_
    exact rollbackCandidate_safe hw (Swapping.restoring hfits)
  | probationConfirmed => exact finishSuccess_safe hp hfits
  | rollbackInProgress =>
    refine always_transactionValues_bind (fun _ => hw) (always_jsonField_bind hw ?_)
    exact restoreBackup_safe hp hfits
  | rolledBack | failed => exact keepsConsistent_lastCleanup hw (cleanup _ rfl hfits)
  | idle =>
    exact keepsConsistent_lastCleanup hw (cleanup _ rfl ⟨hfits.probed, hfits.active⟩)
  | other token => exact hfits.elim

/-- **A run of the supervisor keeps the files fitting, at every step.** -/
theorem recoverTransaction_safe (hw : w.Consistent) : KeepsConsistent recoverTransaction w := by
  refine always_isFile_bind hw ?_
  cases hs : w.status with
  | none =>
    simp only [Feeder.isFile, hs, Option.isSome_none, Bool.false_eq_true, if_false]
    have h : w.Fits none := hs ▸ hw
    refine keepsConsistent_cleanup hw ?_
    change Fits _ w.status
    rw [hs]
    exact h.imp_right fun ha => ⟨ha.probed, ha.active⟩
  | some m =>
    simp only [Feeder.isFile, hs, Option.isSome_some, if_true]
    refine always_jsonField_bind hw ?_
    have hstatus : w.jsonField .status .status = m.status := by
      simp only [Feeder.jsonField, Feeder.json, hs, Option.bind_some]
    rw [hstatus]
    cases hm : m.status with
    | none =>
      have hfits : w.Fits (some m) := hs ▸ hw
      simp only [Fits, hm] at hfits
    | some p => exact recoverPhase_safe hs hm hw

/-! ### Every reachable state -/

/-- An upload, whole or cut off, leaves files that fit. -/
theorem consistent_of_upload (h : Upload w w') (hw : w.Consistent) : w'.Consistent := by
  cases h with
  | staged free new version previousVersion => exact ⟨rfl, rfl, _, rfl, rfl⟩
  | cut free candidate pending status hstatus =>
    obtain ⟨hactive, hfits⟩ := Fits.of_not_outstanding hw free
    rcases hstatus with rfl | rfl
    · exact hfits candidate pending
    · exact hactive.imp_right fun ha => ⟨ha.probed, ha.active⟩

/-- **The files fit in every reachable state.** -/
theorem consistent_of_reaches {s : Option (Shell Bool)} (h₀ : w.Consistent)
    (h : (system (reliable B)).Reaches (none, w) (s, w')) : w'.Consistent := by
  have outside : ∀ w w' : Feeder B, (system (reliable B)).outside w w' → w.Consistent →
      w'.Consistent := by
    rintro w w' (⟨-, rfl⟩ | hupload) hw
    · exact Fits.reboot hw
    · exact consistent_of_upload hupload hw
  have safe : (system (reliable B)).Safe Consistent (fun _ => Consistent) (fun _ => Consistent)
      (s, w') :=
    h.invariant (fun _ => recoverTransaction_safe) (fun _ _ hw _ => hw) (fun _ _ hw => hw)
      outside h₀
  exact safe.world

/-- **The supervisor is crash safe.** In every state that is reached from a staged transaction,
between two runs or in the middle of one, the active binary is the old one or the candidate;
where `status.json` reads `idle` it is the candidate, which has answered with its version;
where it reads `rolled_back` or `failed`, or where the staged files are gone without such an
answer, it is the old one. -/
theorem supervisor_crash_safe {s : Option (Shell Bool)} (h₀ : w.Staged)
    (h : (system (reliable B)).Reaches (none, w) (s, w')) :
    (w'.active = w'.old ∨ w'.active = w'.new) ∧
      (w'.phase = some .idle → w'.active = w'.new ∧ w'.probed = true) ∧
      (w'.phase = some .rolledBack ∨ w'.phase = some .failed ∨
        (w'.pending = none ∧ w'.candidate = none ∧ w'.probed = false) → w'.active = w'.old) := by
  have hw : w'.Consistent := consistent_of_reaches h₀.consistent h
  refine ⟨hw.active_cases.imp_right And.left, fun hp => ?_, ?_⟩
  · have ha := hw.applied_of_idle hp
    exact ⟨ha.active, ha.probed⟩
  · rintro (hp | hp | ⟨-, hcandidate, hprobed⟩)
    · obtain ⟨m, hm, hw⟩ := hw.fits_of_phase hp
      simpa only [Fits, hm] using hw
    · obtain ⟨m, hm, hw⟩ := hw.fits_of_phase hp
      simpa only [Fits, hm] using hw
    · rcases hw.active_cases with ha | ⟨-, hp | hc⟩
      · exact ha
      · simp [hprobed] at hp
      · simp [hcandidate] at hc

/-- A run of twenty-two commands installs the candidate. -/
theorem supervisor_crash_safe_installs :
    ∃ w', (system (reliable Bool)).Reaches (none, firstUpdate) (some (.done true), w') ∧
      w'.phase = some .idle ∧ w'.active = w'.new ∧ w'.probed = true := by
  have h : (system (reliable Bool)).Reaches (none, firstUpdate) _ :=
    System.reaches_run (Device.allows_of_forall _ (List.replicate 22 .success) _
      fun _ ho _ _ _ => List.eq_of_mem_replicate ho)
  exact ⟨_, h, rfl, (supervisor_crash_safe firstUpdate_staged h).2.1 rfl⟩

end PetlibroLocal.Supervisor
