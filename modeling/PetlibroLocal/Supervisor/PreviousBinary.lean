import PetlibroLocal.Supervisor.Stages

/-!
# The Binary That Was Active Is Kept

Now the file operations may fail, with their destination replaced or not, and the script goes on
after a status write that failed. Until the candidate has answered with its version, the binary
that was active when the transaction was staged should still be the active one or the backup.

It need not be: if the write of `backup_committed` fails, `status.json` still says that nothing
has been swapped. The script swaps the candidate in all the same, and a recovery from there
takes the backup again, of the candidate. Where that one write replaces `status.json`, whatever
else fails, the old binary is kept.

The main results are `backup_overwritten`, `recoverTransaction_keepsOld` and
`previous_binary_kept`.
-/

namespace PetlibroLocal.Supervisor

variable {B : Type} {w w' : Feeder B}

/-- Every command may fail, and kills and reboots come at any time. -/
def unreliable (B : Type) : Assumptions B where
  allowed _ _ _ := True
  mayKill _ := True
  mayReboot _ := True

/-- Every command may fail, but the write of `backup_committed` replaces `status.json`. -/
def backupRecorded (B : Type) : Assumptions B where
  allowed _ c o := ∀ m, c = .writeStatus m → m.stage = .committed → o.effect = true
  mayKill _ := True
  mayReboot _ := True

theorem unreliable_allows {α : Type} (s : Shell α) (os : List Outcome) (w : Feeder B) :
    (system (unreliable B)).toDevice.Allows s os w :=
  Device.allows_of_forall s os w fun _ _ _ _ => trivial

/-! ### How it is lost -/

/-- The eleventh command, the write of `backup_committed`, fails; the candidate is swapped in;
the supervisor is killed. The next run takes the backup again. -/
theorem backup_overwritten :
    ∃ s w', (system (unreliable Bool)).Reaches (none, firstUpdate) (s, w') ∧
      w'.probed = false ∧ w'.old = false ∧ w'.active = true ∧ w'.previous = some true :=
  have cut := System.reaches_cut (unreliable_allows recoverTransaction
    (List.replicate 10 .success ++ [.failure false false, .success]) firstUpdate) trivial
  have again := System.reaches_run (unreliable_allows recoverTransaction
    (List.replicate 11 .success) _)
  ⟨_, _, cut.trans again, rfl, rfl, rfl, rfl⟩

/-! ### What each stage says of the binaries -/

/-- What is known until the candidate has answered with its version. -/
structure OldKept (w : Feeder B) : Prop where
  waiting : w.stage = .waiting →
    w.active = w.old ∧ ∀ m, w.pending = some m → m.candidateVersion = w.version
  version : ∀ m, w.status = some m → m.stage = .committed → m.candidateVersion = w.version
  backup : w.stage = .committed ∨ w.stage = .backedUp → w.previous = some w.old
  kept : w.active = w.old ∨ w.previous = some w.old

/-- The candidate has answered, or the old binary is kept. -/
def Keeping (w : Feeder B) : Prop := w.probed = true ∨ OldKept w

/-- Nothing has been swapped, and the script is not going to. -/
structure Untouched (w : Feeder B) : Prop where
  active : w.active = w.old
  stage : w.stage = .waiting ∨ w.stage = .over
  pending : w.stage = .waiting → ∀ m, w.pending = some m → m.candidateVersion = w.version

/-- The old binary is backed up, and recovery will not take the backup again. -/
structure BackedUp (w : Feeder B) : Prop where
  previous : w.previous = some w.old
  stage : w.stage ≠ .waiting
  version : ∀ m, w.status = some m → m.stage = .committed → m.candidateVersion = w.version

theorem Untouched.oldKept (h : Untouched w) : OldKept w where
  waiting hs := ⟨h.active, h.pending hs⟩
  version m hm hs := by
    have := h.stage
    rw [stage_of_status hm, hs] at this
    simp at this
  backup hs := by
    have := h.stage
    rcases hs with hs | hs <;> simp [hs] at this
  kept := .inl h.active

theorem BackedUp.oldKept (h : BackedUp w) : OldKept w where
  waiting hs := absurd hs h.stage
  version := h.version
  backup _ := h.previous
  kept := .inr h.previous

variable {c : Command} {s : Shell Bool} {cv pv : String}

theorem Untouched.perform (o : Outcome) (hc : c.GivesUp) (h : Untouched w) :
    Untouched (perform c o w).2 := by
  cases hc with
  | jsonField key file => exact h
  | up => exact ⟨h.active, h.stage, h.pending⟩
  | cleanup =>
    refine ⟨h.active, h.stage, fun hs m hm => h.pending hs m ?_⟩
    simp only [Supervisor.perform] at hm
    split at hm
    · simp at hm
    · exact hm
  | status m hm =>
    simp only [Supervisor.perform]
    split
    · have hover : ({ w with status := some m } : Feeder B).stage = .over := hm
      exact ⟨h.active, .inr hover, fun hs => by simp [hover] at hs⟩
    · exact h

theorem BackedUp.perform (o : Outcome) (hc : c.RollsBack) (h : BackedUp w) :
    BackedUp (perform c o w).2 := by
  cases hc with
  | cleanup | sv | svOrTrue => exact ⟨h.previous, h.stage, h.version⟩
  | validateBackup =>
    simp only [Supervisor.perform, atomicCopyElf, h.previous, ite_self]
    exact h
  | restore =>
    simp only [Supervisor.perform, atomicCopyElf, h.previous]
    split
    · exact ⟨rfl, h.stage, h.version⟩
    · exact h
  | status m hm =>
    simp only [Supervisor.perform]
    split
    · have hstage : ({ w with status := some m } : Feeder B).stage = m.stage := rfl
      refine ⟨h.previous, ?_, ?_⟩
      · rw [hstage]
        rcases hm with hm | hm <;> simp [hm]
      · intro m' hm' hs
        obtain rfl : m = m' := Option.some.inj hm'
        rcases hm with hm | hm <;> simp [hm] at hs
    · exact h

/-! ### The steps of the script -/

/-- The old binary is kept in front of every command, and at the end. -/
def KeepsOld (s : Shell Bool) (w : Feeder B) : Prop :=
  (system (backupRecorded B)).toDevice.Always (fun _ w => Keeping w) (fun _ w => Keeping w) s w

/-- Once the candidate has answered, the old binary may go. -/
theorem keepsOld_of_probed (s : Shell Bool) (h : w.probed = true) : KeepsOld s w :=
  always_of_probed (fun _ _ => .inl) (fun _ _ => .inl) s h

theorem KeepsOld.bind_pure {b : Bool} (h : KeepsOld s w) : KeepsOld (s >>= fun _ => pure b) w :=
  Device.Always.bind h fun _ _ hw => hw

theorem Untouched.keepsOld (hs : s.Only Command.GivesUp) (h : Untouched w) : KeepsOld s w :=
  Device.always_of_only hs (fun _ _ _ h => .inr (Untouched.oldKept h))
    (fun _ o _ hc h _ => h.perform o hc) (fun _ _ h => .inr (Untouched.oldKept h)) h

theorem BackedUp.keepsOld (hs : s.Only Command.RollsBack) (h : BackedUp w) : KeepsOld s w :=
  Device.always_of_only hs (fun _ _ _ h => .inr (BackedUp.oldKept h))
    (fun _ o _ hc h _ => h.perform o hc) (fun _ _ h => .inr (BackedUp.oldKept h)) h

theorem probeCandidate_keepsOld (h : BackedUp w) (hv : cv = w.version) :
    KeepsOld (probeCandidate cv pv) w := by
  have poll : Always (backupRecorded B) (fun _ w => Keeping w)
      (fun r w => (BackedUp w ∧ cv = w.version) ∧
        (r = .confirmed → cv = w.version → w.probed = true))
      (pollExpectedVersion cv) w :=
    always_pollExpectedVersion (fun _ h => .inr h.1.oldKept) (fun _ h => .inr h.1.oldKept)
      (fun _ h => .inr h.1.oldKept)
      (fun _ _ h => ⟨⟨h.1.previous, h.1.stage, h.1.version⟩, h.2⟩) ⟨h, hv⟩
  refine poll.bind fun r w' ⟨⟨h', hv'⟩, hprobed⟩ => ?_
  cases r with
  | confirmed => exact keepsOld_of_probed _ (hprobed rfl hv')
  | unavailable | failed => exact (h'.keepsOld rollbackCandidate_only).bind_pure

theorem completeCandidateProbation_keepsOld (h : BackedUp w) (hv : cv = w.version) :
    KeepsOld (completeCandidateProbation cv pv) w := by
  refine always_statusWrite_bind (.inr h.oldKept) fun o _ => ?_
  have h₁ := h.perform o (.status ⟨some .candidateActive, some .probation, cv, pv⟩ (.inl rfl))
  have hv₁ : cv = (perform (.writeStatus ⟨some .candidateActive, some .probation, cv, pv⟩) o
      w).2.version := by
    simp only [perform]
    split
    · exact hv
    · exact hv
  refine always_sv_bind (.inr h₁.oldKept) fun o' _ => ?_
  have h₂ := h₁.perform o' (.sv .up)
  cases o' with
  | success => exact probeCandidate_keepsOld h₂ hv₁
  | failure first second => exact (h₂.keepsOld rollbackCandidate_only).bind_pure

theorem BackedUp.activate_keepsOld {f : Bool → Shell Bool} (h : BackedUp w)
    (hf : ∀ (ok : Bool) (w' : Feeder B), BackedUp w' → w'.version = w.version →
      KeepsOld (f ok) w') :
    KeepsOld (activate >>= f) w := by
  cases hc : w.candidate with
  | none => exact always_activate_bind_none hc (.inr h.oldKept) (hf false w h rfl)
  | some b =>
    refine always_activate_bind hc (.inr h.oldKept) fun o _ => ?_
    split
    · exact hf o.ok _ ⟨h.previous, h.stage, h.version⟩ rfl
    · exact hf o.ok _ h rfl

/-- The old binary is backed up before it is replaced. -/
theorem swapCandidate_keepsOld (h : Untouched w) (hv : cv = w.version) :
    KeepsOld (swapCandidate cv pv) w := by
  refine always_backup_bind (.inr h.oldKept) fun o _ => ?_
  cases o with
  | failure first second =>
    have h' : Untouched (if first then { w with previous := some w.active } else w) := by
      split
      · exact ⟨h.active, h.stage, h.pending⟩
      · exact h
    exact h'.keepsOld ⟨.status _ rfl, fun _ => ⟨.up, fun _ => ⟨.cleanup, fun _ => trivial⟩⟩⟩
  | success =>
    have h' : Untouched { w with previous := some w.active } := ⟨h.active, h.stage, h.pending⟩
    refine always_statusWrite_bind (.inr h'.oldKept) fun o ho => ?_
    have heffect : o.effect = true := ho _ rfl rfl
    rw [if_pos heffect]
    refine BackedUp.activate_keepsOld ⟨congrArg some h.active, by simp [Feeder.stage,
      Metadata.stage], ?_⟩ fun ok w' h'' hversion => ?_
    · intro m hm _
      cases hm
      exact hv
    · cases ok with
      | true => exact completeCandidateProbation_keepsOld h'' (hv.trans hversion.symm)
      | false => exact (h''.keepsOld rollbackCandidate_only).bind_pure

theorem stopService_keepsOld (h : Untouched w) (hs : w.stage = .waiting) (hv : cv = w.version) :
    KeepsOld (stopService cv pv) w := by
  have exit : ∀ w' : Feeder B, Untouched w' → ∀ r, KeepsOld (do
      let _ ← statusWrite .failed r cv pv
      let _ ← cleanupTransaction
      pure false) w' := fun w' h' r =>
    h'.keepsOld ⟨.status _ rfl, fun _ => ⟨.cleanup, fun _ => trivial⟩⟩
  refine always_ncExecutable_bind (.inr h.oldKept) fun o _ => ?_
  cases o with
  | failure first second => exact exit w h _
  | success =>
    refine always_statusWrite_bind (.inr h.oldKept) fun o _ => ?_
    -- the transaction is still waiting, whether the write took place or not
    obtain ⟨w₁, hw₁⟩ : ∃ w₁, w₁ = if o.effect then
      { w with status := some ⟨some .activating, some .preSwap, cv, pv⟩ } else w := ⟨_, rfl⟩
    rw [← hw₁]
    have h₁ : Untouched w₁ ∧ cv = w₁.version := by
      rw [hw₁]
      split
      · exact ⟨⟨h.active, .inl rfl, fun _ => h.pending hs⟩, hv⟩
      · exact ⟨h, hv⟩
    refine always_sv_bind (.inr h₁.1.oldKept) fun o _ => ?_
    have h₂ : Untouched (w₁.sv .down o.effect) := ⟨h₁.1.active, h₁.1.stage, h₁.1.pending⟩
    cases o with
    | success => exact swapCandidate_keepsOld h₂ h₁.2
    | failure first second => exact exit _ h₂ _

theorem activatePendingUpdate_keepsOld (h : Untouched w) (hs : w.stage = .waiting) :
    KeepsOld activatePendingUpdate w :=
  always_activatePendingUpdate (fun _ => .inr h.oldKept) (fun _ => .inr h.oldKept)
    (fun _ _ honly => h.keepsOld honly)
    fun m hm _ => stopService_keepsOld h hs (h.pending hs m hm)

/-- A resumed swap does not back up again. -/
theorem resumeActivation_keepsOld {m : Metadata} (h : BackedUp w) (hs : w.status = some m)
    (hm : m.stage = .committed) : KeepsOld (resumeActivation .backupCommitted) w := by
  have hw : Keeping w := .inr h.oldKept
  have hv : w.transactionValues.1 = w.version := by
    simp only [Feeder.transactionValues, hs, Option.map_some, Option.getD_some]
    exact h.version m hs hm
  refine always_transactionValues_bind (fun _ => hw) (always_isFile_bind hw ?_)
  cases hc : w.isFile .candidate with
  | false => exact h.keepsOld rollbackCandidate_only
  | true =>
    refine h.activate_keepsOld fun ok w' h' hversion => ?_
    cases ok with
    | true => exact completeCandidateProbation_keepsOld h' (hv.trans hversion.symm)
    | false => exact h'.keepsOld rollbackCandidate_only

/-- A transaction that is over: the script touches no binary. -/
structure Settled (w : Feeder B) : Prop where
  stage : w.stage = .over
  kept : w.active = w.old ∨ w.previous = some w.old

theorem Settled.oldKept (h : Settled w) : OldKept w where
  waiting hs := by simp [h.stage] at hs
  version m hm hs := by
    have := h.stage
    rw [stage_of_status hm, hs] at this
    simp at this
  backup hs := by simp [h.stage] at hs
  kept := h.kept

theorem Settled.perform (o : Outcome) (hc : c.GivesUp) (h : Settled w) :
    Settled (perform c o w).2 := by
  cases hc with
  | jsonField key file => exact h
  | up | cleanup => exact ⟨h.stage, h.kept⟩
  | status m hm =>
    simp only [Supervisor.perform]
    split
    · exact ⟨hm, h.kept⟩
    · exact h

theorem Settled.keepsOld (hs : s.Only Command.GivesUp) (h : Settled w) : KeepsOld s w :=
  Device.always_of_only hs (fun _ _ _ h => .inr (Settled.oldKept h))
    (fun _ o _ hc h _ => h.perform o hc) (fun _ _ h => .inr (Settled.oldKept h)) h

theorem OldKept.backedUp (h : OldKept w) (hs : w.stage = .committed ∨ w.stage = .backedUp) :
    BackedUp w :=
  ⟨h.backup hs, by rcases hs with hs | hs <;> simp [hs], h.version⟩

/-- **A run of the supervisor keeps the old binary, at every step.** -/
theorem recoverTransaction_keepsOld (hw : Keeping w) : KeepsOld recoverTransaction w := by
  rcases id hw with hprobed | h
  · exact keepsOld_of_probed _ hprobed
  · refine always_recoverTransaction hw (fun _ => hw) ?waiting ?committed ?rollback ?resume
      ?finished
    case waiting =>
      intro hs
      obtain ⟨hactive, hpending⟩ := h.waiting hs
      exact activatePendingUpdate_keepsOld ⟨hactive, .inl hs, fun _ => hpending⟩ hs
    case committed =>
      intro m hs hm
      have hb : BackedUp w := h.backedUp (.inl ((stage_of_status hs).trans hm))
      exact resumeActivation_keepsOld hb hs hm
    case rollback =>
      exact fun hs _ _ _ => (h.backedUp (.inr hs)).keepsOld rollbackCandidate_only
    case resume => exact fun hs _ _ _ => (h.backedUp (.inr hs)).keepsOld restoreBackup_only
    case finished => exact fun hs _ honly => Settled.keepsOld honly ⟨hs, h.kept⟩

/-! ### Every reachable state -/

theorem Feeder.Staged.keeping (h : w.Staged) : Keeping w := by
  obtain ⟨previousVersion, hstatus⟩ := h.status
  obtain ⟨previousVersion', hpending⟩ := h.pending
  have hs : w.stage = .waiting := by rw [stage_of_status hstatus]; rfl
  refine .inr (Untouched.oldKept ⟨h.active, .inl hs, fun _ m hm => ?_⟩)
  obtain rfl := Option.some.inj (hpending.symm.trans hm)
  rfl

/-- An upload touches neither the active binary nor the backup. -/
theorem keeping_of_upload (h : Upload w w') (hw : Keeping w) : Keeping w' := by
  have hover : w.stage = .over := stage_of_not_outstanding h.free
  cases h with
  | staged free new version previousVersion =>
    exact Feeder.Staged.keeping ⟨rfl, rfl, ⟨_, rfl⟩, ⟨_, rfl⟩, rfl, rfl⟩
  | cut free candidate pending status hstatus =>
    refine hw.imp_right fun hw => Settled.oldKept ⟨?_, hw.kept⟩
    rcases hstatus with rfl | rfl
    · exact hover
    · rfl

/-- **The previous binary is never lost**, provided that the write of `backup_committed` replaces
`status.json`: until the candidate has answered with its version, the binary that was active
when the transaction was staged is the active one or the backup. -/
theorem previous_binary_kept {s : Option (Shell Bool)} (h₀ : w.Staged)
    (h : (system (backupRecorded B)).Reaches (none, w) (s, w')) (hprobed : w'.probed = false) :
    w'.active = w'.old ∨ w'.previous = some w'.old := by
  have outside : ∀ w w' : Feeder B, (system (backupRecorded B)).outside w w' → Keeping w →
      Keeping w' := by
    rintro w w' (⟨-, rfl⟩ | hupload) hw
    · exact hw.imp_right fun h => ⟨h.waiting, h.version, h.backup, h.kept⟩
    · exact keeping_of_upload hupload hw
  have safe : (system (backupRecorded B)).Safe Keeping (fun _ => Keeping) (fun _ => Keeping)
      (s, w') :=
    h.invariant (fun _ => recoverTransaction_keepsOld) (fun _ _ hw _ => hw) (fun _ _ hw => hw)
      outside h₀.keeping
  have hw : Keeping w' := safe.world
  rcases hw with hp | hw
  · simp [hprobed] at hp
  · exact hw.kept

/-- A swap that fails behind the rename, and a kill: the candidate is active, and the backup
holds the old binary. -/
theorem previous_binary_kept_failedSwap :
    ∃ w', (system (backupRecorded Bool)).Reaches (none, firstUpdate) (none, w') ∧
      w'.active = true ∧ (w'.active = w'.old ∨ w'.previous = some w'.old) := by
  have heffect : ∀ o ∈ List.replicate 11 Outcome.success ++ [.failure true false],
      o.effect = true := by decide
  have h : (system (backupRecorded Bool)).Reaches (none, firstUpdate) _ :=
    System.reaches_cut (Device.allows_of_forall _ _ _ fun o ho _ _ _ _ _ => heffect o ho) trivial
  exact ⟨_, h, rfl, previous_binary_kept firstUpdate_staged h rfl⟩

end PetlibroLocal.Supervisor
