import PetlibroLocal.Supervisor.Model

/-!
# How Far a Transaction Has Come

When file operations fail as well, `status.json` need not name the phase that the script is in.
What counts then is where recovery goes on from it: before the swap, at the swap, with a
rollback, or not at all.

The two kinds of exits of the script are kinds of commands here. One that `GivesUp` removes the
staged files and writes that the transaction is over. One that `RollsBack` may restore the
backup as well.
-/

namespace PetlibroLocal.Supervisor

/-- Where `recover_transaction` goes on. -/
inductive Stage
  | waiting
  | committed
  | backedUp
  | over
  deriving DecidableEq, Repr

/-- The stage that the contents of `status.json` stand for. -/
def Metadata.stage (m : Metadata) : Stage :=
  match m.status, m.reason with
  | some .pending, _ => .waiting
  | some .activating, some .preSwap => .waiting
  | some .activating, some .backupCommitted => .committed
  | some .activating, _ => .backedUp
  | some .candidateActive, _ => .backedUp
  | some .rollbackInProgress, _ => .backedUp
  | _, _ => .over

theorem Metadata.stage_waiting {m : Metadata} (h : m.stage = .waiting) :
    m.status = some .pending ∨ m.status = some .activating ∧ m.reason = some .preSwap := by
  unfold Metadata.stage at h
  split at h <;> simp_all

theorem Metadata.stage_committed {m : Metadata} (h : m.stage = .committed) :
    m.status = some .activating ∧ m.reason = some .backupCommitted := by
  unfold Metadata.stage at h
  split at h <;> simp_all

variable {B : Type} {w : Feeder B}

/-- The stage of the transaction: without `status.json` there is none. -/
def Feeder.stage (w : Feeder B) : Stage := (w.status.map Metadata.stage).getD .over

theorem stage_of_status {m : Metadata} (hs : w.status = some m) : w.stage = m.stage := by
  rw [Feeder.stage, hs, Option.map_some, Option.getD_some]

/-- **Uploads are let in only where nothing is left to recover.** -/
theorem stage_of_not_outstanding (h : w.outstanding = false) : w.stage = .over := by
  cases hs : w.status with
  | none => rw [Feeder.stage, hs]; rfl
  | some m =>
    rw [stage_of_status hs]
    simp only [Feeder.outstanding, hs] at h
    cases hm : m.status with
    | none => simp only [Metadata.stage, hm]
    | some p =>
      cases p with
      | probationConfirmed | rolledBack | failed | idle | other =>
        simp only [Metadata.stage, hm]
      | _ => simp [hm] at h

/-! ### Exits -/

/-- The commands of a run that gives the transaction up, or finishes it. -/
inductive Command.GivesUp : Command → Prop
  | jsonField (key : Key) (file : JsonFile) : GivesUp (.jsonField key file)
  | cleanup : GivesUp .cleanup
  | up : GivesUp (.svOrTrue .up)
  | status (m : Metadata) (h : m.stage = .over) : GivesUp (.writeStatus m)

/-- The commands of a rollback. -/
inductive Command.RollsBack : Command → Prop
  | cleanup : RollsBack .cleanup
  | validateBackup : RollsBack .validateBackup
  | restore : RollsBack .restore
  | sv (verb : SvVerb) : RollsBack (.sv verb)
  | svOrTrue (verb : SvVerb) : RollsBack (.svOrTrue verb)
  | status (m : Metadata) (h : m.stage = .backedUp ∨ m.stage = .over) :
      RollsBack (.writeStatus m)

/-- `finish_success` gives up the transaction and nothing else. -/
theorem finishSuccess_only : finishSuccess.Only Command.GivesUp := by
  have values : transactionValues.Only Command.GivesUp := by
    refine ⟨.jsonField _ _, fun r => ?_⟩
    cases r with
    | none => trivial
    | some candidateVersion =>
      refine ⟨.jsonField _ _, fun r => ?_⟩
      cases r <;> trivial
  refine Script.only_bind values fun r => ?_
  cases r with
  | none => exact ⟨.status _ rfl, fun _ => trivial⟩
  | some versions => exact ⟨.cleanup, fun _ => ⟨.status _ rfl, fun _ => trivial⟩⟩

/-- `restore_backup` only rolls back. -/
theorem restoreBackup_only {cv pv : String} {r : Reason} :
    (restoreBackup cv pv r).Only Command.RollsBack := by
  have exit : ∀ (p : Phase) (r : Reason) (b : Bool), p = .rolledBack ∨ p = .failed →
      (do let _ ← cleanupTransaction; let _ ← statusWrite p r cv pv; pure b : Shell Bool).Only
        Command.RollsBack := by
    rintro p r b (rfl | rfl)
    · exact ⟨.cleanup, fun _ => ⟨.status _ (.inr rfl), fun _ => trivial⟩⟩
    · exact ⟨.cleanup, fun _ => ⟨.status _ (.inr rfl), fun _ => trivial⟩⟩
  refine ⟨.validateBackup, fun valid => ?_⟩
  cases valid with
  | false => exact exit .failed _ _ (.inr rfl)
  | true =>
    refine ⟨.svOrTrue .down, fun _ => ⟨.restore, fun restored => ?_⟩⟩
    cases restored with
    | false => exact exit .failed _ _ (.inr rfl)
    | true =>
      refine ⟨.sv .up, fun up => ?_⟩
      cases up with
      | false => exact exit .failed _ _ (.inr rfl)
      | true => exact ⟨.cleanup, fun _ => ⟨.status _ (.inr rfl), fun _ => trivial⟩⟩

/-- And so does `rollback_candidate`. -/
theorem rollbackCandidate_only {cv pv : String} {r : Reason} :
    (rollbackCandidate cv pv r).Only Command.RollsBack :=
  ⟨.status _ (.inl rfl), fun _ => restoreBackup_only⟩

/-! ### Recovery, stage by stage -/

section Recovery

variable {A : Assumptions B} {pre : Command → Feeder B → Prop} {post : Bool → Feeder B → Prop}
  {m : Metadata}

theorem always_reason_bind {f : Option Reason → Shell Bool} (hs : w.status = some m)
    (hpre : pre (.jsonField .reason .status) w)
    (h : Always A pre post (f m.reason) w) :
    Always A pre post (jsonField .reason .status >>= f) w := by
  refine always_jsonField_bind hpre ?_
  have hreason : w.jsonField .reason .status = m.reason := by
    simp only [Feeder.jsonField, Feeder.json, hs, Option.bind_some]
  rw [hreason]
  exact h

theorem always_recoverPhase_backedUp {p : Phase} (hs : w.status = some m)
    (hm : m.status = some p) (hstage : m.stage = .backedUp)
    (hpre : ∀ key, pre (.jsonField key .status) w)
    (rollback : ∀ cv pv r, Always A pre post (rollbackCandidate cv pv r) w)
    (resume : ∀ cv pv r, Always A pre post (restoreBackup cv pv r) w) :
    Always A pre post (recoverPhase p) w := by
  cases p with
  | activating =>
    refine always_reason_bind hs (hpre _) ?_
    have hr : m.reason.getD .invalid ≠ .preSwap ∧ m.reason.getD .invalid ≠ .backupCommitted := by
      cases hr : m.reason with
      | none => simp
      | some r => cases r <;> simp [Metadata.stage, hm, hr] at hstage ⊢
    rw [if_neg hr.1]
    refine always_transactionValues_bind hpre ?_
    rw [if_neg hr.2]
    exact rollback _ _ _
  | candidateActive => exact always_transactionValues_bind hpre (rollback _ _ _)
  | rollbackInProgress =>
    exact always_transactionValues_bind hpre (always_jsonField_bind (hpre _) (resume _ _ _))
  | _ => simp [Metadata.stage, hm] at hstage

theorem recoverPhase_only {p : Phase} (hm : m.status = some p) (hstage : m.stage = .over) :
    (recoverPhase p).Only Command.GivesUp := by
  cases p with
  | probationConfirmed => exact finishSuccess_only
  | rolledBack | failed | idle => exact ⟨.cleanup, fun _ => trivial⟩
  | other token => exact ⟨.cleanup, fun _ => ⟨.status _ rfl, fun _ => trivial⟩⟩
  | activating =>
    cases hr : m.reason with
    | none => simp [Metadata.stage, hm, hr] at hstage
    | some r => cases r <;> simp [Metadata.stage, hm, hr] at hstage
  | _ => simp [Metadata.stage, hm] at hstage

/-- **The rule of activation**: the staged files are there, or the transaction is given up. -/
theorem always_activatePendingUpdate (hfile : ∀ file, pre (.isFile file) w)
    (hjson : ∀ key, pre (.jsonField key .pending) w)
    (missing : ¬(w.pending.isSome ∧ w.candidate.isSome) →
      ∀ s, s.Only Command.GivesUp → Always A pre post s w)
    (staged : ∀ m, w.pending = some m → w.candidate.isSome →
      Always A pre post (stopService m.candidateVersion m.previousVersion) w) :
    Always A pre post activatePendingUpdate w := by
  have giveUp : (do
      let _ ← cleanupTransaction
      let _ ← statusWrite .failed .stagedArtifactMissing "" ""
      pure false : Shell Bool).Only Command.GivesUp :=
    ⟨.cleanup, fun _ => ⟨.status _ rfl, fun _ => trivial⟩⟩
  refine always_isFile_bind (hfile _) ?_
  cases hm : w.pending with
  | none =>
    simp only [Feeder.isFile, hm, Option.isSome_none]
    exact missing (by simp [hm]) _ giveUp
  | some m =>
    simp only [Feeder.isFile, hm, Option.isSome_some]
    refine always_isFile_bind (hfile _) ?_
    cases hc : w.candidate with
    | none =>
      simp only [Feeder.isFile, hc, Option.isSome_none]
      exact missing (by simp [hc]) _ giveUp
    | some b =>
      simp only [Feeder.isFile, hc, Option.isSome_some, if_true]
      refine always_jsonField_bind (hjson _) (always_jsonField_bind (hjson _) ?_)
      simp only [Feeder.jsonField, Feeder.json, hm, Option.map_some]
      exact staged m hm (by rw [hc]; rfl)

/-- **The rule of recovery**: one case for each stage. -/
theorem always_recoverTransaction (hfile : pre (.isFile .status) w)
    (hpre : ∀ key, pre (.jsonField key .status) w)
    (waiting : w.stage = .waiting → Always A pre post activatePendingUpdate w)
    (committed : ∀ m, w.status = some m → m.stage = .committed →
      Always A pre post (resumeActivation .backupCommitted) w)
    (rollback : w.stage = .backedUp →
      ∀ cv pv r, Always A pre post (rollbackCandidate cv pv r) w)
    (resume : w.stage = .backedUp →
      ∀ cv pv r, Always A pre post (restoreBackup cv pv r) w)
    (finished : w.stage = .over →
      ∀ s, s.Only Command.GivesUp → Always A pre post s w) :
    Always A pre post recoverTransaction w := by
  refine always_isFile_bind hfile ?_
  cases hs : w.status with
  | none =>
    simp only [Feeder.isFile, hs, Option.isSome_none, Bool.false_eq_true, if_false]
    exact finished (by rw [Feeder.stage, hs]; rfl) _ ⟨.cleanup, fun _ => trivial⟩
  | some m =>
    have hstage := stage_of_status hs
    simp only [Feeder.isFile, hs, Option.isSome_some, if_true]
    refine always_jsonField_bind (hpre _) ?_
    have hstatus : w.jsonField .status .status = m.status := by
      simp only [Feeder.jsonField, Feeder.json, hs, Option.bind_some]
    rw [hstatus]
    cases hm : m.status with
    | none =>
      refine finished (hstage.trans ?_) _ ⟨.status _ rfl, fun _ => ⟨.cleanup, fun _ => trivial⟩⟩
      simp only [Metadata.stage, hm]
    | some p =>
      cases hp : m.stage with
      | backedUp =>
        exact always_recoverPhase_backedUp hs hm hp hpre (rollback (hstage.trans hp))
          (resume (hstage.trans hp))
      | waiting =>
        have hwaiting := waiting (hstage.trans hp)
        rcases m.stage_waiting hp with hpending | ⟨hactivating, hr⟩
        · obtain rfl : p = .pending := Option.some.inj (hm.symm.trans hpending)
          exact hwaiting
        · obtain rfl : p = .activating := Option.some.inj (hm.symm.trans hactivating)
          refine always_reason_bind hs (hpre _) ?_
          rw [hr]
          exact hwaiting
      | committed =>
        obtain ⟨hactivating, hr⟩ := m.stage_committed hp
        obtain rfl : p = .activating := Option.some.inj (hm.symm.trans hactivating)
        refine always_reason_bind hs (hpre _) ?_
        rw [hr]
        exact committed m hs hp
      | _ => exact finished (hstage.trans hp) _ (recoverPhase_only hm hp)

end Recovery

/-! ### Probes are not forgotten -/

theorem perform_probed (c : Command) (o : Outcome) (h : w.probed = true) :
    (perform c o w).2.probed = true := by
  have copy : ∀ (source : Option B) (f : B → Feeder B), (∀ b, (f b).probed = true) →
      (atomicCopyElf source f o w).2.probed = true := by
    intro source f hf
    cases source with
    | none => exact h
    | some b =>
      simp only [atomicCopyElf]
      split
      · exact hf b
      · exact h
  cases c with
  | probe expected => simp only [perform, h, Bool.true_or]
  | writeStatus m =>
    simp only [perform]
    split
    · exact h
    · exact h
  | backup | activate | restore | validateBackup => exact copy _ _ fun _ => h
  | _ => exact h

/-- **A probe that succeeded is never forgotten.** -/
theorem always_of_probed {α : Type} {A : Assumptions B} {pre : Command → Feeder B → Prop}
    {post : α → Feeder B → Prop} (hpre : ∀ c w, w.probed = true → pre c w)
    (hpost : ∀ a w, w.probed = true → post a w) (s : Shell α) (h : w.probed = true) :
    Always A pre post s w := by
  induction s generalizing w with
  | done a => exact hpost a w h
  | run c next ih => exact ⟨hpre c w h, fun o _ => ih _ (perform_probed c o h)⟩

end PetlibroLocal.Supervisor
