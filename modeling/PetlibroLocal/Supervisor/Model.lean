import Mathlib.Data.Nat.Notation
import PetlibroLocal.Lib.Script

/-!
# The Update Supervisor

`supervisor.sh` installs a staged state-agent binary: it stops the service, backs the active
binary up, swaps the candidate in, starts the service and keeps the candidate only if it
answers with its version. `status.json` holds the phase of the transaction, and
`recover_transaction` resumes from it after a kill or a reboot.

The functions of the script are `Shell` programs over the commands that it runs: the
operations of `plaf203-update-fs`, the calls of `sv`, the probes by `nc`, and the tests and
reads of files. `perform` says what each of them does, for each outcome. The body of
`recover_transaction` runs under `|| true`, which switches `set -e` off inside it, so that a
command that fails without being tested does not stop the script.

Next to what is on the flash, a `Feeder` records what the transaction is about: the binary
`old` that was active when it was staged, the candidate `new` and its version, whether a probe
for that version succeeded, and the calls of `sv` since.

Not modelled: the wait of `main` for its tools, and the lock, which keeps uploads and runs of
the script apart; in the model an upload is a step between two runs.
-/

namespace PetlibroLocal.Supervisor

/-! ### What the files hold -/

/-- The value of `status` in `status.json`. -/
inductive Phase
  | pending
  | activating
  | candidateActive
  | probationConfirmed
  | rollbackInProgress
  | rolledBack
  | failed
  | idle
  | other (token : String)
  deriving DecidableEq, Repr

/-- The value of `reason` in `status.json`. -/
inductive Reason
  | candidateReady
  | preSwap
  | backupCommitted
  | probation
  | healthAndVersionConfirmed
  | updateApplied
  | invalidStatusMetadata
  | invalidPendingMetadata
  | invalidTransactionPhase
  | stagedArtifactMissing
  | serviceStopFailed
  | backupCreateFailed
  | backupInvalid
  | backupRestoreFailed
  | restoredServiceStartFailed
  | candidateServiceStartFailed
  | candidateActivateFailed
  | probeToolUnavailable
  | versionProbeFailed
  | rebootDuringActivation
  | rebootDuringProbation
  | rollbackResumed
  | invalid
  | other (token : String)
  deriving DecidableEq, Repr

/-- The fields of `status.json` and `pending.json` that the script reads. `status` and `reason`
are `none` where `json_field` finds no token. -/
structure Metadata where
  status : Option Phase
  reason : Option Reason
  candidateVersion : String
  previousVersion : String
  deriving DecidableEq, Repr

/-- The calls of `sv` for the state-agent service. -/
inductive SvVerb
  | down
  | up
  deriving DecidableEq, Repr

/-- The files of an update, the process of the service, and the record of the transaction.
`B` is the type of the contents of a binary. -/
structure Feeder (B : Type) where
  active : B
  candidate : Option B
  previous : Option B
  pending : Option Metadata
  status : Option Metadata
  running : Option B
  old : B
  new : B
  version : String
  probed : Bool
  svLog : List SvVerb
  deriving DecidableEq

/-! ### Commands -/

/-- The files that the script tests for with `-f`. -/
inductive File
  | candidate
  | pending
  | status
  deriving DecidableEq, Repr

/-- The two files that `json_field` reads. -/
inductive JsonFile
  | pending
  | status
  deriving DecidableEq, Repr

/-- The fields that `json_field` reads. -/
inductive Key
  | status
  | reason
  | candidateVersion
  | previousVersion
  deriving DecidableEq, Repr

/-- The type of a field. -/
abbrev Key.Value : Key → Type
  | .status => Phase
  | .reason => Reason
  | .candidateVersion => String
  | .previousVersion => String

/-- What the script runs. `svOrTrue` are the calls of `sv` with `|| true` behind them. -/
inductive Command
  | isFile (file : File)
  | jsonField (key : Key) (file : JsonFile)
  | ncExecutable
  | readToken
  | probe (expected : String)
  | sv (verb : SvVerb)
  | svOrTrue (verb : SvVerb)
  | writeStatus (metadata : Metadata)
  | backup
  | activate
  | restore
  | validateBackup
  | cleanup
  deriving DecidableEq, Repr

/-- The operations of `plaf203-update-fs`. -/
def Command.updateFs : Command → Bool
  | .writeStatus _ | .backup | .activate | .restore | .validateBackup | .cleanup => true
  | _ => false

/-- The answer of a command: the field that was read, or whether the command succeeded. -/
abbrev Answer : Command → Type
  | .jsonField key _ => Option key.Value
  | _ => Bool

/-- How a command goes. A command that fails may have replaced its destination all the same,
as a failure after the rename does: that is `first`. For `cleanup`, `first` and `second` say
which of `pending.json` and `candidate.bin` were removed. -/
inductive Outcome
  | success
  | failure (first second : Bool)
  deriving DecidableEq, Repr

/-- Whether the command exits with zero. -/
def Outcome.ok : Outcome → Bool
  | .success => true
  | .failure _ _ => false

/-- Whether the command had its effect. -/
def Outcome.effect : Outcome → Bool
  | .success => true
  | .failure first _ => first

/-- Whether the second effect of the command took place. -/
def Outcome.effect₂ : Outcome → Bool
  | .success => true
  | .failure _ second => second

namespace Feeder

variable {B : Type} (w : Feeder B)

/-- `test -f`. -/
def isFile : File → Bool
  | .candidate => w.candidate.isSome
  | .pending => w.pending.isSome
  | .status => w.status.isSome

/-- The contents of a JSON file. -/
def json : JsonFile → Option Metadata
  | .pending => w.pending
  | .status => w.status

/-- `json_field`: it fails if there is no token, but an empty version is an answer. -/
def jsonField : (key : Key) → JsonFile → Option key.Value
  | .status, file => (w.json file).bind (·.status)
  | .reason, file => (w.json file).bind (·.reason)
  | .candidateVersion, file => some (((w.json file).map (·.candidateVersion)).getD "")
  | .previousVersion, file => some (((w.json file).map (·.previousVersion)).getD "")

/-- The process after a call of `sv` that has its effect: `sv down` ends it, `sv up` starts the
active binary if none runs. -/
def afterSv : SvVerb → Option B
  | .down => none
  | .up => some (w.running.getD w.active)

/-- A call of `sv`. -/
def sv (verb : SvVerb) (effect : Bool) : Feeder B :=
  { w with
    running := if effect then w.afterSv verb else w.running
    svLog := w.svLog ++ [verb] }

end Feeder

/-- `atomic_copy_elf`: nothing happens without a source. -/
def atomicCopyElf {B : Type} (source : Option B) (copy : B → Feeder B) (o : Outcome)
    (w : Feeder B) : Bool × Feeder B :=
  match source with
  | none => (false, w)
  | some b => (o.ok, if o.effect then copy b else w)

/-- What a command answers and does. -/
def perform {B : Type} : (c : Command) → Outcome → Feeder B → Answer c × Feeder B
  | .isFile file, _, w => (w.isFile file, w)
  | .jsonField key file, _, w => (w.jsonField key file, w)
  | .ncExecutable, o, w => (o.ok, w)
  | .readToken, o, w => (o.ok, w)
  | .probe expected, o, w =>
    (o.ok, { w with probed := w.probed || (o.ok && expected == w.version) })
  | .sv verb, o, w => (o.ok, w.sv verb o.effect)
  | .svOrTrue verb, o, w => (o.ok, w.sv verb o.effect)
  | .writeStatus m, o, w => (o.ok, if o.effect then { w with status := some m } else w)
  | .backup, o, w => atomicCopyElf (some w.active) (fun b => { w with previous := some b }) o w
  | .activate, o, w => atomicCopyElf w.candidate (fun b => { w with active := b }) o w
  | .restore, o, w => atomicCopyElf w.previous (fun b => { w with active := b }) o w
  | .validateBackup, o, w => atomicCopyElf w.previous (fun _ => w) o w
  | .cleanup, o, w =>
    (o.ok, { w with
      pending := if o.effect then none else w.pending
      candidate := if o.effect₂ then none else w.candidate })

/-! ### The script -/

/-- Programs over the commands. -/
abbrev Shell := Script Command Answer

/-- The program of one command. -/
def run (c : Command) : Shell (Answer c) := Script.command c

/-- `test -f`. -/
def isFile (file : File) : Shell Bool := run (.isFile file)

/-- `json_field`. -/
def jsonField (key : Key) (file : JsonFile) : Shell (Option key.Value) := run (.jsonField key file)

/-- `test -x "$NC_BIN"`. -/
def ncExecutable : Shell Bool := run .ncExecutable

/-- The read of the token file: whether it holds one. -/
def readToken : Shell Bool := run .readToken

/-- The two requests of `poll_expected_version`: whether both answers are as expected. -/
def probe (expected : String) : Shell Bool := run (.probe expected)

/-- A call of `sv` whose exit status is tested. -/
def sv (verb : SvVerb) : Shell Bool := run (.sv verb)

/-- A call of `sv` with `|| true`. -/
def svOrTrue (verb : SvVerb) : Shell Bool := run (.svOrTrue verb)

/-- `plaf203-update-fs backup`. -/
def backup : Shell Bool := run .backup

/-- `plaf203-update-fs activate`. -/
def activate : Shell Bool := run .activate

/-- `plaf203-update-fs restore`. -/
def restore : Shell Bool := run .restore

/-- `plaf203-update-fs validate-backup`. -/
def validateBackup : Shell Bool := run .validateBackup

/-- `status_write`. -/
def statusWrite (status : Phase) (reason : Reason) (candidateVersion previousVersion : String) :
    Shell Bool :=
  run (.writeStatus ⟨some status, some reason, candidateVersion, previousVersion⟩)

/-- `transaction_values`. -/
def transactionValues : Shell (Option (String × String)) := do
  match ← jsonField .candidateVersion .status with
  | none => pure none
  | some candidateVersion =>
    match ← jsonField .previousVersion .status with
    | none => pure none
    | some previousVersion => pure (some (candidateVersion, previousVersion))

/-- `cleanup_transaction`. -/
def cleanupTransaction : Shell Bool := run .cleanup

/-- The exit status of `poll_expected_version`: 0, 1 or 2. -/
inductive ProbeResult
  | confirmed
  | failed
  | unavailable
  deriving DecidableEq, Repr

/-- The loop of `poll_expected_version`. -/
def probeUpTo (expected : String) : ℕ → Shell ProbeResult
  | 0 => pure .failed
  | tries + 1 => do
    if ← probe expected then pure .confirmed else probeUpTo expected tries

/-- `poll_expected_version`. -/
def pollExpectedVersion (expected : String) : Shell ProbeResult := do
  if ← readToken then
    if ← ncExecutable then probeUpTo expected 10 else pure .unavailable
  else
    pure .unavailable

/-- `finish_success`. -/
def finishSuccess : Shell Bool := do
  match ← transactionValues with
  | none =>
    let _ ← statusWrite .failed .invalidStatusMetadata "" ""
    pure false
  | some _ =>
    let _ ← cleanupTransaction
    statusWrite .idle .updateApplied "" ""

/-- The last part of `restore_backup`, from the restore on. -/
def restoreActive (candidateVersion previousVersion : String) (reason : Reason) :
    Shell Bool := do
  if ← restore then
    if ← sv .up then
      let _ ← cleanupTransaction
      statusWrite .rolledBack reason candidateVersion previousVersion
    else
      let _ ← cleanupTransaction
      let _ ← statusWrite .failed .restoredServiceStartFailed candidateVersion previousVersion
      pure false
  else
    let _ ← cleanupTransaction
    let _ ← statusWrite .failed .backupRestoreFailed candidateVersion previousVersion
    pure false

/-- `restore_backup`. -/
def restoreBackup (candidateVersion previousVersion : String) (reason : Reason) :
    Shell Bool := do
  if ← validateBackup then
    let _ ← svOrTrue .down
    restoreActive candidateVersion previousVersion reason
  else
    let _ ← cleanupTransaction
    let _ ← statusWrite .failed .backupInvalid candidateVersion previousVersion
    pure false

/-- `rollback_candidate`. -/
def rollbackCandidate (candidateVersion previousVersion : String) (reason : Reason) :
    Shell Bool := do
  let _ ← statusWrite .rollbackInProgress reason candidateVersion previousVersion
  restoreBackup candidateVersion previousVersion reason

/-- The last part of `complete_candidate_probation`, from the probe on. -/
def probeCandidate (candidateVersion previousVersion : String) : Shell Bool := do
  match ← pollExpectedVersion candidateVersion with
  | .confirmed =>
    let _ ← statusWrite .probationConfirmed .healthAndVersionConfirmed candidateVersion
      previousVersion
    let _ ← finishSuccess
    pure true
  | .unavailable =>
    let _ ← rollbackCandidate candidateVersion previousVersion .probeToolUnavailable
    pure false
  | .failed =>
    let _ ← rollbackCandidate candidateVersion previousVersion .versionProbeFailed
    pure false

/-- `complete_candidate_probation`. -/
def completeCandidateProbation (candidateVersion previousVersion : String) : Shell Bool := do
  let _ ← statusWrite .candidateActive .probation candidateVersion previousVersion
  if ← sv .up then
    probeCandidate candidateVersion previousVersion
  else
    let _ ← rollbackCandidate candidateVersion previousVersion .candidateServiceStartFailed
    pure false

/-- The part of `activate_pending_update` from the backup on: the service is stopped. -/
def swapCandidate (candidateVersion previousVersion : String) : Shell Bool := do
  if ← backup then
    let _ ← statusWrite .activating .backupCommitted candidateVersion previousVersion
    if ← activate then
      completeCandidateProbation candidateVersion previousVersion
    else
      let _ ← rollbackCandidate candidateVersion previousVersion .candidateActivateFailed
      pure false
  else
    let _ ← statusWrite .failed .backupCreateFailed candidateVersion previousVersion
    let _ ← svOrTrue .up
    let _ ← cleanupTransaction
    pure false

/-- The part of `activate_pending_update` behind the reads of `pending.json`. -/
def stopService (candidateVersion previousVersion : String) : Shell Bool := do
  if ← ncExecutable then
    let _ ← statusWrite .activating .preSwap candidateVersion previousVersion
    if ← sv .down then
      swapCandidate candidateVersion previousVersion
    else
      let _ ← statusWrite .failed .serviceStopFailed candidateVersion previousVersion
      let _ ← cleanupTransaction
      pure false
  else
    let _ ← statusWrite .failed .probeToolUnavailable candidateVersion previousVersion
    let _ ← cleanupTransaction
    pure false

/-- The exit of `activate_pending_update` for a version that cannot be read. -/
def invalidPending : Shell Bool := do
  let _ ← statusWrite .failed .invalidPendingMetadata "" ""
  let _ ← cleanupTransaction
  pure false

/-- `activate_pending_update`. -/
def activatePendingUpdate : Shell Bool := do
  let staged ← (do if ← isFile .pending then isFile .candidate else pure false)
  if staged then
    match ← jsonField .candidateVersion .pending with
    | none => invalidPending
    | some candidateVersion =>
      match ← jsonField .previousVersion .pending with
      | none => invalidPending
      | some previousVersion => stopService candidateVersion previousVersion
  else
    let _ ← cleanupTransaction
    let _ ← statusWrite .failed .stagedArtifactMissing "" ""
    pure false

/-- The branch of `recover_transaction` for `activating` behind `pre_swap`. -/
def resumeActivation (reason : Reason) : Shell Bool := do
  match ← transactionValues with
  | none => pure false
  | some (candidateVersion, previousVersion) =>
    let staged ← (do if reason = .backupCommitted then isFile .candidate else pure false)
    if staged then
      if ← activate then
        completeCandidateProbation candidateVersion previousVersion
      else
        rollbackCandidate candidateVersion previousVersion .candidateActivateFailed
    else
      rollbackCandidate candidateVersion previousVersion .rebootDuringActivation

/-- The branch of `recover_transaction` for `rollback_in_progress`. -/
def resumeRollback : Shell Bool := do
  match ← transactionValues with
  | none => pure false
  | some (candidateVersion, previousVersion) =>
    let reason ← jsonField .reason .status
    restoreBackup candidateVersion previousVersion (reason.getD .rollbackResumed)

/-- The branches of `recover_transaction`. -/
def recoverPhase : Phase → Shell Bool
  | .pending => activatePendingUpdate
  | .activating => do
    let reason := (← jsonField .reason .status).getD .invalid
    if reason = .preSwap then activatePendingUpdate else resumeActivation reason
  | .candidateActive => do
    match ← transactionValues with
    | none => pure false
    | some (candidateVersion, previousVersion) =>
      rollbackCandidate candidateVersion previousVersion .rebootDuringProbation
  | .probationConfirmed => finishSuccess
  | .rollbackInProgress => resumeRollback
  | .rolledBack | .failed | .idle => cleanupTransaction
  | .other _ => do
    let _ ← cleanupTransaction
    let _ ← statusWrite .failed .invalidTransactionPhase "" ""
    pure false

/-- `recover_transaction`. -/
def recoverTransaction : Shell Bool := do
  if ← isFile .status then
    match ← jsonField .status .status with
    | none =>
      let _ ← statusWrite .failed .invalidStatusMetadata "" ""
      let _ ← cleanupTransaction
      pure false
    | some phase => recoverPhase phase
  else
    let _ ← cleanupTransaction
    pure true

/-! ### Between two runs -/

namespace Feeder

variable {B : Type} (w : Feeder B)

/-- The phase that `status.json` names. -/
def phase : Option Phase := w.status.bind (·.status)

/-- The reason that `status.json` names. -/
def reason : Option Reason := w.status.bind (·.reason)

/-- A reboot starts the service from the active binary. -/
def reboot : Feeder B := { w with running := some w.active }

/-- `update_transaction_outstanding`, for a `status.json` that can be read. -/
def outstanding : Bool :=
  w.pending.isSome ||
    match w.status with
    | none => false
    | some m =>
      match m.status with
      | none => true
      | some phase =>
        phase ∈ [Phase.pending, .activating, .candidateActive, .probationConfirmed,
          .rollbackInProgress]

/-- What staging writes to `pending.json` and `status.json`. -/
def stagedMetadata (version previousVersion : String) : Metadata :=
  ⟨some .pending, some .candidateReady, version, previousVersion⟩

/-- A transaction that has been staged: the supervisor has not touched it yet. -/
structure Staged (w : Feeder B) : Prop where
  active : w.active = w.old
  candidate : w.candidate = some w.new
  pending : ∃ previousVersion, w.pending = some (stagedMetadata w.version previousVersion)
  status : ∃ previousVersion, w.status = some (stagedMetadata w.version previousVersion)
  probed : w.probed = false
  svLog : w.svLog = []

end Feeder

/-- An upload, by `handle_update_post` under the lock. It stages a transaction, or it fails or
is cut off: then `status.json` is as it was or absent, since it is written last. -/
inductive Upload {B : Type} : Feeder B → Feeder B → Prop
  | staged (w : Feeder B) (free : w.outstanding = false) (new : B)
      (version previousVersion : String) :
      Upload w { w with
        candidate := some new
        pending := some (Feeder.stagedMetadata version previousVersion)
        status := some (Feeder.stagedMetadata version previousVersion)
        old := w.active, new := new, version := version, probed := false, svLog := [] }
  | cut (w : Feeder B) (free : w.outstanding = false) (candidate : Option B)
      (pending status : Option Metadata) (hstatus : status = w.status ∨ status = none) :
      Upload w { w with candidate := candidate, pending := pending, status := status }

theorem Upload.free {B : Type} {w w' : Feeder B} (h : Upload w w') : w.outstanding = false := by
  cases h with
  | staged free | cut free => exact free

/-- What is assumed of the world: the outcomes of commands, and when the supervisor may be
killed and the feeder rebooted. -/
structure Assumptions (B : Type) where
  allowed : Feeder B → Command → Outcome → Prop
  mayKill : Feeder B → Prop
  mayReboot : Feeder B → Prop

/-- The supervisor with its kills, its reboots and the uploads. -/
def system {B : Type} (A : Assumptions B) : System Command Answer Outcome (Feeder B) Bool where
  perform := perform
  allowed := A.allowed
  script := recoverTransaction
  mayKill := A.mayKill
  outside w w' := (A.mayReboot w ∧ w' = w.reboot) ∨ Upload w w'

/-- An update as it is staged: `false` is the old binary, and `true` the candidate. -/
def firstUpdate : Feeder Bool where
  active := false
  candidate := some true
  previous := none
  pending := some (Feeder.stagedMetadata "1.1.0" "1.0.0")
  status := some (Feeder.stagedMetadata "1.1.0" "1.0.0")
  running := some false
  old := false
  new := true
  version := "1.1.0"
  probed := false
  svLog := []

theorem firstUpdate_staged : firstUpdate.Staged :=
  ⟨rfl, rfl, ⟨_, rfl⟩, ⟨_, rfl⟩, rfl, rfl⟩

/-! ### One rule for each command -/

/-- `pre` holds in front of every command of the script, and `post` at its end. -/
abbrev Always {B α : Type} (A : Assumptions B) (pre : Command → Feeder B → Prop)
    (post : α → Feeder B → Prop) : Shell α → Feeder B → Prop :=
  (system A).toDevice.Always pre post

section Rules

variable {B α : Type} {A : Assumptions B} {pre : Command → Feeder B → Prop}
  {post : α → Feeder B → Prop} {w : Feeder B} {b : B}

theorem always_isFile_bind {file : File} {f : Bool → Shell α} (hpre : pre (.isFile file) w)
    (h : Always A pre post (f (w.isFile file)) w) :
    Always A pre post (isFile file >>= f) w :=
  ⟨hpre, fun _ _ => h⟩

theorem always_jsonField_bind {key : Key} {file : JsonFile} {f : Option key.Value → Shell α}
    (hpre : pre (.jsonField key file) w)
    (h : Always A pre post (f (w.jsonField key file)) w) :
    Always A pre post (jsonField key file >>= f) w :=
  ⟨hpre, fun _ _ => h⟩

/-- The versions in `status.json`, empty if there are none. -/
def Feeder.transactionValues (w : Feeder B) : String × String :=
  ((w.status.map (·.candidateVersion)).getD "", (w.status.map (·.previousVersion)).getD "")

theorem always_transactionValues_bind {f : Option (String × String) → Shell α}
    (hpre : ∀ key, pre (.jsonField key .status) w)
    (h : Always A pre post (f (some w.transactionValues)) w) :
    Always A pre post (transactionValues >>= f) w :=
  ⟨hpre _, fun _ _ => ⟨hpre _, fun _ _ => h⟩⟩

theorem always_ncExecutable_bind {f : Bool → Shell α} (hpre : pre .ncExecutable w)
    (h : ∀ o, A.allowed w .ncExecutable o → Always A pre post (f o.ok) w) :
    Always A pre post (ncExecutable >>= f) w :=
  ⟨hpre, h⟩

theorem always_sv_bind {verb : SvVerb} {f : Bool → Shell α} (hpre : pre (.sv verb) w)
    (h : ∀ o, A.allowed w (.sv verb) o →
      Always A pre post (f o.ok) (w.sv verb o.effect)) :
    Always A pre post (sv verb >>= f) w :=
  ⟨hpre, h⟩

theorem always_svOrTrue_bind {verb : SvVerb} {f : Bool → Shell α}
    (hpre : pre (.svOrTrue verb) w)
    (h : ∀ o, A.allowed w (.svOrTrue verb) o →
      Always A pre post (f o.ok) (w.sv verb o.effect)) :
    Always A pre post (svOrTrue verb >>= f) w :=
  ⟨hpre, h⟩

theorem always_statusWrite_bind {p : Phase} {r : Reason} {cv pv : String} {f : Bool → Shell α}
    (hpre : pre (.writeStatus ⟨some p, some r, cv, pv⟩) w)
    (h : ∀ o, A.allowed w (.writeStatus ⟨some p, some r, cv, pv⟩) o →
      Always A pre post (f o.ok)
        (if o.effect then { w with status := some ⟨some p, some r, cv, pv⟩ } else w)) :
    Always A pre post (statusWrite p r cv pv >>= f) w :=
  ⟨hpre, h⟩

theorem always_cleanup_bind {f : Bool → Shell α} (hpre : pre .cleanup w)
    (h : ∀ o, A.allowed w .cleanup o → Always A pre post (f o.ok)
      { w with
        pending := if o.effect then none else w.pending
        candidate := if o.effect₂ then none else w.candidate }) :
    Always A pre post (cleanupTransaction >>= f) w :=
  ⟨hpre, h⟩

theorem always_backup_bind {f : Bool → Shell α} (hpre : pre .backup w)
    (h : ∀ o, A.allowed w .backup o → Always A pre post (f o.ok)
      (if o.effect then { w with previous := some w.active } else w)) :
    Always A pre post (backup >>= f) w :=
  ⟨hpre, h⟩

theorem always_activate_bind {f : Bool → Shell α} (hb : w.candidate = some b)
    (hpre : pre .activate w)
    (h : ∀ o, A.allowed w .activate o → Always A pre post (f o.ok)
      (if o.effect then { w with active := b } else w)) :
    Always A pre post (activate >>= f) w := by
  refine ⟨hpre, fun o ho => ?_⟩
  have hperform : perform .activate o w =
      (o.ok, if o.effect then { w with active := b } else w) := by
    simp only [perform, atomicCopyElf, hb]
  rw [show (system A).perform = perform from rfl, hperform]
  exact h o ho

theorem always_activate_bind_none {f : Bool → Shell α} (hc : w.candidate = none)
    (hpre : pre .activate w) (h : Always A pre post (f false) w) :
    Always A pre post (activate >>= f) w := by
  refine ⟨hpre, fun o _ => ?_⟩
  have hperform : perform .activate o w = (false, w) := by
    simp only [perform, atomicCopyElf, hc]
  rw [show (system A).perform = perform from rfl, hperform]
  exact h

theorem always_restore_bind {f : Bool → Shell α} (hb : w.previous = some b)
    (hpre : pre .restore w)
    (h : ∀ o, A.allowed w .restore o → Always A pre post (f o.ok)
      (if o.effect then { w with active := b } else w)) :
    Always A pre post (restore >>= f) w := by
  refine ⟨hpre, fun o ho => ?_⟩
  have hperform : perform .restore o w =
      (o.ok, if o.effect then { w with active := b } else w) := by
    simp only [perform, atomicCopyElf, hb]
  rw [show (system A).perform = perform from rfl, hperform]
  exact h o ho

theorem always_validateBackup_bind {f : Bool → Shell α} (hb : w.previous = some b)
    (hpre : pre .validateBackup w)
    (h : ∀ o, A.allowed w .validateBackup o → Always A pre post (f o.ok) w) :
    Always A pre post (validateBackup >>= f) w := by
  refine ⟨hpre, fun o ho => ?_⟩
  have hperform : perform .validateBackup o w = (o.ok, w) := by
    simp only [perform, atomicCopyElf, hb, ite_self]
  rw [show (system A).perform = perform from rfl, hperform]
  exact h o ho

end Rules

/-! ### Probes -/

section Probes

variable {B : Type} {A : Assumptions B} {pre : Command → Feeder B → Prop} {w : Feeder B}
  {expected : String} {K : Feeder B → Prop}

theorem always_probeUpTo (hpre : ∀ w, K w → pre (.probe expected) w)
    (hK : ∀ w b, K w → K { w with probed := w.probed || b }) (tries : ℕ) (hw : K w) :
    Always A pre
      (fun r w => K w ∧ (r = .confirmed → expected = w.version → w.probed = true))
      (probeUpTo expected tries) w := by
  induction tries generalizing w with
  | zero => exact ⟨hw, by simp⟩
  | succ tries ih =>
    refine ⟨hpre w hw, fun o _ => ?_⟩
    cases o with
    | success =>
      refine ⟨hK w _ hw, fun _ hv => ?_⟩
      have hv : (expected == w.version) = true := beq_iff_eq.mpr hv
      exact Bool.or_eq_true_iff.mpr (.inr hv)
    | failure first second => exact ih (hK w _ hw)

theorem always_pollExpectedVersion (hpre : ∀ w, K w → pre (.probe expected) w)
    (htoken : ∀ w, K w → pre .readToken w) (hnc : ∀ w, K w → pre .ncExecutable w)
    (hK : ∀ w b, K w → K { w with probed := w.probed || b }) (hw : K w) :
    Always A pre
      (fun r w => K w ∧ (r = .confirmed → expected = w.version → w.probed = true))
      (pollExpectedVersion expected) w := by
  have unavailable : K w ∧ (ProbeResult.unavailable = .confirmed → expected = w.version →
      w.probed = true) := ⟨hw, by simp⟩
  refine ⟨htoken w hw, fun o _ => ?_⟩
  cases o with
  | failure first second => exact unavailable
  | success =>
    refine ⟨hnc w hw, fun o _ => ?_⟩
    cases o with
    | failure first second => exact unavailable
    | success => exact always_probeUpTo hpre hK 10 hw

end Probes

end PetlibroLocal.Supervisor
