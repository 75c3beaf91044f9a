import PetlibroLocal.Agent.Manifest
import PetlibroLocal.Supervisor.Model

/-!
# Staging an Update

`handle_update_post` of the state agent: a body whose manifest carries a valid signature and a
newer version is staged under the transaction lock. The artifact goes to `candidate.tmp` and is
renamed to `candidate.bin` when its hash and its ELF header are right; then `pending.json` and,
last, `status.json` are written, each through a temporary file.

The handler is a program over its system calls, and `perform` says what each of them does, for
each outcome. A file knows whether its contents have reached the flash: `PowerCut` keeps those
that have and may change the others. Renames and removals are durable in their order. Removals
succeed while the process lives. Of a JSON file, the model has the fields that are read from it.

Next to the files, a `Disk` records whether the request held the lock, whether a `status.json`
that is there could not be read, and whether `status.json` was written by the request.

Not modelled: paths that do not fit their buffers, and the text of `errno` in messages. The
reads of the body come before the writes of its blocks; they do not touch the flash.
-/

namespace PetlibroLocal.Agent

open Delivery
open Supervisor (Metadata JsonFile Phase)

/-! ### Files -/

/-- The contents of a file, and whether they have reached the flash. -/
structure Stored (α : Type) where
  content : α
  synced : Bool
  deriving DecidableEq

/-- The files of an update, and the record of the request. -/
structure Disk where
  candidateTmp : Option (Stored Bytes)
  candidate : Option (Stored Bytes)
  pendingTmp : Option (Stored Metadata)
  pending : Option (Stored Metadata)
  statusTmp : Option (Stored Metadata)
  status : Option (Stored Metadata)
  held : Bool
  misread : Bool
  statusWritten : Bool
  deriving DecidableEq

/-- The files that the handler removes. -/
inductive Path
  | candidateTmp
  | candidate
  | jsonTmp (file : JsonFile)
  | json (file : JsonFile)
  deriving DecidableEq

namespace Disk

/-- A temporary file of `write_atomic_json`. -/
def jsonTmp (d : Disk) : JsonFile → Option (Stored Metadata)
  | .pending => d.pendingTmp
  | .status => d.statusTmp

/-- A file that `write_atomic_json` replaces. -/
def json (d : Disk) : JsonFile → Option (Stored Metadata)
  | .pending => d.pending
  | .status => d.status

/-- Replaces a temporary file. -/
def setJsonTmp (d : Disk) (file : JsonFile) (stored : Option (Stored Metadata)) : Disk :=
  match file with
  | .pending => { d with pendingTmp := stored }
  | .status => { d with statusTmp := stored }

/-- Replaces or removes a file. -/
def setJson (d : Disk) (file : JsonFile) (stored : Option (Stored Metadata)) : Disk :=
  match file with
  | .pending => { d with pending := stored }
  | .status => { d with status := stored, statusWritten := stored.isSome }

/-- Whether a file is there. -/
def present (d : Disk) : Path → Bool
  | .candidateTmp => d.candidateTmp.isSome
  | .candidate => d.candidate.isSome
  | .jsonTmp file => (d.jsonTmp file).isSome
  | .json file => (d.json file).isSome

/-- Removes a file. -/
def remove (d : Disk) : Path → Disk
  | .candidateTmp => { d with candidateTmp := none }
  | .candidate => { d with candidate := none }
  | .jsonTmp file => d.setJsonTmp file none
  | .json file => d.setJson file none

/-- A transaction is outstanding: there is a `pending.json`, or `status.json` names a phase that
is not final, or no phase at all. -/
def outstanding (d : Disk) : Bool :=
  d.pending.isSome ||
    match d.status with
    | none => false
    | some stored =>
      match stored.content.status with
      | none => true
      | some phase =>
        phase ∈ [Phase.pending, .activating, .candidateActive, .probationConfirmed,
          .rollbackInProgress]

end Disk

/-- What a power cut may make of a file. -/
def Stored.Survives {α : Type} : Option (Stored α) → Option (Stored α) → Prop
  | none, after => after = none
  | some before, after => ∃ stored, after = some stored ∧ (before.synced → stored = before)

/-- What a power cut may make of the flash. -/
structure PowerCut (d d' : Disk) : Prop where
  candidate : Stored.Survives d.candidate d'.candidate
  pending : Stored.Survives d.pending d'.pending
  status : Stored.Survives d.status d'.status

/-! ### System calls -/

/-- The system calls of the handler that concern the flash. `fsyncDir` is
`fsync_parent_directory`, and `sha256CandidateTmp` is `verify_file_sha256`. -/
inductive Syscall
  | mkdirs
  | openLock
  | flock
  | unlock
  | lstatPending
  | readStatus
  | unlink (path : Path)
  | fsyncDir
  | openCandidateTmp
  | writeCandidateTmp (block : Bytes)
  | fsyncCandidateTmp
  | sha256CandidateTmp
  | verifyElfCandidateTmp (expectedSize : ℕ)
  | renameCandidate
  | openJsonTmp (file : JsonFile)
  | writeJsonTmp (file : JsonFile) (json : Metadata)
  | fsyncJsonTmp (file : JsonFile)
  | renameJson (file : JsonFile)

/-- The answer of `flock`. -/
inductive FlockAnswer
  | locked
  | wouldBlock
  | failed
  deriving DecidableEq

/-- The answer of a system call: what was read, or whether it succeeded. -/
abbrev SysAnswer : Syscall → Type
  | .flock => FlockAnswer
  | .readStatus => Option Metadata
  | .sha256CandidateTmp => Option (List Char)
  | _ => Bool

/-- How a system call goes. A write that fails has written some bytes, or some of a JSON text. -/
inductive SysOutcome
  | success
  | failure (written : ℕ) (torn : Metadata)
  | wouldBlock

/-- Whether the call succeeds. -/
def SysOutcome.ok : SysOutcome → Bool
  | .success => true
  | _ => false

/-- What is known of the agent that runs: its version, the check of signatures under the release
key, and SHA-256. -/
structure Env where
  agentVersion : Version
  checkSignature : Bytes → Bytes → Bool
  sha256 : Bytes → List Char

/-- `verify_elf_candidate`, for a file that can be read. -/
def verifyElfCandidate (content : Bytes) (expectedSize : ℕ) : Bool :=
  content.length == expectedSize && 52 ≤ content.length &&
    content.take 6 == [0x7f, 0x45, 0x4c, 0x46, 1, 1] &&
    leAt content 16 2 == 2 && leAt content 18 2 == 40

/-- A JSON file that has just been created. -/
def emptyJson : Metadata := ⟨none, none, "", ""⟩

/-- What a system call answers and does. -/
def sysPerform (env : Env) : (c : Syscall) → SysOutcome → Disk → SysAnswer c × Disk
  | .mkdirs, o, d => (o.ok, d)
  | .openLock, o, d => (o.ok, d)
  | .flock, .success, d => (.locked, { d with held := true })
  | .flock, .wouldBlock, d => (.wouldBlock, d)
  | .flock, .failure _ _, d => (.failed, d)
  | .unlock, _, d => (true, d)
  | .lstatPending, _, d => (d.pending.isSome, d)
  | .readStatus, o, d =>
    match d.status with
    | none => (none, d)
    | some stored => if o.ok then (some stored.content, d) else (none, { d with misread := true })
  | .unlink path, _, d => (d.present path, d.remove path)
  | .fsyncDir, o, d => (o.ok, d)
  | .openCandidateTmp, o, d =>
    if o.ok = true ∧ d.candidateTmp = none then
      (true, { d with candidateTmp := some ⟨[], false⟩ })
    else (false, d)
  | .writeCandidateTmp block, o, d =>
    match d.candidateTmp, o with
    | some stored, .success =>
      (true, { d with candidateTmp := some ⟨stored.content ++ block, false⟩ })
    | some stored, .failure written _ =>
      (false, { d with candidateTmp := some ⟨stored.content ++ block.take written, false⟩ })
    | _, _ => (false, d)
  | .fsyncCandidateTmp, o, d =>
    (o.ok, if o.ok then
      { d with candidateTmp := d.candidateTmp.map fun stored => ⟨stored.content, true⟩ } else d)
  | .sha256CandidateTmp, o, d =>
    (if o.ok then d.candidateTmp.map fun stored => env.sha256 stored.content else none, d)
  | .verifyElfCandidateTmp expectedSize, o, d =>
    (o.ok && d.candidateTmp.any fun stored => verifyElfCandidate stored.content expectedSize, d)
  | .renameCandidate, o, d =>
    match d.candidateTmp, o with
    | some stored, .success => (true, { d with candidateTmp := none, candidate := some stored })
    | _, _ => (false, d)
  | .openJsonTmp file, o, d =>
    if o.ok = true ∧ d.jsonTmp file = none then
      (true, d.setJsonTmp file (some ⟨emptyJson, false⟩))
    else (false, d)
  | .writeJsonTmp file json, o, d =>
    match d.jsonTmp file, o with
    | some _, .success => (true, d.setJsonTmp file (some ⟨json, false⟩))
    | some _, .failure _ torn => (false, d.setJsonTmp file (some ⟨torn, false⟩))
    | _, _ => (false, d)
  | .fsyncJsonTmp file, o, d =>
    (o.ok, if o.ok then
      d.setJsonTmp file ((d.jsonTmp file).map fun stored => ⟨stored.content, true⟩) else d)
  | .renameJson file, o, d =>
    match d.jsonTmp file, o with
    | some stored, .success => (true, (d.setJsonTmp file none).setJson file (some stored))
    | _, _ => (false, d)

/-- The system calls, with any outcomes. -/
def device (env : Env) : Device Syscall SysAnswer SysOutcome Disk where
  perform := sysPerform env
  allowed _ _ _ := True

/-! ### The handler -/

/-- Programs over the system calls. -/
abbrev Prog := Script Syscall SysAnswer

/-- The program of one system call. -/
def call (c : Syscall) : Prog (SysAnswer c) := Script.command c

/-- `ensure_update_dirs`. -/
def ensureUpdateDirs : Prog Bool := call .mkdirs

/-- `durable_unlink`. -/
def durableUnlink (path : Path) : Prog Unit := do
  let removed : Bool ← call (.unlink path)
  if removed then
    let _ ← call .fsyncDir
    pure ()
  else pure ()

/-- `write_atomic_json`, from the open of the temporary file on. -/
def writeJsonTmp (file : JsonFile) (json : Metadata) : Prog (Except String Unit) := do
  let opened : Bool ← call (.openJsonTmp file)
  if !opened then pure (.error "open failed")
  else
    let written : Bool ← call (.writeJsonTmp file json)
    if !written then pure (.error "write failed")
    else
      let synced : Bool ← call (.fsyncJsonTmp file)
      if !synced then pure (.error "fsync failed")
      else
        let renamed : Bool ← call (.renameJson file)
        if !renamed then pure (.error "rename failed")
        else
          let durable : Bool ← call .fsyncDir
          if !durable then
            durableUnlink (.json file)
            pure (.error "directory fsync failed")
          else pure (.ok ())

/-- `write_atomic_json`. -/
def writeAtomicJson (file : JsonFile) (json : Metadata) : Prog (Except String Unit) := do
  durableUnlink (.jsonTmp file)
  writeJsonTmp file json

/-- The writes of the loop of `stage_update_candidate`. -/
def writeBlocks : List Bytes → Prog Bool
  | [] => pure true
  | block :: blocks => do
    let written : Bool ← call (.writeCandidateTmp block)
    if written then writeBlocks blocks else pure false

/-- An exit of `stage_update_candidate` that removes a file. -/
def giveUp {α : Type} (path : Path) (error : String) : Prog (Except String α) := do
  durableUnlink path
  pure (.error error)

/-- The end of `stage_update_candidate`: the two JSON files. -/
def writeTransaction (json : Metadata) : Prog (Except String Unit) := do
  match ← writeAtomicJson .pending json with
  | .error error => giveUp .candidate error
  | .ok () =>
    match ← writeAtomicJson .status json with
    | .error error =>
      durableUnlink (.json .pending)
      giveUp .candidate error
    | .ok () => pure (.ok ())

/-- The middle of `stage_update_candidate`, where the artifact has been written: the checks, and
the rename. -/
def commitCandidate (artifactSha256 : List Char) (artifactLen : ℕ) :
    Prog (Except String Unit) := do
  let synced : Bool ← call .fsyncCandidateTmp
  if !synced then giveUp .candidateTmp "artifact fsync failed"
  else
    let actualHash : Option (List Char) ← call .sha256CandidateTmp
    match actualHash with
    | none => giveUp .candidateTmp "sha256 verification failed"
    | some actualHash =>
      if actualHash ≠ artifactSha256 then giveUp .candidateTmp "artifact hash mismatch"
      else
        let elf : Bool ← call (.verifyElfCandidateTmp artifactLen)
        if !elf then giveUp .candidateTmp "artifact ELF sanity check failed"
        else
          let renamed : Bool ← call .renameCandidate
          if !renamed then giveUp .candidateTmp "candidate rename failed"
          else
            let durable : Bool ← call .fsyncDir
            if !durable then giveUp .candidate "candidate directory fsync failed"
            else pure (.ok ())

/-- The fields of `pending_json` that are read from it. -/
def pendingJson (env : Env) (manifest : OtaManifest) : Metadata :=
  Supervisor.Feeder.stagedMetadata (String.ofList manifest.version)
    (String.ofList env.agentVersion.text)

/-- `stage_update_candidate`, from the open of `candidate.tmp` on: the reader behind the
artifact. -/
def stageArtifact (env : Env) (manifest : OtaManifest) (artifactLen : ℕ) (reader : BodyReader) :
    Prog (Except String BodyReader) := do
  let opened : Bool ← call .openCandidateTmp
  if !opened then pure (.error "open candidate failed")
  else
    let written ← writeBlocks (readArtifact reader artifactLen).1
    if !written then giveUp .candidateTmp "artifact write failed"
    else
      match (readArtifact reader artifactLen).2 with
      | none => giveUp .candidateTmp "artifact body truncated"
      | some reader =>
        match ← commitCandidate manifest.artifactSha256 artifactLen with
        | .error error => pure (.error error)
        | .ok () =>
          match ← writeTransaction (pendingJson env manifest) with
          | .error error => pure (.error error)
          | .ok () => pure (.ok reader)

/-- `stage_update_candidate`. -/
def stageUpdateCandidate (env : Env) (manifest : OtaManifest) (artifactLen : ℕ)
    (reader : BodyReader) : Prog (Except String BodyReader) := do
  if ← ensureUpdateDirs then
    durableUnlink .candidateTmp
    stageArtifact env manifest artifactLen reader
  else pure (.error "failed to create update directory")

/-- `update_transaction_outstanding`. -/
def updateTransactionOutstanding : Prog Bool := do
  let pending : Bool ← call .lstatPending
  if pending then pure true
  else
    let status : Option Metadata ← call .readStatus
    match status with
    | none => pure false
    | some json =>
      match json.status with
      | none => pure true
      | some phase =>
        pure (phase ∈ [Phase.pending, .activating, .candidateActive, .probationConfirmed,
          .rollbackInProgress])

/-- `UpdateLockResult`. -/
inductive UpdateLockResult
  | acquired
  | busy
  | error (error : String)

/-- `acquire_update_transaction_lock`. -/
def acquireUpdateTransactionLock : Prog UpdateLockResult := do
  if ← ensureUpdateDirs then
    let opened : Bool ← call .openLock
    if !opened then pure (.error "transaction lock open failed")
    else
      let answer : FlockAnswer ← call .flock
      match answer with
      | .wouldBlock => pure .busy
      | .failed => pure (.error "transaction lock failed")
      | .locked =>
        if ← updateTransactionOutstanding then
          let _ ← call .unlock
          pure .busy
        else pure .acquired
  else pure (.error "failed to create update directory")

/-- A request that may be staged. -/
structure AcceptedUpdate where
  manifestRaw : Bytes
  signature : Bytes
  manifest : OtaManifest
  artifactLen : ℕ
  reader : BodyReader

/-- `handle_update_post` up to the lock. -/
def acceptUpdate (env : Env) (req : HttpRequest) (prefetched : Bytes)
    (socket : List (Event UInt8)) : Except HttpError AcceptedUpdate :=
  match receiveFrame req prefetched socket with
  | .error error => .error error
  | .ok frame =>
    if env.checkSignature frame.signature frame.manifestRaw = false then
      .error ⟨401, "Unauthorized", "manifest signature invalid"⟩
    else
      match parseManifestV1 frame.manifestRaw with
      | none => .error (badRequest "manifest validation failed")
      | some manifest =>
        if manifest.artifactSize ≠ frame.artifactLen then
          .error (badRequest "manifest artifact_size mismatch")
        else if rejectsVersion manifest.version env.agentVersion.text then
          .error ⟨409, "Conflict",
            if compareSemver manifest.version env.agentVersion.text = 0 then
              "update version equals installed version" else "downgrade rejected"⟩
        else .ok ⟨frame.manifestRaw, frame.signature, manifest, frame.artifactLen, frame.reader⟩

/-- The answer to a request while a transaction is outstanding. -/
def inProgress : HttpError := ⟨409, "Conflict", "update transaction already in progress"⟩

/-- `handle_update_post` from the lock on. -/
def stageUpdate (env : Env) (update : AcceptedUpdate) : Prog Response := do
  match ← acquireUpdateTransactionLock with
  | .busy => pure (.error inProgress)
  | .error error => pure (.error ⟨500, "Internal Server Error", error⟩)
  | .acquired =>
    let staged ← stageUpdateCandidate env update.manifest update.artifactLen update.reader
    let _ ← call .unlock
    match staged with
    | .error error => pure (.error (badRequest error))
    | .ok reader => pure (finishUpload reader update.manifest.version)

/-- `handle_update_post`. -/
def handleUpdatePost (env : Env) (req : HttpRequest) (prefetched : Bytes)
    (socket : List (Event UInt8)) : Prog Response :=
  match acceptUpdate env req prefetched socket with
  | .error error => pure (.error error)
  | .ok update => stageUpdate env update

end PetlibroLocal.Agent
