import PetlibroLocal.Agent.Staging

/-!
# Staging Is All or Nothing

`status.json` is written last, when `candidate.bin` and `pending.json` are complete and on the
flash. Each exit removes what the request has put in place.

The main results are `always_stageUpdate`, `staging_all_or_nothing`, `upload_of_reaches` and
`upgrades_increase`.
-/

namespace PetlibroLocal.Agent

open Delivery
open Supervisor (Metadata JsonFile Phase)

/-! ### Files -/

namespace Disk

variable (d : Disk) (file : JsonFile) (stored stored' : Option (Stored Metadata))

@[simp] theorem setJsonTmp_jsonTmp : d.setJsonTmp file (d.jsonTmp file) = d := by
  cases file <;> rfl

@[simp] theorem jsonTmp_setJsonTmp : (d.setJsonTmp file stored).jsonTmp file = stored := by
  cases file <;> rfl

@[simp] theorem setJsonTmp_setJsonTmp :
    (d.setJsonTmp file stored).setJsonTmp file stored' = d.setJsonTmp file stored' := by
  cases file <;> rfl

@[simp] theorem setJson_setJson :
    (d.setJson file stored).setJson file stored' = d.setJson file stored' := by
  cases file <;> rfl

end Disk

/-! ### The parts of the handler -/

section Parts

variable {env : Env} {I : Disk → Prop} {d : Disk}

theorem always_call_bind {α : Type} {c : Syscall} {f : SysAnswer c → Prog α}
    {post : α → Disk → Prop} (h : I d)
    (hf : ∀ o, (device env).Always (fun _ => I) post (f (sysPerform env c o d).1)
      (sysPerform env c o d).2) :
    (device env).Always (fun _ => I) post (call c >>= f) d :=
  ⟨h, fun o _ => hf o⟩

theorem always_durableUnlink (path : Path) (h : I d) (h' : I (d.remove path)) :
    (device env).Always (fun _ => I) (fun _ d' => d' = d.remove path) (durableUnlink path) d := by
  refine always_call_bind h fun _ => ?_
  change (device env).Always _ _ (if d.present path = true then _ else _) (d.remove path)
  split
  · exact always_call_bind h' fun _ => rfl
  · rfl

theorem always_giveUp {α : Type} (path : Path) {error : String} (h : I d)
    (h' : I (d.remove path)) :
    (device env).Always (fun _ => I)
      (fun (r : Except String α) d' => r = .error error ∧ d' = d.remove path)
      (giveUp path error) d :=
  (always_durableUnlink path h h').bind fun _ _ hd => ⟨rfl, hd⟩

theorem always_writeBlocks {content : Bytes} {blocks : List Bytes}
    (h : ∀ stored, I { d with candidateTmp := some stored })
    (htmp : d.candidateTmp = some ⟨content, false⟩) :
    (device env).Always (fun _ => I)
      (fun ok d' => ∃ stored, d' = { d with candidateTmp := some stored } ∧
        (ok = true → stored = ⟨content ++ blocks.flatten, false⟩))
      (writeBlocks blocks) d := by
  have hsame : d = { d with candidateTmp := some ⟨content, false⟩ } := by rw [← htmp]
  induction blocks generalizing d content with
  | nil => exact ⟨⟨content, false⟩, hsame, fun _ => by simp⟩
  | cons block blocks ih =>
    refine always_call_bind (hsame ▸ h ⟨content, false⟩) fun o => ?_
    cases o with
    | success =>
      have hrest := @ih { d with candidateTmp := some ⟨content ++ block, false⟩ }
        (content ++ block) h rfl rfl
      simp only [sysPerform, htmp, if_true]
      refine hrest.mono ?_
      rintro ok d' ⟨stored, rfl, hstored⟩
      refine ⟨stored, rfl, fun hok => ?_⟩
      rw [hstored hok, List.flatten_cons, List.append_assoc]
    | failure written torn =>
      simp only [sysPerform, htmp]
      exact ⟨_, rfl, by simp⟩
    | wouldBlock =>
      simp only [sysPerform, htmp]
      exact ⟨⟨content, false⟩, hsame, by simp⟩

/-- How the rename of the candidate ends. -/
def CandidatePlaced (env : Env) (d : Disk) (content : Bytes) (sha256 : List Char) :
    Except String Unit → Disk → Prop
  | .ok (), d' => env.sha256 content = sha256 ∧
      d' = { d with candidateTmp := none, candidate := some ⟨content, true⟩ }
  | .error _, d' => d' = { d with candidateTmp := none } ∨
      d' = { d with candidateTmp := none, candidate := none }

/-- **The candidate is put in place** when its hash is right and it is on the flash. Without the
last `fsync` it is removed. -/
theorem always_commitCandidate {content : Bytes} {sha256 : List Char} {artifactLen : ℕ}
    (htmp : d.candidateTmp = some ⟨content, false⟩)
    (h : ∀ tmp, I { d with candidateTmp := tmp })
    (hplaced : I { d with candidateTmp := none, candidate := some ⟨content, true⟩ })
    (hremoved : I { d with candidateTmp := none, candidate := none }) :
    (device env).Always (fun _ => I) (CandidatePlaced env d content sha256)
      (commitCandidate sha256 artifactLen) d := by
  have hd : I d := by
    have hsame : d = { d with candidateTmp := some ⟨content, false⟩ } := by rw [← htmp]
    exact hsame ▸ h _
  -- Until the rename, an exit removes `candidate.tmp`.
  have hexit : ∀ (tmp : Option (Stored Bytes)) (error : String),
      (device env).Always (fun _ => I) (CandidatePlaced env d content sha256)
        (giveUp .candidateTmp error) { d with candidateTmp := tmp } := by
    intro tmp error
    refine (always_giveUp .candidateTmp (h tmp) (h none)).mono ?_
    rintro r d' ⟨rfl, rfl⟩
    exact .inl rfl
  refine always_call_bind hd fun o => ?_
  cases hsync : o.ok with
  | false =>
    simp only [sysPerform, hsync]
    exact hexit d.candidateTmp _
  | true =>
    simp only [sysPerform, hsync, htmp, Option.map_some, if_true]
    refine always_call_bind (h _) fun o => ?_
    cases hsha : o.ok with
    | false =>
      simp only [sysPerform, hsha]
      exact hexit _ _
    | true =>
      simp only [sysPerform, hsha, Option.map_some, if_true]
      by_cases hhash : env.sha256 content = sha256
      · rw [if_neg (not_not.mpr hhash)]
        refine always_call_bind (h _) fun o => ?_
        cases helf : (sysPerform env (.verifyElfCandidateTmp artifactLen) o
            { d with candidateTmp := some ⟨content, true⟩ }).1 with
        | false => exact hexit _ _
        | true =>
          refine always_call_bind (h _) fun o => ?_
          cases o with
          | failure | wouldBlock => exact hexit _ _
          | success =>
            refine always_call_bind hplaced fun o => ?_
            cases hdir : o.ok with
            | true =>
              simp only [sysPerform, hdir]
              exact ⟨hhash, rfl⟩
            | false =>
              simp only [sysPerform, hdir]
              refine (always_giveUp .candidate hplaced hremoved).mono ?_
              rintro r d' ⟨rfl, rfl⟩
              exact .inr rfl
      · rw [if_pos hhash]
        exact hexit _ _

/-- How `write_atomic_json` ends. -/
def JsonWritten (d : Disk) (file : JsonFile) (json : Metadata) :
    Except String Unit → Disk → Prop
  | .ok (), d' => d' = (d.setJsonTmp file none).setJson file (some ⟨json, true⟩)
  | .error _, d' => (∃ tmp, d' = d.setJsonTmp file tmp) ∨
      d' = (d.setJsonTmp file none).setJson file none

/-- **`write_atomic_json`** replaces the file when its contents are on the flash. Without the
last `fsync` the file is removed. -/
theorem always_writeAtomicJson {file : JsonFile} {json : Metadata}
    (h : ∀ tmp, I (d.setJsonTmp file tmp))
    (hwritten : I ((d.setJsonTmp file none).setJson file (some ⟨json, true⟩)))
    (hremoved : I ((d.setJsonTmp file none).setJson file none)) :
    (device env).Always (fun _ => I) (JsonWritten d file json) (writeAtomicJson file json) d := by
  have hd : I d := by
    have := h (d.jsonTmp file)
    rwa [Disk.setJsonTmp_jsonTmp] at this
  refine (always_durableUnlink (.jsonTmp file) hd (h none)).bind ?_
  rintro _ _ rfl
  refine always_call_bind (h none) fun o => ?_
  cases hopen : o.ok with
  | false =>
    simp only [sysPerform, hopen]
    exact .inl ⟨none, rfl⟩
  | true =>
    simp only [sysPerform, hopen, Disk.remove, Disk.jsonTmp_setJsonTmp, and_self, if_true,
      Disk.setJsonTmp_setJsonTmp]
    refine always_call_bind (h _) fun o => ?_
    cases o with
    | failure written torn =>
      simp only [sysPerform, Disk.jsonTmp_setJsonTmp, Disk.setJsonTmp_setJsonTmp]
      exact .inl ⟨_, rfl⟩
    | wouldBlock =>
      simp only [sysPerform, Disk.jsonTmp_setJsonTmp]
      exact .inl ⟨_, rfl⟩
    | success =>
      simp only [sysPerform, Disk.jsonTmp_setJsonTmp, Disk.setJsonTmp_setJsonTmp]
      refine always_call_bind (h _) fun o => ?_
      cases hsync : o.ok with
      | false =>
        simp only [sysPerform, hsync]
        exact .inl ⟨_, rfl⟩
      | true =>
        simp only [sysPerform, hsync, Disk.jsonTmp_setJsonTmp, Option.map_some, if_true,
          Disk.setJsonTmp_setJsonTmp]
        refine always_call_bind (h _) fun o => ?_
        cases o with
        | failure | wouldBlock =>
          simp only [sysPerform, Disk.jsonTmp_setJsonTmp]
          exact .inl ⟨_, rfl⟩
        | success =>
          simp only [sysPerform, Disk.jsonTmp_setJsonTmp, Disk.setJsonTmp_setJsonTmp]
          refine always_call_bind hwritten fun o => ?_
          cases hdir : o.ok with
          | true =>
            simp only [sysPerform, hdir]
            rfl
          | false =>
            simp only [sysPerform, hdir]
            have hremove : ((d.setJsonTmp file none).setJson file
                (some ⟨json, true⟩)).remove (.json file) =
                  (d.setJsonTmp file none).setJson file none :=
              Disk.setJson_setJson _ _ _ _
            refine (always_durableUnlink (.json file) hwritten
              (hremove ▸ hremoved)).bind ?_
            rintro _ _ rfl
            exact .inr hremove

end Parts

/-! ### What is on the flash -/

/-- What a request is about: the flash before it, what can be read of the artifact and whether
that is all of it, the hash of the manifest, and the contents of the JSON files. -/
structure Target where
  before : Disk
  artifact : Bytes
  complete : Bool
  sha256 : List Char
  json : Metadata

/-- A request that has not changed anything. -/
structure Untouched (T : Target) (d : Disk) : Prop where
  candidate : d.candidate = T.before.candidate
  pending : d.pending = T.before.pending
  status : d.status = T.before.status
  statusWritten : d.statusWritten = false

/-- What holds at every point of a request. -/
structure Safe (env : Env) (T : Target) (d : Disk) : Prop where
  written : d.statusWritten = true → d.candidate = some ⟨T.artifact, true⟩ ∧
    d.pending = some ⟨T.json, true⟩ ∧ d.status = some ⟨T.json, true⟩ ∧ T.complete = true ∧
    env.sha256 T.artifact = T.sha256
  status : d.statusWritten = false → d.status = T.before.status ∨ d.status = none
  free : Untouched T d ∨ T.before.outstanding = false ∨ d.misread = true

/-- A request that holds the lock and has not written `status.json`. -/
structure Working (T : Target) (d : Disk) : Prop where
  statusWritten : d.statusWritten = false
  status : d.status = T.before.status ∨ d.status = none
  free : T.before.outstanding = false ∨ d.misread = true

theorem Working.safe {env : Env} {T : Target} {d : Disk} (h : Working T d) : Safe env T d where
  written hw := by simp [h.statusWritten] at hw
  status _ := h.status
  free := .inr h.free

theorem Working.of_eq {T : Target} {d d' : Disk} (h : Working T d)
    (hwritten : d'.statusWritten = d.statusWritten) (hstatus : d'.status = d.status)
    (hmisread : d'.misread = d.misread) : Working T d' :=
  ⟨hwritten.trans h.statusWritten, hstatus ▸ h.status, hmisread ▸ h.free⟩

/-- A request that has failed. -/
structure Abandoned (T : Target) (d : Disk) : Prop extends Working T d where
  candidate : d.candidate = T.before.candidate ∨ d.candidate = none
  pending : d.pending = none

section Stage

variable {env : Env} {T : Target} {d : Disk}

/-- How staging ends: everything is in place, or nothing. -/
def StagingEnds {α : Type} (env : Env) (T : Target) : Except String α → Disk → Prop
  | .ok _, d => Safe env T d ∧ d.statusWritten = true
  | .error _, d => Abandoned T d

/-- **The two JSON files.** -/
theorem always_writeTransaction (h : Working T d)
    (hcandidate : d.candidate = some ⟨T.artifact, true⟩)
    (hpending : d.pending = none) (hcomplete : T.complete = true)
    (hsha : env.sha256 T.artifact = T.sha256) :
    (device env).Always (fun _ => Safe env T) (StagingEnds env T) (writeTransaction T.json) d := by
  have hwrite := @always_writeAtomicJson env (Safe env T) d .pending T.json
    (fun tmp => Working.safe (h.of_eq rfl rfl rfl)) (Working.safe (h.of_eq rfl rfl rfl))
    (Working.safe (h.of_eq rfl rfl rfl))
  refine hwrite.bind ?_
  rintro (error | _) d₁ hd₁
  · -- Whatever became of `pending.json`, it is not there.
    have hd₁ : Working T d₁ ∧ d₁.pending = none := by
      rcases hd₁ with ⟨tmp, rfl⟩ | rfl
      · exact ⟨h.of_eq rfl rfl rfl, hpending⟩
      · exact ⟨h.of_eq rfl rfl rfl, rfl⟩
    refine (always_giveUp .candidate hd₁.1.safe
      (Working.safe (hd₁.1.of_eq rfl rfl rfl))).mono ?_
    rintro r d' ⟨rfl, rfl⟩
    exact ⟨hd₁.1.of_eq rfl rfl rfl, .inr rfl, hd₁.2⟩
  · obtain rfl : d₁ = { d with pendingTmp := none, pending := some ⟨T.json, true⟩ } := hd₁
    have h₁ : Working T { d with pendingTmp := none, pending := some ⟨T.json, true⟩ } :=
      h.of_eq rfl rfl rfl
    have hremoved : Working T { d with
        pendingTmp := none, pending := some ⟨T.json, true⟩, statusTmp := none
        status := none, statusWritten := false } := ⟨rfl, .inr rfl, h.free⟩
    have hstaged : Safe env T { d with
        pendingTmp := none, pending := some ⟨T.json, true⟩, statusTmp := none
        status := some ⟨T.json, true⟩, statusWritten := true } :=
      ⟨fun _ => ⟨hcandidate, rfl, rfl, hcomplete, hsha⟩, by simp, .inr h.free⟩
    have hwrite := @always_writeAtomicJson env (Safe env T)
      { d with pendingTmp := none, pending := some ⟨T.json, true⟩ } .status T.json
      (fun tmp => Working.safe (h₁.of_eq rfl rfl rfl)) hstaged hremoved.safe
    refine hwrite.bind ?_
    rintro (error | _) d₂ hd₂
    · have hd₂ : Working T d₂ := by
        rcases hd₂ with ⟨tmp, rfl⟩ | rfl
        · exact h₁.of_eq rfl rfl rfl
        · exact hremoved
      refine (always_durableUnlink (.json .pending) hd₂.safe
        (Working.safe (hd₂.of_eq rfl rfl rfl))).bind ?_
      rintro _ _ rfl
      have hd₃ : Working T (d₂.remove (.json .pending)) := hd₂.of_eq rfl rfl rfl
      refine (always_giveUp .candidate hd₃.safe (Working.safe (hd₃.of_eq rfl rfl rfl))).mono ?_
      rintro r d' ⟨rfl, rfl⟩
      exact ⟨hd₃.of_eq rfl rfl rfl, .inr rfl, rfl⟩
    · obtain rfl := hd₂
      exact ⟨hstaged, rfl⟩

/-- How `stage_update_candidate` ends, with the reader behind the artifact. -/
def CandidateStaged (env : Env) (T : Target) (rest : Option BodyReader) :
    Except String BodyReader → Disk → Prop
  | .ok reader, d => Safe env T d ∧ d.statusWritten = true ∧ rest = some reader
  | .error _, d => Abandoned T d

/-- **`stage_update_candidate`.** -/
theorem always_stageUpdateCandidate {manifest : OtaManifest} {artifactLen : ℕ}
    {reader : BodyReader} (hT : T = ⟨T.before, (readArtifact reader artifactLen).1.flatten,
      (readArtifact reader artifactLen).2.isSome, manifest.artifactSha256,
      pendingJson env manifest⟩) (h : Working T d)
    (hcandidate : d.candidate = T.before.candidate) (hpending : d.pending = none) :
    (device env).Always (fun _ => Safe env T)
      (CandidateStaged env T (readArtifact reader artifactLen).2)
      (stageUpdateCandidate env manifest artifactLen reader) d := by
  have hartifact : T.artifact = (readArtifact reader artifactLen).1.flatten := by rw [hT]
  have hsha : T.sha256 = manifest.artifactSha256 := by rw [hT]
  have hjson : T.json = pendingJson env manifest := by rw [hT]
  -- As long as only temporary files have changed, the request can be abandoned.
  have habandoned : ∀ tmp, Abandoned T { d with candidateTmp := tmp } := fun tmp =>
    ⟨h.of_eq rfl rfl rfl, .inl hcandidate, hpending⟩
  have hexit : ∀ (tmp : Option (Stored Bytes)) (error : String),
      (device env).Always (fun _ => Safe env T)
        (CandidateStaged env T (readArtifact reader artifactLen).2)
        (giveUp .candidateTmp error) { d with candidateTmp := tmp } := by
    intro tmp error
    refine (always_giveUp .candidateTmp (habandoned tmp).toWorking.safe
      (habandoned none).toWorking.safe).mono ?_
    rintro r d' ⟨rfl, rfl⟩
    exact habandoned none
  refine always_call_bind h.safe fun o => ?_
  cases hdirs : o.ok with
  | false =>
    simp only [sysPerform, hdirs]
    exact habandoned d.candidateTmp
  | true =>
    simp only [sysPerform, hdirs, if_true]
    refine (always_durableUnlink .candidateTmp h.safe
      (habandoned none).toWorking.safe).bind ?_
    rintro _ _ rfl
    refine always_call_bind (habandoned none).toWorking.safe fun o => ?_
    cases hopen : o.ok with
    | false =>
      simp only [sysPerform, hopen]
      exact habandoned none
    | true =>
      simp only [sysPerform, hopen, Disk.remove, and_self, if_true]
      have hblocks := @always_writeBlocks env (Safe env T)
        { d with candidateTmp := some ⟨[], false⟩ } [] (readArtifact reader artifactLen).1
        (fun stored => (habandoned (some stored)).toWorking.safe) rfl
      refine hblocks.bind ?_
      rintro written d₁ ⟨stored, rfl, hwritten⟩
      cases written with
      | false => exact hexit (some stored) _
      | true =>
        obtain rfl := hwritten rfl
        cases hrest : (readArtifact reader artifactLen).2 with
        | none =>
          rw [hrest] at hexit
          exact hexit _ _
        | some reader' =>
          have hcommit := @always_commitCandidate env (Safe env T)
            { d with candidateTmp := some ⟨T.artifact, false⟩ } T.artifact T.sha256
            artifactLen rfl (fun tmp => (habandoned tmp).toWorking.safe)
            (Working.safe (h.of_eq rfl rfl rfl)) (Working.safe (h.of_eq rfl rfl rfl))
          have hcomplete : T.complete = true := by rw [hT, hrest, Option.isSome_some]
          rw [List.nil_append, ← hartifact, ← hsha, ← hjson]
          refine hcommit.bind ?_
          rintro (error | _) d₂ hd₂
          · rcases hd₂ with rfl | rfl
            · exact habandoned none
            · exact ⟨h.of_eq rfl rfl rfl, .inr rfl, hpending⟩
          · obtain ⟨hhash, rfl⟩ := hd₂
            have hwrite := @always_writeTransaction env T
              { d with candidateTmp := none, candidate := some ⟨T.artifact, true⟩ }
              (h.of_eq rfl rfl rfl) rfl hpending hcomplete hhash
            refine hwrite.bind ?_
            rintro (error | _) d₃ hd₃
            · exact hd₃
            · exact ⟨hd₃.1, hd₃.2, rfl⟩

/-! ### The lock -/

theorem Untouched.safe (h : Untouched T d) : Safe env T d where
  written hw := by simp [h.statusWritten] at hw
  status _ := .inl h.status
  free := .inl h

theorem Untouched.outstanding (h : Untouched T d) : d.outstanding = T.before.outstanding := by
  rw [Disk.outstanding, Disk.outstanding, h.pending, h.status]

theorem always_updateTransactionOutstanding (h : Untouched T d) :
    (device env).Always (fun _ => Safe env T)
      (fun r d' => Untouched T d' ∧ (r = false → d'.pending = none ∧
        (T.before.outstanding = false ∨ d'.misread = true)))
      updateTransactionOutstanding d := by
  refine always_call_bind h.safe fun _ => ?_
  cases hpending : d.pending with
  | some stored =>
    simp only [sysPerform, hpending, Option.isSome_some, if_true]
    exact ⟨h, by simp⟩
  | none =>
    simp only [sysPerform, hpending, Option.isSome_none]
    refine always_call_bind h.safe fun o => ?_
    cases hstatus : d.status with
    | none =>
      have hfree : d.outstanding = false := by simp [Disk.outstanding, hpending, hstatus]
      simp only [sysPerform, hstatus]
      exact ⟨h, fun _ => ⟨hpending, .inl (h.outstanding ▸ hfree)⟩⟩
    | some stored =>
      cases hread : o.ok with
      | false =>
        simp only [sysPerform, hstatus, hread]
        exact ⟨⟨h.candidate, h.pending, hstatus.symm.trans h.status, h.statusWritten⟩,
          fun _ => ⟨hpending, .inr rfl⟩⟩
      | true =>
        simp only [sysPerform, hstatus, hread, if_true]
        cases hphase : stored.content.status with
        | none => exact ⟨h, by simp⟩
        | some phase =>
          refine ⟨h, fun hfinal => ⟨hpending, .inl ?_⟩⟩
          rw [← h.outstanding, Disk.outstanding, hpending, hstatus]
          simpa only [hphase, Option.isSome_none, Bool.false_or] using hfinal

/-- How `acquire_update_transaction_lock` ends. -/
def LockTaken (T : Target) : UpdateLockResult → Disk → Prop
  | .acquired, d => Working T d ∧ d.candidate = T.before.candidate ∧ d.pending = none
  | .busy, d => Untouched T d
  | .error _, d => Untouched T d ∧ d.held = false

/-- **`acquire_update_transaction_lock`**: no transaction is outstanding, unless `status.json`
could not be read. -/
theorem always_acquireUpdateTransactionLock (h : Untouched T d) (hheld : d.held = false) :
    (device env).Always (fun _ => Safe env T) (LockTaken T) acquireUpdateTransactionLock d := by
  refine always_call_bind h.safe fun o => ?_
  cases hdirs : o.ok with
  | false =>
    simp only [sysPerform, hdirs]
    exact ⟨h, hheld⟩
  | true =>
    simp only [sysPerform, hdirs, if_true]
    refine always_call_bind h.safe fun o => ?_
    cases hopen : o.ok with
    | false =>
      simp only [sysPerform, hopen]
      exact ⟨h, hheld⟩
    | true =>
      simp only [sysPerform, hopen]
      refine always_call_bind h.safe fun o => ?_
      cases o with
      | wouldBlock => exact h
      | failure written torn => exact ⟨h, hheld⟩
      | success =>
        have hlocked : Untouched T { d with held := true } :=
          ⟨h.candidate, h.pending, h.status, h.statusWritten⟩
        refine (always_updateTransactionOutstanding hlocked).bind ?_
        rintro outstanding d₁ ⟨hd₁, hfree⟩
        cases outstanding with
        | true => exact always_call_bind hd₁.safe fun _ => hd₁
        | false =>
          obtain ⟨hpending, hfree⟩ := hfree rfl
          exact ⟨⟨hd₁.statusWritten, .inl hd₁.status, hfree⟩, hd₁.candidate, hpending⟩

/-! ### The request -/

/-- A file is as it was, or it is not there. -/
structure Kept (T : Target) (d : Disk) : Prop where
  candidate : d.candidate = T.before.candidate ∨ d.candidate = none
  pending : d.pending = T.before.pending ∨ d.pending = none
  status : d.status = T.before.status ∨ d.status = none

/-- How a request ends. -/
def RequestEnds (env : Env) (T : Target) : Response → Disk → Prop
  | .ok _, d => Safe env T d ∧ d.statusWritten = true
  | .error error, d => Safe env T d ∧ Kept T d ∧
      (d.held = true → error ≠ inProgress → d.pending = none)

/-- **A request that may be staged.** -/
theorem always_stageUpdate {update : AcceptedUpdate} (h : Untouched T d) (hheld : d.held = false)
    (hT : T = ⟨T.before, (readArtifact update.reader update.artifactLen).1.flatten,
      (readArtifact update.reader update.artifactLen).2.isSome, update.manifest.artifactSha256,
      pendingJson env update.manifest⟩)
    (hframe : ∀ reader, (readArtifact update.reader update.artifactLen).2 = some reader →
      reader.contentRemaining = 0) :
    (device env).Always (fun _ => Safe env T) (RequestEnds env T) (stageUpdate env update) d := by
  refine (always_acquireUpdateTransactionLock h hheld).bind ?_
  rintro (_ | _ | error) d₁ hd₁
  · obtain ⟨hworking, hcandidate, hpending⟩ := hd₁
    refine (always_stageUpdateCandidate hT hworking hcandidate hpending).bind ?_
    rintro (error | reader) d₂ hd₂
    · have hd₂ : Abandoned T d₂ := hd₂
      refine always_call_bind hd₂.toWorking.safe fun _ => ?_
      exact ⟨hd₂.toWorking.safe, ⟨hd₂.candidate, .inr hd₂.pending, hd₂.toWorking.status⟩,
        fun _ _ => hd₂.pending⟩
    · obtain ⟨hsafe, hwritten, hreader⟩ := hd₂
      refine always_call_bind hsafe fun _ => ?_
      change RequestEnds env T (finishUpload reader update.manifest.version) d₂
      rw [finishUpload, if_neg (not_not.mpr (hframe reader hreader))]
      exact ⟨hsafe, hwritten⟩
  · have hd₁ : Untouched T d₁ := hd₁
    exact ⟨hd₁.safe, ⟨.inl hd₁.candidate, .inl hd₁.pending, .inl hd₁.status⟩,
      fun _ hne => absurd rfl hne⟩
  · obtain ⟨hd₁, hheld₁⟩ := hd₁
    refine ⟨hd₁.safe, ⟨.inl hd₁.candidate, .inl hd₁.pending, .inl hd₁.status⟩, fun hheld' => ?_⟩
    rw [hheld₁] at hheld'
    simp at hheld'

end Stage

/-! ### Every request -/

section Requests

variable {env : Env} {req : HttpRequest} {prefetched : Bytes} {socket : List (Event UInt8)}

variable {update : AcceptedUpdate} {d : Disk} {s : Prog Response}

theorem of_acceptUpdate (h : acceptUpdate env req prefetched socket = .ok update) :
    ∃ frame, receiveFrame req prefetched socket = .ok frame ∧
      env.checkSignature frame.signature frame.manifestRaw = true ∧
      parseManifestV1 frame.manifestRaw = some update.manifest ∧
      update.manifest.artifactSize = frame.artifactLen ∧
      rejectsVersion update.manifest.version env.agentVersion.text = false ∧
      update.artifactLen = frame.artifactLen ∧ update.reader = frame.reader := by
  unfold acceptUpdate at h
  cases hframe : receiveFrame req prefetched socket with
  | error error =>
    rw [hframe] at h
    simp at h
  | ok frame =>
    simp only [hframe] at h
    obtain ⟨hsignature, h⟩ := ite_error_eq_ok.mp h
    cases hmanifest : parseManifestV1 frame.manifestRaw with
    | none =>
      rw [hmanifest] at h
      simp at h
    | some manifest =>
      simp only [hmanifest, ite_error_eq_ok] at h
      obtain ⟨hsize, hversion, h⟩ := h
      cases h
      exact ⟨frame, rfl, Bool.not_eq_false _ ▸ hsignature, hmanifest, not_not.mp hsize,
        Bool.eq_false_iff.mpr hversion, rfl, rfl⟩

/-- An artifact with a manifest that allows it: both stand in the body. -/
structure Checked (env : Env) (body : Bytes) (manifest : OtaManifest) (artifact : Bytes) :
    Prop where
  signed : ∃ manifestRaw signature rest, signature.length = otaSigLen ∧
    body = frameHeader manifestRaw.length otaSigLen artifact.length ++
      (manifestRaw ++ (signature ++ (artifact ++ rest))) ∧
    env.checkSignature signature manifestRaw = true ∧ parseManifestV1 manifestRaw = some manifest
  sha256 : env.sha256 artifact = manifest.artifactSha256
  size : artifact.length = manifest.artifactSize
  newer : ∃ v : Version, v.text = manifest.version ∧ 0 < v.precedence env.agentVersion

theorem checked_of_acceptUpdate {reader : BodyReader}
    (h : acceptUpdate env req prefetched socket = .ok update)
    (hread : (readArtifact update.reader update.artifactLen).2 = some reader)
    (hsha : env.sha256 (readArtifact update.reader update.artifactLen).1.flatten =
      update.manifest.artifactSha256) :
    Checked env (prefetched ++ delivered socket) update.manifest
      (readArtifact update.reader update.artifactLen).1.flatten := by
  obtain ⟨frame, hframe, hsignature, hmanifest, hsize, hversion, hlen, hreader⟩ :=
    of_acceptUpdate h
  obtain ⟨n, -, -, hsiglen, hbody, -⟩ := receiveFrame_eq_ok hframe
  have hspec := readArtifact_spec update.reader update.artifactLen
  rw [hread] at hspec
  obtain ⟨hlength, happend, -⟩ := hspec
  refine ⟨⟨frame.manifestRaw, frame.signature, reader.stream, hsiglen, ?_, hsignature,
    hmanifest⟩, hsha, ?_, ?_⟩
  · rw [hbody, happend, hlength, hlen, hreader]
  · rw [hlength, hsize, hlen]
  · obtain ⟨v, hv⟩ := parseSemverStrict_iff.mp (of_parseManifestV1 hmanifest).version
    refine ⟨v, hv, Version.precedence_pos_of_compareSemver ?_⟩
    rw [hv]
    simpa [rejectsVersion] using hversion

/-- A request starts with nothing to record. -/
structure Disk.Fresh (d : Disk) : Prop where
  held : d.held = false
  misread : d.misread = false
  statusWritten : d.statusWritten = false

theorem Stored.Survives.same {α : Type} {before before₀ after : Option (Stored α)}
    (h : Stored.Survives before after) (hbefore : before = before₀)
    (hsynced : ∀ stored ∈ before₀, stored.synced = true) : after = before₀ := by
  subst hbefore
  cases before with
  | none => exact h
  | some stored =>
    obtain ⟨stored', rfl, hsame⟩ := h
    rw [hsame (hsynced stored rfl)]

/-- What an accepted request is about. -/
def target (env : Env) (d₀ : Disk) (update : AcceptedUpdate) : Target where
  before := d₀
  artifact := (readArtifact update.reader update.artifactLen).1.flatten
  complete := (readArtifact update.reader update.artifactLen).2.isSome
  sha256 := update.manifest.artifactSha256
  json := pendingJson env update.manifest

theorem always_of_reaches {d₀ : Disk} (hfresh : d₀.Fresh)
    (haccept : acceptUpdate env req prefetched socket = .ok update)
    (hrun : (device env).Reaches (stageUpdate env update, d₀) (s, d)) :
    (device env).Always (fun _ => Safe env (target env d₀ update))
      (RequestEnds env (target env d₀ update)) s d := by
  obtain ⟨frame, hframe, -, -, -, -, hlen, hreader⟩ := of_acceptUpdate haccept
  refine hrun.always (always_stageUpdate ⟨rfl, rfl, rfl, hfresh.statusWritten⟩ hfresh.held rfl ?_)
  intro reader hread
  rw [hreader, hlen] at hread
  exact contentRemaining_eq_zero hframe hread

theorem RequestEnds.safe {T : Target} {r : Response} (h : RequestEnds env T r d) :
    Safe env T d := by
  cases r with
  | error | ok => exact h.1

theorem safe_of_always {T : Target}
    (h : (device env).Always (fun _ => Safe env T) (RequestEnds env T) s d) : Safe env T d := by
  cases s with
  | done r => exact RequestEnds.safe h
  | run c next => exact h.1

/-- **Staging is all or nothing.** At every point of a request, with any results of its system
calls: if the request has written `status.json`, the flash holds what it says, also after a power
cut; otherwise `status.json` is as it was or absent. At the end, an answer other than 202 leaves
each file as it was or absent. -/
theorem staging_all_or_nothing {d₀ d : Disk} {s : Prog Response} (hfresh : d₀.Fresh)
    (hrun : (device env).Reaches (handleUpdatePost env req prefetched socket, d₀) (s, d)) :
    (d.statusWritten = true → ∃ manifest artifact,
      Checked env (prefetched ++ delivered socket) manifest artifact ∧
      (d.misread = false → d₀.outstanding = false) ∧
      ∀ d', PowerCut d d' → d'.candidate = some ⟨artifact, true⟩ ∧
        d'.pending = some ⟨pendingJson env manifest, true⟩ ∧
        d'.status = some ⟨pendingJson env manifest, true⟩) ∧
    (d.statusWritten = false → d.status = d₀.status ∨ d.status = none) ∧
    (∀ version, s = .done (.ok version) → d.statusWritten = true) ∧
    (∀ error, s = .done (.error error) →
      (d.candidate = d₀.candidate ∨ d.candidate = none) ∧
      (d.pending = d₀.pending ∨ d.pending = none) ∧
      (d.status = d₀.status ∨ d.status = none) ∧
      (d.held = true → error ≠ inProgress → d.pending = none)) := by
  unfold handleUpdatePost at hrun
  cases haccept : acceptUpdate env req prefetched socket with
  | error error =>
    rw [haccept] at hrun
    obtain ⟨rfl, rfl⟩ := Prod.mk.inj (Device.reaches_done hrun)
    simp [hfresh.statusWritten, hfresh.held]
  | ok update =>
    rw [haccept] at hrun
    have halways := always_of_reaches hfresh haccept hrun
    have hsafe := safe_of_always halways
    refine ⟨fun hwritten => ?_, hsafe.status, ?_, ?_⟩
    · obtain ⟨hcandidate, hpending, hstatus, hcomplete, hsha⟩ := hsafe.written hwritten
      obtain ⟨reader, hread⟩ := Option.isSome_iff_exists.mp hcomplete
      refine ⟨update.manifest, _, checked_of_acceptUpdate haccept hread hsha, fun hmisread => ?_,
        fun d' hcut => ?_⟩
      · rcases hsafe.free with huntouched | hfree | hmiss
        · rw [huntouched.statusWritten] at hwritten
          simp at hwritten
        · exact hfree
        · rw [hmisread] at hmiss
          simp at hmiss
      · exact ⟨hcut.candidate.same hcandidate (by simp), hcut.pending.same hpending (by simp),
          hcut.status.same hstatus (by simp)⟩
    · rintro version rfl
      exact halways.2
    · rintro error rfl
      obtain ⟨-, hkept, hheld⟩ := halways
      exact ⟨hkept.candidate, hkept.pending, hkept.status, hheld⟩

/-- Version 1.`minor`.0. -/
def minorVersion (minor : List Char) (h : IsNumeral minor) : Version :=
  ⟨['1'], minor, ['0'], [], [], isNumeral_one, h, isNumeral_zero, isPre_nil, isBuild_nil⟩

/-- Versions 1.0.0, 1.1.0 and 1.2.0. -/
def v0 : Version := minorVersion ['0'] isNumeral_zero
def v1 : Version := minorVersion ['1'] isNumeral_one
def v2 : Version := minorVersion ['2'] (by decide)

/-- An agent for which every signature is valid and every hash is zero. -/
def sampleEnv (v : Version) : Env where
  agentVersion := v
  checkSignature _ _ := true
  sha256 _ := List.replicate 64 '0'

/-- The manifest of a version. -/
def sampleManifest (v : Version) : Bytes :=
  ("\x7b\"schema_version\":1,".toList ++ "\"product\":\"plaf203-state-agent\",".toList ++
    "\"channel\":\"stable\",".toList ++ "\"platform\":\"linux-armv7-eabihf\",".toList ++
    "\"api_version\":1,".toList ++ "\"update_api_version\":1,".toList ++
    "\"version\":\"".toList ++ v.text ++ "\",".toList ++
    "\"artifact\":\x7b\"url\":\"https://h/a\",".toList ++ "\"sha256\":\"".toList ++
    List.replicate 64 '0' ++ "\",\"size\":52\x7d,".toList ++
    "\"release_url\":\"https://h/\"\x7d".toList).map fun c => UInt8.ofNat c.toNat

/-- The shortest artifact: an ELF header. -/
def sampleArtifact : Bytes :=
  [0x7f, 0x45, 0x4c, 0x46, 1, 1] ++ List.replicate 10 0 ++ [2, 0, 40, 0] ++ List.replicate 32 0

/-- The body of a request. -/
def sampleBody (v : Version) : Bytes :=
  frameHeader (sampleManifest v).length otaSigLen sampleArtifact.length ++
    (sampleManifest v ++ (List.replicate 64 0 ++ sampleArtifact))

/-- The request. -/
def sampleRequest (v : Version) : HttpRequest :=
  ⟨false, some (sampleBody v).length, "application/octet-stream".toList⟩

/-- The flash with a `status.json` only. -/
def withStatus (status : Option (Stored Metadata)) : Disk :=
  ⟨none, none, none, none, none, status, false, false, false⟩

/-- The run of the agent of version `v` with an update to `v'` in which the read of `status.json`
goes as given, and all else succeeds. -/
def sampleRun (v v' : Version) (read : SysOutcome) (d : Disk) : Prog Response × Disk :=
  (device (sampleEnv v)).exec
    (handleUpdatePost (sampleEnv v) (sampleRequest v') [] [.data (sampleBody v')])
    ([.success, .success, .success, .success, read] ++ List.replicate 30 .success) d

theorem reaches_exec_any {α : Type} (env : Env) (s : Prog α) (os : List SysOutcome) (d : Disk) :
    (device env).Reaches (s, d) (((device env).exec s os d).1, ((device env).exec s os d).2) :=
  Device.reaches_exec (Device.allows_of_forall s os d fun _ _ _ _ => trivial)

theorem reaches_sampleRun (v v' : Version) (read : SysOutcome) (d : Disk) :
    (device (sampleEnv v)).Reaches
      (handleUpdatePost (sampleEnv v) (sampleRequest v') [] [.data (sampleBody v')], d)
      ((sampleRun v v' read d).1, (sampleRun v v' read d).2) := by
  unfold sampleRun
  exact reaches_exec_any (sampleEnv v) _ _ d

/-- A first update is staged, and stays on the flash. -/
theorem staging_all_or_nothing_firstUpdate :
    ∃ manifest artifact, Checked (sampleEnv v0) (sampleBody v1) manifest artifact ∧
      ∀ d', PowerCut (sampleRun v0 v1 .success (withStatus none)).2 d' →
        d'.candidate = some ⟨artifact, true⟩ := by
  have hwritten : (sampleRun v0 v1 .success (withStatus none)).2.statusWritten = true := by
    decide +kernel
  have hbody : [] ++ delivered [.data (sampleBody v1)] = sampleBody v1 := by
    have hne : sampleBody v1 ≠ [] := by
      intro hnil
      have hlength := congrArg List.length hnil
      rw [sampleBody, List.length_append, length_frameHeader] at hlength
      simp at hlength
    rw [delivered_data hne, delivered, List.append_nil, List.nil_append]
  have hfresh : (withStatus none).Fresh := ⟨rfl, rfl, rfl⟩
  obtain ⟨manifest, artifact, hchecked, -, hcut⟩ :=
    (staging_all_or_nothing hfresh (reaches_sampleRun v0 v1 .success (withStatus none))).1
      hwritten
  rw [hbody] at hchecked
  exact ⟨manifest, artifact, hchecked, fun d' h => (hcut d' h).1⟩

/-- **A transaction is overwritten**: `status.json` says that a candidate was confirmed, and its
transaction is not finished. The read of `status.json` fails, and another update is staged. -/
theorem unread_status_overwritten :
    ∃ (d₀ : Disk) (x : Prog Response × Disk), d₀.Fresh ∧
      d₀.status = some ⟨⟨some .probationConfirmed, some .healthAndVersionConfirmed, "1.0.0",
        "0.9.0"⟩, true⟩ ∧ d₀.outstanding = true ∧
      (device (sampleEnv v0)).Reaches
        (handleUpdatePost (sampleEnv v0) (sampleRequest v1) [] [.data (sampleBody v1)], d₀) x ∧
      x.2.statusWritten = true := by
  refine ⟨withStatus _, _, ⟨rfl, rfl, rfl⟩, rfl, by decide,
    reaches_sampleRun v0 v1 (.failure 0 emptyJson) _, ?_⟩
  decide +kernel

/-! ### Uploads, for the supervisor -/

/-- The files as the supervisor sees them. -/
structure Disk.Shows (d : Disk) (w : Supervisor.Feeder Bytes) : Prop where
  candidate : w.candidate = d.candidate.map (·.content)
  pending : w.pending = d.pending.map (·.content)
  status : w.status = d.status.map (·.content)

/-- All that is there is on the flash. -/
structure Disk.Synced (d : Disk) : Prop where
  candidate : ∀ stored ∈ d.candidate, stored.synced = true
  pending : ∀ stored ∈ d.pending, stored.synced = true
  status : ∀ stored ∈ d.status, stored.synced = true

theorem Disk.Shows.outstanding {w : Supervisor.Feeder Bytes} (h : d.Shows w) :
    w.outstanding = d.outstanding := by
  rw [Supervisor.Feeder.outstanding, Disk.outstanding, h.pending, h.status]
  cases d.pending <;> cases d.status <;> rfl

/-- **A request is an upload for the supervisor**: what a power cut or the end of the request
leaves is what was there, or an upload that was staged or cut off. -/
theorem upload_of_reaches {d₀ d' : Disk} {w : Supervisor.Feeder Bytes} (hfresh : d₀.Fresh)
    (hsynced : d₀.Synced) (hshows : d₀.Shows w)
    (hrun : (device env).Reaches (handleUpdatePost env req prefetched socket, d₀) (s, d))
    (hread : d.misread = false) (hcut : PowerCut d d') :
    ∃ w', (w' = w ∨ Supervisor.Upload w w') ∧ d'.Shows w' := by
  unfold handleUpdatePost at hrun
  -- If nothing has changed, the power cut changes nothing.
  have huntouched : ∀ T : Target, T.before = d₀ → Untouched T d → d'.Shows w := by
    intro T hT h
    obtain ⟨hcandidate, hpending, hstatus, -⟩ := h
    rw [hT] at hcandidate hpending hstatus
    refine ⟨?_, ?_, ?_⟩
    · rw [hcut.candidate.same hcandidate hsynced.candidate, hshows.candidate]
    · rw [hcut.pending.same hpending hsynced.pending, hshows.pending]
    · rw [hcut.status.same hstatus hsynced.status, hshows.status]
  cases haccept : acceptUpdate env req prefetched socket with
  | error error =>
    rw [haccept] at hrun
    obtain ⟨rfl, rfl⟩ := Prod.mk.inj (Device.reaches_done hrun)
    exact ⟨w, .inl rfl, huntouched ⟨d, [], false, [], emptyJson⟩ rfl
      ⟨rfl, rfl, rfl, hfresh.statusWritten⟩⟩
  | ok update =>
    rw [haccept] at hrun
    have hsafe := safe_of_always (always_of_reaches hfresh haccept hrun)
    rcases hsafe.free with h | hfree | hmiss
    · exact ⟨w, .inl rfl, huntouched _ rfl h⟩
    · have hfree : w.outstanding = false := hshows.outstanding.trans hfree
      cases hwritten : d.statusWritten with
      | true =>
        obtain ⟨hcandidate, hpending, hstatus, -, -⟩ := hsafe.written hwritten
        refine ⟨_, .inr (.staged w hfree (target env d₀ update).artifact
          (String.ofList update.manifest.version) (String.ofList env.agentVersion.text)), ?_⟩
        refine ⟨?_, ?_, ?_⟩
        · rw [hcut.candidate.same hcandidate (by simp)]
          rfl
        · rw [hcut.pending.same hpending (by simp)]
          rfl
        · rw [hcut.status.same hstatus (by simp)]
          rfl
      | false =>
        have hstatus : d'.status.map (·.content) = w.status ∨
            d'.status.map (·.content) = none := by
          rcases hsafe.status hwritten with h | h
          · left
            rw [hcut.status.same h hsynced.status, hshows.status]
            rfl
          · right
            rw [hcut.status.same h (by simp)]
            rfl
        exact ⟨_, .inr (.cut w hfree (d'.candidate.map (·.content))
          (d'.pending.map (·.content)) _ hstatus), ⟨rfl, rfl, rfl⟩⟩
    · rw [hread] at hmiss
      simp at hmiss

end Requests

theorem PowerCut.refl (d : Disk) : PowerCut d d := by
  have hsurvives : ∀ {α : Type} (o : Option (Stored α)), Stored.Survives o o := by
    rintro α (_ | stored)
    · exact rfl
    · exact ⟨stored, rfl, fun _ => rfl⟩
  exact ⟨hsurvives _, hsurvives _, hsurvives _⟩

/-- A first update, up to its end. -/
theorem upload_of_reaches_firstUpdate :
    ∃ w w', (withStatus none).Shows w ∧ (w' = w ∨ Supervisor.Upload w w') ∧
      (sampleRun v0 v1 .success (withStatus none)).2.Shows w' := by
  have hshows : (withStatus none).Shows ⟨[], none, none, none, none, none, [], [], "", false, []⟩ :=
    ⟨rfl, rfl, rfl⟩
  have hsynced : (withStatus none).Synced := by constructor <;> simp [withStatus]
  obtain ⟨w', h⟩ := upload_of_reaches ⟨rfl, rfl, rfl⟩ hsynced hshows
    (reaches_sampleRun v0 v1 .success (withStatus none)) (by decide +kernel) (PowerCut.refl _)
  exact ⟨_, w', hshows, h⟩

/-! ### Chains of updates -/

/-- An agent stages an update to another version. -/
def Upgrades (v v' : Version) : Prop :=
  ∃ env req prefetched socket s d₀ d, env.agentVersion = v ∧ d₀.Fresh ∧
    (device env).Reaches (handleUpdatePost env req prefetched socket, d₀) (s, d) ∧
    d.statusWritten = true ∧
    d.pending.map (·.content.candidateVersion) = some (String.ofList v'.text)

theorem Upgrades.key_lt {v v' : Version} (h : Upgrades v v') : v.key < v'.key := by
  obtain ⟨env, req, prefetched, socket, s, d₀, d, rfl, hfresh, hrun, hwritten, hversion⟩ := h
  unfold handleUpdatePost at hrun
  cases haccept : acceptUpdate env req prefetched socket with
  | error error =>
    rw [haccept] at hrun
    obtain ⟨rfl, rfl⟩ := Prod.mk.inj (Device.reaches_done hrun)
    simp [hfresh.statusWritten] at hwritten
  | ok update =>
    rw [haccept] at hrun
    have hsafe := safe_of_always (always_of_reaches hfresh haccept hrun)
    obtain ⟨-, hpending, -, hcomplete, hsha⟩ := hsafe.written hwritten
    obtain ⟨reader, hread⟩ := Option.isSome_iff_exists.mp hcomplete
    obtain ⟨v, hv, hnewer⟩ := (checked_of_acceptUpdate haccept hread hsha).newer
    rw [hpending] at hversion
    have htext := String.ofList_injective (Option.some.inj hversion)
    obtain rfl := Version.text_injective (hv.trans htext)
    exact threeWay_pos.mp hnewer

/-- **Updates only go up**: however many updates are staged one after the other, each by the agent
of the version before, no version comes back, and none that precedes it. -/
theorem upgrades_increase {v v' : Version} (h : Relation.TransGen Upgrades v v') :
    v.key < v'.key := by
  induction h with
  | single h => exact h.key_lt
  | tail _ h ih => exact ih.trans h.key_lt

/-- From 1.0.0 over 1.1.0 to 1.2.0. -/
theorem upgrades_increase_sample : v0.key < v2.key := by
  have hfirst : Upgrades v0 v1 := ⟨sampleEnv v0, sampleRequest v1, [], [.data (sampleBody v1)], _,
    withStatus none, _, rfl, ⟨rfl, rfl, rfl⟩, reaches_sampleRun v0 v1 .success _,
    by decide +kernel, by decide +kernel⟩
  have hsecond : Upgrades v1 v2 := ⟨sampleEnv v1, sampleRequest v2, [], [.data (sampleBody v2)], _,
    withStatus none, _, rfl, ⟨rfl, rfl, rfl⟩, reaches_sampleRun v1 v2 .success _,
    by decide +kernel, by decide +kernel⟩
  exact upgrades_increase (.tail (.single hfirst) hsecond)

end PetlibroLocal.Agent
