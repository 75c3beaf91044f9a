import PetlibroLocal.Lib.Checked
import PetlibroLocal.Lib.Json
import PetlibroLocal.Updates.Semver

/-!
# Following an Update

`StateAgentUpdateCoordinator` looks for new releases, installs them on request, and asks the feeder
for the status of an installation until it is over (`state_agent_updates.py`). The work is done by
jobs of an executor, one at a time; their results come back as callbacks. What Home Assistant shows
is the last payload that was published.

The system takes one callback after the other: requests, timers that are armed, and the results of
jobs that are outstanding. A job gets arbitrary answers from the release server and the feeder. It
runs somewhere between its submission and its callback; what it reads of the coordinator only
changes with the result of a job. Clock readings are counted in milliseconds. The handles of the
timers are left out: only `stop` reads them.

The main results are `World.Inv.step`, `World.Inv.not_followed_of_unwatched`, `polls_bounded` and
`installing_is_followed`.
-/

namespace PetlibroLocal.Updates

open List

/-! ### Snapshots -/

/-- `StateAgentUpdateOptions`, as far as the coordinator reads it. -/
structure StateAgentUpdateOptions where
  enabled : Bool
  checkOnConnect : Bool
  checkIntervalHours : ℕ

/-- `StateAgentUpdateStatus`. -/
structure StateAgentUpdateStatus where
  status : String
  reason : String
  candidateVersion : Option String
  previousVersion : Option String

namespace StateAgentUpdateStatus

/-- `in_progress`. -/
def inProgress (s : StateAgentUpdateStatus) : Bool :=
  ["pending", "activating", "candidate_active", "probation_confirmed",
    "rollback_in_progress"].contains s.status

/-- `last_error`. -/
def lastError (s : StateAgentUpdateStatus) : String :=
  if ["failed", "rolled_back"].contains s.status then s.reason else ""

end StateAgentUpdateStatus

/-- `UpdateStateSnapshot`. -/
structure UpdateStateSnapshot where
  installedVersion : String
  latestVersion : String
  releaseUrl : String
  inProgress : Bool
  lastError : String

/-- `to_payload`. -/
def UpdateStateSnapshot.toPayload (s : UpdateStateSnapshot) : Json :=
  .obj ([("installed_version", .str s.installedVersion), ("latest_version", .str s.latestVersion),
    ("in_progress", .bool s.inProgress)] ++
    (if s.releaseUrl = "" then [] else [("release_url", .str s.releaseUrl)]) ++
    if s.lastError = "" then [] else [("last_error", .str s.lastError)])

/-- Whether a payload shows an installation. -/
def showsInProgress : Json → Bool
  | .obj fields =>
    match fields.lookup "in_progress" with
    | some (.bool b) => b
    | _ => false
  | _ => false

@[simp] theorem showsInProgress_toPayload (s : UpdateStateSnapshot) :
    showsInProgress s.toPayload = s.inProgress := by
  simp [showsInProgress, UpdateStateSnapshot.toPayload, lookup_cons]

/-! ### The jobs -/

/-- What a job raises: an error of the client of the state agent, or another one. -/
inductive WorkerError
  | stateAgentError
  | other

/-- What the coordinator reads of a verified release. -/
structure ReleaseBundle where
  version : String
  releaseUrl : String

/-- The answers to a job: of the release server, and of the feeder. -/
structure Replies where
  fetchVerifiedReleaseBundle : Except WorkerError ReleaseBundle
  version : Except WorkerError String
  updateStatus : Except WorkerError StateAgentUpdateStatus
  /-- `download_verified_artifact` and `build_update_frame`. -/
  frame : Except WorkerError Bytes
  submitUpdate : Bytes → Except WorkerError StateAgentUpdateStatus

/-- `compare_semver`. -/
def compareVersions (left right : String) : Except WorkerError ℤ :=
  match compareSemver left.toList right.toList with
  | .ok compared => .ok compared
  | .error _ => .error .other

namespace Replies

variable (r : Replies)

/-- `_safe_update_status`. -/
def safeUpdateStatus : Except WorkerError StateAgentUpdateStatus :=
  match r.updateStatus with
  | .error .stateAgentError => .ok ⟨"idle", "none", none, none⟩
  | status => status

/-- `_check_for_updates`. -/
def checkForUpdates : Except WorkerError UpdateStateSnapshot := do
  let bundle ← r.fetchVerifiedReleaseBundle
  let installedVersion ← r.version
  let status ← r.safeUpdateStatus
  let updateAvailable := decide ((← compareVersions bundle.version installedVersion) > 0)
  pure {
    installedVersion := installedVersion
    latestVersion := if updateAvailable then bundle.version else installedVersion
    releaseUrl := if updateAvailable then bundle.releaseUrl else ""
    inProgress := status.inProgress
    lastError := status.lastError }

/-- `_install_latest`. -/
def installLatest : Except WorkerError UpdateStateSnapshot := do
  let bundle ← r.fetchVerifiedReleaseBundle
  let installedVersion ← r.version
  if (← compareVersions bundle.version installedVersion) ≤ 0 then
    let status ← r.safeUpdateStatus
    pure ⟨installedVersion, installedVersion, "", status.inProgress, status.lastError⟩
  else
    let frame ← r.frame
    let submitResult ← r.submitUpdate frame
    if submitResult.status != "pending" then .error .stateAgentError
    else pure ⟨installedVersion, bundle.version, bundle.releaseUrl, true, ""⟩

/-- `_poll_feeder_update_status`. -/
def pollFeederUpdateStatus (latestState : UpdateStateSnapshot) :
    Except WorkerError UpdateStateSnapshot := do
  let status ← r.updateStatus
  let installedVersion ←
    if status.inProgress then pure latestState.installedVersion else r.version
  pure ⟨installedVersion, latestState.latestVersion, latestState.releaseUrl, status.inProgress,
    status.lastError⟩

end Replies

/-- The jobs, by their callbacks. -/
inductive Job
  | check
  | install
  | poll
  deriving DecidableEq

/-- What happens to a job: it runs, or the executor passes on something else than its result. -/
inductive Outcome
  | ran (replies : Replies)
  | unexpected

/-- What a callback gets. -/
inductive JobResult
  | snapshot (s : UpdateStateSnapshot)
  | exception
  | unexpected

/-- The result of a job. -/
def Job.result (job : Job) (latestState : UpdateStateSnapshot) : Outcome → JobResult
  | .unexpected => .unexpected
  | .ran replies =>
    let worker := match job with
      | check => replies.checkForUpdates
      | install => replies.installLatest
      | poll => replies.pollFeederUpdateStatus latestState
    match worker with
    | .ok s => .snapshot s
    | .error _ => .exception

/-! ### The coordinator -/

/-- The coordinator, with the timers that are armed, the jobs that are outstanding and what has
been published, the newest first. -/
structure World where
  statusPollAttempts : ℕ
  busy : Bool
  lastCheckMonotonic : ℤ
  latestState : UpdateStateSnapshot
  checkTimers : ℕ
  statusTimers : ℕ
  jobs : List Job
  published : List Json

/-- Why a check is requested. -/
inductive Reason
  | connect
  | haBirth
  | periodic
  | manual
  deriving DecidableEq

namespace World

/-- `__init__`. -/
def created : World := ⟨0, false, 0, ⟨"unknown", "unknown", "", false, ""⟩, 0, 0, [], []⟩

variable (o : StateAgentUpdateOptions) (s : World)

/-- `_publish_state`. -/
def publishState : World := { s with published := s.latestState.toPayload :: s.published }

/-- `submit_to_executor`. -/
def submit (job : Job) : World := { s with jobs := job :: s.jobs }

/-- `_schedule_next_periodic_check`. -/
def scheduleNextPeriodicCheck : World :=
  if !o.enabled then s else { s with checkTimers := s.checkTimers + 1 }

/-- `_schedule_status_poll`. -/
def scheduleStatusPoll : World := { s with statusTimers := s.statusTimers + 1 }

/-- `_minimum_spacing`. -/
def minimumSpacing : Reason → ℤ
  | .connect | .haBirth => min (o.checkIntervalHours * 3600000) 600000
  | .periodic | .manual => o.checkIntervalHours * 3600000

/-- `request_check`. -/
def requestCheck (force : Bool) (reason : Reason) (now : ℤ) : World :=
  if !o.enabled then s
  else if s.busy then s
  else if force = false ∧ now - s.lastCheckMonotonic < minimumSpacing o reason then s
  else submit { s with busy := true } .check

/-- `start`. -/
def start : World :=
  let s := s.publishState
  if !o.enabled then s else s.scheduleNextPeriodicCheck o

/-- `on_usable_connection`. -/
def onUsableConnection (now : ℤ) : World :=
  if !o.enabled || !o.checkOnConnect then s else s.requestCheck o false .connect now

/-- `on_home_assistant_birth`. -/
def onHomeAssistantBirth (now : ℤ) : World :=
  let s := s.publishState
  if o.enabled && o.checkOnConnect then s.requestCheck o false .haBirth now else s

/-- `_set_in_progress`. -/
def setInProgress (inProgress : Bool) : World :=
  publishState { s with latestState := { s.latestState with
    inProgress := inProgress
    lastError := if inProgress then "" else s.latestState.lastError } }

/-- `request_install`. -/
def requestInstall : World :=
  if !o.enabled then s
  else if s.busy then s
  else (setInProgress { s with busy := true } true).submit .install

/-- `_extract_result`: the snapshot, and the coordinator after it. -/
def extractResult : JobResult → Option UpdateStateSnapshot × World
  | .snapshot snapshot => (some snapshot, s)
  | .exception => (none, publishState { s with latestState := { s.latestState with
      inProgress := false
      lastError := "update action failed" } })
  | .unexpected => (none, s)

/-- `_on_check_finished`. -/
def onCheckFinished (result : JobResult) (now : ℤ) : World :=
  match extractResult { s with busy := false } result with
  | (none, s) => s
  | (some snapshot, s) =>
    let s := { s with latestState := snapshot, lastCheckMonotonic := now }
    -- for the log; nothing is published if this raises
    match compareVersions snapshot.latestVersion snapshot.installedVersion with
    | .error _ => s
    | .ok _ => s.publishState

/-- `_on_install_finished`. -/
def onInstallFinished (result : JobResult) (now : ℤ) : World :=
  match extractResult { s with busy := false } result with
  | (none, s) => s.setInProgress false
  | (some snapshot, s) =>
    let s := publishState { s with latestState := snapshot, lastCheckMonotonic := now }
    if snapshot.inProgress then scheduleStatusPoll { s with statusPollAttempts := 0 } else s

/-- `_periodic_check`. -/
def periodicCheck (now : ℤ) : World :=
  let s := s.requestCheck o false .periodic now
  { s with checkTimers := s.checkTimers + 1 }

/-- `_poll_update_status`. -/
def pollUpdateStatus : World :=
  if s.busy then s.scheduleStatusPoll else submit { s with busy := true } .poll

/-- `_continue_status_poll_or_timeout`. -/
def continueStatusPollOrTimeout : World :=
  let s := { s with statusPollAttempts := s.statusPollAttempts + 1 }
  if s.statusPollAttempts < 24 then s.scheduleStatusPoll
  else publishState { s with latestState := { s.latestState with
    inProgress := false
    lastError := "update status timed out" } }

/-- `_on_status_poll_finished`. -/
def onStatusPollFinished (result : JobResult) : World :=
  let s := { s with busy := false }
  match result with
  | .exception => s.continueStatusPollOrTimeout
  | .unexpected => s.continueStatusPollOrTimeout
  | .snapshot snapshot =>
    let s := publishState { s with latestState := snapshot }
    if snapshot.inProgress then s.continueStatusPollOrTimeout
    else { s with statusPollAttempts := 0 }

/-- The callback of a job. -/
def onFinished (job : Job) (result : JobResult) (now : ℤ) : World :=
  match job with
  | .check => s.onCheckFinished result now
  | .install => s.onInstallFinished result now
  | .poll => s.onStatusPollFinished result

/-! ### Runs -/

/-- What calls the coordinator. -/
inductive Event
  | start
  | usableConnection (now : ℤ)
  | homeAssistantBirth (now : ℤ)
  | checkRequest (force : Bool) (reason : Reason) (now : ℤ)
  | installRequest
  | checkTimer (now : ℤ)
  | statusTimer
  | finished (job : Job) (outcome : Outcome) (now : ℤ)

/-- One callback, if it can happen: a timer has to be armed, and a job outstanding. -/
def step? : Event → Option World
  | .start => some (s.start o)
  | .usableConnection now => some (s.onUsableConnection o now)
  | .homeAssistantBirth now => some (s.onHomeAssistantBirth o now)
  | .checkRequest force reason now => some (s.requestCheck o force reason now)
  | .installRequest => some (s.requestInstall o)
  | .checkTimer now =>
    if s.checkTimers = 0 then none
    else some (periodicCheck o { s with checkTimers := s.checkTimers - 1 } now)
  | .statusTimer =>
    if s.statusTimers = 0 then none
    else some (pollUpdateStatus { s with statusTimers := s.statusTimers - 1 })
  | .finished job outcome now =>
    if job ∈ s.jobs then
      some (onFinished { s with jobs := s.jobs.erase job } job
        (job.result s.latestState outcome) now)
    else none

/-- A sequence of callbacks. -/
def run? : List Event → World → Option World
  | [], s => some s
  | e :: es, s => (s.step? o e).bind (run? es)

/-- What Home Assistant shows. -/
def shown : Bool := s.published.head?.any showsInProgress

/-- An installation that is shown is followed: a job is outstanding, or a timer is armed. -/
def Followed : Prop := s.shown = true → s.jobs ≠ [] ∨ 0 < s.statusTimers

/-- The result of a check shows an installation that no timer follows. -/
def Unwatched : Event → Prop
  | .finished .check (.ran replies) _ =>
    ∃ snapshot, replies.checkForUpdates = .ok snapshot ∧ snapshot.inProgress = true ∧
      s.statusTimers = 0
  | _ => False

/-- No check of the run finds an installation that no timer follows. -/
def Watched : List Event → World → Prop
  | [], _ => True
  | e :: es, s => ¬ s.Unwatched e ∧ ∀ s' ∈ s.step? o e, Watched es s'

/-! ### An installation that is shown is followed -/

variable {o s} {s' : World}

theorem compareSemver_self {left right : List Char} {c : ℤ} (h : compareSemver left right = .ok c) :
    ∃ c', compareSemver right right = .ok c' := by
  have hparts : ∀ pre : List (List Char), comparePre (pre.zip pre) = .ok none := by
    intro pre
    induction pre with
    | nil => rfl
    | cons part pre ih =>
      rw [zip_cons_cons, comparePre, if_pos rfl]
      exact ih
  simp only [compareSemver, bind_eq_ok] at h
  obtain ⟨-, -, ⟨core, pre⟩, hright, -⟩ := h
  simp only [compareSemver, hright, bind_eq_ok, Except.ok.injEq, exists_eq_left', ne_eq,
    not_true_eq_false, if_false, comparePrerelease]
  by_cases hpre : pre = []
  · exact ⟨0, by simp [hpre, pure, Except.pure]⟩
  · refine ⟨0, ?_⟩
    simp [hpre, hparts, bind, Except.bind, pure, Except.pure]

theorem compareVersions_of_check {r : Replies} {snapshot : UpdateStateSnapshot}
    (h : r.checkForUpdates = .ok snapshot) :
    ∃ c, compareVersions snapshot.latestVersion snapshot.installedVersion = .ok c := by
  have hok : ∀ {l r : String} {c : ℤ}, compareVersions l r = .ok c ↔
      compareSemver l.toList r.toList = .ok c := by
    intro l r c
    unfold compareVersions
    cases compareSemver l.toList r.toList <;> simp
  simp only [Replies.checkForUpdates, bind_eq_ok] at h
  obtain ⟨bundle, -, installed, -, status, -, compared, hcompared, h⟩ := h
  cases h
  by_cases havailable : compared > 0
  · exact ⟨compared, by simpa [havailable] using hcompared⟩
  · obtain ⟨c, hc⟩ := compareSemver_self (hok.mp hcompared)
    exact ⟨c, by simpa [havailable] using hok.mpr hc⟩

/-- **The invariant**: there is at most one job, what is shown is not newer than the state of the
coordinator, and an installation is followed by a timer or by a job that asks for its status. -/
structure Inv (s : World) : Prop where
  single : s.jobs.length ≤ 1
  idle : s.busy = false → s.jobs = []
  shown : s.shown = true → s.latestState.inProgress = true
  covered : s.latestState.inProgress = true →
    0 < s.statusTimers ∨ .install ∈ s.jobs ∨ .poll ∈ s.jobs

theorem Inv.followed (h : s.Inv) : s.Followed := by
  intro hshown
  rcases h.covered (h.shown hshown) with htimer | hjob | hjob
  · exact .inr htimer
  · exact .inl (ne_nil_of_mem hjob)
  · exact .inl (ne_nil_of_mem hjob)

theorem Inv.created : created.Inv where
  single := Nat.zero_le _
  idle _ := rfl
  shown h := by cases h
  covered h := by cases h

@[simp] theorem shown_publishState : s.publishState.shown = s.latestState.inProgress := by
  simp [World.shown, publishState]

theorem Inv.publishState (h : s.Inv) : s.publishState.Inv :=
  { h with shown := fun hshown => by rwa [shown_publishState] at hshown }

theorem Inv.requestCheck (h : s.Inv) (force : Bool) (reason : Reason) (now : ℤ) :
    (s.requestCheck o force reason now).Inv := by
  unfold World.requestCheck
  split_ifs with henabled hbusy hspacing
  · exact h
  · exact h
  · exact h
  · have hjobs := h.idle (Bool.eq_false_of_not_eq_true hbusy)
    refine ⟨?_, fun hidle => (by cases hidle), h.shown, fun hprogress => ?_⟩
    · simp [submit, hjobs]
    · -- there is no job, so a timer follows the installation
      rcases h.covered hprogress with htimer | hjob | hjob
      · exact .inl htimer
      · simp [hjobs] at hjob
      · simp [hjobs] at hjob

theorem Inv.checkTimers (h : s.Inv) (n : ℕ) : ({ s with checkTimers := n } : World).Inv :=
  { h with }

theorem Inv.start (h : s.Inv) : (s.start o).Inv := by
  unfold World.start scheduleNextPeriodicCheck
  dsimp only
  split_ifs with henabled
  · exact h.publishState
  · exact h.publishState.checkTimers _

theorem Inv.onUsableConnection (h : s.Inv) (now : ℤ) : (s.onUsableConnection o now).Inv := by
  unfold World.onUsableConnection
  split_ifs
  · exact h
  · exact h.requestCheck _ _ _

theorem Inv.onHomeAssistantBirth (h : s.Inv) (now : ℤ) : (s.onHomeAssistantBirth o now).Inv := by
  unfold World.onHomeAssistantBirth
  dsimp only
  split_ifs
  · exact h.publishState.requestCheck _ _ _
  · exact h.publishState

theorem Inv.requestInstall (h : s.Inv) : (s.requestInstall o).Inv := by
  unfold World.requestInstall
  split_ifs with henabled hbusy
  · exact h
  · exact h
  · have hjobs := h.idle (Bool.eq_false_of_not_eq_true hbusy)
    refine ⟨?_, fun hidle => (by cases hidle), fun _ => rfl, fun _ => .inr (.inl ?_)⟩
    · simp [submit, setInProgress, World.publishState, hjobs]
    · simp [submit]

theorem Inv.pollUpdateStatus (h : s.Inv) :
    (World.pollUpdateStatus { s with statusTimers := s.statusTimers - 1 }).Inv := by
  unfold World.pollUpdateStatus
  split_ifs with hbusy
  · exact { h with covered := fun _ => .inl (Nat.succ_pos _) }
  · have hjobs := h.idle (Bool.eq_false_of_not_eq_true hbusy)
    refine ⟨?_, fun hidle => (by cases hidle), h.shown, fun _ => .inr (.inr ?_)⟩
    · simp [submit, hjobs]
    · simp [submit]

theorem Inv.of_published {s : World} (hjobs : s.jobs = [])
    (hshown : s.shown = true → s.latestState.inProgress = true)
    (htimer : s.latestState.inProgress = true → 0 < s.statusTimers) : s.Inv where
  single := by simp [hjobs]
  idle _ := hjobs
  shown := hshown
  covered hprogress := .inl (htimer hprogress)

theorem inv_onInstallFinished (hjobs : s.jobs = []) (result : JobResult) (now : ℤ) :
    (s.onInstallFinished result now).Inv := by
  cases result with
  | snapshot snapshot =>
    unfold World.onInstallFinished extractResult
    dsimp only
    split_ifs with hprogress
    · exact .of_published hjobs (fun _ => hprogress) fun _ => Nat.succ_pos _
    · exact .of_published hjobs (fun hshown => by rwa [shown_publishState] at hshown)
        fun h => absurd h hprogress
  | exception | unexpected =>
    exact .of_published hjobs (fun hshown => absurd hshown (by simp [onInstallFinished,
      extractResult, setInProgress])) fun h => by cases h

theorem inv_continueStatusPollOrTimeout (hjobs : s.jobs = [])
    (hshown : s.shown = true → s.latestState.inProgress = true) :
    s.continueStatusPollOrTimeout.Inv := by
  unfold World.continueStatusPollOrTimeout
  dsimp only
  split_ifs with hattempts
  · exact .of_published hjobs hshown fun _ => Nat.succ_pos _
  · exact .of_published hjobs (fun h => by rwa [shown_publishState] at h) fun h => by cases h

theorem inv_onStatusPollFinished (hjobs : s.jobs = [])
    (hshown : s.shown = true → s.latestState.inProgress = true) (result : JobResult) :
    (s.onStatusPollFinished result).Inv := by
  cases result with
  | exception | unexpected => exact inv_continueStatusPollOrTimeout hjobs hshown
  | snapshot snapshot =>
    unfold World.onStatusPollFinished
    dsimp only
    split_ifs with hprogress
    · exact inv_continueStatusPollOrTimeout hjobs fun _ => hprogress
    · exact .of_published hjobs (fun h => by simpa [World.shown, World.publishState] using h)
        fun h => absurd h hprogress

theorem inv_onCheckFinished (hjobs : s.jobs = [])
    (hshown : s.shown = true → s.latestState.inProgress = true)
    (htimer : s.latestState.inProgress = true → 0 < s.statusTimers) {result : JobResult}
    (hresult : ∀ snapshot, result = .snapshot snapshot →
      (∃ c, compareVersions snapshot.latestVersion snapshot.installedVersion = .ok c) ∧
        (snapshot.inProgress = true → 0 < s.statusTimers)) (now : ℤ) :
    (s.onCheckFinished result now).Inv := by
  cases result with
  | unexpected => exact .of_published hjobs hshown htimer
  | exception =>
    exact .of_published hjobs (fun h => absurd h (by simp [onCheckFinished, extractResult]))
      fun h => by cases h
  | snapshot snapshot =>
    obtain ⟨⟨c, hc⟩, hprogress⟩ := hresult snapshot rfl
    simp only [World.onCheckFinished, extractResult, hc]
    exact .of_published hjobs (fun h => by rwa [shown_publishState] at h) hprogress

theorem Inv.jobs_eq (h : s.Inv) {job : Job} (hjob : job ∈ s.jobs) : s.jobs = [job] := by
  have hlength := h.single
  match hjobs : s.jobs with
  | [] => simp [hjobs] at hjob
  | [other] =>
    rw [hjobs, mem_singleton] at hjob
    rw [hjob]
  | _ :: _ :: _ => simp [hjobs] at hlength

/-- **Every callback keeps the invariant**, unless it is the result of a check that shows an
installation without a timer. -/
theorem Inv.step (h : s.Inv) {e : Event} (hwatched : ¬ s.Unwatched e)
    (hstep : s.step? o e = some s') : s'.Inv := by
  cases e with
  | start =>
    cases hstep
    exact h.start
  | usableConnection now =>
    cases hstep
    exact h.onUsableConnection now
  | homeAssistantBirth now =>
    cases hstep
    exact h.onHomeAssistantBirth now
  | checkRequest force reason now =>
    cases hstep
    exact h.requestCheck force reason now
  | installRequest =>
    cases hstep
    exact h.requestInstall
  | checkTimer now =>
    obtain ⟨-, ⟨⟩⟩ := Option.ite_none_left_eq_some.mp hstep
    exact ((h.checkTimers _).requestCheck _ _ _).checkTimers _
  | statusTimer =>
    obtain ⟨-, ⟨⟩⟩ := Option.ite_none_left_eq_some.mp hstep
    exact h.pollUpdateStatus
  | finished job outcome now =>
    obtain ⟨hjob, ⟨⟩⟩ := Option.ite_none_right_eq_some.mp hstep
    have hjobs := h.jobs_eq hjob
    have hnone : s.jobs.erase job = [] := by simp [hjobs]
    cases job with
    | install => exact inv_onInstallFinished hnone _ now
    | poll =>
      exact inv_onStatusPollFinished (s := { s with jobs := s.jobs.erase .poll }) hnone
        h.shown _
    | check =>
      refine inv_onCheckFinished (s := { s with jobs := s.jobs.erase .check }) hnone
        h.shown ?_ ?_ now
      · intro hprogress
        rcases h.covered hprogress with htimer | hjob | hjob
        · exact htimer
        · simp [hjobs] at hjob
        · simp [hjobs] at hjob
      · intro snapshot hsnapshot
        cases outcome with
        | unexpected => cases hsnapshot
        | ran replies =>
          have hok : replies.checkForUpdates = .ok snapshot := by
            simp only [Job.result] at hsnapshot
            split at hsnapshot
            · rename_i hworker
              rw [hworker, JobResult.snapshot.inj hsnapshot]
            · cases hsnapshot
          refine ⟨compareVersions_of_check hok, fun hprogress => ?_⟩
          by_contra hnot
          exact hwatched ⟨snapshot, hok, hprogress, Nat.eq_zero_of_not_pos hnot⟩

/-- **The exception is one**: behind such a check nothing follows the installation that is
shown. -/
theorem Inv.not_followed_of_unwatched (h : s.Inv) {e : Event} (hunwatched : s.Unwatched e)
    (hstep : s.step? o e = some s') : ¬ s'.Followed := by
  cases e with
  | finished job outcome now =>
    cases job with
    | check =>
      cases outcome with
      | ran replies =>
        obtain ⟨snapshot, hok, hprogress, htimers⟩ := hunwatched
        obtain ⟨c, hc⟩ := compareVersions_of_check hok
        obtain ⟨hjob, ⟨⟩⟩ := Option.ite_none_right_eq_some.mp hstep
        have hjobs := h.jobs_eq hjob
        intro hfollowed
        simp [onFinished, onCheckFinished, extractResult, Job.result, hok, hc, Followed,
          World.publishState, World.shown, hprogress, hjobs, htimers] at hfollowed
      | unexpected => exact hunwatched.elim
    | install | poll => exact hunwatched.elim
  | _ => exact hunwatched.elim

/-! ### The budget of polls -/

/-- The result of an installation. -/
def Event.isInstallResult : Event → Bool
  | .finished .install _ _ => true
  | _ => false

/-- The results of polls. -/
def pollResults (es : List Event) : ℕ :=
  es.countP fun e => match e with
    | .finished .poll _ _ => true
    | _ => false

/-- Between two states a payload without an installation is published. -/
def Ended (s s' : World) : Prop :=
  ∃ new, s'.published = new ++ s.published ∧ ∃ p ∈ new, showsInProgress p = false

/-- Between two states the results of polls are counted, and the count stays below the limit. -/
def Counted (s s' : World) (polls : ℕ) : Prop :=
  s.published <:+ s'.published ∧ s'.statusPollAttempts = s.statusPollAttempts + polls ∧
    (0 < polls → s'.statusPollAttempts < 24)

theorem Ended.trans_suffix {t : World} (h : Ended s s') (hsuffix : s'.published <:+ t.published) :
    Ended s t := by
  obtain ⟨new, hnew, p, hp, hshows⟩ := h
  obtain ⟨newer, hnewer⟩ := hsuffix
  exact ⟨newer ++ new, by rw [← hnewer, hnew, append_assoc], p, mem_append_right _ hp, hshows⟩

theorem Ended.suffix (h : Ended s s') : s.published <:+ s'.published := by
  obtain ⟨new, hnew, -⟩ := h
  exact ⟨new, hnew.symm⟩

theorem Ended.of_suffix {t : World} (h : Ended s' t) (hsuffix : s.published <:+ s'.published) :
    Ended s t := by
  obtain ⟨new, hnew, p, hp, hshows⟩ := h
  obtain ⟨newer, hnewer⟩ := hsuffix
  exact ⟨new ++ newer, by rw [hnew, ← hnewer, append_assoc], p, mem_append_left _ hp, hshows⟩

theorem Counted.of_eq (hpublished : s.published <:+ s'.published)
    (hattempts : s'.statusPollAttempts = s.statusPollAttempts) : Counted s s' 0 :=
  ⟨hpublished, hattempts, fun h => absurd h (Nat.lt_irrefl 0)⟩

theorem counted_requestCheck (force : Bool) (reason : Reason) (now : ℤ) :
    Counted s (s.requestCheck o force reason now) 0 := by
  unfold requestCheck
  split_ifs <;> exact .of_eq (suffix_refl _) rfl

theorem counted_continueStatusPollOrTimeout :
    Ended s s.continueStatusPollOrTimeout ∨ Counted s s.continueStatusPollOrTimeout 1 := by
  unfold continueStatusPollOrTimeout
  dsimp only
  split_ifs with hattempts
  · exact .inr ⟨suffix_refl _, rfl, fun _ => hattempts⟩
  · exact .inl ⟨_, rfl, _, mem_singleton.mpr rfl, by simp⟩

theorem counted_onStatusPollFinished (result : JobResult) :
    Ended s (s.onStatusPollFinished result) ∨ Counted s (s.onStatusPollFinished result) 1 := by
  cases result with
  | exception | unexpected =>
    exact counted_continueStatusPollOrTimeout (s := { s with busy := false })
  | snapshot snapshot =>
    unfold onStatusPollFinished
    dsimp only
    split_ifs with hprogress
    · have hsuffix : s.published <:+ snapshot.toPayload :: s.published := suffix_cons _ _
      rcases counted_continueStatusPollOrTimeout
          (s := publishState { s with busy := false, latestState := snapshot }) with
        hended | hcounted
      · exact .inl (hended.of_suffix hsuffix)
      · exact .inr ⟨hsuffix.trans hcounted.1, hcounted.2⟩
    · exact .inl ⟨[snapshot.toPayload], rfl, _, mem_singleton.mpr rfl, by simpa using hprogress⟩

theorem counted_onCheckFinished (result : JobResult) (now : ℤ) :
    Counted s (s.onCheckFinished result now) 0 := by
  cases result with
  | unexpected => exact .of_eq (suffix_refl _) rfl
  | exception => exact .of_eq (suffix_cons _ _) rfl
  | snapshot snapshot =>
    unfold onCheckFinished extractResult
    dsimp only
    split
    · exact .of_eq (suffix_refl _) rfl
    · exact .of_eq (suffix_cons _ _) rfl

/-- **Every callback but the result of an installation** counts the polls. -/
theorem counted_step {e : Event} (hinstall : e.isInstallResult = false)
    (hstep : s.step? o e = some s') : Ended s s' ∨ Counted s s' (pollResults [e]) := by
  cases e with
  | start =>
    cases hstep
    unfold World.start scheduleNextPeriodicCheck
    dsimp only
    split_ifs <;> exact .inr (.of_eq (suffix_cons _ _) rfl)
  | usableConnection now =>
    cases hstep
    unfold onUsableConnection
    split_ifs
    · exact .inr (.of_eq (suffix_refl _) rfl)
    · exact .inr (counted_requestCheck _ _ _)
  | homeAssistantBirth now =>
    cases hstep
    unfold onHomeAssistantBirth
    dsimp only
    split_ifs
    · have hcounted := @counted_requestCheck o s.publishState false .haBirth now
      exact .inr ⟨(suffix_cons _ _).trans hcounted.1, hcounted.2⟩
    · exact .inr (.of_eq (suffix_cons _ _) rfl)
  | checkRequest force reason now =>
    cases hstep
    exact .inr (counted_requestCheck _ _ _)
  | installRequest =>
    cases hstep
    unfold requestInstall
    split_ifs
    · exact .inr (.of_eq (suffix_refl _) rfl)
    · exact .inr (.of_eq (suffix_refl _) rfl)
    · exact .inr (.of_eq (suffix_cons _ _) rfl)
  | checkTimer now =>
    obtain ⟨-, ⟨⟩⟩ := Option.ite_none_left_eq_some.mp hstep
    exact .inr (@counted_requestCheck o { s with checkTimers := s.checkTimers - 1 } false
      .periodic now)
  | statusTimer =>
    obtain ⟨-, ⟨⟩⟩ := Option.ite_none_left_eq_some.mp hstep
    unfold pollUpdateStatus
    split_ifs <;> exact .inr (.of_eq (suffix_refl _) rfl)
  | finished job outcome now =>
    obtain ⟨-, ⟨⟩⟩ := Option.ite_none_right_eq_some.mp hstep
    cases job with
    | install => cases hinstall
    | check =>
      exact .inr (counted_onCheckFinished (s := { s with jobs := s.jobs.erase .check }) _ now)
    | poll => exact counted_onStatusPollFinished (s := { s with jobs := s.jobs.erase .poll }) _

theorem counted_run {es : List Event} (hinstall : ∀ e ∈ es, e.isInstallResult = false)
    (hrun : run? o es s = some s') : Ended s s' ∨ Counted s s' (pollResults es) := by
  induction es generalizing s with
  | nil =>
    cases hrun
    exact .inr (.of_eq (suffix_refl _) rfl)
  | cons e es ih =>
    obtain ⟨mid, hstep, hrest⟩ := Option.bind_eq_some_iff.mp hrun
    obtain ⟨he, hes⟩ := forall_mem_cons.mp hinstall
    have hpolls : pollResults (e :: es) = pollResults [e] + pollResults es := by
      rw [pollResults, pollResults, pollResults, ← countP_append]
      rfl
    rcases counted_step he hstep with hfirst | ⟨hpublished, hattempts, hbelow⟩
    · rcases ih hes hrest with hlater | hlater
      · exact .inl (hlater.of_suffix hfirst.suffix)
      · exact .inl (hfirst.trans_suffix hlater.1)
    · rcases ih hes hrest with hlater | ⟨hpublished', hattempts', hbelow'⟩
      · exact .inl (hlater.of_suffix hpublished)
      · refine .inr ⟨hpublished.trans hpublished', ?_, fun hpos => ?_⟩
        · rw [hattempts', hattempts, hpolls, Nat.add_assoc]
        · rcases Nat.eq_zero_or_pos (pollResults es) with hzero | hpos'
          · have := hbelow (by omega)
            omega
          · exact hbelow' hpos'

/-- **24 results of polls** are enough to see the end of an installation, if none is installed
anew. -/
theorem polls_bounded {es : List Event} (hinstall : ∀ e ∈ es, e.isInstallResult = false)
    (hpolls : 24 ≤ pollResults es) (hrun : run? o es s = some s') : Ended s s' := by
  rcases counted_run hinstall hrun with hended | ⟨-, hattempts, hbelow⟩
  · exact hended
  · have := hbelow (by omega)
    omega

/-! ### Every run -/

/-- **An installation that is shown is followed, throughout a run, exactly if** no check of the run
finds an installation that no timer follows. -/
theorem Inv.followed_iff_watched {es : List Event} (h : s.Inv) (hrun : run? o es s = some s') :
    (∀ before t, before <+: es → run? o before s = some t → t.Followed) ↔ Watched o es s := by
  induction es generalizing s with
  | nil =>
    refine iff_of_true (fun before t hprefix hbefore => ?_) trivial
    rw [prefix_nil.mp hprefix] at hbefore
    cases hbefore
    exact h.followed
  | cons e es ih =>
    obtain ⟨mid, hstep, hrest⟩ := Option.bind_eq_some_iff.mp hrun
    have hcons : ∀ before, run? o (e :: before) s = run? o before mid := fun before => by
      rw [run?, hstep, Option.bind_some]
    constructor
    · intro hall
      have hwatched : ¬ s.Unwatched e := fun hunwatched =>
        h.not_followed_of_unwatched hunwatched hstep
          (hall [e] mid (prefix_cons_inj e |>.mpr nil_prefix) (hcons []))
      refine ⟨hwatched, fun t ht => ?_⟩
      obtain rfl := Option.some.inj (hstep.symm.trans ht)
      refine (ih (h.step hwatched hstep) hrest).mp fun before t hprefix hbefore => ?_
      exact hall (e :: before) t ((prefix_cons_inj e).mpr hprefix) (by rw [hcons, hbefore])
    · rintro ⟨hwatched, hlater⟩ before t hprefix hbefore
      cases before with
      | nil =>
        cases hbefore
        exact h.followed
      | cons e' before =>
        obtain ⟨rfl, hbefore_es⟩ := cons_prefix_cons.mp hprefix
        rw [hcons] at hbefore
        exact (ih (h.step hwatched hstep) hrest).mpr (hlater mid hstep) before t hbefore_es hbefore

/-- **In every run an installation that is shown is followed at each point**, exactly if no check
finds an installation that no timer follows; and 24 results of polls are enough to see the end of
it. -/
theorem installing_is_followed (o : StateAgentUpdateOptions) (es : List Event) (s : World)
    (hrun : run? o es created = some s) :
    ((∀ before t, before <+: es → run? o before created = some t → t.Followed) ↔
        Watched o es created) ∧
      ∀ es' s', run? o es' s = some s' →
        (∀ e ∈ es', e.isInstallResult = false) → 24 ≤ pollResults es' → Ended s s' :=
  ⟨Inv.created.followed_iff_watched hrun, fun _ _ hrun' hinstall hpolls =>
    polls_bounded hinstall hpolls hrun'⟩

/-- A release server and a feeder that answer everything. -/
def replies (installed status : String) : Replies where
  fetchVerifiedReleaseBundle := .ok ⟨"1.1.0", ""⟩
  version := .ok installed
  updateStatus := .ok ⟨status, "none", none, none⟩
  frame := .ok []
  submitUpdate _ := .ok ⟨"pending", "none", none, none⟩

/-- Updates are enabled, with the defaults. -/
def defaultOptions : StateAgentUpdateOptions := ⟨true, true, 24⟩

/-- An installation that is requested is followed by a timer. -/
theorem installing_is_followed_request :
    ∃ s, run? defaultOptions [.start, .installRequest,
        .finished .install (.ran (replies "1.0.0" "pending")) 0] created = some s ∧
      s.shown = true ∧ s.Followed := by
  have hwatched : Watched defaultOptions [.start, .installRequest,
      .finished .install (.ran (replies "1.0.0" "pending")) 0] created := by
    simp [Watched, Unwatched]
  exact ⟨_, rfl, rfl,
    (installing_is_followed _ _ _ rfl).1.mpr hwatched _ _ (prefix_refl _) rfl⟩

/-- **The add-on starts while the feeder installs an update**: the first check shows the
installation, and then no job is outstanding and no timer armed. -/
theorem installing_not_followed :
    ∃ s, run? defaultOptions [.start, .checkRequest true .manual 0,
        .finished .check (.ran (replies "1.0.0" "activating")) 0] created = some s ∧
      s.shown = true ∧ s.jobs = [] ∧ s.statusTimers = 0 :=
  ⟨_, rfl, rfl, rfl, rfl⟩

end World

end PetlibroLocal.Updates
