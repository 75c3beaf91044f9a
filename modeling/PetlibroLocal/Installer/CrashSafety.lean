import PetlibroLocal.Installer.Launcher

/-!
# The Bootstrap Is Crash Safe

All commands of the script succeed if they can, and the tests of the host answer as they like. The
power is cut between any two commands, any number of times, and each boot runs the script again as
long as `app_start.sh` starts the payload. In between, the feeder changes its own state.

The main results are `runs_boot` and `bootstrap_crash_safe`.
-/

namespace PetlibroLocal.Installer

open FileTree

variable {S : Setting} {P : Payload} {t₀ : Tree} {w w' : World}

/-- The feeder changes its attributes and its plans. -/
structure Edits (w w' : World) : Prop where
  replaced : w'.replaced = w.replaced
  saved : w'.saved = w.saved
  tree : ∀ p, ¬ ["data", "attr"] <+: p → ¬ ["data", "feed_plan"] <+: p → w'.tree p = w.tree p

/-- The feeder, with the payload in one slot. -/
def feeder (P : Payload) : System Cmd (fun _ => ℕ) Exit World Unit where
  toDevice := device faultless
  script := P.boot
  mayKill _ := True
  outside := Edits

theorem canWrite_faultless : CanWrite faultless := by
  rintro c o text (ho | ⟨name, hname⟩) - hwrite
  · exact ho
  · cases hname.symm.trans hwrite

theorem Inv.edits (hexact : S.Exact) (h : Inv S w) (hedits : Edits w w') : Inv S w' := by
  have havoids : ∀ root ∈ stateHome "" :: fixed, ∀ p ∈ [["data", "attr"], ["data", "feed_plan"]],
      ¬ root <+: p ∧ ¬ p <+: root := by decide
  have hbelow : ∀ root ∈ stateHome "" :: fixed, w'.tree.below root = w.tree.below root := by
    intro root hroot
    refine funext fun r => hedits.tree _ ?_ ?_
    · exact Command.not_prefix_append (havoids root hroot _ (by simp))
    · exact Command.not_prefix_append (havoids root hroot _ (by simp))
  refine h.keeps ⟨fun _ => hedits.replaced, ?_, hbelow⟩
  rw [hedits.saved, complete_of_below (hbelow _ (by decide)), ← (h.backup hexact).saved]
  cases w.saved <;> rfl

/-- The commands before the trap. -/
theorem runs_first {cs : List Command} {next : Prog} (hcs : avoids fixed cs = true)
    (h : Before S w) (hnext : ∀ w, Before S w → Runs S next w) :
    Runs S (strict (fun _ => .done ()) cs next) w := by
  induction cs generalizing w with
  | nil => exact hnext w h
  | cons c cs ih =>
    obtain ⟨hc, hcs⟩ := avoids_cons.mp hcs
    refine runs_run (S.before.inv h) fun o _ => ?_
    have h' := S.before.keeps h (keeps_perform (Cmd.mk true c) o hc)
    split_ifs
    · exact ih hcs h'
    · exact S.before.inv h'

/-- **A boot keeps the invariant**: the script runs only while the launcher is the first one. -/
theorem runs_boot (hoem : S.oem ≠ some S.text) (h : Inv S w) : Runs S S.boot w := by
  refine (S.anywhere S.donor).test ⟨h, Tree.contents_of_below h.donor⟩ (fun w h hlaunches => ?_)
    fun w h _ => h.1
  have hcases : Before S w ∨ w.tree.contents S.slot.firmware = S.oem := by
    cases h.1.launcher with
    | original hreplaced hlauncher htarget =>
      have hslot : ∀ s : Slot, w.tree.below s.firmware = S.tree.below s.firmware := by
        intro s
        rcases s.eq_or_eq_other S.slot with rfl | rfl
        · exact htarget
        · exact h.1.donor
      exact .inl ⟨⟨hreplaced, by simpa using ⟨hlauncher, hslot .ota1, hslot .ota2⟩⟩, h.1.backup⟩
    | safe s _ hlauncher hoem =>
      rw [Test.holds, hlauncher, Option.any_some, launches_safeStart] at hlaunches
      exact .inr (of_decide_eq_true hlaunches ▸ hoem)
    | production _ _ hoem => exact .inr (hoem _)
  rcases hcases with h | hslot
  · refine S.before.test h (fun w h _ => ?_) fun w h _ => S.before.inv h
    refine runs_first (by decide) h fun w h => ?_
    refine S.before.test h (fun w h _ => ?_) fun w h _ => runs_loose (by decide) (S.before.inv h)
    refine S.before.test h (fun w h _ => ?_) fun w h _ => runs_loose (by decide) (S.before.inv h)
    exact runs_body h
  · refine (S.anywhere S.slot).test ⟨h.1, hslot⟩ (fun w h hpayload => ?_) fun w h _ => h.1
    rw [Test.holds, h.2] at hpayload
    obtain ⟨text, htext, heq⟩ := (Option.any_eq_true _ _).mp hpayload
    exact absurd (htext.trans (congrArg some (beq_iff_eq.mp heq))) hoem

/-! ### Runs -/

/-- `app_start.sh` starts the payload, and the other slot holds another firmware. -/
structure Placed (P : Payload) (t₀ : Tree) : Prop extends Start P t₀ where
  launches : (t₀.contents appStart).any (Payload.launches P.slot) = true
  payload : t₀.contents P.slot.firmware = some P.text
  oem : t₀.contents P.donor.firmware ≠ some P.text
  distinct : ∀ s, P.archive.contents ["app_start.sh"] ≠ some (safeStart s)

/-- What holds of a feeder that can be cut off. -/
structure Recoverable (P : Payload) (t₀ : Tree) (w : World) : Prop where
  donor : w.tree P.donor.firmware = t₀ P.donor.firmware
  launcher : Bootable P t₀ w
  payload : w.replaced = false →
    (w.tree.contents appStart).any (Payload.launches P.slot) = true ∧
      w.tree.contents P.slot.firmware = some P.text
  production : w.replaced = true →
    w.tree.contents appStart = P.archive.contents ["app_start.sh"] →
    (∀ s : Slot, w.tree.contents s.firmware = t₀.contents P.donor.firmware) ∧
      w.tree.below (stateHome "") = P.home
  backup : complete w.tree = true → ∃ t, w.saved = some t ∧
    w.tree.below (stateBackup "") = t.below (stateBackup "") ∧
    (t = t₀ ∨ Saved t "attr" ∧ Saved t "feed_plan")

/-- The setting without faults. -/
def Placed.setting (hP : Placed P t₀) : Setting :=
  ⟨P, t₀, faultless, hP.toStart, canWrite_faultless⟩

theorem Placed.recoverable (hP : Placed P t₀) (h : Inv hP.setting w) : Recoverable P t₀ w := by
  have hbackup := h.backup fun _ _ => id
  refine ⟨congrFun h.donor [], h.bootable, fun hreplaced => ?_, fun hreplaced hlauncher => ?_,
    fun hcomplete => ?_⟩
  · cases h.launcher with
    | original _ hlauncher htarget =>
      exact ⟨(congrArg (Option.any _) (Tree.contents_of_below hlauncher)).trans hP.launches,
        (Tree.contents_of_below htarget).trans hP.payload⟩
    | safe _ htrue | production htrue => simp [htrue] at hreplaced
  · cases h.launcher with
    | original hfalse => simp [hfalse] at hreplaced
    | safe s _ hsafe => exact absurd (hlauncher.symm.trans hsafe) (hP.distinct s)
    | production _ _ hoem hhome => exact ⟨hoem, hhome fun _ _ => id⟩
  · obtain ⟨t, ht⟩ := Option.isSome_iff_exists.mp (hbackup.saved.trans hcomplete)
    exact ⟨t, ht, hbackup.kept t ht⟩

theorem saved_of_reaches {x y : Option Prog × World} {t : Tree} (h : (feeder P).Reaches x y)
    (hx : x.2.saved = some t) : y.2.saved = some t := by
  induction h with
  | refl => exact hx
  | tail _ hstep ih =>
    cases hstep with
    | start | finish | kill => exact ih
    | command h =>
      cases h with
      | command ho => exact (congrArg (Option.or · _) ih).trans rfl
    | outside hedits => exact hedits.saved.trans ih

/-- **The bootstrap is crash safe**, and a backup that is complete never changes. -/
theorem bootstrap_crash_safe (hP : Placed P t₀) {x y : Option Prog × World}
    (hx : (feeder P).Reaches (none, initial t₀) x) (hy : (feeder P).Reaches x y) :
    Recoverable P t₀ x.2 ∧ (complete x.2.tree = true →
      y.2.tree.below (stateBackup "") = x.2.tree.below (stateBackup "")) := by
  have hinv : ∀ {x}, (feeder P).Reaches (none, initial t₀) x → Inv hP.setting x.2 := by
    intro x hx
    refine System.Safe.world (hx.invariant (I := Inv hP.setting) (fun w h => ?_) (fun _ _ h _ => h)
      (fun _ _ h => h) (fun w w' hedits h => ?_) (hP.setting.before.inv before_initial))
    · exact runs_boot hP.oem h
    · exact h.edits (fun _ _ => id) hedits
  have hrecoverable := hP.recoverable (hinv hx)
  refine ⟨hrecoverable, fun hcomplete => ?_⟩
  obtain ⟨t, hsaved, hbelow, -⟩ := hrecoverable.backup hcomplete
  have hkept := ((hinv (hx.trans hy)).backup fun _ _ => id).kept t (saved_of_reaches hy hsaved)
  exact hkept.1.trans hbelow.symm

/-- The power is cut after 82 commands, when the `app_start.sh` of the archive is in place. -/
theorem bootstrap_crash_safe_sample :
    ∃ w, (feeder samplePayload).Reaches (none, initial sampleTree) (none, w) ∧
      w.replaced = true ∧
      w.tree.contents appStart = samplePayload.archive.contents ["app_start.sh"] ∧
      Recoverable samplePayload sampleTree w := by
  have hallows : (feeder samplePayload).Allows samplePayload.boot (List.replicate 82 .success)
      (initial sampleTree) :=
    Device.allows_of_forall _ _ _ fun _ ho _ _ => .inl (List.eq_of_mem_replicate ho)
  have h := System.reaches_cut hallows trivial
  refine ⟨_, h, by decide +kernel, by decide +kernel, ?_⟩
  refine (bootstrap_crash_safe ⟨start_sample, by decide, by decide, by decide, ?_⟩ h
    Relation.ReflTransGen.refl).1
  rintro (_ | _) <;> decide

end PetlibroLocal.Installer
