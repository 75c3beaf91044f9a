import PetlibroLocal.Installer.Bootstrap

/-!
# The Launcher Is Complete at Every Point

`app_start.sh` is only ever replaced by a rename, of a file that was written in full: under `set -e`
the script does not come to the rename otherwise. `fail_safe` goes on without a check, and there the
write has to succeed.

A phase of the script is a condition that is kept by all commands that avoid some paths (`Phase`),
and that allows for `fail_safe`. The commands that do not avoid them lead from phase to phase.

The main results are `Phase.strict`, `Phase.cons`, `Phase.test`, `runs_body`, `fail_safe_complete`
and `fail_safe_truncates`.
-/

namespace PetlibroLocal.Installer

open FileTree List

/-! ### The invariant -/

/-- `fail_safe` can write `app_start.sh.new`. -/
def CanWrite (A : Cmd → Exit → Prop) : Prop :=
  ∀ c o text, A c o → c.errexit = false → c.command = .write appStartNew text → o = .success

/-- What the script is started with. -/
structure Start (P : Payload) (t : Tree) : Prop where
  launcher : (t.contents appStart).isSome = true
  target : t.isDir P.slot.firmware = false
  production : ∃ text, P.archive.contents ["app_start.sh"] = some text ∧
    Payload.launches .ota1 text = true

/-- A payload, the files that it is started with, and the outcomes of its commands. -/
structure Setting extends Payload where
  tree : Tree
  allowed : Cmd → Exit → Prop
  started : Start toPayload tree
  canWrite : CanWrite allowed

/-- The complete new home of the agent. -/
def Payload.home (P : Payload) : Tree :=
  (((((P.archive.below ["local-state-agent"]).change (· = ["plaf203-state-agent"])
    (.chmod fun _ => 0o700)).change (· = ["plaf203-update-fs"]) (.chmod fun _ => 0o700)).change
    (· = ["app_start_snippet.sh"]) (.chmod fun _ => 0o700)).change (· = ["token"])
    (.chmod fun _ => 0o600)).change ["runit"].isPrefixOf (.chmodFile 0o700)

/-- What `cp` finds at a path: nothing, if the path is not there. -/
def found (t : Tree) : Tree := if (t []).isSome then t else fun _ => none

/-- The backup holds one part of the state of the feeder. -/
def Saved (t : Tree) (name : String) : Prop :=
  t.below (stateBackup "" ++ [name]) =
    (found (t.below ["data", name])).change (fun _ => true) (.chmod Payload.goRwx)

variable {S : Setting} {w w' : World}

/-- A command that can succeed does so; tests of the host answer as they like. -/
def faultless (c : Cmd) (o : Exit) : Prop := o = .success ∨ ∃ name, c.command = .test (.host name)

namespace Setting

/-- The tests of files never err. -/
def Exact (S : Setting) : Prop := ∀ c o, S.allowed c o → faultless c o

/-- The firmware of the donor. -/
def oem (S : Setting) : Option Contents := S.tree.contents S.donor.firmware

end Setting

/-- The backup is the first one, or the one that was there. -/
structure Backup (S : Setting) (w : World) : Prop where
  saved : w.saved.isSome = complete w.tree
  kept : ∀ t, w.saved = some t → w.tree.below (stateBackup "") = t.below (stateBackup "") ∧
    (t = S.tree ∨ Saved t "attr" ∧ Saved t "feed_plan")

/-- The launcher is the one that was there, or it is complete and starts the firmware of the
donor. -/
inductive Launcher (S : Setting) (w : World) : Prop
  | original (hreplaced : w.replaced = false)
      (hlauncher : w.tree.below appStart = S.tree.below appStart)
      (htarget : w.tree.below S.slot.firmware = S.tree.below S.slot.firmware)
  | safe (s : Slot) (hreplaced : w.replaced = true)
      (hlauncher : w.tree.contents appStart = some (safeStart s))
      (hoem : w.tree.contents s.firmware = S.oem)
  | production (hreplaced : w.replaced = true)
      (hlauncher : w.tree.contents appStart = S.archive.contents ["app_start.sh"])
      (hoem : ∀ s : Slot, w.tree.contents s.firmware = S.oem)
      (hhome : S.Exact → w.tree.below (stateHome "") = S.home)

/-- What holds at every point. -/
structure Inv (S : Setting) (w : World) : Prop where
  donor : w.tree.below S.donor.firmware = S.tree.below S.donor.firmware
  launcher : Launcher S w
  backup : S.Exact → Backup S w

/-! ### Frames -/

/-- `app_start.sh`, the two slots and the backup. -/
def fixed : List Path := [appStart, Slot.ota1.firmware, Slot.ota2.firmware, stateBackup ""]

/-- Nothing has changed at the paths and below them. -/
structure Keeps (roots : List Path) (w w' : World) : Prop where
  replaced : appStart ∈ roots → w'.replaced = w.replaced
  saved : w'.saved = w.saved.or (if complete w'.tree then some w'.tree else none)
  below : ∀ root ∈ roots, w'.tree.below root = w.tree.below root

/-- The commands avoid the paths. -/
def avoids (roots : List Path) (cs : List Command) : Bool := cs.all fun c => roots.all c.avoids

section Frames

variable {roots : List Path} {c : Cmd} {o : Exit}

theorem avoids_cons {c : Command} {cs : List Command} :
    avoids roots (c :: cs) = true ↔ avoids roots [c] = true ∧ avoids roots cs = true := by
  simp [avoids]

/-- A command changes only what it does not avoid. -/
theorem keeps_perform (c : Cmd) (o : Exit) (hc : avoids roots [c.command] = true) :
    Keeps roots w (perform c o w).2 := by
  have hroots : ∀ root ∈ roots, c.command.avoids root = true := by simpa [avoids] using hc
  refine ⟨fun hmem => ?_, rfl, fun root hroot => funext (Command.run_of_avoids (hroots root hroot))⟩
  have hreplaces : c.replaces = false := by
    have hstart := hroots appStart hmem
    obtain ⟨errexit, command⟩ := c
    cases command with
    | move src dst =>
      refine decide_eq_false fun hdst => ?_
      simp [Command.avoids, hdst] at hstart
    | _ => rfl
  simp [perform, hreplaces]

/-- A command has succeeded. -/
structure Ran (c : Command) (w w' : World) : Prop where
  exec : c.exec w.tree = some w'.tree
  replaced : Cmd.replaces ⟨true, c⟩ = true → w'.replaced = true
  keeps : ∀ {roots}, avoids roots [c] = true → Keeps roots w w'

theorem Ran.run_eq {c : Command} (h : Ran c w w') : (c.run .success w.tree).2 = w'.tree := by
  rw [Command.run, h.exec]

theorem ran_of_perform (h : (perform c o w).1 = 0) :
    o = .success ∧ Ran c.command w (perform c o w).2 := by
  cases o with
  | success =>
    have hstatus : (c.command.run .success w.tree).1 = 0 := h
    refine ⟨rfl, ?_, fun hreplaces => ?_, keeps_perform c _⟩
    · change _ = some (c.command.run .success w.tree).2
      rw [Command.run] at hstatus ⊢
      cases hexec : c.command.exec w.tree with
      | some t => rfl
      | none => simp [hexec] at hstatus
    · have : c.replaces = true := hreplaces
      simp [perform, hstatus, this]
  | failure status left => cases h

/-- An atomic command that fails changes nothing. -/
theorem keeps_of_failed (h : (perform c o w).1 ≠ 0) (hatomic : c.command.atomic = true)
    (roots : List Path) : Keeps roots w (perform c o w).2 := by
  have hstatus : (c.command.run o w.tree).1 ≠ 0 := h
  have htree : (perform c o w).2.tree = w.tree := by
    change (c.command.run o w.tree).2 = w.tree
    cases o with
    | success =>
      rw [Command.run] at hstatus ⊢
      cases hexec : c.command.exec w.tree with
      | some t => simp [hexec] at hstatus
      | none => rfl
    | failure status left => exact if_pos hatomic
  exact ⟨fun _ => by simp [perform, hstatus], rfl, fun root _ => by rw [htree]⟩

theorem complete_of_below {t t' : Tree}
    (h : t'.below (stateBackup "") = t.below (stateBackup "")) : complete t' = complete t := by
  have := congrFun h ["complete"]
  rw [Tree.below, Tree.below] at this
  rw [complete, complete, Tree.contents, Tree.contents, this]

namespace Keeps

variable {roots' : List Path} {root : Path}

theorem mono (h : Keeps roots w w') (hsub : roots' ⊆ roots) : Keeps roots' w w' :=
  ⟨fun hmem => h.replaced (hsub hmem), h.saved, fun root hroot => h.below root (hsub hroot)⟩

theorem contents (h : Keeps roots w w') (hroot : root ∈ roots) :
    w'.tree.contents root = w.tree.contents root :=
  Tree.contents_of_below (h.below root hroot)

theorem backup (h : Keeps roots w w') (hroot : stateBackup "" ∈ roots) (hw : Backup S w) :
    Backup S w' := by
  have hbelow := h.below _ hroot
  have hcomplete := complete_of_below hbelow
  have hsaved : w'.saved = w.saved := by
    rw [h.saved, hcomplete, ← hw.saved]
    cases w.saved <;> rfl
  refine ⟨by rw [hsaved, hw.saved, hcomplete], fun t ht => ?_⟩
  obtain ⟨hkept, hor⟩ := hw.kept t (hsaved ▸ ht)
  exact ⟨hbelow.trans hkept, hor⟩

end Keeps

theorem Slot.eq_or_eq_other (s s' : Slot) : s = s' ∨ s = s'.other := by
  cases s <;> cases s' <;> simp [Slot.other]

theorem firmware_mem_tail (s : Slot) : s.firmware ∈ fixed.tail := by
  cases s <;> decide

theorem firmware_mem (s : Slot) : s.firmware ∈ fixed := mem_of_mem_tail (firmware_mem_tail s)

theorem Inv.keeps (h : Inv S w) (hkeeps : Keeps (stateHome "" :: fixed) w w') : Inv S w' := by
  have hstart : appStart ∈ stateHome "" :: fixed := by decide
  have hslot := fun s : Slot => mem_cons_of_mem (stateHome "") (firmware_mem s)
  refine ⟨(hkeeps.below _ (hslot _)).trans h.donor, ?_,
    fun hexact => hkeeps.backup (by decide) (h.backup hexact)⟩
  cases h.launcher with
  | original hreplaced hlauncher htarget =>
    exact .original ((hkeeps.replaced hstart).trans hreplaced)
      ((hkeeps.below _ hstart).trans hlauncher) ((hkeeps.below _ (hslot _)).trans htarget)
  | safe s hreplaced hlauncher hoem =>
    exact .safe s ((hkeeps.replaced hstart).trans hreplaced)
      ((hkeeps.contents hstart).trans hlauncher) ((hkeeps.contents (hslot s)).trans hoem)
  | production hreplaced hlauncher hoem hhome =>
    exact .production ((hkeeps.replaced hstart).trans hreplaced)
      ((hkeeps.contents hstart).trans hlauncher)
      (fun s => (hkeeps.contents (hslot s)).trans (hoem s))
      fun hexact => (hkeeps.below _ mem_cons_self).trans (hhome hexact)

/-- There is always a launcher. -/
theorem Inv.started (h : Inv S w) : (w.tree.contents appStart).isSome = true := by
  cases h.launcher with
  | original _ hlauncher => exact Tree.contents_of_below hlauncher ▸ S.started.launcher
  | safe s _ hlauncher => rw [hlauncher]; rfl
  | production _ hlauncher =>
    obtain ⟨text, htext, -⟩ := S.started.production
    rw [hlauncher, htext]
    rfl

end Frames

/-! ### The failure path -/

/-- The invariant holds at every point of a program, and at its end. -/
def Runs (S : Setting) (prog : Prog) (w : World) : Prop :=
  (device S.allowed).Always (fun _ => Inv S) (fun _ => Inv S) prog w

/-- `app_start.sh.new` has the contents, unless it is a directory. -/
def Ready (text : Option Contents) (t : Tree) : Prop :=
  t.isDir appStartNew = false → t.contents appStartNew = text

theorem ready_chmod {text : Option Contents} {t : Tree} (o : Exit) (h : Ready text t) :
    Ready text ((Command.chmod 0o755 appStartNew).run o t).2 := by
  obtain ⟨hcontents, hdir⟩ := Command.run_chmod 0o755 appStartNew o t appStartNew
  exact fun h' => hcontents.trans (h (hdir.symm.trans h'))

/-- **The launcher is replaced by a file that is ready.** -/
theorem Ran.select {text : Option Contents} (h : Ran (.move appStartNew appStart) w w')
    (hstarted : (w.tree.contents appStart).isSome = true) (hready : Ready text w.tree) :
    w'.replaced = true ∧ w'.tree.contents appStart = text := by
  obtain ⟨hbelow, hfile⟩ := Command.exec_move h.exec (Tree.isDir_of_contents hstarted)
  exact ⟨h.replaced rfl, (Tree.contents_of_below hbelow).trans (hready (hfile hstarted))⟩

section FailSafe

variable {s : Slot} {cs : List Command} {reason : String}

theorem runs_run {c : Cmd} {next : ℕ → Prog} (h : Inv S w)
    (hnext : ∀ o, S.allowed c o → Runs S (next (perform c o w).1) (perform c o w).2) :
    Runs S (.run c next) w :=
  ⟨h, hnext⟩

theorem runs_loose (hcs : avoids (stateHome "" :: fixed) cs = true) (h : Inv S w) :
    Runs S (loose cs) w := by
  induction cs generalizing w with
  | nil => exact h
  | cons c cs ih =>
    obtain ⟨hc, hcs⟩ := avoids_cons.mp hcs
    exact runs_run h fun o _ => ih hcs (h.keeps (keeps_perform _ o hc))

/-- The launcher is replaced by `app_start.sh.new`, if at all. -/
theorem Inv.select {o : Exit} (h : Inv S w) (hoem : w.tree.contents s.firmware = S.oem)
    (hready : Ready (some (safeStart s)) w.tree) :
    Inv S (perform ⟨false, .move appStartNew appStart⟩ o w).2 := by
  by_cases hstatus : (perform ⟨false, .move appStartNew appStart⟩ o w).1 = 0
  · have hran := (ran_of_perform hstatus).2
    obtain ⟨hreplaced, hlauncher⟩ := hran.select h.started hready
    have hkeeps := hran.keeps (show avoids fixed.tail _ = true by decide)
    exact ⟨(hkeeps.below _ (firmware_mem_tail _)).trans h.donor,
      .safe s hreplaced hlauncher ((hkeeps.contents (firmware_mem_tail s)).trans hoem),
      fun hexact => hkeeps.backup (by decide) (h.backup hexact)⟩
  · exact h.keeps (keeps_of_failed hstatus rfl _)

/-- The invariant holds, and a slot has the firmware of the donor. -/
def Anywhere (S : Setting) (s : Slot) (w : World) : Prop :=
  Inv S w ∧ w.tree.contents s.firmware = S.oem

theorem Anywhere.keeps (h : Anywhere S s w) (hkeeps : Keeps (stateHome "" :: fixed) w w') :
    Anywhere S s w' :=
  ⟨h.1.keeps hkeeps, (hkeeps.contents (mem_cons_of_mem _ (firmware_mem s))).trans h.2⟩

/-- **`fail_safe` keeps the invariant.** -/
theorem runs_failSafe (h : Anywhere S s w) : Runs S (failSafe s reason) w := by
  refine runs_run h.1 fun o _ => ?_
  have h₁ := h.keeps (keeps_perform ⟨false, note reason⟩ o
    (show avoids _ [.write journal []] = true by decide))
  refine runs_run h₁.1 fun o ho => ?_
  -- the write succeeds here, or `app_start.sh.new` is a directory
  obtain rfl := S.canWrite _ _ _ ho rfl rfl
  have h₂ := h₁.keeps (keeps_perform ⟨false, .write appStartNew (safeStart s)⟩ .success
    (show avoids _ [.write appStartNew []] = true by decide))
  refine runs_run h₂.1 fun o _ => ?_
  have h₃ := h₂.keeps (keeps_perform ⟨false, .chmod 0o755 appStartNew⟩ o (by decide))
  refine runs_run h₃.1 fun o' _ => runs_loose (by cases s <;> decide) ?_
  exact h₃.1.select h₃.2 (ready_chmod o Command.run_write)

end FailSafe

/-! ### Phases -/

/-- A condition that is kept by what avoids the paths, and that allows for `fail_safe`. -/
structure Phase (S : Setting) (s : Slot) (roots : List Path) (I : World → Prop) : Prop where
  inv : ∀ {w}, I w → Inv S w
  fails : ∀ {w reason}, I w → Runs S (failSafe s reason) w
  keeps : ∀ {w w'}, I w → Keeps roots w w' → I w'

/-- A path, and what is known of all that is below it. -/
abbrev Fact := Path × (Tree → Prop)

/-- A condition, and what is known of some paths. -/
def At (I : World → Prop) (facts : List Fact) (w : World) : Prop :=
  I w ∧ ∀ fact ∈ facts, fact.2 (w.tree.below fact.1)

namespace At

variable {I : World → Prop} {fact : Fact} {facts : List Fact}

theorem cons (h : At I facts w) (hfact : fact.2 (w.tree.below fact.1)) : At I (fact :: facts) w :=
  ⟨h.1, forall_mem_cons.mpr ⟨hfact, h.2⟩⟩

theorem head (h : At I (fact :: facts) w) : fact.2 (w.tree.below fact.1) := h.2 _ mem_cons_self

theorem tail (h : At I (fact :: facts) w) : At I facts w :=
  ⟨h.1, fun _ hfact => h.2 _ (mem_cons_of_mem _ hfact)⟩

/-- What is known of the paths that have not changed. -/
theorem keep {I' : World → Prop} {roots : List Path} (h : At I facts w) (hI : I' w')
    (hkeeps : Keeps roots w w') (hfacts : facts.map Prod.fst ⊆ roots) : At I' facts w' := by
  refine ⟨hI, fun fact hfact => ?_⟩
  rw [hkeeps.below _ (hfacts (mem_map_of_mem hfact))]
  exact h.2 fact hfact

end At

namespace Phase

variable {s : Slot} {roots : List Path} {I : World → Prop} {c : Command} {cs : List Command}
  {phase : String} {next : Prog} (hI : Phase S s roots I)

include hI

theorem knowing (facts : List Fact) (paths : List Path) (hpaths : facts.map Prod.fst = paths) :
    Phase S s (roots ++ paths) (At I facts) where
  inv h := hI.inv h.1
  fails h := hI.fails h.1
  keeps h hkeeps := h.keep (hI.keeps h.1 (hkeeps.mono (subset_append_left _ _))) hkeeps
    (hpaths ▸ subset_append_right _ _)

/-- **One command under `set -e`.** -/
theorem cons (h : I w)
    (hfail : ∀ o, S.allowed ⟨true, c⟩ o → (perform ⟨true, c⟩ o w).1 ≠ 0 →
      I (perform ⟨true, c⟩ o w).2)
    (hok : ∀ w', Ran c w w' → Runs S (strict (failed s phase) cs next) w') :
    Runs S (strict (failed s phase) (c :: cs) next) w := by
  refine runs_run (hI.inv h) fun o ho => ?_
  split_ifs with hstatus
  · exact hok _ (ran_of_perform hstatus).2
  · exact hI.fails (hfail o ho hstatus)

/-- One command that changes nothing if it fails. -/
theorem atomic (h : I w) (hc : c.atomic = true)
    (hok : ∀ w', Ran c w w' → Runs S (strict (failed s phase) cs next) w') :
    Runs S (strict (failed s phase) (c :: cs) next) w :=
  hI.cons h (fun _ _ hstatus => hI.keeps h (keeps_of_failed hstatus hc roots)) hok

/-- One command that avoids the paths. -/
theorem step (h : I w) (hc : avoids roots [c] = true)
    (hok : ∀ w', I w' → Ran c w w' → Runs S (strict (failed s phase) cs next) w') :
    Runs S (strict (failed s phase) (c :: cs) next) w :=
  hI.cons h (fun o _ _ => hI.keeps h (keeps_perform _ o hc)) fun w' hran =>
    hok w' (hI.keeps h (hran.keeps hc)) hran

/-- **Commands that avoid the paths.** -/
theorem strict (h : I w) (hcs : avoids roots cs = true) (hnext : ∀ w, I w → Runs S next w) :
    Runs S (strict (failed s phase) cs next) w := by
  induction cs generalizing w with
  | nil => exact hnext w h
  | cons c cs ih =>
    obtain ⟨hc, hcs⟩ := avoids_cons.mp hcs
    exact hI.step h hc fun w' h' _ => ih h' hcs

/-- A phase goes on with one of the branches of a test. -/
theorem test {cond : Test} {yes no : Prog} (h : I w)
    (hyes : ∀ w', I w' → cond.holds w'.tree = true → Runs S yes w')
    (hno : ∀ w', I w' → (S.Exact → (∀ name, cond ≠ .host name) → cond.holds w'.tree = false) →
      Runs S no w') : Runs S (test cond yes no) w := by
  refine runs_run (hI.inv h) fun o ho => ?_
  have h' := hI.keeps h (keeps_perform ⟨true, .test cond⟩ o (by simp [avoids, Command.avoids]))
  have htree : (perform ⟨true, .test cond⟩ o w).2.tree = w.tree :=
    funext fun q => Command.run_of_not_touches rfl
  split_ifs with hstatus
  · have hexec := (ran_of_perform hstatus).2.exec
    simp only [Command.exec, Option.ite_none_right_eq_some] at hexec
    exact hyes _ h' (htree ▸ hexec.1)
  · refine hno _ h' fun hexact hcond => ?_
    rw [htree]
    rcases hexact _ _ ho with rfl | ⟨name, hname⟩
    · refine Bool.eq_false_iff.mpr fun hholds => hstatus ?_
      simp [perform, Command.run, Command.exec, hholds]
    · exact absurd (Command.test.inj hname) (hcond name)

/-- The launcher is replaced, under `set -e`, and the index is written. -/
theorem select {text : Option Contents} {slot : Slot} (roots' : List Path)
    (hchmod : avoids roots [.chmod 0o755 appStartNew] = true)
    (hmove : avoids roots' [.move appStartNew appStart] = true) (h : I w)
    (hready : Ready text w.tree)
    (hnext : ∀ w w', I w → Keeps roots' w w' → w'.replaced = true →
      w'.tree.contents appStart = text →
      Runs S (Installer.strict (failed s phase) ((select slot).tail.tail ++ cs) next) w') :
    Runs S (Installer.strict (failed s phase) (select slot ++ cs) next) w := by
  refine hI.step h hchmod fun w₁ h₁ hran₁ => hI.atomic h₁ rfl fun w₂ hran₂ => ?_
  have hready₁ : Ready text w₁.tree := hran₁.run_eq ▸ ready_chmod .success hready
  obtain ⟨hreplaced, hlauncher⟩ := hran₂.select (hI.inv h₁).started hready₁
  exact hnext _ _ h₁ (hran₂.keeps hmove) hreplaced hlauncher

end Phase

/-- `app_start.sh` and the slots are as they were. -/
structure Untouched (S : Setting) (w : World) : Prop where
  replaced : w.replaced = false
  below : ∀ root ∈ [appStart, Slot.ota1.firmware, Slot.ota2.firmware],
    w.tree.below root = S.tree.below root

/-- Before `app_start.sh` is replaced. -/
def Before (S : Setting) (w : World) : Prop := Untouched S w ∧ (S.Exact → Backup S w)

/-- `app_start.sh` starts the donor. -/
structure Selected (S : Setting) (w : World) : Prop where
  replaced : w.replaced = true
  launcher : w.tree.contents appStart = some (safeStart S.donor)
  donor : w.tree.below S.donor.firmware = S.tree.below S.donor.firmware
  backup : S.Exact → Backup S w

/-- Both slots hold the firmware of the donor. -/
def Restored (S : Setting) (w : World) : Prop :=
  Selected S w ∧ ∀ s : Slot, w.tree.contents s.firmware = S.oem

section Phases

variable {roots : List Path}

theorem Untouched.keeps (h : Untouched S w) (hkeeps : Keeps roots w w')
    (hsub : [appStart, Slot.ota1.firmware, Slot.ota2.firmware] ⊆ roots) : Untouched S w' :=
  ⟨(hkeeps.replaced (hsub (by decide))).trans h.replaced,
    fun root hroot => (hkeeps.below root (hsub hroot)).trans (h.below root hroot)⟩

theorem Untouched.inv (h : Untouched S w) (hbackup : S.Exact → Backup S w) : Inv S w := by
  have hslot : ∀ s : Slot, s.firmware ∈ [appStart, Slot.ota1.firmware, Slot.ota2.firmware] := by
    rintro (_ | _) <;> decide
  exact ⟨h.below _ (hslot _), .original h.replaced (h.below _ (by decide)) (h.below _ (hslot _)),
    hbackup⟩

theorem Backup.of_none (hsaved : w.saved = none) (hcomplete : complete w.tree = false) :
    Backup S w :=
  ⟨by rw [hsaved, hcomplete]; rfl, fun t ht => by simp [hsaved] at ht⟩

theorem Backup.saved_none (h : Backup S w) (hcomplete : complete w.tree = false) : w.saved = none :=
  Option.not_isSome_iff_eq_none.mp (by rw [h.saved, hcomplete]; exact Bool.false_ne_true)

theorem complete_of_none {t : Tree} (h : t.below (stateBackup "") = fun _ => none) :
    complete t = false := by
  have : t (stateBackup "" ++ ["complete"]) = none := congrFun h ["complete"]
  simp [complete, Tree.contents, this]

theorem Selected.keeps (h : Selected S w) (hkeeps : Keeps roots w w')
    (hsub : [appStart, S.donor.firmware, stateBackup ""] ⊆ roots) : Selected S w' where
  replaced := (hkeeps.replaced (hsub (by simp))).trans h.replaced
  launcher := (hkeeps.contents (hsub (by simp))).trans h.launcher
  donor := (hkeeps.below _ (hsub (by simp))).trans h.donor
  backup hexact := hkeeps.backup (hsub (by simp)) (h.backup hexact)

theorem Selected.inv (h : Selected S w) : Inv S w :=
  ⟨h.donor, .safe _ h.replaced h.launcher (Tree.contents_of_below h.donor), h.backup⟩

theorem runs_failed {reason : String} (h : Inv S w) : Runs S (failSafe S.donor reason) w :=
  runs_failSafe ⟨h, Tree.contents_of_below h.donor⟩

theorem Setting.before (S : Setting) : Phase S S.donor fixed (Before S) where
  inv h := h.1.inv h.2
  fails h := runs_failed (h.1.inv h.2)
  keeps h hkeeps :=
    ⟨h.1.keeps hkeeps (by decide), fun hexact => hkeeps.backup (by decide) (h.2 hexact)⟩

theorem Setting.selected (S : Setting) : Phase S S.donor fixed (Selected S) where
  inv h := h.inv
  fails h := runs_failed h.inv
  keeps h hkeeps := h.keeps hkeeps (by cases S.donor <;> decide)

theorem Setting.restored (S : Setting) (s : Slot) : Phase S s fixed (Restored S) where
  inv h := h.1.inv
  fails h := runs_failSafe ⟨h.1.inv, h.2 s⟩
  keeps h hkeeps := ⟨h.1.keeps hkeeps (by cases S.donor <;> decide),
    fun s => (hkeeps.contents (firmware_mem s)).trans (h.2 s)⟩

theorem Setting.anywhere (S : Setting) (s : Slot) :
    Phase S s (stateHome "" :: fixed) (Anywhere S s) := ⟨And.left, runs_failSafe, Anywhere.keeps⟩

end Phases

/-! ### The walk, from its end -/

/-- `app_start.sh` of the archive is unpacked. -/
def start (S : Setting) : Fact :=
  (stage ["app_start.sh"], (· = S.archive.below ["app_start.sh"]))

/-- The home of the agent is unpacked. -/
def agent (S : Setting) : Fact :=
  (stage ["local-state-agent"], (· = S.archive.below ["local-state-agent"]))

/-- The home of the agent is complete. -/
def installed (S : Setting) : Fact :=
  (stateHome "", fun t => S.Exact → t = S.home)

/-- The payload is not a directory. -/
def target (S : Setting) : Fact := (S.slot.firmware, fun t => t.isDir [] = false)

section Walk

variable {next : Prog}

theorem runs_production (h : At (Restored S) [installed S, start S] w)
    (hnext : ∀ w, Inv S w → Runs S next w) : Runs S (Payload.production next) w := by
  have hphase := (S.restored .ota1).knowing [installed S, start S]
    [stateHome "", stage ["app_start.sh"]] rfl
  refine hphase.step h (by decide) fun w₁ h₁ hran => ?_
  have hready : Ready (S.archive.contents ["app_start.sh"]) w₁.tree := fun hdir =>
    (Command.exec_copy hran.exec hdir).trans (Tree.contents_of_below h.tail.head)
  refine hphase.select (stateHome "" :: fixed.tail) (by decide) (by decide) h₁ hready
    fun w w' h hkeeps hreplaced hlauncher => ?_
  have hslot := fun s => mem_cons_of_mem (stateHome "") (firmware_mem_tail s)
  have hoem := fun s => (hkeeps.contents (hslot s)).trans (h.1.2 s)
  refine (S.anywhere .ota1).strict ⟨⟨?_, ?_, ?_⟩, hoem _⟩ (by decide) fun w h => hnext w h.1
  · exact (hkeeps.below _ (hslot _)).trans h.1.1.donor
  · exact .production hreplaced hlauncher hoem fun hexact =>
      (hkeeps.below _ mem_cons_self).trans (h.head hexact)
  · exact fun hexact => hkeeps.backup (by decide) (h.1.1.backup hexact)

theorem runs_restoreSlot (h : At (Selected S) [installed S, target S, start S] w)
    (hnext : ∀ w, At (Restored S) [installed S, start S] w → Runs S next w) :
    Runs S (S.restoreSlot next) w := by
  have hphase := S.selected.knowing [installed S, target S, start S]
    [stateHome "", S.slot.firmware, stage ["app_start.sh"]] rfl
  refine hphase.strict h (by cases S.slot <;> decide) fun w h => ?_
  refine runs_run (hphase.inv h) fun o _ => ?_
  have h₁ := hphase.keeps h (keeps_perform ⟨true, .copy S.donor.firmware S.slot.restore⟩ o
    (by rw [Payload.donor]; cases S.slot <;> decide))
  split_ifs
  · refine hphase.test h₁ (fun w h hsame => ?_) fun w h _ => hphase.fails h
    simp only [Test.holds, Bool.and_eq_true, beq_iff_eq] at hsame
    have hrestore := hsame.2.symm.trans (Tree.contents_of_below h.1.donor)
    refine hphase.step h (by cases S.slot <;> decide) fun w₁ h₁ hran₁ => ?_
    have hrestore₁ : w₁.tree.contents S.slot.restore = S.oem :=
      hran₁.run_eq ▸ (Command.run_chmod 0o755 S.slot.restore .success w.tree _).1.trans hrestore
    refine hphase.atomic h₁ rfl fun w₂ hran₂ => ?_
    have hkeeps := hran₂.keeps (show avoids ([appStart, S.donor.firmware, stateBackup ""] ++
      [stateHome "", stage ["app_start.sh"]]) _ = true by
        rw [Payload.donor]; cases S.slot <;> decide)
    have hselected := h₁.1.keeps hkeeps (subset_append_left _ _)
    have hbelow := (Command.exec_move hran₂.exec h₁.tail.head).1
    refine ((S.restored S.donor).knowing [installed S, start S]
      [stateHome "", stage ["app_start.sh"]] rfl).strict ((h₁.tail.tail.cons h₁.head).keep
      ⟨hselected, fun s => ?_⟩ hkeeps (subset_append_right _ _)) (by decide) hnext
    rcases s.eq_or_eq_other S.slot with rfl | rfl
    · exact (Tree.contents_of_below hbelow).trans hrestore₁
    · exact Tree.contents_of_below hselected.donor
  · exact hphase.fails h₁

/-- What is there is moved away. -/
theorem runs_moveAway {I : World → Prop} {roots : List Path} {home : String → Path}
    (hI : Phase S S.donor roots I) (hhome : ¬ home ".pre-bootstrap" <+: home "")
    (hremove : avoids roots [.removeAll (home ".pre-bootstrap")] = true)
    (hmove : avoids roots [.move (home "") (home ".pre-bootstrap")] = true) (h : I w)
    (hnext : ∀ w, I w → (S.Exact → w.tree.isDir (home "") = false) → Runs S next w) :
    Runs S (S.moveAway home next) w := by
  refine hI.test h (fun w h _ => ?_) fun w h hno => hnext w h fun hexact => hno hexact (by simp)
  refine hI.step h hremove fun w h _ => hI.step h hmove fun w h hran => hnext w h fun _ => ?_
  exact Command.exec_move_source hran.exec hhome

theorem runs_installServices (h : At (Selected S) [agent S, target S, start S] w)
    (hnext : ∀ w, At (Selected S) [installed S, target S, start S] w → Runs S next w) :
    Runs S (S.installServices next) w := by
  have hphase := S.selected.knowing [target S, start S]
    [S.slot.firmware, stage ["app_start.sh"]] rfl
  have hstaged := S.selected.knowing [agent S, target S, start S]
    [stage ["local-state-agent"], S.slot.firmware, stage ["app_start.sh"]] rfl
  have hnew := S.selected.knowing [(stateHome ".new", (· = S.home)), target S, start S]
    [stateHome ".new", S.slot.firmware, stage ["app_start.sh"]] rfl
  have hinstalled := S.selected.knowing [installed S, target S, start S]
    [stateHome "", S.slot.firmware, stage ["app_start.sh"]] rfl
  refine hstaged.step h (by cases S.slot <;> decide) fun w h _ => ?_
  refine hstaged.step h (by cases S.slot <;> decide) fun w h hran => ?_
  have hdir := Tree.isDir_of_none (Command.exec_removeAll hran.exec [])
  refine hstaged.atomic h rfl fun w hran => ?_
  have hbelow := (Command.exec_move hran.exec hdir).1.trans h.head
  replace h := hphase.keeps h.tail (hran.keeps (by cases S.slot <;> decide))
  -- the modes are set in the new directory
  refine hphase.step h (by cases S.slot <;> decide) fun w h hran => ?_
  replace hbelow := (Command.exec_chmod hran.exec).trans (congrArg (Tree.change · _ _) hbelow)
  refine hphase.step h (by cases S.slot <;> decide) fun w h hran => ?_
  replace hbelow := (Command.exec_chmod hran.exec).trans (congrArg (Tree.change · _ _) hbelow)
  refine hphase.step h (by cases S.slot <;> decide) fun w h hran => ?_
  replace hbelow := (Command.exec_chmod hran.exec).trans (congrArg (Tree.change · _ _) hbelow)
  refine hphase.step h (by cases S.slot <;> decide) fun w h hran => ?_
  replace hbelow := (Command.exec_chmod hran.exec).trans (congrArg (Tree.change · _ _) hbelow)
  refine hphase.step h (by cases S.slot <;> decide) fun w h hran => ?_
  replace hbelow := (Command.exec_chmodFiles hran.exec).trans (congrArg (Tree.change · _ _) hbelow)
  refine runs_moveAway hnew (by decide) (by cases S.slot <;> decide) (by cases S.slot <;> decide)
    (h.cons hbelow) fun w h hdir => hnew.atomic h rfl fun w' hran => ?_
  have h' := hphase.keeps h.tail (hran.keeps (by cases S.slot <;> decide))
  refine hinstalled.strict (h'.cons fun hexact =>
    (Command.exec_move hran.exec (hdir hexact)).1.trans h.head) (by cases S.slot <;> decide)
    fun w h => ?_
  refine runs_moveAway hinstalled (by decide) (by cases S.slot <;> decide)
    (by cases S.slot <;> decide) h fun w h _ => ?_
  exact hinstalled.strict h (by cases S.slot <;> decide) hnext

/-- The archive is unpacked, and nothing has changed. -/
theorem Setting.staged (S : Setting) : Phase S S.donor (fixed ++ [stage ["local-state-agent"],
    stage ["app_start.sh"]]) (At (Before S) [agent S, start S]) :=
  S.before.knowing [agent S, start S] _ rfl

theorem runs_selectDonor (h : At (Before S) [agent S, start S] w)
    (hnext : ∀ w, At (Selected S) [agent S, target S, start S] w → Runs S next w) :
    Runs S (S.selectDonor next) w := by
  have hrest : ∀ w, At (Before S) [agent S, start S] w →
      Runs S (S.during "selecting_safe_donor" (selectSafeDonor S.donor) next) w := by
    intro w h
    refine S.staged.step h (by cases S.donor <;> decide) fun w h hran => ?_
    rw [← append_nil (select S.donor)]
    refine S.staged.select (fixed.tail ++ [stage ["local-state-agent"], stage ["app_start.sh"]])
      (by decide) (by decide) h (hran.run_eq ▸ Command.run_write)
      fun w w' h hkeeps hreplaced hlauncher => ?_
    have hbelow : ∀ s : Slot, w'.tree.below s.firmware = S.tree.below s.firmware := by
      rintro (_ | _) <;> exact (hkeeps.below _ (by decide)).trans (h.1.1.below _ (by decide))
    have h : At (Selected S) [agent S, start S] w' := h.keep ⟨hreplaced, hlauncher, hbelow _,
      fun hexact => hkeeps.backup (by decide) (h.1.2 hexact)⟩ hkeeps (subset_append_right _ _)
    have htarget := (Tree.isDir_of_below (hbelow S.slot)).trans S.started.target
    exact (S.selected.knowing [agent S, target S, start S] [stage ["local-state-agent"],
      S.slot.firmware, stage ["app_start.sh"]] rfl).strict ((h.tail.cons htarget).cons h.head)
      (by rw [Payload.donor]; cases S.slot <;> decide) hnext
  refine S.staged.test h (fun w h _ => hrest w h) fun w h _ => ?_
  exact S.staged.strict h (by decide) hrest

/-- One part of the state is copied. -/
theorem runs_save {I : World → Prop} {roots : List Path} {name : String} {a : Tree}
    (hI : Phase S S.donor roots I) (hsource : ∀ {w}, I w → w.tree.below ["data", name] = a)
    (hcopy : avoids roots [.copyTree ["data", name] (stateBackup ".new" ++ [name])] = true)
    (h : I w) (hnew : w.tree.below (stateBackup ".new" ++ [name]) = fun _ => none)
    (hnext : ∀ w, I w → (S.Exact → w.tree.below (stateBackup ".new" ++ [name]) = found a) →
      Runs S next w) : Runs S (S.save name next) w := by
  have hroot : ∀ {w}, I w → w.tree ["data", name] = a [] := fun h => congrFun (hsource h) []
  refine (hI.knowing [(stateBackup ".new" ++ [name], (· = fun _ => none))] _ rfl).test ⟨h, by simpa⟩
    (fun w h hyes => ?_) fun w h hno => hnext w h.1 fun hexact => ?_
  · refine hI.step h.1 hcopy fun w' h' hran => hnext w' h' fun _ => ?_
    rw [found, if_pos (hroot h.1 ▸ hyes), ← hsource h.1]
    exact Command.exec_copyTree hran.exec (Tree.isDir_of_none h.head)
  · have := hno hexact (by simp)
    rw [Test.holds, hroot h.1] at this
    rw [found, this]
    exact h.head

theorem runs_preserve (h : At (Before S) [agent S, start S] w)
    (hnext : ∀ w, At (Before S) [agent S, start S] w → Runs S next w) :
    Runs S (S.preserve next) w := by
  refine S.staged.test h (fun w h _ => hnext w h) fun w h hno => ?_
  let new name := stateBackup ".new" ++ [name]
  let source name := w.tree.below ["data", name]
  let gone : Fact := (stateBackup "", fun t => S.Exact → t = fun _ => none)
  let attr : Fact := (new "attr", fun t => S.Exact → t = found (source "attr"))
  let plan : Fact := (new "feed_plan", fun t => S.Exact → t = found (source "feed_plan"))
  let facts := [(["data", "attr"], (· = source "attr")),
    (["data", "feed_plan"], (· = source "feed_plan")), agent S, start S]
  let paths := [["data", "attr"], ["data", "feed_plan"], stage ["local-state-agent"],
    stage ["app_start.sh"]]
  have h : At (Before S) facts w := (h.cons rfl).cons rfl
  have hgone := S.before.knowing (gone :: facts) (stateBackup "" :: paths) rfl
  -- the old backup is removed, as it is not complete
  refine (S.before.knowing facts paths rfl).cons h (fun o ho hstatus => ?_) fun w₁ hran => ?_
  · have hkeeps := keeps_perform (w := w) ⟨true, .removeAll (stateBackup "")⟩ o
      (show avoids (fixed.dropLast ++ paths) _ = true by decide)
    refine h.keep ⟨h.1.1.keeps hkeeps (by decide), fun hexact => ?_⟩ hkeeps
      (subset_append_right _ _)
    rcases hexact _ _ ho with rfl | ⟨_, hname⟩
    · exact absurd rfl hstatus
    · cases hname
  have hkeeps := hran.keeps (show avoids (fixed.dropLast ++ paths) _ = true by decide)
  have hnone := Command.exec_removeAll hran.exec []
  have hbackup : S.Exact → Backup S w₁ := fun hexact => .of_none
    (hkeeps.saved.trans (by
      rw [(h.1.2 hexact).saved_none (hno hexact (by simp)), complete_of_none hnone]; rfl))
    (complete_of_none hnone)
  replace h : At (Before S) facts w₁ := h.keep ⟨h.1.1.keeps hkeeps (by decide), hbackup⟩ hkeeps
    (subset_append_right _ _)
  refine hgone.step (h.cons fun _ => hnone) (by decide) fun w₂ h hran => ?_
  have hnew := Command.exec_removeAll hran.exec
  let absent name : Fact := (new name, (· = fun _ => none))
  refine (S.before.knowing (absent "attr" :: absent "feed_plan" :: gone :: facts)
    (new "attr" :: new "feed_plan" :: stateBackup "" :: paths) rfl).strict
    ((h.cons (hnew ["feed_plan"])).cons (hnew ["attr"])) (by decide) fun w₃ h => ?_
  refine runs_save (S.before.knowing (absent "feed_plan" :: gone :: facts)
    (new "feed_plan" :: stateBackup "" :: paths) rfl) (fun h => h.tail.tail.head) (by decide) h.tail
    h.head fun w₄ h hattr => ?_
  refine runs_save (S.before.knowing (attr :: gone :: facts)
    (new "attr" :: stateBackup "" :: paths) rfl) (fun h => h.tail.tail.tail.head) (by decide)
    (h.tail.cons hattr) h.head fun w₅ h hplan => ?_
  refine (S.before.knowing (plan :: attr :: gone :: facts)
    (new "feed_plan" :: new "attr" :: stateBackup "" :: paths) rfl).step (h.cons hplan) (by decide)
    fun w₆ h _ => ?_
  refine hgone.step h.tail.tail (by decide) fun w₇ h₇ hran₇ => ?_
  refine hgone.atomic h₇ rfl fun w₈ hran₈ => ?_
  have hkeeps := hran₈.keeps (show avoids (fixed.dropLast ++ paths) _ = true by decide)
  have h₈ : At (Untouched S) facts w₈ := h₇.tail.keep (h₇.1.1.keeps hkeeps (by decide)) hkeeps
    (subset_append_right _ _)
  refine S.staged.strict ⟨⟨h₈.1, fun hexact => ?_⟩, h₈.tail.tail.2⟩ (by decide) hnext
  have hbelow := (Command.exec_move hran₈.exec (Tree.isDir_of_none (h₇.head hexact))).1
  have hpart : ∀ name, w₈.tree.below ["data", name] = source name →
      w₆.tree.below (new name) = found (source name) → Saved w₈.tree name := by
    intro name hsource hcopied
    refine (congrArg (Tree.below · [name]) hbelow).trans ?_
    rw [hsource, ← hcopied]
    exact Command.exec_chmodTree hran₇.exec
  have hsaved := hkeeps.saved
  rw [(h₇.1.2 hexact).saved_none (complete_of_none (h₇.head hexact)), Option.none_or] at hsaved
  refine ⟨by rw [hsaved]; cases complete w₈.tree <;> rfl, fun t ht => ?_⟩
  rw [hsaved, Option.ite_none_right_eq_some, Option.some.injEq] at ht
  obtain ⟨-, rfl⟩ := ht
  exact ⟨rfl, .inr ⟨hpart _ h₈.head (h.tail.head hexact), hpart _ h₈.tail.head (h.head hexact)⟩⟩

theorem runs_unpack (h : Before S w)
    (hnext : ∀ w, At (Before S) [agent S, start S] w → Runs S next w) :
    Runs S (S.unpack next) w := by
  have hnoted : ∀ w text status, Before S w → Runs S (S.noted text status) w := by
    intro w text status h
    refine S.before.step h (show avoids fixed [.write journal []] = true by decide) fun w h _ => ?_
    exact S.before.strict h (by decide) fun w h => S.before.fails h
  have hempty := S.before.knowing [(stage ["local-state-agent"], (· = fun _ => none)),
    (stage ["app_start.sh"], (· = fun _ => none))]
    [stage ["local-state-agent"], stage ["app_start.sh"]] rfl
  refine S.before.step h (by decide) fun w h hran => ?_
  have hbelow := Command.exec_removeAll hran.exec
  refine hempty.strict ⟨h, by simpa using ⟨hbelow ["local-state-agent"], hbelow ["app_start.sh"]⟩⟩
    (by decide) fun w h => hempty.test h (fun w h _ => ?_) fun w h _ => hnoted w _ _ h.1
  refine S.before.step h.1 (show avoids fixed [.removeAll (stage [])] = true by decide)
    fun w' h' hran => ?_
  have h₁ : At (Before S) [agent S, start S] w' := by
    refine At.cons (At.cons ⟨h', by simp⟩ ?_) ?_
    · exact Command.exec_extract hran.exec h.tail.head
    · exact Command.exec_extract hran.exec h.head
  -- each of the files is looked for
  change Runs S (Payload.required.foldr _ next) w'
  generalize Payload.required = paths
  clear hran
  induction paths generalizing w' with
  | nil => exact hnext w' h₁
  | cons path paths ih =>
    exact S.staged.test h₁ (fun w h _ => ih w h.1 h) fun w h _ => hnoted w _ _ h.1

/-- **The invariant holds at every point of the script, whatever fails.** -/
theorem runs_body (h : Before S w) : Runs S S.body w := by
  refine S.before.test h (fun w h _ => ?_) fun w h _ => S.before.fails h
  refine S.before.test h (fun w h _ => ?_) fun w h _ => S.before.fails h
  refine S.before.test h (fun w h _ => ?_) fun w h _ => S.before.fails h
  refine runs_unpack h fun w h => ?_
  refine S.staged.test h (fun w h _ => ?_) fun w h _ => S.staged.fails h
  refine S.staged.test h (fun w h _ => ?_) fun w h _ => S.staged.fails h
  refine runs_preserve h fun w h => runs_selectDonor h fun w h => ?_
  refine runs_installServices h fun w h => runs_restoreSlot h fun w h => ?_
  exact runs_production h fun w h => h

end Walk

/-! ### The launcher at the end -/

/-- The feeder before anything of the script has run. -/
def initial (t : Tree) : World := ⟨t, false, if complete t then some t else none, false⟩

theorem before_initial : Before S (initial S.tree) := by
  refine ⟨⟨rfl, fun _ _ => rfl⟩, fun _ => ⟨?_, fun t' ht => ?_⟩⟩
  · rw [initial]
    cases complete S.tree <;> rfl
  · rw [initial, Option.ite_none_right_eq_some, Option.some.injEq] at ht
    exact ⟨ht.2 ▸ rfl, .inl ht.2.symm⟩

theorem launches_safeStart (s s' : Slot) : Payload.launches s (safeStart s') = decide (s = s') := by
  cases s <;> cases s' <;> decide

/-- The launcher is the one that was there, and no rename has replaced it, or it is one of the two
that the script writes, with all its lines, and starts a slot with the firmware of the donor. -/
def Bootable (P : Payload) (t₀ : Tree) (w : World) : Prop :=
  (w.replaced = false ∧ w.tree appStart = t₀ appStart) ∨
    ∃ s text, w.replaced = true ∧ w.tree.contents appStart = some text ∧
      (text = safeStart s ∨ P.archive.contents ["app_start.sh"] = some text) ∧
      Payload.launches s text = true ∧ w.tree.contents s.firmware = t₀.contents P.donor.firmware

theorem Inv.bootable (h : Inv S w) : Bootable S.toPayload S.tree w := by
  cases h.launcher with
  | original hreplaced hlauncher => exact .inl ⟨hreplaced, congrFun hlauncher []⟩
  | safe s hreplaced hlauncher hoem =>
    exact .inr ⟨s, _, hreplaced, hlauncher, .inl rfl, by simp [launches_safeStart], hoem⟩
  | production hreplaced hlauncher hoem =>
    obtain ⟨text, htext, hlaunches⟩ := S.started.production
    exact .inr ⟨.ota1, text, hreplaced, hlauncher.trans htext, .inr htext, hlaunches, hoem _⟩

/-! ### A rename is tried -/

/-- On every way to the end, a rename onto `app_start.sh` is tried. -/
def Tries : Prog → Prop
  | .done _ => False
  | .run c next => c.replaces = true ∨ ∀ status, Tries (next status)

theorem tries_strict {exit : ℕ → Prog} {cs : List Command} {next : Prog}
    (hexit : ∀ status, Tries (exit status))
    (h : (∃ c ∈ cs, Cmd.replaces ⟨true, c⟩ = true) ∨ Tries next) : Tries (strict exit cs next) := by
  induction cs with
  | nil => exact h.resolve_left (by simp)
  | cons c cs ih =>
    by_cases hc : Cmd.replaces ⟨true, c⟩ = true
    · exact .inl hc
    · refine .inr fun status => ?_
      dsimp only
      split_ifs
      · exact ih (by simpa [hc] using h)
      · exact hexit status

theorem tries_test {cond : Test} {yes no : Prog} (hyes : Tries yes) (hno : Tries no) :
    Tries (test cond yes no) := by
  refine .inr fun status => ?_
  dsimp only
  split_ifs
  · exact hyes
  · exact hno

/-- `fail_safe` tries, whatever fails in it. -/
theorem tries_failSafe (safe : Slot) (reason : String) : Tries (failSafe safe reason) :=
  .inr fun _ => .inr fun _ => .inr fun _ => .inl rfl

section

variable {P : Payload} {phase : String} {cs : List Command} {next : Prog}

theorem tries_during (h : Tries next) : Tries (P.during phase cs next) :=
  tries_strict (fun _ => tries_failSafe _ _) (.inr h)

theorem tries_noted (text : String) (status : ℕ) : Tries (P.noted text status) :=
  tries_during (tries_failSafe _ _)

/-- Each of some tests goes on, or ends in a program that tries. -/
theorem tries_tests {α : Type} {l : List α} {cond : α → Test} {no : α → Prog}
    (hno : ∀ a, Tries (no a)) (h : Tries next) :
    Tries (l.foldr (fun a next => test (cond a) next (no a)) next) := by
  induction l with
  | nil => exact h
  | cons a l ih => exact tries_test ih (hno a)

/-- **The script does not end without a rename**, or an attempt. -/
theorem tries_body (P : Payload) : Tries P.body := by
  have hsafe := fun reason => tries_failSafe P.donor reason
  have hproduction : Tries (Payload.production (.done ())) :=
    tries_strict (fun _ => tries_failSafe _ _) (.inl ⟨.move appStartNew appStart, by
      simp [selectProductionOta1, select], rfl⟩)
  have hrestore : Tries (P.restoreSlot (Payload.production (.done ()))) := by
    refine tries_during (.inr fun status => ?_)
    dsimp only
    split_ifs
    · exact tries_test (tries_during hproduction) (hsafe _)
    · exact hsafe _
  have haway : ∀ {home next}, Tries next → Tries (P.moveAway home next) := fun h =>
    tries_test (tries_during h) h
  have hservices : Tries (P.installServices (P.restoreSlot (Payload.production (.done ())))) :=
    tries_during (haway (tries_during (haway (tries_during hrestore))))
  have hselect : ∀ {next}, Tries next → Tries (P.selectDonor next) := fun h =>
    tries_test (tries_during h) (tries_during (tries_during h))
  have hsave : ∀ {name next}, Tries next → Tries (P.save name next) := fun h =>
    tries_test (tries_during h) h
  have hpreserve : ∀ {next}, Tries next → Tries (P.preserve next) := fun h =>
    tries_test h (tries_during (hsave (hsave (tries_during h))))
  refine tries_tests (fun _ => hsafe _)
    (tries_during (tries_test (tries_during ?_) (tries_noted _ _)))
  refine tries_tests (fun _ => tries_noted _ _) (tries_test (tries_test ?_ (hsafe _)) (hsafe _))
  exact hpreserve (hselect hservices)

end

theorem Tries.always (A : Cmd → Exit → Prop) {prog : Prog} (h : w.tried = true ∨ Tries prog) :
    (device A).Always (fun _ _ => True) (fun _ w => w.tried = true) prog w := by
  induction prog generalizing w with
  | done _ => exact h.resolve_right id
  | run c next ih =>
    refine ⟨trivial, fun o _ => ih _ ?_⟩
    change (w.tried || c.replaces) = true ∨ _
    rw [Bool.or_eq_true]
    rcases h with h | h | h
    · exact .inl (.inl h)
    · exact .inl (.inr h)
    · exact .inr (h _)

/-- **The launcher is complete**, whatever fails after the trap is set, except for the write of
`app_start.sh.new` in `fail_safe`. When the script has ended, with or without `fail_safe`, a rename
was tried, so the launcher is the old one only if every attempt failed. -/
theorem fail_safe_complete {P : Payload} {t₀ : Tree} {A : Cmd → Exit → Prop} {rest : Prog}
    (hP : Start P t₀) (hA : CanWrite A)
    (h : (device A).Reaches (P.body, initial t₀) (rest, w)) :
    Bootable P t₀ w ∧ (rest = .done () → w.tried = true) := by
  have hbody := h.always (runs_body (S := ⟨P, t₀, A, hP, hA⟩) before_initial)
  have htried := h.always (Tries.always A (.inr (tries_body P)))
  cases rest with
  | done _ => exact ⟨Inv.bootable hbody, fun _ => htried⟩
  | run c next => exact ⟨Inv.bootable hbody.1, nofun⟩

/-- A payload in the second slot, with a full archive. -/
def samplePayload : Payload where
  slot := .ota2
  text := ['p']
  archive p :=
    if p = ["app_start.sh"] then some (.file Slot.ota1.line 0o644)
    else if p ∈ Payload.required then some (.file ['x'] 0o600)
    else if p = ["local-state-agent"] ∨ p = ["dropbear"] then some (.dir 0o755) else none

/-- The files of a feeder that starts the payload. -/
def sampleTree : Tree := fun p =>
  if p = Slot.ota1.firmware then some (.file ['\x7f', 'E', 'L', 'F'] 0o755)
  else if p = Slot.ota2.firmware then some (.file ['p'] 0o755)
  else if p = appStart then some (.file Slot.ota2.line 0o755) else none

theorem start_sample : Start samplePayload sampleTree := by
  refine ⟨by decide, by decide, Slot.ota1.line, by decide, by decide⟩

/-- `flock` is missing, and `fail_safe` runs to its end. -/
theorem fail_safe_complete_sample :
    ∃ w, (device fun c o => c.errexit = false → o = .success).Reaches
        (samplePayload.body, initial sampleTree) (.done (), w) ∧
      w.replaced = true ∧ Bootable samplePayload sampleTree w ∧ w.tried = true := by
  have hallows : (device fun c o => c.errexit = false → o = .success).Allows samplePayload.body
      (.failure 0 sampleTree :: List.replicate 9 .success) (initial sampleTree) :=
    ⟨Bool.noConfusion, Device.allows_of_forall _ _ _ fun _ ho _ _ _ => eq_of_mem_replicate ho⟩
  have h : (device fun c o => c.errexit = false → o = .success).Reaches
      (samplePayload.body, initial sampleTree) (.done (), _) := Device.reaches_exec hallows
  obtain ⟨hbootable, htried⟩ := fail_safe_complete start_sample (fun _ _ _ h hloose _ => h hloose) h
  exact ⟨_, h, by decide, hbootable, htried rfl⟩

/-- `flock` is missing, and `app_start.sh.new` cannot be written. -/
def sampleFaults : List Exit :=
  [.failure 0 sampleTree, .success, .failure 0 fun _ => some (.file [] 0o644)] ++
    List.replicate 7 .success

/-- The launcher is replaced by an empty file. -/
theorem fail_safe_truncates :
    ∃ w, (device fun _ _ => True).Reaches (samplePayload.body, initial sampleTree) (.done (), w) ∧
      w.tree.contents appStart = some [] :=
  ⟨_, Device.reaches_exec (Device.allows_of_forall _ sampleFaults _ fun _ _ _ _ => trivial),
    by decide⟩

end PetlibroLocal.Installer
