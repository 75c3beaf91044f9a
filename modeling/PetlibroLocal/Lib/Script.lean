import Mathlib.Logic.Relation

/-!
# Scripts That May Be Cut Off

A `Script` runs commands one after the other and decides by their answers how to go on. A
`Device` says what a command does to the world: `perform` for each outcome that the command
can have, `allowed` for the outcomes that are considered.

`Device.Always pre post` is the rule of pre- and postconditions: `pre c` holds whenever the
script is about to run the command `c`, and `post` holds when it ends. Since a script can be
cut off between two commands, `pre` is also what is left behind by a script that was cut off.

A `System` starts scripts, cuts them off and starts them again, any number of times; other
changes of the world happen between scripts only.
-/

namespace PetlibroLocal

/-- A script has ended, or it runs a command and goes on with the answer. -/
inductive Script (C : Type) (R : C → Type) (α : Type)
  | done (result : α)
  | run (command : C) (next : R command → Script C R α)

namespace Script

variable {C : Type} {R : C → Type} {α β : Type}

/-- One script after the other. -/
def bind : Script C R α → (α → Script C R β) → Script C R β
  | .done a, f => f a
  | .run c next, f => .run c fun r => (next r).bind f

/-- The script of one command. -/
def command (c : C) : Script C R (R c) := .run c .done

instance : Monad (Script C R) where
  pure := .done
  bind := bind

/-- The command that is about to run. -/
def command? : Script C R α → Option C
  | .done _ => none
  | .run c _ => some c

/-- The script runs commands of the given kind only. -/
def Only (P : C → Prop) : Script C R α → Prop
  | .done _ => True
  | .run c next => P c ∧ ∀ r, (next r).Only P

theorem only_bind {P : C → Prop} {s : Script C R α} {f : α → Script C R β}
    (hs : s.Only P) (hf : ∀ a, (f a).Only P) : (s >>= f).Only P := by
  induction s with
  | done a => exact hf a
  | run c next ih => exact ⟨hs.1, fun r => ih r (hs.2 r)⟩

end Script

/-- What commands do to the world: `perform` for each outcome, and the outcomes that they can
have. -/
structure Device (C : Type) (R : C → Type) (O W : Type) where
  perform : (c : C) → O → W → R c × W
  allowed : W → C → O → Prop

namespace Device

variable {C : Type} {R : C → Type} {O W α β : Type} (D : Device C R O W)

/-! ### Pre- and postconditions -/

/-- `pre` holds in front of every command, and `post` at the end. -/
def Always (pre : C → W → Prop) (post : α → W → Prop) : Script C R α → W → Prop
  | .done a, w => post a w
  | .run c next, w =>
    pre c w ∧ ∀ o, D.allowed w c o →
      Always pre post (next (D.perform c o w).1) (D.perform c o w).2

variable {D} {pre : C → W → Prop} {post post' : α → W → Prop}

variable {w : W} {s : Script C R α} {x : Script C R α × W}

theorem Always.mono (h : D.Always pre post s w) (hpost : ∀ a w, post a w → post' a w) :
    D.Always pre post' s w := by
  induction s generalizing w with
  | done a => exact hpost a w h
  | run c next ih => exact ⟨h.1, fun o ho => ih _ (h.2 o ho)⟩

/-- **Sequencing**: the second script starts where the first one ends. -/
theorem always_bind {f : α → Script C R β} {post : β → W → Prop} :
    D.Always pre post (s >>= f) w ↔ D.Always pre (fun a w => D.Always pre post (f a) w) s w := by
  induction s generalizing w with
  | done a => exact Iff.rfl
  | run c next ih => exact and_congr_right fun _ => forall₂_congr fun _ _ => ih _

theorem Always.bind {f : α → Script C R β} {post' : β → W → Prop} (hs : D.Always pre post s w)
    (hf : ∀ a w, post a w → D.Always pre post' (f a) w) : D.Always pre post' (s >>= f) w :=
  always_bind.mpr (hs.mono hf)

/-- **The frame rule**: a condition that every command of the script keeps holds all along. -/
theorem always_of_only {P : C → Prop} {K : W → Prop} (hs : s.Only P)
    (hpre : ∀ c w, P c → K w → pre c w)
    (hkeep : ∀ c o w, P c → K w → D.allowed w c o → K (D.perform c o w).2)
    (hpost : ∀ a w, K w → post a w) (hw : K w) : D.Always pre post s w := by
  induction s generalizing w with
  | done a => exact hpost a w hw
  | run c next ih =>
    exact ⟨hpre c w hs.1 hw, fun o ho => ih _ (hs.2 _) (hkeep c o w hs.1 hw ho)⟩

/-! ### Runs -/

/-- The next command runs. -/
inductive Step (D : Device C R O W) : Script C R α × W → Script C R α × W → Prop
  | command {c : C} {next : R c → Script C R α} {w : W} {o : O} (ho : D.allowed w c o) :
      Step D (.run c next, w) (next (D.perform c o w).1, (D.perform c o w).2)

/-- The script has run some commands. -/
def Reaches (D : Device C R O W) : Script C R α × W → Script C R α × W → Prop :=
  Relation.ReflTransGen D.Step

theorem Step.always {y : Script C R α × W} (h : D.Step x y) (hx : D.Always pre post x.1 x.2) :
    D.Always pre post y.1 y.2 := by
  cases h with
  | command ho => exact hx.2 _ ho

/-- **The conditions hold all along the run.** -/
theorem Reaches.always {y : Script C R α × W} (h : D.Reaches x y) (hx : D.Always pre post x.1 x.2) :
    D.Always pre post y.1 y.2 := by
  induction h with
  | refl => exact hx
  | tail _ hstep ih => exact hstep.always ih

theorem reaches_done {a : α} (h : D.Reaches (.done a, w) x) : x = (.done a, w) := by
  rcases Relation.ReflTransGen.cases_head h with rfl | ⟨y, hstep, -⟩
  · rfl
  · cases hstep

/-- The script with the given outcomes of its commands, as far as they go. -/
def exec (D : Device C R O W) : Script C R α → List O → W → Script C R α × W
  | .done a, _, w => (.done a, w)
  | .run c next, [], w => (.run c next, w)
  | .run c next, o :: os, w => D.exec (next (D.perform c o w).1) os (D.perform c o w).2

/-- The given outcomes are among those considered. -/
def Allows (D : Device C R O W) : Script C R α → List O → W → Prop
  | .run c next, o :: os, w =>
    D.allowed w c o ∧ D.Allows (next (D.perform c o w).1) os (D.perform c o w).2
  | _, _, _ => True

/-- Outcomes that every command can have. -/
theorem allows_of_forall (s : Script C R α) (os : List O) (w : W)
    (h : ∀ o ∈ os, ∀ w c, D.allowed w c o) : D.Allows s os w := by
  induction os generalizing s w with
  | nil => cases s <;> trivial
  | cons o os ih =>
    obtain ⟨ho, hos⟩ := List.forall_mem_cons.mp h
    cases s with
    | done a => trivial
    | run c next => exact ⟨ho w c, ih _ _ hos⟩

theorem reaches_exec {os : List O} (h : D.Allows s os w) : D.Reaches (s, w) (D.exec s os w) := by
  induction os generalizing s w with
  | nil => cases s <;> exact Relation.ReflTransGen.refl
  | cons o os ih =>
    cases s with
    | done a => exact Relation.ReflTransGen.refl
    | run c next => exact Relation.ReflTransGen.head (Step.command h.1) (ih h.2)

end Device

/-- A world in which scripts are started and cut off. -/
structure System (C : Type) (R : C → Type) (O W α : Type) extends Device C R O W where
  script : Script C R α
  mayKill : W → Prop
  outside : W → W → Prop

namespace System

variable {C : Type} {R : C → Type} {O W α : Type} {S : System C R O W α}

/-- One step, of the script that runs or between scripts. -/
inductive Step (S : System C R O W α) :
    Option (Script C R α) × W → Option (Script C R α) × W → Prop
  | start (w : W) : Step S (none, w) (some S.script, w)
  | command {x y : Script C R α × W} (h : S.toDevice.Step x y) :
      Step S (some x.1, x.2) (some y.1, y.2)
  | finish (a : α) (w : W) : Step S (some (.done a), w) (none, w)
  | kill (s : Script C R α) {w : W} (hkill : S.mayKill w) : Step S (some s, w) (none, w)
  | outside {w w' : W} (h : S.outside w w') : Step S (none, w) (none, w')

/-- Any number of steps. -/
def Reaches (S : System C R O W α) :
    Option (Script C R α) × W → Option (Script C R α) × W → Prop :=
  Relation.ReflTransGen S.Step

/-- What the invariant `I` says of a world between scripts, and the conditions `pre` and
`post` of a script that runs. -/
def Safe (S : System C R O W α) (I : W → Prop) (pre : C → W → Prop) (post : α → W → Prop) :
    Option (Script C R α) × W → Prop
  | (none, w) => I w
  | (some s, w) => S.toDevice.Always pre post s w

theorem Safe.world {I : W → Prop} {s : Option (Script C R α)} {w : W}
    (h : S.Safe I (fun _ => I) (fun _ => I) (s, w)) : I w := by
  cases s with
  | none => exact h
  | some s =>
    cases s with
    | done a => exact h
    | run c next => exact h.1

/-- **The rule for scripts that are cut off and started again.** -/
theorem Reaches.invariant {I : W → Prop} {pre : C → W → Prop} {post : α → W → Prop}
    (hstart : ∀ w, I w → S.toDevice.Always pre post S.script w)
    (hkill : ∀ c w, pre c w → S.mayKill w → I w) (hfinish : ∀ a w, post a w → I w)
    (houtside : ∀ w w', S.outside w w' → I w → I w')
    {x y : Option (Script C R α) × W} (h : S.Reaches x y) (hx : S.Safe I pre post x) :
    S.Safe I pre post y := by
  induction h with
  | refl => exact hx
  | tail _ hstep ih =>
    cases hstep with
    | start w => exact hstart w ih
    | command h => exact h.always ih
    | finish a w => exact hfinish a w ih
    | kill s hk =>
      cases s with
      | done a => exact hfinish a _ ih
      | run c next => exact hkill c _ ih.1 hk
    | outside h => exact houtside _ _ h ih

theorem reaches_of_reaches {x y : Script C R α × W} (h : S.toDevice.Reaches x y) :
    S.Reaches (some x.1, x.2) (some y.1, y.2) := by
  induction h with
  | refl => exact Relation.ReflTransGen.refl
  | tail _ hstep ih => exact ih.tail (Step.command hstep)

theorem reaches_run {os : List O} {w : W} (h : S.toDevice.Allows S.script os w) :
    S.Reaches (none, w) (some (S.exec S.script os w).1, (S.exec S.script os w).2) :=
  (reaches_of_reaches (Device.reaches_exec h)).head (Step.start w)

theorem reaches_cut {os : List O} {w : W} (h : S.toDevice.Allows S.script os w)
    (hkill : S.mayKill (S.exec S.script os w).2) :
    S.Reaches (none, w) (none, (S.exec S.script os w).2) :=
  (reaches_run h).tail (Step.kill _ hkill)

end System

end PetlibroLocal
