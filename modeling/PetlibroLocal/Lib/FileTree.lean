import Mathlib.Data.List.Infix
import Mathlib.Data.Nat.Notation

/-!
# File Trees and the Commands That Change Them

A file tree gives the node at each path. A command changes the nodes at some paths only, whether it
succeeds or fails; one that fails can leave anything at these paths, unless it is atomic.
-/

namespace PetlibroLocal.FileTree

open List

/-- The names of the directories on the way, and of the file. -/
abbrev Path := List String

/-- The bytes of a file. -/
abbrev Contents := List Char

/-- What is at a path. -/
inductive Node
  | file (contents : Contents) (mode : ℕ)
  | dir (mode : ℕ)
  | link (target : String)
  deriving DecidableEq, Repr

/-- The node at each path. -/
abbrev Tree := Path → Option Node

namespace Node

/-- The contents of a file. -/
def contents? : Node → Option Contents
  | file contents _ => some contents
  | _ => none

/-- A change of the mode. -/
def chmod (f : ℕ → ℕ) : Node → Node
  | file contents mode => file contents (f mode)
  | dir mode => dir (f mode)
  | link target => link target

/-- A change of the mode, if the node is a file. -/
def chmodFile (mode : ℕ) : Node → Node
  | file contents _ => file contents mode
  | n => n

end Node

namespace Tree

/-- The contents of the file at a path. -/
def contents (t : Tree) (p : Path) : Option Contents := (t p).bind Node.contents?

/-- The tree with another node at a path. -/
def set (t : Tree) (p : Path) (n : Node) : Tree := fun q => if q = p then some n else t q

/-- The tree with a file at a path; one that is there keeps its mode. -/
def put (t : Tree) (p : Path) (contents : Contents) (mode : ℕ) : Tree :=
  t.set p (.file contents (match t p with
    | some (.file _ mode) => mode
    | _ => mode))

/-- The tree with a change at all paths of a kind. -/
def change (t : Tree) (at_ : Path → Bool) (f : Node → Node) : Tree :=
  fun q => if at_ q then (t q).map f else t q

/-- The tree without a path and all that is below it. -/
def remove (t : Tree) (p : Path) : Tree := fun q => if p <+: q then none else t q

/-- The tree with all that `s` has below `p` at the path `q`. -/
def graft (t : Tree) (q : Path) (s : Tree) (p : Path) : Tree :=
  fun r => if q <+: r then s (p ++ r.drop q.length) else t r

/-- There is a directory. -/
def isDir (t : Tree) (p : Path) : Bool :=
  match t p with
  | some (.dir _) => true
  | _ => false

/-- Where `cp` and `mv` put `src`: a directory takes it in. -/
def target (t : Tree) (src dst : Path) : Path :=
  if t.isDir dst then dst ++ src.drop (src.length - 1) else dst

/-- `mv` replaces a file by a file only. -/
def mayMove (t : Tree) (src dst : Path) : Bool :=
  (t src).isSome && ((t (t.target src dst)).isNone || !t.isDir src && !t.isDir (t.target src dst))

/-- All that is below a path. -/
def below (t : Tree) (p : Path) : Tree := fun r => t (p ++ r)

variable {t t' : Tree} {p q : Path}

theorem contents_of_below (h : t'.below q = t.below p) : t'.contents q = t.contents p := by
  have := congrFun h []
  rw [below, below, append_nil, append_nil] at this
  rw [contents, contents, this]

theorem isDir_of_below (h : t'.below q = t.below p) : t'.isDir q = t.isDir p := by
  have := congrFun h []
  rw [below, below, append_nil, append_nil] at this
  rw [isDir, isDir, this]

theorem isDir_of_none (h : t.below p = fun _ => none) : t.isDir p = false := by
  have := congrFun h []
  rw [below, append_nil] at this
  rw [isDir, this]

theorem isDir_of_contents (h : (t.contents p).isSome = true) : t.isDir p = false := by
  rw [contents] at h
  rw [isDir]
  split
  · next hp => simp [hp, Node.contents?] at h
  · rfl

end Tree

/-- A test, of the tree or of something else. -/
inductive Test
  | isFile (p : Path)
  | exists (p : Path)
  | isDir (p : Path)
  | nonEmpty (p : Path)
  | executable (p : Path)
  | contains (p : Path) (f : Contents → Bool)
  | same (p q : Path)
  | host (name : String)

/-- The test of a tree; the other ones are met. -/
def Test.holds (t : Tree) : Test → Bool
  | isFile p => (t.contents p).isSome
  | .exists p => (t p).isSome
  | isDir p => t.isDir p
  | nonEmpty p => (t p).isSome && t.contents p != some []
  | executable p =>
    match t p with
    | some (.file _ mode) => mode &&& 0o111 != 0
    | some (.dir _) => true
    | _ => false
  | contains p f => (t.contents p).any f
  | same p q => (t.contents p).isSome && t.contents p == t.contents q
  | host _ => true

/-- A command of the shell. -/
inductive Command
  | write (p : Path) (text : Contents)
  | touch (p : Path)
  | link (target : String) (p : Path)
  | copy (src dst : Path)
  | copyTree (src dst : Path)
  | move (src dst : Path)
  | removeAll (p : Path)
  | makeDirs (p : Path)
  | chmod (mode : ℕ) (p : Path)
  | chmodFiles (mode : ℕ) (p : Path)
  | chmodTree (f : ℕ → ℕ) (p : Path)
  | extract (archive : Tree) (p : Path)
  | sync
  | test (t : Test)

/-- How a command ends: as it should, or with an error, which leaves something behind. -/
inductive Exit
  | success
  | failure (status : ℕ) (left : Tree)

namespace Command

/-- The tree behind the command, if it can succeed. -/
def exec (t : Tree) : Command → Option Tree
  | write p text => if t.isDir p then none else some (t.put p text 0o644)
  | touch p => some (if (t p).isSome then t else t.set p (.file [] 0o644))
  | link target p => some (t.set p (.link target))
  | copy src dst =>
    match t src with
    | some (.file contents mode) => some (t.put (t.target src dst) contents mode)
    | _ => none
  | copyTree src dst => if (t src).isSome then some (t.graft (t.target src dst) t src) else none
  | move src dst =>
    if t.mayMove src dst then some ((t.remove src).graft (t.target src dst) t src) else none
  | removeAll p => some (t.remove p)
  | makeDirs p => some fun q => if q <+: p ∧ t q = none then some (.dir 0o755) else t q
  | chmod mode p =>
    if (t p).isSome then some (t.change (· = p) (Node.chmod fun _ => mode)) else none
  | chmodFiles mode p => some (t.change p.isPrefixOf (Node.chmodFile mode))
  | chmodTree f p => some (t.change p.isPrefixOf (Node.chmod f))
  | extract archive p =>
    some fun q => if p <+: q then (archive (q.drop p.length)).or (t q) else t q
  | sync => some t
  | test cond => if cond.holds t then some t else none

/-- The paths that a command can change. -/
def touches (q : Path) : Command → Bool
  | write p _ | touch p | link _ p | chmod _ p => q = p
  | copy _ p | copyTree _ p | removeAll p | chmodFiles _ p | chmodTree _ p | extract _ p => p <+: q
  | move src dst => src <+: q ∨ dst <+: q
  | makeDirs p => q <+: p
  | sync | test _ => false

/-- A command that fails without a trace. -/
def atomic : Command → Bool
  | move _ _ | chmod _ _ | sync | test _ => true
  | _ => false

/-- The exit status of a command, and the tree that it leaves. -/
def run (c : Command) (o : Exit) (t : Tree) : ℕ × Tree :=
  match o with
  | .success =>
    match c.exec t with
    | some t' => (0, t')
    | none => (1, t)
  | .failure status left =>
    (status + 1, if c.atomic then t else fun q => if c.touches q then left q else t q)

variable {c : Command} {o : Exit} {t t' : Tree} {p q root src dst : Path}

theorem prefix_target : dst <+: t.target src dst := by
  rw [Tree.target]
  split_ifs
  · exact prefix_append _ _
  · exact prefix_refl _

theorem exec_of_not_touches (h : c.touches q = false) (hexec : c.exec t = some t') :
    t' q = t q := by
  have htarget : ∀ src {dst : Path}, ¬ dst <+: q → ¬ t.target src dst <+: q :=
    fun _ _ hdst hq => hdst (prefix_target.trans hq)
  cases c with
  | write p text =>
    simp only [exec, Option.ite_none_left_eq_some, Option.some.injEq] at hexec
    exact hexec.2 ▸ if_neg (of_decide_eq_false h)
  | touch p =>
    cases hexec
    split_ifs
    · rfl
    · exact if_neg (of_decide_eq_false h)
  | link target p => exact Option.some.inj hexec ▸ if_neg (of_decide_eq_false h)
  | copy src dst =>
    have hdst := htarget src (of_decide_eq_false h)
    simp only [exec] at hexec
    split at hexec
    · exact Option.some.inj hexec ▸ if_neg fun (heq : q = _) => hdst (heq ▸ prefix_refl q)
    · cases hexec
  | copyTree src dst =>
    simp only [exec, Option.ite_none_right_eq_some, Option.some.injEq] at hexec
    exact hexec.2 ▸ if_neg (htarget src (of_decide_eq_false h))
  | move src dst =>
    obtain ⟨hsrc, hdst⟩ := not_or.mp (of_decide_eq_false h)
    obtain ⟨-, ⟨⟩⟩ := Option.ite_none_right_eq_some.mp hexec
    exact (if_neg (htarget src hdst)).trans (if_neg hsrc)
  | removeAll p => exact Option.some.inj hexec ▸ if_neg (of_decide_eq_false h)
  | makeDirs p => exact Option.some.inj hexec ▸ if_neg fun hq => of_decide_eq_false h hq.1
  | chmod mode p =>
    simp only [exec, Option.ite_none_right_eq_some, Option.some.injEq] at hexec
    exact hexec.2 ▸ if_neg (by simpa [touches] using h)
  | chmodFiles mode p | chmodTree f p =>
    exact Option.some.inj hexec ▸ if_neg fun hq =>
      of_decide_eq_false h ( isPrefixOf_iff_prefix.mp hq)
  | extract archive p => exact Option.some.inj hexec ▸ if_neg (of_decide_eq_false h)
  | sync => exact Option.some.inj hexec ▸ rfl
  | test cond =>
    simp only [exec, Option.ite_none_right_eq_some, Option.some.injEq] at hexec
    exact hexec.2 ▸ rfl

/-- **A command changes what it touches, and nothing else.** -/
theorem run_of_not_touches (h : c.touches q = false) : (c.run o t).2 q = t q := by
  cases o with
  | success =>
    rw [run]
    cases hexec : c.exec t with
    | some t' => exact exec_of_not_touches h hexec
    | none => rfl
  | failure status left =>
    rw [run]
    split_ifs
    · rfl
    · simp only [h, Bool.false_eq_true, if_false]

/-- A change of the mode changes nothing else. -/
theorem run_chmod (mode : ℕ) (p : Path) (o : Exit) (t : Tree) (q : Path) :
    ((chmod mode p).run o t).2.contents q = t.contents q ∧
      ((chmod mode p).run o t).2.isDir q = t.isDir q := by
  cases o with
  | success =>
    rw [run, exec]
    split_ifs
    · simp only [Tree.contents, Tree.isDir, Tree.change]
      split_ifs
      · rcases t q with _ | ⟨_ | _ | _⟩ <;> exact ⟨rfl, rfl⟩
      · exact ⟨rfl, rfl⟩
    · exact ⟨rfl, rfl⟩
  | failure status left => exact ⟨rfl, rfl⟩

/-- The mode changes at one path below a root. -/
theorem exec_chmod {mode : ℕ} (hexec : (chmod mode (root ++ p)).exec t = some t') :
    t'.below root = (t.below root).change (· = p) (.chmod fun _ => mode) := by
  obtain ⟨-, ⟨⟩⟩ := Option.ite_none_right_eq_some.mp hexec
  funext r
  simp [Tree.below, Tree.change]

theorem exec_chmodFiles {mode : ℕ} (hexec : (chmodFiles mode (root ++ p)).exec t = some t') :
    t'.below root = (t.below root).change p.isPrefixOf (.chmodFile mode) := by
  cases hexec
  funext r
  simp [Tree.below, Tree.change, prefix_append_right_inj]

theorem exec_chmodTree {f : ℕ → ℕ} (hexec : (chmodTree f p).exec t = some t') :
    t'.below (p ++ q) = (t.below (p ++ q)).change (fun _ => true) (.chmod f) := by
  cases hexec
  funext r
  simp [Tree.below, Tree.change]

theorem exec_removeAll (hexec : (removeAll p).exec t = some t') (q : Path) :
    t'.below (p ++ q) = fun _ => none := by
  cases hexec
  funext r
  simp [Tree.below, Tree.remove]

theorem exec_extract {archive : Tree} (hexec : (extract archive p).exec t = some t')
    (h : t.below (p ++ q) = fun _ => none) :
    t'.below (p ++ q) = archive.below q := by
  cases hexec
  funext r
  have := congrFun h r
  simp only [Tree.below, append_assoc] at this ⊢
  simp [this]

/-- What is written is there, unless there is a directory. -/
theorem run_write {text : Contents} (h : ((write p text).run .success t).2.isDir p = false) :
    ((write p text).run .success t).2.contents p = some text := by
  by_cases hdir : t.isDir p
  · simp [run, exec, hdir] at h
  · simp [run, exec, hdir, Tree.put, Tree.set, Tree.contents, Node.contents?]

/-- What is copied is there, unless there is a directory. -/
theorem exec_copy (hexec : (copy src dst).exec t = some t') (h : t'.isDir dst = false) :
    t'.contents dst = t.contents src := by
  simp only [exec] at hexec
  split at hexec
  · next contents mode hsrc =>
    cases hexec
    by_cases htarget : dst = t.target src dst
    · simp [← htarget, Tree.put, Tree.set, Tree.contents, hsrc, Node.contents?]
    · have hdir : t.isDir dst = false := by
        rwa [Tree.isDir, Tree.put, Tree.set, if_neg htarget, ← Tree.isDir] at h
      simp [Tree.target, hdir] at htarget
  · cases hexec

theorem exec_copyTree (hexec : (copyTree src dst).exec t = some t') (hdst : t.isDir dst = false) :
    t'.below dst = t.below src := by
  obtain ⟨-, ⟨⟩⟩ := Option.ite_none_right_eq_some.mp hexec
  funext r
  simp [Tree.below, Tree.graft, Tree.target, hdst]

/-- What is moved is there, and a file is only replaced by a file. -/
theorem exec_move (hexec : (move src dst).exec t = some t') (hdst : t.isDir dst = false) :
    t'.below dst = t.below src ∧ ((t.contents dst).isSome = true → t.isDir src = false) := by
  have htarget : t.target src dst = dst := by simp [Tree.target, hdst]
  simp only [exec, Tree.mayMove, htarget, Option.ite_none_right_eq_some, Option.some.injEq] at hexec
  obtain ⟨hmay, rfl⟩ := hexec
  refine ⟨funext fun r => ?_, fun hsome => ?_⟩
  · simp [Tree.below, Tree.graft]
  · have := Option.isSome_iff_ne_none.mp (Option.isSome_of_isSome_bind hsome)
    simp_all

/-- The command leaves alone a path and all that is below it. -/
def avoids (root : Path) : Command → Bool
  | write p _ | touch p | link _ p | chmod _ p | makeDirs p => ¬ root <+: p
  | copy _ p | copyTree _ p | removeAll p | chmodFiles _ p | chmodTree _ p | extract _ p =>
    ¬ root <+: p ∧ ¬ p <+: root
  | move src dst => (¬ root <+: src ∧ ¬ src <+: root) ∧ ¬ root <+: dst ∧ ¬ dst <+: root
  | sync | test _ => true

theorem not_prefix_append {r : Path} (h : ¬ root <+: p ∧ ¬ p <+: root) : ¬ p <+: root ++ r := by
  intro hp
  rcases prefix_or_prefix_of_prefix hp (prefix_append root r) with hle | hle
  · exact h.2 hle
  · exact h.1 hle

/-- What is moved away is not there any more. -/
theorem exec_move_source (hexec : (move src dst).exec t = some t') (h : ¬ dst <+: src) :
    t'.isDir src = false := by
  obtain ⟨-, ⟨⟩⟩ := Option.ite_none_right_eq_some.mp hexec
  rw [Tree.isDir, Tree.graft, if_neg fun hle => h (prefix_target.trans hle), Tree.remove,
    if_pos (prefix_refl src)]

/-- **A command leaves a tree that it avoids as it was.** -/
theorem run_of_avoids (h : c.avoids root = true) (r : Path) :
    (c.run o t).2 (root ++ r) = t (root ++ r) := by
  refine run_of_not_touches ?_
  cases c with
  | write p | touch p | link _ p | chmod _ p =>
    exact decide_eq_false fun heq => of_decide_eq_true h (heq ▸ prefix_append root r)
  | copy _ p | copyTree _ p | removeAll p | chmodFiles _ p | chmodTree _ p | extract _ p =>
    exact decide_eq_false (not_prefix_append (of_decide_eq_true h))
  | move src dst =>
    obtain ⟨hsrc, hdst⟩ := of_decide_eq_true h
    exact decide_eq_false (not_or.mpr ⟨not_prefix_append hsrc, not_prefix_append hdst⟩)
  | makeDirs p =>
    exact decide_eq_false fun hle =>
      of_decide_eq_true h ((prefix_append root r).trans hle)
  | sync | test cond => rfl

end Command

end PetlibroLocal.FileTree
