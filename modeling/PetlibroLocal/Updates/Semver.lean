import PetlibroLocal.Lib.Regex
import PetlibroLocal.Lib.Utf8
import PetlibroLocal.Agent.CompareSemver

/-!
# The Comparison of Versions in the Add-on

`_semver_components` takes a version apart with the pattern `SEMVER_RE`, and `compare_semver`
compares the parts. Strings are lists of ASCII characters, so that `\d` and `str.isdigit` are
about the digits `0` to `9`. `int` refuses strings of more than 4300 digits.

`fullmatch` is written as a scan; `fullmatch_eq_some` says that it returns the groups of a match,
and `fullmatch_isSome` that there is a match if and only if the pattern matches.

The main results are `semverComponents_text`, `compareSemver_text` and
`comparators_follow_precedence`.
-/

namespace PetlibroLocal.Updates

open RegularExpression Regex Agent List

/-! ### The pattern -/

/-- `\d`. -/
def digits : List Char := "0123456789".toList

/-- `[0-9A-Za-z-]`. -/
def identifierChars : List Char :=
  "0123456789ABCDEFGHIJKLMNOPQRSTUVWXYZabcdefghijklmnopqrstuvwxyz-".toList

/-- `0|[1-9]\d*`. -/
def numberRe : RegularExpression Char := char '0' + oneOf "123456789".toList * (oneOf digits).star

/-- `[0-9A-Za-z-]+(?:\.[0-9A-Za-z-]+)*`. -/
def identifiersRe : RegularExpression Char := separated '.' (many1 (oneOf identifierChars))

/-- `SEMVER_RE`. -/
def semverRe : RegularExpression Char :=
  numberRe * (char '.' * (numberRe * (char '.' * (numberRe *
    (opt (char '-' * identifiersRe) * opt (char '+' * identifiersRe))))))

/-- The groups of a match of `SEMVER_RE`. -/
@[ext] structure SemverMatch where
  group1 : List Char
  group2 : List Char
  group3 : List Char
  group4 : Option (List Char)
  group5 : Option (List Char)
deriving DecidableEq

namespace SemverMatch

/-- An optional group with the sign before it. -/
def signed (sign : Char) : Option (List Char) → List Char
  | none => []
  | some group => sign :: group

/-- The matched string. -/
def value (m : SemverMatch) : List Char :=
  m.group1 ++ '.' :: (m.group2 ++ '.' :: (m.group3 ++ (signed '-' m.group4 ++ signed '+' m.group5)))

/-- Each group matches its part of the pattern. -/
structure Ok (m : SemverMatch) : Prop where
  group1 : numberRe.rmatch m.group1 = true
  group2 : numberRe.rmatch m.group2 = true
  group3 : numberRe.rmatch m.group3 = true
  group4 : m.group4.all identifiersRe.rmatch = true
  group5 : m.group5.all identifiersRe.rmatch = true

instance (m : SemverMatch) : Decidable m.Ok :=
  decidable_of_iff (numberRe.rmatch m.group1 = true ∧ numberRe.rmatch m.group2 = true ∧
      numberRe.rmatch m.group3 = true ∧ m.group4.all identifiersRe.rmatch = true ∧
      m.group5.all identifiersRe.rmatch = true)
    ⟨fun ⟨h₁, h₂, h₃, h₄, h₅⟩ => ⟨h₁, h₂, h₃, h₄, h₅⟩,
      fun ⟨h₁, h₂, h₃, h₄, h₅⟩ => ⟨h₁, h₂, h₃, h₄, h₅⟩⟩

end SemverMatch

/-- An optional group: what stands behind the sign and satisfies `p`, and what is left. -/
def scanSigned (sign : Char) (p : Char → Bool) : List Char → Option (List Char) × List Char
  | [] => (none, [])
  | c :: cs => if c = sign then (some (cs.takeWhile p), cs.dropWhile p) else (none, c :: cs)

/-- Where the groups lie, if there is a match. -/
def scanGroups (value : List Char) : SemverMatch :=
  let group1 := value.takeWhile (· != '.')
  let rest := value.drop (group1.length + 1)
  let group2 := rest.takeWhile (· != '.')
  let rest := rest.drop (group2.length + 1)
  let group3 := rest.takeWhile Char.isDigit
  let (group4, rest) := scanSigned '-' (· != '+') (rest.dropWhile Char.isDigit)
  let (group5, _) := scanSigned '+' (fun _ => true) rest
  { group1, group2, group3, group4, group5 }

/-- `SEMVER_RE.fullmatch`. -/
def fullmatch (value : List Char) : Option SemverMatch :=
  let m := scanGroups value
  if m.value = value ∧ m.Ok then some m else none

/-! ### The comparison -/

/-- What the add-on raises here. -/
inductive UpdateError where
  | updateValidationError (message : String)
  | valueError
deriving DecidableEq, Repr

/-- The digits that `int` converts: `sys.int_info.default_max_str_digits`. -/
def maxStrDigits : ℕ := 4300

/-- `int`, of a string of digits. -/
def int (ds : List Char) : Except UpdateError ℕ :=
  if maxStrDigits < ds.length then .error .valueError else .ok (decimal ds)

/-- `str.isdigit`. -/
def isdigit (part : List Char) : Bool := !part.isEmpty && part.all Char.isDigit

/-- The identifiers of `match.group(4)`. -/
def prereleaseParts : Option (List Char) → List (List Char)
  | none => []
  | some group => if group = [] then [] else group.splitOn '.'

/-- `_semver_components`. -/
def semverComponents (value : List Char) :
    Except UpdateError ((ℕ ×ₗ ℕ ×ₗ ℕ) × List (List Char)) :=
  match fullmatch value with
  | none => .error (.updateValidationError "manifest version must be SemVer")
  | some m =>
    let prerelease := prereleaseParts m.group4
    if prerelease.any
        (fun part => isdigit part && 1 < part.length && part.head? == some '0') then
      .error (.updateValidationError
        "numeric SemVer prerelease identifiers must not have leading zeros")
    else do
      let major ← int m.group1
      let minor ← int m.group2
      let patch ← int m.group3
      pure (toLex (major, toLex (minor, patch)), prerelease)

/-- The loop body of `compare_semver`, for parts that differ. -/
def compareParts (left right : List Char) : Except UpdateError ℤ :=
  if isdigit left = true ∧ isdigit right = true then do
    let l ← int left
    let r ← int right
    pure (if l < r then -1 else 1)
  else if isdigit left ≠ isdigit right then pure (if isdigit left then -1 else 1)
  else pure (if left < right then -1 else 1)

/-- The loop of `compare_semver`. -/
def comparePre : List (List Char × List Char) → Except UpdateError (Option ℤ)
  | [] => pure none
  | (left, right) :: parts =>
    if left = right then comparePre parts else some <$> compareParts left right

/-- The part of `compare_semver` behind the numbers. -/
def comparePrerelease (leftPre rightPre : List (List Char)) : Except UpdateError ℤ := do
  if leftPre = [] ∧ rightPre = [] then pure 0
  else if leftPre = [] then pure 1
  else if rightPre = [] then pure (-1)
  else
    match ← comparePre (leftPre.zip rightPre) with
    | some compared => pure compared
    | none =>
      pure (if leftPre.length = rightPre.length then 0
        else if leftPre.length < rightPre.length then -1 else 1)

/-- `compare_semver`. -/
def compareSemver (left right : List Char) : Except UpdateError ℤ := do
  let (leftCore, leftPre) ← semverComponents left
  let (rightCore, rightPre) ← semverComponents right
  if leftCore ≠ rightCore then pure (if leftCore < rightCore then -1 else 1)
  else comparePrerelease leftPre rightPre

/-- `update_available` of `_check_for_updates`. -/
def updateAvailable (manifestVersion installedVersion : List Char) : Except UpdateError Bool := do
  pure (decide ((← compareSemver manifestVersion installedVersion) > 0))

/-! ### What the pattern matches -/

variable {c : Char} {ds id left right : List Char} {ids : List (List Char)} {v w : Version}

theorem mem_digits : c ∈ digits ↔ c.isDigit = true := by
  constructor
  · intro h
    have hall : digits.all Char.isDigit = true := by decide
    exact all_eq_true.mp hall c h
  · intro h
    have hc : c.toNat < 128 := by
      have := isDigit_iff.mp h
      omega
    revert h
    exact ascii_cases (p := fun c => c.isDigit = true → c ∈ digits) (by decide) hc

theorem mem_nonzero : c ∈ "123456789".toList ↔ c.isDigit = true ∧ c ≠ '0' := by
  have hcons : digits = '0' :: "123456789".toList := by decide
  have hzero : '0' ∉ "123456789".toList := by decide
  rw [← mem_digits, hcons, mem_cons]
  constructor
  · intro h
    exact ⟨.inr h, fun h0 => hzero (h0 ▸ h)⟩
  · rintro ⟨rfl | h, h0⟩
    · exact absurd rfl h0
    · exact h

theorem toNat_lt_of_isIdentifierChar (h : isIdentifierChar c = true) : c.toNat < 128 := by
  have below {m : UInt32} (hm : m.toNat < 128) (hle : c.val ≤ m) : c.toNat < 128 :=
    Nat.lt_of_le_of_lt (UInt32.le_iff_toNat_le.mp hle) hm
  have hcases : (((c.isUpper || c.isLower) || c.isDigit) || c == '-') = true := h
  simp only [Bool.or_eq_true, beq_iff_eq] at hcases
  -- each class of characters is an interval: its upper end is read off the library's test
  rcases hcases with ((hup | hlow) | hdigit) | rfl
  · exact below (m := 'Z'.val) (by decide) (of_decide_eq_true hup).2
  · exact below (m := 'z'.val) (by decide) (of_decide_eq_true (Bool.and_eq_true_iff.mp hlow).2)
  · exact below (m := '9'.val) (by decide) (of_decide_eq_true (Bool.and_eq_true_iff.mp hdigit).2)
  · decide

theorem mem_identifierChars : c ∈ identifierChars ↔ isIdentifierChar c = true := by
  constructor
  · intro h
    have hall : identifierChars.all isIdentifierChar = true := by decide
    exact all_eq_true.mp hall c h
  · intro h
    have hc := toNat_lt_of_isIdentifierChar h
    revert h
    exact ascii_cases (p := fun c => isIdentifierChar c = true → c ∈ identifierChars)
      (by decide) hc

theorem numberRe_rmatch : numberRe.rmatch ds = true ↔ IsNumeral ds := by
  rw [rmatch_iff_matches', numberRe, mem_matches_add, mem_matches_char, mem_matches_mul]
  constructor
  · rintro (rfl | ⟨x, hx, y, hy, rfl⟩)
    · decide
    · obtain ⟨c, hc, rfl⟩ := mem_matches_oneOf.mp hx
      obtain ⟨hdigit, hzero⟩ := mem_nonzero.mp hc
      refine ⟨by simp, ?_, fun _ => by simpa using hzero⟩
      rintro d (_ | ⟨_, hd⟩)
      · exact hdigit
      · exact mem_digits.mp (mem_matches_star_oneOf.mp hy d hd)
  · intro h
    cases ds with
    | nil => exact absurd rfl h.ne_nil
    | cons d ds =>
      have hdigit := h.isDigit d mem_cons_self
      by_cases hd : d = '0'
      · left
        have hlen : ds = [] := by
          by_contra hne
          have := length_pos_iff.mpr hne
          exact h.head (by simp; omega) (by simp [hd])
        rw [hd, hlen]
      · right
        exact ⟨[d], mem_matches_oneOf.mpr ⟨d, mem_nonzero.mpr ⟨hdigit, hd⟩, rfl⟩, ds,
          mem_matches_star_oneOf.mpr fun c hc =>
            mem_digits.mpr (h.isDigit c (mem_cons_of_mem _ hc)), rfl⟩

theorem identifiersRe_rmatch {cs : List Char} :
    identifiersRe.rmatch cs = true ↔
      ∃ ids, ids ≠ [] ∧ (∀ id ∈ ids, IsBuildIdentifier id) ∧ dotted ids = cs := by
  have hid : ∀ id, id ∈ (many1 (oneOf identifierChars)).matches' ↔ IsBuildIdentifier id := by
    intro id
    rw [mem_matches_many1_oneOf]
    exact and_congr_right fun _ => forall₂_congr fun c _ => mem_identifierChars
  simp only [rmatch_iff_matches', identifiersRe, mem_matches_separated, hid, dotted]

/-! ### The scan -/

theorem scanSigned_append {sign : Char} {p : Char → Bool} {group : Option (List Char)}
    {rest : List Char} (hgroup : ∀ g ∈ group, ∀ c ∈ g, p c = true)
    (hrest : ∀ c, rest.head? = some c → p c = false ∧ c ≠ sign) :
    scanSigned sign p (SemverMatch.signed sign group ++ rest) = (group, rest) := by
  cases group with
  | none =>
    cases rest with
    | nil => rfl
    | cons c rest => simp [SemverMatch.signed, scanSigned, (hrest c rfl).2]
  | some g =>
    have hg := hgroup g rfl
    have hp : ∀ c, rest.head? = some c → p c = false := fun c hc => (hrest c hc).1
    simp only [SemverMatch.signed, cons_append, scanSigned, if_true,
      takeWhile_append_exact hg hp, dropWhile_append_exact hg hp]

theorem takeWhile_ne_dot (h : IsNumeral ds) (rest : List Char) :
    (ds ++ '.' :: rest).takeWhile (· != '.') = ds :=
  takeWhile_append_exact (fun c hc => bne_iff_ne.mpr fun h0 => h.notMem (by decide) (h0 ▸ hc))
    (by simp)

theorem drop_length_succ (ds rest : List Char) :
    (ds ++ '.' :: rest).drop (ds.length + 1) = rest := by
  rw [← drop_drop, drop_left]
  rfl

theorem head?_signed {sign : Char} {group : Option (List Char)}
    (h : (SemverMatch.signed sign group).head? = some c) : c = sign := by
  cases group with
  | none => simp [SemverMatch.signed] at h
  | some g => exact (Option.some.inj h).symm

theorem scanGroups_value {m : SemverMatch} (h : m.Ok) : scanGroups m.value = m := by
  have h₁ := numberRe_rmatch.mp h.group1
  have h₂ := numberRe_rmatch.mp h.group2
  have h₃ := numberRe_rmatch.mp h.group3
  have hdash : ∀ g ∈ m.group4, ∀ c ∈ g, (c != '+') = true := by
    intro g hg c hc
    have hmatch : identifiersRe.rmatch g = true := by
      have hall := h.group4
      rwa [Option.mem_def.mp hg, Option.all_some] at hall
    obtain ⟨ids, -, hids, rfl⟩ := identifiersRe_rmatch.mp hmatch
    exact bne_iff_ne.mpr fun h0 => notMem_dotted hids (h0 ▸ hc)
  have hplus : ∀ c, (SemverMatch.signed '+' m.group5).head? = some c →
      (c != '+') = false ∧ c ≠ '-' := by
    intro c hc
    rw [head?_signed hc]
    decide
  have hsigns : ∀ c, (SemverMatch.signed '-' m.group4 ++
      SemverMatch.signed '+' m.group5).head? = some c → c.isDigit = false := by
    intro c hc
    rw [List.head?_append] at hc
    cases h4 : (SemverMatch.signed '-' m.group4).head? with
    | none =>
      rw [h4, Option.none_or] at hc
      rw [head?_signed hc]
      decide
    | some d =>
      rw [h4, Option.some_or, Option.some.injEq] at hc
      rw [← hc, head?_signed h4]
      decide
  have hlast : scanSigned '+' (fun _ => true) (SemverMatch.signed '+' m.group5) =
      (m.group5, []) := by
    have happend := @scanSigned_append '+' (fun _ => true) m.group5 [] (by simp) (by simp)
    rwa [append_nil] at happend
  simp only [scanGroups, SemverMatch.value, takeWhile_ne_dot h₁, drop_length_succ,
    takeWhile_ne_dot h₂, takeWhile_append_exact h₃.isDigit hsigns,
    dropWhile_append_exact h₃.isDigit hsigns, scanSigned_append hdash hplus, hlast]

/-- **`fullmatch` returns the groups of a match.** -/
theorem fullmatch_eq_some {value : List Char} {m : SemverMatch} :
    fullmatch value = some m ↔ m.value = value ∧ m.Ok := by
  constructor
  · intro h
    by_cases hm : (scanGroups value).value = value ∧ (scanGroups value).Ok
    · rw [fullmatch, if_pos hm] at h
      rw [← Option.some.inj h]
      exact hm
    · rw [fullmatch, if_neg hm] at h
      simp at h
  · rintro ⟨rfl, hm⟩
    simp only [fullmatch, scanGroups_value hm, hm, and_self, if_true]

theorem mem_matches_signed {sign : Char} {w : List Char} :
    w ∈ (opt (char sign * identifiersRe)).matches' ↔
      ∃ group, group.all identifiersRe.rmatch = true ∧ SemverMatch.signed sign group = w := by
  rw [opt, mem_matches_add, matches'_epsilon, Language.mem_one, mem_matches_char_mul]
  constructor
  · rintro (rfl | ⟨g, hg, rfl⟩)
    · exact ⟨none, rfl, rfl⟩
    · exact ⟨some g, (rmatch_iff_matches' _ _).mpr hg, rfl⟩
  · rintro ⟨group, hgroup, rfl⟩
    cases group with
    | none => exact .inl rfl
    | some g => exact .inr ⟨g, (rmatch_iff_matches' _ _).mp hgroup, rfl⟩

/-- **There is a match if and only if the pattern matches.** -/
theorem fullmatch_isSome {value : List Char} :
    (fullmatch value).isSome = true ↔ value ∈ semverRe.matches' := by
  have hnumber : ∀ w, w ∈ numberRe.matches' ↔ numberRe.rmatch w = true := fun w =>
    (rmatch_iff_matches' _ _).symm
  have hopt := @mem_matches_mul _ (opt (char '-' * identifiersRe))
  rw [Option.isSome_iff_exists]
  simp only [fullmatch_eq_some, semverRe, @mem_matches_mul _ numberRe, mem_matches_char_mul,
    hopt, mem_matches_signed, hnumber]
  constructor
  · rintro ⟨m, rfl, h⟩
    exact ⟨_, h.group1, _, ⟨_, ⟨_, h.group2, _, ⟨_, ⟨_, h.group3, _, ⟨_, ⟨_, h.group4, rfl⟩, _,
      ⟨_, h.group5, rfl⟩, rfl⟩, rfl⟩, rfl⟩, rfl⟩, rfl⟩, rfl⟩
  · rintro ⟨g₁, h₁, _, ⟨_, ⟨g₂, h₂, _, ⟨_, ⟨g₃, h₃, _, ⟨_, ⟨g₄, h₄, rfl⟩, _, ⟨g₅, h₅, rfl⟩,
      rfl⟩, rfl⟩, rfl⟩, rfl⟩, rfl⟩, rfl⟩
    exact ⟨⟨g₁, g₂, g₃, g₄, g₅⟩, rfl, h₁, h₂, h₃, h₄, h₅⟩

/-- `_semver_components` reports that a string is no version exactly if the pattern does not match
it. -/
theorem semverComponents_noMatch {value : List Char} :
    semverComponents value = .error (.updateValidationError "manifest version must be SemVer") ↔
      value ∉ semverRe.matches' := by
  rw [← fullmatch_isSome]
  cases hmatch : fullmatch value with
  | none => simp [semverComponents, hmatch]
  | some m =>
    simp only [semverComponents, hmatch, Option.isSome_some, not_true, iff_false]
    split_ifs
    · simp
    · -- Only `int` can fail here, with another error.
      intro herror
      simp only [int] at herror
      split_ifs at herror <;> cases herror

/-! ### The components -/

/-- The group that holds identifiers. -/
def identifiersGroup (ids : List (List Char)) : Option (List Char) :=
  if ids = [] then none else some (dotted ids)

theorem signed_identifiersGroup (sign : Char) (ids : List (List Char)) :
    SemverMatch.signed sign (identifiersGroup ids) = marked sign ids := by
  unfold identifiersGroup marked
  split <;> rfl

theorem all_identifiersGroup (h : ∀ id ∈ ids, IsBuildIdentifier id) :
    (identifiersGroup ids).all identifiersRe.rmatch = true := by
  unfold identifiersGroup
  split
  · rfl
  · rename_i hne
    exact identifiersRe_rmatch.mpr ⟨ids, hne, h, rfl⟩

theorem exists_identifiersGroup {group : Option (List Char)}
    (h : group.all identifiersRe.rmatch = true) :
    ∃ ids, (∀ id ∈ ids, IsBuildIdentifier id) ∧ group = identifiersGroup ids := by
  cases group with
  | none => exact ⟨[], forall_mem_nil _, rfl⟩
  | some g =>
    obtain ⟨ids, hne, hids, rfl⟩ := identifiersRe_rmatch.mp h
    exact ⟨ids, hids, (if_neg hne).symm⟩

theorem fullmatch_text (v : Version) :
    fullmatch v.text = some ⟨v.major, v.minor, v.patch, identifiersGroup v.pre,
      identifiersGroup v.build⟩ := by
  refine fullmatch_eq_some.mpr ⟨?_, ?_⟩
  · rw [SemverMatch.value, signed_identifiersGroup, signed_identifiersGroup, v.text_eq]
    rfl
  · exact ⟨numberRe_rmatch.mpr v.isNumeral_major, numberRe_rmatch.mpr v.isNumeral_minor,
      numberRe_rmatch.mpr v.isNumeral_patch, all_identifiersGroup v.isBuild_pre,
      all_identifiersGroup v.isBuild⟩

theorem prereleaseParts_identifiersGroup (h : ∀ id ∈ ids, IsBuildIdentifier id) :
    prereleaseParts (identifiersGroup ids) = ids := by
  cases ids with
  | nil => rfl
  | cons id ids =>
    have hne := dotted_cons_ne_nil ids (h id mem_cons_self)
    have hgroup : identifiersGroup (id :: ids) = some (dotted (id :: ids)) := if_neg (by simp)
    rw [hgroup, prereleaseParts, if_neg hne, splitOn_dotted h (by simp)]

theorem isdigit_eq {part : List Char} (h : part ≠ []) :
    isdigit part = decide (IsNumericIdentifier part) := by
  have hempty : part.isEmpty = false := isEmpty_eq_false_iff.mpr h
  rw [isdigit, hempty, Bool.eq_iff_iff, decide_eq_true_eq, IsNumericIdentifier]
  simp

theorem int_of_le (h : IsNumeral ds) (hmax : decimal ds ≤ uint32Max) :
    int ds = .ok (decimal ds) := by
  have hlen : ds.length ≤ 10 := by
    by_contra hlong
    have hlt : decimal "9999999999".toList < decimal ds :=
      decimal_lt_of_length_lt (all_eq_true.mp (by decide)) h (by decide)
        (Nat.not_le.mp hlong)
    have hten : uint32Max < decimal "9999999999".toList := by decide
    omega
  rw [int, if_neg (by unfold maxStrDigits; omega)]

/-- The numbers of a version. -/
def core (v : Version) : ℕ ×ₗ ℕ ×ₗ ℕ :=
  toLex (decimal v.major, toLex (decimal v.minor, decimal v.patch))

/-- A numeric identifier with a leading zero. -/
def leadingZero (part : List Char) : Bool :=
  isdigit part && 1 < part.length && part.head? == some '0'

theorem isPreIdentifier_iff :
    IsPreIdentifier id ↔ IsBuildIdentifier id ∧ leadingZero id = false := by
  refine and_congr_right fun hbuild => ?_
  rw [leadingZero, isdigit_eq hbuild.1, ← Bool.not_eq_true]
  simp only [Bool.and_eq_true, decide_eq_true_eq, beq_iff_eq, not_and, and_imp, ne_eq]

theorem any_leadingZero (v : Version) : v.pre.any leadingZero = false := by
  rw [any_eq_false]
  intro id hid
  exact Bool.eq_false_iff.mp (isPreIdentifier_iff.mp (v.isPre id hid)).2

theorem semverComponents_eq (v : Version) :
    semverComponents v.text = (do
      let major ← int v.major
      let minor ← int v.minor
      let patch ← int v.patch
      pure (toLex (major, toLex (minor, patch)), v.pre)) := by
  have hzero : (v.pre.any fun part =>
      isdigit part && decide (1 < part.length) && part.head? == some '0') = false :=
    any_leadingZero v
  simp only [semverComponents, fullmatch_text, prereleaseParts_identifiersGroup v.isBuild_pre,
    hzero]
  rfl

/-- **The components of a version.** -/
theorem semverComponents_text (h : v.CoreFits) : semverComponents v.text = .ok (core v, v.pre) := by
  rw [semverComponents_eq, int_of_le v.isNumeral_major h.major,
    int_of_le v.isNumeral_minor h.minor, int_of_le v.isNumeral_patch h.patch]
  rfl

/-! ### The comparison of the add-on -/

/-- The first identifiers in which two pre-releases differ. -/
def firstDifference (left right : List (List Char)) : Option (List Char × List Char) :=
  (left.zip right).find? fun parts => parts.1 != parts.2

/-- Two identifiers of digits, one of which `int` refuses. -/
def IntRefuses (left right : List Char) : Prop :=
  IsNumericIdentifier left ∧ IsNumericIdentifier right ∧
    maxStrDigits < max left.length right.length

/-- The numbers of two versions are the same, and the first identifiers in which their
pre-releases differ are refused by `int`. -/
def ComparisonRefused (v w : Version) : Prop :=
  (v.major = w.major ∧ v.minor = w.minor ∧ v.patch = w.patch) ∧
    ∃ left right, firstDifference v.pre w.pre = some (left, right) ∧ IntRefuses left right

theorem compareParts_of_refused (hl : left ≠ []) (hr : right ≠ []) (h : IntRefuses left right) :
    compareParts left right = .error .valueError := by
  obtain ⟨hleft, hright, hlen⟩ := h
  rw [compareParts, isdigit_eq hl, isdigit_eq hr, if_pos (by simp [hleft, hright])]
  by_cases hlong : maxStrDigits < left.length
  · rw [int, if_pos hlong]
    rfl
  · have hlong' : maxStrDigits < right.length := by omega
    rw [int, if_neg hlong, int, if_pos hlong']
    rfl

theorem compareParts_eq (hl : IsPreIdentifier left) (hr : IsPreIdentifier right)
    (hne : left ≠ right) (h : ¬ IntRefuses left right) :
    compareParts left right = .ok (threeWay (identifierKey left) (identifierKey right)) := by
  have hkey : identifierKey left ≠ identifierKey right := fun hkey =>
    hne (identifierKey_inj hl hr hkey)
  rw [compareParts, isdigit_eq hl.1.1, isdigit_eq hr.1.1]
  unfold identifierKey at hkey ⊢
  by_cases hleft : IsNumericIdentifier left <;> by_cases hright : IsNumericIdentifier right
  · have hlen : left.length ≤ maxStrDigits ∧ right.length ≤ maxStrDigits := by
      by_contra hlen
      exact h ⟨hleft, hright, by omega⟩
    have hdecimal : decimal left ≠ decimal right := fun hd =>
      hne ((decimal_inj (hl.isNumeral hleft) (hr.isNumeral hright)).mp hd)
    rw [if_pos (by simp [hleft, hright]), int, if_neg (Nat.not_lt.mpr hlen.1), int,
      if_neg (Nat.not_lt.mpr hlen.2), if_pos hleft, if_pos hright, threeWay_inl,
      ← ite_lt_of_ne hdecimal]
    rfl
  · rw [if_pos hleft, if_neg hright, threeWay_inl_inr, if_neg (by simp [hright]),
      if_pos (by simp [hleft, hright])]
    simp [hleft, pure, Except.pure]
  · rw [if_neg hleft, if_pos hright, threeWay_inr_inl, if_neg (by simp [hleft]),
      if_pos (by simp [hleft, hright])]
    simp [hleft, pure, Except.pure]
  · rw [if_neg hleft, if_neg hright, threeWay_inr, if_neg (by simp [hleft]),
      if_neg (by simp [hleft, hright])]
    rcases lt_or_gt_of_ne hne with hlt | hgt
    · rw [if_pos hlt, threeWay_of_lt hlt]
      rfl
    · rw [if_neg hgt.asymm, threeWay_of_gt hgt]
      rfl

theorem comparePre_eq (parts : List (List Char × List Char)) :
    comparePre parts =
      match parts.find? fun parts => parts.1 != parts.2 with
      | none => .ok none
      | some (left, right) => some <$> compareParts left right := by
  induction parts with
  | nil => rfl
  | cons part parts ih =>
    obtain ⟨left, right⟩ := part
    by_cases h : left = right
    · rw [comparePre, if_pos h, ih, List.find?_cons_of_neg (by simp [h])]
    · rw [comparePre, if_neg h, List.find?_cons_of_pos (by simp [h])]

theorem threeWay_map_identifierKey {ids' : List (List Char)} (h : ∀ id ∈ ids, IsPreIdentifier id)
    (h' : ∀ id ∈ ids', IsPreIdentifier id) :
    threeWay (ids.map identifierKey) (ids'.map identifierKey) =
      match firstDifference ids ids' with
      | none => threeWay ids.length ids'.length
      | some (left, right) => threeWay (identifierKey left) (identifierKey right) := by
  induction ids generalizing ids' with
  | nil =>
    cases ids' with
    | nil => simp [firstDifference]
    | cons id' ids' =>
      rw [map_nil, map_cons, threeWay_nil_cons]
      simp [firstDifference, threeWay]
  | cons id ids ih =>
    cases ids' with
    | nil =>
      rw [map_nil, map_cons, threeWay_cons_nil]
      simp [firstDifference, threeWay]
    | cons id' ids' =>
      rw [map_cons, map_cons, threeWay_cons, firstDifference, zip_cons_cons]
      by_cases hid : id = id'
      · rw [if_pos (congrArg _ hid), List.find?_cons_of_neg (by simp [hid]),
          ih (fun i hi => h i (mem_cons_of_mem _ hi))
            (fun i hi => h' i (mem_cons_of_mem _ hi)), firstDifference]
        simp [threeWay]
      · have hkey : identifierKey id ≠ identifierKey id' := fun hkey =>
          hid (identifierKey_inj (h id mem_cons_self) (h' id' mem_cons_self) hkey)
        rw [if_neg hkey, List.find?_cons_of_pos (by simp [hid])]

theorem precedence_eq (v w : Version) :
    v.precedence w =
      if core v = core w then threeWay v.preKey w.preKey else threeWay (core v) (core w) := by
  simp only [Version.precedence, Version.key, core, threeWay_toLex, toLex_inj, Prod.mk.injEq]
  by_cases h₁ : decimal v.major = decimal w.major
  · by_cases h₂ : decimal v.minor = decimal w.minor
    · simp [h₁, h₂]
    · simp [h₁, h₂]
  · simp [h₁]

theorem core_eq_iff :
    core v = core w ↔ v.major = w.major ∧ v.minor = w.minor ∧ v.patch = w.patch := by
  simp only [core, toLex_inj, Prod.mk.injEq, decimal_inj v.isNumeral_major w.isNumeral_major,
    decimal_inj v.isNumeral_minor w.isNumeral_minor,
    decimal_inj v.isNumeral_patch w.isNumeral_patch]

theorem mem_of_firstDifference {ids' : List (List Char)}
    (h : firstDifference ids ids' = some (left, right)) :
    left ∈ ids ∧ right ∈ ids' ∧ left ≠ right := by
  have hmem := mem_of_find?_eq_some h
  have hne := List.find?_some h
  exact ⟨(of_mem_zip hmem).1, (of_mem_zip hmem).2, bne_iff_ne.mp hne⟩

theorem comparePrerelease_of_refused (hdiff : firstDifference v.pre w.pre = some (left, right))
    (h : IntRefuses left right) : comparePrerelease v.pre w.pre = .error .valueError := by
  obtain ⟨hl, hr, -⟩ := mem_of_firstDifference hdiff
  have hv : v.pre ≠ [] := ne_nil_of_mem hl
  have hw : w.pre ≠ [] := ne_nil_of_mem hr
  rw [firstDifference] at hdiff
  simp only [comparePrerelease, hv, hw, and_self, if_false, comparePre_eq, hdiff,
    compareParts_of_refused (v.isPre left hl).1.1 (w.isPre right hr).1.1 h]
  rfl

theorem comparePrerelease_eq
    (h : ∀ left right, firstDifference v.pre w.pre = some (left, right) → ¬ IntRefuses left right) :
    comparePrerelease v.pre w.pre = .ok (threeWay v.preKey w.preKey) := by
  unfold comparePrerelease Version.preKey
  by_cases hv : v.pre = [] <;> by_cases hw : w.pre = []
  · simp [hv, hw, pure, Except.pure]
  · simp only [hv, hw, and_false, if_false, if_true, threeWay_top_coe]
    rfl
  · simp only [hv, hw, false_and, if_false, if_true, threeWay_coe_top]
    rfl
  · rw [if_neg (by simp [hv]), if_neg hv, if_neg hw, if_neg hv, if_neg hw, threeWay_coe,
      threeWay_map_identifierKey v.isPre w.isPre, comparePre_eq]
    cases hdiff : firstDifference v.pre w.pre with
    | none =>
      rw [firstDifference] at hdiff
      simp only [hdiff, ← ite_eq_threeWay]
      rfl
    | some parts =>
      obtain ⟨left, right⟩ := parts
      obtain ⟨hl, hr, hne⟩ := mem_of_firstDifference hdiff
      have hparts := compareParts_eq (v.isPre left hl) (w.isPre right hr) hne (h _ _ hdiff)
      rw [firstDifference] at hdiff
      simp only [hdiff, hparts]
      rfl

/-- **`compare_semver` of the add-on** returns the precedence, or `int` refuses an identifier. -/
theorem compareSemver_text (hv : v.CoreFits) (hw : w.CoreFits) :
    (ComparisonRefused v w → compareSemver v.text w.text = .error .valueError) ∧
      (¬ ComparisonRefused v w → compareSemver v.text w.text = .ok (v.precedence w)) := by
  have hcompare : compareSemver v.text w.text =
      if core v ≠ core w then .ok (if core v < core w then -1 else 1)
      else comparePrerelease v.pre w.pre := by
    rw [compareSemver, semverComponents_text hv, semverComponents_text hw]
    rfl
  rw [hcompare, precedence_eq]
  by_cases hcore : core v = core w
  · rw [if_neg (not_not.mpr hcore), if_pos hcore]
    constructor
    · rintro ⟨-, left, right, hdiff, hrefused⟩
      exact comparePrerelease_of_refused hdiff hrefused
    · intro h
      exact comparePrerelease_eq fun left right hdiff hrefused =>
        h ⟨core_eq_iff.mp hcore, left, right, hdiff, hrefused⟩
  · rw [if_pos hcore, if_neg hcore, ite_lt_of_ne hcore]
    exact ⟨fun h => absurd (core_eq_iff.mpr h.1) hcore, fun _ => rfl⟩

/-! ### The two comparisons -/

/-- **The two comparisons.** On accepted versions whose numbers fit into 32 bits, the comparison
of the agent returns the precedence. That of the add-on returns it as well, and the add-on offers
a version if and only if the agent does not reject it, unless the comparison needs the value of
an identifier of more than 4300 digits; it then raises `ValueError`. The precedence is a total
order up to the build metadata. -/
theorem comparators_follow_precedence :
    (∀ s, parseSemverStrict s = true ↔ ∃ v : Version, v.text = s) ∧
    (∀ v w : Version, v.CoreFits → w.CoreFits →
      Agent.compareSemver v.text w.text = v.precedence w ∧
      (¬ ComparisonRefused v w →
        compareSemver v.text w.text = .ok (v.precedence w) ∧
        updateAvailable v.text w.text = .ok (!rejectsVersion v.text w.text)) ∧
      (ComparisonRefused v w → compareSemver v.text w.text = .error .valueError)) ∧
    (∀ v w : Version, v.precedence w ≤ 0 ∨ w.precedence v ≤ 0) ∧
    (∀ u v w : Version, u.precedence v ≤ 0 → v.precedence w ≤ 0 → u.precedence w ≤ 0) ∧
    (∀ v w : Version, w.precedence v = -v.precedence w) ∧
    (∀ v w : Version, v.precedence w = 0 ↔
      v.text.takeWhile (· != '+') = w.text.takeWhile (· != '+')) := by
  refine ⟨fun s => parseSemverStrict_iff, fun v w hv hw => ?_, fun v w => ?_,
    fun u v w huv hvw => ?_, fun v w => threeWay_swap _ _,
    fun v w => threeWay_eq_zero.trans Version.key_eq_iff⟩
  · have hagent := Version.compareSemver_text hv hw
    refine ⟨hagent, fun h => ?_, (compareSemver_text hv hw).1⟩
    have haddon := (compareSemver_text hv hw).2 h
    refine ⟨haddon, ?_⟩
    rw [updateAvailable, haddon, rejectsVersion, hagent, ← decide_not]
    simp only [not_le]
    rfl
  · exact (le_total v.key w.key).imp threeWay_nonpos.mpr threeWay_nonpos.mpr
  · exact threeWay_nonpos.mpr ((threeWay_nonpos.mp huv).trans (threeWay_nonpos.mp hvw))

/-- A release with one numeric identifier. -/
def numericPre (id : List Char) (h : IsNumeral id) : Version where
  major := ['1']
  minor := ['0']
  patch := ['0']
  pre := [id]
  build := []
  isNumeral_major := isNumeral_one
  isNumeral_minor := isNumeral_zero
  isNumeral_patch := isNumeral_zero
  isPre := by
    rintro id' hid'
    rw [mem_singleton.mp hid']
    exact ⟨⟨h.ne_nil, fun c hc => isIdentifierChar_of_isDigit (h.isDigit c hc)⟩, fun _ => h.head⟩
  isBuild := isBuild_nil

theorem numericPre_coreFits (h : IsNumeral id) : (numericPre id h).CoreFits :=
  ⟨(by decide : decimal ['1'] ≤ uint32Max), (by decide : decimal ['0'] ≤ uint32Max),
    (by decide : decimal ['0'] ≤ uint32Max)⟩

theorem isNumeral_replicate {n : ℕ} (h : 0 < n) : IsNumeral (List.replicate n '1') := by
  refine ⟨by simpa using h.ne', ?_, ?_⟩
  · intro c hc
    rw [eq_of_mem_replicate hc]
    decide
  · simp [List.head?_replicate, h.ne']

theorem text_numericPre (h : IsNumeral id) : (numericPre id h).text = "1.0.0-".toList ++ id := by
  simp [numericPre, Version.text, Version.coreText, Version.tailText, marked, dotted]

theorem precedence_numericPre {id' : List Char} (h : IsNumeral id) (h' : IsNumeral id') :
    (numericPre id h).precedence (numericPre id' h') = threeWay (decimal id) (decimal id') := by
  have hcore : core (numericPre id h) = core (numericPre id' h') := rfl
  have hpre : ∀ {id : List Char} (h : IsNumeral id), (numericPre id h).preKey =
      (([toLex (.inl (decimal id))] : List (ℕ ⊕ₗ List Char)) : WithTop _) := by
    intro id h
    have hnumeric : IsNumericIdentifier id := h.isDigit
    simp [Version.preKey, numericPre, identifierKey, hnumeric]
  rw [precedence_eq, if_pos hcore, hpre, hpre, threeWay_coe, threeWay_cons, threeWay_self,
    threeWay_inl]
  by_cases hid : decimal id = decimal id'
  · rw [if_pos (congrArg (fun n => toLex (Sum.inl n)) hid), hid, threeWay_self]
  · rw [if_neg fun hkey => hid (Sum.inl_injective (toLex.injective hkey))]

/-- A step to the second pre-release is offered and accepted. -/
theorem comparators_follow_precedence_preReleases :
    compareSemver "1.0.0-2".toList "1.0.0-1".toList = .ok 1 ∧
      updateAvailable "1.0.0-2".toList "1.0.0-1".toList = .ok true ∧
      rejectsVersion "1.0.0-2".toList "1.0.0-1".toList = false := by
  have hone : IsNumeral ['1'] := isNumeral_one
  have htwo : IsNumeral ['2'] := by decide
  have hprecedence := precedence_numericPre htwo hone
  obtain ⟨hagent, haccepts, -⟩ := comparators_follow_precedence.2.1 _ _
    (numericPre_coreFits htwo) (numericPre_coreFits hone)
  have hshort : ¬ ComparisonRefused (numericPre ['2'] htwo) (numericPre ['1'] hone) := by
    rintro ⟨-, left, right, hdiff, -, -, hlen⟩
    obtain ⟨hl, hr, -⟩ := mem_of_firstDifference hdiff
    rw [mem_singleton.mp hl, mem_singleton.mp hr] at hlen
    exact absurd hlen (by decide)
  obtain ⟨hcompare, havailable⟩ := haccepts hshort
  have hrejects : rejectsVersion (numericPre ['2'] htwo).text (numericPre ['1'] hone).text =
      false := by
    rw [rejectsVersion, hagent, hprecedence]
    decide
  rw [hrejects] at havailable
  rw [hprecedence] at hcompare
  rw [text_numericPre, text_numericPre] at hcompare havailable hrejects
  exact ⟨hcompare, havailable, hrejects⟩

/-- **An identifier of 4301 digits**: the agent accepts the update from `1.0.0-2`, and the
comparison of the add-on raises `ValueError`. -/
theorem long_identifier_refused :
    parseSemverStrict ("1.0.0-".toList ++ List.replicate 4301 '1') = true ∧
      parseSemverStrict "1.0.0-2".toList = true ∧
      Agent.compareSemver ("1.0.0-".toList ++ List.replicate 4301 '1') "1.0.0-2".toList = 1 ∧
      compareSemver ("1.0.0-".toList ++ List.replicate 4301 '1') "1.0.0-2".toList =
        .error .valueError := by
  have htwo : IsNumeral ['2'] := by decide
  have hlong : IsNumeral (List.replicate 4301 '1') := isNumeral_replicate (by decide)
  have hv := numericPre_coreFits hlong
  have hw := numericPre_coreFits htwo
  have hlt : decimal ['2'] < decimal (List.replicate 4301 '1') :=
    decimal_lt_of_length_lt htwo.isDigit hlong (by decide) (by rw [length_replicate]; decide)
  have hne : List.replicate 4301 '1' ≠ ['2'] := fun h => by
    rw [h] at hlt
    exact absurd hlt (Nat.lt_irrefl _)
  have hrefused : ComparisonRefused (numericPre _ hlong) (numericPre _ htwo) := by
    refine ⟨⟨rfl, rfl, rfl⟩, List.replicate 4301 '1', ['2'], ?_, hlong.isDigit, htwo.isDigit, ?_⟩
    · exact List.find?_cons_of_pos (bne_iff_ne.mpr hne)
    · rw [length_replicate]
      decide
  have hagent := Version.compareSemver_text hv hw
  have haddon := (compareSemver_text hv hw).1 hrefused
  rw [precedence_numericPre, threeWay_of_gt hlt] at hagent
  rw [text_numericPre, text_numericPre] at hagent haddon
  exact ⟨parseSemverStrict_iff.mpr ⟨_, text_numericPre hlong⟩,
    parseSemverStrict_iff.mpr ⟨_, text_numericPre htwo⟩, hagent, haddon⟩

end PetlibroLocal.Updates
