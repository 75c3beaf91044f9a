import PetlibroLocal.Updates.Semver

/-!
# One Grammar of Versions

Three programs check version strings: the agent with the scanner `parse_semver_strict`, the add-on
with `_semver_components`, and the release tool with `_validate_semver`. The last two use one
pattern and check the zeros of numeric identifiers apart from it. Here the grammar of SemVer 2.0.0
is written down rule by rule, in the words of its Backus–Naur form, and each program is compared
with it. Strings are lists of ASCII characters without NUL.

The main results are `validSemver_iff` and `semver_grammar`.
-/

namespace PetlibroLocal.Release

open Agent Updates List

/-! ### The grammar -/

/-- `<positive digit>`. -/
def PositiveDigit (c : Char) : Prop := c.isDigit = true ∧ c ≠ '0'

/-- `<non-digit>`: a letter or the hyphen. -/
def NonDigit (c : Char) : Prop := c.isAlpha = true ∨ c = '-'

/-- `<identifier character>`. -/
def IdentifierCharacter (c : Char) : Prop := c.isDigit = true ∨ NonDigit c

/-- A rule of the form `<ps> ::= <p> | <p> <ps>`. -/
inductive Repeated (p : Char → Prop) : List Char → Prop
  | single {c : Char} : p c → Repeated p [c]
  | cons {c : Char} {cs : List Char} : p c → Repeated p cs → Repeated p (c :: cs)

/-- `<digits>`. -/
def Digits : List Char → Prop := Repeated (·.isDigit = true)

/-- `<identifier characters>`. -/
def IdentifierCharacters : List Char → Prop := Repeated IdentifierCharacter

/-- `<numeric identifier>`. -/
inductive NumericIdentifier : List Char → Prop
  | zero : NumericIdentifier ['0']
  | positive {c : Char} : PositiveDigit c → NumericIdentifier [c]
  | digits {c : Char} {ds : List Char} :
      PositiveDigit c → Digits ds → NumericIdentifier (c :: ds)

/-- `<alphanumeric identifier>`. -/
inductive AlphanumericIdentifier : List Char → Prop
  | single {c : Char} : NonDigit c → AlphanumericIdentifier [c]
  | first {c : Char} {cs : List Char} :
      NonDigit c → IdentifierCharacters cs → AlphanumericIdentifier (c :: cs)
  | last {cs : List Char} {c : Char} :
      IdentifierCharacters cs → NonDigit c → AlphanumericIdentifier (cs ++ [c])
  | between {cs : List Char} {c : Char} {cs' : List Char} :
      IdentifierCharacters cs → NonDigit c → IdentifierCharacters cs' →
        AlphanumericIdentifier (cs ++ c :: cs')

/-- `<build identifier>`. -/
inductive BuildIdentifier : List Char → Prop
  | alphanumeric {cs : List Char} : AlphanumericIdentifier cs → BuildIdentifier cs
  | digits {cs : List Char} : Digits cs → BuildIdentifier cs

/-- `<pre-release identifier>`. -/
inductive PreReleaseIdentifier : List Char → Prop
  | alphanumeric {cs : List Char} : AlphanumericIdentifier cs → PreReleaseIdentifier cs
  | numeric {cs : List Char} : NumericIdentifier cs → PreReleaseIdentifier cs

/-- `<dot-separated … identifiers>`. -/
inductive DotSeparated (P : List Char → Prop) : List Char → Prop
  | single {id : List Char} : P id → DotSeparated P id
  | cons {id ids : List Char} : P id → DotSeparated P ids → DotSeparated P (id ++ '.' :: ids)

/-- `<version core>`. -/
inductive VersionCore : List Char → Prop
  | mk {major minor patch : List Char} : NumericIdentifier major → NumericIdentifier minor →
      NumericIdentifier patch → VersionCore (major ++ '.' :: (minor ++ '.' :: patch))

/-- `<valid semver>`. -/
inductive ValidSemver : List Char → Prop
  | core {core : List Char} : VersionCore core → ValidSemver core
  | preRelease {core pre : List Char} : VersionCore core →
      DotSeparated PreReleaseIdentifier pre → ValidSemver (core ++ '-' :: pre)
  | build {core build : List Char} : VersionCore core →
      DotSeparated BuildIdentifier build → ValidSemver (core ++ '+' :: build)
  | preReleaseBuild {core pre build : List Char} : VersionCore core →
      DotSeparated PreReleaseIdentifier pre → DotSeparated BuildIdentifier build →
        ValidSemver (core ++ ('-' :: pre ++ '+' :: build))

/-! ### The check of the release tool -/

/-- What the release tool raises. -/
inductive ReleaseError where
  | valueError (message : String)
  | typeError (message : String)
deriving DecidableEq, Repr

/-- `_validate_semver`. -/
def validateSemver (value : List Char) (fieldName : String) :
    Except ReleaseError (List Char) :=
  match fullmatch value with
  | none => .error (.valueError s!"{fieldName} must be SemVer")
  | some m =>
    if (prereleaseParts m.group4).any leadingZero then
      .error (.valueError
        s!"{fieldName} numeric prerelease identifiers must not have leading zeros")
    else .ok value

/-! ### Identifiers -/

variable {cs value : List Char} {c : Char} {v : Version}

theorem repeated_iff {p : Char → Prop} : Repeated p cs ↔ cs ≠ [] ∧ ∀ c ∈ cs, p c := by
  constructor
  · intro h
    induction h with
    | single hc => exact ⟨by simp, by simpa using hc⟩
    | cons hc _ ih =>
      refine ⟨by simp, fun d hd => ?_⟩
      rcases mem_cons.mp hd with rfl | hd
      · exact hc
      · exact ih.2 d hd
  · rintro ⟨hne, hall⟩
    induction cs with
    | nil => exact absurd rfl hne
    | cons c cs ih =>
      have hc := hall c mem_cons_self
      by_cases hcs : cs = []
      · rw [hcs]
        exact .single hc
      · exact .cons hc (ih hcs fun d hd => hall d (mem_cons_of_mem c hd))

theorem identifierCharacter_iff : IdentifierCharacter c ↔ isIdentifierChar c = true := by
  rw [IdentifierCharacter, NonDigit, isIdentifierChar, Char.isAlphanum]
  simp only [Bool.or_eq_true, beq_iff_eq]
  tauto

theorem identifierCharacters_iff : IdentifierCharacters cs ↔ IsBuildIdentifier cs := by
  rw [IdentifierCharacters, repeated_iff, IsBuildIdentifier]
  exact and_congr_right fun _ => forall₂_congr fun c _ => identifierCharacter_iff

theorem digits_iff : Digits cs ↔ cs ≠ [] ∧ IsNumericIdentifier cs :=
  repeated_iff

theorem nonDigit_iff (h : isIdentifierChar c = true) : NonDigit c ↔ c.isDigit = false := by
  constructor
  · rintro (halpha | rfl)
    · have hc := toNat_lt_of_isIdentifierChar h
      revert halpha
      exact ascii_cases (p := fun c => c.isAlpha = true → c.isDigit = false) (by decide) hc
    · decide
  · intro hdigit
    rcases identifierCharacter_iff.mpr h with h | h
    · rw [hdigit] at h
      contradiction
    · exact h

theorem numericIdentifier_iff {ds : List Char} : NumericIdentifier ds ↔ IsNumeral ds := by
  constructor
  · intro h
    cases h with
    | zero => exact isNumeral_zero
    | positive hc =>
      exact ⟨by simp, by simpa using hc.1, fun hlen => by simp at hlen⟩
    | digits hc hds =>
      refine ⟨by simp, ?_, fun _ hzero => hc.2 (Option.some.inj hzero)⟩
      rw [forall_mem_cons]
      exact ⟨hc.1, (digits_iff.mp hds).2⟩
  · intro h
    cases ds with
    | nil => exact absurd rfl h.ne_nil
    | cons d ds =>
      obtain ⟨hd, hds⟩ := forall_mem_cons.mp h.isDigit
      by_cases hnil : ds = []
      · subst hnil
        by_cases hzero : d = '0'
        · rw [hzero]
          exact .zero
        · exact .positive ⟨hd, hzero⟩
      · have hlen : 1 < (d :: ds).length := by
          have := length_pos_iff.mpr hnil
          rw [length_cons]
          omega
        have hzero : d ≠ '0' := fun hzero => h.head hlen (by rw [hzero, List.head?_cons])
        exact .digits ⟨hd, hzero⟩ (digits_iff.mpr ⟨hnil, hds⟩)

/-- **An alphanumeric identifier holds a character that is no digit**, at its start, at its end,
or between two parts. -/
theorem alphanumericIdentifier_iff :
    AlphanumericIdentifier cs ↔ IsBuildIdentifier cs ∧ ¬ IsNumericIdentifier cs := by
  constructor
  · intro h
    obtain ⟨front, c, rear, rfl, hfront, hc, hrear⟩ : ∃ front c rear, cs = front ++ c :: rear ∧
        (∀ d ∈ front, isIdentifierChar d = true) ∧ NonDigit c ∧
        ∀ d ∈ rear, isIdentifierChar d = true := by
      cases h with
      | single hc => exact ⟨[], _, [], rfl, forall_mem_nil _, hc, forall_mem_nil _⟩
      | first hc hcs =>
        exact ⟨[], _, _, rfl, forall_mem_nil _, hc, (identifierCharacters_iff.mp hcs).2⟩
      | last hcs hc =>
        exact ⟨_, _, [], rfl, (identifierCharacters_iff.mp hcs).2, hc, forall_mem_nil _⟩
      | between hcs hc hcs' =>
        exact ⟨_, _, _, rfl, (identifierCharacters_iff.mp hcs).2, hc,
          (identifierCharacters_iff.mp hcs').2⟩
    have hchar := identifierCharacter_iff.mp (.inr hc)
    refine ⟨⟨by simp, ?_⟩, fun hnumeric => ?_⟩
    · rw [forall_mem_append, forall_mem_cons]
      exact ⟨hfront, hchar, hrear⟩
    · have hdigit := hnumeric c (by simp)
      rw [(nonDigit_iff hchar).mp hc] at hdigit
      contradiction
  · rintro ⟨⟨-, hall⟩, hnumeric⟩
    obtain ⟨c, hmem, hdigit⟩ : ∃ c ∈ cs, c.isDigit = false := by
      by_contra hno
      refine hnumeric fun c hc => ?_
      by_contra hdigit
      exact hno ⟨c, hc, Bool.eq_false_iff.mpr hdigit⟩
    have hc := (nonDigit_iff (hall c hmem)).mpr hdigit
    obtain ⟨front, rear, rfl⟩ := append_of_mem hmem
    rw [forall_mem_append, forall_mem_cons] at hall
    obtain ⟨hfront, -, hrear⟩ := hall
    -- the four alternatives of the rule: which of the two parts is empty
    by_cases hf : front = [] <;> by_cases hr : rear = []
    · rw [hf, hr]
      exact .single hc
    · rw [hf]
      exact .first hc (identifierCharacters_iff.mpr ⟨hr, hrear⟩)
    · rw [hr]
      exact .last (identifierCharacters_iff.mpr ⟨hf, hfront⟩) hc
    · exact .between (identifierCharacters_iff.mpr ⟨hf, hfront⟩) hc
        (identifierCharacters_iff.mpr ⟨hr, hrear⟩)

theorem buildIdentifier_iff : BuildIdentifier cs ↔ IsBuildIdentifier cs := by
  constructor
  · rintro (h | h)
    · exact (alphanumericIdentifier_iff.mp h).1
    · obtain ⟨hne, hdigits⟩ := digits_iff.mp h
      exact ⟨hne, fun c hc => isIdentifierChar_of_isDigit (hdigits c hc)⟩
  · intro h
    by_cases hnumeric : IsNumericIdentifier cs
    · exact .digits (digits_iff.mpr ⟨h.1, hnumeric⟩)
    · exact .alphanumeric (alphanumericIdentifier_iff.mpr ⟨h, hnumeric⟩)

theorem preReleaseIdentifier_iff : PreReleaseIdentifier cs ↔ IsPreIdentifier cs := by
  constructor
  · rintro (h | h)
    · obtain ⟨hbuild, hnumeric⟩ := alphanumericIdentifier_iff.mp h
      exact ⟨hbuild, fun h => absurd h hnumeric⟩
    · have hnumeral := numericIdentifier_iff.mp h
      exact ⟨⟨hnumeral.ne_nil, fun c hc => isIdentifierChar_of_isDigit (hnumeral.isDigit c hc)⟩,
        fun _ => hnumeral.head⟩
  · rintro ⟨hbuild, hhead⟩
    by_cases hnumeric : IsNumericIdentifier cs
    · exact .numeric (numericIdentifier_iff.mpr ⟨hbuild.1, hnumeric, hhead hnumeric⟩)
    · exact .alphanumeric (alphanumericIdentifier_iff.mpr ⟨hbuild, hnumeric⟩)

/-! ### Versions -/

theorem dotted_cons {id id' : List Char} {ids : List (List Char)} :
    dotted (id :: id' :: ids) = id ++ '.' :: dotted (id' :: ids) := by
  simp [dotted, List.intercalate]

theorem dotSeparated_iff {P : List Char → Prop} :
    DotSeparated P cs ↔ ∃ ids, ids ≠ [] ∧ (∀ id ∈ ids, P id) ∧ dotted ids = cs := by
  constructor
  · intro h
    induction h with
    | single hid => exact ⟨[_], by simp, by simpa using hid, by simp [dotted]⟩
    | cons hid _ ih =>
      obtain ⟨ids, hne, hids, rfl⟩ := ih
      obtain ⟨id', ids, rfl⟩ := exists_cons_of_ne_nil hne
      exact ⟨_ :: id' :: ids, by simp, forall_mem_cons.mpr ⟨hid, hids⟩, dotted_cons⟩
  · rintro ⟨ids, hne, hids, rfl⟩
    induction ids with
    | nil => exact absurd rfl hne
    | cons id ids ih =>
      obtain ⟨hid, hids⟩ := forall_mem_cons.mp hids
      cases ids with
      | nil => simpa [dotted] using DotSeparated.single hid
      | cons id' ids =>
        rw [dotted_cons]
        exact .cons hid (ih (by simp) hids)

theorem versionCore_iff :
    VersionCore cs ↔ ∃ major minor patch, IsNumeral major ∧ IsNumeral minor ∧ IsNumeral patch ∧
      major ++ '.' :: (minor ++ '.' :: patch) = cs := by
  constructor
  · rintro ⟨hmajor, hminor, hpatch⟩
    exact ⟨_, _, _, numericIdentifier_iff.mp hmajor, numericIdentifier_iff.mp hminor,
      numericIdentifier_iff.mp hpatch, rfl⟩
  · rintro ⟨major, minor, patch, hmajor, hminor, hpatch, rfl⟩
    exact ⟨numericIdentifier_iff.mpr hmajor, numericIdentifier_iff.mpr hminor,
      numericIdentifier_iff.mpr hpatch⟩

theorem marked_iff {P Q : List Char → Prop} (hPQ : ∀ id, P id ↔ Q id) {sign : Char} :
    (cs = [] ∨ ∃ ids, DotSeparated P ids ∧ cs = sign :: ids) ↔
      ∃ ids, (∀ id ∈ ids, Q id) ∧ marked sign ids = cs := by
  constructor
  · rintro (rfl | ⟨_, hseparated, rfl⟩)
    · exact ⟨[], forall_mem_nil _, rfl⟩
    · obtain ⟨ids, hne, hids, rfl⟩ := dotSeparated_iff.mp hseparated
      exact ⟨ids, fun id hid => (hPQ id).mp (hids id hid), if_neg hne⟩
  · rintro ⟨ids, hids, rfl⟩
    by_cases hne : ids = []
    · exact .inl (if_pos hne)
    · exact .inr ⟨_, dotSeparated_iff.mpr ⟨ids, hne, fun id hid => (hPQ id).mpr (hids id hid), rfl⟩,
        if_neg hne⟩

/-- A valid string: the numbers, then identifiers behind the two signs, each of which may lack. -/
theorem validSemver_parts : ValidSemver cs ↔ ∃ core pre build, VersionCore core ∧
    (pre = [] ∨ ∃ ids, DotSeparated PreReleaseIdentifier ids ∧ pre = '-' :: ids) ∧
    (build = [] ∨ ∃ ids, DotSeparated BuildIdentifier ids ∧ build = '+' :: ids) ∧
    core ++ (pre ++ build) = cs := by
  constructor
  · rintro (hcore | ⟨hcore, hpre⟩ | ⟨hcore, hbuild⟩ | ⟨hcore, hpre, hbuild⟩)
    · exact ⟨_, [], [], hcore, .inl rfl, .inl rfl, by simp⟩
    · exact ⟨_, _, [], hcore, .inr ⟨_, hpre, rfl⟩, .inl rfl, by simp⟩
    · exact ⟨_, [], _, hcore, .inl rfl, .inr ⟨_, hbuild, rfl⟩, by simp⟩
    · exact ⟨_, _, _, hcore, .inr ⟨_, hpre, rfl⟩, .inr ⟨_, hbuild, rfl⟩, rfl⟩
  · rintro ⟨core, _, _, hcore, rfl | ⟨pre, hpre, rfl⟩, rfl | ⟨build, hbuild, rfl⟩, rfl⟩
    · simpa using ValidSemver.core hcore
    · exact .build hcore hbuild
    · simpa using ValidSemver.preRelease hcore hpre
    · exact .preReleaseBuild hcore hpre hbuild

/-- **The grammar derives the texts of versions, and no others.** -/
theorem validSemver_iff : ValidSemver cs ↔ ∃ v : Version, v.text = cs := by
  rw [validSemver_parts]
  simp only [marked_iff fun _ => preReleaseIdentifier_iff, marked_iff fun _ => buildIdentifier_iff,
    versionCore_iff]
  constructor
  · rintro ⟨_, _, _, ⟨major, minor, patch, hmajor, hminor, hpatch, rfl⟩, ⟨pre, hpre, rfl⟩,
      ⟨build, hbuild, rfl⟩, rfl⟩
    exact ⟨⟨major, minor, patch, pre, build, hmajor, hminor, hpatch, hpre, hbuild⟩, rfl⟩
  · rintro ⟨v, rfl⟩
    exact ⟨_, _, _, ⟨v.major, v.minor, v.patch, v.isNumeral_major, v.isNumeral_minor,
      v.isNumeral_patch, rfl⟩, ⟨v.pre, v.isPre, rfl⟩, ⟨v.build, v.isBuild, rfl⟩, rfl⟩

/-! ### The pattern with its check -/

theorem exists_version_of_fullmatch {m : SemverMatch} (hm : fullmatch value = some m)
    (hzero : (prereleaseParts m.group4).any leadingZero = false) :
    ∃ v : Version, v.text = value := by
  obtain ⟨rfl, hok⟩ := fullmatch_eq_some.mp hm
  obtain ⟨pre, hpre, h4⟩ := exists_identifiersGroup hok.group4
  obtain ⟨build, hbuild, h5⟩ := exists_identifiersGroup hok.group5
  rw [h4, prereleaseParts_identifiersGroup hpre, any_eq_false] at hzero
  refine ⟨⟨m.group1, m.group2, m.group3, pre, build, numberRe_rmatch.mp hok.group1,
    numberRe_rmatch.mp hok.group2, numberRe_rmatch.mp hok.group3, fun id hid =>
      isPreIdentifier_iff.mpr ⟨hpre id hid, Bool.eq_false_iff.mpr (hzero id hid)⟩, hbuild⟩, ?_⟩
  rw [SemverMatch.value, h4, h5, signed_identifiersGroup, signed_identifiersGroup, Version.text_eq]
  rfl

/-- **The pattern and the check of the zeros accept the texts of versions, and no others.** -/
theorem validateSemver_iff {fieldName : String} :
    (∃ r, validateSemver value fieldName = .ok r) ↔ ∃ v : Version, v.text = value := by
  constructor
  · rintro ⟨r, h⟩
    unfold validateSemver at h
    split at h
    · simp at h
    · rename_i m hm
      split at h
      · simp at h
      · rename_i hzero
        exact exists_version_of_fullmatch hm (Bool.eq_false_iff.mpr hzero)
  · rintro ⟨v, rfl⟩
    refine ⟨v.text, ?_⟩
    simp only [validateSemver, fullmatch_text, prereleaseParts_identifiersGroup v.isBuild_pre]
    exact if_neg (Bool.eq_false_iff.mp (any_leadingZero v))

theorem semverComponents_version (v : Version) :
    semverComponents v.text =
      if ∀ ds ∈ [v.major, v.minor, v.patch], ds.length ≤ maxStrDigits then .ok (core v, v.pre)
      else .error .valueError := by
  have hint : ∀ ds, int ds =
      if ds.length ≤ maxStrDigits then .ok (decimal ds) else .error .valueError := by
    intro ds
    rw [int, ← ite_not]
    simp only [Nat.not_lt]
  rw [semverComponents_eq, hint, hint, hint]
  by_cases hmajor : v.major.length ≤ maxStrDigits <;>
    by_cases hminor : v.minor.length ≤ maxStrDigits <;>
      by_cases hpatch : v.patch.length ≤ maxStrDigits <;>
        simp [hmajor, hminor, hpatch, core, bind, Except.bind, pure, Except.pure]

theorem semverComponents_of_length_le (h : v.text.length ≤ maxStrDigits) :
    ∃ components, semverComponents v.text = .ok components := by
  rw [semverComponents_version, if_pos]
  · exact ⟨_, rfl⟩
  · rw [v.text_eq] at h
    simp only [length_append, length_cons] at h
    simp only [mem_cons, not_mem_nil, or_false]
    rintro ds (rfl | rfl | rfl) <;> omega

theorem mem_marked {sign : Char} {ids : List (List Char)} (hids : ∀ id ∈ ids, IsBuildIdentifier id)
    (h : c ∈ marked sign ids) : c = sign ∨ c = '.' ∨ isIdentifierChar c = true := by
  unfold marked at h
  split at h
  · cases h
  · rcases mem_cons.mp h with rfl | h
    · exact .inl rfl
    · rcases mem_intercalate_of_mem h with rfl | ⟨id, hid, hc⟩
      · exact .inr (.inl rfl)
      · exact .inr (.inr ((hids id hid).2 c hc))

theorem mem_text (h : c ∈ v.text) : c = '-' ∨ c = '+' ∨ c = '.' ∨ isIdentifierChar c = true := by
  have hdigit : ∀ {ds : List Char}, IsNumeral ds → c ∈ ds → isIdentifierChar c = true :=
    fun hds hc => isIdentifierChar_of_isDigit (hds.isDigit c hc)
  rw [v.text_eq, Version.tailText] at h
  simp only [mem_append, mem_cons] at h
  rcases h with h | rfl | h | rfl | h | h | h
  · exact .inr (.inr (.inr (hdigit v.isNumeral_major h)))
  · exact .inr (.inr (.inl rfl))
  · exact .inr (.inr (.inr (hdigit v.isNumeral_minor h)))
  · exact .inr (.inr (.inl rfl))
  · exact .inr (.inr (.inr (hdigit v.isNumeral_patch h)))
  · rcases mem_marked v.isBuild_pre h with rfl | rfl | h
    · exact .inl rfl
    · exact .inr (.inr (.inl rfl))
    · exact .inr (.inr (.inr h))
  · rcases mem_marked v.isBuild h with rfl | rfl | h
    · exact .inr (.inl rfl)
    · exact .inr (.inr (.inl rfl))
    · exact .inr (.inr (.inr h))

theorem toNat_lt_of_mem_text (h : c ∈ v.text) : c.toNat < 128 := by
  rcases mem_text h with rfl | rfl | rfl | h
  · decide
  · decide
  · decide
  · exact toNat_lt_of_isIdentifierChar h

/-- The numbers of a version string have digits that `int` converts. -/
def ShortCore (value : List Char) : Prop :=
  ∃ v : Version, v.text = value ∧
    ∀ ds ∈ [v.major, v.minor, v.patch], ds.length ≤ maxStrDigits

theorem shortCore_text :
    ShortCore v.text ↔ ∀ ds ∈ [v.major, v.minor, v.patch], ds.length ≤ maxStrDigits := by
  constructor
  · rintro ⟨w, hw, h⟩
    rwa [Version.text_injective hw] at h
  · exact fun h => ⟨v, rfl, h⟩

theorem semverComponents_of_not_version (h : ¬ ∃ v : Version, v.text = value) :
    ∃ message, semverComponents value = .error (.updateValidationError message) := by
  cases hm : fullmatch value with
  | none => exact ⟨_, by rw [semverComponents, hm]⟩
  | some m =>
    by_cases hzero : (prereleaseParts m.group4).any leadingZero = true
    · refine ⟨"numeric SemVer prerelease identifiers must not have leading zeros", ?_⟩
      rw [semverComponents, hm]
      exact if_pos hzero
    · exact absurd (exists_version_of_fullmatch hm (Bool.eq_false_iff.mpr hzero)) h

/-- **One grammar of versions.** The agent and the release tool accept exactly the strings of the
grammar of SemVer 2.0.0. The add-on accepts those of them whose three numbers have at most 4300
digits, and on the others the conversion of a number raises `ValueError`. It reports that a string
is no version at all exactly if `SEMVER_RE` does not match it. -/
theorem semver_grammar (value : List Char) (fieldName : String) :
    (parseSemverStrict value = true ↔ ValidSemver value) ∧
      ((∃ r, validateSemver value fieldName = .ok r) ↔ ValidSemver value) ∧
      ((∃ r, semverComponents value = .ok r) ↔ ValidSemver value ∧ ShortCore value) ∧
      (semverComponents value = .error .valueError ↔ ValidSemver value ∧ ¬ ShortCore value) ∧
      (semverComponents value = .error (.updateValidationError "manifest version must be SemVer") ↔
        value ∉ semverRe.matches') := by
  simp only [validSemver_iff]
  refine ⟨parseSemverStrict_iff, validateSemver_iff, ?_⟩
  rw [← and_assoc]
  refine ⟨?_, semverComponents_noMatch⟩
  by_cases hversion : ∃ v : Version, v.text = value
  · obtain ⟨v, rfl⟩ := hversion
    have hself : ∃ w : Version, w.text = v.text := ⟨v, rfl⟩
    rw [semverComponents_version]
    by_cases hshort : ShortCore v.text
    · rw [if_pos (shortCore_text.mp hshort)]
      simp [hshort, hself]
    · rw [if_neg fun h => hshort (shortCore_text.mpr h)]
      simp [hshort, hself]
  · obtain ⟨message, herror⟩ := semverComponents_of_not_version hversion
    simp [herror, hversion]

/-- A version whose first number has 4301 digits. -/
def longMajor : Version where
  major := List.replicate 4301 '1'
  minor := ['0']
  patch := ['0']
  pre := []
  build := []
  isNumeral_major := isNumeral_replicate (by omega)
  isNumeral_minor := isNumeral_zero
  isNumeral_patch := isNumeral_zero
  isPre := isPre_nil
  isBuild := isBuild_nil

/-- The add-on refuses a version that the agent and the release tool accept. -/
theorem semver_longMajor :
    parseSemverStrict longMajor.text = true ∧
      (∃ r, validateSemver longMajor.text "version" = .ok r) ∧ ValidSemver longMajor.text ∧
      semverComponents longMajor.text = .error .valueError := by
  have hversion : ∃ v : Version, v.text = longMajor.text := ⟨longMajor, rfl⟩
  refine ⟨parseSemverStrict_iff.mpr hversion, validateSemver_iff.mpr hversion,
    validSemver_iff.mpr hversion, ?_⟩
  rw [semverComponents_version, if_neg]
  intro hshort
  have hlen := hshort longMajor.major (by simp)
  rw [longMajor, length_replicate] at hlen
  exact absurd hlen (by decide)

end PetlibroLocal.Release
