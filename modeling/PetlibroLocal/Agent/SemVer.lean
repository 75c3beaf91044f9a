import PetlibroLocal.Lib.Decimal
import PetlibroLocal.Lib.Scan

/-!
# Version Strings

`Version` is a version of SemVer 2.0.0: three numbers, the identifiers of a pre-release and
those of the build metadata; `Version.text` writes it down. `parse_semver_strict` of the state
agent accepts exactly these texts.

Strings are lists of characters. A pointer into a C string is what is left of the string from
there on, so that the terminating zero is the end of the list.
-/

namespace PetlibroLocal.Agent

open List

/-! ### Versions -/

/-- The characters of identifiers: `isalnum` in the C locale, and the hyphen. -/
def isIdentifierChar (c : Char) : Bool := c.isAlphanum || c == '-'

/-- An identifier of build metadata. -/
def IsBuildIdentifier (cs : List Char) : Prop := cs ≠ [] ∧ ∀ c ∈ cs, isIdentifierChar c = true

/-- An identifier made of digits only. -/
def IsNumericIdentifier (cs : List Char) : Prop := ∀ c ∈ cs, c.isDigit = true

/-- An identifier of a pre-release: one of digits only has no leading zero. -/
def IsPreIdentifier (cs : List Char) : Prop :=
  IsBuildIdentifier cs ∧ (IsNumericIdentifier cs → 1 < cs.length → cs.head? ≠ some '0')

instance (cs : List Char) : Decidable (IsBuildIdentifier cs) :=
  inferInstanceAs (Decidable (_ ∧ _))

instance (cs : List Char) : Decidable (IsNumericIdentifier cs) :=
  inferInstanceAs (Decidable (∀ c ∈ cs, c.isDigit = true))

instance (cs : List Char) : Decidable (IsPreIdentifier cs) :=
  inferInstanceAs (Decidable (_ ∧ (_ → _)))

/-- A version: without identifiers there is no pre-release, or no build metadata. -/
@[ext] structure Version where
  major : List Char
  minor : List Char
  patch : List Char
  pre : List (List Char)
  build : List (List Char)
  isNumeral_major : IsNumeral major
  isNumeral_minor : IsNumeral minor
  isNumeral_patch : IsNumeral patch
  isPre : ∀ id ∈ pre, IsPreIdentifier id
  isBuild : ∀ id ∈ build, IsBuildIdentifier id

theorem isPre_nil : ∀ id ∈ ([] : List (List Char)), IsPreIdentifier id := forall_mem_nil _

theorem isBuild_nil : ∀ id ∈ ([] : List (List Char)), IsBuildIdentifier id := forall_mem_nil _

/-- Identifiers with dots between them. -/
def dotted (ids : List (List Char)) : List Char := ['.'].intercalate ids

/-- Identifiers behind their sign, or nothing. -/
def marked (sign : Char) (ids : List (List Char)) : List Char :=
  if ids = [] then [] else sign :: dotted ids

namespace Version

/-- The three numbers. -/
def coreText (v : Version) : List Char := v.major ++ '.' :: (v.minor ++ '.' :: v.patch)

/-- What stands behind the numbers. -/
def tailText (v : Version) : List Char := marked '-' v.pre ++ marked '+' v.build

/-- The version as it is written. -/
def text (v : Version) : List Char := v.coreText ++ v.tailText

end Version

/-! ### The parser of the state agent -/

/-- One round of the first loop of `parse_semver_strict`: a number. -/
def parsePart : List Char → Option (List Char)
  | [] => none
  | c :: p =>
    if c.isDigit = false then none
    else if c = '0' ∧ p.head?.any Char.isDigit = true then none
    else some ((c :: p).dropWhile Char.isDigit)

/-- The dot behind the first two numbers. -/
def parseDot : List Char → Option (List Char)
  | '.' :: p => some p
  | _ => none

/-- The first loop of `parse_semver_strict`. -/
def parseParts (value : List Char) : Option (List Char) := do
  let p ← parsePart value
  let p ← parseDot p
  let p ← parsePart p
  let p ← parseDot p
  parsePart p

/-- The checks at the end of an identifier of the pre-release: it is not empty, and has no
leading zero if it is numeric. `p` is where it ends. -/
def identifierEnds (saw identStart : Bool) (identifierStart : List Char)
    (identifierNumeric : Bool) (p : List Char) : Bool :=
  !(identStart || !saw) &&
    !(identifierNumeric && 1 < identifierStart.length - p.length &&
      identifierStart.head? == some '0')

/-- The loop of `parse_semver_strict` over the pre-release. -/
def scanPrerelease (saw identStart : Bool) (identifierStart : List Char)
    (identifierNumeric : Bool) : List Char → Option (List Char)
  | [] =>
    if identifierEnds saw identStart identifierStart identifierNumeric [] then some [] else none
  | c :: p =>
    if c = '+' then
      if identifierEnds saw identStart identifierStart identifierNumeric (c :: p) then
        some (c :: p)
      else none
    else if c = '.' then
      if identifierEnds saw identStart identifierStart identifierNumeric (c :: p) then
        scanPrerelease false true p true p
      else none
    else if isIdentifierChar c = false then none
    else scanPrerelease true false identifierStart (identifierNumeric && c.isDigit) p

/-- The loop of `parse_semver_strict` over the build metadata. -/
def scanBuild (saw identStart : Bool) : List Char → Option (List Char)
  | [] => if identStart || !saw then none else some []
  | c :: p =>
    if c = '.' then if identStart || !saw then none else scanBuild false true p
    else if isIdentifierChar c = false then none
    else scanBuild true false p

/-- The pre-release, if there is one. -/
def parsePrerelease : List Char → Option (List Char)
  | '-' :: p => scanPrerelease false true p true p
  | p => some p

/-- The build metadata, if there is any. -/
def parseBuild : List Char → Option (List Char)
  | '+' :: p => scanBuild false true p
  | p => some p

/-- `parse_semver_strict`. -/
def parseSemverStrict (value : List Char) : Bool :=
  match (do parseBuild (← parsePrerelease (← parseParts value))) with
  | some [] => true
  | _ => false

/-! ### Characters -/

variable {c : Char} {p q value : List Char} {ids : List (List Char)}

theorem ne_of_isIdentifierChar {d : Char} (hc : isIdentifierChar c = true)
    (hd : isIdentifierChar d = false) : c ≠ d := by
  rintro rfl
  simp [hc] at hd

theorem isIdentifierChar_of_isDigit (h : c.isDigit = true) : isIdentifierChar c = true := by
  simp [isIdentifierChar, Char.isAlphanum, h]

theorem IsBuildIdentifier.notMem {cs : List Char} (h : IsBuildIdentifier cs)
    (hc : isIdentifierChar c = false) : c ∉ cs := fun hmem =>
  ne_of_isIdentifierChar (h.2 c hmem) hc rfl

/-! ### The loops -/

theorem identifierEnds_eq {cur : List Char} (hcur : ∀ c ∈ cur, isIdentifierChar c = true) :
    identifierEnds (!cur.isEmpty) cur.isEmpty (cur ++ p) (cur.all Char.isDigit) p =
      decide (IsPreIdentifier cur) := by
  cases cur with
  | nil => simp [identifierEnds, IsPreIdentifier, IsBuildIdentifier]
  | cons c cur =>
    have hlen : (c :: cur ++ p).length - p.length = (c :: cur).length := by
      rw [length_append, Nat.add_sub_cancel]
    have hbuild : IsBuildIdentifier (c :: cur) := ⟨by simp, hcur⟩
    have hnumeric : (c :: cur).all Char.isDigit = decide (IsNumericIdentifier (c :: cur)) := by
      rw [Bool.eq_iff_iff, all_eq_true, decide_eq_true_eq, IsNumericIdentifier]
    rw [identifierEnds, hlen, hnumeric, Bool.eq_iff_iff]
    simp [IsPreIdentifier, hbuild, or_assoc]

theorem dot_notMem {cur : List Char} (hcur : ∀ c ∈ cur, isIdentifierChar c = true) : '.' ∉ cur :=
  fun h => ne_of_isIdentifierChar (hcur _ h) (by decide) rfl

/-- The part that holds a character of another kind is no identifier. -/
theorem not_forall_splitOn {P : List Char → Prop} (hP : ∀ id, P id → IsBuildIdentifier id)
    (hc : c ≠ '.') (hchar : isIdentifierChar c = false) (hmem : c ∈ p) :
    ¬∀ id ∈ p.splitOn '.', P id := by
  obtain ⟨part, hpart, hmem⟩ := exists_mem_splitOn hmem hc
  exact fun h => (hP part (h part hpart)).notMem hchar hmem

/-- **The loop over the pre-release**: behind the part `cur` of an identifier, it reads up to the
sign of the build metadata and accepts identifiers with dots between them. -/
theorem scanPrerelease_eq {cur p : List Char} (hcur : ∀ c ∈ cur, isIdentifierChar c = true) :
    scanPrerelease (!cur.isEmpty) cur.isEmpty (cur ++ p) (cur.all Char.isDigit) p =
      if ∀ id ∈ (cur ++ p.takeWhile (· != '+')).splitOn '.', IsPreIdentifier id then
        some (p.dropWhile (· != '+'))
      else none := by
  induction p generalizing cur with
  | nil =>
    rw [scanPrerelease, identifierEnds_eq hcur]
    simp only [takeWhile_nil, append_nil, splitOn_of_notMem (dot_notMem hcur), mem_singleton,
      forall_eq, decide_eq_true_eq, dropWhile_nil]
  | cons c p ih =>
    have hdot := dot_notMem hcur
    by_cases hplus : c = '+'
    · subst hplus
      rw [scanPrerelease, if_pos rfl, identifierEnds_eq hcur]
      simp only [decide_eq_true_eq, bne_self_eq_false, Bool.false_eq_true, not_false_iff,
        takeWhile_cons_of_neg, dropWhile_cons_of_neg, append_nil,
        splitOn_of_notMem hdot, mem_singleton, forall_eq]
    have htake : (c :: p).takeWhile (· != '+') = c :: p.takeWhile (· != '+') := by
      simp [hplus]
    have hdrop : (c :: p).dropWhile (· != '+') = p.dropWhile (· != '+') := by
      simp [hplus]
    rw [scanPrerelease, if_neg hplus, htake, hdrop]
    by_cases hc : c = '.'
    · subst hc
      have hnil := @ih [] (by simp)
      simp only [isEmpty_nil, Bool.not_true, nil_append, all_nil] at hnil
      rw [if_pos rfl, identifierEnds_eq hcur, splitOn_append_cons hdot, hnil]
      by_cases hid : IsPreIdentifier cur <;> simp [hid]
    · rw [if_neg hc]
      cases hchar : isIdentifierChar c with
      | false =>
        rw [if_pos rfl, if_neg (not_forall_splitOn (fun _ h => h.1) hc hchar (by simp))]
      | true =>
        have hcur' := forall_mem_append.mpr ⟨hcur, forall_mem_singleton.mpr hchar⟩
        have hstep := ih hcur'
        have hne : (cur ++ [c]).isEmpty = false := by simp
        have hall : (cur ++ [c]).all Char.isDigit = (cur.all Char.isDigit && c.isDigit) := by
          simp
        rw [hne, hall] at hstep
        simp only [append_assoc, singleton_append, Bool.not_false] at hstep
        rw [if_neg (by simp), hstep]

/-- **The loop over the build metadata.** -/
theorem scanBuild_eq {cur p : List Char} (hcur : ∀ c ∈ cur, isIdentifierChar c = true) :
    scanBuild (!cur.isEmpty) cur.isEmpty p =
      if ∀ id ∈ (cur ++ p).splitOn '.', IsBuildIdentifier id then some [] else none := by
  have hends : (cur.isEmpty || !!cur.isEmpty) = true ↔ ¬IsBuildIdentifier cur := by
    cases cur with
    | nil => simp [IsBuildIdentifier]
    | cons c cur => simp [show IsBuildIdentifier (c :: cur) from ⟨by simp, hcur⟩]
  have hdot := dot_notMem hcur
  induction p generalizing cur with
  | nil =>
    simp only [scanBuild, hends, append_nil, splitOn_of_notMem hdot, mem_singleton,
      forall_eq, ite_not]
  | cons c p ih =>
    rw [scanBuild]
    by_cases hc : c = '.'
    · subst hc
      have hnil := @ih [] (by simp) (by simp [IsBuildIdentifier]) (by simp)
      simp only [isEmpty_nil, Bool.not_true, nil_append] at hnil
      rw [if_pos rfl, splitOn_append_cons hdot, hnil]
      by_cases hid : IsBuildIdentifier cur
      · rw [if_neg fun h => hends.mp h hid]
        simp [hid]
      · rw [if_pos (hends.mpr hid)]
        simp [hid]
    · rw [if_neg hc]
      cases hchar : isIdentifierChar c with
      | false =>
        rw [if_pos rfl, if_neg (not_forall_splitOn (fun _ => id) hc hchar (by simp))]
      | true =>
        have hcur' := forall_mem_append.mpr ⟨hcur, forall_mem_singleton.mpr hchar⟩
        have hne : (cur ++ [c]).isEmpty = false := by simp
        have hbuild : IsBuildIdentifier (cur ++ [c]) := ⟨by simp, hcur'⟩
        have hstep := ih hcur' (by simp [hbuild]) (dot_notMem hcur')
        rw [hne] at hstep
        simp only [append_assoc, singleton_append, Bool.not_false] at hstep
        rw [if_neg (by simp), hstep]

/-! ### Numbers -/

theorem parsePart_append {ds rest : List Char} (hds : IsNumeral ds)
    (hrest : ∀ c, rest.head? = some c → c.isDigit = false) :
    parsePart (ds ++ rest) = some rest := by
  have hdrop : (ds ++ rest).dropWhile Char.isDigit = rest :=
    dropWhile_append_exact hds.isDigit hrest
  cases ds with
  | nil => exact absurd rfl hds.ne_nil
  | cons d ds =>
    have hd : d.isDigit = true := hds.isDigit d mem_cons_self
    rw [cons_append, parsePart, if_neg (by simp [hd]), if_neg, ← cons_append, hdrop]
    rintro ⟨rfl, hnext⟩
    cases ds with
    | nil =>
      rw [nil_append] at hnext
      cases hhead : rest.head? with
      | none => simp [hhead] at hnext
      | some c => simp [hhead, hrest c hhead] at hnext
    | cons e ds => exact hds.head (by simp) rfl

theorem exists_of_parsePart (h : parsePart p = some q) :
    ∃ ds, IsNumeral ds ∧ p = ds ++ q ∧ ∀ c, q.head? = some c → c.isDigit = false := by
  cases p with
  | nil => simp [parsePart] at h
  | cons c p =>
    rw [parsePart] at h
    split at h
    · simp at h
    · rename_i hc
      split at h
      · simp at h
      · rename_i hzero
        cases h
        have hc : c.isDigit = true := by simpa using hc
        refine ⟨(c :: p).takeWhile Char.isDigit, ⟨?_, fun d => mem_takeWhile, ?_⟩,
          takeWhile_append_dropWhile.symm, fun d => head?_dropWhile⟩
        · simp [hc]
        · intro hlen hhead
          rw [takeWhile_cons_of_pos hc, List.head?_cons] at hhead
          rw [takeWhile_cons_of_pos hc, length_cons] at hlen
          refine hzero ⟨Option.some.inj hhead, ?_⟩
          cases p with
          | nil => simp at hlen
          | cons d p =>
            by_cases hd : d.isDigit = true
            · simp [hd]
            · simp [hd] at hlen

theorem parseDot_eq_some : parseDot p = some q ↔ p = '.' :: q := by
  constructor
  · intro h
    unfold parseDot at h
    split at h
    · rw [Option.some.inj h]
    · simp at h
  · rintro rfl
    rfl

theorem parseParts_eq_some :
    parseParts value = some q ↔ ∃ major minor patch, IsNumeral major ∧ IsNumeral minor ∧
      IsNumeral patch ∧ value = major ++ '.' :: (minor ++ '.' :: (patch ++ q)) ∧
      ∀ c, q.head? = some c → c.isDigit = false := by
  constructor
  · intro h
    simp only [parseParts, bind, Option.bind_eq_some_iff] at h
    obtain ⟨p₁, h₁, p₂, h₂, p₃, h₃, p₄, h₄, h₅⟩ := h
    obtain ⟨major, hmajor, rfl, -⟩ := exists_of_parsePart h₁
    obtain ⟨minor, hminor, rfl, -⟩ := exists_of_parsePart h₃
    obtain ⟨patch, hpatch, rfl, hq⟩ := exists_of_parsePart h₅
    rw [parseDot_eq_some] at h₂ h₄
    exact ⟨major, minor, patch, hmajor, hminor, hpatch, by rw [h₂, h₄], hq⟩
  · rintro ⟨major, minor, patch, hmajor, hminor, hpatch, rfl, hq⟩
    have hdot : ∀ (l : List Char) (c : Char), ('.' :: l).head? = some c → c.isDigit = false := by
      rintro l c ⟨⟩
      decide
    simp only [parseParts, bind, Option.bind_eq_some_iff, parseDot_eq_some]
    exact ⟨_, parsePart_append hmajor (hdot _), _, rfl, _, parsePart_append hminor (hdot _), _,
      rfl, parsePart_append hpatch hq⟩

/-! ### Texts -/

theorem splitOn_dotted (h : ∀ id ∈ ids, IsBuildIdentifier id) (hne : ids ≠ []) :
    (dotted ids).splitOn '.' = ids :=
  splitOn_intercalate '.' (fun id hid => (h id hid).notMem (by decide)) hne

theorem dotted_splitOn (cs : List Char) : dotted (cs.splitOn '.') = cs := intercalate_splitOn '.'

theorem mem_dotted (h : ∀ id ∈ ids, IsBuildIdentifier id) (hc : c ∈ dotted ids) :
    c = '.' ∨ isIdentifierChar c = true := by
  refine (mem_intercalate_of_mem hc).imp_right ?_
  rintro ⟨id, hid, hmem⟩
  exact (h id hid).2 c hmem

theorem notMem_dotted (h : ∀ id ∈ ids, IsBuildIdentifier id) :
    '+' ∉ dotted ids := fun hc => by
  rcases mem_dotted h hc with hc | hc
  · simp at hc
  · simp [isIdentifierChar] at hc

theorem head?_marked {sign : Char} (h : (marked sign ids).head? = some c) : c = sign := by
  unfold marked at h
  split at h
  · simp at h
  · exact (Option.some.inj h).symm

namespace Version

variable (v w : Version)

theorem isBuild_pre : ∀ id ∈ v.pre, IsBuildIdentifier id := fun id hid => (v.isPre id hid).1

theorem head?_tailText {c : Char} (h : v.tailText.head? = some c) : c = '-' ∨ c = '+' := by
  rw [tailText, List.head?_append] at h
  cases hpre : (marked '-' v.pre).head? with
  | none => rw [hpre, Option.none_or] at h; exact .inr (head?_marked h)
  | some d =>
    rw [hpre, Option.some_or] at h
    cases h
    exact .inl (head?_marked hpre)

theorem text_eq : v.text =
    v.major ++ '.' :: (v.minor ++ '.' :: (v.patch ++ v.tailText)) := by
  simp [text, coreText]

theorem parseParts_text : parseParts v.text = some v.tailText := by
  refine parseParts_eq_some.mpr ⟨v.major, v.minor, v.patch, v.isNumeral_major, v.isNumeral_minor,
    v.isNumeral_patch, v.text_eq, fun c hc => ?_⟩
  rcases v.head?_tailText hc with rfl | rfl <;> decide

end Version

theorem parsePrerelease_of_head (h : p.head? ≠ some '-') : parsePrerelease p = some p := by
  unfold parsePrerelease
  split
  · simp at h
  · rfl

theorem parseBuild_of_head (h : p.head? ≠ some '+') : parseBuild p = some p := by
  unfold parseBuild
  split
  · simp at h
  · rfl

theorem parsePrerelease_eq_some :
    parsePrerelease p = some q ↔ ∃ ids, (∀ id ∈ ids, IsPreIdentifier id) ∧
      p = marked '-' ids ++ q ∧ (ids = [] → q.head? ≠ some '-') ∧
      (ids ≠ [] → ∀ c, q.head? = some c → c = '+') := by
  have hscan : ∀ p : List Char, scanPrerelease false true p true p =
      if ∀ id ∈ (p.takeWhile (· != '+')).splitOn '.', IsPreIdentifier id then
        some (p.dropWhile (· != '+'))
      else none := fun p => @scanPrerelease_eq [] p (by simp)
  constructor
  · intro h
    by_cases hhead : p.head? = some '-'
    · obtain ⟨p, rfl⟩ := head?_eq_some_iff.mp hhead
      rw [parsePrerelease, hscan] at h
      split at h
      · rename_i hids
        cases h
        refine ⟨(p.takeWhile (· != '+')).splitOn '.', hids, ?_, ?_, ?_⟩
        · rw [marked, if_neg (splitOn_ne_nil _ _), dotted_splitOn, cons_append,
            takeWhile_append_dropWhile]
        · exact fun hnil => absurd hnil (splitOn_ne_nil _ _)
        · intro _ c hc
          simpa using head?_dropWhile hc
      · simp at h
    · rw [parsePrerelease_of_head hhead] at h
      cases h
      exact ⟨[], by simp, by simp [marked], fun _ => hhead, by simp⟩
  · rintro ⟨ids, hids, rfl, hnil, hcons⟩
    by_cases hempty : ids = []
    · subst hempty
      rw [marked, if_pos rfl, nil_append]
      exact parsePrerelease_of_head (hnil rfl)
    · have hbuild : ∀ id ∈ ids, IsBuildIdentifier id := fun id hid => (hids id hid).1
      have hbody : ∀ c ∈ dotted ids, (c != '+') = true := by
        intro c hc
        refine bne_iff_ne.mpr ?_
        rintro rfl
        exact notMem_dotted hbuild hc
      have hrest : ∀ c, q.head? = some c → (c != '+') = false := by
        intro c hc
        simp [hcons hempty c hc]
      rw [marked, if_neg hempty, cons_append, parsePrerelease, hscan,
        takeWhile_append_exact hbody hrest, dropWhile_append_exact hbody hrest,
        splitOn_dotted hbuild hempty, if_pos hids]

theorem parseBuild_eq_nil :
    parseBuild p = some [] ↔ ∃ ids, (∀ id ∈ ids, IsBuildIdentifier id) ∧ p = marked '+' ids := by
  have hscan : ∀ p : List Char, scanBuild false true p =
      if ∀ id ∈ p.splitOn '.', IsBuildIdentifier id then some [] else none := fun p =>
    @scanBuild_eq [] _ (by simp)
  constructor
  · intro h
    by_cases hhead : p.head? = some '+'
    · obtain ⟨p, rfl⟩ := head?_eq_some_iff.mp hhead
      rw [parseBuild, hscan] at h
      split at h
      · rename_i hids
        refine ⟨p.splitOn '.', hids, ?_⟩
        rw [marked, if_neg (splitOn_ne_nil _ _), dotted_splitOn]
      · simp at h
    · rw [parseBuild_of_head hhead] at h
      exact ⟨[], by simp, by simpa [marked] using h⟩
  · rintro ⟨ids, hids, rfl⟩
    by_cases hempty : ids = []
    · subst hempty
      rfl
    · rw [marked, if_neg hempty, parseBuild, hscan, splitOn_dotted hids hempty, if_pos hids]

theorem parseSemverStrict_eq_true :
    parseSemverStrict value = true ↔ ∃ p q, parseParts value = some p ∧
      parsePrerelease p = some q ∧ parseBuild q = some [] := by
  have hbind : parseSemverStrict value = true ↔
      (do parseBuild (← parsePrerelease (← parseParts value))) = some [] := by
    unfold parseSemverStrict
    split
    · rename_i h
      exact ⟨fun _ => h, fun _ => rfl⟩
    · rename_i h
      exact ⟨fun hfalse => by simp at hfalse, fun hnil => absurd hnil h⟩
  rw [hbind]
  simp only [bind, Option.bind_eq_some_iff]
  constructor
  · rintro ⟨p, hp, q, hq, h⟩
    exact ⟨p, q, hp, hq, h⟩
  · rintro ⟨p, q, hp, hq, h⟩
    exact ⟨p, hp, q, hq, h⟩

/-- **`parse_semver_strict` accepts the texts of versions, and no others.** -/
theorem parseSemverStrict_iff : parseSemverStrict value = true ↔ ∃ v : Version, v.text = value := by
  rw [parseSemverStrict_eq_true]
  constructor
  · rintro ⟨p, q, hparts, hpre, hbuild⟩
    obtain ⟨major, minor, patch, hmajor, hminor, hpatch, rfl, -⟩ := parseParts_eq_some.mp hparts
    obtain ⟨pre, isPre, rfl, -, -⟩ := parsePrerelease_eq_some.mp hpre
    obtain ⟨build, isBuild, rfl⟩ := parseBuild_eq_nil.mp hbuild
    exact ⟨⟨major, minor, patch, pre, build, hmajor, hminor, hpatch, isPre, isBuild⟩,
      Version.text_eq _⟩
  · rintro ⟨v, rfl⟩
    refine ⟨v.tailText, marked '+' v.build, v.parseParts_text, ?_,
      parseBuild_eq_nil.mpr ⟨v.build, v.isBuild, rfl⟩⟩
    refine parsePrerelease_eq_some.mpr ⟨v.pre, v.isPre, rfl, ?_, fun _ c => head?_marked⟩
    intro _ h
    simpa using head?_marked h

/-! ### One version for each text -/

theorem marked_injective {sign : Char} {ids' : List (List Char)}
    (h : ∀ id ∈ ids, IsBuildIdentifier id) (h' : ∀ id ∈ ids', IsBuildIdentifier id)
    (heq : marked sign ids = marked sign ids') : ids = ids' := by
  unfold marked at heq
  split at heq
  · split at heq
    · rename_i hnil hnil'
      rw [hnil, hnil']
    · simp at heq
  · split at heq
    · simp at heq
    · rename_i hne hne'
      rw [← splitOn_dotted h hne, ← splitOn_dotted h' hne', List.cons.inj heq |>.2]

theorem numeral_append_inj {ds ds' rest rest' : List Char} (hds : IsNumeral ds)
    (hds' : IsNumeral ds') (hrest : ∀ c, rest.head? = some c → c.isDigit = false)
    (hrest' : ∀ c, rest'.head? = some c → c.isDigit = false) (h : ds ++ rest = ds' ++ rest') :
    ds = ds' ∧ rest = rest' := by
  constructor
  · rw [← takeWhile_append_exact hds.isDigit hrest, h, takeWhile_append_exact hds'.isDigit hrest']
  · rw [← dropWhile_append_exact hds.isDigit hrest, h, dropWhile_append_exact hds'.isDigit hrest']

namespace Version

theorem takeWhile_tailText (v : Version) : v.tailText.takeWhile (· != '+') = marked '-' v.pre := by
  refine takeWhile_append_exact (fun c hc => bne_iff_ne.mpr ?_) fun c hc => ?_
  · rintro rfl
    unfold marked at hc
    split at hc
    · simp at hc
    · rcases mem_cons.mp hc with hc | hc
      · simp at hc
      · exact notMem_dotted v.isBuild_pre hc
  · simp [head?_marked hc]

theorem dropWhile_tailText (v : Version) :
    v.tailText.dropWhile (· != '+') = marked '+' v.build := by
  have h := takeWhile_append_dropWhile (p := (· != '+')) (l := v.tailText)
  rw [takeWhile_tailText] at h
  exact append_cancel_left h

/-- **A text is the text of one version only.** -/
theorem text_injective : Function.Injective text := by
  intro v w h
  have hdot : ∀ (l : List Char) (c : Char), ('.' :: l).head? = some c → c.isDigit = false := by
    rintro l c ⟨⟩
    decide
  have htail : ∀ (v : Version) (c : Char), v.tailText.head? = some c → c.isDigit = false := by
    intro v c hc
    rcases v.head?_tailText hc with rfl | rfl <;> decide
  rw [text_eq, text_eq] at h
  obtain ⟨hmajor, h⟩ := numeral_append_inj v.isNumeral_major w.isNumeral_major (hdot _) (hdot _) h
  obtain ⟨hminor, h⟩ := numeral_append_inj v.isNumeral_minor w.isNumeral_minor (hdot _) (hdot _)
    (List.cons.inj h).2
  obtain ⟨hpatch, h⟩ := numeral_append_inj v.isNumeral_patch w.isNumeral_patch (htail v) (htail w)
    (List.cons.inj h).2
  have hpre : marked '-' v.pre = marked '-' w.pre := by
    rw [← takeWhile_tailText, ← takeWhile_tailText, h]
  have hbuild : marked '+' v.build = marked '+' w.build := by
    rw [← dropWhile_tailText, ← dropWhile_tailText, h]
  exact Version.ext hmajor hminor hpatch (marked_injective v.isBuild_pre w.isBuild_pre hpre)
    (marked_injective v.isBuild w.isBuild hbuild)

end Version

end PetlibroLocal.Agent
