import Mathlib.Data.List.TakeWhile
import PetlibroLocal.Agent.SemVer

/-!
# The Precedence of Versions, and the Comparison of the State Agent

`Version.key` puts the precedence rules of SemVer 2.0.0 into an order: the three numbers, then
the identifiers of the pre-release, with a version without one on top. Identifiers of digits
are compared by their value and lie below the others, which are compared as strings; a list of
identifiers lies below its continuations. The build metadata is not in the key.

`compare_semver` of the state agent works on the texts: `strtoul` for the numbers, `strchr` for
the pre-release, and a loop that compares the bytes of one identifier after the other.
-/

namespace PetlibroLocal.Agent

open List

/-! ### Precedence -/

/-- Where an identifier of a pre-release stands among the others. -/
def identifierKey (cs : List Char) : ℕ ⊕ₗ List Char :=
  if IsNumericIdentifier cs then toLex (.inl (decimal cs)) else toLex (.inr cs)

/-- The order of versions. -/
abbrev PrecedenceKey := ℕ ×ₗ ℕ ×ₗ ℕ ×ₗ WithTop (List (ℕ ⊕ₗ List Char))

namespace Version

/-- Where the pre-release stands: a version without one comes last. -/
def preKey (v : Version) : WithTop (List (ℕ ⊕ₗ List Char)) :=
  if v.pre = [] then ⊤ else ((v.pre.map identifierKey : List (ℕ ⊕ₗ List Char)) : WithTop _)

/-- Where a version stands among the others. -/
def key (v : Version) : PrecedenceKey :=
  toLex (decimal v.major, toLex (decimal v.minor, toLex (decimal v.patch, v.preKey)))

/-- The **precedence** of two versions: `-1`, `0` or `1`. -/
def precedence (v w : Version) : ℤ := threeWay v.key w.key

end Version

/-! ### The comparison of the state agent -/

/-- `UINT32_MAX`, which is `ULONG_MAX` as well on the feeder. -/
def uint32Max : ℕ := 2 ^ 32 - 1

/-- `isspace` in the C locale. -/
def isSpace (c : Char) : Bool := c ∈ [' ', '\t', '\n', '\x0b', '\x0c', '\r']

/-- The sign that `strtoul` accepts: whether it is a minus, and what follows. -/
def strtoulSign : List Char → Bool × List Char
  | '-' :: t => (true, t)
  | '+' :: t => (false, t)
  | t => (false, t)

/-- `strtoul` in base ten: the value and where the number ends, or `none` if there is no number
or it is out of range. A minus sign negates the value in the unsigned type. -/
def strtoul (s : List Char) : Option (ℕ × List Char) :=
  let (negative, t) := strtoulSign (s.dropWhile isSpace)
  let value := decimal (t.takeWhile Char.isDigit)
  if t.takeWhile Char.isDigit = [] ∨ uint32Max < value then none
  else
    some (if negative then (2 ^ 32 - value) % 2 ^ 32 else value, t.dropWhile Char.isDigit)

/-- One round of the loop of `parse_core_version`, up to the value. -/
def parseCoreNumber (s : List Char) : Option (ℕ × List Char) := do
  let (value, rest) ← strtoul s
  if uint32Max < value then none else some (value, rest)

/-- `parse_core_version`. -/
def parseCoreVersion (s : List Char) : Option (ℕ × ℕ × ℕ) := do
  let (major, p) ← parseCoreNumber s
  let (minor, p) ← parseCoreNumber (← parseDot p)
  let (patch, _) ← parseCoreNumber (← parseDot p)
  pure (major, minor, patch)

/-- `strchr`. -/
def strchr (s : List Char) (c : Char) : Option (List Char) :=
  match s.dropWhile (· != c) with
  | [] => none
  | p => some p

/-- `semver_prerelease`: the bytes between the first hyphen and the sign of the build
metadata. -/
def semverPrerelease (version : List Char) : Option (List Char) :=
  match strchr version '-' with
  | none => none
  | some dash =>
    match strchr version '+' with
    | none => some (dash.drop 1)
    | some build =>
      if dash.length < build.length then none
      else some ((dash.drop 1).take (dash.length - build.length - 1))

/-- `memcmp`, over blocks of the same length. -/
def memcmp : List Char → List Char → ℤ
  | a :: as, b :: bs => if a < b then -1 else if b < a then 1 else memcmp as bs
  | _, _ => 0

/-- `compare_prerelease_identifier`. -/
def comparePrereleaseIdentifier (left right : List Char) : ℤ :=
  let leftNumeric := left.all Char.isDigit
  let rightNumeric := right.all Char.isDigit
  if leftNumeric ≠ rightNumeric then if leftNumeric then -1 else 1
  else if leftNumeric = true ∧ left.length ≠ right.length then
    if left.length < right.length then -1 else 1
  else
    let common := if left.length < right.length then left.length else right.length
    let compared := memcmp (left.take common) (right.take common)
    if compared ≠ 0 then if compared < 0 then -1 else 1
    else if left.length = right.length then 0
    else if left.length < right.length then -1 else 1

/-- The loop of `compare_semver` over what is left of the two pre-releases. Each round takes at
least one byte of the left one, so that its length is enough fuel. -/
def compareIdentifiers : ℕ → List Char → List Char → ℤ
  | fuel + 1, l :: left, r :: right =>
    let leftPart := (l :: left).takeWhile (· != '.')
    let rightPart := (r :: right).takeWhile (· != '.')
    let compared := comparePrereleaseIdentifier leftPart rightPart
    if compared ≠ 0 then compared
    else compareIdentifiers fuel ((l :: left).drop (leftPart.length + 1))
      ((r :: right).drop (rightPart.length + 1))
  | _, left, right =>
    if left = [] ∧ right = [] then 0 else if left = [] then -1 else 1

/-- The part of `compare_semver` behind the numbers. -/
def comparePrerelease : Option (List Char) → Option (List Char) → ℤ
  | none, none => 0
  | none, some _ => 1
  | some _, none => -1
  | some left, some right => compareIdentifiers left.length left right

/-- `compare_semver`. -/
def compareSemver (left right : List Char) : ℤ :=
  match parseCoreVersion left, parseCoreVersion right with
  | some (l₀, l₁, l₂), some (r₀, r₁, r₂) =>
    if l₀ < r₀ then -1 else if r₀ < l₀ then 1
    else if l₁ < r₁ then -1 else if r₁ < l₁ then 1
    else if l₂ < r₂ then -1 else if r₂ < l₂ then 1
    else comparePrerelease (semverPrerelease left) (semverPrerelease right)
  | _, _ => 0

/-- The version check of `handle_update_post`: a downgrade or a reinstall is rejected. -/
def rejectsVersion (manifestVersion agentVersion : List Char) : Bool :=
  decide (compareSemver manifestVersion agentVersion ≤ 0)

/-! ### Numbers -/

theorem isSpace_of_isDigit {c : Char} (h : c.isDigit = true) : isSpace c = false := by
  have hspaces : [' ', '\t', '\n', '\x0b', '\x0c', '\r'].all (!Char.isDigit ·) = true := by decide
  refine Bool.eq_false_iff.mpr fun hspace => ?_
  have hdigit := all_eq_true.mp hspaces c (decide_eq_true_iff.mp hspace)
  simp [h] at hdigit

theorem strtoul_append {ds rest : List Char} (hds : IsNumeral ds)
    (hrest : ∀ c, rest.head? = some c → c.isDigit = false) :
    strtoul (ds ++ rest) =
      if uint32Max < decimal ds then none else some (decimal ds, rest) := by
  have htake := takeWhile_append_exact hds.isDigit hrest
  have hdrop := dropWhile_append_exact hds.isDigit hrest
  cases ds with
  | nil => exact absurd rfl hds.ne_nil
  | cons d ds =>
    have hd := hds.isDigit d mem_cons_self
    have hspace : (d :: ds ++ rest).dropWhile isSpace = d :: (ds ++ rest) := by
      rw [cons_append, dropWhile_cons_of_neg (by simp [isSpace_of_isDigit hd])]
    have hsign : strtoulSign (d :: (ds ++ rest)) = (false, d :: (ds ++ rest)) := by
      unfold strtoulSign
      split
      · rename_i h
        rw [(List.cons.inj h).1] at hd
        simp at hd
      · rename_i h
        rw [(List.cons.inj h).1] at hd
        simp at hd
      · rfl
    rw [cons_append] at htake hdrop
    simp only [strtoul, hspace, hsign, htake, hdrop, reduceCtorEq, false_or]
    rfl

theorem parseCoreNumber_append {ds rest : List Char} (hds : IsNumeral ds)
    (hrest : ∀ c, rest.head? = some c → c.isDigit = false) :
    parseCoreNumber (ds ++ rest) =
      if uint32Max < decimal ds then none else some (decimal ds, rest) := by
  by_cases hmax : uint32Max < decimal ds
  · simp [parseCoreNumber, strtoul_append hds hrest, hmax]
  · simp [parseCoreNumber, strtoul_append hds hrest, hmax]

namespace Version

/-- The three numbers fit into 32 bits. -/
structure CoreFits (v : Version) : Prop where
  major : decimal v.major ≤ uint32Max
  minor : decimal v.minor ≤ uint32Max
  patch : decimal v.patch ≤ uint32Max

variable {v : Version}

theorem parseCoreVersion_eq_some {core : ℕ × ℕ × ℕ} :
    parseCoreVersion v.text = some core ↔
      v.CoreFits ∧ (decimal v.major, decimal v.minor, decimal v.patch) = core := by
  have hdot : ∀ (l : List Char) (c : Char), ('.' :: l).head? = some c → c.isDigit = false := by
    rintro l c ⟨⟩
    decide
  have htail : ∀ c, v.tailText.head? = some c → c.isDigit = false := by
    intro c hc
    rcases v.head?_tailText hc with rfl | rfl <;> decide
  rw [text_eq]
  simp only [parseCoreVersion, parseCoreNumber_append v.isNumeral_major (hdot _)]
  by_cases hmajor : uint32Max < decimal v.major
  · simp only [if_pos hmajor, bind, Option.bind_none, reduceCtorEq, false_iff]
    exact fun h => Nat.not_lt.mpr h.1.major hmajor
  · simp only [if_neg hmajor, bind, Option.bind_some, parseDot,
      parseCoreNumber_append v.isNumeral_minor (hdot _)]
    by_cases hminor : uint32Max < decimal v.minor
    · simp only [if_pos hminor, Option.bind_none, reduceCtorEq, false_iff]
      exact fun h => Nat.not_lt.mpr h.1.minor hminor
    · simp only [if_neg hminor, Option.bind_some, parseCoreNumber_append v.isNumeral_patch htail]
      by_cases hpatch : uint32Max < decimal v.patch
      · simp only [if_pos hpatch, Option.bind_none, reduceCtorEq, false_iff]
        exact fun h => Nat.not_lt.mpr h.1.patch hpatch
      · simp only [if_neg hpatch, Option.bind_some, pure, Option.some.injEq]
        exact ⟨fun h => ⟨⟨Nat.not_lt.mp hmajor, Nat.not_lt.mp hminor, Nat.not_lt.mp hpatch⟩, h⟩,
          fun h => h.2⟩

theorem parseCoreVersion_text (h : v.CoreFits) :
    parseCoreVersion v.text = some (decimal v.major, decimal v.minor, decimal v.patch) :=
  parseCoreVersion_eq_some.mpr ⟨h, rfl⟩

/-! ### Where the pre-release is -/

theorem notMem_coreText (v : Version) {c : Char} (hc : c.isDigit = false) (hdot : c ≠ '.') :
    c ∉ v.coreText := by
  simp only [coreText, mem_append, mem_cons, not_or]
  exact ⟨v.isNumeral_major.notMem hc, hdot, v.isNumeral_minor.notMem hc, hdot,
    v.isNumeral_patch.notMem hc⟩

theorem dropWhile_text (v : Version) {c : Char} (hc : c.isDigit = false) (hdot : c ≠ '.') :
    v.text.dropWhile (· != c) = v.tailText.dropWhile (· != c) := by
  refine dropWhile_append_of_pos fun d hd => bne_iff_ne.mpr ?_
  rintro rfl
  exact v.notMem_coreText hc hdot hd

theorem strchr_text_plus (v : Version) :
    strchr v.text '+' = if v.build = [] then none else some (marked '+' v.build) := by
  have hdrop : v.text.dropWhile (· != '+') = marked '+' v.build := by
    rw [v.dropWhile_text (by decide) (by decide)]
    exact v.dropWhile_tailText
  rw [strchr, hdrop, marked]
  by_cases hb : v.build = [] <;> simp [hb]

theorem strchr_text_minus_of_nil (hpre : v.pre = []) {dash : List Char}
    (h : strchr v.text '-' = some dash) :
    v.build ≠ [] ∧ dash.length < (marked '+' v.build).length := by
  have htail : v.tailText = marked '+' v.build := by simp [tailText, hpre, marked]
  have hne : v.build ≠ [] := by
    intro hb
    simp [strchr, v.dropWhile_text, htail, hb, marked] at h
  refine ⟨hne, ?_⟩
  rw [strchr, v.dropWhile_text (by decide) (by decide), htail, marked, if_neg hne,
    dropWhile_cons_of_pos (by decide)] at h
  split at h
  · simp at h
  · cases h
    rw [marked, if_neg hne, length_cons]
    exact Nat.lt_succ_of_le (dropWhile_sublist _).length_le

theorem semverPrerelease_text (v : Version) :
    semverPrerelease v.text = if v.pre = [] then none else some (dotted v.pre) := by
  by_cases hpre : v.pre = []
  · rw [if_pos hpre, semverPrerelease]
    cases hdash : strchr v.text '-' with
    | none => rfl
    | some dash =>
      obtain ⟨hbuild, hlen⟩ := strchr_text_minus_of_nil hpre hdash
      simp only [strchr_text_plus, if_neg hbuild, if_pos hlen]
  · have hdash : strchr v.text '-' = some ('-' :: (dotted v.pre ++ marked '+' v.build)) := by
      rw [strchr, v.dropWhile_text (by decide) (by decide), tailText, marked, if_neg hpre,
        cons_append, dropWhile_cons_of_neg (by decide)]
    rw [if_neg hpre, semverPrerelease, hdash, strchr_text_plus]
    by_cases hbuild : v.build = []
    · simp [hbuild, marked]
    · have hlen : ('-' :: (dotted v.pre ++ marked '+' v.build)).length -
          (marked '+' v.build).length - 1 = (dotted v.pre).length := by
        rw [length_cons, length_append]
        omega
      have hle : (marked '+' v.build).length ≤
          ('-' :: (dotted v.pre ++ marked '+' v.build)).length := by
        rw [length_cons, length_append]
        omega
      simp only [if_neg hbuild, if_neg (Nat.not_lt.mpr hle), hlen, drop_succ_cons,
        drop_zero, take_left]

end Version

/-! ### Identifiers -/

theorem IsPreIdentifier.isNumeral {cs : List Char} (h : IsPreIdentifier cs)
    (hn : IsNumericIdentifier cs) : IsNumeral cs :=
  ⟨h.1.1, hn, h.2 hn⟩

theorem memcmp_take (as bs : List Char) (n : ℕ) (h : min as.length bs.length ≤ n) :
    memcmp (as.take n) (bs.take n) = memcmp as bs := by
  induction as generalizing bs n with
  | nil => simp [memcmp]
  | cons a as ih =>
    cases bs with
    | nil => simp [memcmp]
    | cons b bs =>
      cases n with
      | zero => simp at h
      | succ n =>
        have h : min as.length bs.length ≤ n := by
          simpa only [length_cons, Nat.add_min_add_right, Nat.add_le_add_iff_right]
            using h
        rw [take_succ_cons, take_succ_cons, memcmp, memcmp, ih bs n h]

theorem threeWay_eq_memcmp (as bs : List Char) :
    threeWay as bs =
      if memcmp as bs ≠ 0 then if memcmp as bs < 0 then -1 else 1
      else if as.length = bs.length then 0
      else if as.length < bs.length then -1 else 1 := by
  induction as generalizing bs with
  | nil =>
    cases bs with
    | nil | cons => simp [memcmp]
  | cons a as ih =>
    cases bs with
    | nil => simp [memcmp]
    | cons b bs =>
      rw [threeWay_cons]
      rcases lt_trichotomy a b with h | rfl | h
      · simp [memcmp, h, h.ne, threeWay_of_lt h]
      · rw [if_pos rfl, ih]
        simp [memcmp]
      · simp [memcmp, h, h.ne', h.asymm, threeWay_of_gt h]

/-- **`compare_prerelease_identifier` compares the keys.** -/
theorem comparePrereleaseIdentifier_eq {as bs : List Char} (ha : IsPreIdentifier as)
    (hb : IsPreIdentifier bs) :
    comparePrereleaseIdentifier as bs = threeWay (identifierKey as) (identifierKey bs) := by
  have hnumeric : ∀ cs : List Char, cs.all Char.isDigit = decide (IsNumericIdentifier cs) := by
    intro cs
    rw [Bool.eq_iff_iff, all_eq_true, decide_eq_true_eq, IsNumericIdentifier]
  have hmin : (if as.length < bs.length then as.length else bs.length) =
      min as.length bs.length := by
    split <;> omega
  have hstring := threeWay_eq_memcmp as bs
  unfold comparePrereleaseIdentifier
  simp only [hnumeric, hmin, memcmp_take as bs _ le_rfl]
  rw [← hstring]
  by_cases han : IsNumericIdentifier as <;> by_cases hbn : IsNumericIdentifier bs
  · have hdecimal := threeWay_decimal (ha.isNumeral han) (hb.isNumeral hbn)
    rw [identifierKey, identifierKey, if_pos han, if_pos hbn, threeWay_inl, hdecimal]
    by_cases hlen : as.length = bs.length
    · simp [han, hbn, hlen]
    · rcases Nat.lt_or_gt_of_ne hlen with hlt | hgt
      · simp [han, hbn, hlen, hlt, threeWay_of_lt hlt]
      · simp [han, hbn, hlen, hgt.asymm, threeWay_of_gt hgt]
  · rw [identifierKey, identifierKey, if_pos han, if_neg hbn, threeWay_inl_inr]
    simp [han, hbn]
  · rw [identifierKey, identifierKey, if_neg han, if_pos hbn, threeWay_inr_inl]
    simp [han, hbn]
  · rw [identifierKey, identifierKey, if_neg han, if_neg hbn, threeWay_inr]
    simp [han, hbn]

/-! ### The loop over the identifiers -/

theorem dotted_cons_ne_nil {id : List Char} (ids : List (List Char))
    (h : IsBuildIdentifier id) : dotted (id :: ids) ≠ [] := by
  cases ids with
  | nil => simpa [dotted] using h.1
  | cons id' ids => simp [dotted, intercalate_cons_cons]

theorem takeWhile_dotted {id : List Char} (ids : List (List Char)) (h : IsBuildIdentifier id) :
    (dotted (id :: ids)).takeWhile (· != '.') = id := by
  have hid : ∀ c ∈ id, (c != '.') = true := fun c hc =>
    bne_iff_ne.mpr (ne_of_isIdentifierChar (h.2 c hc) (by decide))
  cases ids with
  | nil =>
    have hsingle : dotted [id] = id := by simp [dotted]
    rw [hsingle]
    exact takeWhile_eq_self_iff.mpr hid
  | cons id' ids =>
    rw [dotted, intercalate_cons_cons, append_assoc]
    exact takeWhile_append_exact hid (by simp)

theorem drop_dotted (id : List Char) (ids : List (List Char)) :
    (dotted (id :: ids)).drop (id.length + 1) = dotted ids := by
  cases ids with
  | nil => simp [dotted]
  | cons id' ids =>
    rw [dotted, intercalate_cons_cons, append_assoc, ← drop_drop, drop_left]
    rfl

theorem compareIdentifiers_succ {left right : List Char} (fuel : ℕ) (hleft : left ≠ [])
    (hright : right ≠ []) :
    compareIdentifiers (fuel + 1) left right =
      if comparePrereleaseIdentifier (left.takeWhile (· != '.')) (right.takeWhile (· != '.')) ≠ 0
      then comparePrereleaseIdentifier (left.takeWhile (· != '.')) (right.takeWhile (· != '.'))
      else compareIdentifiers fuel (left.drop ((left.takeWhile (· != '.')).length + 1))
        (right.drop ((right.takeWhile (· != '.')).length + 1)) := by
  cases left with
  | nil => exact absurd rfl hleft
  | cons l left =>
    cases right with
    | nil => exact absurd rfl hright
    | cons r right => rfl

/-- **The loop compares the lists of identifiers.** -/
theorem compareIdentifiers_dotted {ids ids' : List (List Char)}
    (h : ∀ id ∈ ids, IsPreIdentifier id) (h' : ∀ id ∈ ids', IsPreIdentifier id) {fuel : ℕ}
    (hfuel : (dotted ids).length ≤ fuel) :
    compareIdentifiers fuel (dotted ids) (dotted ids') =
      threeWay (ids.map identifierKey) (ids'.map identifierKey) := by
  induction ids generalizing ids' fuel with
  | nil =>
    cases ids' with
    | nil => simp [dotted, compareIdentifiers]
    | cons id' ids' =>
      have hne := dotted_cons_ne_nil ids' (h' id' mem_cons_self).1
      have hnil : dotted [] = [] := rfl
      rw [hnil, map_nil, map_cons, threeWay_nil_cons]
      simp [compareIdentifiers, hne]
  | cons id ids ih =>
    have hid := h id mem_cons_self
    have hne := dotted_cons_ne_nil ids hid.1
    cases ids' with
    | nil =>
      have hnil : dotted [] = [] := rfl
      rw [hnil, map_nil, map_cons, threeWay_cons_nil]
      simp [compareIdentifiers, hne]
    | cons id' ids' =>
      have hid' := h' id' mem_cons_self
      have hlen : (dotted (id :: ids)).length - 1 ≥ (dotted ids).length := by
        rw [← drop_dotted id ids, length_drop]
        omega
      obtain ⟨fuel, rfl⟩ : ∃ n, fuel = n + 1 :=
        Nat.exists_eq_add_one.mpr (Nat.lt_of_lt_of_le (length_pos_iff.mpr hne) hfuel)
      rw [compareIdentifiers_succ fuel hne (dotted_cons_ne_nil ids' hid'.1),
        takeWhile_dotted ids hid.1, takeWhile_dotted ids' hid'.1, drop_dotted, drop_dotted,
        comparePrereleaseIdentifier_eq hid hid', map_cons, map_cons, threeWay_cons,
        ih (fun i hi => h i (mem_cons_of_mem _ hi))
          (fun i hi => h' i (mem_cons_of_mem _ hi)) (by omega)]
      by_cases hkey : identifierKey id = identifierKey id'
      · rw [if_neg (not_not.mpr (threeWay_eq_zero.mpr hkey)), if_pos hkey]
      · rw [if_pos (threeWay_eq_zero.not.mpr hkey), if_neg hkey]

/-! ### Versions -/

theorem identifierKey_inj {as bs : List Char} (ha : IsPreIdentifier as)
    (hb : IsPreIdentifier bs) (h : identifierKey as = identifierKey bs) : as = bs := by
  unfold identifierKey at h
  split at h
  · rename_i han
    split at h
    · rename_i hbn
      exact (decimal_inj (ha.isNumeral han) (hb.isNumeral hbn)).mp
        (Sum.inl_injective (toLex.injective h))
    · simp at h
  · split at h
    · simp at h
    · exact Sum.inr_injective (toLex.injective h)

theorem map_identifierKey_inj {ids ids' : List (List Char)}
    (h : ∀ id ∈ ids, IsPreIdentifier id) (h' : ∀ id ∈ ids', IsPreIdentifier id)
    (hkeys : ids.map identifierKey = ids'.map identifierKey) : ids = ids' := by
  induction ids generalizing ids' with
  | nil => simpa using hkeys.symm
  | cons id ids ih =>
    cases ids' with
    | nil => simp at hkeys
    | cons id' ids' =>
      rw [map_cons, map_cons, List.cons.injEq] at hkeys
      rw [identifierKey_inj (h id mem_cons_self) (h' id' mem_cons_self) hkeys.1,
        ih (fun i hi => h i (mem_cons_of_mem _ hi))
          (fun i hi => h' i (mem_cons_of_mem _ hi)) hkeys.2]

namespace Version

variable {v w : Version}

theorem preKey_inj (h : v.preKey = w.preKey) : v.pre = w.pre := by
  unfold preKey at h
  split at h
  · rename_i hv
    split at h
    · rename_i hw
      rw [hv, hw]
    · simp at h
  · split at h
    · simp at h
    · exact map_identifierKey_inj v.isPre w.isPre (WithTop.coe_injective h)

/-- A version without its build metadata. -/
def withoutBuild (v : Version) : Version :=
  { v with build := [], isBuild := isBuild_nil }

theorem takeWhile_text (v : Version) : v.text.takeWhile (· != '+') = v.withoutBuild.text := by
  have hcore : ∀ c ∈ v.coreText, (c != '+') = true := fun c hc =>
    bne_iff_ne.mpr fun h => v.notMem_coreText (by decide) (by decide) (h ▸ hc)
  rw [text, takeWhile_append_of_pos hcore, takeWhile_tailText]
  change _ = v.coreText ++ (marked '-' v.pre ++ [])
  rw [append_nil]

/-- **Versions of the same precedence differ in their build metadata only.** -/
theorem key_eq_iff : v.key = w.key ↔ v.text.takeWhile (· != '+') = w.text.takeWhile (· != '+') := by
  rw [takeWhile_text, takeWhile_text]
  constructor
  · intro h
    obtain ⟨hmajor, h⟩ := Prod.mk.inj (toLex.injective h)
    obtain ⟨hminor, h⟩ := Prod.mk.inj (toLex.injective h)
    obtain ⟨hpatch, h⟩ := Prod.mk.inj (toLex.injective h)
    refine congrArg text (Version.ext ?_ ?_ ?_ (preKey_inj h) rfl)
    · exact (decimal_inj v.isNumeral_major w.isNumeral_major).mp hmajor
    · exact (decimal_inj v.isNumeral_minor w.isNumeral_minor).mp hminor
    · exact (decimal_inj v.isNumeral_patch w.isNumeral_patch).mp hpatch
  · intro h
    have hbare : v.withoutBuild = w.withoutBuild := text_injective h
    have hkey : v.withoutBuild.key = w.withoutBuild.key := congrArg key hbare
    exact hkey

theorem comparePrerelease_text (v w : Version) :
    comparePrerelease (semverPrerelease v.text) (semverPrerelease w.text) =
      threeWay v.preKey w.preKey := by
  rw [semverPrerelease_text, semverPrerelease_text, preKey, preKey]
  by_cases hv : v.pre = [] <;> by_cases hw : w.pre = []
  · rw [if_pos hv, if_pos hw, if_pos hv, if_pos hw, threeWay_self, comparePrerelease]
  · rw [if_pos hv, if_neg hw, if_pos hv, if_neg hw, threeWay_top_coe, comparePrerelease]
  · rw [if_neg hv, if_pos hw, if_neg hv, if_pos hw, threeWay_coe_top, comparePrerelease]
  · rw [if_neg hv, if_neg hw, if_neg hv, if_neg hw, threeWay_coe, comparePrerelease,
      compareIdentifiers_dotted v.isPre w.isPre le_rfl]

/-- **`compare_semver` of the state agent returns the precedence.** -/
theorem compareSemver_text (hv : v.CoreFits) (hw : w.CoreFits) :
    compareSemver v.text w.text = v.precedence w := by
  rw [compareSemver, parseCoreVersion_text hv, parseCoreVersion_text hw, precedence, key, key,
    threeWay_toLex, threeWay_toLex, threeWay_toLex, ← comparePrerelease_text]
  simp only [ite_lt_eq_threeWay]

/-- A version that the agent takes for newer is newer: if a number does not fit, the comparison
returns `0`. -/
theorem precedence_pos_of_compareSemver (h : 0 < compareSemver v.text w.text) :
    0 < v.precedence w := by
  cases hv : parseCoreVersion v.text with
  | none => simp [compareSemver, hv] at h
  | some core =>
    cases hw : parseCoreVersion w.text with
    | none => simp [compareSemver, hv, hw] at h
    | some core' =>
      have hfits := (parseCoreVersion_eq_some.mp hv).1
      have hfits' := (parseCoreVersion_eq_some.mp hw).1
      rwa [compareSemver_text hfits hfits'] at h

end Version

end PetlibroLocal.Agent
