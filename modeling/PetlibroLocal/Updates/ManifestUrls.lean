import PetlibroLocal.Lib.ByteChars
import PetlibroLocal.Updates.Manifest
import PetlibroLocal.Agent.Manifest

/-!
# The URLs of a Manifest

`is_valid_manifest_url` of the state agent looks for delimiters with `strchr`; the add-on and the
release tool look at the parts that `urlsplit` makes of a URL. The agent refuses an `@` in the
authority, a `#`, and in the URL of an artifact a `?`, even if nothing stands behind them; the
others refuse an authority without a host.
-/

namespace PetlibroLocal.Updates

open Agent List

/-! ### The tests of the agent -/

/-- What the agent accepts behind `https://`. -/
structure AgentUrl (rest : List Char) (immutable : Bool) : Prop where
  chars : rest.all (fun c => 0x20 < c.toNat && c.toNat != 0x7f) = true
  netloc : rest.takeWhile inNetloc ≠ []
  user : '@' ∉ rest.takeWhile inNetloc
  fragment : '#' ∉ rest
  query : immutable = true → '?' ∉ rest
  path : immutable = true → rest.dropWhile inNetloc ≠ [] ∧ rest.dropWhile inNetloc ≠ ['/']

theorem strchr_eq_none {s : List Char} {c : Char} : strchr s c = none ↔ c ∉ s := by
  rw [strchr]
  split
  · rename_i hnil
    rw [dropWhile_eq_nil_iff] at hnil
    simp only [true_iff]
    intro hmem
    have := hnil c hmem
    simp at this
  · rename_i hne
    simp only [reduceCtorEq, false_iff, not_not]
    by_contra hmem
    refine hne (dropWhile_eq_nil_iff.mpr fun d hd => bne_iff_ne.mpr ?_)
    rintro rfl
    exact hmem hd

theorem strchr_eq_some {s p : List Char} {c : Char} (h : p ≠ []) :
    strchr s c = some p ↔ s.dropWhile (· != c) = p := by
  rw [strchr]
  split
  · rename_i hnil
    rw [hnil]
    simp [h.symm]
  · rw [Option.some.injEq]

variable {rest url : List Char} {immutable : Bool}

theorem dropWhile_inNetloc (hquery : '?' ∉ rest) (hfragment : '#' ∉ rest) :
    rest.dropWhile inNetloc = rest.dropWhile (· != '/') := by
  induction rest with
  | nil => rfl
  | cons c rest ih =>
    rw [mem_cons, not_or] at hquery hfragment
    have hc : inNetloc c = (c != '/') := by
      rw [inNetloc, bne_iff_ne.mpr (Ne.symm hquery.1), bne_iff_ne.mpr (Ne.symm hfragment.1),
        Bool.and_true, Bool.and_true]
    rw [dropWhile_cons, dropWhile_cons, hc, ih hquery.2 hfragment.2]

theorem concrete_iff (hfragment : '#' ∉ rest) :
    ((strchr rest '?').isSome || (strchr rest '/').isNone || strchr rest '/' == some ['/']) =
        false ↔
      '?' ∉ rest ∧ rest.dropWhile inNetloc ≠ [] ∧ rest.dropWhile inNetloc ≠ ['/'] := by
  rw [Bool.or_eq_false_iff, Bool.or_eq_false_iff, and_assoc, Option.isSome_eq_false_iff,
    Option.isNone_iff_eq_none, strchr_eq_none]
  refine and_congr_right fun hquery => ?_
  rw [dropWhile_inNetloc hquery hfragment, beq_eq_false_iff_ne, ne_eq,
    strchr_eq_some (cons_ne_nil _ _)]
  refine and_congr_left fun _ => ?_
  cases hpath : strchr rest '/' with
  | none =>
    rw [strchr_eq_none] at hpath
    have hnil : rest.dropWhile (· != '/') = [] :=
      dropWhile_eq_nil_iff.mpr fun c hc => bne_iff_ne.mpr fun h => hpath (h ▸ hc)
    simp [hnil]
  | some p =>
    have hne : rest.dropWhile (· != '/') ≠ [] := by
      intro hnil
      rw [strchr, hnil] at hpath
      cases hpath
    simp [hne]

/-- **The tests of the agent.** -/
theorem isValidManifestUrl_iff :
    isValidManifestUrl ("https://".toList ++ rest) immutable = true ↔ AgentUrl rest immutable := by
  have htake : ("https://".toList ++ rest).take 8 = "https://".toList := rfl
  have hdrop : ("https://".toList ++ rest).drop 8 = rest := rfl
  have hchars : ("https://".toList ++ rest).all (fun c => 0x20 < c.toNat && c.toNat != 0x7f) =
      rest.all fun c => 0x20 < c.toNat && c.toNat != 0x7f := rfl
  have hnetloc : rest.takeWhile (fun c => c != '/' && c != '?' && c != '#') =
      rest.takeWhile inNetloc := rfl
  simp only [isValidManifestUrl, htake, hdrop, hchars, hnetloc, beq_self_eq_true, Bool.true_and,
    Bool.and_eq_true, Bool.not_eq_true', isEmpty_eq_false_iff, contains_eq_mem,
    decide_eq_false_iff_not, Option.isNone_iff_eq_none, strchr_eq_none]
  constructor
  · rintro ⟨⟨⟨⟨⟨-, hnetloc⟩, huser⟩, hfragment⟩, himm⟩, hchars⟩
    have hconcrete : immutable = true → '?' ∉ rest ∧ rest.dropWhile inNetloc ≠ [] ∧
        rest.dropWhile inNetloc ≠ ['/'] := by
      rintro rfl
      rw [Bool.true_and] at himm
      exact (concrete_iff hfragment).mp himm
    exact ⟨hchars, hnetloc, huser, hfragment, fun h => (hconcrete h).1, fun h => (hconcrete h).2⟩
  · intro h
    refine ⟨⟨⟨⟨⟨?_, h.netloc⟩, h.user⟩, h.fragment⟩, ?_⟩, h.chars⟩
    · rintro rfl
      exact h.netloc rfl
    · cases immutable with
      | false => rfl
      | true =>
        rw [Bool.true_and]
        exact (concrete_iff h.fragment).mpr ⟨h.query rfl, h.path rfl⟩

theorem of_isValidManifestUrl (h : isValidManifestUrl url immutable = true) :
    ∃ rest, url = "https://".toList ++ rest ∧ AgentUrl rest immutable := by
  have hscheme : url.take 8 = "https://".toList := by
    simp only [isValidManifestUrl, Bool.and_eq_true] at h
    exact eq_of_beq h.1.1.1.1.1.1
  have hurl : url = "https://".toList ++ url.drop 8 := by
    rw [← hscheme, take_append_drop]
  rw [hurl] at h
  exact ⟨url.drop 8, hurl, isValidManifestUrl_iff.mp h⟩

/-! ### Bytes and characters -/

theorem bytewise_inNetloc : Bytewise inNetloc := by
  refine ⟨true, fun c hc => ?_⟩
  have hne : ∀ d : Char, d.toNat < 128 → (c != d) = true := by
    intro d hd
    refine bne_iff_ne.mpr ?_
    rintro rfl
    omega
  rw [inNetloc, hne '/' (by decide), hne '?' (by decide), hne '#' (by decide)]
  rfl

theorem bytewise_urlChar : Bytewise fun c => 0x20 < c.toNat && c.toNat != 0x7f := by
  refine ⟨true, fun c hc => ?_⟩
  simp only [Bool.and_eq_true, decide_eq_true_eq, bne_iff_ne]
  omega

/-- **The agent sees the bytes of a URL**, and it makes no difference. -/
theorem isValidManifestUrl_latin1 (h : isValidManifestUrl (latin1 url) immutable = true) :
    ∃ rest, url = "https://".toList ++ rest ∧ AgentUrl rest immutable := by
  obtain ⟨bytes, hbytes, hagent⟩ := of_isValidManifestUrl h
  obtain ⟨rest, rfl, rfl⟩ := latin1_eq_append (lt_of_isAscii (by decide)) hbytes
  obtain ⟨hchars, hnetloc, huser, hfragment, hquery, hpath⟩ := hagent
  rw [latin1_all bytewise_urlChar] at hchars
  rw [latin1_takeWhile bytewise_inNetloc, ne_eq, latin1_eq_nil] at hnetloc
  rw [latin1_takeWhile bytewise_inNetloc, mem_latin1 (by decide)] at huser
  rw [mem_latin1 (by decide)] at hfragment hquery
  rw [latin1_dropWhile bytewise_inNetloc, ne_eq, latin1_eq_nil] at hpath
  refine ⟨rest, rfl, hchars, hnetloc, huser, hfragment, hquery, fun himm => ?_⟩
  refine ⟨(hpath himm).1, fun hslash => (hpath himm).2 ?_⟩
  rw [hslash]
  rfl

/-! ### The parts of a URL -/

variable {checkNetloc : List Char → Option String} {rest : List Char} {immutable : Bool}
  {u : SplitResult}

/-- The URL has a host. -/
def hasHost (checkNetloc : List Char → Option String) (url : List Char) : Bool :=
  match urlsplit checkNetloc url with
  | .error _ => false
  | .ok parsed => !parsed.hostname.isEmpty

theorem hasHost_iff :
    hasHost checkNetloc url = true ↔ ∃ u, urlsplit checkNetloc url = .ok u ∧ u.hostname ≠ [] := by
  unfold hasHost
  cases urlsplit checkNetloc url with
  | error => simp
  | ok u => simp

theorem lt_of_chars {c : Char}
    (hchars : rest.all (fun c => 0x20 < c.toNat && c.toNat != 0x7f) = true) (hc : c ∈ rest) :
    0x20 < c.toNat := by
  have hall := all_eq_true.mp hchars c hc
  simp only [Bool.and_eq_true, decide_eq_true_eq] at hall
  exact hall.1

theorem urlsplit_eq_ok (hchars : ∀ c ∈ rest, 0x20 < c.toNat) (hfragment : '#' ∉ rest)
    (h : urlsplit checkNetloc ("https://".toList ++ rest) = .ok u) :
    u = ⟨"https".toList, rest.takeWhile inNetloc, (cut '?' (rest.dropWhile inNetloc)).1,
      (cut '?' (rest.dropWhile inNetloc)).2, []⟩ := by
  rw [urlsplit_https checkNetloc hchars] at h
  have htail : '#' ∉ rest.dropWhile inNetloc :=
    fun hmem => hfragment (dropWhile_suffix _ |>.subset hmem)
  rw [of_splitNetloc h, splitTail, cut_of_notMem htail]

/-- **A URL with a host that the agent accepts** is accepted by the add-on. -/
theorem checkHttpsUrl_of_valid (h : AgentUrl rest immutable)
    (hhost : hasHost checkNetloc ("https://".toList ++ rest) = true) :
    ∃ u, checkHttpsUrl checkNetloc ("https://".toList ++ rest) immutable = .ok u := by
  obtain ⟨u, hu, hhostname⟩ := hasHost_iff.mp hhost
  have hparts := urlsplit_eq_ok (fun c hc => lt_of_chars h.chars hc) h.fragment hu
  have huser : u.userinfo = none := by
    rw [hparts]
    exact if_neg h.user
  have hquery : immutable = true → u.query = [] ∧ u.path = rest.dropWhile inNetloc := by
    intro himm
    have hnotMem : '?' ∉ rest.dropWhile inNetloc :=
      fun hmem => h.query himm (dropWhile_suffix _ |>.subset hmem)
    rw [hparts, cut_of_notMem hnotMem]
    exact ⟨rfl, rfl⟩
  have hscheme : u.scheme = "https".toList := by rw [hparts]
  have hfragment : u.fragment = [] := by rw [hparts]
  refine ⟨u, ?_⟩
  simp only [checkHttpsUrl, hu]
  rw [if_neg (not_not.mpr hscheme), if_neg hhostname,
    if_neg (by simp [SplitResult.username, SplitResult.password, huser]),
    if_neg (not_not.mpr hfragment), if_neg (fun himm => himm.2 (hquery himm.1).1), if_neg]
  rintro ⟨himm, hpath⟩
  rw [(hquery himm).2] at hpath
  exact hpath.elim (h.path himm).1 (h.path himm).2

theorem of_checkHttpsUrl (h : checkHttpsUrl checkNetloc url immutable = .ok u) :
    urlsplit checkNetloc url = .ok u ∧ u.hostname ≠ [] ∧
      (immutable = true → u.path ≠ [] ∧ u.path ≠ ['/']) := by
  unfold checkHttpsUrl at h
  split at h
  · cases h
  rename_i parsed hparsed
  rcases ite_eq_iff.mp h with ⟨-, h⟩ | ⟨-, h⟩
  · cases h
  rcases ite_eq_iff.mp h with ⟨-, h⟩ | ⟨hhost, h⟩
  · cases h
  rcases ite_eq_iff.mp h with ⟨-, h⟩ | ⟨-, h⟩
  · cases h
  rcases ite_eq_iff.mp h with ⟨-, h⟩ | ⟨-, h⟩
  · cases h
  rcases ite_eq_iff.mp h with ⟨-, h⟩ | ⟨-, h⟩
  · cases h
  rcases ite_eq_iff.mp h with ⟨-, h⟩ | ⟨hpath, h⟩
  · cases h
  cases h
  refine ⟨hparsed, hhost, fun himm => ?_⟩
  rw [not_and, not_or] at hpath
  exact hpath himm

/-- **A URL without odd delimiters** that the add-on accepts is accepted by the agent. -/
theorem isValidManifestUrl_of_check
    (h : checkHttpsUrl checkNetloc ("https://".toList ++ rest) immutable = .ok u)
    (hchars : rest.all (fun c => 0x20 < c.toNat && c.toNat != 0x7f) = true)
    (huser : '@' ∉ rest.takeWhile inNetloc) (hfragment : '#' ∉ rest)
    (hquery : immutable = true → '?' ∉ rest) :
    isValidManifestUrl ("https://".toList ++ rest) immutable = true := by
  obtain ⟨hu, hhostname, hpath⟩ := of_checkHttpsUrl h
  have hparts := urlsplit_eq_ok (fun c hc => lt_of_chars hchars hc) hfragment hu
  have hnetloc := SplitResult.netloc_ne_nil hhostname
  rw [hparts] at hnetloc
  refine isValidManifestUrl_iff.mpr ⟨hchars, hnetloc, huser, hfragment, hquery, fun himm => ?_⟩
  have hnotMem : '?' ∉ rest.dropWhile inNetloc :=
    fun hmem => hquery himm (dropWhile_suffix _ |>.subset hmem)
  have hpath := hpath himm
  rwa [hparts, cut_of_notMem hnotMem] at hpath

end PetlibroLocal.Updates
