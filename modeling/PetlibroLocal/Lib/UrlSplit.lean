import Mathlib.Data.List.TakeWhile

/-!
# Splitting URLs

`urllib.parse.urlsplit`: a URL is split into scheme, authority, path, query and fragment, and the
authority into user information and host. What is found wrong with an authority (a host in
brackets that is no IP address, or characters that Unicode normalization turns into delimiters)
is a parameter.
-/

namespace PetlibroLocal

/-- `SplitResult`. -/
structure SplitResult where
  scheme : List Char
  netloc : List Char
  path : List Char
  query : List Char
  fragment : List Char
  deriving DecidableEq

/-! ### The parts of a URL -/

/-- What stands before the first `sep`, and what stands behind it. -/
def cut (sep : Char) (s : List Char) : List Char × List Char :=
  (s.takeWhile (· != sep), (s.dropWhile (· != sep)).drop 1)

/-- The characters of a scheme. -/
def isSchemeChar (c : Char) : Bool := c.isAlphanum || c == '+' || c == '-' || c == '.'

/-- The scheme in lower case, and what stands behind it. -/
def splitScheme (url : List Char) : List Char × List Char :=
  if url.contains ':' && (cut ':' url).1.head?.any Char.isAlpha && (cut ':' url).1.all isSchemeChar
  then ((cut ':' url).1.map Char.toLower, (cut ':' url).2)
  else ([], url)

/-- The characters of an authority. -/
def inNetloc (c : Char) : Bool := c != '/' && c != '?' && c != '#'

/-- Path, query and fragment. -/
def splitTail (scheme netloc url : List Char) : SplitResult where
  scheme := scheme
  netloc := netloc
  path := (cut '?' (cut '#' url).1).1
  query := (cut '?' (cut '#' url).1).2
  fragment := (cut '#' url).2

/-- What stands behind the scheme: an authority, if there are two slashes. -/
def splitNetloc (checkNetloc : List Char → Option String) (scheme : List Char) :
    List Char → Except String SplitResult
  | '/' :: '/' :: url =>
    let netloc := url.takeWhile inNetloc
    if netloc.contains '[' != netloc.contains ']' then .error "Invalid IPv6 URL"
    else
      match checkNetloc netloc with
      | some message => .error message
      | none => .ok (splitTail scheme netloc (url.dropWhile inNetloc))
  | url => .ok (splitTail scheme [] url)

/-- `urlsplit`: leading blanks and control characters are stripped, tabs and newlines removed. -/
def urlsplit (checkNetloc : List Char → Option String) (url : List Char) :
    Except String SplitResult :=
  let url := (url.dropWhile (·.toNat ≤ 0x20)).filter fun c => c != '\t' && c != '\r' && c != '\n'
  splitNetloc checkNetloc (splitScheme url).1 (splitScheme url).2

namespace SplitResult

/-- What stands behind the last `@` of the authority. -/
def hostinfo (u : SplitResult) : List Char := (u.netloc.reverse.takeWhile (· != '@')).reverse

/-- What stands before the last `@` of the authority, if there is one. -/
def userinfo (u : SplitResult) : Option (List Char) :=
  if '@' ∈ u.netloc then some (u.netloc.take (u.netloc.length - u.hostinfo.length - 1)) else none

/-- `username`. -/
def username (u : SplitResult) : Option (List Char) := u.userinfo.map fun info => (cut ':' info).1

/-- `password`. -/
def password (u : SplitResult) : Option (List Char) :=
  u.userinfo.bind fun info => if ':' ∈ info then some (cut ':' info).2 else none

/-- `hostname`, in the case of the URL, or nothing if there is no host. -/
def hostname (u : SplitResult) : List Char :=
  if '[' ∈ u.hostinfo then (cut ']' (cut '[' u.hostinfo).2).1 else (cut ':' u.hostinfo).1

theorem netloc_ne_nil {u : SplitResult} (h : u.hostname ≠ []) : u.netloc ≠ [] := by
  intro hnil
  refine h ?_
  rw [hostname, hostinfo, hnil]
  rfl

end SplitResult

/-! ### URLs with the scheme `https` -/

theorem cut_of_notMem {sep : Char} {s : List Char} (h : sep ∉ s) : cut sep s = (s, []) := by
  have hs : ∀ c ∈ s, (c != sep) = true := by
    intro c hc
    refine bne_iff_ne.mpr ?_
    rintro rfl
    exact h hc
  rw [cut, List.takeWhile_eq_self_iff.mpr hs, List.dropWhile_eq_nil_iff.mpr hs, List.drop_nil]

theorem splitScheme_https (rest : List Char) :
    splitScheme ("https:".toList ++ rest) = ("https".toList, rest) := by
  have hcut : cut ':' ("https:".toList ++ rest) = ("https".toList, rest) := rfl
  rw [splitScheme, hcut]
  rfl

/-- **Nothing is stripped** from a URL without blanks and control characters. -/
theorem urlsplit_https (checkNetloc : List Char → Option String) {rest : List Char}
    (h : ∀ c ∈ rest, 0x20 < c.toNat) : urlsplit checkNetloc ("https://".toList ++ rest) =
      splitNetloc checkNetloc "https".toList ('/' :: '/' :: rest) := by
  have hdrop : ("https://".toList ++ rest).dropWhile (·.toNat ≤ 0x20) =
      "https://".toList ++ rest := rfl
  have hfilter : ("https://".toList ++ rest).filter
      (fun c => c != '\t' && c != '\r' && c != '\n') = "https://".toList ++ rest := by
    rw [List.filter_eq_self]
    intro c hc
    have hscheme : "https://".toList.all (fun c => decide (0x20 < c.toNat)) = true := by decide
    have hlt : 0x20 < c.toNat := (List.mem_append.mp hc).elim
      (fun hc => of_decide_eq_true (List.all_eq_true.mp hscheme c hc)) (h c)
    simp only [Bool.and_eq_true, bne_iff_ne]
    refine ⟨⟨?_, ?_⟩, ?_⟩ <;> rintro rfl <;> simp at hlt
  have hscheme : splitScheme ("https://".toList ++ rest) =
      ("https".toList, '/' :: '/' :: rest) := splitScheme_https ('/' :: '/' :: rest)
  rw [urlsplit, hdrop, hfilter, hscheme]

/-- **The parts of a URL with an authority.** -/
theorem of_splitNetloc {checkNetloc : List Char → Option String} {scheme rest : List Char}
    {u : SplitResult} (h : splitNetloc checkNetloc scheme ('/' :: '/' :: rest) = .ok u) :
    u = splitTail scheme (rest.takeWhile inNetloc) (rest.dropWhile inNetloc) := by
  rw [splitNetloc] at h
  split at h
  · cases h
  · split at h
    · cases h
    · exact (Except.ok.inj h).symm

end PetlibroLocal
