import PetlibroLocal.Lib.JsonDumps
import PetlibroLocal.Agent.Manifest

/-!
# Compact Manifests

What the manifest parser of the state agent makes of an object that is written without white
space: it reads the members in their order, each with a value that one of its fields takes.
A value is read up to the comma or the brace that follows it.
-/

namespace PetlibroLocal.Agent

open List JsonGrammar

/-- What may follow a value. -/
def Follows (rest : List Char) : Prop := rest.head? = some ',' ∨ rest.head? = some '}'

/-- The text of a value is read as `x`. -/
structure Writes {α : Type} (parse : List Char → Option (α × List Char)) (text : List Char)
    (x : α) : Prop where
  start : ∃ c t, text = c :: t ∧ isSpace c = false
  reads : ∀ rest, Follows rest → parse (text ++ rest) = some (x, rest)

theorem skipWs_cons {c : Char} (h : isSpace c = false) (s : List Char) :
    skipWs (c :: s) = c :: s := by
  rw [skipWs, dropWhile_cons, h]
  rfl

theorem Writes.skipWs {α : Type} {parse : List Char → Option (α × List Char)} {text : List Char}
    {x : α} (h : Writes parse text x) (rest : List Char) :
    skipWs (text ++ rest) = text ++ rest := by
  obtain ⟨c, t, rfl, hc⟩ := h.start
  exact skipWs_cons hc _

/-! ### Strings and numbers -/

variable {outLen : ℕ} {s : String}

theorem scanJsonString_eq {used : ℕ} {t : List Char} (ht : ∀ c ∈ t, IsPlain c)
    (hlen : used + t.length < outLen) (rest : List Char) :
    scanJsonString outLen used (t ++ '"' :: rest) = some (t, rest) := by
  induction t generalizing used with
  | nil => rw [nil_append, scanJsonString, if_pos rfl]
  | cons c t ih =>
    rw [length_cons] at hlen
    obtain ⟨hlow, -, hquote, hbackslash⟩ := ht c mem_cons_self
    rw [cons_append, scanJsonString, if_neg hquote,
      if_neg (by rintro (h | h | h) <;> first | exact hbackslash h | omega),
      ih (fun d hd => ht d (mem_cons_of_mem c hd)) (by omega)]
    rfl

theorem parseJsonStringStrict_dumpsString (hs : ∀ c ∈ s.toList, IsPlain c)
    (hlen : s.toList.length < outLen) (rest : List Char) :
    parseJsonStringStrict outLen (dumpsString s ++ rest) = some (s.toList, rest) := by
  rw [dumpsString_plain hs, cons_append, append_assoc, singleton_append, parseJsonStringStrict]
  exact scanJsonString_eq hs (by omega) rest

theorem writes_string (hs : ∀ c ∈ s.toList, IsPlain c) (hlen : s.toList.length < outLen) :
    Writes (parseJsonStringStrict outLen) (dumpsString s) s.toList :=
  ⟨⟨'"', _, rfl, rfl⟩, fun rest _ => parseJsonStringStrict_dumpsString hs hlen rest⟩

theorem writes_url {immutable : Bool} (hs : ∀ c ∈ s.toList, IsPlain c)
    (hlen : s.toList.length < 512) (hvalid : isValidManifestUrl s.toList immutable = true) :
    Writes (parseUrl immutable) (dumpsString s) s.toList := by
  refine ⟨⟨'"', _, rfl, rfl⟩, fun rest _ => ?_⟩
  rw [parseUrl, parseJsonStringStrict_dumpsString hs hlen]
  exact if_pos hvalid

theorem not_isDigit_of_follows {rest : List Char} (h : Follows rest) {c : Char}
    (hc : rest.head? = some c) : c.isDigit = false := by
  rcases h with h | h
  · rw [h] at hc
    cases hc
    decide
  · rw [h] at hc
    cases hc
    decide

theorem writes_u32 {n : ℕ} (hn : n ≤ uint32Max) : Writes parseJsonU32Strict (dumpsInt n) n := by
  have hnumeral := isNumeral_toDigits n
  obtain ⟨c, ds, hds⟩ := exists_cons_of_ne_nil hnumeral.ne_nil
  have hc : c.isDigit = true := hnumeral.isDigit c (hds ▸ mem_cons_self)
  rw [dumpsInt_natCast]
  refine ⟨⟨c, ds, hds, isSpace_of_isDigit hc⟩, fun rest hrest => ?_⟩
  have hfollow := fun d => not_isDigit_of_follows hrest (c := d)
  have htake := takeWhile_append_exact hnumeral.isDigit hfollow
  have hdrop := dropWhile_append_exact hnumeral.isDigit hfollow
  have hzero : ¬ (c = '0' ∧ (ds ++ rest).head?.any Char.isDigit = true) := by
    rintro ⟨rfl, hdigit⟩
    cases ds with
    | nil =>
      obtain ⟨d, hd, hdigit⟩ := (Option.any_eq_true _ _).mp hdigit
      rw [hfollow d hd] at hdigit
      cases hdigit
    | cons d ds => exact hnumeral.head (by rw [hds]; simp) (by rw [hds]; rfl)
  rw [hds] at htake hdrop ⊢
  rw [cons_append] at htake hdrop ⊢
  rw [parseJsonU32Strict, if_neg (by rw [hc]; decide), if_neg hzero, htake, hdrop, ← hds,
    decimal_toDigits, if_neg (by omega)]

/-! ### Objects -/

section Objects

variable {σ : Type}

/-- The members are read one after the other, from one state to another. -/
inductive Runs (keyLen : ℕ) (field : List Char → σ → List Char → Option (σ × List Char)) :
    σ → List (String × List Char) → σ → Prop
  | nil (state : σ) : Runs keyLen field state [] state
  | cons {state state₁ state₂ : σ} {key : String} {value : List Char}
      {ms : List (String × List Char)} :
      (∀ c ∈ key.toList, IsPlain c) → key.toList.length < keyLen →
      Writes (field key.toList state) value state₁ → Runs keyLen field state₁ ms state₂ →
      Runs keyLen field state ((key, value) :: ms) state₂

variable {keyLen fuel : ℕ} {field : List Char → σ → List Char → Option (σ × List Char)}
  {state state₁ state' : σ} {key : String} {value : List Char} {ms : List (String × List Char)}

/-- **A round of the loop.** -/
theorem parseObject_member (hkey : ∀ c ∈ key.toList, IsPlain c) (hlen : key.toList.length < keyLen)
    (h : Writes (field key.toList state) value state₁) {rest : List Char} :
    Follows rest → parseObject keyLen field (fuel + 1) state (dumpsMember (key, value) ++ rest) =
      match rest with
      | ',' :: rest => parseObject keyLen field fuel state₁ rest
      | '}' :: rest => some (state₁, rest)
      | _ => none := by
  intro hrest
  obtain ⟨s, hs⟩ : ∃ s, dumpsMember (key, value) ++ rest = '"' :: s := ⟨_, rfl⟩
  have hstring : parseJsonStringStrict keyLen ('"' :: s) =
      some (key.toList, ':' :: (value ++ rest)) := by
    rw [← hs, dumpsMember, append_assoc, parseJsonStringStrict_dumpsString hkey hlen, cons_append]
  have hfield : field key.toList state (skipWs (value ++ rest)) = some (state₁, rest) := by
    rw [h.skipWs, h.reads rest hrest]
  have hcolon := skipWs_cons (c := ':') rfl (value ++ rest)
  rw [hs, parseObject, skipWs_cons rfl]
  rcases hrest with hhead | hhead <;> obtain ⟨t, rfl⟩ := head?_eq_some_iff.mp hhead
  · simp [hstring, hcolon, hfield, skipWs_cons (c := ',') rfl]
  · simp [hstring, hcolon, hfield, skipWs_cons (c := '}') rfl]

/-- **An object is read member by member.** -/
theorem parseObject_runs (h : Runs keyLen field state ms state') (hne : ms ≠ [])
    (hfuel : ([','].intercalate (ms.map dumpsMember)).length < fuel) (rest : List Char) :
    parseObject keyLen field fuel state
      ([','].intercalate (ms.map dumpsMember) ++ '}' :: rest) = some (state', rest) := by
  induction h generalizing fuel with
  | nil state => exact absurd rfl hne
  | @cons state state₁ state₂ key value ms hkey hlen hwrites hruns ih =>
    obtain ⟨fuel, rfl⟩ := Nat.exists_eq_succ_of_ne_zero (show fuel ≠ 0 by omega)
    cases ms with
    | nil =>
      cases hruns
      rw [map_singleton, intercalate_singleton, parseObject_member hkey hlen hwrites (.inr rfl)]
      rfl
    | cons m ms =>
      rw [map_cons, map_cons, intercalate_cons_cons] at hfuel ⊢
      rw [length_append, length_append, length_singleton, ← map_cons] at hfuel
      rw [append_assoc, append_assoc, singleton_append,
        parseObject_member hkey hlen hwrites (.inl rfl), ← map_cons]
      exact ih (cons_ne_nil m ms) (by omega)

/-- An object is read to its closing brace. -/
theorem parseBraces_dumpsDict (h : Runs keyLen field state ms state') (hne : ms ≠ [])
    (rest : List Char) :
    parseBraces keyLen field state (dumpsDict ms ++ rest) = some (state', rest) := by
  rw [dumpsDict, cons_append, append_assoc, singleton_append, parseBraces, skipWs_cons rfl]
  refine parseObject_runs h hne ?_ rest
  rw [length_append]
  omega

/-- **A member that may be given once** and has not been seen. -/
theorem Runs.member {α : Type} {parse : List Char → Option (α × List Char)} {store : α → σ} {x : α}
    (hfield : field key.toList state = once none parse store) (hvalue : Writes parse value x)
    (hms : Runs keyLen field (store x) ms state')
    (hkey : key.toList.all (IsPlain ·) ∧ key.toList.length < keyLen := by decide) :
    Runs keyLen field state ((key, value) :: ms) state' := by
  refine .cons (isPlain_of_all hkey.1) hkey.2 ⟨hvalue.start, fun rest hrest => ?_⟩ hms
  rw [hfield, once, hvalue.reads rest hrest]
  rfl

end Objects

/-! ### The fields -/

section Fields

variable {f : ArtifactFields} {g : ManifestFields}

theorem artifactField_url : artifactField "url".toList f =
    once f.url (parseUrl true) fun v => { f with url := some v } :=
  rfl

theorem artifactField_sha256 : artifactField "sha256".toList f =
    once f.sha256 (parseJsonStringStrict 65) fun v => { f with sha256 := some v } :=
  rfl

theorem artifactField_size : artifactField "size".toList f =
    once f.size parseJsonU32Strict fun v => { f with size := some v } :=
  rfl

theorem manifestField_schemaVersion : manifestField "schema_version".toList g =
    once g.schemaVersion parseJsonU32Strict fun v => { g with schemaVersion := some v } :=
  rfl

theorem manifestField_product : manifestField "product".toList g =
    once g.product (parseJsonStringStrict 32) fun v => { g with product := some v } :=
  rfl

theorem manifestField_channel : manifestField "channel".toList g =
    once g.channel (parseJsonStringStrict 16) fun v => { g with channel := some v } :=
  rfl

theorem manifestField_platform : manifestField "platform".toList g =
    once g.platform (parseJsonStringStrict 48) fun v => { g with platform := some v } :=
  rfl

theorem manifestField_apiVersion : manifestField "api_version".toList g =
    once g.apiVersion parseJsonU32Strict fun v => { g with apiVersion := some v } :=
  rfl

theorem manifestField_updateApiVersion : manifestField "update_api_version".toList g =
    once g.updateApiVersion parseJsonU32Strict fun v => { g with updateApiVersion := some v } :=
  rfl

theorem manifestField_version : manifestField "version".toList g =
    once g.version (parseJsonStringStrict 64) fun v => { g with version := some v } :=
  rfl

theorem manifestField_artifact : manifestField "artifact".toList g =
    once g.artifact parseManifestArtifactObject fun v => { g with artifact := some v } :=
  rfl

theorem manifestField_releaseUrl : manifestField "release_url".toList g =
    once g.releaseUrl (parseUrl false) fun v => { g with releaseUrl := some v } :=
  rfl

end Fields

/-! ### Manifests -/

section Manifests

variable {version url releaseUrl sha256 : String} {size : ℕ}

theorem writes_one : Writes parseJsonU32Strict (dumpsInt 1) 1 := writes_u32 (n := 1) (by decide)

theorem writes_literal {outLen : ℕ} {s : String}
    (h : s.toList.all (IsPlain ·) ∧ s.toList.length < outLen := by decide) :
    Writes (parseJsonStringStrict outLen) (dumpsString s) s.toList :=
  writes_string (isPlain_of_all h.1) h.2

/-- The strings have no escapes, and the buffers of the parser have room for the values. -/
structure Fits (version url releaseUrl sha256 : String) (size : ℕ) : Prop where
  plain_version : ∀ c ∈ version.toList, IsPlain c
  length_version : version.toList.length < 64
  plain_url : ∀ c ∈ url.toList, IsPlain c
  length_url : url.toList.length < 512
  plain_releaseUrl : ∀ c ∈ releaseUrl.toList, IsPlain c
  length_releaseUrl : releaseUrl.toList.length < 512
  plain_sha256 : ∀ c ∈ sha256.toList, IsPlain c
  length_sha256 : sha256.toList.length < 65
  size : size ≤ uint32Max

theorem writes_artifact (h : Fits version url releaseUrl sha256 size)
    (hurl : isValidManifestUrl url.toList true = true) :
    Writes parseManifestArtifactObject (dumpsDict [("url", dumpsString url),
      ("sha256", dumpsString sha256), ("size", dumpsInt size)])
      (url.toList, sha256.toList, size) := by
  have hruns : Runs 24 artifactField ⟨none, none, none⟩ _
      ⟨some url.toList, some sha256.toList, some size⟩ :=
    .member artifactField_url (writes_url h.plain_url h.length_url hurl) <|
    .member artifactField_sha256 (writes_string h.plain_sha256 h.length_sha256) <|
    .member artifactField_size (writes_u32 h.size) <| .nil _
  refine ⟨⟨'{', _, rfl, rfl⟩, fun rest _ => ?_⟩
  rw [parseManifestArtifactObject, parseBraces_dumpsDict hruns (cons_ne_nil _ _)]
  rfl

end Manifests

end PetlibroLocal.Agent
