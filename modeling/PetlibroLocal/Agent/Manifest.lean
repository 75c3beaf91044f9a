import PetlibroLocal.Agent.UpdateFrame

/-!
# The Manifest of an Update

`parse_manifest_v1` of the state agent: a JSON object with nine known keys, each given once, and
in it the object of the artifact. The two objects are read by one loop, `parseObject`, which has
the keys and their values as a parameter. Strings have no escapes, and they end where their
buffers are full.
-/

namespace PetlibroLocal.Agent

/-- `OtaManifest`. -/
structure OtaManifest where
  schemaVersion : ℕ
  product : List Char
  channel : List Char
  platform : List Char
  apiVersion : ℕ
  updateApiVersion : ℕ
  version : List Char
  artifactSha256 : List Char
  artifactSize : ℕ
  deriving DecidableEq

/-! ### Values -/

/-- The characters of the manifest. -/
def manifestText (raw : Bytes) : List Char := raw.map fun b => Char.ofNat b.toNat

/-- `skip_ws`. -/
def skipWs (s : List Char) : List Char := s.dropWhile isSpace

/-- The loop of `parse_json_string_strict`, with `used` characters in a buffer of `outLen`. -/
def scanJsonString (outLen : ℕ) : ℕ → List Char → Option (List Char × List Char)
  | _, [] => none
  | used, c :: s =>
    if c = '"' then some ([], s)
    else if c = '\\' ∨ c.toNat < 0x20 ∨ outLen ≤ used + 1 then none
    else (scanJsonString outLen (used + 1) s).map fun (out, s) => (c :: out, s)

/-- `parse_json_string_strict`. -/
def parseJsonStringStrict (outLen : ℕ) : List Char → Option (List Char × List Char)
  | '"' :: s => scanJsonString outLen 0 s
  | _ => none

/-- `parse_json_u32_strict`. -/
def parseJsonU32Strict : List Char → Option (ℕ × List Char)
  | [] => none
  | c :: s =>
    if c.isDigit = false then none
    else if c = '0' ∧ s.head?.any Char.isDigit = true then none
    else if uint32Max < decimal ((c :: s).takeWhile Char.isDigit) then none
    else some (decimal ((c :: s).takeWhile Char.isDigit), (c :: s).dropWhile Char.isDigit)

/-- `is_valid_manifest_url`. -/
def isValidManifestUrl (url : List Char) (immutable : Bool) : Bool :=
  let authority := url.drop 8
  let path := strchr authority '/'
  let query := strchr authority '?'
  let fragment := strchr authority '#'
  let host := authority.takeWhile fun c => c != '/' && c != '?' && c != '#'
  url.take 8 == "https://".toList && !authority.isEmpty && !host.isEmpty && !host.contains '@' &&
    fragment.isNone &&
    !(immutable && (query.isSome || path.isNone || path == some ['/'])) &&
    url.all fun c => 0x20 < c.toNat && c.toNat != 0x7f

/-! ### Objects -/

/-- The loop over the members of an object, with a buffer of `keyLen` characters for keys:
`field` reads the value of a key into the state. A comma may stand before the closing brace. -/
def parseObject {σ : Type} (keyLen : ℕ)
    (field : List Char → σ → List Char → Option (σ × List Char)) :
    ℕ → σ → List Char → Option (σ × List Char)
  | 0, _, _ => none
  | fuel + 1, state, s =>
    match skipWs s with
    | [] => none
    | '}' :: s => some (state, s)
    | s =>
      match parseJsonStringStrict keyLen s with
      | none => none
      | some (key, s) =>
        match skipWs s with
        | ':' :: s =>
          match field key state (skipWs s) with
          | none => none
          | some (state, s) =>
            match skipWs s with
            | ',' :: s => parseObject keyLen field fuel state s
            | '}' :: s => some (state, s)
            | _ => none
        | _ => none

/-- An object from its opening brace on. Each round of the loop reads a character at least. -/
def parseBraces {σ : Type} (keyLen : ℕ)
    (field : List Char → σ → List Char → Option (σ × List Char)) (state : σ) (s : List Char) :
    Option (σ × List Char) :=
  match skipWs s with
  | '{' :: s => parseObject keyLen field (s.length + 1) state s
  | _ => none

/-- A member that may be given once. -/
def once {α σ : Type} (seen : Option α) (parse : List Char → Option (α × List Char))
    (store : α → σ) (s : List Char) : Option (σ × List Char) :=
  if seen.isSome then none else (parse s).map fun (value, s) => (store value, s)

/-- A string that is a URL. -/
def parseUrl (immutable : Bool) (s : List Char) : Option (List Char × List Char) :=
  match parseJsonStringStrict 512 s with
  | none => none
  | some (url, s) => if isValidManifestUrl url immutable then some (url, s) else none

/-- The members of the artifact seen so far. -/
structure ArtifactFields where
  url : Option (List Char)
  sha256 : Option (List Char)
  size : Option ℕ

/-- The members of the artifact. -/
def artifactField (key : List Char) (f : ArtifactFields) (s : List Char) :
    Option (ArtifactFields × List Char) :=
  if key = "url".toList then once f.url (parseUrl true) (fun v => { f with url := some v }) s
  else if key = "sha256".toList then
    once f.sha256 (parseJsonStringStrict 65) (fun v => { f with sha256 := some v }) s
  else if key = "size".toList then
    once f.size parseJsonU32Strict (fun v => { f with size := some v }) s
  else none

/-- `parse_manifest_artifact_object`: the hash, the size, and the URL, which no one uses. -/
def parseManifestArtifactObject (s : List Char) :
    Option ((List Char × List Char × ℕ) × List Char) := do
  let (f, s) ← parseBraces 24 artifactField ⟨none, none, none⟩ s
  pure ((← f.url, ← f.sha256, ← f.size), s)

/-- The members of the manifest seen so far. -/
structure ManifestFields where
  schemaVersion : Option ℕ
  product : Option (List Char)
  channel : Option (List Char)
  platform : Option (List Char)
  apiVersion : Option ℕ
  updateApiVersion : Option ℕ
  version : Option (List Char)
  artifact : Option (List Char × List Char × ℕ)
  releaseUrl : Option (List Char)

/-- The members of the manifest. -/
def manifestField (key : List Char) (f : ManifestFields) (s : List Char) :
    Option (ManifestFields × List Char) :=
  if key = "schema_version".toList then
    once f.schemaVersion parseJsonU32Strict (fun v => { f with schemaVersion := some v }) s
  else if key = "product".toList then
    once f.product (parseJsonStringStrict 32) (fun v => { f with product := some v }) s
  else if key = "channel".toList then
    once f.channel (parseJsonStringStrict 16) (fun v => { f with channel := some v }) s
  else if key = "platform".toList then
    once f.platform (parseJsonStringStrict 48) (fun v => { f with platform := some v }) s
  else if key = "api_version".toList then
    once f.apiVersion parseJsonU32Strict (fun v => { f with apiVersion := some v }) s
  else if key = "update_api_version".toList then
    once f.updateApiVersion parseJsonU32Strict (fun v => { f with updateApiVersion := some v }) s
  else if key = "version".toList then
    once f.version (parseJsonStringStrict 64) (fun v => { f with version := some v }) s
  else if key = "artifact".toList then
    once f.artifact parseManifestArtifactObject (fun v => { f with artifact := some v }) s
  else if key = "release_url".toList then
    once f.releaseUrl (parseUrl false) (fun v => { f with releaseUrl := some v }) s
  else none

/-- The members of the manifest, each of them seen. -/
def ManifestFields.complete (f : ManifestFields) : Option OtaManifest := do
  let _ ← f.releaseUrl
  let artifact ← f.artifact
  pure ⟨← f.schemaVersion, ← f.product, ← f.channel, ← f.platform, ← f.apiVersion,
    ← f.updateApiVersion, ← f.version, artifact.2.1, artifact.2.2⟩

/-- A digit of a hash. -/
def isHexDigit (c : Char) : Bool := c.isDigit || ('a' ≤ c && c ≤ 'f')

/-- What `parse_manifest_v1` checks when the object has been read. -/
structure OtaManifest.Valid (m : OtaManifest) : Prop where
  schemaVersion : m.schemaVersion = 1
  product : m.product = "plaf203-state-agent".toList
  channel : m.channel = "stable".toList
  platform : m.platform = "linux-armv7-eabihf".toList
  apiVersion : m.apiVersion = 1
  updateApiVersion : m.updateApiVersion = 1
  version : parseSemverStrict m.version = true
  artifactSize_pos : 0 < m.artifactSize
  artifactSize_le : m.artifactSize ≤ otaMaxArtifactBytes
  length_artifactSha256 : m.artifactSha256.length = 64
  artifactSha256 : m.artifactSha256.all isHexDigit = true

instance (m : OtaManifest) : Decidable m.Valid :=
  decidable_of_iff (m.schemaVersion = 1 ∧ m.product = "plaf203-state-agent".toList ∧
      m.channel = "stable".toList ∧ m.platform = "linux-armv7-eabihf".toList ∧
      m.apiVersion = 1 ∧ m.updateApiVersion = 1 ∧ parseSemverStrict m.version = true ∧
      0 < m.artifactSize ∧ m.artifactSize ≤ otaMaxArtifactBytes ∧
      m.artifactSha256.length = 64 ∧ m.artifactSha256.all isHexDigit = true)
    ⟨fun ⟨h₁, h₂, h₃, h₄, h₅, h₆, h₇, h₈, h₉, h₁₀, h₁₁⟩ =>
        ⟨h₁, h₂, h₃, h₄, h₅, h₆, h₇, h₈, h₉, h₁₀, h₁₁⟩,
      fun ⟨h₁, h₂, h₃, h₄, h₅, h₆, h₇, h₈, h₉, h₁₀, h₁₁⟩ =>
        ⟨h₁, h₂, h₃, h₄, h₅, h₆, h₇, h₈, h₉, h₁₀, h₁₁⟩⟩

/-- `parse_manifest_v1`. -/
def parseManifestV1 (raw : Bytes) : Option OtaManifest :=
  match parseBraces 32 manifestField
      ⟨none, none, none, none, none, none, none, none, none⟩ (manifestText raw) with
  | none => none
  | some (f, s) =>
    if skipWs s ≠ [] then none
    else
      match f.complete with
      | none => none
      | some m => if m.Valid then some m else none

/-- **An accepted manifest is valid.** -/
theorem of_parseManifestV1 {raw : Bytes} {m : OtaManifest} (h : parseManifestV1 raw = some m) :
    m.Valid := by
  unfold parseManifestV1 at h
  split at h
  · simp at h
  · split at h
    · simp at h
    · split at h
      · simp at h
      · rename_i hvalid
        split at h
        · rename_i hm
          cases h
          exact hm
        · simp at h

end PetlibroLocal.Agent
