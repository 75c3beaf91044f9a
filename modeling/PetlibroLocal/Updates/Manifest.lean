import PetlibroLocal.Lib.Checked
import PetlibroLocal.Lib.JsonLoads
import PetlibroLocal.Lib.UrlSplit
import PetlibroLocal.Updates.Semver

/-!
# The Manifest in the Add-on

`SignedReleaseManifest.from_bytes`: the bytes are decoded as UTF-8 and read with `json.loads`, an
object that gives a key twice is refused, the members are read with their types, and their values
are checked. `_validate_https_url` looks at the parts that `urlsplit` makes of a URL; the release
tool makes the same tests, so they are in `checkHttpsUrl`, which says what is wrong with the URL.

What `urlsplit` finds wrong with an authority is the parameter `checkNetloc`.
-/

namespace PetlibroLocal.Updates

open JsonGrammar

/-! ### URLs -/

/-- What is wrong with a URL. -/
inductive UrlFault
  | split (message : String)
  | scheme
  | hostname
  | credentials
  | fragment
  | query
  | path
  deriving DecidableEq

/-- The tests of `_validate_https_url` and `_https_url`. -/
def checkHttpsUrl (checkNetloc : List Char → Option String) (url : List Char) (immutable : Bool) :
    Except UrlFault SplitResult :=
  match urlsplit checkNetloc url with
  | .error message => .error (.split message)
  | .ok parsed =>
    if parsed.scheme ≠ "https".toList then .error .scheme
    else if parsed.hostname = [] then .error .hostname
    else if parsed.username.getD [] ≠ [] ∨ parsed.password.getD [] ≠ [] then .error .credentials
    else if parsed.fragment ≠ [] then .error .fragment
    else if immutable = true ∧ parsed.query ≠ [] then .error .query
    else if immutable = true ∧ (parsed.path = [] ∨ parsed.path = ['/']) then .error .path
    else .ok parsed

/-- What `_validate_https_url` raises. -/
def urlError (fieldName : String) : UrlFault → UpdateError
  | .split _ => .valueError
  | .scheme => .updateValidationError s!"{fieldName} must use HTTPS"
  | .hostname => .updateValidationError s!"{fieldName} must include a hostname"
  | .credentials => .updateValidationError s!"{fieldName} must not include credentials"
  | .fragment => .updateValidationError s!"{fieldName} must not include a fragment"
  | .query => .updateValidationError s!"{fieldName} must not include query parameters"
  | .path => .updateValidationError s!"{fieldName} must include a concrete artifact path"

/-- `_validate_https_url`. -/
def validateHttpsUrl (checkNetloc : List Char → Option String) (url : String) (fieldName : String)
    (immutableOnly : Bool) : Except UpdateError SplitResult :=
  (checkHttpsUrl checkNetloc url.toList immutableOnly).mapError (urlError fieldName)

/-! ### Members -/

/-- `_json_str`. -/
def jsonStr (data : List (String × Json)) (key : String) : Except UpdateError String :=
  match data.lookup key with
  | some (.str value) =>
    if value = "" then
      .error (.updateValidationError s!"manifest field {key} must be a non-empty string")
    else .ok value
  | _ => .error (.updateValidationError s!"manifest field {key} must be a non-empty string")

/-- `_json_int`. -/
def jsonInt (data : List (String × Json)) (key : String) : Except UpdateError ℤ :=
  match data.lookup key with
  | some (.int value) => .ok value
  | _ => .error (.updateValidationError s!"manifest field {key} must be an integer")

/-- `_json_object`. -/
def jsonObject (data : List (String × Json)) (key : String) :
    Except UpdateError (List (String × Json)) :=
  match data.lookup key with
  | some (.obj value) => .ok value
  | _ => .error (.updateValidationError s!"manifest field {key} must be an object")

/-- The keys are the expected ones. -/
def keysAre (expected : List String) (data : List (String × Json)) : Bool :=
  data.all (fun m => expected.contains m.1) && expected.all fun k => (data.map Prod.fst).contains k

/-- The keys of a manifest. -/
def manifestKeys : List String :=
  ["schema_version", "product", "channel", "version", "api_version", "update_api_version",
    "platform", "artifact", "release_url"]

/-- The keys of an artifact. -/
def artifactKeys : List String := ["url", "sha256", "size"]

mutual

/-- `_reject_duplicate_json_keys`, called for every object: no key is given twice. -/
def uniqueKeys : Json → Bool
  | .arr vs => uniqueKeysElements vs
  | .obj ms => uniqueKeysMembers ms
  | _ => true

/-- The elements of an array. -/
def uniqueKeysElements : List Json → Bool
  | [] => true
  | v :: vs => uniqueKeys v && uniqueKeysElements vs

/-- The members of an object. -/
def uniqueKeysMembers : List (String × Json) → Bool
  | [] => true
  | (k, v) :: ms => !(ms.map Prod.fst).contains k && (uniqueKeys v && uniqueKeysMembers ms)

end

/-! ### Manifests -/

/-- `ReleaseArtifact`. -/
structure ReleaseArtifact where
  url : String
  sha256 : String
  size : ℤ
  deriving DecidableEq

/-- `SignedReleaseManifest`. -/
structure SignedReleaseManifest where
  schemaVersion : ℤ
  product : String
  channel : String
  version : String
  apiVersion : ℤ
  updateApiVersion : ℤ
  platform : String
  artifact : ReleaseArtifact
  releaseUrl : String
  deriving DecidableEq

/-- The pattern of a hash. -/
def isLowerHex (c : Char) : Bool := c.isDigit || ('a' ≤ c && c ≤ 'f')

/-- `SHA256_RE.fullmatch`. -/
def isSha256 (s : List Char) : Bool := s.length == 64 && s.all isLowerHex

/-- The artifact's members. -/
def readReleaseArtifact (data : List (String × Json)) : Except UpdateError ReleaseArtifact := do
  require (keysAre artifactKeys data) (.updateValidationError "artifact fields are invalid")
  let url ← jsonStr data "url"
  let sha256 ← jsonStr data "sha256"
  let size ← jsonInt data "size"
  pure ⟨url, sha256, size⟩

/-- The members, with their types. -/
def readManifest (decoded : List (String × Json)) : Except UpdateError SignedReleaseManifest := do
  require (keysAre manifestKeys decoded) (.updateValidationError "manifest fields are invalid")
  let schemaVersion ← jsonInt decoded "schema_version"
  let product ← jsonStr decoded "product"
  let channel ← jsonStr decoded "channel"
  let apiVersion ← jsonInt decoded "api_version"
  let updateApiVersion ← jsonInt decoded "update_api_version"
  let platform ← jsonStr decoded "platform"
  let version ← jsonStr decoded "version"
  let artifact ← jsonObject decoded "artifact" >>= readReleaseArtifact
  let releaseUrl ← jsonStr decoded "release_url"
  pure ⟨schemaVersion, product, channel, version, apiVersion, updateApiVersion, platform, artifact,
    releaseUrl⟩

/-- The values of the members. -/
def checkManifest (checkNetloc : List Char → Option String) (m : SignedReleaseManifest) :
    Except UpdateError SignedReleaseManifest := do
  require (m.schemaVersion = 1) (.updateValidationError "unsupported manifest schema_version")
  require (m.product = "plaf203-state-agent")
    (.updateValidationError "unsupported manifest product")
  require (m.channel = "stable") (.updateValidationError "unsupported manifest channel")
  require (m.apiVersion = 1) (.updateValidationError "unsupported manifest api_version")
  require (m.updateApiVersion = 1)
    (.updateValidationError "unsupported manifest update_api_version")
  require (m.platform = "linux-armv7-eabihf")
    (.updateValidationError "unsupported manifest platform")
  let _ ← semverComponents m.version.toList
  let _ ← validateHttpsUrl checkNetloc m.artifact.url "artifact_url" true
  let _ ← validateHttpsUrl checkNetloc m.releaseUrl "release_url" false
  require (isSha256 m.artifact.sha256.toList)
    (.updateValidationError "artifact_sha256 must be lower-case SHA-256")
  require (0 < m.artifact.size) (.updateValidationError "artifact_size must be positive")
  pure m

/-- `SignedReleaseManifest.from_bytes`. -/
def fromBytes (checkNetloc : List Char → Option String) (data : Bytes) :
    Except UpdateError SignedReleaseManifest :=
  match decodeUtf8 data with
  | none => .error (.updateValidationError "manifest must be UTF-8 JSON")
  | some text =>
    match jsonLoads text with
    | none => .error (.updateValidationError "manifest JSON is invalid")
    | some decoded =>
      if uniqueKeys decoded = false then
        .error (.updateValidationError "manifest contains a duplicate key")
      else
        match decoded with
        | .obj decoded => readManifest decoded >>= checkManifest checkNetloc
        | _ => .error (.updateValidationError "manifest must be a JSON object")

theorem toNat_lt_of_isLowerHex {c : Char} (h : isLowerHex c = true) : c.toNat < 128 := by
  rw [isLowerHex, Bool.or_eq_true, Bool.and_eq_true, decide_eq_true_eq, decide_eq_true_eq] at h
  rcases h with h | ⟨-, h⟩
  · have := isDigit_iff.mp h
    omega
  · have hf : c.toNat ≤ 'f'.toNat := UInt32.le_iff_toNat_le.mp (Char.le_def.mp h)
    exact Nat.lt_of_le_of_lt hf (by decide)

/-! ### Valid manifests -/

/-- The members are those of the artifact. -/
structure ReleaseArtifact.Given (a : ReleaseArtifact) (data : List (String × Json)) : Prop where
  keys : keysAre artifactKeys data = true
  url : data.lookup "url" = some (.str a.url)
  url_ne : a.url ≠ ""
  sha256 : data.lookup "sha256" = some (.str a.sha256)
  sha256_ne : a.sha256 ≠ ""
  size : data.lookup "size" = some (.int a.size)

/-- The members are those of the manifest. -/
structure SignedReleaseManifest.Given (m : SignedReleaseManifest) (data : List (String × Json)) :
    Prop where
  keys : keysAre manifestKeys data = true
  schemaVersion : data.lookup "schema_version" = some (.int m.schemaVersion)
  product : data.lookup "product" = some (.str m.product)
  product_ne : m.product ≠ ""
  channel : data.lookup "channel" = some (.str m.channel)
  channel_ne : m.channel ≠ ""
  version : data.lookup "version" = some (.str m.version)
  version_ne : m.version ≠ ""
  apiVersion : data.lookup "api_version" = some (.int m.apiVersion)
  updateApiVersion : data.lookup "update_api_version" = some (.int m.updateApiVersion)
  platform : data.lookup "platform" = some (.str m.platform)
  platform_ne : m.platform ≠ ""
  artifact : ∃ fields, data.lookup "artifact" = some (.obj fields) ∧ m.artifact.Given fields
  releaseUrl : data.lookup "release_url" = some (.str m.releaseUrl)
  releaseUrl_ne : m.releaseUrl ≠ ""

/-- The values are those that `from_bytes` lets pass. -/
structure SignedReleaseManifest.Valid (checkNetloc : List Char → Option String)
    (m : SignedReleaseManifest) : Prop where
  schemaVersion : m.schemaVersion = 1
  product : m.product = "plaf203-state-agent"
  channel : m.channel = "stable"
  apiVersion : m.apiVersion = 1
  updateApiVersion : m.updateApiVersion = 1
  platform : m.platform = "linux-armv7-eabihf"
  version : ∃ components, semverComponents m.version.toList = .ok components
  artifactUrl : ∃ parsed, checkHttpsUrl checkNetloc m.artifact.url.toList true = .ok parsed
  releaseUrl : ∃ parsed, checkHttpsUrl checkNetloc m.releaseUrl.toList false = .ok parsed
  sha256 : isSha256 m.artifact.sha256.toList = true
  size : 0 < m.artifact.size

section Read

variable {data : List (String × Json)} {key value : String}

theorem jsonStr_eq_ok (h : data.lookup key = some (.str value)) (hne : value ≠ "") :
    jsonStr data key = .ok value := by
  simp only [jsonStr, h, if_neg hne]

theorem jsonInt_eq_ok {n : ℤ} (h : data.lookup key = some (.int n)) : jsonInt data key = .ok n := by
  simp only [jsonInt, h]

theorem jsonObject_eq_ok {fields : List (String × Json)}
    (h : data.lookup key = some (.obj fields)) : jsonObject data key = .ok fields := by
  simp only [jsonObject, h]

theorem readReleaseArtifact_eq_ok {a : ReleaseArtifact} (h : a.Given data) :
    readReleaseArtifact data = .ok a := by
  simp only [readReleaseArtifact, require_of h.keys, jsonStr_eq_ok h.url h.url_ne,
    jsonStr_eq_ok h.sha256 h.sha256_ne, jsonInt_eq_ok h.size]
  rfl

theorem validateHttpsUrl_eq_ok {checkNetloc : List Char → Option String} {url fieldName : String}
    {immutable : Bool} {parsed : SplitResult} :
    validateHttpsUrl checkNetloc url fieldName immutable = .ok parsed ↔
      checkHttpsUrl checkNetloc url.toList immutable = .ok parsed := by
  rw [validateHttpsUrl]
  cases checkHttpsUrl checkNetloc url.toList immutable <;> simp [Except.mapError]

end Read

section Manifest

variable {checkNetloc : List Char → Option String} {m : SignedReleaseManifest}

/-- **The manifests that pass the checks** are the valid ones. -/
theorem checkManifest_eq_ok_iff {m' : SignedReleaseManifest} :
    checkManifest checkNetloc m = .ok m' ↔ m.Valid checkNetloc ∧ m = m' := by
  constructor
  · intro h
    obtain ⟨_, h₁, h⟩ := bind_eq_ok.mp h
    obtain ⟨_, h₂, h⟩ := bind_eq_ok.mp h
    obtain ⟨_, h₃, h⟩ := bind_eq_ok.mp h
    obtain ⟨_, h₄, h⟩ := bind_eq_ok.mp h
    obtain ⟨_, h₅, h⟩ := bind_eq_ok.mp h
    obtain ⟨_, h₆, h⟩ := bind_eq_ok.mp h
    obtain ⟨components, hversion, h⟩ := bind_eq_ok.mp h
    obtain ⟨artifactUrl, hartifact, h⟩ := bind_eq_ok.mp h
    obtain ⟨releaseUrl, hrelease, h⟩ := bind_eq_ok.mp h
    obtain ⟨_, hsha256, h⟩ := bind_eq_ok.mp h
    obtain ⟨_, hsize, h⟩ := bind_eq_ok.mp h
    rw [require_eq_ok] at h₁ h₂ h₃ h₄ h₅ h₆ hsha256 hsize
    rw [validateHttpsUrl_eq_ok] at hartifact hrelease
    exact ⟨⟨h₁, h₂, h₃, h₄, h₅, h₆, ⟨_, hversion⟩, ⟨_, hartifact⟩, ⟨_, hrelease⟩, hsha256, hsize⟩,
      Except.ok.inj h⟩
  · rintro ⟨h, rfl⟩
    obtain ⟨components, hversion⟩ := h.version
    obtain ⟨artifactUrl, hartifact⟩ := h.artifactUrl
    obtain ⟨releaseUrl, hrelease⟩ := h.releaseUrl
    simp only [checkManifest, require_of h.schemaVersion, require_of h.product,
      require_of h.channel, require_of h.apiVersion, require_of h.updateApiVersion,
      require_of h.platform, hversion, validateHttpsUrl_eq_ok.mpr hartifact,
      validateHttpsUrl_eq_ok.mpr hrelease, require_of h.sha256, require_of h.size]
    rfl

theorem readManifest_eq_ok {data : List (String × Json)} (h : m.Given data) :
    readManifest data = .ok m := by
  obtain ⟨fields, hlookup, hartifact⟩ := h.artifact
  have hread : (jsonObject data "artifact" >>= readReleaseArtifact) = .ok m.artifact := by
    rw [jsonObject_eq_ok hlookup]
    exact readReleaseArtifact_eq_ok hartifact
  simp only [readManifest, require_of h.keys, jsonInt_eq_ok h.schemaVersion,
    jsonStr_eq_ok h.product h.product_ne, jsonStr_eq_ok h.channel h.channel_ne,
    jsonInt_eq_ok h.apiVersion, jsonInt_eq_ok h.updateApiVersion,
    jsonStr_eq_ok h.platform h.platform_ne, jsonStr_eq_ok h.version h.version_ne, hread,
    jsonStr_eq_ok h.releaseUrl h.releaseUrl_ne]
  rfl

/-- **A text with the members of a manifest** is accepted if the manifest passes the checks. -/
theorem fromBytes_eq {text : List Char} {data : List (String × Json)}
    (htext : JsonText (some 4300) (.obj data) text) (hunique : uniqueKeys (.obj data) = true)
    (h : m.Given data) : fromBytes checkNetloc (utf8 text) = checkManifest checkNetloc m := by
  have hloads : jsonLoads text = some (.obj data) := loads_of_jsonText htext
  simp only [fromBytes, decodeUtf8_eq_some.mpr rfl, hloads, hunique, readManifest_eq_ok h]
  rfl

end Manifest

end PetlibroLocal.Updates
