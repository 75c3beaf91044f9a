import PetlibroLocal.Release.Semver
import PetlibroLocal.Updates.ManifestUrls
import PetlibroLocal.Agent.CompactManifest
import PetlibroLocal.Agent.ManifestText

/-!
# The Manifest of the Release Tool

`_manifest_bytes` makes a dictionary of a version, two URLs, a hash and a size, checks it with
`_validate_manifest_payload`, and writes it with `json.dumps`, compactly and with everything that
is not printable ASCII escaped. What is written should be accepted by the state agent and by the
add-on, and both should read the values that were given.

The tool looks at the parts that `urlsplit` makes of a URL, and an empty part is as good as none:
it signs a URL with an empty fragment, an empty query or an empty user name, and a scheme in
capitals. The agent refuses all of these. The digits `\d` of a version may be those of other
scripts; what the tool finds wrong with a version that is not ASCII is the parameter `checkUnicode`.

The main results are `signed_release_installable` and `signed_release_refused`.
-/

namespace PetlibroLocal.Release

open JsonGrammar Agent Updates

/-! ### Writing JSON -/

/-- What `json.dumps` makes of a manifest. -/
def canonicalText (m : SignedReleaseManifest) : List Char :=
  dumpsDict [("schema_version", dumpsInt m.schemaVersion), ("product", dumpsString m.product),
    ("channel", dumpsString m.channel), ("version", dumpsString m.version),
    ("api_version", dumpsInt m.apiVersion), ("update_api_version", dumpsInt m.updateApiVersion),
    ("platform", dumpsString m.platform),
    ("artifact", dumpsDict [("url", dumpsString m.artifact.url),
      ("sha256", dumpsString m.artifact.sha256), ("size", dumpsInt m.artifact.size)]),
    ("release_url", dumpsString m.releaseUrl)]

/-- `_canonical_manifest_bytes`. -/
def canonicalManifestBytes (m : SignedReleaseManifest) : Bytes := utf8 (canonicalText m)

/-! ### The checks -/

/-- What `_https_url` raises. -/
def urlError (fieldName : String) : UrlFault → ReleaseError
  | .split message => .valueError message
  | .scheme => .valueError s!"{fieldName} must be an HTTPS URL"
  | .hostname => .valueError s!"{fieldName} must include a hostname"
  | .credentials => .valueError s!"{fieldName} must not include credentials"
  | .fragment => .valueError s!"{fieldName} must not include a URL fragment"
  | .query => .valueError s!"{fieldName} must not include query parameters"
  | .path => .valueError s!"{fieldName} must include a concrete artifact path"

/-- `_https_url`. -/
def httpsUrl (checkNetloc : List Char → Option String) (value fieldName : String)
    (immutable : Bool) : Except ReleaseError String :=
  match checkHttpsUrl checkNetloc value.toList immutable with
  | .error fault => .error (urlError fieldName fault)
  | .ok _ => .ok value

/-- `_json_str`. -/
def jsonStr (data : List (String × Json)) (key : String) : Except ReleaseError String :=
  match data.lookup key with
  | some (.str value) =>
    if value = "" then .error (.valueError s!"manifest field {key} must be a non-empty string")
    else .ok value
  | _ => .error (.valueError s!"manifest field {key} must be a non-empty string")

/-- `_json_int`. -/
def jsonInt (data : List (String × Json)) (key : String) : Except ReleaseError ℤ :=
  match data.lookup key with
  | some (.int value) => .ok value
  | _ => .error (.typeError s!"manifest field {key} must be an integer")

/-- The members of the artifact. -/
def readReleaseArtifact (payload : List (String × Json)) : Except ReleaseError ReleaseArtifact :=
  match payload.lookup "artifact" with
  | some (.obj artifact) => do
    require (keysAre artifactKeys artifact) (.valueError "artifact fields are invalid")
    let url ← jsonStr artifact "url"
    let sha256 ← jsonStr artifact "sha256"
    let size ← jsonInt artifact "size"
    pure ⟨url, sha256, size⟩
  | _ => .error (.typeError "manifest field artifact must be an object")

/-- The members, with their types. -/
def readPayload (payload : List (String × Json)) :
    Except ReleaseError SignedReleaseManifest := do
  require (keysAre manifestKeys payload) (.valueError "manifest fields are invalid")
  let schemaVersion ← jsonInt payload "schema_version"
  let product ← jsonStr payload "product"
  let channel ← jsonStr payload "channel"
  let version ← jsonStr payload "version"
  let apiVersion ← jsonInt payload "api_version"
  let updateApiVersion ← jsonInt payload "update_api_version"
  let platform ← jsonStr payload "platform"
  let releaseUrl ← jsonStr payload "release_url"
  let artifact ← readReleaseArtifact payload
  pure ⟨schemaVersion, product, channel, version, apiVersion, updateApiVersion, platform, artifact,
    releaseUrl⟩

/-- `_validate_semver`, also of a version that is not ASCII. -/
def validateVersion (checkUnicode : List Char → Option ReleaseError) (value : List Char)
    (fieldName : String) : Except ReleaseError (List Char) :=
  if isAscii value then validateSemver value fieldName
  else
    match checkUnicode value with
    | some error => .error error
    | none => .ok value

/-- The values of the members. -/
def checkPayload (checkNetloc : List Char → Option String)
    (checkUnicode : List Char → Option ReleaseError) (m : SignedReleaseManifest) :
    Except ReleaseError SignedReleaseManifest := do
  require (m.schemaVersion = 1) (.valueError "schema_version must be 1")
  require (m.product = "plaf203-state-agent") (.valueError "product must be plaf203-state-agent")
  require (m.channel = "stable") (.valueError "channel must be stable")
  require (m.apiVersion = 1 ∧ m.updateApiVersion = 1)
    (.valueError "api_version and update_api_version must be 1")
  require (m.platform = "linux-armv7-eabihf") (.valueError "platform must be linux-armv7-eabihf")
  let _ ← validateVersion checkUnicode m.version.toList "version"
  let _ ← httpsUrl checkNetloc m.artifact.url "artifact.url" true
  let _ ← httpsUrl checkNetloc m.releaseUrl "release_url" false
  require (isSha256 m.artifact.sha256.toList)
    (.valueError "artifact.sha256 must be lower-case SHA-256")
  require (0 < m.artifact.size) (.valueError "artifact.size must be positive")
  pure m

/-- `_validate_manifest_payload`. -/
def validateManifestPayload (checkNetloc : List Char → Option String)
    (checkUnicode : List Char → Option ReleaseError) (payload : List (String × Json)) :
    Except ReleaseError SignedReleaseManifest :=
  readPayload payload >>= checkPayload checkNetloc checkUnicode

/-- The dictionary of `_manifest_bytes`. -/
def manifestPayload (version artifactUrl releaseUrl artifactSha256 : String) (artifactSize : ℤ) :
    List (String × Json) :=
  [("schema_version", .int 1), ("product", .str "plaf203-state-agent"), ("channel", .str "stable"),
    ("version", .str version), ("api_version", .int 1), ("update_api_version", .int 1),
    ("platform", .str "linux-armv7-eabihf"),
    ("artifact", .obj [("url", .str artifactUrl), ("sha256", .str artifactSha256),
      ("size", .int artifactSize)]),
    ("release_url", .str releaseUrl)]

/-- `_manifest_bytes`. -/
def manifestBytes (checkNetloc : List Char → Option String)
    (checkUnicode : List Char → Option ReleaseError)
    (version artifactUrl releaseUrl artifactSha256 : String) (artifactSize : ℤ) :
    Except ReleaseError Bytes := do
  let canonical ← validateManifestPayload checkNetloc checkUnicode
    (manifestPayload version artifactUrl releaseUrl artifactSha256 artifactSize)
  pure (canonicalManifestBytes canonical)

/-! ### What has been checked -/

section Checked

variable {checkNetloc : List Char → Option String}
  {checkUnicode : List Char → Option ReleaseError}
  {version artifactUrl releaseUrl sha256 : String} {size : ℤ} {bytes : Bytes}

/-- The manifest of the given values. -/
def releaseManifest (version artifactUrl releaseUrl sha256 : String) (size : ℤ) :
    SignedReleaseManifest :=
  ⟨1, "plaf203-state-agent", "stable", version, 1, 1, "linux-armv7-eabihf",
    ⟨artifactUrl, sha256, size⟩, releaseUrl⟩

theorem of_jsonStr {data : List (String × Json)} {key value value' : String}
    (hlookup : data.lookup key = some (.str value)) (h : jsonStr data key = .ok value') :
    value' = value ∧ value ≠ "" := by
  simp only [jsonStr, hlookup] at h
  obtain ⟨hne, h⟩ := ite_error_eq_ok.mp h
  exact ⟨(Except.ok.inj h).symm, hne⟩

theorem of_jsonInt {data : List (String × Json)} {key : String} {n n' : ℤ}
    (hlookup : data.lookup key = some (.int n)) (h : jsonInt data key = .ok n') : n' = n := by
  simp only [jsonInt, hlookup] at h
  exact (Except.ok.inj h).symm

theorem of_readReleaseArtifact {a : ReleaseArtifact}
    (h : readReleaseArtifact (manifestPayload version artifactUrl releaseUrl sha256 size) = .ok a) :
    a = ⟨artifactUrl, sha256, size⟩ ∧ artifactUrl ≠ "" ∧ sha256 ≠ "" := by
  obtain ⟨_, -, h₁⟩ := bind_eq_ok.mp h
  obtain ⟨url', hurl, h₂⟩ := bind_eq_ok.mp h₁
  obtain ⟨sha256', hsha256, h₃⟩ := bind_eq_ok.mp h₂
  obtain ⟨size', hsize, h₄⟩ := bind_eq_ok.mp h₃
  obtain ⟨rfl, hurl'⟩ := of_jsonStr rfl hurl
  obtain ⟨rfl, hsha256'⟩ := of_jsonStr rfl hsha256
  obtain rfl := of_jsonInt rfl hsize
  exact ⟨(Except.ok.inj h₄).symm, hurl', hsha256'⟩

/-- **What the tool reads** from its own dictionary. -/
theorem of_readPayload {m : SignedReleaseManifest}
    (h : readPayload (manifestPayload version artifactUrl releaseUrl sha256 size) = .ok m) :
    m = releaseManifest version artifactUrl releaseUrl sha256 size ∧
      m.Given (manifestPayload version artifactUrl releaseUrl sha256 size) := by
  obtain ⟨_, -, h₁⟩ := bind_eq_ok.mp h
  obtain ⟨schemaVersion, hschema, h₂⟩ := bind_eq_ok.mp h₁
  obtain ⟨product, hproduct, h₃⟩ := bind_eq_ok.mp h₂
  obtain ⟨channel, hchannel, h₄⟩ := bind_eq_ok.mp h₃
  obtain ⟨version', hversion, h₅⟩ := bind_eq_ok.mp h₄
  obtain ⟨apiVersion, hapi, h₆⟩ := bind_eq_ok.mp h₅
  obtain ⟨updateApiVersion, hupdate, h₇⟩ := bind_eq_ok.mp h₆
  obtain ⟨platform, hplatform, h₈⟩ := bind_eq_ok.mp h₇
  obtain ⟨releaseUrl', hrelease, h₉⟩ := bind_eq_ok.mp h₈
  obtain ⟨artifact, hartifact, h₁₀⟩ := bind_eq_ok.mp h₉
  obtain ⟨rfl, hurl, hsha256⟩ := of_readReleaseArtifact hartifact
  obtain rfl := of_jsonInt rfl hschema
  obtain ⟨rfl, hproduct_ne⟩ := of_jsonStr rfl hproduct
  obtain ⟨rfl, hchannel_ne⟩ := of_jsonStr rfl hchannel
  obtain ⟨rfl, hversion_ne⟩ := of_jsonStr rfl hversion
  obtain rfl := of_jsonInt rfl hapi
  obtain rfl := of_jsonInt rfl hupdate
  obtain ⟨rfl, hplatform_ne⟩ := of_jsonStr rfl hplatform
  obtain ⟨rfl, hrelease_ne⟩ := of_jsonStr rfl hrelease
  cases h₁₀
  exact ⟨rfl, rfl, rfl, rfl, hproduct_ne, rfl, hchannel_ne, rfl, hversion_ne, rfl, rfl, rfl,
    hplatform_ne, ⟨_, rfl, rfl, rfl, hurl, rfl, hsha256, rfl⟩, rfl, hrelease_ne⟩

theorem of_httpsUrl {value fieldName r : String} {immutable : Bool}
    (h : httpsUrl checkNetloc value fieldName immutable = .ok r) :
    ∃ u, checkHttpsUrl checkNetloc value.toList immutable = .ok u := by
  unfold httpsUrl at h
  split at h
  · cases h
  · rename_i u hu
    exact ⟨u, hu⟩

/-- What is known of the values of a signed release. -/
structure Signed (checkNetloc : List Char → Option String)
    (version artifactUrl releaseUrl sha256 : String) (size : ℤ) : Prop where
  version : (∀ c ∈ version.toList, c.toNat < 128) → ∃ v : Version, v.text = version.toList
  artifactUrl : ∃ u, checkHttpsUrl checkNetloc artifactUrl.toList true = .ok u
  releaseUrl : ∃ u, checkHttpsUrl checkNetloc releaseUrl.toList false = .ok u
  sha256 : isSha256 sha256.toList = true
  size : 0 < size

theorem of_validateVersion {value r : List Char} {fieldName : String}
    (h : validateVersion checkUnicode value fieldName = .ok r)
    (hascii : ∀ c ∈ value, c.toNat < 128) : ∃ v : Version, v.text = value := by
  have htrue : isAscii value = true := List.all_eq_true.mpr fun c hc => decide_eq_true (hascii c hc)
  rw [validateVersion, if_pos htrue] at h
  exact validateSemver_iff.mp ⟨_, h⟩

theorem of_checkPayload {m : SignedReleaseManifest} (h : checkPayload checkNetloc checkUnicode
      (releaseManifest version artifactUrl releaseUrl sha256 size) = .ok m) :
    m = releaseManifest version artifactUrl releaseUrl sha256 size ∧
      Signed checkNetloc version artifactUrl releaseUrl sha256 size := by
  obtain ⟨_, -, h₁⟩ := bind_eq_ok.mp h
  obtain ⟨_, -, h₂⟩ := bind_eq_ok.mp h₁
  obtain ⟨_, -, h₃⟩ := bind_eq_ok.mp h₂
  obtain ⟨_, -, h₄⟩ := bind_eq_ok.mp h₃
  obtain ⟨_, -, h₅⟩ := bind_eq_ok.mp h₄
  obtain ⟨_, hversion, h₆⟩ := bind_eq_ok.mp h₅
  obtain ⟨_, hartifact, h₇⟩ := bind_eq_ok.mp h₆
  obtain ⟨_, hrelease, h₈⟩ := bind_eq_ok.mp h₇
  obtain ⟨_, hsha256, h₉⟩ := bind_eq_ok.mp h₈
  obtain ⟨_, hsize, h₁₀⟩ := bind_eq_ok.mp h₉
  exact ⟨(Except.ok.inj h₁₀).symm, of_validateVersion hversion, of_httpsUrl hartifact,
    of_httpsUrl hrelease, require_eq_ok.mp hsha256, require_eq_ok.mp hsize⟩

/-- **What has been checked** when a release is signed, and what is written. -/
theorem of_manifestBytes
    (h : manifestBytes checkNetloc checkUnicode version artifactUrl releaseUrl sha256 size =
      .ok bytes) :
    Signed checkNetloc version artifactUrl releaseUrl sha256 size ∧
      (releaseManifest version artifactUrl releaseUrl sha256 size).Given
        (manifestPayload version artifactUrl releaseUrl sha256 size) ∧
      bytes =
        canonicalManifestBytes (releaseManifest version artifactUrl releaseUrl sha256 size) := by
  obtain ⟨canonical, hvalidate, hbytes⟩ := bind_eq_ok.mp h
  obtain ⟨m, hread, hcheck⟩ := bind_eq_ok.mp hvalidate
  obtain ⟨rfl, hgiven⟩ := of_readPayload hread
  obtain ⟨rfl, hsigned⟩ := of_checkPayload hcheck
  exact ⟨hsigned, hgiven, (Except.ok.inj hbytes).symm⟩

end Checked

/-! ### What is written -/

section Written

variable {version artifactUrl releaseUrl sha256 : String} {size : ℕ}

theorem isAscii_canonicalText (m : SignedReleaseManifest) : isAscii (canonicalText m) = true := by
  have hartifact : isAscii (dumpsDict [("url", dumpsString m.artifact.url),
      ("sha256", dumpsString m.artifact.sha256), ("size", dumpsInt m.artifact.size)]) = true :=
    isAscii_dumpsDict (by simp)
  refine isAscii_dumpsDict ?_
  simp [hartifact]

/-- **What is written is read** by the agent, member by member. -/
theorem parseManifestV1_canonical (h : Fits version artifactUrl releaseUrl sha256 size)
    (hurl : isValidManifestUrl artifactUrl.toList true = true)
    (hrelease : isValidManifestUrl releaseUrl.toList false = true)
    {m : OtaManifest} (hm : m = ⟨1, "plaf203-state-agent".toList, "stable".toList,
      "linux-armv7-eabihf".toList, 1, 1, version.toList, sha256.toList, size⟩) (hvalid : m.Valid) :
    parseManifestV1 (canonicalManifestBytes
      (releaseManifest version artifactUrl releaseUrl sha256 size)) = some m := by
  have hruns : Runs 32 manifestField ⟨none, none, none, none, none, none, none, none, none⟩ _
      ⟨some 1, some "plaf203-state-agent".toList, some "stable".toList,
        some "linux-armv7-eabihf".toList, some 1, some 1, some version.toList,
        some (artifactUrl.toList, sha256.toList, size), some releaseUrl.toList⟩ :=
    .member manifestField_schemaVersion writes_one <|
    .member manifestField_product writes_literal <|
    .member manifestField_channel writes_literal <|
    .member manifestField_version (writes_string h.plain_version h.length_version) <|
    .member manifestField_apiVersion writes_one <|
    .member manifestField_updateApiVersion writes_one <|
    .member manifestField_platform writes_literal <|
    .member manifestField_artifact (writes_artifact h hurl) <|
    .member manifestField_releaseUrl
      (writes_url h.plain_releaseUrl h.length_releaseUrl hrelease) <| .nil _
  have hread := parseBraces_dumpsDict hruns (List.cons_ne_nil _ _) []
  rw [List.append_nil] at hread
  have htext : ∀ r, manifestText (canonicalManifestBytes r) = canonicalText r := fun r =>
    latin1_ascii (lt_of_isAscii (isAscii_canonicalText r))
  rw [parseManifestV1, htext]
  unfold canonicalText releaseManifest
  rw [hread]
  subst hm
  exact if_pos hvalid

/-- **What is written is JSON**, and it is the dictionary of the tool. -/
theorem jsonText_canonicalText (version artifactUrl releaseUrl sha256 : String) {size : ℕ}
    (hsize : (Nat.toDigits 10 size).length ≤ 4300) :
    JsonText (some 4300) (.obj (manifestPayload version artifactUrl releaseUrl sha256 size))
      (canonicalText (releaseManifest version artifactUrl releaseUrl sha256 size)) := by
  have hone : Derives (some 4300) (.value (.int 1)) (dumpsInt 1) :=
    derives_dumpsInt (n := 1) (by decide)
  have hsize' : Derives (some 4300) (.value (.int size)) (dumpsInt size) :=
    derives_dumpsInt (by rintro _ ⟨⟩; exact hsize)
  have hstr : ∀ s, Derives (some 4300) (.value (.str s)) (dumpsString s) := fun s =>
    .str (stringText_dumpsString s)
  have hartifact : Derives (some 4300)
      (.value (.obj [("url", .str artifactUrl), ("sha256", .str sha256), ("size", .int size)]))
      (dumpsDict [("url", dumpsString artifactUrl), ("sha256", dumpsString sha256),
        ("size", dumpsInt size)]) := by
    refine derives_dumpsDict ?_ (List.cons_ne_nil _ _)
    exact .cons ⟨rfl, hstr _⟩ <| .cons ⟨rfl, hstr _⟩ <| .cons ⟨rfl, hsize'⟩ .nil
  have hmanifest : Derives (some 4300)
      (.value (.obj (manifestPayload version artifactUrl releaseUrl sha256 size)))
      (canonicalText (releaseManifest version artifactUrl releaseUrl sha256 size)) := by
    refine derives_dumpsDict ?_ (List.cons_ne_nil _ _)
    exact .cons ⟨rfl, hone⟩ <| .cons ⟨rfl, hstr _⟩ <| .cons ⟨rfl, hstr _⟩ <|
      .cons ⟨rfl, hstr _⟩ <| .cons ⟨rfl, hone⟩ <| .cons ⟨rfl, hone⟩ <| .cons ⟨rfl, hstr _⟩ <|
      .cons ⟨rfl, hartifact⟩ <| .cons ⟨rfl, hstr _⟩ .nil
  have htext := JsonText.mk blank_nil hmanifest blank_nil
  rwa [List.nil_append, List.append_nil] at htext

end Written

/-! ### Signed releases are installable -/

/-- The URL has at most 511 characters, all of them printable ASCII but no blank, no quote and no
backslash. -/
structure UrlBounds (url : List Char) : Prop where
  length_le : url.length ≤ 511
  chars : ∀ c ∈ url, 0x20 < c.toNat ∧ c.toNat < 0x7f ∧ c ≠ '"' ∧ c ≠ '\\'

/-- The URL starts with `https://`, and has no `@` in its authority, no `#`, and, if it has to be
immutable, no `?`. -/
structure PlainUrl (url : List Char) (immutable : Bool) : Prop where
  scheme : url.take 8 = "https://".toList
  user : '@' ∉ (url.drop 8).takeWhile inNetloc
  fragment : '#' ∉ url
  query : immutable = true → '?' ∉ url

instance (url : List Char) : Decidable (UrlBounds url) :=
  decidable_of_iff (url.length ≤ 511 ∧ url.all (fun c =>
      decide (0x20 < c.toNat ∧ c.toNat < 0x7f ∧ c ≠ '"' ∧ c ≠ '\\')) = true)
    ⟨fun ⟨h₁, h₂⟩ => ⟨h₁, fun c hc => of_decide_eq_true (List.all_eq_true.mp h₂ c hc)⟩,
      fun ⟨h₁, h₂⟩ => ⟨h₁, List.all_eq_true.mpr fun c hc => decide_eq_true (h₂ c hc)⟩⟩

instance (url : List Char) (immutable : Bool) : Decidable (PlainUrl url immutable) :=
  decidable_of_iff (url.take 8 = "https://".toList ∧ '@' ∉ (url.drop 8).takeWhile inNetloc ∧
      '#' ∉ url ∧ (immutable = true → '?' ∉ url))
    ⟨fun ⟨h₁, h₂, h₃, h₄⟩ => ⟨h₁, h₂, h₃, h₄⟩, fun ⟨h₁, h₂, h₃, h₄⟩ => ⟨h₁, h₂, h₃, h₄⟩⟩

theorem UrlBounds.isPlain {url : List Char} (h : UrlBounds url) : ∀ c ∈ url, IsPlain c :=
  fun c hc => ⟨(h.chars c hc).1.le, (h.chars c hc).2⟩

theorem plainUrl_of_agentUrl {rest : List Char} {immutable : Bool} (h : AgentUrl rest immutable) :
    PlainUrl ("https://".toList ++ rest) immutable where
  scheme := rfl
  user := h.user
  fragment := by simpa using h.fragment
  query himm := by simpa using h.query himm

/-- What the agent asks of a signed release. -/
structure PlainRelease (version artifactUrl releaseUrl : String) : Prop where
  version : ∀ c ∈ version.toList, c.toNat < 128
  artifactUrl : PlainUrl artifactUrl.toList true
  releaseUrl : PlainUrl releaseUrl.toList false

theorem isValidManifestUrl_of_signed {checkNetloc : List Char → Option String} {url : List Char}
    {immutable : Bool} (hbounds : UrlBounds url) (hplain : PlainUrl url immutable)
    (h : ∃ u, checkHttpsUrl checkNetloc url immutable = .ok u) :
    isValidManifestUrl url immutable = true := by
  obtain ⟨u, hu⟩ := h
  have hsplit : "https://".toList ++ url.drop 8 = url := by
    rw [← hplain.scheme, List.take_append_drop]
  have hsub : ∀ {c}, c ∈ url.drop 8 → c ∈ url := fun hc => List.drop_subset 8 url hc
  have hchars : (url.drop 8).all (fun c => 0x20 < c.toNat && c.toNat != 0x7f) = true := by
    refine List.all_eq_true.mpr fun c hc => ?_
    have hc := hbounds.chars c (hsub hc)
    simp only [Bool.and_eq_true, decide_eq_true_eq, bne_iff_ne]
    omega
  rw [← hsplit] at hu ⊢
  exact isValidManifestUrl_of_check hu hchars hplain.user (fun hc => hplain.fragment (hsub hc))
    fun himm hc => hplain.query himm (hsub hc)

theorem isPlain_of_isLowerHex {c : Char} (h : isLowerHex c = true) : IsPlain c := by
  have hc := toNat_lt_of_isLowerHex h
  revert h
  exact ascii_cases (p := fun c => isLowerHex c = true → IsPlain c) (by decide) hc

theorem isPlain_of_mem_text {v : Version} {c : Char} (h : c ∈ v.text) : IsPlain c := by
  have hplain : ∀ {d : Char}, isIdentifierChar d = true → IsPlain d := by
    intro d hd
    have hlt := toNat_lt_of_isIdentifierChar hd
    revert hd
    exact ascii_cases (p := fun d => isIdentifierChar d = true → IsPlain d) (by decide) hlt
  rcases mem_text h with rfl | rfl | rfl | h
  · decide
  · decide
  · decide
  · exact hplain h

theorem length_toDigits_le {n : ℕ} (h : n ≤ 32 * 1024 * 1024) :
    (Nat.toDigits 10 n).length ≤ 4300 := by
  refine le_trans ((Nat.length_toDigits_le_iff (by omega) (by omega : 0 < 8)).mpr ?_) (by omega)
  omega

theorem plain_of_isUrl {immutable : Bool} {x : List Char} {url : String}
    (h : IsUrl immutable x (.str url)) : PlainUrl url.toList immutable := by
  obtain ⟨⟨-, t, ht, rfl⟩, hvalid⟩ := h
  obtain ⟨rest, rfl, hagent⟩ := isValidManifestUrl_latin1 hvalid
  obtain rfl := Json.str.inj ht
  rw [String.toList_ofList]
  exact plainUrl_of_agentUrl hagent

/-- **What the agent reads of a release is plain**: it stores the values that were given. -/
theorem plainRelease_of_accepted {version artifactUrl releaseUrl sha256 : String} {size : ℕ}
    (hmax : size ≤ 32 * 1024 * 1024) {m : OtaManifest}
    (h : parseManifestV1
      (canonicalManifestBytes (releaseManifest version artifactUrl releaseUrl sha256 size)) =
        some m) :
    PlainRelease version artifactUrl releaseUrl := by
  have hjson := jsonText_canonicalText version artifactUrl releaseUrl sha256
    (length_toDigits_le hmax)
  obtain ⟨ms, url, release, hread, -, hstores⟩ := parseManifestV1_reads (tidy_of_jsonText hjson) h
  obtain rfl : ms = manifestPayload version artifactUrl releaseUrl sha256 size := by
    have hloads := loads_of_jsonText hread
    rw [loads_of_jsonText hjson] at hloads
    exact (Json.obj.inj (Option.some.inj hloads)).symm
  obtain ⟨_, hlversion, -, t, rfl, hlatin1⟩ := rel_some (hstores.holds "version" (by decide))
  obtain ⟨_, hlartifact, fields, rfl, hfields⟩ := rel_some (hstores.holds "artifact" (by decide))
  obtain ⟨_, hlrelease, hrelease⟩ := rel_some (hstores.holds "release_url" (by decide))
  obtain rfl : version = String.ofList t := Json.str.inj (Option.some.inj hlversion)
  obtain rfl := Json.obj.inj (Option.some.inj hlartifact)
  cases hlrelease
  obtain ⟨_, hlurl, hurl⟩ := rel_some (hfields.holds "url" (by decide))
  cases hlurl
  obtain ⟨v, hv⟩ := parseSemverStrict_iff.mp (of_parseManifestV1 h).version
  have hascii : ∀ c ∈ m.version, c.toNat < 128 := by
    rw [← hv]
    exact fun c hc => toNat_lt_of_mem_text hc
  refine ⟨?_, plain_of_isUrl hurl, plain_of_isUrl hrelease⟩
  rwa [String.toList_ofList, eq_of_latin1_eq hascii hlatin1]

/-- **A plain release is accepted**, and the values that were given are read. -/
theorem accepted_of_plainRelease {checkNetloc : List Char → Option String}
    {version artifactUrl releaseUrl sha256 : String} {size : ℕ}
    (hchecked : Signed checkNetloc version artifactUrl releaseUrl sha256 size)
    (hgiven : (releaseManifest version artifactUrl releaseUrl sha256 size).Given
      (manifestPayload version artifactUrl releaseUrl sha256 size))
    (hversion : (utf8 version.toList).length ≤ 63) (hartifact : UrlBounds artifactUrl.toList)
    (hrelease : UrlBounds releaseUrl.toList) (hmax : size ≤ 32 * 1024 * 1024)
    (hplain : PlainRelease version artifactUrl releaseUrl) :
    parseManifestV1 (canonicalManifestBytes
        (releaseManifest version artifactUrl releaseUrl sha256 size)) =
        some ⟨1, "plaf203-state-agent".toList, "stable".toList, "linux-armv7-eabihf".toList, 1, 1,
          version.toList, sha256.toList, size⟩ ∧
      fromBytes checkNetloc (canonicalManifestBytes
        (releaseManifest version artifactUrl releaseUrl sha256 size)) =
        .ok (releaseManifest version artifactUrl releaseUrl sha256 size) := by
  obtain ⟨v, hv⟩ := hchecked.version hplain.version
  have hlength : version.toList.length ≤ 63 := by
    rwa [utf8_ascii hplain.version, List.length_map] at hversion
  have hhex := hchecked.sha256
  rw [isSha256, Bool.and_eq_true, beq_iff_eq, List.all_eq_true] at hhex
  constructor
  · have hfits : Fits version artifactUrl releaseUrl sha256 size :=
      ⟨fun c hc => isPlain_of_mem_text (hv ▸ hc), by omega, hartifact.isPlain,
        Nat.lt_succ_of_le hartifact.length_le, hrelease.isPlain,
        Nat.lt_succ_of_le hrelease.length_le, fun c hc => isPlain_of_isLowerHex (hhex.2 c hc),
        by omega, by rw [uint32Max]; omega⟩
    refine parseManifestV1_canonical hfits
      (isValidManifestUrl_of_signed hartifact hplain.artifactUrl hchecked.artifactUrl)
      (isValidManifestUrl_of_signed hrelease hplain.releaseUrl hchecked.releaseUrl) rfl ?_
    exact ⟨rfl, rfl, rfl, rfl, rfl, rfl, parseSemverStrict_iff.mpr ⟨v, hv⟩,
      Int.natCast_pos.mp hchecked.size, hmax, hhex.1, List.all_eq_true.mpr hhex.2⟩
  · have hcomponents : ∃ components, semverComponents version.toList = .ok components := by
      rw [← hv] at hlength ⊢
      exact semverComponents_of_length_le (hlength.trans (by decide))
    rw [canonicalManifestBytes, fromBytes_eq (jsonText_canonicalText version artifactUrl releaseUrl
      sha256 (length_toDigits_le hmax)) rfl hgiven, checkManifest_eq_ok_iff]
    exact ⟨⟨rfl, rfl, rfl, rfl, rfl, rfl, hcomponents, hchecked.artifactUrl, hchecked.releaseUrl,
      hchecked.sha256, hchecked.size⟩, rfl⟩

/-- **Signed releases and the agent.** Of a signed release within the bounds, the state agent and
the add-on accept the manifest and read the values that were given exactly if the release is plain,
and otherwise the agent refuses the manifest. -/
theorem signed_release_installable {checkNetloc : List Char → Option String}
    {checkUnicode : List Char → Option ReleaseError}
    {version artifactUrl releaseUrl sha256 : String} {size : ℤ} {bytes : Bytes}
    (hsigned : manifestBytes checkNetloc checkUnicode version artifactUrl releaseUrl sha256 size =
      .ok bytes)
    (hversion : (utf8 version.toList).length ≤ 63) (hartifact : UrlBounds artifactUrl.toList)
    (hrelease : UrlBounds releaseUrl.toList) (hsize : 52 ≤ size ∧ size ≤ 32 * 1024 * 1024) :
    ((parseManifestV1 bytes = some ⟨1, "plaf203-state-agent".toList, "stable".toList,
          "linux-armv7-eabihf".toList, 1, 1, version.toList, sha256.toList, size.toNat⟩ ∧
        fromBytes checkNetloc bytes = .ok ⟨1, "plaf203-state-agent", "stable", version, 1, 1,
          "linux-armv7-eabihf", ⟨artifactUrl, sha256, size⟩, releaseUrl⟩) ↔
      PlainRelease version artifactUrl releaseUrl) ∧
    (parseManifestV1 bytes = none ↔ ¬PlainRelease version artifactUrl releaseUrl) := by
  obtain ⟨hchecked, hgiven, rfl⟩ := of_manifestBytes hsigned
  obtain ⟨n, rfl⟩ := Int.eq_ofNat_of_zero_le (show 0 ≤ size by omega)
  have hmax : n ≤ 32 * 1024 * 1024 := by omega
  have hrefused : ∀ m, parseManifestV1 (canonicalManifestBytes
      (releaseManifest version artifactUrl releaseUrl sha256 n)) = some m →
      PlainRelease version artifactUrl releaseUrl := fun m => plainRelease_of_accepted hmax
  have haccepted := fun hplain => accepted_of_plainRelease hchecked hgiven hversion hartifact
    hrelease hmax hplain
  refine ⟨⟨fun h => hrefused _ h.1, haccepted⟩, fun hnone hplain => ?_, fun hplain => ?_⟩
  · rw [(haccepted hplain).1] at hnone
    cases hnone
  · by_contra hsome
    obtain ⟨m, hm⟩ := Option.ne_none_iff_exists'.mp hsome
    exact hplain (hrefused m hm)

/-- A hash. -/
def sampleSha256 : String := "0000000000000000000000000000000000000000000000000000000000000000"

/-- The manifest of the release 1.1.0. -/
def sampleBytes (artifactUrl releaseUrl : String) : Except ReleaseError Bytes :=
  manifestBytes (fun _ => none) (fun _ => none) "1.1.0" artifactUrl releaseUrl sampleSha256 52

/-- The release 1.1.0 is installable. -/
theorem signed_release_installable_sample :
    ∃ bytes, sampleBytes "https://x/y" "https://x/z" = .ok bytes ∧
      parseManifestV1 bytes = some ⟨1, "plaf203-state-agent".toList, "stable".toList,
        "linux-armv7-eabihf".toList, 1, 1, "1.1.0".toList, sampleSha256.toList, 52⟩ ∧
      fromBytes (fun _ => none) bytes = .ok ⟨1, "plaf203-state-agent", "stable", "1.1.0", 1, 1,
        "linux-armv7-eabihf", ⟨"https://x/y", sampleSha256, 52⟩, "https://x/z"⟩ := by
  have hvalid : (sampleBytes "https://x/y" "https://x/z").isOk = true := by decide +kernel
  cases hbytes : sampleBytes "https://x/y" "https://x/z" with
  | error e =>
    rw [hbytes] at hvalid
    cases hvalid
  | ok bytes =>
    refine ⟨bytes, rfl, ?_⟩
    exact (signed_release_installable hbytes (by decide) (by decide) (by decide)
      (by decide)).1.mpr ⟨lt_of_isAscii (by decide), by decide, by decide⟩

/-- The release 1.1.0 with these URLs is signed, and the agent refuses it. -/
def SignedAndRefused (artifactUrl releaseUrl : String) : Prop :=
  UrlBounds artifactUrl.toList ∧ UrlBounds releaseUrl.toList ∧
    ∃ bytes, sampleBytes artifactUrl releaseUrl = .ok bytes ∧ parseManifestV1 bytes = none

/-- How it is found out. -/
def isSignedAndRefused (artifactUrl releaseUrl : String) : Bool :=
  match sampleBytes artifactUrl releaseUrl with
  | .error _ => false
  | .ok bytes => (parseManifestV1 bytes).isNone

theorem signedAndRefused {artifactUrl releaseUrl : String} (hurl : UrlBounds artifactUrl.toList)
    (hrelease : UrlBounds releaseUrl.toList)
    (h : isSignedAndRefused artifactUrl releaseUrl = true) :
    SignedAndRefused artifactUrl releaseUrl := by
  unfold isSignedAndRefused at h
  split at h
  · cases h
  · rename_i bytes hbytes
    exact ⟨hurl, hrelease, bytes, hbytes, Option.isNone_iff_eq_none.mp h⟩

/-- **Signed releases that the agent refuses**: an empty user name, an empty query, an empty
fragment, a scheme in capitals. -/
theorem signed_release_refused :
    SignedAndRefused "https://@x/y" "https://x/z" ∧ SignedAndRefused "https://x/y?" "https://x/z" ∧
      SignedAndRefused "https://x/y" "https://x/z#" ∧
      SignedAndRefused "HTTPS://x/y" "https://x/z" := by
  obtain ⟨huser, hquery, hfragment, hscheme⟩ :
      isSignedAndRefused "https://@x/y" "https://x/z" = true ∧
        isSignedAndRefused "https://x/y?" "https://x/z" = true ∧
        isSignedAndRefused "https://x/y" "https://x/z#" = true ∧
        isSignedAndRefused "HTTPS://x/y" "https://x/z" = true := by
    decide +kernel
  exact ⟨signedAndRefused (by decide) (by decide) huser,
    signedAndRefused (by decide) (by decide) hquery,
    signedAndRefused (by decide) (by decide) hfragment,
    signedAndRefused (by decide) (by decide) hscheme⟩

end PetlibroLocal.Release
