import PetlibroLocal.Release.Semver
import PetlibroLocal.Updates.ManifestUrls
import PetlibroLocal.Agent.ManifestText

/-!
# Manifests of the Agent and of the Add-on

Whatever the state agent accepts as a manifest, the add-on should accept too, and both should read
the same version, hash and size. This is so exactly for manifests in UTF-8 that are tidy — no
vertical tab, no form feed, no comma before a closing brace — and whose URLs have a host.

The main results are `agent_manifest_included` and `agent_manifest_comma`.
-/

namespace PetlibroLocal.Updates

open JsonGrammar Agent Release List

/-! ### What is stored -/

section Stored

variable {α : Type} {R : α → Json → Prop} {x : α} {keys : List String}
  {ms : List (String × Json)} {k : String}

theorem keysAre_of_members (h : Members keys ms) (hall : ∀ k ∈ keys, ∃ v, ms.lookup k = some v) :
    keysAre keys ms = true := by
  rw [keysAre, Bool.and_eq_true, all_eq_true, all_eq_true]
  refine ⟨fun m hm => ?_, fun k hk => ?_⟩
  · rw [contains_eq_mem, decide_eq_true_eq]
    exact h.keys m hm
  · obtain ⟨m, hm, hkey⟩ :=
      lookup_isSome_iff.mp (Option.isSome_iff_exists.mpr (hall k hk))
    rw [contains_eq_mem, decide_eq_true_eq, eq_of_beq hkey]
    exact mem_map_of_mem hm

theorem eq_str_of_isText {outLen : ℕ} {x : List Char} {v : Json} (h : IsText outLen x v)
    (hx : ∀ c ∈ x, c.toNat < 128) : v = .str (String.ofList x) := by
  obtain ⟨-, t, rfl, ht⟩ := h
  rw [eq_of_latin1_eq hx ht]

theorem exists_rest_of_isUrl {immutable : Bool} {x : List Char} {v : Json}
    (h : IsUrl immutable x v) :
    ∃ rest, v = .str (String.ofList ("https://".toList ++ rest)) ∧ AgentUrl rest immutable ∧
      latin1 ("https://".toList ++ rest) = x := by
  obtain ⟨⟨-, t, rfl, rfl⟩, hvalid⟩ := h
  obtain ⟨rest, rfl, hagent⟩ := isValidManifestUrl_latin1 hvalid
  exact ⟨rest, rfl, hagent, rfl⟩

theorem ofList_ne_empty {cs : List Char} (h : cs ≠ []) : String.ofList cs ≠ "" := by
  intro hempty
  have htoList := congrArg String.toList hempty
  rw [String.toList_ofList] at htoList
  exact h htoList

theorem artifact_given {url sha256 : List Char} {size : ℕ} {fields : List (String × Json)}
    (h : Stores artifactKeys ArtifactFields.holds ⟨some url, some sha256, some size⟩ fields)
    (hsha256 : ∀ c ∈ sha256, c.toNat < 128) (hne : sha256 ≠ []) :
    ∃ rest, AgentUrl rest true ∧ latin1 ("https://".toList ++ rest) = url ∧
      ReleaseArtifact.Given
        ⟨String.ofList ("https://".toList ++ rest), String.ofList sha256, size⟩ fields := by
  obtain ⟨vurl, hlurl, hurl⟩ := rel_some (h.holds "url" (by decide))
  obtain ⟨vsha, hlsha, hsha⟩ := rel_some (h.holds "sha256" (by decide))
  obtain ⟨vsize, hlsize, hsize⟩ := rel_some (h.holds "size" (by decide))
  obtain ⟨rest, rfl, hagent, hlatin1⟩ := exists_rest_of_isUrl hurl
  obtain rfl := eq_str_of_isText hsha hsha256
  rw [IsCount] at hsize
  subst hsize
  have hkeys : keysAre artifactKeys fields = true := by
    refine keysAre_of_members h.members ?_
    simp [artifactKeys, hlurl, hlsha, hlsize]
  exact ⟨rest, hagent, hlatin1, hkeys, hlurl, ofList_ne_empty (by simp), hlsha,
    ofList_ne_empty hne, hlsize⟩

theorem manifest_given {m : OtaManifest} (hm : m.Valid) {artifactUrl releaseUrl : List Char}
    {data : List (String × Json)}
    (h : Stores manifestKeys ManifestFields.holds ⟨some m.schemaVersion, some m.product,
      some m.channel, some m.platform, some m.apiVersion, some m.updateApiVersion, some m.version,
      some (artifactUrl, m.artifactSha256, m.artifactSize), some releaseUrl⟩ data) :
    ∃ url rest, AgentUrl url true ∧ latin1 ("https://".toList ++ url) = artifactUrl ∧
      AgentUrl rest false ∧ latin1 ("https://".toList ++ rest) = releaseUrl ∧
      m.version.length ≤ 64 ∧ SignedReleaseManifest.Given
        ⟨1, "plaf203-state-agent", "stable", String.ofList m.version, 1, 1, "linux-armv7-eabihf",
          ⟨String.ofList ("https://".toList ++ url), String.ofList m.artifactSha256,
            m.artifactSize⟩, String.ofList ("https://".toList ++ rest)⟩ data := by
  obtain ⟨vschema, hlschema, hschema⟩ := rel_some (h.holds "schema_version" (by decide))
  obtain ⟨vproduct, hlproduct, hproduct⟩ := rel_some (h.holds "product" (by decide))
  obtain ⟨vchannel, hlchannel, hchannel⟩ := rel_some (h.holds "channel" (by decide))
  obtain ⟨vplatform, hlplatform, hplatform⟩ := rel_some (h.holds "platform" (by decide))
  obtain ⟨vapi, hlapi, hapi⟩ := rel_some (h.holds "api_version" (by decide))
  obtain ⟨vupdate, hlupdate, hupdate⟩ := rel_some (h.holds "update_api_version" (by decide))
  obtain ⟨vversion, hlversion, hversion⟩ := rel_some (h.holds "version" (by decide))
  obtain ⟨vartifact, hlartifact, fields, rfl, hfields⟩ := rel_some (h.holds "artifact" (by decide))
  obtain ⟨vrelease, hlrelease, hrelease⟩ := rel_some (h.holds "release_url" (by decide))
  have hkeys : keysAre manifestKeys data = true := by
    refine keysAre_of_members h.members ?_
    simp [manifestKeys, hlschema, hlproduct, hlchannel, hlplatform, hlapi, hlupdate, hlversion,
      hlartifact, hlrelease]
  rw [hm.product] at hproduct
  rw [hm.channel] at hchannel
  rw [hm.platform] at hplatform
  rw [IsCount, hm.schemaVersion] at hschema
  rw [IsCount, hm.apiVersion] at hapi
  rw [IsCount, hm.updateApiVersion] at hupdate
  obtain ⟨v, hv⟩ := parseSemverStrict_iff.mp hm.version
  have hascii : ∀ c ∈ m.version, c.toNat < 128 := by
    rw [← hv]
    exact fun c hc => toNat_lt_of_mem_text hc
  have hversion_ne : m.version ≠ [] := by
    intro hnil
    have hparse := hm.version
    rw [hnil] at hparse
    cases hparse
  have hsha256 : ∀ c ∈ m.artifactSha256, c.toNat < 128 :=
    fun c hc => toNat_lt_of_isLowerHex (all_eq_true.mp hm.artifactSha256 c hc)
  have hne : m.artifactSha256 ≠ [] := by
    intro hnil
    have hlen := hm.length_artifactSha256
    rw [hnil] at hlen
    cases hlen
  obtain rfl := eq_str_of_isText hproduct (lt_of_isAscii (by decide))
  obtain rfl := eq_str_of_isText hchannel (lt_of_isAscii (by decide))
  obtain rfl := eq_str_of_isText hplatform (lt_of_isAscii (by decide))
  obtain rfl := eq_str_of_isText hversion hascii
  obtain ⟨rest, rfl, hagent, hlatin1⟩ := exists_rest_of_isUrl hrelease
  obtain ⟨url, hurl, hurlLatin1, hartifact⟩ := artifact_given hfields hsha256 hne
  subst hschema hapi hupdate
  exact ⟨url, rest, hurl, hurlLatin1, hagent, hlatin1, hversion.1, hkeys, hlschema, hlproduct,
    by simp, hlchannel, by simp, hlversion, ofList_ne_empty hversion_ne, hlapi, hlupdate,
    hlplatform, by simp, ⟨fields, hlartifact, hartifact⟩, hlrelease, ofList_ne_empty (by simp)⟩

end Stored

/-! ### The inclusion -/

/-- **What the agent accepts is accepted by the add-on**, with the same version, hash and size, and
is a JSON text, exactly if it is UTF-8 and tidy and the URLs that the agent reads have hosts. -/
theorem agent_manifest_included {checkNetloc : List Char → Option String} {raw : Bytes}
    {m : OtaManifest} (haccepted : parseManifestV1 raw = some m) :
    ((∃ text v, decodeUtf8 raw = some text ∧ JsonText none v text) ∧
      ∃ manifest, fromBytes checkNetloc raw = .ok manifest ∧
        manifest.version.toList = m.version ∧
        manifest.artifact.sha256.toList = m.artifactSha256 ∧
        manifest.artifact.size = m.artifactSize) ↔
      ∃ text, decodeUtf8 raw = some text ∧ Tidy text ∧
        ∀ url, latin1 url ∈ scannedUrls raw → hasHost checkNetloc url = true := by
  have hm := of_parseManifestV1 haccepted
  constructor
  · rintro ⟨⟨text, v, hutf8, htext⟩, manifest, hfrom, -⟩
    have htidy := tidy_of_jsonText htext
    refine ⟨text, hutf8, htidy, fun url' hurl' => ?_⟩
    obtain rfl := decodeUtf8_eq_some.mp hutf8
    obtain ⟨data, artifactUrl, releaseUrl, hjson, hscanned, hstores⟩ :=
      parseManifestV1_reads htidy haccepted
    obtain ⟨url, rest, -, rfl, -, rfl, -, hgiven⟩ := manifest_given hm hstores
    rw [fromBytes_eq hjson hstores.members.unique hgiven, checkManifest_eq_ok_iff] at hfrom
    obtain ⟨⟨-, -, -, -, -, -, -, ⟨u, hu⟩, ⟨w, hw⟩, -, -⟩, -⟩ := hfrom
    rw [String.toList_ofList] at hu hw
    rw [hscanned, mem_pair] at hurl'
    rcases hurl' with hurl' | hurl'
    · rw [latin1_inj.mp hurl']
      exact hasHost_iff.mpr ⟨u, (of_checkHttpsUrl hu).1, (of_checkHttpsUrl hu).2.1⟩
    · rw [latin1_inj.mp hurl']
      exact hasHost_iff.mpr ⟨w, (of_checkHttpsUrl hw).1, (of_checkHttpsUrl hw).2.1⟩
  · rintro ⟨text, hutf8, htidy, hhosts⟩
    obtain rfl := decodeUtf8_eq_some.mp hutf8
    obtain ⟨data, artifactUrl, releaseUrl, hjson, hscanned, hstores⟩ :=
      parseManifestV1_reads htidy haccepted
    obtain ⟨url, rest, hurl, rfl, hrest, rfl, hlength, hgiven⟩ := manifest_given hm hstores
    rw [hscanned] at hhosts
    have hversion : ∃ components, semverComponents m.version = .ok components := by
      obtain ⟨v, hv⟩ := parseSemverStrict_iff.mp hm.version
      rw [← hv] at hlength ⊢
      exact semverComponents_of_length_le (hlength.trans (by decide))
    have hsha256 : isSha256 m.artifactSha256 = true := by
      rw [isSha256, Bool.and_eq_true, beq_iff_eq]
      exact ⟨hm.length_artifactSha256, hm.artifactSha256⟩
    have hfrom : fromBytes checkNetloc (utf8 text) = _ :=
      fromBytes_eq hjson hstores.members.unique hgiven
    refine ⟨⟨text, _, hutf8, hjson.standard⟩, _,
      hfrom.trans (checkManifest_eq_ok_iff.mpr ⟨?_, rfl⟩), String.toList_ofList,
      String.toList_ofList, rfl⟩
    refine ⟨rfl, rfl, rfl, rfl, rfl, rfl, ?_, ?_, ?_, ?_, ?_⟩
    · rwa [String.toList_ofList]
    · rw [String.toList_ofList]
      exact checkHttpsUrl_of_valid hurl (hhosts _ mem_cons_self)
    · rw [String.toList_ofList]
      exact checkHttpsUrl_of_valid hrest (hhosts _ (mem_cons_of_mem _ mem_cons_self))
    · rwa [String.toList_ofList]
    · exact Int.natCast_pos.mpr hm.artifactSize_pos

/-- The manifest of version 1.1.0, with something before the closing brace. -/
def sampleManifestText (before : List Char) : List Char :=
  "\x7b\"schema_version\":1,".toList ++ "\"product\":\"plaf203-state-agent\",".toList ++
    "\"channel\":\"stable\",".toList ++ "\"version\":\"1.1.0\",".toList ++
    "\"api_version\":1,".toList ++ "\"update_api_version\":1,".toList ++
    "\"platform\":\"linux-armv7-eabihf\",".toList ++
    "\"artifact\":\x7b\"url\":\"https://x/y\",".toList ++ "\"sha256\":\"".toList ++
    List.replicate 64 '0' ++ "\",\"size\":52\x7d,".toList ++
    "\"release_url\":\"https://x/z\"".toList ++ before ++ ['}']

/-- What the agent reads of it. -/
def sampleOtaManifest : OtaManifest :=
  ⟨1, "plaf203-state-agent".toList, "stable".toList, "linux-armv7-eabihf".toList, 1, 1,
    "1.1.0".toList, List.replicate 64 '0', 52⟩

/-- A manifest that both accept. -/
theorem agent_manifest_included_sample :
    parseManifestV1 (utf8 (sampleManifestText [])) = some sampleOtaManifest ∧
      (∃ text v, decodeUtf8 (utf8 (sampleManifestText [])) = some text ∧ JsonText none v text) ∧
      ∃ manifest, fromBytes (fun _ => none) (utf8 (sampleManifestText [])) = .ok manifest ∧
        manifest.version.toList = "1.1.0".toList ∧
        manifest.artifact.sha256.toList = List.replicate 64 '0' ∧ manifest.artifact.size = 52 := by
  obtain ⟨haccepted, hvt, hff, hcomma, hscanned⟩ :
      parseManifestV1 (utf8 (sampleManifestText [])) = some sampleOtaManifest ∧
        '\x0b' ∉ sampleManifestText [] ∧ '\x0c' ∉ sampleManifestText [] ∧
        trailingComma .outside (sampleManifestText []) = false ∧
        scannedUrls (utf8 (sampleManifestText [])) =
          ["https://x/y".toList, "https://x/z".toList] := by
    decide +kernel
  refine ⟨haccepted, (agent_manifest_included haccepted).mpr
    ⟨_, decodeUtf8_eq_some.mpr rfl, ⟨hvt, hff, hcomma⟩, fun url hurl => ?_⟩⟩
  rw [hscanned, mem_pair] at hurl
  rcases hurl with hurl | hurl
  · rw [eq_of_latin1_eq (lt_of_isAscii (by decide)) hurl]
    decide
  · rw [eq_of_latin1_eq (lt_of_isAscii (by decide)) hurl]
    decide

/-- **A comma before the closing brace**: the agent accepts the manifest, it is no JSON, and the
add-on refuses it. -/
theorem agent_manifest_comma :
    (utf8 (sampleManifestText [','])).length ≤ 16384 ∧
      parseManifestV1 (utf8 (sampleManifestText [','])) = some sampleOtaManifest ∧
      (¬ ∃ v, JsonText none v (sampleManifestText [','])) ∧
      ∀ checkNetloc, fromBytes checkNetloc (utf8 (sampleManifestText [','])) =
        .error (.updateValidationError "manifest JSON is invalid") := by
  obtain ⟨hlength, haccepted, hloads⟩ : (utf8 (sampleManifestText [','])).length ≤ 16384 ∧
      parseManifestV1 (utf8 (sampleManifestText [','])) = some sampleOtaManifest ∧
      ∀ lim ∈ [none, some 4300], (loads lim (sampleManifestText [','])).isNone = true := by
    decide +kernel
  refine ⟨hlength, haccepted, ?_, fun checkNetloc => ?_⟩
  · rintro ⟨v, hv⟩
    have hnone := hloads none (by decide)
    rw [loads_of_jsonText hv] at hnone
    cases hnone
  · have hnone : jsonLoads (sampleManifestText [',']) = none :=
      Option.isNone_iff_eq_none.mp (hloads (some 4300) (by decide))
    rw [fromBytes, decodeUtf8_eq_some.mpr rfl]
    simp only [hnone]

end PetlibroLocal.Updates
