import PetlibroLocal.Agent.UpdateFrame
import PetlibroLocal.Updates.Semver

/-!
# The Frame of an Update

`build_update_frame` of the add-on writes what `handle_update_post` of the state agent reads.

The main results are `buildUpdateFrame_inj` and `update_frame_round_trip`.
-/

namespace PetlibroLocal.Updates

open Agent Delivery List

/-- `build_update_frame`. -/
def buildUpdateFrame (manifestBytes signatureBytes artifactBytes : Bytes) :
    Except UpdateError Bytes :=
  if signatureBytes.length ≠ 64 then
    .error (.updateValidationError "manifest signature must be 64 bytes")
  else if manifestBytes.length = 0 ∨ artifactBytes.length = 0 then
    .error (.updateValidationError "manifest and artifact must be non-empty")
  else if [manifestBytes.length, signatureBytes.length, artifactBytes.length].any
      (fun length => 0xFFFFFFFF < length) then
    .error (.updateValidationError "update frame component is too large")
  else
    let header := otaHeaderMagic ++ (beBytes 4 manifestBytes.length ++
      beBytes 4 signatureBytes.length ++ beBytes 4 artifactBytes.length)
    .ok (header ++ manifestBytes ++ signatureBytes ++ artifactBytes)

/-- The components that make a frame. -/
structure FrameParts (manifestBytes signatureBytes artifactBytes : Bytes) : Prop where
  signature : signatureBytes.length = 64
  manifest_pos : 0 < manifestBytes.length
  manifest_le : manifestBytes.length ≤ 0xFFFFFFFF
  artifact_pos : 0 < artifactBytes.length
  artifact_le : artifactBytes.length ≤ 0xFFFFFFFF

theorem buildUpdateFrame_eq_ok {m s a frame : Bytes} :
    buildUpdateFrame m s a = .ok frame ↔
      FrameParts m s a ∧ frameHeader m.length otaSigLen a.length ++ (m ++ (s ++ a)) = frame := by
  have hframe : s.length = 64 → frameHeader m.length otaSigLen a.length ++ (m ++ (s ++ a)) =
      otaHeaderMagic ++ (beBytes 4 m.length ++ beBytes 4 s.length ++ beBytes 4 a.length) ++ m ++
        s ++ a := by
    intro hs
    rw [frameHeader, otaSigLen, ← hs]
    simp only [append_assoc]
  simp only [buildUpdateFrame, ite_error_eq_ok, Except.ok.injEq]
  constructor
  · rintro ⟨hs, hpos, hmax, rfl⟩
    have hs : s.length = 64 := not_not.mp hs
    simp only [any_cons, any_nil, Bool.or_false, Bool.or_eq_true, decide_eq_true_eq,
      not_or, Nat.not_lt] at hmax
    exact ⟨⟨hs, by omega, hmax.1, by omega, hmax.2.2⟩, hframe hs⟩
  · rintro ⟨h, rfl⟩
    have hm := h.manifest_pos
    have ha := h.artifact_pos
    refine ⟨not_not.mpr h.signature, by omega, ?_, (hframe h.signature).symm⟩
    simp [h.signature, h.manifest_le, h.artifact_le]

/-- **A frame is made of one manifest, signature and artifact only.** -/
theorem buildUpdateFrame_inj {m s a m' s' a' frame : Bytes}
    (h : buildUpdateFrame m s a = .ok frame) (h' : buildUpdateFrame m' s' a' = .ok frame) :
    m = m' ∧ s = s' ∧ a = a' := by
  obtain ⟨hparts, hframe⟩ := buildUpdateFrame_eq_ok.mp h
  obtain ⟨hparts', hframe'⟩ := buildUpdateFrame_eq_ok.mp h'
  have hword : ∀ {n}, n ≤ 0xFFFFFFFF → n < 256 ^ 4 := fun hn => Nat.lt_of_le_of_lt hn (by decide)
  obtain ⟨hheader, hbody⟩ := append_inj (hframe.trans hframe'.symm) (by simp)
  -- The lengths can be read off the headers, and they tell where the components end.
  obtain ⟨-, hm, -, -⟩ := frameHeader_fields (hword hparts.manifest_le)
    (by decide : otaSigLen < 256 ^ 4) (hword hparts.artifact_le)
  obtain ⟨-, hm', -, -⟩ := frameHeader_fields (hword hparts'.manifest_le)
    (by decide : otaSigLen < 256 ^ 4) (hword hparts'.artifact_le)
  rw [hheader, hm'] at hm
  obtain ⟨rfl, hrest⟩ := append_inj hbody hm.symm
  obtain ⟨rfl, rfl⟩ := append_inj hrest (hparts.signature.trans hparts'.signature.symm)
  exact ⟨rfl, rfl, rfl⟩

/-! ### Frames and the state agent -/

theorem receiveFrame_buildUpdateFrame {m s a frame : Bytes}
    (hframe : buildUpdateFrame m s a = .ok frame) (hm : m.length ≤ otaMaxManifestBytes)
    (ha : a.length ≤ otaMaxArtifactBytes) {req : HttpRequest} {prefetched : Bytes}
    {socket : List (Event UInt8)} (hreq : req.Ok frame.length)
    (hprefetched : prefetched.length ≤ frame.length)
    (hstream : frame <+: prefetched ++ delivered socket) :
    ∃ reader reader', receiveFrame req prefetched socket = .ok ⟨m, s, a.length, reader⟩ ∧
      (readArtifact reader a.length).1.flatten = a ∧
      (readArtifact reader a.length).2 = some reader' ∧ reader'.contentRemaining = 0 := by
  obtain ⟨hparts, hbytes⟩ := buildUpdateFrame_eq_ok.mp hframe
  obtain ⟨rest, hrest⟩ := hstream
  have hlength : 8 + 12 + m.length + otaSigLen + a.length = frame.length := by
    have hs := hparts.signature
    rw [← hbytes]
    simp only [length_append, length_frameHeader, otaSigLen]
    omega
  have hbody : prefetched ++ delivered socket =
      frameHeader m.length otaSigLen a.length ++ (m ++ (s ++ (a ++ rest))) := by
    rw [← hrest, ← hbytes]
    simp only [append_assoc]
  obtain ⟨reader, hreceive, hreader, hleft⟩ := receiveFrame_of_stream hreq hprefetched
    ⟨hparts.manifest_pos, hm, hparts.artifact_pos, ha, hlength⟩ hparts.signature hbody
  have hread := readArtifact_spec reader a.length
  cases hend : (readArtifact reader a.length).2 with
  | none =>
    rw [hend, hleft, hreader, length_append] at hread
    omega
  | some reader' =>
    rw [hend, hreader] at hread
    obtain ⟨hlen, happend, hremaining⟩ := hread
    exact ⟨reader, reader', hreceive, (append_inj happend hlen).1, hend, by omega⟩

theorem exists_append_of_le {n : ℕ} {l : Bytes} (h : n ≤ l.length) :
    ∃ x y, x ++ y = l ∧ x.length = n :=
  ⟨l.take n, l.drop n, take_append_drop n l, length_take_of_le h⟩

theorem exists_buildUpdateFrame {req : HttpRequest} {prefetched : Bytes}
    {socket : List (Event UInt8)} {head : FrameHead} {n : ℕ}
    (hhead : receiveHead req prefetched socket = .ok head) (hn : req.contentLength = some n)
    (hlen : n ≤ (prefetched ++ delivered socket).length) :
    ∃ m s a, buildUpdateFrame m s a = .ok ((prefetched ++ delivered socket).take n) := by
  obtain ⟨n', hreq, -, hok, hread⟩ := receiveHead_eq_ok.mp hhead
  obtain rfl : n' = n := Option.some.inj (hreq.contentLength.symm.trans hn)
  obtain ⟨-, hstream, -⟩ := BodyReader.of_readExact hread
  have hstream : frameHeader head.manifestLen otaSigLen head.artifactLen ++ head.reader.stream =
      prefetched ++ delivered socket := hstream
  have htotal := hok.total
  have hrest : head.manifestLen + otaSigLen + head.artifactLen ≤ head.reader.stream.length := by
    rw [← hstream, length_append, length_frameHeader] at hlen
    omega
  obtain ⟨m, rest₁, hm, hmlen⟩ := exists_append_of_le (n := head.manifestLen)
    (l := head.reader.stream) (by omega)
  have hlen₁ : otaSigLen + head.artifactLen ≤ rest₁.length := by
    rw [← hm, length_append] at hrest
    omega
  obtain ⟨s, rest₂, hs, hslen⟩ := exists_append_of_le (n := otaSigLen) (l := rest₁) (by omega)
  have hlen₂ : head.artifactLen ≤ rest₂.length := by
    rw [← hs, length_append] at hlen₁
    omega
  obtain ⟨a, rest₃, ha, halen⟩ := exists_append_of_le hlen₂
  have hparts : FrameParts m s a :=
    ⟨hslen, hmlen ▸ hok.manifest_pos, hmlen ▸ hok.manifest_le.trans (by decide),
      halen ▸ hok.artifact_pos, halen ▸ hok.artifact_le.trans (by decide)⟩
  refine ⟨m, s, a, buildUpdateFrame_eq_ok.mpr ⟨hparts, ?_⟩⟩
  have hbody : prefetched ++ delivered socket =
      (frameHeader m.length otaSigLen a.length ++ (m ++ (s ++ a))) ++ rest₃ := by
    rw [← hstream, ← hm, ← hs, ← ha, hmlen, halen]
    simp only [append_assoc]
  rw [hbody, take_left']
  simp only [length_append, length_frameHeader]
  omega

/-- **Frames and the state agent.** -/
theorem update_frame_round_trip :
    (∀ m s a : Bytes, 0 < m.length → m.length ≤ 16384 → s.length = 64 → 0 < a.length →
      a.length ≤ 32 * 1024 * 1024 →
      ∃ frame, buildUpdateFrame m s a = .ok frame ∧
        ∀ (req : HttpRequest) (prefetched : Bytes) (socket : List (Event UInt8)),
          req.Ok frame.length → prefetched.length ≤ frame.length →
          frame <+: prefetched ++ delivered socket →
          ∃ reader reader', receiveFrame req prefetched socket = .ok ⟨m, s, a.length, reader⟩ ∧
            (readArtifact reader a.length).1.flatten = a ∧
            (readArtifact reader a.length).2 = some reader' ∧ reader'.contentRemaining = 0) ∧
    (∀ (req : HttpRequest) (prefetched : Bytes) (socket : List (Event UInt8))
        (frame : ReceivedFrame) (reader' : BodyReader) (candidateVersion : List Char),
      receiveFrame req prefetched socket = .ok frame →
      (readArtifact frame.reader frame.artifactLen).2 = some reader' →
      finishUpload reader' candidateVersion = .ok candidateVersion) ∧
    (∀ (req : HttpRequest) (prefetched : Bytes) (socket : List (Event UInt8)) (head : FrameHead)
        (n : ℕ), receiveHead req prefetched socket = .ok head → req.contentLength = some n →
      n ≤ (prefetched ++ delivered socket).length →
      ∃! parts : Bytes × Bytes × Bytes, buildUpdateFrame parts.1 parts.2.1 parts.2.2 =
        .ok ((prefetched ++ delivered socket).take n)) := by
  refine ⟨fun m s a hm hm' hs ha ha' => ?_, fun req prefetched socket frame reader' version
    hreceive hend => ?_, fun req prefetched socket head n hhead hn hlen => ?_⟩
  · have hframe := buildUpdateFrame_eq_ok.mpr
      ⟨⟨hs, hm, hm'.trans (by decide), ha, ha'.trans (by decide)⟩, rfl⟩
    exact ⟨_, hframe, fun req prefetched socket hreq hprefetched hstream =>
      receiveFrame_buildUpdateFrame hframe hm' ha' hreq hprefetched hstream⟩
  · rw [finishUpload, if_neg (not_not.mpr (contentRemaining_eq_zero hreceive hend))]
  · obtain ⟨m, s, a, hframe⟩ := exists_buildUpdateFrame hhead hn hlen
    refine ⟨(m, s, a), hframe, fun parts hparts => ?_⟩
    obtain ⟨rfl, rfl, rfl⟩ := buildUpdateFrame_inj hparts hframe
    rfl

/-- A small frame that arrives in one piece, behind an interrupted read. -/
theorem update_frame_round_trip_small :
    ∃ frame reader, buildUpdateFrame [0x7b] (List.replicate 64 0) [0x7f] = .ok frame ∧
      receiveFrame ⟨false, some frame.length, "application/octet-stream".toList⟩ []
        [.interrupted, .data frame] = .ok ⟨[0x7b], List.replicate 64 0, 1, reader⟩ := by
  obtain ⟨frame, hframe, hread⟩ := update_frame_round_trip.1 [0x7b] (List.replicate 64 0) [0x7f]
    (by decide) (by decide) length_replicate (by decide) (by decide)
  have hne : frame ≠ [] := by
    obtain ⟨-, rfl⟩ := buildUpdateFrame_eq_ok.mp hframe
    intro hnil
    have hlength := congrArg List.length hnil
    rw [length_append, length_frameHeader] at hlength
    simp at hlength
  have hdelivered : delivered [.interrupted, .data frame] = frame := by
    rw [delivered, delivered_data hne, delivered, append_nil]
  have htype : octetStream "application/octet-stream".toList = true := by decide
  obtain ⟨reader, -, hreceive, -⟩ := hread
    ⟨false, some frame.length, "application/octet-stream".toList⟩ [] [.interrupted, .data frame]
    ⟨rfl, rfl, htype⟩ (Nat.zero_le _) (by rw [hdelivered]; exact prefix_rfl)
  exact ⟨frame, reader, hframe, hreceive⟩

end PetlibroLocal.Updates
