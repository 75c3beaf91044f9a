import PetlibroLocal.Lib.Bytes
import PetlibroLocal.Lib.Checked
import PetlibroLocal.Lib.Delivery
import PetlibroLocal.Agent.CompareSemver

/-!
# The Body of an Update Request

The first part of `handle_update_post`: the headers are checked, and the body is taken apart into
the manifest, its signature and the artifact. The body starts with the bytes that were read
together with the headers; the rest comes from the socket. The buffer of the manifest, of at most
16384 bytes, is allocated.
-/

namespace PetlibroLocal.Agent

open Delivery List

/-! ### The request and the answer -/

/-- What the handler reads of the headers. -/
structure HttpRequest where
  hasTransferEncoding : Bool
  contentLength : Option ℕ
  contentType : List Char

/-- The answer to a request that is refused: the status with its text, and the error. -/
structure HttpError where
  status : ℕ
  text : String
  error : String
  deriving DecidableEq, Repr

/-- The answer: an error, or 202 with the candidate version. -/
abbrev Response := Except HttpError (List Char)

/-- An answer with status 400. -/
def badRequest (error : String) : HttpError := ⟨400, "Bad Request", error⟩

/-- An answer with status 413. -/
def payloadTooLarge (error : String) : HttpError := ⟨413, "Payload Too Large", error⟩

/-- `trim_inplace`. -/
def trimInplace (s : List Char) : List Char :=
  ((s.dropWhile isSpace).reverse.dropWhile isSpace).reverse

/-- `ci_equal`. -/
def ciEqual (a b : List Char) : Bool := a.map Char.toLower == b.map Char.toLower

/-- The check of the content type, which is copied to a buffer of 128 bytes. -/
def octetStream (contentType : List Char) : Bool :=
  ciEqual (trimInplace (contentType.take 127)) "application/octet-stream".toList

/-! ### Reading the body -/

/-- `BodyReader`: what is left of the bytes read with the headers, the socket, and what is left
of the body. -/
structure BodyReader where
  prefetched : Bytes
  socket : List (Event UInt8)
  contentRemaining : ℕ

namespace BodyReader

/-- The bytes that the reader can still get. -/
def stream (r : BodyReader) : Bytes := r.prefetched ++ delivered r.socket

/-- `body_read_exact`. The bytes read with the headers come first. -/
def readExact (r : BodyReader) (len : ℕ) : Option (Bytes × BodyReader) :=
  if r.contentRemaining < len then none
  else
    (Delivery.readExact (len - r.prefetched.length) r.socket).map fun (bytes, socket) =>
      (r.prefetched.take len ++ bytes, ⟨r.prefetched.drop len, socket, r.contentRemaining - len⟩)

end BodyReader

/-- `OTA_HEADER_MAGIC`, which is `PLAFOTA1`. -/
def otaHeaderMagic : Bytes := [0x50, 0x4c, 0x41, 0x46, 0x4f, 0x54, 0x41, 0x31]

/-- `OTA_SIG_LEN`. -/
def otaSigLen : ℕ := 64

/-- `OTA_MAX_MANIFEST_BYTES`. -/
def otaMaxManifestBytes : ℕ := 16 * 1024

/-- `OTA_MAX_ARTIFACT_BYTES`. -/
def otaMaxArtifactBytes : ℕ := 32 * 1024 * 1024

/-- `u32be_from`. -/
def u32beFrom (buf : Bytes) : ℕ := beValue (buf.take 4)

/-- The checks of the header: the lengths of the manifest and of the artifact. -/
def frameLengths (contentLength : ℕ) (header : Bytes) : Except HttpError (ℕ × ℕ) :=
  let manifestLen := u32beFrom (header.drop 8)
  let sigLen := u32beFrom (header.drop 12)
  let artifactLen := u32beFrom (header.drop 16)
  if header.take 8 ≠ otaHeaderMagic then .error (badRequest "invalid ota header magic")
  else if manifestLen = 0 then .error (badRequest "manifest must not be empty")
  else if otaMaxManifestBytes < manifestLen then .error (payloadTooLarge "manifest too large")
  else if sigLen ≠ otaSigLen then .error (badRequest "invalid signature length")
  else if artifactLen = 0 ∨ otaMaxArtifactBytes < artifactLen then
    .error (payloadTooLarge "artifact size out of bounds")
  else if 8 + 12 + manifestLen + sigLen + artifactLen ≠ contentLength then
    .error (badRequest "framed lengths do not match content-length")
  else .ok (manifestLen, artifactLen)

/-- What is known behind the header. -/
structure FrameHead where
  manifestLen : ℕ
  artifactLen : ℕ
  reader : BodyReader

/-- `handle_update_post` up to the checks of the lengths. -/
def receiveHead (req : HttpRequest) (prefetched : Bytes) (socket : List (Event UInt8)) :
    Except HttpError FrameHead :=
  if req.hasTransferEncoding then .error (badRequest "transfer-encoding not allowed")
  else
    match req.contentLength with
    | none => .error ⟨411, "Length Required", "content-length required"⟩
    | some contentLength =>
      if octetStream req.contentType = false then
        .error ⟨415, "Unsupported Media Type",
          "content-type must be application/octet-stream"⟩
      else if contentLength < 8 + 12 + otaSigLen then .error (badRequest "body too short")
      else if contentLength < prefetched.length then
        .error (badRequest "content-length mismatch")
      else
        match BodyReader.readExact ⟨prefetched, socket, contentLength⟩ 20 with
        | none => .error (badRequest "truncated ota header")
        | some (header, reader) =>
          (frameLengths contentLength header).map fun (manifestLen, artifactLen) =>
            ⟨manifestLen, artifactLen, reader⟩

/-- What is known before the artifact is read. -/
structure ReceivedFrame where
  manifestRaw : Bytes
  signature : Bytes
  artifactLen : ℕ
  reader : BodyReader

/-- `handle_update_post` up to the signature. -/
def receiveFrame (req : HttpRequest) (prefetched : Bytes) (socket : List (Event UInt8)) :
    Except HttpError ReceivedFrame :=
  match receiveHead req prefetched socket with
  | .error error => .error error
  | .ok head =>
    match head.reader.readExact head.manifestLen with
    | none => .error (badRequest "truncated manifest/signature")
    | some (manifestRaw, reader) =>
      match reader.readExact otaSigLen with
      | none => .error (badRequest "truncated manifest/signature")
      | some (signature, reader) => .ok ⟨manifestRaw, signature, head.artifactLen, reader⟩

/-- The blocks that the loop of `stage_update_candidate` reads, with at most `fuel` rounds, and
the reader behind the artifact if all of it could be read. -/
def readBlocks : ℕ → BodyReader → ℕ → List Bytes × Option BodyReader
  | _, reader, 0 => ([], some reader)
  | 0, _, _ + 1 => ([], none)
  | fuel + 1, reader, left + 1 =>
    match reader.readExact (min (left + 1) 8192) with
    | none => ([], none)
    | some (block, reader) =>
      let (blocks, reader) := readBlocks fuel reader (left + 1 - min (left + 1) 8192)
      (block :: blocks, reader)

/-- The loop of `stage_update_candidate`: each round reads a byte at least. -/
def readArtifact (reader : BodyReader) (artifactLen : ℕ) : List Bytes × Option BodyReader :=
  readBlocks artifactLen reader artifactLen

/-- The end of `handle_update_post`, behind the artifact. -/
def finishUpload (reader : BodyReader) (candidateVersion : List Char) : Response :=
  if reader.contentRemaining ≠ 0 then .error (badRequest "unexpected trailing data")
  else .ok candidateVersion

/-! ### Reads -/

namespace BodyReader

/-- **`body_read_exact` takes bytes off the front of the body**, and fails only if there are too
few. -/
theorem readExact_spec (r : BodyReader) (len : ℕ) :
    match r.readExact len with
    | none => r.contentRemaining < len ∨ r.stream.length < len
    | some (bytes, r') =>
      bytes.length = len ∧ bytes ++ r'.stream = r.stream ∧
        r'.contentRemaining + len = r.contentRemaining := by
  unfold readExact
  by_cases hlen : r.contentRemaining < len
  · rw [if_pos hlen]
    exact .inl hlen
  · rw [if_neg hlen]
    have hread := Delivery.readExact_spec (len - r.prefetched.length) r.socket
    cases h : Delivery.readExact (len - r.prefetched.length) r.socket with
    | none =>
      rw [h] at hread
      right
      rw [stream, length_append]
      omega
    | some result =>
      rw [h] at hread
      obtain ⟨hlength, hrest⟩ := hread
      refine ⟨?_, ?_, ?_⟩
      · rw [length_append, length_take, hlength]
        omega
      · rw [stream, stream, ← hrest]
        by_cases hshort : r.prefetched.length ≤ len
        · simp [take_of_length_le hshort, drop_of_length_le hshort]
        · have hnil : result.1 = [] := length_eq_zero_iff.mp (by omega)
          simp [hnil, ← append_assoc]
      · change r.contentRemaining - len + len = _
        omega

theorem of_readExact {r r' : BodyReader} {len : ℕ} {bytes : Bytes}
    (h : r.readExact len = some (bytes, r')) :
    bytes.length = len ∧ bytes ++ r'.stream = r.stream ∧
      r'.contentRemaining + len = r.contentRemaining := by
  have hspec := r.readExact_spec len
  rw [h] at hspec
  exact hspec

theorem exists_readExact {r : BodyReader} {bytes rest : Bytes}
    (hstream : r.stream = bytes ++ rest) (hlen : bytes.length ≤ r.contentRemaining) :
    ∃ r', r.readExact bytes.length = some (bytes, r') ∧ r'.stream = rest ∧
      r'.contentRemaining + bytes.length = r.contentRemaining := by
  have hspec := r.readExact_spec bytes.length
  cases h : r.readExact bytes.length with
  | none =>
    rw [h, hstream, length_append] at hspec
    omega
  | some result =>
    obtain ⟨taken, r'⟩ := result
    rw [h, hstream] at hspec
    obtain ⟨htaken, happend, hremaining⟩ := hspec
    obtain ⟨rfl, hrest⟩ := append_inj happend htaken
    exact ⟨r', rfl, hrest, hremaining⟩

end BodyReader

theorem readBlocks_spec {fuel left : ℕ} (r : BodyReader) (hfuel : left ≤ fuel) :
    match (readBlocks fuel r left).2 with
    | none => r.contentRemaining < left ∨ r.stream.length < left
    | some r' =>
      (readBlocks fuel r left).1.flatten.length = left ∧
        (readBlocks fuel r left).1.flatten ++ r'.stream = r.stream ∧
        r'.contentRemaining + left = r.contentRemaining := by
  induction fuel generalizing r left with
  | zero =>
    obtain rfl : left = 0 := Nat.le_zero.mp hfuel
    simp [readBlocks]
  | succ fuel ih =>
    cases left with
    | zero => simp [readBlocks]
    | succ left =>
      have hread := r.readExact_spec (min (left + 1) 8192)
      cases h : r.readExact (min (left + 1) 8192) with
      | none =>
        rw [h] at hread
        simp only [readBlocks, h]
        omega
      | some result =>
        obtain ⟨block, r₁⟩ := result
        rw [h] at hread
        obtain ⟨hblock, hstream, hremaining⟩ := hread
        have hlength : block.length + r₁.stream.length = r.stream.length := by
          rw [← hstream, length_append]
        have hshorter : left + 1 - min (left + 1) 8192 ≤ fuel := by omega
        have hrest := ih r₁ hshorter
        simp only [readBlocks, h]
        cases hend : (readBlocks fuel r₁ (left + 1 - min (left + 1) 8192)).2 with
        | none =>
          rw [hend] at hrest
          change r.contentRemaining < left + 1 ∨ r.stream.length < left + 1
          omega
        | some r₂ =>
          rw [hend] at hrest
          obtain ⟨hblocks, hstream₂, hremaining₂⟩ := hrest
          refine ⟨?_, ?_, ?_⟩
          · rw [flatten_cons, length_append, hblocks]
            omega
          · rw [flatten_cons, append_assoc, hstream₂, hstream]
          · omega

/-- **The loop over the artifact** reads it from the front of the body. -/
theorem readArtifact_spec (r : BodyReader) (artifactLen : ℕ) :
    match (readArtifact r artifactLen).2 with
    | none => r.contentRemaining < artifactLen ∨ r.stream.length < artifactLen
    | some r' =>
      (readArtifact r artifactLen).1.flatten.length = artifactLen ∧
        (readArtifact r artifactLen).1.flatten ++ r'.stream = r.stream ∧
        r'.contentRemaining + artifactLen = r.contentRemaining :=
  readBlocks_spec r (Nat.le_refl artifactLen)

/-! ### The header -/

/-- The header of a frame. -/
def frameHeader (manifestLen sigLen artifactLen : ℕ) : Bytes :=
  otaHeaderMagic ++ (beBytes 4 manifestLen ++ beBytes 4 sigLen ++ beBytes 4 artifactLen)

@[simp] theorem length_frameHeader (manifestLen sigLen artifactLen : ℕ) :
    (frameHeader manifestLen sigLen artifactLen).length = 20 := by
  rw [frameHeader, length_append, length_append, length_append, length_beBytes,
    length_beBytes, length_beBytes]
  rfl

theorem u32beFrom_append {v : ℕ} (hv : v < 256 ^ 4) (rest : Bytes) :
    u32beFrom (beBytes 4 v ++ rest) = v := by
  have htake : (beBytes 4 v ++ rest).take 4 = beBytes 4 v := take_left' (length_beBytes 4 v)
  rw [u32beFrom, htake, beValue_beBytes hv]

theorem drop_beBytes_append (v : ℕ) (rest : Bytes) : (beBytes 4 v ++ rest).drop 4 = rest :=
  drop_left' (length_beBytes 4 v)

variable {artifactLen : ℕ} {req : HttpRequest} {prefetched : Bytes} {socket : List (Event UInt8)}

theorem frameHeader_fields {manifestLen sigLen : ℕ} (hm : manifestLen < 256 ^ 4)
    (hs : sigLen < 256 ^ 4) (ha : artifactLen < 256 ^ 4) :
    (frameHeader manifestLen sigLen artifactLen).take 8 = otaHeaderMagic ∧
      u32beFrom ((frameHeader manifestLen sigLen artifactLen).drop 8) = manifestLen ∧
      u32beFrom ((frameHeader manifestLen sigLen artifactLen).drop 12) = sigLen ∧
      u32beFrom ((frameHeader manifestLen sigLen artifactLen).drop 16) = artifactLen := by
  have h₈ : (frameHeader manifestLen sigLen artifactLen).drop 8 =
      beBytes 4 manifestLen ++ (beBytes 4 sigLen ++ (beBytes 4 artifactLen ++ [])) := by
    rw [frameHeader, append_assoc, append_nil]
    exact drop_left' rfl
  have h₁₂ : (frameHeader manifestLen sigLen artifactLen).drop 12 =
      beBytes 4 sigLen ++ (beBytes 4 artifactLen ++ []) := by
    have h := congrArg (List.drop 4) h₈
    rwa [drop_drop, drop_beBytes_append] at h
  have h₁₆ : (frameHeader manifestLen sigLen artifactLen).drop 16 =
      beBytes 4 artifactLen ++ [] := by
    have h := congrArg (List.drop 4) h₁₂
    rwa [drop_drop, drop_beBytes_append] at h
  refine ⟨take_left' rfl, ?_, ?_, ?_⟩
  · rw [h₈, u32beFrom_append hm]
  · rw [h₁₂, u32beFrom_append hs]
  · rw [h₁₆, u32beFrom_append ha]

theorem eq_frameHeader {header : Bytes} (hlen : header.length = 20)
    (hmagic : header.take 8 = otaHeaderMagic) :
    header = frameHeader (u32beFrom (header.drop 8)) (u32beFrom (header.drop 12))
      (u32beFrom (header.drop 16)) := by
  have hfield : ∀ n, n ≤ 16 → beBytes 4 (u32beFrom (header.drop n)) = (header.drop n).take 4 := by
    intro n hn
    have hfour : ((header.drop n).take 4).length = 4 := by
      rw [length_take, length_drop]
      omega
    have hbytes := beBytes_beValue ((header.drop n).take 4)
    rwa [hfour] at hbytes
  have hnext : ∀ n, (header.drop n).take 4 ++ header.drop (n + 4) = header.drop n := by
    intro n
    rw [← drop_drop, take_append_drop]
  have hlast : header.drop 20 = [] := drop_eq_nil_of_le (by omega)
  rw [frameHeader, hfield 8 (by decide), hfield 12 (by decide), hfield 16 (by decide), ← hmagic]
  calc header = header.take 8 ++ header.drop 8 := (take_append_drop 8 header).symm
    _ = header.take 8 ++ ((header.drop 8).take 4 ++ ((header.drop 12).take 4 ++
        ((header.drop 16).take 4 ++ header.drop 20))) := by rw [hnext 16, hnext 12, hnext 8]
    _ = _ := by rw [hlast, append_nil, ← append_assoc ((header.drop 8).take 4)]

/-- The lengths that pass the checks, in a body of `contentLength` bytes. -/
structure FrameLengths (contentLength manifestLen artifactLen : ℕ) : Prop where
  manifest_pos : 0 < manifestLen
  manifest_le : manifestLen ≤ otaMaxManifestBytes
  artifact_pos : 0 < artifactLen
  artifact_le : artifactLen ≤ otaMaxArtifactBytes
  total : 8 + 12 + manifestLen + otaSigLen + artifactLen = contentLength

/-- **The checks of the header** accept the headers of frames with allowed lengths. -/
theorem frameLengths_eq_ok {contentLength manifestLen : ℕ} {header : Bytes}
    (hlen : header.length = 20) :
    frameLengths contentLength header = .ok (manifestLen, artifactLen) ↔
      header = frameHeader manifestLen otaSigLen artifactLen ∧
        FrameLengths contentLength manifestLen artifactLen := by
  simp only [frameLengths, ite_error_eq_ok, Except.ok.injEq, Prod.mk.injEq, not_not, not_or]
  constructor
  · rintro ⟨hmagic, hm, hm', hs, ⟨ha, ha'⟩, htotal, rfl, rfl⟩
    rw [hs] at htotal
    refine ⟨?_, Nat.pos_of_ne_zero hm, Nat.not_lt.mp hm', Nat.pos_of_ne_zero ha,
      Nat.not_lt.mp ha', htotal⟩
    rw [← hs]
    exact eq_frameHeader hlen hmagic
  · rintro ⟨rfl, h⟩
    have hm : manifestLen < 256 ^ 4 := Nat.lt_of_le_of_lt h.manifest_le (by decide)
    have ha : artifactLen < 256 ^ 4 := Nat.lt_of_le_of_lt h.artifact_le (by decide)
    obtain ⟨h₁, h₂, h₃, h₄⟩ := frameHeader_fields hm (by decide : otaSigLen < 256 ^ 4) ha
    rw [h₁, h₂, h₃, h₄]
    exact ⟨rfl, h.manifest_pos.ne', Nat.not_lt.mpr h.manifest_le, rfl,
      ⟨h.artifact_pos.ne', Nat.not_lt.mpr h.artifact_le⟩, h.total, rfl, rfl⟩

/-! ### The frame -/

/-- The headers of an update request with a body of `n` bytes. -/
structure HttpRequest.Ok (req : HttpRequest) (n : ℕ) : Prop where
  transferEncoding : req.hasTransferEncoding = false
  contentLength : req.contentLength = some n
  contentType : octetStream req.contentType = true

/-- **The requests that pass the checks of the lengths.** -/
theorem receiveHead_eq_ok {head : FrameHead} :
    receiveHead req prefetched socket = .ok head ↔
      ∃ n, req.Ok n ∧ prefetched.length ≤ n ∧
        FrameLengths n head.manifestLen head.artifactLen ∧
        BodyReader.readExact ⟨prefetched, socket, n⟩ 20 =
          some (frameHeader head.manifestLen otaSigLen head.artifactLen, head.reader) := by
  constructor
  · intro h
    unfold receiveHead at h
    obtain ⟨hencoding, h⟩ := ite_error_eq_ok.mp h
    cases hlength : req.contentLength with
    | none =>
      rw [hlength] at h
      simp at h
    | some n =>
      simp only [hlength, ite_error_eq_ok] at h
      obtain ⟨htype, -, hprefetched, h⟩ := h
      cases hread : BodyReader.readExact ⟨prefetched, socket, n⟩ 20 with
      | none =>
        rw [hread] at h
        simp at h
      | some result =>
        obtain ⟨header, reader⟩ := result
        have hheader := (BodyReader.of_readExact hread).1
        simp only [hread] at h
        cases hlengths : frameLengths n header with
        | error response =>
          rw [hlengths] at h
          simp [Except.map] at h
        | ok lengths =>
          obtain ⟨manifestLen, artifactLen⟩ := lengths
          rw [hlengths] at h
          cases h
          obtain ⟨rfl, hok⟩ := (frameLengths_eq_ok hheader).mp hlengths
          exact ⟨n, ⟨Bool.eq_false_iff.mpr hencoding, hlength, Bool.not_eq_false _ ▸ htype⟩,
            Nat.not_lt.mp hprefetched, hok, hread⟩
  · rintro ⟨n, hreq, hprefetched, hok, hread⟩
    have hlong : ¬ n < 8 + 12 + otaSigLen := by
      have := hok.total
      omega
    have hlengths := (frameLengths_eq_ok (length_frameHeader head.manifestLen otaSigLen
      head.artifactLen)).mpr ⟨rfl, hok⟩
    simp only [receiveHead, hreq.transferEncoding, hreq.contentLength, hreq.contentType, hread,
      if_neg hlong, if_neg (Nat.not_lt.mpr hprefetched), hlengths]
    rfl

/-- **A frame is received** if the body goes on with it, however it is cut into pieces. -/
theorem receiveFrame_of_stream {n : ℕ} {manifestRaw signature rest : Bytes} (hreq : req.Ok n)
    (hprefetched : prefetched.length ≤ n) (hok : FrameLengths n manifestRaw.length artifactLen)
    (hsig : signature.length = otaSigLen)
    (hstream : prefetched ++ delivered socket =
      frameHeader manifestRaw.length otaSigLen artifactLen ++
        (manifestRaw ++ (signature ++ rest))) :
    ∃ reader, receiveFrame req prefetched socket =
        .ok ⟨manifestRaw, signature, artifactLen, reader⟩ ∧
      reader.stream = rest ∧ reader.contentRemaining = artifactLen := by
  have htotal := hok.total
  obtain ⟨r₁, hread₁, hstream₁, hleft₁⟩ := @BodyReader.exists_readExact
    ⟨prefetched, socket, n⟩ _ _ hstream (by rw [length_frameHeader]; dsimp only; omega)
  rw [length_frameHeader] at hread₁ hleft₁
  have hhead : receiveHead req prefetched socket =
      .ok ⟨manifestRaw.length, artifactLen, r₁⟩ :=
    receiveHead_eq_ok.mpr ⟨n, hreq, hprefetched, hok, hread₁⟩
  obtain ⟨r₂, hread₂, hstream₂, hleft₂⟩ := BodyReader.exists_readExact hstream₁
    (by dsimp only at hleft₁; omega)
  obtain ⟨r₃, hread₃, hstream₃, hleft₃⟩ := BodyReader.exists_readExact hstream₂
    (by dsimp only at hleft₁; omega)
  rw [hsig] at hread₃ hleft₃
  refine ⟨r₃, ?_, hstream₃, by dsimp only at hleft₁; omega⟩
  simp only [receiveFrame, hhead, hread₂, hread₃]

/-- **What a received frame says about the body.** -/
theorem receiveFrame_eq_ok {frame : ReceivedFrame}
    (h : receiveFrame req prefetched socket = .ok frame) :
    ∃ n, req.Ok n ∧ FrameLengths n frame.manifestRaw.length frame.artifactLen ∧
      frame.signature.length = otaSigLen ∧
      prefetched ++ delivered socket =
        frameHeader frame.manifestRaw.length otaSigLen frame.artifactLen ++
          (frame.manifestRaw ++ (frame.signature ++ frame.reader.stream)) ∧
      frame.reader.contentRemaining = frame.artifactLen := by
  unfold receiveFrame at h
  cases hhead : receiveHead req prefetched socket with
  | error response =>
    rw [hhead] at h
    simp at h
  | ok head =>
    obtain ⟨n, hreq, -, hok, hread⟩ := receiveHead_eq_ok.mp hhead
    obtain ⟨-, hstream, hleft⟩ := BodyReader.of_readExact hread
    simp only [hhead] at h
    cases hread₂ : head.reader.readExact head.manifestLen with
    | none =>
      rw [hread₂] at h
      simp at h
    | some result =>
      obtain ⟨manifestRaw, r₂⟩ := result
      obtain ⟨hmanifest, hstream₂, hleft₂⟩ := BodyReader.of_readExact hread₂
      simp only [hread₂] at h
      cases hread₃ : r₂.readExact otaSigLen with
      | none =>
        rw [hread₃] at h
        simp at h
      | some result =>
        obtain ⟨signature, r₃⟩ := result
        obtain ⟨hsignature, hstream₃, hleft₃⟩ := BodyReader.of_readExact hread₃
        simp only [hread₃] at h
        cases h
        have htotal := hok.total
        dsimp only at hleft ⊢
        rw [hmanifest]
        refine ⟨n, hreq, hok, hsignature, ?_, by omega⟩
        rw [hstream₃, hstream₂, hstream]
        rfl

theorem contentRemaining_eq_zero {frame : ReceivedFrame} {reader' : BodyReader}
    (hreceive : receiveFrame req prefetched socket = .ok frame)
    (hend : (readArtifact frame.reader frame.artifactLen).2 = some reader') :
    reader'.contentRemaining = 0 := by
  obtain ⟨n, -, -, -, -, hleft⟩ := receiveFrame_eq_ok hreceive
  have hread := readArtifact_spec frame.reader frame.artifactLen
  rw [hend] at hread
  obtain ⟨-, -, hremaining⟩ := hread
  omega

end PetlibroLocal.Agent
