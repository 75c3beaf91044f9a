import PetlibroLocal.Lib.ByteChars
import PetlibroLocal.Lib.Memory
import PetlibroLocal.Agent.UpdateFrame

/-!
# The Head of a Request

`parse_http_request`, which reads a request up to the end of its headers. The bytes are collected in
a growing buffer; as soon as the two line ends behind the headers are there, the lines are cut apart
in the buffer, by writing NULs into it, while the same buffer still holds the first bytes of the
body. Every access to a buffer is checked, and one that is out of bounds makes the model fail, as
does a loop that does not end and a size that does not fit into `size_t`; memory that was never
written holds anything. Allocation succeeds.
-/

namespace PetlibroLocal.Agent

open Memory Delivery

/-! ### The request -/

/-- `HttpRequest`. -/
structure RequestHead where
  method : Bytes := []
  target : Bytes := []
  version : Bytes := []
  authorization : Bytes := []
  contentType : Bytes := []
  contentLength : Option ℕ := none
  hasTransferEncoding : Bool := false
  deriving DecidableEq, Repr

/-- The sizes of the platform: `SIZE_MAX` is at least 65535 in every implementation of C. -/
structure Platform where
  sizeMax : ℕ
  sizeMax_ge : 65535 ≤ sizeMax

/-! ### Library functions -/

/-- `isspace` of a byte. -/
def isSpaceByte (b : UInt8) : Bool := isSpace (Char.ofNat b.toNat)

/-- A conversion `%<width>s` of `sscanf`: the word, and what follows it. -/
def scanWord (width : ℕ) (s : Bytes) : Option (Bytes × Bytes) :=
  let s := s.dropWhile isSpaceByte
  let word := (s.takeWhile (!isSpaceByte ·)).take width
  if word = [] then none else some (word, s.drop word.length)

/-- `sscanf` with the format `%7s %255s %15s`, when it converts all three. -/
def scanRequestLine (s : Bytes) : Option (Bytes × Bytes × Bytes) := do
  let (method, s) ← scanWord 7 s
  let (target, s) ← scanWord 255 s
  let (version, _) ← scanWord 15 s
  return (method, target, version)

/-- Copies a text with its NUL to an array of `size` characters. -/
def copyText (size : ℕ) (s : Bytes) : Option Bytes := if s.length + 1 ≤ size then some s else none

/-- `snprintf` of a text to an array of `size` characters. -/
def snprintfText (size : ℕ) (s : Bytes) : Bytes := s.take (size - 1)

/-- The loop of `parse_size_t_decimal`, in 64 bits. -/
def parseDigits : ℕ → Bytes → Option ℕ
  | value, [] => some value
  | value, b :: s =>
    if b < 0x30 ∨ 0x39 < b then none
    else
      let d := b.toNat - 0x30
      if (2 ^ 64 - 1 - d) / 10 < value then none else parseDigits (value * 10 + d) s

/-- `parse_size_t_decimal`. -/
def parseSizeTDecimal (platform : Platform) (s : Bytes) : Option ℕ :=
  if s = [] then none else (parseDigits 0 s).filter (· ≤ platform.sizeMax)

/-- `"\r\n"`. -/
def crlf : Bytes := [0x0d, 0x0a]

/-- `"\r\n\r\n"`. -/
def headerEnd : Bytes := crlf ++ crlf

/-! ### Cutting the lines apart -/

/-- The second loop of `trim_inplace`: white space at the end of the `n` bytes at `p` is
overwritten. -/
def trimEnd (p : ℕ) : ℕ → Access UInt8 Unit
  | 0 => pure ()
  | n + 1 => do
    let b ← load (p + n)
    if isSpaceByte b then
      store (p + n) 0
      trimEnd p n

/-- `trim_inplace`: where the text starts that is left. -/
def trimInplaceAt (p : ℕ) : Access UInt8 ℕ := do
  let s ← loadText 0 p
  let start := p + (s.takeWhile isSpaceByte).length
  trimEnd start (s.dropWhile isSpaceByte).length
  return start

/-- What a header changes. -/
def RequestHead.setHeader (platform : Platform) (req : RequestHead) (name value : Bytes) :
    Except String RequestHead :=
  if ciEqual (byteChars name) "authorization".toList then
    .ok { req with authorization := snprintfText 320 value }
  else if ciEqual (byteChars name) "content-type".toList then
    .ok { req with contentType := snprintfText 128 value }
  else if ciEqual (byteChars name) "content-length".toList then
    if req.contentLength.isSome then .error "duplicate content-length"
    else
      match parseSizeTDecimal platform value with
      | none => .error "bad content-length"
      | some parsed => .ok { req with contentLength := some parsed }
  else if ciEqual (byteChars name) "transfer-encoding".toList then
    .ok { req with hasTransferEncoding := true }
  else .ok req

/-- The loop over the header lines, from `cursor` on. -/
def parseHeaders (platform : Platform) :
    ℕ → ℕ → RequestHead → Access UInt8 (Except String RequestHead)
  | 0, _, _ => demand none
  | fuel + 1, cursor, req => do
    let b ← load cursor
    if b = 0 then return .ok req
    else
      let s ← loadText 0 cursor
      match find crlf s with
      | none => return .ok req
      | some k => do
        let next := cursor + k
        store next 0
        let b ← load cursor
        if b = 0 then parseHeaders platform fuel (next + 2) req
        else
          let s ← loadText 0 cursor
          match s.idxOf? 0x3a with
          | none => return .error "malformed header"
          | some j => do
            let colon := cursor + j
            store colon 0
            let nameAt ← trimInplaceAt cursor
            let valueAt ← trimInplaceAt (colon + 1)
            let name ← loadText 0 nameAt
            let value ← loadText 0 valueAt
            match req.setHeader platform name value with
            | .error e => return .error e
            | .ok req => parseHeaders platform fuel (next + 2) req

/-- The request line and the headers, once the NUL is written behind them. -/
def parseLines (platform : Platform) (hdrLen : ℕ) : Access UInt8 (Except String RequestHead) := do
  let s ← loadText 0 0
  match find crlf s with
  | none => return .error "malformed request line"
  | some lineEnd => do
    store lineEnd 0
    let line ← loadText 0 0
    match scanRequestLine line with
    | none => return .error "malformed request line"
    | some (method, target, version) => do
      let method ← demand (copyText 8 method)
      let target ← demand (copyText 256 target)
      let version ← demand (copyText 16 version)
      parseHeaders platform (hdrLen + 3) (lineEnd + 2) { method, target, version }

/-! ### The lines are cut apart in place -/

section Lines

variable {n : ℕ}

theorem confined_trimEnd {p k : ℕ} (h : p + k ≤ n) : Confined 0 n (trimEnd p k) fun _ => True := by
  induction k with
  | zero => exact .pure trivial
  | succ k ih =>
    rw [trimEnd]
    refine .bind (.load (by omega)) fun b _ => ?_
    by_cases hb : isSpaceByte b = true
    · rw [if_pos hb]
      exact .bind (.store (by omega)) fun _ _ => ih (by omega)
    · rw [if_neg hb]
      exact .pure trivial

theorem confined_trimInplaceAt {p : ℕ} (h : p ≤ n) :
    Confined 0 n (trimInplaceAt p) fun start => start ≤ n := by
  refine .bind (.loadText h) fun s hs => ?_
  have hsplit : (s.takeWhile isSpaceByte).length + (s.dropWhile isSpaceByte).length = s.length := by
    rw [← List.length_append, List.takeWhile_append_dropWhile]
  exact .bind (confined_trimEnd (by omega)) fun _ _ => .pure (by omega)

theorem confined_parseHeaders (platform : Platform) {fuel cursor : ℕ} (req : RequestHead)
    (hcursor : cursor ≤ n) (hfuel : n < cursor + fuel) :
    Confined 0 n (parseHeaders platform fuel cursor req) fun _ => True := by
  induction fuel generalizing cursor req with
  | zero => omega
  | succ fuel ih =>
    rw [parseHeaders]
    refine .bind (.load hcursor) fun b _ => ?_
    by_cases hb : b = 0
    · rw [if_pos hb]
      exact .pure trivial
    rw [if_neg hb]
    refine .bind (.loadText hcursor) fun s hs => ?_
    cases hfind : find crlf s with
    | none => exact .pure trivial
    | some k =>
      have hk : k + 2 ≤ s.length := length_of_find hfind
      refine .bind (.store (by omega)) fun _ _ => .bind (.load hcursor) fun b _ => ?_
      by_cases hb : b = 0
      · rw [if_pos hb]
        exact ih req (by omega) (by omega)
      rw [if_neg hb]
      refine .bind (.loadText hcursor) fun s' hs' => ?_
      cases hcolon : s'.idxOf? 0x3a with
      | none => exact .pure trivial
      | some j =>
        have hj : j < s'.length := (List.idxOf?_eq_some_iff.mp hcolon).1
        refine .bind (.store (by omega)) fun _ _ =>
          .bind (confined_trimInplaceAt hcursor) fun nameAt hname =>
          .bind (confined_trimInplaceAt (by omega)) fun valueAt hvalue =>
          .bind (.loadText hname) fun name _ => .bind (.loadText hvalue) fun value _ => ?_
        cases req.setHeader platform name value with
        | error e => exact .pure trivial
        | ok req => exact ih req (by omega) (by omega)

theorem copyText_of_scanWord {width : ℕ} {s word rest : Bytes}
    (h : scanWord width s = some (word, rest)) : copyText (width + 1) word = some word := by
  simp only [scanWord, Option.ite_none_left_eq_some, Option.some.injEq, Prod.mk.injEq] at h
  have hword := List.length_take_le width
    ((s.dropWhile isSpaceByte).takeWhile (!isSpaceByte ·))
  rw [h.2.1] at hword
  exact if_pos (Nat.succ_le_succ hword)

/-- **Cutting the lines apart touches nothing behind the headers.** -/
theorem confined_parseLines (platform : Platform) (hdrLen : ℕ) :
    Confined 0 (hdrLen + 2) (parseLines platform hdrLen) fun _ => True := by
  refine .bind (.loadText (Nat.zero_le _)) fun s hs => ?_
  cases hfind : find crlf s with
  | none => exact .pure trivial
  | some lineEnd =>
    have hline : lineEnd + 2 ≤ s.length := length_of_find hfind
    refine .bind (.store (by omega)) fun _ _ =>
      .bind (.loadText (Nat.zero_le _)) fun line _ => ?_
    cases hscan : scanRequestLine line with
    | none => exact .pure trivial
    | some words =>
      obtain ⟨method, target, version⟩ := words
      simp only [scanRequestLine, Option.bind_eq_bind, Option.bind_eq_some_iff] at hscan
      obtain ⟨⟨m, s₁⟩, hm, ⟨t, s₂⟩, ht, ⟨v, s₃⟩, hv, hwords⟩ := hscan
      obtain ⟨rfl, rfl, rfl⟩ : m = method ∧ t = target ∧ v = version := by
        simpa using hwords
      exact .bind (.demand (copyText_of_scanWord hm)) fun m _ =>
        .bind (.demand (copyText_of_scanWord ht)) fun t _ =>
        .bind (.demand (copyText_of_scanWord hv)) fun v _ =>
        confined_parseHeaders platform _ (by omega) (by omega)

end Lines

/-! ### Reading -/

/-- `Str`: the block, of `cap` bytes, and how many of them are used. -/
structure Str where
  buf : Bytes
  len : ℕ

/-- The contents of a block of `n` bytes that starts with `buf`, as `realloc` returns it. -/
def realloc (heap : ℕ → UInt8) (buf : Bytes) (n : ℕ) : Bytes :=
  buf ++ ((List.range n).drop buf.length).map heap

/-- `str_init`. -/
def strInit (heap : ℕ → UInt8) : Option Str := do
  let ((), buf) ← store 0 0 (realloc heap [] 4096)
  return ⟨buf, 0⟩

/-- The loop of `str_reserve`. -/
def doubleCap (platform : Platform) (need : ℕ) : ℕ → ℕ → Option ℕ
  | 0, _ => none
  | fuel + 1, cap =>
    if need ≤ cap then some cap
    else if platform.sizeMax < cap * 2 then none
    else doubleCap platform need fuel (cap * 2)

/-- `str_reserve`. -/
def strReserve (platform : Platform) (heap : ℕ → UInt8) (s : Str) (add : ℕ) : Option Str := do
  let need := s.len + add + 1
  if platform.sizeMax < need then none
  else
    let cap ← doubleCap platform need (need + 1) s.buf.length
    return ⟨realloc heap s.buf cap, s.len⟩

/-- The loop of `find_header_end` over `n` positions from `i` on. -/
def findHeaderEndFrom (i : ℕ) : ℕ → Access UInt8 (Option ℕ)
  | 0 => pure none
  | n + 1 => do
    let four ← loadAll i 4
    if four = headerEnd then return some i else findHeaderEndFrom (i + 1) n

/-- `find_header_end`. -/
def findHeaderEnd (len : ℕ) : Access UInt8 (Option ℕ) := findHeaderEndFrom 0 (len - 3)

/-- `MAX_REQUEST_HEADERS`. -/
def maxRequestHeaders : ℕ := 16384

/-- What `parse_http_request` returns: the request or an error, the bytes of the body that it has
read, and the socket. -/
structure ParsedRequest where
  request : Except String RequestHead
  prefetched : Bytes
  socket : List (Event UInt8)

/-- The end of `parse_http_request`, when the headers are there. -/
def finishRequest (platform : Platform) (raw : Str) (hdrLen : ℕ) (socket : List (Event UInt8)) :
    Option ParsedRequest := do
  let ((), buf) ← store (hdrLen + 2) 0 raw.buf
  let (request, buf) ← parseLines platform hdrLen buf
  match request with
  | .error e => return ⟨.error e, [], socket⟩
  | .ok req => do
    let (prefetched, _) ← loadAll (hdrLen + 4) (raw.len - (hdrLen + 4)) buf
    return ⟨.ok req, prefetched, socket⟩

/-- The loop of `parse_http_request`. -/
def parseLoop (platform : Platform) (heap : ℕ → UInt8) :
    ℕ → Str → List (Event UInt8) → Option ParsedRequest
  | 0, _, _ => none
  | fuel + 1, raw, socket => do
    let (found, _) ← findHeaderEnd raw.len raw.buf
    match found with
    | some hdrLen => finishRequest platform raw hdrLen socket
    | none =>
      if maxRequestHeaders ≤ raw.len then
        return ⟨.error "request headers too large", [], socket⟩
      else
        match readOnce 1024 socket with
        | none => return ⟨.error "read failed", [], socket⟩
        | some ([], socket) => return ⟨.error "connection closed", [], socket⟩
        | some (chunk, socket) => do
          let raw ← strReserve platform heap raw chunk.length
          let ((), buf) ← storeAll raw.len chunk raw.buf
          let ((), buf) ← store (raw.len + chunk.length) 0 buf
          parseLoop platform heap fuel ⟨buf, raw.len + chunk.length⟩ socket

/-- `parse_http_request`. -/
def parseHttpRequest (platform : Platform) (heap : ℕ → UInt8) (socket : List (Event UInt8)) :
    Option ParsedRequest := do
  let raw ← strInit heap
  parseLoop platform heap (maxRequestHeaders + 1) raw socket

end PetlibroLocal.Agent
