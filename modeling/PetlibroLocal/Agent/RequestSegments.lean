import PetlibroLocal.Agent.RequestHead

/-!
# A Request Does Not Depend on How It Arrives

The bytes of a request come in pieces, and `parse_http_request` looks for the end of the headers
after each of them. Where the bytes are cut does not matter: the request is the same, and the bytes
of the body that were read with the headers are followed by those that were not read yet.

The main results are `findHeaderEnd_spec`, `finishRequest_spec` and `request_from_any_reads`.
-/

namespace PetlibroLocal.Agent

open Memory Delivery List

/-! ### The end of the headers -/

/-- The bytes up to and including the first empty line. -/
structure IsHeaderBlock (block : Bytes) : Prop where
  ends : headerEnd <:+ block
  first : ¬ headerEnd <:+: block.dropLast

theorem IsHeaderBlock.four_le {block : Bytes} (h : IsHeaderBlock block) : 4 ≤ block.length :=
  h.ends.length_le

theorem IsHeaderBlock.find_append {block : Bytes} (h : IsHeaderBlock block) (rest : Bytes) :
    find headerEnd (block ++ rest) = some (block.length - 4) := by
  have hfour := h.four_le
  refine find_eq_some.mpr ⟨?_, ?_, fun j hj hin => h.first ?_⟩
  · obtain ⟨lines, rfl⟩ := h.ends
    have hlen : (lines ++ headerEnd).length - 4 = lines.length := by
      rw [length_append]
      rfl
    rw [hlen, append_assoc, drop_left]
    exact prefix_append _ _
  · rw [length_append]
    omega
  · -- an earlier occurrence would lie in front of the last byte of the block
    have htake : headerEnd = ((block.dropLast).drop j).take 4 := by
      rw [dropLast_eq_take, drop_take, take_take,
        Nat.min_eq_left (by omega : 4 ≤ block.length - 1 - j)]
      have := prefix_iff_eq_take.mp hin
      rwa [drop_append_of_le_length (by omega), take_append_of_le_length
        (by rw [length_drop]; change 4 ≤ _; omega)] at this
    rw [htake]
    exact ( take_prefix _ _).isInfix.trans (drop_suffix _ _).isInfix

theorem findHeaderEndFrom_spec (acc tail : Bytes) {i n : ℕ} (hn : (acc.drop i).length - 3 = n) :
    findHeaderEndFrom i n (acc ++ tail) =
      some ((find headerEnd (acc.drop i)).map (i + ·), acc ++ tail) := by
  induction n generalizing i with
  | zero =>
    cases hfind : find headerEnd (acc.drop i) with
    | none => rfl
    | some k =>
      have hk : k + 4 ≤ (acc.drop i).length := length_of_find hfind
      omega
  | succ n ih =>
    rw [length_drop] at hn
    have hdrop : (acc ++ tail).drop i = acc.drop i ++ tail := drop_append_of_le_length (by omega)
    have hload : loadAll i 4 (acc ++ tail) = some ((acc.drop i).take 4, acc ++ tail) := by
      rw [loadAll, if_pos (by rw [length_append]; omega), hdrop,
        take_append_of_le_length (by rw [length_drop]; omega)]
    have hstep : findHeaderEndFrom i (n + 1) (acc ++ tail) =
        if (acc.drop i).take 4 = headerEnd then some (some i, acc ++ tail)
        else findHeaderEndFrom (i + 1) n (acc ++ tail) := by
      rw [findHeaderEndFrom, bind_of_eq hload]
      by_cases hhere : (acc.drop i).take 4 = headerEnd
      · rw [if_pos hhere, if_pos hhere]
        rfl
      · rw [if_neg hhere, if_neg hhere]
    have hcons : acc.drop i = acc[i] :: acc.drop (i + 1) := drop_eq_getElem_cons (by omega)
    have hstarts : headerEnd <+: acc.drop i ↔ (acc.drop i).take 4 = headerEnd :=
      prefix_iff_eq_take.trans eq_comm
    rw [hstep]
    by_cases hhere : (acc.drop i).take 4 = headerEnd
    · rw [if_pos hhere, find_of_start (hstarts.mpr hhere)]
      rfl
    · rw [if_neg hhere, ih (by rw [length_drop]; omega)]
      rw [← hstarts, hcons] at hhere
      rw [hcons, find, if_neg hhere, Option.map_map]
      congr 3
      funext k
      exact (Nat.add_assoc i 1 k).trans (congrArg (i + ·) (Nat.add_comm 1 k))

/-- **The search for the end of the headers**, over the part of the buffer that is used. -/
theorem findHeaderEnd_spec (acc tail : Bytes) :
    findHeaderEnd acc.length (acc ++ tail) = some (find headerEnd acc, acc ++ tail) := by
  have h := findHeaderEndFrom_spec acc tail (i := 0) rfl
  rw [drop_zero] at h
  rw [findHeaderEnd, h]
  congr 2
  cases find headerEnd acc with
  | none => rfl
  | some k => exact congrArg some (Nat.zero_add k)

/-! ### The buffer -/

/-- The buffer holds these bytes, and has space for a NUL behind them. -/
structure Str.Holds (s : Str) (acc : Bytes) : Prop where
  len : s.len = acc.length
  starts : acc <+: s.buf
  room : acc.length < s.buf.length

theorem exists_doubleCap (platform : Platform) {need fuel cap : ℕ} (hneed : need ≤ 32768)
    (hcap : 0 < cap) (hfuel : need < cap + fuel) (hpos : 0 < fuel) :
    ∃ cap', doubleCap platform need fuel cap = some cap' ∧ need ≤ cap' ∧ cap ≤ cap' := by
  induction fuel generalizing cap with
  | zero => exact absurd hpos (Nat.lt_irrefl 0)
  | succ fuel ih =>
    rw [doubleCap]
    by_cases hle : need ≤ cap
    · exact ⟨cap, if_pos hle, hle, Nat.le_refl cap⟩
    · have hmax := platform.sizeMax_ge
      rw [if_neg hle, if_neg (by omega)]
      obtain ⟨cap', hcap', hneed', hle'⟩ :=
        ih (by omega : 0 < cap * 2) (by omega) (by omega)
      exact ⟨cap', hcap', hneed', by omega⟩

theorem Str.Holds.reserve {s : Str} {acc : Bytes} (h : s.Holds acc) (platform : Platform)
    (heap : ℕ → UInt8) (add : ℕ) (hadd : acc.length + add + 1 ≤ 32768) :
    ∃ s', strReserve platform heap s add = some s' ∧ s'.Holds acc ∧
      acc.length + add < s'.buf.length := by
  have hmax := platform.sizeMax_ge
  have hroom := h.room
  have hneed : s.len + add + 1 ≤ 32768 := by
    rw [h.len]
    exact hadd
  have hfuel : s.len + add + 1 < s.buf.length + (s.len + add + 1 + 1) := by omega
  obtain ⟨cap, hcap, hneed, hle⟩ :=
    exists_doubleCap platform hneed (by omega) hfuel (Nat.succ_pos _)
  have hlength : (realloc heap s.buf cap).length = cap := by
    rw [realloc, length_append, length_map, length_drop, length_range]
    omega
  have hlen := h.len
  refine ⟨⟨realloc heap s.buf cap, s.len⟩, ?_, ⟨h.len, ?_, ?_⟩, ?_⟩
  · simp only [strReserve]
    rw [if_neg (by omega), hcap]
    rfl
  · exact h.starts.trans (prefix_append _ _)
  · rw [hlength]
    omega
  · rw [hlength]
    omega

theorem Str.Holds.append {s : Str} {acc chunk : Bytes} (h : s.Holds acc)
    (hroom : acc.length + chunk.length < s.buf.length) :
    ∃ buf buf', storeAll s.len chunk s.buf = some ((), buf) ∧
      store (s.len + chunk.length) 0 buf = some ((), buf') ∧
      Str.Holds ⟨buf', s.len + chunk.length⟩ (acc ++ chunk) := by
  obtain ⟨tail, htail⟩ := h.starts
  have hlen : s.len = acc.length := h.len
  rw [← htail, length_append] at hroom
  have hbuf : s.buf.take s.len ++ chunk ++ s.buf.drop (s.len + chunk.length) =
      acc ++ chunk ++ tail.drop chunk.length := by
    rw [← htail, hlen, take_left, ← drop_drop, drop_left]
  have hbig : (acc ++ chunk).length < (acc ++ chunk ++ tail.drop chunk.length).length := by
    rw [length_append, length_append, length_append, length_drop]
    omega
  refine ⟨acc ++ chunk ++ tail.drop chunk.length,
    (acc ++ chunk ++ tail.drop chunk.length).set (acc ++ chunk).length 0, ?_, ?_, ?_⟩
  · rw [storeAll, if_pos (by rw [← htail, length_append]; omega), hbuf]
  · rw [store, hlen, ← length_append, if_pos hbig]
  · refine ⟨?_, ?_, ?_⟩
    · rw [hlen, length_append]
    · rw [set_append_right _ _ (Nat.le_refl _)]
      exact prefix_append _ _
    · rw [length_set]
      exact hbig

/-! ### The request -/

/-- The request in a header block, which nothing follows. -/
def requestOf (platform : Platform) (block : Bytes) : Except String RequestHead :=
  match parseLines platform (block.length - 4) (block.take (block.length - 2) ++ [0]) with
  | none => .error ""
  | some (request, _) => request

theorem isTerminated_take {acc : Bytes} {k : ℕ} (h : k ≤ acc.length) :
    Terminated 0 k (acc.take k ++ [(0 : UInt8)]) := by
  have hlen : (acc.take k).length = k := length_take_of_le h
  refine ⟨?_, ?_⟩
  · rw [length_append, hlen]
    rfl
  · rw [List.getElem?_append_right (Nat.le_of_eq hlen), hlen, Nat.sub_self]
    rfl

/-- **The request depends on the headers only**, and the bytes behind them are kept. -/
theorem finishRequest_spec (platform : Platform) {raw : Str} {acc : Bytes} (h : raw.Holds acc)
    {k : ℕ} (hk : k + 4 ≤ acc.length) (socket : List (Event UInt8)) :
    ∃ prefetched,
      finishRequest platform raw k socket =
        some ⟨requestOf platform (acc.take (k + 4)), prefetched, socket⟩ ∧
      ((requestOf platform (acc.take (k + 4))).isOk = true → prefetched = acc.drop (k + 4)) := by
  obtain ⟨tail, htail⟩ := h.starts
  obtain ⟨request, m', hm', -, hrun⟩ :=
    confined_parseLines platform k (acc.take (k + 2) ++ [0]) (isTerminated_take (by omega))
  have hrequest : requestOf platform (acc.take (k + 4)) = request := by
    have hlen : (acc.take (k + 4)).length = k + 4 := length_take_of_le hk
    have hblock := hrun []
    rw [append_nil] at hblock
    rw [requestOf, hlen, Nat.add_sub_cancel, take_take,
      show min (k + 4 - 2) (k + 4) = k + 2 by omega, hblock]
  have hstore : store (k + 2) 0 raw.buf =
      some ((), acc.take (k + 2) ++ [0] ++ (acc.drop (k + 3) ++ tail)) := by
    rw [store, ← htail, if_pos (by rw [length_append]; omega),
      set_append_left _ _ (by omega), set_eq_take_append_cons_drop,
      if_pos (by omega), append_assoc, append_assoc]
    rfl
  have hload : loadAll (k + 4) (raw.len - (k + 4)) (m' ++ (acc.drop (k + 3) ++ tail)) =
      some (acc.drop (k + 4), m' ++ (acc.drop (k + 3) ++ tail)) := by
    have hdrop : (m' ++ (acc.drop (k + 3) ++ tail)).drop (k + 4) = acc.drop (k + 4) ++ tail := by
      rw [drop_append, drop_eq_nil_of_le (by rw [hm'.length]; omega), hm'.length,
        nil_append, show k + 4 - (k + 2 + 1) = 1 by omega,
        drop_append_of_le_length (by rw [length_drop]; omega), drop_drop]
    have hfits : k + 4 + (raw.len - (k + 4)) ≤ (m' ++ (acc.drop (k + 3) ++ tail)).length := by
      rw [length_append, length_append, length_drop, hm'.length, h.len]
      omega
    rw [loadAll, if_pos hfits, hdrop, h.len, ← length_drop, take_left]
  rw [hrequest]
  simp only [finishRequest, hstore, hrun, Option.bind_eq_bind, Option.bind_some]
  cases request with
  | error e =>
    refine ⟨[], rfl, fun hok => ?_⟩
    cases hok
  | ok req =>
    refine ⟨acc.drop (k + 4), ?_, fun _ => rfl⟩
    simp only [hload, Option.bind_some]
    rfl

/-! ### The loop -/

variable {platform : Platform} {heap : ℕ → UInt8}

/-- What is to be shown of a result: if the stream starts with a header block, it is the request
in there, and the bytes behind it are not lost. -/
def ParsedRequest.Expected (result : ParsedRequest) (platform : Platform) (stream : Bytes) : Prop :=
  ∀ block rest, IsHeaderBlock block → block.length ≤ maxRequestHeaders → stream = block ++ rest →
    result.request = requestOf platform block ∧
      (result.request.isOk = true → result.prefetched ++ delivered result.socket = rest)

theorem ParsedRequest.Expected.of_missing {stream acc : Bytes} (hacc : acc <+: stream)
    (hfind : find headerEnd acc = none)
    (hlast : maxRequestHeaders ≤ acc.length ∨ stream.length ≤ acc.length)
    (result : ParsedRequest) : result.Expected platform stream := by
  rintro block rest hblock hlen rfl
  have hfour := hblock.four_le
  have hall := find_of_isPrefix hacc (hblock.find_append rest)
  have hheader : headerEnd.length = 4 := rfl
  rw [hfind, hheader] at hall
  rw [length_append] at hlast
  rw [if_pos (by omega)] at hall
  cases hall

theorem parseLoop_spec {fuel : ℕ} {raw : Str} {acc : Bytes} {socket : List (Event UInt8)}
    (h : raw.Holds acc) (hfuel : maxRequestHeaders < acc.length + fuel) (hpos : 0 < fuel) :
    ∃ result, parseLoop platform heap fuel raw socket = some result ∧
      result.Expected platform (acc ++ delivered socket) := by
  induction fuel generalizing raw acc socket with
  | zero => exact absurd hpos (Nat.lt_irrefl 0)
  | succ fuel ih =>
    have hsearch : findHeaderEnd raw.len raw.buf = some (find headerEnd acc, raw.buf) := by
      obtain ⟨tail, htail⟩ := h.starts
      rw [h.len, ← htail, findHeaderEnd_spec]
    have hacc : acc <+: acc ++ delivered socket := prefix_append _ _
    simp only [parseLoop, hsearch, Option.bind_eq_bind, Option.bind_some]
    cases hfind : find headerEnd acc with
    | some k =>
      have hk : k + 4 ≤ acc.length := length_of_find hfind
      obtain ⟨prefetched, hfinish, hok⟩ := finishRequest_spec platform h hk socket
      refine ⟨_, hfinish, ?_⟩
      rintro block rest hblock - hstream
      -- the block that was found is the first one of the stream
      have hfour := hblock.four_le
      have hall := find_of_isPrefix hacc (hstream ▸ hblock.find_append rest)
      obtain ⟨hle, hkeq⟩ : block.length - 4 + 4 ≤ acc.length ∧ k = block.length - 4 := by
        rw [hfind] at hall
        obtain ⟨hle, hkeq⟩ := Option.ite_none_right_eq_some.mp hall.symm
        exact ⟨hle, (Option.some.inj hkeq).symm⟩
      have hlen : k + 4 = block.length := by omega
      have htake : acc.take (k + 4) = block := by
        have := congrArg (List.take (k + 4)) hstream
        rwa [take_append_of_le_length hk, hlen, take_left, ← hlen] at this
      rw [htake] at hok ⊢
      refine ⟨rfl, fun hreq => ?_⟩
      rw [hok hreq]
      have := congrArg (List.drop (k + 4)) hstream
      rwa [drop_append_of_le_length hk, hlen, drop_left, ← hlen] at this
    | none =>
      by_cases hlong : maxRequestHeaders ≤ raw.len
      · simp only [if_pos hlong]
        exact ⟨_, rfl, .of_missing hacc hfind (.inl (h.len ▸ hlong)) _⟩
      simp only [if_neg hlong]
      have hshort : acc.length < maxRequestHeaders := by
        rw [← h.len]
        omega
      have hread := readOnce_spec (by omega : 0 < 1024) socket
      cases hchunk : readOnce 1024 socket with
      | none =>
        rw [hchunk] at hread
        refine ⟨_, rfl, .of_missing hacc hfind (.inr ?_) _⟩
        rw [hread, append_nil]
      | some r =>
        obtain ⟨chunk, socket'⟩ := r
        rw [hchunk] at hread
        obtain ⟨hle, hend, hmore⟩ := hread
        cases chunk with
        | nil =>
          refine ⟨_, rfl, .of_missing hacc hfind (.inr ?_) _⟩
          rw [hend rfl, append_nil]
        | cons b chunk =>
          have hmax : maxRequestHeaders = 16384 := rfl
          obtain ⟨raw', hraw', hholds, hroom⟩ :=
            h.reserve platform heap (b :: chunk).length (by omega)
          obtain ⟨buf, buf', hstoreAll, hstore, hnext⟩ := hholds.append hroom
          have hlength : (acc ++ b :: chunk).length = acc.length + chunk.length + 1 :=
            length_append
          obtain ⟨result, hresult, hexpected⟩ :=
            @ih _ _ socket' hnext (by omega) (by omega)
          refine ⟨result, ?_, ?_⟩
          · simp only [hraw', hstoreAll, hstore, Option.bind_some, hresult]
          · rwa [append_assoc, hmore (cons_ne_nil b chunk)] at hexpected

theorem parseHttpRequest_spec (platform : Platform) (heap : ℕ → UInt8)
    (socket : List (Event UInt8)) :
    ∃ result, parseHttpRequest platform heap socket = some result ∧
      result.Expected platform (delivered socket) := by
  have hlength : (realloc heap [] 4096).length = 4096 := by
    rw [realloc, nil_append, length_map, length_drop, length_range]
    rfl
  have hinit : strInit heap = some ⟨(realloc heap [] 4096).set 0 0, 0⟩ := by
    rw [strInit, store, hlength]
    rfl
  have hholds : Str.Holds ⟨(realloc heap [] 4096).set 0 0, 0⟩ [] :=
    ⟨rfl, nil_prefix, by rw [length_set, hlength]; decide⟩
  rw [parseHttpRequest, hinit]
  have hfuel : maxRequestHeaders < ([] : Bytes).length + (maxRequestHeaders + 1) := by decide
  exact parseLoop_spec hholds hfuel (Nat.succ_pos _)

/-- **The request does not depend on how its bytes arrive.** Whatever the reads return, no access is
out of bounds. If the stream starts with a header block of at most `MAX_REQUEST_HEADERS` bytes, the
answer is determined by that block: not by what follows, by the reads, or by what the memory held
before; and a request that is accepted keeps the bytes behind the block, those that were read with
it and then those that were not read yet. -/
theorem request_from_any_reads (platform : Platform) {block : Bytes} (hblock : IsHeaderBlock block)
    (hlen : block.length ≤ maxRequestHeaders) :
    (∀ heap socket, ∃ result, parseHttpRequest platform heap socket = some result) ∧
    ∃ request : Except String RequestHead, ∀ heap socket rest,
      delivered socket = block ++ rest →
      ∃ prefetched unread,
        parseHttpRequest platform heap socket = some ⟨request, prefetched, unread⟩ ∧
        (request.isOk = true → prefetched ++ delivered unread = rest) := by
  constructor
  · intro heap socket
    obtain ⟨result, hresult, -⟩ := parseHttpRequest_spec platform heap socket
    exact ⟨result, hresult⟩
  · refine ⟨requestOf platform block, fun heap socket rest hstream => ?_⟩
    obtain ⟨⟨request, prefetched, unread⟩, hresult, hexpected⟩ :=
      parseHttpRequest_spec platform heap socket
    obtain ⟨hrequest, hrest⟩ := hexpected block rest hblock hlen hstream
    cases hrequest
    exact ⟨prefetched, unread, hresult, hrest⟩

/-- The headers of a request with a body of three bytes. -/
def sampleHead : Bytes :=
  "POST /v1/update HTTP/1.1\r\nContent-Length: 3\r\n\r\n".toList.map fun c => UInt8.ofNat c.toNat

/-- The feeder, with 32 bits. -/
def feederPlatform : Platform := ⟨2 ^ 32 - 1, by decide⟩

/-- A request that arrives at once, and byte by byte. -/
theorem request_from_any_reads_sample :
    ∃ request : Except String RequestHead,
      (∃ prefetched unread, parseHttpRequest feederPlatform (fun _ => 0xff)
          [.data (sampleHead ++ [0x61, 0x62, 0x63])] = some ⟨request, prefetched, unread⟩) ∧
      ∃ prefetched unread,
        parseHttpRequest feederPlatform (fun _ => 0)
          (((sampleHead ++ [0x61, 0x62, 0x63]).map ([·])).map .data) =
            some ⟨request, prefetched, unread⟩ := by
  have hblock : IsHeaderBlock sampleHead := ⟨by decide +kernel, by decide +kernel⟩
  obtain ⟨-, request, hrequest⟩ := request_from_any_reads feederPlatform hblock (by decide +kernel)
  obtain ⟨prefetched, unread, hwhole, -⟩ := hrequest (fun _ => 0xff)
    [.data (sampleHead ++ [0x61, 0x62, 0x63])] [0x61, 0x62, 0x63] rfl
  obtain ⟨prefetched', unread', hbytes, -⟩ := hrequest (fun _ => 0)
    (((sampleHead ++ [0x61, 0x62, 0x63]).map ([·])).map .data) [0x61, 0x62, 0x63] rfl
  exact ⟨request, ⟨prefetched, unread, hwhole⟩, prefetched', unread', hbytes⟩

end PetlibroLocal.Agent
