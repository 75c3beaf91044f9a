import PetlibroLocal.Lib.ByteChars
import PetlibroLocal.Updates.Manifest
import PetlibroLocal.Agent.TidyText

/-!
# What the Manifest Parser Reads

The state agent reads a manifest byte by byte. What it accepts of a tidy text is JSON: every part
of the parser reads a piece that the grammar derives, and what it stores is the value of that
piece. The parser sees the bytes of the text, `latin1`, and every statement is about the text
itself.
-/

namespace PetlibroLocal.Agent

open JsonGrammar Updates List

variable {t cs s : List Char} {outLen : ℕ}

/-! ### White space -/

theorem bytewise_isSpace : Bytewise isSpace := by
  refine ⟨false, fun c hc => ?_⟩
  rw [isSpace, decide_eq_false_iff_not]
  intro hmem
  have hascii : isAscii [' ', '\t', '\n', '\x0b', '\x0c', '\r'] = true := by decide
  have := lt_of_isAscii hascii c hmem
  omega

theorem quote_notMem_of_blank {ws : List Char} (h : Blank ws) : '"' ∉ ws := fun hmem => by
  cases h '"' hmem

/-- **White space of a tidy text** is white space of JSON. -/
theorem skipWs_reads (h : Tidy cs) :
    ∃ ws cs', cs = ws ++ cs' ∧ Blank ws ∧ skipWs (latin1 cs) = latin1 cs' ∧ skipWs cs = cs' ∧
      Tidy cs' := by
  have hsplit : cs = cs.takeWhile isSpace ++ cs.dropWhile isSpace :=
    takeWhile_append_dropWhile.symm
  have hblank : Blank (cs.takeWhile isSpace) := by
    intro c hc
    have hmem : c ∈ cs := takeWhile_subset _ hc
    refine isBlank_of_isSpace (mem_takeWhile hc) ?_ ?_
    · rintro rfl
      exact h.verticalTab hmem
    · rintro rfl
      exact h.formFeed hmem
  refine ⟨_, _, hsplit, hblank, latin1_dropWhile bytewise_isSpace cs, rfl, ?_⟩
  rw [hsplit] at h
  exact h.append (quote_notMem_of_blank hblank)

theorem skipWs_cons_reads {c : Char} (h : Tidy cs) (hc : c.toNat < 128) (hquote : c ≠ '"')
    (hskip : skipWs (latin1 cs) = c :: s) :
    ∃ ws cs', cs = ws ++ c :: cs' ∧ Blank ws ∧ latin1 cs' = s ∧ skipWs cs = c :: cs' ∧
      Tidy (c :: cs') ∧ Tidy cs' := by
  obtain ⟨ws, cs', rfl, hws, hskip', hself, htidy⟩ := skipWs_reads h
  rw [hskip'] at hskip
  obtain ⟨cs', rfl, rfl⟩ := latin1_eq_cons hc hskip
  exact ⟨ws, cs', rfl, hws, rfl, hself, htidy, htidy.cons hquote⟩

/-! ### Values -/

/-- What the parser reads is a value of JSON, which is as `R` says. -/
def ReadsAs {α : Type} (parse : List Char → Option (α × List Char)) (R : α → Json → Prop) : Prop :=
  ∀ cs x s, Tidy cs → parse (latin1 cs) = some (x, s) →
    ∃ ws v text cs', cs = ws ++ (text ++ cs') ∧ Blank ws ∧ Derives (some 4300) (.value v) text ∧
      R x v ∧ latin1 cs' = s ∧ Tidy cs'

/-- The value is a string that is seen as `x`, which a buffer of `outLen` has room for. -/
def IsText (outLen : ℕ) (x : List Char) (v : Json) : Prop :=
  x.length ≤ outLen ∧ ∃ t, v = .str (String.ofList t) ∧ latin1 t = x

/-- The value is a number. -/
def IsCount (n : ℕ) (v : Json) : Prop := v = .int n

/-- The value is a URL. -/
def IsUrl (immutable : Bool) (x : List Char) (v : Json) : Prop :=
  IsText 512 x v ∧ isValidManifestUrl x immutable = true

theorem of_scanJsonString {used : ℕ} {out rest : List Char}
    (h : scanJsonString outLen used s = some (out, rest)) :
    s = out ++ '"' :: rest ∧ (∀ c ∈ out, isUnescaped c = true) ∧
      (out = [] ∨ used + out.length < outLen) := by
  induction s generalizing used out with
  | nil => cases h
  | cons c s ih =>
    rw [scanJsonString] at h
    by_cases hquote : c = '"'
    · rw [if_pos hquote] at h
      cases h
      exact ⟨by rw [hquote, List.nil_append], List.forall_mem_nil _, .inl rfl⟩
    · rw [if_neg hquote] at h
      obtain ⟨hplain, h⟩ := Option.ite_none_left_eq_some.mp h
      rw [not_or, not_or] at hplain
      obtain ⟨⟨out', rest'⟩, hscan, heq⟩ := Option.map_eq_some_iff.mp h
      cases heq
      obtain ⟨rfl, hout, hlen⟩ := ih hscan
      refine ⟨rfl, List.forall_mem_cons.mpr ⟨?_, hout⟩, .inr ?_⟩
      · have hle : 0x20 ≤ c.toNat := by omega
        simp [isUnescaped, hle, hquote, hplain.1]
      · rw [List.length_cons]
        rcases hlen with rfl | hlen
        · rw [List.length_nil]
          omega
        · omega

theorem bytewise_isUnescaped : Bytewise isUnescaped := by
  refine ⟨true, fun c hc => ?_⟩
  have hle : 0x20 ≤ c.toNat := by omega
  have hquote : c ≠ '"' := by
    rintro rfl
    simp at hc
  have hback : c ≠ '\\' := by
    rintro rfl
    simp at hc
  simp [isUnescaped, hle, hquote, hback]

/-- **Strings**: no escapes and no control characters. -/
theorem parseJsonStringStrict_reads {out : List Char}
    (h : parseJsonStringStrict outLen (latin1 cs) = some (out, s)) :
    ∃ t cs', cs = '"' :: (t ++ '"' :: cs') ∧ latin1 t = out ∧ latin1 cs' = s ∧
      (∀ c ∈ t, isUnescaped c = true) ∧ out.length ≤ outLen := by
  unfold parseJsonStringStrict at h
  split at h
  · rename_i s₀ hquote
    obtain ⟨hs₀, hout, hlen⟩ := of_scanJsonString h
    subst hs₀
    obtain ⟨cs₁, rfl, hcs₁⟩ := latin1_eq_cons (by decide) hquote
    obtain ⟨t, cs', rfl, rfl, rfl⟩ := latin1_eq_append_cons (by decide) hcs₁
    refine ⟨t, cs', rfl, rfl, rfl, ?_, ?_⟩
    · rw [← all_eq_true, latin1_all bytewise_isUnescaped, all_eq_true] at hout
      exact hout
    · rcases hlen with hnil | hlen
      · rw [hnil]
        exact Nat.zero_le outLen
      · omega
  · cases h

theorem readsAs_string (outLen : ℕ) : ReadsAs (parseJsonStringStrict outLen) (IsText outLen) := by
  intro cs x s htidy h
  obtain ⟨t, cs', rfl, rfl, rfl, ht, hlen⟩ := parseJsonStringStrict_reads h
  refine ⟨[], .str (String.ofList t), '"' :: (t ++ ['"']), cs', by simp, blank_nil,
    .str (.mk (chars_self ht)), ⟨hlen, t, rfl, rfl⟩, rfl, ?_⟩
  exact htidy.quoted ht

theorem readsAs_url (immutable : Bool) : ReadsAs (parseUrl immutable) (IsUrl immutable) := by
  intro cs x s htidy h
  unfold parseUrl at h
  split at h
  · cases h
  rename_i url s₀ hstring
  split at h
  · rename_i hvalid
    obtain ⟨rfl, rfl⟩ := Prod.mk.inj (Option.some.inj h)
    obtain ⟨ws, v, text, cs', hcs, hws, hderives, htext, hs, htidy'⟩ :=
      readsAs_string 512 cs url s₀ htidy hstring
    exact ⟨ws, v, text, cs', hcs, hws, hderives, ⟨htext, hvalid⟩, hs, htidy'⟩
  · cases h

theorem bytewise_isDigit : Bytewise Char.isDigit := by
  refine ⟨false, fun c hc => ?_⟩
  rw [Bool.eq_false_iff, ne_eq, isDigit_iff]
  omega

theorem length_le_of_decimal_le {ds : List Char} (hds : IsNumeral ds)
    (h : decimal ds ≤ uint32Max) : ds.length ≤ 4300 := by
  by_contra hlong
  have hten : "4294967296".toList.all Char.isDigit = true := by decide
  have hlt := decimal_lt_of_length_lt (all_eq_true.mp hten) hds (by decide)
    (show "4294967296".toList.length < ds.length from by
      have : "4294967296".toList.length = 10 := by decide
      omega)
  have hmax : decimal "4294967296".toList = uint32Max + 1 := by decide
  omega

/-- **Numbers**: decimal digits without a leading zero. -/
theorem readsAs_u32 : ReadsAs parseJsonU32Strict IsCount := by
  intro cs n s htidy h
  have hsplit : cs = cs.takeWhile Char.isDigit ++ cs.dropWhile Char.isDigit :=
    takeWhile_append_dropWhile.symm
  have hdigits : ∀ c ∈ cs.takeWhile Char.isDigit, c.isDigit = true := fun c hc => mem_takeWhile hc
  have hascii : ∀ c ∈ cs.takeWhile Char.isDigit, c.toNat < 128 := by
    intro c hc
    have := isDigit_iff.mp (hdigits c hc)
    omega
  have htake : (latin1 cs).takeWhile Char.isDigit = cs.takeWhile Char.isDigit := by
    rw [latin1_takeWhile bytewise_isDigit, latin1_ascii hascii]
  have hdrop := latin1_dropWhile bytewise_isDigit cs
  obtain ⟨hnumeral, hmax, hn, hs⟩ : IsNumeral (cs.takeWhile Char.isDigit) ∧
      decimal (cs.takeWhile Char.isDigit) ≤ uint32Max ∧ decimal (cs.takeWhile Char.isDigit) = n ∧
      latin1 (cs.dropWhile Char.isDigit) = s := by
    rw [← htake, ← hdrop]
    cases hcs : latin1 cs with
    | nil => simp [hcs, parseJsonU32Strict] at h
    | cons c s₀ =>
      simp only [hcs, parseJsonU32Strict, Option.ite_none_left_eq_some, Bool.not_eq_false,
        Option.some.injEq, Prod.mk.injEq] at h
      obtain ⟨hdigit, hzero, hmax, hn, hs⟩ := h
      refine ⟨⟨?_, fun d hd => mem_takeWhile hd, ?_⟩, by omega, hn, hs⟩
      · rw [takeWhile_cons, hdigit]
        exact cons_ne_nil _ _
      · intro hlen hhead
        rw [takeWhile_cons, hdigit, if_pos rfl] at hlen hhead
        refine hzero ⟨Option.some.inj hhead, ?_⟩
        cases s₀ with
        | nil => simp at hlen
        | cons d s₀ =>
          by_contra hd
          rw [List.head?_cons, Option.any_some] at hd
          rw [takeWhile_cons, if_neg hd] at hlen
          simp at hlen
  have hnumber : NumberText (some 4300) (.int (signed false (decimal (cs.takeWhile Char.isDigit))))
      (sign false ++ cs.takeWhile Char.isDigit) := by
    refine .int hnumeral ?_
    rintro m ⟨⟩
    exact length_le_of_decimal_le hnumeral hmax
  refine ⟨[], _, cs.takeWhile Char.isDigit, cs.dropWhile Char.isDigit, hsplit, blank_nil,
    .number hnumber, ?_, hs, ?_⟩
  · rw [IsCount, hn]
    rfl
  · rw [hsplit] at htidy
    exact htidy.append (hnumeral.notMem (by decide))

/-! ### Objects -/

section Objects

variable {σ : Type} {keyLen : ℕ} {field : List Char → σ → List Char → Option (σ × List Char)}
  {fuel : ℕ} {state state' : σ} {s s' : List Char}

/-- **A round of the loop**: the closing brace, or a member and what follows it. -/
theorem parseObject_cases (h : parseObject keyLen field (fuel + 1) state s = some (state', s')) :
    (skipWs s = '}' :: s' ∧ state' = state) ∨
      ∃ key s₁ s₂ state₁ s₃, parseJsonStringStrict keyLen (skipWs s) = some (key, s₁) ∧
        skipWs s₁ = ':' :: s₂ ∧ field key state (skipWs s₂) = some (state₁, s₃) ∧
        ((∃ s₄, skipWs s₃ = ',' :: s₄ ∧
            parseObject keyLen field fuel state₁ s₄ = some (state', s')) ∨
          (skipWs s₃ = '}' :: s' ∧ state' = state₁)) := by
  rw [parseObject] at h
  split at h
  · cases h
  · rename_i hbrace
    cases h
    exact .inl ⟨hbrace, rfl⟩
  · split at h
    · cases h
    rename_i key s₁ hkey
    split at h
    · rename_i s₂ hcolon
      split at h
      · cases h
      rename_i state₁ s₃ hfield
      split at h
      · rename_i s₄ hcomma
        exact .inr ⟨key, s₁, s₂, state₁, s₃, hkey, hcolon, hfield, .inl ⟨s₄, hcomma, h⟩⟩
      · rename_i hbrace
        obtain ⟨rfl, rfl⟩ := Prod.mk.inj (Option.some.inj h)
        exact .inr ⟨key, s₁, s₂, state₁, s₃, hkey, hcolon, hfield, .inr ⟨hbrace, rfl⟩⟩
      · cases h
    · cases h

/-- The value of a member is a value of JSON, and the state is as `Inv` says for the members read
so far. -/
def FieldReads (field : List Char → σ → List Char → Option (σ × List Char))
    (Inv : σ → List (String × Json) → Prop) : Prop :=
  ∀ t state ms, Inv state ms → ∀ cs state' s, Tidy cs →
    field (latin1 t) state (latin1 cs) = some (state', s) →
    ∃ ws v text cs', cs = ws ++ (text ++ cs') ∧ Blank ws ∧ Derives (some 4300) (.value v) text ∧
      Inv state' (ms ++ [(String.ofList t, v)]) ∧ latin1 cs' = s ∧ Tidy cs'

/-- What stands in the braces: white space, or members. -/
def Body (ms : List (String × Json)) (body : List Char) : Prop :=
  (ms = [] ∧ Blank body) ∨ Derives (some 4300) (.members ms) body

theorem Body.object {ms : List (String × Json)} {body : List Char} (h : Body ms body) :
    Derives (some 4300) (.value (.obj ms)) ('{' :: (body ++ ['}'])) := by
  rcases h with ⟨rfl, hblank⟩ | hmembers
  · exact .objNil hblank
  · exact .obj hmembers

/-- **The loop over the members.** A comma of a tidy text does not stand before the closing brace,
so that there are members behind it. -/
theorem parseObject_reads {Inv : σ → List (String × Json) → Prop} (hfield : FieldReads field Inv)
    {cs : List Char} {ms : List (String × Json)} (hinv : Inv state ms) (htidy : Tidy cs)
    (h : parseObject keyLen field fuel state (latin1 cs) = some (state', s')) :
    ∃ new body cs', cs = body ++ '}' :: cs' ∧ Body new body ∧ Inv state' (ms ++ new) ∧
      latin1 cs' = s' ∧ Tidy cs' := by
  induction fuel generalizing state ms cs with
  | zero => cases h
  | succ fuel ih =>
    rcases parseObject_cases h with ⟨hbrace, rfl⟩ | ⟨key, s₁, s₂, state₁, s₃, hkey, hcolon,
      hvalue, hend⟩
    · obtain ⟨ws, cs', rfl, hws, hs', -, -, htidy'⟩ :=
        skipWs_cons_reads htidy (by decide) (by decide) hbrace
      exact ⟨[], ws, cs', rfl, .inl ⟨rfl, hws⟩, by rwa [append_nil], hs', htidy'⟩
    · obtain ⟨ws, cs₀, rfl, hws, hskip, -, htidy₀⟩ := skipWs_reads htidy
      rw [hskip] at hkey
      obtain ⟨t, cs₁, rfl, rfl, rfl, ht, -⟩ := parseJsonStringStrict_reads hkey
      have htidy₁ := htidy₀.quoted ht
      obtain ⟨ws₁, cs₂, rfl, hws₁, rfl, -, -, htidy₂⟩ :=
        skipWs_cons_reads htidy₁ (by decide) (by decide) hcolon
      obtain ⟨ws₂, cs₃, rfl, hws₂, hskip₂, -, htidy₃⟩ := skipWs_reads htidy₂
      rw [hskip₂] at hvalue
      obtain ⟨ws₃, v, text, cs₄, rfl, hws₃, hderives, hinv₁, rfl, htidy₄⟩ :=
        hfield t state ms hinv cs₃ state₁ s₃ htidy₃ hvalue
      have hstring : StringText (String.ofList t) ('"' :: (t ++ ['"'])) := .mk (chars_self ht)
      rcases hend with ⟨s₄, hcomma, hrest⟩ | ⟨hbrace, rfl⟩
      · obtain ⟨ws₄, cs₅, rfl, hws₄, rfl, -, htidyComma, htidy₅⟩ :=
          skipWs_cons_reads htidy₄ (by decide) (by decide) hcomma
        obtain ⟨new, body, cs', rfl, hbody, hinv', hs', htidy'⟩ := ih hinv₁ htidy₅ hrest
        rcases hbody with ⟨-, hblank⟩ | hmembers
        · refine absurd ?_ htidyComma.comma
          have hskip' : skipWs (body ++ '}' :: cs') = '}' :: cs' := by
            refine dropWhile_append_exact (fun c hc => ?_) (by simp [isSpace])
            exact isSpace_of_isBlank (hblank c hc)
          rw [hskip', List.head?_cons]
        · refine ⟨(String.ofList t, v) :: new, _, cs', ?_,
            .inr (.members hws hstring hws₁ (blank_append hws₂ hws₃) hderives hws₄ hmembers), ?_,
            hs', htidy'⟩
          · simp only [append_assoc, cons_append, nil_append]
          · rwa [append_assoc, singleton_append] at hinv'
      · obtain ⟨ws₄, cs', rfl, hws₄, hs', -, -, htidy'⟩ :=
          skipWs_cons_reads htidy₄ (by decide) (by decide) hbrace
        refine ⟨[(String.ofList t, v)], _, cs', ?_,
          .inr (.member hws hstring hws₁ (blank_append hws₂ hws₃) hderives hws₄), hinv₁, hs',
          htidy'⟩
        simp only [append_assoc, cons_append, nil_append]

/-- **An object.** -/
theorem parseBraces_reads {Inv : σ → List (String × Json) → Prop} (hfield : FieldReads field Inv)
    {cs : List Char} (hinv : Inv state []) (htidy : Tidy cs)
    (h : parseBraces keyLen field state (latin1 cs) = some (state', s')) :
    ∃ ws ms text cs', cs = ws ++ (text ++ cs') ∧ Blank ws ∧
      Derives (some 4300) (.value (.obj ms)) text ∧ Inv state' ms ∧ latin1 cs' = s' ∧
      Tidy cs' := by
  unfold parseBraces at h
  split at h
  · rename_i s₁ hbrace
    obtain ⟨ws, cs₁, rfl, hws, rfl, -, -, htidy₁⟩ :=
      skipWs_cons_reads htidy (by decide) (by decide) hbrace
    obtain ⟨ms, body, cs', rfl, hbody, hinv', hs', htidy'⟩ :=
      parseObject_reads hfield hinv htidy₁ h
    refine ⟨ws, ms, _, cs', ?_, hws, hbody.object, hinv', hs', htidy'⟩
    simp only [append_assoc, cons_append, nil_append]
  · cases h

end Objects

/-! ### Members -/

/-- The members read so far: each has one of the keys, and none is given twice. -/
structure Members (keys : List String) (ms : List (String × Json)) : Prop where
  keys : ∀ m ∈ ms, m.1 ∈ keys
  unique : uniqueKeysMembers ms = true

section Members

variable {keys : List String} {ms : List (String × Json)} {k k' : String} {v : Json}
  {α : Type} {R : α → Json → Prop}

theorem members_nil (keys : List String) : Members keys [] := ⟨forall_mem_nil _, rfl⟩

theorem uniqueKeysMembers_concat (h : uniqueKeysMembers ms = true) (hk : ms.lookup k = none)
    (hv : uniqueKeys v = true) : uniqueKeysMembers (ms ++ [(k, v)]) = true := by
  induction ms with
  | nil => simp [uniqueKeysMembers, hv]
  | cons m ms ih =>
    obtain ⟨key, value⟩ := m
    rw [lookup_cons] at hk
    split at hk
    · cases hk
    rename_i hne
    rw [beq_eq_false_iff_ne] at hne
    rw [uniqueKeysMembers, Bool.and_eq_true, Bool.and_eq_true] at h
    rw [cons_append, uniqueKeysMembers, ih h.2.2 hk, h.2.1]
    simp only [Bool.not_eq_true', contains_eq_mem, decide_eq_false_iff_not] at h
    simp [h.1, hne.symm]

theorem Members.concat (h : Members keys ms) (hk : k ∈ keys) (hnone : ms.lookup k = none)
    (hv : uniqueKeys v = true) : Members keys (ms ++ [(k, v)]) := by
  refine ⟨fun m hm => ?_, uniqueKeysMembers_concat h.unique hnone hv⟩
  rcases mem_append.mp hm with hm | hm
  · exact h.keys m hm
  · rw [mem_singleton.mp hm]
    exact hk

/-- The members read so far are stored: `holds state k` says it of the key `k`. -/
structure Stores {σ : Type} (keys : List String) (holds : σ → String → Option Json → Prop)
    (state : σ) (ms : List (String × Json)) : Prop where
  members : Members keys ms
  holds : ∀ k ∈ keys, holds state k (ms.lookup k)

theorem rel_some {x : α} {o : Option Json} (h : Option.Rel R (some x) o) :
    ∃ v, o = some v ∧ R x v := by
  cases h with
  | some hR => exact ⟨_, rfl, hR⟩

/-! ### What is stored -/

/-- What is stored for a key of the artifact. -/
def ArtifactFields.holds (f : ArtifactFields) (key : String) (o : Option Json) : Prop :=
  match key with
  | "url" => Option.Rel (IsUrl true) f.url o
  | "sha256" => Option.Rel (IsText 65) f.sha256 o
  | "size" => Option.Rel IsCount f.size o
  | _ => True

/-- The value is an artifact with the given URL, hash and size. -/
def IsArtifact (x : List Char × List Char × ℕ) (v : Json) : Prop :=
  ∃ ms, v = .obj ms ∧
    Stores artifactKeys ArtifactFields.holds ⟨some x.1, some x.2.1, some x.2.2⟩ ms

theorem IsArtifact.uniqueKeys {x : List Char × List Char × ℕ} {v : Json} (h : IsArtifact x v) :
    uniqueKeys v = true := by
  obtain ⟨ms, rfl, hstores⟩ := h
  exact hstores.members.unique

/-- What is stored for a key of the manifest. -/
def ManifestFields.holds (f : ManifestFields) (key : String) (o : Option Json) : Prop :=
  match key with
  | "schema_version" => Option.Rel IsCount f.schemaVersion o
  | "product" => Option.Rel (IsText 32) f.product o
  | "channel" => Option.Rel (IsText 16) f.channel o
  | "platform" => Option.Rel (IsText 48) f.platform o
  | "api_version" => Option.Rel IsCount f.apiVersion o
  | "update_api_version" => Option.Rel IsCount f.updateApiVersion o
  | "version" => Option.Rel (IsText 64) f.version o
  | "artifact" => Option.Rel IsArtifact f.artifact o
  | "release_url" => Option.Rel (IsUrl false) f.releaseUrl o
  | _ => True

theorem IsText.uniqueKeys {x : List Char} {v : Json} (h : IsText outLen x v) :
    uniqueKeys v = true := by
  obtain ⟨-, t, rfl, -⟩ := h
  rfl

theorem IsCount.uniqueKeys {n : ℕ} {v : Json} (h : IsCount n v) : uniqueKeys v = true := by
  rw [IsCount] at h
  subst h
  rfl

/-- **A member that may be given once** is new when its value is read, and nothing else that is
stored changes. -/
theorem Stores.once {σ : Type} {holds : σ → String → Option Json → Prop} {f f' : σ}
    {parse : List Char → Option (α × List Char)} {seen : Option α} {store : α → σ}
    (hf : Stores keys holds f ms) (hkey : latin1 t = k.toList) (hparse : ReadsAs parse R)
    (htidy : Tidy cs) (h : once seen parse store (latin1 cs) = some (f', s))
    (hunique : ∀ {x v}, R x v → uniqueKeys v = true)
    (hseen : ∀ o, holds f k o → Option.Rel R seen o := by exact fun _ => id)
    (hstore : ∀ x v, R x v → holds (store x) k (some v) := by exact fun _ _ => .some)
    (hother : ∀ x k' o, k' ≠ k → holds f k' o → holds (store x) k' o := by
      intro _ _ _ hne
      simp only [ArtifactFields.holds, ManifestFields.holds]
      split <;> first | exact id | exact absurd rfl hne)
    (hmem : k ∈ keys ∧ isAscii k.toList = true := by decide) :
    ∃ ws v text cs', cs = ws ++ (text ++ cs') ∧ Blank ws ∧ Derives (some 4300) (.value v) text ∧
      Stores keys holds f' (ms ++ [(String.ofList t, v)]) ∧ latin1 cs' = s ∧ Tidy cs' := by
  rw [eq_of_latin1_eq (lt_of_isAscii hmem.2) hkey, String.ofList_toList]
  unfold Agent.once at h
  split at h
  · cases h
  rename_i hnone
  rw [Option.not_isSome_iff_eq_none] at hnone
  subst hnone
  obtain ⟨⟨x, s₁⟩, hread, heq⟩ := Option.map_eq_some_iff.mp h
  obtain ⟨rfl, rfl⟩ := Prod.mk.inj heq
  have hnew : ms.lookup k = none := by
    have hrel := hseen _ (hf.holds k hmem.1)
    cases hlookup : ms.lookup k with
    | none => rfl
    | some value =>
      rw [hlookup] at hrel
      cases hrel
  obtain ⟨ws, v, text, cs', hcs, hws, hderives, hR, hs, htidy'⟩ := hparse cs x s₁ htidy hread
  refine ⟨ws, v, text, cs', hcs, hws, hderives,
    ⟨hf.members.concat hmem.1 hnew (hunique hR), ?_⟩, hs, htidy'⟩
  intro k' hk'
  by_cases hne : k' = k
  · rw [hne, lookup_append, hnew, lookup_cons, beq_self_eq_true]
    exact hstore x v hR
  · rw [lookup_append, lookup_cons, beq_eq_false_iff_ne.mpr hne]
    simpa using hother x k' _ hne (hf.holds k' hk')

end Members

/-! ### The artifact -/

theorem artifactField_reads :
    FieldReads artifactField (Stores artifactKeys ArtifactFields.holds) := by
  intro t f ms hf cs f' s htidy h
  unfold artifactField at h
  split_ifs at h with hkey hkey hkey
  · exact hf.once hkey (readsAs_url true) htidy h fun h => h.1.uniqueKeys
  · exact hf.once hkey (readsAs_string 65) htidy h IsText.uniqueKeys
  · exact hf.once hkey readsAs_u32 htidy h IsCount.uniqueKeys

theorem readsAs_artifact : ReadsAs parseManifestArtifactObject IsArtifact := by
  intro cs x s htidy h
  unfold parseManifestArtifactObject at h
  obtain ⟨⟨⟨url, sha256, size⟩, s₁⟩, hbraces, h⟩ := Option.bind_eq_some_iff.mp h
  obtain ⟨url, rfl, h⟩ := Option.bind_eq_some_iff.mp h
  obtain ⟨sha256, rfl, h⟩ := Option.bind_eq_some_iff.mp h
  obtain ⟨size, rfl, h⟩ := Option.bind_eq_some_iff.mp h
  cases h
  have hnone : Stores artifactKeys ArtifactFields.holds ⟨none, none, none⟩ [] := by
    refine ⟨members_nil _, fun k _ => ?_⟩
    unfold ArtifactFields.holds
    split <;> constructor
  obtain ⟨ws, ms, text, cs', hcs, hws, hderives, hstores, hs, htidy'⟩ :=
    parseBraces_reads artifactField_reads hnone htidy hbraces
  exact ⟨ws, .obj ms, text, cs', hcs, hws, hderives, ⟨ms, rfl, hstores⟩, hs, htidy'⟩

/-! ### The manifest -/

theorem manifestField_reads :
    FieldReads manifestField (Stores manifestKeys ManifestFields.holds) := by
  intro t f ms hf cs f' s htidy h
  unfold manifestField at h
  split_ifs at h with hkey hkey hkey hkey hkey hkey hkey hkey hkey
  · exact hf.once hkey readsAs_u32 htidy h IsCount.uniqueKeys
  · exact hf.once hkey (readsAs_string 32) htidy h IsText.uniqueKeys
  · exact hf.once hkey (readsAs_string 16) htidy h IsText.uniqueKeys
  · exact hf.once hkey (readsAs_string 48) htidy h IsText.uniqueKeys
  · exact hf.once hkey readsAs_u32 htidy h IsCount.uniqueKeys
  · exact hf.once hkey readsAs_u32 htidy h IsCount.uniqueKeys
  · exact hf.once hkey (readsAs_string 64) htidy h IsText.uniqueKeys
  · exact hf.once hkey readsAs_artifact htidy h IsArtifact.uniqueKeys
  · exact hf.once hkey (readsAs_url false) htidy h fun h => h.1.uniqueKeys

theorem of_complete {f : ManifestFields} {m : OtaManifest} (h : f.complete = some m) :
    ∃ url releaseUrl, f = ⟨some m.schemaVersion, some m.product, some m.channel, some m.platform,
      some m.apiVersion, some m.updateApiVersion, some m.version,
      some (url, m.artifactSha256, m.artifactSize), some releaseUrl⟩ := by
  obtain ⟨schemaVersion, product, channel, platform, apiVersion, updateApiVersion, version,
    artifact, releaseUrl⟩ := f
  obtain ⟨releaseUrl, rfl, h⟩ := Option.bind_eq_some_iff.mp h
  obtain ⟨artifact, rfl, h⟩ := Option.bind_eq_some_iff.mp h
  obtain ⟨schemaVersion, rfl, h⟩ := Option.bind_eq_some_iff.mp h
  obtain ⟨product, rfl, h⟩ := Option.bind_eq_some_iff.mp h
  obtain ⟨channel, rfl, h⟩ := Option.bind_eq_some_iff.mp h
  obtain ⟨platform, rfl, h⟩ := Option.bind_eq_some_iff.mp h
  obtain ⟨apiVersion, rfl, h⟩ := Option.bind_eq_some_iff.mp h
  obtain ⟨updateApiVersion, rfl, h⟩ := Option.bind_eq_some_iff.mp h
  obtain ⟨version, rfl, h⟩ := Option.bind_eq_some_iff.mp h
  cases h
  exact ⟨artifact.1, releaseUrl, rfl⟩

/-- The URLs that `parse_manifest_v1` reads: that of the artifact, and that of the release. -/
def scannedUrls (raw : Bytes) : List (List Char) :=
  match parseBraces 32 manifestField
      ⟨none, none, none, none, none, none, none, none, none⟩ (manifestText raw) with
  | none => []
  | some (f, _) => f.artifact.toList.map Prod.fst ++ f.releaseUrl.toList

/-- **An accepted manifest** is a JSON text, and its members are stored. -/
theorem parseManifestV1_reads {text : List Char} {m : OtaManifest} (htidy : Tidy text)
    (h : parseManifestV1 (utf8 text) = some m) :
    ∃ ms url releaseUrl, JsonText (some 4300) (.obj ms) text ∧
      scannedUrls (utf8 text) = [url, releaseUrl] ∧
      Stores manifestKeys ManifestFields.holds ⟨some m.schemaVersion, some m.product,
        some m.channel, some m.platform, some m.apiVersion, some m.updateApiVersion, some m.version,
        some (url, m.artifactSha256, m.artifactSize), some releaseUrl⟩ ms := by
  have hnone : Stores manifestKeys ManifestFields.holds
      ⟨none, none, none, none, none, none, none, none, none⟩ [] := by
    refine ⟨members_nil _, fun k _ => ?_⟩
    unfold ManifestFields.holds
    split <;> constructor
  unfold parseManifestV1 at h
  split at h
  · cases h
  rename_i f s hbraces
  obtain ⟨ws, ms, body, cs', rfl, hws, hderives, hstores, rfl, htidy'⟩ :=
    parseBraces_reads manifestField_reads hnone htidy hbraces
  obtain ⟨hrest, h⟩ := Option.ite_none_left_eq_some.mp h
  split at h
  · cases h
  rename_i m' hcomplete
  obtain ⟨-, ⟨⟩⟩ := Option.ite_none_right_eq_some.mp h
  rw [not_not] at hrest
  obtain ⟨ws', cs, rfl, hws', hskip, -, -⟩ := skipWs_reads htidy'
  rw [hskip, latin1_eq_nil] at hrest
  subst hrest
  rw [append_nil]
  rw [append_nil] at hbraces
  obtain ⟨url, releaseUrl, rfl⟩ := of_complete hcomplete
  refine ⟨ms, url, releaseUrl, .mk hws hderives hws', ?_, hstores⟩
  rw [scannedUrls, hbraces]
  rfl

end PetlibroLocal.Agent
