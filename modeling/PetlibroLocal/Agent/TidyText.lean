import PetlibroLocal.Lib.JsonLoads
import PetlibroLocal.Agent.Manifest

/-!
# Tidy Texts

The manifest parser of the state agent takes more than JSON: its white space has two characters
more, vertical tab and form feed, and a comma may stand before a closing brace. A text with none
of these is `Tidy`. The definition looks at the characters of the text only: commas count outside
of strings, and in a string a backslash takes the character behind it along.
-/

namespace PetlibroLocal.Agent

open JsonGrammar List

/-! ### Tidy texts -/

/-- Where a text has been read up to: outside of strings, in one, or behind a backslash in one. -/
inductive Place
  | outside
  | inside
  | escaped

/-- A comma outside of strings stands before a closing brace. -/
def trailingComma : Place → List Char → Bool
  | _, [] => false
  | .escaped, _ :: cs => trailingComma .inside cs
  | .inside, c :: cs =>
    trailingComma (if c = '"' then .outside else if c = '\\' then .escaped else .inside) cs
  | .outside, c :: cs =>
    if c = '"' then trailingComma .inside cs
    else if c = ',' ∧ (skipWs cs).head? = some '}' then true
    else trailingComma .outside cs

/-- The text has no white space that JSON does not have, and no comma before a closing brace. -/
structure Tidy (cs : List Char) : Prop where
  verticalTab : '\x0b' ∉ cs
  formFeed : '\x0c' ∉ cs
  trailing : trailingComma .outside cs = false

variable {cs ds t : List Char} {c : Char}

theorem trailingComma_append (hquote : '"' ∉ cs)
    (h : trailingComma .outside (cs ++ ds) = false) : trailingComma .outside ds = false := by
  induction cs with
  | nil => exact h
  | cons c cs ih =>
    rw [List.mem_cons, not_or] at hquote
    refine ih hquote.2 ?_
    rw [List.cons_append, trailingComma, if_neg (Ne.symm hquote.1)] at h
    split at h
    · cases h
    · exact h

theorem Tidy.append (h : Tidy (cs ++ ds)) (hquote : '"' ∉ cs) : Tidy ds :=
  ⟨fun hmem => h.verticalTab (mem_append_right cs hmem),
    fun hmem => h.formFeed (mem_append_right cs hmem), trailingComma_append hquote h.trailing⟩

theorem Tidy.cons (h : Tidy (c :: cs)) (hquote : c ≠ '"') : Tidy cs := by
  rw [← List.singleton_append] at h
  exact h.append (by simpa using hquote.symm)

theorem Tidy.comma (h : Tidy (',' :: cs)) : (skipWs cs).head? ≠ some '}' := by
  intro hbrace
  have htrailing := h.trailing
  rw [trailingComma, if_neg (by decide), if_pos ⟨rfl, hbrace⟩] at htrailing
  cases htrailing

theorem isSpace_of_isBlank {c : Char} (h : isBlank c = true) : isSpace c = true := by
  simp only [isBlank, Bool.or_eq_true, beq_iff_eq] at h
  rcases h with ((rfl | rfl) | rfl) | rfl <;> rfl

theorem isBlank_of_isSpace {c : Char} (h : isSpace c = true) (hvt : c ≠ '\x0b')
    (hff : c ≠ '\x0c') : isBlank c = true := by
  rw [isSpace, decide_eq_true_eq] at h
  simp only [List.mem_cons, List.not_mem_nil, or_false] at h
  rcases h with rfl | rfl | rfl | rfl | rfl | rfl
  · rfl
  · rfl
  · rfl
  · exact absurd rfl hvt
  · exact absurd rfl hff
  · rfl

/-! ### JSON texts are tidy -/

/-- A part of a text with no white space but that of JSON, and with no comma before a closing
brace, whatever follows. -/
structure Neat (cs : List Char) : Prop where
  verticalTab : '\x0b' ∉ cs
  formFeed : '\x0c' ∉ cs
  trailing : ∀ rest, trailingComma .outside (cs ++ rest) = trailingComma .outside rest

/-- The character may stand anywhere outside of strings. -/
def isNeat (c : Char) : Bool := c != '\x0b' && c != '\x0c' && c != '"' && c != ','

variable {lim : Option ℕ} {v : Json}

theorem Neat.append (h : Neat cs) (h' : Neat ds) : Neat (cs ++ ds) where
  verticalTab hmem := (mem_append.mp hmem).elim h.verticalTab h'.verticalTab
  formFeed hmem := (mem_append.mp hmem).elim h.formFeed h'.formFeed
  trailing rest := by rw [append_assoc, h.trailing, h'.trailing]

theorem neat_of_all (h : ∀ c ∈ cs, isNeat c = true) : Neat cs := by
  induction cs with
  | nil => exact ⟨not_mem_nil, not_mem_nil, fun _ => rfl⟩
  | cons c cs ih =>
    obtain ⟨hc, hcs⟩ := forall_mem_cons.mp h
    obtain ⟨hvt, hff, htrailing⟩ := ih hcs
    simp only [isNeat, Bool.and_eq_true, bne_iff_ne, ne_eq] at hc
    obtain ⟨⟨⟨hcvt, hcff⟩, hquote⟩, hcomma⟩ := hc
    refine ⟨not_mem_cons_of_ne_of_not_mem (Ne.symm hcvt) hvt,
      not_mem_cons_of_ne_of_not_mem (Ne.symm hcff) hff, fun rest => ?_⟩
    rw [cons_append, trailingComma, if_neg hquote, if_neg fun h => hcomma h.1, htrailing]

theorem isNeat_of_isDigit (h : c.isDigit = true) : isNeat c = true := by
  have := isDigit_iff.mp h
  simp only [isNeat, Bool.and_eq_true, bne_iff_ne]
  refine ⟨⟨⟨?_, ?_⟩, ?_⟩, ?_⟩ <;> rintro rfl <;> simp at this

theorem neat_blank {ws : List Char} (h : Blank ws) : Neat ws := by
  refine neat_of_all fun c hc => ?_
  have hblank := h c hc
  simp only [isBlank, Bool.or_eq_true, beq_iff_eq] at hblank
  rcases hblank with ((rfl | rfl) | rfl) | rfl <;> rfl

theorem neat_cons (hc : isNeat c = true) (h : Neat cs) : Neat (c :: cs) := by
  rw [← singleton_append]
  exact (neat_of_all (by simpa using hc)).append h

/-- A comma stands before a text that begins with a character of its own. -/
theorem neat_comma {ws : List Char} (h : Neat (ws ++ cs)) (hws : Blank ws) (hcs : Starts cs) :
    Neat (',' :: (ws ++ cs)) := by
  refine ⟨not_mem_cons_of_ne_of_not_mem (by decide) h.verticalTab,
    not_mem_cons_of_ne_of_not_mem (by decide) h.formFeed, fun rest => ?_⟩
  obtain ⟨c, t, rfl, hblank, -, hbrace⟩ := hcs
  have hmem : c ∈ ws ++ c :: t := by simp
  have hspace : isSpace c = false := by
    by_contra hspace
    rw [isBlank_of_isSpace (Bool.eq_true_of_not_eq_false hspace)
      (fun hc => h.verticalTab (hc ▸ hmem)) fun hc => h.formFeed (hc ▸ hmem)] at hblank
    cases hblank
  have hskip : skipWs (ws ++ c :: t ++ rest) = c :: (t ++ rest) := by
    rw [append_assoc, cons_append]
    refine dropWhile_append_exact (fun d hd => isSpace_of_isBlank (hws d hd)) ?_
    rintro d ⟨⟩
    exact hspace
  rw [cons_append, trailingComma, if_neg (by decide), if_neg, h.trailing]
  rintro ⟨-, hhead⟩
  rw [hskip] at hhead
  exact hbrace (Option.some.inj hhead)

/-- A part of a string, as `Neat` says it of what is outside of strings. -/
structure NeatInside (cs : List Char) : Prop where
  verticalTab : '\x0b' ∉ cs
  formFeed : '\x0c' ∉ cs
  trailing : ∀ rest, trailingComma .inside (cs ++ rest) = trailingComma .inside rest

theorem NeatInside.plain (h : NeatInside cs) (hc : isUnescaped c = true) :
    NeatInside (c :: cs) := by
  simp only [isUnescaped, Bool.and_eq_true, decide_eq_true_eq, bne_iff_ne] at hc
  have hctrl : ∀ d : Char, d.toNat < 0x20 → d ≠ c := by
    rintro d hd rfl
    omega
  refine ⟨not_mem_cons_of_ne_of_not_mem (hctrl _ (by decide)) h.verticalTab,
    not_mem_cons_of_ne_of_not_mem (hctrl _ (by decide)) h.formFeed, fun rest => ?_⟩
  rw [cons_append, trailingComma, if_neg hc.1.2, if_neg hc.2, h.trailing]

theorem NeatInside.escape (h : NeatInside cs) (hvt : c ≠ '\x0b') (hff : c ≠ '\x0c') :
    NeatInside ('\\' :: c :: cs) := by
  refine ⟨?_, ?_, fun rest => ?_⟩
  · simpa using ⟨hvt.symm, h.verticalTab⟩
  · simpa using ⟨hff.symm, h.formFeed⟩
  · exact h.trailing rest

theorem isUnescaped_of_hexValue {n : ℕ} (h : hexValue c = some n) : isUnescaped c = true := by
  have hrange : 48 ≤ c.toNat ∧ c.toNat ≤ 57 ∨ 97 ≤ c.toNat ∧ c.toNat ≤ 102 ∨
      65 ≤ c.toNat ∧ c.toNat ≤ 70 := by
    unfold hexValue at h
    split_ifs at h with hdigit hlower hupper
    · exact .inl (isDigit_iff.mp hdigit)
    · exact .inr (.inl hlower)
    · exact .inr (.inr hupper)
  have hne : ∀ d : Char, d.toNat = 34 ∨ d.toNat = 92 → c ≠ d := by
    rintro d hd rfl
    omega
  simp only [isUnescaped, Bool.and_eq_true, decide_eq_true_eq, bne_iff_ne]
  exact ⟨⟨by omega, hne _ (by decide)⟩, hne _ (by decide)⟩

theorem NeatInside.hexFour {a b d : Char} {n : ℕ} (h : NeatInside cs)
    (hhex : hexFour a b c d = some n) : NeatInside (a :: b :: c :: d :: cs) := by
  obtain ⟨n₁, h₁, hhex⟩ := Option.bind_eq_some_iff.mp hhex
  obtain ⟨n₂, h₂, hhex⟩ := Option.bind_eq_some_iff.mp hhex
  obtain ⟨n₃, h₃, hhex⟩ := Option.bind_eq_some_iff.mp hhex
  obtain ⟨n₄, h₄, hhex⟩ := Option.bind_eq_some_iff.mp hhex
  exact (((h.plain (isUnescaped_of_hexValue h₄)).plain (isUnescaped_of_hexValue h₃)).plain
    (isUnescaped_of_hexValue h₂)).plain (isUnescaped_of_hexValue h₁)

theorem neatInside_of_chars {s t : List Char} (h : Chars s t) : NeatInside t := by
  induction h with
  | nil => exact ⟨not_mem_nil, not_mem_nil, fun _ => rfl⟩
  | plain hc _ ih => exact ih.plain hc
  | escape he _ ih =>
    refine ih.escape ?_ ?_ <;> rintro rfl <;> cases he
  | unicode hhex _ _ _ ih => exact (ih.hexFour hhex).escape (by decide) (by decide)
  | pair hhex _ hhex' _ _ ih =>
    exact (((ih.hexFour hhex').escape (by decide) (by decide)).hexFour hhex).escape (by decide)
      (by decide)

theorem Tidy.quoted (h : Tidy ('"' :: (t ++ '"' :: cs))) (ht : ∀ c ∈ t, isUnescaped c = true) :
    Tidy cs := by
  have htrailing := h.trailing
  rw [trailingComma, if_pos rfl, (neatInside_of_chars (chars_self ht)).trailing] at htrailing
  refine ⟨fun hmem => h.verticalTab ?_, fun hmem => h.formFeed ?_, htrailing⟩ <;> simp [hmem]

theorem neat_stringText {s : String} (h : StringText s cs) : Neat cs := by
  obtain ⟨hchars⟩ := h
  obtain ⟨hvt, hff, htrailing⟩ := neatInside_of_chars hchars
  refine ⟨by simpa using hvt, by simpa using hff, fun rest => ?_⟩
  rw [cons_append, append_assoc, trailingComma, if_pos rfl, htrailing]
  rfl

theorem isNeat_expText {e : ℤ} (h : ExpText e cs) : ∀ c ∈ cs, isNeat c = true := by
  have hletter : ∀ {c : Char}, isExp c = true → isNeat c = true := by
    intro c hc
    simp only [isExp, Bool.or_eq_true, beq_iff_eq] at hc
    rcases hc with rfl | rfl <;> rfl
  cases h with
  | unsigned hc hds =>
    exact forall_mem_cons.mpr ⟨hletter hc, fun c hc => isNeat_of_isDigit (hds.2 c hc)⟩
  | plus hc hds | minus hc hds =>
    exact forall_mem_cons.mpr ⟨hletter hc, forall_mem_cons.mpr
      ⟨rfl, fun c hc => isNeat_of_isDigit (hds.2 c hc)⟩⟩

theorem isNeat_numberText (h : NumberText lim v cs) : ∀ c ∈ cs, isNeat c = true := by
  have hsign : ∀ neg, ∀ c ∈ sign neg, isNeat c = true := fun neg =>
    List.all_eq_true.mp (by cases neg <;> rfl)
  have hnumeral : ∀ {ds : List Char}, IsNumeral ds → ∀ c ∈ ds, isNeat c = true :=
    fun hds c hc => isNeat_of_isDigit (hds.isDigit c hc)
  have hfrac : ∀ {fs : List Char}, Digits fs → ∀ c ∈ '.' :: fs, isNeat c = true := fun hfs =>
    forall_mem_cons.mpr ⟨rfl, fun c hc => isNeat_of_isDigit (hfs.2 c hc)⟩
  cases h with
  | int hds => exact forall_mem_append.mpr ⟨hsign _, hnumeral hds⟩
  | frac hds hfs =>
    exact forall_mem_append.mpr ⟨hsign _, forall_mem_append.mpr ⟨hnumeral hds, hfrac hfs⟩⟩
  | exp hds hfs hes =>
    refine forall_mem_append.mpr ⟨hsign _, forall_mem_append.mpr ⟨hnumeral hds,
      forall_mem_append.mpr ⟨?_, isNeat_expText hes⟩⟩⟩
    cases hfs with
    | absent => exact forall_mem_nil _
    | present hfs => exact hfrac hfs

/-- **What the grammar derives is neat**, by induction on the derivation. -/
theorem neat_of_derives {cat : Category} (h : Derives lim cat cs) : Neat cs := by
  induction h with
  | null | true | false => exact neat_of_all (List.all_eq_true.mp rfl)
  | number h => exact neat_of_all (isNeat_numberText h)
  | str h => exact neat_stringText h
  | arrNil hws | objNil hws =>
    exact neat_cons rfl ((neat_blank hws).append (neat_of_all (List.all_eq_true.mp rfl)))
  | arr _ ih | obj _ ih => exact neat_cons rfl (ih.append (neat_of_all (List.all_eq_true.mp rfl)))
  | element hws _ hws' ih => exact (neat_blank hws).append (ih.append (neat_blank hws'))
  | elements hws _ hws' hrest ih ihs =>
    obtain ⟨ws, cs, rfl, hblank, hstarts, -⟩ := reads_of_derives hrest
    exact (neat_blank hws).append (ih.append ((neat_blank hws').append
      (neat_comma ihs hblank hstarts)))
  | member hws hk hws₁ hws₂ _ hws' ih =>
    exact (neat_blank hws).append ((neat_stringText hk).append ((neat_blank hws₁).append
      (neat_cons rfl ((neat_blank hws₂).append (ih.append (neat_blank hws'))))))
  | members hws hk hws₁ hws₂ _ hws' hrest ih ihs =>
    obtain ⟨ws, cs, rfl, hblank, hstarts, -⟩ := reads_of_derives hrest
    exact (neat_blank hws).append ((neat_stringText hk).append ((neat_blank hws₁).append
      (neat_cons rfl ((neat_blank hws₂).append (ih.append ((neat_blank hws').append
        (neat_comma ihs hblank hstarts)))))))

/-- **A JSON text is tidy.** -/
theorem tidy_of_jsonText (h : JsonText lim v cs) : Tidy cs := by
  obtain ⟨hws, hvalue, hws'⟩ := h
  obtain ⟨hvt, hff, htrailing⟩ :=
    (neat_blank hws).append ((neat_of_derives hvalue).append (neat_blank hws'))
  refine ⟨hvt, hff, ?_⟩
  rw [← append_nil (_ ++ _), htrailing]
  rfl

end PetlibroLocal.Agent
