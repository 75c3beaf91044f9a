import PetlibroLocal.Lib.Json
import PetlibroLocal.Lib.Scan

/-!
# A Reader of JSON

`loads` reads a JSON text the way `json.loads` of Python does: by recursive descent, with the
members of an object in the order of the text. The bound `lim` on the digits of an integer is the
one of `int`, and `jsonLoads` has it. The constants that Python accepts beyond the standard (`NaN`
and the infinities), surrogates without their other half, and the limit on nested calls are left
out.
-/

namespace PetlibroLocal.JsonGrammar

open List

/-! ### Strings -/

/-- Four hexadecimal digits. -/
def scanHex : List Char → Option (ℕ × List Char)
  | a :: b :: c :: d :: t => (hexFour a b c d).map fun n => (n, t)
  | _ => none

/-- What stands behind the first half of a pair. -/
def scanLow (high : ℕ) : List Char → Option (Char × List Char)
  | '\\' :: 'u' :: t =>
    match scanHex t with
    | none => none
    | some (low, t) => if isLow low then some (pairChar high low, t) else none
  | _ => none

/-- What stands behind a backslash. -/
def scanEscape : List Char → Option (Char × List Char)
  | [] => none
  | e :: t =>
    if e = 'u' then
      match scanHex t with
      | none => none
      | some (n, t) =>
        if isHigh n then scanLow n t
        else if isLow n then none
        else some (Char.ofNat n, t)
    else (escaped e).map fun c => (c, t)

/-- A string behind its opening quote. -/
def scanString : ℕ → List Char → Option (List Char × List Char)
  | 0, _ => none
  | _ + 1, [] => none
  | fuel + 1, c :: t =>
    if c = '"' then some ([], t)
    else if c = '\\' then
      match scanEscape t with
      | none => none
      | some (d, t) => (scanString fuel t).map fun (s, t) => (d :: s, t)
    else if c.toNat < 0x20 then none
    else (scanString fuel t).map fun (s, t) => (c :: s, t)

/-- A string from its opening quote on. -/
def scanQuoted : List Char → Option (String × List Char)
  | '"' :: t => (scanString (t.length + 1) t).map fun (s, t) => (String.ofList s, t)
  | _ => none

/-! ### Numbers -/

/-- The integer part of a number: a zero ends it. -/
def scanInt : List Char → Option (List Char × List Char)
  | [] => none
  | c :: t =>
    if c = '0' then some ([c], t)
    else if c.isDigit then some ((c :: t).takeWhile Char.isDigit, (c :: t).dropWhile Char.isDigit)
    else none

/-- The digits of the fraction, if there is one. -/
def scanFrac : List Char → List Char × List Char
  | '.' :: t =>
    if t.takeWhile Char.isDigit = [] then ([], '.' :: t)
    else (t.takeWhile Char.isDigit, t.dropWhile Char.isDigit)
  | t => ([], t)

/-- The digits of an exponent with their sign. -/
def scanExpDigits (neg : Bool) (t : List Char) : Option (ℤ × List Char) :=
  if t.takeWhile Char.isDigit = [] then none
  else some (signed neg (decimal (t.takeWhile Char.isDigit)), t.dropWhile Char.isDigit)

/-- What stands behind the letter of an exponent. -/
def scanExpSign : List Char → Option (ℤ × List Char)
  | '+' :: t => scanExpDigits false t
  | '-' :: t => scanExpDigits true t
  | t => scanExpDigits false t

/-- The exponent, if there is one. -/
def scanExp : List Char → Option (ℤ × List Char)
  | [] => none
  | e :: t => if isExp e then scanExpSign t else none

/-- A number behind its sign. -/
def scanUnsigned (lim : Option ℕ) (neg : Bool) (t : List Char) : Option (Json × List Char) :=
  match scanInt t with
  | none => none
  | some (ds, t) =>
    match scanFrac t with
    | (fs, t) =>
      match scanExp t with
      | some (e, t) => some (.float (scaled (signed neg (decimal (ds ++ fs))) (e - fs.length)), t)
      | none =>
        if fs ≠ [] then
          some (.float (scaled (signed neg (decimal (ds ++ fs))) (-fs.length)), t)
        else if lim.any (· < ds.length) then none
        else some (.int (signed neg (decimal ds)), t)

/-- A number. -/
def scanNumber (lim : Option ℕ) : List Char → Option (Json × List Char)
  | '-' :: t => scanUnsigned lim true t
  | t => scanUnsigned lim false t

/-! ### Values -/

/-- What is left behind white space. -/
def skipBlank (t : List Char) : List Char := t.dropWhile isBlank

/-- A word. -/
def scanWord (word : List Char) (v : Json) (t : List Char) : Option (Json × List Char) :=
  if t.take word.length = word then some (v, t.drop word.length) else none

mutual

/-- A value. -/
def scanValue (lim : Option ℕ) : ℕ → List Char → Option (Json × List Char)
  | 0, _ => none
  | _ + 1, [] => none
  | fuel + 1, c :: t =>
    if c = '"' then (scanQuoted (c :: t)).map fun (s, t) => (.str s, t)
    else if c = '{' then
      if (skipBlank t).head? = some '}' then some (.obj [], (skipBlank t).tail)
      else (scanMembers lim fuel (skipBlank t)).map fun (ms, t) => (.obj ms, t)
    else if c = '[' then
      if (skipBlank t).head? = some ']' then some (.arr [], (skipBlank t).tail)
      else (scanElements lim fuel (skipBlank t)).map fun (vs, t) => (.arr vs, t)
    else if c = 'n' then scanWord "null".toList .null (c :: t)
    else if c = 't' then scanWord "true".toList (.bool true) (c :: t)
    else if c = 'f' then scanWord "false".toList (.bool false) (c :: t)
    else scanNumber lim (c :: t)

/-- The elements of an array, up to its closing bracket. -/
def scanElements (lim : Option ℕ) : ℕ → List Char → Option (List Json × List Char)
  | 0, _ => none
  | fuel + 1, t =>
    match scanValue lim fuel t with
    | none => none
    | some (v, t) =>
      match skipBlank t with
      | ',' :: t => (scanElements lim fuel (skipBlank t)).map fun (vs, t) => (v :: vs, t)
      | ']' :: t => some ([v], t)
      | _ => none

/-- The members of an object, up to its closing brace. -/
def scanMembers (lim : Option ℕ) : ℕ → List Char → Option (List (String × Json) × List Char)
  | 0, _ => none
  | fuel + 1, t =>
    match scanQuoted t with
    | none => none
    | some (k, t) =>
      match skipBlank t with
      | ':' :: t =>
        match scanValue lim fuel (skipBlank t) with
        | none => none
        | some (v, t) =>
          match skipBlank t with
          | ',' :: t =>
            (scanMembers lim fuel (skipBlank t)).map fun (ms, t) => ((k, v) :: ms, t)
          | '}' :: t => some ([(k, v)], t)
          | _ => none
      | _ => none

end

/-- A JSON text. -/
def loads (lim : Option ℕ) (t : List Char) : Option Json :=
  match scanValue lim (t.length + 1) (skipBlank t) with
  | none => none
  | some (v, t) => if skipBlank t = [] then some v else none

/-- `json.loads`: `int` converts strings of at most 4300 digits. -/
def jsonLoads (t : List Char) : Option Json := loads (some 4300) t

/-- Fuel above a bound is that of a round and some that is left. -/
theorem forall_fuel {P : ℕ → Prop} {n : ℕ} (h : ∀ fuel, n ≤ fuel → P (fuel + 1)) (fuel : ℕ)
    (hfuel : n < fuel) : P fuel := by
  obtain ⟨fuel, rfl⟩ := Nat.exists_eq_succ_of_ne_zero (Nat.ne_zero_of_lt hfuel)
  exact h fuel (Nat.le_of_lt_succ hfuel)

/-! ### Strings of the grammar -/

variable {c : Char} {t cs ds rest fs es ws : List Char} {neg : Bool} {lim : Option ℕ} {v : Json}

theorem scanEscape_letter {e : Char} (h : escaped e = some c) (t : List Char) :
    scanEscape (e :: t) = some (c, t) := by
  have hu : e ≠ 'u' := by
    rintro rfl
    have hnone : escaped 'u' = none := by decide
    simp [hnone] at h
  rw [scanEscape, if_neg hu, h, Option.map_some]

theorem scanEscape_unicode {a b d : Char} {n : ℕ} (hhex : hexFour a b c d = some n)
    (hhigh : isHigh n = false) (hlow : isLow n = false) (t : List Char) :
    scanEscape ('u' :: a :: b :: c :: d :: t) = some (Char.ofNat n, t) := by
  simp [scanEscape, scanHex, hhex, hhigh, hlow]

theorem scanEscape_pair {a b d a' b' c' d' : Char} {high low : ℕ}
    (hhex : hexFour a b c d = some high) (hhigh : isHigh high = true)
    (hhex' : hexFour a' b' c' d' = some low) (hlow : isLow low = true) (t : List Char) :
    scanEscape ('u' :: a :: b :: c :: d :: '\\' :: 'u' :: a' :: b' :: c' :: d' :: t) =
      some (pairChar high low, t) := by
  simp [scanEscape, scanHex, scanLow, hhex, hhigh, hhex', hlow]

theorem scanString_backslash {fuel : ℕ} {d : Char} {t' : List Char}
    (h : scanEscape t = some (d, t')) :
    scanString (fuel + 1) ('\\' :: t) = (scanString fuel t').map fun (s, t) => (d :: s, t) := by
  rw [scanString, if_neg (by decide), if_pos rfl, h]

/-- **A string of the grammar is read**, up to its closing quote. -/
theorem scanString_of_chars {s : List Char} (h : Chars s t) (rest : List Char) :
    ∀ fuel, t.length < fuel → scanString fuel (t ++ '"' :: rest) = some (s, rest) := by
  induction h with
  | nil => exact forall_fuel fun fuel _ => by simp [scanString]
  | plain hc _ ih =>
    refine forall_fuel fun fuel hfuel => ?_
    simp only [isUnescaped, Bool.and_eq_true, decide_eq_true_eq, bne_iff_ne, ne_eq] at hc
    obtain ⟨⟨hcontrol, hquote⟩, hbackslash⟩ := hc
    rw [cons_append, scanString, if_neg hquote, if_neg hbackslash,
      if_neg (Nat.not_lt.mpr hcontrol), ih fuel hfuel, Option.map_some]
  | escape he _ ih =>
    refine forall_fuel fun fuel hfuel => ?_
    simp only [length_cons] at hfuel
    rw [cons_append, cons_append, scanString_backslash (scanEscape_letter he _),
      ih fuel (by omega), Option.map_some]
  | unicode hhex hhigh hlow _ ih =>
    refine forall_fuel fun fuel hfuel => ?_
    simp only [length_cons] at hfuel
    simp only [cons_append]
    rw [scanString_backslash (scanEscape_unicode hhex hhigh hlow _), ih fuel (by omega),
      Option.map_some]
  | pair hhex hhigh hhex' hlow _ ih =>
    refine forall_fuel fun fuel hfuel => ?_
    simp only [length_cons] at hfuel
    simp only [cons_append]
    rw [scanString_backslash (scanEscape_pair hhex hhigh hhex' hlow _), ih fuel (by omega),
      Option.map_some]

theorem scanQuoted_of_stringText {s : String} (h : StringText s cs) (rest : List Char) :
    scanQuoted (cs ++ rest) = some (s, rest) := by
  obtain ⟨hchars⟩ := h
  rw [cons_append, append_assoc, singleton_append, scanQuoted,
    scanString_of_chars hchars rest _ (by rw [length_append]; omega), Option.map_some]

/-! ### Numbers of the grammar -/

/-- What stands behind a number does not continue it. -/
def Ends (rest : List Char) : Prop :=
  ∀ c, rest.head? = some c → c.isDigit = false ∧ c ≠ '.' ∧ isExp c = false

theorem scanInt_append (hds : IsNumeral ds) (hrest : ∀ c, rest.head? = some c → c.isDigit = false) :
    scanInt (ds ++ rest) = some (ds, rest) := by
  cases ds with
  | nil => exact absurd rfl hds.ne_nil
  | cons d ds =>
    rw [cons_append, scanInt]
    by_cases hzero : d = '0'
    · have hnil : ds = [] := by
        by_contra hne
        have hlen := length_pos_iff.mpr hne
        exact hds.head (by rw [length_cons]; omega) (by rw [hzero, List.head?_cons])
      rw [if_pos hzero, hnil, nil_append]
    · rw [if_neg hzero, if_pos (hds.isDigit d mem_cons_self), ← cons_append,
        takeWhile_append_exact hds.isDigit hrest, dropWhile_append_exact hds.isDigit hrest]

theorem Digits.scan (hds : Digits ds) (hrest : ∀ c, rest.head? = some c → c.isDigit = false) :
    (ds ++ rest).takeWhile Char.isDigit = ds ∧ (ds ++ rest).dropWhile Char.isDigit = rest :=
  ⟨takeWhile_append_exact hds.2 hrest, dropWhile_append_exact hds.2 hrest⟩

theorem scanFrac_append (hfs : Digits fs) (hrest : ∀ c, rest.head? = some c → c.isDigit = false) :
    scanFrac ('.' :: (fs ++ rest)) = (fs, rest) := by
  obtain ⟨htake, hdrop⟩ := hfs.scan hrest
  rw [scanFrac, htake, hdrop, if_neg hfs.1]

theorem scanFrac_absent (h : rest.head? ≠ some '.') : scanFrac rest = ([], rest) := by
  unfold scanFrac
  split
  · simp at h
  · rfl

theorem scanExpDigits_append (hds : Digits ds)
    (hrest : ∀ c, rest.head? = some c → c.isDigit = false) :
    scanExpDigits neg (ds ++ rest) = some (signed neg (decimal ds), rest) := by
  obtain ⟨htake, hdrop⟩ := hds.scan hrest
  rw [scanExpDigits, htake, hdrop, if_neg hds.1]

theorem scanExp_append {e : ℤ} (h : ExpText e es)
    (hrest : ∀ c, rest.head? = some c → c.isDigit = false) :
    scanExp (es ++ rest) = some (e, rest) := by
  cases h with
  | @unsigned letter ds hletter hds =>
    -- the first digit is no sign
    obtain ⟨d, ds, rfl⟩ := exists_cons_of_ne_nil hds.1
    have hd := hds.2 d mem_cons_self
    have hplus : d ≠ '+' := by rintro rfl; exact absurd hd (by decide)
    have hminus : d ≠ '-' := by rintro rfl; exact absurd hd (by decide)
    rw [cons_append, scanExp, if_pos hletter, scanExpSign]
    · exact scanExpDigits_append hds hrest
    · rintro t heq
      exact hplus (List.cons.inj heq).1
    · rintro t heq
      exact hminus (List.cons.inj heq).1
  | plus hletter hds | minus hletter hds =>
    rw [cons_append, cons_append, scanExp, if_pos hletter]
    exact scanExpDigits_append hds hrest

theorem scanExp_absent (h : ∀ c, rest.head? = some c → isExp c = false) : scanExp rest = none := by
  cases rest with
  | nil => rfl
  | cons c rest => rw [scanExp, if_neg (by simp [h c rfl])]

theorem ExpText.head {e : ℤ} (h : ExpText e es) (hc : (es ++ rest).head? = some c) :
    isExp c = true := by
  cases h <;> (obtain rfl := Option.some.inj hc; assumption)

theorem isExp_ne (h : isExp c = true) : c.isDigit = false ∧ c ≠ '.' := by
  simp only [isExp, Bool.or_eq_true, beq_iff_eq] at h
  rcases h with rfl | rfl <;> decide

theorem scanUnsigned_int (hds : IsNumeral ds) (hlim : ∀ m ∈ lim, ds.length ≤ m)
    (hrest : Ends rest) :
    scanUnsigned lim neg (ds ++ rest) = some (.int (signed neg (decimal ds)), rest) := by
  have hany : lim.any (· < ds.length) = false := by
    cases lim with
    | none => rfl
    | some m => simpa using hlim m rfl
  have hdot : rest.head? ≠ some '.' := fun h => (hrest '.' h).2.1 rfl
  simp only [scanUnsigned, scanInt_append hds fun c hc => (hrest c hc).1, scanFrac_absent hdot,
    scanExp_absent fun c hc => (hrest c hc).2.2, hany]
  simp

theorem scanUnsigned_frac (hds : IsNumeral ds) (hfs : Digits fs) (hrest : Ends rest) :
    scanUnsigned lim neg (ds ++ '.' :: (fs ++ rest)) =
      some (.float (scaled (signed neg (decimal (ds ++ fs))) (-fs.length)), rest) := by
  have hdot : ∀ c, ('.' :: (fs ++ rest)).head? = some c → c.isDigit = false := by
    rintro c ⟨⟩
    decide
  simp only [scanUnsigned, scanInt_append hds hdot, scanFrac_append hfs fun c hc => (hrest c hc).1,
    scanExp_absent fun c hc => (hrest c hc).2.2]
  rw [if_pos hfs.1]

theorem scanUnsigned_exp {text : List Char} {e : ℤ} (hds : IsNumeral ds) (hfs : FracText fs text)
    (hes : ExpText e es) (hrest : Ends rest) :
    scanUnsigned lim neg (ds ++ (text ++ (es ++ rest))) =
      some (.float (scaled (signed neg (decimal (ds ++ fs))) (e - fs.length)), rest) := by
  have hexp : ∀ c, (es ++ rest).head? = some c → c.isDigit = false ∧ c ≠ '.' := fun c hc =>
    isExp_ne (hes.head hc)
  have hscan := scanExp_append hes fun c hc => (hrest c hc).1
  cases hfs with
  | absent =>
    have hdot : (es ++ rest).head? ≠ some '.' := fun h => (hexp '.' h).2 rfl
    simp only [scanUnsigned, nil_append, scanInt_append hds fun c hc => (hexp c hc).1,
      scanFrac_absent hdot, hscan]
  | present hfs =>
    have hdot : ∀ c, ('.' :: (fs ++ (es ++ rest))).head? = some c → c.isDigit = false := by
      rintro c ⟨⟩
      decide
    simp only [scanUnsigned, cons_append, scanInt_append hds hdot,
      scanFrac_append hfs fun c hc => (hexp c hc).1, hscan]

theorem scanNumber_sign (h : t.head? ≠ some '-') :
    scanNumber lim (sign neg ++ t) = scanUnsigned lim neg t := by
  cases neg with
  | true => rfl
  | false =>
    unfold scanNumber
    split
    · rename_i heq
      exact absurd (by rw [← nil_append t]; exact congrArg List.head? heq) h
    · rfl

theorem head_ne_of_isNumeral (h : IsNumeral ds) (hc : c.isDigit = false) :
    (ds ++ rest).head? ≠ some c := by
  obtain ⟨d, ds, rfl⟩ := exists_cons_of_ne_nil h.ne_nil
  intro heq
  cases heq
  exact h.notMem hc mem_cons_self

/-- **A number of the grammar is read**, if what stands behind it does not continue it. -/
theorem scanNumber_append (h : NumberText lim v cs) (hrest : Ends rest) :
    scanNumber lim (cs ++ rest) = some (v, rest) := by
  cases h with
  | int hds hlim =>
    rw [append_assoc, scanNumber_sign (head_ne_of_isNumeral hds (by decide)),
      scanUnsigned_int hds hlim hrest]
  | frac hds hfs =>
    rw [append_assoc, append_assoc,
      scanNumber_sign (head_ne_of_isNumeral hds (by decide)), cons_append,
      scanUnsigned_frac hds hfs hrest]
  | exp hds hfs hes =>
    rw [append_assoc, append_assoc, append_assoc,
      scanNumber_sign (head_ne_of_isNumeral hds (by decide)), scanUnsigned_exp hds hfs hes hrest]

/-! ### Values of the grammar -/

/-- A text that begins with a character of its own: no white space and no closing bracket. -/
def Starts (cs : List Char) : Prop := ∃ c t, cs = c :: t ∧ isBlank c = false ∧ c ≠ ']' ∧ c ≠ '}'

theorem starts_cons (c : Char) (t : List Char)
    (h : isBlank c = false ∧ c ≠ ']' ∧ c ≠ '}' := by decide) : Starts (c :: t) :=
  ⟨c, t, rfl, h⟩

theorem Starts.append (h : Starts cs) (rest : List Char) : Starts (cs ++ rest) := by
  obtain ⟨c, t, rfl, h⟩ := h
  exact ⟨c, t ++ rest, rfl, h⟩

theorem Starts.head_ne (h : Starts cs) : cs.head? ≠ some ']' ∧ cs.head? ≠ some '}' := by
  obtain ⟨c, t, rfl, -, hbracket, hbrace⟩ := h
  exact ⟨fun h => hbracket (Option.some.inj h), fun h => hbrace (Option.some.inj h)⟩

theorem skipBlank_append (hws : Blank ws) (ht : Starts t) : skipBlank (ws ++ t) = t := by
  obtain ⟨c, t, rfl, hc, -⟩ := ht
  refine dropWhile_append_exact hws ?_
  rintro d ⟨⟩
  exact hc

theorem skipBlank_append_cons (hws : Blank ws) (c : Char) (t : List Char)
    (hc : isBlank c = false := by decide) : skipBlank (ws ++ c :: t) = c :: t := by
  refine dropWhile_append_exact hws ?_
  rintro d ⟨⟩
  exact hc

theorem skipBlank_blank (hws : Blank ws) : skipBlank ws = [] := by
  have hdrop : skipBlank (ws ++ []) = [] := dropWhile_append_exact hws (by simp)
  rwa [append_nil] at hdrop

theorem ends_of_isBlank (h : isBlank c = true) : c.isDigit = false ∧ c ≠ '.' ∧ isExp c = false := by
  simp only [isBlank, Bool.or_eq_true, beq_iff_eq] at h
  rcases h with ((rfl | rfl) | rfl) | rfl <;> decide

theorem ends_append (hws : Blank ws) (hrest : Ends rest) : Ends (ws ++ rest) := by
  cases ws with
  | nil => exact hrest
  | cons c ws =>
    rintro d ⟨⟩
    exact ends_of_isBlank (hws c mem_cons_self)

theorem ends_nil : Ends [] := by simp [Ends]

theorem ends_cons (c : Char) (t : List Char)
    (h : c.isDigit = false ∧ c ≠ '.' ∧ isExp c = false := by decide) : Ends (c :: t) := by
  rintro d ⟨⟩
  exact h

/-- What the reader makes of a text of each category. -/
def Reads (lim : Option ℕ) : Category → List Char → Prop
  | .value v, cs => Starts cs ∧ ∀ fuel, cs.length < fuel → ∀ rest, Ends rest →
      scanValue lim fuel (cs ++ rest) = some (v, rest)
  | .elements vs, cs => ∃ ws cs', cs = ws ++ cs' ∧ Blank ws ∧ Starts cs' ∧ ∀ fuel,
      cs'.length + 1 < fuel → ∀ rest, scanElements lim fuel (cs' ++ ']' :: rest) = some (vs, rest)
  | .members ms, cs => ∃ ws cs', cs = ws ++ cs' ∧ Blank ws ∧ Starts cs' ∧ ∀ fuel,
      cs'.length + 1 < fuel → ∀ rest, scanMembers lim fuel (cs' ++ '}' :: rest) = some (ms, rest)

theorem starts_of_stringText {s : String} (h : StringText s cs) : Starts cs := by
  obtain ⟨-⟩ := h
  exact starts_cons _ _

theorem isDigit_ne (h : c.isDigit = true) :
    isBlank c = false ∧ c ∉ ['"', '[', ']', '{', '}', 'n', 't', 'f'] := by
  obtain ⟨hlo, hhi⟩ := isDigit_iff.mp h
  have hne {d : Char} (hd : d.toNat < 48 ∨ 57 < d.toNat) : c ≠ d := by
    rintro rfl
    omega
  constructor
  · simp only [isBlank, Bool.or_eq_false_iff, beq_eq_false_iff_ne]
    exact ⟨⟨⟨hne (by decide), hne (by decide)⟩, hne (by decide)⟩, hne (by decide)⟩
  · simp only [List.mem_cons, List.not_mem_nil, or_false, not_or]
    exact ⟨hne (by decide), hne (by decide), hne (by decide), hne (by decide), hne (by decide),
      hne (by decide), hne (by decide), hne (by decide)⟩

theorem head_of_numberText (h : NumberText lim v cs) :
    ∃ c t, cs = c :: t ∧ (c = '-' ∨ c.isDigit = true) := by
  have hsigned {neg : Bool} {ds rest : List Char} (hds : IsNumeral ds) :
      ∃ c t, sign neg ++ (ds ++ rest) = c :: t ∧ (c = '-' ∨ c.isDigit = true) := by
    obtain ⟨d, ds, rfl⟩ := List.exists_cons_of_ne_nil hds.ne_nil
    cases neg with
    | true => exact ⟨_, _, rfl, .inl rfl⟩
    | false => exact ⟨d, ds ++ rest, rfl, .inr (hds.isDigit d List.mem_cons_self)⟩
  cases h with
  | @int neg ds hds _ => simpa using @hsigned neg ds [] hds
  | frac hds | exp hds => exact hsigned hds

theorem reads_number (h : NumberText lim v cs) : Reads lim (.value v) cs := by
  obtain ⟨c, t, rfl, hc⟩ := head_of_numberText h
  have hne : isBlank c = false ∧ c ∉ ['"', '[', ']', '{', '}', 'n', 't', 'f'] := by
    rcases hc with rfl | hc
    · decide
    · exact isDigit_ne hc
  obtain ⟨hblank, hne⟩ := hne
  simp only [mem_cons, not_mem_nil, or_false, not_or] at hne
  obtain ⟨hquote, hopen, hclose, hbrace, hbrace', hn, ht, hf⟩ := hne
  refine ⟨⟨c, t, rfl, hblank, hclose, hbrace'⟩, forall_fuel fun fuel _ rest hrest => ?_⟩
  rw [cons_append, scanValue, if_neg hquote, if_neg hbrace, if_neg hopen, if_neg hn,
    if_neg ht, if_neg hf, ← cons_append, scanNumber_append h hrest]

/-- **What the grammar derives is read**, by induction on the derivation. -/
theorem reads_of_derives {cat : Category} (h : Derives lim cat cs) : Reads lim cat cs := by
  induction h with
  | null | true | false =>
    refine ⟨starts_cons _ _, forall_fuel fun fuel hfuel rest _ => ?_⟩
    simp [scanValue, scanWord]
  | number h => exact reads_number h
  | str h =>
    refine ⟨starts_of_stringText h, forall_fuel fun fuel _ rest _ => ?_⟩
    have hscan := scanQuoted_of_stringText h rest
    obtain ⟨-⟩ := h
    rw [cons_append] at hscan ⊢
    rw [scanValue, if_pos rfl, hscan, Option.map_some]
  | arrNil hws =>
    refine ⟨starts_cons _ _, forall_fuel fun fuel hfuel rest _ => ?_⟩
    have hskip := skipBlank_append_cons hws ']' rest
    simp only [cons_append, append_assoc, nil_append]
    rw [scanValue, if_neg (by decide), if_neg (by decide), if_pos rfl, hskip,
      if_pos List.head?_cons, tail_cons]
  | objNil hws =>
    refine ⟨starts_cons _ _, forall_fuel fun fuel hfuel rest _ => ?_⟩
    have hskip := skipBlank_append_cons hws '}' rest
    simp only [cons_append, append_assoc, nil_append]
    rw [scanValue, if_neg (by decide), if_pos rfl, hskip,
      if_pos List.head?_cons, tail_cons]
  | arr _ ih =>
    obtain ⟨ws, cs, rfl, hws, hstarts, hscan⟩ := ih
    refine ⟨starts_cons _ _, forall_fuel fun fuel hfuel rest _ => ?_⟩
    simp only [length_cons, length_append, length_nil] at hfuel
    have hskip := skipBlank_append hws (hstarts.append (']' :: rest))
    simp only [cons_append, append_assoc, nil_append]
    rw [scanValue, if_neg (by decide), if_neg (by decide), if_pos rfl, hskip,
      if_neg (hstarts.append _).head_ne.1, hscan fuel (by omega) rest, Option.map_some]
  | obj _ ih =>
    obtain ⟨ws, cs, rfl, hws, hstarts, hscan⟩ := ih
    refine ⟨starts_cons _ _, forall_fuel fun fuel hfuel rest _ => ?_⟩
    simp only [length_cons, length_append, length_nil] at hfuel
    have hskip := skipBlank_append hws (hstarts.append ('}' :: rest))
    simp only [cons_append, append_assoc, nil_append]
    rw [scanValue, if_neg (by decide), if_pos rfl, hskip,
      if_neg (hstarts.append _).head_ne.2, hscan fuel (by omega) rest, Option.map_some]
  | element hws _ hws' ih =>
    obtain ⟨hstarts, hscan⟩ := ih
    refine ⟨_, _, rfl, hws, hstarts.append _, forall_fuel fun fuel hfuel rest => ?_⟩
    rw [length_append] at hfuel
    have hends := ends_append hws' (ends_cons ']' rest)
    rw [append_assoc, scanElements, hscan fuel (by omega) _ hends]
    simp only [skipBlank_append_cons hws' ']']
  | elements hws _ hws' _ ih ihs =>
    obtain ⟨hstarts, hscan⟩ := ih
    obtain ⟨ws₂, cs₂, rfl, hws₂, hstarts₂, hscan₂⟩ := ihs
    refine ⟨_, _, rfl, hws, hstarts.append _, forall_fuel fun fuel hfuel rest => ?_⟩
    simp only [length_append, length_cons] at hfuel
    have hends (t : List Char) := ends_append hws' (ends_cons ',' t)
    have hskip := skipBlank_append hws₂ (hstarts₂.append (']' :: rest))
    simp only [append_assoc, cons_append]
    rw [scanElements, hscan fuel (by omega) _ (hends _)]
    simp only [skipBlank_append_cons hws' ',', hskip,
      hscan₂ fuel (by omega) rest, Option.map_some]
  | member hws hk hws₁ hws₂ _ hws' ih =>
    obtain ⟨hstarts, hscan⟩ := ih
    refine ⟨_, _, rfl, hws, (starts_of_stringText hk).append _,
      forall_fuel fun fuel hfuel rest => ?_⟩
    simp only [length_append, length_cons] at hfuel
    have hends := ends_append hws' (ends_cons '}' rest)
    have hskip (t : List Char) := skipBlank_append hws₂ (hstarts.append t)
    simp only [append_assoc, cons_append]
    rw [scanMembers, scanQuoted_of_stringText hk]
    simp only [skipBlank_append_cons hws₁ ':', hskip,
      hscan fuel (by omega) _ hends, skipBlank_append_cons hws' '}']
  | members hws hk hws₁ hws₂ _ hws' _ ih ihs =>
    obtain ⟨hstarts, hscan⟩ := ih
    obtain ⟨ws₃, cs₃, rfl, hws₃, hstarts₃, hscan₃⟩ := ihs
    refine ⟨_, _, rfl, hws, (starts_of_stringText hk).append _,
      forall_fuel fun fuel hfuel rest => ?_⟩
    simp only [length_append, length_cons] at hfuel
    have hends (t : List Char) := ends_append hws' (ends_cons ',' t)
    have hskip (t : List Char) := skipBlank_append hws₂ (hstarts.append t)
    have hskip₃ := skipBlank_append hws₃ (hstarts₃.append ('}' :: rest))
    simp only [append_assoc, cons_append]
    rw [scanMembers, scanQuoted_of_stringText hk]
    simp only [skipBlank_append_cons hws₁ ':', hskip,
      hscan fuel (by omega) _ (hends _),
      skipBlank_append_cons hws' ',', hskip₃,
      hscan₃ fuel (by omega) rest, Option.map_some]

/-- **A text of the grammar is read as its value.** -/
theorem loads_of_jsonText (h : JsonText lim v cs) : loads lim cs = some v := by
  obtain ⟨hws, hvalue, hws'⟩ := h
  obtain ⟨hstarts, hscan⟩ := reads_of_derives hvalue
  have hends := ends_append hws' ends_nil
  rw [append_nil] at hends
  rw [loads, skipBlank_append hws (hstarts.append _),
    hscan _ (by simp only [length_append]; omega) _ hends]
  simp only [skipBlank_blank hws', if_true]

end PetlibroLocal.JsonGrammar
