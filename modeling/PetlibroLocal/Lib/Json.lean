import Mathlib.Data.Int.Notation
import PetlibroLocal.Lib.Decimal

/-!
# JSON

JSON values, and the grammar of RFC 8259 as a relation between values and texts: `JsonText` holds
of a value and a text that the grammar derives for it. The members of an object are kept in the
order of the text. Numbers with a fraction or an exponent have their exact value.

Some readers bound the digits of an integer; the grammar has that bound as a parameter, and
without it (`none`) it is the grammar of the standard.
-/

namespace PetlibroLocal

/-- A JSON value. An object is the list of its members. -/
inductive Json
  | null
  | bool (b : Bool)
  | int (n : ℤ)
  | float (q : Rat)
  | str (s : String)
  | arr (items : List Json)
  | obj (fields : List (String × Json))

/-- No object in the value gives a key twice. -/
inductive Json.UniqueKeys : Json → Prop
  | null : UniqueKeys .null
  | bool (b : Bool) : UniqueKeys (.bool b)
  | int (n : ℤ) : UniqueKeys (.int n)
  | float (q : Rat) : UniqueKeys (.float q)
  | str (s : String) : UniqueKeys (.str s)
  | arr {items : List Json} : (∀ v ∈ items, UniqueKeys v) → UniqueKeys (.arr items)
  | obj {fields : List (String × Json)} : (fields.map Prod.fst).Nodup →
      (∀ m ∈ fields, UniqueKeys m.2) → UniqueKeys (.obj fields)

namespace JsonGrammar

/-! ### White space and numbers -/

/-- White space. -/
def isBlank (c : Char) : Bool := c == ' ' || c == '\t' || c == '\n' || c == '\r'

/-- `ws`. -/
def Blank (ws : List Char) : Prop := ∀ c ∈ ws, isBlank c = true

/-- One digit or more. -/
def Digits (ds : List Char) : Prop := ds ≠ [] ∧ ∀ c ∈ ds, c.isDigit = true

/-- `frac`, if there is one: its digits. -/
inductive FracText : List Char → List Char → Prop
  | absent : FracText [] []
  | present {ds : List Char} : Digits ds → FracText ds ('.' :: ds)

/-- The letter of an exponent. -/
def isExp (c : Char) : Bool := c == 'e' || c == 'E'

/-- `exp`: its value. -/
inductive ExpText : ℤ → List Char → Prop
  | unsigned {e : Char} {ds : List Char} : isExp e = true → Digits ds →
      ExpText (decimal ds) (e :: ds)
  | plus {e : Char} {ds : List Char} : isExp e = true → Digits ds →
      ExpText (decimal ds) (e :: '+' :: ds)
  | minus {e : Char} {ds : List Char} : isExp e = true → Digits ds →
      ExpText (-decimal ds) (e :: '-' :: ds)

/-- A number of digits with its sign. -/
def signed (neg : Bool) (n : ℕ) : ℤ := if neg then -n else n

/-- The sign. -/
def sign (neg : Bool) : List Char := if neg then ['-'] else []

/-- The number `n` with the decimal point moved by `e`. -/
def scaled (n e : ℤ) : Rat :=
  if 0 ≤ e then mkRat (n * (10 ^ e.toNat : ℕ)) 1 else mkRat n (10 ^ (-e).toNat)

/-- `number`, with at most `lim` digits if it is an integer. -/
inductive NumberText (lim : Option ℕ) : Json → List Char → Prop
  | int {neg : Bool} {ds : List Char} : IsNumeral ds → (∀ m ∈ lim, ds.length ≤ m) →
      NumberText lim (.int (signed neg (decimal ds))) (sign neg ++ ds)
  | frac {neg : Bool} {ds fs : List Char} : IsNumeral ds → Digits fs →
      NumberText lim (.float (scaled (signed neg (decimal (ds ++ fs))) (-fs.length)))
        (sign neg ++ (ds ++ '.' :: fs))
  | exp {neg : Bool} {ds fs text es : List Char} {e : ℤ} : IsNumeral ds → FracText fs text →
      ExpText e es →
      NumberText lim (.float (scaled (signed neg (decimal (ds ++ fs))) (e - fs.length)))
        (sign neg ++ (ds ++ (text ++ es)))

/-! ### Strings -/

/-- `unescaped`. -/
def isUnescaped (c : Char) : Bool := 0x20 ≤ c.toNat && c != '"' && c != '\\'

/-- The character that a letter stands for behind a backslash. -/
def escaped (e : Char) : Option Char :=
  [('"', '"'), ('\\', '\\'), ('/', '/'), ('b', '\x08'), ('f', '\x0c'), ('n', '\n'), ('r', '\r'),
    ('t', '\t')].lookup e

/-- The value of a hexadecimal digit. -/
def hexValue (c : Char) : Option ℕ :=
  if c.isDigit then some (digitValue c)
  else if 'a' ≤ c ∧ c ≤ 'f' then some (c.toNat - 'a'.toNat + 10)
  else if 'A' ≤ c ∧ c ≤ 'F' then some (c.toNat - 'A'.toNat + 10)
  else none

/-- Four hexadecimal digits. -/
def hexFour (a b c d : Char) : Option ℕ := do
  pure ((((← hexValue a) * 16 + (← hexValue b)) * 16 + (← hexValue c)) * 16 + (← hexValue d))

/-- The first half of a pair of surrogates. -/
def isHigh (n : ℕ) : Bool := 0xd800 ≤ n && n < 0xdc00

/-- The second half of a pair of surrogates. -/
def isLow (n : ℕ) : Bool := 0xdc00 ≤ n && n < 0xe000

/-- The character of a pair of surrogates. -/
def pairChar (high low : ℕ) : Char :=
  Char.ofNat (0x10000 + (high - 0xd800) * 0x400 + (low - 0xdc00))

/-- `*char`: the characters and how they are written. Surrogates stand in pairs. -/
inductive Chars : List Char → List Char → Prop
  | nil : Chars [] []
  | plain {c : Char} {s t : List Char} : isUnescaped c = true → Chars s t → Chars (c :: s) (c :: t)
  | escape {c e : Char} {s t : List Char} : escaped e = some c → Chars s t →
      Chars (c :: s) ('\\' :: e :: t)
  | unicode {a b c d : Char} {n : ℕ} {s t : List Char} : hexFour a b c d = some n →
      isHigh n = false → isLow n = false → Chars s t →
      Chars (Char.ofNat n :: s) ('\\' :: 'u' :: a :: b :: c :: d :: t)
  | pair {a b c d a' b' c' d' : Char} {high low : ℕ} {s t : List Char} :
      hexFour a b c d = some high → isHigh high = true →
      hexFour a' b' c' d' = some low → isLow low = true → Chars s t →
      Chars (pairChar high low :: s)
        ('\\' :: 'u' :: a :: b :: c :: d :: '\\' :: 'u' :: a' :: b' :: c' :: d' :: t)

/-- `string`. -/
inductive StringText : String → List Char → Prop
  | mk {s t : List Char} : Chars s t → StringText (String.ofList s) ('"' :: (t ++ ['"']))

/-! ### Values -/

/-- What a text is read as. -/
inductive Category
  | value (v : Json)
  | elements (vs : List Json)
  | members (ms : List (String × Json))

/-- **The grammar**: values, the elements of an array with commas between them, and the members
of an object. The white space around a part belongs to the elements or the members. -/
inductive Derives (lim : Option ℕ) : Category → List Char → Prop
  | null : Derives lim (.value .null) "null".toList
  | true : Derives lim (.value (.bool true)) "true".toList
  | false : Derives lim (.value (.bool false)) "false".toList
  | number {v : Json} {cs : List Char} : NumberText lim v cs → Derives lim (.value v) cs
  | str {s : String} {cs : List Char} : StringText s cs → Derives lim (.value (.str s)) cs
  | arrNil {ws : List Char} : Blank ws → Derives lim (.value (.arr [])) ('[' :: (ws ++ [']']))
  | arr {vs : List Json} {cs : List Char} : Derives lim (.elements vs) cs →
      Derives lim (.value (.arr vs)) ('[' :: (cs ++ [']']))
  | objNil {ws : List Char} : Blank ws → Derives lim (.value (.obj [])) ('{' :: (ws ++ ['}']))
  | obj {ms : List (String × Json)} {cs : List Char} : Derives lim (.members ms) cs →
      Derives lim (.value (.obj ms)) ('{' :: (cs ++ ['}']))
  | element {ws cs ws' : List Char} {v : Json} : Blank ws → Derives lim (.value v) cs → Blank ws' →
      Derives lim (.elements [v]) (ws ++ (cs ++ ws'))
  | elements {ws cs ws' rest : List Char} {v : Json} {vs : List Json} : Blank ws →
      Derives lim (.value v) cs → Blank ws' → Derives lim (.elements vs) rest →
      Derives lim (.elements (v :: vs)) (ws ++ (cs ++ (ws' ++ ',' :: rest)))
  | member {ws ks ws₁ ws₂ cs ws' : List Char} {k : String} {v : Json} : Blank ws →
      StringText k ks → Blank ws₁ → Blank ws₂ → Derives lim (.value v) cs → Blank ws' →
      Derives lim (.members [(k, v)]) (ws ++ (ks ++ (ws₁ ++ ':' :: (ws₂ ++ (cs ++ ws')))))
  | members {ws ks ws₁ ws₂ cs ws' rest : List Char} {k : String} {v : Json}
      {ms : List (String × Json)} : Blank ws → StringText k ks → Blank ws₁ → Blank ws₂ →
      Derives lim (.value v) cs → Blank ws' → Derives lim (.members ms) rest →
      Derives lim (.members ((k, v) :: ms))
        (ws ++ (ks ++ (ws₁ ++ ':' :: (ws₂ ++ (cs ++ (ws' ++ ',' :: rest))))))

/-- `JSON-text`. -/
inductive JsonText (lim : Option ℕ) : Json → List Char → Prop
  | mk {ws cs ws' : List Char} {v : Json} : Blank ws → Derives lim (.value v) cs → Blank ws' →
      JsonText lim v (ws ++ (cs ++ ws'))

/-! ### Writing texts -/

theorem blank_nil : Blank [] := List.forall_mem_nil _

theorem blank_append {ws ws' : List Char} (h : Blank ws) (h' : Blank ws') : Blank (ws ++ ws') :=
  fun c hc => (List.mem_append.mp hc).elim (h c) (h' c)

theorem Chars.append {s t s' t' : List Char} (h : Chars s t) (h' : Chars s' t') :
    Chars (s ++ s') (t ++ t') := by
  induction h with
  | nil => exact h'
  | plain hc _ ih => exact .plain hc ih
  | escape he _ ih => exact .escape he ih
  | unicode hhex hhigh hlow _ ih => exact .unicode hhex hhigh hlow ih
  | pair hhex hhigh hhex' hlow _ ih => exact .pair hhex hhigh hhex' hlow ih

variable {cs : List Char} {lim : Option ℕ}

/-- Characters that are each written by a rule of the grammar. -/
theorem Chars.flatMap {w : Char → List Char} (h : ∀ c ∈ cs, Chars [c] (w c)) :
    Chars cs (cs.flatMap w) := by
  induction cs with
  | nil => exact .nil
  | cons c cs ih =>
    obtain ⟨hc, hcs⟩ := List.forall_mem_cons.mp h
    exact hc.append (ih hcs)

theorem chars_self (h : ∀ c ∈ cs, isUnescaped c = true) : Chars cs cs := by
  have hflat := Chars.flatMap (w := fun c => [c]) fun c hc => .plain (h c hc) .nil
  rwa [List.flatMap_singleton'] at hflat

/-- A member without white space. -/
inductive MemberText (lim : Option ℕ) : String × Json → List Char → Prop
  | mk {k : String} {v : Json} {ks cs : List Char} : StringText k ks → Derives lim (.value v) cs →
      MemberText lim (k, v) (ks ++ ':' :: cs)

/-- **Elements with commas between them.** -/
theorem derives_elements {vs : List Json} {ts : List (List Char)}
    (h : List.Forall₂ (fun v t => Derives lim (.value v) t) vs ts) (hne : vs ≠ []) :
    Derives lim (.elements vs) ([','].intercalate ts) := by
  induction h with
  | nil => exact absurd rfl hne
  | @cons v t vs ts hv hrest ih =>
    cases hrest with
    | nil => simpa using Derives.element blank_nil hv blank_nil
    | cons hv' hrest =>
      rw [List.intercalate_cons_cons, List.append_assoc, List.singleton_append]
      exact .elements blank_nil hv blank_nil (ih (by simp))

/-- **Members with commas between them.** -/
theorem derives_members {ms : List (String × Json)} {ts : List (List Char)}
    (h : List.Forall₂ (MemberText lim) ms ts) (hne : ms ≠ []) :
    Derives lim (.members ms) ([','].intercalate ts) := by
  induction h with
  | nil => exact absurd rfl hne
  | @cons m t ms ts hm hrest ih =>
    obtain ⟨hk, hv⟩ := hm
    cases hrest with
    | nil => simpa using Derives.member blank_nil hk blank_nil blank_nil hv blank_nil
    | cons hm' hrest =>
      rw [List.intercalate_cons_cons, List.append_assoc, List.append_assoc, List.cons_append,
        List.singleton_append]
      exact .members blank_nil hk blank_nil blank_nil hv blank_nil (ih (by simp))

/-- A text within the bound on the digits is a text of the standard. -/
theorem Derives.standard {cat : Category} (h : Derives lim cat cs) : Derives none cat cs := by
  induction h with
  | null => exact .null
  | true => exact .true
  | false => exact .false
  | number h =>
    refine .number ?_
    cases h with
    | int hds => exact .int hds fun m hm => absurd hm (Option.not_mem_none m)
    | frac hds hfs => exact .frac hds hfs
    | exp hds hfs hes => exact .exp hds hfs hes
  | str h => exact .str h
  | arrNil hws => exact .arrNil hws
  | arr _ ih => exact .arr ih
  | objNil hws => exact .objNil hws
  | obj _ ih => exact .obj ih
  | element hws _ hws' ih => exact .element hws ih hws'
  | elements hws _ hws' _ ih ihs => exact .elements hws ih hws' ihs
  | member hws hk hws₁ hws₂ _ hws' ih => exact .member hws hk hws₁ hws₂ ih hws'
  | members hws hk hws₁ hws₂ _ hws' _ ih ihs => exact .members hws hk hws₁ hws₂ ih hws' ihs

theorem JsonText.standard {v : Json} (h : JsonText lim v cs) : JsonText none v cs := by
  obtain ⟨hws, hvalue, hws'⟩ := h
  exact ⟨hws, hvalue.standard, hws'⟩

end JsonGrammar

end PetlibroLocal
