import Mathlib.Data.List.Basic
import Mathlib.Data.List.TakeWhile
import RestreamPlus.Lib.Dict
import RestreamPlus.Lib.IntText

/-!
# JSON as text

Compact JSON in ASCII, as a scripting language writes it, and a reader of JSON texts: white
space between the tokens, escapes, surrogate pairs, and objects whose last value for a key
counts. `loads_dumps` says that what was written is read back.

Floating-point numbers are a parameter: a type with a notation (`FloatFormat`). The words for
numbers that are none are not read, nor surrogates without a partner.
-/

namespace JsonText

/-- A value. The keys of an object are in the order of their first insertion. -/
inductive Value (F : Type) : Type where
  | null
  | bool (b : Bool)
  | int (n : ℤ)
  | float (x : F)
  | str (s : List Char)
  | arr (l : List (Value F))
  | obj (l : List (List Char × Value F))

/-! ## Numbers -/

/-- The longest run of digits, and what follows it. -/
def scanDigits (t : List Char) : List Char × List Char :=
  (t.takeWhile Char.isDigit, t.dropWhile Char.isDigit)

/-- Digits without a leading zero. -/
def scanNat : List Char → Option (List Char × List Char)
  | [] => none
  | c :: t =>
    if c = '0' then some ([c], t)
    else if c.isDigit then some (c :: (scanDigits t).1, (scanDigits t).2)
    else none

def scanInt : List Char → Option (List Char × List Char)
  | '-' :: t => (scanNat t).map fun r => ('-' :: r.1, r.2)
  | t => scanNat t

/-- A point with digits after it, if there is one. -/
def scanFraction (t : List Char) : List Char × List Char :=
  match t with
  | [] => ([], [])
  | c :: u =>
    if c = '.' ∧ (scanDigits u).1 ≠ [] then (c :: (scanDigits u).1, (scanDigits u).2) else ([], t)

def scanSign : List Char → List Char × List Char
  | [] => ([], [])
  | c :: t => if c = '+' ∨ c = '-' then ([c], t) else ([], c :: t)

/-- An exponent, if there is one. -/
def scanExponent (t : List Char) : List Char × List Char :=
  match t with
  | [] => ([], [])
  | c :: u =>
    let sign := scanSign u
    let digits := scanDigits sign.2
    if (c = 'e' ∨ c = 'E') ∧ digits.1 ≠ [] then (c :: sign.1 ++ digits.1, digits.2) else ([], t)

/-- A number: the integer part, the rest of it, and what follows. -/
def scanNumber (t : List Char) : Option (List Char × List Char × List Char) :=
  (scanInt t).map fun i =>
    let fraction := scanFraction i.2
    let exponent := scanExponent fraction.2
    (i.1, fraction.1 ++ exponent.1, exponent.2)

/-- Floating-point numbers with their notation: a number with a fraction or an exponent. -/
structure FloatFormat (F : Type) : Type where
  render : F → List Char
  parse : List Char → Option F
  token : ∀ x, ∃ i f, scanNumber (render x) = some (i, f, []) ∧ f ≠ [] ∧ i ++ f = render x
  parse_render : ∀ x, parse (render x) = some x

/-- Without any. -/
def FloatFormat.none : FloatFormat Empty where
  render x := x.elim
  parse _ := Option.none
  token x := x.elim
  parse_render x := x.elim

/-! ## Writing -/

/-- A code unit as four hexadecimal digits. -/
def escapeUnit (n : ℕ) : List Char :=
  ['\\', 'u', Nat.digitChar (n / 4096 % 16), Nat.digitChar (n / 256 % 16),
    Nat.digitChar (n / 16 % 16), Nat.digitChar (n % 16)]

/-- A character of a string. -/
def escapeChar (c : Char) : List Char :=
  if c = '"' then ['\\', '"']
  else if c = '\\' then ['\\', '\\']
  else if c = '\n' then ['\\', 'n']
  else if c = '\r' then ['\\', 'r']
  else if c = '\t' then ['\\', 't']
  else if c.toNat = 12 then ['\\', 'f']
  else if c.toNat = 8 then ['\\', 'b']
  else if 0x20 ≤ c.toNat ∧ c.toNat ≤ 0x7E then [c]
  else if c.toNat < 0x10000 then escapeUnit c.toNat
  -- a pair of surrogates
  else escapeUnit (0xD800 + (c.toNat - 0x10000) / 1024) ++
    escapeUnit (0xDC00 + (c.toNat - 0x10000) % 1024)

def quote (s : List Char) : List Char := '"' :: s.flatMap escapeChar ++ ['"']

variable {F : Type}

mutual

/-- A value as text, without any white space. -/
def text (fmt : FloatFormat F) : Value F → List Char
  | .null => "null".toList
  | .bool true => "true".toList
  | .bool false => "false".toList
  | .int n => IntText.render n
  | .float x => fmt.render x
  | .str s => quote s
  | .arr [] => "[]".toList
  | .arr (v :: l) => '[' :: text fmt v ++ restOfArray fmt l
  | .obj [] => ['{', '}']
  | .obj ((k, v) :: l) => '{' :: quote k ++ ':' :: text fmt v ++ restOfObject fmt l

/-- From the end of an element on. -/
def restOfArray (fmt : FloatFormat F) : List (Value F) → List Char
  | [] => [']']
  | v :: l => ',' :: text fmt v ++ restOfArray fmt l

/-- From the end of a value on. -/
def restOfObject (fmt : FloatFormat F) : List (List Char × Value F) → List Char
  | [] => ['}']
  | (k, v) :: l => ',' :: quote k ++ ':' :: text fmt v ++ restOfObject fmt l

end

mutual

/-- Its integers are not too long to be written. -/
def writable : Value F → Bool
  | .int n => (Nat.toDigits 10 n.natAbs).length ≤ IntText.maxDigits
  | .arr l => writableAll l
  | .obj l => writableValues l
  | .null | .bool _ | .float _ | .str _ => true

def writableAll : List (Value F) → Bool
  | [] => true
  | v :: l => writable v && writableAll l

def writableValues : List (List Char × Value F) → Bool
  | [] => true
  | (_, v) :: l => writable v && writableValues l

end

mutual

/-- How deep its lists and objects are nested. -/
def nesting : Value F → ℕ
  | .arr l => nestingAll l + 1
  | .obj l => nestingValues l + 1
  | .null | .bool _ | .int _ | .float _ | .str _ => 0

def nestingAll : List (Value F) → ℕ
  | [] => 0
  | v :: l => max (nesting v) (nestingAll l)

def nestingValues : List (List Char × Value F) → ℕ
  | [] => 0
  | (_, v) :: l => max (nesting v) (nestingValues l)

end

/-- `none` is the error of an integer that is too long. -/
def dumps (fmt : FloatFormat F) (v : Value F) : Option (List Char) :=
  if writable v then some (text fmt v) else none

/-! ## Reading -/

def hexValue (c : Char) : Option ℕ :=
  if c.isDigit then some (c.toNat - 48)
  else if 'a' ≤ c ∧ c ≤ 'f' then some (c.toNat - 87)
  else if 'A' ≤ c ∧ c ≤ 'F' then some (c.toNat - 55)
  else none

/-- Four hexadecimal digits. -/
def readUnit : List Char → Option (ℕ × List Char)
  | a :: b :: c :: d :: t =>
    (hexValue a).bind fun a => (hexValue b).bind fun b => (hexValue c).bind fun c =>
      (hexValue d).map fun d => (4096 * a + 256 * b + 16 * c + d, t)
  | _ => none

/-- The second half of a surrogate pair. -/
def readPartner (high : ℕ) : List Char → Option (Char × List Char)
  | '\\' :: 'u' :: t => (readUnit t).bind fun u =>
    if 0xDC00 ≤ u.1 ∧ u.1 < 0xE000 then
      some (Char.ofNat (0x10000 + 1024 * (high - 0xD800) + (u.1 - 0xDC00)), u.2)
    else none
  | _ => none

def simpleEscape (c : Char) : Option Char :=
  if c = '"' ∨ c = '\\' ∨ c = '/' then some c
  else if c = 'n' then some '\n'
  else if c = 'r' then some '\r'
  else if c = 't' then some '\t'
  else if c = 'f' then some (Char.ofNat 12)
  else if c = 'b' then some (Char.ofNat 8)
  else none

/-- After a backslash. -/
def readEscape : List Char → Option (Char × List Char)
  | [] => none
  | c :: t =>
    if c = 'u' then
      (readUnit t).bind fun u =>
        if 0xD800 ≤ u.1 ∧ u.1 < 0xDC00 then readPartner u.1 u.2
        else if 0xDC00 ≤ u.1 ∧ u.1 < 0xE000 then none
        else some (Char.ofNat u.1, u.2)
    else (simpleEscape c).map fun c => (c, t)

/-- After the opening quote, with fuel for its characters. -/
def readString : ℕ → List Char → Option (List Char × List Char)
  | 0, _ => none
  | _ + 1, [] => none
  | n + 1, c :: t =>
    if c = '"' then some ([], t)
    else if c = '\\' then
      (readEscape t).bind fun e => (readString n e.2).map fun s => (e.1 :: s.1, s.2)
    -- control characters have to be escaped
    else if c.toNat < 0x20 then none
    else (readString n t).map fun s => (c :: s.1, s.2)

def isSpace (c : Char) : Bool := c = ' ' || c = '\t' || c = '\n' || c = '\r'

def skip (t : List Char) : List Char := t.dropWhile isSpace

/-- A word or a number. -/
def readScalar (fmt : FloatFormat F) (t : List Char) : Option (Value F × List Char) :=
  if "null".toList.isPrefixOf t then some (.null, t.drop 4)
  else if "true".toList.isPrefixOf t then some (.bool true, t.drop 4)
  else if "false".toList.isPrefixOf t then some (.bool false, t.drop 5)
  else (scanNumber t).bind fun number =>
    if number.2.1 = [] then (IntText.parse number.1).map fun n => (.int n, number.2.2)
    else (fmt.parse (number.1 ++ number.2.1)).map fun x => (.float x, number.2.2)

mutual

/-- A value at the beginning of a text, and what follows it. -/
def readValue (fmt : FloatFormat F) : ℕ → List Char → Option (Value F × List Char)
  | 0, _ => none
  | n + 1, t =>
    match t with
    | '"' :: t => (readString n t).map fun s => (.str s.1, s.2)
    | '[' :: t =>
      match skip t with
      | ']' :: t => some (.arr [], t)
      | t => (readElements fmt n t).map fun l => (.arr l.1, l.2)
    | '{' :: t =>
      match skip t with
      | '}' :: t => some (.obj [], t)
      | t => (readMembers fmt n t).map fun l => (.obj (Dict.ofList l.1).entries, l.2)
    | t => readScalar fmt t

/-- Elements up to the closing bracket. -/
def readElements (fmt : FloatFormat F) : ℕ → List Char → Option (List (Value F) × List Char)
  | 0, _ => none
  | n + 1, t => (readValue fmt n t).bind fun v =>
    match skip v.2 with
    | ']' :: t => some ([v.1], t)
    | ',' :: t => (readElements fmt n (skip t)).map fun l => (v.1 :: l.1, l.2)
    | _ => none

/-- Members up to the closing brace. -/
def readMembers (fmt : FloatFormat F) :
    ℕ → List Char → Option (List (List Char × Value F) × List Char)
  | 0, _ => none
  | n + 1, t =>
    match t with
    | '"' :: t => (readString n t).bind fun k =>
      match skip k.2 with
      | ':' :: t => (readValue fmt n (skip t)).bind fun v =>
        match skip v.2 with
        | '}' :: t => some ([(k.1, v.1)], t)
        | ',' :: t => (readMembers fmt n (skip t)).map fun l => ((k.1, v.1) :: l.1, l.2)
        | _ => none
      | _ => none
    | _ => none

end

/-- The value of a text. -/
def loads (fmt : FloatFormat F) (t : List Char) : Option (Value F) :=
  (readValue fmt (t.length + 1) (skip t)).bind fun v => if skip v.2 = [] then some v.1 else none

example : (loads .none "[1,]".toList).isNone = true := by decide +kernel
example : (loads .none "[ -1 , null]".toList).map (text .none) = some "[-1,null]".toList := by
  decide +kernel

/-! ## Numbers are read back -/

/-- What may follow a value inside another one, or the end. -/
def Delimits (rest : List Char) : Prop := ∀ c ∈ rest.head?, c = ',' ∨ c = ']' ∨ c = '}'

variable {t r rest : List Char}

theorem delimits_nil : Delimits [] := by
  rintro _ ⟨⟩

theorem delimits_cons {c : Char} (h : c = ',' ∨ c = ']' ∨ c = '}') : Delimits (c :: r) := by
  intro d hd
  obtain rfl := Option.some.inj hd
  exact h

/-- A character that is none of the delimiters does not follow. -/
theorem Delimits.head_ne {p : Char → Bool} (h : Delimits rest)
    (hp : p ',' = false ∧ p ']' = false ∧ p '}' = false) : ∀ c ∈ rest.head?, p c = false := by
  intro c hc
  obtain rfl | rfl | rfl := h c hc
  · exact hp.1
  · exact hp.2.1
  · exact hp.2.2

theorem scanDigits_append (h : ∀ c ∈ rest.head?, c.isDigit = false) (t : List Char) :
    scanDigits (t ++ rest) = ((scanDigits t).1, (scanDigits t).2 ++ rest) := by
  induction t with
  | nil =>
    cases rest with
    | nil => rfl
    | cons c r => simp [scanDigits, h c rfl]
  | cons c t ih =>
    rw [scanDigits, Prod.mk.injEq] at ih ⊢
    by_cases hc : c.isDigit
    · simp [scanDigits, hc, ih.1, ih.2]
    · simp [scanDigits, hc]

theorem scanNat_append (h : ∀ c ∈ rest.head?, c.isDigit = false) {d : List Char}
    (hs : scanNat t = some (d, r)) : scanNat (t ++ rest) = some (d, r ++ rest) := by
  cases t with
  | nil => cases hs
  | cons c t =>
    rw [List.cons_append, scanNat]
    rw [scanNat] at hs
    split at hs
    · rename_i hzero
      obtain ⟨rfl, rfl⟩ := Prod.mk.inj (Option.some.inj hs)
      exact if_pos hzero
    · rename_i hzero
      split at hs
      · rename_i hdigit
        obtain ⟨rfl, rfl⟩ := Prod.mk.inj (Option.some.inj hs)
        rw [if_neg hzero, if_pos hdigit, scanDigits_append h]
      · cases hs

theorem scanInt_append (h : ∀ c ∈ rest.head?, c.isDigit = false) {d : List Char}
    (hs : scanInt t = some (d, r)) : scanInt (t ++ rest) = some (d, r ++ rest) := by
  by_cases hminus : ∃ u, t = '-' :: u
  · obtain ⟨u, rfl⟩ := hminus
    obtain ⟨⟨d', r'⟩, hnat, heq⟩ := Option.map_eq_some_iff.mp hs
    obtain ⟨rfl, rfl⟩ := Prod.mk.inj heq
    rw [List.cons_append, scanInt, scanNat_append h hnat]
    rfl
  · have hplain : scanInt t = scanNat t := by
      rw [scanInt]
      rintro u rfl
      exact hminus ⟨u, rfl⟩
    rw [hplain] at hs
    have happend := scanNat_append h hs
    cases t with
    | nil => cases hs
    | cons c t =>
      rw [List.cons_append, scanInt]
      · exact happend
      · rintro u heq
        exact hminus ⟨t, by rw [(List.cons.inj heq).1]⟩

theorem scanFraction_append (h : Delimits rest) (t : List Char) :
    scanFraction (t ++ rest) = ((scanFraction t).1, (scanFraction t).2 ++ rest) := by
  cases t with
  | nil =>
    cases rest with
    | nil => rfl
    | cons c r =>
      have hpoint : c ≠ '.' := by
        obtain rfl | rfl | rfl := h c rfl <;> decide
      simp [scanFraction, hpoint]
  | cons c t =>
    have hdigits := scanDigits_append (h.head_ne (by decide)) t
    rw [List.cons_append, scanFraction, scanFraction, hdigits]
    split <;> rfl

theorem scanSign_append (h : Delimits rest) (t : List Char) :
    scanSign (t ++ rest) = ((scanSign t).1, (scanSign t).2 ++ rest) := by
  cases t with
  | nil =>
    cases rest with
    | nil => rfl
    | cons c r =>
      have hsign : ¬ (c = '+' ∨ c = '-') := by
        obtain rfl | rfl | rfl := h c rfl <;> decide
      simp [scanSign, hsign]
  | cons c t =>
    rw [List.cons_append, scanSign, scanSign]
    split <;> rfl

theorem scanExponent_append (h : Delimits rest) (t : List Char) :
    scanExponent (t ++ rest) = ((scanExponent t).1, (scanExponent t).2 ++ rest) := by
  cases t with
  | nil =>
    cases rest with
    | nil => rfl
    | cons c r =>
      have he : ¬ (c = 'e' ∨ c = 'E') := by
        obtain rfl | rfl | rfl := h c rfl <;> decide
      simp [scanExponent, he]
  | cons c t =>
    have hdigits := scanDigits_append (h.head_ne (by decide)) (scanSign t).2
    simp only [List.cons_append, scanExponent, scanSign_append h, hdigits]
    split <;> rfl

/-- **A number ends where it ends**, whatever follows. -/
theorem scanNumber_append (h : Delimits rest) {i f : List Char}
    (hs : scanNumber t = some (i, f, r)) : scanNumber (t ++ rest) = some (i, f, r ++ rest) := by
  obtain ⟨⟨i', r'⟩, hint, heq⟩ := Option.map_eq_some_iff.mp hs
  obtain ⟨rfl, hrest⟩ := Prod.mk.inj heq
  obtain ⟨rfl, rfl⟩ := Prod.mk.inj hrest
  rw [scanNumber, scanInt_append (h.head_ne (by decide)) hint, Option.map_some]
  simp only [scanFraction_append h, scanExponent_append h]

/-- Digits of a number begin with a zero only if they are that zero. -/
theorem toDigits_head (n : ℕ) (hn : 0 < n) :
    ∃ c t, Nat.toDigits 10 n = c :: t ∧ c ≠ '0' := by
  induction n using Nat.strongRecOn with
  | ind n ih =>
    by_cases hlt : n < 10
    · have hdigit : ∀ d < 10, 0 < d → Nat.digitChar d ≠ '0' := by decide
      exact ⟨n.digitChar, [], Nat.toDigits_of_lt_base hlt, hdigit n hlt hn⟩
    · obtain ⟨c, t, ht, hc⟩ := ih (n / 10) (Nat.div_lt_self hn (by decide)) (by omega)
      exact ⟨c, t ++ [(n % 10).digitChar],
        by rw [Nat.toDigits_of_base_le (by decide) (not_lt.mp hlt), ht]; rfl, hc⟩

theorem scanNat_toDigits (n : ℕ) :
    scanNat (Nat.toDigits 10 n) = some (Nat.toDigits 10 n, []) := by
  rcases Nat.eq_zero_or_pos n with rfl | hn
  · rfl
  · obtain ⟨c, t, ht, hc⟩ := toDigits_head n hn
    have hdigits : ∀ d ∈ c :: t, d.isDigit := fun d hd => IntText.isDigit_of_mem (ht ▸ hd)
    have hall : ∀ d ∈ t, d.isDigit := fun d hd => hdigits d (List.mem_cons_of_mem _ hd)
    rw [ht, scanNat, if_neg hc, if_pos (hdigits c List.mem_cons_self), scanDigits,
      List.takeWhile_eq_self_iff.mpr hall, List.dropWhile_eq_nil_iff.mpr hall]

theorem scanNumber_render (n : ℤ) :
    scanNumber (IntText.render n) = some (IntText.render n, [], []) := by
  have hint : scanInt (IntText.render n) = some (IntText.render n, []) := by
    rw [IntText.render_eq]
    split
    · rcases ht : Nat.toDigits 10 n.toNat with _ | ⟨c, t⟩
      · exact absurd ht Nat.toDigits_ne_nil
      · have hc : c.isDigit := IntText.isDigit_of_mem (ht ▸ List.mem_cons_self)
        rw [scanInt, ← ht]
        · exact scanNat_toDigits _
        · rintro u heq
          rw [(List.cons.inj heq).1] at hc
          exact absurd hc (by decide)
    · rw [scanInt, scanNat_toDigits]
      rfl
  rw [scanNumber, hint]
  rfl

/-- A number begins with a digit or a sign. -/
theorem head_of_scanNumber {x : List Char × List Char × List Char} (h : scanNumber t = some x) :
    ∃ c u, t = c :: u ∧ (c = '-' ∨ c.isDigit) := by
  obtain ⟨i, hint, -⟩ := Option.map_eq_some_iff.mp h
  cases t with
  | nil => cases hint
  | cons c u =>
    refine ⟨c, u, rfl, ?_⟩
    by_cases hminus : c = '-'
    · exact .inl hminus
    · rw [scanInt] at hint
      · rw [scanNat] at hint
        split at hint
        · rename_i hzero
          rw [hzero]
          exact .inr (by decide)
        · split at hint
          · rename_i hdigit
            exact .inr hdigit
          · cases hint
      · rintro u' heq
        exact hminus (List.cons.inj heq).1

/-! ## Strings are read back -/

theorem hexValue_digitChar : ∀ d < 16, hexValue (Nat.digitChar d) = some d := by decide

theorem readUnit_escapeUnit {n : ℕ} (hn : n < 0x10000) (rest : List Char) :
    ∃ a b c d, escapeUnit n = ['\\', 'u', a, b, c, d] ∧
      readUnit (a :: b :: c :: d :: rest) = some (n, rest) := by
  refine ⟨_, _, _, _, rfl, ?_⟩
  simp only [readUnit, hexValue_digitChar _ (Nat.mod_lt _ (by decide : 0 < 16)), Option.bind_some,
    Option.map_some, Option.some.injEq, Prod.mk.injEq, and_true]
  omega

/-- A backslash and what it stands for. -/
theorem readString_escape {n : ℕ} {c : Char} {e : List Char}
    (h : readEscape (e ++ rest) = some (c, rest)) : readString (n + 1) ('\\' :: e ++ rest) =
      (readString n rest).map fun s => (c :: s.1, s.2) := by
  rw [List.cons_append, readString, if_neg (by decide), if_pos rfl, h, Option.bind_some]

/-- A code unit that is no surrogate. -/
theorem readEscape_unit {c : Char} (hc : c.toNat < 0x10000) (rest : List Char) :
    ∃ e, escapeUnit c.toNat = '\\' :: e ∧ readEscape (e ++ rest) = some (c, rest) := by
  obtain ⟨a, b, d, e, hunit, hread⟩ := readUnit_escapeUnit hc rest
  refine ⟨'u' :: [a, b, d, e], hunit, ?_⟩
  have hvalid : c.toNat < 0xD800 ∨ 0xDFFF < c.toNat ∧ c.toNat < 0x110000 := c.valid
  have hhigh : ¬ (0xD800 ≤ c.toNat ∧ c.toNat < 0xDC00) := by omega
  have hlow : ¬ (0xDC00 ≤ c.toNat ∧ c.toNat < 0xE000) := by omega
  simp only [List.cons_append, List.nil_append, readEscape, if_true, hread, Option.bind_some,
    if_neg hhigh, if_neg hlow, Char.ofNat_toNat]

/-- The code units of a pair of surrogates. -/
theorem readPartner_pair {high low : ℕ} (hlow : 0xDC00 ≤ low ∧ low < 0xE000) (rest : List Char) :
    readPartner high (escapeUnit low ++ rest) =
      some (Char.ofNat (0x10000 + 1024 * (high - 0xD800) + (low - 0xDC00)), rest) := by
  obtain ⟨a, b, d, e, hunit, hread⟩ := readUnit_escapeUnit (hlow.2.trans (by decide)) rest
  rw [hunit]
  simp only [List.cons_append, List.nil_append, readPartner, hread, Option.bind_some, if_pos hlow]

theorem readEscape_high {high : ℕ} (hhigh : 0xD800 ≤ high ∧ high < 0xDC00) (rest : List Char) :
    ∃ e, escapeUnit high = '\\' :: e ∧ readEscape (e ++ rest) = readPartner high rest := by
  obtain ⟨a, b, d, e, hunit, hread⟩ := readUnit_escapeUnit (hhigh.2.trans (by decide)) rest
  refine ⟨'u' :: [a, b, d, e], hunit, ?_⟩
  simp only [List.cons_append, List.nil_append, readEscape, if_true, hread, Option.bind_some,
    if_pos hhigh]

/-- A character that needs two code units. -/
theorem readEscape_pair {c : Char} (hc : 0x10000 ≤ c.toNat) (rest : List Char) :
    ∃ e, escapeUnit (0xD800 + (c.toNat - 0x10000) / 1024) ++
        escapeUnit (0xDC00 + (c.toNat - 0x10000) % 1024) = '\\' :: e ∧
      readEscape (e ++ rest) = some (c, rest) := by
  have hvalid : c.toNat < 0xD800 ∨ 0xDFFF < c.toNat ∧ c.toNat < 0x110000 := c.valid
  obtain ⟨high, hhigh⟩ : ∃ high, high = 0xD800 + (c.toNat - 0x10000) / 1024 := ⟨_, rfl⟩
  obtain ⟨low, hlow⟩ : ∃ low, low = 0xDC00 + (c.toNat - 0x10000) % 1024 := ⟨_, rfl⟩
  rw [← hhigh, ← hlow]
  obtain ⟨e, he, hread⟩ :=
    readEscape_high (by omega : 0xD800 ≤ high ∧ high < 0xDC00) (escapeUnit low ++ rest)
  refine ⟨e ++ escapeUnit low, by rw [he]; rfl, ?_⟩
  have hsum : 0x10000 + 1024 * (high - 0xD800) + (low - 0xDC00) = c.toNat := by omega
  rw [List.append_assoc, hread, readPartner_pair (by omega), hsum, Char.ofNat_toNat]

/-- **One character** is read back from its escape. -/
theorem readString_escapeChar (n : ℕ) (c : Char) (rest : List Char) :
    readString (n + 1) (escapeChar c ++ rest) =
      (readString n rest).map fun s => (c :: s.1, s.2) := by
  have hsimple : ∀ d, simpleEscape d = some c → d ≠ 'u' →
      readString (n + 1) (['\\', d] ++ rest) =
        (readString n rest).map fun s => (c :: s.1, s.2) := by
    intro d hd hu
    refine readString_escape (e := [d]) ?_
    rw [List.singleton_append, readEscape, if_neg hu, hd, Option.map_some]
  have hofNat : ∀ k, c.toNat = k → Char.ofNat k = c := by
    rintro _ rfl
    exact Char.ofNat_toNat c
  rw [escapeChar]
  split
  · rename_i h
    exact hsimple '"' (by rw [h]; rfl) (by decide)
  split
  · rename_i h
    exact hsimple '\\' (by rw [h]; rfl) (by decide)
  split
  · rename_i h
    exact hsimple 'n' (by rw [h]; rfl) (by decide)
  split
  · rename_i h
    exact hsimple 'r' (by rw [h]; rfl) (by decide)
  split
  · rename_i h
    exact hsimple 't' (by rw [h]; rfl) (by decide)
  split
  · rename_i h
    exact hsimple 'f' (by rw [← hofNat 12 h]; rfl) (by decide)
  split
  · rename_i h
    exact hsimple 'b' (by rw [← hofNat 8 h]; rfl) (by decide)
  split
  · -- a printable character stands for itself
    rename_i hquote hbackslash _ _ _ _ _ hprintable
    rw [List.singleton_append, readString, if_neg hquote, if_neg hbackslash,
      if_neg (not_lt.mpr hprintable.1)]
  split
  · rename_i hunit
    obtain ⟨e, he, hread⟩ := readEscape_unit hunit rest
    rw [he]
    exact readString_escape hread
  · rename_i hunit
    obtain ⟨e, he, hread⟩ := readEscape_pair (not_lt.mp hunit) rest
    rw [he]
    exact readString_escape hread

theorem readString_quote {s : List Char} {n : ℕ} (h : s.length < n) :
    readString n (s.flatMap escapeChar ++ '"' :: rest) = some (s, rest) := by
  induction s generalizing n with
  | nil =>
    obtain ⟨n, rfl⟩ := Nat.exists_eq_succ_of_ne_zero (Nat.ne_of_gt h)
    exact if_pos rfl
  | cons c s ih =>
    obtain ⟨n, rfl⟩ := Nat.exists_eq_succ_of_ne_zero (Nat.ne_of_gt (Nat.zero_lt_of_lt h))
    rw [List.flatMap_cons, List.append_assoc, readString_escapeChar,
      ih (Nat.lt_of_succ_lt_succ h), Option.map_some]

theorem length_escapeChar_pos (c : Char) : 1 ≤ (escapeChar c).length := by
  rw [escapeChar]
  repeat' split
  all_goals simp [escapeUnit]

theorem length_lt_quote (s : List Char) : s.length + 2 ≤ (quote s).length := by
  have hle : s.length ≤ (s.flatMap escapeChar).length := by
    induction s with
    | nil => exact le_rfl
    | cons c s ih =>
      have hpos := length_escapeChar_pos c
      rw [List.flatMap_cons, List.length_append, List.length_cons]
      omega
  rw [quote, List.length_append, List.length_cons, List.length_singleton]
  omega

/-! ## Values are read back -/

/-- **Induction** over the elements and members of a value. -/
theorem Value.induction {P : Value F → Prop} (null : P .null) (bool : ∀ b, P (.bool b))
    (int : ∀ n, P (.int n)) (float : ∀ x, P (.float x)) (str : ∀ s, P (.str s))
    (arr : ∀ l, (∀ v ∈ l, P v) → P (.arr l)) (obj : ∀ l, (∀ e ∈ l, P e.2) → P (.obj l))
    (v : Value F) : P v := by
  refine Value.rec (motive_1 := P) (motive_2 := fun l => ∀ v ∈ l, P v)
    (motive_3 := fun l => ∀ e ∈ l, P e.2) (motive_4 := fun e => P e.2)
    null bool int float str arr obj ?_ ?_ ?_ ?_ ?_ v
  · rintro _ ⟨⟩
  · intro v l hv hl w hmem
    rcases List.mem_cons.mp hmem with rfl | hmem
    · exact hv
    · exact hl w hmem
  · rintro _ ⟨⟩
  · intro e l he hl w hmem
    rcases List.mem_cons.mp hmem with rfl | hmem
    · exact he
    · exact hl w hmem
  · exact fun _ _ hv => hv

mutual

/-- No object of it has a key twice. -/
def Lawful : Value F → Prop
  | .arr l => LawfulAll l
  | .obj l => (l.map Prod.fst).Nodup ∧ LawfulValues l
  | .null | .bool _ | .int _ | .float _ | .str _ => True

def LawfulAll : List (Value F) → Prop
  | [] => True
  | v :: l => Lawful v ∧ LawfulAll l

def LawfulValues : List (List Char × Value F) → Prop
  | [] => True
  | (_, v) :: l => Lawful v ∧ LawfulValues l

end

theorem lawfulAll_iff {l : List (Value F)} : LawfulAll l ↔ ∀ v ∈ l, Lawful v := by
  induction l with
  | nil => exact iff_of_true trivial (by rintro _ ⟨⟩)
  | cons v l ih => rw [LawfulAll, ih, List.forall_mem_cons]

theorem lawfulValues_iff {l : List (List Char × Value F)} :
    LawfulValues l ↔ ∀ e ∈ l, Lawful e.2 := by
  induction l with
  | nil => exact iff_of_true trivial (by rintro _ ⟨⟩)
  | cons e l ih => rw [LawfulValues, ih, List.forall_mem_cons]

theorem writableAll_iff {l : List (Value F)} :
    writableAll l = true ↔ ∀ v ∈ l, writable v = true := by
  induction l with
  | nil => exact iff_of_true rfl (by rintro _ ⟨⟩)
  | cons v l ih => rw [writableAll, Bool.and_eq_true, ih, List.forall_mem_cons]

theorem writableValues_iff {l : List (List Char × Value F)} :
    writableValues l = true ↔ ∀ e ∈ l, writable e.2 = true := by
  induction l with
  | nil => exact iff_of_true rfl (by rintro _ ⟨⟩)
  | cons e l ih => rw [writableValues, Bool.and_eq_true, ih, List.forall_mem_cons]

variable {fmt : FloatFormat F}

/-- The text of this value is read back, with fuel for its characters. -/
def ReadsBack (fmt : FloatFormat F) (v : Value F) : Prop :=
  ∀ n rest, Delimits rest → (text fmt v).length ≤ n →
    readValue fmt n (text fmt v ++ rest) = some (v, rest)

theorem skip_cons {c : Char} (h : isSpace c = false) : skip (c :: t) = c :: t := by
  rw [skip, List.dropWhile_cons_of_neg]
  rw [h]
  exact Bool.false_ne_true

/-- How the text of a value begins. -/
structure Begins (c : Char) : Prop where
  space : isSpace c = false
  bracket : c ≠ ']'
  brace : c ≠ '}'

theorem begins_number {c : Char} (h : c = '-' ∨ c.isDigit) : Begins c := by
  rcases h with rfl | h
  · exact ⟨rfl, by decide, by decide⟩
  · have hne : ∀ d, d.isDigit = false → c ≠ d := by
      rintro d hd rfl
      rw [hd] at h
      cases h
    refine ⟨?_, hne _ (by decide), hne _ (by decide)⟩
    simp [isSpace, hne ' ' (by decide), hne '\t' (by decide), hne '\n' (by decide),
      hne '\r' (by decide)]

theorem text_begins (fmt : FloatFormat F) (v : Value F) : ∃ c t, text fmt v = c :: t ∧ Begins c := by
  cases v with
  | null => exact ⟨'n', _, rfl, rfl, by decide, by decide⟩
  | bool b =>
    cases b with
    | true => exact ⟨'t', _, rfl, rfl, by decide, by decide⟩
    | false => exact ⟨'f', _, rfl, rfl, by decide, by decide⟩
  | int n =>
    obtain ⟨c, t, ht, hc⟩ := head_of_scanNumber (scanNumber_render n)
    exact ⟨c, t, ht, begins_number hc⟩
  | float x =>
    obtain ⟨i, f, hscan, -, -⟩ := fmt.token x
    obtain ⟨c, t, ht, hc⟩ := head_of_scanNumber hscan
    exact ⟨c, t, ht, begins_number hc⟩
  | str s => exact ⟨'"', _, rfl, rfl, by decide, by decide⟩
  | arr l => cases l <;> exact ⟨'[', _, rfl, rfl, by decide, by decide⟩
  | obj l => rcases l with _ | ⟨⟨k, v⟩, l⟩ <;> exact ⟨'\x7b', _, rfl, rfl, by decide, by decide⟩

theorem skip_text (v : Value F) (rest : List Char) : skip (text fmt v ++ rest) = text fmt v ++ rest := by
  obtain ⟨c, t, ht, hc⟩ := text_begins fmt v
  rw [ht, List.cons_append]
  exact skip_cons hc.space

theorem length_text_pos (v : Value F) : 1 ≤ (text fmt v).length := by
  obtain ⟨c, t, ht, -⟩ := text_begins fmt v
  rw [ht, List.length_cons]
  exact Nat.le_add_left ..

theorem readValue_scalar {c : Char} (n : ℕ) (t : List Char) (h : c ≠ '"' ∧ c ≠ '[' ∧ c ≠ '\x7b') :
    readValue fmt (n + 1) (c :: t) = readScalar fmt (c :: t) := by
  obtain ⟨hquote, hbracket, hbrace⟩ := h
  rw [readValue]
  · exact fun _ heq => hquote (List.cons.inj heq).1
  · exact fun _ heq => hbracket (List.cons.inj heq).1
  · exact fun _ heq => hbrace (List.cons.inj heq).1

theorem readScalar_number {i f : List Char} (hscan : scanNumber t = some (i, f, r)) :
    readScalar fmt t = if f = [] then (IntText.parse i).map fun n => (.int n, r)
      else (fmt.parse (i ++ f)).map fun x => (.float x, r) := by
  obtain ⟨c, u, rfl, hc⟩ := head_of_scanNumber hscan
  have hne : ∀ d, d ≠ '-' → d.isDigit = false → d ≠ c := by
    rintro d hminus hdigit rfl
    rcases hc with hc | hc
    · exact hminus hc
    · rw [hdigit] at hc
      cases hc
  have hn := hne 'n' (by decide) (by decide)
  have ht := hne 't' (by decide) (by decide)
  have hf := hne 'f' (by decide) (by decide)
  simp [readScalar, hscan, hn, ht, hf]

/-- A number is read back, with fuel for its characters. -/
theorem readValue_number {v : Value F} {i f : List Char} (hrest : Delimits rest)
    (hscan : scanNumber (text fmt v) = some (i, f, []))
    (hv : (if f = [] then (IntText.parse i).map fun n => (.int n, rest)
      else (fmt.parse (i ++ f)).map fun x => (.float x, rest)) = some (v, rest)) {n : ℕ}
    (hn : (text fmt v).length ≤ n) : readValue fmt n (text fmt v ++ rest) = some (v, rest) := by
  obtain ⟨n, rfl⟩ := Nat.exists_eq_succ_of_ne_zero (Nat.ne_of_gt ((length_text_pos v).trans hn))
  have happend := scanNumber_append hrest hscan
  rw [List.nil_append] at happend
  obtain ⟨c, u, hu, hc⟩ := head_of_scanNumber happend
  have hne : ∀ d, d ≠ '-' → d.isDigit = false → c ≠ d := by
    rintro d hminus hdigit rfl
    rcases hc with hc | hc
    · exact hminus hc
    · rw [hdigit] at hc
      cases hc
  rw [hu, readValue_scalar n u ⟨hne _ (by decide) (by decide), hne _ (by decide) (by decide),
    hne _ (by decide) (by decide)⟩, ← hu, readScalar_number happend, hv]

theorem readsBack_int {n : ℤ} (h : writable (.int n : Value F) = true) :
    ReadsBack fmt (.int n) := by
  intro fuel rest hrest hfuel
  have hscan : scanNumber (text fmt (.int n)) = some (IntText.render n, [], []) :=
    scanNumber_render n
  refine readValue_number hrest hscan ?_ hfuel
  rw [if_pos rfl, IntText.parse_render_of_natAbs (of_decide_eq_true h)]
  rfl

theorem readsBack_float (x : F) : ReadsBack fmt (.float x) := by
  intro fuel rest hrest hfuel
  obtain ⟨i, f, htoken, hne, heq⟩ := fmt.token x
  have hscan : scanNumber (text fmt (.float x)) = some (i, f, []) := htoken
  refine readValue_number hrest hscan ?_ hfuel
  rw [if_neg hne, heq, fmt.parse_render]
  rfl

theorem readString_quoted {s : List Char} {n : ℕ} (h : (quote s).length ≤ n + 1)
    (rest : List Char) : ∃ t, quote s ++ rest = '"' :: t ∧ readString n t = some (s, rest) := by
  have hlength := length_lt_quote s
  refine ⟨s.flatMap escapeChar ++ '"' :: rest, by simp [quote], readString_quote (by omega)⟩

theorem readsBack_str (s : List Char) : ReadsBack fmt (.str s) := by
  intro fuel rest _ hfuel
  obtain ⟨fuel, rfl⟩ := Nat.exists_eq_succ_of_ne_zero
    (Nat.ne_of_gt ((length_text_pos (.str s)).trans hfuel))
  obtain ⟨t, ht, hread⟩ := readString_quoted hfuel rest
  rw [text, ht, readValue, hread]
  rfl

/-! ### Arrays -/

/-- After an element. -/
theorem readElements_text {v : Value F} {l : List (Value F)} (hv : ReadsBack fmt v)
    (hl : ∀ w ∈ l, ReadsBack fmt w) {n : ℕ}
    (hn : (text fmt v).length + (restOfArray fmt l).length ≤ n) (rest : List Char) :
    readElements fmt n (text fmt v ++ (restOfArray fmt l ++ rest)) = some (v :: l, rest) := by
  induction l generalizing v n with
  | nil =>
    obtain ⟨n, rfl⟩ := Nat.exists_eq_succ_of_ne_zero
      (Nat.ne_of_gt ((length_text_pos v).trans ((Nat.le_add_right ..).trans hn)))
    rw [restOfArray, List.length_singleton] at hn
    rw [readElements, restOfArray, List.singleton_append,
      hv n _ (delimits_cons (by decide)) (by omega), Option.bind_some, skip_cons (by decide)]
    rfl
  | cons w l ih =>
    obtain ⟨n, rfl⟩ := Nat.exists_eq_succ_of_ne_zero
      (Nat.ne_of_gt ((length_text_pos v).trans ((Nat.le_add_right ..).trans hn)))
    rw [restOfArray, List.cons_append, List.length_cons, List.length_append] at hn
    rw [readElements, restOfArray, List.cons_append, List.cons_append,
      hv n _ (delimits_cons (by decide)) (by omega), Option.bind_some, skip_cons (by decide)]
    have hread := ih (hl w List.mem_cons_self) (fun u hu => hl u (List.mem_cons_of_mem _ hu))
      (n := n) (by omega)
    rw [List.append_assoc]
    show (readElements fmt n (skip (text fmt w ++ (restOfArray fmt l ++ rest)))).map _ = _
    rw [skip_text, hread]
    rfl

theorem readsBack_arr {l : List (Value F)} (hl : ∀ v ∈ l, ReadsBack fmt v) :
    ReadsBack fmt (.arr l) := by
  intro n rest _ hn
  obtain ⟨n, rfl⟩ := Nat.exists_eq_succ_of_ne_zero
    (Nat.ne_of_gt ((length_text_pos (.arr l)).trans hn))
  cases l with
  | nil => rfl
  | cons v l =>
    rw [text, List.cons_append, List.length_cons, List.length_append] at hn
    obtain ⟨c, t, ht, hc⟩ := text_begins fmt v
    have hread := readElements_text (hl v List.mem_cons_self)
      (fun w hw => hl w (List.mem_cons_of_mem _ hw)) (Nat.le_of_succ_le_succ hn) rest
    rw [text, List.cons_append, List.cons_append, List.append_assoc, readValue, skip_text]
    rw [ht, List.cons_append] at hread ⊢
    split
    · rename_i heq
      exact absurd (List.cons.inj heq).1 hc.bracket
    · rw [hread]
      rfl

/-! ### Objects -/

theorem restOfObject_cons (k : List Char) (v : Value F) (l : List (List Char × Value F)) :
    restOfObject fmt ((k, v) :: l) =
      ',' :: (quote k ++ ':' :: (text fmt v ++ restOfObject fmt l)) := by
  rw [restOfObject, List.cons_append, List.cons_append, List.append_assoc, List.cons_append]

theorem skip_quote (s r : List Char) : skip (quote s ++ r) = quote s ++ r :=
  skip_cons (by decide)

theorem readMembers_text {k : List Char} {v : Value F} {l : List (List Char × Value F)}
    (hv : ReadsBack fmt v) (hl : ∀ e ∈ l, ReadsBack fmt e.2) {n : ℕ}
    (hn : (quote k).length + (text fmt v).length + (restOfObject fmt l).length + 1 ≤ n)
    (rest : List Char) :
    readMembers fmt n (quote k ++ ':' :: (text fmt v ++ (restOfObject fmt l ++ rest))) =
      some ((k, v) :: l, rest) := by
  induction l generalizing k v n with
  | nil =>
    obtain ⟨n, rfl⟩ : ∃ m, n = m + 1 := ⟨n - 1, by omega⟩
    rw [restOfObject, List.length_singleton] at hn
    obtain ⟨t, ht, hkey⟩ := readString_quoted (s := k) (n := n) (by omega)
      (':' :: (text fmt v ++ (restOfObject fmt [] ++ rest)))
    rw [ht, readMembers, hkey, Option.bind_some, skip_cons (by decide)]
    show (readValue fmt n (skip (text fmt v ++ ('\x7d' :: rest)))).bind _ = _
    rw [skip_text, hv n _ (delimits_cons (by decide)) (by omega), Option.bind_some,
      skip_cons (by decide)]
    rfl
  | cons e l ih =>
    obtain ⟨k', v'⟩ := e
    have hv' : ReadsBack fmt v' := hl (k', v') List.mem_cons_self
    obtain ⟨n, rfl⟩ : ∃ m, n = m + 1 := ⟨n - 1, by omega⟩
    rw [restOfObject_cons, List.length_cons, List.length_append, List.length_cons,
      List.length_append] at hn
    have hmembers := ih hv' (k := k') (fun e he => hl e (List.mem_cons_of_mem _ he))
      (n := n) (by omega)
    obtain ⟨u, hu⟩ : ∃ u, quote k' ++ ':' :: (text fmt v' ++ (restOfObject fmt l ++ rest)) = u :=
      ⟨_, rfl⟩
    have hrest : restOfObject fmt ((k', v') :: l) ++ rest = ',' :: u := by
      rw [← hu, restOfObject_cons, List.cons_append, List.append_assoc, List.cons_append,
        List.append_assoc]
    have hskip : skip u = u := by
      rw [← hu]
      exact skip_quote _ _
    rw [hu] at hmembers
    rw [hrest]
    obtain ⟨t, ht, hkey⟩ := readString_quoted (s := k) (n := n) (by omega)
      (':' :: (text fmt v ++ ',' :: u))
    rw [ht, readMembers, hkey, Option.bind_some, skip_cons (by decide)]
    show (readValue fmt n (skip (text fmt v ++ ',' :: u))).bind _ = _
    rw [skip_text, hv n _ (delimits_cons (by decide)) (by omega), Option.bind_some,
      skip_cons (by decide)]
    show (readMembers fmt n (skip u)).map _ = _
    rw [hskip, hmembers]
    rfl

/-- Pairs with distinct keys are the entries of the dictionary they make. -/
theorem entries_ofList {l : List (List Char × Value F)} (h : (l.map Prod.fst).Nodup) :
    (Dict.ofList l).entries = l := by
  induction l using List.reverseRecOn with
  | nil => rfl
  | append_singleton l e ih =>
    rw [List.map_append, List.nodup_append] at h
    obtain ⟨hl, -, hdisjoint⟩ := h
    have hnew : e.1 ∉ (Dict.ofList l).keys := by
      rw [Dict.keys, ih hl]
      exact fun hmem => hdisjoint e.1 hmem e.1 (List.mem_singleton_self _) rfl
    rw [Dict.ofList, List.foldl_append, List.foldl_cons, List.foldl_nil, ← Dict.ofList,
      Dict.entries_insert hnew, ih hl]

theorem readsBack_obj {l : List (List Char × Value F)} (hl : ∀ e ∈ l, ReadsBack fmt e.2)
    (hkeys : (l.map Prod.fst).Nodup) : ReadsBack fmt (.obj l) := by
  intro n rest _ hn
  obtain ⟨n, rfl⟩ := Nat.exists_eq_succ_of_ne_zero
    (Nat.ne_of_gt ((length_text_pos (.obj l)).trans hn))
  rcases l with _ | ⟨⟨k, v⟩, l⟩
  · rfl
  · have hv : ReadsBack fmt v := hl (k, v) List.mem_cons_self
    rw [text, List.cons_append, List.cons_append, List.length_cons, List.length_append,
      List.length_append, List.length_cons] at hn
    have hread := readMembers_text (k := k) hv (fun e he => hl e (List.mem_cons_of_mem _ he))
      (n := n) (by omega) rest
    obtain ⟨u, hu⟩ :
        ∃ u, quote k ++ ':' :: (text fmt v ++ (restOfObject fmt l ++ rest)) = '"' :: u := ⟨_, rfl⟩
    have htext : text fmt (.obj ((k, v) :: l)) ++ rest = '\x7b' :: '"' :: u := by
      rw [← hu, text]
      simp only [List.cons_append, List.append_assoc]
    rw [hu] at hread
    rw [htext, readValue, skip_cons (by decide)]
    show (readMembers fmt n ('"' :: u)).map _ = _
    rw [hread, Option.map_some, entries_ofList hkeys]

/-! ### The round trip -/

theorem readsBack (fmt : FloatFormat F) {v : Value F} (hw : writable v = true) (hl : Lawful v) : ReadsBack fmt v := by
  induction v using Value.induction with
  | null =>
    intro n rest _ hn
    obtain ⟨n, rfl⟩ := Nat.exists_eq_succ_of_ne_zero
      (Nat.ne_of_gt ((length_text_pos (F := F) .null).trans hn))
    rfl
  | bool b =>
    intro n rest _ hn
    obtain ⟨n, rfl⟩ := Nat.exists_eq_succ_of_ne_zero
      (Nat.ne_of_gt ((length_text_pos (F := F) (.bool b)).trans hn))
    cases b <;> rfl
  | int n => exact readsBack_int hw
  | float x => exact readsBack_float x
  | str s => exact readsBack_str s
  | arr l ih =>
    rw [writable, writableAll_iff] at hw
    rw [Lawful, lawfulAll_iff] at hl
    exact readsBack_arr fun v hv => ih v hv (hw v hv) (hl v hv)
  | obj l ih =>
    rw [writable, writableValues_iff] at hw
    rw [Lawful, lawfulValues_iff] at hl
    exact readsBack_obj (fun e he => ih e he (hw e he) (hl.2 e he)) hl.1

/-- **The round trip**: what was written is read back. -/
theorem loads_dumps {v : Value F} (hl : Lawful v) (h : dumps fmt v = some t) :
    loads fmt t = some v := by
  obtain ⟨hw, heq⟩ := Option.ite_none_right_eq_some.mp h
  obtain rfl := Option.some.inj heq
  have hread := readsBack fmt hw hl ((text fmt v).length + 1) [] delimits_nil (Nat.le_succ _)
  rw [List.append_nil] at hread
  have hskip : skip (text fmt v ++ []) = text fmt v ++ [] := skip_text v []
  rw [List.append_nil] at hskip
  rw [loads, hskip, hread]
  rfl

end JsonText
