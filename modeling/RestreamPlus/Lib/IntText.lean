import Mathlib.Data.List.Basic
import RestreamPlus.Lib.Replace

/-!
# Integers as text

What a scripting language takes for a decimal integer: white space around it, a
sign, decimal digits of any script with single underscores between them, and not
more than 4300 of them. `parse_render` says that the usual notation is read back.
-/

namespace IntText

/-- White space beyond ASCII. -/
def otherSpaces : List ℕ :=
  [0x85, 0xA0, 0x1680, 0x2000, 0x2001, 0x2002, 0x2003, 0x2004, 0x2005, 0x2006, 0x2007, 0x2008,
    0x2009, 0x200A, 0x2028, 0x2029, 0x202F, 0x205F, 0x3000]

/-- What is skipped around an integer. -/
def isSpace (c : Char) : Bool :=
  c = ' ' || (9 ≤ c.toNat && c.toNat ≤ 13) || otherSpaces.contains c.toNat

/-- The zeros of the scripts that have decimal digits (Unicode 15); their digits
follow in order. -/
def zeros : List ℕ :=
  [0x30, 0x660, 0x6F0, 0x7C0, 0x966, 0x9E6, 0xA66, 0xAE6, 0xB66, 0xBE6, 0xC66, 0xCE6, 0xD66,
    0xDE6, 0xE50, 0xED0, 0xF20, 0x1040, 0x1090, 0x17E0, 0x1810, 0x1946, 0x19D0, 0x1A80, 0x1A90,
    0x1B50, 0x1BB0, 0x1C40, 0x1C50, 0xA620, 0xA8D0, 0xA900, 0xA9D0, 0xA9F0, 0xAA50, 0xABF0,
    0xFF10, 0x104A0, 0x10D30, 0x11066, 0x110F0, 0x11136, 0x111D0, 0x112F0, 0x11450, 0x114D0,
    0x11650, 0x116C0, 0x11730, 0x118E0, 0x11950, 0x11C50, 0x11D50, 0x11DA0, 0x11F50, 0x16A60,
    0x16AC0, 0x16B50, 0x1D7CE, 0x1D7D8, 0x1D7E2, 0x1D7EC, 0x1D7F6, 0x1E140, 0x1E2F0, 0x1E4F0,
    0x1E950, 0x1FBF0]

/-- The value of a decimal digit. -/
def digitValue (c : Char) : Option ℕ :=
  (zeros.find? fun z => z ≤ c.toNat && c.toNat ≤ z + 9).map (c.toNat - ·)

/-- Digits and single underscores between them, after a digit or not. -/
def readDigits : Bool → ℕ → List Char → Option ℕ
  | after, value, [] => if after then some value else none
  | after, value, c :: t =>
    if c = '_' then if after then readDigits false value t else none
    else (digitValue c).bind fun d => readDigits true (10 * value + d) t

/-- The most digits that are converted. -/
def maxDigits : ℕ := 4300

/-- An integer without its sign. -/
def readNat (t : List Char) : Option ℕ :=
  if maxDigits < (t.filter (· ≠ '_')).length then none else readDigits false 0 t

/-- A text without white space around it. -/
def trim (t : List Char) : List Char := ((t.dropWhile isSpace).reverse.dropWhile isSpace).reverse

/-- The integer a text denotes. -/
def parse (t : List Char) : Option ℤ :=
  match trim t with
  | [] => none
  | c :: digits =>
    if c = '-' then (readNat digits).map fun n : ℕ => -(n : ℤ)
    else if c = '+' then (readNat digits).map Int.ofNat
    else (readNat (c :: digits)).map Int.ofNat

example : parse " -1_0\n".toList = some (-10) := by decide
example : parse "1__0".toList = none := by decide

/-- The usual notation. -/
def render (n : ℤ) : List Char := (toString n).toList

/-! ## Reading back -/

theorem digitValue_of_isDigit {c : Char} (h : c.isDigit) :
    digitValue c = some (c.toNat - '0'.toNat) := by
  have hrange : 0x30 ≤ c.toNat ∧ c.toNat ≤ 0x30 + 9 := by
    simpa [Char.isDigit_iff_toNat] using h
  have hfind : zeros.find? (fun z => z ≤ c.toNat && c.toNat ≤ z + 9) = some 0x30 := by
    refine List.find?_cons_of_pos ?_
    simpa using hrange
  rw [digitValue, hfind]
  rfl

theorem readDigits_digits {l : List Char} (h : ∀ c ∈ l, c.isDigit) (after : Bool) (value : ℕ)
    (hne : l ≠ [] ∨ after = true) :
    readDigits after value l = some (Nat.ofDigitChars 10 l value) := by
  induction l generalizing after value with
  | nil =>
    obtain rfl := hne.resolve_left fun hne => hne rfl
    rfl
  | cons c t ih =>
    have hc := h c List.mem_cons_self
    have hunderscore : c ≠ '_' := by
      rintro rfl
      exact absurd hc (by decide)
    rw [readDigits, if_neg hunderscore, digitValue_of_isDigit hc, Option.bind_some,
      ih (fun c hc => h c (List.mem_cons_of_mem _ hc)) true _ (.inr rfl), Nat.ofDigitChars_cons]

theorem isDigit_of_mem {n : ℕ} {c : Char} (h : c ∈ Nat.toDigits 10 n) : c.isDigit :=
  Nat.isDigit_of_mem_toDigits (by decide) (by decide) h

theorem readNat_toDigits {n : ℕ} (h : (Nat.toDigits 10 n).length ≤ maxDigits) :
    readNat (Nat.toDigits 10 n) = some n := by
  have hfilter : ((Nat.toDigits 10 n).filter (· ≠ '_')).length ≤ maxDigits :=
    (List.length_filter_le _ _).trans h
  rw [readNat, if_neg (Nat.not_lt.mpr hfilter),
    readDigits_digits (fun c hc => isDigit_of_mem hc) false 0 (.inl Nat.toDigits_ne_nil),
    Nat.ofDigitChars_ten_toDigits]

theorem trim_of_notSpace {l : List Char} (h : ∀ c ∈ l, isSpace c = false) : trim l = l := by
  have hdrop {l : List Char} (h : ∀ c ∈ l, isSpace c = false) : l.dropWhile isSpace = l := by
    cases l with
    | nil => rfl
    | cons c t =>
      rw [List.dropWhile_cons_of_neg]
      rw [h c List.mem_cons_self]
      exact Bool.false_ne_true
  rw [trim, hdrop h, hdrop fun c hc => h c (List.mem_reverse.mp hc), List.reverse_reverse]

theorem isSpace_of_isDigit {c : Char} (h : c.isDigit) : isSpace c = false := by
  have hrange : 0x30 ≤ c.toNat ∧ c.toNat ≤ 0x39 := by
    simpa [Char.isDigit_iff_toNat] using h
  have hother : ∀ n ∈ otherSpaces, 0x39 < n := by decide
  rw [isSpace, Bool.or_eq_false_iff, Bool.or_eq_false_iff]
  refine ⟨⟨decide_eq_false fun hc => ?_, ?_⟩, ?_⟩
  · rw [hc] at h
    exact absurd h (by decide)
  · rw [Bool.and_eq_false_iff]
    exact .inr (decide_eq_false (by omega))
  · rw [List.contains_eq_mem]
    exact decide_eq_false fun hmem => by
      have := hother _ hmem
      omega

/-- The notation is a sign, if any, and digits. -/
theorem render_eq (n : ℤ) : render n =
    if 0 ≤ n then Nat.toDigits 10 n.toNat else '-' :: Nat.toDigits 10 (-n).toNat := by
  rw [render, Int.toString_eq_repr, Int.repr_eq_if]
  split
  · exact Nat.toList_repr
  · rw [String.toList_append, Nat.toList_repr]
    rfl

theorem parse_minus {digits : List Char} (h : ∀ c ∈ digits, c.isDigit) :
    parse ('-' :: digits) = (readNat digits).map fun n : ℕ => -(n : ℤ) := by
  have hspace : ∀ c ∈ '-' :: digits, isSpace c = false := by
    intro c hc
    rcases List.mem_cons.mp hc with rfl | hc
    · decide
    · exact isSpace_of_isDigit (h c hc)
  rw [parse, trim_of_notSpace hspace]
  exact if_pos rfl

theorem parse_digits {digits : List Char} (h : ∀ c ∈ digits, c.isDigit) (hne : digits ≠ []) :
    parse digits = (readNat digits).map Int.ofNat := by
  obtain ⟨c, t, rfl⟩ := List.exists_cons_of_ne_nil hne
  have hsign {d : Char} (hd : d.isDigit = false) : c ≠ d := by
    rintro rfl
    exact absurd (h c List.mem_cons_self) (by rw [hd]; exact Bool.false_ne_true)
  rw [parse, trim_of_notSpace fun c hc => isSpace_of_isDigit (h c hc)]
  exact (if_neg (hsign (by decide))).trans (if_neg (hsign (by decide)))

/-- **The usual notation is read back**, if it is not too long. -/
theorem parse_render {n : ℤ} (h : (render n).length ≤ maxDigits) : parse (render n) = some n := by
  rw [render_eq] at h ⊢
  split at h
  · rename_i hn
    rw [if_pos hn, parse_digits (fun c hc => isDigit_of_mem hc) Nat.toDigits_ne_nil,
      readNat_toDigits h, Option.map_some]
    exact congrArg some (Int.toNat_of_nonneg hn)
  · rename_i hn
    have hlen : (Nat.toDigits 10 (-n).toNat).length ≤ maxDigits := (Nat.le_succ _).trans h
    rw [if_neg hn, parse_minus (fun c hc => isDigit_of_mem hc), readNat_toDigits hlen,
      Option.map_some, Int.toNat_of_nonneg (by omega), Int.neg_neg]

/-- The sign does not count. -/
theorem parse_render_of_natAbs {n : ℤ} (h : (Nat.toDigits 10 n.natAbs).length ≤ maxDigits) :
    parse (render n) = some n := by
  rw [render_eq]
  split
  · rename_i hn
    rw [← Int.toNat_of_nonneg hn, Int.natAbs_natCast] at h
    rw [parse_digits (fun c hc => isDigit_of_mem hc) Nat.toDigits_ne_nil, readNat_toDigits h,
      Option.map_some]
    exact congrArg some (Int.toNat_of_nonneg hn)
  · rename_i hn
    have habs : n.natAbs = (-n).toNat := by omega
    rw [habs] at h
    rw [parse_minus (fun c hc => isDigit_of_mem hc), readNat_toDigits h, Option.map_some,
      Int.toNat_of_nonneg (by omega), Int.neg_neg]

end IntText
