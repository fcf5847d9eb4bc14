import Mathlib.Data.List.Basic

/-!
# UTF-8

`encode` and a decoder that reads one byte at a time. A sequence that cannot be
continued gives one error, and the byte that broke it is read again as the start
of the next one. So the errors are the maximal subparts the Unicode standard
recommends to replace: `decodeReplace` writes a replacement character for each,
`decode` refuses the text.
-/

namespace Utf8

/-- The bytes of a text. -/
def encode (t : List Char) : List UInt8 := t.flatMap String.utf8EncodeChar

/-- A sequence that has begun. -/
structure Pending : Type where
  /-- the bytes that are missing -/
  missing : ℕ
  /-- the bits so far -/
  code : ℕ
  /-- the range of the next byte -/
  lower : ℕ
  upper : ℕ

/-- What a byte makes of a state: characters and errors, and the state after it. -/
abbrev Outcome : Type := List (Option Char) × Option Pending

/-- The first byte of a sequence. -/
def first (b : ℕ) : Outcome :=
  if b ≤ 0x7F then ([some (Char.ofNat b)], none)
  else if b ≤ 0xC1 then ([none], none)
  else if b ≤ 0xDF then ([], some ⟨1, b - 0xC0, 0x80, 0xBF⟩)
  else if b ≤ 0xEF then
    ([], some ⟨2, b - 0xE0, if b = 0xE0 then 0xA0 else 0x80, if b = 0xED then 0x9F else 0xBF⟩)
  else if b ≤ 0xF4 then
    ([], some ⟨3, b - 0xF0, if b = 0xF0 then 0x90 else 0x80, if b = 0xF4 then 0x8F else 0xBF⟩)
  else ([none], none)

/-- One byte. -/
def step : Option Pending → ℕ → Outcome
  | none, b => first b
  | some p, b =>
    if p.lower ≤ b ∧ b ≤ p.upper then
      if p.missing ≤ 1 then ([some (Char.ofNat (p.code * 64 + (b - 0x80)))], none)
      else ([], some ⟨p.missing - 1, p.code * 64 + (b - 0x80), 0x80, 0xBF⟩)
    else (none :: (first b).1, (first b).2)

/-- The characters and the errors from a state on. -/
def decodeFrom : Option Pending → List UInt8 → List (Option Char)
  | none, [] => []
  | some _, [] => [none]
  | s, b :: bytes => (step s b.toNat).1 ++ decodeFrom (step s b.toNat).2 bytes

/-- The text, unless there is an error. -/
def decode (bytes : List UInt8) : Option (List Char) := (decodeFrom none bytes).mapM id

/-- The text, with a replacement character for every error. -/
def decodeReplace (bytes : List UInt8) : List Char :=
  (decodeFrom none bytes).map fun c => c.getD '\uFFFD'

example : decodeReplace [0x61, 0xE2, 0x82, 0x41, 0xF0, 0x80, 0xED, 0xA0] =
    "a\uFFFDA\uFFFD\uFFFD\uFFFD\uFFFD".toList := by decide

theorem decodeFrom_cons (s : Option Pending) (b : UInt8) (bytes : List UInt8) :
    decodeFrom s (b :: bytes) = (step s b.toNat).1 ++ decodeFrom (step s b.toNat).2 bytes := by
  cases s <;> rfl

@[simp] theorem encode_nil : encode [] = [] := rfl

@[simp] theorem encode_cons (c : Char) (t : List Char) :
    encode (c :: t) = String.utf8EncodeChar c ++ encode t := rfl

@[simp] theorem encode_append (t t' : List Char) : encode (t ++ t') = encode t ++ encode t' :=
  List.flatMap_append

/-- A character takes a byte at least. -/
theorem length_le_encode (t : List Char) : t.length ≤ (encode t).length := by
  induction t with
  | nil => exact Nat.zero_le _
  | cons c t ih =>
    rw [encode_cons, List.length_append, String.length_utf8EncodeChar, List.length_cons,
      Nat.add_comm]
    exact Nat.add_le_add (Char.utf8Size_pos c) ih

/-! ## Decoding what was encoded -/

theorem decodeFrom_ofNat {s : Option Pending} {n : ℕ} {o : Outcome} (hn : n < 256)
    (h : step s n = o) (bytes : List UInt8) :
    decodeFrom s (UInt8.ofNat n :: bytes) = o.1 ++ decodeFrom o.2 bytes := by
  have hback : (UInt8.ofNat n).toNat = n := by
    rw [UInt8.toNat_ofNat']
    exact Nat.mod_eq_of_lt hn
  rw [decodeFrom_cons, hback, h]

/-- A continuation byte in range is taken. -/
theorem step_more {missing code lower upper b : ℕ} (hl : lower ≤ b + 0x80) (hu : b + 0x80 ≤ upper)
    (hm : 1 < missing) :
    step (some ⟨missing, code, lower, upper⟩) (b + 0x80) =
      ([], some ⟨missing - 1, code * 64 + b, 0x80, 0xBF⟩) := by
  rw [step, if_pos ⟨hl, hu⟩, if_neg (Nat.not_le.mpr hm), Nat.add_sub_cancel]

/-- The last byte of a sequence. -/
theorem step_last {code b : ℕ} (hb : b < 64) :
    step (some ⟨1, code, 0x80, 0xBF⟩) (b + 0x80) = ([some (Char.ofNat (code * 64 + b))], none) := by
  have hl : 0x80 ≤ b + 0x80 := Nat.le_add_left _ _
  have hu : b + 0x80 ≤ 0xBF := by omega
  rw [step, if_pos ⟨hl, hu⟩, if_pos (Nat.le_refl 1), Nat.add_sub_cancel]

section Sequences

variable {a b c d : ℕ} (bytes : List UInt8)

theorem decodeFrom_one (ha : a ≤ 0x7F) :
    decodeFrom none (UInt8.ofNat a :: bytes) = some (Char.ofNat a) :: decodeFrom none bytes := by
  have hfirst : step none a = ([some (Char.ofNat a)], none) := if_pos ha
  rw [decodeFrom_ofNat (by omega) hfirst]
  rfl

theorem decodeFrom_two (hl : 2 ≤ a) (hu : a < 32) (hb : b < 64) :
    decodeFrom none (UInt8.ofNat (a + 0xC0) :: UInt8.ofNat (b + 0x80) :: bytes) =
      some (Char.ofNat (a * 64 + b)) :: decodeFrom none bytes := by
  have hfirst : step none (a + 0xC0) = ([], some ⟨1, a, 0x80, 0xBF⟩) := by
    rw [step, first, if_neg (by omega), if_neg (by omega), if_pos (by omega), Nat.add_sub_cancel]
  rw [decodeFrom_ofNat (by omega) hfirst, decodeFrom_ofNat (by omega) (step_last hb)]
  rfl

theorem decodeFrom_three (ha : a < 16) (hl : a = 0 → 32 ≤ b) (hu : a = 13 → b < 32)
    (hb : b < 64) (hc : c < 64) :
    decodeFrom none (UInt8.ofNat (a + 0xE0) :: UInt8.ofNat (b + 0x80) ::
        UInt8.ofNat (c + 0x80) :: bytes) =
      some (Char.ofNat ((a * 64 + b) * 64 + c)) :: decodeFrom none bytes := by
  have hfirst : step none (a + 0xE0) = ([], some ⟨2, a, if a + 0xE0 = 0xE0 then 0xA0 else 0x80,
      if a + 0xE0 = 0xED then 0x9F else 0xBF⟩) := by
    rw [step, first, if_neg (by omega), if_neg (by omega), if_neg (by omega), if_pos (by omega),
      Nat.add_sub_cancel]
  have hlower : (if a + 0xE0 = 0xE0 then 0xA0 else 0x80) ≤ b + 0x80 := by split <;> omega
  have hupper : b + 0x80 ≤ if a + 0xE0 = 0xED then 0x9F else 0xBF := by split <;> omega
  rw [decodeFrom_ofNat (by omega) hfirst,
    decodeFrom_ofNat (by omega) (step_more hlower hupper Nat.one_lt_two),
    decodeFrom_ofNat (by omega) (step_last hc)]
  rfl

theorem decodeFrom_four (ha : a ≤ 4) (hl : a = 0 → 16 ≤ b) (hu : a = 4 → b < 16) (hb : b < 64)
    (hc : c < 64) (hd : d < 64) :
    decodeFrom none (UInt8.ofNat (a + 0xF0) :: UInt8.ofNat (b + 0x80) :: UInt8.ofNat (c + 0x80) ::
        UInt8.ofNat (d + 0x80) :: bytes) =
      some (Char.ofNat (((a * 64 + b) * 64 + c) * 64 + d)) :: decodeFrom none bytes := by
  have hfirst : step none (a + 0xF0) = ([], some ⟨3, a, if a + 0xF0 = 0xF0 then 0x90 else 0x80,
      if a + 0xF0 = 0xF4 then 0x8F else 0xBF⟩) := by
    rw [step, first, if_neg (by omega), if_neg (by omega), if_neg (by omega), if_neg (by omega),
      if_pos (by omega), Nat.add_sub_cancel]
  have hlower : (if a + 0xF0 = 0xF0 then 0x90 else 0x80) ≤ b + 0x80 := by split <;> omega
  have hupper : b + 0x80 ≤ if a + 0xF0 = 0xF4 then 0x8F else 0xBF := by split <;> omega
  rw [decodeFrom_ofNat (by omega) hfirst,
    decodeFrom_ofNat (by omega) (step_more hlower hupper (by decide)),
    decodeFrom_ofNat (by omega) (step_more (Nat.le_add_left _ _) (by omega) Nat.one_lt_two),
    decodeFrom_ofNat (by omega) (step_last hd)]
  rfl

end Sequences

/-- The code points of characters: two ranges around the surrogates. -/
theorem code_valid (c : Char) : c.toNat < 0xD800 ∨ 0xDFFF < c.toNat ∧ c.toNat < 0x110000 :=
  c.valid

/-- **One character** is read back. -/
theorem decodeFrom_utf8EncodeChar (c : Char) (bytes : List UInt8) :
    decodeFrom none (String.utf8EncodeChar c ++ bytes) = some c :: decodeFrom none bytes := by
  have hvalid := code_valid c
  have hback : Char.ofNat c.toNat = c := Char.ofNat_toNat c
  have hv : c.val.toNat = c.toNat := rfl
  rw [String.utf8EncodeChar, hv]
  generalize c.toNat = v at hvalid hback ⊢
  split
  · rename_i hone
    rw [List.singleton_append, decodeFrom_one bytes hone, hback]
  · split
    · have hcode : v / 64 % 0x20 * 64 + v % 0x40 = v := by omega
      refine (decodeFrom_two bytes ?_ ?_ ?_).trans ?_
      · omega
      · omega
      · omega
      · rw [hcode, hback]
    · split
      · have hcode : (v / 4096 % 0x10 * 64 + v / 64 % 0x40) * 64 + v % 0x40 = v := by omega
        refine (decodeFrom_three bytes ?_ ?_ ?_ ?_ ?_).trans ?_
        · omega
        · omega
        · omega
        · omega
        · omega
        · rw [hcode, hback]
      · have hcode : ((v / 262144 % 0x08 * 64 + v / 4096 % 0x40) * 64 + v / 64 % 0x40) * 64 +
            v % 0x40 = v := by omega
        refine (decodeFrom_four bytes ?_ ?_ ?_ ?_ ?_ ?_).trans ?_
        · omega
        · omega
        · omega
        · omega
        · omega
        · omega
        · rw [hcode, hback]

theorem decodeFrom_encode (t : List Char) : decodeFrom none (encode t) = t.map some := by
  induction t with
  | nil => rfl
  | cons c t ih => rw [encode_cons, decodeFrom_utf8EncodeChar, ih, List.map_cons]

/-- **What was encoded is read back.** -/
theorem decode_encode (t : List Char) : decode (encode t) = some t := by
  rw [decode, decodeFrom_encode]
  induction t with
  | nil => rfl
  | cons c t ih =>
    rw [List.map_cons, List.mapM_cons, ih]
    rfl

theorem decodeReplace_encode (t : List Char) : decodeReplace (encode t) = t := by
  rw [decodeReplace, decodeFrom_encode, List.map_map]
  exact List.map_id t

/-! ## ASCII -/

/-- A byte below 128 is a character of the text. -/
theorem mem_of_mem_encode {t : List Char} {b : UInt8} (h : b ∈ encode t) (hb : b.toNat < 0x80) :
    Char.ofNat b.toNat ∈ t := by
  obtain ⟨c, hc, hmem⟩ := List.mem_flatMap.mp h
  have hback : Char.ofNat c.val.toNat = c := Char.ofNat_toNat c
  have hlarge (n : ℕ) (hn : 0x80 ≤ n % 256) : b ≠ UInt8.ofNat n := by
    rintro rfl
    rw [UInt8.toNat_ofNat'] at hb
    exact absurd hb (Nat.not_lt.mpr hn)
  rw [String.utf8EncodeChar] at hmem
  split at hmem
  · rename_i hone
    rw [List.mem_singleton.mp hmem, UInt8.toNat_ofNat', Nat.mod_eq_of_lt (by omega), hback]
    exact hc
  · -- every byte of a longer sequence has its highest bit
    refine absurd hmem ?_
    split
    · simp only [List.mem_cons, List.not_mem_nil, or_false, not_or]
      exact ⟨hlarge _ (by omega), hlarge _ (by omega)⟩
    · split
      · simp only [List.mem_cons, List.not_mem_nil, or_false, not_or]
        exact ⟨hlarge _ (by omega), hlarge _ (by omega), hlarge _ (by omega)⟩
      · simp only [List.mem_cons, List.not_mem_nil, or_false, not_or]
        exact ⟨hlarge _ (by omega), hlarge _ (by omega), hlarge _ (by omega),
          hlarge _ (by omega)⟩

/-- A sequence never continues with an ASCII byte. -/
def Continues (s : Option Pending) : Prop := ∀ p ∈ s, 0x80 ≤ p.lower

theorem continues_none : Continues none := fun _ h => nomatch h

theorem continues_some {p : Pending} (h : 0x80 ≤ p.lower) : Continues (some p) := by
  rintro _ ⟨⟩
  exact h

theorem continues_first (b : ℕ) : Continues (first b).2 := by
  rw [first]
  split
  · exact continues_none
  split
  · exact continues_none
  split
  · exact continues_some (Nat.le_refl _)
  split
  · refine continues_some ?_
    dsimp only
    split <;> decide
  split
  · refine continues_some ?_
    dsimp only
    split <;> decide
  · exact continues_none

theorem continues_step (s : Option Pending) (b : ℕ) : Continues (step s b).2 := by
  rcases s with _ | p
  · exact continues_first b
  · rw [step]
    split
    · split
      · exact continues_none
      · exact continues_some (Nat.le_refl _)
    · exact continues_first b

theorem decodeFrom_append_ascii {s : Option Pending} (hs : Continues s) (bytes : List UInt8)
    {b : UInt8} (hb : b.toNat < 0x80) :
    decodeFrom s (bytes ++ [b]) = decodeFrom s bytes ++ [some (Char.ofNat b.toNat)] := by
  have hfirst : first b.toNat = ([some (Char.ofNat b.toNat)], none) := if_pos (by omega)
  induction bytes generalizing s with
  | nil =>
    rw [List.nil_append, decodeFrom_cons]
    rcases s with _ | p
    · rw [step, hfirst]
      rfl
    · have hp : 0x80 ≤ p.lower := hs p rfl
      rw [step, if_neg (by omega), hfirst]
      rfl
  | cons b' bytes ih =>
    rw [List.cons_append, decodeFrom_cons, ih (continues_step s _), decodeFrom_cons,
      List.append_assoc]

/-- **An ASCII character** behind any bytes is read as itself. -/
theorem decodeReplace_append_ascii (bytes : List UInt8) {b : UInt8} (hb : b.toNat < 0x80) :
    decodeReplace (bytes ++ [b]) = decodeReplace bytes ++ [Char.ofNat b.toNat] := by
  rw [decodeReplace, decodeFrom_append_ascii continues_none bytes hb, List.map_append]
  rfl

end Utf8
