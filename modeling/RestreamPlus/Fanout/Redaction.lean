import RestreamPlus.Domain.Target
import RestreamPlus.Lib.Blanking
import RestreamPlus.Lib.Machine

/-!
# The stderr redaction sink (`app/fanout/redaction.py`)

Bytes in, redacted lines out. `loopStep` is one pass of the `while` loop of
`feed`: a complete line is redacted and emitted; without a newline, and once
`MAX_LINE_LEN` plus the length of the URL has been buffered, that window is
redacted, its first `MAX_LINE_LEN` bytes are emitted and the rest goes back into
the buffer. The run of a sink is a machine, since a pass may put back more than
it took.
-/

namespace RestreamPlus

open Replace Interleaving

/-- A `bytes` literal. -/
def ascii (s : String) : Bytes := s.toList.map fun c => UInt8.ofNat c.toNat

def newline : UInt8 := 10

def slash : UInt8 := 47

def star : UInt8 := 42

namespace Redaction

/-- `MAX_LINE_LEN`. -/
def maxLineLen : ℕ := 4096

/-- What stands between the outer stars of the placeholder. -/
def placeholderBody : Bytes := ascii "**REDACTED**"

/-- `REDACTION_PLACEHOLDER`. -/
def placeholder : Bytes := star :: (placeholderBody ++ [star])

example : placeholder = ascii "***REDACTED***" := by decide

/-! ## The regular expression -/

/-- `\s` of a bytes pattern. -/
def isSpace (b : UInt8) : Bool := b = 32 || (9 ≤ b && b ≤ 13)

/-- `[^/\s]`. -/
def isPathByte (b : UInt8) : Bool := b ≠ slash && !isSpace b

/-- `[A-Za-z0-9_\-]`. -/
def isKeyByte (b : UInt8) : Bool :=
  (65 ≤ b && b ≤ 90) || (97 ≤ b && b ≤ 122) || (48 ≤ b && b ≤ 57) || b = 95 || b = 45

/-- `rtmps?://`, with what follows. -/
def matchScheme (l : Bytes) : Option (Bytes × Bytes) :=
  if ascii "rtmps://" <+: l then some (ascii "rtmps://", l.drop 8)
  else if ascii "rtmp://" <+: l then some (ascii "rtmp://", l.drop 7)
  else none

/-- `[^/\s]+/`, with what follows. The class excludes the slash, so the longest
run is the only one a slash can follow. -/
def matchSegment (l : Bytes) : Option (Bytes × Bytes) :=
  if l.takeWhile isPathByte = [] then none
  else
    match l.dropWhile isPathByte with
    | b :: rest => if b = slash then some (l.takeWhile isPathByte ++ [slash], rest) else none
    | [] => none

/-- `_RTMP_TAIL_RE` at the start of a text: the two groups and what follows. -/
def matchTail (l : Bytes) : Option (Bytes × Bytes × Bytes) := do
  let (scheme, l) ← matchScheme l
  let (host, l) ← matchSegment l
  let (app, l) ← matchSegment l
  if 8 ≤ (l.takeWhile isKeyByte).length then
    some (scheme ++ (host ++ app), l.takeWhile isKeyByte, l.dropWhile isKeyByte)
  else none

/-- The scan of `_RTMP_TAIL_RE.sub`, after `n` bytes still to be skipped. -/
def subTailFrom : ℕ → Bytes → Bytes
  | _, [] => []
  | n + 1, _ :: t => subTailFrom n t
  | 0, c :: t =>
    match matchTail (c :: t) with
    | some (path, key, _) => path ++ placeholder ++ subTailFrom (path.length + key.length - 1) t
    | none => c :: subTailFrom 0 t

/-- `_RTMP_TAIL_RE.sub(rb"\1" + REDACTION_PLACEHOLDER, line)`. -/
def subTail (l : Bytes) : Bytes := subTailFrom 0 l

/-! ## The sink -/

/-- `_redact_line`: the literal pass, then the regular expression. -/
def redactLine (url line : Bytes) : Bytes :=
  subTail (if url <:+: line then replaceAll url placeholder line else line)

/-- The line at the front of the buffer. -/
def firstLine (buf : Bytes) : Bytes := buf.takeWhile (· ≠ newline)

/-- The window of a forced split. -/
def window (url buf : Bytes) : Bytes := buf.take (maxLineLen + url.length)

/-- One pass of the loop of `feed`: what it emits and the buffer afterwards;
`none` when the loop ends. -/
def loopStep (url buf : Bytes) : Option (Bytes × Bytes) :=
  match buf.dropWhile (· ≠ newline) with
  | _ :: rest => some (redactLine url (firstLine buf), rest)
  | [] =>
    if buf.length < maxLineLen + url.length then none
    else
      let redacted := redactLine url (window url buf)
      some (redacted.take maxLineLen,
        redacted.drop maxLineLen ++ buf.drop (maxLineLen + url.length))

/-- A sink in the middle of a stream. -/
structure Sink : Type where
  buf : Bytes
  /-- what ffmpeg has yet to write -/
  unfed : Bytes
  /-- everything emitted so far -/
  lines : List Bytes

inductive Label : Type where
  /-- `feed` with the next `n` bytes -/
  | feed : ℕ → Label
  /-- a pass of its loop -/
  | iterate : Label
  | flush : Label

/-- A sink for a worker with this output URL. -/
def step (url : Bytes) (c : Sink) : Label → Option Sink
  | .feed n =>
    if loopStep url c.buf = none then
      some { c with buf := c.buf ++ c.unfed.take n, unfed := c.unfed.drop n }
    else none
  | .iterate =>
    (loopStep url c.buf).map fun r => { c with buf := r.2, lines := c.lines ++ [r.1] }
  | .flush =>
    if loopStep url c.buf = none ∧ c.unfed = [] then
      if c.buf = [] then some c
      else some { c with buf := [], lines := c.lines ++ [redactLine url c.buf] }
    else none

def machine (url : Bytes) : Machine Sink Label := ⟨step url⟩

theorem step_machine (url : Bytes) (c : Sink) (a : Label) :
    (machine url).step c a = step url c a := rfl

/-- A fresh sink in front of a stream. -/
def start (stream : Bytes) : Sink := ⟨[], stream, []⟩

theorem loopStep_nil (url : Bytes) : loopStep url [] = none :=
  if_pos (Nat.add_pos_left (by decide) _)

/-- The whole stream in one read. -/
theorem step_feed_all (url : Bytes) {stream : Bytes} {n : ℕ} (hn : stream.length ≤ n) :
    (machine url).step (start stream) (.feed n) = some ⟨stream, [], []⟩ := by
  rw [step_machine, step, start, if_pos (loopStep_nil url), List.nil_append,
    List.take_of_length_le hn, List.drop_of_length_le hn]

/-! ## Lemmas about the two passes -/

theorem subTailFrom_drop (n : ℕ) (l : Bytes) : subTailFrom n l = subTail (l.drop n) := by
  induction l generalizing n with
  | nil => cases n <;> rfl
  | cons c t ih =>
    cases n with
    | zero => rfl
    | succ n => exact ih n

theorem matchScheme_spec {l s r : Bytes} (h : matchScheme l = some (s, r)) : l = s ++ r := by
  rw [matchScheme] at h
  split at h
  · rename_i hp
    obtain ⟨rest, rfl⟩ := hp
    cases h
    rfl
  · split at h
    · rename_i hp
      obtain ⟨rest, rfl⟩ := hp
      cases h
      rfl
    · cases h

theorem matchSegment_spec {l s r : Bytes} (h : matchSegment l = some (s, r)) :
    l = s ++ r ∧ s ≠ [] := by
  rw [matchSegment] at h
  split at h
  · cases h
  · split at h
    · rename_i b rest hd
      split at h
      · rename_i hb
        subst hb
        cases h
        refine ⟨?_, by simp⟩
        rw [List.append_assoc, List.singleton_append, ← hd, List.takeWhile_append_dropWhile]
      · cases h
    · cases h

/-- A match covers a nonempty path and a key in front of the rest. -/
theorem matchTail_spec {l path key rest : Bytes} (h : matchTail l = some (path, key, rest)) :
    l = path ++ (key ++ rest) ∧ path ≠ [] := by
  obtain ⟨⟨s, l₁⟩, hs, h⟩ := Option.bind_eq_some_iff.mp h
  obtain ⟨⟨host, l₂⟩, hh, h⟩ := Option.bind_eq_some_iff.mp h
  obtain ⟨⟨app, l₃⟩, ha, h⟩ := Option.bind_eq_some_iff.mp h
  dsimp only at hs hh ha h
  split at h
  · cases h
    obtain ⟨rfl, hne⟩ := matchSegment_spec ha
    obtain ⟨rfl, -⟩ := matchSegment_spec hh
    obtain rfl := matchScheme_spec hs
    refine ⟨?_, by simp [hne]⟩
    rw [List.takeWhile_append_dropWhile]
    simp only [List.append_assoc]
  · cases h

/-- A match begins with an `r`. -/
theorem matchTail_of_ne {c : UInt8} (h : c ≠ 114) (t : Bytes) : matchTail (c :: t) = none := by
  have hno : ∀ p : Bytes, p.head? = some 114 → ¬ p <+: c :: t := by
    rintro (_ | ⟨d, p⟩) hd hp
    · cases hd
    · exact h ((List.cons_prefix_cons.mp hp).1.symm.trans (Option.some.inj hd))
  have hs : matchScheme (c :: t) = none := by
    rw [matchScheme, if_neg (hno (ascii "rtmps://") rfl), if_neg (hno (ascii "rtmp://") rfl)]
  rw [matchTail, hs]
  rfl

/-- Where the expression does not match, the scan moves on by one. -/
theorem subTail_cons {c : UInt8} {t : Bytes} (h : matchTail (c :: t) = none) :
    subTail (c :: t) = c :: subTail t := by
  rw [subTail, subTailFrom, h]
  rfl

/-- A match keeps the path and replaces the key. -/
theorem subTail_of_match {l path key rest : Bytes} (h : matchTail l = some (path, key, rest)) :
    subTail l = path ++ placeholder ++ subTail rest := by
  obtain ⟨hl, hne⟩ := matchTail_spec h
  obtain ⟨c, p, rfl⟩ := List.exists_cons_of_ne_nil hne
  rw [List.cons_append] at hl
  rw [hl] at h ⊢
  rw [subTail, subTailFrom, h]
  dsimp only
  rw [subTailFrom_drop]
  congr 2
  rw [show (c :: p).length + key.length - 1 = p.length + key.length by
    rw [List.length_cons]; omega, ← List.drop_drop, List.drop_left, List.drop_left]

/-- **The second pass as an induction**: nothing is left, the expression does not match, or
it matches a path and a key. -/
theorem tail_induction {motive : Bytes → Prop} (nil : motive [])
    (pass : ∀ c t, matchTail (c :: t) = none → motive t → motive (c :: t))
    (found : ∀ path key rest, matchTail (path ++ (key ++ rest)) = some (path, key, rest) →
      motive rest → motive (path ++ (key ++ rest))) (l : Bytes) : motive l := by
  induction hn : l.length using Nat.strong_induction_on generalizing l with
  | _ n ih =>
    rcases hm : matchTail l with _ | ⟨path, key, rest⟩
    · cases l with
      | nil => exact nil
      | cons c t => exact pass c t hm (ih t.length (by rw [← hn]; exact Nat.lt_succ_self _) t rfl)
    · obtain ⟨rfl, hne⟩ := matchTail_spec hm
      refine found path key rest hm (ih rest.length ?_ rest rfl)
      have := List.length_pos_iff.mpr hne
      rw [← hn, List.length_append, List.length_append]
      omega

/-- The literal pass may be run on every line. -/
theorem redactLine_eq (url line : Bytes) :
    redactLine url line = subTail (replaceAll url placeholder line) := by
  rw [redactLine]
  split
  · rfl
  · rename_i hno
    rw [replaceAll_of_absent placeholder hno]

/-- The second pass only puts placeholders over keys. -/
theorem hides_subTail {s : Bytes} (hs : star ∉ s) (hq : ¬ s <:+: placeholderBody) (l : Bytes) :
    Hides s l (subTail l) := by
  induction l using tail_induction with
  | nil => exact Hides.refl s []
  | pass c t hm ih =>
    rw [subTail_cons hm]
    exact Hides.cons c ih
  | found path key rest hm ih =>
    rw [subTail_of_match hm, List.append_assoc]
    exact (Hides.refl s path).append ((hides_fence hs hq key).append ih)

/-- **Redacting a line** hides what blanking URLs in it hides, if no two of them
overlap. -/
theorem hides_redactLine {url s line m : Bytes} (hurl : url ≠ []) (hs : star ∉ s)
    (hq : ¬ s <:+: placeholderBody) (hm : Blanks star url line m) (hno : NoOverlap url line) :
    Hides s m (redactLine url line) := by
  rw [redactLine_eq]
  exact (hm.hides_replaceAll hurl hs hq hno).trans (hides_subTail hs hq _)

/-! ## Newlines -/

theorem mem_replaceAll {pat rep l : Bytes} {b : UInt8} (h : b ∈ replaceAll pat rep l) :
    b ∈ rep ∨ b ∈ l := by
  have hfrom : ∀ (l : Bytes) (n : ℕ), b ∈ replaceAllFrom pat rep n l → b ∈ rep ∨ b ∈ l := by
    intro l
    induction l with
    | nil => intro n h; cases n <;> cases h
    | cons c t ih =>
      intro n h
      cases n with
      | succ n => exact (ih n h).imp_right (List.mem_cons_of_mem c)
      | zero =>
        rw [replaceAllFrom] at h
        split at h
        · rcases List.mem_append.mp h with h | h
          · exact .inl h
          · exact (ih _ h).imp_right (List.mem_cons_of_mem c)
        · rcases List.mem_cons.mp h with rfl | h
          · exact .inr List.mem_cons_self
          · exact (ih 0 h).imp_right (List.mem_cons_of_mem c)
  exact hfrom l 0 h

theorem mem_subTail {l : Bytes} {b : UInt8} (h : b ∈ subTail l) : b ∈ placeholder ∨ b ∈ l := by
  induction l using tail_induction with
  | nil => cases h
  | pass c t hm ih =>
    rw [subTail_cons hm] at h
    rcases List.mem_cons.mp h with rfl | h
    · exact .inr List.mem_cons_self
    · exact (ih h).imp_right (List.mem_cons_of_mem c)
  | found path key rest hm ih =>
    rw [subTail_of_match hm] at h
    rcases List.mem_append.mp h with h | h
    · rcases List.mem_append.mp h with h | h
      · exact .inr (List.mem_append_left _ h)
      · exact .inl h
    · refine (ih h).imp_right fun h => ?_
      exact List.mem_append_right _ (List.mem_append_right _ h)

/-- A line stays a line. -/
theorem newline_notMem_redactLine {url line : Bytes} (h : newline ∉ line) :
    newline ∉ redactLine url line := by
  rw [redactLine_eq]
  intro hmem
  rcases mem_subTail hmem with hp | hmem
  · revert hp
    decide
  · rcases mem_replaceAll hmem with hp | hl
    · revert hp
      decide
    · exact h hl

end Redaction

end RestreamPlus
