import Mathlib.Data.List.Perm.Subperm
import RestreamPlus.Fanout.FFmpegWorker
import RestreamPlus.Fanout.RedactionFraming
import RestreamPlus.Lib.IntText
import RestreamPlus.Lib.Utf8

/-!
# The progress parser (`app/fanout/progress_parser.py`)

ffmpeg writes `key=value` lines, and a frame ends with its `progress` line. The
parser takes the complete lines of its buffer one after the other and then tests
the length of what is left; the pump replaces it when that raises.

What a float is, and what text denotes one, does not matter here: `float` is the
constructor of Python.

The second half says what a parser does without its two caps: `parse` follows the
lines, `spelled` is the frames a text spells, and `after` is the parser a text
leaves behind. The cap on a frame is never reached (`takeLine_eq`), so the cap on
a line is all there is between `feed` and that (`feed_after`).

So a parser that the pump replaces when it raises keeps little, whatever it reads
(`pump_memory`).
-/

namespace RestreamPlus

open Interleaving Replace Redaction

/-- The framing values. -/
inductive Progress : Type where
  | «continue»
  | «end»
  deriving DecidableEq

/-- `ProgressFrame`. -/
structure ProgressFrame (F : Type) : Type where
  frame : ℤ
  fps : F
  bitrateKbps : F
  outTimeUs : ℤ
  dupFrames : ℤ
  dropFrames : ℤ
  speed : F
  progress : Progress
  deriving DecidableEq

/-- `ProgressParseError`. -/
inductive ProgressParseError : Type where
  /-- this many bytes without a newline -/
  | line : ℕ → ProgressParseError
  | frame : ProgressParseError

/-- `ProgressParser`. -/
structure ProgressParser : Type where
  buf : Bytes
  pairs : Dict Text Text

namespace ProgressParser

/-- `PROGRESS_FRAME_MAX_LINES`. -/
def frameMaxLines : ℕ := 64

/-- `PROGRESS_LINE_MAX_LEN`. -/
def lineMaxLen : ℕ := 256

/-- The text of the exception. -/
def message : ProgressParseError → String
  | .line n => "line exceeded " ++ toString lineMaxLen ++ "-byte cap (no newline in " ++
      toString n ++ " bytes)"
  | .frame => "frame exceeded " ++ toString frameMaxLines ++ " interesting key=value pairs"

/-- The key of the framing line. -/
def progressKey : Text := "progress".toList

/-- `_INTEREST`. -/
def interest : List Text :=
  ["frame".toList, "fps".toList, "bitrate".toList, "out_time_us".toList, "dup_frames".toList,
    "drop_frames".toList, "speed".toList, progressKey]

/-- A new parser. -/
def init : ProgressParser := ⟨[], ∅⟩

/-! ## The values -/

/-- What ffmpeg writes for a value it does not know. -/
def notAvailable : Text := "N/A".toList

/-- `_parse_int`. -/
def parseInt : Option Text → ℤ
  | none => 0
  | some value => if value = notAvailable then 0 else (IntText.parse value).getD 0

section Values

variable {F : Type} [Zero F] (float : Text → Option F)

/-- `_parse_float`. -/
def parseFloat : Option Text → F
  | none => 0
  | some value => if value = notAvailable then 0 else (float value).getD 0

/-- The unit of a bitrate. -/
def bitrateSuffix : Text := "kbits/s".toList

/-- `_parse_bitrate`. -/
def parseBitrate : Option Text → F
  | none => 0
  | some value =>
    if value = notAvailable then 0
    else
      let s := if bitrateSuffix <:+ value then value.take (value.length - bitrateSuffix.length)
        else value
      (float s).getD 0

/-- `_parse_speed`. -/
def parseSpeed : Option Text → F
  | none => 0
  | some value =>
    if value = notAvailable then 0
    else
      let s := if ['x'] <:+ value then value.dropLast else value
      (float s).getD 0

/-- The framing value, if it is one. -/
def readProgress (value : Text) : Option Progress :=
  if value = "continue".toList then some .continue
  else if value = "end".toList then some .end
  else none

/-- `_build_frame`. -/
def buildFrame (pairs : Dict Text Text) : Option (ProgressFrame F) :=
  (readProgress ((pairs.get? progressKey).getD [])).map fun progress =>
    { frame := parseInt (pairs.get? "frame".toList)
      fps := parseFloat float (pairs.get? "fps".toList)
      bitrateKbps := parseBitrate float (pairs.get? "bitrate".toList)
      outTimeUs := parseInt (pairs.get? "out_time_us".toList)
      dupFrames := parseInt (pairs.get? "dup_frames".toList)
      dropFrames := parseInt (pairs.get? "drop_frames".toList)
      speed := parseSpeed float (pairs.get? "speed".toList)
      progress := progress }

end Values

/-! ## Lines -/

/-- The key and the value of a line, if it has a key of interest. -/
def entry (lineBytes : Bytes) : Option (Text × Text) :=
  let line := stripEnd '\r' (Utf8.decodeReplace lineBytes)
  if '=' ∉ line then none
  else
    let k := line.takeWhile (· ≠ '=')
    if k ∉ interest then none else some (k, (line.dropWhile (· ≠ '=')).tail)

example : entry (ascii "speed=1.01x\r") = some ("speed".toList, "1.01x".toList) := by decide

section Lines

variable {F : Type} [Zero F] (float : Text → Option F)

/-- The loop of `_drain_frames` for a complete line: the pairs after it, and the
frame it ends. -/
def takeLine (pairs : Dict Text Text) (lineBytes : Bytes) :
    Except ProgressParseError (Dict Text Text × Option (ProgressFrame F)) :=
  match entry lineBytes with
  | none => .ok (pairs, none)
  | some (k, v) =>
    let pairs := pairs.insert k v
    if frameMaxLines < pairs.keys.length then .error .frame
    else if k = progressKey then .ok (∅, buildFrame float pairs)
    else .ok (pairs, none)

/-- `_drain_frames` on these lines and what follows the last newline: the frames,
and the parser unless it raises. -/
def drainFrames (pairs : Dict Text Text) : List Bytes → Bytes →
    List (ProgressFrame F) × Except ProgressParseError ProgressParser
  | [], rest =>
    ([], if lineMaxLen < rest.length then .error (.line rest.length) else .ok ⟨rest, pairs⟩)
  | line :: lines, rest =>
    match takeLine float pairs line with
    | .error e => ([], .error e)
    | .ok (pairs, frame) =>
      (frame.toList ++ (drainFrames pairs lines rest).1, (drainFrames pairs lines rest).2)

/-- `feed`, to its end. -/
def feed (p : ProgressParser) (data : Bytes) :
    List (ProgressFrame F) × Except ProgressParseError ProgressParser :=
  drainFrames float p.pairs (splitLines (p.buf ++ data)).1 (splitLines (p.buf ++ data)).2

/-- `feed` with one chunk after the other, until it raises. -/
def feedAll (p : ProgressParser) : List Bytes →
    List (ProgressFrame F) × Except ProgressParseError ProgressParser
  | [] => ([], .ok p)
  | chunk :: chunks =>
    match feed float p chunk with
    | (frames, .ok p) => (frames ++ (feedAll p chunks).1, (feedAll p chunks).2)
    | (frames, .error e) => (frames, .error e)

/-- `_stdout_pump` on these chunks: what each read gives. A parser that raised is
replaced, and its frames are not looked at. -/
def pumpReads (p : ProgressParser) : List Bytes → List (FFmpegWorker.StdoutRead (ProgressFrame F))
  | [] => []
  | chunk :: chunks =>
    match feed float p chunk with
    | (frames, .ok p) => .frames frames :: pumpReads p chunks
    | (_, .error e) => .parseError (message e) :: pumpReads init chunks

/-- The frames of a read. -/
def framesOf {Frame : Type} : FFmpegWorker.StdoutRead Frame → List Frame
  | .frames frames => frames
  | .eof | .parseError _ | .failed _ => []

/-- The frames `_stdout_pump` emits for these reads. -/
def pumpFrames (chunks : List Bytes) : List (ProgressFrame F) :=
  (pumpReads float init chunks).flatMap framesOf

/-! ## Without the caps -/

/-- A line without the cap on frames. -/
def store (pairs : Dict Text Text) (line : Bytes) : Dict Text Text × Option (ProgressFrame F) :=
  match entry line with
  | none => (pairs, none)
  | some (k, v) =>
    if k = progressKey then (∅, buildFrame float (pairs.insert k v)) else (pairs.insert k v, none)

/-- The lines one after the other. -/
def parse (pairs : Dict Text Text) : List Bytes → List (ProgressFrame F) × Dict Text Text
  | [] => ([], pairs)
  | line :: lines =>
    ((store float pairs line).2.toList ++ (parse (store float pairs line).1 lines).1,
      (parse (store float pairs line).1 lines).2)

/-- **The frames a text spells.** -/
def spelled (text : Bytes) : List (ProgressFrame F) := (parse float ∅ (splitLines text).1).1

/-- The parser that has read a text. -/
def after (text : Bytes) : ProgressParser where
  buf := (splitLines text).2
  pairs := (parse float ∅ (splitLines text).1).2

/-- The pairs of an unfinished frame. -/
def Unfinished (pairs : Dict Text Text) : Prop := ∀ k ∈ pairs.keys, k ∈ interest.erase progressKey

end Lines

section Lemmas

variable {F : Type} [Zero F] {float : Text → Option F} {pairs : Dict Text Text}

theorem unfinished_empty : Unfinished ∅ := fun _ hk => absurd hk List.not_mem_nil

/-- There are seven keys besides `progress`. -/
theorem Unfinished.length_le (h : Unfinished pairs) : pairs.keys.length ≤ 7 :=
  (pairs.nodup.subperm h).length_le

theorem Unfinished.notMem (h : Unfinished pairs) : progressKey ∉ pairs.keys :=
  fun hk => absurd (h progressKey hk) (by decide)

theorem interest_of_entry {line : Bytes} {k v : Text} (h : entry line = some (k, v)) :
    k ∈ interest := by
  rw [entry] at h
  dsimp only at h
  split at h
  · cases h
  · split at h
    · cases h
    · rename_i hk
      cases h
      exact not_not.mp hk

theorem Unfinished.insert (h : Unfinished pairs) {k : Text} (v : Text) (hk : k ∈ interest)
    (hne : k ≠ progressKey) : Unfinished (pairs.insert k v) := by
  intro k' hk'
  rcases Dict.eq_or_mem_of_mem_keys_insert hk' with rfl | hold
  · exact (List.mem_erase_of_ne hne).mpr hk
  · exact h k' hold

/-- Eight keys at most: the cap on a frame is far away. -/
theorem Unfinished.length_insert_le (h : Unfinished pairs) (k v : Text) :
    (pairs.insert k v).keys.length ≤ 8 := by
  have hsub : (pairs.insert k v).keys ⊆ k :: interest.erase progressKey := by
    intro k' hk'
    rcases Dict.eq_or_mem_of_mem_keys_insert hk' with rfl | hold
    · exact List.mem_cons_self
    · exact List.mem_cons_of_mem k (h k' hold)
  exact ((pairs.insert k v).nodup.subperm hsub).length_le

/-- **The cap on a frame is never reached.** -/
theorem takeLine_eq (h : Unfinished pairs) (line : Bytes) :
    takeLine float pairs line = .ok (store float pairs line) := by
  rw [takeLine, store]
  split
  · rfl
  · rename_i k v hentry
    have hle := h.length_insert_le k v
    rw [if_neg (by rw [frameMaxLines]; omega)]
    split <;> rfl

theorem Unfinished.store (h : Unfinished pairs) (line : Bytes) :
    Unfinished (store float pairs line).1 := by
  rw [ProgressParser.store]
  split
  · exact h
  · rename_i k v hentry
    split
    · exact unfinished_empty
    · rename_i hne
      exact h.insert v (interest_of_entry hentry) hne

theorem Unfinished.parse (h : Unfinished pairs) (lines : List Bytes) :
    Unfinished (parse float pairs lines).2 := by
  induction lines generalizing pairs with
  | nil => exact h
  | cons line lines ih => exact ih (h.store line)

/-- Only the cap on a line is left. -/
theorem drainFrames_eq (h : Unfinished pairs) (lines : List Bytes) (rest : Bytes) :
    drainFrames float pairs lines rest = ((parse float pairs lines).1,
      if lineMaxLen < rest.length then .error (.line rest.length)
      else .ok ⟨rest, (parse float pairs lines).2⟩) := by
  induction lines generalizing pairs with
  | nil => rfl
  | cons line lines ih =>
    rw [drainFrames, takeLine_eq h]
    dsimp only
    rw [ih (h.store line)]
    rfl

theorem parse_append (lines lines' : List Bytes) : parse float pairs (lines ++ lines') =
    ((parse float pairs lines).1 ++ (parse float (parse float pairs lines).2 lines').1,
      (parse float (parse float pairs lines).2 lines').2) := by
  induction lines generalizing pairs with
  | nil => rfl
  | cons line lines ih =>
    rw [List.cons_append, parse, ih, parse, List.append_assoc]

theorem unfinished_after (text : Bytes) : Unfinished (after float text).pairs :=
  unfinished_empty.parse _

variable (float) in
/-- What was read, and what is read next, as one text. -/
theorem parse_splitLines_append (text chunk : Bytes) :
    parse float ∅ (splitLines (text ++ chunk)).1 =
      ((spelled float text) ++ (parse float (after float text).pairs
          (splitLines ((after float text).buf ++ chunk)).1).1,
        (parse float (after float text).pairs
          (splitLines ((after float text).buf ++ chunk)).1).2) ∧
      (splitLines (text ++ chunk)).2 = (splitLines ((after float text).buf ++ chunk)).2 := by
  have hbuf : newline ∉ (after float text).buf := (notMem_splitLines text).2
  rw [splitLines_append text chunk, splitLines_append (after float text).buf chunk,
    splitLines_of_notMem hbuf]
  rcases splitLines chunk with ⟨_ | ⟨line, lines⟩, last⟩
  · refine ⟨?_, rfl⟩
    change parse float ∅ (splitLines text).1 = (spelled float text ++ [], _)
    rw [List.append_nil]
    rfl
  · exact ⟨parse_append _ _, rfl⟩

variable (float) in
/-- **One chunk** gives the frames that are new, and raises on an unfinished line
that is too long. -/
theorem feed_after (text chunk : Bytes) :
    ∃ new, spelled float (text ++ chunk) = spelled float text ++ new ∧
      feed float (after float text) chunk = (new,
        if lineMaxLen < (splitLines (text ++ chunk)).2.length then
          .error (.line (splitLines (text ++ chunk)).2.length)
        else .ok (after float (text ++ chunk))) := by
  obtain ⟨hparse, hrest⟩ := parse_splitLines_append float text chunk
  have hafter : after float (text ++ chunk) =
      ⟨(splitLines (text ++ chunk)).2, (parse float (after float text).pairs
        (splitLines ((after float text).buf ++ chunk)).1).2⟩ := by
    rw [after, hparse]
  refine ⟨_, congrArg Prod.fst hparse, ?_⟩
  rw [feed, drainFrames_eq (unfinished_after text), hafter, hrest]

end Lemmas

/-! ## What the pump keeps -/

/-- What is kept of a stream: less than a line, and less than a frame. -/
structure Bounded (p : ProgressParser) : Prop where
  newline : newline ∉ p.buf
  buf : p.buf.length ≤ lineMaxLen
  pairs : p.pairs.keys.length ≤ 7
  progress : progressKey ∉ p.pairs.keys

section Memory

variable {F : Type} [Zero F] (float : Text → Option F)

/-- The parser the pump has after a read: a new one if this one raised. -/
def next (p : ProgressParser) (chunk : Bytes) : ProgressParser :=
  match (feed float p chunk).2 with
  | .ok p' => p'
  | .error _ => init

/-- The parser of the pump, one step a read. -/
def pumped : Machine ProgressParser Bytes where
  step p chunk := some (next float p chunk)

variable {float} {p p' : ProgressParser} {chunk : Bytes}

theorem bounded_init : Bounded init where
  newline := List.not_mem_nil
  buf := Nat.zero_le _
  pairs := Nat.zero_le _
  progress := List.not_mem_nil

/-- **A feed that does not raise**: the cap is tested on what is kept, and a frame
that has ended is not kept. -/
theorem Unfinished.feed (h : Unfinished p.pairs) (hok : (feed float p chunk).2 = .ok p') :
    Unfinished p'.pairs ∧ Bounded p' := by
  rw [ProgressParser.feed, drainFrames_eq h] at hok
  dsimp only at hok
  split at hok
  · cases hok
  · rename_i hlen
    obtain rfl := Except.ok.inj hok
    have hpairs : Unfinished (ProgressParser.parse float p.pairs
        (splitLines (p.buf ++ chunk)).1).2 :=
      h.parse (splitLines (p.buf ++ chunk)).1
    exact ⟨hpairs, (notMem_splitLines (p.buf ++ chunk)).2, not_lt.mp hlen, hpairs.length_le,
      hpairs.notMem⟩

/-- A read, whether it raises or not. -/
theorem Unfinished.next (h : Unfinished p.pairs) (chunk : Bytes) :
    Unfinished (next float p chunk).pairs ∧ Bounded (next float p chunk) := by
  rw [ProgressParser.next]
  split
  · rename_i p' hok
    exact h.feed hok
  · exact ⟨unfinished_empty, bounded_init⟩

variable (float) in
/-- **The memory of the parser is bounded**: after every read, whatever the bytes are
and however often it was replaced before. -/
theorem pump_memory (chunks : List Bytes) : (pumped float).Always Bounded init chunks := by
  have hstep : ∀ p chunk p', Unfinished p.pairs ∧ Bounded p → True →
      (pumped float).step p chunk = some p' → Unfinished p'.pairs ∧ Bounded p' := by
    rintro p chunk p' ⟨h, -⟩ - hs
    obtain rfl := Option.some.inj hs
    exact h.next chunk
  exact Machine.always_of_inv hstep (fun _ h => h.2) ⟨unfinished_empty, bounded_init⟩
    (Machine.meets_of_forall (fun _ _ => trivial) _ _)

end Memory

end ProgressParser

end RestreamPlus
