import Mathlib.Data.Bool.AllAny
import RestreamPlus.Fanout.ProgressFraming

/-!
# Progress output and the frames it stands for

A frame is written as lines: for every field that is given, the last line with its
key has its value, and the `progress` line comes last. Before it there may be
earlier values of the same key, and lines without `=` or with a key of no interest,
in any order.

`parsing_undoes_rendering`: the parser gives these frames back, and is as new.
-/

namespace RestreamPlus

namespace ProgressParser

open Replace Redaction

/-! ## Rendering -/

/-- What a decimal number is written with. -/
def decimalChars : Text := "0123456789+-.eE".toList

/-- A decimal number as text; what it denotes is not said. -/
structure DecimalText : Type where
  text : Text
  decimal : ∀ c ∈ text, c ∈ decimalChars

/-- A frame to be written: a field that is not given has no line. -/
structure FrameText : Type where
  frame : Option ℤ
  fps : Option DecimalText
  bitrate : Option DecimalText
  outTimeUs : Option ℤ
  dupFrames : Option ℤ
  dropFrames : Option ℤ
  speed : Option DecimalText
  progress : Progress

/-- The framing value as text. -/
def progressText : Progress → Text
  | .continue => "continue".toList
  | .end => "end".toList

/-- What a line says. -/
inductive Content : Type where
  | pair (key value : Text) : Content
  /-- any bytes -/
  | noise (bytes : Bytes) : Content

namespace Content

def bytes : Content → Bytes
  | .pair key value => Utf8.encode (key ++ '=' :: value)
  | .noise bytes => bytes

/-- The line says something only about a field of a frame; noise has no `=`, or a key of
no interest in front of the first. -/
def Valid : Content → Prop
  | .pair key value => key ∈ interest.erase progressKey ∧ '\n' ∉ value
  | .noise bytes =>
    newline ∉ bytes ∧
      ('=' ∉ Utf8.decodeReplace bytes ∨ (Utf8.decodeReplace bytes).takeWhile (· ≠ '=') ∉ interest)

end Content

/-- A line, which ends with CRLF or with LF alone. -/
structure Line : Type where
  content : Content
  crlf : Bool

namespace Line

/-- The carriage return is part of the line as the parser sees it. -/
def bytes (line : Line) : Bytes := line.content.bytes ++ if line.crlf then [13] else []

/-- The value of a key, if that is what the line says. -/
def value? (key : Text) (line : Line) : Option Text :=
  match line.content with
  | .pair key' value => if key = key' then some value else none
  | .noise _ => none

/-- A line of a frame in front of its `progress` line, of at most 256 bytes. -/
structure Valid (line : Line) : Prop where
  content : line.content.Valid
  short : line.bytes.length ≤ lineMaxLen

end Line

/-- The last value of a key. -/
def lastValue (key : Text) : List Line → Option Text
  | [] => none
  | line :: lines => (lastValue key lines).or (line.value? key)

/-- **The lines write the frame.** -/
structure Writes (lines : List Line) (f : FrameText) : Prop where
  frame : lastValue "frame".toList lines = f.frame.map IntText.render
  fps : lastValue "fps".toList lines = f.fps.map DecimalText.text
  bitrate : lastValue "bitrate".toList lines = f.bitrate.map fun t => t.text ++ bitrateSuffix
  outTimeUs : lastValue "out_time_us".toList lines = f.outTimeUs.map IntText.render
  dupFrames : lastValue "dup_frames".toList lines = f.dupFrames.map IntText.render
  dropFrames : lastValue "drop_frames".toList lines = f.dropFrames.map IntText.render
  speed : lastValue "speed".toList lines = f.speed.map fun t => t.text ++ ['x']

/-- A frame as it is written. -/
structure Rendered : Type where
  frame : FrameText
  /-- the lines in front of the `progress` line -/
  body : List Line
  /-- how the `progress` line ends -/
  crlf : Bool
  valid : ∀ line ∈ body, line.Valid
  writes : Writes body frame

namespace Rendered

/-- All lines of a frame. -/
def lines (r : Rendered) : List Line :=
  r.body ++ [⟨.pair progressKey (progressText r.frame.progress), r.crlf⟩]

/-- The frames one after the other. -/
def output (frames : List Rendered) : Bytes :=
  (frames.flatMap lines).flatMap fun line => line.bytes ++ [newline]

end Rendered

section Value

variable {F : Type} [Zero F] (float : Text → Option F)

/-- The value of a decimal number, if it was written. -/
def DecimalText.valueOf (t : Option DecimalText) : F := (t.bind fun t => float t.text).getD 0

/-- The frame that is meant. -/
def FrameText.meant (f : FrameText) : ProgressFrame F where
  frame := f.frame.getD 0
  fps := DecimalText.valueOf float f.fps
  bitrateKbps := DecimalText.valueOf float f.bitrate
  outTimeUs := f.outTimeUs.getD 0
  dupFrames := f.dupFrames.getD 0
  dropFrames := f.dropFrames.getD 0
  speed := DecimalText.valueOf float f.speed
  progress := f.progress

end Value

/-! ## One line -/

theorem takeWhile_key {key : Text} (h : '=' ∉ key) (value : Text) :
    (key ++ '=' :: value).takeWhile (· ≠ '=') = key := by
  rw [List.takeWhile_append_of_pos fun c hc => decide_eq_true (ne_of_mem_of_not_mem hc h)]
  simp

theorem dropWhile_key {key : Text} (h : '=' ∉ key) (value : Text) :
    (key ++ '=' :: value).dropWhile (· ≠ '=') = '=' :: value := by
  rw [List.dropWhile_append_of_pos fun c hc => decide_eq_true (ne_of_mem_of_not_mem hc h)]
  simp

/-- The text of a line, whatever its end. -/
theorem decodeReplace_bytes (line : Line) :
    stripEnd '\r' (Utf8.decodeReplace line.bytes) =
      stripEnd '\r' (Utf8.decodeReplace line.content.bytes) := by
  rw [Line.bytes]
  split
  · rw [Utf8.decodeReplace_append_ascii _ (b := 13) (by decide)]
    exact stripEnd_append_self '\r' _
  · rw [List.append_nil]

/-- **A line with a value.** -/
theorem entry_pair {key : Text} (hkey : key ∈ interest) (value : Text) (crlf : Bool) :
    entry (Line.bytes ⟨.pair key value, crlf⟩) = some (key, stripEnd '\r' value) := by
  have hno : '=' ∉ key := (show ∀ k ∈ interest, '=' ∉ k by decide) key hkey
  have htext : stripEnd '\r' (Utf8.decodeReplace (Line.bytes ⟨.pair key value, crlf⟩)) =
      key ++ '=' :: stripEnd '\r' value := by
    rw [decodeReplace_bytes, Content.bytes, Utf8.decodeReplace_encode]
    exact stripEnd_append_cons (by decide) key value
  have hmem : '=' ∈ key ++ '=' :: stripEnd '\r' value :=
    List.mem_append_right key List.mem_cons_self
  rw [entry, htext, if_neg (not_not_intro hmem)]
  dsimp only
  rw [takeWhile_key hno, dropWhile_key hno, if_neg (not_not_intro hkey), List.tail_cons]

/-- **Noise.** -/
theorem entry_noise {bytes : Bytes} (h : (Content.noise bytes).Valid) (crlf : Bool) :
    entry (Line.bytes ⟨.noise bytes, crlf⟩) = none := by
  obtain ⟨n, hn⟩ := stripEnd_append_replicate '\r' (Utf8.decodeReplace bytes)
  rw [entry, decodeReplace_bytes, Content.bytes]
  generalize stripEnd '\r' (Utf8.decodeReplace bytes) = line at hn ⊢
  by_cases hmem : '=' ∈ line
  · -- what was stripped stands behind the key
    obtain ⟨key, value, rfl, hkey⟩ := List.eq_append_cons_of_mem hmem
    rw [List.append_assoc, List.cons_append] at hn
    have hinterest : key ∉ interest := by
      rcases h.2 with hno | hno
      · rw [hn] at hno
        exact absurd (List.mem_append_right key List.mem_cons_self) hno
      · rw [hn, takeWhile_key hkey] at hno
        exact hno
    rw [if_neg (not_not_intro hmem)]
    dsimp only
    rw [takeWhile_key hkey, if_pos hinterest]
  · exact if_pos hmem

theorem newline_notMem_encode {t : Text} (h : '\n' ∉ t) : newline ∉ Utf8.encode t :=
  fun hmem => h (Utf8.mem_of_mem_encode hmem (by decide))

theorem newline_notMem_pair {key value : Text} (hkey : key ∈ interest) (h : '\n' ∉ value) :
    newline ∉ Utf8.encode (key ++ '=' :: value) := by
  have hno : '\n' ∉ key := (show ∀ k ∈ interest, '\n' ∉ k by decide) key hkey
  refine newline_notMem_encode ?_
  rw [List.mem_append, List.mem_cons, not_or, not_or]
  exact ⟨hno, by decide, h⟩

theorem newline_notMem_bytes {line : Line} (h : newline ∉ line.content.bytes) :
    newline ∉ line.bytes := by
  rw [Line.bytes, List.mem_append, not_or]
  refine ⟨h, ?_⟩
  split <;> decide

theorem Content.Valid.newline_notMem {content : Content} (h : content.Valid) :
    newline ∉ content.bytes := by
  cases content with
  | pair key value => exact newline_notMem_pair (List.mem_of_mem_erase h.1) h.2
  | noise bytes => exact h.1

theorem Line.value?_pair (key key' value : Text) (crlf : Bool) :
    Line.value? key ⟨.pair key' value, crlf⟩ = if key = key' then some value else none := rfl

/-! ## The lines of a frame -/

section Frame

variable {F : Type} [Zero F] {float : Text → Option F} {pairs : Dict Text Text}

variable (float pairs) in
/-- **One line** in front of the `progress` line stores its value, if it has one. -/
theorem store_line {line : Line} (h : line.Valid) :
    (store float pairs line.bytes).2 = none ∧ ∀ key,
      (store float pairs line.bytes).1.get? key =
        ((line.value? key).map (stripEnd '\r')).or (pairs.get? key) := by
  obtain ⟨content, crlf⟩ := line
  have hvalid := h.content
  cases content with
  | pair key value =>
    have hkey : key ≠ progressKey := by
      rintro rfl
      exact absurd hvalid.1 (by decide)
    rw [store, entry_pair (List.mem_of_mem_erase hvalid.1)]
    dsimp only
    rw [if_neg hkey]
    refine ⟨rfl, fun key' => ?_⟩
    by_cases heq : key' = key
    · rw [heq, Dict.get?_insert_self, Line.value?_pair, if_pos rfl]
      rfl
    · rw [Dict.get?_insert_ne _ _ heq, Line.value?_pair, if_neg heq]
      rfl
  | noise bytes =>
    rw [store, entry_noise hvalid]
    exact ⟨rfl, fun key => rfl⟩

variable (float pairs) in
/-- **The pairs behind some lines** are the last values, and no frame was ended. -/
theorem parse_body {lines : List Line} (h : ∀ line ∈ lines, line.Valid) :
    (parse float pairs (lines.map Line.bytes)).1 = [] ∧ ∀ key,
      (parse float pairs (lines.map Line.bytes)).2.get? key =
        ((lastValue key lines).map (stripEnd '\r')).or (pairs.get? key) := by
  induction lines generalizing pairs with
  | nil => exact ⟨rfl, fun key => rfl⟩
  | cons line lines ih =>
    obtain ⟨hframes, hpairs⟩ := ih (store float pairs line.bytes).1
      fun line hline => h line (List.mem_cons_of_mem _ hline)
    obtain ⟨hnone, hstore⟩ := store_line float pairs (h line List.mem_cons_self)
    rw [List.map_cons, parse, hnone, hframes]
    refine ⟨rfl, fun key => ?_⟩
    rw [hpairs, hstore, lastValue]
    cases lastValue key lines <;> rfl

/-- The value of a last line stands in that line. -/
theorem length_of_lastValue {lines : List Line} (h : ∀ line ∈ lines, line.Valid)
    {key value : Text} (hlast : lastValue key lines = some value) : value.length ≤ lineMaxLen := by
  induction lines with
  | nil => cases hlast
  | cons line lines ih =>
    rw [lastValue] at hlast
    rcases hv : lastValue key lines with _ | value'
    · rw [hv, Option.none_or, Line.value?] at hlast
      split at hlast
      · rename_i key' value' hcontent
        split at hlast
        · obtain rfl := Option.some.inj hlast
          refine le_trans ?_ (h line List.mem_cons_self).short
          rw [Line.bytes, hcontent, Content.bytes, List.length_append]
          refine le_trans (le_trans ?_ (Utf8.length_le_encode (key' ++ '=' :: value')))
            (Nat.le_add_right _ _)
          rw [List.length_append, List.length_cons]
          omega
        · cases hlast
      · cases hlast
    · rw [hv, Option.some_or] at hlast
      exact ih (fun line hline => h line (List.mem_cons_of_mem _ hline)) (hv.trans hlast)

end Frame

/-! ## Values -/

theorem mem_render {n : ℤ} {c : Char} (h : c ∈ IntText.render n) : c.isDigit ∨ c = '-' := by
  rw [IntText.render_eq] at h
  split at h
  · exact .inl (IntText.isDigit_of_mem h)
  · exact (List.mem_cons.mp h).symm.imp IntText.isDigit_of_mem id

theorem cr_notMem_render (n : ℤ) : '\r' ∉ IntText.render n := by
  intro h
  rcases mem_render h with h | h
  · exact absurd h (by decide)
  · exact absurd h (by decide)

/-- An integer is read back. -/
theorem parseInt_render {n : Option ℤ}
    (h : ∀ m ∈ n, (IntText.render m).length ≤ IntText.maxDigits) :
    parseInt ((n.map IntText.render).map (stripEnd '\r')) = n.getD 0 := by
  rcases n with _ | n
  · rfl
  · have hparse := IntText.parse_render (h n rfl)
    have hne : IntText.render n ≠ notAvailable := by
      intro heq
      rw [heq] at hparse
      exact absurd hparse (by rw [show IntText.parse notAvailable = none by decide]; nofun)
    rw [Option.map_some, Option.map_some, stripEnd_of_notMem (cr_notMem_render n), parseInt,
      if_neg hne, hparse, Option.getD_some]

section Floats

variable {F : Type} [Zero F] {float : Text → Option F}

theorem DecimalText.notMem (t : DecimalText) {c : Char} (hc : c ∉ decimalChars) : c ∉ t.text :=
  fun h => hc (t.decimal c h)

/-- A text with a letter in it that a decimal number has not. -/
theorem ne_notAvailable {t : Text} (h : 'N' ∉ t) : t ≠ notAvailable := by
  rintro rfl
  exact h (by decide)

theorem parseFloat_text (t : Option DecimalText) :
    parseFloat float ((t.map DecimalText.text).map (stripEnd '\r')) =
      DecimalText.valueOf float t := by
  rcases t with _ | t
  · rfl
  · have hcr : '\r' ∉ t.text := t.notMem (by decide)
    rw [Option.map_some, Option.map_some, stripEnd_of_notMem hcr, parseFloat,
      if_neg (ne_notAvailable (t.notMem (by decide)))]
    rfl

theorem notMem_append {t suffix : Text} {c : Char} (h : c ∉ t) (h' : c ∉ suffix) :
    c ∉ t ++ suffix := by
  rw [List.mem_append, not_or]
  exact ⟨h, h'⟩

theorem parseBitrate_text (t : Option DecimalText) :
    parseBitrate float ((t.map fun t => t.text ++ bitrateSuffix).map (stripEnd '\r')) =
      DecimalText.valueOf float t := by
  rcases t with _ | t
  · rfl
  · have hcr : '\r' ∉ t.text ++ bitrateSuffix :=
      notMem_append (t.notMem (by decide)) (by decide)
    have hne : t.text ++ bitrateSuffix ≠ notAvailable :=
      ne_notAvailable (notMem_append (t.notMem (by decide)) (by decide))
    have htake : (t.text ++ bitrateSuffix).take
        ((t.text ++ bitrateSuffix).length - bitrateSuffix.length) = t.text := by
      rw [List.length_append, Nat.add_sub_cancel, List.take_left]
    rw [Option.map_some, Option.map_some, stripEnd_of_notMem hcr, parseBitrate, if_neg hne]
    dsimp only
    rw [if_pos (List.suffix_append t.text bitrateSuffix), htake]
    rfl

theorem parseSpeed_text (t : Option DecimalText) :
    parseSpeed float ((t.map fun t => t.text ++ ['x']).map (stripEnd '\r')) =
      DecimalText.valueOf float t := by
  rcases t with _ | t
  · rfl
  · have hcr : '\r' ∉ t.text ++ ['x'] := notMem_append (t.notMem (by decide)) (by decide)
    have hne : t.text ++ ['x'] ≠ notAvailable :=
      ne_notAvailable (notMem_append (t.notMem (by decide)) (by decide))
    rw [Option.map_some, Option.map_some, stripEnd_of_notMem hcr, parseSpeed, if_neg hne]
    dsimp only
    rw [if_pos (List.suffix_append t.text ['x']), List.dropLast_concat]
    rfl

end Floats

/-! ## Whole frames -/

section Whole

variable {F : Type} [Zero F] {float : Text → Option F}

/-- **The frame** that is built from the last values. -/
theorem buildFrame_meant {r : Rendered} {pairs : Dict Text Text}
    (hprogress : pairs.get? progressKey = some (progressText r.frame.progress))
    (h : ∀ key, key ≠ progressKey →
      pairs.get? key = (lastValue key r.body).map (stripEnd '\r')) :
    buildFrame float pairs = some (r.frame.meant float) := by
  have hint {n : Option ℤ} {key : Text} (hkey : key ≠ progressKey)
      (hn : lastValue key r.body = n.map IntText.render) :
      parseInt (pairs.get? key) = n.getD 0 := by
    rw [h key hkey, hn]
    refine parseInt_render fun m hm => ?_
    rw [hm] at hn
    exact (length_of_lastValue r.valid hn).trans (by decide)
  have hread : readProgress (progressText r.frame.progress) = some r.frame.progress := by
    cases r.frame.progress <;> rfl
  rw [buildFrame, hprogress, Option.getD_some, hread, Option.map_some,
    hint (by decide) r.writes.frame, hint (by decide) r.writes.outTimeUs,
    hint (by decide) r.writes.dupFrames, hint (by decide) r.writes.dropFrames,
    h "fps".toList (by decide), r.writes.fps, parseFloat_text,
    h "bitrate".toList (by decide), r.writes.bitrate, parseBitrate_text,
    h "speed".toList (by decide), r.writes.speed, parseSpeed_text]
  rfl

/-- **The lines of one frame** give it, and nothing is left over. -/
theorem parse_lines (r : Rendered) :
    parse float ∅ (r.lines.map Line.bytes) = ([r.frame.meant float], ∅) := by
  obtain ⟨hframes, hpairs⟩ := parse_body float ∅ r.valid
  have hcr : stripEnd '\r' (progressText r.frame.progress) = progressText r.frame.progress := by
    cases r.frame.progress <;> decide
  have hstore : store float (parse float ∅ (r.body.map Line.bytes)).2
      (Line.bytes ⟨.pair progressKey (progressText r.frame.progress), r.crlf⟩) =
        (∅, some (r.frame.meant float)) := by
    rw [store, entry_pair (by decide), hcr]
    dsimp only
    rw [if_pos rfl, buildFrame_meant (r := r) (Dict.get?_insert_self _ _ _) fun key hkey => ?_]
    rw [Dict.get?_insert_ne _ _ hkey, hpairs, Dict.get?_empty, Option.or_none]
  rw [Rendered.lines, List.map_append, parse_append, List.map_singleton, parse, hframes, hstore]
  rfl

theorem parse_output (frames : List Rendered) :
    parse float ∅ ((frames.flatMap Rendered.lines).map Line.bytes) =
      (frames.map fun r => r.frame.meant float, ∅) := by
  induction frames with
  | nil => rfl
  | cons r frames ih =>
    rw [List.flatMap_cons, List.map_append, parse_append, parse_lines, ih]
    rfl

end Whole

/-! ## The stream -/

/-- Complete lines are found again. -/
theorem splitLines_lines {lines : List Line} (h : ∀ line ∈ lines, newline ∉ line.content.bytes) :
    splitLines (lines.flatMap fun line => line.bytes ++ [newline]) =
      (lines.map Line.bytes, []) := by
  induction lines with
  | nil => rfl
  | cons line lines ih =>
    rw [List.flatMap_cons, List.append_assoc, List.singleton_append,
      splitLines_line (newline_notMem_bytes (h line List.mem_cons_self)),
      ih fun line hline => h line (List.mem_cons_of_mem _ hline), List.map_cons]

/-- Every line of a frame is short and one line, the `progress` line too. -/
theorem mem_lines {r : Rendered} {line : Line} (h : line ∈ r.lines) :
    newline ∉ line.content.bytes ∧ line.bytes.length ≤ lineMaxLen := by
  rcases List.mem_append.mp h with h | h
  · exact ⟨(r.valid line h).content.newline_notMem, (r.valid line h).short⟩
  · rw [List.mem_singleton.mp h]
    cases r.frame.progress <;> cases r.crlf <;> decide +kernel

section Stream

variable {F : Type} [Zero F] {float : Text → Option F}

variable (float) in
/-- **Chunk after chunk**, a stream of short lines is read to its end. -/
theorem feedAll_after {text : Bytes} {chunks : List Bytes}
    (h : ShortLines (text ++ chunks.flatten)) :
    spelled float text ++ (feedAll float (after float text) chunks).1 =
        spelled float (text ++ chunks.flatten) ∧
      (feedAll float (after float text) chunks).2 = .ok (after float (text ++ chunks.flatten)) := by
  induction chunks generalizing text with
  | nil =>
    rw [List.flatten_nil, List.append_nil]
    exact ⟨List.append_nil _, rfl⟩
  | cons chunk chunks ih =>
    rw [List.flatten_cons, ← List.append_assoc] at h ⊢
    obtain ⟨new, hnew, hfeed⟩ := feed_after float text chunk
    rw [if_neg (not_lt_of_ge h.unfinished)] at hfeed
    obtain ⟨hframes, hparser⟩ := ih h
    rw [feedAll, hfeed]
    dsimp only
    rw [← List.append_assoc, ← hnew]
    exact ⟨hframes, hparser⟩

/-- **Parsing undoes rendering**, for every way of cutting the output into chunks. -/
theorem parsing_undoes_rendering (float : Text → Option F) (frames : List Rendered)
    (chunks : List Bytes) (h : chunks.flatten = Rendered.output frames) :
    feedAll float init chunks = (frames.map fun r => r.frame.meant float, .ok init) := by
  have hlines : ∀ line ∈ frames.flatMap Rendered.lines,
      newline ∉ line.content.bytes ∧ line.bytes.length ≤ lineMaxLen := by
    intro line hline
    obtain ⟨r, -, hr⟩ := List.mem_flatMap.mp hline
    exact mem_lines hr
  have hsplit : splitLines (Rendered.output frames) =
      ((frames.flatMap Rendered.lines).map Line.bytes, []) :=
    splitLines_lines fun line hline => (hlines line hline).1
  have hshort : ShortLines ([] ++ chunks.flatten) := by
    rw [List.nil_append, h, ShortLines, hsplit]
    refine ⟨fun bytes hbytes => ?_, Nat.zero_le _⟩
    obtain ⟨line, hline, rfl⟩ := List.mem_map.mp hbytes
    exact (hlines line hline).2
  have hspelled : spelled float (Rendered.output frames) =
      frames.map fun r => r.frame.meant float := by
    rw [spelled, hsplit, parse_output]
  have hafter : after float (Rendered.output frames) = init := by
    rw [after, hsplit, parse_output]
    rfl
  obtain ⟨hframes, hparser⟩ := feedAll_after float hshort
  rw [List.nil_append, h, hspelled] at hframes
  rw [List.nil_append, h, hafter] at hparser
  exact Prod.ext hframes hparser

/-- A repeated key, a line of no interest and both kinds of line end. -/
def sample : Rendered where
  frame := ⟨some 2, none, none, none, none, none,
    some ⟨"1.5".toList, List.all_iff_forall_prop.mp (by decide)⟩, .end⟩
  body := [⟨.pair "frame".toList "1".toList, true⟩, ⟨.noise (ascii "total_size=9"), false⟩,
    ⟨.pair "speed".toList "1.5x".toList, true⟩, ⟨.pair "frame".toList "2".toList, false⟩]
  crlf := true
  valid := by
    intro line hline
    simp only [List.mem_cons, List.not_mem_nil, or_false] at hline
    rcases hline with rfl | rfl | rfl | rfl
    · exact ⟨⟨by decide, by decide⟩, by decide⟩
    · exact ⟨⟨by decide, .inr (by decide)⟩, by decide⟩
    · exact ⟨⟨by decide, by decide⟩, by decide⟩
    · exact ⟨⟨by decide, by decide⟩, by decide⟩
  writes := ⟨by decide, by decide, by decide, by decide, by decide, by decide, by decide⟩

theorem parsing_undoes_rendering_sample :
    feedAll (F := ℚ) (fun t => if t = "1.5".toList then some (3 / 2) else none) init
      [(Rendered.output [sample, sample]).take 8, (Rendered.output [sample, sample]).drop 8] =
      ([⟨2, 0, 0, 0, 0, 0, 3 / 2, .end⟩, ⟨2, 0, 0, 0, 0, 0, 3 / 2, .end⟩], .ok init) := by
  refine (parsing_undoes_rendering _ [sample, sample] _ ?_).trans ?_
  · rw [List.flatten_cons, List.flatten_singleton, List.take_append_drop]
  · rfl

end Stream

end ProgressParser

end RestreamPlus
