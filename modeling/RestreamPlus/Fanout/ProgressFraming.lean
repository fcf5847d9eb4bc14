import RestreamPlus.Fanout.ProgressParser

/-!
# Progress frames and the boundaries of reads

The cap on a line is tested on what is unfinished when a read ends. So the same
over-long line is refused or passed over, as the reads fall; and when it is refused,
the good frames of that read are lost with it, and so are the pairs in front of it.

`pump_frames_iff` says when that makes no difference.
-/

namespace RestreamPlus

namespace ProgressParser

open Redaction

section Framing

variable {F : Type} [Zero F] (float : Text → Option F)

/-- However the stream is cut into reads that are not empty, the same frames are
emitted. -/
def ReadIndependent (stream : Bytes) : Prop :=
  ∀ chunks chunks' : List Bytes, [] ∉ chunks → [] ∉ chunks' → chunks.flatten = stream →
    chunks'.flatten = stream → pumpFrames float chunks = pumpFrames float chunks'

/-- **Nothing is lost at an over-long line**: where the stream breaks off behind more
of a line than the cap allows, what follows spells the frames of the whole. -/
def Harmless (stream : Bytes) : Prop :=
  ∀ p q, stream = p ++ q → lineMaxLen < (splitLines p).2.length →
    spelled float q = spelled float stream

/-- What a parser that has read a text emits. -/
def emitted (text : Bytes) (chunks : List Bytes) : List (ProgressFrame F) :=
  (pumpReads float (after float text) chunks).flatMap framesOf

end Framing

section Pump

variable {F : Type} [Zero F] {float : Text → Option F} {text chunk : Bytes} {chunks : List Bytes}

theorem pumpFrames_eq (chunks : List Bytes) : pumpFrames float chunks = emitted float [] chunks :=
  rfl

theorem emitted_nil : emitted float text [] = [] := rfl

/-- A read that does not end in an over-long line. -/
theorem emitted_pass (h : (splitLines (text ++ chunk)).2.length ≤ lineMaxLen) :
    spelled float text ++ emitted float text (chunk :: chunks) =
      spelled float (text ++ chunk) ++ emitted float (text ++ chunk) chunks := by
  obtain ⟨new, hnew, hfeed⟩ := feed_after float text chunk
  rw [if_neg (not_lt_of_ge h)] at hfeed
  rw [emitted, pumpReads, hfeed, List.flatMap_cons, ← List.append_assoc, hnew]
  rfl

/-- A read that does: its frames are lost. -/
theorem emitted_raise (h : lineMaxLen < (splitLines (text ++ chunk)).2.length) :
    emitted float text (chunk :: chunks) = emitted float [] chunks := by
  obtain ⟨new, -, hfeed⟩ := feed_after float text chunk
  rw [if_pos h] at hfeed
  rw [emitted, pumpReads, hfeed, List.flatMap_cons]
  rfl

/-- The first read. -/
theorem emitted_first_raise (h : lineMaxLen < (splitLines chunk).2.length) :
    emitted float [] (chunk :: chunks) = emitted float [] chunks := by
  rw [← List.nil_append chunk] at h
  exact emitted_raise h

theorem emitted_first (h : (splitLines chunk).2.length ≤ lineMaxLen) :
    emitted float [] (chunk :: chunks) = spelled float chunk ++ emitted float chunk chunks := by
  rw [← List.nil_append chunk] at h
  exact emitted_pass h

end Pump

/-! ## Lines in front of a text -/

/-- The complete lines as a text. -/
theorem exists_complete (text : Bytes) : ∃ complete,
    text = complete ++ (splitLines text).2 ∧ splitLines complete = ((splitLines text).1, []) := by
  induction text using stream_induction with
  | hlast x hx =>
    rw [splitLines_of_notMem hx]
    exact ⟨[], rfl, rfl⟩
  | hline x rest hx ih =>
    obtain ⟨complete, heq, hsplit⟩ := ih
    refine ⟨x ++ newline :: complete, ?_, ?_⟩
    · rw [splitLines_line hx, List.append_assoc, List.cons_append, ← heq]
    · rw [splitLines_line hx, splitLines_line hx, hsplit]

theorem length_unfinished_le (p q : Bytes) :
    (splitLines q).2.length ≤ (splitLines (p ++ q)).2.length := by
  rw [splitLines_append]
  rcases splitLines q with ⟨_ | ⟨line, lines⟩, last⟩
  · rw [List.length_append]
    exact Nat.le_add_left _ _
  · exact Nat.le_refl _

section Spelled

variable {F : Type} [Zero F] {float : Text → Option F}

theorem spelled_of_notMem {text : Bytes} (h : newline ∉ text) : spelled float text = [] := by
  rw [spelled, splitLines_of_notMem h]
  rfl

variable (float) in
/-- **The number of frames** does not depend on the pairs in front. -/
theorem length_parse (pairs pairs' : Dict Text Text) (lines : List Bytes) :
    (parse float pairs lines).1.length = (parse float pairs' lines).1.length := by
  induction lines generalizing pairs pairs' with
  | nil => rfl
  | cons line lines ih =>
    have hstore : (store float pairs line).2.toList.length =
        (store float pairs' line).2.toList.length := by
      rw [store, store]
      split
      · rfl
      · rename_i k v _
        split
        · rename_i hk
          rw [buildFrame, buildFrame, hk, Dict.get?_insert_self, Dict.get?_insert_self]
          cases readProgress ((some v).getD []) <;> rfl
        · rfl
    rw [parse, parse, List.length_append, List.length_append, hstore, ih]

/-- An empty line says nothing. -/
theorem spelled_newline (rest : Bytes) : spelled float (newline :: rest) = spelled float rest := by
  have hsplit := splitLines_line (x := []) List.not_mem_nil rest
  rw [List.nil_append] at hsplit
  rw [spelled, hsplit, parse]
  rfl

variable (float) in
/-- There are no fewer frames than before a line and after it. -/
theorem length_spelled_line (text : Bytes) {line : Bytes} (h : newline ∉ line) (rest : Bytes) :
    (spelled float text).length + (spelled float rest).length ≤
      (spelled float (text ++ (line ++ newline :: rest))).length := by
  rw [spelled, spelled, spelled, splitLines_append, splitLines_line h]
  dsimp only
  rw [parse_append, List.length_append, parse, List.length_append]
  have hrest := length_parse float ∅ (store float (parse float ∅ (splitLines text).1).2
    ((splitLines text).2 ++ line)).1 (splitLines rest).1
  omega

end Spelled

/-! ## When the reads do not matter -/

section Independence

variable {F : Type} [Zero F] {float : Text → Option F} {stream : Bytes}

/-- No frame ends before the break. -/
theorem Harmless.spelled_eq_nil (h : Harmless float stream) {front text q : Bytes}
    (heq : stream = front ++ text ++ q) (hwhole : spelled float (text ++ q) = spelled float stream)
    (hlong : lineMaxLen < (splitLines text).2.length) : spelled float text = [] := by
  rw [← List.length_eq_zero_iff]
  by_cases hq : newline ∈ q
  · obtain ⟨line, rest, rfl, hno⟩ := exists_line hq
    -- break off at the end of the line instead
    have hlong' : lineMaxLen < (splitLines (front ++ text ++ line)).2.length := by
      rw [List.append_assoc]
      refine lt_of_lt_of_le ?_ (length_unfinished_le front _)
      rw [splitLines_append, splitLines_of_notMem hno, List.length_append]
      exact Nat.lt_add_right _ hlong
    have hrest := h (front ++ text ++ line) (newline :: rest)
      (by rw [heq, List.append_assoc (front ++ text)]) hlong'
    rw [spelled_newline] at hrest
    have hle := length_spelled_line float text hno rest
    rw [hwhole, ← hrest] at hle
    omega
  · have hnil := h (front ++ text) q heq
      (lt_of_lt_of_le hlong (length_unfinished_le front text))
    rw [spelled_of_notMem hq, ← hwhole] at hnil
    obtain ⟨new, hnew, -⟩ := feed_after float text q
    rw [hnew] at hnil
    rw [(List.append_eq_nil_iff.mp hnil.symm).1, List.length_nil]

/-- **Every cutting** gives the frames of the whole: with what was read of it since
the parser was replaced. -/
theorem Harmless.emitted_eq (h : Harmless float stream) {front text : Bytes}
    {chunks : List Bytes} (heq : stream = front ++ text ++ chunks.flatten)
    (hwhole : spelled float (text ++ chunks.flatten) = spelled float stream) :
    spelled float text ++ emitted float text chunks = spelled float stream := by
  induction chunks generalizing front text with
  | nil =>
    rw [← hwhole, emitted_nil, List.append_nil, List.flatten_nil, List.append_nil]
  | cons chunk chunks ih =>
    rw [List.flatten_cons] at heq hwhole
    rw [← List.append_assoc] at hwhole
    have heq' : stream = front ++ (text ++ chunk) ++ chunks.flatten := by
      rw [heq]
      simp only [List.append_assoc]
    by_cases hlong : lineMaxLen < (splitLines (text ++ chunk)).2.length
    · have hnil := h.spelled_eq_nil heq' hwhole hlong
      obtain ⟨new, hnew, -⟩ := feed_after float text chunk
      rw [hnil] at hnew
      rw [(List.append_eq_nil_iff.mp hnew.symm).1, emitted_raise hlong]
      refine @ih (front ++ (text ++ chunk)) [] ?_ ?_
      · rw [List.append_nil]
        exact heq'
      · exact h _ _ heq' (lt_of_lt_of_le hlong (length_unfinished_le front _))
    · rw [emitted_pass (not_lt.mp hlong)]
      exact ih heq' hwhole

theorem Harmless.pumpFrames_eq (h : Harmless float stream) {chunks : List Bytes}
    (heq : chunks.flatten = stream) : pumpFrames float chunks = spelled float stream := by
  have hstart : stream = [] ++ [] ++ chunks.flatten := heq.symm
  exact h.emitted_eq hstart (congrArg (spelled float) heq)

/-- The complete lines are read, and then the over-long rest: the frames come through. -/
theorem emitted_complete {complete last : Bytes} (hsplit : (splitLines complete).2 = [])
    (hlast : newline ∉ last) (hlong : lineMaxLen < last.length) :
    emitted float [] [complete, last] = spelled float (complete ++ last) := by
  have happend : splitLines (complete ++ last) = ((splitLines complete).1, last) := by
    rw [splitLines_append, splitLines_of_notMem hlast, hsplit]
    rfl
  have hlong' : lineMaxLen < (splitLines (complete ++ last)).2.length := by
    rw [happend]
    exact hlong
  have hshort : (splitLines complete).2.length ≤ lineMaxLen := by
    rw [hsplit]
    exact Nat.zero_le _
  rw [emitted_first hshort, emitted_raise hlong', emitted_nil, List.append_nil, spelled, spelled,
    happend]

theorem notMem_pair {p q : Bytes} (hp : p ≠ []) (hq : q ≠ []) : [] ∉ [p, q] := by
  rw [List.mem_cons, List.mem_singleton, not_or]
  exact ⟨hp.symm, hq.symm⟩

theorem flatten_pair (p q : Bytes) : [p, q].flatten = p ++ q := by
  rw [List.flatten_cons, List.flatten_singleton]

theorem notMem_singleton {p : Bytes} (hp : p ≠ []) : [] ∉ [p] := by
  rw [List.mem_singleton]
  exact hp.symm

/-- A text with an over-long line is not empty. -/
theorem ne_nil_of_long {text : Bytes} (h : lineMaxLen < (splitLines text).2.length) :
    text ≠ [] := by
  rintro rfl
  exact absurd h (by decide)

/-- A stream that ends in an over-long line spells nothing: read at once, it gives
nothing. -/
theorem ReadIndependent.spelled_eq_nil (h : ReadIndependent float stream)
    (hlong : lineMaxLen < (splitLines stream).2.length) : spelled float stream = [] := by
  obtain ⟨complete, heq, hsplit⟩ := exists_complete stream
  have hlast : (splitLines stream).2 ≠ [] := List.ne_nil_of_length_pos (Nat.zero_lt_of_lt hlong)
  by_cases hcomplete : complete = []
  · refine spelled_of_notMem ?_
    rw [heq, hcomplete]
    exact (notMem_splitLines stream).2
  · have hparts := h _ _ (notMem_pair hcomplete hlast) (notMem_singleton (ne_nil_of_long hlong))
      ((flatten_pair _ _).trans heq.symm) List.flatten_singleton
    rw [pumpFrames_eq, pumpFrames_eq, emitted_complete (congrArg Prod.snd hsplit)
      (notMem_splitLines stream).2 hlong, ← heq, emitted_first_raise hlong, emitted_nil] at hparts
    exact hparts

theorem ne_nil_of_break {p q : Bytes} (heq : stream = p ++ q)
    (hp : lineMaxLen < (splitLines p).2.length) : stream ≠ [] := by
  rw [heq]
  exact List.append_ne_nil_of_left_ne_nil (ne_nil_of_long hp) q

/-- What follows the break, in a stream that ends in an over-long line: a read ends at
the break, and the complete lines behind it are read before the rest. -/
theorem ReadIndependent.spelled_break_long (h : ReadIndependent float stream) {p q : Bytes}
    (heq : stream = p ++ q) (hp : lineMaxLen < (splitLines p).2.length)
    (hlong : lineMaxLen < (splitLines stream).2.length) : spelled float q = [] := by
  by_cases hq : newline ∈ q
  · obtain ⟨complete, hq', hsplit⟩ := exists_complete q
    have hlast : (splitLines stream).2 = (splitLines q).2 := by
      obtain ⟨line, rest, rfl, hno⟩ := exists_line hq
      rw [heq, splitLines_append, splitLines_line hno]
    have hcomplete : complete ≠ [] := by
      rintro rfl
      rw [List.nil_append] at hq'
      exact (notMem_splitLines q).2 (hq' ▸ hq)
    have hlong' := hlong
    rw [hlast] at hlong'
    have hne : (splitLines q).2 ≠ [] := List.ne_nil_of_length_pos (Nat.zero_lt_of_lt hlong')
    have hthree : [] ∉ [p, complete, (splitLines q).2] := by
      rw [List.mem_cons, not_or]
      exact ⟨(ne_nil_of_long hp).symm, notMem_pair hcomplete hne⟩
    have hflatten : [p, complete, (splitLines q).2].flatten = stream := by
      rw [List.flatten_cons, flatten_pair, ← hq', heq]
    have hparts := h _ _ hthree (notMem_singleton (ne_nil_of_break heq hp)) hflatten
      List.flatten_singleton
    rw [pumpFrames_eq, pumpFrames_eq, emitted_first_raise hp,
      emitted_complete (congrArg Prod.snd hsplit) (notMem_splitLines q).2 hlong', ← hq',
      emitted_first_raise hlong, emitted_nil] at hparts
    exact hparts
  · exact spelled_of_notMem hq

/-- What follows the break, in another stream: a read ends there, and the rest is the
second one. -/
theorem ReadIndependent.spelled_break_short (h : ReadIndependent float stream) {p q : Bytes}
    (heq : stream = p ++ q) (hp : lineMaxLen < (splitLines p).2.length)
    (hshort : (splitLines stream).2.length ≤ lineMaxLen) :
    spelled float q = spelled float stream := by
  have hq : q ≠ [] := by
    rintro rfl
    rw [List.append_nil] at heq
    exact not_lt_of_ge hshort (heq ▸ hp)
  have hshort' : (splitLines q).2.length ≤ lineMaxLen :=
    (length_unfinished_le p q).trans (heq ▸ hshort)
  have hparts := h _ _ (notMem_pair (ne_nil_of_long hp) hq)
    (notMem_singleton (ne_nil_of_break heq hp)) ((flatten_pair p q).trans heq.symm)
    List.flatten_singleton
  rw [pumpFrames_eq, pumpFrames_eq, emitted_first_raise hp, emitted_first hshort',
    emitted_first hshort, emitted_nil, emitted_nil, List.append_nil, List.append_nil] at hparts
  exact hparts

theorem ReadIndependent.harmless (h : ReadIndependent float stream) : Harmless float stream := by
  intro p q heq hp
  by_cases hlong : lineMaxLen < (splitLines stream).2.length
  · rw [h.spelled_eq_nil hlong]
    exact h.spelled_break_long heq hp hlong
  · exact h.spelled_break_short heq hp (not_lt.mp hlong)

/-- **The frames do not depend on the reads** exactly when nothing is lost at an
over-long line. -/
theorem pump_frames_iff (float : Text → Option F) (stream : Bytes) :
    ReadIndependent float stream ↔ Harmless float stream := by
  refine ⟨ReadIndependent.harmless, fun h chunks chunks' _ _ heq heq' => ?_⟩
  rw [h.pumpFrames_eq heq, h.pumpFrames_eq heq']

/-- A frame, and then a line that does not end. -/
theorem frame_before_long_line_lost : ¬ ReadIndependent (F := ℚ) (fun _ => none)
    (ascii "progress=continue\n" ++ List.replicate 257 0x78) := by
  intro h
  have hframes := h [ascii "progress=continue\n", List.replicate 257 0x78]
    [ascii "progress=continue\n" ++ List.replicate 257 0x78]
    (notMem_pair (List.cons_ne_nil _ _) (List.cons_ne_nil _ _))
    (notMem_singleton (List.cons_ne_nil _ _)) (flatten_pair _ _) List.flatten_singleton
  exact absurd hframes (by decide +kernel)

end Independence

/-! ## Short lines -/

/-- Every line of the stream is within the cap, the unfinished one too. -/
def ShortLines (stream : Bytes) : Prop :=
  (∀ line ∈ (splitLines stream).1, line.length ≤ lineMaxLen) ∧
    (splitLines stream).2.length ≤ lineMaxLen

/-- **What has been read** of such a stream is not over-long either. -/
theorem ShortLines.unfinished {p q : Bytes} (h : ShortLines (p ++ q)) :
    (splitLines p).2.length ≤ lineMaxLen := by
  rw [ShortLines, splitLines_append] at h
  rcases hq : splitLines q with ⟨_ | ⟨line, lines⟩, last⟩
  · rw [hq] at h
    have hle := h.2
    rw [List.length_append] at hle
    exact (Nat.le_add_right _ _).trans hle
  · rw [hq] at h
    have hle := h.1 _ (List.mem_append_right _ List.mem_cons_self)
    rw [List.length_append] at hle
    exact (Nat.le_add_right _ _).trans hle

theorem ShortLines.harmless {F : Type} [Zero F] {float : Text → Option F} {stream : Bytes}
    (h : ShortLines stream) : Harmless float stream :=
  fun _ _ heq hlong => absurd hlong (not_lt_of_ge (ShortLines.unfinished (heq ▸ h)))

end ProgressParser

end RestreamPlus
