import RestreamPlus.Fanout.RedactionSafety

/-!
# How a stream is cut into lines

What `RedactionSink` emits is meant to be the lines of the stream, none longer
than `MAX_LINE_LEN`, however the pipe hands it over. `splitLines` is the stream
as lines, and an unfinished one at the end. The loop of `feed` emits a line whole
when its newline is already buffered, and cuts it when it is not and the buffer is
full. So a line that fills the buffer comes out in two ways. A line that does not,
and what `flush` finds, are emitted as they are redacted, which may be longer.

`framed_iff_redacted` says that there is nothing else: the lines are bounded and do
not depend on the chunks exactly when no complete line fills the buffer and nothing
that is emitted whole is redacted to more than the bound.
-/

namespace RestreamPlus

open Replace Interleaving

namespace Redaction

/-! ## A sink fed in chunks -/

/-- The loop of `feed` on this buffer: what it emits and what it leaves. -/
inductive Drains (url : Bytes) : Bytes → List Bytes → Bytes → Prop where
  | stop {buf : Bytes} : loopStep url buf = none → Drains url buf [] buf
  | pass {buf line buf' rest : Bytes} {lines : List Bytes} :
    loopStep url buf = some (line, buf') → Drains url buf' lines rest →
      Drains url buf (line :: lines) rest

/-- `flush`. -/
def flush (url buf : Bytes) : List Bytes := if buf = [] then [] else [redactLine url buf]

/-- What is emitted from this buffer on when these chunks are fed, and then flushed. -/
inductive Emits (url : Bytes) : Bytes → List Bytes → List Bytes → Prop where
  | flush (buf : Bytes) : Emits url buf [] (flush url buf)
  | feed {buf chunk buf' : Bytes} {chunks out lines : List Bytes} :
    Drains url (buf ++ chunk) out buf' → Emits url buf' chunks lines →
      Emits url buf (chunk :: chunks) (out ++ lines)

/-- **The framing laws**: every way of cutting the stream gives the same lines,
and none of them is longer than the cap. -/
def Framed (url stream : Bytes) : Prop :=
  ∃ lines, (∀ chunks : List Bytes, chunks.flatten = stream → Emits url [] chunks lines) ∧
    ∀ line ∈ lines, line.length ≤ maxLineLen

section Machine

variable {url : Bytes}

theorem run_of_drains {buf rest : Bytes} {out : List Bytes} (h : Drains url buf out rest)
    (unfed : Bytes) (lines : List Bytes) :
    (machine url).run ⟨buf, unfed, lines⟩ (List.replicate out.length .iterate) =
      some ⟨rest, unfed, lines ++ out⟩ := by
  induction h generalizing lines with
  | stop => rw [List.append_nil]; rfl
  | pass hstep _ ih =>
    have hs : (machine url).step ⟨_, unfed, lines⟩ .iterate = some ⟨_, unfed, lines ++ [_]⟩ :=
      congrArg (Option.map _) hstep
    rw [List.length_cons, List.replicate_succ, Machine.run_cons_of_step _ hs, ih,
      List.append_assoc]
    rfl

theorem Drains.stopped {buf rest : Bytes} {out : List Bytes} (h : Drains url buf out rest) :
    loopStep url rest = none := by
  induction h with
  | stop hnone => exact hnone
  | pass _ _ ih => exact ih

/-- The lines are those of a run of the sink. -/
theorem run_of_emits {buf : Bytes} {chunks out : List Bytes} (h : Emits url buf chunks out)
    (hbuf : loopStep url buf = none) (lines : List Bytes) :
    ∃ labels, (machine url).run ⟨buf, chunks.flatten, lines⟩ labels =
      some ⟨[], [], lines ++ out⟩ := by
  induction h generalizing lines with
  | flush buf =>
    refine ⟨[.flush], ?_⟩
    have hs : (machine url).step ⟨buf, [], lines⟩ .flush =
        some ⟨[], [], lines ++ flush url buf⟩ := by
      rw [step_machine, step, if_pos ⟨hbuf, rfl⟩, flush]
      split
      · rename_i hnil
        rw [show buf = [] from hnil, List.append_nil]
      · rfl
    exact Machine.run_cons_of_step [] hs
  | @feed buf chunk buf' chunks out rest hdrain _ ih =>
    obtain ⟨labels, hrun⟩ := ih hdrain.stopped (lines ++ out)
    refine ⟨.feed chunk.length :: (List.replicate out.length .iterate ++ labels), ?_⟩
    have hs : (machine url).step ⟨buf, (chunk :: chunks).flatten, lines⟩ (.feed chunk.length) =
        some ⟨buf ++ chunk, chunks.flatten, lines⟩ := by
      rw [step_machine, step, if_pos hbuf, List.flatten_cons, List.take_left, List.drop_left]
    rw [Machine.run_cons_of_step _ hs, Machine.run_append, run_of_drains hdrain, Option.bind_some,
      hrun, List.append_assoc]

end Machine

/-! ## Lines -/

/-- The complete lines of a stream, and what follows the last newline. -/
def splitLines : Bytes → List Bytes × Bytes
  | [] => ([], [])
  | b :: t =>
    if b = newline then ([] :: (splitLines t).1, (splitLines t).2)
    else
      match splitLines t with
      | ([], last) => ([], b :: last)
      | (line :: lines, last) => ((b :: line) :: lines, last)

theorem splitLines_of_notMem {x : Bytes} (h : newline ∉ x) : splitLines x = ([], x) := by
  induction x with
  | nil => rfl
  | cons b x ih =>
    rw [List.mem_cons, not_or] at h
    rw [splitLines, if_neg (Ne.symm h.1), ih h.2]

theorem splitLines_line {x : Bytes} (h : newline ∉ x) (rest : Bytes) :
    splitLines (x ++ newline :: rest) = (x :: (splitLines rest).1, (splitLines rest).2) := by
  induction x with
  | nil => rfl
  | cons b x ih =>
    rw [List.mem_cons, not_or] at h
    rw [List.cons_append, splitLines, if_neg (Ne.symm h.1), ih h.2]

/-- A stream is an unfinished line, or a line in front of a stream. -/
theorem stream_induction {P : Bytes → Prop} (hlast : ∀ x, newline ∉ x → P x)
    (hline : ∀ x rest, newline ∉ x → P rest → P (x ++ newline :: rest)) (stream : Bytes) :
    P stream := by
  induction hn : stream.length using Nat.strong_induction_on generalizing stream with
  | _ n ih =>
    by_cases h : newline ∈ stream
    · obtain ⟨rest, heq, -, hno⟩ := firstLine_spec h
      rw [heq]
      refine hline _ rest hno (ih rest.length ?_ rest rfl)
      rw [← hn, heq, List.length_append, List.length_cons]
      omega
    · exact hlast stream h

theorem exists_line {stream : Bytes} (h : newline ∈ stream) :
    ∃ line rest, stream = line ++ newline :: rest ∧ newline ∉ line := by
  obtain ⟨rest, heq, -, hno⟩ := firstLine_spec h
  exact ⟨firstLine stream, rest, heq, hno⟩

theorem notMem_splitLines (stream : Bytes) :
    (∀ x ∈ (splitLines stream).1, newline ∉ x) ∧ newline ∉ (splitLines stream).2 := by
  induction stream using stream_induction with
  | hlast x hx =>
    rw [splitLines_of_notMem hx]
    exact ⟨fun x h => absurd h List.not_mem_nil, hx⟩
  | hline x rest hx ih =>
    rw [splitLines_line hx]
    refine ⟨fun y hy => ?_, ih.2⟩
    rcases List.mem_cons.mp hy with rfl | hy
    · exact hx
    · exact ih.1 y hy

/-- More bytes finish the last line, or prolong it. -/
theorem splitLines_append (p q : Bytes) : splitLines (p ++ q) =
    match splitLines q with
    | ([], last) => ((splitLines p).1, (splitLines p).2 ++ last)
    | (line :: lines, last) => ((splitLines p).1 ++ ((splitLines p).2 ++ line) :: lines, last) := by
  induction p using stream_induction with
  | hlast x hx =>
    rw [splitLines_of_notMem hx]
    by_cases hq : newline ∈ q
    · obtain ⟨line, rest, rfl, hno⟩ := exists_line hq
      have hxy : newline ∉ x ++ line := by
        rw [List.mem_append, not_or]
        exact ⟨hx, hno⟩
      rw [← List.append_assoc, splitLines_line hxy, splitLines_line hno]
      rfl
    · have hxq : newline ∉ x ++ q := by
        rw [List.mem_append, not_or]
        exact ⟨hx, hq⟩
      rw [splitLines_of_notMem hxq, splitLines_of_notMem hq]
  | hline x rest hx ih =>
    rw [List.append_assoc, List.cons_append, splitLines_line hx, ih, splitLines_line hx]
    rcases splitLines q with ⟨_ | ⟨line, lines⟩, last⟩ <;> rfl

/-- The lines of a part are lines of the whole. -/
theorem mem_splitLines_append {x p : Bytes} (q : Bytes) (h : x ∈ (splitLines p).1) :
    x ∈ (splitLines (p ++ q)).1 := by
  rw [splitLines_append]
  split
  · exact h
  · exact List.mem_append_left _ h

/-! ## The loop -/

section Loop

variable {url x y buf rest : Bytes} {out : List Bytes}

theorem loopStep_newline (h : newline ∉ x) (rest : Bytes) :
    loopStep url (x ++ newline :: rest) = some (redactLine url x, rest) := by
  have hpos : ∀ b ∈ x, decide (b ≠ newline) = true := fun b hb =>
    decide_eq_true (ne_of_mem_of_not_mem hb h)
  have hfirst : firstLine (x ++ newline :: rest) = x := by
    rw [firstLine, List.takeWhile_append_of_pos hpos]
    simp
  have hdrop : (x ++ newline :: rest).dropWhile (· ≠ newline) = newline :: rest := by
    rw [List.dropWhile_append_of_pos hpos]
    simp
  rw [loopStep, hdrop, hfirst]

theorem loopStep_short (h : newline ∉ x) (hlt : x.length < maxLineLen + url.length) :
    loopStep url x = none := by
  rw [loopStep, dropWhile_of_notMem h]
  exact if_pos hlt

theorem loopStep_long (h : newline ∉ x) (hle : maxLineLen + url.length ≤ x.length) :
    loopStep url x = some ((redactLine url (window url x)).take maxLineLen,
      (redactLine url (window url x)).drop maxLineLen ++ x.drop (maxLineLen + url.length)) := by
  rw [loopStep, dropWhile_of_notMem h]
  exact if_neg (not_lt_of_ge hle)

theorem window_append (hle : maxLineLen + url.length ≤ x.length) (y : Bytes) :
    window url (x ++ y) = window url x := by
  rw [window, window, List.take_append_of_le_length hle]

/-- **A forced split does not see what comes later.** -/
theorem loopStep_append (hy : newline ∉ y) (hx : newline ∉ x) {line x' : Bytes}
    (h : loopStep url x = some (line, x')) :
    newline ∉ x' ∧ loopStep url (x ++ y) = some (line, x' ++ y) ∧ line.length ≤ maxLineLen := by
  have hle : maxLineLen + url.length ≤ x.length := by
    by_contra hlt
    rw [loopStep_short hx (not_le.mp hlt)] at h
    cases h
  rw [loopStep_long hx hle] at h
  cases h
  have hwindow : newline ∉ redactLine url (window url x) :=
    newline_notMem_redactLine fun hmem => hx (List.mem_of_mem_take hmem)
  refine ⟨?_, ?_, List.length_take_le _ _⟩
  · rw [List.mem_append, not_or]
    exact ⟨fun hmem => hwindow (List.mem_of_mem_drop hmem),
      fun hmem => hx (List.mem_of_mem_drop hmem)⟩
  · have hxy : newline ∉ x ++ y := by
      rw [List.mem_append, not_or]
      exact ⟨hx, hy⟩
    have hle' : maxLineLen + url.length ≤ (x ++ y).length := by
      rw [List.length_append]
      exact Nat.le_add_right_of_le hle
    rw [loopStep_long hxy hle', window_append hle, List.drop_append_of_le_length hle,
      List.append_assoc]

theorem Drains.unique {out' : List Bytes} {rest' : Bytes} (h : Drains url buf out rest)
    (h' : Drains url buf out' rest') : out = out' ∧ rest = rest' := by
  induction h generalizing out' with
  | stop hnone =>
    cases h' with
    | stop => exact ⟨rfl, rfl⟩
    | pass hstep => rw [hnone] at hstep; cases hstep
  | pass hstep _ ih =>
    cases h' with
    | stop hnone => rw [hnone] at hstep; cases hstep
    | pass hstep' h' =>
      rw [hstep] at hstep'
      cases hstep'
      obtain ⟨rfl, rfl⟩ := ih h'
      exact ⟨rfl, rfl⟩

theorem drains_line (h : newline ∉ x) : Drains url (x ++ newline :: buf) out rest ↔
    ∃ out', out = redactLine url x :: out' ∧ Drains url buf out' rest := by
  refine ⟨fun hd => ?_, ?_⟩
  · cases hd with
    | stop hnone => rw [loopStep_newline h] at hnone; cases hnone
    | pass hstep hd =>
      rw [loopStep_newline h] at hstep
      cases hstep
      exact ⟨_, rfl, hd⟩
  · rintro ⟨out', rfl, hd⟩
    exact .pass (loopStep_newline h buf) hd

/-- **Fed in one piece**, the complete lines come out whole. -/
theorem drains_iff (stream : Bytes) : Drains url stream out rest ↔
    ∃ cut, Drains url (splitLines stream).2 cut rest ∧
      out = (splitLines stream).1.map (redactLine url) ++ cut := by
  induction stream using stream_induction generalizing out with
  | hlast x hx =>
    rw [splitLines_of_notMem hx]
    exact ⟨fun h => ⟨out, h, rfl⟩, fun ⟨cut, h, heq⟩ => heq ▸ h⟩
  | hline x t hx ih =>
    rw [drains_line hx, splitLines_line hx]
    refine ⟨?_, ?_⟩
    · rintro ⟨out', rfl, hd⟩
      obtain ⟨cut, hcut, rfl⟩ := ih.mp hd
      exact ⟨cut, hcut, rfl⟩
    · rintro ⟨cut, hcut, rfl⟩
      exact ⟨_, rfl, ih.mpr ⟨cut, hcut, rfl⟩⟩

theorem drains_short (h : newline ∉ x) (hlt : x.length < maxLineLen + url.length) :
    Drains url x [] x := .stop (loopStep_short h hlt)

/-- An unfinished line is cut alike whether the bytes come together or not. -/
theorem Drains.append {cut cut' : List Bytes} {rest' : Bytes} (h : Drains url x cut rest)
    (hx : newline ∉ x) (hy : newline ∉ y) (h' : Drains url (x ++ y) cut' rest') :
    ∃ out, cut' = cut ++ out ∧ Drains url (rest ++ y) out rest' := by
  induction h generalizing cut' with
  | stop => exact ⟨cut', rfl, h'⟩
  | pass hstep _ ih =>
    obtain ⟨hx', hstep', -⟩ := loopStep_append hy hx hstep
    cases h' with
    | stop hnone => rw [hnone] at hstep'; cases hstep'
    | pass hstep'' h' =>
      rw [hstep'] at hstep''
      cases hstep''
      obtain ⟨out, rfl, hd⟩ := ih hx' h'
      exact ⟨out, rfl, hd⟩

/-- If the cutting ends with more bytes, it ends without them. -/
theorem Drains.of_append {z : Bytes} (h : Drains url z out rest) :
    ∀ x y, z = x ++ y → newline ∉ x → newline ∉ y → ∃ cut rest', Drains url x cut rest' := by
  induction h with
  | stop hnone =>
    rintro x y rfl hx hy
    by_cases hlt : x.length < maxLineLen + url.length
    · exact ⟨[], x, drains_short hx hlt⟩
    · obtain ⟨-, hstep, -⟩ := loopStep_append hy hx (loopStep_long hx (not_lt.mp hlt))
      rw [hstep] at hnone
      cases hnone
  | pass hstep _ ih =>
    rintro x y rfl hx hy
    by_cases hlt : x.length < maxLineLen + url.length
    · exact ⟨[], x, drains_short hx hlt⟩
    · have hlong := loopStep_long hx (not_lt.mp hlt)
      obtain ⟨hx', hstep', -⟩ := loopStep_append hy hx hlong
      rw [hstep'] at hstep
      cases hstep
      obtain ⟨cut, rest', hd⟩ := ih _ y rfl hx' hy
      exact ⟨_ :: cut, rest', .pass hlong hd⟩

/-- What is cut off by force is bounded. -/
theorem Drains.bounded {cut : List Bytes} (h : Drains url x cut rest) (hx : newline ∉ x) :
    ∀ line ∈ cut, line.length ≤ maxLineLen := by
  induction h with
  | stop => exact fun line hmem => absurd hmem List.not_mem_nil
  | pass hstep _ ih =>
    obtain ⟨hx', -, hle⟩ := loopStep_append (y := []) List.not_mem_nil hx hstep
    intro line hmem
    rcases List.mem_cons.mp hmem with rfl | hmem
    · exact hle
    · exact ih hx' line hmem

end Loop

/-! ## The laws -/

section Laws

variable {url : Bytes}

/-- What is emitted of a stream whose complete lines do not fill the buffer. -/
def framing (url stream : Bytes) (cut : List Bytes) (rest : Bytes) : List Bytes :=
  (splitLines stream).1.map (redactLine url) ++ cut ++ flush url rest

/-- **One chunk** finishes lines that never filled the buffer, or prolongs the last one. -/
theorem drains_chunk {p chunk rest rest' : Bytes} {cut cut' : List Bytes}
    (hshort : ∀ x ∈ (splitLines (p ++ chunk)).1, x.length < maxLineLen + url.length)
    (h : Drains url (splitLines p).2 cut rest)
    (h' : Drains url (splitLines (p ++ chunk)).2 cut' rest') :
    ∃ out, Drains url (rest ++ chunk) out rest' ∧
      (splitLines p).1.map (redactLine url) ++ cut ++ out =
        (splitLines (p ++ chunk)).1.map (redactLine url) ++ cut' := by
  have hp := (notMem_splitLines p).2
  by_cases hmem : newline ∈ chunk
  · obtain ⟨line, more, rfl, hno⟩ := exists_line hmem
    have hsplit : splitLines (p ++ (line ++ newline :: more)) =
        ((splitLines p).1 ++ ((splitLines p).2 ++ line) :: (splitLines more).1,
          (splitLines more).2) := by
      rw [splitLines_append, splitLines_line hno]
    rw [hsplit] at hshort h' ⊢
    have hline : newline ∉ (splitLines p).2 ++ line := by
      rw [List.mem_append, not_or]
      exact ⟨hp, hno⟩
    have hlt := hshort _ (List.mem_append_right _ List.mem_cons_self)
    -- the line did not fill the buffer, so all of it is still there
    have hbuffer : (splitLines p).2.length < maxLineLen + url.length :=
      lt_of_le_of_lt (by rw [List.length_append]; exact Nat.le_add_right _ _) hlt
    obtain ⟨rfl, rfl⟩ := h.unique (drains_short hp hbuffer)
    refine ⟨redactLine url ((splitLines p).2 ++ line) ::
      ((splitLines more).1.map (redactLine url) ++ cut'), ?_, ?_⟩
    · rw [← List.append_assoc, drains_line hline]
      exact ⟨_, rfl, (drains_iff more).mpr ⟨cut', h', rfl⟩⟩
    · rw [List.append_nil, List.map_append, List.map_cons, List.append_assoc, List.cons_append]
  · have hsplit : splitLines (p ++ chunk) = ((splitLines p).1, (splitLines p).2 ++ chunk) := by
      rw [splitLines_append, splitLines_of_notMem hmem]
    rw [hsplit] at h' ⊢
    obtain ⟨out, rfl, hd⟩ := h.append hp hmem h'
    exact ⟨out, hd, List.append_assoc _ _ _⟩

/-- While no complete line fills the buffer, the cutting of the last line comes to an end at
every moment if it does at the end of the stream. -/
theorem drains_prefix {p q rest : Bytes} {cut : List Bytes}
    (hshort : ∀ x ∈ (splitLines (p ++ q)).1, x.length < maxLineLen + url.length)
    (h : Drains url (splitLines (p ++ q)).2 cut rest) :
    ∃ cut' rest', Drains url (splitLines p).2 cut' rest' := by
  have hp := (notMem_splitLines p).2
  have hq := notMem_splitLines q
  rw [splitLines_append] at hshort h
  rcases hs : splitLines q with ⟨_ | ⟨line, lines⟩, last⟩ <;> rw [hs] at hshort h hq
  · exact h.of_append _ _ rfl hp hq.2
  · have hlt := hshort _ (List.mem_append_right _ List.mem_cons_self)
    refine ⟨[], _, drains_short hp (lt_of_le_of_lt ?_ hlt)⟩
    rw [List.length_append]
    exact Nat.le_add_right _ _

/-- **Any chunks** give the same lines. -/
theorem emits_of_short {stream rest : Bytes} {cut : List Bytes}
    (hshort : ∀ x ∈ (splitLines stream).1, x.length < maxLineLen + url.length)
    (hend : Drains url (splitLines stream).2 cut rest) (chunks : List Bytes) :
    ∀ p buf done, Drains url (splitLines p).2 done buf → p ++ chunks.flatten = stream →
      ∃ lines, Emits url buf chunks lines ∧
        (splitLines p).1.map (redactLine url) ++ done ++ lines = framing url stream cut rest := by
  induction chunks with
  | nil =>
    intro p buf done hd heq
    rw [List.flatten_nil, List.append_nil] at heq
    subst heq
    obtain ⟨rfl, rfl⟩ := hd.unique hend
    exact ⟨_, .flush _, rfl⟩
  | cons chunk chunks ih =>
    intro p buf done hd heq
    rw [List.flatten_cons, ← List.append_assoc] at heq
    obtain ⟨cut', rest', hd'⟩ : ∃ cut' rest', Drains url (splitLines (p ++ chunk)).2 cut' rest' :=
      drains_prefix (q := chunks.flatten) (by rwa [heq]) (by rw [heq]; exact hend)
    have hshort' : ∀ x ∈ (splitLines (p ++ chunk)).1, x.length < maxLineLen + url.length :=
      fun x hx => hshort x (heq ▸ mem_splitLines_append chunks.flatten hx)
    obtain ⟨out, hout, hcat⟩ := drains_chunk hshort' hd hd'
    obtain ⟨lines, hemits, hlines⟩ := ih (p ++ chunk) rest' cut' hd' heq
    refine ⟨out ++ lines, .feed hout hemits, ?_⟩
    rw [← hlines, ← hcat]
    simp only [List.append_assoc]

theorem emits_single {stream : Bytes} {lines : List Bytes} (h : Emits url [] [stream] lines) :
    ∃ cut rest, Drains url (splitLines stream).2 cut rest ∧
      lines = framing url stream cut rest := by
  cases h with
  | feed hd he =>
    cases he with
    | flush =>
      obtain ⟨cut, hcut, rfl⟩ := (drains_iff stream).mp hd
      exact ⟨cut, _, hcut, rfl⟩

/-- Where a complete line is. -/
theorem exists_of_mem_splitLines {stream x : Bytes} (h : x ∈ (splitLines stream).1) :
    ∃ p q, stream = p ++ (x ++ newline :: q) ∧ (splitLines p).2 = [] ∧ newline ∉ x := by
  induction stream using stream_induction with
  | hlast y hy =>
    rw [splitLines_of_notMem hy] at h
    cases h
  | hline y rest hy ih =>
    rw [splitLines_line hy] at h
    rcases List.mem_cons.mp h with rfl | h
    · exact ⟨[], rest, rfl, rfl, hy⟩
    · obtain ⟨p, q, rfl, hp, hx⟩ := ih h
      refine ⟨y ++ newline :: p, q, by simp only [List.append_assoc, List.cons_append], ?_, hx⟩
      rw [splitLines_line hy]
      exact hp

/-- **A complete line that fills the buffer** comes out whole if its newline comes with it, and
in pieces if its newline comes later. -/
theorem short_of_framed {stream : Bytes} (h : Framed url stream) :
    ∀ x ∈ (splitLines stream).1, x.length < maxLineLen + url.length := by
  intro x hx
  by_contra hlt
  obtain ⟨lines, hall, -⟩ := h
  obtain ⟨p, q, rfl, hp, hno⟩ := exists_of_mem_splitLines hx
  obtain ⟨cut, rest, hd, hwhole⟩ := emits_single (hall [_] (List.append_nil _))
  have hpieces := hall [p ++ x, newline :: q] (by simp [List.flatten_cons])
  have hsplit : splitLines (p ++ x) = ((splitLines p).1, x) := by
    rw [splitLines_append, splitLines_of_notMem hno, hp]
    rfl
  have hstream : splitLines (p ++ (x ++ newline :: q)) =
      ((splitLines p).1 ++ x :: (splitLines q).1, (splitLines q).2) := by
    rw [splitLines_append, splitLines_line hno, hp]
    rfl
  cases hpieces with
  | feed hd₁ he₁ =>
    obtain ⟨cut₁, hcut₁, rfl⟩ := (drains_iff _).mp hd₁
    rw [List.nil_append, hsplit] at hcut₁
    cases he₁ with
    | feed hd₂ he₂ =>
      obtain ⟨out₂, rfl, hrest⟩ :=
        (drains_line (newline_notMem_of_loopStep hcut₁.stopped)).mp hd₂
      obtain ⟨cut₂, hcut₂, rfl⟩ := (drains_iff q).mp hrest
      cases he₂ with
      | flush =>
        rw [framing, hstream] at hwhole
        rw [hstream] at hd
        obtain ⟨rfl, rfl⟩ := hd.unique hcut₂
        rw [List.nil_append, hsplit] at hwhole
        -- the pieces cut off by force come on top
        have hlen := congrArg List.length hwhole
        have hpos : 0 < cut₁.length := by
          cases hcut₁ with
          | stop hnone => rw [loopStep_long hno (not_lt.mp hlt)] at hnone; cases hnone
          | pass => exact Nat.succ_pos _
        simp only [List.length_append, List.length_cons, List.length_map] at hlen
        omega

theorem redactLine_nil (url : Bytes) : redactLine url [] = [] := by
  rw [redactLine_eq, replaceAll_nil]
  rfl

/-- **The framing laws hold** exactly when no complete line fills the buffer, none is redacted to
more than the cap, the cutting of the unfinished line at the end terminates, and what is left
of it is not redacted to more than the cap either. -/
theorem framed_iff_redacted (url stream : Bytes) : Framed url stream ↔
    (∀ x ∈ (splitLines stream).1,
      x.length < maxLineLen + url.length ∧ (redactLine url x).length ≤ maxLineLen) ∧
    ∃ cut rest, Drains url (splitLines stream).2 cut rest ∧
      (redactLine url rest).length ≤ maxLineLen := by
  refine ⟨fun h => ?_, ?_⟩
  · have hshort := short_of_framed h
    obtain ⟨lines, hall, hbound⟩ := h
    obtain ⟨cut, rest, hd, rfl⟩ := emits_single (hall [stream] (List.append_nil _))
    refine ⟨fun x hx => ⟨hshort x hx, hbound _ ?_⟩, cut, rest, hd, ?_⟩
    · exact List.mem_append_left _ (List.mem_append_left _ (List.mem_map_of_mem hx))
    · by_cases hnil : rest = []
      · rw [hnil, redactLine_nil]
        exact Nat.zero_le _
      · refine hbound _ (List.mem_append_right _ ?_)
        rw [flush, if_neg hnil]
        exact List.mem_cons_self
  · rintro ⟨hlines, cut, rest, hd, hrest⟩
    refine ⟨framing url stream cut rest, fun chunks hchunks => ?_, fun line hmem => ?_⟩
    · have hnil : Drains url (splitLines []).2 [] [] :=
        drains_short List.not_mem_nil (Nat.add_pos_left (by decide) _)
      obtain ⟨lines, hemits, hcat⟩ :=
        emits_of_short (fun x hx => (hlines x hx).1) hd chunks [] [] []
        hnil hchunks
      exact hcat ▸ hemits
    · rcases List.mem_append.mp hmem with hmem | hmem
      · rcases List.mem_append.mp hmem with hmem | hmem
        · obtain ⟨x, hx, rfl⟩ := List.mem_map.mp hmem
          exact (hlines x hx).2
        · exact hd.bounded (notMem_splitLines stream).2 line hmem
      · rw [flush] at hmem
        split at hmem
        · cases hmem
        · obtain rfl := List.mem_singleton.mp hmem
          exact hrest

end Laws

/-! ## A line that is too long -/

section TooLong

/-- A destination. -/
def plainUrl : Bytes := ascii "rtmp://live.twitch.tv/app/live_0123456789"

/-- One line of 5000 bytes. -/
def longLine : Bytes := List.replicate 5000 97

theorem newline_notMem_longLine : newline ∉ longLine := fun h => by
  cases List.eq_of_mem_replicate h

/-- The line and its newline. -/
theorem not_framed_longLine : ¬ Framed plainUrl (longLine ++ [newline]) := by
  intro h
  have hlines : longLine ∈ (splitLines (longLine ++ [newline])).1 := by
    rw [splitLines_line newline_notMem_longLine]
    exact List.mem_cons_self
  have hlt := short_of_framed h longLine hlines
  rw [longLine, List.length_replicate] at hlt
  exact absurd hlt (by decide)

end TooLong

end Redaction

end RestreamPlus
