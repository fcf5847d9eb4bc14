import RestreamPlus.Fanout.RedactionFraming

/-!
# What the sink does to an innocuous stream

A stream in which neither pass finds anything comes out as it is: `Cuts` says how
its bytes are distributed over lines. A line ends at a newline, which is dropped,
at the end of the stream, or after exactly `MAX_LINE_LEN` bytes of a line that
goes on. The last kind depends on the chunks, the bytes do not.
-/

namespace RestreamPlus

open Replace

namespace Redaction

/-- Neither the URL nor the regular expression matches a part of the stream. -/
structure Innocuous (url stream : Bytes) : Prop where
  url : ¬ url <:+: stream
  tail : ∀ x, x <:+: stream → matchTail x = none

/-- **The lines of a stream**, none of its bytes lost but the newlines. -/
inductive Cuts (url : Bytes) : Bytes → List Bytes → Prop where
  | empty : Cuts url [] []
  | last {x : Bytes} : x ≠ [] → newline ∉ x → Cuts url x [x]
  | line {x rest : Bytes} {lines : List Bytes} : newline ∉ x → Cuts url rest lines →
    Cuts url (x ++ newline :: rest) (x :: lines)
  /-- the line goes on for another URL length at least -/
  | forced {x ahead rest : Bytes} {lines : List Bytes} : newline ∉ x → x.length = maxLineLen →
    newline ∉ ahead → ahead.length = url.length → Cuts url (ahead ++ rest) lines →
    Cuts url (x ++ (ahead ++ rest)) (x :: lines)

/-- **Nothing is lost or reordered.** -/
theorem Cuts.flatten {url stream : Bytes} {lines : List Bytes} (h : Cuts url stream lines) :
    lines.flatten = dropNewlines stream := by
  induction h with
  | empty => rfl
  | last _ hx => rw [List.flatten_singleton, dropNewlines_of_notMem hx]
  | line hx _ ih =>
    have hdrop (rest : Bytes) : dropNewlines (newline :: rest) = dropNewlines rest :=
      List.filter_cons_of_neg (by simp)
    rw [List.flatten_cons, ih, dropNewlines_append, dropNewlines_of_notMem hx, hdrop]
  | @forced x _ _ _ hx _ _ _ _ ih =>
    rw [List.flatten_cons, ih, dropNewlines_append x, dropNewlines_of_notMem hx]

section Innocuous

variable {url stream : Bytes}

theorem Innocuous.within (h : Innocuous url stream) {x : Bytes} (hx : x <:+: stream) :
    Innocuous url x :=
  ⟨fun hurl => h.url (hurl.trans hx), fun y hy => h.tail y (hy.trans hx)⟩

theorem subTail_eq_self {l : Bytes} (h : ∀ x, x <:+: l → matchTail x = none) : subTail l = l := by
  induction l with
  | nil => rfl
  | cons c t ih =>
    rw [subTail_cons (h _ (List.infix_refl _)),
      ih fun x hx => h x (hx.trans (List.suffix_cons c t).isInfix)]

/-- Redaction finds nothing. -/
theorem Innocuous.redactLine_eq (h : Innocuous url stream) : redactLine url stream = stream := by
  rw [redactLine, if_neg h.url]
  exact subTail_eq_self h.tail

/-- **A forced split** cuts off a line of full length: the part of the window that is
put back is what the buffer had there. -/
theorem cuts_split {buf line buf' : Bytes} (later : Bytes) (h : Innocuous url buf)
    (hnl : newline ∉ buf) (hs : loopStep url buf = some (line, buf')) :
    buf' <:+ buf ∧ buf'.length < buf.length ∧
      ∀ lines, Cuts url (buf' ++ later) lines → Cuts url (buf ++ later) (line :: lines) := by
  have hle : maxLineLen + url.length ≤ buf.length := by
    by_contra hlt
    rw [loopStep_short hnl (not_le.mp hlt)] at hs
    cases hs
  have hwindow : redactLine url (window url buf) = window url buf :=
    (h.within (List.take_prefix _ _).isInfix).redactLine_eq
  have heq := loopStep_split hnl hs
  rw [hwindow] at heq
  have hline : line = buf.take maxLineLen := by
    refine (congrArg Prod.fst heq).trans ?_
    rw [window, List.take_take, Nat.min_eq_left (Nat.le_add_right _ _)]
  -- the part of the window that is put back, and what is behind it
  have hrest : buf' = (buf.drop maxLineLen).take url.length ++
      buf.drop (maxLineLen + url.length) := by
    refine (congrArg Prod.snd heq).trans ?_
    rw [window, List.drop_take, Nat.add_sub_cancel_left]
  have hdrop : buf' = buf.drop maxLineLen := by
    rw [hrest, ← List.drop_drop, List.take_append_drop]
  refine ⟨?_, ?_, fun lines hlines => ?_⟩
  · rw [hdrop]
    exact List.drop_suffix _ _
  · rw [hdrop, List.length_drop]
    have hpos : 0 < maxLineLen := by decide
    omega
  · have hsplit : buf = line ++ buf' := by
      rw [hline, hdrop, List.take_append_drop]
    have hlen : line.length = maxLineLen := by
      rw [hline]
      exact List.length_take_of_le ((Nat.le_add_right _ _).trans hle)
    have hahead : ((buf.drop maxLineLen).take url.length).length = url.length := by
      refine List.length_take_of_le ?_
      rw [List.length_drop]
      omega
    rw [hsplit, List.append_assoc]
    rw [hrest, List.append_assoc] at hlines ⊢
    refine .forced (fun hmem => hnl ?_) hlen (fun hmem => hnl ?_) hahead hlines
    · rw [hline] at hmem
      exact List.mem_of_mem_take hmem
    · exact List.mem_of_mem_drop (List.mem_of_mem_take hmem)

/-- **One pass** cuts off a line. -/
theorem cuts_loopStep {buf line buf' : Bytes} (later : Bytes) (h : Innocuous url buf)
    (hs : loopStep url buf = some (line, buf')) :
    buf' <:+ buf ∧ buf'.length < buf.length ∧
      ∀ lines, Cuts url (buf' ++ later) lines → Cuts url (buf ++ later) (line :: lines) := by
  by_cases hnl : newline ∈ buf
  · obtain ⟨rest, hbuf, hno, heq⟩ := loopStep_line hnl hs
    obtain rfl : buf' = rest := congrArg Prod.snd heq
    obtain rfl : line = redactLine url (firstLine buf) := congrArg Prod.fst heq
    generalize firstLine buf = x at hbuf hno
    subst hbuf
    rw [(h.within (List.prefix_append x _).isInfix).redactLine_eq]
    refine ⟨⟨x ++ [newline], List.append_assoc x _ _⟩, ?_, fun lines hlines => ?_⟩
    · rw [List.length_append, List.length_cons]
      omega
    · rw [List.append_assoc]
      exact .line hno hlines
  · exact cuts_split later h hnl hs

/-- The loop ends, and cuts lines off. -/
theorem cuts_drains {buf : Bytes} (later : Bytes) (h : Innocuous url buf) :
    ∃ out rest, Drains url buf out rest ∧ rest <:+ buf ∧
      ∀ lines, Cuts url (rest ++ later) lines → Cuts url (buf ++ later) (out ++ lines) := by
  induction hn : buf.length using Nat.strong_induction_on generalizing buf with
  | _ n ih =>
    rcases hs : loopStep url buf with _ | ⟨line, buf'⟩
    · exact ⟨[], buf, .stop hs, List.suffix_refl _, fun lines hlines => hlines⟩
    · obtain ⟨hsuffix, hlt, hcut⟩ := cuts_loopStep later h hs
      rw [hn] at hlt
      obtain ⟨out, rest, hd, hrest, hout⟩ := ih _ hlt (h.within hsuffix.isInfix) rfl
      exact ⟨line :: out, rest, .pass hs hd, hrest.trans hsuffix,
        fun lines hlines => hcut _ (hout lines hlines)⟩

theorem cuts_flush {buf : Bytes} (h : Innocuous url buf) (hno : newline ∉ buf) :
    Cuts url buf (flush url buf) := by
  rw [flush]
  split
  · rename_i hnil
    rw [hnil]
    exact .empty
  · rename_i hne
    rw [h.redactLine_eq]
    exact .last hne hno

/-- A sink in the middle of a stream. -/
theorem cuts_emits {chunks : List Bytes} {buf : Bytes} (h : Innocuous url (buf ++ chunks.flatten))
    (hbuf : loopStep url buf = none) :
    ∃ lines, Emits url buf chunks lines ∧ Cuts url (buf ++ chunks.flatten) lines := by
  induction chunks generalizing buf with
  | nil =>
    rw [List.flatten_nil, List.append_nil] at h ⊢
    exact ⟨_, .flush buf, cuts_flush h (newline_notMem_of_loopStep hbuf)⟩
  | cons chunk chunks ih =>
    rw [List.flatten_cons, ← List.append_assoc] at h ⊢
    obtain ⟨out, rest, hd, hsuffix, hout⟩ :=
      cuts_drains chunks.flatten (h.within (List.prefix_append _ _).isInfix)
    have hrest : rest ++ chunks.flatten <:+: buf ++ chunk ++ chunks.flatten := by
      obtain ⟨t, ht⟩ := hsuffix
      refine ⟨t, [], ?_⟩
      rw [← ht, List.append_nil, List.append_assoc]
    obtain ⟨lines, hemits, hcuts⟩ := ih (h.within hrest) hd.stopped
    exact ⟨out ++ lines, .feed hd hemits, hout lines hcuts⟩

theorem Emits.unique {buf : Bytes} {chunks lines lines' : List Bytes}
    (h : Emits url buf chunks lines) (h' : Emits url buf chunks lines') : lines = lines' := by
  induction h generalizing lines' with
  | flush =>
    cases h' with
    | flush => rfl
  | feed hd _ ih =>
    cases h' with
    | feed hd' h' =>
      obtain ⟨rfl, rfl⟩ := hd.unique hd'
      rw [ih h']

end Innocuous

/-- **The sink loses and reorders nothing** of an innocuous stream, however it is
cut into chunks. -/
theorem sink_is_transparent (url stream : Bytes) (h : Innocuous url stream) (chunks : List Bytes)
    (hchunks : chunks.flatten = stream) :
    (∃ lines, Emits url [] chunks lines) ∧ ∀ lines, Emits url [] chunks lines →
      Cuts url stream lines ∧ lines.flatten = dropNewlines stream := by
  subst hchunks
  have hne : url ≠ [] := by
    rintro rfl
    exact h.url List.nil_infix
  have hstart : Innocuous url ([] ++ chunks.flatten) := h
  obtain ⟨lines, hemits, hcuts⟩ := cuts_emits hstart (loopStep_nil url)
  refine ⟨⟨lines, hemits⟩, fun lines' h' => ?_⟩
  obtain rfl := hemits.unique h'
  exact ⟨hcuts, hcuts.flatten⟩

/-- No match without an `r`. -/
theorem innocuous_of_notMem {url stream : Bytes} (hurl : (114 : UInt8) ∈ url)
    (h : (114 : UInt8) ∉ stream) : Innocuous url stream := by
  refine ⟨fun hin => h (hin.subset hurl), fun x hx => ?_⟩
  have hno {p : Bytes} (hp : (114 : UInt8) ∈ p) : ¬ p <+: x := fun hpre =>
    h (hx.subset (hpre.subset hp))
  rw [matchTail, matchScheme, if_neg (hno (by decide)), if_neg (hno (by decide))]
  rfl

/-- A line that is cut by force, in two reads. -/
theorem sink_is_transparent_longLine :
    (∃ lines, Emits plainUrl [] [longLine, newline :: ascii "bye"] lines) ∧
      ∀ lines, Emits plainUrl [] [longLine, newline :: ascii "bye"] lines →
        Cuts plainUrl (longLine ++ newline :: ascii "bye") lines ∧
          lines.flatten = dropNewlines (longLine ++ newline :: ascii "bye") := by
  have hno : (114 : UInt8) ∉ longLine ++ newline :: ascii "bye" := by
    rw [List.mem_append, not_or]
    refine ⟨fun hmem => ?_, by decide⟩
    cases List.eq_of_mem_replicate hmem
  refine sink_is_transparent plainUrl _ (innocuous_of_notMem (by decide) hno) _ ?_
  rw [List.flatten_cons, List.flatten_singleton]

end Redaction

end RestreamPlus
