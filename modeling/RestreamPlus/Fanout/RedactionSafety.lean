import RestreamPlus.Fanout.Redaction

/-!
# What the sink keeps secret

`InsideUrls url s stream` says that a word `s` occurs in a stream only inside
full occurrences of the worker URL. For a suffix `s` of the key the sink should
then never emit `s`.

It does not when a forced split cuts through a URL. The look-ahead of one URL
length protects a URL at the cap only as long as redaction neither touches its
visible part nor makes the text before it shorter than `MAX_LINE_LEN`;
`forced_split_leaks_key` is a stream in which an earlier URL shrinks the window
and the next key comes out in the clear.

`sink_keeps_secret` shows that splits which cut no URL, or carry the cut URL
over whole, are all that is needed, besides what is in the nature of a sink that
drops newlines and replaces from the left: the stream reads as text without `s`
and full URLs when the newlines are dropped, and no two URLs overlap in a line.
`onlyInUrls_of_inside` says when a stream that shows `s` in full URLs only reads
like this.

The proof follows the text that is still to come with its URLs blanked
(`Secret`): blanking hides `s`, and every step emits or puts back something that
hides at least as much.
-/

namespace RestreamPlus

open Replace Interleaving Redaction

/-- A worker URL `rtmp(s)://host/app/key`, as bytes. -/
structure StreamUrl : Type where
  secure : Bool
  host : Bytes
  app : Bytes
  key : Bytes
  host_ne : host ≠ []
  app_ne : app ≠ []
  host_path : host.all isPathByte = true
  app_path : app.all isPathByte = true
  key_long : 12 ≤ key.length
  key_bytes : key.all isKeyByte = true

namespace StreamUrl

/-- `rtmp(s)://host/app`. -/
def base (u : StreamUrl) : Bytes :=
  (if u.secure then ascii "rtmps://" else ascii "rtmp://") ++ u.host ++ slash :: u.app

/-- The URL handed to ffmpeg. -/
def bytes (u : StreamUrl) : Bytes := u.base ++ slash :: u.key

theorem bytes_ne (u : StreamUrl) : u.bytes ≠ [] := by
  simp [bytes]

theorem newline_notMem_bytes (u : StreamUrl) : newline ∉ u.bytes := by
  have hscheme : newline ∉ if u.secure then ascii "rtmps://" else ascii "rtmp://" := by
    cases u.secure <;> decide
  have hpath : ∀ l : Bytes, l.all isPathByte = true → newline ∉ l := by
    intro l hl hmem
    exact absurd (List.all_eq_true.mp hl newline hmem) (by decide)
  have hkey : newline ∉ u.key := fun hmem =>
    absurd (List.all_eq_true.mp u.key_bytes newline hmem) (by decide)
  intro h
  rcases List.mem_append.mp h with h | h
  · rcases List.mem_append.mp h with h | h
    · rcases List.mem_append.mp h with h | h
      · exact hscheme h
      · exact hpath u.host u.host_path h
    · rcases List.mem_cons.mp h with h | h
      · exact absurd h (by decide)
      · exact hpath u.app u.app_path h
  · rcases List.mem_cons.mp h with h | h
    · exact absurd h (by decide)
    · exact hkey h

end StreamUrl

namespace Redaction

/-- A text as the concatenation of the emitted lines shows it. -/
def dropNewlines (l : Bytes) : Bytes := l.filter (· ≠ newline)

/-- Every occurrence of `s` lies inside a full occurrence of `url`. -/
def InsideUrls (url s stream : Bytes) : Prop :=
  ∀ x y, stream = x ++ (s ++ y) →
    ∃ a b c d, url = a ++ (s ++ b) ∧ x = c ++ a ∧ y = b ++ d

/-- No occurrence of `s` arises by dropping the newlines. -/
def NotJoined (s stream : Bytes) : Prop :=
  ∀ x y, dropNewlines stream = x ++ (s ++ y) →
    ∃ x' y', stream = x' ++ (s ++ y') ∧ dropNewlines x' = x

/-- The stream is text and full occurrences of `url`, and `s` does not occur in
the text. -/
def OnlyInUrls (url s stream : Bytes) : Prop :=
  ∃ m, Blanks star url stream m ∧ ¬ s <:+: dropNewlines m

/-- A forced split that loses no URL: up to `n` the window holds only full URLs,
what follows is the beginning of a URL that redaction leaves alone and that is
carried over whole. -/
def CleanCut (url window ahead : Bytes) (n : ℕ) : Prop :=
  NoOverlap url (window.take n) ∧ NoStraddle url ahead n ∧
    redactLine url window = redactLine url (window.take n) ++ window.drop n ∧
      (n = window.length ∨ maxLineLen ≤ (redactLine url (window.take n)).length)

/-- The steps the sink is safe in. -/
def SafeStep (url : Bytes) (c : Sink) : Label → Prop
  | .feed _ => True
  | .iterate =>
    if newline ∈ c.buf then NoOverlap url (firstLine c.buf)
    else ∃ n ≤ (window url c.buf).length, CleanCut url (window url c.buf) (c.buf ++ c.unfed) n
  | .flush => NoOverlap url c.buf

instance (url window ahead : Bytes) (n : ℕ) : Decidable (CleanCut url window ahead n) := by
  unfold CleanCut
  infer_instance

instance (url : Bytes) (c : Sink) (a : Label) : Decidable (SafeStep url c a) :=
  match a with
  | .feed _ => .isTrue trivial
  | .flush => inferInstanceAs (Decidable (NoOverlap url c.buf))
  | .iterate =>
    if h : newline ∈ c.buf then
      decidable_of_iff (NoOverlap url (firstLine c.buf)) (by rw [SafeStep, if_pos h])
    else
      decidable_of_iff (∃ n ≤ (window url c.buf).length,
        CleanCut url (window url c.buf) (c.buf ++ c.unfed) n) (by rw [SafeStep, if_neg h])

/-- What is emitted and what is still to come, URLs blanked, is free of `s`. -/
def Secret (url s : Bytes) (c : Sink) : Prop :=
  ∃ m, Blanks star url (c.buf ++ c.unfed) m ∧ ¬ s <:+: c.lines.flatten ++ dropNewlines m

/-! ## The steps -/

theorem dropNewlines_append (l l' : Bytes) :
    dropNewlines (l ++ l') = dropNewlines l ++ dropNewlines l' :=
  List.filter_append l l'

theorem dropNewlines_newline (l : Bytes) : dropNewlines (newline :: l) = dropNewlines l :=
  List.filter_cons_of_neg (by simp)

theorem dropNewlines_cons {c : UInt8} (hc : c ≠ newline) (l : Bytes) :
    dropNewlines (c :: l) = c :: dropNewlines l :=
  List.filter_cons_of_pos (by simpa using hc)

theorem dropNewlines_of_notMem {l : Bytes} (h : newline ∉ l) : dropNewlines l = l := by
  rw [dropNewlines, List.filter_eq_self]
  intro b hb
  exact decide_eq_true fun heq => h (heq ▸ hb)

theorem newline_notMem_blanks {url t m : Bytes} (h : Blanks star url t m) (ht : newline ∉ t) :
    newline ∉ m := by
  induction h with
  | nil => exact ht
  | keep c _ ih =>
    rw [List.mem_cons, not_or] at ht ⊢
    exact ⟨ht.1, ih ht.2⟩
  | blank _ ih =>
    rw [List.mem_append, not_or] at ht
    rw [List.mem_cons, not_or]
    exact ⟨by decide, ih ht.2⟩

/-- A URL without a newline does not reach across one. -/
theorem noStraddle_newline {url line rest : Bytes} (hurl : newline ∉ url) :
    NoStraddle url (line ++ newline :: rest) line.length := by
  intro i hi hpre
  by_contra hlt
  obtain ⟨e, he⟩ := hpre
  have hget : (line ++ newline :: rest)[line.length]? = some newline := by
    rw [List.getElem?_append_right (Nat.le_refl _), Nat.sub_self]
    rfl
  have hk : line.length - i < url.length := by omega
  have hat : url[line.length - i]? = some newline := by
    rw [← List.getElem?_append_left hk, he, List.getElem?_drop, Nat.add_sub_cancel' hi.le]
    exact hget
  exact hurl (List.mem_of_getElem? hat)

theorem firstLine_spec {buf : Bytes} (h : newline ∈ buf) :
    ∃ rest, buf = firstLine buf ++ newline :: rest ∧
      buf.dropWhile (· ≠ newline) = newline :: rest ∧ newline ∉ firstLine buf := by
  rw [firstLine]
  induction buf with
  | nil => cases h
  | cons b buf ih =>
    by_cases hb : b = newline
    · exact ⟨buf, by simp [hb], by simp [hb], by simp [hb]⟩
    · obtain ⟨rest, hbuf, hdrop, hno⟩ := ih ((List.mem_cons.mp h).resolve_left (Ne.symm hb))
      refine ⟨rest, ?_, ?_, ?_⟩
      · rw [List.takeWhile_cons_of_pos (by simpa using hb), List.cons_append, ← hbuf]
      · rw [List.dropWhile_cons_of_pos (by simpa using hb)]
        exact hdrop
      · rw [List.takeWhile_cons_of_pos (by simpa using hb), List.mem_cons, not_or]
        exact ⟨Ne.symm hb, hno⟩

theorem dropWhile_of_notMem {buf : Bytes} (h : newline ∉ buf) :
    buf.dropWhile (· ≠ newline) = [] := by
  induction buf with
  | nil => rfl
  | cons b buf ih =>
    rw [List.mem_cons, not_or] at h
    rw [List.dropWhile_cons_of_pos (by simpa using Ne.symm h.1)]
    exact ih h.2

theorem loopStep_line {url buf : Bytes} {r : Bytes × Bytes} (h : newline ∈ buf)
    (hr : loopStep url buf = some r) :
    ∃ rest, buf = firstLine buf ++ newline :: rest ∧ newline ∉ firstLine buf ∧
      r = (redactLine url (firstLine buf), rest) := by
  obtain ⟨rest, hbuf, hd, hno⟩ := firstLine_spec h
  rw [loopStep, hd] at hr
  exact ⟨rest, hbuf, hno, (Option.some.inj hr).symm⟩

theorem loopStep_split {url buf : Bytes} {r : Bytes × Bytes} (h : newline ∉ buf)
    (hr : loopStep url buf = some r) :
    r = ((redactLine url (window url buf)).take maxLineLen,
      (redactLine url (window url buf)).drop maxLineLen ++
        buf.drop (maxLineLen + url.length)) := by
  rw [loopStep, dropWhile_of_notMem h] at hr
  dsimp only at hr
  split at hr
  · cases hr
  · exact (Option.some.inj hr).symm

theorem newline_notMem_of_loopStep {url buf : Bytes} (h : loopStep url buf = none) :
    newline ∉ buf := by
  intro hmem
  obtain ⟨rest, -, hd, -⟩ := firstLine_spec hmem
  rw [loopStep, hd] at h
  cases h

section Secret

variable {u : StreamUrl} {s : Bytes}

/-- Emitting a complete line. -/
theorem secret_line (hs : star ∉ s) (hq : ¬ s <:+: placeholderBody) {line rest : Bytes}
    {lines : List Bytes} (hline : newline ∉ line) (hno : NoOverlap u.bytes line)
    (h : ∃ m, Blanks star u.bytes (line ++ newline :: rest) m ∧
      ¬ s <:+: lines.flatten ++ dropNewlines m) :
    ∃ m, Blanks star u.bytes rest m ∧
      ¬ s <:+: (lines ++ [redactLine u.bytes line]).flatten ++ dropNewlines m := by
  obtain ⟨m, hm, hfree⟩ := h
  obtain ⟨m₀, m₁, rfl, h₀, h₁⟩ := hm.split (noStraddle_newline u.newline_notMem_bytes)
  obtain ⟨m₂, rfl, h₂⟩ : ∃ m₂, m₁ = newline :: m₂ ∧ Blanks star u.bytes rest m₂ := by
    refine Blanks.keeps (t := [newline]) h₁ fun i hi hpre => ?_
    obtain rfl : i = 0 := by simpa using hi
    obtain ⟨e, he⟩ := hpre
    obtain ⟨d, v, hv⟩ := List.exists_cons_of_ne_nil u.bytes_ne
    refine u.newline_notMem_bytes ?_
    rw [hv] at he ⊢
    obtain rfl : d = newline := (List.cons.inj he).1
    exact List.mem_cons_self
  refine ⟨m₂, h₂, fun hin => hfree ?_⟩
  have hhide := hides_redactLine u.bytes_ne hs hq h₀ hno lines.flatten (dropNewlines m₂)
  rw [List.flatten_append, List.flatten_singleton] at hin
  have hin' := hhide hin
  rw [dropNewlines_append, dropNewlines_of_notMem (newline_notMem_blanks h₀ hline)]
  have hdrop : dropNewlines (newline :: m₂) = dropNewlines m₂ :=
    List.filter_cons_of_neg (by simp)
  rw [hdrop, ← List.append_assoc]
  exact hin'

/-- Emitting the front of a window and buffering the rest again. -/
theorem secret_split (hs : star ∉ s) (hq : ¬ s <:+: placeholderBody) {w rest : Bytes}
    {lines : List Bytes} (hw : newline ∉ w) {n : ℕ} (hn : n ≤ w.length)
    (hcut : CleanCut u.bytes w (w ++ rest) n)
    (h : ∃ m, Blanks star u.bytes (w ++ rest) m ∧ ¬ s <:+: lines.flatten ++ dropNewlines m) :
    ∃ m, Blanks star u.bytes ((redactLine u.bytes w).drop maxLineLen ++ rest) m ∧
      ¬ s <:+: (lines ++ [(redactLine u.bytes w).take maxLineLen]).flatten ++ dropNewlines m := by
  obtain ⟨m, hm, hfree⟩ := h
  obtain ⟨hno, hstraddle, hred, hlen⟩ := hcut
  have hlen₀ : (w.take n).length = n := List.length_take_of_le hn
  have hw₀ : newline ∉ w.take n := fun hmem => hw (List.mem_of_mem_take hmem)
  rw [← List.take_append_drop n w, List.append_assoc] at hm hstraddle
  obtain ⟨m₀, m₁, rfl, h₀, h₁⟩ := hm.split (by rw [hlen₀]; exact hstraddle)
  -- the redacted full part `R`, of which `maxLineLen` bytes are emitted
  generalize hR : redactLine u.bytes (w.take n) = R at hred hlen
  have hRline : newline ∉ R := by
    rw [← hR]
    exact newline_notMem_redactLine hw₀
  have htake : (R ++ w.drop n).take maxLineLen = R.take maxLineLen := by
    rcases hlen with rfl | hlen
    · rw [List.drop_length, List.append_nil]
    · rw [List.take_append_of_le_length hlen]
  have hdrop : (R ++ w.drop n).drop maxLineLen = R.drop maxLineLen ++ w.drop n := by
    rcases hlen with rfl | hlen
    · rw [List.drop_length, List.append_nil, List.append_nil]
    · rw [List.drop_append_of_le_length hlen]
  refine ⟨R.drop maxLineLen ++ m₁, ?_, fun hin => hfree ?_⟩
  · rw [hred, hdrop, List.append_assoc]
    exact (Blanks.refl star u.bytes _).append h₁
  · rw [hred, htake, List.flatten_append, List.flatten_singleton, dropNewlines_append,
      dropNewlines_of_notMem fun hmem => hRline (List.mem_of_mem_drop hmem),
      ← List.append_assoc, List.append_assoc lines.flatten, List.take_append_drop] at hin
    have hhide := hides_redactLine u.bytes_ne hs hq h₀ hno lines.flatten (dropNewlines m₁)
    rw [hR] at hhide
    rw [dropNewlines_append, dropNewlines_of_notMem (newline_notMem_blanks h₀ hw₀),
      ← List.append_assoc]
    exact hhide hin

/-- **One safe step** keeps the secret. -/
theorem secret_step (hs : star ∉ s) (hq : ¬ s <:+: placeholderBody) {c c' : Sink} {a : Label}
    (h : Secret u.bytes s c) (hok : SafeStep u.bytes c a)
    (hstep : step u.bytes c a = some c') : Secret u.bytes s c' := by
  cases a with
  | feed n =>
    rw [step] at hstep
    split at hstep
    · obtain rfl := Option.some.inj hstep
      rw [Secret, List.append_assoc, List.take_append_drop]
      exact h
    · cases hstep
  | iterate =>
    obtain ⟨r, hr, rfl⟩ := Option.map_eq_some_iff.mp hstep
    rw [SafeStep] at hok
    by_cases hnl : newline ∈ c.buf
    · rw [if_pos hnl] at hok
      obtain ⟨rest, hbuf, hline, rfl⟩ := loopStep_line hnl hr
      rw [Secret] at h ⊢
      rw [hbuf, List.append_assoc, List.cons_append] at h
      exact secret_line hs hq hline hok h
    · rw [if_neg hnl] at hok
      obtain ⟨n, hn, hcut⟩ := hok
      obtain rfl := loopStep_split hnl hr
      have hw : newline ∉ window u.bytes c.buf := fun hmem => hnl (List.mem_of_mem_take hmem)
      have hbuf : c.buf ++ c.unfed = window u.bytes c.buf ++
          (c.buf.drop (maxLineLen + u.bytes.length) ++ c.unfed) := by
        rw [window, ← List.append_assoc, List.take_append_drop]
      rw [hbuf] at hcut
      rw [Secret] at h ⊢
      rw [hbuf] at h
      rw [List.append_assoc]
      exact secret_split hs hq hw hn hcut h
  | flush =>
    rw [step] at hstep
    split at hstep
    · rename_i hend
      obtain ⟨hloop, hunfed⟩ := hend
      split at hstep
      · obtain rfl := Option.some.inj hstep
        exact h
      · obtain rfl := Option.some.inj hstep
        obtain ⟨m, hm, hfree⟩ := h
        rw [hunfed, List.append_nil] at hm
        have hline := newline_notMem_of_loopStep hloop
        refine ⟨[], by rw [hunfed]; exact .nil, fun hin => hfree ?_⟩
        rw [List.flatten_append, List.flatten_singleton] at hin
        have hhide := hides_redactLine u.bytes_ne hs hq hm hok c.lines.flatten []
        rw [dropNewlines_of_notMem (newline_notMem_blanks hm hline)]
        simpa only [List.append_nil] using hhide hin
    · cases hstep

/-- A suffix of the key other than the middle of the placeholder does not occur
in the placeholder. -/
theorem not_infix_placeholder (hs : star ∉ s) (hlen : 8 ≤ s.length) (hne : s ≠ ascii "REDACTED") :
    ¬ s <:+: placeholderBody := by
  have hpos : ∀ l : Bytes, l.length < 8 → ¬ s <:+: l := by
    intro l hl hin
    have := hin.length_le
    omega
  intro h
  rcases infix_of_infix_mark (a := []) hs h with h | h
  · exact hpos [] (by decide) h
  · rcases infix_of_infix_mark (a := []) hs h with h | h
    · exact hpos [] (by decide) h
    · rcases infix_of_infix_mark (a := ascii "REDACTED") (b := [star]) hs h with h | h
      · exact hne (h.eq_of_length (le_antisymm h.length_le hlen))
      · exact hpos [star] (by decide) h

end Secret

/-! ## Reading a stream as text and URLs -/

section Reading

variable {url s : Bytes}

/-- What is left of a text at the front of which the URL is replaced by a mark
begins like the text. -/
theorem prefix_of_prefix_replaceAll (hs : star ∉ s) {t : Bytes}
    (h : s <+: dropNewlines (replaceAll url [star] t)) (hurl : url ≠ []) :
    s <+: dropNewlines t := by
  induction t generalizing s with
  | nil => exact h
  | cons b t ih =>
    rcases s with _ | ⟨d, s⟩
    · exact List.nil_prefix
    · by_cases hpre : url <+: b :: t
      · obtain ⟨t', ht⟩ := hpre
        rw [← ht, replaceAll_append hurl, dropNewlines_append] at h
        obtain ⟨e, he⟩ := h
        obtain rfl : d = star := (List.cons.inj he).1
        exact absurd List.mem_cons_self hs
      · rw [replaceAll_cons _ hpre] at h
        by_cases hb : b = newline
        · rw [hb, dropNewlines_newline] at h ⊢
          exact ih hs h
        · rw [dropNewlines_cons hb] at h ⊢
          obtain ⟨rfl, h'⟩ := List.cons_prefix_cons.mp h
          exact List.cons_prefix_cons.mpr
            ⟨rfl, ih (fun hmem => hs (List.mem_cons_of_mem d hmem)) h'⟩

/-- Occurrences in the text without its newlines lie inside URLs of the text. -/
def InsideDropped (url s t : Bytes) : Prop :=
  ∀ x y, dropNewlines t = x ++ (s ++ y) →
    ∃ a b c d, url = a ++ (s ++ b) ∧ t = c ++ (url ++ d) ∧ x = dropNewlines c ++ a

theorem insideDropped_of_inside {t : Bytes} (hurl : newline ∉ url) (hin : InsideUrls url s t)
    (hjoin : NotJoined s t) : InsideDropped url s t := by
  intro x y hxy
  obtain ⟨x', y', ht, rfl⟩ := hjoin x y hxy
  obtain ⟨a, b, c, d, hsplit, rfl, rfl⟩ := hin x' y' ht
  refine ⟨a, b, c, d, hsplit, by rw [ht, hsplit]; simp only [List.append_assoc], ?_⟩
  have ha : newline ∉ a := fun hmem => hurl (by rw [hsplit]; exact List.mem_append_left _ hmem)
  rw [dropNewlines_append, dropNewlines_of_notMem ha]

/-- They lie inside URLs of what follows a URL. -/
theorem InsideDropped.of_append (hnl : newline ∉ url) (hne : s ≠ []) {t : Bytes}
    (h : InsideDropped url s (url ++ t)) (hno : NoOverlap url (url ++ t)) :
    InsideDropped url s t := by
  intro x y hxy
  obtain ⟨a, b, c, d, hab, hcd, hx⟩ := h (url ++ x) y (by
    rw [dropNewlines_append, dropNewlines_of_notMem hnl, hxy, List.append_assoc])
  have hshort : a.length < url.length := by
    have := List.length_pos_iff.mpr hne
    rw [hab, List.length_append, List.length_append]
    omega
  rcases Nat.eq_zero_or_pos c.length with hzero | hpos
  · obtain rfl := List.eq_nil_of_length_eq_zero hzero
    -- the URL at the front does not reach as far as the occurrence
    have hax := congrArg List.length hx
    simp only [List.length_append, dropNewlines, List.filter_nil, List.length_nil] at hax
    omega
  · have hle : url.length ≤ c.length := by
      have := hno 0 (by rw [List.length_append]; omega) c.length
        (by rw [hcd]; simp only [List.length_append]; omega) hpos
        ⟨List.prefix_append _ _, by
          rw [hcd, List.drop_left]
          exact List.prefix_append _ _⟩
      omega
    obtain ⟨c', rfl⟩ : url <+: c :=
      List.prefix_of_prefix_length_le (List.prefix_append url t)
        (by rw [hcd]; exact List.prefix_append _ _) hle
    rw [List.append_assoc] at hcd
    rw [dropNewlines_append, dropNewlines_of_notMem hnl, List.append_assoc] at hx
    exact ⟨a, b, c', d, hab, List.append_cancel_left hcd, List.append_cancel_left hx⟩

/-- A URL that does not begin at the front begins behind it. -/
theorem begins_behind {e : UInt8} {t c d : Bytes} (hpre : ¬ url <+: e :: t)
    (h : e :: t = c ++ (url ++ d)) : ∃ c', c = e :: c' ∧ t = c' ++ (url ++ d) := by
  cases c with
  | nil => exact absurd (by rw [h]; exact List.prefix_append url d) hpre
  | cons e' c' =>
    obtain ⟨rfl, ht⟩ := List.cons.inj h
    exact ⟨c', rfl, ht⟩

/-- They lie inside URLs of what follows a byte that begins none. -/
theorem InsideDropped.of_cons {e : UInt8} {t : Bytes} (h : InsideDropped url s (e :: t))
    (hpre : ¬ url <+: e :: t) : InsideDropped url s t := by
  intro x y hxy
  by_cases he : e = newline
  · obtain ⟨a, b, c, d, hab, hcd, hx⟩ := h x y (by rw [he, dropNewlines_newline, hxy])
    obtain ⟨c', rfl, ht⟩ := begins_behind hpre hcd
    exact ⟨a, b, c', d, hab, ht, by rw [hx, he, dropNewlines_newline]⟩
  · obtain ⟨a, b, c, d, hab, hcd, hx⟩ := h (e :: x) y (by rw [dropNewlines_cons he, hxy]; rfl)
    obtain ⟨c', rfl, ht⟩ := begins_behind hpre hcd
    rw [dropNewlines_cons he] at hx
    exact ⟨a, b, c', d, hab, ht, (List.cons.inj hx).2⟩

/-- Blanking the URLs from the left leaves no occurrence, since no URL is
missed. -/
theorem not_infix_blanked (hurl : url ≠ []) (hnl : newline ∉ url) (hs : star ∉ s) (hne : s ≠ [])
    {t : Bytes} (hin : InsideDropped url s t) (hno : NoOverlap url t) :
    ¬ s <:+: dropNewlines (replaceAll url [star] t) := by
  induction t using scan_induction hurl with
  | nil => exact fun h => hne (List.eq_nil_of_infix_nil h)
  | found t ih =>
    -- a URL at the front: the others begin behind it
    rw [replaceAll_append hurl, dropNewlines_append]
    intro h
    rcases infix_of_infix_mark (a := []) hs h with h | h
    · exact hne (List.eq_nil_of_infix_nil h)
    · exact ih (hin.of_append hnl hne hno) hno.of_append h
  | pass e t hpre ih =>
    have ih := ih (hin.of_cons hpre) hno.of_cons
    rw [replaceAll_cons _ hpre]
    by_cases he : e = newline
    · rw [he, dropNewlines_newline]
      exact ih
    · rw [dropNewlines_cons he]
      intro h
      rcases List.infix_cons_iff.mp h with h | h
      · -- an occurrence at the front would be in a URL at the front
        have hfront : s <+: dropNewlines (e :: t) := by
          refine prefix_of_prefix_replaceAll hs ?_ hurl
          rw [replaceAll_cons _ hpre, dropNewlines_cons he]
          exact h
        obtain ⟨y, hy⟩ := hfront
        obtain ⟨a, b, c, d, -, hcd, hx⟩ := hin [] y hy.symm
        obtain ⟨c', rfl, -⟩ := begins_behind hpre hcd
        rw [dropNewlines_cons he] at hx
        cases hx
      · exact ih h

theorem blanks_replaceAll (hurl : url ≠ []) (t : Bytes) :
    Blanks star url t (replaceAll url [star] t) := by
  induction t using scan_induction hurl with
  | nil => exact .nil
  | found t ih =>
    rw [replaceAll_append hurl]
    exact .blank ih
  | pass c t hpre ih =>
    rw [replaceAll_cons _ hpre]
    exact .keep c ih

/-- A stream that shows `s` inside URLs only can be read as text and URLs. -/
theorem onlyInUrls_of_inside (hurl : url ≠ []) (hnl : newline ∉ url) (hs : star ∉ s)
    (hne : s ≠ []) {t : Bytes} (hin : InsideUrls url s t) (hjoin : NotJoined s t)
    (hno : NoOverlap url t) : OnlyInUrls url s t :=
  ⟨replaceAll url [star] t, blanks_replaceAll hurl t,
    not_infix_blanked hurl hnl hs hne (insideDropped_of_inside hnl hin hjoin) hno⟩

end Reading

/-- **The sink keeps the key secret**: along every run whose steps are safe, no
suffix of the key of eight bytes or more that the stream shows only in
worker URLs is ever emitted, in one line or across lines. -/
theorem sink_keeps_secret (u : StreamUrl) (s stream : Bytes) (labels : List Label)
    (hsuffix : s <:+ u.key) (hlen : 8 ≤ s.length) (honly : OnlyInUrls u.bytes s stream)
    (hne : s ≠ ascii "REDACTED")
    (hok : (machine u.bytes).Meets (SafeStep u.bytes) (start stream) labels) :
    (machine u.bytes).Always
      (fun c => ¬ s <:+: c.lines.flatten ∧ ∀ line ∈ c.lines, ¬ s <:+: line)
      (start stream) labels := by
  have hs : star ∉ s := fun hmem =>
    absurd (List.all_eq_true.mp u.key_bytes star (hsuffix.mem hmem)) (by decide)
  have hq := not_infix_placeholder hs hlen hne
  refine Machine.always_of_inv (I := Secret u.bytes s)
    (fun c a c' h hg hstep => secret_step hs hq h hg hstep) ?_ honly hok
  rintro c ⟨m, -, hfree⟩
  have hflat : ¬ s <:+: c.lines.flatten := fun hin =>
    hfree (hin.trans (List.prefix_append _ _).isInfix)
  exact ⟨hflat, fun line hline hin => hflat (hin.trans (List.infix_of_mem_flatten hline))⟩

/-! ## A key in the clear -/

section Leak

/-- The URL `rtmp://h/a/ABCDEFGHIJKLMNOPQRST`. -/
def leakUrl : StreamUrl where
  secure := false
  host := ascii "h"
  app := ascii "a"
  key := ascii "ABCDEFGHIJKLMNOPQRST"
  host_ne := by decide
  app_ne := by decide
  host_path := by decide
  app_path := by decide
  key_long := by decide
  key_bytes := by decide

/-- Many `x`. -/
def filler (n : ℕ) : Bytes := List.replicate n 120

/-- The URL twice, without a newline, the second across the end of the window. -/
def leakStream : Bytes := leakUrl.bytes ++ (filler 4081 ++ leakUrl.bytes)

theorem length_filler (n : ℕ) : (filler n).length = n := List.length_replicate

theorem mem_filler {n : ℕ} {b : UInt8} (h : b ∈ filler n) : b = 120 := List.eq_of_mem_replicate h

/-- Without an `r` the second pass changes nothing. -/
theorem subTail_append {l t : Bytes} (h : (114 : UInt8) ∉ l) :
    subTail (l ++ t) = l ++ subTail t := by
  induction l with
  | nil => rfl
  | cons c l ih =>
    rw [List.mem_cons, not_or] at h
    rw [List.cons_append, subTail_cons (matchTail_of_ne (Ne.symm h.1) _), ih h.2]
    rfl

/-- The window of the forced split: the second URL is cut after four bytes of
its key. -/
theorem window_leakStream :
    leakStream = (leakUrl.bytes ++ (filler 4081 ++ leakUrl.bytes.take 15)) ++ leakUrl.bytes.drop 15 ∧
      (leakUrl.bytes ++ (filler 4081 ++ leakUrl.bytes.take 15)).length =
        maxLineLen + leakUrl.bytes.length := by
  refine ⟨?_, ?_⟩
  · simp only [leakStream, List.append_assoc, List.take_append_drop]
  · have h₁ : leakUrl.bytes.length = 31 := by decide
    have h₂ : (leakUrl.bytes.take 15).length = 15 := by decide
    rw [List.length_append, List.length_append, h₁, h₂, length_filler]
    rfl

/-- The filler is left alone. -/
theorem replaceAll_filler (n : ℕ) (t : Bytes) :
    replaceAll leakUrl.bytes placeholder (filler n ++ t) =
      filler n ++ replaceAll leakUrl.bytes placeholder t := by
  refine replaceAll_append_of_not_prefix placeholder fun l₁ c l₂ hl hpre => ?_
  have hc : c = 120 := mem_filler (by rw [hl]; exact List.mem_append_right _ List.mem_cons_self)
  subst hc
  exact absurd (List.cons_prefix_cons.mp hpre).1 (by decide)

theorem redactLine_filler (n : ℕ) (t : Bytes) :
    redactLine leakUrl.bytes (filler n ++ t) = filler n ++ redactLine leakUrl.bytes t := by
  rw [redactLine_eq, redactLine_eq, replaceAll_filler,
    subTail_append fun h => absurd (mem_filler h) (by decide)]

/-- Its first URL is replaced by something shorter, the cut one is untouched. -/
theorem redact_leak_window :
    redactLine leakUrl.bytes (leakUrl.bytes ++ (filler 4081 ++ leakUrl.bytes.take 15)) =
      (placeholder ++ filler 4081 ++ ascii "r") ++ ascii "tmp://h/a/ABCD" := by
  have htail : redactLine leakUrl.bytes (leakUrl.bytes.take 15) =
      ascii "r" ++ ascii "tmp://h/a/ABCD" := by decide
  have hrest := redactLine_filler 4081 (leakUrl.bytes.take 15)
  rw [htail, redactLine_eq] at hrest
  rw [redactLine_eq, replaceAll_append leakUrl.bytes_ne, subTail_append (by decide), hrest]
  simp only [List.append_assoc]

/-- The key begins with an `A`, which occurs nowhere else in the URL. -/
theorem leakUrl_key : leakUrl.key = 65 :: ascii "BCDEFGHIJKLMNOPQRST" := by decide

theorem leakUrl_bytes : leakUrl.bytes = ascii "rtmp://h/a/" ++ (leakUrl.key ++ []) := by decide

/-- Behind a text without `A`, an `A` is the first one or lies behind it. -/
theorem first_or_behind {l r x y : Bytes} (hl : (65 : UInt8) ∉ l)
    (h : l ++ 65 :: r = x ++ 65 :: y) : x = l ∨ ∃ x', x = l ++ 65 :: x' ∧ r = x' ++ 65 :: y := by
  rcases List.append_eq_append_iff.mp h with ⟨e, rfl, he⟩ | ⟨e, rfl, he⟩
  · rcases e with _ | ⟨d, e⟩
    · exact .inl (List.append_nil l)
    · obtain ⟨rfl, rfl⟩ := List.cons.inj he
      exact .inr ⟨e, rfl, rfl⟩
  · rcases e with _ | ⟨d, e⟩
    · exact .inl (List.append_nil x).symm
    · obtain rfl : (65 : UInt8) = d := (List.cons.inj he).1
      exact absurd (List.mem_append_right x List.mem_cons_self) hl

/-- Both keys of the stream are inside full URLs. -/
theorem insideUrls_leakStream : InsideUrls leakUrl.bytes leakUrl.key leakStream := by
  have hbase : (65 : UInt8) ∉ ascii "rtmp://h/a/" := by decide
  have hrest : (65 : UInt8) ∉ ascii "BCDEFGHIJKLMNOPQRST" := by decide
  have hgap : (65 : UInt8) ∉ filler 4081 := fun h => absurd (mem_filler h) (by decide)
  intro x y hxy
  have hstream : leakStream = ascii "rtmp://h/a/" ++ 65 :: (ascii "BCDEFGHIJKLMNOPQRST" ++
      (filler 4081 ++ ascii "rtmp://h/a/") ++ 65 :: ascii "BCDEFGHIJKLMNOPQRST") := by
    rw [leakStream, leakUrl_bytes, leakUrl_key]
    simp only [List.append_assoc, List.cons_append, List.append_nil]
  have hxy' := hxy
  rw [hstream, leakUrl_key, List.cons_append] at hxy'
  rcases first_or_behind hbase hxy' with rfl | ⟨x', rfl, h₁⟩
  · exact ⟨_, _, [], y, leakUrl_bytes, rfl, rfl⟩
  · have hmid : (65 : UInt8) ∉
        ascii "BCDEFGHIJKLMNOPQRST" ++ (filler 4081 ++ ascii "rtmp://h/a/") := by
      rw [List.mem_append, List.mem_append]
      rintro (h | h | h)
      exacts [hrest h, hgap h, hbase h]
    rcases first_or_behind hmid h₁ with rfl | ⟨x'', rfl, h₂⟩
    · refine ⟨_, _, leakUrl.bytes ++ filler 4081, y, leakUrl_bytes, ?_, rfl⟩
      rw [leakUrl_bytes, leakUrl_key]
      simp only [List.append_assoc, List.cons_append, List.append_nil]
    · exact absurd (by rw [h₂]; exact List.mem_append_right _ List.mem_cons_self) hrest

/-- A stream that shows the key inside full URLs only, fed at once, makes the
sink emit the whole key. -/
theorem forced_split_leaks_key :
    InsideUrls leakUrl.bytes leakUrl.key leakStream ∧
      ∃ c, (machine leakUrl.bytes).run (start leakStream) [.feed 4143, .iterate, .flush] =
        some c ∧ leakUrl.key <:+: c.lines.flatten ∧ ∃ line ∈ c.lines, leakUrl.key <:+: line := by
  obtain ⟨hstream, hlen⟩ := window_leakStream
  have hall : leakStream.length = 4143 := by
    rw [hstream, List.length_append, hlen]
    decide
  have hnl : newline ∉ leakStream := by
    have hbytes : newline ∉ leakUrl.bytes := leakUrl.newline_notMem_bytes
    rw [leakStream, List.mem_append, List.mem_append]
    rintro (h | h | h)
    · exact hbytes h
    · exact absurd (mem_filler h) (by decide)
    · exact hbytes h
  have hwindow : window leakUrl.bytes leakStream =
      leakUrl.bytes ++ (filler 4081 ++ leakUrl.bytes.take 15) := by
    rw [window, ← hlen, hstream, List.take_left]
  have hcap : (placeholder ++ filler 4081 ++ ascii "r").length = maxLineLen := by
    have h₁ : placeholder.length = 14 := by decide
    have h₂ : (ascii "r").length = 1 := by decide
    rw [List.length_append, List.length_append, h₁, h₂, length_filler]
    rfl
  have hfeed : (machine leakUrl.bytes).step (start leakStream) (.feed 4143) =
      some ⟨leakStream, [], []⟩ := step_feed_all _ hall.le
  have hsplit : (machine leakUrl.bytes).step ⟨leakStream, [], []⟩ .iterate =
      some ⟨ascii "tmp://h/a/ABCDEFGHIJKLMNOPQRST", [],
        [placeholder ++ filler 4081 ++ ascii "r"]⟩ := by
    have hloop : loopStep leakUrl.bytes leakStream =
        some (placeholder ++ filler 4081 ++ ascii "r", ascii "tmp://h/a/ABCDEFGHIJKLMNOPQRST") := by
      have hge : ¬ leakStream.length < maxLineLen + leakUrl.bytes.length := by
        rw [hall]
        decide
      have hdrop : leakStream.drop (maxLineLen + leakUrl.bytes.length) =
          leakUrl.bytes.drop 15 := by
        rw [← hlen, hstream, List.drop_left]
      have hrest : ascii "tmp://h/a/ABCD" ++ leakUrl.bytes.drop 15 =
          ascii "tmp://h/a/ABCDEFGHIJKLMNOPQRST" := by decide
      rw [loopStep, dropWhile_of_notMem hnl]
      dsimp only
      rw [if_neg hge, hwindow, redact_leak_window, hdrop, ← hcap, List.take_left, List.drop_left,
        hrest]
    rw [step_machine, step, hloop]
    rfl
  have hflush : (machine leakUrl.bytes).step ⟨ascii "tmp://h/a/ABCDEFGHIJKLMNOPQRST", [],
      [placeholder ++ filler 4081 ++ ascii "r"]⟩ .flush =
      some ⟨[], [], [placeholder ++ filler 4081 ++ ascii "r",
        ascii "tmp://h/a/ABCDEFGHIJKLMNOPQRST"]⟩ := by
    have hnone : loopStep leakUrl.bytes (ascii "tmp://h/a/ABCDEFGHIJKLMNOPQRST") = none := by
      decide
    have hred : redactLine leakUrl.bytes (ascii "tmp://h/a/ABCDEFGHIJKLMNOPQRST") =
        ascii "tmp://h/a/ABCDEFGHIJKLMNOPQRST" := by decide
    rw [step_machine, step, if_pos ⟨hnone, rfl⟩, if_neg (by decide)]
    dsimp only
    rw [hred]
    rfl
  have hkey : leakUrl.key <:+: ascii "tmp://h/a/ABCDEFGHIJKLMNOPQRST" := by decide
  have hrun : (machine leakUrl.bytes).run (start leakStream) [.feed 4143, .iterate, .flush] =
      some ⟨[], [], [placeholder ++ filler 4081 ++ ascii "r",
        ascii "tmp://h/a/ABCDEFGHIJKLMNOPQRST"]⟩ := by
    rw [Machine.run_cons_of_step _ hfeed, Machine.run_cons_of_step _ hsplit,
      Machine.run_cons_of_step _ hflush, Machine.run_nil]
  refine ⟨insideUrls_leakStream, _, hrun, ?_, _, List.mem_cons_of_mem _ List.mem_cons_self, hkey⟩
  refine hkey.trans ⟨placeholder ++ filler 4081 ++ ascii "r", [], ?_⟩
  simp only [List.flatten_cons, List.flatten_nil, List.append_nil]

/-! ## A key that is carried over -/

/-- The URL across the end of the window, behind more than a full line. -/
def cleanStream : Bytes := filler 4112 ++ leakUrl.bytes

/-- No URL begins in the filler. -/
theorem not_prefix_filler {n i : ℕ} (t : Bytes) (h : i < n) :
    ¬ leakUrl.bytes <+: (filler n ++ t).drop i := by
  have hi : (filler n ++ t).drop i = filler (n - i) ++ t := by
    rw [List.drop_append_of_le_length (by rw [length_filler]; exact h.le), filler,
      List.drop_replicate]
    rfl
  obtain ⟨m, hm⟩ := Nat.exists_eq_succ_of_ne_zero (Nat.sub_ne_zero_of_lt h)
  rw [hi, hm, filler, List.replicate_succ]
  exact fun hpre => absurd (List.cons_prefix_cons.mp hpre).1 (by decide)

theorem noOverlap_filler (n : ℕ) : NoOverlap leakUrl.bytes (filler n) := by
  intro i hi j _ _ hpre
  rw [length_filler] at hi
  rw [← List.append_nil (filler n)] at hpre
  exact absurd hpre.1 (not_prefix_filler [] hi)

theorem noOverlap_cleanStream : NoOverlap leakUrl.bytes cleanStream := by
  intro i _ j hj hij hpre
  -- there is only one
  have hi : 4112 ≤ i := not_lt.mp fun hlt => not_prefix_filler leakUrl.bytes hlt hpre.1
  have hlen := hpre.2.length_le
  rw [List.length_drop, cleanStream, List.length_append, length_filler] at hlen
  omega

theorem insideUrls_cleanStream : InsideUrls leakUrl.bytes leakUrl.key cleanStream := by
  have hfront : (65 : UInt8) ∉ filler 4112 ++ ascii "rtmp://h/a/" := by
    rw [List.mem_append]
    rintro (h | h)
    · exact absurd (mem_filler h) (by decide)
    · exact absurd h (by decide)
  have hrest : (65 : UInt8) ∉ ascii "BCDEFGHIJKLMNOPQRST" := by decide
  intro x y hxy
  rw [cleanStream, leakUrl_bytes, leakUrl_key, List.append_nil, ← List.append_assoc,
    List.cons_append] at hxy
  rcases first_or_behind hfront hxy with rfl | ⟨x', -, h⟩
  · exact ⟨_, _, filler 4112, y, leakUrl_bytes, rfl, rfl⟩
  · exact absurd (by rw [h]; exact List.mem_append_right _ List.mem_cons_self) hrest

theorem newline_notMem_cleanStream : newline ∉ cleanStream := by
  rw [cleanStream, List.mem_append]
  rintro (h | h)
  · exact absurd (mem_filler h) (by decide)
  · exact leakUrl.newline_notMem_bytes h

/-- Without a newline nothing is joined. -/
theorem notJoined_cleanStream : NotJoined leakUrl.key cleanStream := by
  intro x y hxy
  rw [dropNewlines_of_notMem newline_notMem_cleanStream] at hxy
  refine ⟨x, y, hxy, dropNewlines_of_notMem fun hmem => newline_notMem_cleanStream ?_⟩
  rw [hxy]
  exact List.mem_append_left _ hmem

/-- The window ends in the beginning of the URL. -/
theorem window_cleanStream : window leakUrl.bytes cleanStream =
    filler 4112 ++ leakUrl.bytes.take 15 := by
  have hlen : maxLineLen + leakUrl.bytes.length = (filler 4112).length + 15 := by
    rw [length_filler]
    decide
  rw [window, cleanStream, hlen, List.take_length_add_append]

theorem redact_clean_window :
    redactLine leakUrl.bytes (window leakUrl.bytes cleanStream) =
      filler 4112 ++ leakUrl.bytes.take 15 := by
  have htail : redactLine leakUrl.bytes (leakUrl.bytes.take 15) = leakUrl.bytes.take 15 := by decide
  rw [window_cleanStream, redactLine_filler, htail]

theorem cleanCut_cleanStream :
    CleanCut leakUrl.bytes (window leakUrl.bytes cleanStream) cleanStream 4112 := by
  have hfront : (window leakUrl.bytes cleanStream).take 4112 = filler 4112 := by
    rw [window_cleanStream, List.take_left' (length_filler 4112)]
  have hkept : redactLine leakUrl.bytes (filler 4112) = filler 4112 := by
    have hnil := redactLine_filler 4112 []
    rw [List.append_nil] at hnil
    rw [hnil]
    exact List.append_nil _
  refine ⟨?_, fun i hi hpre => absurd hpre (not_prefix_filler _ hi), ?_, .inr ?_⟩
  · rw [hfront]
    exact noOverlap_filler 4112
  · rw [redact_clean_window, hfront, hkept, window_cleanStream,
      List.drop_left' (length_filler 4112)]
  · rw [hfront, hkept, length_filler]
    decide

/-- After the forced split the URL is whole. -/
theorem loopStep_cleanStream : loopStep leakUrl.bytes cleanStream =
    some (filler maxLineLen, filler 16 ++ leakUrl.bytes) := by
  have hge : ¬ cleanStream.length < maxLineLen + leakUrl.bytes.length := by
    rw [cleanStream, List.length_append, length_filler]
    exact Nat.not_lt.mpr (Nat.add_le_add_right (by decide) _)
  have hsplit : filler 4112 ++ leakUrl.bytes.take 15 =
      filler maxLineLen ++ (filler 16 ++ leakUrl.bytes.take 15) := by
    rw [← List.append_assoc, filler, filler, filler, List.replicate_append_replicate]
    rfl
  have hdrop : cleanStream.drop (maxLineLen + leakUrl.bytes.length) = leakUrl.bytes.drop 15 := by
    have hlen : maxLineLen + leakUrl.bytes.length = (filler 4112).length + 15 := by
      rw [length_filler]
      decide
    rw [cleanStream, hlen, List.drop_length_add_append]
  rw [loopStep, dropWhile_of_notMem newline_notMem_cleanStream]
  dsimp only
  rw [if_neg hge, redact_clean_window, hdrop, hsplit, List.take_left' (length_filler _),
    List.drop_left' (length_filler _), List.append_assoc, List.take_append_drop]

/-- The key is kept, though the end of the window cuts its URL. -/
theorem sink_keeps_secret_cut :
    (machine leakUrl.bytes).Always
      (fun c => ¬ leakUrl.key <:+: c.lines.flatten ∧ ∀ line ∈ c.lines, ¬ leakUrl.key <:+: line)
      (start cleanStream) [.feed 4143, .iterate, .flush] := by
  have hall : cleanStream.length = 4143 := by
    rw [cleanStream, List.length_append, length_filler]
    decide
  have hfeed : (machine leakUrl.bytes).step (start cleanStream) (.feed 4143) =
      some ⟨cleanStream, [], []⟩ := step_feed_all _ hall.le
  have hsplit : (machine leakUrl.bytes).step ⟨cleanStream, [], []⟩ .iterate =
      some ⟨filler 16 ++ leakUrl.bytes, [], [filler maxLineLen]⟩ := by
    rw [step_machine, step, loopStep_cleanStream]
    rfl
  have hflush : SafeStep leakUrl.bytes ⟨filler 16 ++ leakUrl.bytes, [], [filler maxLineLen]⟩
      .flush := by
    have hsmall : NoOverlap leakUrl.bytes (filler 16 ++ leakUrl.bytes) := by decide +kernel
    exact hsmall
  have hlast : (machine leakUrl.bytes).Meets (SafeStep leakUrl.bytes)
      ⟨filler 16 ++ leakUrl.bytes, [], [filler maxLineLen]⟩ [.flush] :=
    ⟨hflush, fun _ _ => trivial⟩
  have hcut : (machine leakUrl.bytes).Meets (SafeStep leakUrl.bytes) ⟨cleanStream, [], []⟩
      [.iterate, .flush] := by
    refine Machine.meets_cons_of_step ?_ hsplit hlast
    rw [SafeStep, if_neg newline_notMem_cleanStream, List.append_nil]
    refine ⟨4112, ?_, cleanCut_cleanStream⟩
    rw [window_cleanStream, List.length_append, length_filler]
    exact Nat.le_add_right _ _
  have hmeets : (machine leakUrl.bytes).Meets (SafeStep leakUrl.bytes) (start cleanStream)
      [.feed 4143, .iterate, .flush] := Machine.meets_cons_of_step trivial hfeed hcut
  have honly : OnlyInUrls leakUrl.bytes leakUrl.key cleanStream := by
    have hstar : star ∉ leakUrl.key := by decide
    have hne : leakUrl.key ≠ [] := by decide
    exact onlyInUrls_of_inside leakUrl.bytes_ne leakUrl.newline_notMem_bytes hstar hne
      insideUrls_cleanStream notJoined_cleanStream noOverlap_cleanStream
  exact sink_keeps_secret leakUrl leakUrl.key _ _ (List.suffix_refl _) (by decide) honly
    (by decide) hmeets

end Leak

end Redaction

end RestreamPlus
