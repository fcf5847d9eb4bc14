import RestreamPlus.Fanout.RedactionTermination

/-!
# How long a line gets

A line is emitted as it is redacted: the URL of the worker becomes the placeholder, and so
does a key at the end of another RTMP URL, which may be shorter. `length_redactLine` counts
what comes and goes, in the line with the URLs of the worker masked, and `Fits` says in these
numbers that a line stays below the cap.

`framed_iff` says with it which streams the framing laws hold for. The unfinished line at the
end is what is left of it when `flush` finds it: all of it if it never filled the buffer, and a
known rest if the sink has cut it but changed nothing in it. Otherwise the sink has moved its
own cuts, and what counts is the buffer that `flush` finds.
-/

namespace RestreamPlus

open Replace Interleaving

namespace Redaction

/-! ## Counting -/

/-- The scan behind `tailKeys`. -/
def tailKeysFrom : ℕ → Bytes → List Bytes
  | _, [] => []
  | n + 1, _ :: t => tailKeysFrom n t
  | 0, c :: t =>
    match matchTail (c :: t) with
    | some (path, key, _) => key :: tailKeysFrom (path.length + key.length - 1) t
    | none => tailKeysFrom 0 t

/-- The keys at the end of RTMP URLs in a text. -/
def tailKeys (l : Bytes) : List Bytes := tailKeysFrom 0 l

/-- A text with every occurrence of the URL masked. -/
def masked (url l : Bytes) : Bytes := replaceAll url [star] l

/-- **A line that stays below the cap**: its URLs and keys, each as long as the placeholder. -/
def Fits (url line : Bytes) : Prop :=
  line.length +
      placeholder.length * (occurrences url line + (tailKeys (masked url line)).length) ≤
    maxLineLen + url.length * occurrences url line + (tailKeys (masked url line)).flatten.length

instance (url line : Bytes) : Decidable (Fits url line) := inferInstanceAs (Decidable (_ ≤ _))

theorem tailKeysFrom_drop (n : ℕ) (l : Bytes) : tailKeysFrom n l = tailKeys (l.drop n) := by
  induction l generalizing n with
  | nil => cases n <;> rfl
  | cons c t ih =>
    cases n with
    | zero => rfl
    | succ n => exact ih n

theorem tailKeys_cons {c : UInt8} {t : Bytes} (h : matchTail (c :: t) = none) :
    tailKeys (c :: t) = tailKeys t := by
  rw [tailKeys, tailKeysFrom, h]
  rfl

theorem tailKeys_of_match {l path key rest : Bytes} (h : matchTail l = some (path, key, rest)) :
    tailKeys l = key :: tailKeys rest := by
  obtain ⟨hl, hne⟩ := matchTail_spec h
  obtain ⟨c, p, rfl⟩ := List.exists_cons_of_ne_nil hne
  rw [List.cons_append] at hl
  rw [hl] at h ⊢
  rw [tailKeys, tailKeysFrom, h]
  dsimp only
  rw [tailKeysFrom_drop, show (c :: p).length + key.length - 1 = p.length + key.length by
    rw [List.length_cons]; omega, ← List.drop_drop, List.drop_left, List.drop_left]

/-- Without an `r` there is no key. -/
theorem tailKeys_append {p : Bytes} (h : (114 : UInt8) ∉ p) (l : Bytes) :
    tailKeys (p ++ l) = tailKeys l := by
  induction p with
  | nil => rfl
  | cons c p ih =>
    rw [List.mem_cons, not_or] at h
    rw [List.cons_append, tailKeys_cons (matchTail_of_ne (Ne.symm h.1) _), ih h.2]

/-- **The second pass** puts a placeholder in the place of every key. -/
theorem length_subTail (l : Bytes) : (subTail l).length + (tailKeys l).flatten.length =
    l.length + placeholder.length * (tailKeys l).length := by
  induction l using tail_induction with
  | nil => rfl
  | pass c t hm ih =>
    rw [subTail_cons hm, tailKeys_cons hm, List.length_cons, List.length_cons]
    omega
  | found path key rest hm ih =>
    rw [subTail_of_match hm, tailKeys_of_match hm, List.flatten_cons, List.length_cons]
    simp only [List.length_append]
    rw [Nat.mul_succ]
    omega

/-! ## The mask -/

/-- The same text, with some stars in the place of placeholders. -/
inductive Masks : Bytes → Bytes → Prop where
  | nil : Masks [] []
  | keep {l m : Bytes} (c : UInt8) : Masks l m → Masks (c :: l) (c :: m)
  | mask {l m : Bytes} : Masks l m → Masks (placeholder ++ l) (star :: m)

theorem masks_masked {url : Bytes} (hurl : url ≠ []) (l : Bytes) :
    Masks (replaceAll url placeholder l) (masked url l) := by
  induction l using scan_induction hurl with
  | nil => exact .nil
  | found t ih =>
    rw [masked, replaceAll_append hurl, replaceAll_append hurl]
    exact .mask ih
  | pass c t hpre ih =>
    rw [masked, replaceAll_cons _ hpre, replaceAll_cons _ hpre]
    exact .keep c ih

section Masks

variable {l m : Bytes}

theorem Masks.prefix_iff {p : Bytes} (h : Masks l m) (hp : star ∉ p) :
    (p <+: l ↔ p <+: m) ∧ (p <+: l → Masks (l.drop p.length) (m.drop p.length)) := by
  induction p generalizing l m with
  | nil => exact ⟨iff_of_true List.nil_prefix List.nil_prefix, fun _ => h⟩
  | cons c p ih =>
    rw [List.mem_cons, not_or] at hp
    cases h with
    | nil => exact ⟨Iff.rfl, fun _ => .nil⟩
    | keep d h =>
      obtain ⟨hiff, hdrop⟩ := ih h hp.2
      rw [List.cons_prefix_cons, List.cons_prefix_cons, hiff]
      exact ⟨Iff.rfl, fun hpre => hdrop (hiff.mpr hpre.2)⟩
    | mask h =>
      -- both texts begin with a star
      have hno : ∀ t : Bytes, ¬ c :: p <+: star :: t := fun t hpre =>
        hp.1 (List.cons_prefix_cons.mp hpre).1.symm
      exact ⟨iff_of_false (hno _) (hno _), fun hpre => absurd hpre (hno _)⟩

/-- What a class of bytes takes, with the star or without. -/
theorem Masks.takeWhile {p : UInt8 → Bool} (h : Masks l m)
    (hp : p star = true → ∀ b ∈ placeholder, p b = true) :
    Masks (l.takeWhile p) (m.takeWhile p) ∧ Masks (l.dropWhile p) (m.dropWhile p) := by
  induction h with
  | nil => exact ⟨.nil, .nil⟩
  | keep c h ih =>
    rw [List.takeWhile_cons, List.takeWhile_cons, List.dropWhile_cons, List.dropWhile_cons]
    split
    · exact ⟨ih.1.keep c, ih.2⟩
    · exact ⟨.nil, h.keep c⟩
  | mask h ih =>
    rw [List.takeWhile_cons, List.dropWhile_cons]
    split
    · rename_i hstar
      rw [List.takeWhile_append_of_pos (hp hstar), List.dropWhile_append_of_pos (hp hstar)]
      exact ⟨ih.1.mask, ih.2⟩
    · rename_i hstar
      have hhead : ∀ t : Bytes, (placeholder ++ t).takeWhile p = [] ∧
          (placeholder ++ t).dropWhile p = placeholder ++ t := fun t =>
        ⟨List.takeWhile_cons_of_neg hstar, List.dropWhile_cons_of_neg hstar⟩
      rw [(hhead _).1, (hhead _).2]
      exact ⟨.nil, h.mask⟩

theorem Masks.eq_of_notMem (h : Masks l m) (hm : star ∉ m) : l = m := by
  induction h with
  | nil => rfl
  | keep c h ih => rw [ih fun hmem => hm (List.mem_cons_of_mem c hmem)]
  | mask h => exact absurd List.mem_cons_self hm

theorem Masks.eq_nil_iff (h : Masks l m) : l = [] ↔ m = [] := by
  cases h with
  | nil => exact Iff.rfl
  | keep | mask => exact iff_of_false (by rintro ⟨⟩) (by rintro ⟨⟩)

/-- A part of the expression does with both texts alike: what is left is the same text. -/
def Alike {α : Type} (rest : α → Bytes) : Option α → Option α → Prop
  | none, none => True
  | some a, some b => Masks (rest a) (rest b)
  | _, _ => False

theorem Alike.cases {α : Type} {rest : α → Bytes} {o o' : Option α} (h : Alike rest o o') :
    (o = none ∧ o' = none) ∨ ∃ a b, o = some a ∧ o' = some b ∧ Masks (rest a) (rest b) := by
  cases o with
  | none =>
    cases o' with
    | none => exact .inl ⟨rfl, rfl⟩
    | some b => exact h.elim
  | some a =>
    cases o' with
    | none => exact h.elim
    | some b => exact .inr ⟨a, b, rfl, rfl, h⟩

theorem Masks.matchScheme (h : Masks l m) :
    Alike Prod.snd (Redaction.matchScheme l) (Redaction.matchScheme m) := by
  obtain ⟨hiff₁, hdrop₁⟩ := h.prefix_iff (p := ascii "rtmps://") (by decide)
  obtain ⟨hiff₂, hdrop₂⟩ := h.prefix_iff (p := ascii "rtmp://") (by decide)
  rw [Redaction.matchScheme, Redaction.matchScheme]
  simp only [← hiff₁, ← hiff₂]
  split
  · rename_i hpre
    exact hdrop₁ hpre
  · split
    · rename_i hpre
      exact hdrop₂ hpre
    · trivial

theorem Masks.matchSegment (h : Masks l m) :
    Alike Prod.snd (Redaction.matchSegment l) (Redaction.matchSegment m) := by
  obtain ⟨htake, hdrop⟩ := h.takeWhile (p := isPathByte) (by decide +kernel)
  rw [Redaction.matchSegment, Redaction.matchSegment]
  simp only [htake.eq_nil_iff]
  split
  · trivial
  · generalize hl : l.dropWhile isPathByte = l' at hdrop
    generalize m.dropWhile isPathByte = m' at hdrop
    cases hdrop with
    | nil => trivial
    | keep c h =>
      dsimp only
      split
      · exact h
      · trivial
    | mask h =>
      -- a star is part of the segment
      have hhead := List.head_dropWhile_not isPathByte (l := l)
        (by rw [hl]; exact List.cons_ne_nil _ _)
      simp only [hl] at hhead
      have hstar : isPathByte star = false := hhead
      exact absurd hstar (by decide)

/-- **The expression finds the same keys.** -/
theorem Masks.matchTail (h : Masks l m) :
    (Redaction.matchTail l = none ∧ Redaction.matchTail m = none) ∨
      ∃ path path' key rest rest', Redaction.matchTail l = some (path, key, rest) ∧
        Redaction.matchTail m = some (path', key, rest') ∧ Masks rest rest' := by
  rw [Redaction.matchTail, Redaction.matchTail]
  rcases h.matchScheme.cases with ⟨hl, hm⟩ | ⟨scheme, scheme', hl, hm, h₁⟩
  · rw [hl, hm]
    exact .inl ⟨rfl, rfl⟩
  rcases h₁.matchSegment.cases with ⟨hl₁, hm₁⟩ | ⟨host, host', hl₁, hm₁, h₂⟩
  · simp only [hl, hm, hl₁, hm₁, Option.bind_eq_bind, Option.bind_some, Option.bind_none]
    exact .inl ⟨trivial, trivial⟩
  rcases h₂.matchSegment.cases with ⟨hl₂, hm₂⟩ | ⟨app, app', hl₂, hm₂, h₃⟩
  · simp only [hl, hm, hl₁, hm₁, hl₂, hm₂, Option.bind_eq_bind, Option.bind_some, Option.bind_none]
    exact .inl ⟨trivial, trivial⟩
  -- the star ends a key
  obtain ⟨htake, hdrop⟩ := h₃.takeWhile (p := isKeyByte) fun hstar => absurd hstar (by decide)
  have hkey := htake.eq_of_notMem fun hmem =>
    absurd (List.mem_takeWhile_imp hmem) (by decide : ¬ isKeyByte star = true)
  simp only [hl, hm, hl₁, hm₁, hl₂, hm₂, Option.bind_eq_bind, Option.bind_some, hkey]
  split
  · exact .inr ⟨_, _, _, _, _, rfl, rfl, hdrop⟩
  · exact .inl ⟨rfl, rfl⟩

/-- **Masked or replaced**, a URL of the worker hides no other key. -/
theorem Masks.tailKeys (h : Masks l m) : Redaction.tailKeys l = Redaction.tailKeys m := by
  induction hn : l.length using Nat.strong_induction_on generalizing l m with
  | _ n ih =>
    rcases h.matchTail with ⟨hl, hm⟩ | ⟨path, path', key, rest, rest', hl, hm, hrest⟩
    · cases h with
      | nil => rfl
      | keep c h =>
        rw [tailKeys_cons hl, tailKeys_cons hm]
        exact ih _ (by rw [← hn]; exact Nat.lt_succ_self _) h rfl
      | mask h =>
        rw [tailKeys_append (by decide), tailKeys_cons hm]
        exact ih _ (by rw [← hn, List.length_append]; exact Nat.lt_add_of_pos_left (by decide)) h
          rfl
    · obtain ⟨rfl, hne⟩ := matchTail_spec hl
      have hpos := List.length_pos_iff.mpr hne
      rw [tailKeys_of_match hl, tailKeys_of_match hm,
        ih _ (by rw [← hn, List.length_append, List.length_append]; omega) hrest rfl]

end Masks

/-- **How long a line is as it is emitted**: its keys and URLs go, placeholders come. -/
theorem length_redactLine {url : Bytes} (hurl : url ≠ []) (line : Bytes) :
    (redactLine url line).length + url.length * occurrences url line +
        (tailKeys (masked url line)).flatten.length =
      line.length +
        placeholder.length * (occurrences url line + (tailKeys (masked url line)).length) := by
  have hfirst := length_replaceAll hurl placeholder line
  have hsecond := length_subTail (replaceAll url placeholder line)
  rw [← redactLine_eq, (masks_masked hurl line).tailKeys] at hsecond
  rw [Nat.mul_add]
  omega

theorem fits_iff {url : Bytes} (hurl : url ≠ []) (line : Bytes) :
    Fits url line ↔ (redactLine url line).length ≤ maxLineLen := by
  have hlength := length_redactLine hurl line
  rw [Fits]
  omega

/-! ## Text without secrets -/

/-- There is nothing to redact. -/
def Untouched (url l : Bytes) : Prop := ¬ url <:+: l ∧ tailKeys l = []

instance (url l : Bytes) : Decidable (Untouched url l) := inferInstanceAs (Decidable (_ ∧ _))

theorem tailKeys_eq_nil_iff (l : Bytes) :
    tailKeys l = [] ↔ ∀ t, t <:+ l → matchTail t = none := by
  induction l using tail_induction with
  | nil =>
    refine iff_of_true rfl fun t ht => ?_
    rw [List.suffix_nil.mp ht]
    rfl
  | pass c t hm ih =>
    rw [tailKeys_cons hm, ih]
    refine ⟨fun h t' ht => ?_, fun h t' ht => h t' (ht.trans (List.suffix_cons c t))⟩
    rcases List.suffix_cons_iff.mp ht with rfl | ht
    · exact hm
    · exact h t' ht
  | found path key rest hm ih =>
    rw [tailKeys_of_match hm]
    refine iff_of_false (List.cons_ne_nil _ _) fun h => ?_
    have hnone := h _ (List.suffix_refl _)
    rw [hm] at hnone
    cases hnone

section Longer

variable {l : Bytes}

theorem matchScheme_append {s r : Bytes} (h : matchScheme l = some (s, r)) (t : Bytes) :
    matchScheme (l ++ t) = some (s, r ++ t) := by
  have hl := matchScheme_spec h
  rw [matchScheme] at h ⊢
  split at h
  · obtain ⟨rfl, -⟩ := Prod.mk.inj (Option.some.inj h)
    rw [hl, List.append_assoc, if_pos (List.prefix_append _ _)]
    rfl
  · split at h
    · obtain ⟨rfl, -⟩ := Prod.mk.inj (Option.some.inj h)
      have hno : ¬ ascii "rtmps://" <+: ascii "rtmp://" ++ (r ++ t) := by
        intro hpre
        have hprefix := List.prefix_of_prefix_length_le (List.prefix_append _ (r ++ t))
          (hpre.trans (List.prefix_refl _)) (by decide)
        exact absurd hprefix (by decide)
      rw [hl, List.append_assoc, if_neg hno, if_pos (List.prefix_append _ _)]
      rfl
    · cases h

theorem matchSegment_append {s r : Bytes} (h : matchSegment l = some (s, r)) (t : Bytes) :
    matchSegment (l ++ t) = some (s, r ++ t) := by
  rw [matchSegment] at h
  split at h
  · cases h
  · rename_i hne
    split at h
    · rename_i b rest hdrop
      split at h
      · rename_i hslash
        subst hslash
        obtain ⟨rfl, rfl⟩ := Prod.mk.inj (Option.some.inj h)
        -- the slash ends the segment, whatever follows
        have hl : l ++ t = l.takeWhile isPathByte ++ slash :: (rest ++ t) := by
          conv_lhs => rw [← List.takeWhile_append_dropWhile (p := isPathByte) (l := l), hdrop]
          rw [List.append_assoc, List.cons_append]
        have hall : ∀ b ∈ l.takeWhile isPathByte, isPathByte b = true := fun b hb =>
          List.mem_takeWhile_imp hb
        have htake : (l ++ t).takeWhile isPathByte = l.takeWhile isPathByte := by
          rw [hl, List.takeWhile_append_of_pos hall, List.takeWhile_cons_of_neg (by decide),
            List.append_nil]
        have hdrop' : (l ++ t).dropWhile isPathByte = slash :: (rest ++ t) := by
          rw [hl, List.dropWhile_append_of_pos hall, List.dropWhile_cons_of_neg (by decide)]
        rw [matchSegment, htake, if_neg hne, hdrop']
        rfl
      · cases h
    · cases h

/-- **More bytes** end no match. -/
theorem matchTail_append (h : matchTail l ≠ none) (t : Bytes) : matchTail (l ++ t) ≠ none := by
  obtain ⟨r, hr⟩ := Option.ne_none_iff_exists'.mp h
  obtain ⟨⟨scheme, l₁⟩, hs, hr⟩ := Option.bind_eq_some_iff.mp hr
  obtain ⟨⟨host, l₂⟩, hh, hr⟩ := Option.bind_eq_some_iff.mp hr
  obtain ⟨⟨app, l₃⟩, ha, hr⟩ := Option.bind_eq_some_iff.mp hr
  dsimp only at hh ha hr
  split at hr
  · rename_i hlen
    have hlonger : 8 ≤ ((l₃ ++ t).takeWhile isKeyByte).length := by
      refine hlen.trans (List.IsPrefix.length_le ?_)
      rw [List.takeWhile_append]
      split
      · exact (List.takeWhile_prefix _).trans (List.prefix_append _ _)
      · exact List.prefix_refl _
    rw [matchTail, matchScheme_append hs t]
    simp only [Option.bind_eq_bind, Option.bind_some, matchSegment_append hh t,
      matchSegment_append ha t]
    rw [if_pos hlonger]
    exact Option.some_ne_none _
  · cases hr

theorem Untouched.of_infix {url z : Bytes} (h : Untouched url l) (hz : z <:+: l) :
    Untouched url z := by
  refine ⟨fun hurl => h.1 (hurl.trans hz), (tailKeys_eq_nil_iff z).mpr fun t ht => ?_⟩
  obtain ⟨a, b, rfl⟩ := hz
  by_contra hmatch
  refine matchTail_append hmatch b ((tailKeys_eq_nil_iff _).mp h.2 _ ?_)
  obtain ⟨c, rfl⟩ := ht
  exact ⟨a ++ c, by simp only [List.append_assoc]⟩

theorem Untouched.redactLine {url : Bytes} (h : Untouched url l) :
    Redaction.redactLine url l = l := by
  rw [Redaction.redactLine, if_neg h.1]
  have hkeys := h.2
  clear h
  induction l using tail_induction with
  | nil => rfl
  | pass c t hm ih =>
    rw [tailKeys_cons hm] at hkeys
    rw [subTail_cons hm, ih hkeys]
  | found path key rest hm ih =>
    rw [tailKeys_of_match hm] at hkeys
    cases hkeys

end Longer

/-! ## What `flush` finds -/

section Leftover

variable {url y rest stream : Bytes} {cut : List Bytes} {c c' : Sink}

/-- Cuts of a text without secrets take `MAX_LINE_LEN` bytes each. -/
theorem Drains.untouched (h : Drains url y cut rest) (hy : newline ∉ y) (hun : Untouched url y)
    (hle : url.length ≤ y.length) :
    rest <:+ y ∧ rest.length = url.length + (y.length - url.length) % maxLineLen := by
  induction h with
  | @stop y hnone =>
    have hlt : y.length < maxLineLen + url.length := by
      by_contra hlong
      rw [loopStep_long hy (not_lt.mp hlong)] at hnone
      cases hnone
    refine ⟨List.suffix_refl y, ?_⟩
    rw [Nat.mod_eq_of_lt (by omega)]
    omega
  | @pass y line y' rest cut hstep hd ih =>
    have hlong : maxLineLen + url.length ≤ y.length := by
      by_contra hlt
      rw [loopStep_short hy (not_le.mp hlt)] at hstep
      cases hstep
    have hwindow : redactLine url (window url y) = window url y :=
      (hun.of_infix (List.take_prefix _ y).isInfix).redactLine
    obtain rfl : y.drop maxLineLen = y' := by
      rw [loopStep_long hy hlong, hwindow] at hstep
      have hsame := congrArg Prod.snd (Option.some.inj hstep)
      dsimp only at hsame
      rw [← hsame, window, List.drop_take, ← List.drop_drop, Nat.add_sub_cancel_left,
        List.take_append_drop]
    have hsuffix := List.drop_suffix maxLineLen y
    obtain ⟨hrest, hlength⟩ := ih (fun hmem => hy (hsuffix.mem hmem))
      (hun.of_infix hsuffix.isInfix) (by rw [List.length_drop]; omega)
    refine ⟨hrest.trans hsuffix, hlength.trans ?_⟩
    have hsub : y.length - url.length = y.length - maxLineLen - url.length + maxLineLen := by omega
    rw [List.length_drop, hsub, Nat.add_mod_right]

/-- The buffer is on the way to what is left of the bytes so far, or has been flushed. -/
def Leaves (url stream : Bytes) (c : Sink) : Prop :=
  (c.unfed = [] ∧ c.buf = []) ∨
    ∃ p cut rest out, p ++ c.unfed = stream ∧ Drains url (splitLines p).2 cut rest ∧
      Drains url c.buf out rest

theorem leaves_start (url stream : Bytes) : Leaves url stream (start stream) :=
  .inr ⟨[], [], [], [], rfl, .stop (loopStep_nil url), .stop (loopStep_nil url)⟩

/-- **One step of the sink.** -/
theorem Leaves.step {a : Label} (hurl : 14 ≤ url.length)
    (hshort : ∀ x ∈ (splitLines stream).1, x.length < maxLineLen + url.length)
    (h : Leaves url stream c) (hs : (machine url).step c a = some c') : Leaves url stream c' := by
  rw [step_machine, Redaction.step.eq_def] at hs
  cases a with
  | feed n =>
    dsimp only at hs
    split at hs
    · rename_i hnone
      obtain rfl := Option.some.inj hs
      rcases h with ⟨hunfed, hbuf⟩ | ⟨p, cut, rest, out, rfl, hlast, hd⟩
      · refine .inl ⟨?_, ?_⟩ <;> simp [hunfed, hbuf]
      · obtain ⟨-, rfl⟩ := hd.unique (.stop hnone)
        have hsplit : p ++ c.unfed = (p ++ c.unfed.take n) ++ c.unfed.drop n := by
          rw [List.append_assoc, List.take_append_drop]
        obtain ⟨cut', rest', hlast', -⟩ :=
          drains_of_long hurl (splitLines (p ++ c.unfed.take n)).2
        obtain ⟨out', hout, -⟩ := drains_chunk
          (fun x hx => hshort x (hsplit ▸ mem_splitLines_append _ hx)) hlast hlast'
        exact .inr ⟨_, cut', rest', out', hsplit.symm, hlast', hout⟩
    · cases hs
  | iterate =>
    obtain ⟨⟨line, buf'⟩, hstep, rfl⟩ := Option.map_eq_some_iff.mp hs
    rcases h with ⟨-, hbuf⟩ | ⟨p, cut, rest, out, hp, hlast, hd⟩
    · rw [hbuf, loopStep_nil] at hstep
      cases hstep
    · cases hd with
      | stop hnone =>
        rw [hstep] at hnone
        cases hnone
      | pass hstep' hd =>
        rw [hstep] at hstep'
        cases hstep'
        exact .inr ⟨p, cut, rest, _, hp, hlast, hd⟩
  | flush =>
    dsimp only at hs
    split at hs
    · rename_i hready
      split at hs <;> cases hs
      · rename_i hnil
        exact .inl ⟨hready.2, hnil⟩
      · exact .inl ⟨hready.2, rfl⟩
    · cases hs

/-- **What `flush` finds** is what is left of the unfinished line. -/
theorem buf_of_run (hurl : 14 ≤ url.length)
    (hshort : ∀ x ∈ (splitLines stream).1, x.length < maxLineLen + url.length)
    (hd : Drains url (splitLines stream).2 cut rest) {labels : List Label}
    (hrun : (machine url).run (start stream) labels = some c) (hunfed : c.unfed = [])
    (hnone : loopStep url c.buf = none) : c.buf = [] ∨ c.buf = rest := by
  have hleaves : Leaves url stream c := Machine.inv_run_of_step (I := Leaves url stream)
    (fun _ _ _ h hs => h.step hurl hshort hs) (leaves_start url stream) hrun
  rcases hleaves with ⟨-, hbuf⟩ | ⟨p, cut', rest', out, hp, hlast, hout⟩
  · exact .inl hbuf
  · rw [hunfed, List.append_nil] at hp
    subst hp
    obtain ⟨-, rfl⟩ := hout.unique (.stop hnone)
    exact .inr (hlast.unique hd).2

/-- Fed in one piece. -/
theorem exists_run (hd : Drains url (splitLines stream).2 cut rest) :
    ∃ labels lines, (machine url).run (start stream) labels = some ⟨rest, [], lines⟩ := by
  have hout := (drains_iff stream).mpr ⟨cut, hd, rfl⟩
  have hs : (machine url).step (start stream) (.feed stream.length) = some ⟨stream, [], []⟩ :=
    step_feed_all url le_rfl
  exact ⟨_, _, (Machine.run_cons_of_step _ hs).trans (run_of_drains hout [] [])⟩

/-- **What is left of the unfinished line stays below the cap**, when `flush` finds it. -/
def LastFits (url stream : Bytes) : Prop :=
  if (splitLines stream).2.length < maxLineLen + url.length then Fits url (splitLines stream).2
  else if Untouched url (splitLines stream).2 then
    url.length + ((splitLines stream).2.length - url.length) % maxLineLen ≤ maxLineLen
  else ∀ labels c, (machine url).run (start stream) labels = some c → c.unfed = [] →
    loopStep url c.buf = none → Fits url c.buf

theorem lastFits_iff (hurl : 14 ≤ url.length)
    (hshort : ∀ x ∈ (splitLines stream).1, x.length < maxLineLen + url.length)
    (hd : Drains url (splitLines stream).2 cut rest) : LastFits url stream ↔ Fits url rest := by
  have hne : url ≠ [] := by
    rintro rfl
    exact absurd hurl (by decide)
  have hlast := (notMem_splitLines stream).2
  rw [LastFits]
  split
  · rename_i hlt
    rw [(hd.unique (drains_short hlast hlt)).2]
  · rename_i hlong
    split
    · rename_i hun
      obtain ⟨hsuffix, hlength⟩ := hd.untouched hlast hun
        ((Nat.le_add_left _ _).trans (not_lt.mp hlong))
      rw [fits_iff hne, (hun.of_infix hsuffix.isInfix).redactLine, hlength]
    · refine ⟨fun h => ?_, fun h labels c hrun hunfed hnone => ?_⟩
      · obtain ⟨labels, lines, hrun⟩ := exists_run hd
        exact h labels _ hrun rfl hd.stopped
      · rcases buf_of_run hurl hshort hd hrun hunfed hnone with hbuf | hbuf <;> rw [hbuf]
        · rw [fits_iff hne, redactLine_nil]
          exact Nat.zero_le _
        · exact h

end Leftover

/-- **The framing laws hold** for the URL of a worker exactly when no complete line fills the
buffer and every line stays below the cap with its URLs and keys replaced, the one that `flush`
finds included. -/
theorem framed_iff (targetType : TargetType) (targetUrl key : Text) (role : WorkerRole)
    (url : Text) (h : composeOutUrl targetType targetUrl key role = .ok url)
    (hkey : 12 ≤ key.length) (stream : Bytes) :
    Framed (Utf8.encode url) stream ↔
      (∀ x ∈ (splitLines stream).1,
        x.length < maxLineLen + (Utf8.encode url).length ∧ Fits (Utf8.encode url) x) ∧
      LastFits (Utf8.encode url) stream := by
  have hurl := length_encode_composeOutUrl h hkey
  have hne : Utf8.encode url ≠ [] := fun hnil => by
    rw [hnil] at hurl
    exact absurd hurl (by decide)
  obtain ⟨cut, rest, hd, -⟩ := drains_of_long hurl (splitLines stream).2
  rw [framed_iff_redacted]
  refine ⟨fun ⟨hlines, cut', rest', hd', hrest⟩ => ?_, fun ⟨hlines, hlast⟩ => ?_⟩
  · refine ⟨fun x hx => ⟨(hlines x hx).1, (fits_iff hne x).mpr (hlines x hx).2⟩, ?_⟩
    exact (lastFits_iff hurl (fun x hx => (hlines x hx).1) hd').mpr ((fits_iff hne _).mpr hrest)
  · refine ⟨fun x hx => ⟨(hlines x hx).1, (fits_iff hne x).mp (hlines x hx).2⟩, cut, rest, hd, ?_⟩
    exact (fits_iff hne rest).mp
      ((lastFits_iff hurl (fun x hx => (hlines x hx).1) hd).mp hlast)

/-- Two lines and the beginning of a third, with the URL of the worker and a shorter key. -/
def keyLines : Bytes :=
  ascii "frame=1\n" ++ Utf8.encode "rtmp://live.twitch.tv/app/live_0123456789".toList ++
    ascii "\nrtmp://h/a/ABCDEFGH"

theorem framed_iff_twitch :
    composeOutUrl .twitch "rtmp://live.twitch.tv/app".toList "live_0123456789".toList .primary =
        .ok "rtmp://live.twitch.tv/app/live_0123456789".toList ∧
      Framed (Utf8.encode "rtmp://live.twitch.tv/app/live_0123456789".toList) keyLines := by
  have hurl : composeOutUrl .twitch "rtmp://live.twitch.tv/app".toList "live_0123456789".toList
      .primary = .ok "rtmp://live.twitch.tv/app/live_0123456789".toList := by decide
  refine ⟨hurl, (framed_iff .twitch _ _ .primary _ hurl (by decide) keyLines).mpr ⟨?_, ?_⟩⟩
  · decide +kernel
  · rw [LastFits, if_pos (by decide +kernel)]
    decide +kernel

end Redaction

end RestreamPlus
