import Mathlib.Data.List.TakeWhile
import RestreamPlus.Fanout.RedactionFraming
import RestreamPlus.Fanout.Urls
import RestreamPlus.Lib.Utf8

/-!
# The loop of `feed` ends

A forced split may put back more bytes than it took: the placeholder is six
bytes longer than the shortest key it replaces, and a window as wide as a long
URL has room for many. But the slash in front of a replaced key is followed by a
star from then on, and no key can begin there again. So the length of the buffer
and six bytes for every other slash (`potential`) is what goes down.

It does for every URL at least as long as the placeholder, which those of
`compose_out_url` are. How long they are else, and what is in the buffer, does
not matter.
-/

namespace RestreamPlus

open Replace

namespace Redaction

/-- A slash in front of this, unless it is a star. -/
def opens (b : UInt8) (next : Option UInt8) : ℕ :=
  if b = slash ∧ ∃ c ∈ next, c ≠ star then 1 else 0

/-- The slashes behind which a key could begin. -/
def openings : Bytes → ℕ
  | [] => 0
  | b :: t => opens b t.head? + openings t

/-- What the bytes can still grow to. -/
def potential (l : Bytes) : ℕ := l.length + 6 * openings l

/-! ## Openings -/

theorem opens_star (b : UInt8) : opens b (some star) = 0 := by
  refine if_neg ?_
  rintro ⟨-, c, hc, hne⟩
  exact hne (Option.some.inj hc).symm

theorem opens_slash {c : UInt8} (h : c ≠ star) : opens slash (some c) = 1 :=
  if_pos ⟨rfl, c, rfl, h⟩

theorem openings_of_noSlash {p : Bytes} (h : slash ∉ p) (l : Bytes) :
    openings (p ++ l) = openings l := by
  induction p with
  | nil => rfl
  | cons b p ih =>
    rw [List.mem_cons, not_or] at h
    have hb : opens b (p ++ l).head? = 0 := if_neg fun hs => h.1 hs.1.symm
    rw [List.cons_append, openings, hb, Nat.zero_add, ih h.2]

/-- Every byte in front counts. -/
theorem length_add_potential_le (p l : Bytes) : p.length + potential l ≤ potential (p ++ l) := by
  induction p with
  | nil => exact (Nat.zero_add _).le
  | cons b p ih =>
    simp only [potential, List.cons_append, List.length_cons, openings] at ih ⊢
    omega

/-! ## What may stand for what -/

/-- In front of every text, `l'` has no more potential than `l`, and opens no
slash that `l` does not open. -/
structure Tame (l l' : Bytes) : Prop where
  le : ∀ rest, potential (l' ++ rest) ≤ potential (l ++ rest)
  head : ∀ rest, (l' ++ rest).head? = (l ++ rest).head? ∨ (l' ++ rest).head? = some star

theorem Tame.refl (l : Bytes) : Tame l l := ⟨fun _ => le_rfl, fun _ => .inl rfl⟩

theorem Tame.trans {l l' l'' : Bytes} (h : Tame l l') (h' : Tame l' l'') : Tame l l'' := by
  refine ⟨fun rest => (h'.le rest).trans (h.le rest), fun rest => ?_⟩
  rcases h'.head rest with heq | hstar
  · rw [heq]
    exact h.head rest
  · exact .inr hstar

theorem Tame.cons {l l' : Bytes} (h : Tame l l') (b : UInt8) : Tame (b :: l) (b :: l') := by
  refine ⟨fun rest => ?_, fun rest => .inl rfl⟩
  have hle := h.le rest
  have hopens : opens b (l' ++ rest).head? ≤ opens b (l ++ rest).head? := by
    rcases h.head rest with heq | hstar
    · rw [heq]
    · rw [hstar, opens_star]
      exact Nat.zero_le _
  simp only [potential, List.cons_append, List.length_cons, openings] at hle ⊢
  omega

theorem Tame.append {l l' : Bytes} (h : Tame l l') (p : Bytes) : Tame (p ++ l) (p ++ l') := by
  induction p with
  | nil => exact h
  | cons b p ih => exact ih.cons b

theorem length_placeholder : placeholder.length = 14 := rfl

theorem slash_notMem_placeholder : slash ∉ placeholder := by decide

/-- The potential behind a placeholder. -/
theorem potential_placeholder (l : Bytes) : potential (placeholder ++ l) = 14 + potential l := by
  rw [potential, potential, openings_of_noSlash slash_notMem_placeholder, List.length_append,
    length_placeholder, Nat.add_assoc]

/-- A long word is replaced. -/
theorem Tame.placeholder {word l l' : Bytes} (h : Tame l l') (hlen : 14 ≤ word.length) :
    Tame (word ++ l) (placeholder ++ l') := by
  refine ⟨fun rest => ?_, fun rest => .inr rfl⟩
  have hle := h.le rest
  have hword := length_add_potential_le word (l ++ rest)
  rw [List.append_assoc, List.append_assoc, potential_placeholder]
  omega

/-- **A key is replaced**: the slash in front of it is closed. -/
theorem Tame.key {key l l' : Bytes} (h : Tame l l') (hlen : 8 ≤ key.length)
    (hkey : star ∉ key) :
    Tame (slash :: (key ++ l)) (slash :: (Redaction.placeholder ++ l')) := by
  refine ⟨fun rest => ?_, fun rest => .inl rfl⟩
  have hopen : opens slash (key ++ (l ++ rest)).head? = 1 := by
    obtain ⟨k, t, rfl⟩ := List.exists_cons_of_length_pos (Nat.lt_of_lt_of_le (by decide) hlen)
    exact opens_slash fun heq => hkey (heq ▸ List.mem_cons_self)
  have hclosed : opens slash (Redaction.placeholder ++ (l' ++ rest)).head? = 0 := opens_star slash
  have hle := h.le rest
  have hbehind := length_add_potential_le key (l ++ rest)
  have hstar := potential_placeholder (l' ++ rest)
  simp only [potential, List.cons_append, List.append_assoc, List.length_cons, openings, hopen,
    hclosed] at hle hbehind hstar ⊢
  omega

/-! ## The two passes -/

theorem tame_replaceAll {url : Bytes} (hurl : 14 ≤ url.length) (l : Bytes) :
    Tame l (replaceAll url placeholder l) := by
  have hne : url ≠ [] := by
    rintro rfl
    exact absurd hurl (by decide)
  induction l using scan_induction hne with
  | nil => exact Tame.refl []
  | found t ih =>
    rw [replaceAll_append hne]
    exact ih.placeholder hurl
  | pass c t hpre ih =>
    rw [replaceAll_cons _ hpre]
    exact ih.cons c

/-- A match is a path that ends with a slash, and a key. -/
theorem matchTail_key {l path key rest : Bytes} (h : matchTail l = some (path, key, rest)) :
    ∃ p, path = p ++ [slash] ∧ 8 ≤ key.length ∧ star ∉ key := by
  obtain ⟨⟨s, l₁⟩, hs, h⟩ := Option.bind_eq_some_iff.mp h
  obtain ⟨⟨host, l₂⟩, hh, h⟩ := Option.bind_eq_some_iff.mp h
  obtain ⟨⟨app, l₃⟩, ha, h⟩ := Option.bind_eq_some_iff.mp h
  dsimp only at ha h
  split at h
  · rename_i hlen
    cases h
    have hseg : ∃ p, app = p ++ [slash] := by
      rw [matchSegment] at ha
      split at ha
      · cases ha
      · split at ha
        · split at ha
          · cases ha
            exact ⟨_, rfl⟩
          · cases ha
        · cases ha
    obtain ⟨p, rfl⟩ := hseg
    refine ⟨s ++ (host ++ p), by simp only [List.append_assoc], hlen, fun hmem => ?_⟩
    have hstar : isKeyByte star = true := List.mem_takeWhile_imp hmem
    exact absurd hstar (by decide)
  · cases h

theorem tame_subTail (l : Bytes) : Tame l (subTail l) := by
  induction l using tail_induction with
  | nil => exact Tame.refl []
  | pass c t hm ih =>
    rw [subTail_cons hm]
    exact ih.cons c
  | found path key rest hm ih =>
    obtain ⟨p, rfl, hlen, hkey⟩ := matchTail_key hm
    rw [subTail_of_match hm]
    simp only [List.append_assoc, List.singleton_append]
    exact (ih.key hlen hkey).append p

theorem tame_redactLine {url : Bytes} (hurl : 14 ≤ url.length) (l : Bytes) :
    Tame l (redactLine url l) := by
  rw [redactLine_eq]
  exact (tame_replaceAll hurl l).trans (tame_subTail _)

/-- Something is left of a line. -/
theorem redactLine_ne {url l : Bytes} (hurl : 14 ≤ url.length) (hl : l ≠ []) :
    redactLine url l ≠ [] := by
  intro hnil
  obtain ⟨c, t, rfl⟩ := List.exists_cons_of_ne_nil hl
  have hhead := (tame_redactLine hurl (c :: t)).head []
  rw [hnil] at hhead
  rcases hhead with h | h <;> cases h

/-! ## The loop -/

/-- **Every pass lowers the potential.** -/
theorem potential_loopStep {url buf line buf' : Bytes} (hurl : 14 ≤ url.length)
    (h : loopStep url buf = some (line, buf')) : potential buf' < potential buf := by
  by_cases hnl : newline ∈ buf
  · obtain ⟨rest, hbuf, -, heq⟩ := loopStep_line hnl h
    obtain rfl : buf' = rest := congrArg Prod.snd heq
    have hle := length_add_potential_le (firstLine buf ++ [newline]) buf'
    rw [List.append_assoc, List.singleton_append, ← hbuf, List.length_append,
      List.length_singleton] at hle
    omega
  · have hle : maxLineLen + url.length ≤ buf.length := by
      by_contra hlt
      rw [loopStep_short hnl (not_le.mp hlt)] at h
      cases h
    have heq := loopStep_split hnl h
    obtain rfl : buf' = (redactLine url (window url buf)).drop maxLineLen ++
        buf.drop (maxLineLen + url.length) := congrArg Prod.snd heq
    have hwindow : window url buf ≠ [] := by
      rw [← List.length_pos_iff, window, List.length_take_of_le hle]
      exact Nat.add_pos_left (by decide) _
    have hsplit : buf = window url buf ++ buf.drop (maxLineLen + url.length) :=
      (List.take_append_drop _ buf).symm
    -- the redacted window has no more potential, and its front is emitted
    have htame := (tame_redactLine hurl (window url buf)).le (buf.drop (maxLineLen + url.length))
    have hfront := length_add_potential_le ((redactLine url (window url buf)).take maxLineLen)
      ((redactLine url (window url buf)).drop maxLineLen ++ buf.drop (maxLineLen + url.length))
    have hpos : 0 < ((redactLine url (window url buf)).take maxLineLen).length := by
      rw [List.length_take]
      exact Nat.lt_min.mpr ⟨by decide, List.length_pos_iff.mpr (redactLine_ne hurl hwindow)⟩
    rw [← List.append_assoc, List.take_append_drop] at hfront
    rw [← hsplit] at htame
    omega

/-- The loop ends on every buffer, after as many passes as the potential says at
most. -/
theorem drains_of_long {url : Bytes} (hurl : 14 ≤ url.length) (buf : Bytes) :
    ∃ out rest, Drains url buf out rest ∧ out.length ≤ potential buf := by
  induction hn : potential buf using Nat.strong_induction_on generalizing buf with
  | _ n ih =>
    rcases hs : loopStep url buf with _ | ⟨line, buf'⟩
    · exact ⟨[], buf, .stop hs, Nat.zero_le _⟩
    · have hlt := potential_loopStep hurl hs
      rw [hn] at hlt
      obtain ⟨out, rest, hd, hle⟩ := ih (potential buf') hlt buf' rfl
      exact ⟨line :: out, rest, .pass hs hd, hle.trans_lt hlt⟩

/-! ## The URLs of the workers -/

/-- A URL is more than its trailing slashes. -/
theorem length_stripEnd_pos {c : Char} (hc : c ≠ '/') (t : Text) :
    1 ≤ (stripEnd '/' (c :: t)).length := by
  have hmem : c ∈ stripEnd '/' (c :: t) := by
    rw [stripEnd, List.mem_reverse, List.reverse_cons]
    induction t.reverse with
    | nil =>
      rw [List.nil_append, List.dropWhile_cons_of_neg (by simpa using hc)]
      exact List.mem_singleton_self c
    | cons d l ih =>
      rw [List.cons_append, List.dropWhile_cons]
      split
      · exact ih
      · exact List.mem_cons_of_mem d (List.mem_append_right l (List.mem_singleton_self c))
  exact List.length_pos_of_mem hmem

theorem length_joinKey {c : Char} (hc : c ≠ '/') (t key : Text) :
    key.length + 2 ≤ (joinKey (c :: t) key).length := by
  have hpos := length_stripEnd_pos hc t
  rw [joinKey, List.length_append, List.length_cons]
  omega

/-- A worker URL is longer than its key. -/
theorem length_composeOutUrl {targetType : TargetType} {targetUrl key url : Text}
    {role : WorkerRole} (h : composeOutUrl targetType targetUrl key role = .ok url)
    (hkey : key ≠ []) : key.length + 2 ≤ url.length := by
  obtain ⟨hscheme, -, rfl⟩ := (composeOutUrl_eq_ok hkey).mp h
  obtain ⟨t, rfl⟩ : ∃ t, targetUrl = 'r' :: t := by
    rcases hscheme with ⟨t, rfl⟩ | ⟨t, rfl⟩ <;> exact ⟨_, rfl⟩
  have hr : 'r' ≠ '/' := by decide
  cases role with
  | primary => exact length_joinKey hr t key
  | backup =>
    have hhead : replaceFirst "a.rtmps.".toList "b.rtmps.".toList ('r' :: t) =
        'r' :: replaceFirst "a.rtmps.".toList "b.rtmps.".toList t := by
      rw [replaceFirst]
      exact if_neg fun hpre => absurd (List.cons_prefix_cons.mp hpre).1 (by decide)
    rw [outUrl, hhead, List.length_append]
    exact (length_joinKey hr _ key).trans (Nat.le_add_right _ _)

/-- It is at least as long as the placeholder. -/
theorem length_encode_composeOutUrl {targetType : TargetType} {targetUrl key url : Text}
    {role : WorkerRole} (h : composeOutUrl targetType targetUrl key role = .ok url)
    (hkey : 12 ≤ key.length) : 14 ≤ (Utf8.encode url).length := by
  have hne : key ≠ [] := by
    rintro rfl
    exact absurd hkey (by decide)
  have hlen := length_composeOutUrl h hne
  have hbytes := Utf8.length_le_encode url
  omega

/-- **The loop of `feed` ends** for the URL of every worker, whatever is buffered
and whatever comes. -/
theorem feed_terminates (targetType : TargetType) (targetUrl key : Text) (role : WorkerRole)
    (url : Text) (h : composeOutUrl targetType targetUrl key role = .ok url)
    (hkey : 12 ≤ key.length) (buf chunk : Bytes) :
    ∃ out rest, Drains (Utf8.encode url) (buf ++ chunk) out rest ∧
      out.length ≤ potential (buf ++ chunk) := by
  exact drains_of_long (length_encode_composeOutUrl h hkey) (buf ++ chunk)

/-- A URL whose key is shorter than the placeholder. -/
def shortKey : Bytes := ascii "rtmp://h/a/ABCDEFGH "

/-- Many of them, without a newline. -/
def shortKeys : Bytes := (List.replicate 300 shortKey).flatten

theorem length_shortKeys : shortKeys.length = 6000 := by
  rw [shortKeys, List.length_flatten, List.map_replicate, List.sum_replicate_nat]
  rfl

theorem newline_notMem_shortKeys : newline ∉ shortKeys := by
  intro h
  obtain ⟨l, hl, hmem⟩ := List.mem_flatten.mp h
  obtain rfl := List.eq_of_mem_replicate hl
  exact absurd hmem (by decide)

/-- A buffer that is to be split, in which every key grows. -/
theorem feed_terminates_twitch :
    composeOutUrl .twitch "rtmp://live.twitch.tv/app".toList "live_0123456789".toList .primary =
        .ok "rtmp://live.twitch.tv/app/live_0123456789".toList ∧
      (loopStep (Utf8.encode "rtmp://live.twitch.tv/app/live_0123456789".toList)
        (shortKeys ++ shortKey)).isSome ∧
      shortKey.length < (redactLine (Utf8.encode "rtmp://live.twitch.tv/app/live_0123456789".toList)
        shortKey).length ∧
      ∃ out rest, Drains (Utf8.encode "rtmp://live.twitch.tv/app/live_0123456789".toList)
        (shortKeys ++ shortKey) out rest ∧ out.length ≤ potential (shortKeys ++ shortKey) := by
  have hurl : composeOutUrl .twitch "rtmp://live.twitch.tv/app".toList "live_0123456789".toList
      .primary = .ok "rtmp://live.twitch.tv/app/live_0123456789".toList := by decide
  refine ⟨hurl, ?_, by decide, feed_terminates .twitch _ _ .primary _ hurl (by decide) _ _⟩
  have hnl : newline ∉ shortKeys ++ shortKey := by
    rw [List.mem_append, not_or]
    exact ⟨newline_notMem_shortKeys, by decide⟩
  have hlong : ¬ (shortKeys ++ shortKey).length < maxLineLen +
      (Utf8.encode "rtmp://live.twitch.tv/app/live_0123456789".toList).length := by
    rw [List.length_append, length_shortKeys]
    decide
  rw [loopStep, dropWhile_of_notMem hnl]
  dsimp only
  rw [if_neg hlong]
  rfl

end Redaction

end RestreamPlus
