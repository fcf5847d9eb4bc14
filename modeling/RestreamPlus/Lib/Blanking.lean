import RestreamPlus.Lib.Replace

/-!
# Hiding a word by replacing parts of a text

When parts of a text are overwritten by a fence, a text that starts and ends
with a mark the word `s` does not contain, no new occurrence of `s` can arise,
in whatever context the text stands: `Hides s l l'` says so of a text `l` and
its replacement `l'`, and is closed under concatenation.

`Blanks star url t m` says that `m` is `t` with some disjoint occurrences of
`url` overwritten by the single mark `star`. If the occurrences of `url` in a
text do not overlap, then replacing them from the left hides everything that
blanking any of them hides (`Blanks.hides_replaceAll`).
-/

namespace Replace

universe u

variable {α : Type u}

/-- In every context, `s` occurs in `l'` only where it occurs in `l`. -/
def Hides (s l l' : List α) : Prop := ∀ x y, s <:+: x ++ l' ++ y → s <:+: x ++ l ++ y

theorem Hides.refl (s l : List α) : Hides s l l := fun _ _ h => h

theorem Hides.trans {s l l' l'' : List α} (h : Hides s l l') (h' : Hides s l' l'') :
    Hides s l l'' :=
  fun x y hs => h x y (h' x y hs)

theorem Hides.append {s l₁ l₁' l₂ l₂' : List α} (h₁ : Hides s l₁ l₁') (h₂ : Hides s l₂ l₂') :
    Hides s (l₁ ++ l₂) (l₁' ++ l₂') := by
  intro x y hs
  have h := h₂ (x ++ l₁') y (by simpa only [List.append_assoc] using hs)
  have h' := h₁ x (l₂ ++ y) (by simpa only [List.append_assoc] using h)
  simpa only [List.append_assoc] using h'

theorem Hides.cons {s l l' : List α} (c : α) (h : Hides s l l') : Hides s (c :: l) (c :: l') :=
  (Hides.refl s [c]).append h

/-- A word without the mark lies on one side of it. -/
theorem infix_of_infix_mark {s a b : List α} {star : α} (hs : star ∉ s)
    (h : s <:+: a ++ star :: b) : s <:+: a ∨ s <:+: b := by
  obtain ⟨u, v, huv⟩ := h
  rw [List.append_assoc] at huv
  rcases List.append_eq_append_iff.mp huv with ⟨e, rfl, he⟩ | ⟨e, rfl, he⟩
  · rcases List.append_eq_append_iff.mp he with ⟨e', rfl, he'⟩ | ⟨e', rfl, he'⟩
    · exact .inl ⟨u, e', by rw [List.append_assoc]⟩
    · rcases e' with _ | ⟨d, e'⟩
      · exact .inl ⟨u, [], by simp⟩
      · obtain rfl : star = d := (List.cons.inj he').1
        exact absurd (List.mem_append_right e List.mem_cons_self) hs
  · rcases e with _ | ⟨d, e⟩
    · rcases s with _ | ⟨d, s⟩
      · exact .inl (List.nil_infix)
      · obtain rfl : star = d := (List.cons.inj he).1
        exact absurd List.mem_cons_self hs
    · exact .inr ⟨e, v, by rw [List.append_assoc, (List.cons.inj he).2]; rfl⟩

theorem infix_left {s x l y : List α} (h : s <:+: x) : s <:+: x ++ l ++ y :=
  h.trans ⟨[], l ++ y, by simp⟩

theorem infix_right {s x l y : List α} (h : s <:+: y) : s <:+: x ++ l ++ y :=
  h.trans ⟨x ++ l, [], by simp⟩

/-- Overwriting by a fence that does not contain the word itself. -/
theorem hides_fence {s q : List α} {star : α} (hs : star ∉ s) (hq : ¬ s <:+: q) (l : List α) :
    Hides s l (star :: (q ++ [star])) := by
  intro x y h
  rw [List.append_assoc, List.cons_append, List.append_assoc, List.singleton_append] at h
  rcases infix_of_infix_mark hs h with hx | h
  · exact infix_left hx
  · exact (infix_of_infix_mark hs h).elim (fun hin => absurd hin hq) infix_right

/-! ## Blanking -/

/-- `m` is `t` with some disjoint occurrences of `url` overwritten by `star`. -/
inductive Blanks (star : α) (url : List α) : List α → List α → Prop where
  | nil : Blanks star url [] []
  | keep {t m : List α} (c : α) : Blanks star url t m → Blanks star url (c :: t) (c :: m)
  | blank {t m : List α} : Blanks star url t m → Blanks star url (url ++ t) (star :: m)

/-- No two occurrences of `url` overlap. -/
def NoOverlap (url l : List α) : Prop :=
  ∀ i < l.length, ∀ j < l.length, i < j → url <+: l.drop i ∧ url <+: l.drop j →
    i + url.length ≤ j

/-- No occurrence of `url` in `l` begins before position `n` and ends after it. -/
def NoStraddle (url l : List α) (n : ℕ) : Prop :=
  ∀ i < n, url <+: l.drop i → i + url.length ≤ n

instance [DecidableEq α] (url l : List α) : Decidable (NoOverlap url l) := by
  unfold NoOverlap
  infer_instance

instance [DecidableEq α] (url l : List α) (n : ℕ) : Decidable (NoStraddle url l n) := by
  unfold NoStraddle
  infer_instance

section Overlap

variable {url t : List α}

/-- Occurrences that do not overlap do not behind a first one. -/
theorem NoOverlap.of_append (h : NoOverlap url (url ++ t)) : NoOverlap url t := by
  intro i hi j hj hij ⟨hpi, hpj⟩
  have hdrop : ∀ k, (url ++ t).drop (url.length + k) = t.drop k := by
    intro k
    rw [← List.drop_drop, List.drop_left]
  have := h (url.length + i) (by rw [List.length_append]; omega) (url.length + j)
    (by rw [List.length_append]; omega) (by omega)
    ⟨by rw [hdrop]; exact hpi, by rw [hdrop]; exact hpj⟩
  omega

theorem NoOverlap.of_cons {c : α} (h : NoOverlap url (c :: t)) : NoOverlap url t := by
  intro i hi j hj hij hpre
  have := h (i + 1) (Nat.succ_lt_succ hi) (j + 1) (Nat.succ_lt_succ hj) (by omega) hpre
  omega

end Overlap

section Blanks

variable {star : α} {url t m : List α}

theorem Blanks.refl (star : α) (url t : List α) : Blanks star url t t := by
  induction t with
  | nil => exact .nil
  | cons c t ih => exact .keep c ih

theorem Blanks.append {t' m' : List α} (h : Blanks star url t m) (h' : Blanks star url t' m') :
    Blanks star url (t ++ t') (m ++ m') := by
  induction h with
  | nil => exact h'
  | keep c _ ih => exact .keep c ih
  | blank _ ih =>
    rw [List.append_assoc]
    exact .blank ih

/-- Where no occurrence straddles, blanking splits. -/
theorem Blanks.split {t₀ : List α} (h : Blanks star url (t₀ ++ t) m)
    (hs : NoStraddle url (t₀ ++ t) t₀.length) :
    ∃ m₀ m₁, m = m₀ ++ m₁ ∧ Blanks star url t₀ m₀ ∧ Blanks star url t m₁ := by
  generalize hl : t₀ ++ t = l at h
  induction h generalizing t₀ with
  | nil =>
    obtain ⟨rfl, rfl⟩ := List.append_eq_nil_iff.mp hl
    exact ⟨[], [], rfl, .nil, .nil⟩
  | @keep l m c h ih =>
    rcases t₀ with _ | ⟨d, t₀⟩
    · exact ⟨[], c :: m, rfl, .nil, by rw [show t = c :: l from hl]; exact .keep c h⟩
    · obtain ⟨rfl, rfl⟩ := List.cons.inj hl
      obtain ⟨m₀, m₁, rfl, h₀, h₁⟩ := ih (fun i hi hpre => by
        have := hs (i + 1) (Nat.succ_lt_succ hi) hpre
        simp only [List.length_cons] at this
        omega) rfl
      exact ⟨d :: m₀, m₁, rfl, .keep d h₀, h₁⟩
  | @blank l m h ih =>
    rcases t₀ with _ | ⟨d, t₀'⟩
    · exact ⟨[], star :: m, rfl, .nil, by rw [show t = url ++ l from hl]; exact .blank h⟩
    · -- the occurrence at the front ends inside `t₀`
      have hle := hs 0 (Nat.succ_pos _) (by rw [hl]; exact List.prefix_append url l)
      rw [Nat.zero_add] at hle
      have hpre : url <+: d :: t₀' :=
        List.prefix_of_prefix_length_le (List.prefix_append url l)
          (by rw [← hl]; exact List.prefix_append _ _) hle
      obtain ⟨t₁, ht₁⟩ := hpre
      have hl' : t₁ ++ t = l := by
        rw [← ht₁, List.append_assoc] at hl
        exact List.append_cancel_left hl
      obtain ⟨m₀, m₁, rfl, h₀, h₁⟩ := ih (fun i hi hpre => by
        have hdrop : (d :: t₀' ++ t).drop (url.length + i) = (t₁ ++ t).drop i := by
          rw [← ht₁, List.append_assoc, ← List.drop_drop, List.drop_left]
        have := hs (url.length + i)
          (by rw [← ht₁, List.length_append]; omega) (by rw [hdrop]; exact hpre)
        rw [← ht₁, List.length_append] at this
        omega) hl'
      exact ⟨star :: m₀, m₁, rfl, by rw [← ht₁]; exact .blank h₀, h₁⟩

/-- A stretch in which no occurrence begins is kept. -/
theorem Blanks.keeps {l : List α} (h : Blanks star url (t ++ l) m)
    (hno : ∀ i < t.length, ¬ url <+: (t ++ l).drop i) :
    ∃ m', m = t ++ m' ∧ Blanks star url l m' := by
  induction t generalizing m with
  | nil => exact ⟨m, rfl, h⟩
  | cons c t ih =>
    generalize hl : c :: t ++ l = l' at h
    cases h with
    | nil => cases hl
    | keep d h =>
      obtain ⟨rfl, rfl⟩ := List.cons.inj hl
      obtain ⟨m', rfl, h'⟩ := ih h fun i hi => hno (i + 1) (Nat.succ_lt_succ hi)
      exact ⟨m', rfl, h'⟩
    | blank h =>
      refine absurd ?_ (hno 0 (Nat.succ_pos _))
      rw [List.drop_zero, hl]
      exact List.prefix_append url _

/-- An occurrence at the front is blanked or kept whole. -/
theorem Blanks.split_front (hurl : url ≠ []) (h : Blanks star url (url ++ t) m)
    (hno : NoOverlap url (url ++ t)) : ∃ m₁ m', m = m₁ ++ m' ∧ Blanks star url t m' := by
  generalize hl : url ++ t = l at h
  cases h with
  | nil => exact absurd (List.append_eq_nil_iff.mp hl).1 hurl
  | @keep l m c h =>
    obtain ⟨d, u, rfl⟩ := List.exists_cons_of_ne_nil hurl
    obtain ⟨rfl, rfl⟩ := List.cons.inj hl
    obtain ⟨m', rfl, h'⟩ := h.keeps fun i hi hpre => by
      have := hno 0 (by rw [List.length_append]; exact Nat.add_pos_left (Nat.succ_pos _) _) (i + 1)
        (by simp only [List.length_append, List.length_cons]; omega) (Nat.succ_pos i)
        ⟨List.prefix_append _ _, hpre⟩
      simp only [List.length_cons] at this
      omega
    exact ⟨d :: u, m', rfl, h'⟩
  | @blank l m h =>
    obtain rfl := List.append_cancel_left hl
    exact ⟨[star], m, rfl, h⟩

variable [DecidableEq α]

/-- **Replacing hides what blanking hides**: over a text in which no two
occurrences overlap, the scan from the left finds every occurrence. -/
theorem Blanks.hides_replaceAll {s q l : List α} (hurl : url ≠ []) (hs : star ∉ s)
    (hq : ¬ s <:+: q) (h : Blanks star url l m) (hno : NoOverlap url l) :
    Hides s m (replaceAll url (star :: (q ++ [star])) l) := by
  induction l using scan_induction hurl generalizing m with
  | nil =>
    generalize hl : [] = l at h
    cases h with
    | nil => exact Hides.refl s []
    | keep d h => cases hl
    | blank h => exact absurd (List.append_eq_nil_iff.mp hl.symm).1 hurl
  | found t ih =>
    -- blanked or not, the scan replaces it
    obtain ⟨m₁, m', rfl, h'⟩ := h.split_front hurl hno
    rw [replaceAll_append hurl]
    exact (hides_fence hs hq m₁).append (ih h' hno.of_append)
  | pass c t hpre ih =>
    -- the byte is kept on both sides
    generalize hl : c :: t = l at h
    cases h with
    | nil => cases hl
    | keep d h =>
      obtain ⟨rfl, rfl⟩ := List.cons.inj hl
      rw [replaceAll_cons _ hpre]
      exact Hides.cons c (ih h hno.of_cons)
    | @blank t' m h => exact absurd (hl ▸ List.prefix_append url t') hpre

end Blanks

end Replace
