import RestreamPlus.Lib.Blanking

/-!
# Overwriting words by a fence

A fence is a text between two marks that no word contains. Replacing the words one
after the other, in any order, each of them everywhere: the words are gone from the
text (`not_infix_replaceAll`), those that were gone before do not come back
(`hides_replaceAll`), and the result is the text with disjoint words overwritten
(`Fences.replaceAll`), since what a later word matches is text that was kept.
-/

namespace Replace

universe u

variable {α : Type u}

/-- `m` is `t` with some disjoint words overwritten by the fence. -/
inductive Fences (words : List α → Prop) (fence : List α) : List α → List α → Prop where
  | nil : Fences words fence [] []
  | keep {t m : List α} (c : α) : Fences words fence t m → Fences words fence (c :: t) (c :: m)
  | cover {s t m : List α} : words s → Fences words fence t m →
    Fences words fence (s ++ t) (fence ++ m)

theorem Fences.refl (words : List α → Prop) (fence t : List α) : Fences words fence t t := by
  induction t with
  | nil => exact .nil
  | cons c t ih => exact .keep c ih

/-- A word begins where a mark does not: it lies in front of the mark. -/
theorem prefix_of_prefix_mark {s x y : List α} {star : α} (hs : star ∉ s)
    (h : s <+: x ++ star :: y) : s <+: x := by
  have hmark : x ++ [star] <+: x ++ star :: y := by
    rw [List.prefix_append_right_inj, List.cons_prefix_cons]
    exact ⟨rfl, List.nil_prefix⟩
  rcases List.prefix_or_prefix_of_prefix h hmark with hpre | hpre
  · rcases List.prefix_concat_iff.mp hpre with rfl | hpre
    · exact absurd (List.mem_append_right x (List.mem_singleton_self star)) hs
    · exact hpre
  · exact absurd (hpre.subset (List.mem_append_right x (List.mem_singleton_self star))) hs

section Fences

variable {words : List α → Prop} {star : α} {q s t m : List α}

/-- **A text without the mark was kept.** -/
theorem Fences.of_append (hs : star ∉ s) (h : Fences words (star :: q) t (s ++ m)) :
    ∃ t', t = s ++ t' ∧ Fences words (star :: q) t' m := by
  induction s generalizing t with
  | nil => exact ⟨t, rfl, h⟩
  | cons c s ih =>
    rw [List.mem_cons, not_or] at hs
    generalize hm : c :: s ++ m = m' at h
    cases h with
    | nil => cases hm
    | keep d h =>
      obtain ⟨rfl, rfl⟩ := List.cons.inj hm
      obtain ⟨t', rfl, h'⟩ := ih hs.2 h
      exact ⟨t', rfl, h'⟩
    | cover _ _ => exact absurd (List.cons.inj hm).1.symm hs.1

variable [DecidableEq α]

/-- The scan does not find a word in a fence. -/
theorem replaceAll_fence (hne : s ≠ []) (hs : star ∉ s) (hq : ¬ s <:+: q) (rep l : List α) :
    replaceAll s rep (star :: (q ++ [star]) ++ l) =
      star :: (q ++ [star]) ++ replaceAll s rep l := by
  refine replaceAll_append_of_not_prefix rep fun l₁ c l₂ hl hpre => ?_
  rcases List.eq_nil_or_concat' l₂ with rfl | ⟨l₃, d, rfl⟩
  · -- the closing mark itself
    have hc : c = star := by
      have hlast := congrArg List.getLast? hl
      rw [← List.cons_append, List.getLast?_concat, List.getLast?_concat] at hlast
      exact (Option.some.inj hlast).symm
    rw [hc] at hpre
    have hnil := prefix_of_prefix_mark (x := []) hs hpre
    exact hne (List.prefix_nil.mp hnil)
  · rw [← List.cons_append, ← List.cons_append, ← List.append_assoc] at hl
    obtain ⟨hinit, hd⟩ := List.append_inj' hl rfl
    obtain rfl : star = d := List.singleton_inj.mp hd
    rw [List.append_assoc, List.singleton_append, ← List.cons_append] at hpre
    have hin := prefix_of_prefix_mark hs hpre
    rcases l₁ with _ | ⟨e, l₁⟩
    · -- the opening mark
      obtain ⟨rfl, rfl⟩ := List.cons.inj hinit
      have hnil := prefix_of_prefix_mark (x := []) hs hin
      exact hne (List.prefix_nil.mp hnil)
    · have hq' : q = l₁ ++ c :: l₃ := (List.cons.inj hinit).2
      refine hq ?_
      rw [hq']
      exact hin.isInfix.trans (List.suffix_append l₁ _).isInfix

/-- **Another word** matches only what was kept. -/
theorem Fences.replaceAll (h : Fences words (star :: (q ++ [star])) t m) (hw : words s)
    (hne : s ≠ []) (hs : star ∉ s) (hq : ¬ s <:+: q) :
    Fences words (star :: (q ++ [star])) t (replaceAll s (star :: (q ++ [star])) m) := by
  induction hn : m.length using Nat.strong_induction_on generalizing t m with
  | _ n ih =>
    by_cases hpre : s <+: m
    · obtain ⟨m', rfl⟩ := hpre
      obtain ⟨t', rfl, h'⟩ := h.of_append hs
      have hlt : m'.length < n := by
        rw [← hn, List.length_append]
        exact Nat.lt_add_of_pos_left (List.length_pos_iff.mpr hne)
      rw [replaceAll_append hne]
      exact .cover hw (ih m'.length hlt h' rfl)
    · cases h with
      | nil => exact .nil
      | @keep t m c h =>
        rw [replaceAll_cons _ hpre]
        exact .keep c (ih m.length (by rw [← hn]; exact Nat.lt_succ_self _) h rfl)
      | @cover s' t m hw' h =>
        rw [replaceAll_fence hne hs hq]
        refine .cover hw' (ih m.length ?_ h rfl)
        rw [← hn, List.length_append, List.length_cons]
        omega

/-- A text that has no mark stands at the front of the result only if it did before. -/
theorem prefix_of_prefix_replaceAll {x l : List α} (hx : star ∉ x)
    (h : x <+: Replace.replaceAll s (star :: q) l) : x <+: l := by
  induction x generalizing l with
  | nil => exact List.nil_prefix
  | cons c x ih =>
    rw [List.mem_cons, not_or] at hx
    cases l with
    | nil => exact h
    | cons d l =>
      by_cases hpre : s <+: d :: l
      · have hstar : Replace.replaceAll s (star :: q) (d :: l) = star :: q ++ _ := if_pos hpre
        rw [hstar] at h
        exact absurd (List.cons_prefix_cons.mp h).1.symm hx.1
      · rw [replaceAll_cons _ hpre] at h
        obtain ⟨rfl, htail⟩ := List.cons_prefix_cons.mp h
        exact List.cons_prefix_cons.mpr ⟨rfl, ih hx.2 htail⟩

/-- **The word is gone.** -/
theorem not_infix_replaceAll (hne : s ≠ []) (hs : star ∉ s) (hq : ¬ s <:+: q) (l : List α) :
    ¬ s <:+: Replace.replaceAll s (star :: (q ++ [star])) l := by
  induction l using scan_induction hne with
  | nil => exact fun h => hne (List.infix_nil.mp h)
  | found l ih =>
    rw [replaceAll_append hne]
    exact fun h => ih (hides_fence hs hq [] [] _ h)
  | pass c l hpre ih =>
    rw [replaceAll_cons _ hpre]
    intro h
    rcases List.infix_cons_iff.mp h with h | h
    · refine hpre (prefix_of_prefix_replaceAll (s := s) (q := q ++ [star]) hs ?_)
      rw [replaceAll_cons _ hpre]
      exact h
    · exact ih h

/-- **Other words** do not come back. -/
theorem hides_replaceAll {s' : List α} (hne : s ≠ []) (hs : star ∉ s') (hq : ¬ s' <:+: q)
    (l : List α) : Hides s' l (Replace.replaceAll s (star :: (q ++ [star])) l) := by
  induction l using scan_induction hne with
  | nil => exact Hides.refl s' []
  | found l ih =>
    rw [replaceAll_append hne]
    exact (hides_fence hs hq s).append ih
  | pass c l hpre ih =>
    rw [replaceAll_cons _ hpre]
    exact ih.cons c

end Fences

end Replace
