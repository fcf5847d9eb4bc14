import Mathlib.Data.List.Basic
import Mathlib.Data.List.Infix

/-!
# Searching and replacing in lists

The string operations of a scripting language on lists over any alphabet:
`replaceFirst` and `replaceAll` for a nonempty pattern, scanning from the left
and taking occurrences that do not overlap, and `stripEnd`.

The scan carries the number of elements still to be skipped, so that it recurses
on the tail; `replaceAll_append` and `replaceAll_cons` are the equations proofs
use.
-/

namespace Replace

universe u

variable {α : Type u} [DecidableEq α]

/-- Replace the first occurrence of `pat`. -/
def replaceFirst (pat rep : List α) : List α → List α
  | [] => []
  | c :: t => if pat <+: c :: t then rep ++ (c :: t).drop pat.length
      else c :: replaceFirst pat rep t

/-- The scan behind `replaceAll`: skip `n` elements, then replace from the left. -/
def replaceAllFrom (pat rep : List α) : ℕ → List α → List α
  | _, [] => []
  | n + 1, _ :: t => replaceAllFrom pat rep n t
  | 0, c :: t => if pat <+: c :: t then rep ++ replaceAllFrom pat rep (pat.length - 1) t
      else c :: replaceAllFrom pat rep 0 t

/-- Replace every occurrence of a nonempty `pat`, from the left and without
overlaps. -/
def replaceAll (pat rep l : List α) : List α := replaceAllFrom pat rep 0 l

/-- The scan behind `occurrences`. -/
def occurrencesFrom (pat : List α) : ℕ → List α → ℕ
  | _, [] => 0
  | n + 1, _ :: t => occurrencesFrom pat n t
  | 0, c :: t => if pat <+: c :: t then occurrencesFrom pat (pat.length - 1) t + 1
      else occurrencesFrom pat 0 t

/-- How often a nonempty `pat` occurs, from the left and without overlaps. -/
def occurrences (pat l : List α) : ℕ := occurrencesFrom pat 0 l

/-- Drop the trailing elements equal to `c`. -/
def stripEnd (c : α) (l : List α) : List α := (l.reverse.dropWhile (· = c)).reverse

theorem replaceAllFrom_drop (pat rep : List α) (n : ℕ) (l : List α) :
    replaceAllFrom pat rep n l = replaceAll pat rep (l.drop n) := by
  induction l generalizing n with
  | nil => cases n <;> rfl
  | cons c t ih =>
    cases n with
    | zero => rfl
    | succ n => exact ih n

@[simp] theorem replaceAll_nil (pat rep : List α) : replaceAll pat rep [] = [] := rfl

/-- Where the pattern does not start, the scan moves on by one. -/
theorem replaceAll_cons {pat : List α} (rep : List α) {c : α} {t : List α}
    (h : ¬ pat <+: c :: t) : replaceAll pat rep (c :: t) = c :: replaceAll pat rep t :=
  if_neg h

/-- Where the pattern starts, it is replaced and skipped. -/
theorem replaceAll_append {pat : List α} (hpat : pat ≠ []) (rep t : List α) :
    replaceAll pat rep (pat ++ t) = rep ++ replaceAll pat rep t := by
  obtain ⟨c, p, rfl⟩ := List.exists_cons_of_ne_nil hpat
  have hpre : c :: p <+: c :: (p ++ t) := List.prefix_append (c :: p) t
  refine (if_pos hpre).trans ?_
  rw [replaceAllFrom_drop, List.length_cons, Nat.add_sub_cancel]
  have hdrop : (p ++ t).drop p.length = t := List.drop_left
  exact congrArg (rep ++ replaceAll (c :: p) rep ·) hdrop

/-- **The scan as an induction**: nothing is left, the pattern starts and is skipped, or
it does not start. -/
theorem scan_induction {motive : List α → Prop} {pat : List α} (hpat : pat ≠ [])
    (nil : motive []) (found : ∀ t, motive t → motive (pat ++ t))
    (pass : ∀ c t, ¬ pat <+: c :: t → motive t → motive (c :: t)) (l : List α) : motive l := by
  induction hn : l.length using Nat.strong_induction_on generalizing l with
  | _ n ih =>
    by_cases hpre : pat <+: l
    · obtain ⟨t, rfl⟩ := hpre
      refine found t (ih t.length ?_ t rfl)
      rw [← hn, List.length_append]
      exact Nat.lt_add_of_pos_left (List.length_pos_iff.mpr hpat)
    · cases l with
      | nil => exact nil
      | cons c t => exact pass c t hpre (ih t.length (by rw [← hn]; exact Nat.lt_succ_self _) t rfl)

/-- A list the pattern cannot start in is passed over. -/
theorem replaceAll_append_of_not_prefix {pat : List α} (rep : List α) {l t : List α}
    (h : ∀ l₁ c l₂, l = l₁ ++ c :: l₂ → ¬ pat <+: c :: (l₂ ++ t)) :
    replaceAll pat rep (l ++ t) = l ++ replaceAll pat rep t := by
  induction l with
  | nil => rfl
  | cons c l ih =>
    rw [List.cons_append, replaceAll_cons rep (h [] c l rfl), List.cons_append,
      ih fun l₁ d l₂ hl => h (c :: l₁) d l₂ (by rw [hl]; rfl)]

/-- A text without the pattern is left alone. -/
theorem replaceAll_of_absent {pat : List α} (rep : List α) {l : List α} (h : ¬ pat <:+: l) :
    replaceAll pat rep l = l := by
  induction l with
  | nil => rfl
  | cons c t ih =>
    rw [replaceAll_cons rep fun hpre => h hpre.isInfix,
      ih fun hin => h (hin.trans (List.suffix_cons c t).isInfix)]

/-! ## Counting -/

theorem occurrencesFrom_drop (pat : List α) (n : ℕ) (l : List α) :
    occurrencesFrom pat n l = occurrences pat (l.drop n) := by
  induction l generalizing n with
  | nil => cases n <;> rfl
  | cons c t ih =>
    cases n with
    | zero => rfl
    | succ n => exact ih n

theorem occurrences_cons {pat : List α} {c : α} {t : List α} (h : ¬ pat <+: c :: t) :
    occurrences pat (c :: t) = occurrences pat t := if_neg h

theorem occurrences_append {pat : List α} (hpat : pat ≠ []) (t : List α) :
    occurrences pat (pat ++ t) = occurrences pat t + 1 := by
  obtain ⟨c, p, rfl⟩ := List.exists_cons_of_ne_nil hpat
  have hpre : c :: p <+: c :: (p ++ t) := List.prefix_append (c :: p) t
  rw [List.cons_append, occurrences, occurrencesFrom, if_pos hpre, occurrencesFrom_drop,
    List.length_cons, Nat.add_sub_cancel, List.drop_left]

/-- **How long a text gets.** -/
theorem length_replaceAll {pat : List α} (hpat : pat ≠ []) (rep l : List α) :
    (replaceAll pat rep l).length + pat.length * occurrences pat l =
      l.length + rep.length * occurrences pat l := by
  induction l using scan_induction hpat with
  | nil => rfl
  | found t ih =>
    rw [replaceAll_append hpat, occurrences_append hpat, List.length_append, List.length_append,
      Nat.mul_succ, Nat.mul_succ]
    omega
  | pass c t hpre ih =>
    rw [replaceAll_cons rep hpre, occurrences_cons hpre, List.length_cons, List.length_cons]
    omega

/-! ## The first occurrence -/

/-- The first occurrence of `pat` is behind `n` elements. -/
def FirstAt (pat l : List α) (n : ℕ) : Prop :=
  pat <+: l.drop n ∧ ∀ i < n, ¬ pat <+: l.drop i

theorem replaceFirst_of_start {pat : List α} (rep : List α) {c : α} {t : List α}
    (h : pat <+: c :: t) : replaceFirst pat rep (c :: t) = rep ++ (c :: t).drop pat.length :=
  if_pos h

theorem replaceFirst_cons {pat : List α} (rep : List α) {c : α} {t : List α}
    (h : ¬ pat <+: c :: t) : replaceFirst pat rep (c :: t) = c :: replaceFirst pat rep t :=
  if_neg h

theorem replaceFirst_of_not_infix {pat : List α} (rep : List α) {l : List α} (h : ¬ pat <:+: l) :
    replaceFirst pat rep l = l := by
  induction l with
  | nil => rfl
  | cons c t ih =>
    rw [replaceFirst_cons rep fun hpre => h hpre.isInfix,
      ih fun hin => h (hin.trans (List.suffix_cons c t).isInfix)]

/-- **An occurrence is the one that is replaced** exactly when it is the first; the
replacement tells by its first element. -/
theorem replaceFirst_eq_iff {c d : α} (hcd : c ≠ d) (p u v : List α) :
    replaceFirst (c :: p) (d :: p) (u ++ (c :: p ++ v)) = u ++ (d :: p ++ v) ↔
      FirstAt (c :: p) (u ++ (c :: p ++ v)) u.length := by
  have hhere : c :: p <+: (u ++ (c :: p ++ v)).drop u.length := by
    rw [List.drop_left]
    exact List.prefix_append _ _
  rw [FirstAt, and_iff_right hhere]
  clear hhere
  induction u with
  | nil =>
    refine iff_of_true ?_ fun i hi => absurd hi (Nat.not_lt_zero i)
    have hpre : c :: p <+: c :: (p ++ v) := List.prefix_append (c :: p) v
    refine (replaceFirst_of_start _ hpre).trans ?_
    exact congrArg (d :: p ++ ·) List.drop_left
  | cons e u ih =>
    rw [List.cons_append (a := e), List.cons_append (a := e)]
    by_cases hpre : c :: p <+: e :: (u ++ (c :: p ++ v))
    · rw [replaceFirst_of_start _ hpre]
      refine iff_of_false (fun heq => ?_) fun hno => hno 0 (Nat.succ_pos _) hpre
      have hde : d = e := (List.cons.inj heq).1
      have hce : c = e := (List.cons_prefix_cons.mp hpre).1
      exact hcd (hce.trans hde.symm)
    · rw [replaceFirst_cons _ hpre, List.cons_inj_right]
      refine ih.trans ⟨fun hno i hi => ?_, fun hno i hi => hno (i + 1) (Nat.succ_lt_succ hi)⟩
      cases i with
      | zero => exact hpre
      | succ i => exact hno i (Nat.lt_of_succ_lt_succ hi)

/-- Where there is an occurrence, the text does not stay the same. -/
theorem replaceFirst_eq_self_iff {c d : α} (hcd : c ≠ d) (p l : List α) :
    replaceFirst (c :: p) (d :: p) l = l ↔ ¬ c :: p <:+: l := by
  refine ⟨fun heq hin => ?_, replaceFirst_of_not_infix _⟩
  induction l with
  | nil => exact absurd hin (by rw [List.infix_nil]; exact List.cons_ne_nil c p)
  | cons e t ih =>
    by_cases hpre : c :: p <+: e :: t
    · rw [replaceFirst_of_start _ hpre] at heq
      have hde : d = e := (List.cons.inj heq).1
      have hce : c = e := (List.cons_prefix_cons.mp hpre).1
      exact hcd (hce.trans hde.symm)
    · rw [replaceFirst_cons _ hpre, List.cons_inj_right] at heq
      rcases List.infix_cons_iff.mp hin with hpre' | hin
      · exact hpre hpre'
      · exact ih heq hin

theorem length_replaceFirst {pat rep : List α} (h : rep.length = pat.length) (l : List α) :
    (replaceFirst pat rep l).length = l.length := by
  induction l with
  | nil => rfl
  | cons c t ih =>
    rw [replaceFirst]
    split
    · rename_i hpre
      have hle := hpre.length_le
      rw [List.length_append, List.length_drop, h]
      omega
    · rw [List.length_cons, List.length_cons, ih]

/-! ## Trailing elements -/

theorem stripEnd_append_self (c : α) (l : List α) : stripEnd c (l ++ [c]) = stripEnd c l := by
  have hdrop : (c :: l.reverse).dropWhile (· = c) = l.reverse.dropWhile (· = c) :=
    List.dropWhile_cons_of_pos (decide_eq_true rfl)
  rw [stripEnd, List.reverse_append, List.reverse_singleton, List.singleton_append, hdrop, stripEnd]

theorem stripEnd_append_of_ne {c d : α} (h : d ≠ c) (l : List α) :
    stripEnd c (l ++ [d]) = l ++ [d] := by
  rw [stripEnd, List.reverse_append, List.reverse_singleton, List.singleton_append,
    List.dropWhile_cons_of_neg (by rw [decide_eq_true_eq]; exact h), List.reverse_cons,
    List.reverse_reverse]

/-- Only what stands behind the last other element is dropped. -/
theorem stripEnd_append_cons {c d : α} (h : d ≠ c) (l m : List α) :
    stripEnd c (l ++ d :: m) = l ++ d :: stripEnd c m := by
  induction m using List.reverseRecOn with
  | nil => exact stripEnd_append_of_ne h l
  | append_singleton m e ih =>
    by_cases he : e = c
    · rw [he, stripEnd_append_self, ← ih, ← stripEnd_append_self c (l ++ d :: m), List.append_assoc]
      rfl
    · rw [stripEnd_append_of_ne he]
      exact (congrArg (stripEnd c) (List.append_assoc l (d :: m) [e]).symm).trans
        ((stripEnd_append_of_ne he _).trans (List.append_assoc l (d :: m) [e]))

theorem stripEnd_of_notMem {c : α} {l : List α} (h : c ∉ l) : stripEnd c l = l := by
  induction l using List.reverseRecOn with
  | nil => rfl
  | append_singleton l d _ =>
    refine stripEnd_append_of_ne ?_ l
    rintro rfl
    exact h (List.mem_append_right l (List.mem_singleton_self _))

/-- The text is what is left, and the elements that were dropped. -/
theorem stripEnd_append_replicate (c : α) (l : List α) :
    ∃ n, l = stripEnd c l ++ List.replicate n c := by
  induction l using List.reverseRecOn with
  | nil => exact ⟨0, rfl⟩
  | append_singleton l d ih =>
    by_cases hd : d = c
    · obtain ⟨n, hn⟩ := ih
      refine ⟨n + 1, ?_⟩
      rw [hd, stripEnd_append_self, List.replicate_succ', ← List.append_assoc, ← hn]
    · exact ⟨0, by rw [stripEnd_append_of_ne hd, List.replicate_zero, List.append_nil]⟩

/-- Texts of one length that differ still do when their ends are stripped. -/
theorem stripEnd_inj {c : α} {l m : List α} (hlen : l.length = m.length)
    (h : stripEnd c l = stripEnd c m) : l = m := by
  obtain ⟨n, hn⟩ := stripEnd_append_replicate c l
  obtain ⟨n', hn'⟩ := stripEnd_append_replicate c m
  rw [h] at hn
  have hcount : n = n' := by
    rw [hn, hn', List.length_append, List.length_append, List.length_replicate,
      List.length_replicate, ← hn'] at hlen
    exact Nat.add_left_cancel hlen
  rw [hn, hcount, ← hn']

end Replace
