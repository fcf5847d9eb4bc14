import Mathlib.Algebra.Order.Group.Defs
import Mathlib.Algebra.Order.Sub.Basic
import Mathlib.Data.List.Basic

/-!
# How many attempts fail in a window

Attempts begin, stay pending for a while, and end in success or failure. If an
attempt begins only while the failures of the last window and the attempts that
are pending together number less than `n`, then no window of that length, half
open on the right, ever contains more than `n` failures.

The clock does not go back. Windows may start anywhere, so what is kept is
stronger: for every window that is not over, the failures in it and the pending
attempts together number at most `n`.
-/

namespace SlidingWindow

section Buckets

variable {K : Type*} [LinearOrder K]

/-- In a sorted bucket what a downward closed test drops from the front is all
it would drop anywhere. -/
theorem dropWhile_eq_filter {p : K → Bool} (hp : ∀ s t, s ≤ t → p t = true → p s = true)
    {l : List K} (h : l.Pairwise (· ≤ ·)) : l.dropWhile p = l.filter fun t => !p t := by
  induction l with
  | nil => rfl
  | cons t l ih =>
    rw [List.pairwise_cons] at h
    rw [List.dropWhile_cons, List.filter_cons]
    cases hpt : p t with
    | true => exact ih h.2
    | false =>
      refine congrArg (t :: ·) (List.filter_eq_self.mpr fun u hu => ?_).symm
      cases hpu : p u with
      | false => rfl
      | true => rw [hp t u (h.1 u hu) hpu] at hpt; cases hpt

/-- A bucket from whose front everything up to `a` is dropped. -/
def prune (a : K) (l : List K) : List K := l.dropWhile (· ≤ a)

theorem prune_eq_filter {l : List K} (h : l.Pairwise (· ≤ ·)) (a : K) :
    prune a l = l.filter (a < ·) := by
  rw [prune,
    dropWhile_eq_filter (fun s t hst ht => decide_eq_true (hst.trans (of_decide_eq_true ht))) h]
  exact List.filter_congr fun t _ => by rw [← decide_not, decide_eq_decide, not_le]

/-- A bucket from whose front everything before `a` is dropped. -/
def evict (a : K) (l : List K) : List K := l.dropWhile (· < a)

theorem evict_eq_filter {l : List K} (h : l.Pairwise (· ≤ ·)) (a : K) :
    evict a l = l.filter (a ≤ ·) := by
  rw [evict,
    dropWhile_eq_filter (fun s t hst ht => decide_eq_true (hst.trans_lt (of_decide_eq_true ht))) h]
  exact List.filter_congr fun t _ => by rw [← decide_not, decide_eq_decide, not_lt]

/-- The length of an evicted bucket counts what it had from `a` on. -/
theorem length_evict {l : List K} (h : l.Pairwise (· ≤ ·)) (a : K) :
    (evict a l).length = l.countP (a ≤ ·) := by
  rw [evict_eq_filter h, List.countP_eq_length_filter]

/-- **An eviction is not seen** by a count from a later instant on. -/
theorem countP_evict {l : List K} (h : l.Pairwise (· ≤ ·)) {a c : K} (hac : a ≤ c) :
    (evict a l).countP (c ≤ ·) = l.countP (c ≤ ·) := by
  rw [evict_eq_filter h, List.countP_filter]
  refine List.countP_congr fun t _ => ?_
  rw [Bool.and_eq_true, decide_eq_true_iff, decide_eq_true_iff]
  exact and_iff_left_of_imp hac.trans

theorem pairwise_evict {l : List K} (h : l.Pairwise (· ≤ ·)) (a : K) :
    (evict a l).Pairwise (· ≤ ·) := h.sublist (List.dropWhile_sublist _)

theorem pairwise_prune {l : List K} (h : l.Pairwise (· ≤ ·)) (a : K) :
    (prune a l).Pairwise (· ≤ ·) := h.sublist (List.dropWhile_sublist _)

theorem mem_of_mem_prune {l : List K} {a t : K} (h : t ∈ prune a l) : t ∈ l :=
  (List.dropWhile_sublist _).subset h

/-- The later of two prunings is the one that counts. -/
theorem prune_prune {a c : K} (hac : a ≤ c) (l : List K) : prune c (prune a l) = prune c l := by
  induction l with
  | nil => rfl
  | cons t l ih =>
    by_cases ht : t ≤ a
    · have hdrop : prune a (t :: l) = prune a l := List.dropWhile_cons_of_pos (decide_eq_true ht)
      have hdrop' : prune c (t :: l) = prune c l :=
        List.dropWhile_cons_of_pos (decide_eq_true (ht.trans hac))
      rw [hdrop, hdrop', ih]
    · have hkeep : prune a (t :: l) = t :: l :=
        List.dropWhile_cons_of_neg (by rw [decide_eq_true_eq]; exact ht)
      rw [hkeep]

/-- **Pruning leaves less than stands behind an instant** exactly when it reaches that
instant. -/
theorem length_prune_le_iff {front rest : List K} {p : K}
    (h : (front ++ p :: rest).Pairwise (· ≤ ·)) (a : K) :
    (prune a (front ++ p :: rest)).length ≤ rest.length ↔ p ≤ a := by
  obtain ⟨-, hback, hfront⟩ := List.pairwise_append.mp h
  rw [prune_eq_filter h, List.filter_append, List.length_append]
  by_cases hp : p ≤ a
  · refine iff_of_true ?_ hp
    have hnone : front.filter (a < ·) = [] := by
      refine List.filter_eq_nil_iff.mpr fun t ht => ?_
      rw [decide_eq_true_eq, not_lt]
      exact (hfront t ht p List.mem_cons_self).trans hp
    rw [hnone, List.filter_cons_of_neg (by rw [decide_eq_true_eq, not_lt]; exact hp)]
    exact (Nat.zero_add _).le.trans (List.length_filter_le _ _)
  · refine iff_of_false (fun hle => ?_) hp
    have hall : (p :: rest).filter (a < ·) = p :: rest := by
      refine List.filter_eq_self.mpr fun t ht => ?_
      rw [decide_eq_true_eq]
      rcases List.mem_cons.mp ht with rfl | ht
      · exact not_le.mp hp
      · exact (not_le.mp hp).trans_le ((List.pairwise_cons.mp hback).1 t ht)
    rw [hall, List.length_cons] at hle
    omega

end Buckets

variable {K : Type*} [AddCommGroup K] [LinearOrder K]

/-- The attempts under one key. -/
structure Attempts (K : Type*) : Type _ where
  now : K
  /-- the instants of the failures -/
  failures : List K
  pending : ℕ

/-- The failures at or after an instant. -/
def since (l : List K) (a : K) : List K := l.filter (a ≤ ·)

/-- The failures in the window that begins at an instant. -/
def within (w : K) (l : List K) (a : K) : List K := l.filter fun t => a ≤ t ∧ t < a + w

/-- The failures of the last window. -/
def recent (w : K) (l : List K) (now : K) : List K := l.filter (now - w < ·)

/-- No window has more than `n` failures, and none that is not over will. -/
structure Safe (w : K) (n : ℕ) (x : Attempts K) : Prop where
  bounded : ∀ a, (within w x.failures a).length ≤ n
  room : ∀ a, x.now < a + w → (since x.failures a).length + x.pending ≤ n

theorem length_within_le_since (w : K) (l : List K) (a : K) :
    (within w l a).length ≤ (since l a).length := by
  rw [within, since, ← List.countP_eq_length_filter, ← List.countP_eq_length_filter]
  refine List.countP_mono_left fun t _ h => ?_
  exact decide_eq_true (of_decide_eq_true h).1

theorem length_since_le_recent [IsOrderedAddMonoid K] {w a now : K} (h : now < a + w) (l : List K) :
    (since l a).length ≤ (recent w l now).length := by
  rw [since, recent, ← List.countP_eq_length_filter, ← List.countP_eq_length_filter]
  refine List.countP_mono_left fun t _ ht => ?_
  exact decide_eq_true ((sub_lt_iff_lt_add.mpr h).trans_le (of_decide_eq_true ht))

section Steps

variable {w : K} {n : ℕ} {x : Attempts K}

theorem safe_init (w now : K) (n : ℕ) : Safe w n ⟨now, [], 0⟩ :=
  ⟨fun _ => Nat.zero_le n, fun _ _ => Nat.zero_le n⟩

/-- Time passes. -/
theorem Safe.tick (h : Safe w n x) {now : K} (hle : x.now ≤ now) : Safe w n { x with now := now } :=
  ⟨h.bounded, fun a ha => h.room a (hle.trans_lt ha)⟩

/-- **An attempt begins** while there is room. -/
theorem Safe.begin [IsOrderedAddMonoid K] (h : Safe w n x)
    (hroom : (recent w x.failures x.now).length + x.pending < n) :
    Safe w n { x with pending := x.pending + 1 } := by
  refine ⟨h.bounded, fun a ha => ?_⟩
  have hle : (since x.failures a).length ≤ (recent w x.failures x.now).length :=
    length_since_le_recent ha x.failures
  show (since x.failures a).length + (x.pending + 1) ≤ n
  omega

/-- A pending attempt ends without a failure. -/
theorem Safe.succeed (h : Safe w n x) {p : ℕ} (hp : p ≤ x.pending) :
    Safe w n { x with pending := p } :=
  ⟨h.bounded, fun a ha => (Nat.add_le_add_left hp _).trans (h.room a ha)⟩

/-- **A pending attempt fails.** -/
theorem Safe.fail (h : Safe w n x) {p : ℕ} (hp : p + 1 ≤ x.pending) :
    Safe w n { x with failures := x.failures ++ [x.now], pending := p } := by
  have hlast : ∀ a, (since (x.failures ++ [x.now]) a).length ≤ (since x.failures a).length + 1 := by
    intro a
    rw [since, List.filter_append, List.length_append]
    exact Nat.add_le_add_left (List.length_filter_le _ [x.now]) _
  refine ⟨fun a => ?_, fun a ha => ?_⟩
  · by_cases ha : x.now < a + w
    · -- the window is not over, so the attempt was counted
      have hroom := h.room a ha
      have hsince := hlast a
      have hwithin := length_within_le_since w (x.failures ++ [x.now]) a
      show (within w (x.failures ++ [x.now]) a).length ≤ n
      omega
    · -- the window is over
      have hout : within w [x.now] a = [] := by simp [within, ha]
      have happ : within w (x.failures ++ [x.now]) a = within w x.failures a := by
        rw [within, List.filter_append]
        exact (congrArg (within w x.failures a ++ ·) hout).trans (List.append_nil _)
      rw [happ]
      exact h.bounded a
  · have hroom := h.room a ha
    have hsince := hlast a
    show (since (x.failures ++ [x.now]) a).length + p ≤ n
    omega

end Steps

end SlidingWindow
