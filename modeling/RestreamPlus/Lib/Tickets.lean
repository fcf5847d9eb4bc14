import Mathlib.Data.List.Basic
import Mathlib.Data.List.Forall2
import Mathlib.Data.List.Nodup
import Mathlib.Logic.Function.Basic

/-!
# Tickets that are good for one use

A ticket is issued for a reason, and whoever presents it uses it up. `Matched` is the
purpose of such a scheme: every use has an issue of its own that entitles to it. Keys may
come back, tickets may be thrown away, and a use need not be the one the ticket was
meant for.

`Account` is the invariant behind it: the tickets that are still good belong to different
issues, none of which was spent.
-/

namespace Tickets

variable {ι υ K : Type*}

/-- Every use has an issue of its own that entitles to it. -/
def Matched (Entitles : ι → υ → Prop) (issues : List ι) (uses : List υ) : Prop :=
  ∃ issueOf : Fin uses.length → Fin issues.length, Function.Injective issueOf ∧
    ∀ i, Entitles (issues.get (issueOf i)) (uses.get i)

/-- The ticket `k` is good for the issue number `good k`; `spent` are the issues of the uses
so far. -/
structure Account (Entitles : ι → υ → Prop) (issues : List ι) (uses : List υ)
    (good : K → Option ℕ) (spent : List ℕ) : Prop where
  entitled : List.Forall₂ (fun n u => ∃ x, issues[n]? = some x ∧ Entitles x u) spent uses
  nodup : spent.Nodup
  bounded : ∀ k n, good k = some n → n < issues.length
  unspent : ∀ k n, good k = some n → n ∉ spent
  distinct : ∀ k k' n, good k = some n → good k' = some n → k = k'

namespace Account

variable {Entitles : ι → υ → Prop} {issues : List ι} {uses : List υ} {good : K → Option ℕ}
  {spent : List ℕ}

/-- Nothing was issued. -/
theorem empty : Account Entitles [] [] (fun _ : K => none) [] where
  entitled := .nil
  nodup := List.nodup_nil
  bounded _ _ h := absurd h (Option.some_ne_none _).symm
  unspent _ _ h := absurd h (Option.some_ne_none _).symm
  distinct _ _ _ h := absurd h (Option.some_ne_none _).symm

/-- Tickets are thrown away. -/
theorem discard (h : Account Entitles issues uses good spent) {good' : K → Option ℕ}
    (hsub : ∀ k n, good' k = some n → good k = some n) :
    Account Entitles issues uses good' spent where
  entitled := h.entitled
  nodup := h.nodup
  bounded k n hk := h.bounded k n (hsub k n hk)
  unspent k n hk := h.unspent k n (hsub k n hk)
  distinct k k' n hk hk' := h.distinct k k' n (hsub k n hk) (hsub k' n hk')

theorem lt_of_mem_spent (h : Account Entitles issues uses good spent) {n : ℕ} (hn : n ∈ spent) :
    n < issues.length := by
  obtain ⟨i, hi⟩ := List.get_of_mem hn
  obtain ⟨x, hx, -⟩ := (List.forall₂_iff_get.mp h.entitled).2 i i.2
    (by rw [← h.entitled.length_eq]; exact i.2)
  rw [← hi]
  exact (List.getElem?_eq_some_iff.mp hx).1

variable [DecidableEq K]

/-- A ticket is issued, under a key that may have been in use. -/
theorem issue (h : Account Entitles issues uses good spent) (x : ι) (k : K) :
    Account Entitles (issues ++ [x]) uses (Function.update good k (some issues.length)) spent := by
  have hold {k' : K} {n : ℕ} (hne : k' ≠ k)
      (hk : Function.update good k (some issues.length) k' = some n) : good k' = some n := by
    rwa [Function.update_of_ne hne] at hk
  refine ⟨h.entitled.imp ?_, h.nodup, fun k' n hk => ?_, fun k' n hk => ?_,
    fun k₁ k₂ n h₁ h₂ => ?_⟩
  · rintro n u ⟨y, hy, hu⟩
    exact ⟨y, (List.getElem?_append_left (List.getElem?_eq_some_iff.mp hy).1).trans hy, hu⟩
  · rw [List.length_append, List.length_singleton]
    by_cases hne : k' = k
    · rw [hne, Function.update_self] at hk
      rw [← Option.some.inj hk]
      exact Nat.lt_succ_self _
    · exact Nat.lt_succ_of_lt (h.bounded k' n (hold hne hk))
  · by_cases hne : k' = k
    · rw [hne, Function.update_self] at hk
      rw [← Option.some.inj hk]
      exact fun hmem => Nat.lt_irrefl _ (h.lt_of_mem_spent hmem)
    · exact h.unspent k' n (hold hne hk)
  · -- the new number is larger than those of the tickets that were there
    have hnew {k' : K} (hne : k' ≠ k)
        (hk : Function.update good k (some issues.length) k' = some n)
        (hn : Function.update good k (some issues.length) k = some n) : False := by
      rw [Function.update_self] at hn
      have hlt := h.bounded k' n (hold hne hk)
      rw [← Option.some.inj hn] at hlt
      exact Nat.lt_irrefl _ hlt
    by_cases he₁ : k₁ = k <;> by_cases he₂ : k₂ = k
    · rw [he₁, he₂]
    · exact (hnew he₂ h₂ (he₁ ▸ h₁)).elim
    · exact (hnew he₁ h₁ (he₂ ▸ h₂)).elim
    · exact h.distinct k₁ k₂ n (hold he₁ h₁) (hold he₂ h₂)

/-- A ticket is used up. -/
theorem use (h : Account Entitles issues uses good spent) {k : K} {n : ℕ} {x : ι} {u : υ}
    (hk : good k = some n) (hx : issues[n]? = some x) (hu : Entitles x u) :
    Account Entitles issues (uses ++ [u]) (Function.update good k none) (spent ++ [n]) := by
  have hold {k' : K} {m : ℕ} (hk' : Function.update good k none k' = some m) :
      k' ≠ k ∧ good k' = some m := by
    by_cases hne : k' = k
    · rw [hne, Function.update_self] at hk'
      cases hk'
    · rw [Function.update_of_ne hne] at hk'
      exact ⟨hne, hk'⟩
  refine ⟨List.rel_append h.entitled (.cons ⟨x, hx, hu⟩ .nil), ?_, fun k' m hk' => ?_,
    fun k' m hk' hmem => ?_, fun k₁ k₂ m h₁ h₂ => ?_⟩
  · rw [List.nodup_append]
    refine ⟨h.nodup, List.nodup_singleton n, fun a ha b hb => ?_⟩
    rw [List.mem_singleton.mp hb]
    rintro rfl
    exact h.unspent k a hk ha
  · exact h.bounded k' m (hold hk').2
  · obtain ⟨hne, hgood⟩ := hold hk'
    rcases List.mem_append.mp hmem with hmem | hmem
    · exact h.unspent k' m hgood hmem
    · rw [List.mem_singleton.mp hmem] at hgood
      exact hne (h.distinct k' k n hgood hk)
  · exact h.distinct k₁ k₂ m (hold h₁).2 (hold h₂).2

omit [DecidableEq K] in
/-- **No issue pays for two uses.** -/
theorem matched (h : Account Entitles issues uses good spent) : Matched Entitles issues uses := by
  obtain ⟨hlength, hget⟩ := List.forall₂_iff_get.mp h.entitled
  have hlt (i : Fin uses.length) : i.1 < spent.length := by rw [hlength]; exact i.2
  refine ⟨fun i => ⟨spent.get ⟨i, hlt i⟩, h.lt_of_mem_spent (List.get_mem _ _)⟩, fun i j hij => ?_,
    fun i => ?_⟩
  · have hval : spent.get ⟨i, hlt i⟩ = spent.get ⟨j, hlt j⟩ := congrArg Fin.val hij
    exact Fin.ext (Fin.mk.inj (List.nodup_iff_injective_get.mp h.nodup hval))
  · obtain ⟨x, hx, hentitled⟩ := hget i.1 (hlt i) i.2
    obtain ⟨hlen, rfl⟩ := List.getElem?_eq_some_iff.mp hx
    exact hentitled

end Account

end Tickets
