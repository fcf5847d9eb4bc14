import Mathlib.Algebra.Order.Ring.Cast
import Mathlib.Data.List.Chain
import Mathlib.Tactic.Linarith

/-!
# Lists of instants that are a distance apart

`Spaced g l` says that every element of `l` is at least `g` after the one
before. How many such elements fit into an interval is bounded by its length
(`Spaced.packing`). Taking elements from the front keeps a list spaced, and so
does appending an element that is late enough.
-/

namespace Spacing

variable {K : Type*} [CommRing K] [LinearOrder K]

/-- Each element is at least `g` after its predecessor. -/
def Spaced (g : K) (l : List K) : Prop := l.IsChain fun a b => a + g ≤ b

variable {g : K} {l : List K}

@[simp] theorem spaced_nil : Spaced g ([] : List K) := List.isChain_nil

/-- A part of a spaced list that leaves out only a prefix is spaced. -/
theorem Spaced.of_suffix {l' : List K} (h : Spaced g l) (hs : l' <:+ l) : Spaced g l' := by
  obtain ⟨l₁, rfl⟩ := hs
  exact h.right_of_append

/-- An element at least `g` after all the others may be appended. -/
theorem Spaced.concat {t : K} (h : Spaced g l) (ht : ∀ a ∈ l, a + g ≤ t) : Spaced g (l ++ [t]) := by
  refine h.append (List.isChain_singleton t) fun a ha b hb => ?_
  obtain rfl : t = b := by simpa using hb
  exact ht a (List.mem_of_getLast? ha)

/-- **The packing bound**: what follows the first element of a spaced list needs
`g` each. -/
theorem Spaced.packing [IsStrictOrderedRing K] {a hi : K} (h : Spaced g (a :: l))
    (hhi : ∀ b ∈ a :: l, b ≤ hi) : (l.length : K) * g ≤ hi - a := by
  induction l generalizing a with
  | nil =>
    have hle := hhi a List.mem_cons_self
    rw [List.length_nil, Nat.cast_zero, zero_mul]
    linarith
  | cons b l ih =>
    obtain ⟨hab, htail⟩ := List.isChain_cons_cons.mp h
    have hle := ih htail fun c hc => hhi c (List.mem_cons_of_mem a hc)
    rw [List.length_cons, Nat.cast_add, Nat.cast_one, add_mul, one_mul]
    linarith

end Spacing
