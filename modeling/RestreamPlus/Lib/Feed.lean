import Mathlib.Data.Finset.Basic
import Mathlib.Data.Finset.Filter
import Mathlib.Logic.Function.Basic

/-!
# A snapshot and the changes after it

A server holds a value for each key and announces changes as assignments, which
travel in order. A follower begins with a copy of the values and applies the
assignments as they arrive (`replay`). Some changes may not be announced, or not as
what they are; `D` collects their keys.

Two statements of the same shape carry the argument:

* `AgreesOff D (replay cur ms) cur` — the assignments on their way end in the
  current values, so that a copy taken now may be brought up to date with them;
* `AgreesOff D (replay f ms) cur` — so may the values `f` of a follower.

Both survive an announcement (`announceAs`), a change nobody hears of (`silently`)
and the arrival of the first assignment. `snapshot` turns the first into the
second.
-/

namespace Feed

variable {K V : Type*} [DecidableEq K] {D D' : Finset K} {f cur cur' : K → V} {ms : List (K × V)}
  {k : K} {m : K × V}

/-- The values after these assignments. -/
def replay (f : K → V) (ms : List (K × V)) : K → V :=
  ms.foldl (fun f m => Function.update f m.1 m.2) f

@[simp] theorem replay_nil (f : K → V) : replay f [] = f := rfl

theorem replay_cons (f : K → V) (m : K × V) (ms : List (K × V)) :
    replay f (m :: ms) = replay (Function.update f m.1 m.2) ms := rfl

theorem replay_append (f : K → V) (ms ms' : List (K × V)) :
    replay f (ms ++ ms') = replay (replay f ms) ms' := List.foldl_append

/-- A key that is not assigned keeps its value, one that is assigned forgets it. -/
theorem replay_apply (f g : K → V) (ms : List (K × V)) (k : K) :
    replay f ms k = if k ∈ ms.map Prod.fst then replay g ms k else f k := by
  induction ms generalizing f g with
  | nil => rfl
  | cons m ms ih =>
    rw [replay_cons, replay_cons, ih (Function.update f m.1 m.2) (Function.update g m.1 m.2)]
    by_cases hm : k = m.1
    · subst hm
      rw [if_pos (c := m.1 ∈ (m :: ms).map Prod.fst) List.mem_cons_self]
      split
      · rfl
      · rename_i hk
        rw [ih (Function.update g m.1 m.2) f, if_neg hk, Function.update_self, Function.update_self]
    · rw [Function.update_of_ne hm, List.map_cons]
      simp only [List.mem_cons, hm, false_or]

/-- The two differ on these keys at most. -/
def AgreesOff (D : Finset K) (f g : K → V) : Prop := ∀ k, k ∉ D → f k = g k

omit [DecidableEq K] in
theorem AgreesOff.of_eq (h : AgreesOff ∅ f cur) : f = cur :=
  funext fun k => h k (Finset.notMem_empty k)

/-- The keys a follower cannot learn about: what was said last is not so, or nothing was said. -/
def owing [DecidableEq V] (D : Finset K) (k : K) (said actual : V) : Finset K :=
  if said = actual then D.erase k else insert k D

/-- A change is announced, perhaps as something else. -/
theorem AgreesOff.announceAs [DecidableEq V] (h : AgreesOff D (replay f ms) cur) (k : K)
    (said actual : V) : AgreesOff (owing D k said actual) (replay f (ms ++ [(k, said)]))
      (Function.update cur k actual) := by
  intro i hi
  rw [replay_append, replay_cons, replay_nil]
  rw [owing] at hi
  by_cases hik : i = k
  · subst hik
    rw [Function.update_self, Function.update_self]
    split at hi
    · assumption
    · exact absurd (Finset.mem_insert_self ..) hi
  · rw [Function.update_of_ne hik, Function.update_of_ne hik]
    refine h i fun hD => hi ?_
    split
    · exact Finset.mem_erase.mpr ⟨hik, hD⟩
    · exact Finset.mem_insert_of_mem hD

/-- Values change and nothing is said. -/
theorem AgreesOff.silently (h : AgreesOff D f cur) (hsame : ∀ k, k ∉ D' → cur' k = cur k) :
    AgreesOff (D ∪ D') f cur' := by
  intro k hk
  rw [Finset.mem_union, not_or] at hk
  rw [hsame k hk.2]
  exact h k hk.1

/-! ## What is on its way -/

/-- The assignments on their way end in the current values. -/
def Sound (D : Finset K) (ms : List (K × V)) (cur : K → V) : Prop := AgreesOff D (replay cur ms) cur

theorem Sound.nil : Sound D [] cur := fun _ _ => rfl

/-- The base of a replay matters for the keys it leaves alone only. -/
theorem Sound.of_base (h : AgreesOff D (replay cur ms) cur') : Sound D ms cur' := by
  intro k hk
  rw [replay_apply cur' cur]
  split
  · exact h k hk
  · rfl

theorem Sound.announceAs [DecidableEq V] (h : Sound D ms cur) (k : K) (said actual : V) :
    Sound (owing D k said actual) (ms ++ [(k, said)]) (Function.update cur k actual) :=
  Sound.of_base (AgreesOff.announceAs h k said actual)

theorem Sound.silently (h : Sound D ms cur) (hsame : ∀ k, k ∉ D' → cur' k = cur k) :
    Sound (D ∪ D') ms cur' :=
  Sound.of_base (AgreesOff.silently h hsame)

/-- The first assignments have arrived everywhere. -/
theorem Sound.of_append {ms' : List (K × V)} (h : Sound D (ms' ++ ms) cur) : Sound D ms cur := by
  have hreplay : AgreesOff D (replay (replay cur ms') ms) cur := by
    rw [← replay_append]
    exact h
  exact Sound.of_base hreplay

/-- **A copy taken now** misses the keys that owe something and are about to be overwritten. -/
theorem Sound.snapshot (h : Sound D ms cur) :
    AgreesOff (D.filter (· ∈ ms.map Prod.fst)) (replay cur ms) cur := by
  intro k hk
  by_cases hD : k ∈ D
  · rw [replay_apply cur cur, if_neg fun hms => hk (Finset.mem_filter.mpr ⟨hD, hms⟩)]
  · exact h k hD

end Feed
