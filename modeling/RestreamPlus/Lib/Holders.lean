import Mathlib.Data.Set.Insert

/-!
# Holders of shared keys

Some holders each rely on a key being registered, and the register is a set: it
does not count how many holders a key has. Taking a key out when one holder
leaves therefore strands every other holder of that key.

`Covered` is the invariant users want, `Owned` says the register holds nothing
without a holder, and `covered_release_iff` says exactly when a departure keeps
the first.
-/

namespace Holders

universe u v

variable {H : Type u} {K : Type v}

/-- Every holder's key is registered. -/
def Covered (held : H → Option K) (reg : Set K) : Prop :=
  ∀ h k, held h = some k → k ∈ reg

/-- Every registered key outside `base` has a holder. -/
def Owned (base : Set K) (held : H → Option K) (reg : Set K) : Prop :=
  ∀ k ∈ reg, k ∈ base ∨ ∃ h, held h = some k

/-- Another holder relies on the key of `h`. -/
def Shared (held : H → Option K) (h : H) : Prop :=
  ∃ h', h' ≠ h ∧ ∃ k, held h = some k ∧ held h' = some k

/-- `held'` is `held` with the entry of `h` set to `o`. -/
def Sets (held held' : H → Option K) (h : H) (o : Option K) : Prop :=
  held' h = o ∧ ∀ h', h' ≠ h → held' h' = held h'

variable {base reg : Set K} {held held' : H → Option K} {h : H} {k : K}

/-- A holder arrives with its key. -/
theorem Covered.hold (hc : Covered held reg) (hs : Sets held held' h (some k)) :
    Covered held' (insert k reg) := by
  intro h' k' hk'
  by_cases hh : h' = h
  · rw [hh, hs.1] at hk'
    exact Set.mem_insert_iff.mpr (.inl (Option.some.inj hk').symm)
  · rw [hs.2 h' hh] at hk'
    exact Set.mem_insert_of_mem k (hc h' k' hk')

/-- A holder that leaves with an unshared key strands nobody. -/
theorem Covered.release (hc : Covered held reg) (hk : held h = some k)
    (hs : Sets held held' h none) (hns : ¬ Shared held h) : Covered held' (reg \ {k}) := by
  intro h' k' hk'
  by_cases hh : h' = h
  · rw [hh, hs.1] at hk'
    cases hk'
  · rw [hs.2 h' hh] at hk'
    refine ⟨hc h' k' hk', ?_⟩
    rintro rfl
    exact hns ⟨h', hh, k', hk, hk'⟩

/-- A holder that leaves with a shared key strands the others. -/
theorem not_covered_release (hk : held h = some k) (hs : Sets held held' h none)
    (hsh : Shared held h) : ¬ Covered held' (reg \ {k}) := by
  obtain ⟨h', hne, k', hk', hkh'⟩ := hsh
  obtain rfl : k = k' := by
    rw [hk] at hk'
    exact Option.some.inj hk'
  intro hc
  exact (hc h' k (by rw [hs.2 h' hne]; exact hkh')).2 rfl

/-- **When a departure is safe**: exactly when nobody shares the key. -/
theorem covered_release_iff (hc : Covered held reg) (hk : held h = some k)
    (hs : Sets held held' h none) : Covered held' (reg \ {k}) ↔ ¬ Shared held h :=
  ⟨fun hc' hsh => not_covered_release hk hs hsh hc', hc.release hk hs⟩

theorem Owned.hold (ho : Owned base held reg) (hh : held h = none)
    (hs : Sets held held' h (some k)) : Owned base held' (insert k reg) := by
  intro k' hk'
  rcases Set.mem_insert_iff.mp hk' with rfl | hk'
  · exact .inr ⟨h, hs.1⟩
  · rcases ho k' hk' with hb | ⟨h', hk'⟩
    · exact .inl hb
    · have hne : h' ≠ h := by
        rintro rfl
        rw [hh] at hk'
        cases hk'
      exact .inr ⟨h', by rw [hs.2 h' hne]; exact hk'⟩

theorem Owned.release (ho : Owned base held reg) (hk : held h = some k)
    (hs : Sets held held' h none) : Owned base held' (reg \ {k}) := by
  rintro k' ⟨hmem, hne⟩
  rcases ho k' hmem with hb | ⟨h', hk'⟩
  · exact .inl hb
  · have hh : h' ≠ h := by
      rintro rfl
      rw [hk] at hk'
      exact hne (Option.some.inj hk').symm
    exact .inr ⟨h', by rw [hs.2 h' hh]; exact hk'⟩

/-- Without holders only the base remains. -/
theorem Owned.subset_base (ho : Owned base held reg) (hnone : ∀ h, held h = none) :
    reg ⊆ base := by
  intro k hk
  rcases ho k hk with hb | ⟨h, hh⟩
  · exact hb
  · rw [hnone h] at hh
    cases hh

end Holders
