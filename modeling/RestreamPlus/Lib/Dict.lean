import Mathlib.Data.List.Basic
import Mathlib.Data.List.Nodup

/-!
# Insertion-ordered dictionaries

A `Dict` is a list of key-value pairs with pairwise distinct keys; the
distinctness is a field, so a dictionary with two values for one key cannot be
built. Storing under a key that is present keeps the key's place, storing under
a new key appends, which is the order `keys` and `values` iterate in.

Proofs work with `get?` alone: `get?_insert`, `get?_erase` and `mem_keys` say
everything about one operation.
-/

universe u v

/-- A finite map that remembers the order of first insertion. -/
structure Dict (K : Type u) (V : Type v) : Type (max u v) where
  /-- the stored pairs, oldest first -/
  entries : List (K × V)
  /-- no key is stored twice -/
  nodup : (entries.map Prod.fst).Nodup
  deriving DecidableEq

namespace Dict

variable {K : Type u} {V : Type v}

/-- The dictionary without entries. -/
def empty : Dict K V := ⟨[], List.nodup_nil⟩

instance : EmptyCollection (Dict K V) := ⟨empty⟩

/-- The keys in order of first insertion. -/
def keys (d : Dict K V) : List K := d.entries.map Prod.fst

/-- The values in order of first insertion of their keys. -/
def values (d : Dict K V) : List V := d.entries.map Prod.snd

variable [DecidableEq K]

/-- The value stored under a key. -/
def get? (d : Dict K V) (k : K) : Option V := d.entries.lookup k

/-- Replace the value under `k` where it stands. -/
def replaceEntry (k : K) (v : V) (e : K × V) : K × V := if e.1 = k then (k, v) else e

theorem map_fst_replaceEntry (k : K) (v : V) (l : List (K × V)) :
    (l.map (replaceEntry k v)).map Prod.fst = l.map Prod.fst := by
  rw [List.map_map]
  refine List.map_congr_left fun e _ => ?_
  by_cases h : e.1 = k
  · simp [replaceEntry, h]
  · simp [replaceEntry, h]

/-- Store `v` under `k`: in place if the key is present, at the end otherwise. -/
def insert (d : Dict K V) (k : K) (v : V) : Dict K V :=
  if h : k ∈ d.keys then
    ⟨d.entries.map (replaceEntry k v), by rw [map_fst_replaceEntry]; exact d.nodup⟩
  else
    ⟨d.entries ++ [(k, v)], by
      rw [List.map_append]
      refine List.Nodup.append d.nodup (List.nodup_singleton _) ?_
      intro x hx hx'
      obtain rfl : x = k := by simpa using hx'
      exact h hx⟩

/-- Remove the entry under `k`, if there is one. -/
def erase (d : Dict K V) (k : K) : Dict K V :=
  ⟨d.entries.filter fun e => e.1 ≠ k, (d.nodup.sublist (List.filter_sublist.map _))⟩

/-- Apply a function to every value. -/
def mapValues {W : Type*} (f : V → W) (d : Dict K V) : Dict K W :=
  ⟨d.entries.map fun e => (e.1, f e.2), by
    rw [List.map_map]
    exact d.nodup⟩

/-- Apply a function to the value under `k`, if there is one. -/
def modify (d : Dict K V) (k : K) (f : V → V) : Dict K V :=
  match d.get? k with
  | none => d
  | some v => d.insert k (f v)

/-- The entries whose value passes a test. -/
def filterValues (p : V → Bool) (d : Dict K V) : Dict K V :=
  ⟨d.entries.filter fun e => p e.2, (d.nodup.sublist (List.filter_sublist.map _))⟩

/-- A dictionary from pairs stored one after the other. -/
def ofList (l : List (K × V)) : Dict K V := l.foldl (fun d e => d.insert e.1 e.2) ∅

/-! ## What `get?` sees -/

theorem lookup_append_single (l : List (K × V)) (k k' : K) (v : V) :
    (l ++ [(k, v)]).lookup k' = (l.lookup k').or (if k' = k then some v else none) := by
  induction l with
  | nil =>
    by_cases h : k' = k
    · simp [h]
    · simp [List.lookup_cons, beq_false_of_ne h, h]
  | cons e l ih =>
    obtain ⟨k₀, v₀⟩ := e
    by_cases h : k' = k₀
    · simp [h]
    · simpa [List.lookup_cons, beq_false_of_ne h] using ih

theorem lookup_eq_none_of_not_mem {l : List (K × V)} {k : K} (h : k ∉ l.map Prod.fst) :
    l.lookup k = none := by
  induction l with
  | nil => rfl
  | cons e l ih =>
    obtain ⟨k₀, v₀⟩ := e
    rw [List.map_cons, List.mem_cons, not_or] at h
    have h₀ : (k == k₀) = false := beq_false_of_ne h.1
    rw [List.lookup_cons, h₀]
    exact ih h.2

theorem mem_map_fst_of_lookup {l : List (K × V)} {k : K} {v : V} (h : l.lookup k = some v) :
    k ∈ l.map Prod.fst := by
  by_contra hno
  rw [lookup_eq_none_of_not_mem hno] at h
  cases h

theorem exists_lookup_of_mem {l : List (K × V)} {k : K} (h : k ∈ l.map Prod.fst) :
    ∃ v, l.lookup k = some v := by
  induction l with
  | nil => cases h
  | cons e l ih =>
    obtain ⟨k₀, v₀⟩ := e
    by_cases h₀ : k = k₀
    · exact ⟨v₀, by simp [h₀]⟩
    · obtain ⟨v, hv⟩ := ih (by simpa [h₀] using h)
      exact ⟨v, by simpa [List.lookup_cons, beq_false_of_ne h₀] using hv⟩

theorem mem_of_lookup {l : List (K × V)} {k : K} {v : V} (h : l.lookup k = some v) :
    (k, v) ∈ l := by
  induction l with
  | nil => cases h
  | cons e l ih =>
    obtain ⟨k₀, v₀⟩ := e
    by_cases h₀ : k = k₀
    · simp_all
    · exact List.mem_cons_of_mem _ (ih (by simpa [List.lookup_cons, beq_false_of_ne h₀] using h))

theorem lookup_of_mem {l : List (K × V)} (hnd : (l.map Prod.fst).Nodup) {k : K} {v : V}
    (h : (k, v) ∈ l) : l.lookup k = some v := by
  induction l with
  | nil => cases h
  | cons e l ih =>
    obtain ⟨k₀, v₀⟩ := e
    rw [List.map_cons, List.nodup_cons] at hnd
    rcases List.mem_cons.mp h with heq | hl
    · cases heq
      simp
    · have hne : k ≠ k₀ := by
        rintro rfl
        exact hnd.1 (List.mem_map.mpr ⟨(k, v), hl, rfl⟩)
      simpa [List.lookup_cons, beq_false_of_ne hne] using ih hnd.2 hl

theorem lookup_map_snd {W : Type*} (f : V → W) (l : List (K × V)) (k : K) :
    (l.map fun e => (e.1, f e.2)).lookup k = (l.lookup k).map f := by
  induction l with
  | nil => rfl
  | cons e l ih =>
    obtain ⟨k₀, v₀⟩ := e
    by_cases h : k = k₀
    · simp [h]
    · simpa [List.lookup_cons, beq_false_of_ne h] using ih

theorem lookup_map_replaceEntry (l : List (K × V)) (k k' : K) (v : V) :
    (l.map (replaceEntry k v)).lookup k' =
      if k' = k then (l.lookup k').map fun _ => v else l.lookup k' := by
  induction l with
  | nil => by_cases h : k' = k <;> simp [h]
  | cons e l ih =>
    obtain ⟨k₀, v₀⟩ := e
    rw [List.map_cons]
    by_cases h₀ : k₀ = k
    · subst h₀
      by_cases h : k' = k₀
      · simp [replaceEntry, h]
      · simpa [replaceEntry, List.lookup_cons, beq_false_of_ne h, h] using ih
    · have hr : replaceEntry k v (k₀, v₀) = (k₀, v₀) := if_neg h₀
      rw [hr]
      by_cases h : k' = k₀
      · subst h
        simp [h₀]
      · simpa [List.lookup_cons, beq_false_of_ne h] using ih

theorem lookup_filter_ne (l : List (K × V)) (k k' : K) :
    (l.filter fun e => e.1 ≠ k).lookup k' = if k' = k then none else l.lookup k' := by
  induction l with
  | nil => by_cases h : k' = k <;> simp [h]
  | cons e l ih =>
    obtain ⟨k₀, v₀⟩ := e
    by_cases h₀ : k₀ = k
    · subst h₀
      rw [List.filter_cons_of_neg (by simp)]
      by_cases h : k' = k₀
      · simpa [h] using ih
      · simpa [List.lookup_cons, beq_false_of_ne h, h] using ih
    · rw [List.filter_cons_of_pos (by simpa using h₀)]
      by_cases h : k' = k₀
      · subst h
        simp [h₀]
      · simpa [List.lookup_cons, beq_false_of_ne h] using ih

theorem mem_keys {d : Dict K V} {k : K} : k ∈ d.keys ↔ ∃ v, d.get? k = some v :=
  ⟨exists_lookup_of_mem, fun ⟨_, hv⟩ => mem_map_fst_of_lookup hv⟩

theorem not_mem_keys {d : Dict K V} {k : K} : k ∉ d.keys ↔ d.get? k = none := by
  rw [mem_keys, ← Option.not_isSome_iff_eq_none, Option.isSome_iff_exists]

@[simp] theorem get?_empty (k : K) : (∅ : Dict K V).get? k = none := rfl

theorem get?_insert (d : Dict K V) (k k' : K) (v : V) :
    (d.insert k v).get? k' = if k' = k then some v else d.get? k' := by
  by_cases hk : k ∈ d.keys
  · rw [insert, dif_pos hk]
    refine (lookup_map_replaceEntry d.entries k k' v).trans ?_
    by_cases h : k' = k
    · subst h
      obtain ⟨w, hw⟩ := mem_keys.mp hk
      rw [if_pos rfl, if_pos rfl, show d.entries.lookup k' = some w from hw]
      rfl
    · rw [if_neg h, if_neg h]
      rfl
  · rw [insert, dif_neg hk]
    refine (lookup_append_single d.entries k k' v).trans ?_
    by_cases h : k' = k
    · subst h
      rw [show d.entries.lookup k' = none from not_mem_keys.mp hk, if_pos rfl, if_pos rfl]
      rfl
    · rw [if_neg h, if_neg h, Option.or_none]
      rfl

@[simp] theorem get?_insert_self (d : Dict K V) (k : K) (v : V) :
    (d.insert k v).get? k = some v := by
  rw [get?_insert, if_pos rfl]

theorem get?_insert_ne (d : Dict K V) {k k' : K} (v : V) (h : k' ≠ k) :
    (d.insert k v).get? k' = d.get? k' := by
  rw [get?_insert, if_neg h]

theorem get?_erase (d : Dict K V) (k k' : K) :
    (d.erase k).get? k' = if k' = k then none else d.get? k' :=
  lookup_filter_ne d.entries k k'

@[simp] theorem get?_erase_self (d : Dict K V) (k : K) : (d.erase k).get? k = none := by
  rw [get?_erase, if_pos rfl]

theorem get?_erase_ne (d : Dict K V) {k k' : K} (h : k' ≠ k) :
    (d.erase k).get? k' = d.get? k' := by
  rw [get?_erase, if_neg h]

theorem get?_mapValues {W : Type*} (f : V → W) (d : Dict K V) (k : K) :
    (d.mapValues f).get? k = (d.get? k).map f :=
  lookup_map_snd f d.entries k

theorem get?_modify (d : Dict K V) (k k' : K) (f : V → V) :
    (d.modify k f).get? k' = if k' = k then (d.get? k).map f else d.get? k' := by
  rw [modify]
  rcases hv : d.get? k with _ | v
  · dsimp only
    split
    · rename_i heq
      rw [heq, hv]
      rfl
    · rfl
  · exact get?_insert d k k' (f v)

theorem lookup_filter_snd (p : V → Bool) {l : List (K × V)} (hnd : (l.map Prod.fst).Nodup) (k : K) :
    (l.filter fun e => p e.2).lookup k = (l.lookup k).filter p := by
  induction l with
  | nil => rfl
  | cons e l ih =>
    obtain ⟨k₀, v₀⟩ := e
    obtain ⟨hno, hnd⟩ := List.nodup_cons.mp hnd
    have ih := ih hnd
    by_cases hk : k = k₀
    · subst hk
      by_cases hp : p v₀ = true
      · simp [List.filter_cons_of_pos, Option.filter, hp]
      · rw [List.filter_cons_of_neg (by simpa using hp), ih, lookup_eq_none_of_not_mem hno]
        simp [Option.filter, hp]
    · by_cases hp : p v₀ = true
      · simpa [List.filter_cons_of_pos, List.lookup_cons, hp, beq_false_of_ne hk] using ih
      · simpa [List.lookup_cons, hp, beq_false_of_ne hk] using ih

theorem get?_filterValues (p : V → Bool) (d : Dict K V) (k : K) :
    (d.filterValues p).get? k = (d.get? k).filter p :=
  lookup_filter_snd p d.nodup k

/-- A key taken out was present before. -/
theorem get?_of_get?_erase {d : Dict K V} {k k' : K} {v : V}
    (h : (d.erase k).get? k' = some v) : k' ≠ k ∧ d.get? k' = some v := by
  rw [get?_erase] at h
  by_cases hk : k' = k
  · rw [if_pos hk] at h
    cases h
  · rw [if_neg hk] at h
    exact ⟨hk, h⟩

theorem mem_entries {d : Dict K V} {k : K} {v : V} :
    (k, v) ∈ d.entries ↔ d.get? k = some v :=
  ⟨lookup_of_mem d.nodup, mem_of_lookup⟩

theorem mem_values {d : Dict K V} {v : V} : v ∈ d.values ↔ ∃ k, d.get? k = some v := by
  unfold values
  rw [List.mem_map]
  constructor
  · rintro ⟨⟨k, w⟩, hmem, rfl⟩
    exact ⟨k, mem_entries.mp hmem⟩
  · rintro ⟨k, hk⟩
    exact ⟨(k, v), mem_entries.mpr hk, rfl⟩

/-- What a dictionary of pairs stores is one of them. -/
theorem mem_of_get?_ofList {l : List (K × V)} {k : K} {v : V} (h : (ofList l).get? k = some v) :
    (k, v) ∈ l := by
  suffices hfold : ∀ (l : List (K × V)) (d : Dict K V),
      (l.foldl (fun d e => d.insert e.1 e.2) d).get? k = some v → d.get? k = some v ∨ (k, v) ∈ l by
    rcases hfold l ∅ h with hd | hl
    · cases hd
    · exact hl
  intro l
  induction l with
  | nil => exact fun d hd => .inl hd
  | cons e l ih =>
    intro d hd
    rcases ih _ hd with hd | hl
    · rw [get?_insert] at hd
      split at hd
      · rename_i hk
        obtain rfl := Option.some.inj hd
        exact .inr (hk ▸ List.mem_cons_self)
      · exact .inl hd
    · exact .inr (List.mem_cons_of_mem e hl)

/-- Every key of the pairs is stored. -/
theorem isSome_get?_ofList {l : List (K × V)} {k : K} (h : k ∈ l.map Prod.fst) :
    ((ofList l).get? k).isSome := by
  suffices hfold : ∀ (l : List (K × V)) (d : Dict K V), (d.get? k).isSome ∨ k ∈ l.map Prod.fst →
      ((l.foldl (fun d e => d.insert e.1 e.2) d).get? k).isSome from hfold l ∅ (.inr h)
  intro l
  induction l with
  | nil =>
    rintro d (hd | hl)
    · exact hd
    · cases hl
  | cons e l ih =>
    intro d hd
    refine ih _ ?_
    rw [get?_insert]
    by_cases hk : k = e.1
    · simp [hk]
    · simpa [hk] using hd

/-! ## Which keys are stored -/

/-- A new key goes to the end. -/
theorem entries_insert {d : Dict K V} {k : K} (h : k ∉ d.keys) (v : V) :
    (d.insert k v).entries = d.entries ++ [(k, v)] := by
  rw [insert, dif_neg h]

theorem keys_insert (d : Dict K V) (k : K) (v : V) :
    (d.insert k v).keys = if k ∈ d.keys then d.keys else d.keys ++ [k] := by
  by_cases h : k ∈ d.keys
  · rw [if_pos h, insert, dif_pos h]
    exact map_fst_replaceEntry k v d.entries
  · rw [if_neg h, keys, entries_insert h, List.map_append]
    rfl

theorem eq_or_mem_of_mem_keys_insert {d : Dict K V} {k k' : K} {v : V}
    (h : k' ∈ (d.insert k v).keys) : k' = k ∨ k' ∈ d.keys := by
  rw [keys_insert] at h
  split at h
  · exact .inr h
  · rcases List.mem_append.mp h with hold | hnew
    · exact .inr hold
    · exact .inl (List.mem_singleton.mp hnew)

theorem keys_erase (d : Dict K V) (k : K) : (d.erase k).keys = d.keys.filter (· ≠ k) := by
  rw [keys, erase, keys, List.filter_map]
  rfl

/-- One key fewer. -/
theorem length_keys_erase {d : Dict K V} {k : K} (h : k ∈ d.keys) :
    (d.erase k).keys.length + 1 = d.keys.length := by
  have hnodup : d.keys.Nodup := d.nodup
  have hfilter : d.keys.filter (· ≠ k) = d.keys.erase k := by
    rw [hnodup.erase_eq_filter k]
    refine List.filter_congr fun a _ => ?_
    by_cases ha : a = k <;> simp [ha]
  rw [keys_erase, hfilter, (List.perm_cons_erase h).length_eq, List.length_cons]

/-- Nothing is stored exactly when no key answers. -/
theorem keys_eq_nil {d : Dict K V} : d.keys = [] ↔ ∀ k, d.get? k = none := by
  constructor
  · intro h k
    exact not_mem_keys.mp (by rw [h]; exact List.not_mem_nil)
  · intro h
    rw [List.eq_nil_iff_forall_not_mem]
    exact fun k => not_mem_keys.mpr (h k)

end Dict
