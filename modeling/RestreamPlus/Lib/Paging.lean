import Mathlib.Data.List.Perm.Subperm
import Mathlib.Data.List.Sort

/-!
# Paging by key

A table is read in pages, greatest key first. A page ends with some row, and the
next one is of the rows whose key is less than that row's: the key of the last row
is all a reader carries over.

No row comes twice and the keys never increase (`visit_sound`), and there is a last
page (`exists_visit`). But a row is skipped when a page ends among rows of its
key; `visit_complete_iff` says exactly when every row comes.
-/

namespace Paging

universe u v

variable {ρ : Type u} {κ : Type v}

/-! ## Where pages end -/

/-- **No page ends among equal keys.** -/
def Untied (limit : ℕ) (keys : List κ) : Prop :=
  ∀ k, 0 < k → k * limit < keys.length → keys[k * limit - 1]? ≠ keys[k * limit]?

section Untied

variable {limit : ℕ} {keys : List κ}

theorem untied_of_length_le (h : keys.length ≤ limit) : Untied limit keys := by
  intro k hk hlt
  have hle : limit ≤ k * limit := Nat.le_mul_of_pos_left limit hk
  omega

/-- The end of the first page, and those of the others. -/
theorem untied_iff (hpos : 0 < limit) (h : limit < keys.length) : Untied limit keys ↔
    keys[limit - 1]? ≠ keys[limit]? ∧ Untied limit (keys.drop limit) := by
  have hmul : ∀ k, (k + 1) * limit = limit + k * limit := by
    intro k
    rw [Nat.succ_mul, Nat.add_comm]
  have hback : ∀ k, 0 < k → (k + 1) * limit - 1 = limit + (k * limit - 1) := by
    intro k hk
    have hkl : 0 < k * limit := Nat.mul_pos hk hpos
    rw [hmul]
    omega
  constructor
  · intro huntied
    refine ⟨?_, fun k hk hlt => ?_⟩
    · have hfirst := huntied 1 Nat.one_pos (by rwa [Nat.one_mul])
      rwa [Nat.one_mul] at hfirst
    · rw [List.length_drop] at hlt
      rw [List.getElem?_drop, List.getElem?_drop, ← hback k hk, ← hmul k]
      exact huntied (k + 1) (Nat.succ_pos k) (by rw [hmul]; omega)
  · rintro ⟨hfirst, hothers⟩ k hk hlt
    obtain _ | _ | k := k
    · exact absurd hk (Nat.lt_irrefl 0)
    · rwa [Nat.zero_add, Nat.one_mul]
    · have hnext := hothers (k + 1) (Nat.succ_pos k)
        (by rw [List.length_drop, Nat.lt_sub_iff_add_lt, Nat.add_comm, ← hmul]; exact hlt)
      rwa [List.getElem?_drop, List.getElem?_drop, ← hback (k + 1) (Nat.succ_pos k),
        ← hmul (k + 1)] at hnext

end Untied

/-! ## Pages -/

variable [LinearOrder κ]

/-- A way to sort rows by a key, the greatest first; ties are its own business. -/
structure Descending (key : ρ → κ) : Type u where
  sort : List ρ → List ρ
  /-- nothing is lost -/
  perm : ∀ rows, (sort rows).Perm rows
  sorted : ∀ rows, (sort rows).Pairwise fun a b => key b ≤ key a

/-- Ties in the order of the table. -/
def Descending.stable (key : ρ → κ) : Descending key where
  sort rows := rows.insertionSort fun a b => key b ≤ key a
  perm rows := List.perm_insertionSort _ rows
  sorted rows := by
    have htotal : Std.Total fun a b : ρ => key b ≤ key a := ⟨fun a b => le_total (key b) (key a)⟩
    have htrans : IsTrans ρ fun a b => key b ≤ key a := ⟨fun a b c hab hbc => hbc.trans hab⟩
    exact List.pairwise_insertionSort (fun a b => key b ≤ key a) rows

/-- The keys of these rows, the greatest first. -/
def sortedKeys (key : ρ → κ) (rows : List ρ) : List κ := (rows.map key).insertionSort (· ≥ ·)

section Visit

variable {key : ρ → κ} (order : Descending key) (limit : ℕ)

/-- The pages of a table, one after the other. -/
def visit : ℕ → List ρ → Option (List (List ρ))
  | 0, _ => none
  | fuel + 1, rows =>
    let page := (order.sort rows).take limit
    if limit < rows.length then
      match page.getLast? with
      | none => some [page]
      | some last => (visit fuel (rows.filter (key · < key last))).map (page :: ·)
    else some [page]

variable {order limit} {rows : List ρ}

variable (order) in
theorem map_sort (rows : List ρ) : (order.sort rows).map key = sortedKeys key rows := by
  have hperm : ((order.sort rows).map key).Perm (sortedKeys key rows) :=
    ((order.perm rows).map key).trans (List.perm_insertionSort _ _).symm
  exact hperm.eq_of_pairwise' (List.pairwise_map.mpr (order.sorted rows))
    (List.pairwise_insertionSort (· ≥ ·) _)

theorem sortedKeys_of_perm {rows' : List ρ} (h : rows.Perm rows') :
    sortedKeys key rows = sortedKeys key rows' :=
  (((List.perm_insertionSort _ _).trans (h.map key)).trans
    (List.perm_insertionSort _ _).symm).eq_of_pairwise' (List.pairwise_insertionSort (· ≥ ·) _)
      (List.pairwise_insertionSort (· ≥ ·) _)

/-! ## Where a page is cut -/

/-- A page that is not the last one, and what it leaves. -/
structure Cut (order : Descending key) (limit : ℕ) (rows page rest : List ρ) (last : ρ) :
    Prop where
  split : order.sort rows = page ++ rest
  length : page.length = limit
  getLast : page.getLast? = some last
  /-- a row of the page -/
  above : ∀ row ∈ page, key last ≤ key row
  /-- a row that is left -/
  below : ∀ row ∈ rest, key row ≤ key last
  ne_nil : rest ≠ []

variable (order) in
theorem exists_cut (hpos : 0 < limit) (h : limit < rows.length) :
    ∃ rest last, Cut order limit rows ((order.sort rows).take limit) rest last := by
  have hlen : (order.sort rows).length = rows.length := (order.perm rows).length_eq
  have hsplit := (List.take_append_drop limit (order.sort rows)).symm
  have hpage : ((order.sort rows).take limit).length = limit := by
    rw [List.length_take, hlen]
    omega
  obtain ⟨init, last, hlast⟩ : ∃ init last, (order.sort rows).take limit = init ++ [last] := by
    have hne : (order.sort rows).take limit ≠ [] := by
      intro hnil
      rw [hnil] at hpage
      exact absurd hpage hpos.ne
    exact ⟨_, _, (List.dropLast_append_getLast hne).symm⟩
  have hsorted := order.sorted rows
  rw [hsplit, List.pairwise_append] at hsorted
  obtain ⟨hfront, -, hcross⟩ := hsorted
  refine ⟨(order.sort rows).drop limit, last, hsplit, hpage, ?_, ?_, ?_, ?_⟩
  · rw [hlast, List.getLast?_concat]
  · intro row hrow
    rw [hlast] at hrow hfront
    rcases List.mem_append.mp hrow with hmem | hmem
    · exact (List.pairwise_append.mp hfront).2.2 row hmem last List.mem_cons_self
    · rw [List.mem_singleton.mp hmem]
  · intro row hrow
    refine hcross last ?_ row hrow
    rw [hlast]
    exact List.mem_append_right _ List.mem_cons_self
  · intro hnil
    have hdrop := congrArg List.length hnil
    rw [List.length_drop, hlen, List.length_nil] at hdrop
    omega

namespace Cut

variable {page rest : List ρ} {last : ρ}

theorem perm (h : Cut order limit rows page rest last) : rows.Perm (page ++ rest) := by
  rw [← h.split]
  exact (order.perm rows).symm

/-- The next page is not of rows of this one. -/
theorem perm_filter (h : Cut order limit rows page rest last) :
    (rows.filter (key · < key last)).Perm (rest.filter (key · < key last)) := by
  have hnone : page.filter (key · < key last) = [] := by
    rw [List.filter_eq_nil_iff]
    intro row hrow hlt
    exact absurd (of_decide_eq_true hlt) (not_lt_of_ge (h.above row hrow))
  have hfilter := h.perm.filter (key · < key last)
  rwa [List.filter_append, hnone, List.nil_append] at hfilter

theorem length_filter_lt (h : Cut order limit rows page rest last) (hpos : 0 < limit) :
    (rows.filter (key · < key last)).length < rows.length := by
  have hle := List.length_filter_le (key · < key last) rest
  rw [h.perm_filter.length_eq, h.perm.length_eq, List.length_append, h.length]
  omega

end Cut

/-! ## Reading to the end -/

/-- The last page has all rows that are left. -/
theorem visit_last (fuel : ℕ) (h : rows.length ≤ limit) :
    visit order limit (fuel + 1) rows = some [order.sort rows] := by
  have hlen : (order.sort rows).length = rows.length := (order.perm rows).length_eq
  rw [visit, if_neg (not_lt_of_ge h), List.take_of_length_le (hlen ▸ h)]

theorem visit_next (fuel : ℕ) {page rest : List ρ} {last : ρ} (h : limit < rows.length)
    (hpage : page = (order.sort rows).take limit) (hcut : Cut order limit rows page rest last) :
    visit order limit (fuel + 1) rows =
      (visit order limit fuel (rows.filter (key · < key last))).map (page :: ·) := by
  rw [visit, if_pos h, ← hpage, hcut.getLast]

/-- Inversion for a table that was read. -/
theorem of_visit (hpos : 0 < limit) {fuel : ℕ} {pages : List (List ρ)}
    (h : visit order limit (fuel + 1) rows = some pages) :
    (rows.length ≤ limit ∧ pages = [order.sort rows]) ∨
      ∃ page rest last pages', Cut order limit rows page rest last ∧
        visit order limit fuel (rows.filter (key · < key last)) = some pages' ∧
          pages = page :: pages' := by
  by_cases hlt : limit < rows.length
  · obtain ⟨rest, last, hcut⟩ := exists_cut order hpos hlt
    rw [visit_next fuel hlt rfl hcut] at h
    obtain ⟨pages', hpages', rfl⟩ := Option.map_eq_some_iff.mp h
    exact .inr ⟨_, rest, last, pages', hcut, hpages', rfl⟩
  · rw [visit_last fuel (not_lt.mp hlt)] at h
    exact .inl ⟨not_lt.mp hlt, (Option.some.inj h).symm⟩

/-- **There is a last page.** -/
theorem exists_visit (hpos : 0 < limit) {fuel : ℕ} (hfuel : rows.length < fuel) :
    ∃ pages, visit order limit fuel rows = some pages := by
  induction fuel generalizing rows with
  | zero => cases hfuel
  | succ fuel ih =>
    by_cases hlt : limit < rows.length
    · obtain ⟨rest, last, hcut⟩ := exists_cut order hpos hlt
      obtain ⟨pages, hpages⟩ := ih (lt_of_lt_of_le (hcut.length_filter_lt hpos)
        (Nat.le_of_lt_succ hfuel))
      exact ⟨_, by rw [visit_next fuel hlt rfl hcut, hpages]; rfl⟩
    · exact ⟨_, visit_last fuel (not_lt.mp hlt)⟩

/-- **No row comes twice, and the keys never increase.** -/
theorem visit_sound (hpos : 0 < limit) {fuel : ℕ} {pages : List (List ρ)}
    (h : visit order limit fuel rows = some pages) :
    pages.flatten.Subperm rows ∧ pages.flatten.Pairwise fun a b => key b ≤ key a := by
  induction fuel generalizing rows pages with
  | zero => cases h
  | succ fuel ih =>
    rcases of_visit hpos h with ⟨-, rfl⟩ | ⟨page, rest, last, pages', hcut, hvisit, rfl⟩
    · rw [List.flatten_singleton]
      exact ⟨(order.perm rows).subperm, order.sorted rows⟩
    · obtain ⟨hsub, hsorted⟩ := ih hvisit
      rw [List.flatten_cons]
      refine ⟨?_, List.pairwise_append.mpr ⟨?_, hsorted, ?_⟩⟩
      · have hrest : pages'.flatten.Subperm rest :=
          (hsub.trans hcut.perm_filter.subperm).trans List.filter_sublist.subperm
        exact ((List.subperm_append_left page).mpr hrest).trans hcut.perm.symm.subperm
      · have hpage := order.sorted rows
        rw [hcut.split] at hpage
        exact (List.pairwise_append.mp hpage).1
      · -- the other pages are below the last row of this one
        intro row hrow row' hrow'
        have hlt := of_decide_eq_true (List.mem_filter.mp (hsub.subset hrow')).2
        exact hlt.le.trans (hcut.above row hrow)

/-! ## When every row comes -/

section Cut

variable {page rest : List ρ} {last : ρ}

theorem Cut.sorted (h : Cut order limit rows page rest last) :
    rest.Pairwise fun a b => key b ≤ key a := by
  have hsorted := order.sorted rows
  rw [h.split] at hsorted
  exact (List.pairwise_append.mp hsorted).2.1

theorem Cut.sortedKeys_rest (h : Cut order limit rows page rest last) :
    sortedKeys key rest = rest.map key :=
  (List.pairwise_map.mpr h.sorted).insertionSort_eq (r := (· ≥ ·))

/-- The keys around the end of a page. -/
theorem Cut.sortedKeys_rows (h : Cut order limit rows page rest last) :
    sortedKeys key rows = page.map key ++ rest.map key := by
  rw [← map_sort order, h.split, List.map_append]

/-- The page ends among equal keys when the next row has the key of its last one. -/
theorem Cut.boundary_iff (h : Cut order limit rows page rest last) (hpos : 0 < limit) :
    (sortedKeys key rows)[limit - 1]? ≠ (sortedKeys key rows)[limit]? ↔
      ∀ row ∈ rest, key row < key last := by
  obtain ⟨next, others, rfl⟩ := List.exists_cons_of_ne_nil h.ne_nil
  have hlast : (sortedKeys key rows)[limit - 1]? = some (key last) := by
    rw [h.sortedKeys_rows, List.getElem?_append_left (by rw [List.length_map, h.length]; omega),
      List.getElem?_map, ← h.length, ← List.getLast?_eq_getElem?, h.getLast]
    rfl
  have hnext : (sortedKeys key rows)[limit]? = some (key next) := by
    rw [h.sortedKeys_rows, List.getElem?_append_right (by rw [List.length_map, h.length]),
      List.length_map, h.length, Nat.sub_self]
    rfl
  rw [hlast, hnext]
  constructor
  · intro hne row hrow
    have hlt : key next < key last :=
      lt_of_le_of_ne (h.below next List.mem_cons_self) fun heq => hne (congrArg some heq.symm)
    rcases List.mem_cons.mp hrow with rfl | hother
    · exact hlt
    · exact lt_of_le_of_lt ((List.pairwise_cons.mp h.sorted).1 row hother) hlt
  · intro hlow heq
    exact (hlow next List.mem_cons_self).ne (Option.some.inj heq).symm

theorem Cut.untied_iff (h : Cut order limit rows page rest last) (hpos : 0 < limit) :
    Untied limit (sortedKeys key rows) ↔
      (∀ row ∈ rest, key row < key last) ∧ Untied limit (sortedKeys key rest) := by
  have hlen : limit < (sortedKeys key rows).length := by
    rw [h.sortedKeys_rows, List.length_append, List.length_map, List.length_map, h.length]
    exact Nat.lt_add_of_pos_right (List.length_pos_of_ne_nil h.ne_nil)
  have hdrop : (sortedKeys key rows).drop limit = sortedKeys key rest := by
    rw [h.sortedKeys_rest, h.sortedKeys_rows]
    exact List.drop_left' (by rw [List.length_map, h.length])
  rw [Paging.untied_iff hpos hlen, hdrop, h.boundary_iff hpos]

/-- Then the next page is of all the rows that are left. -/
theorem Cut.perm_rest (h : Cut order limit rows page rest last)
    (hlow : ∀ row ∈ rest, key row < key last) :
    (rows.filter (key · < key last)).Perm rest := by
  have hall : rest.filter (key · < key last) = rest :=
    List.filter_eq_self.mpr fun row hrow => decide_eq_true (hlow row hrow)
  have hperm := h.perm_filter
  rwa [hall] at hperm

end Cut

/-- **Every row comes exactly when no page ends among equal keys.** -/
theorem visit_complete_iff (hpos : 0 < limit) {fuel : ℕ} {pages : List (List ρ)}
    (h : visit order limit fuel rows = some pages) :
    pages.flatten.Perm rows ↔ Untied limit (sortedKeys key rows) := by
  induction fuel generalizing rows pages with
  | zero => cases h
  | succ fuel ih =>
    rcases of_visit hpos h with ⟨hle, rfl⟩ | ⟨page, rest, last, pages', hcut, hvisit, rfl⟩
    · rw [List.flatten_singleton]
      refine iff_of_true (order.perm rows) (untied_of_length_le ?_)
      rwa [sortedKeys, List.length_insertionSort, List.length_map]
    · have hiff : (∀ row ∈ rest, key row < key last) →
          (pages'.flatten.Perm rest ↔ Untied limit (sortedKeys key rest)) := by
        intro hlow
        have hperm := hcut.perm_rest hlow
        rw [← sortedKeys_of_perm hperm, ← ih hvisit]
        exact ⟨fun hall => hall.trans hperm.symm, fun hall => hall.trans hperm⟩
      rw [hcut.untied_iff hpos, List.flatten_cons]
      constructor
      · intro hall
        have hrest : pages'.flatten.Perm rest :=
          (List.perm_append_left_iff page).mp (hall.trans hcut.perm)
        -- a row that comes later comes from below
        have hlow : ∀ row ∈ rest, key row < key last := by
          intro row hrow
          have hmem := (visit_sound hpos hvisit).1.subset (hrest.symm.subset hrow)
          exact of_decide_eq_true (List.mem_filter.mp hmem).2
        exact ⟨hlow, (hiff hlow).mp hrest⟩
      · rintro ⟨hlow, huntied⟩
        exact ((List.perm_append_left_iff page).mpr ((hiff hlow).mpr huntied)).trans
          hcut.perm.symm

end Visit

end Paging
