import Mathlib.Data.Rat.Defs
import RestreamPlus.Domain.Target
import RestreamPlus.Lib.Paging

/-!
# The run history, page by page (`app/api/sessions_history.py`)

`GET /api/sessions` gives the runs with the newest first, and with a page the time
that the next one is to be asked with. The table knows a time to the second, and the
repository asks for runs before that time, so what a reader sees is paging by
key (`followPages_eq_visit`).

No run is shown twice. But runs of the same second are skipped when a page ends among
them: `run_history_complete_iff` says exactly when every run is shown.
-/

namespace RestreamPlus

open Paging

/-! ## Times (`app/db/types.py`) -/

/-- A `datetime`; a naive one has no timezone. -/
inductive Datetime : Type where
  | aware : ℚ → Datetime
  | naive
  deriving DecidableEq

namespace UTCEpochSeconds

/-- `UTCEpochSeconds.process_bind_param`: what is less than a second is cut off. -/
def processBindParam : Datetime → Except String ℤ
  | .naive => .error ("naive datetime is not allowed in DB columns; " ++
      "construct as datetime.now(tz=UTC) or similar")
  | .aware time => .ok (time.num.tdiv time.den)

/-- `UTCEpochSeconds.process_result_value`. -/
def processResultValue (value : ℤ) : ℚ := value

/-- **A time that was read** is found again. -/
theorem bind_result (value : ℤ) :
    processBindParam (.aware (processResultValue value)) = .ok value := by
  rw [processBindParam, processResultValue, Rat.num_intCast, Rat.den_intCast]
  exact congrArg Except.ok (Int.tdiv_one value)

theorem processResultValue_le {a b : ℤ} :
    processResultValue a ≤ processResultValue b ↔ a ≤ b := Rat.intCast_le_intCast

end UTCEpochSeconds

/-! ## The repository (`app/repositories/sessions_history.py`) -/

/-- A row of `sessions_history`. -/
structure SessionsHistoryRow : Type where
  id : RunId
  startedAt : ℤ
  endedAt : Option ℤ
  endReason : Option EndReason
  deriving DecidableEq

/-- `RunSessionDTO`. -/
structure RunSession : Type where
  id : RunId
  startedAt : ℚ
  endedAt : Option ℚ
  endReason : Option EndReason

/-- `RunSessionDTO.from_orm`. -/
def RunSession.fromOrm (row : SessionsHistoryRow) : RunSession where
  id := row.id
  startedAt := UTCEpochSeconds.processResultValue row.startedAt
  endedAt := row.endedAt.map UTCEpochSeconds.processResultValue
  endReason := row.endReason

/-- The order of a query, with ties as the database has them. -/
abbrev StartedAtDesc : Type := Descending SessionsHistoryRow.startedAt

/-- The `WHERE` clause of `list_recent`. -/
def selectBefore (rows : List SessionsHistoryRow) :
    Option Datetime → Except String (List SessionsHistoryRow)
  | none => .ok rows
  | some before =>
    (UTCEpochSeconds.processBindParam before).map fun bound =>
      rows.filter (·.startedAt < bound)

/-- `SessionsHistoryRepository.list_recent`. -/
def listRecent (order : StartedAtDesc) (rows : List SessionsHistoryRow) (limit : ℕ)
    (before : Option Datetime) : Except String (List RunSession) :=
  if limit = 0 then .error "limit must be positive"
  else match before with
    | some .naive => .error "before must be timezone-aware"
    | none | some (.aware _) => (selectBefore rows before).map fun selected =>
        ((order.sort selected).take limit).map RunSession.fromOrm

/-! ## The endpoint -/

/-- `RunHistoryItem`. -/
structure RunHistoryItem : Type where
  id : RunId
  startedAt : ℚ
  endedAt : Option ℚ
  endReason : Option EndReason
  durationSeconds : Option ℚ

/-- `RunHistoryPage`. -/
structure RunHistoryPage : Type where
  items : List RunHistoryItem
  nextBefore : Option ℚ

/-- `compute_duration_seconds`. -/
def computeDurationSeconds (startedAt : ℚ) (endedAt : Option ℚ) : Option ℚ :=
  endedAt.map (· - startedAt)

/-- What is shown of a run. -/
def RunHistoryItem.of (r : RunSession) : RunHistoryItem where
  id := r.id
  startedAt := r.startedAt
  endedAt := r.endedAt
  endReason := r.endReason
  durationSeconds := computeDurationSeconds r.startedAt r.endedAt

/-- The limit of a request, as the query parameter is declared. -/
structure PageLimit : Type where
  value : ℕ
  /-- `ge=1` -/
  ge : 1 ≤ value
  /-- `le=200` -/
  le : value ≤ 200

/-- The limit of a request without one. -/
def PageLimit.default : PageLimit := ⟨50, by decide, by decide⟩

/-- `list_run_history`: one row more than the limit tells whether there is a next page. -/
def listRunHistory (order : StartedAtDesc) (rows : List SessionsHistoryRow) (limit : PageLimit)
    (before : Option Datetime) : Except String RunHistoryPage :=
  (listRecent order rows (limit.value + 1) before).map fun found =>
    let hasMore := limit.value < found.length
    let page := found.take limit.value
    { items := page.map RunHistoryItem.of
      nextBefore := if hasMore then page.getLast?.map RunSession.startedAt else none }

/-- A reader asks for the next page until there is none. -/
def followPages (order : StartedAtDesc) (rows : List SessionsHistoryRow) (limit : PageLimit) :
    ℕ → Option ℚ → Option (List RunHistoryPage)
  | 0, _ => none
  | fuel + 1, before =>
    match listRunHistory order rows limit (before.map .aware) with
    | .error _ => none
    | .ok page =>
      match page.nextBefore with
      | none => some [page]
      | some nextBefore => (followPages order rows limit fuel (some nextBefore)).map (page :: ·)

/-- What a reader has seen. -/
def itemsOf (pages : List RunHistoryPage) : List RunHistoryItem :=
  pages.flatMap RunHistoryPage.items

/-- The items of these rows. -/
def itemsOfRows (rows : List SessionsHistoryRow) : List RunHistoryItem :=
  rows.map fun row => RunHistoryItem.of (RunSession.fromOrm row)

/-- **Every run once, the newest first**: what a reader sees who follows the pages to
the end. -/
def Complete (order : StartedAtDesc) (rows : List SessionsHistoryRow) (limit : PageLimit) : Prop :=
  ∃ fuel pages, followPages order rows limit fuel none = some pages ∧
    (itemsOf pages).Perm (itemsOfRows rows) ∧
      (itemsOf pages).Pairwise fun a b => b.startedAt ≤ a.startedAt

/-! ## A page of rows -/

section Pages

variable {order : StartedAtDesc} {rows : List SessionsHistoryRow} {limit : PageLimit}

/-- The rows a page is taken from. -/
def older (before : Option ℚ) (rows : List SessionsHistoryRow) : List SessionsHistoryRow :=
  match before with
  | none => rows
  | some time => rows.filter (·.startedAt < time.num.tdiv time.den)

theorem listRecent_eq (limit : ℕ) (before : Option ℚ) :
    listRecent order rows (limit + 1) (before.map .aware) =
      .ok (((order.sort (older before rows)).take (limit + 1)).map RunSession.fromOrm) := by
  cases before with
  | none => rw [Option.map_none, listRecent, if_neg (Nat.succ_ne_zero limit)]; rfl
  | some time => rw [Option.map_some, listRecent, if_neg (Nat.succ_ne_zero limit)]; rfl

variable (order rows limit) in
/-- The page of a request: its rows in their order, and the time of the last one if
there are more. -/
theorem listRunHistory_eq (before : Option ℚ) :
    ∃ page, listRunHistory order rows limit (before.map .aware) = .ok page ∧
      page.items = itemsOfRows ((order.sort (older before rows)).take limit.value) ∧
        page.nextBefore = if limit.value < (older before rows).length then
          ((order.sort (older before rows)).take limit.value).getLast?.map fun row =>
            UTCEpochSeconds.processResultValue row.startedAt else none := by
  have hlen : (order.sort (older before rows)).length = (older before rows).length :=
    (order.perm _).length_eq
  rw [listRunHistory, listRecent_eq]
  refine ⟨_, rfl, ?_, ?_⟩
  · dsimp only
    rw [← List.map_take, List.take_take, Nat.min_eq_left (Nat.le_succ _), List.map_map]
    rfl
  · dsimp only
    rw [← List.map_take, List.take_take, Nat.min_eq_left (Nat.le_succ _), List.length_map,
      List.length_take, hlen, List.getLast?_map, Option.map_map]
    have hiff : limit.value < min (limit.value + 1) (older before rows).length ↔
        limit.value < (older before rows).length := by omega
    simp only [hiff]
    rfl

/-- **The next page** is of the rows below the last one. -/
theorem older_last {before : Option ℚ} {last : SessionsHistoryRow}
    (h : last ∈ older before rows) :
    older (some (UTCEpochSeconds.processResultValue last.startedAt)) rows =
      (older before rows).filter (·.startedAt < last.startedAt) := by
  have hbound : (UTCEpochSeconds.processResultValue last.startedAt).num.tdiv
      (UTCEpochSeconds.processResultValue last.startedAt).den = last.startedAt :=
    Except.ok.inj (UTCEpochSeconds.bind_result last.startedAt)
  rw [older, hbound]
  cases before with
  | none => rfl
  | some time =>
    rw [older, List.filter_filter]
    refine List.filter_congr fun row _ => ?_
    have hlast := of_decide_eq_true (List.mem_filter.mp h).2
    by_cases hlt : row.startedAt < last.startedAt
    · simp [hlt, hlt.trans hlast]
    · simp [hlt]

theorem itemsOfRows_append (rows rows' : List SessionsHistoryRow) :
    itemsOfRows (rows ++ rows') = itemsOfRows rows ++ itemsOfRows rows' := List.map_append

variable (order rows limit) in
/-- **What a reader sees is paging by key.** -/
theorem followPages_eq_visit (fuel : ℕ) (before : Option ℚ) :
    (followPages order rows limit fuel before).map itemsOf =
      (visit order limit.value fuel (older before rows)).map fun pages =>
        itemsOfRows pages.flatten := by
  induction fuel generalizing before with
  | zero => rfl
  | succ fuel ih =>
    obtain ⟨page, hpage, hitems, hnext⟩ := listRunHistory_eq order rows limit before
    rw [followPages, hpage]
    dsimp only
    by_cases hlt : limit.value < (older before rows).length
    · -- what the next request finds is what this page leaves below its last row
      obtain ⟨rest, last, hcut⟩ := exists_cut order limit.ge hlt
      have hlast : last ∈ older before rows := by
        have hmem := List.mem_of_getLast? hcut.getLast
        exact (order.perm _).subset (List.take_subset _ _ hmem)
      have ih := ih (some (UTCEpochSeconds.processResultValue last.startedAt))
      rw [older_last hlast] at ih
      rw [if_pos hlt, hcut.getLast, Option.map_some] at hnext
      rw [hnext, visit_next fuel hlt rfl hcut]
      dsimp only
      have hcons : itemsOf ∘ (page :: ·) = (page.items ++ ·) ∘ itemsOf := rfl
      rw [Option.map_map, hcons, ← Option.map_map, ih, Option.map_map, Option.map_map, hitems]
      congr 1
      funext pages
      exact (itemsOfRows_append _ _).symm
    · have hle := not_lt.mp hlt
      rw [if_neg hlt] at hnext
      have hall : (order.sort (older before rows)).take limit.value =
          order.sort (older before rows) :=
        List.take_of_length_le ((order.perm _).length_eq.trans_le hle)
      rw [hall] at hitems
      rw [hnext, visit_last fuel hle, Option.map_some, Option.map_some, List.flatten_singleton,
        ← hitems]
      exact congrArg some (List.append_nil page.items)

/-- What a reader has seen is what the pages by key hold. -/
theorem exists_visit_of_followPages {fuel : ℕ} {pages : List RunHistoryPage}
    (h : followPages order rows limit fuel none = some pages) :
    ∃ visited, visit order limit.value fuel rows = some visited ∧
      itemsOf pages = itemsOfRows visited.flatten := by
  have heq := followPages_eq_visit order rows limit fuel none
  rw [h] at heq
  obtain ⟨visited, hvisited, hitems⟩ := Option.map_eq_some_iff.mp heq.symm
  exact ⟨visited, hvisited, hitems.symm⟩

theorem pairwise_itemsOfRows {rows : List SessionsHistoryRow}
    (h : rows.Pairwise fun a b => b.startedAt ≤ a.startedAt) :
    (itemsOfRows rows).Pairwise fun a b => b.startedAt ≤ a.startedAt :=
  List.pairwise_map.mpr (h.imp UTCEpochSeconds.processResultValue_le.mpr)

variable (order rows limit) in
/-- **A reader comes to an end**, sees no run twice, and the newest first. -/
theorem followPages_sound :
    ∃ pages, followPages order rows limit (rows.length + 1) none = some pages ∧
      (itemsOf pages).Subperm (itemsOfRows rows) ∧
        (itemsOf pages).Pairwise fun a b => b.startedAt ≤ a.startedAt := by
  obtain ⟨visited, hvisited⟩ : ∃ visited,
      visit order limit.value (rows.length + 1) rows = some visited :=
    exists_visit limit.ge (Nat.lt_succ_self _)
  obtain ⟨hsub, hsorted⟩ := visit_sound limit.ge hvisited
  have heq := followPages_eq_visit order rows limit (rows.length + 1) none
  rw [older, hvisited] at heq
  obtain ⟨pages, hpages, hitems⟩ := Option.map_eq_some_iff.mp heq
  refine ⟨pages, hpages, ?_, ?_⟩
  · rw [hitems]
    obtain ⟨seen, hperm, hseen⟩ := hsub
    exact ⟨_, hperm.map _, hseen.map _⟩
  · rw [hitems]
    exact pairwise_itemsOfRows hsorted

variable (order rows limit) in
/-- **Every run is shown** exactly when no page ends among runs of the same second. -/
theorem run_history_complete_iff : Complete order rows limit ↔
    Untied limit.value (sortedKeys SessionsHistoryRow.startedAt rows) := by
  constructor
  · rintro ⟨fuel, pages, hpages, hperm, -⟩
    obtain ⟨visited, hvisited, hitems⟩ := exists_visit_of_followPages hpages
    have hlen := hperm.length_eq
    rw [hitems, itemsOfRows, itemsOfRows, List.length_map, List.length_map] at hlen
    -- no row comes twice, so as many items are all of them
    have hall := (visit_sound limit.ge hvisited).1.perm_of_length_le hlen.ge
    exact (visit_complete_iff limit.ge hvisited).mp hall
  · intro huntied
    obtain ⟨pages, hpages, -, hsorted⟩ := followPages_sound order rows limit
    obtain ⟨visited, hvisited, hitems⟩ := exists_visit_of_followPages hpages
    refine ⟨_, pages, hpages, ?_, hsorted⟩
    rw [hitems]
    exact ((visit_complete_iff limit.ge hvisited).mpr huntied).map _

end Pages

/-- Two runs that started in the same second. -/
def sameSecond : List SessionsHistoryRow :=
  [⟨1, 1700000000, some 1700000000, some .error⟩, ⟨2, 1700000000, none, none⟩]

/-- One run on a page. -/
def oneByOne : PageLimit := ⟨1, by decide, by decide⟩

/-- The ids a reader has seen, who was patient enough to come to the end. -/
def idsSeen (fuel : ℕ) : Option (List RunId) :=
  (followPages (.stable SessionsHistoryRow.startedAt) sameSecond oneByOne fuel none).map fun pages =>
    (itemsOf pages).map RunHistoryItem.id

theorem idsSeen_one : idsSeen 1 = none := rfl

theorem idsSeen_of_two (n : ℕ) : idsSeen (n + 2) = some [1] := rfl

/-- **One of two runs** of a second is never shown to a reader of single runs. -/
theorem same_second_loses_run :
    ¬ Complete (.stable SessionsHistoryRow.startedAt) sameSecond oneByOne := by
  rintro ⟨fuel, pages, hpages, hperm, -⟩
  have hids : idsSeen fuel = some ((itemsOf pages).map RunHistoryItem.id) := by
    rw [idsSeen, hpages, Option.map_some]
  have hlen := hperm.length_eq
  obtain _ | _ | n := fuel
  · cases hids
  · rw [idsSeen_one] at hids
    cases hids
  · rw [idsSeen_of_two] at hids
    have hone := congrArg List.length (Option.some.inj hids)
    rw [List.length_map, hlen] at hone
    cases hone

end RestreamPlus
