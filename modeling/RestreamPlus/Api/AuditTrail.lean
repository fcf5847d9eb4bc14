import RestreamPlus.Api.Handlers
import RestreamPlus.Api.SessionsHistory
import RestreamPlus.Lib.Json

/-!
# The audit log (`app/repositories/audit_log.py`, `app/db/schema.sql`)

`AuditLogRepository.append` writes the data of an entry as JSON, in a transaction of its own; a
boot writes its entries along with its other changes. An entry is never changed or
deleted, but for its target: `ON DELETE SET NULL`.

`audit_trail` is about the whole life of a database file, through all transactions that the
database has room and time for: every list that is read consists of the entries as they were
given, newest first, and an entry is there exactly if it could be given like this (`Accepted`).
-/

namespace RestreamPlus.AuditLog

open JsonText Paging
open Api (Change)

variable {F : Type}

/-- A depth that the recursion limit of the interpreter is far above. -/
def maxNesting : ℕ := 100

/-- A `dict` of JSON values: no key comes twice, here or inside. -/
structure Data (F : Type) : Type where
  members : List (Text × Value F)
  lawful : Lawful (.obj members)
  shallow : nesting (.obj members) ≤ maxNesting

/-- `{}`. -/
def Data.empty : Data F := ⟨[], ⟨List.nodup_nil, trivial⟩, Nat.le_of_ble_eq_true rfl⟩

/-- The arguments of `append`, and the clock. -/
structure Entry (F : Type) : Type where
  eventType : Text
  actor : Option Text
  targetId : Option TargetId
  data : Option (Data F)
  loggedAt : Option Datetime
  now : ℚ

/-- A row of `audit_log`. -/
structure Row : Type where
  id : ℕ
  loggedAt : ℤ
  eventType : Text
  actor : Option Text
  targetId : Option TargetId
  dataJson : Text

/-- `AuditLogORM`. -/
structure AuditLogORM : Type where
  id : ℕ
  loggedAt : Datetime
  eventType : Text
  actor : Option Text
  targetId : Option TargetId
  dataJson : Text

/-- `AuditLogEntryDTO`. -/
structure AuditLogEntryDTO (F : Type) : Type where
  id : ℕ
  loggedAt : ℚ
  eventType : Text
  actor : Option Text
  targetId : Option TargetId
  data : List (Text × Value F)

/-- Why a call fails. -/
inductive Error : Type where
  | value (message : String)
  /-- the data is not JSON -/
  | json
  /-- `FOREIGN KEY constraint failed` -/
  | integrity
  /-- no identifier is left -/
  | full
  /-- `Python int too large to convert to SQLite INTEGER` -/
  | overflow
  deriving DecidableEq

/-- The tables that audit entries are about. -/
structure Tables : Type where
  database : Database
  rows : List Row
  /-- the greatest identifier so far (`AUTOINCREMENT`) -/
  sequence : ℕ

/-- Those of a new file. -/
def Tables.fresh : Tables := ⟨Database.empty, [], 0⟩

/-- The greatest integer of SQLite, and so the greatest identifier. -/
def maxInteger : ℕ := 0x7FFFFFFFFFFFFFFF

/-! ## Entries -/

/-- `AuditLogEntryDTO._decode_json`, of a `str`. -/
def decodeJson (fmt : FloatFormat F) (value : Text) : Except Error (List (Text × Value F)) :=
  match loads fmt value with
  | none => .error .json
  | some (.obj members) => .ok members
  | some _ => .error (.value "audit_log.data_json must decode to a JSON object")

/-- `AuditLogEntryDTO.from_orm`. -/
def fromOrm (fmt : FloatFormat F) (row : AuditLogORM) : Except Error (AuditLogEntryDTO F) :=
  match row.loggedAt with
  | .naive => .error (.value "Input should have timezone info")
  | .aware time => (decodeJson fmt row.dataJson).map fun data =>
    ⟨row.id, time, row.eventType, row.actor, row.targetId, data⟩

/-- The row of a new entry. A foreign key that refers to nothing is refused. -/
def insertRow (s : Tables) (row : AuditLogORM) : Except Error Tables :=
  match UTCEpochSeconds.processBindParam row.loggedAt with
  | .error message => .error (.value message)
  | .ok seconds =>
    if ∀ id ∈ row.targetId, id ∈ s.database.targets.keys then
      .ok { s with
        rows := s.rows ++
          [⟨row.id, seconds, row.eventType, row.actor, row.targetId, row.dataJson⟩]
        sequence := row.id }
    else .error .integrity

/-- The object of an entry; its identifier is the next one. -/
def newRow (fmt : FloatFormat F) (s : Tables) (e : Entry F) : Except Error AuditLogORM :=
  match dumps fmt (.obj (e.data.getD .empty).members) with
  | none => .error (.value <| "Exceeds the limit (4300 digits) for integer string conversion; " ++
      "use sys.set_int_max_str_digits() to increase the limit")
  | some dataJson =>
    if s.sequence < maxInteger then
      .ok ⟨s.sequence + 1, e.loggedAt.getD (.aware e.now), e.eventType, e.actor, e.targetId,
        dataJson⟩
    else .error .full

/-- `AuditLogRepository.append`, up to the checkpoint. -/
def append (fmt : FloatFormat F) (s : Tables) (e : Entry F) :
    Except Error (Tables × AuditLogEntryDTO F) :=
  match e.loggedAt.getD (.aware e.now) with
  | .naive => .error (.value "at must be timezone-aware")
  | .aware _ => do
    let row ← newRow fmt s e
    let s' ← insertRow s row
    let dto ← fromOrm fmt row
    return (s', dto)

/-- An entry of a larger transaction. -/
def insertEntry (fmt : FloatFormat F) (s : Tables) (e : Entry F) : Except Error Tables := do
  insertRow s (← newRow fmt s e)

/-! ## Reading -/

/-- The object of a row. -/
def Row.toOrm (row : Row) : AuditLogORM :=
  ⟨row.id, .aware (UTCEpochSeconds.processResultValue row.loggedAt), row.eventType, row.actor,
    row.targetId, row.dataJson⟩

/-- The order of the queries. -/
abbrev IdDesc : Type := Descending Row.id

/-- The newest of these rows. -/
def newest (fmt : FloatFormat F) (order : IdDesc) (limit : ℤ) (rows : List Row) :
    Except Error (List (AuditLogEntryDTO F)) :=
  if limit ≤ 0 then .error (.value "limit must be positive")
  else if maxInteger < limit then .error .overflow
  else ((order.sort rows).take limit.toNat).mapM fun row => fromOrm fmt row.toOrm

/-- `AuditLogRepository.list_recent`. -/
def listRecent (fmt : FloatFormat F) (order : IdDesc) (s : Tables) (limit : ℤ) :
    Except Error (List (AuditLogEntryDTO F)) :=
  newest fmt order limit s.rows

/-- `AuditLogRepository.list_by_target`. -/
def listByTarget (fmt : FloatFormat F) (order : IdDesc) (s : Tables) (targetId : TargetId)
    (limit : ℤ) : Except Error (List (AuditLogEntryDTO F)) :=
  newest fmt order limit (s.rows.filter (·.targetId = some targetId))

/-- `app_started`. -/
def appStarted : Text := "app_started".toList

/-- `AuditLogRepository.list_app_starts`. -/
def listAppStarts (order : IdDesc) (s : Tables) (limit : ℤ) : Except Error (List ℚ) :=
  if limit ≤ 0 then .error (.value "limit must be positive")
  else if maxInteger < limit then .error .overflow
  else .ok (((order.sort (s.rows.filter (·.eventType = appStarted))).take limit.toNat).map
    fun row => UTCEpochSeconds.processResultValue row.loggedAt)

/-! ## The life of a file -/

/-- A transaction. -/
inductive Transaction (F : Type) : Type where
  | append (e : Entry F)
  /-- the entries of a boot; its other changes are to other tables -/
  | boot (entries : List (Entry F))
  | change (c : Change)

/-- `ON DELETE SET NULL`. -/
def setNull (id : TargetId) (row : Row) : Row :=
  if row.targetId = some id then { row with targetId := none } else row

/-- What a change of the tables does to the entries. -/
def Tables.change (s : Tables) (c : Change) : Tables :=
  { s with
    database := c.apply s.database
    rows := match c with
      | .deleteTarget id =>
        if id ∈ s.database.targets.keys then s.rows.map (setNull id) else s.rows
      | _ => s.rows }

/-- A transaction that commits. -/
def commit (fmt : FloatFormat F) (s : Tables) : Transaction F → Except Error Tables
  | .append e => (append fmt s e).map Prod.fst
  | .boot entries => entries.foldlM (insertEntry fmt) s
  | .change c => .ok (s.change c)

/-- One that fails is rolled back. -/
def next (fmt : FloatFormat F) (s : Tables) (t : Transaction F) : Tables :=
  match commit fmt s t with
  | .ok s' => s'
  | .error _ => s

/-- The tables after these transactions. -/
def run (fmt : FloatFormat F) (s : Tables) (ts : List (Transaction F)) : Tables :=
  ts.foldl (next fmt) s

/-! ## What is to be read -/

/-- An entry as it was given, but for the fraction of a second. -/
def Entry.given (e : Entry F) (id : ℕ) : AuditLogEntryDTO F where
  id := id
  loggedAt := match e.loggedAt.getD (.aware e.now) with
    | .aware time => (time.num.tdiv time.den : ℤ)
    -- refused
    | .naive => 0
  eventType := e.eventType
  actor := e.actor
  targetId := e.targetId
  data := (e.data.getD .empty).members

/-- The target that a transaction deletes. -/
def Transaction.deleted : Transaction F → Option TargetId
  | .change (.deleteTarget id) => some id
  | _ => none

/-- An entry after these transactions: its target is gone if they delete it. -/
def AuditLogEntryDTO.after (ts : List (Transaction F)) (dto : AuditLogEntryDTO F) :
    AuditLogEntryDTO F :=
  { dto with targetId := dto.targetId.filter (· ∉ ts.filterMap Transaction.deleted) }

/-- The entries of a transaction, from this identifier on. -/
def Transaction.entries (id : ℕ) : Transaction F → List (AuditLogEntryDTO F)
  | .append e => [e.given id]
  | .boot entries => (entries.zipIdx id).map fun e => e.1.given e.2
  | .change _ => []

/-- What can be logged: its time has a zone, its target exists, and its integers can be
written. -/
structure Entry.WellFormed (db : Database) (e : Entry F) : Prop where
  aware : e.loggedAt ≠ some .naive
  target : ∀ id ∈ e.targetId, id ∈ db.targets.keys
  written : writable (.obj (e.data.getD .empty).members) = true

instance (db : Database) (e : Entry F) : Decidable (e.WellFormed db) :=
  decidable_of_iff (e.loggedAt ≠ some .naive ∧ (∀ id ∈ e.targetId, id ∈ db.targets.keys) ∧
      writable (.obj (e.data.getD .empty).members) = true)
    ⟨fun h => ⟨h.1, h.2.1, h.2.2⟩, fun h => ⟨h.aware, h.target, h.written⟩⟩

/-- A transaction that is carried out, after so many entries. -/
def Transaction.Accepted (db : Database) (logged : ℕ) : Transaction F → Prop
  | .append e => e.WellFormed db ∧ logged < maxInteger
  -- all of its entries or none
  | .boot entries =>
    (∀ e ∈ entries, e.WellFormed db) ∧ ∀ n < entries.length, logged + n < maxInteger
  | .change _ => True

instance (db : Database) (logged : ℕ) : (t : Transaction F) → Decidable (t.Accepted db logged)
  | .append _ => inferInstanceAs (Decidable (_ ∧ _))
  | .boot _ => inferInstanceAs (Decidable (_ ∧ ∀ n < _, _ < _))
  | .change _ => inferInstanceAs (Decidable True)

/-- The other tables after a transaction. -/
def Transaction.database (db : Database) : Transaction F → Database
  | .change c => c.apply db
  | .append _ | .boot _ => db

/-- Those that are logged, after so many. -/
def entriesOf (db : Database) (logged : ℕ) (t : Transaction F) :
    List (AuditLogEntryDTO F) :=
  if t.Accepted db logged then t.entries (logged + 1) else []

/-- The log after these transactions, with what became of the targets of its entries. -/
def trailFrom : Database → ℕ → List (Transaction F) → List (AuditLogEntryDTO F)
  | _, _, [] => []
  | db, logged, t :: ts =>
    (entriesOf db logged t).map (·.after ts) ++
      trailFrom (t.database db) (logged + (entriesOf db logged t).length) ts

/-- **The trail** of a file. -/
def trail (ts : List (Transaction F)) : List (AuditLogEntryDTO F) :=
  trailFrom Database.empty 0 ts

/-- The other tables after these transactions. -/
def databaseAfter (ts : List (Transaction F)) : Database :=
  ts.foldl Transaction.database Database.empty

/-! ## The rows and the trail -/

variable {fmt : FloatFormat F} {order : IdDesc} {s s' : Tables} {e : Entry F}

/-- These rows are read as these entries. -/
def ReadAs (fmt : FloatFormat F) : List Row → List (AuditLogEntryDTO F) → Prop :=
  List.Forall₂ fun row dto => fromOrm fmt row.toOrm = .ok dto

/-- The tables, with these entries in the log. -/
structure Logged (fmt : FloatFormat F) (s : Tables) (l : List (AuditLogEntryDTO F)) : Prop where
  read : ReadAs fmt s.rows l
  ids : l.map AuditLogEntryDTO.id = List.range' 1 s.sequence
  targets : ∀ row ∈ s.rows, ∀ id ∈ row.targetId, id ∈ s.database.targets.keys

theorem decodeJson_dumps {data : Data F} {t : Text}
    (h : dumps fmt (.obj data.members) = some t) : decodeJson fmt t = .ok data.members := by
  rw [decodeJson, loads_dumps data.lawful h]

/-- The object of an entry. -/
theorem newRow_ok {row : AuditLogORM} (h : newRow fmt s e = .ok row) :
    ∃ dataJson, dumps fmt (.obj (e.data.getD .empty).members) = some dataJson ∧
      s.sequence < maxInteger ∧
      row = ⟨s.sequence + 1, e.loggedAt.getD (.aware e.now), e.eventType, e.actor, e.targetId,
        dataJson⟩ := by
  rw [newRow] at h
  split at h
  · cases h
  · rename_i dataJson hdata
    split at h
    · rename_i hroom
      exact ⟨dataJson, hdata, hroom, (Except.ok.inj h).symm⟩
    · cases h

/-- The row of an object. -/
theorem insertRow_ok {row : AuditLogORM} (h : insertRow s row = .ok s') :
    ∃ time, row.loggedAt = .aware time ∧
      (∀ id ∈ row.targetId, id ∈ s.database.targets.keys) ∧
      s' = { s with
        rows := s.rows ++ [⟨row.id, time.num.tdiv time.den, row.eventType, row.actor,
          row.targetId, row.dataJson⟩]
        sequence := row.id } := by
  rw [insertRow] at h
  rcases hat : row.loggedAt with time | _
  · rw [hat, UTCEpochSeconds.processBindParam] at h
    split at h
    · rename_i hnone
      cases hnone
    · rename_i seconds hseconds
      obtain rfl := Except.ok.inj hseconds
      split at h
      · rename_i htarget
        exact ⟨time, rfl, htarget, (Except.ok.inj h).symm⟩
      · cases h
  · rw [hat] at h
    cases h

/-- What a new entry adds. -/
structure Adds (fmt : FloatFormat F) (s s' : Tables) (dto : AuditLogEntryDTO F) : Prop where
  rows : ∃ row, s'.rows = s.rows ++ [row] ∧ fromOrm fmt row.toOrm = .ok dto ∧
    ∀ id ∈ row.targetId, id ∈ s.database.targets.keys
  sequence : s'.sequence = s.sequence + 1
  database : s'.database = s.database

theorem except_bind_ok {ε α β : Type} {x : Except ε α} {f : α → Except ε β} {b : β}
    (h : x >>= f = .ok b) : ∃ a, x = .ok a ∧ f a = .ok b := by
  cases x with
  | error e => cases h
  | ok a => exact ⟨a, rfl, h⟩

theorem except_map_ok {ε α β : Type} {x : Except ε α} {f : α → β} {b : β}
    (h : x.map f = .ok b) : ∃ a, x = .ok a ∧ f a = b := by
  cases x with
  | error e => cases h
  | ok a => exact ⟨a, rfl, Except.ok.inj h⟩

/-- **Every entry is read as it was given.** -/
theorem insertEntry_ok (h : insertEntry fmt s e = .ok s') :
    Adds fmt s s' (e.given (s.sequence + 1)) := by
  obtain ⟨row, hrow, h⟩ := except_bind_ok h
  obtain ⟨dataJson, hdata, -, rfl⟩ := newRow_ok hrow
  obtain ⟨time, hat, htarget, rfl⟩ := insertRow_ok h
  refine ⟨⟨_, rfl, ?_, htarget⟩, rfl, rfl⟩
  rw [fromOrm, Row.toOrm, Entry.given]
  simp only [decodeJson_dumps hdata, Except.map, UTCEpochSeconds.processResultValue]
  simp only [show e.loggedAt.getD (.aware e.now) = .aware time from hat]

/-- An entry as a list shows it, of what `append` returned. -/
def AuditLogEntryDTO.stored (dto : AuditLogEntryDTO F) : AuditLogEntryDTO F :=
  { dto with loggedAt := (dto.loggedAt.num.tdiv dto.loggedAt.den : ℤ) }

/-- `append` inserts the entry and returns it. -/
theorem append_ok {dto : AuditLogEntryDTO F} (h : append fmt s e = .ok (s', dto)) :
    insertEntry fmt s e = .ok s' ∧ dto.stored = e.given (s.sequence + 1) := by
  rw [append] at h
  split at h
  · cases h
  · rename_i time hat
    obtain ⟨row, hrow, h⟩ := except_bind_ok h
    obtain ⟨s'', hinsert, h⟩ := except_bind_ok h
    obtain ⟨dto', hdto, h⟩ := except_bind_ok h
    obtain ⟨rfl, rfl⟩ := Prod.mk.inj (Except.ok.inj h)
    constructor
    · rw [insertEntry, hrow]
      exact hinsert
    · obtain ⟨dataJson, hdata, -, rfl⟩ := newRow_ok hrow
      rw [fromOrm] at hdto
      simp only [hat, decodeJson_dumps hdata] at hdto
      obtain rfl := Except.ok.inj hdto
      rw [AuditLogEntryDTO.stored, Entry.given, hat]

/-! ## What is carried out -/

theorem newRow_eq (hwritten : writable (.obj (e.data.getD .empty).members) = true)
    (hroom : s.sequence < maxInteger) :
    newRow fmt s e = .ok ⟨s.sequence + 1, e.loggedAt.getD (.aware e.now), e.eventType, e.actor,
      e.targetId, text fmt (.obj (e.data.getD .empty).members)⟩ := by
  rw [newRow, dumps, if_pos hwritten]
  exact if_pos hroom

theorem insertRow_eq {row : AuditLogORM} {time : ℚ} (hat : row.loggedAt = .aware time)
    (htarget : ∀ id ∈ row.targetId, id ∈ s.database.targets.keys) :
    ∃ s', insertRow s row = .ok s' := by
  rw [insertRow, hat, UTCEpochSeconds.processBindParam]
  exact ⟨_, if_pos htarget⟩

theorem Entry.WellFormed.exists_time (h : e.WellFormed s.database) :
    ∃ time, e.loggedAt.getD (.aware e.now) = .aware time := by
  rcases hat : e.loggedAt with _ | time | _
  · exact ⟨e.now, rfl⟩
  · exact ⟨time, rfl⟩
  · exact absurd hat h.aware

theorem Entry.WellFormed.insertEntry (h : e.WellFormed s.database)
    (hroom : s.sequence < maxInteger) : ∃ s', insertEntry fmt s e = .ok s' := by
  obtain ⟨time, hat⟩ := h.exists_time
  rw [AuditLog.insertEntry, newRow_eq h.written hroom]
  exact insertRow_eq hat h.target

theorem wellFormed_of_insertEntry (h : insertEntry fmt s e = .ok s') :
    e.WellFormed s.database ∧ s.sequence < maxInteger := by
  obtain ⟨row, hrow, h⟩ := except_bind_ok h
  obtain ⟨dataJson, hdata, hroom, rfl⟩ := newRow_ok hrow
  obtain ⟨time, hat, htarget, -⟩ := insertRow_ok h
  refine ⟨⟨fun hnaive => ?_, htarget, ?_⟩, hroom⟩
  · dsimp only at hat
    rw [hnaive] at hat
    cases hat
  · by_contra hlong
    rw [dumps, if_neg hlong] at hdata
    cases hdata

/-- **A well-formed entry is taken.** -/
theorem Entry.WellFormed.append (h : e.WellFormed s.database) (hroom : s.sequence < maxInteger) :
    ∃ s' dto, append fmt s e = .ok (s', dto) := by
  obtain ⟨time, hat⟩ := h.exists_time
  obtain ⟨s', hs⟩ := h.insertEntry hroom
  rw [AuditLog.insertEntry, newRow_eq h.written hroom] at hs
  refine ⟨s', ⟨s.sequence + 1, time, e.eventType, e.actor, e.targetId,
    (e.data.getD .empty).members⟩, ?_⟩
  rw [AuditLog.append, hat, newRow_eq h.written hroom]
  dsimp only [bind, Except.bind] at hs ⊢
  rw [hs]
  dsimp only
  rw [fromOrm]
  simp only [hat, decodeJson_dumps (if_pos h.written), Except.map]
  rfl

theorem append_isOk : (∃ s' dto, append fmt s e = .ok (s', dto)) ↔
    e.WellFormed s.database ∧ s.sequence < maxInteger :=
  ⟨fun ⟨_, _, h⟩ => wellFormed_of_insertEntry (append_ok h).1, fun h => h.1.append h.2⟩

theorem boot_isOk {entries : List (Entry F)} :
    (∃ s', entries.foldlM (insertEntry fmt) s = .ok s') ↔
      (∀ e ∈ entries, e.WellFormed s.database) ∧
        ∀ n < entries.length, s.sequence + n < maxInteger := by
  induction entries generalizing s with
  | nil => exact iff_of_true ⟨s, rfl⟩ ⟨by rintro _ ⟨⟩, by rintro _ ⟨⟩⟩
  | cons e entries ih =>
    rw [List.foldlM_cons, List.forall_mem_cons]
    constructor
    · rintro ⟨s', h⟩
      obtain ⟨s₁, hinsert, h⟩ := except_bind_ok h
      obtain ⟨hwell, hroom⟩ := wellFormed_of_insertEntry hinsert
      have hadds := insertEntry_ok hinsert
      obtain ⟨hothers, hlater⟩ := ih.mp ⟨s', h⟩
      rw [hadds.database] at hothers
      rw [hadds.sequence] at hlater
      refine ⟨⟨hwell, hothers⟩, fun n hn => ?_⟩
      rcases n with _ | n
      · exact hroom
      · have hnext := hlater n (Nat.lt_of_succ_lt_succ hn)
        omega
    · rintro ⟨⟨hwell, hothers⟩, hroom⟩
      obtain ⟨s₁, hinsert⟩ : ∃ s₁, insertEntry fmt s e = .ok s₁ :=
        hwell.insertEntry (hroom 0 (Nat.succ_pos _))
      have hadds := insertEntry_ok hinsert
      have hlater : ∀ n < entries.length, s₁.sequence + n < maxInteger := by
        intro n hn
        have hnext := hroom (n + 1) (Nat.succ_lt_succ hn)
        rw [hadds.sequence]
        omega
      obtain ⟨s', h⟩ := ih.mpr ⟨hadds.database ▸ hothers, hlater⟩
      exact ⟨s', by rw [hinsert]; exact h⟩

/-- **Which transactions are carried out.** -/
theorem commit_isOk {t : Transaction F} :
    (∃ s', commit fmt s t = .ok s') ↔ t.Accepted s.database s.sequence := by
  cases t with
  | append e =>
    refine Iff.trans ?_ (@append_isOk F fmt s e)
    constructor
    · rintro ⟨s', h⟩
      obtain ⟨⟨s₁, dto⟩, happend, -⟩ := except_map_ok h
      exact ⟨s₁, dto, happend⟩
    · rintro ⟨s', dto, h⟩
      exact ⟨s', by rw [commit, h]; rfl⟩
  | boot entries => exact boot_isOk
  | change c => exact iff_of_true ⟨s.change c, rfl⟩ trivial

/-! ## One transaction -/

variable {l : List (AuditLogEntryDTO F)} {t : Transaction F} {dto : AuditLogEntryDTO F}

theorem Logged.add (h : Logged fmt s l) (ha : Adds fmt s s' dto)
    (hid : dto.id = s.sequence + 1) : Logged fmt s' (l ++ [dto]) := by
  obtain ⟨row, hrows, hread, htarget⟩ := ha.rows
  constructor
  · rw [hrows]
    exact List.rel_append h.read (.cons hread .nil)
  · rw [List.map_append, h.ids, ha.sequence, List.range'_1_concat, List.map_singleton, hid,
      Nat.add_comm 1]
  · rw [hrows, ha.database]
    intro row' hrow'
    rcases List.mem_append.mp hrow' with hrow' | hrow'
    · exact h.targets row' hrow'
    · obtain rfl := List.mem_singleton.mp hrow'
      exact htarget

theorem Logged.insertEntry (h : Logged fmt s l) (hs : insertEntry fmt s e = .ok s') :
    Logged fmt s' (l ++ [e.given (s.sequence + 1)]) :=
  h.add (insertEntry_ok hs) rfl

theorem database_boot {entries : List (Entry F)}
    (hs : entries.foldlM (AuditLog.insertEntry fmt) s = .ok s') : s'.database = s.database := by
  induction entries generalizing s with
  | nil =>
    obtain rfl := Except.ok.inj hs
    rfl
  | cons e entries ih =>
    rw [List.foldlM_cons] at hs
    obtain ⟨s₁, hinsert, hs⟩ := except_bind_ok hs
    rw [ih hs, (insertEntry_ok hinsert).database]

theorem Logged.boot {entries : List (Entry F)} (h : Logged fmt s l)
    (hs : entries.foldlM (AuditLog.insertEntry fmt) s = .ok s') :
    Logged fmt s' (l ++ (entries.zipIdx (s.sequence + 1)).map fun e => e.1.given e.2) := by
  induction entries generalizing s l with
  | nil =>
    obtain rfl := Except.ok.inj hs
    rw [List.zipIdx_nil, List.map_nil, List.append_nil]
    exact h
  | cons e entries ih =>
    rw [List.foldlM_cons] at hs
    obtain ⟨s₁, hinsert, hs⟩ := except_bind_ok hs
    have hlater := ih (h.insertEntry hinsert) hs
    rw [(insertEntry_ok hinsert).sequence, List.append_assoc] at hlater
    exact hlater

theorem after_of_deleted_eq_none {ts : List (Transaction F)} (h : t.deleted = none) :
    dto.after (t :: ts) = dto.after ts := by
  rw [AuditLogEntryDTO.after, List.filterMap_cons_none h]
  rfl

theorem after_nil : dto.after [] = dto := by
  rw [AuditLogEntryDTO.after]
  rcases htarget : dto.targetId with _ | target
  · rw [Option.filter_none, ← htarget]
  · rw [Option.filter_some, if_pos (by simp), ← htarget]

theorem after_append (ts ts' : List (Transaction F)) (dto : AuditLogEntryDTO F) :
    dto.after (ts ++ ts') = (dto.after ts).after ts' := by
  rw [AuditLogEntryDTO.after, List.filterMap_append]
  simp only [AuditLogEntryDTO.after]
  rcases dto.targetId with _ | target
  · rfl
  · by_cases h : target ∈ ts.filterMap Transaction.deleted <;> simp [Option.filter, h]

theorem fromOrm_ok {row : Row} (h : fromOrm fmt row.toOrm = .ok dto) :
    ∃ data, decodeJson fmt row.dataJson = .ok data ∧
      dto = ⟨row.id, row.loggedAt, row.eventType, row.actor, row.targetId, data⟩ := by
  obtain ⟨data, hdata, rfl⟩ := except_map_ok h
  exact ⟨data, hdata, rfl⟩

theorem fromOrm_setNull {row : Row} (id : TargetId) (h : fromOrm fmt row.toOrm = .ok dto) :
    fromOrm fmt (setNull id row).toOrm = .ok (dto.after [.change (.deleteTarget id)]) := by
  obtain ⟨data, hdata, rfl⟩ := fromOrm_ok h
  have hafter : ∀ target, Option.filter (· ∉ [id]) target =
      if target = some id then none else target := by
    intro target
    rcases target with _ | target
    · rfl
    · by_cases heq : target = id <;> simp [Option.filter, heq]
  show _ = Except.ok (AuditLogEntryDTO.mk row.id row.loggedAt row.eventType row.actor
    (Option.filter (· ∉ [id]) row.targetId) data)
  rw [hafter, setNull]
  split
  · show Except.map _ (decodeJson fmt row.dataJson) = _
    rw [hdata]
    rfl
  · exact h

/-- No entry refers to a target that is not there. -/
theorem rows_deleteTarget (h : Logged fmt s l) (id : TargetId) :
    (s.change (.deleteTarget id)).rows = s.rows.map (setNull id) := by
  show (if id ∈ s.database.targets.keys then s.rows.map (setNull id) else s.rows) = _
  split
  · rfl
  · rename_i hid
    have hsame : ∀ row ∈ s.rows, setNull id row = row := by
      intro row hrow
      refine if_neg fun htarget => hid (h.targets row hrow id htarget)
    rw [List.map_congr_left hsame, List.map_id']

theorem targetId_setNull {row : Row} {id id' : TargetId} (h : id' ∈ (setNull id row).targetId) :
    id' ∈ row.targetId ∧ id' ≠ id := by
  rw [setNull] at h
  split at h
  · cases h
  · rename_i hne
    exact ⟨h, fun heq => hne (heq ▸ h)⟩

/-- A change that deletes no target keeps all of them. -/
theorem keys_apply {c : Change} (db : Database)
    (h : (Transaction.change c : Transaction F).deleted = none) {id : TargetId}
    (hid : id ∈ db.targets.keys) : id ∈ (c.apply db).targets.keys := by
  have hinsert : ∀ id' row, id ∈ (db.targets.insert id' row).keys := by
    intro id' row
    rw [Dict.keys_insert]
    split
    · exact hid
    · exact List.mem_append_left _ hid
  cases c with
  | createTarget id' row => exact hinsert id' row
  | updateTarget id' patch =>
    rw [Change.apply, Database.updateTarget]
    split
    · exact hid
    · exact hinsert id' _
  | deleteTarget id' => cases h
  | nothing | upsertCredential | deleteForTarget | rewrap => exact hid

theorem Logged.change (h : Logged fmt s l) (c : Change) :
    Logged fmt (s.change c) (l.map (·.after [.change c])) := by
  have hids : (l.map (·.after [.change c])).map AuditLogEntryDTO.id = List.range' 1 s.sequence := by
    rw [List.map_map]
    exact h.ids
  by_cases hc : ∃ id, c = .deleteTarget id
  · obtain ⟨id, rfl⟩ := hc
    refine ⟨?_, hids, ?_⟩
    · rw [ReadAs, rows_deleteTarget h, List.forall₂_map_left_iff, List.forall₂_map_right_iff]
      exact h.read.imp fun row dto hrow => fromOrm_setNull id hrow
    · rw [rows_deleteTarget h]
      intro row' hrow' id' hid'
      obtain ⟨row, hrow, rfl⟩ := List.mem_map.mp hrow'
      obtain ⟨hid', hne⟩ := targetId_setNull hid'
      show id' ∈ (s.database.targets.erase id).keys
      rw [Dict.keys_erase, List.mem_filter]
      exact ⟨h.targets row hrow id' hid', decide_eq_true hne⟩
  · have hdeleted : (Transaction.change c : Transaction F).deleted = none := by
      cases c with
      | deleteTarget id => exact absurd ⟨id, rfl⟩ hc
      | _ => rfl
    have hrows : (s.change c).rows = s.rows := by
      cases c with
      | deleteTarget id => exact absurd ⟨id, rfl⟩ hc
      | _ => rfl
    simp only [after_of_deleted_eq_none hdeleted, after_nil, List.map_id']
    exact ⟨hrows ▸ h.read, h.ids, hrows ▸ fun row hrow id hid =>
      keys_apply s.database hdeleted (h.targets row hrow id hid)⟩

theorem Logged.length_eq (h : Logged fmt s l) : l.length = s.sequence := by
  have hlength := congrArg List.length h.ids
  rwa [List.length_map, List.length_range'] at hlength

/-- A transaction that is carried out. -/
theorem Logged.of_commit (h : Logged fmt s l) (hc : commit fmt s t = .ok s') :
    Logged fmt s' (l.map (·.after [t]) ++ t.entries (s.sequence + 1)) ∧
      s'.database = t.database s.database := by
  have hkept : t.deleted = none → l.map (·.after [t]) = l := by
    intro ht
    simp only [after_of_deleted_eq_none ht, after_nil, List.map_id']
  cases t with
  | append e =>
    obtain ⟨⟨s₁, dto⟩, happend, rfl⟩ := except_map_ok hc
    have hinsert := (append_ok happend).1
    rw [hkept rfl]
    exact ⟨h.insertEntry hinsert, (insertEntry_ok hinsert).database⟩
  | boot entries =>
    rw [hkept rfl]
    exact ⟨h.boot hc, database_boot hc⟩
  | change c =>
    obtain rfl := Except.ok.inj hc
    refine ⟨?_, rfl⟩
    show Logged fmt (s.change c) (_ ++ [])
    rw [List.append_nil]
    exact h.change c

/-- **One transaction**, carried out or rolled back. -/
theorem Logged.next (h : Logged fmt s l) (t : Transaction F) :
    Logged fmt (next fmt s t) (l.map (·.after [t]) ++ entriesOf s.database s.sequence t) ∧
      (AuditLog.next fmt s t).database = t.database s.database ∧
      (AuditLog.next fmt s t).sequence =
        s.sequence + (entriesOf s.database s.sequence t).length := by
  by_cases haccepted : t.Accepted s.database s.sequence
  · obtain ⟨s', hc⟩ := commit_isOk.mpr haccepted
    have hnext : AuditLog.next fmt s t = s' := by rw [AuditLog.next, hc]
    obtain ⟨hlogged, hdatabase⟩ := h.of_commit hc
    rw [hnext, entriesOf, if_pos haccepted]
    refine ⟨hlogged, hdatabase, ?_⟩
    rw [← hlogged.length_eq, List.length_append, List.length_map, h.length_eq]
  · have hnext : AuditLog.next fmt s t = s := by
      rw [AuditLog.next]
      split
      · rename_i s' hc
        exact absurd (commit_isOk.mp ⟨s', hc⟩) haccepted
      · rfl
    -- a change does not fail
    have hother : t.deleted = none ∧ t.database s.database = s.database := by
      cases t with
      | change c => exact absurd trivial haccepted
      | _ => exact ⟨rfl, rfl⟩
    rw [hnext, entriesOf, if_neg haccepted, List.append_nil, hother.2]
    simp only [after_of_deleted_eq_none hother.1, after_nil, List.map_id']
    exact ⟨h, trivial, rfl⟩

/-! ## A whole life -/

/-- The log after these transactions. -/
theorem Logged.of_run (h : Logged fmt s l) (ts : List (Transaction F)) :
    Logged fmt (run fmt s ts) (l.map (·.after ts) ++ trailFrom s.database s.sequence ts) := by
  induction ts generalizing s l with
  | nil =>
    simp only [after_nil, List.map_id', trailFrom, List.append_nil]
    exact h
  | cons t ts ih =>
    obtain ⟨hlogged, hdatabase, hsequence⟩ := h.next t
    have hrun := ih hlogged
    rw [hdatabase, hsequence, List.map_append, List.map_map, List.append_assoc] at hrun
    have hafter : l.map (·.after (t :: ts)) = l.map ((·.after ts) ∘ (·.after [t])) :=
      List.map_congr_left fun dto _ => after_append [t] ts dto
    rw [trailFrom, hafter]
    exact hrun

/-- The tables after these transactions. -/
theorem Logged.tables_of_run (h : Logged fmt s l) (ts : List (Transaction F)) :
    (run fmt s ts).database = ts.foldl Transaction.database s.database ∧
      (run fmt s ts).sequence =
        s.sequence + (trailFrom s.database s.sequence ts).length := by
  induction ts generalizing s l with
  | nil => exact ⟨rfl, rfl⟩
  | cons t ts ih =>
    obtain ⟨hlogged, hdatabase, hsequence⟩ := h.next t
    have hrun := ih hlogged
    rw [hdatabase, hsequence] at hrun
    refine ⟨hrun.1, hrun.2.trans ?_⟩
    rw [trailFrom, List.length_append, List.length_map, Nat.add_assoc]

theorem logged_fresh (fmt : FloatFormat F) : Logged fmt .fresh [] :=
  ⟨.nil, rfl, by rintro _ ⟨⟩⟩

/-! ## Reading the log -/

theorem mapM_of_forall₂ {ε α β : Type} {f : α → Except ε β} {as : List α} {bs : List β}
    (h : List.Forall₂ (fun a b => f a = .ok b) as bs) : as.mapM f = .ok bs := by
  induction h with
  | nil => rfl
  | cons ha _ ih => rw [List.mapM_cons, ha, ih]; rfl

/-- The greatest identifiers come first. -/
theorem sort_eq_reverse {rows : List Row} (h : rows.Pairwise fun a b => a.id < b.id) :
    order.sort rows = rows.reverse := by
  have hreverse : rows.reverse.Pairwise fun a b => b.id ≤ a.id :=
    List.pairwise_reverse.mpr (h.imp le_of_lt)
  have hnodup : (rows.map Row.id).Nodup := List.pairwise_map.mpr (h.imp ne_of_lt)
  refine List.Perm.eq_of_pairwise ?_ (order.sorted rows) hreverse
    ((order.perm rows).trans rows.reverse_perm.symm)
  intro a b ha hb hab hba
  exact List.inj_on_of_nodup_map hnodup ((order.perm rows).mem_iff.mp ha)
    (List.mem_reverse.mp hb) (le_antisymm hba hab)

theorem map_eq_of_readAs {α : Type} {f : Row → α} {g : AuditLogEntryDTO F → α} {rows : List Row}
    (h : ReadAs fmt rows l) (hfg : ∀ row dto, fromOrm fmt row.toOrm = .ok dto → f row = g dto) :
    rows.map f = l.map g := by
  induction h with
  | nil => rfl
  | cons hrow _ ih => rw [List.map_cons, List.map_cons, ih, hfg _ _ hrow]

theorem Logged.pairwise (h : Logged fmt s l) : s.rows.Pairwise fun a b => a.id < b.id := by
  have hids : s.rows.map Row.id = List.range' 1 s.sequence := by
    rw [← h.ids]
    refine map_eq_of_readAs h.read fun row dto hrow => ?_
    obtain ⟨data, -, rfl⟩ := fromOrm_ok hrow
    rfl
  have hlt : (s.rows.map Row.id).Pairwise (· < ·) := hids ▸ List.pairwise_lt_range'
  exact List.pairwise_map.mp hlt

/-- A limit that the database understands. -/
def Legal (limit : ℤ) : Prop := 0 < limit ∧ limit ≤ maxInteger

instance : DecidablePred Legal := fun _ => inferInstanceAs (Decidable (_ ∧ _))

/-- The newest of these. -/
def newestOf {α : Type} (limit : ℤ) (l : List α) : List α := l.reverse.take limit.toNat

variable {limit : ℤ}

theorem newest_eq {rows : List Row} (h : ReadAs fmt rows l)
    (hsorted : rows.Pairwise fun a b => a.id < b.id) (hlimit : Legal limit) :
    newest fmt order limit rows = .ok (newestOf limit l) := by
  rw [newest, newestOf, sort_eq_reverse hsorted, if_neg (Int.not_le.mpr hlimit.1),
    if_neg (Int.not_lt.mpr hlimit.2)]
  exact mapM_of_forall₂ (List.forall₂_take _ (List.rel_reverse h))

/-- Some of the rows are some of the entries. -/
theorem ReadAs.filter {p : Row → Bool} {q : AuditLogEntryDTO F → Bool} {rows : List Row}
    (h : ReadAs fmt rows l) (hpq : ∀ row dto, fromOrm fmt row.toOrm = .ok dto → p row = q dto) :
    ReadAs fmt (rows.filter p) (l.filter q) :=
  List.rel_filter (fun row dto hrow => iff_of_eq (congrArg (· = true) (hpq row dto hrow))) h

theorem Logged.listRecent (h : Logged fmt s l) (hlimit : Legal limit) :
    listRecent fmt order s limit = .ok (newestOf limit l) :=
  newest_eq h.read h.pairwise hlimit

theorem Logged.listByTarget (h : Logged fmt s l) (id : TargetId) (hlimit : Legal limit) :
    listByTarget fmt order s id limit =
      .ok (newestOf limit (l.filter (·.targetId = some id))) := by
  refine newest_eq (h.read.filter fun row dto hrow => ?_) (h.pairwise.filter _) hlimit
  obtain ⟨data, -, rfl⟩ := fromOrm_ok hrow
  rfl

theorem Logged.listAppStarts (h : Logged fmt s l) (hlimit : Legal limit) :
    listAppStarts order s limit =
      .ok (newestOf limit ((l.filter (·.eventType = appStarted)).map (·.loggedAt))) := by
  have hread := h.read.filter (p := (·.eventType = appStarted)) (q := (·.eventType = appStarted))
    fun row dto hrow => by
      obtain ⟨data, -, rfl⟩ := fromOrm_ok hrow
      rfl
  rw [AuditLog.listAppStarts, newestOf, sort_eq_reverse (h.pairwise.filter _),
    if_neg (Int.not_le.mpr hlimit.1), if_neg (Int.not_lt.mpr hlimit.2), List.map_take,
    List.map_reverse, map_eq_of_readAs hread]
  intro row dto hrow
  obtain ⟨data, -, rfl⟩ := fromOrm_ok hrow
  rfl

/-! ## The trail -/

theorem trailFrom_append (db : Database) (logged : ℕ) (before after : List (Transaction F)) :
    trailFrom db logged (before ++ after) =
      (trailFrom db logged before).map (·.after after) ++
        trailFrom (before.foldl Transaction.database db)
          (logged + (trailFrom db logged before).length) after := by
  induction before generalizing db logged with
  | nil => rfl
  | cons t before ih =>
    rw [List.cons_append, trailFrom, trailFrom, ih, List.map_append, List.map_map,
      List.append_assoc, List.length_append, List.length_map, Nat.add_assoc]
    exact congrArg (· ++ _) (List.map_congr_left fun dto _ => after_append before after dto)

theorem tables_run (fmt : FloatFormat F) (ts : List (Transaction F)) :
    (run fmt .fresh ts).database = databaseAfter ts ∧
      (run fmt .fresh ts).sequence = (trail ts).length := by
  have hrun := (logged_fresh fmt).tables_of_run ts
  exact ⟨hrun.1, hrun.2.trans (Nat.zero_add _)⟩

/-- **What `append` returned** is what is read later. -/
theorem stored_mem_trail {before after : List (Transaction F)}
    (h : append fmt (run fmt .fresh before) e = .ok (s', dto)) :
    dto.stored.after after ∈ trail (before ++ .append e :: after) := by
  obtain ⟨hdatabase, hsequence⟩ := tables_run fmt before
  have haccepted := append_isOk.mp ⟨s', dto, h⟩
  rw [hdatabase, hsequence] at haccepted
  have hentries : entriesOf (databaseAfter before) (trail before).length (.append e) =
      [dto.stored] := by
    rw [(append_ok h).2, hsequence, entriesOf]
    exact if_pos haccepted
  rw [trail, trailFrom_append, Nat.zero_add]
  refine List.mem_append_right _ ?_
  show _ ∈ trailFrom (databaseAfter before) (trail before).length _
  rw [trailFrom, hentries]
  exact List.mem_append_left _ (List.mem_singleton_self _)

/-- An entry about a target. -/
def aboutTarget (id : TargetId) : Entry Empty :=
  ⟨"target_created".toList, some "admin".toList, some id, none, none, 5 / 2⟩

/-- A target is created and deleted, with a boot and a refused entry in between. -/
def oneTarget : List (Transaction Empty) :=
  [.change (.createTarget 7 ⟨.twitch, [], [], true, ∅⟩), .append (aboutTarget 7),
    .boot [⟨appStarted, none, none, none, none, 7 / 2⟩], .append (aboutTarget 8),
    .change (.deleteTarget 7)]

end RestreamPlus.AuditLog
