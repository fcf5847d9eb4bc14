import RestreamPlus.Api.Discipline
import RestreamPlus.Fanout.SupervisorFrame

/-!
# Every credential decrypts under the current key

`set_credential` encrypts under the keys that its dependencies captured, and
commits whenever it gets there. A rotation re-wraps the rows that it listed, so
a row that is committed after the listing is left under the old key, and so is
one that was encrypted before the swap and is committed after it
(`stale_credential`).

`credentials_coherent` says that this is the only way. A commit of
`set_credential` is harmless when the key it captured is still the current one
and no rotation is between its listing and its swap.
-/

namespace RestreamPlus

open Interleaving

namespace Api

/-- Every stored credential decrypts under this key. -/
def Decryptable (kek : Key) (db : Database) : Prop :=
  ∀ id row, db.credentials.get? id = some row → row.SealedUnder kek

/-- The handler of a rotation has listed the rows and has not swapped the keys. -/
def Handler.hasListed (v : View) : Handler → Bool
  | .write (.rewrap _) _ | .write .deleteSessions _ | .write .deleteTokens _
  | .commit (.rewrap _) _ => true
  | .sync m _ => match m v with | .rotateInPlace _ _ => true | _ => false
  | _ => false

namespace Backend

/-- The request that holds the rotation lock has listed the rows. -/
def rewrapping (c : Backend) : Bool :=
  match c.rotationLock with
  | none => false
  | some i => c.requests[i]?.any fun task => task.code.hasListed c.view

/-- A new credential is committed only if its key is the current one and no
rotation has listed the rows without it. -/
def CommitsCurrent (c : Backend) : Label → Prop
  | .go i _ =>
    match c.requests[i]? with
    | some ⟨.commit (.upsertCredential _ row) _, none⟩ =>
      c.keyMaterial.map DerivedKeys.streamKeyKek = some row.ciphertext.key ∧ c.rewrapping = false
    | _ => True
  | _ => True

instance (c : Backend) (l : Label) : Decidable (c.CommitsCurrent l) := by
  cases l <;> unfold CommitsCurrent
  · infer_instance
  · dsimp only
    split <;> infer_instance
  · infer_instance

/-- No request is in flight. -/
def Quiescent (c : Backend) : Prop :=
  ∀ (i : ℕ) (task : InFlight), c.requests[i]? = some task → task = ⟨.done, none⟩

/-- With no request in flight every credential decrypts under the current key. -/
def Coherent (c : Backend) : Prop :=
  c.Quiescent → ∃ keys, c.keyMaterial = some keys ∧ Decryptable keys.streamKeyKek c.db

end Backend

/-! ## The rotation that holds the lock -/

/-- Every row is still to be re-wrapped, or is among those that are. -/
def Covers (db : Database) (todo written : List CredentialRow) : Prop :=
  ∀ id row, db.credentials.get? id = some row →
    (∃ t ∈ todo, t.id = row.id) ∨ ∃ new ∈ written, new.id = row.id

/-- Where the handler of a rotation is, and what the tables are like there. -/
inductive Progress (r : Rotation) (kek : Key) (db : Database) : Handler → Prop where
  | verifying : Decryptable kek db → Progress r kek db (Handler.rotateLocked r)
  | closing : Decryptable kek db → Progress r kek db (Handler.closeRequest r)
  | listing : Decryptable kek db → Progress r kek db (Handler.listForRewrap r)
  | rewrapping {todo written : List CredentialRow} : Decryptable kek db → Covers db todo written →
      (∀ new ∈ written, new.SealedUnder r.newKeys.streamKeyKek) →
      Progress r kek db (Handler.rewrapLoop r todo written)
  | deletingTokens {written : List CredentialRow} : Decryptable kek db → Covers db [] written →
      (∀ new ∈ written, new.SealedUnder r.newKeys.streamKeyKek) →
      Progress r kek db (Handler.deleteTokens r written)
  | committing {written : List CredentialRow} : Decryptable kek db → Covers db [] written →
      (∀ new ∈ written, new.SealedUnder r.newKeys.streamKeyKek) →
      Progress r kek db (Handler.commitRewrap r written)
  | swapping : Decryptable r.newKeys.streamKeyKek db → Progress r kek db (Handler.swap r)
  | aborting : Decryptable kek db → Progress r kek db Handler.abort
  | releasing : Decryptable kek db →
      Progress r kek db (.sync (fun _ => .releaseRotationLock) fun _ => fail)

section Tables

variable {r : Rotation} {kek : Key} {db db' : Database} {code : Handler}

theorem Decryptable.mono (h : Decryptable kek db)
    (hsub : ∀ id row, db'.credentials.get? id = some row → db.credentials.get? id = some row) :
    Decryptable kek db' :=
  fun id row hrow => h id row (hsub id row hrow)

theorem Covers.mono {todo written : List CredentialRow} (h : Covers db todo written)
    (hsub : ∀ id row, db'.credentials.get? id = some row → db.credentials.get? id = some row) :
    Covers db' todo written :=
  fun id row hrow => h id row (hsub id row hrow)

/-- Rows may disappear under a rotation. -/
theorem Progress.mono (h : Progress r kek db code)
    (hsub : ∀ id row, db'.credentials.get? id = some row → db.credentials.get? id = some row) :
    Progress r kek db' code := by
  cases h with
  | verifying hd => exact .verifying (hd.mono hsub)
  | closing hd => exact .closing (hd.mono hsub)
  | listing hd => exact .listing (hd.mono hsub)
  | rewrapping hd hc hw => exact .rewrapping (hd.mono hsub) (hc.mono hsub) hw
  | deletingTokens hd hc hw => exact .deletingTokens (hd.mono hsub) (hc.mono hsub) hw
  | committing hd hc hw => exact .committing (hd.mono hsub) (hc.mono hsub) hw
  | swapping hd => exact .swapping (hd.mono hsub)
  | aborting hd => exact .aborting (hd.mono hsub)
  | releasing hd => exact .releasing (hd.mono hsub)

theorem decryptable_upsert (h : Decryptable kek db) {id : TargetId} {row : CredentialRow}
    (hrow : row.SealedUnder kek) : Decryptable kek (db.upsertCredential id row) := by
  intro id' row' hget
  simp only [Database.upsertCredential, Dict.get?_insert] at hget
  split at hget
  · obtain rfl := Option.some.inj hget
    exact hrow
  · exact h id' row' (Dict.get?_of_get?_erase hget).2

/-- A row may be added before the listing. -/
theorem Progress.upsert (h : Progress r kek db code) {v : View} (hno : code.hasListed v = false)
    {id : TargetId} {row : CredentialRow} (hrow : row.SealedUnder kek) :
    Progress r kek (db.upsertCredential id row) code := by
  cases h with
  | verifying hd => exact .verifying (decryptable_upsert hd hrow)
  | closing hd => exact .closing (decryptable_upsert hd hrow)
  | listing hd => exact .listing (decryptable_upsert hd hrow)
  | @rewrapping todo written hd =>
    -- only the loop that gives up has not listed
    have hd' : Decryptable _ (db.upsertCredential id row) := decryptable_upsert hd hrow
    cases todo with
    | nil => cases hno
    | cons t rest =>
      rw [Handler.rewrapLoop] at hno ⊢
      split at hno
      · exact .aborting hd'
      · cases hno
  | deletingTokens => cases hno
  | committing => cases hno
  | swapping => cases hno
  | aborting hd => exact .aborting (decryptable_upsert hd hrow)
  | releasing hd => exact .releasing (decryptable_upsert hd hrow)

theorem Progress.ne_done (h : Progress r kek db code) : code ≠ .done := by
  rintro rfl
  generalize hcode : (Code.done : Handler) = code at h
  cases h with
  | @rewrapping todo written =>
    cases todo with
    | nil => cases hcode
    | cons t rest =>
      rw [Handler.rewrapLoop] at hcode
      split at hcode <;> cases hcode
  | verifying | closing | listing | deletingTokens | committing | swapping | aborting | releasing =>
    cases hcode

/-- The row that an update leaves is the last new row with its identifier. -/
theorem sealedUnder_rewrapRow {written : List CredentialRow}
    (hw : ∀ new ∈ written, new.SealedUnder kek) (row : CredentialRow)
    (h : row.SealedUnder kek ∨ ∃ new ∈ written, new.id = row.id) :
    (rewrapRow written row).SealedUnder kek := by
  induction written generalizing row with
  | nil =>
    rcases h with h | ⟨new, hnew, -⟩
    · exact h
    · cases hnew
  | cons new rest ih =>
    rw [rewrapRow, List.foldl_cons]
    have hrest : ∀ new ∈ rest, new.SealedUnder kek := fun n hn => hw n (List.mem_cons_of_mem _ hn)
    split
    · refine ih hrest _ (.inl ?_)
      exact CredentialRow.sealedUnder_iff.mpr
        (CredentialRow.sealedUnder_iff.mp (hw new List.mem_cons_self))
    · rename_i hne
      refine ih hrest row (h.imp id ?_)
      rintro ⟨new', hmem, hid⟩
      rcases List.mem_cons.mp hmem with rfl | hmem
      · exact absurd hid.symm hne
      · exact ⟨new', hmem, hid⟩

/-- When every row is covered, the commit leaves them all under the new key. -/
theorem decryptable_rewrap {written : List CredentialRow} (hc : Covers db [] written)
    (hw : ∀ new ∈ written, new.SealedUnder kek) :
    Decryptable kek ((Change.rewrap written).apply db) := by
  intro id row hrow
  rw [Change.apply, Dict.get?_mapValues] at hrow
  obtain ⟨old, hold, rfl⟩ := Option.map_eq_some_iff.mp hrow
  refine sealedUnder_rewrapRow hw old ?_
  rcases hc id old hold with ⟨t, ht, -⟩ | hnew
  · cases ht
  · exact .inr hnew

end Tables

/-! ## Every state of the process -/

/-- Any operation of the supervisor may be awaited. -/
abbrev AnyCall : Bool → Supervisor.Op → Prop := fun _ _ => True

theorem Endpoint.keeps_anyCall (e : Endpoint) : e.Keeps AnyCall := by
  intro issued keys
  cases e with
  | createTarget id body => exact obeys_createTarget (fun _ => trivial) id body
  | updateTarget id body reversed =>
    exact obeys_updateTarget (fun _ => trivial) (fun _ _ => trivial) id body reversed
  | deleteTarget id reversed => exact obeys_deleteTarget (fun _ _ => trivial) id reversed
  | setCredential id body => exact obeys_setCredential (fun _ => trivial) id body keys
  | clearCredential id reversed => exact obeys_clearCredential (fun _ _ => trivial) id reversed
  | startRun => exact obeys_startRun
  | stopRun => exact obeys_stopRun
  | rotatePassphrase => exact obeys_rotatePassphrase _

/-- The tables and the rotation agree with the current keys. -/
structure Keyed (keys : DerivedKeys) (c : Backend) : Prop where
  current : c.keyMaterial = some keys
  unlocked : c.rotationLock = none → Decryptable keys.streamKeyKek c.db
  locked : ∀ i, c.rotationLock = some i → ∃ code r, c.requests[i]? = some ⟨code, none⟩ ∧
    Progress r keys.streamKeyKek c.db code

theorem Keyed.coherent {keys : DerivedKeys} {c : Backend} (h : Keyed keys c) : c.Coherent := by
  intro hq
  refine ⟨keys, h.current, h.unlocked ?_⟩
  by_contra hlock
  obtain ⟨i, hi⟩ := Option.ne_none_iff_exists'.mp hlock
  obtain ⟨code, r, hreq, hp⟩ := h.locked i hi
  injection hq i _ hreq with hdone
  exact hp.ne_done hdone

section Step

variable {keys : DerivedKeys} {c c' : Backend} {i : ℕ}

/-- Rows may disappear, as long as the keys, the rotation lock and what its
holder has still to do stay. -/
theorem Keyed.mono (h : Keyed keys c) (hk : c'.keyMaterial = c.keyMaterial)
    (hsub : ∀ id row, c'.db.credentials.get? id = some row → c.db.credentials.get? id = some row)
    (hl : c'.rotationLock = c.rotationLock)
    (hreq : ∀ (j : ℕ) task, c.rotationLock = some j → c.requests[j]? = some task →
      c'.requests[j]? = some task) : Keyed keys c' where
  current := hk.trans h.current
  unlocked hnone := (h.unlocked (hl ▸ hnone)).mono hsub
  locked j hj := by
    rw [hl] at hj
    obtain ⟨code, r, hcode, hp⟩ := h.locked j hj
    exact ⟨code, r, hreq j _ hj hcode, hp.mono hsub⟩

/-- A request that does not hold the rotation lock goes on. -/
theorem get?_other {task task' : InFlight} (hne : c.rotationLock ≠ some i) {j : ℕ}
    (hj : c.rotationLock = some j) (ht : c.requests[j]? = some task) :
    (c.requests.set i task')[j]? = some task := by
  rw [List.getElem?_set_ne]
  · exact ht
  · rintro rfl
    exact hne hj

theorem Keyed.other (h : Keyed keys c) (hne : c.rotationLock ≠ some i) {task : InFlight}
    (hf : c.supervisor.shared.Follows c'.supervisor.shared) (hl : c'.rotationLock = c.rotationLock)
    (hreq : c'.requests = c.requests.set i task) : Keyed keys c' :=
  h.mono hf.keyMaterial hf.credentials hl fun _ _ hj ht => hreq ▸ get?_other hne hj ht

theorem Keyed.of_shared (h : Keyed keys c) (hne : c.rotationLock ≠ some i) {task : InFlight}
    (hs : c'.supervisor.shared = c.supervisor.shared) (hl : c'.rotationLock = c.rotationLock)
    (hreq : c'.requests = c.requests.set i task) : Keyed keys c' :=
  h.other hne (hs ▸ Supervisor.Follows.refl _) hl hreq

/-- Request `i` has this code from here on, and nothing else changed. -/
structure GoesOn (c : Backend) (i : ℕ) (code : Handler) (c' : Backend) : Prop where
  shared : c'.supervisor.shared = c.supervisor.shared
  rotationLock : c'.rotationLock = c.rotationLock
  requests : c'.requests = c.requests.set i ⟨code, none⟩

theorem goesOn_close (c : Backend) (i : ℕ) (code : Handler) :
    GoesOn c i code ((c.close i).goOn i code) := by
  refine ⟨congrArg Monitor.Config.shared (supervisor_close c i), rotationLock_close c i, ?_⟩
  rw [Backend.goOn]
  dsimp only
  rw [requests_close]

/-! ### Requests that do not hold the rotation lock -/

/-- Such a request re-wraps nothing, and a credential that it stores is under
the current key. -/
theorem keyed_commit (h : Keyed keys c) (hne : c.rotationLock ≠ some i) {change : Change}
    {k : Handler} (hc : (discipline AnyCall).change (c.held i) change)
    (hg : ∀ id row, change = .upsertCredential id row →
      c.keyMaterial.map DerivedKeys.streamKeyKek = some row.ciphertext.key ∧ c.rewrapping = false) :
    Keyed keys (((c.react (.commit (change.apply c.db))).close i).goOn i k) := by
  have hg' := goesOn_close (c.react (.commit (change.apply c.db))) i k
  have hdb : (((c.react (.commit (change.apply c.db))).close i).goOn i k).db = change.apply c.db :=
    congrArg Supervisor.db hg'.shared
  have hk := congrArg Supervisor.keyMaterial hg'.shared
  have hl : (((c.react (.commit (change.apply c.db))).close i).goOn i k).rotationLock =
      c.rotationLock := hg'.rotationLock
  have hreq := hg'.requests
  have hsub : (∀ id row, (change.apply c.db).credentials.get? id = some row →
      c.db.credentials.get? id = some row) →
      Keyed keys (((c.react (.commit (change.apply c.db))).close i).goOn i k) := by
    refine fun hsub => h.mono hk (fun id row hrow => ?_) hl fun _ _ hj ht =>
      hreq ▸ get?_other hne hj ht
    rw [hdb] at hrow
    exact hsub id row hrow
  cases change with
  | nothing => exact hsub fun _ _ hrow => hrow
  | createTarget id row => exact hsub fun _ _ hrow => hrow
  | updateTarget id patch =>
    refine hsub fun id' row hrow => ?_
    rw [Change.apply, Database.updateTarget] at hrow
    split at hrow <;> exact hrow
  | deleteTarget id => exact hsub fun _ _ hrow => (Dict.get?_of_get?_erase hrow).2
  | deleteForTarget id => exact hsub fun _ _ hrow => (Dict.get?_of_get?_erase hrow).2
  | upsertCredential id row =>
    obtain ⟨hcur, hno⟩ := hg id row rfl
    rw [h.current] at hcur
    have hrow : row.SealedUnder keys.streamKeyKek := by
      rw [Option.map_some, Option.some.injEq] at hcur
      rw [hcur]
      exact hc
    refine ⟨hk.trans h.current, fun hnone => ?_, fun j hj => ?_⟩
    · rw [hl] at hnone
      rw [hdb]
      exact decryptable_upsert (h.unlocked hnone) hrow
    · rw [hl] at hj
      obtain ⟨code, r, hcode, hp⟩ := h.locked j hj
      refine ⟨code, r, hreq ▸ get?_other hne hj hcode, ?_⟩
      rw [hdb]
      refine hp.upsert (v := c.view) ?_ hrow
      simpa [Backend.rewrapping, hj, hcode] using hno
  | rewrap rows => exact absurd (of_decide_eq_true hc) hne

/-- Such a request takes the lock only when it is free, and swaps no keys. -/
theorem keyed_perform (h : Keyed keys c) (hi : i < c.requests.length)
    (hne : c.rotationLock ≠ some i) {m : Move} {k : Handler}
    (hm : (discipline AnyCall).move (c.held i) c.view m k) :
    Keyed keys ((c.perform i m).goOn i k) := by
  cases m with
  | nothing => exact h.of_shared hne rfl rfl rfl
  | schedule op => exact h.of_shared hne rfl rfl rfl
  | takeRotationLock =>
    obtain ⟨-, hfree, -, r, rfl⟩ := hm
    have hnone : c.rotationLock = none :=
      Option.not_isSome_iff_eq_none.mp (by simpa [Backend.view] using hfree)
    refine ⟨h.current, fun hno => absurd hno (Option.some_ne_none i), fun j hj => ?_⟩
    obtain rfl := Option.some.inj hj
    exact ⟨_, r, List.getElem?_set_self hi, .verifying (h.unlocked hnone)⟩
  | releaseRotationLock => exact absurd (of_decide_eq_true hm) hne
  | rotateInPlace salt keys => exact absurd (of_decide_eq_true hm) hne

/-- A call of the supervisor runs up to its first suspension. -/
theorem follows_call (c : Backend) (i : ℕ) (op : Supervisor.Op) (k : Handler) :
    c.supervisor.shared.Follows (c.call i op k).supervisor.shared := by
  show Supervisor.Follows _ (Monitor.start _ _ _ _).shared
  rw [Monitor.start]
  split
  · split
    · rw [Monitor.shared_begin]
      exact Supervisor.follows_enter _ op
    · exact Supervisor.Follows.refl _
  · exact Supervisor.Follows.refl _

/-! ### The request that holds it -/

/-- The holder of the lock made progress. -/
theorem Keyed.progress (h : Keyed keys c) (hi : i < c.requests.length)
    (hl : c.rotationLock = some i) {code : Handler} {r : Rotation} (hg : GoesOn c i code c')
    (hp : Progress r keys.streamKeyKek c.db code) : Keyed keys c' := by
  refine ⟨?_, fun hnone => ?_, fun j hj => ?_⟩
  · rw [Backend.keyMaterial, hg.shared]
    exact h.current
  · rw [hg.rotationLock, hl] at hnone
    cases hnone
  · rw [hg.rotationLock, hl] at hj
    obtain rfl := Option.some.inj hj
    refine ⟨code, r, ?_, ?_⟩
    · rw [hg.requests]
      exact List.getElem?_set_self hi
    · rw [Backend.db, hg.shared]
      exact hp

/-- A statement of the rotation, or the end of it. -/
theorem goesOn_executeLocked {s : Statement} {k : Handler} {answer : Bool}
    (hs : c.advance i answer (Handler.executeLocked s k) = some c') :
    GoesOn c i k c' ∨ GoesOn c i Handler.abort c' := by
  rw [Handler.executeLocked, Backend.advance] at hs
  split at hs <;> split at hs
  · obtain rfl := Option.some.inj hs
    exact .inl ⟨rfl, rfl, rfl⟩
  · cases hs
  · cases hs
  · obtain rfl := Option.some.inj hs
    exact .inr ⟨rfl, rfl, rfl⟩

theorem Keyed.executeLocked (h : Keyed keys c) (hi : i < c.requests.length)
    (hl : c.rotationLock = some i) {s : Statement} {k : Handler} {answer : Bool} {r : Rotation}
    (hd : Decryptable keys.streamKeyKek c.db) (hp : Progress r keys.streamKeyKek c.db k)
    (hs : c.advance i answer (Handler.executeLocked s k) = some c') : Keyed keys c' := by
  rcases goesOn_executeLocked hs with hg | hg
  · exact h.progress hi hl hg hp
  · exact h.progress (r := r) hi hl hg (.aborting hd)

/-- The lock is released, or swapped for other keys. -/
theorem keyed_released (hk : c'.keyMaterial = some keys) (hl : c'.rotationLock = none)
    (hd : Decryptable keys.streamKeyKek c'.db) : Keyed keys c' where
  current := hk
  unlocked _ := hd
  locked j hj := by
    rw [hl] at hj
    cases hj

/-- **The rotation goes on.** -/
theorem keyed_rotation (h : Keyed keys c) {code : Handler} {answer : Bool}
    (hreq : c.requests[i]? = some ⟨code, none⟩) (hl : c.rotationLock = some i) {r : Rotation}
    (hp : Progress r keys.streamKeyKek c.db code) (hs : c.advance i answer code = some c') :
    ∃ keys', Keyed keys' c' := by
  have hi : i < c.requests.length := (List.getElem?_eq_some_iff.mp hreq).1
  cases hp with
  | verifying hd =>
    obtain rfl := Option.some.inj hs
    refine ⟨keys, ?_⟩
    dsimp only
    split
    · exact h.progress (r := r) hi hl ⟨rfl, rfl, rfl⟩ (.closing hd)
    · exact keyed_released h.current rfl hd
  | closing hd =>
    obtain rfl := Option.some.inj hs
    have hg := goesOn_close (c.react (.commit (Change.nothing.apply c.db))) i (Handler.listForRewrap r)
    exact ⟨keys, h.progress (r := r) hi hl ⟨hg.shared, hg.rotationLock, hg.requests⟩ (.listing hd)⟩
  | listing hd =>
    obtain rfl := Option.some.inj hs
    refine ⟨keys, h.progress (r := r) hi hl ⟨rfl, rfl, rfl⟩ (.rewrapping hd ?_ nofun)⟩
    -- the listing has every row
    intro id row hrow
    exact .inl ⟨row, (List.mem_insertionSort _).mpr (Dict.mem_values.mpr ⟨id, hrow⟩), rfl⟩
  | @rewrapping todo written hd hc hw =>
    refine ⟨keys, ?_⟩
    cases todo with
    | nil => exact h.executeLocked hi hl hd (.deletingTokens hd hc hw) hs
    | cons row rest =>
      rw [Handler.rewrapLoop] at hs
      split at hs
      · obtain rfl := Option.some.inj hs
        exact h.progress (r := r) hi hl (goesOn_close c i _) (.releasing hd)
      · rename_i new hnew
        obtain ⟨hid, hsealed⟩ := Rotation.sealedUnder_rewrapped hnew
        refine h.executeLocked hi hl hd (.rewrapping hd (fun id' row' hrow => ?_) ?_) hs
        · rcases hc id' row' hrow with ⟨t, ht, hid'⟩ | ⟨n, hn, hid'⟩
          · rcases List.mem_cons.mp ht with rfl | ht
            · exact .inr ⟨new, List.mem_append_right _ List.mem_cons_self, hid.trans hid'⟩
            · exact .inl ⟨t, ht, hid'⟩
          · exact .inr ⟨n, List.mem_append_left _ hn, hid'⟩
        · intro n hn
          rcases List.mem_append.mp hn with hn | hn
          · exact hw n hn
          · exact List.mem_singleton.mp hn ▸ hsealed
  | deletingTokens hd hc hw =>
    exact ⟨keys, h.executeLocked hi hl hd (.committing hd hc hw) hs⟩
  | @committing written hd hc hw =>
    obtain rfl := Option.some.inj hs
    have hg := goesOn_close (c.react (.commit ((Change.rewrap written).apply c.db))) i (Handler.swap r)
    have hk := congrArg Supervisor.keyMaterial hg.shared
    have hlock := hg.rotationLock.trans hl
    refine ⟨keys, hk.trans h.current, fun hnone => ?_, fun j hj => ?_⟩
    · cases hlock.symm.trans hnone
    · -- the rows are under the new key, while the current key is still the old one
      obtain rfl := Option.some.inj (hlock.symm.trans hj)
      refine ⟨Handler.swap r, r, ?_, .swapping ?_⟩
      · rw [hg.requests]
        exact List.getElem?_set_self hi
      · rw [Backend.db, hg.shared]
        exact decryptable_rewrap hc hw
  | swapping hd =>
    obtain rfl := Option.some.inj hs
    exact ⟨r.newKeys, keyed_released rfl rfl hd⟩
  | aborting hd =>
    obtain rfl := Option.some.inj hs
    exact ⟨keys, h.progress (r := r) hi hl (goesOn_close c i _) (.releasing hd)⟩
  | releasing hd =>
    obtain rfl := Option.some.inj hs
    exact ⟨keys, keyed_released h.current rfl hd⟩

/-- **A request goes on.** -/
theorem keyed_go (h : Keyed keys c) (hd : Disciplined AnyCall c) {answer : Bool}
    (hg : c.CommitsCurrent (.go i answer)) (hs : c.go i answer = some c') :
    ∃ keys', Keyed keys' c' := by
  by_cases hl : c.rotationLock = some i
  · obtain ⟨code, r, hreq, hp⟩ := h.locked i hl
    rw [Backend.go, hreq] at hs
    exact keyed_rotation h hreq hl hp hs
  refine ⟨keys, ?_⟩
  rw [Backend.go] at hs
  split at hs
  · cases hs
  · rename_i code hreq
    have hi : i < c.requests.length := (List.getElem?_eq_some_iff.mp hreq).1
    have hobeys := hd.obeys i _ hreq
    cases code with
    | done => cases hs
    | check k =>
      obtain rfl := Option.some.inj hs
      exact h.of_shared hl rfl rfl rfl
    | select k =>
      obtain rfl := Option.some.inj hs
      exact h.of_shared hl rfl rfl rfl
    | write s k =>
      rw [Backend.advance] at hs
      split at hs <;> split at hs
      · obtain rfl := Option.some.inj hs
        exact h.of_shared hl rfl rfl rfl
      · cases hs
      · cases hs
      · obtain rfl := Option.some.inj hs
        exact h.of_shared hl rfl rfl rfl
    | commit change k =>
      obtain rfl := Option.some.inj hs
      refine keyed_commit h hl hobeys.1 ?_
      rintro id row rfl
      simpa only [Backend.CommitsCurrent, hreq] using hg
    | rollback k =>
      obtain rfl := Option.some.inj hs
      have hend := goesOn_close c i k
      exact h.of_shared hl hend.shared hend.rotationLock hend.requests
    | sync m k =>
      obtain rfl := Option.some.inj hs
      exact keyed_perform h hi hl (hobeys c.view).1
    | await op k =>
      obtain rfl := Option.some.inj hs
      exact h.other hl (follows_call c i op k) rfl rfl
  · split at hs
    · obtain rfl := Option.some.inj hs
      exact h.of_shared hl rfl rfl rfl
    · cases hs

/-- The supervisor deletes credentials and adds none. -/
theorem keyed_supervise (h : Keyed keys c) {l : Supervisor.Label}
    (hs : c.supervise l = some c') : Keyed keys c' := by
  obtain ⟨⟨s, hstep, w, rfl, -⟩, hcommit, hkeys, -⟩ := supervise_spec hs
  rcases Supervisor.follows_step hstep with hf | ⟨e, rfl, he⟩
  · exact h.mono hf.keyMaterial hf.credentials rfl fun _ _ _ ht => ht
  · have hsame : s.shared.keyMaterial = c.keyMaterial ∧ s.shared.db = c.db := by
      rw [he]
      cases e with
      | commit db => exact absurd rfl (hcommit db)
      | setKeys keys => exact absurd rfl (hkeys keys)
      | resetTargetWorker w => exact ⟨rfl, rfl⟩
      | setSuperTg b => exact ⟨rfl, rfl⟩
      | notifyObsPublishBegan | notifyObsPublishEnded =>
        rw [Supervisor.react]
        split
        · rw [Supervisor.setRunState]
          cases c.supervisor.shared.runState.transition _ <;> exact ⟨rfl, rfl⟩
        · exact ⟨rfl, rfl⟩
    refine h.mono hsame.1 (fun id row hrow => ?_) rfl fun _ _ _ ht => ht
    rw [Backend.db, hsame.2] at hrow
    exact hrow

/-- **Every step** whose commits are harmless keeps the rows and the keys together. -/
theorem keyed_step (h : Disciplined AnyCall c ∧ ∃ keys, Keyed keys c) {l : Backend.Label}
    (hg : c.CommitsCurrent l) (hs : Backend.machine.step c l = some c') :
    Disciplined AnyCall c' ∧ ∃ keys, Keyed keys c' := by
  obtain ⟨hd, keys, hk⟩ := h
  have harr : Arrivals (Endpoint.Keeps AnyCall) l := by
    cases l with
    | arrive e => exact e.keeps_anyCall
    | go i answer => trivial
    | supervise l => trivial
  refine ⟨disciplined_step hd harr hs, ?_⟩
  have hs' : c.step l = some c' := hs
  cases l with
  | arrive e =>
    obtain rfl := Option.some.inj hs'
    refine ⟨keys, hk.mono rfl (fun _ _ hrow => hrow) rfl fun j task _ ht => ?_⟩
    exact List.getElem?_append_left (List.getElem?_eq_some_iff.mp ht).1 ▸ ht
  | go i answer => exact keyed_go hk hd hg hs'
  | supervise l => exact ⟨keys, keyed_supervise hk hs'⟩

end Step

/-- **Key coherence**, in every run whose commits of new credentials are under
the key of the moment and do not fall between a listing and its swap. -/
theorem credentials_coherent (url : Text) (registry : CredentialRegistry) (keys : DerivedKeys)
    (kdfSalt : Bytes) (db : Database) (labels : List Backend.Label)
    (hdb : Decryptable keys.streamKeyKek db)
    (h : Backend.machine.Meets Backend.CommitsCurrent
      (Backend.boot url registry keys kdfSalt db) labels) :
    Backend.machine.Always Backend.Coherent (Backend.boot url registry keys kdfSalt db) labels := by
  refine Machine.always_of_inv (I := fun c => Disciplined AnyCall c ∧ ∃ keys, Keyed keys c)
    (fun _ _ _ hi hg hs => keyed_step hi hg hs) (fun _ hi => ?_) ?_ h
  · obtain ⟨-, keys, hk⟩ := hi
    exact hk.coherent
  · refine ⟨disciplined_boot url registry keys kdfSalt db, keys, rfl, fun _ => hdb, fun i hi => ?_⟩
    cases hi

/-! ## A credential that nothing decrypts -/

section Stale

/-- One target, disabled and without a credential. -/
def staleDb : Database where
  targets := Dict.empty.insert 7 ⟨.twitch, ['t'], "rtmp://live.twitch.tv/app".toList, false, ∅⟩
  credentials := ∅
  history := ∅

def staleBoot : Backend :=
  Backend.boot "rtmp://127.0.0.1/live/k".toList .empty
    (deriveKeys ['a'] [1]) [1] staleDb

/-- A stream key for it. -/
def newCredential : Endpoint := .setCredential 7 ⟨['k', 'e', 'y', '1'], 5, [5], [6]⟩

/-- A rotation from `a` to `b`. -/
def rotateAway : Endpoint := .rotatePassphrase ['a'] ['b'] [2] (fun _ => [3]) fun _ => [4]

/-- The request with the credential has found its session when the rotation begins, and
stores it after the rotation. -/
def staleRun : List Backend.Label :=
  .arrive newCredential :: .arrive rotateAway :: List.replicate 2 (.go 0 true) ++
    List.replicate 15 (.go 1 true) ++ List.replicate 7 (.go 0 true)

/-- **A credential encrypted under the old key is committed under the new one.** -/
theorem stale_credential :
    ∃ c, Backend.machine.run staleBoot staleRun = some c ∧ c.Quiescent ∧ ¬ c.Coherent := by
  refine ⟨_, rfl, (fun hq => ⟨hq, fun h => ?_⟩) ?_⟩
  · rintro (_ | _ | i) task ht
    · exact (Option.some.inj ht).symm
    · exact (Option.some.inj ht).symm
    · cases ht
  · obtain ⟨keys, hk, hd⟩ := h hq
    obtain rfl := Option.some.inj hk
    have hkey := (CredentialRow.sealedUnder_iff.mp (hd 7 _ rfl)).1
    -- the passphrases differ
    cases (streamKeyKek_inj hkey).1

/-- One after the other they do no harm. -/
theorem credentials_coherent_in_turn :
    Backend.machine.Always Backend.Coherent staleBoot
      (.arrive newCredential :: List.replicate 9 (.go 0 true) ++
        .arrive rotateAway :: List.replicate 16 (.go 1 true)) :=
  credentials_coherent _ _ _ _ _ _ (fun id row hrow => by cases hrow) (by decide +kernel)

end Stale

end Api

end RestreamPlus
