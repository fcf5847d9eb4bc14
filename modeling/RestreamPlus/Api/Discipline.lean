import RestreamPlus.Api.Backend

/-!
# What no handler ever does

The handlers are checked against one discipline, once for each of them, and
every state of the process keeps it: only the request that holds the rotation
lock re-wraps rows, swaps the keys and releases the lock, it takes the lock when
it is free and no run is going on, `start_run` is scheduled only while the lock
is free, and a request that holds the write lock calls the supervisor only where
`callable` says so.
-/

namespace RestreamPlus

open Interleaving

namespace Api

/-- What a request holds. -/
structure Held : Type where
  /-- the write lock -/
  writes : Bool
  /-- the rotation lock -/
  rotates : Bool

/-- Holding nothing. -/
def Held.nothing : Held := ⟨false, false⟩

/-- The rules for handlers; `callable` says which operations of the supervisor
may be called, with or without the write lock. -/
def discipline (callable : Bool → Supervisor.Op → Prop) :
    Discipline Held Database Statement Change View Move Supervisor.Op where
  wrote q := { q with writes := true }
  closed q := { q with writes := false }
  moved q
    | .takeRotationLock => { q with rotates := true }
    | .releaseRotationLock | .rotateInPlace _ _ => { q with rotates := false }
    | .nothing | .schedule _ => q
  final q := q = Held.nothing
  change q
    | .rewrap _ => q.rotates = true
    -- a new row is encrypted under some key, whether or not it is the current one
    | .upsertCredential _ row => row.SealedUnder row.ciphertext.key
    | _ => True
  move q v m k :=
    match m with
    | .nothing => True
    | .schedule op =>
      q.rotates = false ∧ (op = .startRun ∧ v.rotationLocked = false ∨ ∃ reason, op = .stopRun reason)
    | .takeRotationLock =>
      q.rotates = false ∧ v.rotationLocked = false ∧ v.runState = .offline ∧
        ∃ r, k = Handler.rotateLocked r
    | .releaseRotationLock | .rotateInPlace _ _ => q.rotates = true
  await q op := q.rotates = false ∧ callable q.writes op

section Handlers

variable {callable : Bool → Supervisor.Op → Prop} {q : Held} {k : Handler} {issued : ℕ}

theorem obeys_fail (hq : q.rotates = false) : fail.Obeys (discipline callable) q := by
  show ({ q with writes := false } : Held) = Held.nothing
  rw [hq]
  rfl

theorem obeys_respond (hq : q.rotates = false) : respond.Obeys (discipline callable) q :=
  ⟨trivial, obeys_fail hq⟩

theorem obeys_execute {s : Statement} (hq : q.rotates = false)
    (h : k.Obeys (discipline callable) { q with writes := true }) :
    (execute s k).Obeys (discipline callable) q :=
  ⟨h, obeys_fail hq⟩

theorem obeys_authenticated (hq : q.rotates = false)
    (h : k.Obeys (discipline callable) { q with writes := true }) :
    (authenticated issued k).Obeys (discipline callable) q := by
  intro db
  dsimp only
  split
  case isFalse => exact obeys_fail hq
  intro known
  cases known
  · intro expired
    cases expired
    · exact obeys_fail hq
    · exact obeys_execute hq (obeys_fail hq)
  · exact obeys_execute hq h

/-- The audit entry is written once the transaction of the request is over. -/
theorem obeys_audit (hq : q.rotates = false)
    (h : k.Obeys (discipline callable) { q with writes := false }) :
    (audit k).Obeys (discipline callable) q :=
  obeys_execute hq ⟨trivial, h⟩

theorem obeys_reprompted (hq : q.rotates = false) (h : k.Obeys (discipline callable) q) :
    (reprompted k).Obeys (discipline callable) q := by
  intro granted
  cases granted
  · exact obeys_fail hq
  · exact h

theorem obeys_branch {p : View → Bool} {yes no : Move × Handler}
    (hyes : ∀ v, p v = true → (discipline callable).move q v yes.1 yes.2 ∧
      yes.2.Obeys (discipline callable) ((discipline callable).moved q yes.1))
    (hno : ∀ v, (discipline callable).move q v no.1 no.2 ∧
      no.2.Obeys (discipline callable) ((discipline callable).moved q no.1)) :
    (branch p yes no).Obeys (discipline callable) q := by
  intro v
  cases hp : p v
  · simpa [hp] using hno v
  · simpa [hp] using hyes v hp

/-! ### The handlers of targets and runs -/

theorem obeys_createTarget (henable : ∀ id, callable false (.enableTarget id)) (id : TargetId)
    (body : TargetRow) :
    (Handler.createTarget issued id body).Obeys (discipline callable) Held.nothing := by
  refine obeys_authenticated rfl (obeys_execute rfl ⟨trivial, obeys_audit rfl ?_⟩)
  split
  · exact ⟨⟨rfl, henable id⟩, obeys_respond rfl⟩
  · exact obeys_respond rfl

theorem obeys_trackTransition (henable : ∀ id, callable false (.enableTarget id))
    (hdisable : ∀ id reversed, callable false (.disableTarget id reversed)) (id : TargetId)
    (body : Database.TargetPatch) (existing : TargetRow) (reversed : Bool)
    (h : k.Obeys (discipline callable) Held.nothing) :
    (Handler.trackTransition id body existing reversed k).Obeys (discipline callable)
      Held.nothing := by
  rw [Handler.trackTransition]
  split
  · split
    · exact ⟨⟨rfl, henable id⟩, h⟩
    · split
      · exact ⟨⟨rfl, hdisable id reversed⟩, h⟩
      · exact h
  · split
    · exact ⟨⟨rfl, hdisable id reversed⟩, ⟨rfl, henable id⟩, h⟩
    · exact h

theorem obeys_updateTarget (henable : ∀ id, callable false (.enableTarget id))
    (hdisable : ∀ id reversed, callable false (.disableTarget id reversed)) (id : TargetId)
    (body : Database.TargetPatch) (reversed : Bool) :
    (Handler.updateTarget issued id body reversed).Obeys (discipline callable) Held.nothing := by
  refine obeys_authenticated rfl fun db => ?_
  dsimp only
  split
  · exact obeys_fail rfl
  · rename_i existing _
    exact obeys_execute rfl ⟨trivial, obeys_audit rfl
      (obeys_trackTransition henable hdisable id body existing reversed fun _ => obeys_respond rfl)⟩

/-- The only handler that calls the supervisor with the write lock in its hands. -/
theorem obeys_deleteTarget (hdisable : ∀ id reversed, callable true (.disableTarget id reversed))
    (id : TargetId) (reversed : Bool) :
    (Handler.deleteTarget issued id reversed).Obeys (discipline callable) Held.nothing := by
  refine obeys_authenticated rfl (obeys_reprompted rfl fun db => ?_)
  dsimp only
  split
  · exact obeys_fail rfl
  · exact ⟨⟨rfl, hdisable id reversed⟩,
      obeys_execute rfl ⟨trivial, obeys_audit rfl (obeys_respond rfl)⟩⟩

theorem obeys_setCredential (henable : ∀ id, callable false (.enableTarget id)) (id : TargetId)
    (body : CredentialSetRequest) (keys : DerivedKeys) :
    (Handler.setCredential issued id body keys).Obeys (discipline callable) Held.nothing := by
  refine obeys_authenticated rfl fun db => ?_
  dsimp only
  split
  · exact obeys_fail rfl
  · refine obeys_execute rfl ⟨sealedUnder_credentialRow _ _ body, obeys_audit rfl ?_⟩
    split
    · exact ⟨⟨rfl, henable id⟩, obeys_respond rfl⟩
    · exact obeys_respond rfl

theorem obeys_clearCredential (hdisable : ∀ id reversed, callable false (.disableTarget id reversed))
    (id : TargetId) (reversed : Bool) :
    (Handler.clearCredential issued id reversed).Obeys (discipline callable) Held.nothing := by
  refine obeys_authenticated rfl (obeys_reprompted rfl fun db => ?_)
  dsimp only
  split
  · exact obeys_fail rfl
  · refine obeys_execute rfl fun db => ?_
    dsimp only
    split
    · exact ⟨trivial, obeys_audit rfl ⟨⟨rfl, hdisable id reversed⟩, obeys_respond rfl⟩⟩
    · exact obeys_respond rfl

theorem obeys_startRun : (Handler.startRun issued).Obeys (discipline callable) Held.nothing := by
  refine obeys_authenticated rfl (obeys_branch (fun v hv => ⟨⟨rfl, .inl ⟨rfl, ?_⟩⟩, obeys_respond rfl⟩)
    fun v => ⟨trivial, obeys_fail rfl⟩)
  simpa using (Bool.and_eq_true_iff.mp hv).2

theorem obeys_stopRun : (Handler.stopRun issued).Obeys (discipline callable) Held.nothing :=
  obeys_authenticated rfl (obeys_branch
    (fun _ _ => ⟨⟨rfl, .inr ⟨.userStop, rfl⟩⟩, obeys_respond rfl⟩) fun _ => ⟨trivial, obeys_fail rfl⟩)

/-! ### The rotation -/

theorem obeys_abort (hq : q.rotates = true) :
    Handler.abort.Obeys (discipline callable) q :=
  fun _ => ⟨hq, obeys_fail rfl⟩

theorem obeys_executeLocked {s : Statement} (hq : q.rotates = true)
    (h : k.Obeys (discipline callable) { q with writes := true }) :
    (Handler.executeLocked s k).Obeys (discipline callable) q :=
  ⟨h, obeys_abort hq⟩

theorem obeys_swap (r : Rotation) (hq : q.rotates = true) :
    (Handler.swap r).Obeys (discipline callable) q :=
  fun _ => ⟨hq, obeys_audit rfl (obeys_respond rfl)⟩

theorem obeys_commitRewrap (r : Rotation) (written : List CredentialRow) (hq : q.rotates = true) :
    (Handler.commitRewrap r written).Obeys (discipline callable) q :=
  ⟨hq, obeys_swap r hq⟩

theorem obeys_rewrapLoop (r : Rotation) (todo written : List CredentialRow)
    (hq : q.rotates = true) :
    (Handler.rewrapLoop r todo written).Obeys (discipline callable) q := by
  induction todo generalizing written q with
  | nil =>
    exact obeys_executeLocked hq (obeys_executeLocked hq (obeys_commitRewrap r written hq))
  | cons row rest ih =>
    rw [Handler.rewrapLoop]
    split
    · exact obeys_abort hq
    · exact obeys_executeLocked hq (ih _ hq)

theorem obeys_rotateLocked (r : Rotation) (hq : q.rotates = true) :
    (Handler.rotateLocked r).Obeys (discipline callable) q :=
  obeys_branch (fun _ _ => ⟨trivial, trivial, fun _ => obeys_rewrapLoop r _ _ hq⟩)
    fun _ => ⟨hq, obeys_fail rfl⟩

theorem obeys_rotatePassphrase (r : Rotation) :
    (Handler.rotatePassphrase issued r).Obeys (discipline callable) Held.nothing := by
  refine obeys_authenticated rfl (obeys_reprompted rfl (obeys_branch (fun v hv => ?_)
    fun v => ⟨trivial, obeys_fail rfl⟩))
  simp only [Bool.and_eq_true, decide_eq_true_eq, Bool.not_eq_true'] at hv
  exact ⟨⟨rfl, hv.2, hv.1.1, r, rfl⟩, obeys_rotateLocked r rfl⟩

end Handlers

/-! ## Every state of the process -/

/-- What request `i` holds. -/
def Backend.held (c : Backend) (i : ℕ) : Held :=
  ⟨c.writer = some (.request i), c.rotationLock = some i⟩

/-- Every request keeps the rules. -/
structure Disciplined (callable : Bool → Supervisor.Op → Prop) (c : Backend) : Prop where
  obeys : ∀ (i : ℕ) (task : InFlight), c.requests[i]? = some task → task.code.Obeys (discipline callable) (c.held i)
  bounded : ∀ i, c.writer = some (.request i) ∨ c.rotationLock = some i → i < c.requests.length

/-- A request that may arrive. -/
def Endpoint.Keeps (callable : Bool → Supervisor.Op → Prop) (e : Endpoint) : Prop :=
  ∀ issued keys, (e.handler issued keys).Obeys (discipline callable) Held.nothing

/-- What a label may let in. -/
def Arrivals (P : Endpoint → Prop) : Backend.Label → Prop
  | .arrive e => P e
  | _ => True

section Invariant

variable {callable : Bool → Supervisor.Op → Prop} {c c' : Backend} {i : ℕ}

theorem held_congr {j : ℕ} (hw : c'.writer = some (.request j) ↔ c.writer = some (.request j))
    (hr : c'.rotationLock = some j ↔ c.rotationLock = some j) : c'.held j = c.held j := by
  simp only [Backend.held, hw, hr]

/-- Request `i` went on, and what the others hold did not change. -/
theorem Disciplined.update (h : Disciplined callable c) {task : InFlight} (hi : i < c.requests.length)
    (hreq : c'.requests = c.requests.set i task) (hother : ∀ j, j ≠ i → c'.held j = c.held j)
    (hcode : task.code.Obeys (discipline callable) (c'.held i)) : Disciplined callable c' := by
  constructor
  · intro j t ht
    rw [hreq] at ht
    by_cases hj : j = i
    · subst hj
      rw [List.getElem?_set_self hi] at ht
      obtain rfl := Option.some.inj ht
      exact hcode
    · rw [List.getElem?_set_ne (Ne.symm hj)] at ht
      rw [hother j hj]
      exact h.obeys j t ht
  · intro j hj
    rw [hreq, List.length_set]
    by_cases hji : j = i
    · exact hji ▸ hi
    · refine h.bounded j ?_
      have hsame := hother j hji
      simp only [Backend.held, Held.mk.injEq, decide_eq_decide] at hsame
      exact hj.imp hsame.1.mp hsame.2.mp

theorem writer_close (c : Backend) (i j : ℕ) (hj : j ≠ i) :
    (c.close i).writer = some (.request j) ↔ c.writer = some (.request j) := by
  rw [Backend.close]
  split
  · rename_i hw
    simp [hw, hj.symm]
  · exact Iff.rfl

theorem held_close_self (c : Backend) (i : ℕ) :
    (c.close i).held i = { c.held i with writes := false } := by
  rw [Backend.close]
  split
  · rfl
  · rename_i hw
    simp [Backend.held, hw]

theorem rotationLock_close (c : Backend) (i : ℕ) : (c.close i).rotationLock = c.rotationLock := by
  rw [Backend.close]
  split <;> rfl

theorem supervisor_close (c : Backend) (i : ℕ) : (c.close i).supervisor = c.supervisor := by
  rw [Backend.close]
  split <;> rfl

theorem requests_close (c : Backend) (i : ℕ) : (c.close i).requests = c.requests := by
  rw [Backend.close]
  split <;> rfl

/-- The rules for a stretch without await cover what it does to the locks. -/
theorem disciplined_perform (h : Disciplined callable c) (hi : i < c.requests.length) {m : Move}
    {k : Handler} (hm : (discipline callable).move (c.held i) c.view m k)
    (hk : k.Obeys (discipline callable) ((discipline callable).moved (c.held i) m)) :
    Disciplined callable ((c.perform i m).goOn i k) := by
  cases m with
  | nothing => exact h.update hi rfl (fun _ _ => rfl) hk
  | schedule op => exact h.update hi rfl (fun _ _ => rfl) hk
  | takeRotationLock =>
    have hfree : c.rotationLock = none := Option.not_isSome_iff_eq_none.mp (by simpa [Backend.view] using hm.2.1)
    refine h.update hi rfl (fun j hj => held_congr Iff.rfl ?_) ?_
    · simp [Backend.goOn, Backend.perform, hfree, hj.symm]
    · have hheld : ((c.perform i .takeRotationLock).goOn i k).held i =
          { c.held i with rotates := true } := congrArg (Held.mk _) (decide_eq_true rfl)
      rw [hheld]
      exact hk
  | releaseRotationLock | rotateInPlace salt keys =>
    have hmine : c.rotationLock = some i := of_decide_eq_true hm
    refine h.update hi rfl (fun j hj => held_congr Iff.rfl ?_) hk
    simp [Backend.goOn, Backend.perform, Backend.react, hmine, hj.symm]

/-- **A request goes on** and keeps the rules. -/
theorem disciplined_advance (h : Disciplined callable c) {code : Handler}
    (hreq : c.requests[i]? = some ⟨code, none⟩) {answer : Bool}
    (hs : c.advance i answer code = some c') : Disciplined callable c' := by
  have hi : i < c.requests.length := (List.getElem?_eq_some_iff.mp hreq).1
  have hobeys := h.obeys i _ hreq
  cases code with
  | done => cases hs
  | check k =>
    obtain rfl := Option.some.inj hs
    exact h.update hi rfl (fun _ _ => rfl) (hobeys answer)
  | select k =>
    obtain rfl := Option.some.inj hs
    exact h.update hi rfl (fun _ _ => rfl) (hobeys c.db)
  | write s k =>
    rw [Backend.advance] at hs
    split at hs
    · split at hs
      · rename_i hmay
        obtain rfl := Option.some.inj hs
        refine h.update hi rfl (fun j hj => held_congr ?_ Iff.rfl) ?_
        · rcases hmay with hfree | hmine
          · simp [hfree, hj.symm]
          · simp [hmine, hj.symm]
        · have hheld : Backend.held { c.goOn i (k true) with writer := some (.request i) } i =
              { c.held i with writes := true } :=
            congrArg (fun b => Held.mk b _) (decide_eq_true rfl)
          rw [hheld]
          exact hobeys.1
      · cases hs
    · split at hs
      · cases hs
      · obtain rfl := Option.some.inj hs
        exact h.update hi rfl (fun _ _ => rfl) hobeys.2
  | commit change k =>
    obtain rfl := Option.some.inj hs
    have hset : (((c.react (.commit (change.apply c.db))).close i).goOn i k).requests =
        c.requests.set i ⟨k, none⟩ := by
      rw [Backend.goOn]
      dsimp only
      rw [requests_close]
      rfl
    refine h.update hi hset (fun j hj => held_congr ?_ ?_) ?_
    · exact writer_close _ i j hj
    · rw [Backend.goOn]
      dsimp only
      rw [rotationLock_close]
      rfl
    · have hheld := held_close_self (c.react (.commit (change.apply c.db))) i
      exact hheld ▸ hobeys.2
  | rollback k =>
    obtain rfl := Option.some.inj hs
    have hset : ((c.close i).goOn i k).requests = c.requests.set i ⟨k, none⟩ := by
      rw [Backend.goOn]
      dsimp only
      rw [requests_close]
    refine h.update hi hset (fun j hj => held_congr ?_ ?_) ?_
    · exact writer_close _ i j hj
    · rw [Backend.goOn]
      dsimp only
      rw [rotationLock_close]
    · exact held_close_self c i ▸ hobeys
  | sync m k =>
    obtain rfl := Option.some.inj hs
    exact disciplined_perform h hi (hobeys c.view).1 (hobeys c.view).2
  | await op k =>
    obtain rfl := Option.some.inj hs
    exact h.update hi rfl (fun _ _ => rfl) hobeys.2

/-- What a step of the supervisor does besides moving its own tasks: at most
the write lock changes, and not into or out of the hands of a request. -/
theorem supervise_spec {l : Monitor.Label Supervisor.Op Supervisor.Outcome Supervisor.Env}
    (hs : c.supervise l = some c') :
    (∃ s, Supervisor.monitor.step c.supervisor l = some s ∧
      ∃ w, c' = { c with supervisor := s, writer := w } ∧
        ∀ j, w = some (.request j) ↔ c.writer = some (.request j)) ∧
    (∀ db, l ≠ .external (.commit db)) ∧ (∀ keys, l ≠ .external (.setKeys keys)) ∧
      ∀ op, l ≠ .call op := by
  have hquiet : ∀ {l}, ((Supervisor.monitor.step c.supervisor l).map fun s =>
      { c with supervisor := s }) = some c' → ∃ s, Supervisor.monitor.step c.supervisor l = some s ∧
        ∃ w, c' = { c with supervisor := s, writer := w } ∧
          ∀ j, w = some (.request j) ↔ c.writer = some (.request j) := by
    intro l hl
    obtain ⟨s, hstep, rfl⟩ := Option.map_eq_some_iff.mp hl
    exact ⟨s, hstep, c.writer, rfl, fun j => Iff.rfl⟩
  cases l with
  | call op => cases hs
  | start j => exact ⟨hquiet hs, nofun, nofun, nofun⟩
  | grant => exact ⟨hquiet hs, nofun, nofun, nofun⟩
  | resume j out =>
    refine ⟨?_, nofun, nofun, nofun⟩
    simp only [Backend.supervise] at hs
    split at hs
    · rename_i sec hsec
      split at hs
      · cases hs
      · rename_i hno
        obtain ⟨s, hstep, rfl⟩ := Option.map_eq_some_iff.mp hs
        refine ⟨s, hstep, _, rfl, fun j => ?_⟩
        rw [Backend.writerAfter.eq_def]
        split
        · -- the write lock was free
          have hfree : c.writer = none := by
            by_contra hne
            exact hno ⟨rfl, rfl, hne⟩
          simp [hfree]
        · split
          · rename_i hw
            simp [hw]
          · exact Iff.rfl
        · exact Iff.rfl
    · cases hs
  | external e =>
    cases e with
    | commit db => cases hs
    | setKeys keys => cases hs
    | notifyObsPublishBegan => exact ⟨hquiet hs, nofun, nofun, nofun⟩
    | notifyObsPublishEnded => exact ⟨hquiet hs, nofun, nofun, nofun⟩
    | resetTargetWorker w => exact ⟨hquiet hs, nofun, nofun, nofun⟩
    | setSuperTg b => exact ⟨hquiet hs, nofun, nofun, nofun⟩

/-- A step of the supervisor takes nothing from a request and gives it nothing. -/
theorem disciplined_supervise (h : Disciplined callable c)
    {l : Monitor.Label Supervisor.Op Supervisor.Outcome Supervisor.Env}
    (hs : c.supervise l = some c') : Disciplined callable c' := by
  obtain ⟨⟨s, -, w, rfl, hw⟩, -⟩ := supervise_spec hs
  refine ⟨fun i task ht => ?_, fun i hi => h.bounded i (hi.imp (hw i).mp id)⟩
  have hheld : Backend.held { c with supervisor := s, writer := w } i = c.held i :=
    held_congr (hw i) Iff.rfl
  rw [hheld]
  exact h.obeys i task ht

theorem disciplined_arrive (h : Disciplined callable c) {e : Endpoint}
    (he : e.Keeps callable) :
    Disciplined callable
      { c with
        requests := c.requests ++ [⟨e.begin c.db.revocations c.keyMaterial, none⟩] } := by
  constructor
  · intro i task ht
    rcases Nat.lt_or_ge i c.requests.length with hlt | hge
    · rw [List.getElem?_append_left hlt] at ht
      exact h.obeys i task ht
    · -- the new request holds nothing
      obtain rfl : i = c.requests.length := by
        have hlen := (List.getElem?_eq_some_iff.mp ht).1
        rw [List.length_append, List.length_singleton] at hlen
        omega
      rw [List.getElem?_concat_length] at ht
      obtain rfl := Option.some.inj ht
      have hnothing : c.held c.requests.length = Held.nothing := by
        have hw : ¬ c.writer = some (.request c.requests.length) :=
          fun hw => (h.bounded _ (.inl hw)).false
        have hr : ¬ c.rotationLock = some c.requests.length :=
          fun hr => (h.bounded _ (.inr hr)).false
        simp [Backend.held, Held.nothing, hw, hr]
      show (e.begin c.db.revocations c.keyMaterial).Obeys (discipline callable)
        (c.held c.requests.length)
      rw [hnothing]
      rcases hk : c.keyMaterial with _ | keys
      · exact rfl
      · exact he _ keys
  · intro i hi
    rw [List.length_append]
    exact Nat.lt_add_right _ (h.bounded i hi)

/-- **Every step** keeps the rules. -/
theorem disciplined_step (h : Disciplined callable c) {l : Backend.Label}
    (harr : Arrivals (Endpoint.Keeps callable) l) (hs : Backend.machine.step c l = some c') :
    Disciplined callable c' := by
  change c.step l = some c' at hs
  cases l with
  | arrive e =>
    obtain rfl := Option.some.inj hs
    exact disciplined_arrive h harr
  | go i answer =>
    simp only [Backend.step, Backend.go] at hs
    split at hs
    · cases hs
    · rename_i code hreq
      exact disciplined_advance h hreq hs
    · rename_i code t hreq
      split at hs
      · obtain rfl := Option.some.inj hs
        have hcode := h.obeys i _ hreq
        exact h.update (List.getElem?_eq_some_iff.mp hreq).1 rfl (fun _ _ => rfl) hcode
      · cases hs
  | supervise l => exact disciplined_supervise h hs

theorem disciplined_boot (url : Text) (registry : CredentialRegistry) (keys : DerivedKeys)
    (kdfSalt : Bytes) (db : Database) :
    Disciplined callable (Backend.boot url registry keys kdfSalt db) where
  obeys i task ht := by cases ht
  bounded i hi := by
    rcases hi with hi | hi
    · cases hi
    · cases hi

end Invariant

end Api

end RestreamPlus
