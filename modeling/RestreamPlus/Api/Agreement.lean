import RestreamPlus.Api.Targets

/-!
# Running workers agree with the database

Between two requests of an active run the workers should be those of the enabled
targets that have a credential, each pushing to the URL composed from the
current row and the current key. Every handler decides for itself which
operations of the supervisor it calls, and two of them call too little:

* `set_credential` calls `enable_target` alone, which skips the workers that are
  already there: a replaced key does not reach them;
* `update_target` with `enabled: true` on an enabled target calls nothing, so a
  new URL or new settings in the same body do not reach them either.

`workers_agree_iff` says that nothing else is missing: for every sequence of
completed requests the agreement holds throughout if and only if, whenever one
of these two comes upon a running target, it changes nothing about what the
target pushes.
-/

namespace RestreamPlus

open Interleaving WorkerIndex

namespace Api

open Supervisor

/-- The workers are those the database wants, with the URLs it wants. -/
structure Agrees (s : Supervisor) : Prop where
  workers : ∀ w, (s.workers.get? w).isSome ↔ expected s.db w = true
  urls : ∀ w spec, s.workers.get? w = some spec → ∃ keys row key,
    s.keyMaterial = some keys ∧ s.db.getById w.targetId = some row ∧
    (s.db.getForTarget w.targetId).bind (·.decrypt keys.streamKeyKek) = some key ∧
    composeOutUrl row.type row.url key w.role = .ok spec.outputUrl

/-- The database wants the same pushes of a target as before. -/
def SamePlan (keys : Option DerivedKeys) (db db' : Database) (id : TargetId) : Prop :=
  ∀ role : WorkerRole, expected db' ⟨id, role⟩ = expected db ⟨id, role⟩ ∧
    plannedUrl keys db' ⟨id, role⟩ = plannedUrl keys db ⟨id, role⟩

instance (keys : Option DerivedKeys) (db db' : Database) (id : TargetId) :
    Decidable (SamePlan keys db db' id) :=
  decidable_of_iff (∀ role ∈ [WorkerRole.primary, .backup],
      expected db' ⟨id, role⟩ = expected db ⟨id, role⟩ ∧
        plannedUrl keys db' ⟨id, role⟩ = plannedUrl keys db ⟨id, role⟩)
    ⟨fun h role => h role (by cases role <;> simp), fun h role _ => h role⟩

/-- During a run, a new key for an enabled target that has one, and a patch with
`enabled: true` of an enabled target, leave its pushes as they are. -/
def Reflected (s : Supervisor) : Request → Prop
  | .updateTarget id body =>
    match s.db.getById id with
    | none => True
    | some row =>
      s.runState.isActive = true → row.enabled = true → body.enabled = some true →
        SamePlan s.keyMaterial s.db (s.db.updateTarget id body) id
  | .setCredential id body =>
    match s.keyMaterial, s.db.getById id with
    | some keys, some row =>
      s.runState.isActive = true → row.enabled = true → (s.db.getForTarget id).isSome = true →
        SamePlan s.keyMaterial s.db
          (s.db.upsertCredential id (credentialRow keys.streamKeyKek row.type body)) id
    | _, _ => True
  | _ => True

instance (s : Supervisor) (r : Request) : Decidable (Reflected s r) := by
  induction r using Request.casesOn with
  | updateTarget id _ =>
    unfold Reflected
    dsimp only
    generalize s.db.getById id = row
    induction row using Option.casesOn <;> infer_instance
  | setCredential id _ =>
    unfold Reflected
    dsimp only
    generalize s.keyMaterial = keys
    generalize s.db.getById id = row
    induction keys using Option.casesOn <;> induction row using Option.casesOn <;> infer_instance
  | _ => unfold Reflected; infer_instance

/-! ## One worker id -/

/-- The worker that runs under an id, if any, is one the database wants. -/
def UpToDate (s : Supervisor) (w : WorkerId) : Prop :=
  ∀ spec, s.workers.get? w = some spec →
    expected s.db w = true ∧ plannedUrl s.keyMaterial s.db w = some spec.outputUrl

/-- … and one runs if the database wants one. -/
def Matches (s : Supervisor) (w : WorkerId) : Prop :=
  UpToDate s w ∧ (expected s.db w = true → (s.workers.get? w).isSome)

theorem upToDate_of_none {s : Supervisor} {w : WorkerId} (h : s.workers.get? w = none) :
    UpToDate s w := by
  intro spec hw
  rw [h] at hw
  cases hw

theorem Matches.upToDate {s : Supervisor} {w : WorkerId} (h : Matches s w) : UpToDate s w := h.1

theorem matches_of_none {s : Supervisor} {w : WorkerId} (h : s.workers.get? w = none)
    (hno : expected s.db w = false) : Matches s w :=
  ⟨upToDate_of_none h, fun hex => by rw [hno] at hex; cases hex⟩

theorem Matches.none {s : Supervisor} {w : WorkerId} (h : Matches s w)
    (hno : expected s.db w = false) : s.workers.get? w = none := by
  rcases hw : s.workers.get? w with _ | spec
  · rfl
  · rw [(h.1 spec hw).1] at hno
    cases hno

/-- With the same worker and the same plan. -/
theorem Matches.congr {s s' : Supervisor} {w : WorkerId} (h : Matches s w)
    (hw : s'.workers.get? w = s.workers.get? w) (hex : expected s'.db w = expected s.db w)
    (hurl : plannedUrl s'.keyMaterial s'.db w = plannedUrl s.keyMaterial s.db w) :
    Matches s' w := by
  unfold Matches UpToDate at *
  rw [hw, hex, hurl]
  exact h

theorem plannedUrl_eq_some {keys : Option DerivedKeys} {db : Database} {w : WorkerId} {url : Text} :
    plannedUrl keys db w = some url ↔ expected db w = true ∧ ∃ derived row key,
      keys = some derived ∧ db.getById w.targetId = some row ∧
      (db.getForTarget w.targetId).bind (·.decrypt derived.streamKeyKek) = some key ∧
      composeOutUrl row.type row.url key w.role = .ok url := by
  constructor
  · intro h
    refine ⟨expected_of_plannedUrl h, ?_⟩
    obtain ⟨derived, hkeys, h⟩ := Option.bind_eq_some_iff.mp h
    obtain ⟨row, hrow, h⟩ := Option.bind_eq_some_iff.mp h
    rw [plannedOf] at h
    split at h
    · obtain ⟨key, hkey, hurl⟩ := Option.bind_eq_some_iff.mp h
      refine ⟨derived, row, key, hkeys, hrow, hkey, ?_⟩
      rcases hout : composeOutUrl row.type row.url key w.role with e | url' <;>
        simp only [readTarget, targetDtoToDomain, hout] at hurl
      · cases hurl
      · rw [Option.some.inj hurl]
    · cases h
  · rintro ⟨hex, derived, row, key, hkeys, hrow, hkey, hurl⟩
    simp only [expected, hrow, Bool.and_eq_true, decide_eq_true_eq] at hex
    obtain ⟨⟨henabled, -⟩, hrole⟩ := hex
    rw [plannedUrl, hkeys, Option.bind_some, hrow, Option.bind_some, plannedOf, if_pos]
    · simp only [readTarget, hkey, Option.bind_some, targetDtoToDomain, hurl]
      rfl
    · exact ⟨henabled, rfl, hrole⟩

theorem agrees_iff {s : Supervisor} : Agrees s ↔ ∀ w, Matches s w := by
  constructor
  · intro h w
    refine ⟨fun spec hw => ?_, (h.workers w).mpr⟩
    have hex := (h.workers w).mp (by rw [hw]; rfl)
    exact ⟨hex, plannedUrl_eq_some.mpr ⟨hex, h.urls w spec hw⟩⟩
  · intro h
    refine ⟨fun w => ⟨fun hsome => ?_, (h w).2⟩, fun w spec hw => ?_⟩
    · obtain ⟨spec, hw⟩ := Option.isSome_iff_exists.mp hsome
      exact ((h w).1 spec hw).1
    · exact (plannedUrl_eq_some.mp ((h w).1 spec hw).2).2

/-- What the database wants under an id is read off its target alone. -/
theorem plan_of_touches {id : TargetId} {db db' : Database} (h : Touches id db db')
    (keys : Option DerivedKeys) {w : WorkerId} (hw : w.targetId ≠ id) :
    expected db' w = expected db w ∧ plannedUrl keys db' w = plannedUrl keys db w := by
  obtain ⟨hrow, hcred⟩ := h w.targetId hw
  simp only [expected, plannedUrl, readTarget, hrow, hcred, and_self]

/-- A target that is not there, or not enabled, or without a key, is wanted
nowhere. -/
theorem expected_eq_false {db : Database} {w : WorkerId}
    (h : ∀ row, db.getById w.targetId = some row → row.enabled = true →
      db.getForTarget w.targetId = none) : expected db w = false := by
  rw [Bool.eq_false_iff]
  intro hex
  rcases hrow : db.getById w.targetId with _ | row
  · simp [expected, hrow] at hex
  · simp only [expected, hrow, Bool.and_eq_true] at hex
    rw [h row hrow hex.1.1] at hex
    cases hex.1.2

/-! ## What every action keeps -/

/-- The supervisor between two actions of requests that do not fail. -/
structure Ready (base : Finset Text) (keys : DerivedKeys) (s : Supervisor) : Prop where
  free : Free base (fun _ => True) Empty s
  indexed : s.Indexed
  superTg : s.superTg = true
  ready : s.keyMaterial = some keys
  failures : s.decryptFailures = []

section Actions

variable {base : Finset Text} {keys : DerivedKeys} {s s' : Supervisor} {n : ℕ} {id : TargetId}

theorem Ready.commit (h : Ready base keys s) (db : Database) : Ready base keys { s with db := db } :=
  ⟨⟨h.free.consistent, trivial, h.free.stable, h.free.rests⟩, h.indexed, h.superTg, h.ready,
    h.failures⟩

theorem Ready.active_iff (h : Ready base keys s) :
    s.runState.isActive = true ↔ s.runState = .armed ∨ s.runState = .live := by
  rcases h.free.stable with (hst | hst) | hst | hst <;> rw [hst] <;> decide

/-- Outside a run there are no workers. -/
theorem Ready.none_of_rest (h : Ready base keys s) (hrest : s.runState.isActive ≠ true)
    (w : WorkerId) : s.workers.get? w = none := by
  refine (h.free.rests ?_).workers_none w
  rcases h.free.stable with hst | hst | hst
  · exact hst
  · rw [hst] at hrest
    exact absurd rfl hrest
  · rw [hst] at hrest
    exact absurd rfl hrest

/-- An awaited operation was let in and returned, or was not let in. -/
theorem perform_await {op : Supervisor.Op} (h : perform n s (.await op) = some s') :
    NothingFails s op ∧
      (s.admits op = true ∧ Completes (s.enter op) s' ∨ s.admits op ≠ true ∧ s' = s) := by
  rw [perform] at h
  split at h
  · rename_i hok
    refine ⟨hok, ?_⟩
    rw [Monitor.alone] at h
    split at h
    · rename_i hadm
      exact .inl ⟨hadm, n, h⟩
    · rename_i hadm
      exact .inr ⟨hadm, (Option.some.inj h).symm⟩
  · cases h

/-- `enable_target`: outdated workers aside, its target is then as wanted. -/
theorem enable_spec (h : Ready base keys s)
    (hp : perform n s (.await (.enableTarget id)) = some s') :
    Ready base keys s' ∧ s'.db = s.db ∧ s'.runState = s.runState ∧
      (∀ w, w.targetId ≠ id → s'.workers.get? w = s.workers.get? w) ∧
      (∀ w spec, s.workers.get? w = some spec → s'.workers.get? w = some spec) ∧
      (s.runState.isActive = true → ∀ w, w.targetId = id → UpToDate s w → Matches s' w) := by
  obtain ⟨hsucc, ⟨hadm, hc⟩ | ⟨hadm, rfl⟩⟩ := perform_await hp
  · have hsucc' : ∀ row, s.db.getById id = some row →
        SpawnSucceeds s.toWorkerIndex (readTarget s.db keys.streamKeyKek (id, row)) := by
      intro row hrow
      have hrow := hsucc hadm row hrow
      rw [SpawnsSucceed, h.ready] at hrow
      exact hrow
    have hfree := free_of_completes h.free (show EnableFindsRun s (.enableTarget id) from hadm) hc
    obtain ⟨x, targets, hindexed, hadds, hcomp⟩ := completes_enableTarget id h.superTg h.ready hsucc'
    obtain rfl := (hcomp s').mp hc
    refine ⟨⟨hfree, hindexed h.indexed, h.superTg, h.ready, h.failures⟩, rfl, rfl, fun w hw => ?_,
      hadds.old, fun _ w hw hup => ?_⟩
    · rcases hold : s.workers.get? w with _ | spec
      · have hnew := hadds.new w hold
        rw [if_neg hw] at hnew
        exact Option.map_eq_none_iff.mp hnew
      · exact hadds.old w spec hold
    · rcases hold : s.workers.get? w with _ | spec
      · have hnew := hadds.new w hold
        rw [if_pos hw] at hnew
        refine ⟨fun spec hspec => ?_, fun hex => ?_⟩
        · rw [show x.workers.get? w = some spec from hspec, Option.map_some] at hnew
          exact ⟨expected_of_plannedUrl hnew.symm, hnew.symm⟩
        · have hplan := planned_of_expected h.ready hex hold (by rw [hw]; exact hsucc')
          rw [← hnew, Option.isSome_map] at hplan
          exact hplan
      · refine ⟨fun spec' hspec => ?_, fun _ => ?_⟩
        · obtain rfl := Option.some.inj ((hadds.old w spec hold).symm.trans hspec)
          exact hup spec hold
        · show (x.workers.get? w).isSome
          rw [hadds.old w spec hold]
          rfl
  · exact ⟨h, rfl, rfl, fun _ _ => rfl, fun _ _ hw => hw, fun hact => absurd hact hadm⟩

/-- `disable_target`: its target has no worker, the others keep theirs. -/
theorem disable_spec {reversed : Bool} (h : Ready base keys s)
    (hp : perform n s (.await (.disableTarget id reversed)) = some s') :
    Ready base keys s' ∧ s'.db = s.db ∧ s'.runState = s.runState ∧
      ∀ w, s'.workers.get? w = if w.targetId = id then none else s.workers.get? w := by
  obtain ⟨-, ⟨-, hc⟩ | ⟨hadm, -⟩⟩ := perform_await hp
  · have hfree := free_of_completes h.free (show EnableFindsRun s (.disableTarget id reversed) from
      trivial) hc
    obtain ⟨x, hindexed, hworkers, hcomp⟩ :=
      completes_disableTarget id reversed h.free.consistent h.indexed
    obtain rfl := (hcomp s').mp hc
    exact ⟨⟨hfree, hindexed, h.superTg, h.ready, h.failures⟩, rfl, rfl, hworkers⟩
  · exact absurd rfl hadm

/-- `start_run`: every target is as wanted. -/
theorem start_spec (h : Ready base keys s) (hm : s.runState.isActive = true → ∀ w, Matches s w)
    (hp : perform n s (.await .startRun) = some s') :
    Ready base keys s' ∧ (s'.runState.isActive = true → ∀ w, Matches s' w) := by
  obtain ⟨hsucc, ⟨-, hc⟩ | ⟨hadm, -⟩⟩ := perform_await hp
  · by_cases hoff : s.runState = .offline
    · have hnone := h.none_of_rest (by rw [hoff]; decide)
      have hsucc' : ∀ t ∈ s.db.listEnabled,
          SpawnSucceeds s.toWorkerIndex (readTarget s.db keys.streamKeyKek t) := by
        intro t ht
        have ht := hsucc hoff t ht
        rw [SpawnsSucceed, h.ready] at ht
        exact ht
      have hfree := free_of_completes h.free (show EnableFindsRun s .startRun from trivial) hc
      obtain ⟨x, targets, run, hindexed, hurls, hcomp⟩ :=
        completes_startRun hoff h.superTg h.ready hnone hsucc'
      obtain rfl := (hcomp s').mp hc
      refine ⟨⟨hfree, hindexed, h.superTg, h.ready, rfl⟩, fun _ w => ⟨fun spec hw => ?_,
        fun hex => ?_⟩⟩
      · have hurl := hurls w
        rw [show x.workers.get? w = some spec from hw, Option.map_some] at hurl
        exact ⟨expected_of_plannedUrl hurl.symm, hurl.symm⟩
      · have hplan := planned_of_expected h.ready hex (hnone w) fun row hrow => by
          by_cases henabled : row.enabled = true
          · refine hsucc' (w.targetId, row) (List.mem_filter.mpr ⟨?_, henabled⟩)
            exact Dict.mem_entries.mpr hrow
          · exact fun hen => absurd hen henabled
        rw [← hurls w, Option.isSome_map] at hplan
        exact hplan
    · rw [enter, startRun, if_neg hoff] at hc
      obtain rfl := Monitor.completes_return.mp hc
      exact ⟨h, hm⟩
  · exact absurd rfl hadm

/-- `stop_run`: no run is left. -/
theorem stop_spec {reason : EndReason} (h : Ready base keys s)
    (hp : perform n s (.await (.stopRun reason)) = some s') :
    Ready base keys s' ∧ s'.runState.isActive ≠ true := by
  obtain ⟨-, ⟨-, hc⟩ | ⟨hadm, -⟩⟩ := perform_await hp
  · have hfree := free_of_completes h.free (show EnableFindsRun s (.stopRun reason) from trivial) hc
    by_cases hact : s.runState.isActive = true
    · obtain ⟨x, db, hcomp⟩ := completes_stopRun reason hact
      obtain rfl := (hcomp s').mp hc
      have hnone := (hfree.rests (.inl rfl)).workers_none
      exact ⟨⟨hfree, indexed_of_none hnone, h.superTg, h.ready, h.failures⟩,
        Bool.false_ne_true⟩
    · have hrest : s.runState = .offline ∨ s.runState = .stopping ∨ s.runState = .error := by
        cases hst : s.runState <;> rw [hst] at hact <;> simp_all [RunState.isActive]
      rw [enter, stopRun, if_pos hrest] at hc
      obtain rfl := Monitor.completes_return.mp hc
      exact ⟨h, hact⟩
  · exact absurd rfl hadm

end Actions

/-! ## What every request keeps -/

/-- Between two requests. -/
structure Coherent (base : Finset Text) (keys : DerivedKeys) (s : Supervisor) : Prop where
  ready : Ready base keys s
  wanted : s.runState.isActive = true → ∀ w, Matches s w

section Requests

variable {base : Finset Text} {keys : DerivedKeys} {s s' : Supervisor} {n : ℕ} {id : TargetId}

theorem run_actions {a : Action} {as : List Action} (h : (actions n).run s (a :: as) = some s') :
    ∃ s₁, perform n s a = some s₁ ∧ (actions n).run s₁ as = some s' :=
  Machine.run_cons_eq_some h

theorem run_commit (f : Database → Database) (as : List Action) :
    (actions n).run s (.commit f :: as) = (actions n).run { s with db := f s.db } as := rfl

/-- Actions that concern one target leave the others as they should be. -/
theorem run_concerns {as : List Action} (h : Ready base keys s) (has : ∀ a ∈ as, Concerns id a)
    (hrun : (actions n).run s as = some s') :
    Ready base keys s' ∧ s'.runState = s.runState ∧
      ∀ w, w.targetId ≠ id → Matches s w → Matches s' w := by
  induction as generalizing s with
  | nil =>
    obtain rfl := Option.some.inj hrun
    exact ⟨h, rfl, fun _ _ hm => hm⟩
  | cons a as ih =>
    obtain ⟨s₁, hs₁, hrun⟩ := run_actions hrun
    have hstep : Ready base keys s₁ ∧ s₁.runState = s.runState ∧
        ∀ w, w.targetId ≠ id → Matches s w → Matches s₁ w := by
      have ha := has a List.mem_cons_self
      cases a with
      | commit f =>
        obtain rfl := Option.some.inj hs₁
        refine ⟨h.commit _, rfl, fun w hw hm => ?_⟩
        obtain ⟨hex, hurl⟩ := plan_of_touches (ha s.db) s.keyMaterial hw
        exact hm.congr rfl hex hurl
      | notify e => exact ha.elim
      | await op =>
        cases op with
        | startRun => exact ha.elim
        | stopRun reason => exact ha.elim
        | enableTarget i =>
          obtain rfl : i = id := ha
          obtain ⟨hready, hdb, hst, hworkers, -, -⟩ := enable_spec h hs₁
          refine ⟨hready, hst, fun w hw hm => hm.congr (hworkers w hw) ?_ ?_⟩
          · rw [hdb]
          · rw [hdb, hready.ready, h.ready]
        | disableTarget i reversed =>
          obtain rfl : i = id := ha
          obtain ⟨hready, hdb, hst, hworkers⟩ := disable_spec h hs₁
          refine ⟨hready, hst, fun w hw hm => hm.congr ?_ ?_ ?_⟩
          · rw [hworkers, if_neg hw]
          · rw [hdb]
          · rw [hdb, hready.ready, h.ready]
    obtain ⟨hready, hst, hm⟩ := ih hstep.1 (fun a' ha' => has a' (List.mem_cons_of_mem a ha')) hrun
    exact ⟨hready, hst.trans hstep.2.1, fun w hw hmw => hm w hw (hstep.2.2 w hw hmw)⟩

/-- It is enough to look at the target the actions concern. -/
theorem Coherent.of_concerns {as : List Action} (h : Coherent base keys s) (id : TargetId)
    (has : ∀ a ∈ as, Concerns id a) (hrun : (actions n).run s as = some s')
    (hid : s.runState.isActive = true → ∀ w, w.targetId = id → Matches s' w) :
    Coherent base keys s' := by
  obtain ⟨hready, hst, hother⟩ := run_concerns h.ready has hrun
  refine ⟨hready, fun hact w => ?_⟩
  rw [hst] at hact
  by_cases hw : w.targetId = id
  · exact hid hact w hw
  · exact hother w hw (h.wanted hact w)

/-- `enable_target` after a commit, where no outdated worker can be left. -/
theorem matches_enable {w : WorkerId} {db : Database} (h : Coherent base keys s)
    (hact : s.runState.isActive = true) (hw : w.targetId = id)
    (hrun : (actions n).run { s with db := db } [.await (.enableTarget id)] = some s')
    (hup : UpToDate { s with db := db } w) :
    Matches s' w := by
  obtain ⟨s₁, hs₁, hrun⟩ := run_actions hrun
  obtain rfl := Option.some.inj hrun
  obtain ⟨-, -, -, -, -, hm⟩ := enable_spec (h.ready.commit db) hs₁
  exact hm hact w hw hup

/-- `disable_target` after a commit that wants nothing of the target any more. -/
theorem matches_disable {w : WorkerId} {db : Database} {reversed : Bool} (h : Coherent base keys s)
    (hw : w.targetId = id) (hno : expected db w = false)
    (hrun : (actions n).run { s with db := db } [.await (.disableTarget id reversed)] = some s') :
    Matches s' w := by
  obtain ⟨s₁, hs₁, hrun⟩ := run_actions hrun
  obtain rfl := Option.some.inj hrun
  obtain ⟨-, hdb, -, hworkers⟩ := disable_spec (h.ready.commit db) hs₁
  refine matches_of_none ?_ (by rw [hdb]; exact hno)
  rw [hworkers, if_pos hw]

theorem coherent_createTarget {body : TargetRow} (h : Coherent base keys s)
    (hfresh : s.db.getById id = none) (hrun : (actions n).run s (createTarget id body) = some s') :
    Coherent base keys s' := by
  refine h.of_concerns id (fun a ha => ?_) hrun fun hact w hw => ?_
  · rw [createTarget, List.mem_cons] at ha
    rcases ha with rfl | ha
    · exact fun db => touches_createTarget db id body
    · split at ha
      · obtain rfl := List.mem_singleton.mp ha
        rfl
      · cases ha
  · have hnone : s.workers.get? w = none := by
      refine (h.wanted hact w).none (expected_eq_false fun row hrow => ?_)
      rw [hw, hfresh] at hrow
      cases hrow
    rw [createTarget] at hrun
    split at hrun
    · rw [run_commit] at hrun
      exact matches_enable h hact hw hrun (upToDate_of_none hnone)
    · rename_i hdisabled
      obtain rfl := Option.some.inj hrun
      refine matches_of_none hnone (expected_eq_false fun row hrow henabled => ?_)
      rw [hw] at hrow
      obtain rfl := Option.some.inj ((Dict.get?_insert_self _ _ _).symm.trans hrow)
      exact absurd henabled hdisabled

theorem coherent_deleteTarget {reversed : Bool} (h : Coherent base keys s)
    (hrun : (actions n).run s (deleteTarget id reversed) = some s') : Coherent base keys s' := by
  refine h.of_concerns id (fun a ha => ?_) hrun fun _ w hw => ?_
  · rcases List.mem_cons.mp ha with rfl | ha
    · rfl
    · obtain rfl := List.mem_singleton.mp ha
      exact fun db => touches_deleteTarget db id
  · obtain ⟨s₁, hs₁, hrun⟩ := run_actions hrun
    obtain rfl := Option.some.inj hrun
    obtain ⟨-, -, -, hworkers⟩ := disable_spec h.ready hs₁
    refine matches_of_none ?_ (expected_eq_false fun row hrow => ?_)
    · rw [show ({ s₁ with db := s₁.db.deleteTarget id } : Supervisor).workers = s₁.workers from rfl,
        hworkers, if_pos hw]
    · rw [hw] at hrow
      exact absurd ((Dict.get?_erase_self _ _).symm.trans hrow) (by simp)

theorem getById_updateTarget {db : Database} {body : Database.TargetPatch} {existing row : TargetRow}
    (hex : db.getById id = some existing) (h : (db.updateTarget id body).getById id = some row) :
    row = body.apply existing := by
  rw [Database.getById] at hex
  rw [Database.updateTarget, hex, Database.getById, Dict.get?_insert_self] at h
  exact (Option.some.inj h).symm

theorem coherent_updateTarget {body : Database.TargetPatch} {existing : TargetRow} {reversed : Bool}
    (h : Coherent base keys s) (hex : s.db.getById id = some existing)
    (hrefl : Reflected s (.updateTarget id body))
    (hrun : (actions n).run s (updateTarget id body existing reversed) = some s') :
    Coherent base keys s' := by
  refine h.of_concerns id (concerns_updateTarget id body existing reversed) hrun fun hact w hw => ?_
  have hm := h.wanted hact w
  -- a target that was not enabled had no worker
  have hold : existing.enabled = false → s.workers.get? w = none := fun hdis =>
    hm.none (expected_eq_false fun row hrow henabled => by
      rw [hw, hex] at hrow
      obtain rfl := Option.some.inj hrow
      rw [hdis] at henabled
      cases henabled)
  -- and one that is no longer enabled is wanted nowhere
  have hnew : (body.apply existing).enabled = false →
      expected (s.db.updateTarget id body) w = false := fun hdis =>
    expected_eq_false fun row hrow henabled => by
      rw [hw] at hrow
      rw [getById_updateTarget hex hrow, hdis] at henabled
      cases henabled
  have happly : (body.apply existing).enabled = body.enabled.getD existing.enabled := rfl
  rw [updateTarget, run_commit] at hrun
  rcases henabled : body.enabled with _ | _ | _ <;> rcases hwas : existing.enabled with _ | _ <;>
    rw [henabled, hwas] at hrun happly
  · -- nothing said about `enabled`, a disabled target
    obtain rfl := Option.some.inj hrun
    exact matches_of_none (hold hwas) (hnew happly)
  · -- nothing said about `enabled`, an enabled target: the workers are cycled
    obtain ⟨s₁, hs₁, hrun⟩ := run_actions hrun
    obtain ⟨hready, -, hst, hworkers⟩ := disable_spec (h.ready.commit _) hs₁
    obtain ⟨s₂, hs₂, hrun⟩ := run_actions hrun
    obtain rfl := Option.some.inj hrun
    obtain ⟨-, -, -, -, -, hmatch⟩ := enable_spec hready hs₂
    exact hmatch (hst ▸ hact) w hw (upToDate_of_none (by rw [hworkers, if_pos hw]))
  · obtain rfl := Option.some.inj hrun
    exact matches_of_none (hold hwas) (hnew happly)
  · -- disabled now
    exact matches_disable h hw (hnew happly) hrun
  · -- enabled now
    exact matches_enable h hact hw hrun (upToDate_of_none (hold hwas))
  · -- enabled before and after: nothing is called
    obtain rfl := Option.some.inj hrun
    rw [Reflected, hex] at hrefl
    obtain ⟨tid, role⟩ := w
    obtain rfl : tid = id := hw
    obtain ⟨hexp, hurl⟩ := hrefl hact hwas henabled role
    exact hm.congr rfl hexp hurl

theorem coherent_clearCredential {reversed : Bool} (h : Coherent base keys s)
    (hrun : (actions n).run s (clearCredential id (s.db.getForTarget id) reversed) = some s') :
    Coherent base keys s' := by
  rcases hcred : s.db.getForTarget id with _ | row <;> rw [hcred] at hrun
  · obtain rfl := Option.some.inj hrun
    exact h
  · refine h.of_concerns id (fun a ha => ?_) hrun fun _ w hw => ?_
    · rcases List.mem_cons.mp ha with rfl | ha
      · exact fun db => touches_deleteForTarget db id
      · obtain rfl := List.mem_singleton.mp ha
        rfl
    · refine matches_disable h hw (expected_eq_false fun _ _ _ => ?_) hrun
      rw [hw]
      exact Dict.get?_erase_self _ _

theorem concerns_setCredential (id : TargetId) (body : CredentialSetRequest) (keys : DerivedKeys)
    (target : TargetRow) : ∀ a ∈ setCredential id body keys target, Concerns id a := by
  intro a ha
  rw [setCredential, List.mem_cons] at ha
  rcases ha with rfl | ha
  · exact fun db => touches_upsertCredential db id _
  · split at ha
    · obtain rfl := List.mem_singleton.mp ha
      rfl
    · cases ha

theorem coherent_setCredential {body : CredentialSetRequest} {target : TargetRow}
    (h : Coherent base keys s) (hrow : s.db.getById id = some target)
    (hrefl : Reflected s (.setCredential id body))
    (hrun : (actions n).run s (setCredential id body keys target) = some s') :
    Coherent base keys s' := by
  refine h.of_concerns id (concerns_setCredential id body keys target) hrun fun hact w hw => ?_
  have hm := h.wanted hact w
  rw [setCredential, run_commit] at hrun
  split at hrun
  · rename_i henabled
    refine matches_enable h hact hw hrun ?_
    rcases hcred : s.db.getForTarget id with _ | credential
    · -- the first key: nothing was running
      refine upToDate_of_none (hm.none (expected_eq_false fun _ _ _ => ?_))
      rw [hw]
      exact hcred
    · rw [Reflected, h.ready.ready, hrow] at hrefl
      obtain ⟨tid, role⟩ := w
      obtain rfl : tid = id := hw
      obtain ⟨hexp, hurl⟩ := hrefl hact henabled (by rw [hcred]; rfl) role
      rw [← h.ready.ready] at hurl
      refine Matches.upToDate (hm.congr rfl hexp hurl)
  · -- a disabled target
    rename_i hdisabled
    obtain rfl := Option.some.inj hrun
    have hno : ∀ row, s.db.getById w.targetId = some row → row.enabled = true →
        ∀ c : Option CredentialRow, c = none := by
      intro row hrow' henabled
      rw [hw, hrow] at hrow'
      obtain rfl := Option.some.inj hrow'
      exact absurd henabled hdisabled
    exact matches_of_none (hm.none (expected_eq_false fun row hr he => hno row hr he _))
      (expected_eq_false fun row hr he => hno row hr he _)

theorem coherent_notify (e : Supervisor.Env) (h : Coherent base keys s)
    (hdb : (s.react e).db = s.db) (hkeys : (s.react e).keyMaterial = s.keyMaterial)
    (htg : (s.react e).superTg = s.superTg)
    (hfail : (s.react e).decryptFailures = s.decryptFailures) : Coherent base keys (s.react e) := by
  obtain ⟨hindex, hst⟩ := react_spec s e
  have hfree := free_react s e h.ready.free
  refine ⟨⟨hfree, ?_, htg.trans h.ready.superTg, hkeys.trans h.ready.ready,
    hfail.trans h.ready.failures⟩, fun hact w => ?_⟩
  · rw [hindex]
    exact h.ready.indexed
  · have hact' : s.runState.isActive = true := by
      rcases hst with heq | ⟨heq, -⟩ | ⟨heq, -⟩
      · rw [← heq]
        exact hact
      · rw [heq]
        rfl
      · rw [heq]
        rfl
    refine (h.wanted hact' w).congr ?_ (by rw [hdb]) (by rw [hdb, hkeys])
    exact congrArg (fun x : WorkerIndex => x.workers.get? w) hindex

/-- **One request** of the allowed kind keeps workers and database together. -/
theorem coherent_step {l : Label} (h : Coherent base keys s) (hrefl : Reflected s l.request)
    (hstep : requests.step s l = some s') : Coherent base keys s' := by
  obtain ⟨request, n, reversed⟩ := l
  obtain ⟨as, has, hrun⟩ := Option.bind_eq_some_iff.mp hstep
  cases request with
  | createTarget id body =>
    dsimp only [handle] at has
    split at has
    · cases has
    · rename_i hfresh
      obtain rfl := Option.some.inj has
      exact coherent_createTarget h (Option.not_isSome_iff_eq_none.mp hfresh) hrun
  | updateTarget id body =>
    dsimp only [handle] at has
    split at has <;> obtain rfl := Option.some.inj has
    · obtain rfl := Option.some.inj hrun
      exact h
    · rename_i existing hex
      exact coherent_updateTarget h hex hrefl hrun
  | deleteTarget id =>
    dsimp only [handle] at has
    split at has <;> obtain rfl := Option.some.inj has
    · obtain rfl := Option.some.inj hrun
      exact h
    · exact coherent_deleteTarget h hrun
  | setCredential id body =>
    dsimp only [handle] at has
    rw [h.ready.ready] at has
    rcases hrow : s.db.getById id with _ | target <;> rw [hrow] at has <;>
      obtain rfl := Option.some.inj has
    · obtain rfl := Option.some.inj hrun
      exact h
    · exact coherent_setCredential h hrow hrefl hrun
  | clearCredential id =>
    dsimp only [handle] at has
    split at has <;> obtain rfl := Option.some.inj has
    · obtain rfl := Option.some.inj hrun
      exact h
    · exact coherent_clearCredential h hrun
  | startRun =>
    obtain rfl := Option.some.inj has
    obtain ⟨s₁, hs₁, hrun⟩ := run_actions hrun
    obtain rfl := Option.some.inj hrun
    obtain ⟨hready, hm⟩ := start_spec h.ready h.wanted hs₁
    exact ⟨hready, hm⟩
  | stopRun =>
    obtain rfl := Option.some.inj has
    obtain ⟨s₁, hs₁, hrun⟩ := run_actions hrun
    obtain rfl := Option.some.inj hrun
    obtain ⟨hready, hrest⟩ := stop_spec h.ready hs₁
    exact ⟨hready, fun hact => absurd hact hrest⟩
  | publishBegan =>
    obtain rfl := Option.some.inj has
    obtain ⟨s₁, hs₁, hrun⟩ := run_actions hrun
    obtain rfl := Option.some.inj hrun
    obtain rfl := Option.some.inj hs₁
    refine coherent_notify _ h ?_ ?_ ?_ ?_ <;> rw [react] <;> split <;> try rfl
    all_goals
      rename_i harmed
      rw [setRunState, harmed]
      rfl
  | publishEnded =>
    obtain rfl := Option.some.inj has
    obtain ⟨s₁, hs₁, hrun⟩ := run_actions hrun
    obtain rfl := Option.some.inj hrun
    obtain rfl := Option.some.inj hs₁
    refine coherent_notify _ h ?_ ?_ ?_ ?_ <;> rw [react] <;> split <;> try rfl
    all_goals
      rename_i hlive
      rw [setRunState, hlive]
      rfl

/-! ## What the two handlers miss -/

/-- Two matching states with the same worker want the same. -/
theorem plan_eq_of_matches {w : WorkerId} (h : Matches s w) (h' : Matches s' w)
    (hw : s'.workers.get? w = s.workers.get? w) :
    expected s'.db w = expected s.db w ∧
      plannedUrl s'.keyMaterial s'.db w = plannedUrl s.keyMaterial s.db w := by
  rcases hold : s.workers.get? w with _ | spec <;> rw [hold] at hw
  · have hno : ∀ {s₀ : Supervisor}, Matches s₀ w → s₀.workers.get? w = none →
        expected s₀.db w = false ∧ plannedUrl s₀.keyMaterial s₀.db w = none := by
      intro s₀ hm hnone
      have hex : expected s₀.db w = false := by
        rw [Bool.eq_false_iff]
        intro hex
        have hsome := hm.2 hex
        rw [hnone] at hsome
        cases hsome
      refine ⟨hex, ?_⟩
      rcases hurl : plannedUrl s₀.keyMaterial s₀.db w with _ | url
      · rfl
      · rw [expected_of_plannedUrl hurl] at hex
        cases hex
    obtain ⟨he, hu⟩ := hno h hold
    obtain ⟨he', hu'⟩ := hno h' hw
    exact ⟨he'.trans he.symm, hu'.trans hu.symm⟩
  · obtain ⟨he, hu⟩ := h.1 spec hold
    obtain ⟨he', hu'⟩ := h'.1 spec hw
    exact ⟨he'.trans he.symm, hu'.trans hu.symm⟩

/-- What runs under an id is what is planned for it. -/
theorem Matches.url_eq {w : WorkerId} (h : Matches s w) :
    (s.workers.get? w).map WorkerSpec.outputUrl = plannedUrl s.keyMaterial s.db w := by
  rcases hw : s.workers.get? w with _ | spec
  · rcases hurl : plannedUrl s.keyMaterial s.db w with _ | url
    · rfl
    · have hsome := h.2 (expected_of_plannedUrl hurl)
      rw [hw] at hsome
      cases hsome
  · exact (h.1 spec hw).2.symm

/-- Replacing a key changes nothing about who is expected. -/
theorem expected_upsertCredential {db : Database} (row : CredentialRow)
    (h : (db.getForTarget id).isSome = true) (w : WorkerId) :
    expected (db.upsertCredential id row) w = expected db w := by
  have hsome : ((db.upsertCredential id row).getForTarget w.targetId).isSome =
      (db.getForTarget w.targetId).isSome := by
    by_cases hid : w.targetId = id
    · rw [hid, h]
      exact congrArg Option.isSome (Dict.get?_insert_self _ _ _)
    · rw [(touches_upsertCredential db id row w.targetId hid).2]
  have hrow : (db.upsertCredential id row).getById w.targetId = db.getById w.targetId := rfl
  simp only [expected, hrow, hsome, rolesFor, targetDtoToDomain]
  rfl

/-- A request that is not reflected ends without agreement. -/
theorem not_agrees_of_not_reflected {l : Label} (h : Coherent base keys s)
    (hno : ¬ Reflected s l.request) (hstep : requests.step s l = some s') :
    (s'.runState = .armed ∨ s'.runState = .live) ∧ ¬ Agrees s' := by
  obtain ⟨request, n, reversed⟩ := l
  obtain ⟨as, has, hrun⟩ := Option.bind_eq_some_iff.mp hstep
  dsimp only at hno hrun
  cases request with
  | updateTarget id body =>
    rcases hrow : s.db.getById id with _ | row
    · exact absurd (by simp only [Reflected, hrow]) hno
    · simp only [Reflected, hrow, Classical.not_imp] at hno
      obtain ⟨hact, henabled, hbody, hplan⟩ := hno
      simp only [handle, hrow] at has
      obtain rfl := Option.some.inj has
      -- only the commit happens
      rw [updateTarget, run_commit, hbody, henabled] at hrun
      obtain rfl := Option.some.inj hrun
      refine ⟨h.ready.active_iff.mp hact, fun hagrees => hplan fun role => ?_⟩
      exact plan_eq_of_matches (h.wanted hact ⟨id, role⟩) (agrees_iff.mp hagrees ⟨id, role⟩) rfl
  | setCredential id body =>
    rcases hrow : s.db.getById id with _ | row
    · exact absurd (by simp only [Reflected, h.ready.ready, hrow]) hno
    · simp only [Reflected, h.ready.ready, hrow, Classical.not_imp] at hno
      obtain ⟨hact, henabled, hcred, hplan⟩ := hno
      simp only [handle, h.ready.ready, hrow] at has
      obtain rfl := Option.some.inj has
      rw [setCredential, run_commit, if_pos henabled] at hrun
      obtain ⟨s₁, hs₁, hrun⟩ := run_actions hrun
      obtain rfl := Option.some.inj hrun
      obtain ⟨hready, hdb, hst, -, hold, -⟩ := enable_spec (h.ready.commit _) hs₁
      refine ⟨hready.active_iff.mp (by rw [hst]; exact hact), fun hagrees => hplan fun role => ?_⟩
      have hm := h.wanted hact ⟨id, role⟩
      have hm' := agrees_iff.mp hagrees ⟨id, role⟩
      have hex : expected s₁.db ⟨id, role⟩ = expected s.db ⟨id, role⟩ := by
        rw [hdb]
        exact expected_upsertCredential _ hcred _
      have hw : s₁.workers.get? ⟨id, role⟩ = s.workers.get? ⟨id, role⟩ := by
        rcases hspec : s.workers.get? ⟨id, role⟩ with _ | spec
        · refine hm'.none (hex.trans (Bool.eq_false_iff.mpr fun hyes => ?_))
          have hsome := hm.2 hyes
          rw [hspec] at hsome
          cases hsome
        · exact hold _ spec hspec
      have hplan' := plan_eq_of_matches hm hm' hw
      rw [hdb, hready.ready, h.ready.ready] at hplan'
      exact hplan'
  | _ => exact absurd trivial hno

end Requests

/-- A freshly constructed supervisor is coherent with every database. -/
theorem coherent_init (url : Text) (registry : CredentialRegistry) (keys : DerivedKeys)
    (db : Database) :
    Coherent registry.snapshot keys (Supervisor.init url registry (some keys) db) where
  ready :=
    ⟨free_init (fun _ => True) Empty (fun _ _ => trivial) (fun _ he => he) url registry _ db,
      indexed_of_none fun _ => rfl, rfl, rfl, rfl⟩
  wanted hact := by cases hact

/-- **Agreement, exactly**: along a sequence of completed requests the workers
of every active run agree with the database between the requests if and only if
every change of a running target that `enable_target` alone, or nothing, is
called for leaves its pushes as they were. -/
theorem workers_agree_iff (url : Text) (registry : CredentialRegistry) (keys : DerivedKeys)
    (db : Database) (labels : List Label)
    (h : (requests.run (Supervisor.init url registry (some keys) db) labels).isSome) :
    requests.Always (fun s => s.runState = .armed ∨ s.runState = .live → Agrees s)
        (Supervisor.init url registry (some keys) db) labels ↔
      requests.Meets (fun s l => Reflected s l.request)
        (Supervisor.init url registry (some keys) db) labels := by
  refine Machine.always_iff_meets_of_run (I := Coherent registry.snapshot keys)
    (fun _ _ _ hi hok hs => coherent_step hi hok hs) (fun s hi hact => ?_)
    (fun s l s' hi hno hs hP => ?_) (coherent_init url registry keys db) h
  · exact agrees_iff.mpr (hi.wanted (hi.ready.active_iff.mpr hact))
  · obtain ⟨hact, hdis⟩ := not_agrees_of_not_reflected hi hno hs
    exact hdis (hP hact)

/-! ## A replaced key -/

section Replaced

/-- A fresh control plane with empty tables. -/
def replacedInit : Supervisor :=
  Supervisor.init "rtmp://127.0.0.1/live/k".toList .empty
    (some (deriveKeys "passphrase".toList [1])) Database.empty

/-- The stream key of the only target is set to this. -/
def replacedKey (key : Text) (n : ℕ) : Label :=
  ⟨.setCredential 7 ⟨key, n, [2], [3]⟩, 3, false⟩

/-- Set up one Twitch target and start a run. -/
def replacedStart : List Label :=
  [⟨.createTarget 7 ⟨.twitch, "main".toList, "rtmp://live.twitch.tv/app".toList, true, ∅⟩, 3, false⟩,
    replacedKey "live_0123456789".toList 1, ⟨.startRun, 7, false⟩]

/-- A URL changed by a patch that does not mention `enabled` reaches the worker,
so does the removal of the key, and a run without the two requests agrees. -/
theorem workers_agree_patched :
    requests.Always (fun s => s.runState = .armed ∨ s.runState = .live → Agrees s) replacedInit
      (replacedStart ++
        [⟨.updateTarget 7 ⟨none, some "rtmp://fra.contribute.live-video.net/app".toList, none, none⟩,
          4, false⟩, ⟨.publishBegan, 0, false⟩, replacedKey "live_0123456789".toList 2,
          ⟨.clearCredential 7, 2, false⟩, ⟨.stopRun, 5, false⟩]) :=
  (workers_agree_iff _ _ _ _ _ (by decide)).mpr (by decide)

/-- After the key of a running target was replaced, its worker still pushes with
the old one. -/
theorem replaced_key_ignored :
    ∃ s, requests.run replacedInit (replacedStart ++ [replacedKey "live_9876543210".toList 2]) =
      some s ∧ s.runState = .armed ∧ ¬ Agrees s := by
  have hlast : (requests.run replacedInit
      (replacedStart ++ [replacedKey "live_9876543210".toList 2])).any (fun s =>
        s.runState = .armed ∧ (s.workers.get? ⟨7, .primary⟩).map WorkerSpec.outputUrl ≠
          plannedUrl s.keyMaterial s.db ⟨7, .primary⟩) = true := by decide +kernel
  obtain ⟨s, hs, hstale⟩ := (Option.any_eq_true _ _).mp hlast
  obtain ⟨harmed, hurl⟩ := of_decide_eq_true hstale
  exact ⟨s, hs, harmed, fun h => hurl (agrees_iff.mp h _).url_eq⟩

end Replaced

end Api

end RestreamPlus
