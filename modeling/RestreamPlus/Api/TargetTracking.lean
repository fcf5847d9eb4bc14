import RestreamPlus.Api.Targets
import RestreamPlus.Fanout.Tracking

/-!
# The shown targets follow the database

`Supervisor.targets()` feeds the `state.full` of every client and the status
page. `enable_target` reads the rows of its target again before it stores the new
aggregate; `disable_target` stops the workers and leaves the aggregate as it was,
and the handlers that change rows call nothing else. So a target that was deleted,
disabled, or robbed of its key during a run stays in the map with its old flags,
and after a `stop_run` every target is shown in the state it was last seen in.

`targets_track_database`: in every sequence of completed requests, with whatever
the workers report in between, the map follows the database as long as no request
changes what an entry shows without an `enable_target` in its wake, and no run is
stopped while an entry is shown at work.
-/

namespace RestreamPlus

open Interleaving WorkerIndex Supervisor

namespace Api

open Viewed

/-! ## Requests with reports in between -/

/-- What happens around an action: the reports before it, and its awaits. -/
structure Course : Type where
  before : List Report
  awaits : List Await

/-- A transaction of another session. -/
def commitTo (v : Viewed) (f : Database → Database) : Viewed :=
  { v with supervisor := { v.supervisor with db := f v.supervisor.db } }

/-- One action, from the reports before it to its end. -/
def performed (v : Viewed) (c : Course) : Action → Option Viewed
  | .commit f => some (commitTo (v.hearAll c.before) f)
  | .await op => (v.hearAll c.before).completed c.awaits op
  | .notify e => some ((v.hearAll c.before).react (.supervisor e))

/-- The actions of a handler, each with its course. -/
def performAll : List Action → List Course → Viewed → Option Viewed
  | [], [], v => some v
  | a :: actions, c :: courses, v => (performed v c a).bind (performAll actions courses)
  | [], _ :: _, _ => none
  | _ :: _, [], _ => none

/-- A request that completes, or a report between two requests. -/
inductive ViewLabel : Type where
  | report : Report → ViewLabel
  /-- the flag is the order in which a set of workers is listed -/
  | request : Request → List Course → Bool → ViewLabel

/-- Requests one after the other. -/
def views : Machine Viewed ViewLabel where
  step v
    | .report r => some (v.hear r)
    | .request r courses reversed =>
      (handle v.supervisor reversed r).bind fun actions => performAll actions courses v

/-- The map of the targets tracks the database. -/
def Tracks (v : Viewed) : Prop := ∀ t ∈ v.supervisor.targets.values, v.Tracked t

/-- The patch makes `update_target` call `enable_target`. -/
def reenables (body : Database.TargetPatch) (row : TargetRow) : Bool :=
  match body.enabled with
  | some enabled => enabled && !row.enabled
  | none => row.enabled

/-- The step changes nothing that the map shows, or an `enable_target` follows. -/
def Followed (v : Viewed) : ViewLabel → Prop
  | .request (.updateTarget id body) _ _ =>
    (v.supervisor.targets.get? id).isSome → ∀ row ∈ v.supervisor.db.getById id,
      (v.supervisor.runState.isActive = true ∧ reenables body row = true) ∨
        (targetDtoToDomain id (body.apply row) (v.supervisor.db.getForTarget id)).shown =
          (targetDtoToDomain id row (v.supervisor.db.getForTarget id)).shown
  | .request (.deleteTarget id) _ _ => v.supervisor.targets.get? id = none
  | .request (.setCredential id _) _ _ =>
    (v.supervisor.targets.get? id).isSome → ∀ row ∈ v.supervisor.db.getById id,
      (v.supervisor.runState.isActive = true ∧ row.enabled = true) ∨
        (v.supervisor.db.getForTarget id).isSome
  | .request (.clearCredential id) _ _ =>
    (v.supervisor.targets.get? id).isSome → v.supervisor.db.getForTarget id = none
  | .request .stopRun courses _ =>
    v.supervisor.runState.isActive = true → ∀ c ∈ courses, ∀ t ∈ v.supervisor.targets.values,
      (v.hearAll c.before).StopKeeps c.awaits t
  | _ => True

instance (v : Viewed) (l : ViewLabel) : Decidable (Followed v l) := by
  unfold Followed
  split <;> infer_instance

/-! ## One action -/

section Actions

variable {base : Finset Text} {keys : DerivedKeys} {p : TargetId → Prop} {v t : Viewed}

/-- The invariant: every target that `p` singles out is tracked. -/
structure Tracking (base : Finset Text) (keys : DerivedKeys) (p : TargetId → Prop) (v : Viewed) :
    Prop where
  rests : Rests base v.supervisor
  sound : v.Sound keys p

theorem Tracking.mono {q : TargetId → Prop} (h : Tracking base keys p v) (hle : ∀ id, q id → p id) :
    Tracking base keys q v :=
  ⟨h.rests, h.sound.keyMaterial, h.sound.superTg, h.sound.tracked.mono hle⟩

theorem Tracking.hearAll (h : Tracking base keys p v) (rs : List Report) :
    Tracking base keys p (v.hearAll rs) :=
  ⟨hearAll_induction (P := fun v => Rests base v.supervisor) (fun _ r h => rests_hear h r) h.rests
      rs,
    h.sound.hearAll rs⟩

theorem Tracking.of_absent {id : TargetId} (h : Tracking base keys (· ≠ id) v)
    (hid : v.supervisor.targets.get? id = none) : Tracking base keys (fun _ => True) v :=
  ⟨h.rests, h.sound.keyMaterial, h.sound.superTg, h.sound.tracked.of_absent hid⟩

theorem Tracking.tracks (h : Tracking base keys (fun _ => True) v) : Tracks v := by
  intro t ht
  obtain ⟨id, hid⟩ := Dict.mem_values.mp ht
  exact (h.sound.tracked id t hid trivial).2

/-- An entry stands for a row. -/
theorem Tracking.row_of_entry (h : Tracking base keys (fun _ => True) v) {id : TargetId}
    (hid : (v.supervisor.targets.get? id).isSome) :
    ∃ row, v.supervisor.db.getById id = some row := by
  obtain ⟨t, ht⟩ := Option.isSome_iff_exists.mp hid
  obtain ⟨rfl, ⟨row, hrow, -⟩, -⟩ := h.sound.tracked id t ht trivial
  exact ⟨row, hrow⟩

/-- A transaction on the rows of one target. -/
theorem Tracking.commit {id : TargetId} {f : Database → Database}
    (h : Tracking base keys (fun _ => True) v)
    (htouch : Touches id v.supervisor.db (f v.supervisor.db)) :
    Tracking base keys (· ≠ id) (commitTo v f) := by
  refine ⟨free_react v.supervisor (.commit (f v.supervisor.db)) h.rests, ?_⟩
  have hoff := h.mono (q := (· ≠ id)) fun _ _ => trivial
  refine hoff.sound.keep rfl rfl rfl (fun i t ht hi hg => ?_) fun _ hw => hw
  obtain ⟨rfl, -⟩ := hoff.sound.tracked i t ht hi
  exact (Database.gives_congr (htouch _ hi).1 (htouch _ hi).2).mpr hg

/-- … that leaves what the entry of the target shows. -/
theorem Tracking.commit_of_same {id : TargetId} {f : Database → Database}
    (h : Tracking base keys (fun _ => True) v)
    (htouch : Touches id v.supervisor.db (f v.supervisor.db))
    (hsame : ∀ t, t.id = id → v.supervisor.targets.get? id = some t → v.supervisor.db.Gives t →
      (f v.supervisor.db).Gives t) : Tracking base keys (fun _ => True) (commitTo v f) := by
  refine ⟨free_react v.supervisor (.commit (f v.supervisor.db)) h.rests, ?_⟩
  refine h.sound.keep rfl rfl rfl (fun i t ht _ hg => ?_) fun _ hw => hw
  obtain ⟨rfl, -⟩ := h.sound.tracked i t ht trivial
  by_cases hid : t.id = id
  · exact hsame t hid (hid ▸ ht) hg
  · exact (Database.gives_congr (htouch _ hid).1 (htouch _ hid).2).mpr hg

theorem Tracking.enable {id : TargetId} {awaits : List Await}
    (h : Tracking base keys (· ≠ id) v) (hrow : (v.supervisor.db.getById id).isSome)
    (hact : v.supervisor.runState.isActive = true)
    (hc : v.completed awaits (.enableTarget id) = some t) : Tracking base keys (fun _ => True) t :=
  ⟨rests_completed h.rests hc, h.sound.enable hrow hact hc⟩

/-- Where every entry is tracked already, an `enable_target` does no harm. -/
theorem Tracking.enable_again {id : TargetId} {awaits : List Await}
    (h : Tracking base keys (fun _ => True) v) (hrow : (v.supervisor.db.getById id).isSome)
    (hc : v.completed awaits (.enableTarget id) = some t) :
    Tracking base keys (fun _ => True) t := by
  cases hact : v.supervisor.runState.isActive with
  | true => exact (h.mono fun _ _ => trivial).enable hrow hact hc
  | false =>
    obtain rfl := completed_enable_of_inactive hact hc
    exact h

theorem Tracking.disable {id : TargetId} {reversed : Bool} {awaits : List Await}
    (h : Tracking base keys (· ≠ id) v)
    (hc : v.completed awaits (.disableTarget id reversed) = some t) :
    Tracking base keys (· ≠ id) t ∧ t.supervisor.db = v.supervisor.db ∧
      t.supervisor.targets = v.supervisor.targets ∧
      t.supervisor.runState.isActive = v.supervisor.runState.isActive := by
  obtain ⟨hsound, heqs⟩ := h.sound.disable h.rests hc
  exact ⟨⟨rests_completed h.rests hc, hsound⟩, heqs⟩

/-- Outside a run there is nothing to disable. -/
theorem Tracking.disable_inactive {id : TargetId} {reversed : Bool} {awaits : List Await}
    (h : Tracking base keys p v) (hact : v.supervisor.runState.isActive = false)
    (hc : v.completed awaits (.disableTarget id reversed) = some t) : t = v :=
  completed_disable_of_no_workers (no_workers_of_inactive h.rests hact) hc

theorem performAll_cons {a : Action} {actions : List Action} {courses : List Course}
    (h : performAll (a :: actions) courses v = some t) :
    ∃ c rest u, courses = c :: rest ∧ performed v c a = some u ∧
      performAll actions rest u = some t := by
  cases courses with
  | nil => cases h
  | cons c rest =>
    obtain ⟨u, hu, hrest⟩ := Option.bind_eq_some_iff.mp h
    exact ⟨c, rest, u, rfl, hu, hrest⟩

theorem performAll_nil {courses : List Course} (h : performAll [] courses v = some t) : t = v := by
  cases courses with
  | nil => exact (Option.some.inj h).symm
  | cons c rest => cases h

/-- What reports leave of the supervisor. -/
theorem hearAll_frame (v : Viewed) (rs : List Report) :
    (v.hearAll rs).supervisor.db = v.supervisor.db ∧
      (v.hearAll rs).supervisor.targets = v.supervisor.targets ∧
      (v.hearAll rs).supervisor.runState.isActive = v.supervisor.runState.isActive := by
  obtain ⟨st, heq, hact⟩ := supervisor_hearAll v rs
  rw [heq]
  exact ⟨rfl, rfl, hact⟩

/-! ## One request -/

theorem tracking_commit_absent {id : TargetId} {f : Database → Database}
    (h : Tracking base keys (fun _ => True) v)
    (htouch : Touches id v.supervisor.db (f v.supervisor.db))
    (habsent : v.supervisor.targets.get? id = none) :
    Tracking base keys (fun _ => True) (commitTo v f) := by
  refine h.commit_of_same htouch fun t _ ht _ => ?_
  rw [habsent] at ht
  cases ht

/-- The only or last action is an `enable_target` during a run. -/
theorem tracking_enable {id : TargetId} {courses : List Course} (h : Tracking base keys (· ≠ id) v)
    (hrow : (v.supervisor.db.getById id).isSome) (hact : v.supervisor.runState.isActive = true)
    (hrun : performAll [.await (.enableTarget id)] courses v = some t) :
    Tracking base keys (fun _ => True) t := by
  obtain ⟨c, rest, u, rfl, hu, hrest⟩ := performAll_cons hrun
  obtain rfl := performAll_nil hrest
  obtain ⟨hdb, -, hact'⟩ := hearAll_frame v c.before
  exact (h.hearAll c.before).enable (by rw [hdb]; exact hrow) (hact'.trans hact) hu

/-- … or comes when every entry is tracked already. -/
theorem tracking_enable_again {id : TargetId} {courses : List Course}
    (h : Tracking base keys (fun _ => True) v) (hrow : (v.supervisor.db.getById id).isSome)
    (hrun : performAll [.await (.enableTarget id)] courses v = some t) :
    Tracking base keys (fun _ => True) t := by
  obtain ⟨c, rest, u, rfl, hu, hrest⟩ := performAll_cons hrun
  obtain rfl := performAll_nil hrest
  obtain ⟨hdb, -, -⟩ := hearAll_frame v c.before
  exact (h.hearAll c.before).enable_again (by rw [hdb]; exact hrow) hu

/-- A commit, and an `enable_target` if the target is enabled. -/
theorem tracking_createTarget {id : TargetId} {body : TargetRow} {courses : List Course}
    (h : Tracking base keys (fun _ => True) v) (hfresh : v.supervisor.db.getById id = none)
    (hrun : performAll (createTarget id body) courses v = some t) :
    Tracking base keys (fun _ => True) t := by
  obtain ⟨c, rest, u, rfl, hu, hrest⟩ := performAll_cons hrun
  obtain rfl := Option.some.inj hu
  obtain ⟨-, htargets, -⟩ := hearAll_frame v c.before
  have habsent : (v.hearAll c.before).supervisor.targets.get? id = none := by
    rw [htargets]
    refine Option.not_isSome_iff_eq_none.mp fun hsome => ?_
    obtain ⟨row, hrow⟩ := h.row_of_entry hsome
    rw [hfresh] at hrow
    cases hrow
  have hcommit := tracking_commit_absent (f := (·.createTarget id body)) (h.hearAll c.before)
    (touches_createTarget _ id body) habsent
  split at hrest
  · refine tracking_enable_again hcommit ?_ hrest
    show (((v.hearAll c.before).supervisor.db.targets.insert id body).get? id).isSome
    rw [Dict.get?_insert_self]
    rfl
  · obtain rfl := performAll_nil hrest
    exact hcommit

/-- The row goes after the workers, and the entry is not there. -/
theorem tracking_deleteTarget {id : TargetId} {reversed : Bool} {courses : List Course}
    (h : Tracking base keys (fun _ => True) v) (habsent : v.supervisor.targets.get? id = none)
    (hrun : performAll (deleteTarget id reversed) courses v = some t) :
    Tracking base keys (fun _ => True) t := by
  obtain ⟨c, rest, u, rfl, hu, hrest⟩ := performAll_cons hrun
  obtain ⟨c', rest', u', rfl, hu', hrest'⟩ := performAll_cons hrest
  obtain rfl := performAll_nil hrest'
  obtain rfl := Option.some.inj hu'
  obtain ⟨-, htargets, -⟩ := hearAll_frame v c.before
  obtain ⟨hstopped, -, htargets', -⟩ :=
    ((h.hearAll c.before).mono fun _ _ => trivial).disable hu
  have habsent' : u.supervisor.targets.get? id = none := by
    rw [htargets', htargets]
    exact habsent
  obtain ⟨-, htargets'', -⟩ := hearAll_frame u c'.before
  exact tracking_commit_absent (f := (·.deleteTarget id))
    ((hstopped.of_absent habsent').hearAll c'.before) (touches_deleteTarget _ id)
    (by rw [htargets'']; exact habsent')

theorem getById_patched {db : Database} {id : TargetId} {row : TargetRow}
    (p : Database.TargetPatch) (hrow : db.getById id = some row) :
    (db.updateTarget id p).getById id = some (p.apply row) := by
  rw [Database.updateTarget, show db.targets.get? id = some row from hrow]
  exact Dict.get?_insert_self _ _ _

theorem getForTarget_patched (db : Database) (id : TargetId) (p : Database.TargetPatch) :
    (db.updateTarget id p).getForTarget id = db.getForTarget id := by
  rw [Database.updateTarget]
  split <;> rfl

/-- The calls of `update_target` when the commit left every entry tracked: only one that
restarts workers in a run may be missed. -/
theorem tracking_after_update {id : TargetId} {body : Database.TargetPatch} {row : TargetRow}
    {reversed : Bool} {courses : List Course} (h : Tracking base keys (fun _ => True) v)
    (hrow : (v.supervisor.db.getById id).isSome)
    (hidle : ¬ (v.supervisor.runState.isActive = true ∧ reenables body row = true))
    (hdisables : body.enabled = some false → row.enabled = true →
      v.supervisor.targets.get? id = none)
    (hrun : performAll (updateTarget id body row reversed).tail courses v = some t) :
    Tracking base keys (fun _ => True) t := by
  rw [updateTarget, List.tail_cons] at hrun
  rw [reenables] at hidle
  split at hrun
  · rename_i enabled hbody
    split at hrun
    · exact tracking_enable_again h hrow hrun
    · split at hrun
      · rename_i hdisable
        obtain ⟨hfalse, henabled⟩ := Bool.and_eq_true_iff.mp hdisable
        have habsent := hdisables (by rw [hbody]; simpa using hfalse) henabled
        obtain ⟨c, rest, u, rfl, hu, hrest⟩ := performAll_cons hrun
        obtain rfl := performAll_nil hrest
        obtain ⟨-, htargets, -⟩ := hearAll_frame v c.before
        obtain ⟨hstopped, -, htargets', -⟩ :=
          ((h.hearAll c.before).mono fun _ _ => trivial).disable hu
        exact hstopped.of_absent (by rw [htargets', htargets]; exact habsent)
      · obtain rfl := performAll_nil hrun
        exact h
  · rename_i hbody
    split at hrun
    · rename_i henabled
      have hinactive : v.supervisor.runState.isActive = false := by
        simpa [hbody, henabled] using hidle
      obtain ⟨c, rest, u, rfl, hu, hrest⟩ := performAll_cons hrun
      obtain ⟨hdb, -, hact⟩ := hearAll_frame v c.before
      obtain rfl := (h.hearAll c.before).disable_inactive (hact.trans hinactive) hu
      exact tracking_enable_again (h.hearAll c.before) (by rw [hdb]; exact hrow) hrest
    · obtain rfl := performAll_nil hrun
      exact h

/-- The calls of `update_target` when it restarts the workers in a run. -/
theorem tracking_after_cycle {id : TargetId} {body : Database.TargetPatch} {row : TargetRow}
    {reversed : Bool} {courses : List Course} (h : Tracking base keys (· ≠ id) v)
    (hrow : (v.supervisor.db.getById id).isSome) (hact : v.supervisor.runState.isActive = true)
    (hcycle : reenables body row = true)
    (hrun : performAll (updateTarget id body row reversed).tail courses v = some t) :
    Tracking base keys (fun _ => True) t := by
  rw [updateTarget, List.tail_cons] at hrun
  rw [reenables] at hcycle
  split at hrun
  · rename_i enabled hbody
    rw [hbody] at hcycle
    rw [if_pos hcycle] at hrun
    exact tracking_enable h hrow hact hrun
  · rename_i hbody
    rw [hbody] at hcycle
    rw [if_pos hcycle] at hrun
    obtain ⟨c, rest, u, rfl, hu, hrest⟩ := performAll_cons hrun
    obtain ⟨hdb, -, hact'⟩ := hearAll_frame v c.before
    obtain ⟨hstopped, hdb', -, hact''⟩ := (h.hearAll c.before).disable hu
    exact tracking_enable hstopped (by rw [hdb', hdb]; exact hrow)
      (hact''.trans (hact'.trans hact)) hrest

/-- A patch that an `enable_target` in a run follows, or that the entry does not show. -/
theorem tracking_updateTarget {id : TargetId} {body : Database.TargetPatch} {row : TargetRow}
    {reversed : Bool} {courses : List Course} (h : Tracking base keys (fun _ => True) v)
    (hrow : v.supervisor.db.getById id = some row)
    (hfollowed : (v.supervisor.targets.get? id).isSome →
      (v.supervisor.runState.isActive = true ∧ reenables body row = true) ∨
        (targetDtoToDomain id (body.apply row) (v.supervisor.db.getForTarget id)).shown =
          (targetDtoToDomain id row (v.supervisor.db.getForTarget id)).shown)
    (hrun : performAll (updateTarget id body row reversed) courses v = some t) :
    Tracking base keys (fun _ => True) t := by
  obtain ⟨c, rest, u, rfl, hu, hrest⟩ := performAll_cons hrun
  obtain rfl := Option.some.inj hu
  obtain ⟨hdb, htargets, hact⟩ := hearAll_frame v c.before
  have htouch := touches_updateTarget (v.hearAll c.before).supervisor.db id body
  have hrow' : (v.hearAll c.before).supervisor.db.getById id = some row := by
    rw [hdb]
    exact hrow
  have hpatched := getById_patched body hrow'
  have hsome : ((commitTo (v.hearAll c.before) (·.updateTarget id body)).supervisor.db.getById
      id).isSome := Option.isSome_iff_exists.mpr ⟨_, hpatched⟩
  by_cases hcycle : v.supervisor.runState.isActive = true ∧ reenables body row = true
  · exact tracking_after_cycle ((h.hearAll c.before).commit (f := (·.updateTarget id body)) htouch)
      hsome (hact.trans hcycle.1) hcycle.2 hrest
  · have hsame : (v.supervisor.targets.get? id).isSome →
        (targetDtoToDomain id (body.apply row) (v.supervisor.db.getForTarget id)).shown =
          (targetDtoToDomain id row (v.supervisor.db.getForTarget id)).shown :=
      fun hin => (hfollowed hin).resolve_left hcycle
    refine tracking_after_update ((h.hearAll c.before).commit_of_same
      (f := (·.updateTarget id body)) htouch fun t hid ht hg => ?_) hsome ?_
      (fun hbody henabled => ?_) hrest
    · -- the entry shows the same of the new row
      subst hid
      rw [htargets] at ht
      obtain ⟨row', hrow'', hshown⟩ := hg
      obtain rfl := Option.some.inj (hrow''.symm.trans hrow')
      refine ⟨body.apply row', hpatched, ?_⟩
      rw [getForTarget_patched, hdb, hsame (by rw [ht]; rfl), hshown, hdb]
    · rw [← hact] at hcycle
      exact hcycle
    · show (v.hearAll c.before).supervisor.targets.get? id = none
      rw [htargets]
      refine Option.not_isSome_iff_eq_none.mp fun hin => ?_
      have henabled' := congrArg Prod.fst (hsame hin)
      simp [Target.shown, targetDtoToDomain, Database.TargetPatch.apply, hbody, henabled]
        at henabled'

/-- A key for a target that has one, or that an `enable_target` in a run follows. -/
theorem tracking_setCredential {id : TargetId} {body : CredentialSetRequest} {row : TargetRow}
    {courses : List Course} (h : Tracking base keys (fun _ => True) v)
    (hrow : v.supervisor.db.getById id = some row)
    (hfollowed : (v.supervisor.targets.get? id).isSome →
      (v.supervisor.runState.isActive = true ∧ row.enabled = true) ∨
        (v.supervisor.db.getForTarget id).isSome)
    (hrun : performAll (setCredential id body keys row) courses v = some t) :
    Tracking base keys (fun _ => True) t := by
  let f : Database → Database :=
    (·.upsertCredential id (credentialRow keys.streamKeyKek row.type body))
  obtain ⟨c, rest, u, rfl, hu, hrest⟩ := performAll_cons hrun
  obtain rfl := Option.some.inj hu
  obtain ⟨hdb, htargets, hact⟩ := hearAll_frame v c.before
  have htouch : Touches id (v.hearAll c.before).supervisor.db
      (f (v.hearAll c.before).supervisor.db) := touches_upsertCredential _ id _
  have hsome : ((commitTo (v.hearAll c.before) f).supervisor.db.getById id).isSome := by
    show ((v.hearAll c.before).supervisor.db.getById id).isSome
    rw [hdb, hrow]
    rfl
  by_cases hcycle : v.supervisor.runState.isActive = true ∧ row.enabled = true
  · rw [if_pos hcycle.2] at hrest
    exact tracking_enable ((h.hearAll c.before).commit htouch) hsome (hact.trans hcycle.1) hrest
  · have hcommit : Tracking base keys (fun _ => True) (commitTo (v.hearAll c.before) f) := by
      refine (h.hearAll c.before).commit_of_same htouch fun t hid ht hg => ?_
      subst hid
      rw [htargets] at ht
      have hstored := (hfollowed (by rw [ht]; rfl)).resolve_left hcycle
      obtain ⟨row', hrow', hshown⟩ := hg
      refine ⟨row', hrow', hshown.trans ?_⟩
      -- a credential before, a credential after
      rw [hdb, Target.shown, Target.shown]
      show _ = (_, _, _, _, ((Dict.insert _ t.id _).get? t.id).isSome)
      rw [Dict.get?_insert_self]
      simp [targetDtoToDomain, hstored]
    split at hrest
    · exact tracking_enable_again hcommit hsome hrest
    · obtain rfl := performAll_nil hrest
      exact hcommit

/-- A key that goes, of a target without an entry. -/
theorem tracking_clearCredential {id : TargetId} {reversed : Bool} {courses : List Course}
    (h : Tracking base keys (fun _ => True) v)
    (hfollowed : (v.supervisor.targets.get? id).isSome → v.supervisor.db.getForTarget id = none)
    (hrun : performAll (clearCredential id (v.supervisor.db.getForTarget id) reversed) courses v =
      some t) : Tracking base keys (fun _ => True) t := by
  rcases hcredential : v.supervisor.db.getForTarget id with _ | credential <;>
    rw [hcredential] at hrun
  · obtain rfl := performAll_nil hrun
    exact h
  · have habsent : v.supervisor.targets.get? id = none := by
      refine Option.not_isSome_iff_eq_none.mp fun hin => ?_
      rw [hfollowed hin] at hcredential
      cases hcredential
    obtain ⟨c, rest, u, rfl, hu, hrest⟩ := performAll_cons hrun
    obtain rfl := Option.some.inj hu
    obtain ⟨c', rest', u', rfl, hu', hrest'⟩ := performAll_cons hrest
    obtain rfl := performAll_nil hrest'
    obtain ⟨-, htargets, -⟩ := hearAll_frame v c.before
    have hcommit := (h.hearAll c.before).commit (f := (·.deleteForTarget id))
      (touches_deleteForTarget _ id)
    obtain ⟨hstopped, -, htargets', -⟩ := (hcommit.hearAll c'.before).disable hu'
    obtain ⟨-, htargets'', -⟩ :=
      hearAll_frame (commitTo (v.hearAll c.before) (·.deleteForTarget id)) c'.before
    refine hstopped.of_absent ?_
    rw [htargets', htargets'']
    show (v.hearAll c.before).supervisor.targets.get? id = none
    rw [htargets]
    exact habsent

/-- **One step**: a case for each request. -/
theorem tracking_step {l : ViewLabel} (h : Tracking base keys (fun _ => True) v)
    (hf : Followed v l) (hs : views.step v l = some t) : Tracking base keys (fun _ => True) t := by
  cases l with
  | report r =>
    obtain rfl := Option.some.inj hs
    exact h.hearAll [r]
  | request r courses reversed =>
    obtain ⟨actions, hactions, hrun⟩ := Option.bind_eq_some_iff.mp hs
    cases r with
    | createTarget id body =>
      simp only [handle] at hactions
      split at hactions
      · cases hactions
      · rename_i hfresh
        obtain rfl := Option.some.inj hactions
        exact tracking_createTarget h (Option.not_isSome_iff_eq_none.mp hfresh) hrun
    | updateTarget id body =>
      simp only [handle] at hactions
      split at hactions
      · obtain rfl := Option.some.inj hactions
        obtain rfl := performAll_nil hrun
        exact h
      · rename_i row hrow
        obtain rfl := Option.some.inj hactions
        exact tracking_updateTarget h hrow (fun hin => hf hin row hrow) hrun
    | deleteTarget id =>
      simp only [handle] at hactions
      split at hactions
      · obtain rfl := Option.some.inj hactions
        obtain rfl := performAll_nil hrun
        exact h
      · obtain rfl := Option.some.inj hactions
        exact tracking_deleteTarget h hf hrun
    | setCredential id body =>
      simp only [handle, h.sound.keyMaterial] at hactions
      split at hactions
      · rename_i keys' row hkeys hrow
        obtain rfl := Option.some.inj hkeys
        obtain rfl := Option.some.inj hactions
        exact tracking_setCredential h hrow (fun hin => hf hin row hrow) hrun
      · obtain rfl := Option.some.inj hactions
        obtain rfl := performAll_nil hrun
        exact h
    | clearCredential id =>
      simp only [handle] at hactions
      split at hactions
      · obtain rfl := Option.some.inj hactions
        obtain rfl := performAll_nil hrun
        exact h
      · obtain rfl := Option.some.inj hactions
        exact tracking_clearCredential h hf hrun
    | startRun =>
      obtain rfl := Option.some.inj hactions
      obtain ⟨c, rest, u, rfl, hu, hrest⟩ := performAll_cons hrun
      obtain rfl := performAll_nil hrest
      have hheard := h.hearAll c.before
      exact ⟨rests_completed hheard.rests hu, hheard.sound.start hu⟩
    | stopRun =>
      obtain rfl := Option.some.inj hactions
      obtain ⟨c, rest, u, rfl, hu, hrest⟩ := performAll_cons hrun
      obtain rfl := performAll_nil hrest
      have hheard := h.hearAll c.before
      obtain ⟨-, htargets, hact⟩ := hearAll_frame v c.before
      refine ⟨rests_completed hheard.rests hu,
        hheard.sound.stop (fun hact' t ht => ?_) hheard.rests hu⟩
      rw [htargets] at ht
      exact hf (hact ▸ hact') c List.mem_cons_self t ht
    | publishBegan =>
      obtain rfl := Option.some.inj hactions
      obtain ⟨c, rest, u, rfl, hu, hrest⟩ := performAll_cons hrun
      obtain rfl := performAll_nil hrest
      obtain rfl := Option.some.inj hu
      exact (h.hearAll c.before).hearAll [.publishBegan]
    | publishEnded =>
      obtain rfl := Option.some.inj hactions
      obtain ⟨c, rest, u, rfl, hu, hrest⟩ := performAll_cons hrun
      obtain rfl := performAll_nil hrest
      obtain rfl := Option.some.inj hu
      exact (h.hearAll c.before).hearAll [.publishEnded]

end Actions

/-- Before the first request the map is empty. -/
theorem tracking_init (url : Text) (registry : CredentialRegistry) (keys : DerivedKeys)
    (db : Database) : Tracking registry.snapshot keys (fun _ => True)
      (Viewed.init (Supervisor.init url registry (some keys) db)) where
  rests := free_init (fun _ => True) Empty (fun _ _ => trivial) (fun _ he => he) url registry _ db
  sound := ⟨rfl, rfl, fun _ _ ht => absurd ht (Option.not_mem_none _)⟩

/-- **The map tracks the database** in every run of completed requests none of which changes what
an entry shows behind its back. -/
theorem targets_track_database (url : Text) (registry : CredentialRegistry) (keys : DerivedKeys)
    (db : Database) (labels : List ViewLabel)
    (h : views.Meets Followed (Viewed.init (Supervisor.init url registry (some keys) db)) labels) :
    views.Always Tracks (Viewed.init (Supervisor.init url registry (some keys) db)) labels :=
  Machine.always_of_inv (I := Tracking registry.snapshot keys fun _ => True)
    (fun _ _ _ hi hf hs => tracking_step hi hf hs) (fun _ hi => hi.tracks)
    (tracking_init url registry keys db) h

/-! ## A target deleted during a run -/

section Deleted

/-- A fresh control plane with empty tables. -/
def deletedInit : Viewed :=
  Viewed.init (Supervisor.init "rtmp://127.0.0.1/live/k".toList
    .empty (some (deriveKeys "passphrase".toList [1]))
    Database.empty)

/-- An action whose `n` awaited calls return with nothing reported. -/
def quietly (n : ℕ) : Course := ⟨[], List.replicate n ([], .ok)⟩

/-- What the worker of the only target says. -/
def saysState (state : WorkerState) : Report :=
  .workerEvent ⟨7, .primary⟩ ⟨.primary, state, 0, none, 0, none⟩

/-- Set up one Twitch target, start a run, and let the worker deliver. -/
def deletedStart : List ViewLabel :=
  [.request (.createTarget 7 ⟨.twitch, "main".toList, "rtmp://live.twitch.tv/app".toList, true, ∅⟩)
      [quietly 0, quietly 0] false,
    .request (.setCredential 7 ⟨"live_0123456789".toList, 1, [2], [3]⟩) [quietly 0, quietly 0]
      false,
    .request .startRun [quietly 6] false, .report (saysState .running)]

/-- A patch of the URL restarts the worker, and the run is stopped once it is down. -/
theorem targets_track_patched :
    views.Always Tracks deletedInit (deletedStart ++
      [.request (.updateTarget 7
          ⟨none, some "rtmp://fra.contribute.live-video.net/app".toList, none, none⟩)
          [quietly 0, quietly 1, quietly 3] false,
        .report (saysState .running),
        .request .stopRun [⟨[], [([saysState .idle], .ok), ([], .ok), ([], .ok)]⟩] false]) :=
  targets_track_database _ _ _ _ _ (by decide +kernel)

/-- A target deleted during a run, whose worker is down after its stop, is still shown. -/
theorem deleted_target_shown :
    ∃ v, views.run deletedInit (deletedStart ++
      [.request (.deleteTarget 7) [⟨[], [([saysState .idle], .ok)]⟩, quietly 0] false]) = some v ∧
        ¬ Tracks v := by
  have hlast : (views.run deletedInit (deletedStart ++
      [.request (.deleteTarget 7) [⟨[], [([saysState .idle], .ok)]⟩, quietly 0] false])).any
        (fun v => v.supervisor.targets.values.any fun t =>
          v.supervisor.db.getById t.id = none) = true := by
    decide +kernel
  obtain ⟨v, hv, hshown⟩ := (Option.any_eq_true _ _).mp hlast
  obtain ⟨t, ht, hgone⟩ := List.any_eq_true.mp hshown
  refine ⟨v, hv, fun htracks => ?_⟩
  obtain ⟨row, hrow, -⟩ := (htracks t ht).gives
  rw [of_decide_eq_true hgone] at hrow
  cases hrow

end Deleted

end Api

end RestreamPlus
