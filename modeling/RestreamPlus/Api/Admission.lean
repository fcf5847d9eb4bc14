import RestreamPlus.Api.Targets

/-!
# What the API admits and what the supervisor can spawn

Three places decide what a valid target is. The request schemas bound the
lengths of a label, a URL and a stream key (`app/api/schemas.py`);
`compose_out_url` wants an `rtmp://` or `rtmps://` URL; the redaction registry
wants a key of at least twelve characters. The last two are asked by `start_run`
only, in its spawn loop, and an exception there takes the whole start back.

`arms_iff` compares them: a start over admitted targets reaches ARMED if and
only if every target with a missing worker passes the other two.
-/

namespace RestreamPlus

open Interleaving WorkerIndex

namespace Supervisor

/-- `compose_out_url` takes the URL and the registry takes the key. -/
def Spawnable (url key : Text) : Prop :=
  minRedactableSecretLength ≤ key.length ∧
    ("rtmp://".toList <+: url ∨ "rtmps://".toList <+: url)

instance (url key : Text) : Decidable (Spawnable url key) := by
  unfold Spawnable
  infer_instance

/-- A target has a backup worker only where `compose_out_url` allows one. -/
theorem youtube_of_backup {dom : Target} (h : WorkerRole.backup ∈ rolesFor dom) :
    dom.type = .youtube := by
  rw [rolesFor] at h
  split at h
  · rename_i hyoutube
    exact hyoutube.1
  · simp at h

theorem composeOutUrl_isSome {dom : Target} {url key : Text} {role : WorkerRole}
    (hrole : role ∈ rolesFor dom) :
    (composeOutUrl dom.type url key role).toOption.isSome ↔
      "rtmp://".toList <+: url ∨ "rtmps://".toList <+: url := by
  have hbackup : ¬ (role = .backup ∧ dom.type ≠ .youtube) := by
    rintro ⟨rfl, hne⟩
    exact hne (youtube_of_backup hrole)
  rw [composeOutUrl]
  by_cases hscheme : "rtmp://".toList <+: url ∨ "rtmps://".toList <+: url
  · have hne : url ≠ [] := by
      rintro rfl
      simp at hscheme
    rw [if_neg hne, if_neg (not_not_intro hscheme), if_neg hbackup]
    refine iff_of_true ?_ hscheme
    repeat' split
    all_goals rfl
  · refine iff_of_false ?_ hscheme
    rw [if_pos hscheme]
    split <;> exact Bool.false_ne_true

/-- Whether a role of a target can be spawned does not depend on the role. -/
theorem canSpawn_iff {dom : Target} {url key : Text} {role : WorkerRole}
    (hrole : role ∈ rolesFor dom) : CanSpawn dom url key role ↔ Spawnable url key := by
  rw [CanSpawn, Spawnable, composeOutUrl_isSome hrole]

theorem addWorker_eq_none {x : WorkerIndex} {inputUrl : Text} {dom : Target} {url key : Text}
    {role : WorkerRole} (h : ¬ CanSpawn dom url key role) :
    x.addWorker inputUrl dom url key role = none := by
  rcases hx : x.addWorker inputUrl dom url key role with _ | x'
  · rfl
  · obtain ⟨outputUrl, registry, hurl, hreg, -⟩ := addWorker_eq_some hx
    refine absurd ⟨?_, by rw [hurl]; rfl⟩ h
    rw [CredentialRegistry.register] at hreg
    split at hreg
    · assumption
    · cases hreg

/-! ## The start that fails -/

/-- The first missing worker raises before anything is stored. -/
theorem spawnRoles_raised {s : Supervisor} {r : Runnable} {key : Text} {roles : List WorkerRole}
    (hno : ∀ role ∈ roles, ¬ CanSpawn r.dom r.row.url key role)
    (hmissing : ∃ role ∈ roles, s.workers.get? ⟨r.dom.id, role⟩ = none) :
    s.spawnRoles r key roles = (s, .raised) := by
  induction roles with
  | nil =>
    obtain ⟨role, hrole, -⟩ := hmissing
    cases hrole
  | cons role roles ih =>
    rw [spawnRoles]
    split
    · rename_i hsome
      refine ih (fun role' h => hno role' (List.mem_cons_of_mem role h)) ?_
      obtain ⟨role', hrole', hfree⟩ := hmissing
      rcases List.mem_cons.mp hrole' with rfl | hrole'
      · rw [hfree] at hsome
        cases hsome
      · exact ⟨role', hrole', hfree⟩
    · rw [addWorker_eq_none (hno role List.mem_cons_self)]

/-- A target that is to be spawned and cannot be. -/
def Blocks (x : WorkerIndex) (r : Runnable) (key : Text) : Prop :=
  r.dom.enabled = true ∧ r.plaintext = some key ∧ ¬ Spawnable r.row.url key ∧
    ∃ role ∈ rolesFor r.dom, x.workers.get? ⟨r.dom.id, role⟩ = none

theorem blocks_of_not_spawnSucceeds {x : WorkerIndex} {r : Runnable}
    (hread : r.plaintext = none → r.dom.hasActiveCredential = false)
    (h : ¬ SpawnSucceeds x r) : ∃ key, Blocks x r key := by
  rw [SpawnSucceeds, Classical.not_imp] at h
  obtain ⟨henabled, h⟩ := h
  rcases hkey : r.plaintext with _ | key <;> rw [hkey] at h
  · exact absurd (hread hkey) h
  · simp only [Classical.not_forall] at h
    obtain ⟨role, hrole, hfree, hno⟩ := h
    exact ⟨key, henabled, hkey, fun hs => hno ((canSpawn_iff hrole).mpr hs), role, hrole, hfree⟩

/-- The targets before the first blocking one are spawned, then everything is taken back. -/
theorem completes_spawnPairs_blocked {s : Supervisor} {good : List Runnable} {bad : Runnable}
    {key : Text} (rest : List Runnable) (htg : s.superTg = true)
    (hgood : ∀ r ∈ good, SpawnSucceeds s.toWorkerIndex r)
    (hid : ∀ r ∈ good, bad.dom.id ≠ r.dom.id) (hbad : Blocks s.toWorkerIndex bad key) :
    ∃ x, ∀ t, Completes (s.spawnPairs (good ++ bad :: rest)) t ↔
      Completes { s with toWorkerIndex := x }.rollBack t := by
  obtain ⟨x, -, hadds, hcomp⟩ := completes_spawnPairs_append good (bad :: rest) htg hgood
  obtain ⟨henabled, hkey, hno, role, hrole, hfree⟩ := hbad
  have hraised : Supervisor.spawnRoles { s with toWorkerIndex := x } bad key (rolesFor bad.dom) =
      ({ s with toWorkerIndex := x }, .raised) := by
    refine spawnRoles_raised (fun role' h hcan => hno ((canSpawn_iff h).mp hcan))
      ⟨role, hrole, ?_⟩
    -- the workers added so far belong to other targets
    have hplan : planned good ⟨bad.dom.id, role⟩ = none :=
      List.findSome?_eq_none_iff.mpr fun r hr => plannedOf_of_ne (hid r hr)
    have hnew := hadds.new _ hfree
    rw [hplan] at hnew
    exact Option.map_eq_none_iff.mp hnew
  refine ⟨x, fun t => (hcomp t).trans ?_⟩
  rw [spawnPairs_cons henabled hkey, hraised]
  rfl

/-! ## Starting -/

/-- A start by itself, with everything it awaits returning, reaches ARMED and every wanted
worker runs. -/
def Arms (s : Supervisor) : Prop :=
  ∃ t, Completes s.startRun t ∧ t.runState = .armed ∧
    ∀ w, expected s.db w = true → (t.workers.get? w).isSome

/-- The start ends in ERROR and nothing runs. -/
def Fails (s : Supervisor) : Prop :=
  ∃ t, Completes s.startRun t ∧ t.runState = .error ∧ ∀ w, t.workers.get? w = none

theorem not_arms_of_fails {s : Supervisor} (h : Fails s) : ¬ Arms s := by
  rintro ⟨t, ht, harmed, -⟩
  obtain ⟨t', ht', herror, -⟩ := h
  rw [ht.unique ht', herror] at harmed
  cases harmed

section Start

variable {s : Supervisor} {keys : DerivedKeys}

/-- The stored keys decrypt. -/
def Readable (keys : DerivedKeys) (db : Database) : Prop :=
  ∀ id credential, db.getForTarget id = some credential →
    credential.SealedUnder keys.streamKeyKek

theorem Readable.of_credentials {db db' : Database} (h : Readable keys db)
    (hcred : db'.credentials = db.credentials) : Readable keys db' := by
  intro id credential hc
  rw [Database.getForTarget, hcred] at hc
  exact h id credential hc

theorem Readable.erase {db db' : Database} (h : Readable keys db) (id : TargetId)
    (hcred : db'.credentials = db.credentials.erase id) : Readable keys db' := by
  intro id' credential hc
  rw [Database.getForTarget, hcred] at hc
  exact h id' credential (Dict.get?_of_get?_erase hc).2

theorem Readable.plaintext {db : Database} (h : Readable keys db) (e : TargetId × TargetRow)
    (hplain : (readTarget db keys.streamKeyKek e).plaintext = none) :
    (readTarget db keys.streamKeyKek e).dom.hasActiveCredential = false := by
  rcases hcred : db.getForTarget e.1 with _ | credential
  · simp [readTarget, targetDtoToDomain, hcred]
  · obtain ⟨key, hkey⟩ := Option.isSome_iff_exists.mp (h e.1 credential hcred)
    simp [readTarget, hcred, hkey] at hplain

theorem arms_of_spawnSucceeds (hoff : s.runState = .offline) (htg : s.superTg = true)
    (hkeys : s.keyMaterial = some keys) (hread : Readable keys s.db)
    (hsucc : ∀ e ∈ s.db.listEnabled,
      SpawnSucceeds s.toWorkerIndex (readTarget s.db keys.streamKeyKek e)) : Arms s := by
  obtain ⟨x, -, hadds, hcomp⟩ := completes_spawnPairs (s := s.atSpawning keys.streamKeyKek)
    (s.db.listEnabled.map (readTarget s.db keys.streamKeyKek)) htg (by
      intro r hr
      obtain ⟨e, he, rfl⟩ := List.mem_map.mp hr
      exact hsucc e he)
  refine ⟨_, (completes_startRun_spawning hoff hkeys fun e _ => hread.plaintext e).mpr
    ((hcomp _).mpr (completes_section.mpr (Monitor.completes_return.mpr rfl))), rfl, ?_⟩
  intro w hex
  rcases hfree : s.workers.get? w with _ | spec
  · have hurl := planned_of_expected hkeys hex hfree fun row hrow => by
      by_cases henabled : row.enabled = true
      · exact hsucc (w.targetId, row) (List.mem_filter.mpr ⟨Dict.mem_entries.mpr hrow, henabled⟩)
      · exact fun h => absurd h henabled
    have hnew := hadds.new w hfree
    rw [planned_listEnabled] at hnew
    rw [plannedUrl, hkeys, Option.bind_some, ← hnew, Option.isSome_map] at hurl
    exact hurl
  · rw [show _ = some spec from hadds.old w spec hfree]
    rfl

theorem fails_of_blocked (hoff : s.runState = .offline) (htg : s.superTg = true)
    (hkeys : s.keyMaterial = some keys) (hread : Readable keys s.db)
    (hbad : ∃ e ∈ s.db.listEnabled,
      ¬ SpawnSucceeds s.toWorkerIndex (readTarget s.db keys.streamKeyKek e)) : Fails s := by
  let pairs := s.db.listEnabled.map (readTarget s.db keys.streamKeyKek)
  have hnd : (pairs.map fun (r : Runnable) => r.dom.id).Nodup := by
    rw [List.map_map]
    exact (List.filter_sublist.map Prod.fst).nodup s.db.targets.nodup
  have hfound : (pairs.find? fun r => ¬ SpawnSucceeds s.toWorkerIndex r).isSome := by
    obtain ⟨e, he, hno⟩ := hbad
    exact List.find?_isSome.mpr ⟨_, List.mem_map_of_mem he, by simpa using hno⟩
  -- the targets up to the first one that blocks
  obtain ⟨bad, hfind⟩ := Option.isSome_iff_exists.mp hfound
  obtain ⟨hno, good, rest, hsplit, hgood⟩ := List.find?_eq_some_iff_append.mp hfind
  have hgood : ∀ r ∈ good, SpawnSucceeds s.toWorkerIndex r := fun r hr => by
    simpa using hgood r hr
  have hmem : bad ∈ pairs := by
    rw [hsplit]
    exact List.mem_append_right good List.mem_cons_self
  obtain ⟨e, -, rfl⟩ := List.mem_map.mp hmem
  obtain ⟨key, hblocks⟩ := blocks_of_not_spawnSucceeds (hread.plaintext e) (by simpa using hno)
  have hid : ∀ r ∈ good, (readTarget s.db keys.streamKeyKek e).dom.id ≠ r.dom.id := by
    intro r hr heq
    rw [hsplit, List.map_append, List.nodup_append] at hnd
    exact hnd.2.2 _ (List.mem_map_of_mem hr) _ List.mem_cons_self heq.symm
  obtain ⟨x, hcomp⟩ := completes_spawnPairs_blocked (s := s.atSpawning keys.streamKeyKek) rest
    htg hgood hid hblocks
  obtain ⟨x', db, hnone, hroll⟩ := completes_rollBack
    (s := { s.atSpawning keys.streamKeyKek with toWorkerIndex := x }) rfl
  have hpairs := (hcomp _).mpr ((hroll _).mpr rfl)
  rw [← hsplit] at hpairs
  exact ⟨_, (completes_startRun_spawning hoff hkeys fun e _ => hread.plaintext e).mpr hpairs, rfl,
    hnone⟩

end Start

end Supervisor

namespace Api

open Supervisor

/-! ## What is admitted -/

/-- `Field(min_length=…, max_length=…)`. -/
def Within (lo hi : ℕ) (s : Text) : Prop := lo ≤ s.length ∧ s.length ≤ hi

instance (lo hi : ℕ) (s : Text) : Decidable (Within lo hi s) := by
  unfold Within
  infer_instance

/-- The bodies that `TargetCreateRequest`, `TargetUpdateRequest` and
`CredentialSetRequest` validate. -/
def Accepted : Request → Prop
  | .createTarget _ body => Within 1 128 body.label ∧ Within 1 2048 body.url
  | .updateTarget _ body =>
    (∀ label ∈ body.label, Within 1 128 label) ∧ ∀ url ∈ body.url, Within 1 2048 url
  | .setCredential _ body => Within 1 4096 body.streamKey
  | _ => True

instance (r : Request) : Decidable (Accepted r) := by
  unfold Accepted
  split <;> infer_instance

/-- What the actions of a handler write. -/
def commits (db : Database) : List Action → Database
  | [] => db
  | .commit f :: as => commits (f db) as
  | _ :: as => commits db as

/-- The transactions of accepted requests. Of the supervisor a handler reads the tables and the
keys only. -/
def admission (keys : DerivedKeys) : Machine Database Request where
  step db r :=
    if Accepted r then
      (handle (Supervisor.init [] .empty (some keys) db)
        false r).map (commits db)
    else none

/-- Awaited operations and notifications write nothing here. -/
theorem commits_awaits {db : Database} {as : List Action} (h : ∀ f, Action.commit f ∉ as) :
    commits db as = db := by
  induction as with
  | nil => rfl
  | cons a as ih =>
    have hrest := ih fun f hf => h f (List.mem_cons_of_mem a hf)
    cases a with
    | commit f => exact absurd List.mem_cons_self (h f)
    | await op | notify e => exact hrest

section Admission

variable {keys : DerivedKeys} {db db' : Database}

theorem readable_upsert (h : Readable keys db) (id : TargetId) (type : TargetType)
    (body : CredentialSetRequest) :
    Readable keys (db.upsertCredential id (credentialRow keys.streamKeyKek type body)) := by
  intro id' credential hc
  rw [Database.getForTarget, Database.upsertCredential, Dict.get?_insert] at hc
  split at hc
  · obtain rfl := Option.some.inj hc
    exact sealedUnder_credentialRow _ type body
  · exact h id' credential (Dict.get?_of_get?_erase hc).2

/-- **One accepted request** leaves every stored key readable. -/
theorem readable_step {r : Request} (h : Readable keys db)
    (hstep : (admission keys).step db r = some db') : Readable keys db' := by
  simp only [admission] at hstep
  split at hstep
  · obtain ⟨as, has, rfl⟩ := Option.map_eq_some_iff.mp hstep
    cases r with
    | createTarget id body =>
      dsimp only [handle] at has
      split at has
      · cases has
      · obtain rfl := Option.some.inj has
        refine h.of_credentials ?_
        rw [createTarget, commits, commits_awaits (by intro f; split <;> simp)]
        rfl
    | updateTarget id body =>
      dsimp only [handle] at has
      split at has <;> obtain rfl := Option.some.inj has
      · exact h
      · refine h.of_credentials ?_
        rw [updateTarget, commits, commits_awaits (by intro f; repeat' split <;> simp),
          Database.updateTarget]
        split <;> rfl
    | deleteTarget id =>
      dsimp only [handle] at has
      split at has <;> obtain rfl := Option.some.inj has
      · exact h
      · exact h.erase id rfl
    | setCredential id body =>
      dsimp only [handle, Supervisor.init] at has
      split at has <;> obtain rfl := Option.some.inj has
      · rename_i keys' target hkeys _
        obtain rfl := Option.some.inj hkeys
        rw [setCredential, commits, commits_awaits (by intro f; split <;> simp)]
        exact readable_upsert h id target.type body
      · exact h
    | clearCredential id =>
      dsimp only [handle] at has
      split at has <;> obtain rfl := Option.some.inj has
      · exact h
      · rcases hcred : Database.getForTarget _ id with _ | row
        · exact h
        · exact h.erase id rfl
    | startRun | stopRun | publishBegan | publishEnded =>
      obtain rfl := Option.some.inj has
      exact h
  · cases hstep

/-- Every admitted key can be read back. -/
theorem readable_of_admitted {history : Dict RunId (Option EndReason)} {revocations : ℕ}
    {requests : List Request}
    (h : (admission keys).run ⟨∅, ∅, history, revocations⟩ requests = some db) : Readable keys db := by
  have hok : (admission keys).Meets (fun _ _ => True) ⟨∅, ∅, history, revocations⟩ requests :=
    Machine.meets_of_forall (fun _ _ => trivial) _ _
  exact Machine.inv_run (I := Readable keys) (fun _ _ _ hi _ hs => readable_step hi hs)
    (fun _ _ hc => by cases hc) hok h

end Admission

/-- Whatever is enabled, has a key and misses a worker can be spawned. -/
def AllSpawnable (keys : DerivedKeys) (s : Supervisor) : Prop :=
  ∀ id row credential key, s.db.getById id = some row → row.enabled = true →
    s.db.getForTarget id = some credential → credential.decrypt keys.streamKeyKek = some key →
    (∃ role ∈ rolesFor (targetDtoToDomain id row (some credential)),
      s.workers.get? ⟨id, role⟩ = none) →
    Spawnable row.url key

theorem allSpawnable_iff {keys : DerivedKeys} {s : Supervisor} (hread : Readable keys s.db) :
    AllSpawnable keys s ↔ ∀ e ∈ s.db.listEnabled,
      SpawnSucceeds s.toWorkerIndex (readTarget s.db keys.streamKeyKek e) := by
  constructor
  · rintro hall ⟨id, row⟩ he henabled
    have hrow := Dict.mem_entries.mp (List.mem_filter.mp he).1
    rcases hcred : s.db.getForTarget id with _ | credential
    · simp [readTarget, targetDtoToDomain, hcred]
    · obtain ⟨key, hkey⟩ := Option.isSome_iff_exists.mp (hread id credential hcred)
      simp only [readTarget, hcred, Option.bind_some, hkey]
      intro role hrole hfree
      exact (canSpawn_iff hrole).mpr
        (hall id row credential key hrow henabled hcred hkey ⟨role, hrole, hfree⟩)
  · intro hall id row credential key hrow henabled hcred hkey hmissing
    obtain ⟨role, hrole, hfree⟩ := hmissing
    have hsucc := hall (id, row) (List.mem_filter.mpr ⟨Dict.mem_entries.mpr hrow, henabled⟩)
      henabled
    simp only [readTarget, hcred, Option.bind_some, hkey] at hsucc
    exact (canSpawn_iff hrole).mp (hsucc role hrole hfree)

/-- **Exactly which admitted targets can be started.** Over any tables that accepted requests
leave, a `start_run` in OFFLINE with ready keys, in which nothing that is awaited raises,
reaches ARMED with every wanted worker if and only if each enabled target with a key and a
missing worker has an `rtmp://` or `rtmps://` URL and a key of at least twelve characters.
Otherwise it ends in ERROR without any worker (`fails_of_blocked`). -/
theorem arms_iff {s : Supervisor} {keys : DerivedKeys} {requests : List Request}
    (hoff : s.runState = .offline) (htg : s.superTg = true) (hkeys : s.keyMaterial = some keys)
    (hadmitted : (admission keys).run ⟨∅, ∅, s.db.history, s.db.revocations⟩ requests = some s.db) :
    Arms s ↔ AllSpawnable keys s := by
  have hread := readable_of_admitted hadmitted
  rw [allSpawnable_iff hread]
  constructor
  · intro harms e he
    by_contra hno
    exact not_arms_of_fails (fails_of_blocked hoff htg hkeys hread ⟨e, he, hno⟩) harms
  · exact arms_of_spawnSucceeds hoff htg hkeys hread

section TwoTargets

/-- A control plane after these requests, on tables that were empty. -/
def admittedInit (requests : List Request) : Supervisor :=
  let keys := deriveKeys "passphrase".toList [1]
  Supervisor.init [] .empty (some keys)
    (((admission keys).run Database.empty requests).getD Database.empty)

/-- A Twitch target with a key, and a custom one with this URL and this key. -/
def twoTargets (url key : Text) : List Request :=
  [.createTarget 7 ⟨.twitch, "main".toList, "rtmp://live.twitch.tv/app".toList, true, ∅⟩,
    .setCredential 7 ⟨"live_0123456789".toList, 1, [2], [3]⟩,
    .createTarget 8 ⟨.custom, "spare".toList, url, true, ∅⟩, .setCredential 8 ⟨key, 2, [4], [5]⟩]

theorem arms_two : Arms (admittedInit (twoTargets "rtmps://example.com/app".toList
    "0123456789ab".toList)) := by
  have hadmitted : (admission (deriveKeys "passphrase".toList [1])).run ⟨∅, ∅, ∅, 0⟩
      (twoTargets "rtmps://example.com/app".toList "0123456789ab".toList) = some _ := rfl
  exact (arms_iff rfl rfl rfl hadmitted).mpr
    ((allSpawnable_iff (readable_of_admitted hadmitted)).mpr (by decide +kernel))

/-- One key of eleven characters keeps the other target from running. -/
theorem short_key_blocks_start :
    (admission (deriveKeys "passphrase".toList [1])).run Database.empty
        (twoTargets "rtmps://example.com/app".toList "0123456789a".toList) =
      some (admittedInit (twoTargets "rtmps://example.com/app".toList "0123456789a".toList)).db ∧
    expected (admittedInit (twoTargets "rtmps://example.com/app".toList
      "0123456789a".toList)).db ⟨7, .primary⟩ = true ∧
    Fails (admittedInit (twoTargets "rtmps://example.com/app".toList "0123456789a".toList)) ∧
    ¬ Arms (admittedInit (twoTargets "rtmps://example.com/app".toList "0123456789a".toList)) := by
  have hadmitted : (admission (deriveKeys "passphrase".toList [1])).run ⟨∅, ∅, ∅, 0⟩
      (twoTargets "rtmps://example.com/app".toList "0123456789a".toList) = some _ := rfl
  have hfails : Fails (admittedInit (twoTargets "rtmps://example.com/app".toList
      "0123456789a".toList)) :=
    fails_of_blocked rfl rfl rfl (readable_of_admitted hadmitted) (by decide +kernel)
  exact ⟨rfl, by decide +kernel, hfails, not_arms_of_fails hfails⟩

end TwoTargets

end Api

end RestreamPlus
