import RestreamPlus.Lib.Machine

/-!
# Monitors: cooperative tasks around one fair lock

The shape of an object whose operations run as cooperative tasks and serialise
on one first-in-first-out lock. An operation first runs the code before the
lock (`precheck`), then takes the lock or queues for it, runs up to its first
suspension (`enter`), and from one suspension to the next (`resume`) until it
returns and releases. Between two suspensions nothing else runs. Code that
never takes the lock is an `external` step and may run at any time.

The lock is fair: a task that finds it free but other tasks queued still goes
to the end of the queue, and a release only makes the head of the queue
eligible, it does not hand over at once.

`Monitor.Rule` is the monitor invariant rule: one assertion for the free lock,
one for each suspension point of the owner. `Monitor.Rule.always` turns it into a
statement about every run.
-/

namespace Interleaving

universe u

/-- The operations of a monitor, as code between suspension points. -/
structure Monitor (σ Op Sec Out Env : Type u) : Type u where
  /-- the code before the lock; `false` returns without asking for it -/
  precheck : σ → Op → Bool
  /-- from taking the lock to the first suspension, `none` for a return -/
  enter : σ → Op → σ × Option Sec
  /-- from one suspension to the next, given what the awaited call did -/
  resume : σ → Sec → Out → Option (σ × Option Sec)
  /-- steps that never touch the lock -/
  external : σ → Env → Option σ

/-- Where one task is. -/
inductive Phase (Op Sec : Type u) : Type u where
  /-- scheduled, has not run yet -/
  | called : Op → Phase Op Sec
  /-- waiting for the lock -/
  | queued : Op → Phase Op Sec
  /-- holding the lock, suspended -/
  | inside : Sec → Phase Op Sec
  /-- returned or raised -/
  | finished : Phase Op Sec
  deriving DecidableEq

namespace Monitor

/-- A monitor in the middle of a run. Tasks are named by their position. -/
structure Config (σ Op Sec : Type u) : Type u where
  /-- the object's attributes -/
  shared : σ
  /-- the task holding the lock -/
  owner : Option ℕ
  /-- the tasks waiting for it, first come first -/
  queue : List ℕ
  /-- every task ever scheduled -/
  tasks : List (Phase Op Sec)

/-- What the scheduler and the environment do next. -/
inductive Label (Op Out Env : Type u) : Type u where
  /-- schedule a task for an operation -/
  | call : Op → Label Op Out Env
  /-- let a scheduled task run for the first time -/
  | start : ℕ → Label Op Out Env
  /-- wake the head of the queue -/
  | grant : Label Op Out Env
  /-- resume the owner, its awaited call having done this -/
  | resume : ℕ → Out → Label Op Out Env
  /-- run code that needs no lock -/
  | external : Env → Label Op Out Env

variable {σ Op Sec Out Env : Type u} (M : Monitor σ Op Sec Out Env)

/-- Task `i` takes the lock and runs to its first suspension. -/
def begin (c : Config σ Op Sec) (i : ℕ) (op : Op) : Config σ Op Sec :=
  match M.enter c.shared op with
  | (s, some sec) => ⟨s, some i, c.queue, c.tasks.set i (.inside sec)⟩
  | (s, none) => ⟨s, none, c.queue, c.tasks.set i .finished⟩

/-- The first run of task `i`: the code before the lock, then the lock if it is
free and nobody waits, the end of the queue otherwise. -/
def start (c : Config σ Op Sec) (i : ℕ) (op : Op) : Config σ Op Sec :=
  if M.precheck c.shared op = true then
    if c.owner = none ∧ c.queue = [] then M.begin c i op
    else { c with queue := c.queue ++ [i], tasks := c.tasks.set i (.queued op) }
  else { c with tasks := c.tasks.set i .finished }

/-- Task `i` moves on inside the lock, releasing it when it returns. -/
def advance (c : Config σ Op Sec) (i : ℕ) : σ × Option Sec → Config σ Op Sec
  | (s, some sec) => { c with shared := s, tasks := c.tasks.set i (.inside sec) }
  | (s, none) => { c with shared := s, owner := none, tasks := c.tasks.set i .finished }

/-- One step of a configuration. -/
def step (c : Config σ Op Sec) : Label Op Out Env → Option (Config σ Op Sec)
  | .call op => some { c with tasks := c.tasks ++ [.called op] }
  | .start i =>
    match c.tasks[i]? with
    | some (.called op) => some (M.start c i op)
    | _ => none
  | .grant =>
    match c.owner, c.queue with
    | none, i :: rest =>
      match c.tasks[i]? with
      | some (.queued op) => some (M.begin { c with queue := rest } i op)
      | _ => none
    | _, _ => none
  | .resume i out =>
    match c.tasks[i]? with
    | some (.inside sec) => (M.resume c.shared sec out).map (advance c i)
    | _ => none
  | .external e => (M.external c.shared e).map fun s => { c with shared := s }

/-- The configurations of a monitor as a machine. -/
def machine : Machine (Config σ Op Sec) (Label Op Out Env) := ⟨M.step⟩

/-- The lock is free and no task has been scheduled. -/
def idle (s : σ) : Config σ Op Sec := ⟨s, none, [], []⟩

/-! ## Inversion -/

variable {M}

/-- A task in a list to which one was added that is only scheduled. -/
theorem get?_of_append_called {tasks : List (Phase Op Sec)} {op : Op} {j : ℕ} {p : Phase Op Sec}
    (h : (tasks ++ [.called op])[j]? = some p) (hp : p ≠ .called op) : tasks[j]? = some p := by
  rcases Nat.lt_or_ge j tasks.length with hlt | hge
  · rwa [List.getElem?_append_left hlt] at h
  · rw [List.getElem?_append_right hge] at h
    rcases hn : j - tasks.length with _ | n <;> rw [hn] at h
    · exact absurd (Option.some.inj h).symm hp
    · cases h

theorem step_start {c c' : Config σ Op Sec} {i : ℕ} (h : M.step c (.start i) = some c') :
    ∃ op, c.tasks[i]? = some (.called op) ∧ c' = M.start c i op := by
  rw [step] at h
  rcases ht : c.tasks[i]? with _ | (op | op | sec | _) <;> rw [ht] at h
  case some.called => exact ⟨op, rfl, (Option.some.inj h).symm⟩
  all_goals cases h

theorem step_grant {c c' : Config σ Op Sec} (h : M.step c .grant = some c') :
    ∃ i rest op, c.owner = none ∧ c.queue = i :: rest ∧ c.tasks[i]? = some (.queued op) ∧
      c' = M.begin { c with queue := rest } i op := by
  rw [step] at h
  rcases ho : c.owner with _ | j
  · rcases hq : c.queue with _ | ⟨i, rest⟩
    · rw [ho, hq] at h
      cases h
    · rw [ho, hq] at h
      rcases ht : c.tasks[i]? with _ | (op | op | sec | _) <;> simp only [ht] at h
      case some.queued => exact ⟨i, rest, op, rfl, rfl, ht, (Option.some.inj h).symm⟩
      all_goals cases h
  · rw [ho] at h
    cases h

theorem step_resume {c c' : Config σ Op Sec} {i : ℕ} {out : Out}
    (h : M.step c (.resume i out) = some c') :
    ∃ sec r, c.tasks[i]? = some (.inside sec) ∧ M.resume c.shared sec out = some r ∧
      c' = advance c i r := by
  rw [step] at h
  rcases ht : c.tasks[i]? with _ | (op | op | sec | _) <;> rw [ht] at h
  case some.inside =>
    obtain ⟨r, hr, rfl⟩ := Option.map_eq_some_iff.mp h
    exact ⟨sec, r, rfl, hr, rfl⟩
  all_goals cases h

theorem step_external {c c' : Config σ Op Sec} {e : Env}
    (h : M.step c (.external e) = some c') :
    ∃ s, M.external c.shared e = some s ∧ c' = { c with shared := s } := by
  obtain ⟨s, hs, rfl⟩ := Option.map_eq_some_iff.mp h
  exact ⟨s, hs, rfl⟩

/-- Task `i` has not begun its operation. -/
def Config.Pending (c : Config σ Op Sec) (i : ℕ) (op : Op) : Prop :=
  c.tasks[i]? = some (.called op) ∨ c.tasks[i]? = some (.queued op)

/-- Setting a task to a phase that is not pending adds nothing pending. -/
theorem pending_of_set {c : Config σ Op Sec} {i j : ℕ} {p : Phase Op Sec} {op : Op}
    (hp : p = .called op ∨ p = .queued op → c.Pending i op)
    (hj : (c.tasks.set i p)[j]? = some (.called op) ∨ (c.tasks.set i p)[j]? = some (.queued op)) :
    c.Pending j op := by
  by_cases hij : i = j
  · subst hij
    refine hp ?_
    rw [List.getElem?_set, if_pos rfl] at hj
    split at hj
    · exact hj.imp Option.some.inj Option.some.inj
    · rcases hj with hj | hj <;> cases hj
  · rw [List.getElem?_set_ne hij] at hj
    exact hj

theorem shared_begin (c : Config σ Op Sec) (i : ℕ) (op : Op) :
    (M.begin c i op).shared = (M.enter c.shared op).1 := by
  rw [begin]
  rcases M.enter c.shared op with ⟨s, _ | sec⟩ <;> rfl

theorem shared_advance (c : Config σ Op Sec) (i : ℕ) (r : σ × Option Sec) :
    (advance c i r).shared = r.1 := by
  rcases r with ⟨s, _ | sec⟩ <;> rfl

theorem tasks_begin (c : Config σ Op Sec) (i : ℕ) (op : Op) :
    ∃ p, (M.begin c i op).tasks = c.tasks.set i p ∧ ∀ op', p ≠ .called op' ∧ p ≠ .queued op' := by
  rw [begin]
  rcases M.enter c.shared op with ⟨s, _ | sec⟩
  · exact ⟨.finished, rfl, fun op' => ⟨nofun, nofun⟩⟩
  · exact ⟨.inside sec, rfl, fun op' => ⟨nofun, nofun⟩⟩

/-- Only a call adds a pending operation. -/
theorem pending_of_step {c c' : Config σ Op Sec} {a : Label Op Out Env} (hs : M.step c a = some c')
    (ha : ∀ op, a ≠ .call op) {j : ℕ} {op : Op} (hj : c'.Pending j op) : c.Pending j op := by
  cases a with
  | call op' => exact absurd rfl (ha op')
  | start i =>
    obtain ⟨op', ht, rfl⟩ := step_start hs
    rw [start] at hj
    split at hj
    · split at hj
      · obtain ⟨p, hp, hne⟩ := tasks_begin (M := M) c i op'
        rw [Config.Pending, hp] at hj
        exact pending_of_set (fun h => absurd h (not_or.mpr (hne op))) hj
      · refine pending_of_set (p := .queued op') (fun h => .inl ?_) hj
        rcases h with h | h
        · cases h
        · injection h with h
          rw [ht, h]
    · exact pending_of_set (p := .finished) (fun h => by rcases h with h | h <;> cases h) hj
  | grant =>
    obtain ⟨i, rest, op', -, -, -, rfl⟩ := step_grant hs
    obtain ⟨p, hp, hne⟩ := tasks_begin (M := M) { c with queue := rest } i op'
    rw [Config.Pending, hp] at hj
    exact pending_of_set (fun h => absurd h (not_or.mpr (hne op))) hj
  | resume i out =>
    obtain ⟨sec, ⟨s, sec'⟩, -, -, rfl⟩ := step_resume hs
    cases sec' with
    | none => exact pending_of_set (p := .finished) (fun h => by rcases h with h | h <;> cases h) hj
    | some sec' =>
      exact pending_of_set (p := .inside sec') (fun h => by rcases h with h | h <;> cases h) hj
  | external e =>
    obtain ⟨s, -, rfl⟩ := step_external hs
    exact hj

/-- The operation that the next step lets in, if it is one of those that do. -/
def letsIn (M : Monitor σ Op Sec Out Env) (c : Config σ Op Sec) : Label Op Out Env → Option Op
  | .start i =>
    match c.tasks[i]? with
    | some (.called op) =>
      if M.precheck c.shared op = true ∧ c.owner = none ∧ c.queue = [] then some op else none
    | _ => none
  | .grant =>
    match c.queue with
    | [] => none
    | i :: _ =>
      match c.tasks[i]? with
      | some (.queued op) => some op
      | _ => none
  | _ => none

theorem letsIn_start {c : Config σ Op Sec} {i : ℕ} {op : Op}
    (ht : c.tasks[i]? = some (.called op)) (hadm : M.precheck c.shared op = true)
    (hfree : c.owner = none ∧ c.queue = []) :
    M.letsIn c (.start i : Label Op Out Env) = some op := by
  simp [letsIn, ht, hadm, hfree]

theorem letsIn_grant {c : Config σ Op Sec} {i : ℕ} {rest : List ℕ} {op : Op}
    (hq : c.queue = i :: rest) (ht : c.tasks[i]? = some (.queued op)) :
    M.letsIn c (.grant : Label Op Out Env) = some op := by
  simp [letsIn, hq, ht]

/-- What a step does to the attributes, with the operation that is let in. -/
theorem shared_of_letsIn {c c' : Config σ Op Sec} {a : Label Op Out Env} (hs : M.step c a = some c') :
    c'.shared = c.shared ∨
      (∃ op, M.letsIn c a = some op ∧ c'.shared = (M.enter c.shared op).1) ∨
      (∃ i sec out r, a = .resume i out ∧ c.tasks[i]? = some (.inside sec) ∧
        M.resume c.shared sec out = some r ∧ c'.shared = r.1) ∨
      ∃ e, a = .external e ∧ M.external c.shared e = some c'.shared := by
  cases a with
  | call op =>
    obtain rfl := Option.some.inj hs
    exact .inl rfl
  | start i =>
    obtain ⟨op, ht, rfl⟩ := step_start hs
    rw [start]
    split
    · rename_i hadm
      split
      · rename_i hfree
        exact .inr (.inl ⟨op, letsIn_start ht hadm hfree, shared_begin c i op⟩)
      · exact .inl rfl
    · exact .inl rfl
  | grant =>
    obtain ⟨i, rest, op, -, hq, ht, rfl⟩ := step_grant hs
    exact .inr (.inl ⟨op, letsIn_grant hq ht, shared_begin _ i op⟩)
  | resume i out =>
    obtain ⟨sec, r, ht, hr, rfl⟩ := step_resume hs
    exact .inr (.inr (.inl ⟨i, sec, out, r, rfl, ht, hr, shared_advance c i r⟩))
  | external e =>
    obtain ⟨s, he, rfl⟩ := step_external hs
    exact .inr (.inr (.inr ⟨e, rfl, he⟩))

/-- An operation that is let in takes the free lock, and keeps it if it is
suspended. -/
theorem begin_of_letsIn {c c' : Config σ Op Sec} {a : Label Op Out Env} {op : Op}
    (hs : M.step c a = some c') (hin : M.letsIn c a = some op) :
    c.owner = none ∧ c'.shared = (M.enter c.shared op).1 ∧
      (c'.owner = none → (M.enter c.shared op).2 = none) := by
  have hbegin : ∀ (q : List ℕ) i, (M.begin { c with queue := q } i op).owner = none →
      (M.enter c.shared op).2 = none := by
    intro q i h
    rw [begin] at h
    rcases he : M.enter c.shared op with ⟨s, _ | sec⟩
    · rfl
    · rw [he] at h
      cases h
  cases a with
  | start i =>
    obtain ⟨op', ht, rfl⟩ := step_start hs
    simp only [letsIn, ht, Option.ite_none_right_eq_some, Option.some.injEq] at hin
    obtain ⟨⟨hadm, hfree⟩, rfl⟩ := hin
    rw [start, if_pos hadm, if_pos hfree]
    exact ⟨hfree.1, shared_begin c i op', hbegin c.queue i⟩
  | grant =>
    obtain ⟨i, rest, op', ho, hq, ht, rfl⟩ := step_grant hs
    obtain rfl : op' = op := Option.some.inj ((letsIn_grant hq ht).symm.trans hin)
    exact ⟨ho, shared_begin _ i op', hbegin rest i⟩
  | call op' => cases hin
  | resume i out => cases hin
  | external e => cases hin

/-- No step adds a pending operation to a task that was there before. -/
theorem pending_of_step_lt {c c' : Config σ Op Sec} {a : Label Op Out Env}
    (hs : M.step c a = some c') {j : ℕ} {op : Op} (hlt : j < c.tasks.length) (hj : c'.Pending j op) :
    c.Pending j op := by
  by_cases ha : ∃ op', a = .call op'
  · obtain ⟨op', rfl⟩ := ha
    obtain rfl := Option.some.inj hs
    rwa [Config.Pending, List.getElem?_append_left hlt] at hj
  · exact pending_of_step hs (fun op' heq => ha ⟨op', heq⟩) hj

/-- Tasks are only added. -/
theorem length_step {c c' : Config σ Op Sec} {a : Label Op Out Env} (hs : M.step c a = some c') :
    c.tasks.length ≤ c'.tasks.length := by
  have hbegin : ∀ (q : List ℕ) i op,
      (M.begin { c with queue := q } i op).tasks.length = c.tasks.length := by
    intro q i op
    obtain ⟨p, htasks, -⟩ := tasks_begin (M := M) { c with queue := q } i op
    rw [htasks, List.length_set]
  cases a with
  | call op =>
    obtain rfl := Option.some.inj hs
    simp
  | start i =>
    obtain ⟨op, -, rfl⟩ := step_start hs
    rw [start]
    split
    · split
      · exact Nat.le_of_eq (hbegin c.queue i op).symm
      · simp
    · simp
  | grant =>
    obtain ⟨i, rest, op, -, -, -, rfl⟩ := step_grant hs
    exact Nat.le_of_eq (hbegin rest i op).symm
  | resume i out =>
    obtain ⟨sec, ⟨s, _ | sec'⟩, -, -, rfl⟩ := step_resume hs <;> simp [advance]
  | external e =>
    obtain ⟨s, -, rfl⟩ := step_external hs
    exact Nat.le_refl _

theorem pending_of_letsIn {c : Config σ Op Sec} {a : Label Op Out Env} {op : Op}
    (h : M.letsIn c a = some op) : ∃ i, c.Pending i op := by
  rw [letsIn.eq_def] at h
  split at h
  · rename_i i
    split at h
    · rename_i op' ht
      obtain ⟨-, heq⟩ := Option.ite_none_right_eq_some.mp h
      exact ⟨i, .inl (Option.some.inj heq ▸ ht)⟩
    · cases h
  · split at h
    · cases h
    · rename_i i rest _
      split at h
      · rename_i op' ht
        exact ⟨i, .inr (Option.some.inj h ▸ ht)⟩
      · cases h
  · cases h

/-- What a step does to the attributes: an operation that was pending enters,
an operation that is inside goes on, or code runs that needs no lock. -/
theorem shared_of_step {c c' : Config σ Op Sec} {a : Label Op Out Env} (hs : M.step c a = some c') :
    c'.shared = c.shared ∨
      (∃ i op, c.Pending i op ∧ c'.shared = (M.enter c.shared op).1) ∨
      (∃ i sec out r, a = .resume i out ∧ c.tasks[i]? = some (.inside sec) ∧
        M.resume c.shared sec out = some r ∧ c'.shared = r.1) ∨
      ∃ e, a = .external e ∧ M.external c.shared e = some c'.shared := by
  rcases shared_of_letsIn hs with heq | ⟨op, hin, heq⟩ | hres | hext
  · exact .inl heq
  · obtain ⟨i, hp⟩ := pending_of_letsIn hin
    exact .inr (.inl ⟨i, op, hp, heq⟩)
  · exact .inr (.inr (.inl hres))
  · exact .inr (.inr (.inr hext))

/-- The monitor with the external steps that `E` allows. -/
def within (M : Monitor σ Op Sec Out Env) (E : σ → Env → Prop) [∀ s e, Decidable (E s e)] :
    Monitor σ Op Sec Out Env :=
  { M with external := fun s e => if E s e then M.external s e else none }

theorem step_within {E : σ → Env → Prop} [∀ s e, Decidable (E s e)] {c : Config σ Op Sec}
    {a : Label Op Out Env} (hE : ∀ e, a = .external e → E c.shared e) :
    (M.within E).step c a = M.step c a := by
  cases a with
  | external e => simp [step, within, hE e rfl]
  | call op => rfl
  | start i => rfl
  | grant => rfl
  | resume i out => rfl

/-! ## The monitor rule -/

/-- The assertion an operation leaves behind: the lock's when it returned, its
own when it is suspended. -/
def Settled (free : σ → Prop) (held : σ → Sec → Prop) : σ × Option Sec → Prop
  | (s, none) => free s
  | (s, some sec) => held s sec

/-- The premises of the monitor rule. `A` says which queued operations may be
let in, `R` which resumptions are considered. -/
structure Rule (M : Monitor σ Op Sec Out Env) (free : σ → Prop) (held : σ → Sec → Prop)
    (A : σ → Op → Prop) (R : σ → Sec → Out → Prop) : Prop where
  /-- an operation let in at once was admitted in the same state -/
  admitted : ∀ s op, free s → M.precheck s op = true → A s op
  enter : ∀ s op, free s → A s op → Settled free held (M.enter s op)
  resume : ∀ s sec out r, held s sec → R s sec out → M.resume s sec out = some r →
    Settled free held r
  external_free : ∀ s e s', free s → M.external s e = some s' → free s'
  external_held : ∀ s sec e s', held s sec → M.external s e = some s' → held s' sec

/-- The steps the rule covers: a queued operation is let in only where `A`
holds, the owner resumes only as `R` allows. -/
def guard (A : σ → Op → Prop) (R : σ → Sec → Out → Prop) (c : Config σ Op Sec) :
    Label Op Out Env → Prop
  | .grant =>
    match c.queue with
    | [] => True
    | i :: _ =>
      match c.tasks[i]? with
      | some (.queued op) => A c.shared op
      | _ => True
  | .resume i out =>
    match c.tasks[i]? with
    | some (.inside sec) => R c.shared sec out
    | _ => True
  | _ => True

theorem guard_grant {A : σ → Op → Prop} {R : σ → Sec → Out → Prop} {c : Config σ Op Sec} {i : ℕ}
    {rest : List ℕ} {op : Op} (hq : c.queue = i :: rest) (ht : c.tasks[i]? = some (.queued op)) :
    guard A R c (.grant : Label Op Out Env) ↔ A c.shared op := by
  simp only [guard, hq, ht]

theorem guard_resume {A : σ → Op → Prop} {R : σ → Sec → Out → Prop} {c : Config σ Op Sec} {i : ℕ}
    {sec : Sec} {out : Out} (ht : c.tasks[i]? = some (.inside sec)) :
    guard A R c (.resume i out : Label Op Out Env) ↔ R c.shared sec out := by
  simp only [guard, ht]

theorem guard_of_forall {A : σ → Op → Prop} {R : σ → Sec → Out → Prop} (hA : ∀ s op, A s op)
    (hR : ∀ s sec out, R s sec out) (c : Config σ Op Sec) (a : Label Op Out Env) : guard A R c a := by
  cases a with
  | call op => trivial
  | start i => trivial
  | external e => trivial
  | grant =>
    rcases hq : c.queue with _ | ⟨i, rest⟩
    · simp only [guard, hq]
    · rcases ht : c.tasks[i]? with _ | (op | op | sec | _)
      case some.queued => exact (guard_grant hq ht).mpr (hA _ op)
      all_goals simp only [guard, hq, ht]
  | resume i out =>
    rcases ht : c.tasks[i]? with _ | (op | op | sec | _)
    case some.inside => exact (guard_resume ht).mpr (hR _ sec out)
    all_goals simp only [guard, ht]

/-- Who is let in is one part of the guard, how the owner goes on the other. -/
theorem guard_of_letsIn {A : σ → Op → Prop} {R : σ → Sec → Out → Prop} {c : Config σ Op Sec}
    {a : Label Op Out Env} (hA : ∀ op ∈ M.letsIn c a, A c.shared op)
    (hR : guard (fun _ _ => True) R c a) : guard A R c a := by
  cases a with
  | call op => trivial
  | start i => trivial
  | external e => trivial
  | grant =>
    rcases hq : c.queue with _ | ⟨i, rest⟩
    · simp only [guard, hq]
    · rcases ht : c.tasks[i]? with _ | (op | op | sec | _)
      case some.queued => exact (guard_grant hq ht).mpr (hA op (letsIn_grant hq ht))
      all_goals simp only [guard, hq, ht]
  | resume i out => exact hR

instance {A : σ → Op → Prop} {R : σ → Sec → Out → Prop} [∀ s op, Decidable (A s op)]
    [∀ s sec out, Decidable (R s sec out)] (c : Config σ Op Sec) (a : Label Op Out Env) :
    Decidable (guard A R c a) :=
  match a with
  | .call _ => .isTrue trivial
  | .start _ => .isTrue trivial
  | .external _ => .isTrue trivial
  | .grant =>
    match hq : c.queue with
    | [] => .isTrue (by simp only [guard, hq])
    | i :: _ =>
      match ht : c.tasks[i]? with
      | some (.queued op) => decidable_of_iff _ (guard_grant hq ht).symm
      | some (.called _) | some (.inside _) | some .finished | none =>
        .isTrue (by simp only [guard, hq, ht])
  | .resume i out =>
    match ht : c.tasks[i]? with
    | some (.inside sec) => decidable_of_iff _ (guard_resume ht).symm
    | some (.called _) | some (.queued _) | some .finished | none =>
      .isTrue (by simp only [guard, ht])

/-- A condition on how the owner goes on refuses nothing else. -/
theorem guard_of_ne_resume {R : σ → Sec → Out → Prop} (c : Config σ Op Sec)
    {a : Label Op Out Env} (ha : ∀ i out, a ≠ .resume i out) : guard (fun _ _ => True) R c a := by
  have hfree : guard (fun _ _ => True) (fun _ _ _ => True) c a :=
    guard_of_forall (fun _ _ => trivial) (fun _ _ _ => trivial) c a
  cases a with
  | resume i out => exact absurd rfl (ha i out)
  | grant => exact hfree
  | call op => trivial
  | start i => trivial
  | external e => trivial

/-- … and no step that cannot be taken. -/
theorem guard_of_step_none {R : σ → Sec → Out → Prop} {c : Config σ Op Sec}
    {a : Label Op Out Env} (hres : ∀ s sec out, (M.resume s sec out).isSome)
    (hs : M.step c a = none) : guard (fun _ _ => True) R c a := by
  by_cases ha : ∃ i out, a = .resume i out
  · obtain ⟨i, out, rfl⟩ := ha
    rcases ht : c.tasks[i]? with _ | (op | op | sec | _)
    case some.inside =>
      obtain ⟨r, hr⟩ := Option.isSome_iff_exists.mp (hres c.shared sec out)
      simp [step, ht, hr] at hs
    all_goals simp only [guard, ht]
  · exact guard_of_ne_resume c fun i out heq => ha ⟨i, out, heq⟩

/-- Exactly the owner is inside, and the assertion that is due holds. -/
def Sound (free : σ → Prop) (held : σ → Sec → Prop) (c : Config σ Op Sec) : Prop :=
  match c.owner with
  | none => free c.shared ∧ ∀ (i : ℕ) (sec : Sec), c.tasks[i]? ≠ some (.inside sec)
  | some i => ∃ sec, c.tasks[i]? = some (.inside sec) ∧ held c.shared sec ∧
      ∀ (j : ℕ) (sec' : Sec), c.tasks[j]? = some (.inside sec') → j = i

section Sound

variable {free : σ → Prop} {held : σ → Sec → Prop}

theorem sound_idle {s : σ} (h : free s) : Sound free held (idle s : Config σ Op Sec) :=
  ⟨h, fun i _ hi => by simp [idle] at hi⟩

theorem Sound.atRest {c : Config σ Op Sec} (h : Sound free held c) (ho : c.owner = none) :
    free c.shared := by
  rw [Sound, ho] at h
  exact h.1

theorem Sound.no_inside {c : Config σ Op Sec} (h : Sound free held c) (ho : c.owner = none)
    (i : ℕ) (sec : Sec) : c.tasks[i]? ≠ some (.inside sec) := by
  rw [Sound, ho] at h
  exact h.2 i sec

theorem Sound.owning {c : Config σ Op Sec} (h : Sound free held c) {i : ℕ} {sec : Sec}
    (ht : c.tasks[i]? = some (.inside sec)) :
    c.owner = some i ∧ held c.shared sec ∧
      ∀ j sec', c.tasks[j]? = some (.inside sec') → j = i := by
  rcases ho : c.owner with _ | k
  · exact absurd ht (h.no_inside ho i sec)
  · rw [Sound, ho] at h
    obtain ⟨sec₀, ht₀, hheld, honly⟩ := h
    obtain rfl := honly i sec ht
    obtain rfl : sec₀ = sec := by
      rw [ht₀] at ht
      injection Option.some.inj ht
    exact ⟨rfl, hheld, honly⟩

/-- Setting a task to a phase outside the lock adds nobody inside. -/
theorem inside_of_set {tasks : List (Phase Op Sec)} {i j : ℕ} {p : Phase Op Sec} {sec : Sec}
    (hp : ∀ sec', p ≠ .inside sec') (hj : (tasks.set i p)[j]? = some (.inside sec)) :
    j ≠ i ∧ tasks[j]? = some (.inside sec) := by
  by_cases hij : i = j
  · subst hij
    rw [List.getElem?_set, if_pos rfl] at hj
    split at hj
    · exact absurd (Option.some.inj hj) (hp sec)
    · cases hj
  · rw [List.getElem?_set_ne hij] at hj
    exact ⟨Ne.symm hij, hj⟩

/-- Setting a task inside while no other task is leaves it alone there. -/
theorem inside_set_unique {tasks : List (Phase Op Sec)} {i : ℕ} {sec : Sec}
    (hother : ∀ j sec', j ≠ i → tasks[j]? ≠ some (.inside sec')) (j : ℕ) (sec' : Sec)
    (hj : (tasks.set i (.inside sec))[j]? = some (.inside sec')) : j = i := by
  by_contra hne
  rw [List.getElem?_set_ne (Ne.symm hne)] at hj
  exact hother j sec' hne hj

/-- Changing a task that is not inside into one that is not inside. -/
theorem Sound.set_outside {c : Config σ Op Sec} (h : Sound free held c) {i : ℕ}
    {p : Phase Op Sec} {q : List ℕ} (hi : ∀ sec : Sec, c.tasks[i]? ≠ some (.inside sec))
    (hp : ∀ sec, p ≠ .inside sec) :
    Sound free held { c with queue := q, tasks := c.tasks.set i p } := by
  unfold Sound at h ⊢
  rcases ho : c.owner with _ | k <;> rw [ho] at h <;> dsimp only at h ⊢
  · exact ⟨h.1, fun j sec hj => h.2 j sec (inside_of_set hp hj).2⟩
  · obtain ⟨sec, ht, hheld, honly⟩ := h
    have hik : i ≠ k := by
      rintro rfl
      exact hi sec ht
    exact ⟨sec, by rw [List.getElem?_set_ne hik]; exact ht, hheld,
      fun j sec' hj => honly j sec' (inside_of_set hp hj).2⟩

/-- Scheduling a task. -/
theorem Sound.call {c : Config σ Op Sec} (h : Sound free held c) (op : Op) :
    Sound free held { c with tasks := c.tasks ++ [.called op] } := by
  unfold Sound at h ⊢
  rcases ho : c.owner with _ | k <;> rw [ho] at h <;> dsimp only at h ⊢
  · exact ⟨h.1, fun j sec hj => h.2 j sec (get?_of_append_called hj nofun)⟩
  · obtain ⟨sec, ht, hheld, honly⟩ := h
    have hlt : k < c.tasks.length := (List.getElem?_eq_some_iff.mp ht).1
    exact ⟨sec, by rw [List.getElem?_append_left hlt]; exact ht, hheld,
      fun j sec' hj => honly j sec' (get?_of_append_called hj nofun)⟩

variable {A : σ → Op → Prop} {R : σ → Sec → Out → Prop}

/-- Taking the free lock. -/
theorem Rule.sound_begin (rule : M.Rule free held A R) {c : Config σ Op Sec}
    (h : Sound free held c) (ho : c.owner = none) {i : ℕ} {q : List ℕ} {op : Op}
    (hi : i < c.tasks.length) (hA : A c.shared op) :
    Sound free held (M.begin { c with queue := q } i op) := by
  have hset := rule.enter c.shared op (h.atRest ho) hA
  rw [begin]
  rcases he : M.enter c.shared op with ⟨s, _ | sec⟩ <;> rw [he] at hset
  · refine ⟨hset, fun j sec hj => ?_⟩
    exact h.no_inside ho j sec (inside_of_set (fun _ hp => by cases hp) hj).2
  · exact ⟨sec, List.getElem?_set_self hi, hset,
      inside_set_unique fun j sec' _ => h.no_inside ho j sec'⟩

/-- **One step** the rule covers keeps the configuration sound. -/
theorem Rule.sound_step (rule : M.Rule free held A R) {c c' : Config σ Op Sec}
    {a : Label Op Out Env} (h : Sound free held c) (hok : guard A R c a)
    (hs : M.step c a = some c') : Sound free held c' := by
  cases a with
  | call op =>
    obtain rfl := Option.some.inj hs
    exact h.call op
  | start i =>
    obtain ⟨op, ht, rfl⟩ := step_start hs
    have hi : i < c.tasks.length := (List.getElem?_eq_some_iff.mp ht).1
    have hout : ∀ sec, c.tasks[i]? ≠ some (.inside sec) := by
      intro sec hin
      rw [ht] at hin
      cases hin
    rw [start]
    split
    · rename_i hadm
      split
      · rename_i hfree
        exact rule.sound_begin (q := c.queue) h hfree.1 hi
          (rule.admitted _ _ (h.atRest hfree.1) hadm)
      · exact h.set_outside hout fun sec hp => by cases hp
    · exact h.set_outside hout fun sec hp => by cases hp
  | grant =>
    obtain ⟨i, rest, op, ho, hq, ht, rfl⟩ := step_grant hs
    have hi : i < c.tasks.length := (List.getElem?_eq_some_iff.mp ht).1
    exact rule.sound_begin h ho hi ((guard_grant hq ht).mp hok)
  | resume i out =>
    obtain ⟨sec, r, ht, hr, rfl⟩ := step_resume hs
    obtain ⟨ho, hheld, honly⟩ := h.owning ht
    have hi : i < c.tasks.length := (List.getElem?_eq_some_iff.mp ht).1
    have hset := rule.resume _ _ _ _ hheld ((guard_resume ht).mp hok) hr
    obtain ⟨s, _ | sec'⟩ := r
    · refine ⟨hset, fun j sec₁ hj => ?_⟩
      obtain ⟨hne, hj'⟩ := inside_of_set (fun _ hp => by cases hp) hj
      exact hne (honly j sec₁ hj')
    · rw [advance, Sound, ho]
      exact ⟨sec', List.getElem?_set_self hi, hset,
        inside_set_unique fun j sec₁ hne hj => hne (honly j sec₁ hj)⟩
  | external e =>
    obtain ⟨s, he, rfl⟩ := step_external hs
    unfold Sound at h ⊢
    rcases ho : c.owner with _ | k <;> rw [ho] at h <;> dsimp only at h ⊢
    · exact ⟨rule.external_free _ _ _ h.1 he, h.2⟩
    · obtain ⟨sec, ht, hheld, honly⟩ := h
      exact ⟨sec, ht, rule.external_held _ _ _ _ hheld he, honly⟩

/-- **The monitor rule**: along every run of covered steps the configuration
stays sound, and what soundness entails always holds. -/
theorem Rule.always (rule : M.Rule free held A R) {P : Config σ Op Sec → Prop}
    (hP : ∀ c, Sound free held c → P c) {c : Config σ Op Sec} {as : List (Label Op Out Env)}
    (h : Sound free held c) (hok : M.machine.Meets (guard A R) c as) :
    M.machine.Always P c as :=
  Machine.always_of_inv (I := Sound free held) (fun _ _ _ hi hg hs => rule.sound_step hi hg hs)
    hP h hok

end Sound

end Monitor

end Interleaving
