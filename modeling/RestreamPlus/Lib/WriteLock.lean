import RestreamPlus.Lib.Machine

/-!
# Transactions behind one write lock

Tasks that share a store with one write lock. A task takes the lock with its first
statement that writes and keeps it until it commits or rolls back; until then it
works on a copy that nobody else sees, and everybody else sees what was committed
last. A statement that writes has to wait while another task has the lock. A task may
also write in a transaction of its own beside the one it has open; that one too waits
for the lock, and gives up if it does not get it, whoever has it.

A `Client` says what a task does from one await to the next, as a function of what it
sees. `Client.Locking` says of some places in the code that a task there has the lock.
`Client.Rule` is the invariant rule: an assertion about the committed store, one about
the copy of a task that has the lock, and one about each task, of which the last has to
survive the commits of the others. It is for clients that only write beside a transaction
that has the lock already.
-/

namespace Interleaving

universe u

/-- What a task does from one await to the next. -/
inductive Effect (σ Task : Type u) : Type u where
  /-- no statement, or one that only reads -/
  | goOn (t : Task)
  /-- a statement that writes: its result -/
  | write (s : σ) (t : Task)
  | commit (t : Task)
  | rollback (t : Task)
  /-- a transaction of one statement beside the open one: how the task goes on when it is
  committed, and when the lock was not to be had -/
  | separate (f : σ → σ) (done busy : Task)

/-- What the task may be after an effect. -/
def Effect.tasks {σ Task : Type u} : Effect σ Task → List Task
  | .goOn t | .write _ t | .commit t | .rollback t => [t]
  | .separate _ done busy => [done, busy]

/-- An effect of a task that has the lock wherever `Q` holds leaves the task like that. -/
def Effect.Locks {σ Task : Type u} (Q : Task → Prop) (t : Task) : Effect σ Task → Prop
  | .goOn t' => Q t' → Q t
  | .write _ _ => True
  | .commit t' | .rollback t' => ¬ Q t'
  | .separate _ _ _ => Q t

/-- The tasks of a store. -/
structure Client (σ Task Request Input : Type u) : Type u where
  /-- a task for a request; the committed store is there for the record only -/
  accept : σ → Request → Task
  /-- what the task does next, given what it sees; `none` when it is over -/
  resume : Task → σ → Input → Option (Effect σ Task)
  /-- the awaited call raises -/
  fail : Task → Option Task

namespace Client

/-- A store in use. Tasks are named by their position. -/
structure Config (σ Task : Type u) : Type u where
  committed : σ
  /-- who has the write lock, and its copy -/
  writer : Option (ℕ × σ)
  tasks : List Task

/-- What happens next. -/
inductive Label (Request Input : Type u) : Type u where
  | arrive (r : Request)
  | resume (i : ℕ) (x : Input)
  | fail (i : ℕ)

section Step

variable {σ Task Request Input : Type u}

/-- What task `i` sees. -/
def Config.view (c : Config σ Task) (i : ℕ) : σ :=
  match c.writer with
  | none => c.committed
  | some (j, s) => if j = i then s else c.committed

/-- No other task has the lock. -/
def Config.mayWrite (c : Config σ Task) (i : ℕ) : Bool :=
  match c.writer with
  | none => true
  | some (j, _) => j = i

/-- The lock without task `i`. -/
def Config.released (c : Config σ Task) (i : ℕ) : Option (ℕ × σ) :=
  match c.writer with
  | none => none
  | some (j, s) => if j = i then none else some (j, s)

/-- Task `i` goes on like this. -/
def Config.perform (c : Config σ Task) (i : ℕ) : Effect σ Task → Option (Config σ Task)
  | .goOn t => some { c with tasks := c.tasks.set i t }
  | .write s t =>
    if c.mayWrite i then some { c with writer := some (i, s), tasks := c.tasks.set i t } else none
  | .commit t => some ⟨c.view i, c.released i, c.tasks.set i t⟩
  | .rollback t => some { c with writer := c.released i, tasks := c.tasks.set i t }
  | .separate f done busy =>
    match c.writer with
    | none => some ⟨f c.committed, none, c.tasks.set i done⟩
    | some _ => some { c with tasks := c.tasks.set i busy }

variable (C : Client σ Task Request Input)

/-- One step. -/
def step (c : Config σ Task) : Label Request Input → Option (Config σ Task)
  | .arrive r => some { c with tasks := c.tasks ++ [C.accept c.committed r] }
  | .resume i x =>
    match c.tasks[i]? with
    | none => none
    | some t => (C.resume t (c.view i) x).bind (c.perform i)
  | .fail i =>
    match c.tasks[i]? with
    | none => none
    | some t => (C.fail t).bind fun t' => c.perform i (.rollback t')

/-- The tasks of a store as a machine. -/
def machine : Machine (Config σ Task) (Label Request Input) := ⟨C.step⟩

/-- Nobody uses the store. -/
def idle (s : σ) : Config σ Task := ⟨s, none, []⟩

end Step

variable {σ Task Request Input : Type u}

/-! ## Where the lock is held -/

/-- To where `Q` holds a task comes with the lock only, and a transaction beside the open
one it begins nowhere else. -/
structure Locking (C : Client σ Task Request Input) (Q : Task → Prop) : Prop where
  accept : ∀ s r, ¬ Q (C.accept s r)
  resume : ∀ t v x e, C.resume t v x = some e → e.Locks Q t
  fail : ∀ t t', C.fail t = some t' → ¬ Q t'

/-- Every task where `Q` holds has the lock. -/
def Locked (Q : Task → Prop) (c : Config σ Task) : Prop :=
  ∀ i t, c.tasks[i]? = some t → Q t → ∃ s, c.writer = some (i, s)

section Locked

variable {C : Client σ Task Request Input} {Q : Task → Prop} {c c' : Config σ Task} {i : ℕ}

theorem locked_idle (Q : Task → Prop) (s : σ) : Locked Q (idle s) := nofun

/-- Task `i` moves to where `Q` holds with the lock only, and the others keep theirs. -/
theorem Locked.set (h : Locked Q c) {t' : Task} {s : σ} {w : Option (ℕ × σ)}
    (hself : Q t' → ∃ s, w = some (i, s))
    (hother : ∀ j s, j ≠ i → c.writer = some (j, s) → w = some (j, s)) :
    Locked Q ⟨s, w, c.tasks.set i t'⟩ := by
  intro j t ht hQ
  by_cases hij : i = j
  · subst hij
    have hlt : i < c.tasks.length := by
      simpa using (List.getElem?_eq_some_iff.mp ht).1
    obtain rfl := Option.some.inj ((List.getElem?_set_self hlt).symm.trans ht)
    exact hself hQ
  · obtain ⟨s', hw⟩ := h j t ((List.getElem?_set_ne hij).symm.trans ht) hQ
    exact ⟨s', hother j s' (Ne.symm hij) hw⟩

/-- Giving up the lock of task `i` leaves that of another one. -/
theorem released_of_ne {j : ℕ} {s : σ} (hne : j ≠ i) (h : c.writer = some (j, s)) :
    c.released i = some (j, s) := by
  rw [Config.released, h]
  exact if_neg hne

/-- Where `Q` holds a transaction beside the open one does not get the lock. -/
theorem Locked.perform_separate (h : Locked Q c) {t busy done : Task} {f : σ → σ}
    (ht : c.tasks[i]? = some t) (hQ : Q t) :
    c.perform i (.separate f done busy) = c.perform i (.goOn busy) := by
  obtain ⟨s, hw⟩ := h i t ht hQ
  simp only [Config.perform, hw]

/-- **Tasks where `Q` holds have the lock**: one step. -/
theorem Locking.locked_step (hC : C.Locking Q) {l : Label Request Input} (h : Locked Q c)
    (hs : C.step c l = some c') : Locked Q c' := by
  cases l with
  | arrive r =>
    obtain rfl := Option.some.inj hs
    intro j t ht hQ
    rcases Nat.lt_or_ge j c.tasks.length with hlt | hge
    · exact h j t ((List.getElem?_append_left hlt).symm.trans ht) hQ
    · rw [List.getElem?_append_right hge] at ht
      rw [List.mem_singleton.mp (List.mem_of_getElem? ht)] at hQ
      exact absurd hQ (hC.accept _ r)
  | resume i x =>
    rw [step] at hs
    rcases ht : c.tasks[i]? with _ | t <;> rw [ht] at hs
    · cases hs
    · obtain ⟨e, he, hs⟩ := Option.bind_eq_some_iff.mp hs
      have hlocks : e.Locks Q t := hC.resume _ _ _ _ he
      cases e with
      | goOn t' =>
        obtain rfl := Option.some.inj hs
        exact h.set (fun hQ => h i t ht (hlocks hQ)) fun _ _ _ hw => hw
      | write s' t' =>
        obtain ⟨hmay, hs⟩ := Option.ite_none_right_eq_some.mp hs
        obtain rfl := Option.some.inj hs
        refine h.set (fun _ => ⟨s', rfl⟩) fun j s hne hw => ?_
        rw [Config.mayWrite, hw] at hmay
        exact absurd (of_decide_eq_true hmay) hne
      | commit t' | rollback t' =>
        obtain rfl := Option.some.inj hs
        exact h.set (fun hQ => absurd hQ hlocks) fun _ _ hne hw => released_of_ne hne hw
      | separate f done busy =>
        rw [h.perform_separate ht hlocks] at hs
        obtain rfl := Option.some.inj hs
        exact h.set (fun _ => h i t ht hlocks) fun _ _ _ hw => hw
  | fail i =>
    rw [step] at hs
    rcases ht : c.tasks[i]? with _ | t <;> rw [ht] at hs
    · cases hs
    · obtain ⟨t', ht', hs⟩ := Option.bind_eq_some_iff.mp hs
      obtain rfl := Option.some.inj hs
      exact h.set (fun hQ => absurd hQ (hC.fail t t' ht')) fun _ _ hne hw => released_of_ne hne hw

end Locked

/-! ## The rule -/

/-- The premises of the rule. `Q` says where a task has the lock, `I` is about what is
committed, `Own t` about the copy of a task that has the lock and about what a task without
it sees, `Fact` about a task, `le` is how the committed store may change, and `R` says which
steps are considered. -/
structure Rule (C : Client σ Task Request Input) (Q : Task → Prop) (I : σ → Prop)
    (Own : Task → σ → Prop) (le : σ → σ → Prop) (Fact : σ → Task → Prop)
    (R : Task → σ → Input → Prop) : Prop extends Locking C Q where
  refl : ∀ s, le s s
  trans : ∀ s s' s'', le s s' → le s' s'' → le s s''
  own_of_inv : ∀ t s, I s → Own t s
  fact_mono : ∀ s s' t, le s s' → Fact s t → Fact s' t
  fact_accept : ∀ s r, I s → Fact s (C.accept s r)
  goOn : ∀ s v t x t', le s v → Own t v → Fact s t → R t v x →
    C.resume t v x = some (.goOn t') → Own t' v ∧ Fact s t'
  write : ∀ s v t x v' t', le s v → Own t v → Fact s t → R t v x →
    C.resume t v x = some (.write v' t') → le v v' ∧ Own t' v' ∧ Fact s t'
  commit : ∀ s v t x t', le s v → Own t v → Fact s t → R t v x →
    C.resume t v x = some (.commit t') → I v ∧ Fact v t'
  rollback : ∀ s v t x t', le s v → Own t v → Fact s t → R t v x →
    C.resume t v x = some (.rollback t') → Fact s t'
  busy : ∀ s v t x f done t', le s v → Own t v → Fact s t → R t v x →
    C.resume t v x = some (.separate f done t') → Own t' v ∧ Fact s t'
  failed : ∀ s t t', Fact s t → C.fail t = some t' → Fact s t'

/-- The steps that the rule covers. -/
def guard (R : Task → σ → Input → Prop) (c : Config σ Task) : Label Request Input → Prop
  | .resume i x => ∀ t ∈ c.tasks[i]?, R t (c.view i) x
  | _ => True

instance {R : Task → σ → Input → Prop} [∀ t s x, Decidable (R t s x)] (c : Config σ Task)
    (l : Label Request Input) : Decidable (guard R c l) := by
  unfold guard
  split <;> infer_instance

/-- Every run is covered if every step is. -/
theorem meets_guard_true {C : Client σ Task Request Input} (c : Config σ Task)
    (labels : List (Label Request Input)) :
    C.machine.Meets (guard fun _ _ _ => True) c labels := by
  refine Machine.meets_of_forall (fun c l => ?_) c labels
  cases l with
  | resume i x => exact fun _ _ => trivial
  | arrive _ | fail _ => trivial

/-- What holds in every state. -/
structure Sound (Q : Task → Prop) (I : σ → Prop) (Own : Task → σ → Prop) (le : σ → σ → Prop)
    (Fact : σ → Task → Prop) (c : Config σ Task) : Prop where
  locked : Locked Q c
  committed : I c.committed
  writing : ∀ i s, c.writer = some (i, s) →
    le c.committed s ∧ ∃ t, c.tasks[i]? = some t ∧ Own t s
  tasks : ∀ t ∈ c.tasks, Fact c.committed t

section Sound

variable {C : Client σ Task Request Input} {Q : Task → Prop} {I : σ → Prop}
  {Own : Task → σ → Prop} {le : σ → σ → Prop} {Fact : σ → Task → Prop}
  {R : Task → σ → Input → Prop} {c c' : Config σ Task} {i : ℕ}

/-- Nobody uses the store. -/
theorem sound_idle {s : σ} (h : I s) : Sound Q I Own le Fact (idle s) :=
  ⟨locked_idle Q s, h, nofun, nofun⟩

/-- What a task sees, whether it has the lock or not. -/
theorem Sound.view (rule : C.Rule Q I Own le Fact R) (h : Sound Q I Own le Fact c) {t : Task}
    (ht : c.tasks[i]? = some t) : le c.committed (c.view i) ∧ Own t (c.view i) := by
  rw [Config.view]
  rcases hw : c.writer with _ | ⟨j, s⟩
  · exact ⟨rule.refl _, rule.own_of_inv t _ h.committed⟩
  · dsimp only
    split
    · rename_i hj
      subst hj
      obtain ⟨hle, t', ht', hown⟩ := h.writing j s hw
      rw [ht] at ht'
      obtain rfl := Option.some.inj ht'
      exact ⟨hle, hown⟩
    · exact ⟨rule.refl _, rule.own_of_inv t _ h.committed⟩

/-- The task that moved, or another one. -/
theorem mem_of_set {tasks : List Task} {t t' : Task} (h : t' ∈ tasks.set i t) :
    t' ∈ tasks ∨ t' = t :=
  List.mem_or_eq_of_mem_set h

/-- Whoever still has the lock after task `i` gave it up is another task. -/
theorem released_eq_some {j : ℕ} {s : σ} (h : c.released i = some (j, s)) :
    j ≠ i ∧ c.writer = some (j, s) := by
  rw [Config.released] at h
  rcases hw : c.writer with _ | ⟨k, s'⟩ <;> rw [hw] at h
  · cases h
  · dsimp only at h
    split at h
    · cases h
    · rename_i hne
      obtain ⟨rfl, rfl⟩ := Prod.mk.inj (Option.some.inj h)
      exact ⟨hne, rfl⟩

/-- With the lock a task sees its own copy. -/
theorem view_of_own {s : σ} (h : c.writer = some (i, s)) : c.view i = s := by
  rw [Config.view, h]
  exact if_pos rfl

/-- Without the lock a task sees what is committed. -/
theorem view_of_writer {j : ℕ} {s : σ} (hne : j ≠ i) (h : c.writer = some (j, s)) :
    c.view i = c.committed := by
  rw [Config.view, h]
  exact if_neg hne

/-- Task `i` moves. -/
theorem Sound.goOn (h : Sound Q I Own le Fact c) {t t' : Task} (ht : c.tasks[i]? = some t)
    (hlocked : Locked Q { c with tasks := c.tasks.set i t' }) (hown : Own t' (c.view i))
    (hfact : Fact c.committed t') : Sound Q I Own le Fact { c with tasks := c.tasks.set i t' } := by
  have hlt : i < c.tasks.length := (List.getElem?_eq_some_iff.mp ht).1
  refine ⟨hlocked, h.committed, fun j s hw => ?_, fun t'' hmem => ?_⟩
  · obtain ⟨hle₁, t₁, ht₁, hown₁⟩ := h.writing j s hw
    refine ⟨hle₁, ?_⟩
    by_cases hij : i = j
    · subst hij
      refine ⟨t', List.getElem?_set_self hlt, ?_⟩
      rwa [view_of_own (c := c) hw] at hown
    · exact ⟨t₁, by rw [List.getElem?_set_ne hij]; exact ht₁, hown₁⟩
  · rcases mem_of_set hmem with hold | rfl
    · exact h.tasks t'' hold
    · exact hfact

/-- Task `i` moves, and gives up the lock if it has it. -/
theorem Sound.release (h : Sound Q I Own le Fact c) {t : Task}
    (hlocked : Locked Q { c with writer := c.released i, tasks := c.tasks.set i t })
    (hfact : Fact c.committed t) :
    Sound Q I Own le Fact { c with writer := c.released i, tasks := c.tasks.set i t } := by
  refine ⟨hlocked, h.committed, fun j s hw => ?_, fun t' hmem => ?_⟩
  · obtain ⟨hne, hw'⟩ := released_eq_some hw
    obtain ⟨hle, t', ht', hown⟩ := h.writing j s hw'
    exact ⟨hle, t', by rw [List.getElem?_set_ne (Ne.symm hne)]; exact ht', hown⟩
  · rcases mem_of_set hmem with hold | rfl
    · exact h.tasks t' hold
    · exact hfact

/-- **One move** of task `i`. -/
theorem Rule.sound_perform (rule : C.Rule Q I Own le Fact R) (h : Sound Q I Own le Fact c) {t : Task}
    {x : Input} {e : Effect σ Task} (ht : c.tasks[i]? = some t) (hR : R t (c.view i) x)
    (he : C.resume t (c.view i) x = some e) (hs : c.perform i e = some c') (hlocked : Locked Q c') :
    Sound Q I Own le Fact c' := by
  obtain ⟨hle, hown⟩ := h.view rule ht
  have hfact : Fact c.committed t := h.tasks t (List.mem_of_getElem? ht)
  have hlt : i < c.tasks.length := (List.getElem?_eq_some_iff.mp ht).1
  cases e with
  | goOn t' =>
    obtain rfl := Option.some.inj hs
    obtain ⟨hown', hfact'⟩ := rule.goOn _ _ _ _ _ hle hown hfact hR he
    exact h.goOn ht hlocked hown' hfact'
  | separate f done busy =>
    -- the task has the lock itself
    rw [h.locked.perform_separate ht (rule.resume _ _ _ _ he)] at hs
    obtain rfl := Option.some.inj hs
    obtain ⟨hown', hfact'⟩ := rule.busy _ _ _ _ _ _ _ hle hown hfact hR he
    exact h.goOn ht hlocked hown' hfact'
  | write s' t' =>
    obtain ⟨-, hs⟩ := Option.ite_none_right_eq_some.mp hs
    obtain rfl := Option.some.inj hs
    obtain ⟨hle', hown', hfact'⟩ := rule.write _ _ _ _ _ _ hle hown hfact hR he
    refine ⟨hlocked, h.committed, fun j s hw => ?_, fun t'' hmem => ?_⟩
    · obtain ⟨rfl, rfl⟩ := Prod.mk.inj (Option.some.inj hw)
      exact ⟨rule.trans _ _ _ hle hle', t', List.getElem?_set_self hlt, hown'⟩
    · rcases mem_of_set hmem with hold | rfl
      · exact h.tasks t'' hold
      · exact hfact'
  | commit t' =>
    obtain rfl := Option.some.inj hs
    obtain ⟨hinv, hfact'⟩ := rule.commit _ _ _ _ _ hle hown hfact hR he
    refine ⟨hlocked, hinv, fun j s hw => ?_, fun t'' hmem => ?_⟩
    · -- somebody else has the lock: nothing was committed
      obtain ⟨hne, hw'⟩ := released_eq_some hw
      obtain ⟨hle₁, t₁, ht₁, hown₁⟩ := h.writing j s hw'
      dsimp only
      rw [view_of_writer hne hw']
      exact ⟨hle₁, t₁, (List.getElem?_set_ne (Ne.symm hne)).trans ht₁, hown₁⟩
    · rcases mem_of_set hmem with hold | rfl
      · exact rule.fact_mono _ _ _ hle (h.tasks t'' hold)
      · exact hfact'
  | rollback t' =>
    obtain rfl := Option.some.inj hs
    exact h.release hlocked (rule.rollback _ _ _ _ _ hle hown hfact hR he)

/-- **One step** that the rule covers. -/
theorem Rule.sound_step (rule : C.Rule Q I Own le Fact R) {l : Label Request Input}
    (h : Sound Q I Own le Fact c) (hok : guard R c l) (hs : C.step c l = some c') :
    Sound Q I Own le Fact c' := by
  have hlocked : Locked Q c' := rule.locked_step h.locked hs
  cases l with
  | arrive r =>
    obtain rfl := Option.some.inj hs
    refine ⟨hlocked, h.committed, fun j s hw => ?_, fun t hmem => ?_⟩
    · obtain ⟨hle, t, ht, hown⟩ := h.writing j s hw
      refine ⟨hle, t, ?_, hown⟩
      rw [List.getElem?_append_left (List.getElem?_eq_some_iff.mp ht).1]
      exact ht
    · rcases List.mem_append.mp hmem with hold | hnew
      · exact h.tasks t hold
      · rw [List.mem_singleton.mp hnew]
        exact rule.fact_accept _ r h.committed
  | resume i x =>
    rw [step] at hs
    rcases ht : c.tasks[i]? with _ | t <;> rw [ht] at hs
    · cases hs
    · obtain ⟨e, he, hs⟩ := Option.bind_eq_some_iff.mp hs
      exact rule.sound_perform h ht (hok t ht) he hs hlocked
  | fail i =>
    rw [step] at hs
    rcases ht : c.tasks[i]? with _ | t <;> rw [ht] at hs
    · cases hs
    · obtain ⟨t', ht', hs⟩ := Option.bind_eq_some_iff.mp hs
      obtain rfl := Option.some.inj hs
      exact h.release hlocked (rule.failed _ t t' (h.tasks t (List.mem_of_getElem? ht)) ht')

/-- **The rule**: along every run of covered steps the configuration stays sound, and
what soundness entails always holds. -/
theorem Rule.always (rule : C.Rule Q I Own le Fact R) {P : Config σ Task → Prop}
    (hP : ∀ c, Sound Q I Own le Fact c → P c) {s : σ} {labels : List (Label Request Input)} (h : I s)
    (hok : C.machine.Meets (guard R) (idle s) labels) : C.machine.Always P (idle s) labels := by
  refine Machine.always_of_inv (I := Sound Q I Own le Fact) ?_ hP (sound_idle h) hok
  intro c l c' hi hg hs
  exact rule.sound_step hi hg hs

/-- **What one covered step does to the committed store.** -/
theorem Rule.le_step (rule : C.Rule Q I Own le Fact R) {l : Label Request Input}
    (h : Sound Q I Own le Fact c) (hs : C.step c l = some c') : le c.committed c'.committed := by
  cases l with
  | arrive r =>
    obtain rfl := Option.some.inj hs
    exact rule.refl _
  | resume i x =>
    rw [step] at hs
    rcases ht : c.tasks[i]? with _ | t <;> rw [ht] at hs
    · cases hs
    · obtain ⟨e, he, hs⟩ := Option.bind_eq_some_iff.mp hs
      cases e with
      | goOn t' | rollback t' =>
        obtain rfl := Option.some.inj hs
        exact rule.refl _
      | write s' t' =>
        obtain ⟨-, hs⟩ := Option.ite_none_right_eq_some.mp hs
        obtain rfl := Option.some.inj hs
        exact rule.refl _
      | commit t' =>
        obtain rfl := Option.some.inj hs
        exact (h.view rule ht).1
      | separate f done busy =>
        rw [h.locked.perform_separate ht (rule.resume _ _ _ _ he)] at hs
        obtain rfl := Option.some.inj hs
        exact rule.refl _
  | fail i =>
    rw [step] at hs
    rcases ht : c.tasks[i]? with _ | t <;> rw [ht] at hs
    · cases hs
    · obtain ⟨t', -, hs⟩ := Option.bind_eq_some_iff.mp hs
      obtain rfl := Option.some.inj hs
      exact rule.refl _

/-- **The rule for two moments of a run**: the store stays sound, and what was committed at
the first is related to what is committed at the second. -/
theorem Rule.le_run (rule : C.Rule Q I Own le Fact R) {labels : List (Label Request Input)}
    (h : Sound Q I Own le Fact c) (hok : C.machine.Meets (guard R) c labels)
    (hr : C.machine.run c labels = some c') :
    Sound Q I Own le Fact c' ∧ le c.committed c'.committed := by
  refine Machine.inv_run (I := fun d => Sound Q I Own le Fact d ∧ le c.committed d.committed) ?_
    ⟨h, rule.refl _⟩ hok hr
  intro d l d' hd hg hs
  exact ⟨rule.sound_step hd.1 hg hs, rule.trans _ _ _ hd.2 (rule.le_step hd.1 hs)⟩

end Sound

/-! ## One task among the others -/

section Others

variable {C : Client σ Task Request Input} {c c' : Config σ Task} {i : ℕ} {t : Task}

/-- Not a move of task `i`. -/
def Label.Others (i : ℕ) : Label Request Input → Prop
  | .arrive _ => True
  | .resume j _ | .fail j => j ≠ i

instance (i : ℕ) (l : Label Request Input) : Decidable (l.Others i) := by
  unfold Label.Others
  split <;> infer_instance

theorem task_of_perform {j : ℕ} {e : Effect σ Task} (hne : j ≠ i) (ht : c.tasks[i]? = some t)
    (hs : c.perform j e = some c') : c'.tasks[i]? = some t := by
  have hset : ∀ t', (c.tasks.set j t')[i]? = some t := fun t' =>
    (List.getElem?_set_ne hne).trans ht
  cases e with
  | goOn t' | commit t' | rollback t' =>
    obtain rfl := Option.some.inj hs
    exact hset t'
  | write s t' =>
    obtain ⟨-, hs⟩ := Option.ite_none_right_eq_some.mp hs
    obtain rfl := Option.some.inj hs
    exact hset t'
  | separate f done busy =>
    rcases hw : c.writer with _ | w <;> simp only [Config.perform, hw] at hs <;>
      obtain rfl := Option.some.inj hs
    · exact hset done
    · exact hset busy

/-- **A task waits where it is** while the others move. -/
theorem task_of_others {labels : List (Label Request Input)} (hothers : ∀ l ∈ labels, l.Others i)
    (ht : c.tasks[i]? = some t) (hr : C.machine.run c labels = some c') : c'.tasks[i]? = some t := by
  induction labels generalizing c with
  | nil =>
    obtain rfl := Option.some.inj hr
    exact ht
  | cons l labels ih =>
    obtain ⟨d, hs, hr⟩ := Machine.run_cons_eq_some hr
    refine ih (fun l' hl' => hothers l' (List.mem_cons_of_mem l hl')) ?_ hr
    have hl : l.Others i := hothers l List.mem_cons_self
    replace hs : C.step c l = some d := hs
    cases l with
    | arrive r =>
      obtain rfl := Option.some.inj hs
      exact (List.getElem?_append_left (List.getElem?_eq_some_iff.mp ht).1).trans ht
    | resume j x =>
      rw [step] at hs
      rcases hj : c.tasks[j]? with _ | t' <;> rw [hj] at hs
      · cases hs
      · obtain ⟨e, -, hs⟩ := Option.bind_eq_some_iff.mp hs
        exact task_of_perform hl ht hs
    | fail j =>
      rw [step] at hs
      rcases hj : c.tasks[j]? with _ | t' <;> rw [hj] at hs
      · cases hs
      · obtain ⟨t'', -, hs⟩ := Option.bind_eq_some_iff.mp hs
        exact task_of_perform hl ht hs

/-- A run up to the next move of task `i`. -/
theorem run_others {others rest : List (Label Request Input)} {x : Input}
    (hothers : ∀ l ∈ others, l.Others i) (ht : c.tasks[i]? = some t)
    (hr : C.machine.run c (others ++ .resume i x :: rest) = some c') :
    ∃ d d', C.machine.run c others = some d ∧ d.tasks[i]? = some t ∧
      C.step d (.resume i x) = some d' ∧ C.machine.run d' rest = some c' := by
  rw [Machine.run_append] at hr
  obtain ⟨d, hd, hr⟩ := Option.bind_eq_some_iff.mp hr
  obtain ⟨d', hs, hr⟩ := Machine.run_cons_eq_some hr
  exact ⟨d, d', hd, task_of_others hothers ht hd, hs, hr⟩

/-- The step of a task that goes on without a statement that writes. -/
theorem task_of_goOn {x : Input} {t' : Task} (ht : c.tasks[i]? = some t)
    (hgo : C.resume t (c.view i) x = some (.goOn t')) (hs : C.step c (.resume i x) = some c') :
    c'.tasks[i]? = some t' := by
  rw [step, ht] at hs
  obtain ⟨e, he, hs⟩ := Option.bind_eq_some_iff.mp hs
  obtain rfl := Option.some.inj (he.symm.trans hgo)
  obtain rfl := Option.some.inj hs
  exact List.getElem?_set_self (List.getElem?_eq_some_iff.mp ht).1

/-- The step of a task that writes. -/
theorem task_of_write {x : Input} {s : σ} {t' : Task} (ht : c.tasks[i]? = some t)
    (hwrite : C.resume t (c.view i) x = some (.write s t'))
    (hs : C.step c (.resume i x) = some c') : c'.tasks[i]? = some t' := by
  rw [step, ht] at hs
  obtain ⟨e, he, hs⟩ := Option.bind_eq_some_iff.mp hs
  obtain rfl := Option.some.inj (he.symm.trans hwrite)
  obtain ⟨-, hs⟩ := Option.ite_none_right_eq_some.mp hs
  obtain rfl := Option.some.inj hs
  exact List.getElem?_set_self (List.getElem?_eq_some_iff.mp ht).1

end Others

/-! ## Where the writer is -/

section WriterMeets

variable {C : Client σ Task Request Input} {Q : Task → Prop} {c c' : Config σ Task}

/-- The task with the lock has come past the points where `Q` fails. -/
def WriterMeets (Q : Task → Prop) (c : Config σ Task) : Prop :=
  ∀ i s, c.writer = some (i, s) → ∃ t, c.tasks[i]? = some t ∧ Q t

/-- Tasks that do not meet `Q` see what is committed. -/
theorem WriterMeets.view_eq {i : ℕ} {t : Task} (h : WriterMeets Q c) (ht : c.tasks[i]? = some t)
    (hQ : ¬ Q t) : c.view i = c.committed := by
  rw [Config.view]
  rcases hw : c.writer with _ | ⟨j, s⟩
  · rfl
  · refine if_neg fun hji => ?_
    obtain ⟨t', ht', hQ'⟩ := h j s hw
    rw [hji, ht] at ht'
    exact hQ (Option.some.inj ht' ▸ hQ')

/-- Another task has the lock, and the tasks were moved like this. -/
theorem WriterMeets.of_released {i : ℕ} {t : Task} {s : σ} (h : WriterMeets Q c) :
    WriterMeets Q ⟨s, c.released i, c.tasks.set i t⟩ := by
  intro j s' hw
  obtain ⟨hne, hw'⟩ := released_eq_some hw
  obtain ⟨t', ht', hQ⟩ := h j s' hw'
  exact ⟨t', (List.getElem?_set_ne (Ne.symm hne)).trans ht', hQ⟩

/-- Task `i` moves to where `Q` holds. -/
theorem WriterMeets.goOn {i : ℕ} {t t' : Task} (h : WriterMeets Q c) (ht : c.tasks[i]? = some t)
    (hQ : Q t') : WriterMeets Q { c with tasks := c.tasks.set i t' } := by
  intro j s hw
  obtain ⟨t₁, ht₁, hQ₁⟩ := h j s hw
  by_cases hij : i = j
  · subst hij
    exact ⟨t', List.getElem?_set_self (List.getElem?_eq_some_iff.mp ht).1, hQ⟩
  · exact ⟨t₁, (List.getElem?_set_ne hij).trans ht₁, hQ₁⟩

/-- **Nobody comes back to where `Q` fails**: one step. -/
theorem writerMeets_step
    (hQ : ∀ t v x e, C.resume t v x = some e → ∀ t' ∈ e.tasks, Q t')
    {l : Label Request Input} (h : WriterMeets Q c) (hs : C.step c l = some c') :
    WriterMeets Q c' := by
  cases l with
  | arrive r =>
    obtain rfl := Option.some.inj hs
    intro j s hw
    obtain ⟨t, ht, hQt⟩ := h j s hw
    exact ⟨t, (List.getElem?_append_left (List.getElem?_eq_some_iff.mp ht).1).trans ht, hQt⟩
  | resume i x =>
    rw [step] at hs
    rcases ht : c.tasks[i]? with _ | t <;> rw [ht] at hs
    · cases hs
    · obtain ⟨e, he, hs⟩ := Option.bind_eq_some_iff.mp hs
      have hlt : i < c.tasks.length := (List.getElem?_eq_some_iff.mp ht).1
      cases e with
      | goOn t' =>
        obtain rfl := Option.some.inj hs
        exact h.goOn ht (hQ _ _ _ _ he t' List.mem_cons_self)
      | write s' t' =>
        obtain ⟨-, hs⟩ := Option.ite_none_right_eq_some.mp hs
        obtain rfl := Option.some.inj hs
        intro j s hw
        obtain ⟨rfl, rfl⟩ := Prod.mk.inj (Option.some.inj hw)
        exact ⟨t', List.getElem?_set_self hlt, hQ _ _ _ _ he t' List.mem_cons_self⟩
      | commit t' | rollback t' =>
        obtain rfl := Option.some.inj hs
        exact h.of_released
      | separate f done busy =>
        rcases hw : c.writer with _ | w <;> simp only [Config.perform, hw] at hs <;>
          obtain rfl := Option.some.inj hs
        · intro j s hw'
          cases hw'
        · have hbusy := h.goOn ht (hQ _ _ _ _ he busy (List.mem_cons_of_mem _ List.mem_cons_self))
          rwa [hw] at hbusy
  | fail i =>
    rw [step] at hs
    rcases ht : c.tasks[i]? with _ | t <;> rw [ht] at hs
    · cases hs
    · obtain ⟨t', -, hs⟩ := Option.bind_eq_some_iff.mp hs
      obtain rfl := Option.some.inj hs
      exact h.of_released

/-- The same for every run that begins when nobody writes. -/
theorem writerMeets_run
    (hQ : ∀ t v x e, C.resume t v x = some e → ∀ t' ∈ e.tasks, Q t') {s : σ}
    {labels : List (Label Request Input)} (hr : C.machine.run (idle s) labels = some c) :
    WriterMeets Q c := by
  have hidle : WriterMeets Q (idle s : Config σ Task) := by
    intro i s' hw
    cases hw
  refine Machine.inv_run_of_step (I := WriterMeets Q) (M := C.machine) ?_ hidle hr
  intro c₁ l c₂ h hs
  exact writerMeets_step (C := C) hQ h hs

end WriterMeets

end Client

end Interleaving
