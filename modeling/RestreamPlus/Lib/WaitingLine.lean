import RestreamPlus.Lib.Monitor

/-!
# What is ahead of a waiting task

The lock of a `Monitor` is fair, so what is ahead of a task that waits for it
only gets less. Suppose some operations, once let in, stay within certain
sections. If the owner is in such a section and only such operations are ahead
of the task in the queue (`Ahead`), then this remains so until the task is let
in (`ahead_of_step`).
-/

namespace Interleaving

namespace Monitor

universe u

variable {σ Op Sec Out Env : Type u} {M : Monitor σ Op Sec Out Env}

/-- The queue holds exactly the tasks that wait, each once. -/
structure Lined (c : Config σ Op Sec) : Prop where
  nodup : c.queue.Nodup
  waits : ∀ t, t ∈ c.queue ↔ ∃ op, c.tasks[t]? = some (.queued op)

/-- Operations in `ops` stay within the sections in `secs`. -/
structure Within (M : Monitor σ Op Sec Out Env) (ops : Op → Prop) (secs : Sec → Prop) : Prop where
  enter : ∀ s op sec, ops op → (M.enter s op).2 = some sec → secs sec
  resume : ∀ s sec out r sec', secs sec → M.resume s sec out = some r → r.2 = some sec' → secs sec'

/-- The owner of the lock, and what is in front of task `t` in the queue. -/
structure Ahead (ops : Op → Prop) (secs : Sec → Prop) (c : Config σ Op Sec) (t : ℕ) : Prop where
  owner : ∀ (j : ℕ) sec, c.tasks[j]? = some (.inside sec) → secs sec
  front : ∀ front back, c.queue = front ++ t :: back → ∀ u ∈ front,
    ∃ op, c.tasks[u]? = some (.queued op) ∧ ops op

theorem lined_idle (s : σ) : Lined (idle s : Config σ Op Sec) where
  nodup := List.nodup_nil
  waits t := ⟨nofun, fun ⟨_, h⟩ => by cases h⟩

section Steps

variable {ops : Op → Prop} {secs : Sec → Prop} {c c' : Config σ Op Sec} {i t : ℕ}

/-- The tasks after a task that is not waiting has moved on. -/
theorem queued_set {p : Phase Op Sec} (hi : ∀ op, c.tasks[i]? ≠ some (.queued op))
    (hp : ∀ op, p ≠ .queued op) (t : ℕ) (op : Op) :
    (c.tasks.set i p)[t]? = some (.queued op) ↔ c.tasks[t]? = some (.queued op) := by
  by_cases hti : i = t
  · subst hti
    rw [List.getElem?_set, if_pos rfl]
    constructor
    · intro h
      split at h
      · exact absurd (Option.some.inj h) (hp op)
      · cases h
    · exact fun h => absurd h (hi op)
  · rw [List.getElem?_set_ne hti]

theorem Lined.set (h : Lined c) {p : Phase Op Sec} (hi : ∀ op, c.tasks[i]? ≠ some (.queued op))
    (hp : ∀ op, p ≠ .queued op) {s : σ} {o : Option ℕ} :
    Lined ⟨s, o, c.queue, c.tasks.set i p⟩ where
  nodup := h.nodup
  waits t := by
    simp only [queued_set hi hp]
    exact h.waits t

/-- A task is let in from the front of the queue. -/
theorem Lined.pop (h : Lined c) {rest : List ℕ} (hq : c.queue = i :: rest)
    (hi : i < c.tasks.length) {p : Phase Op Sec} (hp : ∀ op, p ≠ .queued op) {s : σ}
    {o : Option ℕ} : Lined ⟨s, o, rest, c.tasks.set i p⟩ := by
  have hnd := h.nodup
  rw [hq, List.nodup_cons] at hnd
  refine ⟨hnd.2, fun t => ?_⟩
  by_cases hti : t = i
  · subst hti
    refine ⟨fun ht => absurd ht hnd.1, ?_⟩
    rintro ⟨op, hop⟩
    rw [List.getElem?_set_self hi] at hop
    exact absurd (Option.some.inj hop) (hp op)
  · have hmem : t ∈ rest ↔ t ∈ c.queue := by
      rw [hq, List.mem_cons]
      exact ⟨.inr, fun h => h.resolve_left hti⟩
    rw [hmem, h.waits t]
    dsimp only
    rw [List.getElem?_set_ne (Ne.symm hti)]

/-- What a task turns into when it is let in. -/
theorem begin_eq (M : Monitor σ Op Sec Out Env) (c : Config σ Op Sec) (i : ℕ) (op : Op) :
    ∃ s o p, M.begin c i op = ⟨s, o, c.queue, c.tasks.set i p⟩ ∧ (∀ op', p ≠ .queued op') ∧
      ∀ sec, p = .inside sec → (M.enter c.shared op).2 = some sec := by
  rw [begin]
  rcases M.enter c.shared op with ⟨s, _ | sec⟩
  · exact ⟨s, none, .finished, rfl, by rintro _ ⟨⟩, by rintro _ ⟨⟩⟩
  · refine ⟨s, some i, .inside sec, rfl, by rintro _ ⟨⟩, fun sec' h => ?_⟩
    injection h with h
    rw [h]

theorem advance_eq (c : Config σ Op Sec) (i : ℕ) (r : σ × Option Sec) :
    ∃ s o p, advance c i r = ⟨s, o, c.queue, c.tasks.set i p⟩ ∧ (∀ op, p ≠ .queued op) ∧
      ∀ sec, p = .inside sec → r.2 = some sec := by
  rcases r with ⟨s, _ | sec⟩
  · exact ⟨s, none, .finished, rfl, by rintro _ ⟨⟩, by rintro _ ⟨⟩⟩
  · refine ⟨s, c.owner, .inside sec, rfl, by rintro _ ⟨⟩, fun sec' h => ?_⟩
    injection h with h
    rw [h]

/-- **Every step** keeps the queue in line with the tasks. -/
theorem lined_step {a : Label Op Out Env} (h : Lined c) (hs : M.step c a = some c') : Lined c' := by
  cases a with
  | call op =>
    obtain rfl := Option.some.inj hs
    refine ⟨h.nodup, fun t => ?_⟩
    rw [h.waits t]
    refine exists_congr fun op' => ?_
    rcases Nat.lt_or_ge t c.tasks.length with hlt | hge
    · rw [List.getElem?_append_left hlt]
    · rw [List.getElem?_append_right hge, List.getElem?_eq_none hge]
      rcases t - c.tasks.length with _ | n <;> simp
  | start i =>
    obtain ⟨op, ht, rfl⟩ := step_start hs
    have hi : ∀ op', c.tasks[i]? ≠ some (.queued op') := by
      intro op' hq
      rw [ht] at hq
      cases hq
    have hlt : i < c.tasks.length := (List.getElem?_eq_some_iff.mp ht).1
    rw [start]
    split
    · split
      · obtain ⟨s, o, p, heq, hp, -⟩ := begin_eq M c i op
        rw [heq]
        exact h.set hi hp
      · -- it lines up
        refine ⟨?_, fun t => ?_⟩
        · refine List.nodup_append.mpr ⟨h.nodup, by simp, fun t ht' u hu => ?_⟩
          rw [List.mem_singleton] at hu
          rintro rfl
          obtain ⟨op', hop⟩ := (h.waits t).mp ht'
          exact hi op' (hu ▸ hop)
        · dsimp only
          rw [List.mem_append, List.mem_singleton, h.waits t]
          by_cases hti : t = i
          · subst hti
            exact ⟨fun _ => ⟨op, List.getElem?_set_self hlt⟩, fun _ => .inr rfl⟩
          · rw [List.getElem?_set_ne (Ne.symm hti)]
            exact ⟨fun h => h.resolve_right hti, .inl⟩
    · exact h.set (p := .finished) hi fun _ h => by cases h
  | grant =>
    obtain ⟨i, rest, op, -, hq, ht, rfl⟩ := step_grant hs
    obtain ⟨s, o, p, heq, hp, -⟩ := begin_eq M { c with queue := rest } i op
    rw [heq]
    exact h.pop hq (List.getElem?_eq_some_iff.mp ht).1 hp
  | resume i out =>
    obtain ⟨sec, r, ht, -, rfl⟩ := step_resume hs
    obtain ⟨s, o, p, heq, hp, -⟩ := advance_eq c i r
    rw [heq]
    refine h.set (fun op hq => ?_) hp
    rw [ht] at hq
    cases hq
  | external e =>
    obtain ⟨s, -, rfl⟩ := step_external hs
    exact ⟨h.nodup, h.waits⟩

/-- A task that is not waiting moved on, and what is inside stays within bounds. -/
theorem Ahead.set (h : Ahead ops secs c t) {p : Phase Op Sec}
    (hi : ∀ op, c.tasks[i]? ≠ some (.queued op)) (hp : ∀ op, p ≠ .queued op)
    (hin : ∀ sec, p = .inside sec → secs sec) {s : σ} {o : Option ℕ} :
    Ahead ops secs ⟨s, o, c.queue, c.tasks.set i p⟩ t where
  owner j sec hj := by
    by_cases hij : i = j
    · subst hij
      rw [List.getElem?_set, if_pos rfl] at hj
      split at hj
      · exact hin sec (Option.some.inj hj)
      · cases hj
    · rw [List.getElem?_set_ne hij] at hj
      exact h.owner j sec hj
  front front back hq u hu := by
    obtain ⟨op, hop, hops⟩ := h.front front back hq u hu
    exact ⟨op, (queued_set hi hp u op).mpr hop, hops⟩

/-- **What is ahead only gets less**, as long as the task waits. -/
theorem ahead_of_step (w : M.Within ops secs) {a : Label Op Out Env} (hl : Lined c)
    (h : Ahead ops secs c t) (hs : M.step c a = some c') {op : Op}
    (ht : c.tasks[t]? = some (.queued op)) (ht' : c'.tasks[t]? = some (.queued op)) :
    Ahead ops secs c' t := by
  have hmem : t ∈ c.queue := (hl.waits t).mpr ⟨op, ht⟩
  cases a with
  | call op' =>
    obtain rfl := Option.some.inj hs
    refine ⟨fun j sec hj => h.owner j sec (get?_of_append_called hj fun h => by cases h),
      fun front back hq u hu => ?_⟩
    obtain ⟨op₁, hop, hops⟩ := h.front front back hq u hu
    refine ⟨op₁, ?_, hops⟩
    exact List.getElem?_append_left (List.getElem?_eq_some_iff.mp hop).1 ▸ hop
  | start i =>
    obtain ⟨op', hc, rfl⟩ := step_start hs
    have hi : ∀ op₁, c.tasks[i]? ≠ some (.queued op₁) := by
      intro op₁ hq
      rw [hc] at hq
      cases hq
    have hti : t ≠ i := by
      rintro rfl
      exact hi op ht
    rw [start]
    split
    · split
      · -- nobody is let in past the queue
        rename_i hfree
        rw [hfree.2] at hmem
        cases hmem
      · refine ⟨fun j sec hj => h.owner j sec (inside_of_set (fun _ h => by cases h) hj).2,
          fun front back hq u hu => ?_⟩
        rcases List.eq_nil_or_concat back with rfl | ⟨back, x, rfl⟩
        · exact absurd (List.append_inj_right' hq rfl) (by simpa using hti.symm)
        · have hq' : c.queue = front ++ t :: back := by
            rw [List.concat_eq_append, ← List.cons_append, ← List.append_assoc] at hq
            exact List.append_inj_left' hq rfl
          obtain ⟨op₁, hop, hops⟩ := h.front front back hq' u hu
          refine ⟨op₁, ?_, hops⟩
          rw [List.getElem?_set_ne]
          · exact hop
          · rintro rfl
            exact hi op₁ hop
    · exact h.set (p := .finished) hi (fun _ h => by cases h) fun _ h => by cases h
  | grant =>
    obtain ⟨i, rest, op', -, hq, hi, rfl⟩ := step_grant hs
    obtain ⟨s, o, p, heq, hp, hin⟩ := begin_eq M { c with queue := rest } i op'
    rw [heq] at ht' ⊢
    have hlt : i < c.tasks.length := (List.getElem?_eq_some_iff.mp hi).1
    have hti : t ≠ i := by
      rintro rfl
      rw [List.getElem?_set_self hlt] at ht'
      exact hp op (Option.some.inj ht')
    have hnd := hl.nodup
    rw [hq, List.nodup_cons] at hnd
    rw [hq, List.mem_cons] at hmem
    obtain ⟨front₀, back₀, hrest⟩ := List.append_of_mem (hmem.resolve_left hti)
    refine ⟨fun j sec hj => ?_, fun front back hq' u hu => ?_⟩
    · by_cases hij : j = i
      · -- what was first in the queue is within bounds
        subst hij
        rw [List.getElem?_set_self hlt] at hj
        obtain ⟨op₁, hop, hops⟩ := h.front (j :: front₀) back₀ (by rw [hq, hrest]; rfl) j
          List.mem_cons_self
        rw [hi] at hop
        injection Option.some.inj hop with hop
        exact w.enter _ _ _ hops (hop ▸ hin sec (Option.some.inj hj))
      · rw [List.getElem?_set_ne (Ne.symm hij)] at hj
        exact h.owner j sec hj
    · obtain ⟨op₁, hop, hops⟩ := h.front (i :: front) back (by rw [hq]; exact congrArg _ hq') u
        (List.mem_cons_of_mem i hu)
      refine ⟨op₁, ?_, hops⟩
      rw [List.getElem?_set_ne]
      · exact hop
      · rintro rfl
        have hu' : i ∈ rest := (show rest = front ++ t :: back from hq') ▸ List.mem_append_left _ hu
        exact hnd.1 hu'
  | resume i out =>
    obtain ⟨sec, r, hi, hr, rfl⟩ := step_resume hs
    obtain ⟨s, o, p, heq, hp, hin⟩ := advance_eq c i r
    rw [heq]
    refine h.set (fun op₁ hq => ?_) hp fun sec' hsec => w.resume _ _ _ _ _ (h.owner i sec hi) hr
      (hin sec' hsec)
    rw [hi] at hq
    cases hq
  | external e =>
    obtain ⟨s, -, rfl⟩ := step_external hs
    exact ⟨h.owner, h.front⟩

/-- A task that lines up behind such an owner and such tasks. -/
theorem ahead_enqueue (hl : Lined c) (howner : ∀ (j : ℕ) sec, c.tasks[j]? = some (.inside sec) → secs sec)
    (hqueue : ∀ (j : ℕ) op, c.tasks[j]? = some (.queued op) → ops op) {op : Op}
    (hi : c.tasks[i]? = some (.called op)) :
    Ahead ops secs { c with queue := c.queue ++ [i], tasks := c.tasks.set i (.queued op) } i := by
  have hfresh : i ∉ c.queue := by
    intro hmem
    obtain ⟨op', hop⟩ := (hl.waits i).mp hmem
    rw [hi] at hop
    cases hop
  refine ⟨fun j sec hj => howner j sec (inside_of_set (fun _ h => by cases h) hj).2,
    fun front back hq u hu => ?_⟩
  have hu' : u ∈ c.queue := by
    rcases List.eq_nil_or_concat back with rfl | ⟨back, x, rfl⟩
    · have hq' : c.queue = front := List.append_inj_left' hq rfl
      exact hq' ▸ hu
    · rw [List.concat_eq_append, ← List.cons_append, ← List.append_assoc] at hq
      have hq' : c.queue = front ++ i :: back := List.append_inj_left' hq rfl
      exact absurd (hq' ▸ List.mem_append_right _ List.mem_cons_self) hfresh
  obtain ⟨op', hop⟩ := (hl.waits u).mp hu'
  refine ⟨op', ?_, hqueue u op' hop⟩
  rw [List.getElem?_set_ne]
  · exact hop
  · rintro rfl
    exact hfresh hu'

/-- No step makes a task wait that had begun, and none makes one disappear. -/
theorem queued_of_step {a : Label Op Out Env} (hs : M.step c a = some c') {p : Phase Op Sec}
    (hp : c.tasks[t]? = some p) (hcalled : ∀ op, p ≠ .called op) :
    ∃ p', c'.tasks[t]? = some p' ∧ (∀ op, p' ≠ .called op) ∧ ∀ op, p' = .queued op → p = .queued op := by
  have hlt : t < c.tasks.length := (List.getElem?_eq_some_iff.mp hp).1
  -- what follows for a single task that moves on
  have hset : ∀ {i : ℕ} {q : Phase Op Sec}, (∀ op, q ≠ .called op) →
      (∀ op, q = .queued op → i = t → p = .queued op) →
      ∃ p', (c.tasks.set i q)[t]? = some p' ∧ (∀ op, p' ≠ .called op) ∧
        ∀ op, p' = .queued op → p = .queued op := by
    intro i q hq hqueued
    by_cases hit : i = t
    · subst hit
      exact ⟨q, List.getElem?_set_self hlt, hq, fun op h => hqueued op h rfl⟩
    · exact ⟨p, by rw [List.getElem?_set_ne hit]; exact hp, hcalled, fun op h => h⟩
  cases a with
  | call op =>
    obtain rfl := Option.some.inj hs
    exact ⟨p, by rw [List.getElem?_append_left hlt]; exact hp, hcalled, fun op h => h⟩
  | start i =>
    obtain ⟨op, hi, rfl⟩ := step_start hs
    rw [start]
    split
    · split
      · obtain ⟨q, hq, hne⟩ := tasks_begin (M := M) c i op
        rw [hq]
        exact hset (fun op' => (hne op').1) fun op' h => absurd h (hne op').2
      · refine hset (fun _ h => by cases h) fun op' _ hit => ?_
        subst hit
        exact absurd (Option.some.inj (hp.symm.trans hi)) (hcalled op)
    · exact hset (fun _ h => by cases h) fun _ h => by cases h
  | grant =>
    obtain ⟨i, rest, op, -, -, -, rfl⟩ := step_grant hs
    obtain ⟨q, hq, hne⟩ := tasks_begin (M := M) { c with queue := rest } i op
    rw [hq]
    exact hset (fun op' => (hne op').1) fun op' h => absurd h (hne op').2
  | resume i out =>
    obtain ⟨sec, ⟨s, _ | sec'⟩, -, -, rfl⟩ := step_resume hs
    · exact hset (fun _ h => by cases h) fun _ h => by cases h
    · exact hset (fun _ h => by cases h) fun _ h => by cases h
  | external e =>
    obtain ⟨s, -, rfl⟩ := step_external hs
    exact ⟨p, hp, hcalled, fun op h => h⟩

end Steps

end Monitor

end Interleaving
