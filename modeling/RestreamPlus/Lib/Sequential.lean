import RestreamPlus.Lib.Monitor

/-!
# Operations of a monitor run alone

What an operation does when it finds the lock free, nothing else runs before it
returns, and every awaited call comes back with the same outcome `out`. `finish`
counts the awaits it may use; `Completes` forgets the count. The two lemmas
about `Completes`, one for a return and one for a suspension, let a whole
operation be evaluated symbolically.

`run_of_alone` embeds such an execution into the runs of the monitor, and
`Rule.completes` hands the assertions of the monitor rule down to it.
-/

namespace Interleaving

universe u

namespace Monitor

variable {σ Op Sec Out Env : Type u} (M : Monitor σ Op Sec Out Env) (out : Out)

/-- From a suspension to the return, over at most `n` awaits. -/
def finish : ℕ → σ × Option Sec → Option σ
  | _, (s, none) => some s
  | 0, (_, some _) => none
  | n + 1, (s, some sec) => (M.resume s sec out).bind (finish n)

/-- An operation from its call to its return. -/
def alone (n : ℕ) (s : σ) (op : Op) : Option σ :=
  if M.precheck s op = true then M.finish out n (M.enter s op) else some s

/-- The operation returns and leaves `t`. -/
def Completes (p : σ × Option Sec) (t : σ) : Prop := ∃ n, M.finish out n p = some t

variable {M out}

@[simp] theorem completes_return {s t : σ} :
    M.Completes out ((s, none) : σ × Option Sec) t ↔ t = s := by
  constructor
  · rintro ⟨n, hn⟩
    rw [finish] at hn
    exact (Option.some.inj hn).symm
  · rintro rfl
    exact ⟨0, by rw [finish]⟩

theorem completes_suspend {s t : σ} {sec : Sec} {r : σ × Option Sec}
    (h : M.resume s sec out = some r) :
    M.Completes out (s, some sec) t ↔ M.Completes out r t := by
  constructor
  · rintro ⟨_ | n, hn⟩
    · rw [finish] at hn
      cases hn
    · rw [finish, h, Option.bind_some] at hn
      exact ⟨n, hn⟩
  · rintro ⟨n, hn⟩
    exact ⟨n + 1, by rw [finish, h, Option.bind_some]; exact hn⟩

/-- More awaits than needed do no harm. -/
theorem finish_mono {n m : ℕ} {p : σ × Option Sec} {t : σ} (hle : n ≤ m)
    (h : M.finish out n p = some t) : M.finish out m p = some t := by
  induction n generalizing m p with
  | zero =>
    obtain ⟨s, _ | sec⟩ := p
    · rw [finish] at h ⊢
      exact h
    · rw [finish] at h
      cases h
  | succ n ih =>
    obtain ⟨s, _ | sec⟩ := p
    · rw [finish] at h ⊢
      exact h
    · obtain ⟨m, rfl⟩ := Nat.exists_eq_add_of_le' (Nat.lt_of_lt_of_le n.succ_pos hle)
      rw [finish] at h ⊢
      obtain ⟨r, hr, hfin⟩ := Option.bind_eq_some_iff.mp h
      rw [hr, Option.bind_some]
      exact ih (Nat.le_of_succ_le_succ hle) hfin

/-- What an operation leaves does not depend on the bound. -/
theorem Completes.unique {p : σ × Option Sec} {t t' : σ} (h : M.Completes out p t)
    (h' : M.Completes out p t') : t = t' := by
  obtain ⟨n, hn⟩ := h
  obtain ⟨m, hm⟩ := h'
  have hn' := finish_mono (Nat.le_max_left n m) hn
  rw [finish_mono (Nat.le_max_right n m) hm] at hn'
  exact (Option.some.inj hn').symm

/-- A monitor rule whose `R` allows every outcome `out` holds at the return. -/
theorem Rule.completes {free : σ → Prop} {held : σ → Sec → Prop} {A : σ → Op → Prop}
    {R : σ → Sec → Out → Prop} (rule : M.Rule free held A R) (hR : ∀ s sec, R s sec out)
    {p : σ × Option Sec} {t : σ} (hset : Settled free held p) (h : M.Completes out p t) :
    free t := by
  obtain ⟨n, hn⟩ := h
  induction n generalizing p with
  | zero =>
    obtain ⟨s, _ | sec⟩ := p
    · rw [finish] at hn
      exact Option.some.inj hn ▸ hset
    · rw [finish] at hn
      cases hn
  | succ n ih =>
    obtain ⟨s, _ | sec⟩ := p
    · rw [finish] at hn
      exact Option.some.inj hn ▸ hset
    · rw [finish] at hn
      obtain ⟨r, hr, hfin⟩ := Option.bind_eq_some_iff.mp hn
      exact ih (rule.resume s sec out r hset (hR s sec) hr) hfin

/-! ## With an outcome for each await -/

section Outcomes

variable (M) (ok : Sec → Out → Bool)

/-- From a suspension to the return, the awaited calls doing what the list says; only outcomes
that `ok` allows are considered. -/
def finishWith : List Out → σ × Option Sec → Option σ
  | [], (s, none) => some s
  | out :: outs, (s, some sec) =>
    if ok sec out = true then (M.resume s sec out).bind (finishWith outs) else none
  | [], (_, some _) => none
  | _ :: _, (_, none) => none

/-- An operation from its call to its return. -/
def aloneWith (outs : List Out) (s : σ) (op : Op) : Option σ :=
  if M.precheck s op = true then M.finishWith ok outs (M.enter s op)
  else if outs = [] then some s else none

variable {M ok}

/-- **Induction over an operation**: what every stretch keeps holds at the return. -/
theorem finishWith_induction {P : σ × Option Sec → Prop}
    (hstep : ∀ s sec out r, P (s, some sec) → ok sec out = true → M.resume s sec out = some r →
      P r)
    {outs : List Out} {p : σ × Option Sec} {t : σ} (hp : P p)
    (h : M.finishWith ok outs p = some t) : P (t, none) := by
  induction outs generalizing p with
  | nil =>
    obtain ⟨s, _ | sec⟩ := p
    · rw [finishWith] at h
      exact Option.some.inj h ▸ hp
    · cases h
  | cons out outs ih =>
    obtain ⟨s, _ | sec⟩ := p
    · cases h
    · rw [finishWith] at h
      split at h
      · rename_i hok
        obtain ⟨r, hr, hfin⟩ := Option.bind_eq_some_iff.mp h
        exact ih (hstep s sec out r hp hok hr) hfin
      · cases h

/-- An operation was let in and returned, or it was not let in. -/
theorem aloneWith_eq_some {outs : List Out} {s t : σ} {op : Op}
    (h : M.aloneWith ok outs s op = some t) :
    M.precheck s op = true ∧ M.finishWith ok outs (M.enter s op) = some t ∨
      M.precheck s op ≠ true ∧ t = s := by
  rw [aloneWith] at h
  split at h
  · rename_i hpre
    exact .inl ⟨hpre, h⟩
  · rename_i hpre
    split at h
    · exact .inr ⟨hpre, (Option.some.inj h).symm⟩
    · cases h

end Outcomes

/-! ## Inside the monitor -/

/-- The owner runs to its return if it is resumed often enough. -/
theorem run_finish {n i : ℕ} {s t : σ} {sec : Sec} {tasks : List (Phase Op Sec)} {q : List ℕ}
    (h : M.finish out n (s, some sec) = some t) (hi : tasks[i]? = some (.inside sec)) :
    ∃ k, M.machine.run ⟨s, some i, q, tasks⟩ (List.replicate k (.resume i out)) =
      some ⟨t, none, q, tasks.set i .finished⟩ := by
  induction n generalizing s sec tasks with
  | zero =>
    rw [finish] at h
    cases h
  | succ n ih =>
    rw [finish] at h
    obtain ⟨⟨s', next⟩, hr, hfin⟩ := Option.bind_eq_some_iff.mp h
    have hlt : i < tasks.length := (List.getElem?_eq_some_iff.mp hi).1
    have hstep : M.machine.step ⟨s, some i, q, tasks⟩ (.resume i out) =
        some (advance ⟨s, some i, q, tasks⟩ i (s', next)) := by
      simp only [machine, step, hi, hr, Option.map_some]
    rcases next with _ | sec'
    · obtain rfl : s' = t := by
        rw [finish] at hfin
        exact Option.some.inj hfin
      exact ⟨1, Machine.run_cons_of_step [] hstep⟩
    · obtain ⟨k, hk⟩ := ih hfin (List.getElem?_set_self (a := .inside sec') hlt)
      refine ⟨k + 1, (Machine.run_cons_of_step _ hstep).trans ?_⟩
      rw [List.set_set] at hk
      exact hk

/-- The labels of an operation that finds the lock free, its awaited calls doing `out`. -/
def Alone (out : Out) : Label Op Out Env → Prop
  | .call _ | .start _ => True
  | .resume _ out' => out' = out
  | .grant | .external _ => False

/-- **An operation run alone is a run of the monitor** from a free lock to a
free lock. -/
theorem run_of_alone {n : ℕ} {s t : σ} {op : Op} {tasks : List (Phase Op Sec)}
    (h : M.alone out n s op = some t) :
    ∃ labels, (∀ l ∈ labels, Alone out l) ∧ M.machine.run ⟨s, none, [], tasks⟩ labels =
      some ⟨t, none, [], tasks ++ [.finished]⟩ := by
  have hlast : (tasks ++ [Phase.called op])[tasks.length]? = some (.called op) :=
    List.getElem?_concat_length
  have hset : ∀ p : Phase Op Sec,
      (tasks ++ [Phase.called op]).set tasks.length p = tasks ++ [p] := by
    intro p
    rw [List.set_append_right _ _ (Nat.le_refl _), Nat.sub_self]
    rfl
  have hcall : ∀ labels, M.machine.run ⟨s, none, [], tasks⟩
      (.call op :: .start tasks.length :: labels) =
        M.machine.run (M.start ⟨s, none, [], tasks ++ [.called op]⟩ tasks.length op) labels := by
    intro labels
    refine (Machine.run_cons_of_step _ rfl).trans (Machine.run_cons_of_step _ ?_)
    simp only [machine, step, hlast]
  rw [alone] at h
  by_cases hpre : M.precheck s op = true
  · rw [if_pos hpre] at h
    rcases he : M.enter s op with ⟨s', _ | sec⟩ <;> rw [he] at h
    · obtain rfl : s' = t := by
        rw [finish] at h
        exact Option.some.inj h
      refine ⟨[.call op, .start tasks.length], by simp [Alone], (hcall []).trans ?_⟩
      simp only [start, hpre, begin, he, and_self, if_true, Machine.run_nil, hset]
    · obtain ⟨k, hk⟩ := run_finish (q := []) h
        (List.getElem?_concat_length (l := tasks) (a := .inside sec))
      refine ⟨.call op :: .start tasks.length :: List.replicate k (.resume tasks.length out),
        ?_, (hcall _).trans ?_⟩
      · intro l hl
        rcases List.mem_cons.mp hl with rfl | hl
        · trivial
        rcases List.mem_cons.mp hl with rfl | hl
        · trivial
        · rw [List.eq_of_mem_replicate hl]
          rfl
      simp only [start, hpre, begin, he, and_self, if_true, hset]
      rw [hk, List.set_append_right _ _ (Nat.le_refl _), Nat.sub_self]
      rfl
  · rw [if_neg hpre] at h
    obtain rfl := Option.some.inj h
    refine ⟨[.call op, .start tasks.length], by simp [Alone], (hcall []).trans ?_⟩
    simp only [start, hpre, Machine.run_nil, hset]
    rfl

end Monitor

end Interleaving
