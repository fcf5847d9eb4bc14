import RestreamPlus.Lib.Monitor

/-!
# Operations of a monitor among other tasks

What becomes of an operation that has the lock, with code that takes no lock
running between its awaits. The other tasks queue up and change nothing, so this
is all that the attributes go through until the operation returns:
`passes_of_run`.
-/

namespace Interleaving

universe u

namespace Monitor

variable {σ Op Sec Out Env : Type u}

/-- The operation returns and leaves the last state. `R` says what an awaited call
may do at a suspension. -/
inductive Passes (M : Monitor σ Op Sec Out Env) (R : Sec → Out → Prop) :
    σ × Option Sec → σ → Prop where
  | returned (s : σ) : Passes M R (s, none) s
  | external {s s' t : σ} {sec : Sec} (e : Env) (he : M.external s e = some s')
      (h : Passes M R (s', some sec) t) : Passes M R (s, some sec) t
  | resumed {s t : σ} {sec : Sec} (out : Out) {r : σ × Option Sec} (hR : R sec out)
      (hr : M.resume s sec out = some r) (h : Passes M R r t) : Passes M R (s, some sec) t

variable {M : Monitor σ Op Sec Out Env} {R : Sec → Out → Prop}

/-- What every stretch and every external step preserves holds at the return. -/
theorem Passes.rule {I : σ → Option Sec → Prop}
    (hext : ∀ s sec e s', I s (some sec) → M.external s e = some s' → I s' (some sec))
    (hres : ∀ s sec out r, I s (some sec) → R sec out → M.resume s sec out = some r → I r.1 r.2)
    {p : σ × Option Sec} {t : σ} (h : M.Passes R p t) (hp : I p.1 p.2) : I t none := by
  induction h with
  | returned s => exact hp
  | external e he _ ih => exact ih (hext _ _ e _ hp he)
  | resumed out hR hr _ ih => exact ih (hres _ _ out _ hp hR hr)

/-- The assertions that say nothing. -/
theorem rule_trivial : M.Rule (fun _ => True) (fun _ _ => True) (fun _ _ => True)
    (fun _ _ _ => True) where
  admitted _ _ _ _ := trivial
  enter s op _ _ := by rcases M.enter s op with ⟨s', _ | sec⟩ <;> trivial
  resume _ _ _ r _ _ _ := by rcases r with ⟨s', _ | sec⟩ <;> trivial
  external_free _ _ _ _ _ := trivial
  external_held _ _ _ _ _ _ := trivial

/-- At most the owner is inside. -/
abbrev Exclusive (c : Config σ Op Sec) : Prop := Sound (fun _ => True) (fun _ _ => True) c

theorem Exclusive.step {c c' : Config σ Op Sec} {a : Label Op Out Env} (h : Exclusive c)
    (hs : M.step c a = some c') : Exclusive c' :=
  rule_trivial.sound_step h (guard_of_forall (fun _ _ => trivial) (fun _ _ _ => trivial) c a) hs

theorem Config.Pending.not_inside {c : Config σ Op Sec} {i : ℕ} {op : Op} (h : c.Pending i op)
    (sec : Sec) : c.tasks[i]? ≠ some (.inside sec) := by
  intro hin
  rcases h with h | h <;> rw [hin] at h <;> cases h

/-- Taking the lock. -/
theorem enter_of_begin {c : Config σ Op Sec} {i j : ℕ} {op op' : Op} {sec : Sec}
    (hp : c.Pending i op) (hj : c.Pending j op')
    (hin : (M.begin c j op').tasks[i]? = some (.inside sec)) :
    M.enter c.shared op = ((M.begin c j op').shared, some sec) := by
  rw [begin] at hin ⊢
  rcases he : M.enter c.shared op' with ⟨s, _ | sec'⟩ <;> rw [he] at hin
  · exact absurd (inside_of_set (p := .finished) (by rintro _ ⟨⟩) hin).2 (hp.not_inside sec)
  · dsimp only at hin ⊢
    by_cases hij : j = i
    · subst hij
      obtain rfl : op' = op := by
        rcases hj with hj | hj <;> rcases hp with hp | hp <;> rw [hj] at hp <;>
          injection Option.some.inj hp
      rw [List.getElem?_set, if_pos rfl] at hin
      split at hin
      · injection Option.some.inj hin with hsec
        rw [he, hsec]
      · cases hin
    · rw [List.getElem?_set_ne hij] at hin
      exact absurd hin (hp.not_inside sec)

/-- An operation gets inside by taking the free lock. -/
theorem enter_of_step {c c' : Config σ Op Sec} {a : Label Op Out Env} {i : ℕ} {op : Op} {sec : Sec}
    (hp : c.Pending i op) (hs : M.step c a = some c') (hin : c'.tasks[i]? = some (.inside sec)) :
    c.owner = none ∧ M.enter c.shared op = (c'.shared, some sec) := by
  cases a with
  | call op' =>
    obtain rfl := Option.some.inj hs
    exact absurd (get?_of_append_called hin (by rintro ⟨⟩)) (hp.not_inside sec)
  | start j =>
    obtain ⟨op', hj, rfl⟩ := step_start hs
    rw [Monitor.start] at hin ⊢
    split at hin
    · rename_i hadm
      split at hin
      · rename_i hfree
        rw [if_pos hadm, if_pos hfree]
        exact ⟨hfree.1, enter_of_begin hp (.inl hj) hin⟩
      · exact absurd (inside_of_set (p := .queued op') (by rintro _ ⟨⟩) hin).2 (hp.not_inside sec)
    · exact absurd (inside_of_set (p := .finished) (by rintro _ ⟨⟩) hin).2 (hp.not_inside sec)
  | grant =>
    obtain ⟨j, rest, op', hnone, -, hj, rfl⟩ := step_grant hs
    exact ⟨hnone, enter_of_begin (c := { c with queue := rest }) hp (.inr hj) hin⟩
  | resume j out =>
    obtain ⟨sec₀, ⟨s, next⟩, hj, -, rfl⟩ := step_resume hs
    have hne : j ≠ i := by
      rintro rfl
      exact hp.not_inside sec₀ hj
    have hold : c.tasks[i]? = some (.inside sec) := by
      cases next with
      | none => rwa [advance, List.getElem?_set_ne hne] at hin
      | some sec₁ => rwa [advance, List.getElem?_set_ne hne] at hin
    exact absurd hold (hp.not_inside sec)
  | external e =>
    obtain ⟨s, -, rfl⟩ := step_external hs
    exact absurd hin (hp.not_inside sec)

/-- An operation that is no longer pending was turned away or let in. -/
theorem pending_or_entered {c c' : Config σ Op Sec} {a : Label Op Out Env} {i : ℕ} {op : Op}
    (hp : c.Pending i op) (hs : M.step c a = some c') :
    c'.Pending i op ∨ M.precheck c.shared op = false ∨ c'.shared = (M.enter c.shared op).1 := by
  have hlt : i < c.tasks.length := by
    rcases hp with h | h <;> exact (List.getElem?_eq_some_iff.mp h).1
  -- another task moved
  have hother : ∀ j p, j ≠ i → (c.tasks.set j p)[i]? = c.tasks[i]? := fun j p hne =>
    List.getElem?_set_ne hne
  have hsame : ∀ {j op'}, c.Pending j op' → j = i → op' = op := by
    rintro j op' hj rfl
    rcases hj with hj | hj <;> rcases hp with hp | hp <;> rw [hj] at hp <;>
      injection Option.some.inj hp
  have hbegin : ∀ (q : List ℕ) j op', c.Pending j op' →
      (M.begin { c with queue := q } j op').Pending i op ∨
        (M.begin { c with queue := q } j op').shared = (M.enter c.shared op).1 := by
    intro q j op' hj
    by_cases hij : j = i
    · right
      rw [shared_begin, hsame hj hij]
    · left
      obtain ⟨p, htasks, -⟩ := tasks_begin (M := M) { c with queue := q } j op'
      rw [Config.Pending, htasks, hother j p hij]
      exact hp
  cases a with
  | call op' =>
    obtain rfl := Option.some.inj hs
    refine .inl ?_
    rw [Config.Pending, List.getElem?_append_left hlt]
    exact hp
  | start j =>
    obtain ⟨op', hj, rfl⟩ := step_start hs
    rw [Monitor.start]
    split
    · split
      · exact (hbegin c.queue j op' (.inl hj)).imp id .inr
      · refine .inl ?_
        by_cases hij : j = i
        · subst hij
          obtain rfl := hsame (.inl hj) rfl
          exact .inr (List.getElem?_set_self hlt)
        · rw [Config.Pending, hother j _ hij]
          exact hp
    · rename_i hno
      by_cases hij : j = i
      · obtain rfl := hsame (.inl hj) hij
        exact .inr (.inl (Bool.not_eq_true _ ▸ hno))
      · refine .inl ?_
        rw [Config.Pending, hother j _ hij]
        exact hp
  | grant =>
    obtain ⟨j, rest, op', -, -, hj, rfl⟩ := step_grant hs
    exact (hbegin rest j op' (.inr hj)).imp id .inr
  | resume j out =>
    obtain ⟨sec, ⟨s, next⟩, hj, -, rfl⟩ := step_resume hs
    have hne : j ≠ i := by
      rintro rfl
      exact hp.not_inside sec hj
    refine .inl ?_
    cases next with
    | none =>
      rw [Config.Pending, advance, hother j _ hne]
      exact hp
    | some sec' =>
      rw [Config.Pending, advance, hother j _ hne]
      exact hp
  | external e =>
    obtain ⟨s, -, rfl⟩ := step_external hs
    exact .inl hp

/-- **An operation inside the lock, whatever runs beside it**: when its task has
finished, there was a moment at which it returned, and it passed to the
attributes of that moment. -/
theorem passes_of_run {c c' : Config σ Op Sec} {labels : List (Label Op Out Env)} {i : ℕ}
    {sec : Sec} (hx : Exclusive c) (hin : c.tasks[i]? = some (.inside sec))
    (hok : M.machine.Meets (guard (fun _ _ => True) fun _ => R) c labels)
    (hrun : M.machine.run c labels = some c') (hout : c'.tasks[i]? = some .finished) :
    ∃ before after c₁, labels = before ++ after ∧ M.machine.run c before = some c₁ ∧
      c₁.tasks[i]? = some .finished ∧ M.Passes R (c.shared, some sec) c₁.shared := by
  induction labels generalizing c sec with
  | nil =>
    obtain rfl := Option.some.inj hrun
    rw [hin] at hout
    cases hout
  | cons a labels ih =>
    obtain ⟨c₁, hs, hrun⟩ := Machine.run_cons_eq_some hrun
    have hx₁ : Exclusive c₁ := hx.step hs
    have hlt : i < c.tasks.length := (List.getElem?_eq_some_iff.mp hin).1
    -- it is enough that the operation is inside after this step too
    have hgo : ∀ sec₁, c₁.tasks[i]? = some (.inside sec₁) →
        (∀ t, M.Passes R (c₁.shared, some sec₁) t → M.Passes R (c.shared, some sec) t) →
        ∃ before after c₂, a :: labels = before ++ after ∧ M.machine.run c before = some c₂ ∧
          c₂.tasks[i]? = some .finished ∧ M.Passes R (c.shared, some sec) c₂.shared := by
      intro sec₁ hin₁ hpass
      obtain ⟨before, after, c₂, rfl, hrun₂, hfin, hp⟩ := ih hx₁ hin₁ (hok.2 c₁ hs) hrun
      exact ⟨a :: before, after, c₂, rfl, (Machine.run_cons_of_step before hs).trans hrun₂, hfin,
        hpass _ hp⟩
    cases a with
    | call op =>
      obtain rfl := Option.some.inj hs
      refine hgo sec ?_ fun t h => h
      rw [List.getElem?_append_left hlt]
      exact hin
    | start j =>
      obtain ⟨op, hj, rfl⟩ := step_start hs
      have hne : j ≠ i := by
        rintro rfl
        rw [hin] at hj
        cases hj
      have howner : ¬ (c.owner = none ∧ c.queue = []) := by
        rintro ⟨hnone, -⟩
        exact hx.no_inside hnone i sec hin
      have hin₁ : (M.start c j op).tasks[i]? = some (.inside sec) ∧
          (M.start c j op).shared = c.shared := by
        rw [Monitor.start, if_neg howner]
        split <;> exact ⟨by rw [List.getElem?_set_ne hne]; exact hin, rfl⟩
      refine hgo sec hin₁.1 fun t h => ?_
      rwa [hin₁.2] at h
    | grant =>
      obtain ⟨j, rest, op, hnone, -, -, -⟩ := step_grant hs
      exact absurd hin (hx.no_inside hnone i sec)
    | resume j out =>
      obtain ⟨sec₀, ⟨s, next⟩, hj, hr, rfl⟩ := step_resume hs
      obtain ⟨-, -, honly⟩ := hx.owning hin
      obtain rfl := honly j sec₀ hj
      obtain rfl : sec₀ = sec := by
        rw [hin] at hj
        injection Option.some.inj hj with h
        exact h.symm
      have hR : R sec₀ out := (guard_resume hin).mp hok.1
      cases next with
      | none =>
        refine ⟨[.resume j out], labels, _, rfl, Machine.run_cons_of_step [] hs, ?_, ?_⟩
        · exact List.getElem?_set_self hlt
        · exact .resumed out hR hr (.returned s)
      | some sec₁ => exact hgo sec₁ (List.getElem?_set_self hlt) fun t h => .resumed out hR hr h
    | external e =>
      obtain ⟨s, he, rfl⟩ := step_external hs
      exact hgo sec hin fun t h => .external e he h

end Monitor

end Interleaving
