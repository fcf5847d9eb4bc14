import Mathlib.Data.List.Basic

/-!
# Machines: partial labelled steps, runs, and the invariant rule

A `Machine` is a state space with a partial step function over labels. The
label resolves every choice the environment has (which task runs next, what an
awaited call returned), so a run is determined by its list of labels and a
concrete run can be evaluated.

* `Machine.run` — the state after a list of labels, if every step was enabled;
* `Machine.Meets ok` — every step of a run is taken from a state where `ok`
  allows it;
* `Machine.Always P` — `P` holds in every state the run visits;
* `Machine.Leads ok P` — some run of allowed steps leads to a state with `P`;
* `Machine.inv_run` — the induction everything else rests on: what one allowed
  step preserves, a whole run of allowed steps preserves.
-/

namespace Interleaving

universe u v

/-- A state space with a partial step for each label. -/
structure Machine (σ : Type u) (α : Type v) : Type (max u v) where
  /-- one step; `none` when the label is not enabled -/
  step : σ → α → Option σ

namespace Machine

variable {σ : Type u} {α : Type v} (M : Machine σ α)

/-- The state after a list of labels, `none` as soon as one is not enabled. -/
def run : σ → List α → Option σ
  | s, [] => some s
  | s, a :: as => (M.step s a).bind fun s' => run s' as

/-- Every step of the run is taken where `ok` allows its label. -/
def Meets (ok : σ → α → Prop) : σ → List α → Prop
  | _, [] => True
  | s, a :: as => ok s a ∧ ∀ s', M.step s a = some s' → Meets ok s' as

/-- `P` holds in every state the run visits, the first and the last included. -/
def Always (P : σ → Prop) : σ → List α → Prop
  | s, [] => P s
  | s, a :: as => P s ∧ ∀ s', M.step s a = some s' → Always P s' as

variable {M}

/-- The guard of a run can be checked along it. -/
instance decidableMeets {ok : σ → α → Prop} [∀ s a, Decidable (ok s a)] :
    ∀ (s : σ) (as : List α), Decidable (M.Meets ok s as)
  | _, [] => .isTrue trivial
  | s, a :: as =>
    match hs : M.step s a with
    | none => decidable_of_iff (ok s a)
        ⟨fun h => ⟨h, fun s' hs' => by rw [hs] at hs'; cases hs'⟩, fun h => h.1⟩
    | some s' =>
      have : Decidable (M.Meets ok s' as) := decidableMeets s' as
      decidable_of_iff (ok s a ∧ M.Meets ok s' as)
        ⟨fun h => ⟨h.1, fun t ht => by rw [hs] at ht; exact Option.some.inj ht ▸ h.2⟩,
          fun h => ⟨h.1, h.2 s' hs⟩⟩

/-- So can a property of its states. -/
instance decidableAlways {P : σ → Prop} [DecidablePred P] :
    ∀ (s : σ) (as : List α), Decidable (M.Always P s as)
  | s, [] => inferInstanceAs (Decidable (P s))
  | s, a :: as =>
    match hs : M.step s a with
    | none => decidable_of_iff (P s)
        ⟨fun h => ⟨h, fun s' hs' => by rw [hs] at hs'; cases hs'⟩, fun h => h.1⟩
    | some s' =>
      have : Decidable (M.Always P s' as) := decidableAlways s' as
      decidable_of_iff (P s ∧ M.Always P s' as)
        ⟨fun h => ⟨h.1, fun t ht => by rw [hs] at ht; exact Option.some.inj ht ▸ h.2⟩,
          fun h => ⟨h.1, h.2 s' hs⟩⟩

@[simp] theorem run_nil (s : σ) : M.run s [] = some s := rfl

theorem run_cons (s : σ) (a : α) (as : List α) :
    M.run s (a :: as) = (M.step s a).bind fun s' => M.run s' as := rfl

theorem run_cons_of_step {s s' : σ} {a : α} (as : List α) (h : M.step s a = some s') :
    M.run s (a :: as) = M.run s' as := by
  rw [run_cons, h, Option.bind_some]

theorem run_append (s : σ) (as bs : List α) :
    M.run s (as ++ bs) = (M.run s as).bind fun t => M.run t bs := by
  induction as generalizing s with
  | nil => rfl
  | cons a as ih =>
    rw [List.cons_append, run_cons, run_cons, Option.bind_assoc]
    exact congrArg _ (funext ih)

/-- Inversion for a nonempty run. -/
theorem run_cons_eq_some {s t : σ} {a : α} {as : List α} (h : M.run s (a :: as) = some t) :
    ∃ s', M.step s a = some s' ∧ M.run s' as = some t :=
  Option.bind_eq_some_iff.mp h

theorem always_head {P : σ → Prop} {s : σ} {as : List α} (h : M.Always P s as) : P s := by
  cases as with
  | nil => exact h
  | cons a as => exact h.1

/-- `Always P` speaks about the last state in particular. -/
theorem always_last {P : σ → Prop} {s t : σ} {as : List α} (h : M.Always P s as)
    (hr : M.run s as = some t) : P t := by
  induction as generalizing s with
  | nil =>
    obtain rfl := Option.some.inj hr
    exact h
  | cons a as ih =>
    obtain ⟨s', hs, hr'⟩ := run_cons_eq_some hr
    exact ih (h.2 s' hs) hr'

/-- A weaker property holds in more runs. -/
theorem Always.mono {P Q : σ → Prop} (hle : ∀ s, P s → Q s) {s : σ} {as : List α}
    (h : M.Always P s as) : M.Always Q s as := by
  induction as generalizing s with
  | nil => exact hle s h
  | cons a as ih => exact ⟨hle s h.1, fun s' hs => ih (h.2 s' hs)⟩

/-- A weaker guard is met by more runs. -/
theorem meets_cons_of_step {ok : σ → α → Prop} {s s' : σ} {a : α} {as : List α} (hok : ok s a)
    (hs : M.step s a = some s') (h : M.Meets ok s' as) : M.Meets ok s (a :: as) := by
  refine ⟨hok, fun t ht => ?_⟩
  obtain rfl := Option.some.inj (hs.symm.trans ht)
  exact h

theorem Meets.mono {ok ok' : σ → α → Prop} (hle : ∀ s a, ok s a → ok' s a) {s : σ}
    {as : List α} (h : M.Meets ok s as) : M.Meets ok' s as := by
  induction as generalizing s with
  | nil => trivial
  | cons a as ih => exact ⟨hle s a h.1, fun s' hs => ih (h.2 s' hs)⟩

/-- A guard that refuses nothing is met by every run. -/
theorem meets_of_forall {ok : σ → α → Prop} (h : ∀ s a, ok s a) (s : σ) (as : List α) :
    M.Meets ok s as := by
  induction as generalizing s with
  | nil => trivial
  | cons a as ih => exact ⟨h s a, fun s' _ => ih s'⟩

/-- A guard on the labels alone. -/
theorem meets_of_labels {ok : α → Prop} {as : List α} (h : ∀ a ∈ as, ok a) (s : σ) :
    M.Meets (fun _ a => ok a) s as := by
  induction as generalizing s with
  | nil => trivial
  | cons a as ih =>
    exact ⟨h a List.mem_cons_self, fun s' _ => ih (fun b hb => h b (List.mem_cons_of_mem a hb)) s'⟩

section Invariant

variable {I : σ → Prop} {ok : σ → α → Prop}

/-- **The invariant rule**: what every allowed step preserves holds at the end
of every run of allowed steps. -/
theorem inv_run (hstep : ∀ s a s', I s → ok s a → M.step s a = some s' → I s')
    {s t : σ} {as : List α} (hi : I s) (hok : M.Meets ok s as) (hr : M.run s as = some t) :
    I t := by
  induction as generalizing s with
  | nil =>
    obtain rfl := Option.some.inj hr
    exact hi
  | cons a as ih =>
    obtain ⟨s', hs, hr'⟩ := run_cons_eq_some hr
    exact ih (hstep s a s' hi hok.1 hs) (hok.2 s' hs) hr'

/-- The invariant rule without a guard. -/
theorem inv_run_of_step (hstep : ∀ s a s', I s → M.step s a = some s' → I s') {s t : σ}
    {as : List α} (hi : I s) (hr : M.run s as = some t) : I t := by
  have hok : M.Meets (fun _ _ => True) s as := meets_of_forall (fun _ _ => trivial) s as
  exact inv_run (fun s a s' hi _ => hstep s a s' hi) hi hok hr

/-- The invariant rule for every visited state. -/
theorem always_of_inv (hstep : ∀ s a s', I s → ok s a → M.step s a = some s' → I s')
    {P : σ → Prop} (hP : ∀ s, I s → P s) {s : σ} {as : List α} (hi : I s)
    (hok : M.Meets ok s as) : M.Always P s as := by
  induction as generalizing s with
  | nil => exact hP s hi
  | cons a as ih =>
    exact ⟨hP s hi, fun s' hs => ih (hstep s a s' hi hok.1 hs) (hok.2 s' hs)⟩

/-- The invariant rule for a run of which something is known in every state. -/
theorem always_of_always {G : σ → Prop}
    (hstep : ∀ s a s', I s → G s → ok s a → M.step s a = some s' → I s') {P : σ → Prop}
    (hP : ∀ s, I s → G s → P s) {s : σ} {as : List α} (hi : I s) (hok : M.Meets ok s as)
    (hG : M.Always G s as) : M.Always P s as := by
  induction as generalizing s with
  | nil => exact hP s hi hG
  | cons a as ih =>
    exact ⟨hP s hi hG.1, fun s' hs =>
      ih (hstep s a s' hi hG.1 hok.1 hs) (hok.2 s' hs) (hG.2 s' hs)⟩

/-- **Exact guards.** Suppose the invariant entails `P`, allowed steps preserve
the invariant, and a step the guard refuses always ends outside `P`. Then the
runs along which `P` always holds are exactly the runs that meet the guard, up
to steps that are not enabled at all. All of it inside the runs that meet `pre`. -/
theorem always_iff_meets_under {pre : σ → α → Prop}
    (hstep : ∀ s a s', I s → pre s a → ok s a → M.step s a = some s' → I s')
    {P : σ → Prop} (hP : ∀ s, I s → P s)
    (hexact : ∀ s a s', I s → pre s a → ¬ ok s a → M.step s a = some s' → ¬ P s')
    (hdis : ∀ s a, M.step s a = none → ok s a) {s : σ} {as : List α} (hi : I s)
    (hpre : M.Meets pre s as) : M.Always P s as ↔ M.Meets ok s as := by
  induction as generalizing s with
  | nil => exact ⟨fun _ => trivial, fun _ => hP s hi⟩
  | cons a as ih =>
    constructor
    · intro h
      have hok : ok s a := by
        by_contra hno
        rcases hs : M.step s a with _ | s'
        · exact hno (hdis s a hs)
        · exact hexact s a s' hi hpre.1 hno hs (always_head (h.2 s' hs))
      exact ⟨hok, fun s' hs =>
        (ih (hstep s a s' hi hpre.1 hok hs) (hpre.2 s' hs)).mp (h.2 s' hs)⟩
    · intro h
      exact ⟨hP s hi, fun s' hs =>
        (ih (hstep s a s' hi hpre.1 h.1 hs) (hpre.2 s' hs)).mpr (h.2 s' hs)⟩

/-- Exact guards for every run. -/
theorem always_iff_meets (hstep : ∀ s a s', I s → ok s a → M.step s a = some s' → I s')
    {P : σ → Prop} (hP : ∀ s, I s → P s)
    (hexact : ∀ s a s', I s → ¬ ok s a → M.step s a = some s' → ¬ P s')
    (hdis : ∀ s a, M.step s a = none → ok s a) {s : σ} {as : List α} (hi : I s) :
    M.Always P s as ↔ M.Meets ok s as := by
  have hpre : M.Meets (fun _ _ => True) s as := meets_of_forall (fun _ _ => trivial) s as
  exact always_iff_meets_under (fun s a s' hi _ => hstep s a s' hi) hP
    (fun s a s' hi _ => hexact s a s' hi) hdis hi hpre

/-- Exact guards for a run whose steps are all enabled; here the guard may
refuse a step that is not. -/
theorem always_iff_meets_of_run
    (hstep : ∀ s a s', I s → ok s a → M.step s a = some s' → I s') {P : σ → Prop}
    (hP : ∀ s, I s → P s)
    (hexact : ∀ s a s', I s → ¬ ok s a → M.step s a = some s' → ¬ P s') {s : σ} {as : List α}
    (hi : I s) (hrun : (M.run s as).isSome) : M.Always P s as ↔ M.Meets ok s as := by
  refine ⟨fun h => ?_, always_of_inv hstep hP hi⟩
  induction as generalizing s with
  | nil => trivial
  | cons a as ih =>
    obtain ⟨t, ht⟩ := Option.isSome_iff_exists.mp hrun
    obtain ⟨s', hs, ht⟩ := run_cons_eq_some ht
    have hok : ok s a := by
      by_contra hno
      exact hexact s a s' hi hno hs (always_head (h.2 s' hs))
    refine ⟨hok, fun s'' hs'' => ?_⟩
    rw [hs] at hs''
    obtain rfl := Option.some.inj hs''
    exact ih (hstep s a s' hi hok hs) (by rw [ht]; rfl) (h.2 s' hs)

end Invariant

/-! ## Where a run can lead -/

section Leads

variable (M) in
/-- Some run of steps that `ok` allows leads to a state with `P`. -/
inductive Leads (ok : σ → α → Prop) (P : σ → Prop) : σ → Prop where
  | now {s} : P s → Leads ok P s
  | next {s a s'} : ok s a → M.step s a = some s' → Leads ok P s' → Leads ok P s

variable {ok : σ → α → Prop} {P Q : σ → Prop}

theorem Leads.mono (hle : ∀ s, P s → Q s) {s : σ} (h : M.Leads ok P s) : M.Leads ok Q s := by
  induction h with
  | now hs => exact .now (hle _ hs)
  | next hok hstep _ ih => exact .next hok hstep ih

/-- **The rank rule**: where `P` does not hold yet, some allowed step keeps the
invariant and lowers the rank. -/
theorem leads_of_rank {I : σ → Prop} (rank : σ → ℕ)
    (hdown : ∀ s, I s → ¬ P s → ∃ a s', ok s a ∧ M.step s a = some s' ∧ I s' ∧ rank s' < rank s)
    {s : σ} (hi : I s) : M.Leads ok P s := by
  by_cases hP : P s
  · exact .now hP
  · obtain ⟨a, s', hok, hstep, hi', hlt⟩ := hdown s hi hP
    exact .next hok hstep (leads_of_rank rank hdown hi')
termination_by rank s

end Leads

/-! ## Histories -/

section History

variable {γ : Type*} (M) (note : γ → σ → α → σ → γ)

/-- The machine that also writes a history: `note` says what a step adds to it. -/
def recording : Machine (σ × γ) α where
  step s a := (M.step s.1 a).map fun t => (t, note s.2 s.1 a t)

variable {M note}

theorem step_recording {s t : σ × γ} {a : α} (h : (M.recording note).step s a = some t) :
    M.step s.1 a = some t.1 ∧ t.2 = note s.2 s.1 a t.1 := by
  obtain ⟨u, hu, rfl⟩ := Option.map_eq_some_iff.mp h
  exact ⟨hu, rfl⟩

/-- The history changes nothing. -/
theorem run_recording (s : σ × γ) (as : List α) :
    ((M.recording note).run s as).map Prod.fst = M.run s.1 as := by
  induction as generalizing s with
  | nil => rfl
  | cons a as ih =>
    rw [run_cons, run_cons, recording]
    dsimp only
    rcases M.step s.1 a with _ | t
    · rfl
    · exact ih (t, note s.2 s.1 a t)

end History

end Machine

end Interleaving
