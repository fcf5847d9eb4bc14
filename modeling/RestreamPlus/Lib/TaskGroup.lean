import RestreamPlus.Lib.Machine

/-!
# Task groups: children that are cancelled when one of them raises

A parent waits for a group of children, named by their position. The first child
that raises makes the group abort: every child that still runs is sent a
cancellation, and the parent goes on when all children are over, with an
exception if a child raised. A child that was sent a cancellation may end with
it, or suppress it and return or raise all the same.

`all_returned` says what the parent may rely on: if no child raised, every child
ran to its end.
-/

namespace Interleaving

/-- Where a child is. -/
inductive Child : Type where
  | running
  | returned
  | raised
  | cancelled
  deriving DecidableEq

/-- A group the parent waits for. -/
structure TaskGroup : Type where
  children : List Child
  /-- a child raised, the others were sent a cancellation -/
  aborting : Bool
  deriving DecidableEq

namespace TaskGroup

/-- What happens next. -/
inductive Event : Type where
  /-- a child runs up to its next suspension -/
  | suspends (i : ℕ)
  | returns (i : ℕ)
  | raises (i : ℕ)
  /-- a child ends with the cancellation it was sent -/
  | cancels (i : ℕ)

/-- A group of this many children. -/
def begin (n : ℕ) : TaskGroup := ⟨List.replicate n .running, false⟩

/-- One event; only a running child can do something. -/
def step (g : TaskGroup) : Event → Option TaskGroup
  | .suspends i => if g.children[i]? = some .running then some g else none
  | .returns i =>
    if g.children[i]? = some .running then
      some { g with children := g.children.set i .returned }
    else none
  | .raises i =>
    if g.children[i]? = some .running then some ⟨g.children.set i .raised, true⟩ else none
  | .cancels i =>
    if g.children[i]? = some .running ∧ g.aborting = true then
      some { g with children := g.children.set i .cancelled }
    else none

/-- The children of a group as a machine. -/
def machine : Machine TaskGroup Event := ⟨step⟩

/-- The parent goes on. -/
def Over (g : TaskGroup) : Prop := .running ∉ g.children

instance (g : TaskGroup) : Decidable g.Over := inferInstanceAs (Decidable (¬ _))

/-- The parent is raised an exception. -/
def Raises (g : TaskGroup) : Prop := .raised ∈ g.children

instance (g : TaskGroup) : Decidable g.Raises := inferInstanceAs (Decidable (_ ∈ _))

/-- Nobody is cancelled before somebody raised. -/
structure Orderly (g : TaskGroup) : Prop where
  aborting : g.aborting = true → g.Raises
  cancelled : .cancelled ∈ g.children → g.aborting = true

theorem orderly_begin (n : ℕ) : Orderly (begin n) := by
  refine ⟨nofun, fun h => ?_⟩
  cases List.eq_of_mem_replicate h

/-- A running child ends: whoever raised before has still raised. -/
theorem raised_mem_set {children : List Child} {i : ℕ} {child : Child}
    (hi : children[i]? = some .running) (h : .raised ∈ children) : .raised ∈ children.set i child := by
  obtain ⟨j, hj⟩ := List.mem_iff_getElem?.mp h
  have hne : i ≠ j := by
    rintro rfl
    rw [hi] at hj
    cases hj
  exact List.mem_iff_getElem?.mpr ⟨j, by rw [List.getElem?_set_ne hne]; exact hj⟩

theorem Orderly.step {g g' : TaskGroup} {e : Event} (h : Orderly g) (hs : g.step e = some g') :
    Orderly g' := by
  cases e with
  | suspends i =>
    obtain ⟨-, hs⟩ := Option.ite_none_right_eq_some.mp hs
    exact Option.some.inj hs ▸ h
  | returns i =>
    obtain ⟨hi, hs⟩ := Option.ite_none_right_eq_some.mp hs
    obtain rfl := Option.some.inj hs
    refine ⟨fun ha => raised_mem_set hi (h.aborting ha), fun hc => ?_⟩
    rcases List.mem_or_eq_of_mem_set hc with hold | hnew
    · exact h.cancelled hold
    · cases hnew
  | raises i =>
    obtain ⟨hi, hs⟩ := Option.ite_none_right_eq_some.mp hs
    obtain rfl := Option.some.inj hs
    exact ⟨fun _ => List.mem_set (List.getElem?_eq_some_iff.mp hi).1 _, fun _ => rfl⟩
  | cancels i =>
    obtain ⟨⟨hi, ha⟩, hs⟩ := Option.ite_none_right_eq_some.mp hs
    obtain rfl := Option.some.inj hs
    exact ⟨fun ha => raised_mem_set hi (h.aborting ha), fun _ => ha⟩

theorem length_step {g g' : TaskGroup} {e : Event} (hs : g.step e = some g') :
    g'.children.length = g.children.length := by
  cases e <;> obtain ⟨-, hs⟩ := Option.ite_none_right_eq_some.mp hs <;>
    obtain rfl := Option.some.inj hs <;> simp

/-- What holds of every group that a parent waited for. -/
theorem orderly_run {n : ℕ} {events : List Event} {g : TaskGroup}
    (h : machine.run (begin n) events = some g) : Orderly g ∧ g.children.length = n := by
  refine Machine.inv_run
    (I := fun g : TaskGroup => Orderly g ∧ g.children.length = n) ?_ ?_
    (Machine.meets_of_forall (fun g e => (trivial : True)) _ _) h
  · rintro g e g' ⟨hg, hlen⟩ - hs
    exact ⟨hg.step hs, (length_step hs).trans hlen⟩
  · exact ⟨orderly_begin n, List.length_replicate⟩

/-- **If no child raised, every child ran to its end.** -/
theorem all_returned {n : ℕ} {events : List Event} {g : TaskGroup}
    (h : machine.run (begin n) events = some g) (hover : g.Over) (hno : ¬ g.Raises) :
    ∀ child ∈ g.children, child = .returned := by
  obtain ⟨horderly, -⟩ := orderly_run h
  intro child hchild
  cases child with
  | running => exact absurd hchild hover
  | returned => rfl
  | raised => exact absurd hchild hno
  | cancelled => exact absurd (horderly.aborting (horderly.cancelled hchild)) hno

end TaskGroup

end Interleaving
