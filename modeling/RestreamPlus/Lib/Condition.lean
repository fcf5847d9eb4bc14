import Mathlib.Data.List.Basic

/-!
# Condition variables

`Condition τ` is a lock with the two sets of tasks that a condition variable
keeps: those that wait and have not been notified, and those that have been
woken and still have to take the lock again. Every operation is partial: it is
`none` where the task would block, or where it does not hold the lock it needs.
Which of several candidates gets the lock is left open.

Each operation comes with the inversion lemma that says what it did.
-/

namespace Interleaving

universe u

/-- A condition variable with its lock. -/
structure Condition (τ : Type u) : Type u where
  /-- the task inside the lock -/
  holder : Option τ
  /-- suspended in `wait`, not notified yet -/
  waiting : List τ
  /-- woken, before the lock has been taken again -/
  woken : List τ

namespace Condition

variable {τ : Type u} [DecidableEq τ]

/-- Nobody holds the lock, nobody waits. -/
def idle : Condition τ := ⟨none, [], []⟩

/-- Enter the lock. -/
def acquire (c : Condition τ) (t : τ) : Option (Condition τ) :=
  if c.holder = none then some { c with holder := some t } else none

/-- Leave the lock. -/
def release (c : Condition τ) (t : τ) : Option (Condition τ) :=
  if c.holder = some t then some { c with holder := none } else none

/-- Give the lock up and suspend, in one step. -/
def wait (c : Condition τ) (t : τ) : Option (Condition τ) :=
  if c.holder = some t then some { c with holder := none, waiting := c.waiting ++ [t] } else none

/-- Wake everybody who waits; only from inside the lock. -/
def notifyAll (c : Condition τ) (t : τ) : Option (Condition τ) :=
  if c.holder = some t then
    some { c with waiting := [], woken := c.woken ++ c.waiting }
  else none

/-- A woken task takes the lock again, and `wait` returns. -/
def resume (c : Condition τ) (t : τ) : Option (Condition τ) :=
  if c.holder = none ∧ t ∈ c.woken then
    some { c with holder := some t, woken := c.woken.erase t }
  else none

/-- A waiting task is cancelled: it is woken too, to take the lock and leave. -/
def interrupt (c : Condition τ) (t : τ) : Option (Condition τ) :=
  if t ∈ c.waiting then
    some { c with waiting := c.waiting.erase t, woken := c.woken ++ [t] }
  else if t ∈ c.woken then some c
  else none

variable {c c' : Condition τ} {t : τ}

omit [DecidableEq τ] in
theorem acquire_eq_some (h : c.acquire t = some c') :
    c.holder = none ∧ c' = { c with holder := some t } := by
  unfold acquire at h
  split at h
  · exact ⟨‹_›, (Option.some.inj h).symm⟩
  · cases h

theorem release_eq_some (h : c.release t = some c') :
    c.holder = some t ∧ c' = { c with holder := none } := by
  unfold release at h
  split at h
  · exact ⟨‹_›, (Option.some.inj h).symm⟩
  · cases h

theorem wait_eq_some (h : c.wait t = some c') :
    c.holder = some t ∧ c' = { c with holder := none, waiting := c.waiting ++ [t] } := by
  unfold wait at h
  split at h
  · exact ⟨‹_›, (Option.some.inj h).symm⟩
  · cases h

theorem notifyAll_eq_some (h : c.notifyAll t = some c') :
    c.holder = some t ∧ c' = { c with waiting := [], woken := c.woken ++ c.waiting } := by
  unfold notifyAll at h
  split at h
  · exact ⟨‹_›, (Option.some.inj h).symm⟩
  · cases h

theorem resume_eq_some (h : c.resume t = some c') :
    c.holder = none ∧ t ∈ c.woken ∧
      c' = { c with holder := some t, woken := c.woken.erase t } := by
  unfold resume at h
  split at h
  · rename_i hc
    exact ⟨hc.1, hc.2, (Option.some.inj h).symm⟩
  · cases h

theorem interrupt_eq_some (h : c.interrupt t = some c') :
    t ∈ c.waiting ∧ c' = { c with waiting := c.waiting.erase t, woken := c.woken ++ [t] } ∨
      t ∈ c.woken ∧ c' = c := by
  unfold interrupt at h
  split at h
  · exact .inl ⟨‹_›, (Option.some.inj h).symm⟩
  · split at h
    · exact .inr ⟨‹_›, (Option.some.inj h).symm⟩
    · cases h

end Condition

end Interleaving
