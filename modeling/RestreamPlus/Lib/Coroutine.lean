/-!
# Cooperative tasks with a database session

`Code` is what a task still has to do, as a tree: one node for each point where
it awaits something, with the rest of the task as a function of the answer. A
task can read the database, execute a statement, end its transaction, call an
operation of another object and wait for it, and run a stretch of code without
any await on attributes that it shares with other tasks.

What a statement does to the database is part of the commit that follows it.
What the nodes mean is left to the machine that runs the tasks; a `Discipline`
says which of them are allowed in which local state, and `Code.Obeys` checks a
tree against it once and for all.
-/

namespace Interleaving

/-- A task that is suspended or about to run. -/
inductive Code (Db Stmt Chg View Move Op : Type) : Type where
  | done : Code Db Stmt Chg View Move Op
  /-- an await with an answer that is not determined here -/
  | check : (Bool → Code Db Stmt Chg View Move Op) → Code Db Stmt Chg View Move Op
  /-- read the database -/
  | select : (Db → Code Db Stmt Chg View Move Op) → Code Db Stmt Chg View Move Op
  /-- execute a statement that writes; it may fail because the database is busy -/
  | write : Stmt → (Bool → Code Db Stmt Chg View Move Op) → Code Db Stmt Chg View Move Op
  | commit : Chg → Code Db Stmt Chg View Move Op → Code Db Stmt Chg View Move Op
  | rollback : Code Db Stmt Chg View Move Op → Code Db Stmt Chg View Move Op
  /-- a stretch without await: what it does, and how the task goes on -/
  | sync : (View → Move) → (View → Code Db Stmt Chg View Move Op) → Code Db Stmt Chg View Move Op
  /-- call an operation and wait for it -/
  | await : Op → Code Db Stmt Chg View Move Op → Code Db Stmt Chg View Move Op

/-- What tasks may do, given a local state `Q` that follows them. -/
structure Discipline (Q Db Stmt Chg View Move Op : Type) : Type where
  /-- after a statement was executed -/
  wrote : Q → Q
  /-- after a commit or a rollback -/
  closed : Q → Q
  /-- after a stretch without await -/
  moved : Q → Move → Q
  /-- the local states in which a task may end -/
  final : Q → Prop
  change : Q → Chg → Prop
  /-- the last argument is how the task goes on -/
  move : Q → View → Move → Code Db Stmt Chg View Move Op → Prop
  await : Q → Op → Prop

namespace Code

variable {Q Db Stmt Chg View Move Op : Type}

/-- Whatever the answers, the code keeps to the discipline from the local state
`q` on. -/
def Obeys (D : Discipline Q Db Stmt Chg View Move Op) : Q → Code Db Stmt Chg View Move Op → Prop
  | q, .done => D.final q
  | q, .check k => ∀ b, (k b).Obeys D q
  | q, .select k => ∀ db, (k db).Obeys D q
  | q, .write _ k => (k true).Obeys D (D.wrote q) ∧ (k false).Obeys D q
  | q, .commit c k => D.change q c ∧ k.Obeys D (D.closed q)
  | q, .rollback k => k.Obeys D (D.closed q)
  | q, .sync m k => ∀ v, D.move q v (m v) (k v) ∧ (k v).Obeys D (D.moved q (m v))
  | q, .await op k => D.await q op ∧ k.Obeys D q

variable {D : Discipline Q Db Stmt Chg View Move Op} {q : Q}

@[simp] theorem obeys_done : (done : Code Db Stmt Chg View Move Op).Obeys D q ↔ D.final q := Iff.rfl

@[simp] theorem obeys_check {k : Bool → Code Db Stmt Chg View Move Op} :
    (check k).Obeys D q ↔ ∀ b, (k b).Obeys D q := Iff.rfl

@[simp] theorem obeys_select {k : Db → Code Db Stmt Chg View Move Op} :
    (select k).Obeys D q ↔ ∀ db, (k db).Obeys D q := Iff.rfl

@[simp] theorem obeys_write {s : Stmt} {k : Bool → Code Db Stmt Chg View Move Op} :
    (write s k).Obeys D q ↔ (k true).Obeys D (D.wrote q) ∧ (k false).Obeys D q := Iff.rfl

@[simp] theorem obeys_commit {c : Chg} {k : Code Db Stmt Chg View Move Op} :
    (commit c k).Obeys D q ↔ D.change q c ∧ k.Obeys D (D.closed q) := Iff.rfl

@[simp] theorem obeys_rollback {k : Code Db Stmt Chg View Move Op} :
    (rollback k).Obeys D q ↔ k.Obeys D (D.closed q) := Iff.rfl

@[simp] theorem obeys_sync {m : View → Move} {k : View → Code Db Stmt Chg View Move Op} :
    (sync m k).Obeys D q ↔ ∀ v, D.move q v (m v) (k v) ∧ (k v).Obeys D (D.moved q (m v)) := Iff.rfl

@[simp] theorem obeys_await {op : Op} {k : Code Db Stmt Chg View Move Op} :
    (await op k).Obeys D q ↔ D.await q op ∧ k.Obeys D q := Iff.rfl

end Code

end Interleaving
