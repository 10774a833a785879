/-!
Computations on a state that others change at the same time. A task says what its next step does to the state
and how it goes on, and both hang on the state that the step finds. A schedule tells whose turn it is, step by
step (`Task.interleave`).
-/

namespace AblAnalysis

/-- A computation on a state, step by step. -/
inductive Task (σ α : Type) where
  | done (answer : α)
  | step (act : σ → σ) (next : σ → Task σ α)

namespace Task

variable {σ τ α β γ : Type}

/-- An operation that is made in one step. -/
def once (operation : σ → α × σ) : Task σ α :=
  .step (fun s => (operation s).2) (fun s => .done (operation s).1)

/-- A look at the state. -/
def look (view : σ → α) : Task σ α :=
  once fun s => (view s, s)

/-- Goes on with the answer of a task. -/
def bind : Task σ α → (α → Task σ β) → Task σ β
  | .done a, f => f a
  | .step act next, f => .step act fun s => (next s).bind f

instance instMonad : Monad (Task σ) where
  pure := .done
  bind := bind

theorem bind_done (t : Task σ α) : t.bind .done = t := by
  induction t with
  | done a => rfl
  | step act next ih => exact congrArg (step act) (funext ih)

theorem bind_bind (t : Task σ α) (f : α → Task σ β) (g : β → Task σ γ) :
    (t.bind f).bind g = t.bind fun a => (f a).bind g := by
  induction t with
  | done a => rfl
  | step act next ih => exact congrArg (step act) (funext ih)

instance instLawfulMonad : LawfulMonad (Task σ) :=
  LawfulMonad.mk' (Task σ) bind_done (fun _ _ => rfl) bind_bind

/-- Takes all steps of a task with nothing in between. -/
def run : Task σ α → σ → α × σ
  | .done a, s => (a, s)
  | .step act next, s => (next s).run (act s)

theorem run_bind (t : Task σ α) (f : α → Task σ β) (s : σ) :
    (t >>= f).run s = (f (t.run s).1).run (t.run s).2 := by
  induction t generalizing s with
  | done a => rfl
  | step act next ih => exact ih s (act s)

/-- The same on the first part of a state. -/
def onFirst : Task σ α → Task (σ × τ) α
  | .done a => .done a
  | .step act next => .step (fun s => (act s.1, s.2)) fun s => (next s.1).onFirst

theorem onFirst_pure (a : α) : ((pure a : Task σ α).onFirst : Task (σ × τ) α) = pure a := rfl

theorem onFirst_bind (t : Task σ α) (f : α → Task σ β) :
    ((t >>= f).onFirst : Task (σ × τ) β) = t.onFirst >>= fun a => (f a).onFirst := by
  induction t with
  | done a => rfl
  | step act next ih => exact congrArg (step _) (funext fun s => ih s.1)

theorem run_onFirst (t : Task σ α) (s : σ) (rest : τ) :
    t.onFirst.run (s, rest) = ((t.run s).1, (t.run s).2, rest) := by
  induction t generalizing s with
  | done a => rfl
  | step act next ih => exact ih s (act s)

/-- Takes the tasks one after the other. -/
def runAll : List (Task σ α) → σ → List α × σ
  | [], s => ([], s)
  | task :: rest, s =>
    let (answer, s) := task.run s
    let (answers, s) := runAll rest s
    (answer :: answers, s)

/-- Takes the tasks together. The schedule names the one that takes the next step; names of others, and of
tasks that are done, are passed over. What is left in the end is done task by task. -/
def interleave : List Nat → List (Task σ α) → σ → List α × σ
  | [], tasks, s => runAll tasks s
  | i :: schedule, tasks, s =>
    match tasks[i]? with
    | some (.step act next) => interleave schedule (tasks.set i (next s)) (act s)
    | _ => interleave schedule tasks s

end Task

end AblAnalysis
