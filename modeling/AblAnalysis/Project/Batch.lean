import AblAnalysis.Project.Record
import AblAnalysis.Task

/-!
Batches: many units of one project, each loaded from its artifact or else built. A unit that fails
does not stop the others. The units are dealt with at the same time, and every order of their steps is given by
a schedule; one after the other, they take their steps in one of these orders (`Batch.run_nil`).
-/

namespace AblAnalysis

/-- What happened to a unit. -/
inductive Outcome where
  /-- Its artifact was up to date. -/
  | loaded
  /-- It was read and its artifact was written. -/
  | built
  /-- It was read without regard to artifacts. -/
  | parsed
  | failed (cause : Error)
  deriving Repr, DecidableEq

/-- How many units of all batches so far ended in each way. -/
structure BatchStats where
  loaded : Nat := 0
  built : Nat := 0
  parsed : Nat := 0
  failed : Nat := 0
  deriving Repr, DecidableEq

/-- Counts an outcome. -/
def BatchStats.count (s : BatchStats) : Outcome → BatchStats
  | .loaded => { s with loaded := s.loaded + 1 }
  | .built => { s with built := s.built + 1 }
  | .parsed => { s with parsed := s.parsed + 1 }
  | .failed _ => { s with failed := s.failed + 1 }

/-- The outcomes of a batch in the order of its units. -/
structure BatchReport where
  outcomes : List (String × Outcome) := []
  deriving Repr, DecidableEq

namespace BatchReport

/-- Number of units whose artifacts were up to date. -/
def loaded (r : BatchReport) : Nat :=
  r.outcomes.countP (fun o => o.2 = .loaded)

/-- Number of units whose artifacts were written. -/
def built (r : BatchReport) : Nat :=
  r.outcomes.countP (fun o => o.2 = .built)

/-- The units that failed, with the causes. -/
def failures (r : BatchReport) : List (String × Error) :=
  r.outcomes.filterMap (fun o =>
    match o.2 with
    | .failed cause => some (o.1, cause)
    | _ => none)

/-- Number of units that failed. -/
def failed (r : BatchReport) : Nat :=
  r.failures.length

end BatchReport

namespace Batch

variable {m : Type → Type} [Monad m]

/-- Loads the unit of a record from its artifact, or builds it. -/
def serve (files : Files m) (session : Session) (parser : UnitParser m) (record : Record) :
    m Outcome := do
  match ← record.load files session with
  | (.ok (), _) => return .loaded
  | (.error _, record) =>
    match ← record.build files session parser with
    | (.ok _, _) => return .built
    | (.error e, _) => return .failed e

/-- Loads a unit from its artifact, or builds it. -/
def loadOrBuild (files : Files m) (session : Session) (parser : UnitParser m) (path : String) :
    m Outcome := do
  let record ← Record.openAt files session path
  serve files session parser record

/-- Reads a unit. -/
def parseOnly (session : Session) (parser : UnitParser m) (path : String) : m Outcome := do
  match ← parser (UnitContext.start session path) with
  | .ok _ => return .parsed
  | .error e => return .failed e

/-- Deals with one unit. -/
def process (files : Files m) (session : Session) (parser : UnitParser m) (path : String) :
    m Outcome :=
  if session.cache.enabled then loadOrBuild files session parser path
  else parseOnly session parser path

/-- Deals with units one after the other; gives the report and the statistics that include it. -/
def runSequential (files : Files m) (session : Session) (parser : UnitParser m) (stats : BatchStats) :
    List String → m (BatchReport × BatchStats)
  | [] => return ({}, stats)
  | path :: rest => do
    let outcome ← process files session parser path
    let (report, stats) ← runSequential files session parser (stats.count outcome) rest
    return (⟨(path, outcome) :: report.outcomes⟩, stats)

/-! ### All units at the same time -/

variable {σ : Type}

/-- A task that ends with an outcome, which is then counted in the statistics that all share. -/
def counted (task : Task σ Outcome) : Task (σ × BatchStats) Outcome := do
  let outcome ← task.onFirst
  Task.once fun s => ((), s.1, s.2.count outcome)
  return outcome

/-- Deals with units at the same time, the steps in the order of a schedule; gives the report and the
statistics that include it. -/
def run (schedule : List Nat) (files : Files (Task σ)) (session : Session) (parser : UnitParser (Task σ))
    (stats : BatchStats) (paths : List String) (s : σ) : (BatchReport × BatchStats) × σ :=
  let tasks := paths.map fun path => counted (process files session parser path)
  let (outcomes, s, stats) := Task.interleave schedule tasks (s, stats)
  ((⟨paths.zip outcomes⟩, stats), s)

theorem run_counted (task : Task σ Outcome) (s : σ) (stats : BatchStats) :
    (counted task).run (s, stats) = ((task.run s).1, (task.run s).2, stats.count (task.run s).1) := by
  rw [counted, Task.run_bind, Task.run_onFirst]
  rfl

/-- With no order given, the units are dealt with one after the other. -/
theorem run_nil (files : Files (Task σ)) (session : Session) (parser : UnitParser (Task σ))
    (stats : BatchStats) (paths : List String) (s : σ) :
    run [] files session parser stats paths s =
      (runSequential files session parser stats paths).run s := by
  induction paths generalizing stats s with
  | nil => rfl
  | cons path rest ih =>
    rw [runSequential, Task.run_bind, Task.run_bind, ← ih, run, run, List.map_cons, Task.interleave,
      Task.runAll, run_counted]
    rfl

end Batch

end AblAnalysis
