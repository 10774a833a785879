import AblAnalysis.Proofs.Project.Keeping

/-!
Batches. Whatever the order of the steps, the report lists all units in order, and each outcome is counted
(`Batch.runAll_counts`). The record of a unit is known when the unit is opened, at some point of the run. From
then on it takes its steps beside the others; if the artifacts of the units belong at different places, no unit
gets in the way of another one (`Batch.dealt`). So what has been written for a unit is still there when the batch
is done (`Batch.dealt_apart`).
-/

namespace AblAnalysis

open Artifact

namespace Batch

/-! ### Counting -/

/-- Whether statistics have counted outcomes on top of what was counted before. -/
structure Counts (before : BatchStats) (outcomes : List Outcome) (after : BatchStats) : Prop where
  loaded : after.loaded = before.loaded + outcomes.count .loaded
  built : after.built = before.built + outcomes.count .built
  parsed : after.parsed = before.parsed + outcomes.count .parsed
  failed : after.failed = before.failed + outcomes.countP (· matches .failed _)

theorem Counts.trans {s s' s'' : BatchStats} {os os' : List Outcome} (h : Counts s os s')
    (h' : Counts s' os' s'') : Counts s (os ++ os') s'' := by
  refine ⟨?_, ?_, ?_, ?_⟩
  · rw [List.count_append, h'.loaded, h.loaded, Nat.add_assoc]
  · rw [List.count_append, h'.built, h.built, Nat.add_assoc]
  · rw [List.count_append, h'.parsed, h.parsed, Nat.add_assoc]
  · rw [List.countP_append, h'.failed, h.failed, Nat.add_assoc]

/-- In which order outcomes are counted does not matter. -/
theorem Counts.of_perm {s s' : BatchStats} {os os' : List Outcome} (h : Counts s os s')
    (hperm : os.Perm os') : Counts s os' s' := by
  refine ⟨?_, ?_, ?_, ?_⟩
  · rw [h.loaded, hperm.count_eq]
  · rw [h.built, hperm.count_eq]
  · rw [h.parsed, hperm.count_eq]
  · rw [h.failed, hperm.countP_eq]

theorem counts_count (stats : BatchStats) (outcome : Outcome) :
    Counts stats [outcome] (stats.count outcome) := by
  cases outcome <;> exact ⟨rfl, rfl, rfl, rfl⟩

section Runs

variable {σ : Type} {files : Files (Task σ)} {session : Session} {parser : UnitParser (Task σ)}
  {stats : BatchStats} {paths : List String} {s : σ}

/-- The outcome of a task that is done. -/
def outcome? {τ : Type} : Task τ Outcome → Option Outcome
  | .done outcome => some outcome
  | .step _ _ => none

/-- A task whose outcome is to be counted is done when it has been counted. -/
theorem counted_cases (task : Task σ Outcome) : ∃ act next, counted task = .step act next ∧ ∀ S,
    (∃ o, act S = (S.1, S.2.count o) ∧ next S = .done o) ∨
      (act S).2 = S.2 ∧ ∃ rest, next S = counted rest := by
  cases task with
  | done o => exact ⟨_, _, rfl, fun S => .inl ⟨o, rfl, rfl⟩⟩
  | step act next => exact ⟨_, _, rfl, fun S => .inr ⟨rfl, next S.1, rfl⟩⟩

theorem outcome?_counted (task : Task σ Outcome) : outcome? (counted task) = none := by
  obtain ⟨act, next, heq, -⟩ := counted_cases task
  rw [heq, outcome?]

theorem filterMap_set_perm {α β : Type} {f : α → Option β} {xs : List α} {i : Nat} {x : α}
    (h : xs[i]? = some x) (hx : f x = none) (y : α) :
    ((f y).toList ++ xs.filterMap f).Perm ((xs.set i y).filterMap f) := by
  obtain ⟨hi, rfl⟩ := List.getElem?_eq_some_iff.1 h
  have hold : xs.filterMap f = (xs.take i).filterMap f ++ (xs.drop (i + 1)).filterMap f := by
    conv_lhs => rw [← List.take_append_drop i xs, List.drop_eq_getElem_cons hi]
    rw [List.filterMap_append, List.filterMap_cons_none hx]
  rw [List.set_eq_take_append_cons_drop, if_pos hi, List.filterMap_append, hold]
  cases hy : f y with
  | none =>
    rw [List.filterMap_cons_none hy]
    exact .refl _
  | some z =>
    rw [List.filterMap_cons_some hy, Option.toList_some, List.singleton_append]
    exact List.perm_middle.symm

/-- Every step of a batch that counts an outcome is the last one of its unit, and each unit takes one. -/
theorem counts_of_interleaved {tasks : List (Task (σ × BatchStats) Outcome)} {S S' : σ × BatchStats}
    {outcomes : List Outcome} (h : Task.Interleaved tasks S outcomes S')
    (htasks : ∀ t ∈ tasks, (∃ o, t = .done o) ∨ ∃ task, t = counted task)
    (hstats : Counts stats (tasks.filterMap outcome?) S.2) : Counts stats outcomes S'.2 := by
  induction h with
  | done outcomes S =>
    rw [List.filterMap_map] at hstats
    change Counts stats (outcomes.filterMap some) S.2 at hstats
    rwa [List.filterMap_some] at hstats
  | @step tasks S _ _ i act next hturn _ ih =>
    have hmem := List.mem_of_getElem? hturn
    obtain ⟨task, htask⟩ : ∃ task, Task.step act next = counted task :=
      (htasks _ hmem).resolve_left (by simp)
    obtain ⟨act', next', heq, hcases⟩ := counted_cases task
    obtain ⟨rfl, rfl⟩ := Task.step.inj (htask.trans heq)
    have hperm := filterMap_set_perm (f := outcome?) hturn rfl (next S)
    refine ih (fun t ht => ?_) ?_
    · rcases List.mem_or_eq_of_mem_set ht with ht | rfl
      · exact htasks t ht
      · rcases hcases S with ⟨o, -, hnext⟩ | ⟨-, rest, hnext⟩
        · exact .inl ⟨o, hnext⟩
        · exact .inr ⟨rest, hnext⟩
    · refine Counts.of_perm ?_ hperm
      rcases hcases S with ⟨o, hact, hnext⟩ | ⟨hact, rest, hnext⟩
      · rw [hact, hnext]
        exact ((hstats.trans (counts_count S.2 o)).of_perm List.perm_append_comm)
      · rw [hact, hnext, outcome?_counted]
        exact hstats

/-- The report lists all units in order, and what it lists is counted. -/
theorem run_counts (schedule : List Nat) (stats : BatchStats) (paths : List String) (s : σ) :
    let answer := (run schedule files session parser stats paths s).1
    answer.1.outcomes.map Prod.fst = paths ∧
      Counts stats (answer.1.outcomes.map Prod.snd) answer.2 := by
  have hrun := Task.interleaved_interleave schedule
    (paths.map fun path => counted (process files session parser path)) (s, stats)
  have hlength := hrun.length_eq
  rw [List.length_map] at hlength
  refine ⟨?_, ?_⟩
  · exact List.map_fst_zip hlength.ge
  · rw [run]
    dsimp only
    rw [List.map_snd_zip hlength.le]
    refine counts_of_interleaved hrun (fun t ht => ?_) ?_
    · obtain ⟨path, -, rfl⟩ := List.mem_map.1 ht
      exact .inr ⟨_, rfl⟩
    · have hnone : (paths.map fun path => counted (process files session parser path)).filterMap
          outcome? = [] := by
        refine List.filterMap_eq_nil_iff.2 fun t ht => ?_
        obtain ⟨path, -, rfl⟩ := List.mem_map.1 ht
        exact outcome?_counted _
      rw [hnone]
      exact ⟨rfl, rfl, rfl, rfl⟩

/-- Runs batches one after the other, each with an order and from a state of its own, and counts on. -/
def runAll (files : Files (Task σ)) (session : Session) (parser : UnitParser (Task σ))
    (stats : BatchStats) : List (List Nat × List String × σ) → List BatchReport × BatchStats
  | [] => ([], stats)
  | (schedule, paths, s) :: rest =>
    let answer := (run schedule files session parser stats paths s).1
    let others := runAll files session parser answer.2 rest
    (answer.1 :: others.1, others.2)

/-- Every report lists all units in order, and what all reports list has been counted. -/
theorem runAll_counts (stats : BatchStats) (batches : List (List Nat × List String × σ)) :
    (runAll files session parser stats batches).1.map (fun report => report.outcomes.map Prod.fst) =
        batches.map (fun batch => batch.2.1) ∧
      Counts stats ((runAll files session parser stats batches).1.flatMap
          (fun report => report.outcomes.map Prod.snd))
        (runAll files session parser stats batches).2 := by
  induction batches generalizing stats with
  | nil => exact ⟨rfl, rfl, rfl, rfl, rfl⟩
  | cons batch batches ih =>
    obtain ⟨schedule, paths, s⟩ := batch
    obtain ⟨hpaths, hcounts⟩ := run_counts schedule stats paths s
    obtain ⟨hpaths', hcounts'⟩ := ih (run schedule files session parser stats paths s).1.2
    rw [runAll]
    refine ⟨?_, ?_⟩
    · rw [List.map_cons, List.map_cons, hpaths', hpaths]
    · rw [List.flatMap_cons]
      exact hcounts.trans hcounts'

end Runs

/-! ### Records -/

section Dealings

variable {σ : Type} {files : Files (Task σ)} {session : Session} {parser : UnitParser (Task σ)}

/-- Deals with a unit of a session that has a cache; tells the record too. -/
def deal (files : Files (Task σ)) (session : Session) (parser : UnitParser (Task σ)) (path : String) :
    Task σ (Record × Outcome) := do
  let record ← Record.openAt files session path
  let outcome ← serve files session parser record
  return (record, outcome)

/-- Counts the outcome of a unit. -/
def finish (answer : Record × Outcome) : Task (σ × BatchStats) (Record × Outcome) := do
  Task.once fun s => ((), s.1, s.2.count answer.2)
  return answer

/-- What becomes of the units of a batch: their records and outcomes, and the state that is left. -/
def dealings (schedule : List Nat) (files : Files (Task σ)) (session : Session)
    (parser : UnitParser (Task σ)) (stats : BatchStats) (paths : List String) (s : σ) :
    List (Record × Outcome) × σ × BatchStats :=
  Task.interleave schedule (paths.map fun path => (deal files session parser path).onFirst >>= finish)
    (s, stats)

theorem counted_process (henabled : session.cache.enabled = true) (path : String) :
    counted (process files session parser path) =
      ((deal files session parser path).onFirst >>= finish) >>= fun answer => pure answer.2 := by
  rw [process, if_pos henabled, loadOrBuild, counted, deal]
  simp only [finish, Task.onFirst_bind, Task.onFirst_pure, bind_assoc, pure_bind]

/-- Telling the records changes nothing. -/
theorem run_eq_dealings (henabled : session.cache.enabled = true) (schedule : List Nat)
    (stats : BatchStats) (paths : List String) (s : σ) :
    run schedule files session parser stats paths s =
      let (answers, s', stats') := dealings schedule files session parser stats paths s
      ((⟨paths.zip (answers.map Prod.snd)⟩, stats'), s') := by
  have htasks : (paths.map fun path => counted (process files session parser path)) =
      (paths.map fun path => (deal files session parser path).onFirst >>= finish).map
        fun t => t >>= fun answer => pure answer.2 := by
    rw [List.map_map]
    exact List.map_congr_left fun path _ => counted_process henabled path
  rw [run, htasks, Task.map_interleave]
  rfl

end Dealings

/-! ### Together -/

/-- The record of a unit that is opened on a disk. -/
def recordAt (session : Session) (d : Disk) (path : String) : Record where
  source := (d.canonical? path).getD path
  artifact := Path.artifact session.cache.directory ((d.canonical? path).getD path)

section Together

variable {π : Type} {session : Session} {parser : UnitParser (Task (Disk × π))} {d : Disk}
  {region : Place → Prop} {I : π → Prop} {path : String} {r : Record}
  {pre : Disk × π → Prop} {post : Outcome → Disk × π → Prop}

/-- What is left to do for a unit when it has been opened. -/
def afterOpening (session : Session) (parser : UnitParser (Task (Disk × π))) (r : Record) :
    Task ((Disk × π) × BatchStats) (Record × Outcome) :=
  (serve Disk.sharedSteps session parser r >>= fun outcome => pure (r, outcome)).onFirst >>= finish

/-- The first step of a unit is to open it. -/
theorem deal_eq (session : Session) (parser : UnitParser (Task (Disk × π))) (path : String) :
    (deal Disk.sharedSteps session parser path).onFirst >>= finish =
      .step (fun S => S) fun S => afterOpening session parser (recordAt session S.1.1 path) := by
  have hopen : Record.openAt Disk.sharedSteps session path =
      .step (fun s : Disk × π => s) fun s => pure (recordAt session s.1 path) := rfl
  rw [deal, hopen]
  rfl

theorem canGive_afterOpening {a : Record × Outcome}
    (h : Task.CanGive a (afterOpening session parser r)) : a.1 = r := by
  obtain ⟨b, hb, hfinish⟩ := Task.canGive_bind h
  obtain ⟨outcome, -, hpure⟩ := Task.canGive_bind (Task.canGive_onFirst hb)
  rcases hpure with - | -
  rcases hfinish with - | ⟨S, hdone⟩
  rcases hdone with - | -
  rfl

/-- What a unit relies on, and what it promises, beside the units of other artifacts. -/
abbrev Fulfils (d : Disk) (region : Place → Prop) (I : π → Prop) (r : Record)
    (post : Outcome → Disk × π → Prop) :
    Task ((Disk × π) × BatchStats) (Record × Outcome) → (Disk × π) × BatchStats → Prop :=
  Task.Fulfils (fun S S' => Leaves (d.Owns r.artifact) region I S.1 S'.1)
    (fun S S' => Leaves (fun g => ¬ d.Owns r.artifact g) region I S.1 S'.1)
    fun a S => post a.2 S.1

/-- Whether dealing with the unit of a record leads from one property to another, both of which others leave
alone. -/
structure Serves (d : Disk) (region : Place → Prop) (I : π → Prop) (session : Session)
    (parser : UnitParser (Task (Disk × π))) (r : Record) (pre : Disk × π → Prop)
    (post : Outcome → Disk × π → Prop) : Prop where
  before : Task.Stable (Leaves (d.Owns r.artifact) region I) pre
  after : ∀ outcome, Task.Stable (Leaves (d.Owns r.artifact) region I) (post outcome)
  brings : Task.Brings (Leaves (d.Owns r.artifact) region I)
    (Leaves (fun g => ¬ d.Owns r.artifact g) region I) pre (serve Disk.sharedSteps session parser r) post

theorem Serves.afterOpening (h : Serves d region I session parser r pre post)
    {S : (Disk × π) × BatchStats} (hS : pre S.1) :
    Fulfils d region I r post (afterOpening session parser r) S := by
  have hserve := h.brings.bind fun outcome => .pure (b := (r, outcome)) (Q := fun a s => post a.2 s)
    fun s hs => hs
  refine Task.Brings.bind (hserve.onFirst (fun _ _ hrely => hrely) fun _ _ hkeeps _ => hkeeps)
    (fun a => ?_) S hS
  refine Task.Brings.bind (R := fun _ S => post a.2 S.1) (.once ?_ ?_) fun _ => .pure fun S hS => hS
  · exact fun S S' hS hrely => h.after a.2 _ _ hS hrely
  · rintro S _ S' hS heq
    obtain ⟨-, rfl⟩ := Prod.mk.inj heq
    exact ⟨.refl _, hS⟩

/-- What a unit of a batch is known to be: it has not been opened, or it has, with a record, and keeps its
promises. -/
inductive Dealing (d : Disk) (region : Place → Prop) (I : π → Prop) (session : Session)
    (parser : UnitParser (Task (Disk × π))) (path : String) (r : Record) (pre : Disk × π → Prop)
    (post : Outcome → Disk × π → Prop) :
    Task ((Disk × π) × BatchStats) (Record × Outcome) → (Disk × π) × BatchStats → Prop
  | waiting {S : (Disk × π) × BatchStats} : pre S.1 → Dealing d region I session parser path r pre post
      ((deal Disk.sharedSteps session parser path).onFirst >>= finish) S
  | opened {e : Disk × π} {T : Task ((Disk × π) × BatchStats) (Record × Outcome)}
      {S : (Disk × π) × BatchStats} : pre e → r = recordAt session e.1 path →
      Fulfils d region I r post T S → Dealing d region I session parser path r pre post T S

/-- The record of a unit is the one that it was opened with. -/
theorem exists_opened {a : Record × Outcome}
    (h : Task.CanGive a ((deal Disk.sharedSteps session parser path).onFirst >>= finish)) :
    ∃ e, a.1 = recordAt session e path := by
  rw [deal_eq] at h
  rcases h with - | ⟨S, h⟩
  exact ⟨S.1.1, canGive_afterOpening h⟩

/-- A step leaves a unit what it is known to be, and the files of all other artifacts alone. -/
theorem Dealing.step {act : (Disk × π) × BatchStats → (Disk × π) × BatchStats}
    {next : (Disk × π) × BatchStats → Task ((Disk × π) × BatchStats) (Record × Outcome)}
    {S : (Disk × π) × BatchStats} {a : Record × Outcome}
    (h : Dealing d region I session parser path a.1 pre post (.step act next) S)
    (hanswer : Task.CanGive a (next S)) (hserves : Serves d region I session parser a.1 pre post) :
    Leaves (fun g => ¬ d.Owns a.1.artifact g) region I S.1 (act S).1 ∧
      Dealing d region I session parser path a.1 pre post (next S) (act S) := by
  generalize htask : Task.step act next = T at h
  cases h with
  | waiting hpre =>
    rw [deal_eq] at htask
    obtain ⟨rfl, rfl⟩ := Task.step.inj htask
    have hrecord := canGive_afterOpening hanswer
    refine ⟨.refl _, .opened hpre hrecord ?_⟩
    have hfulfils := hserves.afterOpening hpre
    rwa [hrecord] at hfulfils ⊢
  | opened hpre hrecord hfulfils =>
    subst htask
    obtain ⟨hleaves, hrest⟩ := hfulfils S (.refl _)
    exact ⟨hleaves, .opened hpre hrecord hrest⟩

theorem Dealing.of_leaves {T : Task ((Disk × π) × BatchStats) (Record × Outcome)}
    {S S' : (Disk × π) × BatchStats} (h : Dealing d region I session parser path r pre post T S)
    (hleaves : Leaves (d.Owns r.artifact) region I S.1 S'.1)
    (hserves : Serves d region I session parser r pre post) :
    Dealing d region I session parser path r pre post T S' := by
  cases h with
  | waiting h => exact .waiting (hserves.before _ _ h hleaves)
  | opened he hrecord hfulfils =>
    exact .opened he hrecord (hfulfils.of_rely hleaves (fun _ _ _ => Leaves.trans)
      fun a S S' hS hrely => hserves.after a.2 _ _ hS hrely)

theorem Dealing.of_done {a : Record × Outcome} {S : (Disk × π) × BatchStats}
    (h : Dealing d region I session parser path r pre post (.done a) S) :
    (∃ e, pre e ∧ r = recordAt session e.1 path) ∧ post a.2 S.1 := by
  generalize htask : Task.done a = T at h
  cases h with
  | waiting hpre =>
    rw [deal_eq] at htask
    exact absurd htask (by simp)
  | opened hpre hrecord hfulfils =>
    subst htask
    exact ⟨⟨_, hpre, hrecord⟩, hfulfils⟩

variable {schedule : List Nat} {stats stats' : BatchStats} {paths : List String} {s s' : Disk × π}
  {answers : List (Record × Outcome)}

/-- Whether the artifacts of a batch belong at different places. -/
def Distinct (d : Disk) (answers : List (Record × Outcome)) : Prop :=
  (answers.map fun a => d.goal a.1.artifact).Nodup

instance instDecidableDistinct (d : Disk) (answers : List (Record × Outcome)) :
    Decidable (Distinct d answers) :=
  inferInstanceAs (Decidable (List.Nodup _))

theorem Distinct.goal_ne (h : Distinct d answers) {i j : Nat} {a b : Record × Outcome}
    (ha : answers[i]? = some a) (hb : answers[j]? = some b) (hne : i ≠ j) :
    d.goal a.1.artifact ≠ d.goal b.1.artifact := by
  intro heq
  have hi : (answers.map fun a => d.goal a.1.artifact)[i]? = some (d.goal a.1.artifact) := by
    rw [List.getElem?_map, ha, Option.map_some]
  have hj : (answers.map fun a => d.goal a.1.artifact)[j]? = some (d.goal a.1.artifact) := by
    rw [List.getElem?_map, hb, Option.map_some, heq]
  exact hne ((List.getElem?_inj (List.getElem?_eq_some_iff.1 hi).1 h).1 (hi.trans hj.symm))

theorem length_dealings
    (hrun : dealings schedule Disk.sharedSteps session parser stats paths s = (answers, s', stats')) :
    answers.length = paths.length := by
  have hlength := Task.length_interleave schedule (paths.map fun path =>
    (deal Disk.sharedSteps session parser path).onFirst >>= finish) (s, stats)
  rw [dealings] at hrun
  rwa [hrun, List.length_map] at hlength

/-- Every unit has been opened at some point of the run. -/
theorem exists_recordAt
    (hrun : dealings schedule Disk.sharedSteps session parser stats paths s = (answers, s', stats'))
    {i : Nat} {a : Record × Outcome} (ha : answers[i]? = some a) :
    ∃ path e, paths[i]? = some path ∧ a.1 = recordAt session e path := by
  have hi : i < paths.length := length_dealings hrun ▸ (List.getElem?_eq_some_iff.1 ha).1
  have hpath : paths[i]? = some paths[i] := List.getElem?_eq_getElem hi
  obtain ⟨e, he⟩ := exists_opened ((Task.interleaved_iff.2 ⟨schedule, hrun⟩).canGive
    (by rw [List.getElem?_map, hpath, Option.map_some]) ha)
  exact ⟨_, e, hpath, he⟩

/-- In a batch of different artifacts, what holds when each unit is opened leads to what holds when all are
done, if it does so for each unit with the files of all other artifacts left alone. -/
theorem dealt (region : Place → Prop) (I : π → Prop) (pre : Record → Disk × π → Prop)
    (post : Nat → Record → Outcome → Disk × π → Prop)
    (hrun : dealings schedule Disk.sharedSteps session parser stats paths s = (answers, s', stats'))
    (hdistinct : Distinct d answers) (hstart : ∀ r, pre r s)
    (hserves : ∀ i a, answers[i]? = some a →
      Serves d region I session parser a.1 (pre a.1) (post i a.1))
    {i : Nat} {a : Record × Outcome} (hpath : paths[i]? = some path) (ha : answers[i]? = some a) :
    (∃ e, pre a.1 e ∧ a.1 = recordAt session e.1 path) ∧ post i a.1 a.2 s' := by
  have hparties := Task.Interleaved.party_done
    (fun i T S => ∀ path a, paths[i]? = some path → answers[i]? = some a →
      Dealing d region I session parser path a.1 (pre a.1) (post i a.1) T S)
    (fun i S S' => ∀ a, answers[i]? = some a → Leaves (d.Owns a.1.artifact) region I S.1 S'.1)
    (fun i S S' => ∀ a, answers[i]? = some a →
      Leaves (fun g => ¬ d.Owns a.1.artifact g) region I S.1 S'.1)
    (Task.interleaved_iff.2 ⟨schedule, hrun⟩)
  refine (hparties ?_ ?_ ?_ ?_ i a ha path a hpath ha).of_done
  · intro i T hT path a hpath _
    rw [List.getElem?_map, hpath] at hT
    obtain rfl := Option.some.inj hT
    exact .waiting (hstart a.1)
  · intro i act next S a ha hparty hanswer
    have hstep : ∀ path, paths[i]? = some path → _ := fun path hpath =>
      (hparty path a hpath ha).step hanswer (hserves i a ha)
    refine ⟨fun b hb => ?_, fun path b hpath hb => ?_⟩ <;>
      obtain rfl := Option.some.inj (ha.symm.trans hb)
    · obtain ⟨path, -, hpath, -⟩ := exists_recordAt hrun ha
      exact (hstep path hpath).1
    · exact (hstep path hpath).2
  · intro i j S S' hi hj hne hguarantee b hb
    have ha := List.getElem?_eq_getElem hi
    obtain ⟨_, e, _, he⟩ := exists_recordAt hrun ha
    obtain ⟨_, e', _, he'⟩ := exists_recordAt hrun hb
    have hgoal := hdistinct.goal_ne hb ha hne.symm
    refine (hguarantee _ ha).mono fun g hg => ?_
    rw [he'] at hgoal hg
    rw [he] at hgoal ⊢
    exact Disk.not_owns_of_goal_ne hgoal hg
  · intro i T S S' hparty hrely path a hpath ha
    exact (hparty path a hpath ha).of_leaves (hrely a ha) (hserves i a ha)

/-! ### What has been built -/

theorem holds_of_keeps {unit : ParsedUnit} {kept : Place → Prop} {e e' : Disk} (h : r.Holds unit e)
    (hkept : kept (e.goal r.artifact)) (hkeeps : Disk.Keeps kept region e e') : r.Holds unit e' := by
  obtain ⟨bytes, hencode, hopen⟩ := h
  exact ⟨bytes, hencode, (hkeeps.openFile_eq hkept hopen).1⟩

/-- Dealing with any unit leaves the rest of the disk as it was, and the unit has its artifact if it is
built. -/
theorem serves_record (hparser : ReadsOnly parser)
    (hown : (parser (UnitContext.start session r.source)).Always fun s s' => I s.2 → I s'.2)
    (hartifact : r.artifact = Path.artifact session.cache.directory r.source)
    (hconfined : d.Confined region r.artifact) :
    Serves d region I session parser r (fun s => d.Follows region s.1) fun outcome s =>
      d.Follows region s.1 ∧
        (outcome = .built → ∃ unit, r.BuiltFrom parser session unit s.1) where
  before _ _ hs hleaves := hs.of_keeps hleaves.disk
  after outcome s s' hs hleaves := by
    obtain ⟨hfollows, hbuilt⟩ := hs
    refine ⟨hfollows.of_keeps hleaves.disk, fun houtcome => ?_⟩
    obtain ⟨unit, hgives, hholds⟩ := hbuilt houtcome
    refine ⟨unit, hgives, holds_of_keeps hholds ?_ hleaves.disk⟩
    rw [Disk.goal_of_here hfollows.here]
    exact d.owns_goal r.artifact
  brings := by
    obtain ⟨outer, name, hpath⟩ := Path.exists_endsIn_artifact session.cache.directory r.source
    rw [← hartifact] at hpath
    exact works_serve hpath hconfined hparser hown

/-- In a batch of different artifacts the disk is left as it was outside a region, if all artifacts are
written in it, and every unit that is built has its artifact in the end. -/
theorem dealt_apart (region : Place → Prop) (hparser : ReadsOnly parser)
    (hrun : dealings schedule Disk.sharedSteps session parser stats paths s = (answers, s', stats'))
    (hdistinct : Distinct s.1 answers) (hconfined : ∀ a ∈ answers, s.1.Confined region a.1.artifact)
    {i : Nat} {a : Record × Outcome} (hpath : paths[i]? = some path) (ha : answers[i]? = some a) :
    (∃ e : Disk, s.1.Follows region e ∧ a.1 = recordAt session e path) ∧
      (a.2 = .built → ∃ unit, a.1.BuiltFrom parser session unit s'.1) := by
  have hserves : ∀ (j : Nat) (b : Record × Outcome), answers[j]? = some b →
      Serves s.1 region (fun _ => True) session parser b.1 (fun t => s.1.Follows region t.1)
        fun outcome t => s.1.Follows region t.1 ∧
          (outcome = .built → ∃ unit, b.1.BuiltFrom parser session unit t.1) := by
    intro j b hb
    obtain ⟨_, e, _, he⟩ := exists_recordAt hrun hb
    exact serves_record hparser ((hparser _).mono fun _ _ _ _ => trivial) (by rw [he]; rfl)
      (hconfined b (List.mem_of_getElem? hb))
  obtain ⟨⟨e, he, hrecord⟩, -, hbuilt⟩ := dealt region (fun _ => True)
    (fun _ t => s.1.Follows region t.1) (fun _ r outcome t => s.1.Follows region t.1 ∧
      (outcome = .built → ∃ unit, r.BuiltFrom parser session unit t.1)) hrun hdistinct
    (fun _ => .refl _) hserves hpath ha
  exact ⟨⟨e.1, he, hrecord⟩, hbuilt⟩

end Together

end Batch

end AblAnalysis
