import AblAnalysis.Task

/-!
Tasks that are taken together. They can take their steps in any order, and every order is the one of some
schedule (`interleaved_iff`). What each task is known to be, at every point of a run, is known by induction
over the steps: the one who takes a step must stay within its guarantee, and the others must be able to rely
on that (`Interleaved.party_done`).
-/

namespace AblAnalysis.Task

variable {σ τ α β : Type} {tasks : List (Task σ α)} {answers : List α} {a : α} {b : β} {s s' : σ}

/-! ### Orders -/

/-- Whether tasks come to answers and a state, with their steps in some order. -/
inductive Interleaved : List (Task σ α) → σ → List α → σ → Prop
  | done (answers : List α) (s : σ) : Interleaved (answers.map .done) s answers s
  | step {tasks : List (Task σ α)} {s s' : σ} {answers : List α} {i : Nat} {act : σ → σ}
      {next : σ → Task σ α} : tasks[i]? = some (.step act next) →
      Interleaved (tasks.set i (next s)) (act s) answers s' → Interleaved tasks s answers s'

/-- One task may take all its steps first. -/
theorem Interleaved.run {before : List α} {rest : List (Task σ α)} (t : Task σ α) (s : σ)
    (h : Interleaved (before.map .done ++ .done (t.run s).1 :: rest) (t.run s).2 answers s') :
    Interleaved (before.map .done ++ t :: rest) s answers s' := by
  induction t generalizing s with
  | done a => exact h
  | step act next ih =>
    have hturn : (before.map .done ++ .step act next :: rest)[before.length]? =
        some (.step act next) := by
      rw [List.getElem?_append_right (by simp), List.length_map, Nat.sub_self, List.getElem?_cons_zero]
    refine .step hturn ?_
    rw [List.set_append_right _ _ (by simp), List.length_map, Nat.sub_self, List.set_cons_zero]
    exact ih s (act s) h

theorem interleaved_runAll (before : List α) (tasks : List (Task σ α)) (s : σ) :
    Interleaved (before.map .done ++ tasks) s (before ++ (runAll tasks s).1) (runAll tasks s).2 := by
  induction tasks generalizing before s with
  | nil =>
    rw [runAll, List.append_nil, List.append_nil]
    exact .done before s
  | cons t rest ih =>
    have hrest := ih (before ++ [(t.run s).1]) (t.run s).2
    rw [List.map_append, List.append_assoc, List.append_assoc] at hrest
    exact .run t s hrest

/-- A schedule gives an order. -/
theorem interleaved_interleave (schedule : List Nat) (tasks : List (Task σ α)) (s : σ) :
    Interleaved tasks s (interleave schedule tasks s).1 (interleave schedule tasks s).2 := by
  induction schedule generalizing tasks s with
  | nil => exact interleaved_runAll [] tasks s
  | cons i schedule ih =>
    rw [interleave]
    split
    · rename_i act next hturn
      exact .step hturn (ih _ _)
    · exact ih _ _

theorem runAll_done (answers : List α) (s : σ) : runAll (answers.map .done) s = (answers, s) := by
  induction answers with
  | nil => rfl
  | cons a answers ih =>
    rw [List.map_cons, runAll, run]
    simp only [ih]

/-- Every order is the one of some schedule. -/
theorem interleaved_iff :
    Interleaved tasks s answers s' ↔ ∃ schedule, interleave schedule tasks s = (answers, s') := by
  constructor
  · intro h
    induction h with
    | done answers s => exact ⟨[], runAll_done answers s⟩
    | @step _ _ _ _ i act next hturn _ ih =>
      obtain ⟨schedule, hschedule⟩ := ih
      refine ⟨i :: schedule, ?_⟩
      rw [interleave, hturn]
      exact hschedule
  · rintro ⟨schedule, hschedule⟩
    have h := interleaved_interleave schedule tasks s
    rwa [hschedule] at h

theorem Interleaved.length_eq (h : Interleaved tasks s answers s') : answers.length = tasks.length := by
  induction h with
  | done answers s => rw [List.length_map]
  | step _ _ ih => rw [ih, List.length_set]

theorem length_interleave (schedule : List Nat) (tasks : List (Task σ α)) (s : σ) :
    (interleave schedule tasks s).1.length = tasks.length :=
  (interleaved_interleave schedule tasks s).length_eq

/-! ### Answers -/

theorem map_runAll (f : α → β) (tasks : List (Task σ α)) (s : σ) :
    runAll (tasks.map fun t => t >>= fun a => pure (f a)) s =
      ((runAll tasks s).1.map f, (runAll tasks s).2) := by
  induction tasks generalizing s with
  | nil => rfl
  | cons t rest ih =>
    rw [List.map_cons, runAll, runAll, run_bind]
    simp only [ih]
    rfl

/-- What is made of the answers takes no steps. -/
theorem map_interleave (f : α → β) (schedule : List Nat) (tasks : List (Task σ α)) (s : σ) :
    interleave schedule (tasks.map fun t => t >>= fun a => pure (f a)) s =
      ((interleave schedule tasks s).1.map f, (interleave schedule tasks s).2) := by
  induction schedule generalizing tasks s with
  | nil => exact map_runAll f tasks s
  | cons i schedule ih =>
    rw [interleave, interleave, List.getElem?_map]
    rcases tasks[i]? with - | ⟨a | ⟨act, next⟩⟩
    · exact ih tasks s
    · exact ih tasks s
    · have hset := ih (tasks.set i (next s)) (act s)
      rwa [List.map_set] at hset

/-- Whether a task can end with an answer, whatever its steps find. -/
inductive CanGive (a : α) : Task σ α → Prop
  | done : CanGive a (.done a)
  | step {act : σ → σ} {next : σ → Task σ α} (s : σ) : CanGive a (next s) → CanGive a (.step act next)

theorem canGive_bind {t : Task σ α} {f : α → Task σ β} (h : CanGive b (t >>= f)) :
    ∃ a, CanGive a t ∧ CanGive b (f a) := by
  induction t with
  | done a => exact ⟨a, .done, h⟩
  | step act next ih =>
    rcases h with _ | ⟨s, h⟩
    obtain ⟨a, ha, hb⟩ := ih s h
    exact ⟨a, .step s ha, hb⟩

theorem canGive_onFirst {t : Task σ α} (h : CanGive a (t.onFirst : Task (σ × τ) α)) : CanGive a t := by
  induction t with
  | done b =>
    rcases h with - | -
    exact .done
  | step act next ih =>
    rcases h with - | ⟨s, h⟩
    exact .step s.1 (ih s.1 h)

theorem Interleaved.canGive (h : Interleaved tasks s answers s') {i : Nat} {t : Task σ α}
    (ht : tasks[i]? = some t) (ha : answers[i]? = some a) : CanGive a t := by
  induction h generalizing t with
  | done answers s =>
    rw [List.getElem?_map, ha] at ht
    obtain rfl := Option.some.inj ht
    exact .done
  | @step tasks s _ _ j act next hturn _ ih =>
    by_cases hij : j = i
    · subst hij
      obtain rfl := Option.some.inj (ht.symm.trans hturn)
      have hset : (tasks.set j (next s))[j]? = some (next s) :=
        List.getElem?_set_self (List.getElem?_eq_some_iff.1 hturn).1
      exact .step s (ih hset ha)
    · exact ih ((List.getElem?_set_ne hij).trans ht) ha

/-! ### Together -/

/-- Each task is what it is known to be until it is done, if every step of it, as long as the task can still
end with its answer, leaves it so and gives a guarantee on which the others can rely. -/
theorem Interleaved.party_done (party : Nat → Task σ α → σ → Prop) (rely guarantee : Nat → σ → σ → Prop)
    (h : Interleaved tasks s answers s')
    (hstart : ∀ i t, tasks[i]? = some t → party i t s)
    (hstep : ∀ i act next s a, answers[i]? = some a → party i (.step act next) s →
      CanGive a (next s) → guarantee i s (act s) ∧ party i (next s) (act s))
    (hrely : ∀ i j s s', i < answers.length → j < answers.length → i ≠ j → guarantee i s s' →
      rely j s s')
    (hstable : ∀ i t s s', party i t s → rely i s s' → party i t s') :
    ∀ i a, answers[i]? = some a → party i (.done a) s' := by
  induction h with
  | done answers s =>
    intro i a ha
    exact hstart i _ (by rw [List.getElem?_map, ha, Option.map_some])
  | @step tasks s s' answers i act next hturn hrest ih =>
    have hlength : answers.length = tasks.length := hrest.length_eq.trans List.length_set
    have hi : i < tasks.length := (List.getElem?_eq_some_iff.1 hturn).1
    have ha : answers[i]? = some answers[i] := List.getElem?_eq_getElem (by omega)
    have hset : (tasks.set i (next s))[i]? = some (next s) := List.getElem?_set_self hi
    obtain ⟨hguarantee, hparty⟩ :=
      hstep i act next s _ ha (hstart i _ hturn) (hrest.canGive hset ha)
    refine ih ?_ hstep hrely
    intro j t ht
    by_cases hij : i = j
    · subst hij
      obtain rfl := Option.some.inj (ht.symm.trans hset)
      exact hparty
    · rw [List.getElem?_set_ne hij] at ht
      have hj : j < tasks.length := (List.getElem?_eq_some_iff.1 ht).1
      exact hstable j t s _ (hstart j t ht)
        (hrely i j s _ (by omega) (by omega) hij hguarantee)

end AblAnalysis.Task
