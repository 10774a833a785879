import AblAnalysis.Proofs.Resolver.Scopes
import Mathlib.Data.List.Induction

/-!
Where brackets of changes lead. Closing a scope goes to the scope around it, not to where one came from.
For a scope that has just been opened these are the same; the scope of a routine stays where the routine
was begun for the first time (`home?_run`), so a routine leads there when it ends, wherever it has been
begun this time (`current_run_routine`). Brackets come back to where they began if every routine in them
is begun where it was begun for the first time.
-/

namespace AblAnalysis.Resolver

variable {r r' : Resolver} {changes : List Change}

/-- Changes in which every scope that is opened is closed and every routine that is begun is ended. -/
inductive Bracketed : List Change → Prop
  | nil : Bracketed []
  | change {change : Change} : change.stays = true → Bracketed [change]
  | append {changes more : List Change} : Bracketed changes → Bracketed more →
      Bracketed (changes ++ more)
  | scope (context : Option Nat) {body : List Change} : Bracketed body →
      Bracketed (.openScope context :: (body ++ [.closeScope]))
  | routine (name : String) (context : Option Nat) {body : List Change} : Bracketed body →
      Bracketed (.openRoutine name context :: (body ++ [.closeRoutine]))

/-- The scope in which changes begin a routine for the first time. -/
def begunIn? (r : Resolver) (name : String) : List Change → Option ScopeId
  | [] => none
  | change :: rest =>
    if change.begins name then some r.current else (r.step change).begunIn? name rest

/-- The scope around that of a routine. -/
def home? (r : Resolver) (name : String) : Option ScopeId :=
  (r.routines.get? (Text.lowercase name)).bind r.parent?

/-- Whether a routine that a change begins is new or at home in the current scope. -/
def AtHome (r : Resolver) : Change → Prop
  | .openRoutine name _ => (r.home? name).getD r.current = r.current
  | _ => True

/-- Whether changes begin every routine where it is at home. -/
def AllAtHome (r : Resolver) : List Change → Prop
  | [] => True
  | change :: rest => r.AtHome change ∧ (r.step change).AllAtHome rest

/-- Whether changes come back to where they began. -/
def ComesBack (r : Resolver) (changes : List Change) : Prop :=
  (r.run changes).current = r.current ∧ (r.run changes).depth = r.depth

theorem allAtHome_append {more : List Change} :
    r.AllAtHome (changes ++ more) ↔ r.AllAtHome changes ∧ (r.run changes).AllAtHome more := by
  induction changes generalizing r with
  | nil => exact (true_and _).symm.to_iff
  | cons change changes ih =>
    simp only [List.cons_append, AllAtHome, ih, and_assoc]
    rfl

/-! ### Where routines are at home -/

theorem home?_congr (h : r.Nested) (hext : Extends r r') (hroutines : r'.routines = r.routines)
    (name : String) : r'.home? name = r.home? name := by
  rw [home?, home?, hroutines]
  cases hid : r.routines.get? (Text.lowercase name) with
  | none => rfl
  | some id => exact hext.parent id (h.placed_routine hid)

/-- Only a new routine gets a home, and it is the current scope. -/
theorem home?_openRoutine (h : r.Nested) (name other : String) (context : Option Nat) :
    (r.openRoutine other context).home? name = (r.home? name).or
      (if Text.lowercase other = Text.lowercase name then some r.current else none) := by
  have hext := extends_openRoutine r other context
  cases hid : r.routines.get? (Text.lowercase other) with
  | some id =>
    obtain ⟨contexts, heq, -⟩ := openRoutine_of_some hid context
    rw [home?_congr h hext (by rw [heq])]
    split
    · rename_i heq
      obtain ⟨p, hp⟩ := h.routines _ id hid
      have hhome : r.home? name = some p := by
        rw [home?, ← heq, hid, Option.bind_some, hp]
      rw [hhome, Option.some_or]
    · rw [Option.or_none]
  | none =>
    rw [home?, openRoutine_of_none hid context, Dict.get?_insert]
    split
    · rename_i heq
      rw [if_pos heq.symm, home?, heq, hid, Option.bind_none, Option.none_or, Option.bind_some]
      exact parent?_new_openScope r context
    · rename_i hne
      rw [if_neg (Ne.symm hne), Option.or_none, home?]
      cases hid' : r.routines.get? (Text.lowercase name) with
      | none => rfl
      | some id => exact (extends_openScope r context).parent id (h.placed_routine hid')

theorem begins_of_stays {change : Change} (h : change.stays = true) (name : String) :
    change.begins name = false := by
  cases change with
  | openRoutine other context => exact absurd h (by simp [Change.stays])
  | _ => rfl

/-- A change gives a home to the routine that it begins, if it has none. -/
theorem Effect.home? {change : Change} (h : Effect r change r') (hr : r.Nested) (name : String) :
    r'.home? name = (r.home? name).or (if change.begins name then some r.current else none) := by
  have hkeep : r'.routines = r.routines → change.begins name = false →
      r'.home? name = (r.home? name).or (if change.begins name then some r.current else none) := by
    intro hroutines hbegins
    rw [hbegins, home?_congr hr h.extends hroutines]
    simp
  cases h with
  | edit h => exact hkeep (routines_modifyCurrent r _) (begins_of_stays h.stays name)
  | aside h => exact hkeep h.routines (h.begins name)
  | openScope context => exact hkeep (routines_openScope r context) rfl
  | enter _ => exact hkeep rfl rfl
  | openRoutine other context =>
    simpa [Change.begins] using home?_openRoutine hr name other context
  | _ => exact hkeep (by rw [closeScope_eq]) rfl

theorem begunIn?_concat (r : Resolver) (name : String) (changes : List Change) (last : Change) :
    r.begunIn? name (changes ++ [last]) = (r.begunIn? name changes).or
      (if last.begins name then some (r.run changes).current else none) := by
  induction changes generalizing r with
  | nil => rfl
  | cons change changes ih =>
    rw [List.cons_append, begunIn?, begunIn?, ih]
    split <;> rfl

/-- Routines are at home where they were begun for the first time. -/
theorem home?_run (schema : Schema) (infos : List ClassInfo) (changes : List Change) (name : String) :
    ((start schema infos).run changes).home? name = (start schema infos).begunIn? name changes := by
  induction changes using List.reverseRecOn with
  | nil => rfl
  | append_singleton changes change ih =>
    rw [run_concat, (effect_step _ change).home? (nested_run schema infos changes), begunIn?_concat, ih]

/-! ### Where brackets lead -/

theorem Effect.current {change : Change} (h : Effect r change r') (hstays : change.stays = true) :
    r'.current = r.current := by
  cases h with
  | edit _ => exact current_modifyCurrent r _
  | aside h => exact h.current
  | _ => exact absurd hstays (by simp [Change.stays])

theorem parent?_openRoutine (h : r.Nested) (name : String) (context : Option Nat) :
    (r.openRoutine name context).parent? (r.openRoutine name context).current =
      some ((r.home? name).getD r.current) := by
  cases hid : r.routines.get? (Text.lowercase name) with
  | some id =>
    obtain ⟨contexts, heq, -⟩ := openRoutine_of_some hid context
    obtain ⟨p, hp⟩ := h.routines _ id hid
    rw [heq, home?, hid, Option.bind_some, hp, Option.getD_some]
    exact (parent?_congr rfl id).trans hp
  | none =>
    rw [openRoutine_of_none hid context, home?, hid, Option.bind_none, Option.getD_none]
    show (r.openScope context).parent? (r.openScope context).current = some r.current
    rw [current_openScope, parent?_new_openScope]

/-- What has been opened is left for the scope around it. -/
theorem current_closeScope_run {p : ScopeId} (hp : r.parent? r.current = some p)
    (hback : (r.run changes).current = r.current) : (r.run changes).closeScope.current = p := by
  rw [closeScope, hback, (extends_run r changes).parent? hp]

/-- A routine ends at home, if all that happens in it comes back. -/
theorem current_run_routine (h : r.Nested) (name : String) (context : Option Nat)
    (hback : ((r.openRoutine name context).run changes).current =
      (r.openRoutine name context).current) :
    (r.run (.openRoutine name context :: (changes ++ [.closeRoutine]))).current =
      (r.home? name).getD r.current := by
  refine Eq.trans ?_ (current_closeScope_run (parent?_openRoutine h name context) hback)
  rw [← List.cons_append, run_concat]
  rfl

theorem Bracketed.current_run (h : Bracketed changes) (hr : r.Nested) (hhome : r.AllAtHome changes) :
    (r.run changes).current = r.current := by
  induction h generalizing r with
  | nil => rfl
  | change hstays => exact (effect_step r _).current hstays
  | append _ _ ih ih' =>
    obtain ⟨hhome, hhome'⟩ := allAtHome_append.1 hhome
    rw [run_append, ih' (hr.run _) hhome', ih hr hhome]
  | scope context _ ih =>
    have hbody := (allAtHome_append.1 hhome.2).1
    have hback := ih (hr.openScope context) hbody
    have hp : (r.openScope context).parent? (r.openScope context).current = some r.current := by
      rw [current_openScope, parent?_new_openScope]
    refine Eq.trans ?_ (current_closeScope_run hp hback)
    rw [← List.cons_append, run_concat]
    rfl
  | routine name context _ ih =>
    have hbody := (allAtHome_append.1 hhome.2).1
    rw [current_run_routine hr name context (ih (hr.openRoutine name context) hbody)]
    exact hhome.1

theorem Bracketed.comesBack (h : Bracketed changes) (hr : r.Nested) (hhome : r.AllAtHome changes) :
    r.ComesBack changes := by
  have hback := h.current_run hr hhome
  refine ⟨hback, ?_⟩
  rw [depth, depth, hback, hr.chainFrom_congr (hr.run changes) (extends_run r changes) hr.current]

/-- Brackets all of which come back begin every routine at home. -/
theorem Bracketed.allAtHome (h : Bracketed changes) (hr : r.Nested)
    (hback : ∀ pre block post, changes = pre ++ block ++ post → Bracketed block →
      ((r.run pre).run block).current = (r.run pre).current) : r.AllAtHome changes := by
  induction h generalizing r with
  | nil => trivial
  | @change change hstays =>
    refine ⟨?_, trivial⟩
    cases change with
    | openRoutine name context => exact absurd hstays (by simp [Change.stays])
    | _ => trivial
  | @append changes more _ _ ih ih' =>
    refine allAtHome_append.2 ⟨ih hr ?_, ih' (hr.run changes) ?_⟩
    · rintro pre block post rfl hblock
      exact hback pre block (post ++ more) (by simp) hblock
    · rintro pre block post rfl hblock
      rw [← run_append r changes pre]
      exact hback (changes ++ pre) block post (by simp) hblock
  | @scope context body _ ih =>
    refine ⟨trivial, allAtHome_append.2 ⟨ih (hr.openScope context) ?_, trivial, trivial⟩⟩
    rintro pre block post rfl hblock
    exact hback (.openScope context :: pre) block (post ++ [.closeScope]) (by simp) hblock
  | @routine name context body hbody ih =>
    have hall : (r.openRoutine name context).AllAtHome body := by
      refine ih (hr.openRoutine name context) ?_
      rintro pre block post rfl hblock
      exact hback (.openRoutine name context :: pre) block (post ++ [.closeRoutine]) (by simp) hblock
    refine ⟨?_, allAtHome_append.2 ⟨hall, trivial, trivial⟩⟩
    have hends := current_run_routine hr name context
      (hbody.current_run (hr.openRoutine name context) hall)
    rw [AtHome, ← hends]
    exact hback [] _ [] (by simp) (.routine name context hbody)

/-- A routine is at home where it was begun for the first time, and ends there if all that happens in it
comes back. So brackets come back to where they began, with all brackets in them, if and only if they
begin every routine at home. -/
theorem comesBack_iff (schema : Schema) (infos : List ClassInfo) (before : List Change)
    (h : Bracketed changes) :
    let begun := start schema infos
    let r := begun.run before
    (∀ name, r.home? name = begun.begunIn? name before) ∧
    (∀ name context, (r.openRoutine name context).ComesBack changes →
      (r.run (.openRoutine name context :: (changes ++ [.closeRoutine]))).current =
        (begun.begunIn? name before).getD r.current) ∧
    ((∀ pre block post, changes = pre ++ block ++ post → Bracketed block →
      (r.run pre).ComesBack block) ↔ r.AllAtHome changes) := by
  intro begun r
  have hr : r.Nested := nested_run schema infos before
  have hhome : ∀ name, r.home? name = begun.begunIn? name before := home?_run schema infos before
  refine ⟨hhome, fun name context hback => ?_, ?_, ?_⟩
  · rw [← hhome name]
    exact current_run_routine hr name context hback.1
  · intro hback
    exact h.allAtHome hr fun pre block post heq hblock => (hback pre block post heq hblock).1
  · rintro hall pre block post rfl hblock
    have hblockhome := (allAtHome_append.1 (allAtHome_append.1 hall).1).2
    exact hblock.comesBack (hr.run pre) hblockhome

/-- Changes with a routine that was begun before and a new one, each at home. -/
theorem comesBack_sample :
    ((start {} []).run [.openRoutine "f" none, .closeRoutine]).ComesBack
      [.openScope (some 7), .openRoutine "g" none, .defineVar "x", .closeRoutine, .closeScope,
        .openRoutine "F" none, .closeRoutine] := by
  have h : Bracketed [.openScope (some 7), .openRoutine "g" none, .defineVar "x", .closeRoutine,
      .closeScope, .openRoutine "F" none, .closeRoutine] :=
    .append (.scope (some 7) (.routine "g" none (.change rfl)))
      (.routine "F" none .nil)
  refine (comesBack_iff {} [] [.openRoutine "f" none, .closeRoutine] h).2.2.2 ?_ [] _ [] (by simp) h
  exact ⟨trivial, rfl, trivial, trivial, trivial, rfl, trivial, trivial⟩

/-- A routine that is begun again inside a scope ends outside of it. -/
theorem not_comesBack_bracketed :
    ¬ ∀ (schema : Schema) (infos : List ClassInfo) (before changes : List Change),
      Bracketed changes → ((start schema infos).run before).ComesBack changes := by
  intro h
  have hback := h {} [] [.openRoutine "f" none, .closeRoutine, .openScope none]
    [.openRoutine "f" none, .closeRoutine] (.routine "f" none .nil)
  exact absurd hback.1 (by decide)

end AblAnalysis.Resolver
