import AblAnalysis.Proofs.Preprocessor.Resolution

/-!
What an undefine takes away. It removes the definition that an expansion of the name would get, and
empties the one place where that was kept (`Follows.emptied`). Whatever is removed never comes back, and
each undefine leaves fewer of the places of a name occupied, so a name that is undefined again and again
ends up standing for nothing (`undefine_run`).
-/

namespace AblAnalysis.Preprocessor

/-- The lower-case form of the names that are looked for at a place. -/
def Place.key : Place → String
  | .inFile _ name => Text.lowercase name
  | .argument _ key | .global key => key

theorem key_of_mem_places {innermost : Nat} {outer : List Nat} {name : String} {p : Place}
    (hp : p ∈ places innermost outer name) : p.key = Text.lowercase name := by
  simp only [places, List.mem_cons, List.mem_append, List.mem_map, List.not_mem_nil, or_false] at hp
  rcases hp with rfl | rfl | ⟨scope, -, rfl⟩ | rfl <;> rfl

theorem findSome?_congr {α β : Type} {f g : α → Option β} {l : List α}
    (h : ∀ a ∈ l, f a = g a) : l.findSome? f = l.findSome? g := by
  induction l with
  | nil => rfl
  | cons a l ih =>
    rw [List.findSome?_cons, List.findSome?_cons, h a (List.mem_cons_self ..),
      ih fun b hb => h b (List.mem_cons_of_mem _ hb)]

namespace Tracker

/-- The definitions that undefines of a name are recorded to have removed, when they follow each other
at these lines and columns. -/
def removals (t : Tracker) (name : String) : List (Int32 × Int32) → List (Option Nat)
  | [] => []
  | (line, column) :: rest =>
    ((t.undefine line column name).graph.definition? t.graph.size).bind (·.undefines) ::
      (t.undefine line column name).removals name rest

/-- Those of some places that have a definition. -/
def occupied (t : Tracker) (ps : List Place) : List Place :=
  ps.filter fun p => (t.lookup? p).isSome

/-- Whether `t'` is `t` without the definition that a name stood for. -/
structure Forgets (t t' : Tracker) (name : String) : Prop where
  /-- One place is emptied, that of the definition. -/
  place : ∃ p, t.lookup? p = t.resolve? name ∧
    ∀ q, t'.lookup? q = if q = p then none else t.lookup? q
  others : ∀ other, Text.lowercase other ≠ Text.lowercase name →
    t'.resolve? other = t.resolve? other
  unresolved : t.resolve? name = none → ∀ other, t'.resolve? other = t.resolve? other
  args : ∀ id, (t'.graph.inclusion? id).map (·.args) = (t.graph.inclusion? id).map (·.args)

end Tracker

variable {h : History} {t : Tracker} {name : String}

/-! ### One undefine -/

namespace Follows

/-- No definition is kept at two places. -/
theorem lookup?_inj (hf : Follows h t) {p q : Place} {id : Nat} (hp : t.lookup? p = some id)
    (hq : t.lookup? q = some id) : p = q :=
  hf.valid.made_inj id p q ((hf.kept id p).1 hp).made ((hf.kept id q).1 hq).made

theorem exists_place (hf : Follows h t) {id : Nat} (hid : t.resolve? name = some id) :
    ∃ p ∈ h.order name, t.lookup? p = some id := by
  rw [hf.resolve?_eq] at hid
  exact List.exists_of_findSome?_eq_some hid

/-- An undefine is recorded with what the name stood for. -/
theorem definition?_undefine (hf : Follows h t) (line column : Int32) :
    (t.undefine line column name).graph.definition? t.graph.size =
      some { kind := .undefine, name := name, undefines := t.resolve? name } := by
  have hrem := t.removed_remove hf.nodup name
  rw [← t.remove_fst (hf.records.named _), ← hrem.size]
  exact (Graph.definition?_addInside ..).trans (if_pos rfl)

theorem emptied (hf : Follows h t) (name : String) (line column : Int32) :
    ∃ p, t.lookup? p = t.resolve? name ∧
      ∀ q, (t.undefine line column name).lookup? q = if q = p then none else t.lookup? q := by
  obtain ⟨p, hp, hempty⟩ := (t.removed_remove hf.nodup name).emptied
  rw [t.remove_fst (hf.records.named _)] at hp
  refine ⟨p, hp, fun q => ?_⟩
  rw [Tracker.undefine, Tracker.lookup?_record, hempty]

/-- Nothing is found that was not there before, and what was removed is not found. -/
theorem lookup?_of_undefine (hf : Follows h t) {line column : Int32} {q : Place} {id : Nat}
    (hq : (t.undefine line column name).lookup? q = some id) :
    t.lookup? q = some id ∧ t.resolve? name ≠ some id := by
  obtain ⟨p, hp, hempty⟩ := hf.emptied name line column
  rw [hempty] at hq
  split at hq
  · exact absurd hq (by simp)
  · rename_i hne
    refine ⟨hq, fun hid => hne ?_⟩
    exact hf.lookup?_inj hq (hp.trans hid)

theorem lookup?_undefine_of_ne (hf : Follows h t) (line column : Int32) {q : Place}
    (hq : t.resolve? name = none ∨ t.lookup? q ≠ t.resolve? name) :
    (t.undefine line column name).lookup? q = t.lookup? q := by
  obtain ⟨p, hp, hempty⟩ := hf.emptied name line column
  rw [hempty]
  split
  · rename_i heq
    subst heq
    rcases hq with hnone | hne
    · rw [hp, hnone]
    · exact absurd hp hne
  · rfl

/-- Names that are looked for at places that stay as they are stand for what they stood for. -/
theorem resolve?_undefine (hf : Follows h t) (line column : Int32) {other : String}
    (hother : ∀ q ∈ h.order other, t.resolve? name = none ∨ t.lookup? q ≠ t.resolve? name) :
    (t.undefine line column name).resolve? other = t.resolve? other := by
  rw [(hf.undefine line column name).resolve?_eq, hf.resolve?_eq]
  exact findSome?_congr fun q hq => hf.lookup?_undefine_of_ne line column (hother q hq)

theorem args_undefine (hf : Follows h t) (line column : Int32) (id : Nat) :
    ((t.undefine line column name).graph.inclusion? id).map (·.args) =
      (t.graph.inclusion? id).map (·.args) := by
  have hargs : ∀ g : Graph, (g.inclusion? id).map (·.args) = (g.passed? id).map (·.args) := by
    intro g
    rw [g.passed?_eq, Option.map_map]
    rfl
  have hpassed : (t.undefine line column name).graph.passed? id = (t.remove name).2.graph.passed? id :=
    (t.remove name).2.graph.passed?_addInside_of_none _ _ _ rfl id
  rw [hargs, hargs, hpassed]
  rcases (t.removed_remove hf.nodup name).passed id with hsame | ⟨key, herase⟩
  · rw [hsame]
  · rw [herase, Option.map_map]
    rfl

theorem forgets (hf : Follows h t) (line column : Int32) :
    t.Forgets (t.undefine line column name) name where
  place := hf.emptied name line column
  others other hne := by
    refine hf.resolve?_undefine line column fun q hq => ?_
    cases hname : t.resolve? name with
    | none => exact .inl rfl
    | some id =>
      refine .inr fun hid => hne ?_
      obtain ⟨p, hp, hkept⟩ := hf.exists_place hname
      rw [← key_of_mem_places hq, ← key_of_mem_places hp, hf.lookup?_inj hid hkept]
  unresolved hnone _ := hf.resolve?_undefine line column fun _ _ => .inl hnone
  args := hf.args_undefine line column

/-! ### One undefine after the other -/

/-- A name stands for nothing when none of its places is occupied. -/
theorem resolve?_eq_none (hf : Follows h t) (hnone : (t.occupied (h.order name)).length = 0) :
    t.resolve? name = none := by
  rw [hf.resolve?_eq, List.findSome?_eq_none_iff]
  intro p hp
  have hnot := List.filter_eq_nil_iff.1 (List.length_eq_zero_iff.1 hnone) p hp
  simpa using hnot

/-- An undefine leaves fewer places occupied, if any was. -/
theorem length_occupied_undefine (hf : Follows h t) (name : String) (line column : Int32) :
    ((t.undefine line column name).occupied (h.order name)).length ≤
      (t.occupied (h.order name)).length - 1 := by
  obtain ⟨p, hp, hempty⟩ := hf.emptied name line column
  have hfewer : (t.undefine line column name).occupied (h.order name) =
      (t.occupied (h.order name)).filter (fun q => q ≠ p) := by
    rw [Tracker.occupied, Tracker.occupied, List.filter_filter]
    refine List.filter_congr fun q _ => ?_
    rw [hempty]
    by_cases hq : q = p <;> simp [hq]
  rw [hfewer]
  cases hname : t.resolve? name with
  | none =>
    have hall : t.occupied (h.order name) = [] := by
      rw [hf.resolve?_eq, List.findSome?_eq_none_iff] at hname
      exact List.filter_eq_nil_iff.2 fun q hq => by simp [hname q hq]
    rw [hall]
    exact Nat.le_refl _
  | some id =>
    obtain ⟨q, hq, hkept⟩ := hf.exists_place hname
    obtain rfl := hf.lookup?_inj hkept (hp.trans hname)
    have hmem : q ∈ t.occupied (h.order name) := List.mem_filter.2 ⟨hq, by rw [hkept]; rfl⟩
    exact Nat.le_sub_one_of_lt (List.length_filter_lt_length_iff_exists.2 ⟨q, hmem, by simp⟩)

theorem removals_cons (hf : Follows h t) (line column : Int32) (rest : List (Int32 × Int32)) :
    t.removals name ((line, column) :: rest) =
      t.resolve? name :: (t.undefine line column name).removals name rest := by
  rw [Tracker.removals, hf.definition?_undefine, Option.bind_some]

/-- What is removed was kept somewhere. -/
theorem exists_of_mem_removals (hf : Follows h t) {positions : List (Int32 × Int32)} {id : Nat}
    (hid : some id ∈ t.removals name positions) : ∃ p, t.lookup? p = some id := by
  induction positions generalizing h t with
  | nil => exact absurd hid List.not_mem_nil
  | cons position rest ih =>
    rw [hf.removals_cons] at hid
    rcases List.mem_cons.1 hid with hname | hrest
    · obtain ⟨p, -, hp⟩ := hf.exists_place hname.symm
      exact ⟨p, hp⟩
    · obtain ⟨p, hp⟩ := ih (hf.undefine position.1 position.2 name) hrest
      exact ⟨p, (hf.lookup?_of_undefine hp).1⟩

/-- What is removed is not removed again. -/
theorem pairwise_removals (hf : Follows h t) (positions : List (Int32 × Int32)) :
    (t.removals name positions).Pairwise (fun removed later => removed = none ∨ removed ≠ later) := by
  induction positions generalizing h t with
  | nil => exact .nil
  | cons position rest ih =>
    have hf' := hf.undefine position.1 position.2 name
    rw [hf.removals_cons]
    refine List.pairwise_cons.2 ⟨fun later hlater => ?_, ih hf'⟩
    cases hname : t.resolve? name with
    | none => exact .inl rfl
    | some id =>
      refine .inr fun heq => ?_
      obtain ⟨p, hp⟩ := hf'.exists_of_mem_removals (heq ▸ hlater)
      exact (hf.lookup?_of_undefine hp).2 hname

/-- After as many undefines as there are occupied places nothing more is removed. -/
theorem eq_none_of_mem_drop_removals (hf : Follows h t) (positions : List (Int32 × Int32)) {n : Nat}
    (hn : (t.occupied (h.order name)).length ≤ n) :
    ∀ removed ∈ (t.removals name positions).drop n, removed = none := by
  induction positions generalizing h t n with
  | nil => simp [Tracker.removals]
  | cons position rest ih =>
    have hf' := hf.undefine position.1 position.2 name
    have hfewer := hf.length_occupied_undefine name position.1 position.2
    rw [hf.removals_cons]
    cases n with
    | zero =>
      intro removed hremoved
      rcases List.mem_cons.1 hremoved with rfl | hrest
      · exact hf.resolve?_eq_none (Nat.le_zero.1 hn)
      · exact ih (n := 0) hf' (Nat.le_trans hfewer (by omega)) removed hrest
    | succ n => exact ih hf' (Nat.le_trans hfewer (by omega))

end Follows

/-- An undefine after any callbacks is recorded to have removed what an expansion of the name there would
be recorded to have expanded. It empties the place of that definition and no other, so names that differ
from it in more than case stand for what they stood for, as all names do if nothing was removed, and no
inclusion loses an argument. Undefines of a name in a row remove different definitions, and after as many
as there are open files and two more they remove nothing. -/
theorem undefine_run (callbacks : List Callback) (name : String) :
    let t := Tracker.run {} callbacks
    (∀ line column line' column', ∃ target,
      (t.undefine line column name).graph.definition? t.graph.size =
        some { kind := .undefine, name := name, undefines := target } ∧
      ((t.openName line' column' name).graph.expansion? t.graph.size).map (·.definition) =
        some target ∧
      target = t.resolve? name) ∧
    (∀ line column, t.Forgets (t.undefine line column name) name) ∧
    ∀ positions, (t.removals name positions).length = positions.length ∧
      (t.removals name positions).Pairwise (fun removed later => removed = none ∨ removed ≠ later) ∧
      ∀ removed ∈ (t.removals name positions).drop (t.scopes.length + 2), removed = none := by
  intro t
  have hf : Follows (History.after callbacks) t := follows_run callbacks
  refine ⟨fun line column line' column' => ⟨t.resolve? name, hf.definition?_undefine line column, ?_,
    rfl⟩, hf.forgets, fun positions => ⟨?_, hf.pairwise_removals positions, ?_⟩⟩
  · exact Graph.definition_expansion?_addInside ..
  · generalize t = t
    induction positions generalizing t with
    | nil => rfl
    | cons position rest ih => exact congrArg (· + 1) (ih _)
  · refine hf.eq_none_of_mem_drop_removals positions ?_
    have hlength : ((History.after callbacks).order name).length = t.scopes.length + 2 := by
      simp [History.order, places, Tracker.scopes, ← hf.outer]
    rw [← hlength]
    exact List.length_filter_le ..

end AblAnalysis.Preprocessor
