import AblAnalysis.Preprocessor.Graph

/-!
What name lookup can see of the events: what each inclusion was passed, and which definitions were
removed by an undefine. Most changes of the graph leave both alone.
-/

namespace AblAnalysis.Preprocessor

/-- What an inclusion was passed. -/
structure Passed where
  args : Array Nat := #[]
  named : Dict String Nat := {}
  usesNamedArgs : Bool := false

namespace Passed

/-- Takes an argument by position or by name. -/
def take (p : Passed) (numbered : Bool) (name : String) (id : Nat) : Passed :=
  if numbered then { p with args := p.args.push id }
  else
    { args := p.args.push id
      named := p.named.insert (Text.lowercase name) id
      usesNamedArgs := true }

/-- Forgets a named argument. -/
def without (p : Passed) (key : String) : Passed :=
  { p with named := p.named.erase key }

end Passed

namespace EventBody

/-- What an event was passed if it is an inclusion. -/
def passed? : EventBody → Option Passed
  | .inclusion i => some ⟨i.args, i.named, i.usesNamedArgs⟩
  | _ => none

/-- The definition that an event is. -/
def definition? : EventBody → Option Definition
  | .definition d => some d
  | _ => none

@[simp] theorem passed?_addChild (b : EventBody) (id : Nat) : (b.addChild id).passed? = b.passed? := by
  cases b <;> rfl

@[simp] theorem definition?_addChild (b : EventBody) (id : Nat) :
    (b.addChild id).definition? = b.definition? := by
  cases b <;> rfl

@[simp] theorem passed?_close (b : EventBody) (line column : Int32) :
    (b.close line column).passed? = b.passed? := by
  cases b <;> rfl

@[simp] theorem definition?_close (b : EventBody) (line column : Int32) :
    (b.close line column).definition? = b.definition? := by
  cases b <;> rfl

end EventBody

namespace Graph

variable (g : Graph)

/-- What an inclusion was passed. -/
def passed? (id : Nat) : Option Passed :=
  (g.body? id).bind (·.passed?)

/-- Whether an undefine removed a definition. -/
def Undefined (id : Nat) : Prop :=
  ∃ e d, g.definition? e = some d ∧ d.kind = .undefine ∧ d.undefines = some id

theorem passed?_eq (id : Nat) :
    g.passed? id = (g.inclusion? id).map (fun i => ⟨i.args, i.named, i.usesNamedArgs⟩) := by
  rw [passed?, inclusion?]
  cases g.body? id with
  | none => rfl
  | some b => cases b <;> rfl

theorem definition?_eq (id : Nat) : g.definition? id = (g.body? id).bind (·.definition?) := by
  rw [definition?]
  cases g.body? id with
  | none => rfl
  | some b => cases b <;> rfl

theorem body?_of_size_le {id : Nat} (h : g.size ≤ id) : g.body? id = none := by
  rw [body?, event?, Array.getElem?_eq_none h, Option.map_none]

theorem lt_size_of_passed? {id : Nat} {p : Passed} (h : g.passed? id = some p) : id < g.size := by
  rcases Nat.lt_or_ge id g.size with hlt | hge
  · exact hlt
  · rw [passed?, body?_of_size_le g hge] at h
    exact absurd h (by simp)

/-! ### Changes -/

@[simp] theorem size_modifyBody (id : Nat) (f : EventBody → EventBody) :
    (g.modifyBody id f).size = g.size :=
  Array.size_modify ..

@[simp] theorem size_modifyInclusion (id : Nat) (f : Inclusion → Inclusion) :
    (g.modifyInclusion id f).size = g.size :=
  Array.size_modify ..

@[simp] theorem size_add (e : Event) : (g.add e).size = g.size + 1 :=
  Array.size_push ..

@[simp] theorem size_addInside (parent : Nat) (line column : Int32) (b : EventBody) :
    (g.addInside parent line column b).size = g.size + 1 := by
  rw [addInside, size_modifyBody, size_add]

theorem body?_modifyBody (id : Nat) (f : EventBody → EventBody) (j : Nat) :
    (g.modifyBody id f).body? j = if id = j then (g.body? j).map f else g.body? j := by
  rw [body?, event?, modifyBody, Array.getElem?_modify]
  by_cases h : id = j
  · rw [if_pos h, if_pos h, Option.map_map, body?, event?, Option.map_map]
    rfl
  · rw [if_neg h, if_neg h]
    rfl

theorem body?_add (e : Event) (j : Nat) :
    (g.add e).body? j = if j = g.size then some e.body else g.body? j := by
  rw [body?, event?, add, Array.getElem?_push, ← size]
  by_cases h : j = g.size
  · rw [if_pos h, if_pos h]
    rfl
  · rw [if_neg h, if_neg h]
    rfl

/-- A change that lookup cannot see. -/
theorem passed?_modifyBody {id : Nat} {f : EventBody → EventBody}
    (h : ∀ b, (f b).passed? = b.passed?) (j : Nat) :
    (g.modifyBody id f).passed? j = g.passed? j := by
  rw [passed?, body?_modifyBody, passed?]
  by_cases hj : id = j
  · rw [if_pos hj, Option.bind_map]
    exact congrArg _ (funext h)
  · rw [if_neg hj]

theorem definition?_modifyBody {id : Nat} {f : EventBody → EventBody}
    (h : ∀ b, (f b).definition? = b.definition?) (j : Nat) :
    (g.modifyBody id f).definition? j = g.definition? j := by
  rw [definition?_eq, body?_modifyBody, definition?_eq]
  by_cases hj : id = j
  · rw [if_pos hj, Option.bind_map]
    exact congrArg _ (funext h)
  · rw [if_neg hj]

theorem passed?_addInside (parent : Nat) (line column : Int32) (b : EventBody) (j : Nat) :
    (g.addInside parent line column b).passed? j =
      if j = g.size then b.passed? else g.passed? j := by
  rw [addInside, passed?_modifyBody _ fun b => b.passed?_addChild _, passed?, body?_add]
  by_cases h : j = g.size
  · rw [if_pos h, if_pos h]
    rfl
  · rw [if_neg h, if_neg h]
    rfl

theorem passed?_of_size_le {j : Nat} (h : g.size ≤ j) : g.passed? j = none := by
  rw [passed?, body?_of_size_le g h, Option.bind_none]

theorem passed?_addInside_of_none (parent : Nat) (line column : Int32) {b : EventBody}
    (hb : b.passed? = none) (j : Nat) :
    (g.addInside parent line column b).passed? j = g.passed? j := by
  rw [passed?_addInside]
  by_cases h : j = g.size
  · rw [if_pos h, hb, passed?_of_size_le g (Nat.le_of_eq h.symm)]
  · rw [if_neg h]

theorem definition?_add (e : Event) (j : Nat) : (g.add e).definition? j =
    if j = g.size then e.body.definition? else g.definition? j := by
  rw [definition?_eq, body?_add]
  by_cases h : j = g.size
  · rw [if_pos h, if_pos h]
    rfl
  · rw [if_neg h, if_neg h, definition?_eq]

theorem definition?_addInside (parent : Nat) (line column : Int32) (b : EventBody) (j : Nat) :
    (g.addInside parent line column b).definition? j =
      if j = g.size then b.definition? else g.definition? j := by
  rw [addInside, definition?_modifyBody _ fun b => b.definition?_addChild _, definition?_add]

/-- A new expansion has the definition that it was given. -/
theorem definition_expansion?_addInside (parent : Nat) (line column : Int32) (e : Expansion) :
    ((g.addInside parent line column (.expansion e)).expansion? g.size).map (·.definition) =
      some e.definition := by
  rw [expansion?, addInside, body?_modifyBody, body?_add, if_pos rfl]
  by_cases h : parent = g.size
  · rw [if_pos h]
    rfl
  · rw [if_neg h]
    rfl

theorem definition?_modifyInclusion (id : Nat) (f : Inclusion → Inclusion) (j : Nat) :
    (g.modifyInclusion id f).definition? j = g.definition? j :=
  g.definition?_modifyBody (fun b => by cases b <;> rfl) j

/-- What an inclusion was passed after a change of it. -/
theorem passed?_modifyInclusion (id : Nat) {f : Inclusion → Inclusion} {k : Passed → Passed}
    (h : ∀ i : Inclusion, (EventBody.inclusion (f i)).passed? =
      (EventBody.inclusion i).passed?.map k) (j : Nat) :
    (g.modifyInclusion id f).passed? j =
      if id = j then (g.passed? j).map k else g.passed? j := by
  rw [passed?, modifyInclusion, body?_modifyBody, passed?]
  by_cases hj : id = j
  · rw [if_pos hj, if_pos hj]
    cases g.body? j with
    | none => rfl
    | some b =>
      cases b with
      | inclusion i => exact h i
      | _ => rfl
  · rw [if_neg hj, if_neg hj]

theorem undefined_congr {g g' : Graph} (h : ∀ e, g'.definition? e = g.definition? e) (id : Nat) :
    g'.Undefined id ↔ g.Undefined id := by
  simp only [Undefined, h]

/-- A new event undefines what it says that it does. -/
theorem undefined_of_definition? {g g' : Graph} {b : EventBody}
    (h : ∀ e, g'.definition? e = if e = g.size then b.definition? else g.definition? e) (id : Nat) :
    g'.Undefined id ↔ g.Undefined id ∨
      ∃ d, b.definition? = some d ∧ d.kind = .undefine ∧ d.undefines = some id := by
  constructor
  · rintro ⟨e, d, he, hd⟩
    rw [h] at he
    by_cases hsize : e = g.size
    · rw [if_pos hsize] at he
      exact .inr ⟨d, he, hd⟩
    · rw [if_neg hsize] at he
      exact .inl ⟨e, d, he, hd⟩
  · rintro (⟨e, d, he, hd⟩ | ⟨d, hb, hd⟩)
    · have hne : e ≠ g.size := by
        rintro rfl
        rw [definition?_eq, body?_of_size_le g (Nat.le_refl _)] at he
        exact absurd he (by simp)
      exact ⟨e, d, by rw [h, if_neg hne, he], hd⟩
    · exact ⟨g.size, d, by rw [h, if_pos rfl, hb], hd⟩

end Graph

end AblAnalysis.Preprocessor
