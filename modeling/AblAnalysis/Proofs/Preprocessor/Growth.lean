import AblAnalysis.Proofs.Preprocessor.Events

/-!
How the events of a unit grow. A new event is either inside a reference (`Graph.Inside`) or an argument
of an inclusion (`Graph.Beside`), and an event that is there keeps what it is and where it happened.
Where it ends and which of its named arguments still count can change later, but that changes no link
(`Graph.Alike`).
-/

namespace AblAnalysis.Preprocessor

/-- What an event is for good, apart from what it was passed and what happened inside it. -/
inductive Nature where
  | inclusion (fileIndex : Int32)
  | expansion (definition : Option Nat)
  | definition (d : Definition)
  deriving DecidableEq

namespace Nature

/-- Whether such an event is a reference. -/
def isRef : Nature → Bool
  | .definition _ => false
  | _ => true

/-- The inclusion that such an event was passed to. -/
def owner? : Nature → Option Nat
  | .definition d => d.inclusion
  | _ => none

/-- The definition that such an event was resolved to: the one that was expanded or removed. -/
def target? : Nature → Option Nat
  | .inclusion _ => none
  | .expansion target => target
  | .definition d => d.undefines

end Nature

namespace EventBody

/-- What an event is for good. -/
def nature : EventBody → Nature
  | .inclusion i => .inclusion i.fileIndex
  | .expansion e => .expansion e.definition
  | .definition d => .definition d

/-- The arguments that an event was passed. -/
def args : EventBody → List Nat
  | .inclusion i => i.args.toList
  | _ => []

variable (b : EventBody) (id : Nat)

@[simp] theorem nature_addChild : (b.addChild id).nature = b.nature := by
  cases b <;> rfl

@[simp] theorem args_addChild : (b.addChild id).args = b.args := by
  cases b <;> rfl

@[simp] theorem nature_close (line column : Int32) : (b.close line column).nature = b.nature := by
  cases b <;> rfl

@[simp] theorem args_close (line column : Int32) : (b.close line column).args = b.args := by
  cases b <;> rfl

@[simp] theorem children_close (line column : Int32) :
    (b.close line column).children = b.children := by
  cases b <;> rfl

theorem children_addChild (h : b.isRef = true) : (b.addChild id).children = b.children ++ [id] := by
  cases b with
  | inclusion i => exact Array.toList_push
  | expansion e => exact Array.toList_push
  | definition d => exact absurd h (by simp [isRef])

theorem isRef_nature : b.nature.isRef = b.isRef := by
  cases b <;> rfl

end EventBody

namespace Graph

/-- What an event is for good. -/
def nature? (g : Graph) (id : Nat) : Option Nature :=
  (g.body? id).map (·.nature)

/-- The inclusion that an argument was passed to. -/
def owner? (g : Graph) (id : Nat) : Option Nat :=
  (g.nature? id).bind (·.owner?)

/-- The definition that an event was resolved to. -/
def target? (g : Graph) (id : Nat) : Option Nat :=
  (g.nature? id).bind (·.target?)

/-- The arguments that an inclusion was passed, in order. -/
def args (g : Graph) (id : Nat) : List Nat :=
  ((g.body? id).map (·.args)).getD []

variable (g : Graph)

theorem isRef_eq (id : Nat) : g.isRef id = (g.nature? id).any (·.isRef) := by
  rw [isRef, nature?, body?]
  cases g.event? id with
  | none => rfl
  | some e => exact e.body.isRef_nature.symm

theorem children_eq (id : Nat) : g.children id = ((g.body? id).map (·.children)).getD [] := by
  rw [children, body?]
  cases g.event? id <;> rfl

theorem definition?_eq_some_iff {id : Nat} {d : Definition} :
    g.definition? id = some d ↔ g.nature? id = some (.definition d) := by
  rw [definition?_eq, nature?]
  cases g.body? id with
  | none => simp
  | some b => cases b <;> simp [EventBody.definition?, EventBody.nature]

theorem body?_of_inclusion? {id : Nat} {i : Inclusion} (h : g.inclusion? id = some i) :
    g.body? id = some (.inclusion i) := by
  rw [inclusion?] at h
  split at h
  · rename_i hbody
    rw [hbody, Option.some.inj h]
  · exact absurd h (by simp)

theorem exists_inclusion?_iff {id : Nat} {fileIndex : Int32} :
    (∃ i, g.inclusion? id = some i ∧ i.fileIndex = fileIndex) ↔
      g.nature? id = some (.inclusion fileIndex) := by
  rw [inclusion?, nature?]
  cases g.body? id with
  | none => simp
  | some b => cases b <;> simp [EventBody.nature]

theorem exists_expansion?_iff {id : Nat} {definition : Option Nat} :
    (∃ e, g.expansion? id = some e ∧ e.definition = definition) ↔
      g.nature? id = some (.expansion definition) := by
  rw [expansion?, nature?]
  cases g.body? id with
  | none => simp
  | some b => cases b <;> simp [EventBody.nature]

theorem exists_body?_iff {id : Nat} : (∃ b, g.body? id = some b) ↔ id < g.size := by
  constructor
  · rintro ⟨b, hb⟩
    refine Nat.lt_of_not_le fun hle => ?_
    rw [body?_of_size_le g hle] at hb
    exact absurd hb (by simp)
  · intro hlt
    exact ⟨_, by rw [body?, event?, Array.getElem?_eq_getElem hlt, Option.map_some]⟩

theorem nature?_of_size_le {id : Nat} (h : g.size ≤ id) : g.nature? id = none := by
  rw [nature?, body?_of_size_le g h, Option.map_none]

theorem parent?_of_size_le {id : Nat} (h : g.size ≤ id) : g.parent? id = none := by
  rw [parent?, event?, Array.getElem?_eq_none h, Option.bind_none]

theorem children_of_size_le {id : Nat} (h : g.size ≤ id) : g.children id = [] := by
  rw [children_eq, body?_of_size_le g h, Option.map_none, Option.getD_none]

theorem args_of_size_le {id : Nat} (h : g.size ≤ id) : g.args id = [] := by
  rw [args, body?_of_size_le g h, Option.map_none, Option.getD_none]

theorem lt_size_of_isRef {id : Nat} (h : g.isRef id = true) : id < g.size := by
  refine Nat.lt_of_not_le fun hle => ?_
  rw [isRef_eq, nature?_of_size_le g hle] at h
  exact absurd h (by simp)

/-! ### Changes that leave the links alone -/

/-- Whether two graphs have the same events with the same links. -/
structure Alike (g g' : Graph) : Prop where
  size : g'.size = g.size
  parent? : ∀ id, g'.parent? id = g.parent? id
  nature? : ∀ id, g'.nature? id = g.nature? id
  children : ∀ id, g'.children id = g.children id
  args : ∀ id, g'.args id = g.args id

theorem Alike.refl : g.Alike g :=
  ⟨rfl, fun _ => rfl, fun _ => rfl, fun _ => rfl, fun _ => rfl⟩

theorem parent?_modifyBody (id : Nat) (f : EventBody → EventBody) (j : Nat) :
    (g.modifyBody id f).parent? j = g.parent? j := by
  rw [parent?, event?, modifyBody, Array.getElem?_modify]
  by_cases h : id = j
  · rw [if_pos h, Option.bind_map, parent?, event?]
    rfl
  · rw [if_neg h]
    rfl

/-- What a change of a body keeps of it. -/
theorem map_body?_modifyBody {α : Type} (o : EventBody → α) (id : Nat) {f : EventBody → EventBody}
    (h : ∀ b, o (f b) = o b) (j : Nat) :
    ((g.modifyBody id f).body? j).map o = (g.body? j).map o := by
  rw [body?_modifyBody]
  by_cases hj : id = j
  · rw [if_pos hj, Option.map_map]
    exact congrArg (fun k => (g.body? j).map k) (funext h)
  · rw [if_neg hj]

/-- What a change of an inclusion keeps of it. -/
theorem map_body?_modifyInclusion {α : Type} (o : EventBody → α) (id : Nat)
    {f : Inclusion → Inclusion} (h : ∀ i, o (.inclusion (f i)) = o (.inclusion i)) (j : Nat) :
    ((g.modifyInclusion id f).body? j).map o = (g.body? j).map o := by
  refine g.map_body?_modifyBody o id (fun b => ?_) j
  cases b with
  | inclusion i => exact h i
  | _ => rfl

theorem alike_modifyBody (id : Nat) {f : EventBody → EventBody}
    (h : ∀ b, (f b).nature = b.nature ∧ (f b).children = b.children ∧ (f b).args = b.args) :
    g.Alike (g.modifyBody id f) where
  size := size_modifyBody g id f
  parent? := g.parent?_modifyBody id f
  nature? := g.map_body?_modifyBody _ id fun b => (h b).1
  children j := by
    rw [children_eq, children_eq, g.map_body?_modifyBody _ id fun b => (h b).2.1]
  args j := by
    rw [Graph.args, Graph.args, g.map_body?_modifyBody _ id fun b => (h b).2.2]

theorem alike_modifyInclusion (id : Nat) {f : Inclusion → Inclusion}
    (h : ∀ i, (f i).fileIndex = i.fileIndex ∧ (f i).children = i.children ∧ (f i).args = i.args) :
    g.Alike (g.modifyInclusion id f) := by
  refine g.alike_modifyBody id fun b => ?_
  cases b with
  | inclusion i =>
    obtain ⟨hfile, hchildren, hargs⟩ := h i
    simp [EventBody.nature, EventBody.children, EventBody.args, hfile, hchildren, hargs]
  | _ => exact ⟨rfl, rfl, rfl⟩

/-! ### One more event -/

/-- Whether there is one more event, of some nature, around which is some reference or none. -/
structure Adds (g g' : Graph) (parent : Option Nat) (nature : Nature) : Prop where
  size : g'.size = g.size + 1
  parent? : ∀ id, g'.parent? id = if id = g.size then parent else g.parent? id
  nature? : ∀ id, g'.nature? id = if id = g.size then some nature else g.nature? id

/-- Whether there is one more event inside a reference. -/
structure Inside (g g' : Graph) (parent : Nat) (nature : Nature) : Prop
    extends Adds g g' (some parent) nature where
  children : ∀ id, g'.children id =
    if id = parent then g.children id ++ [g.size] else g.children id
  args : ∀ id, g'.args id = g.args id

/-- Whether an inclusion was passed one more argument. -/
structure Beside (g g' : Graph) (owner : Nat) (d : Definition) : Prop
    extends Adds g g' (g.parent? owner) (.definition d) where
  children : ∀ id, g'.children id = g.children id
  args : ∀ id, g'.args id = if id = owner then g.args id ++ [g.size] else g.args id

theorem parent?_add (e : Event) (j : Nat) :
    (g.add e).parent? j = if j = g.size then e.parent else g.parent? j := by
  rw [parent?, event?, add, Array.getElem?_push, ← size]
  by_cases h : j = g.size
  · rw [if_pos h, if_pos h]
    rfl
  · rw [if_neg h, if_neg h]
    rfl

theorem nature?_add (e : Event) (j : Nat) :
    (g.add e).nature? j = if j = g.size then some e.body.nature else g.nature? j := by
  rw [nature?, body?_add]
  by_cases h : j = g.size
  · rw [if_pos h, if_pos h]
    rfl
  · rw [if_neg h, if_neg h]
    rfl

/-- An event that is new has nothing inside it. -/
theorem children_add {e : Event} (he : e.body.children = []) (j : Nat) :
    (g.add e).children j = g.children j := by
  rw [children_eq, body?_add]
  by_cases h : j = g.size
  · rw [if_pos h, Option.map_some, he, children_of_size_le g (Nat.le_of_eq h.symm)]
    rfl
  · rw [if_neg h, children_eq]

theorem args_add {e : Event} (he : e.body.args = []) (j : Nat) :
    (g.add e).args j = g.args j := by
  rw [args, body?_add]
  by_cases h : j = g.size
  · rw [if_pos h, Option.map_some, he, args_of_size_le g (Nat.le_of_eq h.symm)]
    rfl
  · rw [if_neg h, args]

theorem inside_addInside {parent : Nat} (hp : g.isRef parent = true) (line column : Int32)
    {b : EventBody} (hchildren : b.children = []) (hargs : b.args = []) :
    g.Inside (g.addInside parent line column b) parent b.nature where
  size := size_addInside ..
  parent? j := by
    rw [addInside, parent?_modifyBody, parent?_add]
  nature? j := by
    have hnature := (g.add ⟨some parent, line, column, b⟩).map_body?_modifyBody EventBody.nature parent
      (fun b => b.nature_addChild g.size) j
    exact hnature.trans (nature?_add g _ j)
  children j := by
    have hlt := g.lt_size_of_isRef hp
    rw [addInside, children_eq, body?_modifyBody]
    by_cases hj : j = parent
    · obtain ⟨body, hbody⟩ := g.exists_body?_iff.2 hlt
      have href : body.isRef = true := by
        rw [isRef_eq, nature?, hbody] at hp
        exact body.isRef_nature.symm.trans hp
      rw [hj, if_pos rfl, if_pos rfl, body?_add, if_neg (Nat.ne_of_lt hlt), children_eq, hbody]
      exact body.children_addChild g.size href
    · rw [if_neg (Ne.symm hj), if_neg hj, ← children_eq, children_add g hchildren]
  args j := by
    have hargs' := (g.add ⟨some parent, line, column, b⟩).map_body?_modifyBody EventBody.args parent
      (fun b => b.args_addChild g.size) j
    rw [addInside, Graph.args, hargs', ← Graph.args, args_add g hargs]

theorem beside_add {owner : Nat} {i : Inclusion} (hi : g.inclusion? owner = some i)
    (line column : Int32) (d : Definition) {f : Inclusion → Inclusion}
    (hf : ∀ i, (f i).fileIndex = i.fileIndex ∧ (f i).children = i.children ∧
      (f i).args = i.args.push g.size) :
    g.Beside ((g.add ⟨g.parent? owner, line, column, .definition d⟩).modifyInclusion owner f)
      owner d := by
  have hbody := g.body?_of_inclusion? hi
  have hlt : owner < g.size := g.exists_body?_iff.1 ⟨_, hbody⟩
  let added := g.add ⟨g.parent? owner, line, column, .definition d⟩
  refine ⟨⟨(size_modifyInclusion ..).trans (size_add ..), fun j => ?_, fun j => ?_⟩,
    fun j => ?_, fun j => ?_⟩
  · rw [modifyInclusion, parent?_modifyBody, parent?_add]
  · have hnature := added.map_body?_modifyInclusion EventBody.nature owner
      (fun i => congrArg Nature.inclusion (hf i).1) j
    exact hnature.trans (nature?_add g _ j)
  · have hchildren := added.map_body?_modifyInclusion EventBody.children owner
      (fun i => congrArg Array.toList (hf i).2.1) j
    rw [children_eq]
    exact (congrArg (·.getD []) hchildren).trans ((children_eq ..).symm.trans (children_add g rfl j))
  · rw [args, modifyInclusion, body?_modifyBody]
    by_cases hj : j = owner
    · rw [if_pos hj.symm, if_pos hj, hj, body?_add, if_neg (Nat.ne_of_lt hlt), args, hbody]
      exact (congrArg Array.toList (hf i).2.2).trans Array.toList_push
    · rw [if_neg (Ne.symm hj), if_neg hj, ← args, args_add g rfl]

variable {g} {g₁ g₂ : Graph}

theorem Alike.inside (h : g.Alike g₁) {parent : Nat} {nature : Nature}
    (h' : g₁.Inside g₂ parent nature) : g.Inside g₂ parent nature where
  size := by rw [h'.size, h.size]
  parent? id := by rw [h'.parent?, h.size, h.parent?]
  nature? id := by rw [h'.nature?, h.size, h.nature?]
  children id := by rw [h'.children, h.size, h.children]
  args id := by rw [h'.args, h.args]

theorem Alike.isRef (h : g.Alike g₁) (id : Nat) : g₁.isRef id = g.isRef id := by
  rw [isRef_eq, h.nature?, isRef_eq]

theorem Alike.owner? (h : g.Alike g₁) (id : Nat) : g₁.owner? id = g.owner? id := by
  rw [Graph.owner?, h.nature?, Graph.owner?]

theorem Alike.target? (h : g.Alike g₁) (id : Nat) : g₁.target? id = g.target? id := by
  rw [Graph.target?, h.nature?, Graph.target?]

namespace Adds

variable {parent : Option Nat} {nature : Nature}

theorem parent?_of_lt (h : g.Adds g₁ parent nature) {id : Nat} (hid : id < g.size) :
    g₁.parent? id = g.parent? id := by
  rw [h.parent?, if_neg (Nat.ne_of_lt hid)]

theorem isRef (h : g.Adds g₁ parent nature) (id : Nat) :
    g₁.isRef id = if id = g.size then nature.isRef else g.isRef id := by
  rw [isRef_eq, h.nature?, isRef_eq]
  split <;> rfl

theorem owner? (h : g.Adds g₁ parent nature) (id : Nat) :
    g₁.owner? id = if id = g.size then nature.owner? else g.owner? id := by
  rw [Graph.owner?, h.nature?, Graph.owner?]
  split <;> rfl

theorem target? (h : g.Adds g₁ parent nature) (id : Nat) :
    g₁.target? id = if id = g.size then nature.target? else g.target? id := by
  rw [Graph.target?, h.nature?, Graph.target?]
  split <;> rfl

/-- An event stays what it is. -/
theorem nature?_of_some (h : g.Adds g₁ parent nature) {id : Nat} {n : Nature} (hn : g.nature? id = some n) :
    g₁.nature? id = some n := by
  have hne : id ≠ g.size := by
    rintro rfl
    rw [nature?_of_size_le g (Nat.le_refl _)] at hn
    exact absurd hn (by simp)
  rw [h.nature?, if_neg hne, hn]

theorem isRef_of_isRef (h : g.Adds g₁ parent nature) {id : Nat} (hid : g.isRef id = true) :
    g₁.isRef id = true := by
  rw [h.isRef, if_neg (Nat.ne_of_lt (g.lt_size_of_isRef hid)), hid]

end Adds

end Graph

end AblAnalysis.Preprocessor
