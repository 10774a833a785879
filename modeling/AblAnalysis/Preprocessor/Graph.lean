import AblAnalysis.Preprocessor.Event

/-!
The events of one unit. Event 0 is the inclusion that stands for the main file. A parent always has
a smaller number than its children, so every walk along parents or children ends; the walks below
check that order where they take a step.
-/

namespace AblAnalysis.Preprocessor

/-- All events of a unit by number. -/
structure Graph where
  events : Array Event
  deriving Repr

/-- File, line and column of an event. -/
structure Position where
  fileIndex : Int32
  line : Int32
  column : Int32
  deriving Repr, DecidableEq

/-- Whether a line and column lie within optional bounds, ends included. -/
def inBounds (line column : Int32) (first last : Option (Int32 × Int32)) : Bool :=
  (match first with
    | some (l, c) => decide (l < line ∨ (l = line ∧ c ≤ column))
    | none => true) &&
  (match last with
    | some (l, c) => decide (line < l ∨ (line = l ∧ column ≤ c))
    | none => true)

namespace Graph

/-- The graph of a unit in which nothing has happened. -/
def start : Graph :=
  ⟨#[{ parent := none, line := 0, column := 0, body := .inclusion {} }]⟩

/-- Number of events. -/
def size (g : Graph) : Nat :=
  g.events.size

/-- An event. -/
def event? (g : Graph) (id : Nat) : Option Event :=
  g.events[id]?

/-- The reference around an event. -/
def parent? (g : Graph) (id : Nat) : Option Nat :=
  (g.event? id).bind (·.parent)

/-- What an event is. -/
def body? (g : Graph) (id : Nat) : Option EventBody :=
  (g.event? id).map (fun e => e.body)

/-- The inclusion with a number. -/
def inclusion? (g : Graph) (id : Nat) : Option Inclusion :=
  match g.body? id with
  | some (.inclusion i) => some i
  | _ => none

/-- The expansion with a number. -/
def expansion? (g : Graph) (id : Nat) : Option Expansion :=
  match g.body? id with
  | some (.expansion e) => some e
  | _ => none

/-- The definition with a number. -/
def definition? (g : Graph) (id : Nat) : Option Definition :=
  match g.body? id with
  | some (.definition d) => some d
  | _ => none

/-- The events directly inside an event. -/
def children (g : Graph) (id : Nat) : List Nat :=
  match g.event? id with
  | some e => e.body.children
  | none => []

/-- Whether an event is a reference. -/
def isRef (g : Graph) (id : Nat) : Bool :=
  match g.event? id with
  | some e => e.body.isRef
  | none => false

/-- The references directly inside an event. -/
def refChildren (g : Graph) (id : Nat) : List Nat :=
  (g.children id).filter g.isRef

/-- Changes what an event is. -/
def modifyBody (g : Graph) (id : Nat) (f : EventBody → EventBody) : Graph :=
  ⟨g.events.modify id (fun e => { e with body := f e.body })⟩

/-- Changes an inclusion. -/
def modifyInclusion (g : Graph) (id : Nat) (f : Inclusion → Inclusion) : Graph :=
  g.modifyBody id (fun b =>
    match b with
    | .inclusion i => .inclusion (f i)
    | other => other)

/-- Adds an event without making it a child of its parent. -/
def add (g : Graph) (e : Event) : Graph :=
  ⟨g.events.push e⟩

/-- Adds an event inside the reference `parent`. -/
def addInside (g : Graph) (parent : Nat) (line column : Int32) (body : EventBody) : Graph :=
  let id := g.size
  (g.add ⟨some parent, line, column, body⟩).modifyBody parent (·.addChild id)

/-- The file that the contents of an event come from: that of the nearest inclusion around it. -/
def fileIndexOf (g : Graph) (id : Nat) : Int32 :=
  match g.event? id with
  | none => 0
  | some e =>
    match e.body with
    | .inclusion i => i.fileIndex
    | _ =>
      match e.parent with
      | some p => if p < id then fileIndexOf g p else 0
      | none => 0
termination_by id

/-- Where an event stands in the file around it. -/
def position (g : Graph) (id : Nat) : Position :=
  match g.event? id with
  | none => ⟨0, 0, 0⟩
  | some e =>
    ⟨(match e.parent with
      | some p => g.fileIndexOf p
      | none => 0), e.line, e.column⟩

/-- Whether an event is `owner` or lies inside it. -/
def isWithin (g : Graph) (owner id : Nat) : Bool :=
  if id = owner then true
  else
    match g.parent? id with
    | some p => if p < id then isWithin g owner p else false
    | none => false
termination_by id

/-- Whether a definition was made inside `owner`. -/
def definedInside (g : Graph) (owner definition : Nat) : Bool :=
  match g.parent? definition with
  | some p => g.isWithin owner p
  | none => false

/-- An event and the references inside it, each before those inside it. -/
def referencesFrom (g : Graph) (id : Nat) : List Nat :=
  id :: (g.refChildren id).flatMap (fun c =>
    if _h : id < c ∧ c < g.size then referencesFrom g c else [])
termination_by g.size - id
decreasing_by omega

/-- All references of the unit; the place of a reference in the list is its source index. -/
def sourceArray (g : Graph) : List Nat :=
  g.referencesFrom 0

/-- The inclusions of a file among an event and what is inside it. -/
def inclusionsOf (g : Graph) (id : Nat) (fileIndex : Int32) : List Nat :=
  (g.referencesFrom id).filter (fun c =>
    match g.inclusion? c with
    | some i => i.fileIndex == fileIndex
    | none => false)

/-- The events at or inside `id` that depend on something outside `owner`: inclusions, expansions
of a name that has no definition or one from outside, and undefines of a named argument or of a
definition from outside. An expansion of a definition from inside is searched in turn. -/
def externalsAt (g : Graph) (owner id : Nat) : List Nat :=
  match g.body? id with
  | none => []
  | some (.inclusion _) => [id]
  | some (.definition d) =>
    match d.kind, d.undefines with
    | .undefine, some target =>
      if (g.definition? target).map (·.kind) = some .namedArgument then [id]
      else if g.definedInside owner target then [] else [id]
    | _, _ => []
  | some (.expansion e) =>
    match e.definition with
    | none => [id]
    | some d =>
      if g.definedInside owner d then
        e.children.toList.flatMap (fun c =>
          if _h : id < c ∧ c < g.size then externalsAt g owner c else [])
      else [id]
termination_by g.size - id
decreasing_by omega

/-- The events inside `owner` that depend on something outside it, counting only those directly
inside it whose place lies in the bounds. -/
def externals (g : Graph) (owner : Nat) (first last : Option (Int32 × Int32)) :
    List Nat :=
  (g.children owner).flatMap (fun c =>
    match g.event? c with
    | some e => if inBounds e.line e.column first last then g.externalsAt owner c else []
    | none => [])

/-- What one turn of a trace comes to. -/
inductive Turn where
  /-- The text comes from here. -/
  | arrived (position : Position)
  /-- The text comes from another definition. -/
  | onward (definition : Nat)
  deriving Repr, DecidableEq

/-- One turn of a trace. An argument counts where the inclusion stands that it was passed to. The
definition comes from the file around it, or from the definition that was expanded there. -/
def turn (g : Graph) (id : Nat) : Turn :=
  match g.event? id, g.definition? id with
  | some e, some d =>
    match g.event? (d.inclusion.getD id) with
    | none => .arrived (g.position id)
    | some anchor =>
      match anchor.parent with
      | none => .arrived (g.position id)
      | some p =>
        match g.body? p with
        | some (.inclusion i) => .arrived ⟨i.fileIndex, anchor.line, anchor.column⟩
        | some (.expansion x) =>
          match x.definition with
          | some next => .onward next
          | none => .arrived ⟨g.fileIndexOf p, e.line, e.column⟩
        | _ => .arrived (g.position id)
  | _, _ => .arrived (g.position id)

/-- Traces a definition for at most `turns` turns. If they run out, the result is the definition where
that happens. -/
def trace (g : Graph) : (turns : Nat) → (id : Nat) → Except Nat Position
  | 0, id => .error id
  | turns + 1, id =>
    match g.turn id with
    | .arrived position => .ok position
    | .onward next => trace g turns next

/-- Where the text of a definition comes from. A definition made by an expansion comes from the
definition that was expanded, and an argument from the inclusion that it was passed to. No trace is
followed for more turns than there are events. -/
def definitionPosition (g : Graph) (id : Nat) : Position :=
  match g.trace g.size id with
  | .ok position => position
  | .error last => g.position last

end Graph

end AblAnalysis.Preprocessor
