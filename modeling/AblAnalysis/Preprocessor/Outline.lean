import AblAnalysis.Preprocessor.Graph
import AblAnalysis.Text.Integer
import AblAnalysis.Text.Quoted

/-!
Outline of the events of a unit: one line per event, each reference before what is inside it, two
spaces deeper.
-/

namespace AblAnalysis.Preprocessor.Graph

/-- Line and column. -/
def placeText (e : Event) : String :=
  Text.ofInt32 e.line ++ ":" ++ Text.ofInt32 e.column

/-- The line for an event. -/
def eventText (g : Graph) (e : Event) : String :=
  match e.body with
  | .inclusion i =>
    "include " ++ i.name ++ " #" ++ Text.ofInt32 i.fileIndex ++ " at " ++ placeText e
  | .expansion x =>
    let target :=
      match x.definition.bind g.definition? with
      | some d => d.name
      | none => "<undefined>"
    "ref " ++ target ++ " at " ++ placeText e
  | .definition d =>
    d.kind.label ++ " " ++ d.name ++ " = " ++ Text.quoted d.value ++ " at " ++ placeText e

/-- The lines for an event at some depth and for what is inside it. -/
def outlineFrom (g : Graph) (depth : Nat) (id : Nat) : List String :=
  match g.event? id with
  | none => []
  | some e =>
    (String.ofList (List.replicate (2 * depth) ' ') ++ g.eventText e) ::
      e.body.children.flatMap (fun c =>
        if _h : id < c ∧ c < g.size then outlineFrom g (depth + 1) c else [])
termination_by g.size - id
decreasing_by omega

/-- The lines for all events that are inside the main file. -/
def outline (g : Graph) : List String :=
  g.outlineFrom 0 0

end AblAnalysis.Preprocessor.Graph
