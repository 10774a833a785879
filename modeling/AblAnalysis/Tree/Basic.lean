import AblAnalysis.Dict
import AblAnalysis.Text.Integer
import AblAnalysis.Tree.Attribute
import AblAnalysis.Tree.Kind

/-!
Syntax trees. A tree is grown from its root by adding nodes, each as the last child of a node that is
already there, and a node is known by the number of nodes that were there before it. So a child has a
larger number than its parent, and the walk below, which checks that order where it takes a step, ends.
-/

namespace AblAnalysis

namespace Tree

/-- What is known of one node apart from its place in the tree. -/
structure Node where
  kind : Int32
  /-- Node class given by the parser, 0 for plain nodes. -/
  subtype : Int32 := 0
  fileIndex : Int16 := 0
  line : Int32 := 0
  column : Int16 := 0
  /-- Place of the node's token among the references of the unit. -/
  sourceIndex : Int32 := 0
  /-- Absent for a node that carries the text of its kind. -/
  ownText : Option String := none
  comments : Option String := none
  /-- Text of an analysis directive in front of the node. -/
  directive : Option String := none
  /-- Resolved class of a type name. -/
  qualifiedClass : Option String := none
  attrs : SortedMap Int32 Int32 := {}
  deriving Repr, DecidableEq

namespace Node

/-- The text of a node: its own, or else that of its kind. -/
def text (n : Node) : String :=
  (n.ownText.or (defaultText? n.kind)).getD ""

/-- The value of an attribute, 0 when it is not set. -/
def attr (n : Node) (key : Int32) : Int32 :=
  (n.attrs.get? key).getD 0

/-- Sets an attribute. -/
def setAttr (n : Node) (key value : Int32) : Node :=
  { n with attrs := n.attrs.insert key value }

/-- Whether a statement starts at the node. -/
def isStateHead (n : Node) : Bool :=
  n.attr stateHeadKey == trueValue

end Node

/-- A node with its place in the tree. -/
structure Slot where
  node : Node
  parent : Option Nat := none
  /-- Numbers of the children in order. -/
  children : Array Nat := #[]
  deriving Repr, DecidableEq

end Tree

/-- A syntax tree, with the names of the files that its nodes refer to. -/
structure Tree where
  slots : Array Tree.Slot
  fileNames : List String := []
  deriving Repr, DecidableEq

namespace Tree

/-- The tree of one node. -/
def single (root : Node) : Tree :=
  { slots := #[{ node := root }] }

/-- Number of nodes. -/
def size (t : Tree) : Nat :=
  t.slots.size

/-- A node by number. -/
def node? (t : Tree) (id : Nat) : Option Node :=
  t.slots[id]?.map (·.node)

/-- The node that a node is a child of. -/
def parent? (t : Tree) (id : Nat) : Option Nat :=
  t.slots[id]?.bind (·.parent)

/-- The children of a node in order. -/
def children (t : Tree) (id : Nat) : List Nat :=
  match t.slots[id]? with
  | some s => s.children.toList
  | none => []

/-- The first child of a node. -/
def firstChild? (t : Tree) (id : Nat) : Option Nat :=
  (t.children id).head?

/-- The node after a node among the children of its parent. -/
def nextSibling? (t : Tree) (id : Nat) : Option Nat :=
  match t.parent? id with
  | some p => ((t.children p).dropWhile (· ≠ id))[1]?
  | none => none

/-- Changes a node in its place. -/
def modifyNode (t : Tree) (id : Nat) (f : Node → Node) : Tree :=
  { t with slots := t.slots.modify id (fun s => { s with node := f s.node }) }

/-- Adds a node as the last child of `parent`; its number is the size of the tree before. -/
def addChild (t : Tree) (parent : Nat) (node : Node) : Tree :=
  let id := t.size
  let slots := t.slots.push { node, parent := some parent }
  { t with
    slots :=
      if parent < id then slots.modify parent (fun s => { s with children := s.children.push id })
      else slots }

/-- A node and all nodes below it, each with its depth and before those below it. -/
def walkFrom (t : Tree) (depth id : Nat) : List (Nat × Nat) :=
  (depth, id) :: (t.children id).flatMap (fun c =>
    if _h : id < c ∧ c < t.size then walkFrom t (depth + 1) c else [])
termination_by t.size - id
decreasing_by omega

/-- A node and all nodes below it, each before those below it. -/
def descendants (t : Tree) (id : Nat) : List Nat :=
  (t.walkFrom 0 id).map (·.2)

/-- One line of a listing: kind, text and place of a node, indented by its depth. -/
def Node.outline (n : Node) (depth : Nat) : String :=
  String.ofList (List.replicate (2 * depth) ' ') ++ (kindName? n.kind).getD "?" ++ " \"" ++ n.text ++
    "\" " ++ toString n.fileIndex.toInt ++ ":" ++ toString n.line.toInt ++ ":" ++
    toString n.column.toInt

/-- The listing of a tree, a line for each node. -/
def outline (t : Tree) : List String :=
  (t.walkFrom 0 0).filterMap (fun (depth, id) => (t.node? id).map (·.outline depth))

end Tree

end AblAnalysis
