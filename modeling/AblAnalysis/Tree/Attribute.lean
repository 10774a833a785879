/-!
Keys and values of node attributes. Four keys hold text: in an artifact their value is a position in
the string table.
-/

namespace AblAnalysis.Tree

/-- Directive text. -/
def directiveKey : Int32 := 1500

/-- Set to `trueValue` on the first node of a statement. -/
def stateHeadKey : Int32 := 1400

/-- Resolved class of a type name. -/
def classKey : Int32 := 2400

/-- Node text. -/
def textKey : Int32 := 49001

/-- Comments before the node. -/
def commentsKey : Int32 := 49002

/-- Value of an attribute that is set. -/
def trueValue : Int32 := 1

/-- Whether the stored value of a key is a position in the string table. -/
def isTextKey (key : Int32) : Bool :=
  key == textKey || key == commentsKey || key == directiveKey || key == classKey

end AblAnalysis.Tree
