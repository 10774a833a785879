import AblAnalysis.Classes.Basic
import AblAnalysis.Schema.Table

/-!
Names declared in one scope of a unit. All names are kept in lower case.
-/

namespace AblAnalysis.Resolver

/-- What a table or buffer name stands for. -/
structure TableEntry where
  /-- Not known for a buffer over a table that nothing resolves. -/
  kind : Option StoreKind := none
  /-- Lower-case table name that a buffer was declared for. -/
  bufferFor : Option String := none
  database : Option String := none
  /-- Table name as the schema spells it. -/
  fullName : Option String := none
  deriving Repr, DecidableEq

/-- Tables, buffers and variables declared directly in one scope. -/
structure Scope where
  tables : Dict String TableEntry := {}
  vars : List String := []
  inlineVars : List String := []
  deriving Repr

namespace Scope

/-- Declares a variable. -/
def defineVar (s : Scope) (name : String) : Scope :=
  { s with vars := s.vars.insert (Text.lowercase name) }

/-- Declares a variable where it is first used. -/
def defineInlineVar (s : Scope) (name : String) : Scope :=
  { s with
    vars := s.vars.insert (Text.lowercase name)
    inlineVars := s.inlineVars.insert (Text.lowercase name) }

/-- Declares what a table or buffer name stands for. -/
def defineTable (s : Scope) (name : String) (entry : TableEntry) : Scope :=
  { s with tables := s.tables.insert (Text.lowercase name) entry }

/-- Whether a variable is declared here. -/
def hasVar (s : Scope) (name : String) : Bool :=
  s.vars.contains (Text.lowercase name)

/-- Whether a variable is declared here where it is first used. -/
def hasInlineVar (s : Scope) (name : String) : Bool :=
  s.inlineVars.contains (Text.lowercase name)

/-- What a table or buffer name stands for here. -/
def table? (s : Scope) (name : String) : Option TableEntry :=
  s.tables.get? (Text.lowercase name)

end Scope

end AblAnalysis.Resolver
