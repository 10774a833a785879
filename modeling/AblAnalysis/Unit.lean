import AblAnalysis.Schema.Table
import AblAnalysis.Tree.Basic

/-!
What reading one compilation unit produces: its syntax tree, and the symbols of its outermost scope
with the tables they use.
-/

namespace AblAnalysis

/-- A symbol as other units see it. -/
structure Symbol where
  /-- Node kind of the defining keyword. -/
  kind : Int32
  /-- The name as it was defined. -/
  name : String
  /-- Absent for what is neither a field nor a variable. -/
  dataType : Option DataType := none
  className : Option String := none
  deriving Repr, DecidableEq

/-- How a symbol is shared with other units. -/
inductive Sharing where
  | unshared
  /-- Defined in a calling unit. -/
  | imported
  /-- Defined here for called units. -/
  | exported
  deriving Repr, DecidableEq

/-- A table, and if need be one of its fields, that a symbol stands for. -/
structure SchemaUse where
  table : Table
  field : Option String := none
  deriving Repr, DecidableEq

/-- A symbol of the outermost scope. -/
structure RootSymbol where
  symbol : Symbol
  sharing : Sharing := .unshared
  /-- Present for record and field buffers. -/
  schemaUse : Option SchemaUse := none
  deriving Repr, DecidableEq

/-- What the symbol stands for, if that is in a database. -/
def RootSymbol.databaseUse? (s : RootSymbol) : Option SchemaUse :=
  s.schemaUse.filter (fun u => u.table.store == .database)

/-- Whether the symbol stands for something in a database. -/
def RootSymbol.usesDatabase (s : RootSymbol) : Bool :=
  s.databaseUse?.isSome

/-- A compilation unit that has been read. -/
structure ParsedUnit where
  tree : Tree
  className : Option String := none
  superName : Option String := none
  symbols : List RootSymbol := []
  deriving Repr, DecidableEq

namespace ParsedUnit

/-- The symbols shared in one way. -/
def sharedAs (u : ParsedUnit) (sharing : Sharing) : List Symbol :=
  (u.symbols.filter (fun s => s.sharing == sharing)).map (·.symbol)

/-- The symbols that calling units define. -/
def imports (u : ParsedUnit) : List Symbol :=
  u.sharedAs .imported

/-- The symbols that called units may use. -/
def exports (u : ParsedUnit) : List Symbol :=
  u.sharedAs .exported

end ParsedUnit

end AblAnalysis
