/-!
Kinds of tree nodes. A kind is a number; the known ones have a symbolic name, and most of those a
text that a node of the kind carries unless it says otherwise.
-/

namespace AblAnalysis.Tree

/-- A known node kind. -/
structure Kind where
  code : Int32
  name : String
  text : Option String
  deriving Repr, DecidableEq

/-- The known node kinds in code order. -/
def knownKinds : List Kind := [
  ⟨4, "PROGRAM_ROOT", none⟩,
  ⟨5, "PROGRAM_TAIL", none⟩,
  ⟨6, "CODE_BLOCK", none⟩,
  ⟨7, "EXPR_STATEMENT", none⟩,
  ⟨8, "FIELD_REF", none⟩,
  ⟨9, "RECORD_NAME", none⟩,
  ⟨10, "TYPE_NAME", none⟩,
  ⟨11, "WIDGET_REF", none⟩,
  ⟨12, "ID", none⟩,
  ⟨13, "NUMBER", none⟩,
  ⟨14, "QSTRING", none⟩,
  ⟨15, "PERIOD", some "."⟩,
  ⟨16, "LEFTPAREN", some "("⟩,
  ⟨17, "RIGHTPAREN", some ")"⟩,
  ⟨18, "COMMA", some ","⟩,
  ⟨19, "LEXCOLON", some ":"⟩,
  ⟨20, "EQUAL", some "="⟩,
  ⟨21, "PLUS", some "+"⟩,
  ⟨22, "MINUS", some "-"⟩,
  ⟨23, "STAR", some "*"⟩,
  ⟨24, "SLASH", some "/"⟩,
  ⟨30, "DEFINE", some "define"⟩,
  ⟨31, "VARIABLE", some "variable"⟩,
  ⟨32, "AS", some "as"⟩,
  ⟨33, "LIKE", some "like"⟩,
  ⟨34, "INITIAL", some "initial"⟩,
  ⟨35, "NOUNDO", some "no-undo"⟩,
  ⟨36, "BUFFER", some "buffer"⟩,
  ⟨37, "FOR", some "for"⟩,
  ⟨38, "TEMPTABLE", some "temp-table"⟩,
  ⟨39, "WORKTABLE", some "work-table"⟩,
  ⟨40, "FIELD", some "field"⟩,
  ⟨41, "INDEX", some "index"⟩,
  ⟨42, "PARAMETER", some "parameter"⟩,
  ⟨43, "INPUT", some "input"⟩,
  ⟨44, "OUTPUT", some "output"⟩,
  ⟨45, "PROCEDURE", some "procedure"⟩,
  ⟨46, "FUNCTION", some "function"⟩,
  ⟨47, "RETURNS", some "returns"⟩,
  ⟨48, "METHOD", some "method"⟩,
  ⟨49, "CLASS", some "class"⟩,
  ⟨50, "INHERITS", some "inherits"⟩,
  ⟨51, "INTERFACE", some "interface"⟩,
  ⟨52, "ENUM", some "enum"⟩,
  ⟨53, "END", some "end"⟩,
  ⟨54, "FIND", some "find"⟩,
  ⟨55, "FIRST", some "first"⟩,
  ⟨56, "LAST", some "last"⟩,
  ⟨57, "EACH", some "each"⟩,
  ⟨58, "WHERE", some "where"⟩,
  ⟨59, "NOLOCK", some "no-lock"⟩,
  ⟨60, "DISPLAY", some "display"⟩,
  ⟨61, "ASSIGN", some "assign"⟩,
  ⟨62, "IF", some "if"⟩,
  ⟨63, "THEN", some "then"⟩,
  ⟨64, "ELSE", some "else"⟩,
  ⟨65, "DO", some "do"⟩,
  ⟨66, "RUN", some "run"⟩,
  ⟨67, "RETURN", some "return"⟩,
  ⟨68, "MESSAGE", some "message"⟩,
  ⟨69, "USING", some "using"⟩,
  ⟨70, "PROPARSEDIRECTIVE", none⟩,
  ⟨71, "INCLUDEDIRECTIVE", none⟩,
  ⟨100, "BIGINT", some "bigint"⟩,
  ⟨101, "BLOB", some "blob"⟩,
  ⟨102, "BYTE", some "byte"⟩,
  ⟨103, "CHARACTER", some "character"⟩,
  ⟨104, "CLOB", some "clob"⟩,
  ⟨105, "COMHANDLE", some "com-handle"⟩,
  ⟨106, "DATE", some "date"⟩,
  ⟨107, "DATETIME", some "datetime"⟩,
  ⟨108, "DATETIMETZ", some "datetime-tz"⟩,
  ⟨109, "DECIMAL", some "decimal"⟩,
  ⟨110, "DOUBLE", some "double"⟩,
  ⟨111, "FIXCHAR", some "fixchar"⟩,
  ⟨112, "FLOAT", some "float"⟩,
  ⟨113, "HANDLE", some "handle"⟩,
  ⟨114, "INTEGER", some "integer"⟩,
  ⟨115, "INT64", some "int64"⟩,
  ⟨116, "LONG", some "long"⟩,
  ⟨117, "LONGCHAR", some "longchar"⟩,
  ⟨118, "LOGICAL", some "logical"⟩,
  ⟨119, "MEMPTR", some "memptr"⟩,
  ⟨120, "NUMERIC", some "numeric"⟩,
  ⟨121, "RAW", some "raw"⟩,
  ⟨122, "RECID", some "recid"⟩,
  ⟨123, "ROWID", some "rowid"⟩,
  ⟨124, "SHORT", some "short"⟩,
  ⟨125, "TIME", some "time"⟩,
  ⟨126, "TIMESTAMP", some "timestamp"⟩,
  ⟨127, "UNSIGNEDSHORT", some "unsigned-short"⟩,
  ⟨128, "WIDGETHANDLE", some "widget-handle"⟩]

/-- The symbolic name of a node kind. -/
def kindName? (code : Int32) : Option String :=
  (knownKinds.find? (·.code == code)).map (·.name)

/-- The text that a node of the kind carries by default. -/
def defaultText? (code : Int32) : Option String :=
  (knownKinds.find? (·.code == code)).bind (·.text)

/-- Kind of a node that names a type. -/
def typeNameKind : Int32 := 10

end AblAnalysis.Tree
