import AblAnalysis.Error
import AblAnalysis.Text.Blank
import AblAnalysis.Text.Lowercase

/-!
Primitive data types of the source language. Each has an upper-case name, which reading accepts in
any case but not abbreviated, and the node kind of its keyword, which is the number that artifacts
store.
-/

namespace AblAnalysis

/-- Data type of a field, variable or symbol. -/
inductive DataType where
  | bigInt
  | blob
  | byte
  | character
  | class_
  | clob
  | comHandle
  | date
  | dateTime
  | dateTimeTz
  | decimal
  | double
  | fixChar
  | float
  | handle
  | integer
  | int64
  | long
  | longChar
  | logical
  | memptr
  | numeric
  | raw
  | recid
  | rowid
  | short
  | time
  | timestamp
  | unsignedShort
  | widgetHandle
  deriving Repr, DecidableEq

namespace DataType

/-- All data types. -/
def all : List DataType := [
  .bigInt, .blob, .byte, .character, .class_, .clob, .comHandle, .date, .dateTime, .dateTimeTz,
  .decimal, .double, .fixChar, .float, .handle, .integer, .int64, .long, .longChar, .logical,
  .memptr, .numeric, .raw, .recid, .rowid, .short, .time, .timestamp, .unsignedShort,
  .widgetHandle]

/-- Upper-case name in the language. -/
def name : DataType → String
  | .bigInt => "BIGINT"
  | .blob => "BLOB"
  | .byte => "BYTE"
  | .character => "CHARACTER"
  | .class_ => "CLASS"
  | .clob => "CLOB"
  | .comHandle => "COM-HANDLE"
  | .date => "DATE"
  | .dateTime => "DATETIME"
  | .dateTimeTz => "DATETIME-TZ"
  | .decimal => "DECIMAL"
  | .double => "DOUBLE"
  | .fixChar => "FIXCHAR"
  | .float => "FLOAT"
  | .handle => "HANDLE"
  | .integer => "INTEGER"
  | .int64 => "INT64"
  | .long => "LONG"
  | .longChar => "LONGCHAR"
  | .logical => "LOGICAL"
  | .memptr => "MEMPTR"
  | .numeric => "NUMERIC"
  | .raw => "RAW"
  | .recid => "RECID"
  | .rowid => "ROWID"
  | .short => "SHORT"
  | .time => "TIME"
  | .timestamp => "TIMESTAMP"
  | .unsignedShort => "UNSIGNED-SHORT"
  | .widgetHandle => "WIDGET-HANDLE"

/-- Node kind of the keyword. -/
def code : DataType → Int32
  | .bigInt => 100
  | .blob => 101
  | .byte => 102
  | .character => 103
  | .class_ => 49
  | .clob => 104
  | .comHandle => 105
  | .date => 106
  | .dateTime => 107
  | .dateTimeTz => 108
  | .decimal => 109
  | .double => 110
  | .fixChar => 111
  | .float => 112
  | .handle => 113
  | .integer => 114
  | .int64 => 115
  | .long => 116
  | .longChar => 117
  | .logical => 118
  | .memptr => 119
  | .numeric => 120
  | .raw => 121
  | .recid => 122
  | .rowid => 123
  | .short => 124
  | .time => 125
  | .timestamp => 126
  | .unsignedShort => 127
  | .widgetHandle => 128

/-- The data type with a given code. -/
def ofCode? (code : Int32) : Option DataType :=
  all.find? (fun t => t.code == code)

/-- The data type with a given name, in any case. -/
def ofName? (name : String) : Option DataType :=
  all.find? (fun t => Text.equalIgnoringAsciiCase t.name name)

/-- Reads a data type name with blanks around it. -/
def read (text : String) : Except Error DataType :=
  match ofName? (Text.trim text) with
  | some t => .ok t
  | none => .error (.unknownDataType text)

/-- Whether values of the type are object references. -/
def isClass (t : DataType) : Bool :=
  t == .class_

end DataType

end AblAnalysis
