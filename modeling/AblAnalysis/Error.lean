import AblAnalysis.Text.Integer

/-!
What can go wrong, as causes. Each cause has one text, given by its `message`. Lookups are not
here: a name that is not found is an ordinary answer.
-/

namespace AblAnalysis

/-- What kind of failure the operating system reports. -/
inductive IoKind where
  | notFound
  | permissionDenied
  | storageFull
  | wouldBlock
  | timedOut
  | interrupted
  | outOfMemory
  | unexpectedEof
  | brokenPipe
  | notADirectory
  | isADirectory
  | alreadyExists
  | invalidData
  | other
  deriving Repr, DecidableEq

/-- A failed transfer or file operation, with the text the system gives for it. -/
structure IoFailure where
  kind : IoKind
  text : String
  deriving Repr, DecidableEq

namespace IoFailure

/-- Nothing has the name. -/
def notFound : IoFailure := ⟨.notFound, "No such file or directory (os error 2)"⟩

/-- Something other than a directory stands where a directory is needed. -/
def notADirectory : IoFailure := ⟨.notADirectory, "Not a directory (os error 20)"⟩

/-- A directory stands where a file is needed. -/
def isADirectory : IoFailure := ⟨.isADirectory, "Is a directory (os error 21)"⟩

/-- The name is taken. -/
def alreadyExists : IoFailure := ⟨.alreadyExists, "File exists (os error 17)"⟩

/-- A path, or a name in it, is longer than the system takes. -/
def nameTooLong : IoFailure := ⟨.other, "File name too long (os error 36)"⟩

/-- A path holds the character that ends paths. -/
def nulInName : IoFailure := ⟨.other, "file name contained an unexpected NUL byte"⟩

/-- A text file holds bytes that are not UTF-8. -/
def notUtf8 : IoFailure := ⟨.invalidData, "stream did not contain valid UTF-8"⟩

end IoFailure

/-- What is wrong with a line of a schema description. -/
inductive DescriptionProblem where
  | fieldWithoutTable
  | indexWithoutTable
  | fieldShape
  | badExtent (text : String)
  | indexShape
  | indexFieldOrder (part : String)
  | indexFieldUnknown (field table : String)
  | unexpectedLine (line : String)
  deriving Repr, DecidableEq

/-- The text of a problem. -/
def DescriptionProblem.message : DescriptionProblem → String
  | .fieldWithoutTable => "field line without a current table"
  | .indexWithoutTable => "index line without a current table"
  | .fieldShape => "field line needs name:type:extent"
  | .badExtent text => "invalid extent '" ++ text ++ "'"
  | .indexShape => "index line needs name:attributes:fields"
  | .indexFieldOrder part => "index field '" ++ part ++ "' must start with A or D"
  | .indexFieldUnknown field table =>
    "index field '" ++ field ++ "' not found in table '" ++ table ++ "'"
  | .unexpectedLine line => "unexpected line '" ++ line ++ "'"

/-- Why the bytes of an artifact do not follow the layout. -/
inductive Corruption where
  | endOfData
  | truncatedString
  | notUtf8
  | stringCount (n : Int32)
  | stringIndex (n : Int32)
  | unknownDataType (code : Int32)
  | emptyTree
  | rootSibling
  | reported (text : String)
  deriving Repr, DecidableEq

/-- The text of a corruption. -/
def Corruption.message : Corruption → String
  | .endOfData => "unexpected end of data"
  | .truncatedString => "truncated string"
  | .notUtf8 => "string is not valid UTF-8"
  | .stringCount n => "string count " ++ Text.ofInt32 n
  | .stringIndex n => "string index " ++ Text.ofInt32 n
  | .unknownDataType code => "unknown data type code " ++ Text.ofInt32 code
  | .emptyTree => "empty syntax tree"
  | .rootSibling => "syntax tree root has a sibling"
  | .reported text => text

/-- What is wrong with the configuration of a project. -/
inductive ConfigProblem where
  | unreadableFile (text : String)
  | invalidToml
  | invalidCatalog
  | emptyCacheDirectory
  | reported (text : String)
  deriving Repr, DecidableEq

/-- The text of a configuration problem. -/
def ConfigProblem.message : ConfigProblem → String
  | .unreadableFile text => "Failed to read config file: " ++ text
  | .invalidToml => "Invalid TOML"
  | .invalidCatalog => "Invalid class catalog"
  | .emptyCacheDirectory => "ABL_CACHE_DIR must not be empty"
  | .reported text => text

/-- Why a unit or a listing was not read. -/
inductive UnitProblem where
  | listingLine (number : Nat) (line : String)
  | reported (text : String)
  deriving Repr, DecidableEq

/-- The text of a unit problem. -/
def UnitProblem.message : UnitProblem → String
  | .listingLine number line =>
    "invalid listing line " ++ toString number ++ ": '" ++ line ++ "'"
  | .reported text => text

/-- A failure of loading a schema, a configuration or a unit, or of building an artifact. -/
inductive Error where
  | schemaFormat (line : Nat) (problem : DescriptionProblem)
  | unknownDataType (name : String)
  | io (text : String)
  | diskFull (text : String)
  | transientIo (text : String)
  | stringTooLong (length : Nat)
  | corruptArtifact (cause : Corruption)
  | config (problem : ConfigProblem)
  | unit (path : String) (problem : UnitProblem)
  deriving Repr, DecidableEq

/-- The text of an error. -/
def Error.message : Error → String
  | .schemaFormat line problem =>
    "Schema format error at line " ++ toString line ++ ": " ++ problem.message
  | .unknownDataType name => "Unknown data type '" ++ name ++ "'"
  | .io text => "I/O error: " ++ text
  | .diskFull text => "Disk full: " ++ text
  | .transientIo text => "Transient I/O error: " ++ text
  | .stringTooLong length =>
    "String of " ++ toString length ++ " bytes exceeds the 65535 byte limit"
  | .corruptArtifact cause => "Corrupt artifact: " ++ cause.message
  | .config problem => "Configuration error: " ++ problem.message
  | .unit path problem => "Failed to parse '" ++ path ++ "': " ++ problem.message

/-- The error that a failed file operation amounts to: a full disk and failures that may pass by
themselves are told apart from the rest. -/
def IoFailure.classify (failure : IoFailure) (context : String) : Error :=
  let text := context ++ ": " ++ failure.text
  match failure.kind with
  | .storageFull => .diskFull text
  | .wouldBlock => .transientIo text
  | .timedOut => .transientIo text
  | .interrupted => .transientIo text
  | _ => .io text

end AblAnalysis
