import AblAnalysis.Error
import AblAnalysis.Preprocessor.Tracker
import AblAnalysis.Text.Pieces

/-!
Preprocessor listings: the callbacks of one unit as text. A line reads
`file line column token argument rest`, its parts separated by single blanks and `rest` running to
the end of the line. In values a backslash, a line feed and a carriage return are written as two
backslashes, backslash-n and backslash-r. Lines of blanks are skipped.

Besides callbacks a listing has `fileindex` lines, which give names to file indexes.
-/

namespace AblAnalysis.Preprocessor.Listing

/-- Undoes the escapes of a value; a backslash before any other character stands for itself. -/
def unescapeChars : List Char → List Char
  | [] => []
  | '\\' :: '\\' :: rest => '\\' :: unescapeChars rest
  | '\\' :: 'n' :: rest => '\n' :: unescapeChars rest
  | '\\' :: 'r' :: rest => '\r' :: unescapeChars rest
  | c :: rest => c :: unescapeChars rest

/-- Undoes the escapes of a value. -/
def unescape (s : String) : String :=
  String.ofList (unescapeChars s.toList)

/-- The parts of a line. -/
structure Entry where
  line : Int32
  column : Int32
  token : String
  arg : String := ""
  rest : String := ""
  deriving Repr, DecidableEq

/-- What a line asks for. -/
inductive Action where
  | call (c : Callback)
  | nameFile (index : Int32) (name : String)
  deriving Repr, DecidableEq

/-- Takes a line apart. The first part is not looked at; the last two may be missing. -/
def readParts? (text : String) : Option Entry :=
  match Text.piecesLimited Text.isBlank 6 text with
  | _ :: line :: column :: token :: parts =>
    match Text.int32? line, Text.int32? column with
    | some l, some c => some ⟨l, c, token, parts.head?.getD "", (parts.drop 1).head?.getD ""⟩
    | _, _ => none
  | _ => none

/-- What an entry asks for, if its token is known and its argument fits. -/
def Entry.action? (e : Entry) : Option Action :=
  if e.token = "globdef" then
    some (.call (.define e.line e.column e.arg (unescape e.rest) .global))
  else if e.token = "scopdef" then
    some (.call (.define e.line e.column e.arg (unescape e.rest) .scoped))
  else if e.token = "undef" then some (.call (.undefine e.line e.column e.arg))
  else if e.token = "macroref" then some (.call (.openName e.line e.column e.arg))
  else if e.token = "macrorefend" then some (.call (.closeName e.line e.column))
  else if e.token = "include" then
    (Text.int32? e.arg).map (fun index => .call (.openFile e.line e.column index e.rest))
  else if e.token = "incarg" then some (.call (.argument e.arg (unescape e.rest) false))
  else if e.token = "incend" then some (.call (.closeFile e.line e.column))
  else if e.token = "ampif" || e.token = "ampelseif" || e.token = "ampelse" ||
      e.token = "ampendif" then
    some (.call (.condition e.line e.column))
  else if e.token = "fileindex" then
    (Text.int32? e.arg).map (fun index => .nameFile index e.rest)
  else none

/-- What a line asks for. -/
def readLine? (text : String) : Option Action :=
  (readParts? text).bind Entry.action?

/-- Whether a line is skipped. -/
def isSkipped (line : String) : Bool :=
  line.toList.all Text.isBlank

/-- A tracker and the file names given so far. -/
structure Replay where
  tracker : Tracker := {}
  files : SortedMap Int32 String := {}
  deriving Repr

/-- Does what a line asks for. -/
def Replay.perform (r : Replay) : Action → Replay
  | .call c => { r with tracker := r.tracker.step c }
  | .nameFile index name => { r with files := r.files.insert index name }

/-- Replays lines numbered from `number`, up to the first bad one. -/
def Replay.lines (name : String) (r : Replay) (number : Nat) :
    List String → Except Error Unit × Replay
  | [] => (.ok (), r)
  | line :: rest =>
    if isSkipped line then Replay.lines name r (number + 1) rest
    else
      match readLine? line with
      | some action => Replay.lines name (r.perform action) (number + 1) rest
      | none => (.error (.unit name (.listingLine number line)), r)

/-- Replays the text of a listing called `name`. On an error the tracker has taken the lines before
the bad one. -/
def replay (name text : String) (t : Tracker) : Except Error Unit × Replay :=
  Replay.lines name { tracker := t } 1 (Text.lines text)

end AblAnalysis.Preprocessor.Listing
