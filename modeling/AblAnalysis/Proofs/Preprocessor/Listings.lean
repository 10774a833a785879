import AblAnalysis.Preprocessor.Listing
import AblAnalysis.Proofs.Text.Layout
import Mathlib.Data.List.DropRight
import Mathlib.Data.List.Infix

/-!
Listings are written and replayed. A row is a line of a listing before it is written: the index of its
file, its place there, and what it reports. The text of rows holds everything that their callbacks do,
so replaying it is the same as making the callbacks (`replay_write`). A value may have any characters,
since those that would end a line are escaped; a name may not have blanks, since it would end there.
-/

namespace AblAnalysis.Preprocessor.Listing

open Text

/-! ### Values -/

/-- How a character of a value is written. -/
def escapeChar (c : Char) : List Char :=
  if c = '\\' then ['\\', '\\']
  else if c = '\n' then ['\\', 'n']
  else if c = '\r' then ['\\', 'r']
  else [c]

/-- A value as it is written. -/
def escape (value : String) : String :=
  String.ofList (value.toList.flatMap escapeChar)

theorem unescapeChars_cons {c : Char} (h : c ≠ '\\') (rest : List Char) :
    unescapeChars (c :: rest) = c :: unescapeChars rest := by
  rw [unescapeChars]
  all_goals exact fun _ hslash => absurd hslash h

theorem unescapeChars_escapeChar_append (c : Char) (rest : List Char) :
    unescapeChars (escapeChar c ++ rest) = c :: unescapeChars rest := by
  unfold escapeChar
  split_ifs with hslash hfeed hreturn
  · rw [hslash]
    rfl
  · rw [hfeed]
    rfl
  · rw [hreturn]
    rfl
  · exact unescapeChars_cons hslash rest

/-- Undoing the escapes of a written value gives the value. -/
@[simp] theorem unescape_escape (value : String) : unescape (escape value) = value := by
  have hchars (cs : List Char) : unescapeChars (cs.flatMap escapeChar) = cs := by
    induction cs with
    | nil => rfl
    | cons c cs ih => rw [List.flatMap_cons, unescapeChars_escapeChar_append, ih]
  rw [unescape, escape, String.toList_ofList, hchars, String.ofList_toList]

theorem not_lineEnd_of_mem_escapeChar {c d : Char} (h : d ∈ escapeChar c) :
    d ≠ '\n' ∧ d ≠ '\r' := by
  unfold escapeChar at h
  split_ifs at h with hslash hfeed hreturn
  case neg =>
    obtain rfl := List.mem_singleton.1 h
    exact ⟨hfeed, hreturn⟩
  -- an escape is a backslash and a character that ends no line
  all_goals
    rcases List.mem_cons.1 h with rfl | h
    · exact ⟨by decide, by decide⟩
    · obtain rfl := List.mem_singleton.1 h
      exact ⟨by decide, by decide⟩

theorem oneLine_escape (value : String) : OneLine (escape value) := by
  have hchars {d : Char} (h : d ∈ (escape value).toList) : d ≠ '\n' ∧ d ≠ '\r' := by
    rw [escape, String.toList_ofList] at h
    obtain ⟨c, -, hc⟩ := List.mem_flatMap.1 h
    exact not_lineEnd_of_mem_escapeChar hc
  exact ⟨fun h => (hchars h).1 rfl, fun h => (hchars h).2 rfl⟩

/-! ### Rows -/

/-- A name that can stand between blanks. -/
abbrev Word : Type :=
  { s : String // Blankless s }

/-- A name that can stand at the end of a line. -/
abbrev Remainder : Type :=
  { s : String // OneLine s }

/-- What a row reports. -/
inductive Report where
  | defineGlobal (name : Word) (value : String)
  | defineScoped (name : Word) (value : String)
  | undefine (name : Word)
  | openFile (index : Int32) (name : Remainder)
  | argument (name : Word) (value : String)
  | closeFile
  | openName (name : Word)
  | closeName

/-- The callback of a report. An argument has no place of its own. -/
def Report.callback (line column : Int32) : Report → Callback
  | .defineGlobal name value => .define line column name value .global
  | .defineScoped name value => .define line column name value .scoped
  | .undefine name => .undefine line column name
  | .openFile index name => .openFile line column index name
  | .argument name value => .argument name value false
  | .closeFile => .closeFile line column
  | .openName name => .openName line column name
  | .closeName => .closeName line column

/-- The parts of the line of a report. -/
def Report.entry (line column : Int32) : Report → Entry
  | .defineGlobal name value => ⟨line, column, "globdef", name, escape value⟩
  | .defineScoped name value => ⟨line, column, "scopdef", name, escape value⟩
  | .undefine name => ⟨line, column, "undef", name, ""⟩
  | .openFile index name => ⟨line, column, "include", ofInt32 index, name⟩
  | .argument name value => ⟨line, column, "incarg", name, escape value⟩
  | .closeFile => ⟨line, column, "incend", "", ""⟩
  | .openName name => ⟨line, column, "macroref", name, ""⟩
  | .closeName => ⟨line, column, "macrorefend", "", ""⟩

/-- A line of a listing before it is written. -/
structure Row where
  file : Int32
  line : Int32
  column : Int32
  report : Report
  /-- Whether empty parts at the end of the line are left out. -/
  trimmed : Bool := false

namespace Row

variable (r : Row)

/-- What the row reports, at its place. -/
def callback : Callback :=
  r.report.callback r.line r.column

/-- The parts of the line. -/
def entry : Entry :=
  r.report.entry r.line r.column

/-- The parts that every line has. -/
def fixed : List String :=
  [ofInt32 r.file, ofInt32 r.entry.line, ofInt32 r.entry.column, r.entry.token]

/-- The parts after them, which may be missing. -/
def optional : List String :=
  if r.trimmed then [r.entry.arg, r.entry.rest].rdropWhile String.isEmpty
  else [r.entry.arg, r.entry.rest]

/-- The line as it is written. -/
def text : String :=
  " ".intercalate (r.fixed ++ r.optional)

end Row

/-- The text of a listing. -/
def write (rows : List Row) : String :=
  String.join ((rows.map Row.text).map (· ++ "\n"))

example : Row.text ⟨0, 3, -1, .argument ⟨"file", by simp [Blankless, isBlank]⟩ " a\\n\r ", false⟩ =
    "0 3 -1 incarg file  a\\\\n\\r " := by
  decide +kernel

/-! ### The callbacks of rows -/

/-- Whether a callback can be written on a line. -/
def Listable : Callback → Prop
  | .define _ _ name _ kind => Blankless name ∧ (kind = .global ∨ kind = .scoped)
  | .undefine _ _ name => Blankless name
  | .openFile _ _ _ name => OneLine name
  | .argument name _ undefined => Blankless name ∧ undefined = false
  | .closeFile _ _ => True
  | .openName _ _ name => Blankless name
  | .closeName _ _ => True
  | .condition _ _ => False
  | .suspend _ _ => False
  | .resume _ => False

/-- Every such callback has a row in every file, with or without its empty parts. -/
theorem Listable.exists_row {c : Callback} (h : Listable c) (file : Int32) (trimmed : Bool) :
    ∃ r : Row, r.file = file ∧ r.trimmed = trimmed ∧ r.callback = c := by
  cases c with
  | define line column name value kind =>
    obtain ⟨hname, rfl | rfl⟩ := h
    · exact ⟨⟨file, line, column, .defineGlobal ⟨name, hname⟩ value, trimmed⟩, rfl, rfl, rfl⟩
    · exact ⟨⟨file, line, column, .defineScoped ⟨name, hname⟩ value, trimmed⟩, rfl, rfl, rfl⟩
  | undefine line column name =>
    exact ⟨⟨file, line, column, .undefine ⟨name, h⟩, trimmed⟩, rfl, rfl, rfl⟩
  | openFile line column index name =>
    exact ⟨⟨file, line, column, .openFile index ⟨name, h⟩, trimmed⟩, rfl, rfl, rfl⟩
  | argument name value undefined =>
    obtain ⟨hname, rfl⟩ := h
    exact ⟨⟨file, 0, 0, .argument ⟨name, hname⟩ value, trimmed⟩, rfl, rfl, rfl⟩
  | closeFile line column => exact ⟨⟨file, line, column, .closeFile, trimmed⟩, rfl, rfl, rfl⟩
  | openName line column name =>
    exact ⟨⟨file, line, column, .openName ⟨name, h⟩, trimmed⟩, rfl, rfl, rfl⟩
  | closeName line column => exact ⟨⟨file, line, column, .closeName, trimmed⟩, rfl, rfl, rfl⟩
  | condition | suspend | resume => exact h.elim

theorem Row.listable_callback (r : Row) : Listable r.callback := by
  unfold callback
  cases r.report with
  | defineGlobal name _ => exact ⟨name.2, .inl rfl⟩
  | defineScoped name _ => exact ⟨name.2, .inr rfl⟩
  | undefine name | openFile _ name | openName name => exact name.2
  | argument name _ => exact ⟨name.2, rfl⟩
  | closeFile | closeName => trivial

/-! ### A line is read back -/

theorem Report.action?_entry (report : Report) (line column : Int32) :
    (report.entry line column).action? = some (.call (report.callback line column)) := by
  cases report <;> simp [entry, callback, Entry.action?, int32?_ofInt32]

theorem Report.blankless_token (report : Report) (line column : Int32) :
    Blankless (report.entry line column).token := by
  cases report <;> simp [entry, Blankless, isBlank]

theorem Report.blankless_arg (report : Report) (line column : Int32) :
    Blankless (report.entry line column).arg := by
  cases report with
  | defineGlobal name _ | defineScoped name _ | undefine name | argument name _ | openName name =>
    exact name.2
  | openFile index _ => exact blankless_ofInt32 index
  | closeFile | closeName => exact blankless_empty

theorem Report.oneLine_rest (report : Report) (line column : Int32) :
    OneLine (report.entry line column).rest := by
  cases report with
  | defineGlobal _ value | defineScoped _ value | argument _ value => exact oneLine_escape value
  | openFile _ name => exact name.2
  | undefine _ | closeFile | openName _ | closeName => exact blankless_empty.oneLine

namespace Row

variable (r : Row)

theorem blankless_of_mem_fixed {part : String} (h : part ∈ r.fixed) : Blankless part := by
  simp only [fixed, List.mem_cons, List.not_mem_nil, or_false] at h
  rcases h with rfl | rfl | rfl | rfl
  · exact blankless_ofInt32 _
  · exact blankless_ofInt32 _
  · exact blankless_ofInt32 _
  · exact r.report.blankless_token _ _

theorem optional_prefix : r.optional <+: [r.entry.arg, r.entry.rest] := by
  unfold optional
  split
  · exact List.rdropWhile_prefix _ _
  · exact List.prefix_rfl

/-- Parts that are left out are read as empty ones. -/
theorem optional_read : r.optional.head?.getD "" = r.entry.arg ∧
    (r.optional.drop 1).head?.getD "" = r.entry.rest := by
  unfold optional
  split
  · by_cases hrest : r.entry.rest = ""
    · by_cases harg : r.entry.arg = "" <;> simp [List.rdropWhile, hrest, harg]
    · simp [List.rdropWhile, hrest]
  · exact ⟨rfl, rfl⟩

/-- All parts but the rest have no blanks. -/
theorem blankless_of_mem_take {part : String} (h : part ∈ (r.fixed ++ r.optional).take 5) :
    Blankless part := by
  rw [List.take_append, List.mem_append] at h
  rcases h with h | h
  · exact r.blankless_of_mem_fixed (List.mem_of_mem_take h)
  · have harg : part = r.entry.arg :=
      List.mem_singleton.1 ((r.optional_prefix.take 1).subset h)
    rw [harg]
    exact r.report.blankless_arg _ _

theorem readParts?_text : readParts? r.text = some r.entry := by
  have hlength : (r.fixed ++ r.optional).length ≤ 6 := by
    have := r.optional_prefix.length_le
    rw [List.length_append]
    exact Nat.add_le_add_left this 4
  have hpieces : piecesLimited isBlank 6 r.text = r.fixed ++ r.optional :=
    piecesLimited_intercalate (by simp [fixed]) hlength fun part => r.blankless_of_mem_take
  rw [readParts?, hpieces]
  simp only [fixed, List.cons_append, List.nil_append, int32?_ofInt32, r.optional_read]

theorem readLine?_text : readLine? r.text = some (.call r.callback) := by
  rw [readLine?, readParts?_text, Option.bind_some]
  exact Report.action?_entry ..

theorem oneLine_text : OneLine r.text := by
  refine OneLine.intercalate (fun part hpart => ?_)
  rcases List.mem_append.1 hpart with hpart | hpart
  · exact (r.blankless_of_mem_fixed hpart).oneLine
  · have hmem := r.optional_prefix.subset hpart
    simp only [List.mem_cons, List.not_mem_nil, or_false] at hmem
    rcases hmem with rfl | rfl
    · exact (r.report.blankless_arg _ _).oneLine
    · exact r.report.oneLine_rest _ _

/-- The number that a line begins with keeps it from being skipped. -/
theorem isSkipped_text : isSkipped r.text = false := by
  obtain ⟨c, cs, hfile⟩ : ∃ c cs, (ofInt32 r.file).toList = c :: cs :=
    List.exists_cons_of_ne_nil (fun h => ofInt32_ne_empty _ (String.toList_eq_nil_iff.1 h))
  have hc : isBlank c = false := blankless_ofInt32 r.file c (hfile ▸ List.mem_cons_self ..)
  rw [isSkipped, text, fixed, List.cons_append, List.cons_append, String.intercalate_cons_cons,
    String.toList_append, String.toList_append, hfile]
  simp [hc]

theorem text_ne_empty : r.text ≠ "" := by
  intro h
  have hskip := r.isSkipped_text
  rw [h] at hskip
  exact absurd hskip (by decide +kernel)

end Row

/-! ### A listing is replayed -/

theorem Replay.lines_rows (name : String) (rows : List Row) (r : Replay) (number : Nat) :
    r.lines name number (rows.map Row.text) =
      (.ok (), { r with tracker := r.tracker.run (rows.map Row.callback) }) := by
  induction rows generalizing r number with
  | nil => rfl
  | cons row rows ih =>
    rw [List.map_cons, Replay.lines, row.isSkipped_text, row.readLine?_text]
    exact ih (r.perform (.call row.callback)) (number + 1)

theorem lines_write (rows : List Row) (rest : String) :
    lines (write rows ++ rest) = rows.map Row.text ++ lines rest := by
  refine lines_join (fun line hline => ?_) rest
  obtain ⟨row, -, rfl⟩ := List.mem_map.1 hline
  exact row.oneLine_text.isLine

/-- Escaped values are read back, and replaying the text of rows makes the callbacks of the rows, with
or without a line feed at the end of the text. Rows have all the callbacks of a listing. -/
theorem replay_write :
    (∀ value, unescape (escape value) = value) ∧
    (∀ c, Listable c ↔ ∃ r : Row, r.callback = c) ∧
    ∀ (rows : List Row) (name : String) (t : Tracker),
      replay name (write rows) t =
        (.ok (), { tracker := t.run (rows.map Row.callback) }) ∧
      ∀ last : Row, replay name (write rows ++ last.text) t =
        (.ok (), { tracker := t.run ((rows ++ [last]).map Row.callback) }) := by
  refine ⟨unescape_escape, fun c => ⟨fun h => ?_, ?_⟩, fun rows name t => ⟨?_, fun last => ?_⟩⟩
  · obtain ⟨r, -, -, hr⟩ := h.exists_row 0 false
    exact ⟨r, hr⟩
  · rintro ⟨r, rfl⟩
    exact r.listable_callback
  · have htext : lines (write rows) = rows.map Row.text := by
      rw [← String.append_empty (s := write rows), lines_write, lines_empty, List.append_nil]
    rw [replay, htext, Replay.lines_rows]
  · rw [replay, lines_write, lines_of_oneLine last.oneLine_text last.text_ne_empty,
      ← List.map_singleton, ← List.map_append, Replay.lines_rows]

end AblAnalysis.Preprocessor.Listing
