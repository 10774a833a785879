import AblAnalysis.Command.Form

/-!
Help texts: what a command is for, how it is written, and a table each for its subcommands, words
and options. The second column of a table starts two blanks behind the longest entry of the first.
-/

namespace AblAnalysis.Command

namespace Parameter

/-- An option as it is written. -/
def asOption (p : Parameter) : String :=
  "--" ++ p.name ++ (if p.value.isSome then " <" ++ p.label ++ ">" else "")

/-- A word as it is written. -/
def asWord (p : Parameter) : String :=
  (if p.required then "<" ++ p.label ++ ">" else "[" ++ p.label ++ "]") ++
    (if p.repeatable then "..." else "")

/-- What a parameter is for, with the value that stands in for a missing one and the values that
there are. -/
def description (p : Parameter) : String :=
  p.purpose ++
    (match p.standard with
      | some value => " [default: " ++ value ++ "]"
      | none => "") ++
    (match p.value with
      | some (.choice words) => " [possible values: " ++ String.intercalate ", " words ++ "]"
      | _ => "")

/-- The row of an option. A missing short form leaves its room. -/
def optionRow (p : Parameter) : String × String :=
  ((match p.letter with
    | some letter => "-" ++ letter.toString ++ ", "
    | none => "    ") ++ p.asOption, p.description)

/-- The row of a word. -/
def wordRow (p : Parameter) : String × String :=
  (p.asWord, p.description)

end Parameter

/-- A text filled up with blanks. -/
def filled (width : Nat) (text : String) : String :=
  String.ofList (text.toList.rightpad width ' ')

/-- A table with two columns. -/
def tableText (rows : List (String × String)) : List String :=
  let width := rows.foldl (fun width row => max width row.1.length) 0
  rows.map (fun (left, right) => "  " ++ filled width left ++ "  " ++ right)

/-- A table under its heading, or nothing if it has no rows. -/
def sectionText (heading : String) (rows : List (String × String)) : List String :=
  if rows.isEmpty then [] else "" :: (heading ++ ":") :: tableText rows

namespace Form

/-- The options that have to be given. -/
def requiredOptions (f : Form) : List String :=
  (f.options.filter (·.required)).map (·.asOption)

/-- How a command below another one is written, without its own parameters. -/
def invocation (f : Form) : List String → List String
  | [] => [f.name]
  | word :: path =>
    f.name :: f.requiredOptions ++
      (match f.subcommands.find? (fun g => g.name = word) with
        | some g => g.invocation path
        | none => [])

/-- How a command is written. -/
def usage (f : Form) : String :=
  String.intercalate " "
    (tool.invocation f.path ++
      (if f.options.any (!·.required) then ["[OPTIONS]"] else []) ++
      f.requiredOptions ++ f.words.map (·.asWord) ++
      (if f.subcommands.isEmpty then [] else ["<COMMAND>"]))

/-- The options of a command with those for help and version. A help command has no options. -/
def allOptions (f : Form) : List Parameter :=
  if f.name = "help" then []
  else
    f.options ++
      { name := "help", letter := some 'h', value := none, purpose := "Print help" } ::
      (if f.path.isEmpty then
        [{ name := "version", letter := some 'V', value := none, purpose := "Print version" }]
      else [])

/-- The help text of a command. -/
def helpText (f : Form) : String :=
  let lines :=
    [f.purpose, "", "Usage: " ++ f.usage] ++
      sectionText "Commands" (f.subcommands.map (fun g => (g.name, g.purpose))) ++
      sectionText "Arguments" (f.words.map (·.wordRow)) ++
      sectionText "Options" (f.allOptions.map (·.optionRow))
  String.join (lines.map (· ++ "\n"))

end Form

end AblAnalysis.Command
