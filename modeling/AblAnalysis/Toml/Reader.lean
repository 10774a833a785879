import AblAnalysis.Toml.Scalar

/-!
TOML documents: keys with values, one to a line, under headers that say which table they belong to.
-/

namespace AblAnalysis.Toml

/-- Values and keys may be nested less deep than this. -/
def nestingLimit : Nat := 80

/-- Characters of keys without quotes. -/
def isBare (c : Char) : Bool :=
  c.isAlphanum || c = '-' || c = '_'

/-- Reads one part of a key. -/
def simpleKey? (cs : List Char) : Option (String × List Char) :=
  match cs with
  | '"' :: rest => basicRest [] rest
  | '\x27' :: rest => literalRest rest
  | _ =>
    match cs.takeWhile isBare with
    | [] => none
    | name => some (String.ofList name, cs.dropWhile isBare)

/-- Reads the parts of a key, blanks around them, as `fuel` allows. -/
def keyParts? : Nat → List Char → Option (List String × List Char)
  | 0, _ => none
  | fuel + 1, cs =>
    match simpleKey? (skipSpace cs) with
    | none => none
    | some (part, rest) =>
      match skipSpace rest with
      | '.' :: rest => (keyParts? fuel rest).map (fun r => (part :: r.1, r.2))
      | rest => some ([part], rest)

/-- Reads a key of fewer parts than the nesting limit. It is cut into the parts before the last one,
and the last one. -/
def key? (cs : List Char) : Option (List String × String × List Char) :=
  match keyParts? (nestingLimit - 1) cs with
  | none => none
  | some (parts, rest) =>
    match parts.getLast? with
    | some last => some (parts.dropLast, last, rest)
    | none => none

/-- Drops blanks, comments and line ends, as they may stand between the values of an array. -/
def skipLines : Nat → List Char → Option (List Char)
  | 0, _ => none
  | fuel + 1, cs =>
    match skipSpace cs with
    | '#' :: rest =>
      match newline? (rest.dropWhile isPlain) with
      | some rest => skipLines fuel rest
      | none => none
    | rest =>
      match newline? rest with
      | some rest => skipLines fuel rest
      | none => some rest

/-- Drops blanks, comments and line ends. -/
def skipBetween? (cs : List Char) : Option (List Char) :=
  skipLines (cs.length + 1) cs

mutual

/-- Reads a value that holds values less deep than `depth`. The fuel bounds the steps of reading. -/
def value? : Nat → Nat → List Char → Option (Item × List Char)
  | 0, _, _ => none
  | fuel + 1, depth, cs =>
    match cs with
    | '[' :: rest =>
      if depth = 0 then none
      else
        match skipBetween? rest with
        | some (']' :: rest) => some (.array [], rest)
        | some rest => (items? fuel (depth - 1) rest).map (fun r => (.array r.1, r.2))
        | none => none
    | '\x7b' :: rest =>
      if depth = 0 then none
      else
        match skipSpace rest with
        | '\x7d' :: rest => some (.table .inline [], rest)
        | rest => (members? fuel (depth - 1) [] rest).map (fun r => (.table .inline r.1, r.2))
    | 't' :: 'r' :: 'u' :: 'e' :: rest => some (.boolean true, rest)
    | 'f' :: 'a' :: 'l' :: 's' :: 'e' :: rest => some (.boolean false, rest)
    | _ =>
      match string? cs with
      | some (s, rest) => some (.text s, rest)
      | none => number? cs

/-- Reads the values of an array up to its closing bracket; a comma may follow the last. -/
def items? : Nat → Nat → List Char → Option (List Item × List Char)
  | 0, _, _ => none
  | fuel + 1, depth, cs =>
    match value? fuel depth cs with
    | none => none
    | some (item, rest) =>
      match skipBetween? rest with
      | some (']' :: rest) => some ([item], rest)
      | some (',' :: rest) =>
        match skipBetween? rest with
        | some (']' :: rest) => some ([item], rest)
        | some rest => (items? fuel depth rest).map (fun r => (item :: r.1, r.2))
        | none => none
      | _ => none

/-- Reads the entries of an inline table up to its closing brace, adding them to `es`. -/
def members? : Nat → Nat → Entries → List Char → Option (Entries × List Char)
  | 0, _, _, _ => none
  | fuel + 1, depth, es, cs =>
    match key? cs with
    | some (path, key, '=' :: rest) =>
      match value? fuel depth (skipSpace rest) with
      | none => none
      | some (item, rest) =>
        match es.addDotted key item path, skipSpace rest with
        | some es, '\x7d' :: rest => some (es, rest)
        | some es, ',' :: rest => members? fuel depth es rest
        | _, _ => none
    | _ => none

end

/-- Reads the lines of a document. `here` is the path of the table that the last header opened. -/
def lines? : Nat → List String → Entries → List Char → Option Entries
  | 0, _, _, _ => none
  | fuel + 1, here, root, cs =>
    match skipSpace cs with
    | [] => some root
    | '[' :: '[' :: rest =>
      match key? rest with
      | some (path, key, ']' :: ']' :: rest) =>
        match Entries.within (Entries.openElement key) path root, lineEnd? rest with
        | some root, some rest => lines? fuel (path ++ [key]) root rest
        | _, _ => none
      | _ => none
    | '[' :: rest =>
      match key? rest with
      | some (path, key, ']' :: rest) =>
        match Entries.within (Entries.openTable key) path root, lineEnd? rest with
        | some root, some rest => lines? fuel (path ++ [key]) root rest
        | _, _ => none
      | _ => none
    | c :: rest =>
      if c = '#' || c = '\n' || c = '\r' then
        match lineEnd? (c :: rest) with
        | some rest => lines? fuel here root rest
        | none => none
      else
        match key? (c :: rest) with
        | some (path, key, '=' :: rest) =>
          match value? (2 * rest.length + 2) (nestingLimit - 1) (skipSpace rest) with
          | none => none
          | some (item, rest) =>
            match Entries.within (Entries.addDotted key item path) here root, lineEnd? rest with
            | some root, some rest => lines? fuel here root rest
            | _, _ => none
        | _ => none

/-- Reads a document, which may begin with a byte order mark. Every line takes at least one
character, except for the end. -/
def read? (s : String) : Option Entries :=
  match s.toList with
  | '\uFEFF' :: cs => lines? (cs.length + 1) [] [] cs
  | cs => lines? (cs.length + 1) [] [] cs

end AblAnalysis.Toml
