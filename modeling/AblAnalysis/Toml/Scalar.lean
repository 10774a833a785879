import AblAnalysis.Toml.Item

/-!
TOML numbers, dates and strings. A reader takes the characters that are left and gives a value with
what is left after it.
-/

namespace AblAnalysis.Toml

/-! ### Blanks, comments and line ends -/

/-- Blanks within a line. -/
def isSpace (c : Char) : Bool :=
  c = ' ' || c = '\t'

/-- Drops blanks. -/
def skipSpace (cs : List Char) : List Char :=
  cs.dropWhile isSpace

/-- Characters that may stand in comments: all but control characters other than the tab. -/
def isPlain (c : Char) : Bool :=
  c = '\t' || (0x20 ≤ c.toNat && c.toNat != 0x7F)

/-- Drops the end of a line. -/
def newline? : List Char → Option (List Char)
  | '\n' :: rest => some rest
  | '\r' :: '\n' :: rest => some rest
  | _ => none

/-- Drops a comment, if there is one. -/
def skipComment : List Char → List Char
  | '#' :: rest => rest.dropWhile isPlain
  | cs => cs

/-- Drops what may stand after the last value of a line, with the end of the line or of the text. -/
def lineEnd? (cs : List Char) : Option (List Char) :=
  match skipComment (skipSpace cs) with
  | [] => some []
  | rest => newline? rest

/-! ### Numbers -/

/-- Whether a character is a digit in a base up to 16. -/
def isDigitIn (base : Nat) (c : Char) : Bool :=
  if c.isDigit then c.toNat - '0'.toNat < base
  else if 'a' ≤ c && c ≤ 'f' then c.toNat - 'a'.toNat + 10 < base
  else if 'A' ≤ c && c ≤ 'F' then c.toNat - 'A'.toNat + 10 < base
  else false

/-- Value of a digit. -/
def digitValue (c : Char) : Nat :=
  if c.isDigit then c.toNat - '0'.toNat
  else if 'a' ≤ c && c ≤ 'f' then c.toNat - 'a'.toNat + 10
  else c.toNat - 'A'.toNat + 10

/-- Value of digits, highest first. -/
def digitsValue (base : Nat) (ds : List Char) : Nat :=
  ds.foldl (fun n c => base * n + digitValue c) 0

/-- Reads further digits, single underscores between them. `digits` holds those read, last first. -/
def moreDigits (base : Nat) (digits : List Char) : List Char → Option (List Char × List Char)
  | '_' :: c :: rest => if isDigitIn base c then moreDigits base (c :: digits) rest else none
  | ['_'] => none
  | c :: rest =>
    if isDigitIn base c then moreDigits base (c :: digits) rest
    else some (digits.reverse, c :: rest)
  | [] => some (digits.reverse, [])

/-- Reads one digit or more, single underscores between them. -/
def digits? (base : Nat) : List Char → Option (List Char × List Char)
  | c :: rest => if isDigitIn base c then moreDigits base [c] rest else none
  | [] => none

/-- Reads digits that do not begin with a zero, or a single zero. -/
def whole? : List Char → Option (List Char × List Char)
  | '0' :: rest => some (['0'], rest)
  | cs => digits? 10 cs

/-- Reads a sign, if there is one; tells whether it is a minus. -/
def sign : List Char → Bool × List Char
  | '-' :: rest => (true, rest)
  | '+' :: rest => (false, rest)
  | cs => (false, cs)

/-- A number in the range of a signed 64-bit word. -/
def inRange? (n : Int) : Option Item :=
  if Int64.minValue.toInt ≤ n ∧ n ≤ Int64.maxValue.toInt then some (.integer n) else none

/-- Reads an integer in another base, after its mark. -/
def basedInteger? (base : Nat) (cs : List Char) : Option (Item × List Char) :=
  match digits? base cs with
  | some (ds, rest) => (inRange? (digitsValue base ds)).map (·, rest)
  | none => none

/-- Reads an integer. -/
def integer? : List Char → Option (Item × List Char)
  | '0' :: 'x' :: rest => basedInteger? 16 rest
  | '0' :: 'o' :: rest => basedInteger? 8 rest
  | '0' :: 'b' :: rest => basedInteger? 2 rest
  | cs =>
    let (negative, magnitude) := sign cs
    match whole? magnitude with
    | some (ds, rest) =>
      let n : Int := digitsValue 10 ds
      (inRange? (if negative then -n else n)).map (·, rest)
    | none => none

/-- Reads an exponent. -/
def exponent? : List Char → Option (Int × List Char)
  | c :: rest =>
    if c = 'e' || c = 'E' then
      let (negative, cs) := sign rest
      (digits? 10 cs).map (fun (ds, rest) =>
        let n : Int := digitsValue 10 ds
        (if negative then -n else n, rest))
    else none
  | [] => none

/-- Whether a decimal number rounds to a double: it is less than the number halfway between the
largest double and the power of two after it. -/
def isFinite (mantissa : Nat) (exponent : Int) : Bool :=
  if mantissa = 0 then true
  else if 400 < exponent then false
  else
    let bound := 1 <<< 1024 - 1 <<< 970
    if 0 ≤ exponent then mantissa * Nat.pow 10 exponent.toNat < bound
    else
      let places := (-exponent).toNat
      -- So many digits before the point are fewer than the bound has.
      if (toString mantissa).length ≤ places then true else mantissa < bound * Nat.pow 10 places

/-- Reads what makes a number a float: a fraction, an exponent or both. -/
def floatTail? (whole : List Char) : List Char → Option (Nat × Int × List Char)
  | '.' :: cs =>
    match digits? 10 cs with
    | none => none
    | some (fraction, rest) =>
      let mantissa := digitsValue 10 (whole ++ fraction)
      let places : Int := fraction.length
      match exponent? rest with
      | some (e, rest) => some (mantissa, e - places, rest)
      | none => some (mantissa, -places, rest)
  | cs => (exponent? cs).map (fun (e, rest) => (digitsValue 10 whole, e, rest))

/-- Reads a float other than the special ones. It must not be too large; one that is too far below
zero is accepted. -/
def decimal? (cs : List Char) : Option (Item × List Char) :=
  let (negative, magnitude) := sign cs
  match whole? magnitude with
  | none => none
  | some (ds, rest) =>
    match floatTail? ds rest with
    | none => none
    | some (mantissa, exponent, rest) =>
      if negative || isFinite mantissa exponent then some (.float, rest) else none

/-- Reads infinity or not-a-number. -/
def special? (cs : List Char) : Option (Item × List Char) :=
  match (sign cs).2 with
  | 'i' :: 'n' :: 'f' :: rest => some (.float, rest)
  | 'n' :: 'a' :: 'n' :: rest => some (.float, rest)
  | _ => none

/-! ### Dates and times -/

/-- Reads a number of exactly `n` digits. -/
def fixed? (n : Nat) (cs : List Char) : Option (Nat × List Char) :=
  let front := cs.take n
  if front.length = n && front.all Char.isDigit then some (digitsValue 10 front, cs.drop n) else none

/-- Reads a number of two digits in a range. -/
def two? (low high : Nat) (cs : List Char) : Option (Nat × List Char) :=
  (fixed? 2 cs).filter (fun r => low ≤ r.1 && r.1 ≤ high)

/-- Number of days of a month. -/
def daysIn (year month : Nat) : Nat :=
  if month = 2 then
    if year % 4 = 0 && (year % 100 != 0 || year % 400 = 0) then 29 else 28
  else if month = 4 || month = 6 || month = 9 || month = 11 then 30
  else 31

/-- Drops a given character. -/
def expect? (c : Char) : List Char → Option (List Char)
  | d :: rest => if d = c then some rest else none
  | [] => none

/-- Drops a date. -/
def date? (cs : List Char) : Option (List Char) := do
  let (year, cs) ← fixed? 4 cs
  let (month, cs) ← two? 1 12 (← expect? '-' cs)
  let (day, cs) ← two? 1 31 (← expect? '-' cs)
  if day ≤ daysIn year month then some cs else none

/-- Drops a fraction of a second, if there is one. -/
def skipFraction : List Char → List Char
  | '.' :: c :: rest => if c.isDigit then rest.dropWhile Char.isDigit else '.' :: c :: rest
  | cs => cs

/-- Drops a time of day. -/
def time? (cs : List Char) : Option (List Char) := do
  let (_, cs) ← two? 0 23 cs
  let (_, cs) ← two? 0 59 (← expect? ':' cs)
  let (_, cs) ← two? 0 60 (← expect? ':' cs)
  return skipFraction cs

/-- Drops hours and minutes. -/
def hoursMinutes? (cs : List Char) : Option (List Char) := do
  let (_, cs) ← two? 0 23 cs
  let (_, cs) ← two? 0 59 (← expect? ':' cs)
  return cs

/-- Drops the offset of a time, if there is one. -/
def skipOffset (cs : List Char) : List Char :=
  match cs with
  | c :: rest =>
    if c = 'Z' || c = 'z' then rest
    else if c = '+' || c = '-' then (hoursMinutes? rest).getD cs
    else cs
  | [] => []

/-- Drops the time after a date, if there is one. -/
def skipTime (cs : List Char) : List Char :=
  match cs with
  | c :: rest =>
    if c = 'T' || c = 't' || c = ' ' then
      match time? rest with
      | some rest => skipOffset rest
      | none => cs
    else cs
  | [] => []

/-- Reads a date, a time or both. -/
def moment? (cs : List Char) : Option (Item × List Char) :=
  match date? cs with
  | some rest => some (.moment, skipTime rest)
  | none => (time? cs).map (fun rest => (.moment, rest))

/-- Reads a number or a date. -/
def number? (cs : List Char) : Option (Item × List Char) :=
  (moment? cs).or ((decimal? cs).or ((special? cs).or (integer? cs)))

/-! ### Strings -/

/-- Characters that stand for themselves in a basic string. -/
def isBasic (c : Char) : Bool :=
  isPlain c && c != '"' && c != '\\'

/-- Characters of a literal string. -/
def isLiteral (c : Char) : Bool :=
  isPlain c && c != '\x27'

/-- The character that a one-letter escape stands for. -/
def escaped? (c : Char) : Option Char :=
  match c with
  | 'b' => some '\x08'
  | 't' => some '\t'
  | 'n' => some '\n'
  | 'f' => some '\x0c'
  | 'r' => some '\r'
  | '"' => some '"'
  | '\\' => some '\\'
  | _ => none

/-- The character with a number in hexadecimal digits. -/
def scalar? (ds : List Char) : Option Char :=
  if ds.all (isDigitIn 16) then
    let n := digitsValue 16 ds
    if n.isValidChar then some (Char.ofNat n) else none
  else none

/-- Reads the rest of a basic string after its opening quote. `read` holds the characters so far,
last first. -/
def basicRest (read : List Char) : List Char → Option (String × List Char)
  | [] => none
  | '"' :: rest => some (String.ofList read.reverse, rest)
  | '\\' :: 'u' :: a :: b :: c :: d :: rest =>
    match scalar? [a, b, c, d] with
    | some x => basicRest (x :: read) rest
    | none => none
  | '\\' :: 'U' :: a :: b :: c :: d :: e :: f :: g :: h :: rest =>
    match scalar? [a, b, c, d, e, f, g, h] with
    | some x => basicRest (x :: read) rest
    | none => none
  | '\\' :: e :: rest =>
    match escaped? e with
    | some x => basicRest (x :: read) rest
    | none => none
  | c :: rest => if isBasic c then basicRest (c :: read) rest else none

/-- The quotes that a run of three or more at the end of a string adds to it: up to two. -/
def closing (quote : Char) (read rest : List Char) : String × List Char :=
  let extra := min 2 (rest.takeWhile (· = quote)).length
  (String.ofList (read.reverse ++ List.replicate extra quote), rest.drop extra)

/-- Whether a backslash stands at the end of its line. -/
def endsLine (rest : List Char) : Bool :=
  (newline? (skipSpace rest)).isSome

/-- Reads the rest of a basic string of several lines. While `joining`, after a backslash at the end
of a line, blanks and line ends are passed over. -/
def longBasicRest (joining : Bool) (read : List Char) : List Char → Option (String × List Char)
  | [] => none
  | '"' :: '"' :: '"' :: rest => some (closing '"' read rest)
  | '"' :: rest => longBasicRest false ('"' :: read) rest
  | '\r' :: '\n' :: rest =>
    if joining then longBasicRest true read rest else longBasicRest false ('\n' :: read) rest
  | '\n' :: rest =>
    if joining then longBasicRest true read rest else longBasicRest false ('\n' :: read) rest
  | '\\' :: 'u' :: a :: b :: c :: d :: rest =>
    match scalar? [a, b, c, d] with
    | some x => longBasicRest false (x :: read) rest
    | none => none
  | '\\' :: 'U' :: a :: b :: c :: d :: e :: f :: g :: h :: rest =>
    match scalar? [a, b, c, d, e, f, g, h] with
    | some x => longBasicRest false (x :: read) rest
    | none => none
  | '\\' :: e :: rest =>
    if endsLine (e :: rest) then longBasicRest true read (e :: rest)
    else
      match escaped? e with
      | some x => longBasicRest false (x :: read) rest
      | none => none
  | c :: rest =>
    if joining && isSpace c then longBasicRest true read rest
    else if isBasic c then longBasicRest false (c :: read) rest
    else none

/-- Reads the rest of a literal string of several lines. -/
def longLiteralRest (read : List Char) : List Char → Option (String × List Char)
  | [] => none
  | '\x27' :: '\x27' :: '\x27' :: rest => some (closing '\x27' read rest)
  | '\r' :: '\n' :: rest => longLiteralRest ('\n' :: read) rest
  | '\n' :: rest => longLiteralRest ('\n' :: read) rest
  | c :: rest => if isPlain c then longLiteralRest (c :: read) rest else none

/-- Reads a literal string after its opening quote. -/
def literalRest (cs : List Char) : Option (String × List Char) :=
  match cs.dropWhile isLiteral with
  | '\x27' :: rest => some (String.ofList (cs.takeWhile isLiteral), rest)
  | _ => none

/-- Drops a line end right after the opening quotes of a string of several lines. -/
def skipNewline (cs : List Char) : List Char :=
  (newline? cs).getD cs

/-- Reads a string. -/
def string? : List Char → Option (String × List Char)
  | '"' :: '"' :: '"' :: rest => longBasicRest false [] (skipNewline rest)
  | '"' :: rest => basicRest [] rest
  | '\x27' :: '\x27' :: '\x27' :: rest => longLiteralRest [] (skipNewline rest)
  | '\x27' :: rest => literalRest rest
  | _ => none

end AblAnalysis.Toml
