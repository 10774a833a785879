import AblAnalysis.Text.Utf8

/-!
JSON text as values, read from bytes. The grammar is strict: no comments, no trailing commas, no
leading zeros, and only the four JSON blanks. A string whose escapes or bytes do not make up a text
is still a string, but has no text; numbers keep no value.
-/

namespace AblAnalysis

/-- A JSON value. -/
inductive Json where
  | null
  | bool (b : Bool)
  | number
  | string (text : Option String)
  | array (items : List Json)
  | object (members : List (Option String × Json))
  deriving Repr

namespace Json

/-- Blanks between tokens. -/
def isSpace (b : UInt8) : Bool :=
  b == 0x20 || b == 0x09 || b == 0x0A || b == 0x0D

/-- Drops blanks. -/
def skip (bytes : List UInt8) : List UInt8 :=
  bytes.dropWhile isSpace

/-- Whether a byte is a decimal digit. -/
def isDigit (b : UInt8) : Bool :=
  0x30 ≤ b && b ≤ 0x39

/-- Value of a hexadecimal digit. -/
def hexDigit? (b : UInt8) : Option Nat :=
  if 0x30 ≤ b && b ≤ 0x39 then some (b.toNat - 0x30)
  else if 0x41 ≤ b && b ≤ 0x46 then some (b.toNat - 0x41 + 10)
  else if 0x61 ≤ b && b ≤ 0x66 then some (b.toNat - 0x61 + 10)
  else none

/-- Value of four hexadecimal digits. -/
def hex4? (a b c d : UInt8) : Option Nat :=
  match hexDigit? a, hexDigit? b, hexDigit? c, hexDigit? d with
  | some w, some x, some y, some z => some (((w * 16 + x) * 16 + y) * 16 + z)
  | _, _, _, _ => none

/-- The byte that a one-letter escape stands for. -/
def escaped? (b : UInt8) : Option UInt8 :=
  if b == 0x22 || b == 0x5C || b == 0x2F then some b
  else if b == 0x62 then some 0x08
  else if b == 0x66 then some 0x0C
  else if b == 0x6E then some 0x0A
  else if b == 0x72 then some 0x0D
  else if b == 0x74 then some 0x09
  else none

/-- The UTF-8 bytes of a code point, last first. -/
def encodeBackwards (n : Nat) : List UInt8 :=
  (Text.utf8 (String.singleton (Char.ofNat n))).reverse

/-- What has been read of a string: its bytes, last first, a first half of a surrogate pair that
waits for the second, and whether the string still makes up a text. -/
structure Partial where
  bytes : List UInt8 := []
  half : Option Nat := none
  sound : Bool := true
  deriving Repr

namespace Partial

/-- Takes a byte, which leaves a waiting half alone. -/
def byte (p : Partial) (b : UInt8) : Partial :=
  { bytes := b :: p.bytes, half := none, sound := p.sound && p.half.isNone }

/-- Takes a numbered escape: a code point, or a half of a surrogate pair. -/
def unit (p : Partial) (n : Nat) : Partial :=
  if 0xD800 ≤ n ∧ n ≤ 0xDBFF then
    { p with half := some n, sound := p.sound && p.half.isNone }
  else if 0xDC00 ≤ n ∧ n ≤ 0xDFFF then
    match p.half with
    | some high =>
      { p with
        bytes := encodeBackwards (0x10000 + (high - 0xD800) * 0x400 + (n - 0xDC00)) ++ p.bytes
        half := none }
    | none => { p with sound := false }
  else
    { bytes := encodeBackwards n ++ p.bytes, half := none, sound := p.sound && p.half.isNone }

/-- The text that was read. -/
def text? (p : Partial) : Option String :=
  if p.sound && p.half.isNone then Text.ofUtf8? p.bytes.reverse else none

end Partial

/-- Reads the rest of a string after its opening quote. -/
def stringRest (p : Partial) : List UInt8 → Option (Option String × List UInt8)
  | [] => none
  | 0x22 :: rest => some (p.text?, rest)
  | 0x5C :: 0x75 :: a :: b :: c :: d :: rest =>
    match hex4? a b c d with
    | some n => stringRest (p.unit n) rest
    | none => none
  | 0x5C :: e :: rest =>
    match escaped? e with
    | some b => stringRest (p.byte b) rest
    | none => none
  | b :: rest => if b < 0x20 || b == 0x5C then none else stringRest (p.byte b) rest

/-- Drops one digit or more. -/
def digits? (bytes : List UInt8) : Option (List UInt8) :=
  match bytes with
  | b :: _ => if isDigit b then some (bytes.dropWhile isDigit) else none
  | [] => none

/-- Drops the digits of a whole number, which do not begin with a zero unless that is all. -/
def whole? (bytes : List UInt8) : Option (List UInt8) :=
  match bytes with
  | 0x30 :: rest =>
    match rest with
    | b :: _ => if isDigit b then none else some rest
    | [] => some rest
  | _ => digits? bytes

/-- Drops an exponent, if there is one. -/
def exponent? (bytes : List UInt8) : Option (List UInt8) :=
  match bytes with
  | b :: rest =>
    if b == 0x65 || b == 0x45 then
      match rest with
      | s :: tail => if s == 0x2B || s == 0x2D then digits? tail else digits? rest
      | [] => none
    else some bytes
  | [] => some bytes

/-- Drops a number without its sign. -/
def magnitude? (bytes : List UInt8) : Option (List UInt8) :=
  match whole? bytes with
  | some (0x2E :: rest) => (digits? rest).bind exponent?
  | some rest => exponent? rest
  | none => none

mutual

/-- Reads a value, with a bound on the depth of values in values. -/
def value : Nat → List UInt8 → Option (Json × List UInt8)
  | 0, _ => none
  | fuel + 1, bytes =>
    match skip bytes with
    | 0x6E :: 0x75 :: 0x6C :: 0x6C :: rest => some (.null, rest)
    | 0x74 :: 0x72 :: 0x75 :: 0x65 :: rest => some (.bool true, rest)
    | 0x66 :: 0x61 :: 0x6C :: 0x73 :: 0x65 :: rest => some (.bool false, rest)
    | 0x22 :: rest => (stringRest {} rest).map (fun r => (.string r.1, r.2))
    | 0x5B :: rest =>
      match skip rest with
      | 0x5D :: tail => some (.array [], tail)
      | _ => (items fuel rest).map (fun r => (.array r.1, r.2))
    | 0x7B :: rest =>
      match skip rest with
      | 0x7D :: tail => some (.object [], tail)
      | _ => (members fuel rest).map (fun r => (.object r.1, r.2))
    | 0x2D :: rest => (magnitude? rest).map (fun r => (.number, r))
    | rest => (magnitude? rest).map (fun r => (.number, r))

/-- Reads the items of an array up to its closing bracket. -/
def items : Nat → List UInt8 → Option (List Json × List UInt8)
  | 0, _ => none
  | fuel + 1, bytes =>
    match value fuel bytes with
    | none => none
    | some (item, rest) =>
      match skip rest with
      | 0x5D :: tail => some ([item], tail)
      | 0x2C :: tail => (items fuel tail).map (fun r => (item :: r.1, r.2))
      | _ => none

/-- Reads the members of an object up to its closing brace. -/
def members : Nat → List UInt8 → Option (List (Option String × Json) × List UInt8)
  | 0, _ => none
  | fuel + 1, bytes =>
    match skip bytes with
    | 0x22 :: rest =>
      match stringRest {} rest with
      | none => none
      | some (key, afterKey) =>
        match skip afterKey with
        | 0x3A :: tail =>
          match value fuel tail with
          | none => none
          | some (item, afterItem) =>
            match skip afterItem with
            | 0x7D :: tail => some ([(key, item)], tail)
            | 0x2C :: tail => (members fuel tail).map (fun r => ((key, item) :: r.1, r.2))
            | _ => none
        | _ => none
    | _ => none

end

/-- Reads one value that makes up all of the bytes. Every step of reading takes at least one byte
or goes one level deeper for one, so twice the number of bytes bounds the steps. -/
def read? (bytes : List UInt8) : Option Json :=
  match value (2 * bytes.length + 2) bytes with
  | some (v, rest) => if (skip rest).isEmpty then some v else none
  | none => none

end Json

end AblAnalysis
