import AblAnalysis.Error
import AblAnalysis.Text.Utf8

/-!
The items that an artifact is made of: words of 32 and 16 bits with the highest byte first, and texts
as a 16-bit length followed by that many UTF-8 bytes. Items are read from a `Stream` and written to a
`Sink`, either of which may fail in the middle.
-/

namespace AblAnalysis.Artifact

/-- A number as `width` bytes, highest first; what does not fit is dropped. -/
def bigEndian : Nat → Nat → List UInt8
  | 0, _ => []
  | width + 1, n => UInt8.ofNat (n / Nat.pow 256 width) :: bigEndian width n

/-- The number that bytes stand for, highest first. -/
def ofBigEndian (bytes : List UInt8) : Nat :=
  bytes.foldl (fun n b => 256 * n + b.toNat) 0

/-- The bytes of a 32-bit word. -/
def int32Bytes (value : Int32) : List UInt8 :=
  bigEndian 4 value.toUInt32.toNat

/-- The bytes of a 16-bit word. -/
def int16Bytes (value : Int16) : List UInt8 :=
  bigEndian 2 value.toUInt16.toNat

/-- The largest number of bytes a stored text may have. -/
def textLimit : Nat := 65535

/-- The length and the bytes of a text. -/
def textParts (value : String) : Except Error (List UInt8 × List UInt8) :=
  let bytes := Text.utf8 value
  if bytes.length ≤ textLimit then .ok (bigEndian 2 bytes.length, bytes)
  else .error (.stringTooLong bytes.length)

/-- The bytes of a text with its length. -/
def textBytes (value : String) : Except Error (List UInt8) :=
  (textParts value).map (fun parts => parts.1 ++ parts.2)

/-- One item of an artifact. -/
inductive Item where
  | int32 (value : Int32)
  | int16 (value : Int16)
  | text (value : String)
  deriving Repr, DecidableEq

/-- The kinds of items. -/
inductive ItemKind where
  | int32
  | int16
  | text
  deriving Repr, DecidableEq

/-- The kind of an item. -/
def Item.kind : Item → ItemKind
  | .int32 _ => .int32
  | .int16 _ => .int16
  | .text _ => .text

/-! ### Writing -/

/-- What has been written so far, and how much more can be. -/
structure Sink where
  written : List UInt8 := []
  /-- After so many more bytes every transfer fails; absent for a sink that never fails. -/
  room : Option (Nat × IoFailure) := none
  deriving Repr, DecidableEq

namespace Sink

/-- Transfers bytes; a transfer that is cut leaves the bytes that had room. -/
def put (s : Sink) (bytes : List UInt8) : Except Error Unit × Sink :=
  match s.room with
  | none => (.ok (), { s with written := s.written ++ bytes })
  | some (room, failure) =>
    if bytes.length ≤ room then
      (.ok (), ⟨s.written ++ bytes, some (room - bytes.length, failure)⟩)
    else
      (.error (failure.classify "Failed to write artifact"),
        ⟨s.written ++ bytes.take room, some (0, failure)⟩)

/-- Writes an item. The length and the bytes of a text are two transfers. -/
def write (s : Sink) : Item → Except Error Unit × Sink
  | .int32 value => s.put (int32Bytes value)
  | .int16 value => s.put (int16Bytes value)
  | .text value =>
    match textParts value with
    | .error e => (.error e, s)
    | .ok (length, bytes) =>
      match s.put length with
      | (.error e, s') => (.error e, s')
      | (.ok (), s') => s'.put bytes

/-- Writes items in order, each whether or not the ones before it could be written. -/
def writeAll (s : Sink) : List Item → List (Except Error Unit) × Sink
  | [] => ([], s)
  | item :: rest =>
    let (result, s') := s.write item
    let (results, last) := s'.writeAll rest
    (result :: results, last)

end Sink

/-! ### Reading -/

/-- Bytes to be read, and what happens after the last of them. -/
structure Stream where
  bytes : List UInt8
  /-- How a transfer past the bytes fails; absent where the data ends. -/
  fault : Option IoFailure := none
  deriving Repr, DecidableEq

namespace Stream

/-- The error of a read that needs more bytes than there are. -/
def shortage (s : Stream) (cause : Corruption) : Error :=
  match s.fault with
  | none => .corruptArtifact cause
  | some failure =>
    if failure.kind = .unexpectedEof then .corruptArtifact cause
    else failure.classify "Failed to read artifact"

/-- Reads `n` bytes, or else all there are. -/
def take (s : Stream) (n : Nat) (cause : Corruption) : Except Error (List UInt8) × Stream :=
  let front := s.bytes.take n
  if front.length = n then (.ok front, { s with bytes := s.bytes.drop n })
  else (.error (s.shortage cause), { s with bytes := [] })

/-- Reads a 32-bit word. -/
def int32 (s : Stream) : Except Error Int32 × Stream :=
  match s.take 4 .endOfData with
  | (.ok bytes, rest) => (.ok (UInt32.ofNat (ofBigEndian bytes)).toInt32, rest)
  | (.error e, rest) => (.error e, rest)

/-- Reads a 16-bit word. -/
def int16 (s : Stream) : Except Error Int16 × Stream :=
  match s.take 2 .endOfData with
  | (.ok bytes, rest) => (.ok (UInt16.ofNat (ofBigEndian bytes)).toInt16, rest)
  | (.error e, rest) => (.error e, rest)

/-- Reads a text. -/
def text (s : Stream) : Except Error String × Stream :=
  match s.take 2 .endOfData with
  | (.error e, rest) => (.error e, rest)
  | (.ok length, rest) =>
    match rest.take (ofBigEndian length) .truncatedString with
    | (.error e, rest') => (.error e, rest')
    | (.ok bytes, rest') =>
      match Text.ofUtf8? bytes with
      | some value => (.ok value, rest')
      | none => (.error (.corruptArtifact .notUtf8), rest')

/-- Reads an item of a given kind. -/
def read (s : Stream) : ItemKind → Except Error Item × Stream
  | .int32 => (s.int32.1.map .int32, s.int32.2)
  | .int16 => (s.int16.1.map .int16, s.int16.2)
  | .text => (s.text.1.map .text, s.text.2)

/-- Reads items in order, each from where the one before it stopped. -/
def readAll (s : Stream) : List ItemKind → List (Except Error Item) × Stream
  | [] => ([], s)
  | kind :: rest =>
    let (result, s') := s.read kind
    let (results, last) := s'.readAll rest
    (result :: results, last)

theorem length_of_take_ok {s rest : Stream} {n : Nat} {cause : Corruption} {bytes : List UInt8}
    (h : s.take n cause = (.ok bytes, rest)) : rest.bytes.length + n = s.bytes.length := by
  simp only [take] at h
  split at h
  · rename_i hn
    obtain ⟨-, rfl⟩ := Prod.mk.inj h
    simp only [List.length_take, List.length_drop] at hn ⊢
    omega
  · exact absurd (Prod.mk.inj h).1 (by simp)

theorem length_of_int32_ok {s rest : Stream} {value : Int32} (h : s.int32 = (.ok value, rest)) :
    rest.bytes.length + 4 = s.bytes.length := by
  simp only [int32] at h
  split at h
  · rename_i hb
    obtain ⟨-, rfl⟩ := Prod.mk.inj h
    exact length_of_take_ok hb
  · exact absurd (Prod.mk.inj h).1 (by simp)

theorem length_of_int16_ok {s rest : Stream} {value : Int16} (h : s.int16 = (.ok value, rest)) :
    rest.bytes.length + 2 = s.bytes.length := by
  simp only [int16] at h
  split at h
  · rename_i hb
    obtain ⟨-, rfl⟩ := Prod.mk.inj h
    exact length_of_take_ok hb
  · exact absurd (Prod.mk.inj h).1 (by simp)

theorem length_of_text_ok {s rest : Stream} {value : String} (h : s.text = (.ok value, rest)) :
    rest.bytes.length + 2 ≤ s.bytes.length := by
  simp only [text] at h
  split at h
  · exact absurd (Prod.mk.inj h).1 (by simp)
  · rename_i hl
    split at h
    · exact absurd (Prod.mk.inj h).1 (by simp)
    · rename_i hb
      split at h
      · obtain ⟨-, rfl⟩ := Prod.mk.inj h
        have := length_of_take_ok hl
        have := length_of_take_ok hb
        omega
      · exact absurd (Prod.mk.inj h).1 (by simp)

end Stream

end AblAnalysis.Artifact
