import DocShape.Bson.Value

/-!
# Reading binary documents

A document is read one level at a time: its elements come with their values as
bytes, which are looked into only when they are visited.  The size of a
document says when its elements end; the closing zero and what follows it are
not looked at.

Names and texts are taken to be UTF-8, as the format demands.  Only such names are
told apart for sure: in others each byte that belongs to no character reads as a
replacement character, so that two of them may read as the same name.
-/

namespace DocShape.Bson

/-- A value that has not been looked into. -/
structure RawValue where
  type : ElementType
  data : List UInt8

/-- A named value that has not been looked into. -/
structure RawElement where
  name : String
  value : RawValue

/-- The size written in the first four bytes, unless it is negative. -/
def readSize? (data : List UInt8) : Option Nat :=
  match Bytes.splitAt? 4 data with
  | some (bytes, _) =>
      let n := Bytes.toNat bytes
      if n < Nat.pow 2 31 then some n else none
  | none => none

/-- How many bytes at the start of the data a value of the type takes. -/
def valueSize? (type : ElementType) (data : List UInt8) : Option Nat :=
  match type with
  | .double | .date | .timestamp | .int64 => some 8
  | .string | .javascript | .symbol => (readSize? data).map (· + 4)
  | .document | .array | .codeWithScope =>
      match readSize? data with
      | some n => if n < 4 then none else some n
      | none => none
  | .binary => (readSize? data).map (· + 5)
  | .undefined | .null | .minKey | .maxKey => some 0
  | .objectId => some 12
  | .bool => some 1
  | .regex =>
      match Bytes.untilZero? data with
      | some (pattern, rest) =>
          match Bytes.untilZero? rest with
          | some (options, _) => some (pattern.length + 1 + (options.length + 1))
          | none => none
      | none => none
  | .dbPointer => (readSize? data).map (· + 16)
  | .int32 => some 4
  | .decimal => some 16

/-- The first element, how many bytes it takes and the bytes after it.  Its name is
that of the document if it is UTF-8. -/
def readElement? (bytes : List UInt8) : Option (RawElement × Nat × List UInt8) :=
  match bytes with
  | [] => none
  | code :: rest => do
      let type ← ElementType.ofCode? code
      let (name, data) ← Bytes.untilZero? rest
      let size ← valueSize? type data
      let (value, after) ← Bytes.splitAt? size data
      return (⟨Bytes.toText name, ⟨type, value⟩⟩, name.length + 2 + size, after)

/-- Elements while more than one byte of the document's size is left; every
element takes at least two bytes, so `fuel` need not exceed their number. -/
def readElements? : (fuel : Nat) → (left : Int) → List UInt8 → Option (List RawElement)
  | 0, _, _ => some []
  | fuel + 1, left, bytes =>
      if left > 1 then do
        let (e, size, after) ← readElement? bytes
        let rest ← readElements? fuel (left - size) after
        return e :: rest
      else some []

/-- The elements of a document; no bytes at all are a document without any. -/
def elements? (data : List UInt8) : Option (List RawElement) :=
  match data with
  | [] => some []
  | _ => do
      let size ← readSize? data
      readElements? (size + 1) ((size : Int) - 4) (data.drop 4)

/-- Elements up to a zero, which has to be the last byte. -/
def readClosed? : (fuel : Nat) → List UInt8 → Option (List RawElement)
  | 0, _ => none
  | fuel + 1, bytes =>
      match bytes with
      | [0] => some []
      | bytes => do
          let (e, _, after) ← readElement? bytes
          return e :: (← readClosed? fuel after)

/-- The elements of a document whose size is that of the data and which ends with
its closing zero. -/
def strictElements? (data : List UInt8) : Option (List RawElement) := do
  let size ← readSize? data
  if size = data.length then readClosed? data.length (data.drop 4) else none

namespace RawValue

def document? (v : RawValue) : Option (List UInt8) :=
  if v.type = .document then some v.data else none

/-- The bytes of an array value, which are those of a document. -/
def array? (v : RawValue) : Option (List UInt8) :=
  if v.type = .array then some v.data else none

/-- The text of a string value; its last byte is the closing zero. -/
def string? (v : RawValue) : Option String :=
  if v.type = .string then
    match readSize? v.data with
    | some (n + 1) => some (Bytes.toText ((v.data.drop 4).take n))
    | _ => none
  else none

def bool? (v : RawValue) : Option Bool :=
  match v.type, v.data with
  | .bool, b :: _ => some (b = 1)
  | _, _ => none

/-- The largest integer not beyond a float toward zero; what fits no 64-bit
integer reads as the least one. -/
def truncate (x : Float) : Int64 :=
  if -9223372036854775808.0 ≤ x && x < 9223372036854775808.0 then x.toInt64
  else Int64.minValue

/-- The number of an integer value, or of a double without its fraction. -/
def int64? (v : RawValue) : Option Int64 :=
  let n := Bytes.toNat v.data
  match v.type with
  | .int32 => some (Int32.ofNat n).toInt64
  | .int64 => some (Int64.ofNat n)
  | .double => some (truncate (Float.ofBits (UInt64.ofNat n)))
  | _ => none

end RawValue

end DocShape.Bson
