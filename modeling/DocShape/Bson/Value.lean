import DocShape.Atomic
import DocShape.Bytes

/-!
# Binary document values

The values of a binary document and their bytes.  A document is its size in
four bytes, its elements and a zero; an element is a type byte, a name ended by
a zero and the bytes of its value.
-/

namespace DocShape.Bson

inductive ElementType where
  | double
  | string
  | document
  | array
  | binary
  | undefined
  | objectId
  | bool
  | date
  | null
  | regex
  | dbPointer
  | javascript
  | symbol
  | codeWithScope
  | int32
  | timestamp
  | int64
  | decimal
  | minKey
  | maxKey
  deriving DecidableEq

namespace ElementType

def all : List ElementType :=
  [.double, .string, .document, .array, .binary, .undefined, .objectId, .bool, .date, .null,
   .regex, .dbPointer, .javascript, .symbol, .codeWithScope, .int32, .timestamp, .int64, .decimal,
   .minKey, .maxKey]

def code : ElementType → UInt8
  | double => 1
  | string => 2
  | document => 3
  | array => 4
  | binary => 5
  | undefined => 6
  | objectId => 7
  | bool => 8
  | date => 9
  | null => 10
  | regex => 11
  | dbPointer => 12
  | javascript => 13
  | symbol => 14
  | codeWithScope => 15
  | int32 => 16
  | timestamp => 17
  | int64 => 18
  | decimal => 19
  | minKey => 255
  | maxKey => 127

def ofCode? (code : UInt8) : Option ElementType :=
  all.find? fun t => t.code == code

def label : ElementType → String
  | double => "double"
  | string => "string"
  | document => "embedded document"
  | array => "array"
  | binary => "binary"
  | undefined => "undefined"
  | objectId => "objectID"
  | bool => "boolean"
  | date => "UTC datetime"
  | null => "null"
  | regex => "regex"
  | dbPointer => "dbPointer"
  | javascript => "javascript"
  | symbol => "symbol"
  | codeWithScope => "code with scope"
  | int32 => "32-bit integer"
  | timestamp => "timestamp"
  | int64 => "64-bit integer"
  | decimal => "128-bit decimal"
  | minKey => "min key"
  | maxKey => "max key"

/-- The atomic kind of the type's values; containers have none. -/
def atomic? : ElementType → Option Atomic
  | double => some .double
  | string => some .string
  | document => none
  | array => none
  | binary => some .binData
  | undefined => some .undefined
  | objectId => some .objectId
  | bool => some .bool
  | date => some .date
  | null => some .null
  | regex => some .regex
  | dbPointer => some .dbPointer
  | javascript => some .javascript
  | symbol => some .symbol
  | codeWithScope => some .javascriptWithScope
  | int32 => some .int
  | timestamp => some .timestamp
  | int64 => some .long
  | decimal => some .decimal
  | minKey => some .minKey
  | maxKey => some .maxKey

theorem ofCode?_code (t : ElementType) : ofCode? t.code = some t := by
  cases t <;> rfl

end ElementType

/-- An object id: twelve bytes, the first four and the other eight as numbers. -/
structure ObjectId where
  head : UInt32
  tail : UInt64
  deriving DecidableEq

def ObjectId.bytes (id : ObjectId) : List UInt8 :=
  (Bytes.ofNat 4 id.head.toNat).reverse ++ (Bytes.ofNat 8 id.tail.toNat).reverse

inductive Value where
  | double (value : Float)
  | string (text : String)
  | document (fields : List (String × Value))
  | array (items : List Value)
  | binary (subtype : UInt8) (bytes : List UInt8)
  | undefined
  | objectId (id : ObjectId)
  | bool (value : Bool)
  | date (millis : Int64)
  | null
  | regex (pattern options : String)
  | dbPointer (collection : String) (id : ObjectId)
  | javascript (code : String)
  | symbol (text : String)
  | codeWithScope (code : String) (scope : List (String × Value))
  | int32 (value : Int32)
  | timestamp (seconds increment : UInt32)
  | int64 (value : Int64)
  | decimal (high low : UInt64)
  | minKey
  | maxKey

/-- Named values in order; names may repeat. -/
abbrev Fields := List (String × Value)

namespace Value

instance : Inhabited Value := ⟨.null⟩

def type : Value → ElementType
  | double _ => .double
  | string _ => .string
  | document _ => .document
  | array _ => .array
  | binary _ _ => .binary
  | undefined => .undefined
  | objectId _ => .objectId
  | bool _ => .bool
  | date _ => .date
  | null => .null
  | regex _ _ => .regex
  | dbPointer _ _ => .dbPointer
  | javascript _ => .javascript
  | symbol _ => .symbol
  | codeWithScope _ _ => .codeWithScope
  | int32 _ => .int32
  | timestamp _ _ => .timestamp
  | int64 _ => .int64
  | decimal _ _ => .decimal
  | minKey => .minKey
  | maxKey => .maxKey

/-- The integer as a 32-bit value if it fits, else as a 64-bit value. -/
def ofInt64 (n : Int64) : Value :=
  if -2147483648 ≤ n.toInt && n.toInt ≤ 2147483647 then .int32 n.toInt32 else .int64 n

end Value

/-- A text ended by a zero. -/
def cString (s : String) : List UInt8 :=
  Bytes.ofText s ++ [0]

/-- Bytes after their size, which counts all but its own four bytes. -/
def sized (bytes : List UInt8) : List UInt8 :=
  Bytes.ofNat 4 bytes.length ++ bytes

/-- A text after its size, ended by a zero. -/
def sizedText (s : String) : List UInt8 :=
  sized (cString s)

/-- Elements between their total size and a zero. -/
def enclose (elements : List UInt8) : List UInt8 :=
  Bytes.ofNat 4 (elements.length + 5) ++ elements ++ [0]

/-- An element: type byte, name and value. -/
def element (type : ElementType) (name : String) (value : List UInt8) : List UInt8 :=
  type.code :: cString name ++ value

mutual

def Value.encode : Value → List UInt8
  | .double value => Bytes.ofNat 8 value.toBits.toNat
  | .string text => sizedText text
  | .document fields => enclose (encodeFields fields)
  | .array items => enclose (encodeItems 0 items)
  | .binary subtype bytes => Bytes.ofNat 4 bytes.length ++ subtype :: bytes
  | .undefined => []
  | .objectId id => id.bytes
  | .bool value => [if value then 1 else 0]
  | .date millis => Bytes.ofNat 8 millis.toUInt64.toNat
  | .null => []
  | .regex pattern options => cString pattern ++ cString options
  | .dbPointer collection id => sizedText collection ++ id.bytes
  | .javascript code => sizedText code
  | .symbol text => sizedText text
  | .codeWithScope code scope =>
      let body := sizedText code ++ enclose (encodeFields scope)
      Bytes.ofNat 4 (body.length + 4) ++ body
  | .int32 value => Bytes.ofNat 4 value.toUInt32.toNat
  | .timestamp seconds increment =>
      Bytes.ofNat 4 increment.toNat ++ Bytes.ofNat 4 seconds.toNat
  | .int64 value => Bytes.ofNat 8 value.toUInt64.toNat
  | .decimal high low => Bytes.ofNat 8 low.toNat ++ Bytes.ofNat 8 high.toNat
  | .minKey => []
  | .maxKey => []
termination_by structural v => v

def encodeFields : List (String × Value) → List UInt8
  | [] => []
  | (name, v) :: rest => element v.type name v.encode ++ encodeFields rest
termination_by structural fields => fields

/-- The elements of an array, named by their positions from `index` on. -/
def encodeItems (index : Nat) : List Value → List UInt8
  | [] => []
  | v :: rest => element v.type (Nat.repr index) v.encode ++ encodeItems (index + 1) rest
termination_by structural items => items

end

def encodeDocument (fields : Fields) : List UInt8 :=
  enclose (encodeFields fields)

/-- Whether a text can be ended by a zero. -/
def isZeroFree (s : String) : Bool :=
  s.toList.all fun c => c.toNat ≠ 0

mutual

/-- Whether every name and every pattern inside the value can be ended by a
zero. -/
def Value.isWritable : Value → Bool
  | .document fields => areWritable fields
  | .array items => itemsWritable items
  | .codeWithScope _ scope => areWritable scope
  | .regex pattern options => isZeroFree pattern && isZeroFree options
  | _ => true
termination_by structural v => v

/-- Whether the names and what they hold can be written. -/
def areWritable : List (String × Value) → Bool
  | [] => true
  | (name, v) :: rest => isZeroFree name && v.isWritable && areWritable rest
termination_by structural fields => fields

def itemsWritable : List Value → Bool
  | [] => true
  | v :: rest => v.isWritable && itemsWritable rest
termination_by structural items => items

end

inductive WriteError where
  | zeroInName
  /-- A document or an array was closed with so many bytes written. -/
  | oversized (size : Nat)
deriving DecidableEq, Repr

namespace WriteError

def text : WriteError → String
  | zeroInName => "BSON element key cannot contain null bytes"
  | oversized size => "document size (" ++ toString size ++ ") is larger than the max int32"

end WriteError

/-- The most bytes that a size of four bytes, one of them with a sign, can count. -/
def maxSize : Nat := 2147483647

/-- Closes a document or an array after so many bytes in all. -/
def closeAt (stop : Nat) : Except WriteError Nat :=
  if stop ≤ maxSize then .ok stop else .error (.oversized stop)

/-- Where the value of an element starts whose type stands at `start`. -/
def valueAt (name : String) (start : Nat) : Except WriteError Nat :=
  if isZeroFree name then .ok (start + (name.utf8ByteSize + 2)) else .error .zeroInName

mutual

/-- Where a value ends that is written from `start` on.  Only documents and arrays are
held to the largest size, and by all that is written until they are closed. -/
def Value.endAt : Value → (start : Nat) → Except WriteError Nat
  | .document fields, start => do closeAt ((← fieldsEndAt fields (start + 4)) + 1)
  | .array items, start => do closeAt ((← itemsEndAt 0 items (start + 4)) + 1)
  | .codeWithScope code scope, start => do
      closeAt ((← fieldsEndAt scope (start + (code.utf8ByteSize + 13))) + 1)
  | .string text, start => .ok (start + (text.utf8ByteSize + 5))
  | v, start => if v.isWritable then .ok (start + v.encode.length) else .error .zeroInName
termination_by structural v => v

def fieldsEndAt : List (String × Value) → (start : Nat) → Except WriteError Nat
  | [], start => .ok start
  | (name, v) :: rest, start => do
      fieldsEndAt rest (← v.endAt (← valueAt name start))
termination_by structural fields => fields

/-- Where the elements of an array end, named by their positions from `index` on. -/
def itemsEndAt (index : Nat) : List Value → (start : Nat) → Except WriteError Nat
  | [], start => .ok start
  | v :: rest, start => do
      itemsEndAt (index + 1) rest (← v.endAt (← valueAt (Nat.repr index) start))
termination_by structural items => items

end

def documentSize (fields : Fields) : Except WriteError Nat :=
  (Value.document fields).endAt 0

def writeDocument (fields : Fields) : Except WriteError (List UInt8) :=
  (documentSize fields).map fun _ => encodeDocument fields

end DocShape.Bson
