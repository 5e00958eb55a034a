import DocShape.ExtJson.Scalar
import DocShape.ExtJson.Tree
import DocShape.Text.Digits

/-!
# Reading extended JSON

A JSON object becomes a document.  An object inside it whose first name is a
wrapper's stands for a single value of the wrapper's type and has to be well
formed; every other object is a document.
-/

namespace DocShape.ExtJson

open Bson (Value Fields)

/-- The value of an integer: 32 or 64 bits if it fits, else a float. -/
def ofInteger? (n : Int) : Option Value :=
  if -2147483648 ≤ n && n ≤ 2147483647 then some (.int32 (Int32.ofInt n))
  else if -9223372036854775808 ≤ n && n ≤ 9223372036854775807 then some (.int64 (Int64.ofInt n))
  else
    match Number.ofDecimal (n < 0) n.natAbs 0 with
    | .ok x => some (.double x)
    | .error _ => none

/-- The names that make an object a wrapper when they come first. -/
def wrapperNames : List String :=
  ["$numberInt", "$numberLong", "$numberDouble", "$numberDecimal", "$oid", "$symbol", "$minKey",
   "$maxKey", "$undefined", "$date", "$timestamp", "$regularExpression", "$dbPointer", "$binary",
   "$uuid", "$code", "$scope"]

/-- A text inside a wrapper; a wrapper of a text reads as that text. -/
def textOf? : Tree → Option String
  | .string s => some s
  | .object [(name, .string s)] =>
      if ["$numberInt", "$numberLong", "$numberDouble", "$numberDecimal", "$oid", "$symbol",
          "$date"].contains name then some s
      else none
  | _ => none

/-- An integer inside a wrapper; a wrapper of an integer reads as that integer. -/
def integerOf? : Tree → Option Int
  | .integer n => some n
  | .object [("$date", .integer n)] => some n
  | .object [(name, .integer n)] =>
      if (name = "$minKey" || name = "$maxKey") && n ≤ 2147483647 then some n else none
  | _ => none

/-- A number of 32 bits without sign. -/
def word? (t : Tree) : Option UInt32 := do
  let n ← integerOf? t
  if 0 ≤ n && n < 4294967296 then some (UInt32.ofNat n.toNat) else none

def twoMembers? (first second : String) : List (String × Tree) → Option (Tree × Tree)
  | [(a, x), (b, y)] =>
      if a = first && b = second then some (x, y)
      else if a = second && b = first then some (y, x)
      else none
  | _ => none

/-- Binary data from its base-64 text and the hexadecimal number of its subtype. -/
def binary? (data subtype : Tree) : Option Value := do
  let bytes ← Text.bytesOfBase64? (← textOf? data)
  let (negative, digits) := Number.splitSign (← textOf? subtype).toList
  if digits.isEmpty then none
  match Number.readDigits 16 false 0 digits with
  | .ok n =>
      match Number.withSign negative n with
      | .ok code => return .binary code.toUInt64.toUInt8 bytes
      | .error _ => none
  | .error _ => none

/-- The value of a wrapper that holds no document. -/
def wrapped? (name : String) (value : Tree) (rest : List (String × Tree)) : Option Value :=
  match name, value, rest with
  | "$numberInt", .string s, [] =>
      match Number.readDecimalInt s.toList with
      | .ok n =>
          if -2147483648 ≤ n.toInt && n.toInt ≤ 2147483647 then some (.int32 n.toInt32) else none
      | .error _ => none
  | "$numberLong", .string s, [] =>
      match Number.readDecimalInt s.toList with
      | .ok n => some (.int64 n)
      | .error _ => none
  | "$numberDouble", .string s, [] =>
      match Number.readFloat s.toList with
      | .ok x => some (.double x)
      | .error _ => none
  | "$numberDecimal", .string s, [] => readDecimal128? s
  | "$oid", .string s, [] => (readObjectId? s).map .objectId
  | "$symbol", .string s, [] => some (.symbol s)
  | "$minKey", .integer 1, [] => some .minKey
  | "$maxKey", .integer 1, [] => some .maxKey
  | "$undefined", .bool true, [] => some .undefined
  | "$date", .string s, [] => (readDate? s).map .date
  | "$date", .integer n, [] =>
      if -9223372036854775808 ≤ n && n ≤ 9223372036854775807 then some (.date (Int64.ofInt n))
      else none
  | "$date", .object [("$numberLong", written)], [] => do
      match Number.readDecimalInt (← textOf? written).toList with
      | .ok n => some (.date n)
      | .error _ => none
  | "$timestamp", .object members, [] => do
      let (t, i) ← twoMembers? "t" "i" members
      return .timestamp (← word? t) (← word? i)
  | "$regularExpression", .object members, [] => do
      let (pattern, options) ← twoMembers? "pattern" "options" members
      return .regex (← textOf? pattern) (← textOf? options)
  | "$dbPointer", .object members, [] => do
      let (collection, id) ← twoMembers? "$ref" "$id" members
      return .dbPointer (← textOf? collection) (← readObjectId? (← textOf? id))
  | "$binary", .object members, [] => do
      let (data, subtype) ← twoMembers? "base64" "subType" members
      binary? data subtype
  | "$binary", .string data, [("$type", subtype)] => binary? (.string data) subtype
  | "$uuid", .string s, [] => (readUuid? s).map (.binary 4)
  | "$uuid", .object members, [] => do
      let (data, subtype) ← twoMembers? "base64" "subType" members
      binary? data subtype
  | "$code", .string code, [] => some (.javascript code)
  | _, _, _ => none

mutual

def Tree.toValue? : Tree → Option Value
  | .null => some .null
  | .bool b => some (.bool b)
  | .integer n => ofInteger? n
  | .decimal negative coefficient exponent =>
      match Number.ofDecimal negative coefficient exponent with
      | .ok x => some (.double x)
      | .error _ => none
  | .string s => some (.string s)
  | .array items => (toValues? items).map .array
  | .object [] => some (.document [])
  | .object [("$code", .string code), ("$scope", .object scope)] =>
      (toFields? scope).map (.codeWithScope code)
  | .object ((name, value) :: rest) =>
      if wrapperNames.contains name then wrapped? name value rest
      else
        match value.toValue?, toFields? rest with
        | some v, some fields => some (.document ((name, v) :: fields))
        | _, _ => none
termination_by structural t => t

def toValues? : List Tree → Option (List Value)
  | [] => some []
  | t :: rest =>
      match t.toValue?, toValues? rest with
      | some v, some values => some (v :: values)
      | _, _ => none
termination_by structural ts => ts

def toFields? : List (String × Tree) → Option (List (String × Value))
  | [] => some []
  | (name, t) :: rest =>
      match t.toValue?, toFields? rest with
      | some v, some fields => some ((name, v) :: fields)
      | _, _ => none
termination_by structural ms => ms

end

/-- The document of an extended JSON text; its names can all be written. -/
def read? (text : String) : Option Fields := do
  let fields ← toFields? (← Tree.readObject? text)
  if Bson.areWritable fields then some fields else none

def readBytes? (text : String) : Option (List UInt8) :=
  (read? text).map Bson.encodeDocument

end DocShape.ExtJson
