/-!
# Atomic kinds

The kinds of value that are neither an array nor a document.  An atomic kind
is one byte: the first nineteen codes carry an alias, the others are kept
without one.
-/

namespace DocShape

/-- A non-container kind of value, in the order of its codes. -/
inductive Atomic where
  | minKey
  | null
  | int
  | long
  | double
  | decimal
  | symbol
  | string
  | binData
  | undefined
  | objectId
  | bool
  | date
  | timestamp
  | regex
  | dbPointer
  | javascript
  | javascriptWithScope
  | maxKey
  /-- The code `19 + offset`, which has no alias. -/
  | unassigned (offset : Fin 237)
  deriving DecidableEq

namespace Atomic

/-- The kinds that carry an alias, in the order of their codes. -/
def named : List Atomic :=
  [.minKey, .null, .int, .long, .double, .decimal, .symbol, .string, .binData, .undefined,
   .objectId, .bool, .date, .timestamp, .regex, .dbPointer, .javascript, .javascriptWithScope,
   .maxKey]

/-- The byte that stands for the kind; it decides the order of kinds. -/
def code : Atomic → Nat
  | minKey => 0
  | null => 1
  | int => 2
  | long => 3
  | double => 4
  | decimal => 5
  | symbol => 6
  | string => 7
  | binData => 8
  | undefined => 9
  | objectId => 10
  | bool => 11
  | date => 12
  | timestamp => 13
  | regex => 14
  | dbPointer => 15
  | javascript => 16
  | javascriptWithScope => 17
  | maxKey => 18
  | unassigned offset => 19 + offset.val

/-- The kind of a code; codes are read modulo 256. -/
def ofCode (code : Nat) : Atomic :=
  match named[code % 256]? with
  | some a => a
  | none => unassigned (Fin.ofNat 237 (code % 256 - 19))

/-- The alias of the kind, or its code in words when it has none. -/
def name : Atomic → String
  | minKey => "minKey"
  | null => "null"
  | int => "int"
  | long => "long"
  | double => "double"
  | decimal => "decimal"
  | symbol => "symbol"
  | string => "string"
  | binData => "binData"
  | undefined => "undefined"
  | objectId => "objectId"
  | bool => "bool"
  | date => "date"
  | timestamp => "timestamp"
  | regex => "regex"
  | dbPointer => "dbPointer"
  | javascript => "javascript"
  | javascriptWithScope => "javascriptWithScope"
  | maxKey => "maxKey"
  | unassigned offset => "atomic(" ++ Nat.repr (19 + offset.val) ++ ")"

def isNamed : Atomic → Bool
  | unassigned _ => false
  | _ => true

def ofName? (name : String) : Option Atomic :=
  named.find? fun a => a.name == name

/-- Kinds of number, which compare with one another. -/
def isNumeric : Atomic → Bool
  | decimal | double | int | long => true
  | _ => false

/-- Kinds that compare with nothing but null. -/
def isOpaque : Atomic → Bool
  | javascript | javascriptWithScope | dbPointer => true
  | _ => false

def compare (a b : Atomic) : Ordering :=
  Ord.compare a.code b.code

theorem ofCode_code (a : Atomic) : ofCode a.code = a := by
  cases a with
  | unassigned offset =>
      have hlt : 19 + offset.val < 256 := by omega
      simp [ofCode, code, Nat.mod_eq_of_lt hlt, named]
  | _ => rfl

theorem code_injective {a b : Atomic} (h : a.code = b.code) : a = b := by
  rw [← ofCode_code a, ← ofCode_code b, h]

end Atomic

end DocShape
