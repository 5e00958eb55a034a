/-!
# Validators

A validator is a document of keywords that describes documents.  Keywords that
are absent differ from keywords that are present and empty.
-/

namespace DocShape

/-- Type aliases, written as one alias or as a list of them. -/
structure TypeNames where
  names : List String
  multiple : Bool
  deriving DecidableEq

namespace TypeNames

def single (name : String) : TypeNames := ⟨[name], false⟩

def several (names : List String) : TypeNames := ⟨names, true⟩

end TypeNames

mutual

inductive Validator where
  | absent
  | of (keywords : Keywords)

/-- The keywords of a validator; `none` is a keyword that is not there. -/
structure Keywords where
  bsonType : Option TypeNames
  properties : Option (List (String × Validator))
  required : Option (List String)
  additionalProperties : Option Bool
  items : Option ItemList
  maxItems : Option Int64
  anyOf : Option (List Validator)
  oneOf : Option (List Validator)

/-- Validators of array elements, written as one for all or as a list. -/
structure ItemList where
  schemas : List Validator
  multiple : Bool

end

namespace Keywords

def blank : Keywords :=
  { bsonType := none
    properties := none
    required := none
    additionalProperties := none
    items := none
    maxItems := none
    anyOf := none
    oneOf := none }

/-- Whether a keyword is there that only makes sense beside a type. -/
def hasTypeFields (k : Keywords) : Bool :=
  k.properties.isSome || k.required.isSome || k.additionalProperties.isSome || k.items.isSome
    || k.maxItems.isSome

def isEmpty (k : Keywords) : Bool :=
  k.bsonType.isNone && !k.hasTypeFields && k.anyOf.isNone && k.oneOf.isNone

/-- The validator of a property, the first of its name. -/
def property? (k : Keywords) (name : String) : Option Validator :=
  List.lookup name (k.properties.getD [])

/-- The names of the keywords that decide a validator's form. -/
def present (k : Keywords) : List String :=
  (if k.bsonType.isSome then ["bsonType"] else [])
    ++ (if k.hasTypeFields then ["type keywords"] else [])
    ++ (if k.anyOf.isSome then ["anyOf"] else [])
    ++ (if k.oneOf.isSome then ["oneOf"] else [])

end Keywords

namespace Validator

instance : Inhabited Validator := ⟨.absent⟩

/-- The keywords of a validator; one that is not there has none. -/
def keywords : Validator → Keywords
  | absent => .blank
  | of k => k

def empty : Validator := .of .blank

/-- Levels of nesting that a validator may have when read or written. -/
def maxDepth : Nat := 2048

end Validator

end DocShape
