import DocShape.Validator.Basic
import DocShape.Bson.Raw
import DocShape.Plain
import DocShape.Failure

/-!
# Validators as binary documents

A validator is written with its keywords in a fixed order, and read from the
elements of a document, where unknown keywords are passed over.  Both bound
the nesting.
-/

namespace DocShape

open Bson (RawValue RawElement)

mutual

/-- The document of a validator that nests at most `room` levels deep. -/
def Validator.fields? : Validator → (room : Nat) → Option (List (String × Plain))
  | _, 0 => none
  | .absent, _ + 1 => some []
  | .of keywords, below + 1 => keywords.fields? below
termination_by structural v => v

/-- The document of keywords whose validators nest at most `room` levels deep. -/
def Keywords.fields? : Keywords → (room : Nat) → Option (List (String × Plain))
  | ⟨bsonType, properties, required, additionalProperties, items, maxItems, anyOf, oneOf⟩, room =>
      match propertiesField? properties room, itemsField? items room,
          listField? "anyOf" anyOf room, listField? "oneOf" oneOf room with
      | some properties, some items, some anyOf, some oneOf =>
          some
            ((bsonType.map fun t =>
                ("bsonType",
                  match t with
                  | ⟨[name], false⟩ => .text name
                  | t => .list (t.names.map .text))).toList
              ++ properties
              ++ (required.map fun names => ("required", .list (names.map .text))).toList
              ++ (additionalProperties.map fun b => ("additionalProperties", .flag b)).toList
              ++ items
              ++ (maxItems.map fun n => ("maxItems", .number n)).toList
              ++ anyOf
              ++ oneOf)
      | _, _, _, _ => none
termination_by structural k => k

def propertiesField? : Option (List (String × Validator)) → (room : Nat) →
    Option (List (String × Plain))
  | none, _ => some []
  | some properties, room =>
      match propertyFields? properties room with
      | some fields => some [("properties", .record fields)]
      | none => none
termination_by structural p => p

def itemsField? : Option ItemList → (room : Nat) → Option (List (String × Plain))
  | none, _ => some []
  | some ⟨schemas, multiple⟩, room =>
      match documentList? schemas room with
      | some [document] => some [("items", if multiple then .list [document] else document)]
      | some documents => some [("items", .list documents)]
      | none => none
termination_by structural i => i

def listField? (keyword : String) : Option (List Validator) → (room : Nat) →
    Option (List (String × Plain))
  | none, _ => some []
  | some list, room =>
      match documentList? list room with
      | some documents => some [(keyword, .list documents)]
      | none => none
termination_by structural l => l

def propertyFields? : List (String × Validator) → (room : Nat) → Option (List (String × Plain))
  | [], _ => some []
  | (name, v) :: rest, room =>
      match v.fields? room, propertyFields? rest room with
      | some fields, some others => some ((name, .record fields) :: others)
      | _, _ => none
termination_by structural ps => ps

def documentList? : List Validator → (room : Nat) → Option (List Plain)
  | [], _ => some []
  | v :: rest, room =>
      match v.fields? room, documentList? rest room with
      | some fields, some others => some (.record fields :: others)
      | _, _ => none
termination_by structural vs => vs

end

def Validator.toFields (v : Validator) : Outcome (List (String × Plain)) :=
  match v.fields? Validator.maxDepth with
  | some fields => .ok fields
  | none => .error .validatorTooDeep

def Bson.WriteError.failure (e : Bson.WriteError) : Failure :=
  .plain e.text

def Plain.toBytes (fields : List (String × Plain)) : Outcome (List UInt8) :=
  (Bson.writeDocument (Plain.fieldsToBson fields)).mapError Bson.WriteError.failure

def Validator.toBytes (v : Validator) : Outcome (List UInt8) := do
  Plain.toBytes (← v.toFields)

/-- What keeps a document from being read as a validator. -/
inductive Validator.Issue where
  /-- It nests too deeply. -/
  | tooDeep
  /-- Its bytes, or those of a keyword's value, are no document. -/
  | malformed (keyword : Option String)
  /-- A keyword has a value of the wrong type. -/
  | wrongType (keyword expected : String) (got : Bson.ElementType)

def Bson.malformed : String := "malformed BSON"

def Validator.Issue.failure : Validator.Issue → Failure
  | tooDeep => .validatorTooDeep
  | malformed none => .plain ("jsonschema: " ++ Bson.malformed)
  | malformed (some keyword) => .plain ("jsonschema: " ++ keyword ++ ": " ++ Bson.malformed)
  | wrongType keyword expected got =>
      .plain ("jsonschema: " ++ keyword ++ " must be " ++ expected ++ ", got " ++ got.label)

namespace Validator

def readArray (keyword expected : String) (v : RawValue) : Except Issue (List RawValue) :=
  match v.array? with
  | none => .error (.wrongType keyword expected v.type)
  | some data =>
      match Bson.elements? data with
      | none => .error (.malformed (some keyword))
      | some elements => .ok (elements.map RawElement.value)

def readStrings (keyword : String) (v : RawValue) : Except Issue (List String) := do
  let values ← readArray keyword "an array of strings" v
  values.mapM fun item =>
    match item.string? with
    | some s => .ok s
    | none => .error (.wrongType keyword "an array of strings" item.type)

def readTypeNames (v : RawValue) : Except Issue TypeNames :=
  match v.string? with
  | some name => .ok (.single name)
  | none =>
      match v.array? with
      | none => .error (.wrongType "bsonType" "a string or an array of strings" v.type)
      | some _ => return .several (← readStrings "bsonType" v)

/-- Reads named validators, each with `child`. -/
def readProperties (child : List UInt8 → Except Issue Validator) (v : RawValue) :
    Except Issue (List (String × Validator)) :=
  match v.document? with
  | none => .error (.wrongType "properties" "a document" v.type)
  | some data =>
      match Bson.elements? data with
      | none => .error (.malformed (some "properties"))
      | some elements =>
          elements.mapM fun e =>
            match e.value.document? with
            | none => .error (.wrongType ("properties." ++ e.name) "a document" e.value.type)
            | some inner => return (e.name, ← child inner)

/-- Reads a list of validators, each with `child`. -/
def readList (child : List UInt8 → Except Issue Validator) (keyword : String) (v : RawValue) :
    Except Issue (List Validator) := do
  let values ← readArray keyword "an array of documents" v
  values.mapM fun item =>
    match item.document? with
    | none => .error (.wrongType keyword "an array of documents" item.type)
    | some inner => child inner

/-- Reads one validator for all elements, or a list of them. -/
def readItems (child : List UInt8 → Except Issue Validator) (v : RawValue) :
    Except Issue ItemList :=
  match v.document? with
  | some inner => return ⟨[← child inner], false⟩
  | none => return ⟨← readList child "items" v, true⟩

/-- The keywords after one more element.  A keyword that comes again replaces
what it said before, and an unknown one changes nothing. -/
def readKeyword (child : List UInt8 → Except Issue Validator) (k : Keywords) (e : RawElement) :
    Except Issue Keywords :=
  match e.name with
  | "bsonType" => return { k with bsonType := some (← readTypeNames e.value) }
  | "properties" => return { k with properties := some (← readProperties child e.value) }
  | "required" => return { k with required := some (← readStrings "required" e.value) }
  | "additionalProperties" =>
      match e.value.bool? with
      | some b => .ok { k with additionalProperties := some b }
      | none => .error (.wrongType "additionalProperties" "a boolean" e.value.type)
  | "items" => return { k with items := some (← readItems child e.value) }
  | "maxItems" =>
      match e.value.int64? with
      | some n => .ok { k with maxItems := some n }
      | none => .error (.wrongType "maxItems" "an integer" e.value.type)
  | "anyOf" => return { k with anyOf := some (← readList child "anyOf" e.value) }
  | "oneOf" => return { k with oneOf := some (← readList child "oneOf" e.value) }
  | _ => .ok k

/-- Reads a validator that nests at most `room` levels deep. -/
def readWithin : (room : Nat) → List UInt8 → Except Issue Validator
  | 0, _ => .error .tooDeep
  | room + 1, data =>
      match Bson.elements? data with
      | none => .error (.malformed none)
      | some elements => return .of (← elements.foldlM (readKeyword (readWithin room)) .blank)

/-- Reads a validator that nests at most `limit` levels deep. -/
def ofBytesWithin (limit : Int) (data : List UInt8) : Outcome Validator :=
  match readWithin limit.toNat data with
  | .ok v => .ok v
  | .error issue => .error issue.failure

/-- Reads a validator with the standard bound on its nesting. -/
def ofBytes (data : List UInt8) : Outcome Validator :=
  ofBytesWithin maxDepth data

end Validator

end DocShape
