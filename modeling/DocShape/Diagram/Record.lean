import DocShape.Diagram.Basic
import DocShape.Text.Letter
import DocShape.Validator.ExtJson

/-!
# Diagrams as records

A diagram is kept as a record in which every schema is a validator.  Such a
record has a binary form and an extended JSON form; reading one passes over
unknown fields and takes nulls for what they leave out.
-/

namespace DocShape

open Bson (RawValue RawElement)

structure EntityRecord where
  database : String
  collection : String
  primaryKey : List String
  validator : Validator

structure DiagramRecord where
  name : String
  entities : NameMap EntityRecord

namespace EntityRecord

def blank : EntityRecord := ⟨"", "", [], .absent⟩

def toFields (e : EntityRecord) : Outcome (List (String × Plain)) := do
  return [("db", .text e.database), ("collection", .text e.collection),
    ("primaryKey", .list (e.primaryKey.map .text)),
    ("jsonSchema", .record (← e.validator.toFields))]

def toPlain (e : EntityRecord) : Outcome Plain := do
  return .record (← e.toFields)

def toEntity (limit : Int) (name : String) (e : EntityRecord) : Outcome Entity := do
  let s ← Outcome.inContext ("entity " ++ Text.quote name) (Schema.ofValidator e.validator limit)
  return ⟨e.database, e.collection, e.primaryKey, s⟩

end EntityRecord

def Entity.toRecord (name : String) (e : Entity) : Outcome EntityRecord := do
  let v ← Outcome.inContext ("entity " ++ Text.quote name)
    (e.schema.toValidator Settings.standard.maxDepth)
  return ⟨e.database, e.collection, e.primaryKey, v⟩

namespace DiagramRecord

def blank : DiagramRecord := ⟨"", .empty⟩

/-- The fields of a diagram, its entities in order. -/
def toFields (r : DiagramRecord) : Outcome (List (String × Plain)) := do
  let entities ← r.entities.entries.mapValuesM fun _ e => e.toPlain
  return [("schemaName", .text r.name), ("entities", .record entities)]

def toBytes (r : DiagramRecord) : Outcome (List UInt8) := do
  Plain.toBytes (← r.toFields)

def toDiagram (r : DiagramRecord) (limit : Int) : Outcome Diagram := do
  return ⟨r.name, ← r.entities.mapValuesM (EntityRecord.toEntity limit)⟩

end DiagramRecord

def Diagram.toRecord (d : Diagram) : Outcome DiagramRecord := do
  return ⟨d.name, ← d.entities.mapValuesM Entity.toRecord⟩

namespace DiagramRecord

def misfit (type : Bson.ElementType) (wanted : String) : Failure :=
  .plain ("cannot decode " ++ type.label ++ " into " ++ wanted)

/-- Reads a text; nothing is the empty text. -/
def readText (v : RawValue) : Outcome String :=
  match v.type with
  | .null | .undefined => .ok ""
  | .objectId => .ok (Text.hexOfBytes v.data)
  | .binary =>
      match v.data.drop 4 with
      | subtype :: bytes =>
          if subtype = 0 then .ok (Bytes.toText bytes)
          else if subtype = 2 then .ok (Bytes.toText (bytes.drop 4))
          else .error (misfit v.type "a string type")
      | [] => .error (misfit v.type "a string type")
  | .string | .symbol =>
      match v.data.drop 4 |>.reverse with
      | 0 :: text => .ok (Bytes.toText text.reverse)
      | _ => .error (.plain "invalid string")
  | type => .error (misfit type "a string type")

/-- Reads elements as a map or a record does; nothing has none. -/
def readElements (wanted : String) (v : RawValue) : Outcome (Option (List RawElement)) :=
  match v.type with
  | .null | .undefined => .ok none
  | .document =>
      match Bson.strictElements? v.data with
      | some elements => .ok (some elements)
      | none => .error (.plain Bson.malformed)
  | type => .error (misfit type wanted)

/-- Reads a list of texts; nothing is the empty list. -/
def readTexts (v : RawValue) : Outcome (List String) :=
  match v.type with
  | .null | .undefined => .ok []
  | .array =>
      match Bson.strictElements? v.data with
      | some elements => elements.mapM fun e => readText e.value
      | none => .error (.plain Bson.malformed)
  | type => .error (misfit type "a slice")

/-- The name of a field: one that is not known is tried in lower case. -/
def fieldName (known : List String) (name : String) : String :=
  if known.contains name then name else Text.small name

/-- A failure with the path to the field it was found in. -/
def atField {α : Type} (path : String) (outcome : Outcome α) : Outcome α :=
  Outcome.inContext ("error decoding key " ++ path) outcome

def readEntityField (path : String) (e : EntityRecord) (field : RawElement) :
    Outcome EntityRecord :=
  let name := fieldName ["db", "collection", "primaryKey", "jsonSchema"] field.name
  match name with
  | "db" => atField (path ++ ".db") do return { e with database := ← readText field.value }
  | "collection" =>
      atField (path ++ ".collection") do return { e with collection := ← readText field.value }
  | "primaryKey" =>
      atField (path ++ ".primaryKey") do return { e with primaryKey := ← readTexts field.value }
  | "jsonSchema" =>
      atField (path ++ ".jsonSchema") do
        match field.value.type with
        | .null | .undefined => return { e with validator := .absent }
        | _ => return { e with validator := ← Validator.ofBytes field.value.data }
  | _ => .ok e

def readEntity (r : DiagramRecord) (element : RawElement) : Outcome DiagramRecord := do
  let path := "entities." ++ element.name
  let fields ← atField path (readElements "a struct" element.value)
  let e ← (fields.getD []).foldlM (readEntityField path) .blank
  return { r with entities := r.entities.insert element.name e }

def readField (r : DiagramRecord) (field : RawElement) : Outcome DiagramRecord :=
  match fieldName ["schemaName", "entities"] field.name with
  | "schemaName" => atField "schemaName" do return { r with name := ← readText field.value }
  | "entities" => do
      match ← atField "entities" (readElements "a map" field.value) with
      | none => return { r with entities := .empty }
      | some elements => elements.foldlM readEntity r
  | _ => .ok r

def ofBytes (data : List UInt8) : Outcome DiagramRecord :=
  let read : Outcome DiagramRecord :=
    match Bson.strictElements? data with
    | some elements => elements.foldlM readField blank
    | none => .error (.plain Bson.malformed)
  match read with
  | .ok r => .ok r
  | .error f => .error (.caused .bsonDecode "decode erd" "" f)

def ofExtJson (text : String) : Outcome DiagramRecord :=
  match ExtJson.readBytes? text with
  | some data => ofBytes data
  | none => .error (.caused .bsonDecode "parse erd" "" ExtJson.unreadable)

end DiagramRecord

namespace Diagram

def toBytes (d : Diagram) : Outcome (List UInt8) := do
  (← d.toRecord).toBytes

/-- The extended JSON form of a diagram, which has to have a binary form too. -/
def toExtJson (d : Diagram) : Outcome String := do
  let r ← d.toRecord
  let _ ← r.toBytes
  Plain.toExtJson (← r.toFields)

def ofBytes (data : List UInt8) (limit : Int) : Outcome Diagram := do
  (← DiagramRecord.ofBytes data).toDiagram limit

def ofExtJson (text : String) (limit : Int) : Outcome Diagram := do
  (← DiagramRecord.ofExtJson text).toDiagram limit

end Diagram

end DocShape
