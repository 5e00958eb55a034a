import DocShape.Bson.Raw
import DocShape.Schema.Union
import DocShape.Validator.Convert
import DocShape.Failure

/-!
# The schema of a document

A document has the closed schema that requires exactly its fields; an array has
the union of its elements' schemas as items.
-/

namespace DocShape

open Bson (RawValue RawElement)

def unreadable (what : String) : Failure :=
  .caused .bsonDecode ("read " ++ what) "" (.plain Bson.malformed)

/-- The declared fields after one more element; a field that comes again has the
union of its schemas. -/
def addElement (child : RawValue → Outcome Schema) (keys : FieldMap Schema) (e : RawElement) :
    Outcome (FieldMap Schema) := do
  let s ← Outcome.inContext ("field " ++ Text.quote e.name) (child e.value)
  return FieldMap.insert e.name
    (match FieldMap.find? keys e.name with
      | some before => before.union s
      | none => s)
    keys

/-- The schema of a document's bytes, where `child` gives that of a value. -/
def Document.ofRaw (child : RawValue → Outcome Schema) (data : List UInt8) : Outcome Document :=
  match Bson.elements? data with
  | none => .error (unreadable "document")
  | some elements => do
      let keys ← elements.foldlM (addElement child) ([] : FieldMap Schema)
      return .ofFields keys (FieldMap.names keys) false

/-- The union of the schemas of an array's elements, where `child` gives that of
a value. -/
def Schema.ofRawItems (child : RawValue → Outcome Schema) (data : List UInt8) : Outcome Schema :=
  match Bson.elements? data with
  | none => .error (unreadable "array")
  | some elements =>
      elements.foldlM (fun items e => return items.union (← child e.value)) .unsat

/-- The schema of a value that nests at most `room` levels deep; `limit` is the
bound to report. -/
def Schema.ofRawWithin (limit : Int) : (room : Nat) → RawValue → Outcome Schema
  | 0, _ => .failWith (.tooDeep limit)
  | room + 1, v =>
      match v.type.atomic? with
      | some a => .ok (.atomic a)
      | none =>
          if v.type = .document then return .document (← Document.ofRaw (ofRawWithin limit room) v.data)
          else return .array (← Schema.ofRawItems (ofRawWithin limit room) v.data)

/-- The document type of a document's bytes, at most `limit` levels deep. -/
def Document.infer (limit : Int) (data : List UInt8) : Outcome Document :=
  match limit.toNat with
  | 0 => .failWith (.tooDeep limit)
  | room + 1 => Document.ofRaw (Schema.ofRawWithin limit room) data

def Schema.infer (data : List UInt8) : Outcome Schema :=
  return .document (← Document.infer Settings.standard.maxDepth data)

/-- The schema of a value's bytes with the given type byte. -/
def Schema.inferValue (code : UInt8) (data : List UInt8) : Outcome Schema :=
  match Bson.ElementType.ofCode? code with
  | some type =>
      Schema.ofRawWithin Settings.standard.maxDepth Settings.standard.maxDepth.toNat ⟨type, data⟩
  | none => .failWith (.unsupportedType code.toNat)

end DocShape
