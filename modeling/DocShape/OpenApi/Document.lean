import DocShape.Diagram.Basic
import DocShape.OpenApi.Schema
import DocShape.Text.Letter
import DocShape.Yaml.Read
import DocShape.Yaml.Write

/-!
# OpenAPI documents

Documents in which schemas name entities of a diagram.  Every such schema is
replaced by the schema of its entity; its extensions stay.
-/

namespace DocShape

open Yaml (Node)

namespace OpenApi

def entityExtension : String := "x-bsonschema-entity"

def somewhere : String := "<location>"

mutual

/-- The tree of a schema, its keywords in a fixed order. -/
def toFields : OpenApi → List (String × Node)
  | ⟨type, anyOf, not, properties, required, additionalProperties, items, maxItems, format,
      extensions⟩ =>
      (type.map fun t => ("type", .ofText t)).toList
        ++ listField anyOf
        ++ field "not" not
        ++ propertiesField properties
        ++ (required.map fun names => ("required", .ofItems (names.map .ofText))).toList
        ++ field "additionalProperties" additionalProperties
        ++ field "items" items
        ++ (maxItems.map fun n => ("maxItems", .tagged "!!int" (toString n))).toList
        ++ (format.map fun f => ("format", .ofText f)).toList
        ++ extensions.map fun (name, text) => (name, .ofText text)
termination_by structural o => o

def field (keyword : String) : Option OpenApi → List (String × Node)
  | none => []
  | some o => [(keyword, .ofFields o.toFields)]
termination_by structural o => o

def listField : Option (List OpenApi) → List (String × Node)
  | none => []
  | some list => [("anyOf", .ofItems (listNodes list))]
termination_by structural l => l

def propertiesField : Option (List (String × OpenApi)) → List (String × Node)
  | none => []
  | some properties => [("properties", .ofEntries (propertyNodes properties))]
termination_by structural p => p

def listNodes : List OpenApi → List Node
  | [] => []
  | o :: rest => .ofFields o.toFields :: listNodes rest
termination_by structural l => l

def propertyNodes : List (String × OpenApi) → List (Node × Node)
  | [] => []
  | (name, o) :: rest => (.ofText name, .ofFields o.toFields) :: propertyNodes rest
termination_by structural ps => ps

end

def entityName (n : Node) : Outcome String :=
  match n with
  | .mapping _ entries =>
      match entries.find? fun e => e.1.text = "entity" with
      | none => .error (.plain (entityExtension ++ " requires 'entity' key"))
      | some (_, .scalar _ text) =>
          let name := Text.trim text
          if name = "" then
            .error (.plain (entityExtension ++ ": 'entity' requires an entity name"))
          else .ok name
      | some _ => .error (.plain (entityExtension ++ ": 'entity' value must be a string"))
  | _ => .error (.plain (entityExtension ++ " must be an object"))

def isExtension (key : Node) : Bool :=
  ['x', '-'].isPrefixOf key.text.toList

/-- The entries of a replaced schema.  Extensions stay as they are, keys that
come again keep their place, others go, and new keys follow. -/
def replaceEntries (entries : List (Node × Node)) (fields : List (String × Node)) :
    List (Node × Node) :=
  let kept := entries.filterMap fun (key, value) =>
    if isExtension key then some (key, value)
    else (List.lookup key.text fields).map fun n => (key, n)
  let names := kept.map fun e => e.1.text
  kept ++ (fields.filter fun f => !names.contains f.1).map fun (name, n) => (Node.ofText name, n)

def replaced (d : Diagram) (info : Yaml.Info) (entries : List (Node × Node)) (extension : Node) :
    Outcome Node := do
  let name ← entityName extension
  match d.entities.find? name with
  | none => .error (.plain ("unknown entity " ++ Text.quote name))
  | some e =>
      let o ← Outcome.inContext ("entity " ++ Text.quote name) (ofSchema e.schema)
      return .mapping info (replaceEntries entries o.toFields)

inductive Part where
  | document
  | components
  | pathItem
  | operation
  | parameter
  | body
  | response
  | mediaType
  | callback
  | schema
  deriving DecidableEq

/-- What the value of a field holds: one part, a list of them, or named ones. -/
inductive Slot where
  | one (part : Part)
  | each (part : Part)
  | named (part : Part)

def schemaFields : List String :=
  ["not", "items", "additionalProperties", "contains", "if", "then", "else", "propertyNames",
    "unevaluatedItems", "unevaluatedProperties", "contentSchema"]

def schemaLists : List String := ["allOf", "oneOf", "anyOf", "prefixItems"]

def schemaMaps : List String :=
  ["properties", "patternProperties", "dependentSchemas", "$defs", "definitions"]

def methods : List String :=
  ["get", "put", "post", "delete", "options", "head", "patch", "trace"]

def slot? (part : Part) (name : String) : Option Slot :=
  match part with
  | .document =>
      if name = "paths" || name = "webhooks" then some (.named .pathItem)
      else if name = "components" then some (.one .components)
      else none
  | .components =>
      if name = "schemas" then some (.named .schema)
      else if name = "responses" then some (.named .response)
      else if name = "parameters" || name = "headers" then some (.named .parameter)
      else if name = "requestBodies" then some (.named .body)
      else if name = "pathItems" then some (.named .pathItem)
      else if name = "callbacks" then some (.named .callback)
      else none
  | .pathItem =>
      if methods.contains name then some (.one .operation)
      else if name = "parameters" then some (.each .parameter)
      else none
  | .operation =>
      if name = "parameters" then some (.each .parameter)
      else if name = "requestBody" then some (.one .body)
      else if name = "responses" then some (.named .response)
      else if name = "callbacks" then some (.named .callback)
      else none
  | .parameter =>
      if name = "schema" then some (.one .schema)
      else if name = "content" then some (.named .mediaType)
      else none
  | .body => if name = "content" then some (.named .mediaType) else none
  | .response =>
      if name = "content" then some (.named .mediaType)
      else if name = "headers" then some (.named .parameter)
      else none
  | .mediaType => if name = "schema" then some (.one .schema) else none
  | .callback => some (.one .pathItem)
  | .schema =>
      if schemaFields.contains name then some (.one .schema)
      else if schemaLists.contains name then some (.each .schema)
      else if schemaMaps.contains name then some (.named .schema)
      else none

/-- A part after the replacement of its schemas, and what failed, in the order of
the document. -/
structure Applied (α : Type) where
  result : α
  failures : List Failure

mutual

def applyNode (d : Diagram) : Node → Slot → Applied Node
  | .mapping info entries, .one part =>
      let inner := applyEntries d entries (slot? part)
      match part, entries.find? fun e => e.1.text = entityExtension with
      | .schema, some (_, extension) =>
          match replaced d info entries extension with
          | .ok n => ⟨n, inner.failures⟩
          | .error f => ⟨.mapping info inner.result, .within somewhere f :: inner.failures⟩
      | _, _ => ⟨.mapping info inner.result, inner.failures⟩
  | .mapping info entries, .named part =>
      let inner := applyEntries d entries fun _ => some (.one part)
      ⟨.mapping info inner.result, inner.failures⟩
  | .sequence info items, .each part =>
      let inner := applyItems d items (.one part)
      ⟨.sequence info inner.result, inner.failures⟩
  | n, _ => ⟨n, []⟩
termination_by structural n => n

def applyEntries (d : Diagram) : List (Node × Node) → (String → Option Slot) →
    Applied (List (Node × Node))
  | [], _ => ⟨[], []⟩
  | (key, value) :: rest, slots =>
      let others := applyEntries d rest slots
      match slots key.text with
      | some slot =>
          let a := applyNode d value slot
          ⟨(key, a.result) :: others.result, a.failures ++ others.failures⟩
      | none => ⟨(key, value) :: others.result, others.failures⟩
termination_by structural entries => entries

def applyItems (d : Diagram) : List Node → Slot → Applied (List Node)
  | [], _ => ⟨[], []⟩
  | n :: rest, slot =>
      let a := applyNode d n slot
      let others := applyItems d rest slot
      ⟨a.result :: others.result, a.failures ++ others.failures⟩
termination_by structural items => items

end

def hasText (entries : List (Node × Node)) (name : String) : Bool :=
  match entries.find? fun e => e.1.text = name with
  | some (_, .scalar _ text) => text ≠ ""
  | _ => false

/-- Whether a document says which version of the format it has, its title and its
own version. -/
def isValid (entries : List (Node × Node)) : Bool :=
  hasText entries "openapi"
    && match entries.find? fun e => e.1.text = "info" with
      | some (_, .mapping _ info) => hasText info "title" && hasText info "version"
      | _ => false

/-- A document with the schemas of a diagram's entities.  What failed is listed
from the end of the document. -/
def applyDocument (d : Diagram) (n : Node) : Outcome Node :=
  match n with
  | .mapping _ entries =>
      if isValid entries then
        let a := applyNode d n (.one .document)
        match Failure.combine? a.failures.reverse with
        | some f => .error f
        | none => .ok a.result
      else .error (.plain "OpenAPI validation failed: openapi and info are required")
  | _ => .error (.plain "failed to parse OpenAPI document: expected a mapping")

/-- A document read from a text, with the schemas of a diagram's entities. -/
def applyText (d : Diagram) (data : List UInt8) : Outcome Node :=
  match Yaml.read data with
  | .ok (some root) => applyDocument d root
  | .ok none => .error (.plain "failed to parse OpenAPI document: no document")
  | .error e => .error (.plain ("failed to parse OpenAPI document: " ++ e.text))

def entityNode (name : String) (e : Entity) : Node :=
  .ofFields [("entity", .ofText name), ("namespace", .ofText e.space),
    ("primaryKey", .sequence ⟨"!!seq", 0, .flow⟩ (e.primaryKey.map .ofText))]

def untitled : String := "bsonschema"

/-- A document with one schema for each entity, which only names it. -/
def skeleton (d : Diagram) : Node :=
  .ofFields [("openapi", .ofText "3.1.0"),
    ("info", .ofFields [("title", .ofText (if d.name = "" then untitled else d.name)),
      ("version", .ofText "1.0.0")]),
    ("components", .ofFields [("schemas", .ofFields (d.entities.entries.map fun (name, e) =>
      (name, .ofFields [(entityExtension, entityNode name e)])))])]

def ofDiagram (d : Diagram) : Outcome String := do
  return Yaml.write (← applyDocument d (skeleton d))

end OpenApi

end DocShape
