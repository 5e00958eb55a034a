import DocShape.Schema.Union
import DocShape.Failure
import DocShape.Yaml.Node

/-!
# OpenAPI schemas

A schema in the form that OpenAPI documents hold.  Several atomic kinds share a
type there, so each carries its alias as an extension; a closed document forbids
further properties, and what admits nothing is the negation of everything.
-/

namespace DocShape

/-- A schema of an OpenAPI document; `none` is a keyword that is not there. -/
structure OpenApi where
  type : Option String
  anyOf : Option (List OpenApi)
  not : Option OpenApi
  properties : Option (List (String × OpenApi))
  required : Option (List String)
  additionalProperties : Option OpenApi
  items : Option OpenApi
  maxItems : Option Nat
  format : Option String
  extensions : List (String × String)

namespace OpenApi

def typeExtension : String := "x-bsonType"

def referenceExtension : String := "x-bsonschema-reference"

def blank : OpenApi :=
  { type := none
    anyOf := none
    not := none
    properties := none
    required := none
    additionalProperties := none
    items := none
    maxItems := none
    format := none
    extensions := [] }

def never : OpenApi :=
  { blank with not := some blank }

def atomicForm : Atomic → String × Option String
  | .minKey => ("object", none)
  | .null => ("null", none)
  | .int => ("integer", some "int32")
  | .long => ("integer", some "int64")
  | .double => ("number", some "double")
  | .decimal => ("number", some "decimal128")
  | .symbol => ("string", none)
  | .string => ("string", none)
  | .binData => ("string", some "binary")
  | .undefined => ("null", none)
  | .objectId => ("string", some "objectid")
  | .bool => ("boolean", none)
  | .date => ("string", some "date-time")
  | .timestamp => ("object", none)
  | .regex => ("string", some "regex")
  | .dbPointer => ("object", none)
  | .javascript => ("string", some "javascript")
  | .javascriptWithScope => ("object", none)
  | .maxKey => ("object", none)
  | .unassigned _ => ("", none)

def ofAtomic (a : Atomic) : OpenApi :=
  let (type, format) := atomicForm a
  { blank with
    type := some type
    format := format
    extensions := [(typeExtension, a.name)] }

def referenceText (r : Reference) : String :=
  r.entity ++ "." ++ r.field ++ " (" ++ r.cardinality ++ ")"

/-- The schema of a field with what the field refers to. -/
def withReference (s : OpenApi) : Option Reference → OpenApi
  | some r => { s with extensions := s.extensions ++ [(referenceExtension, referenceText r)] }
  | none => s

def arrayOf (items : OpenApi) : OpenApi :=
  { blank with type := some "array", items := some items }

def documentOf (properties : List (String × OpenApi)) (required : List String) (isOpen : Bool) :
    OpenApi :=
  { blank with
    type := some "object"
    properties := some properties
    required := if required.isEmpty then none else some required
    additionalProperties := if isOpen then none else some never }

mutual

/-- The OpenAPI form of a schema in which every document is simplified. -/
def ofSimplified : Schema → Outcome OpenApi
  | .any => .ok blank
  | .unsat => .ok never
  | .missing => .failWith (.missingHasNo "OpenAPI")
  | .atomic a => .ok (ofAtomic a)
  | .array .any => .ok { blank with type := some "array" }
  | .array .unsat => .ok { blank with type := some "array", maxItems := some 0 }
  | .array items => return arrayOf (← ofSimplified items)
  | .document d => ofSimplifiedDocument d
  | .anyOf bs => return { blank with anyOf := some (← ofSimplifiedList bs) }
termination_by structural s => s

def ofSimplifiedDocument : Document → Outcome OpenApi
  | ⟨keys, required, isOpen, references, _⟩ => do
      return documentOf (← ofSimplifiedKeys references keys) required isOpen
termination_by structural d => d

def ofSimplifiedList : List Schema → Outcome (List OpenApi)
  | [] => .ok []
  | s :: rest => do
      let o ← ofSimplified s
      return o :: (← ofSimplifiedList rest)
termination_by structural bs => bs

def ofSimplifiedKeys (references : List (String × Reference)) :
    List (String × Schema) → Outcome (List (String × OpenApi))
  | [] => .ok []
  | (field, s) :: rest => do
      let o ← Outcome.inContext ("property " ++ Text.quote field) (ofSimplified s)
      let o := o.withReference (List.lookup field references)
      return (field, o) :: (← ofSimplifiedKeys references rest)
termination_by structural keys => keys

end

mutual

/-- The OpenAPI form of any schema; a document is simplified first, so that only
`required` says which fields are optional. -/
def convert : Schema → Outcome OpenApi
  | .any => .ok blank
  | .unsat => .ok never
  | .missing => .failWith (.missingHasNo "OpenAPI")
  | .atomic a => .ok (ofAtomic a)
  | .array .any => .ok { blank with type := some "array" }
  | .array .unsat => .ok { blank with type := some "array", maxItems := some 0 }
  | .array items => return arrayOf (← convert items)
  | .document d => ofSimplifiedDocument d.simplify
  | .anyOf bs => return { blank with anyOf := some (← convertList bs) }
termination_by structural s => s

def convertList : List Schema → Outcome (List OpenApi)
  | [] => .ok []
  | s :: rest => do
      let o ← convert s
      return o :: (← convertList rest)
termination_by structural bs => bs

end

def ofSchema (s : Schema) : Outcome OpenApi :=
  let limit := Settings.standard.maxDepth
  if (s.depth : Int) > limit then .failWith (.tooDeep limit) else convert s

end OpenApi

end DocShape
