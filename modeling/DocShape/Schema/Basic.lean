import DocShape.Atomic
import DocShape.Verdict
import DocShape.Jaccard

/-!
# Schemas

A schema is a structural type over document values: a disjunction of atomic
kinds, arrays and documents.  `missing` stands for an absent field, `unsat`
matches nothing and `any` matches everything, an absent field included.
-/

namespace DocShape

/-- Where a field points: a field of another entity. -/
structure Reference where
  entity : String
  field : String
  cardinality : String
  deriving DecidableEq

mutual

inductive Schema where
  /-- Matches no value. -/
  | unsat
  /-- Matches an absent field. -/
  | missing
  /-- Matches the values of one atomic kind. -/
  | atomic (kind : Atomic)
  /-- Matches arrays whose elements all match `items`. -/
  | array (items : Schema)
  /-- Matches the documents of a record type. -/
  | document (type : Document)
  /-- Matches what some branch matches. -/
  | anyOf (branches : List Schema)
  /-- Matches every value, and an absent field. -/
  | any

/-- A record type.  `required` may name fields without an entry in `keys`: they
are present with an unknown type.  Unless the type is open, fields outside
`keys` and `required` are absent. -/
structure Document where
  keys : List (String × Schema)
  required : NameSet
  isOpen : Bool
  references : FieldMap Reference
  jaccard : Option Jaccard

end

/-- The variants of schema, in their structural order. -/
inductive Kind where
  | unsat
  | missing
  | atomic
  | array
  | document
  | anyOf
  | any
  deriving DecidableEq

namespace Kind

def rank : Kind → Nat
  | unsat => 0
  | missing => 1
  | atomic => 2
  | array => 3
  | document => 4
  | anyOf => 5
  | any => 6

def all : List Kind :=
  [.unsat, .missing, .atomic, .array, .document, .anyOf, .any]

def name : Kind → String
  | unsat => "Unsat"
  | missing => "Missing"
  | atomic => "Atomic"
  | array => "Array"
  | document => "Document"
  | anyOf => "AnyOf"
  | any => "Any"

/-- The name shown for a position, which may lie outside the order. -/
def nameOfRank (rank : Nat) : String :=
  match all[rank]? with
  | some k => k.name
  | none => "Unknown"

end Kind

namespace Document

/-- The document type with the given fields and nothing else said. -/
def ofFields (keys : FieldMap Schema) (required : NameSet) (isOpen : Bool) : Document :=
  { keys, required, isOpen, references := [], jaccard := none }

/-- The unconstrained document: nothing declared, nothing required, open. -/
def unconstrained : Document :=
  ofFields [] [] true

/-- The closed document without fields. -/
def empty : Document :=
  ofFields [] [] false

def key? (d : Document) (field : String) : Option Schema :=
  FieldMap.find? d.keys field

/-- Whether the type declares a schema for the field. -/
def hasKey (d : Document) (field : String) : Bool :=
  (d.key? field).isSome

def keyNames (d : Document) : NameSet :=
  FieldMap.names d.keys

def requires (d : Document) (field : String) : Bool :=
  d.required.contains field

def mentions (d : Document) (field : String) : Bool :=
  d.hasKey field || d.requires field

/-- Every field the type mentions, in order. -/
def fieldNames (d : Document) : NameSet :=
  NameSet.union d.keyNames d.required

/-- The schema a mentioned field is declared with; a required field without
one can be anything. -/
def declared? (d : Document) (field : String) : Option Schema :=
  match d.key? field with
  | some s => some s
  | none => if d.requires field then some .any else none

/-- Whether the type puts no constraint on a document. -/
def isUnconstrained (d : Document) : Bool :=
  d.isOpen && d.keys.isEmpty && d.required.isEmpty

end Document

namespace Schema

instance : Inhabited Schema := ⟨.unsat⟩

def kind : Schema → Kind
  | unsat => .unsat
  | missing => .missing
  | atomic _ => .atomic
  | array _ => .array
  | document _ => .document
  | anyOf _ => .anyOf
  | any => .any

/-- The branches of a disjunction; any other schema is its own only branch. -/
def branches : Schema → List Schema
  | anyOf bs => bs
  | s => [s]

def isAtomic (a : Atomic) : Schema → Bool
  | atomic b => a = b
  | _ => false

def anyArray : Schema := .array .any

def anyDocument : Schema := .document .unconstrained

mutual

/-- Whether the schema is `unsat` or a disjunction without a satisfiable branch. -/
def isVacuous : Schema → Bool
  | .unsat => true
  | .anyOf bs => areVacuous bs
  | _ => false
termination_by structural s => s

def areVacuous : List Schema → Bool
  | [] => true
  | b :: rest => b.isVacuous && areVacuous rest
termination_by structural bs => bs

end

mutual

/-- How surely a value of the schema is absent. -/
def absence : Schema → Verdict
  | .unsat | .missing => .must
  | .any => .may
  | .anyOf bs => if areVacuous bs then .must else .meetAll (absences bs)
  | _ => .never
termination_by structural s => s

def absences : List Schema → List Verdict
  | [] => []
  | b :: rest => b.absence :: absences rest
termination_by structural bs => bs

end

/-- The field names a value may carry, as far as its documents mention them. -/
def fieldNames (s : Schema) : NameSet :=
  s.branches.foldl
    (fun acc b => match b with
      | .document d => NameSet.union acc d.fieldNames
      | _ => acc)
    []

end Schema

end DocShape
