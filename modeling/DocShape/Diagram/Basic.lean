import DocShape.Schema.FieldPaths

/-!
# Entity diagrams

A diagram names entities.  An entity says where a collection lives, how it is
keyed and what its documents look like.
-/

namespace DocShape

structure Entity where
  database : String
  collection : String
  primaryKey : List String
  schema : Schema

structure Diagram where
  name : String
  entities : NameMap Entity

def Entity.space (e : Entity) : String :=
  e.database ++ "." ++ e.collection

def Schema.isBottom (s : Schema) : Bool :=
  s.simplify.kind = .unsat

/-- The documents among the branches of a schema, or the schema itself if it is
one. -/
def Schema.documentBranches : Schema → List Document
  | .document d => [d]
  | s => s.branches.filterMap fun
    | .document d => some d
    | _ => none

def Entity.faults (name : String) (e : Entity) : List Fault :=
  (if e.database = "" then [Fault.emptyDatabase name] else [])
    ++ (if e.collection = "" then [.emptyCollection name] else [])
    ++ if e.schema.isBottom then [.bottomField name]
      else
        (e.schema.documentBranches.flatMap fun d =>
          d.keys.filterMap fun (field, s) =>
            if s.isBottom then some (.bottomField (name ++ "." ++ field)) else none)
        ++ e.primaryKey.filterMap fun field =>
          if e.schema.containsField field = .never then
            some (.bottomField (name ++ "." ++ field))
          else none

namespace Diagram

def entityNames (d : Diagram) : NameSet :=
  d.entities.names

def faults (d : Diagram) : List Fault :=
  (if d.name = "" then [Fault.unnamedDiagram] else [])
    ++ d.entities.entries.flatMap fun (name, e) => e.faults name

/-- An entity of two diagrams as one; the first says how it is keyed, unless it
does not. -/
def mergeEntity (mine theirs : Entity) : Entity :=
  { mine with
    primaryKey := if mine.primaryKey.isEmpty then theirs.primaryKey else mine.primaryKey
    schema := mine.schema.union theirs.schema }

/-- The entities that two diagrams place differently. -/
def clashes (a b : Diagram) : List Fault :=
  b.entities.entries.filterMap fun (name, theirs) =>
    match a.entities.find? name with
    | some mine =>
        if mine.space = theirs.space then none
        else some (.namespaceClash name mine.space theirs.space)
    | none => none

/-- The entities of two diagrams that agree on their places. -/
def mergeEntities (a b : Diagram) : NameMap Entity :=
  b.entities.entries.foldl (fun acc (name, theirs) =>
    match acc.find? name with
    | some mine => acc.insert name (mergeEntity mine theirs)
    | none => acc.insert name theirs) a.entities

def merge (a b : Diagram) : Outcome Diagram :=
  match Failure.combine? ((clashes a b).map .fault) with
  | some f => .error f
  | none => .ok ⟨if a.name = "" then b.name else a.name, mergeEntities a b⟩

end Diagram

end DocShape
