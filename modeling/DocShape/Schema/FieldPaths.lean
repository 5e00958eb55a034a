import DocShape.Schema.Union
import DocShape.Schema.Compares
import DocShape.Failure

/-!
# Field paths

The paths of field names that a value of a schema can have, up to a length.
They are known only where no `any` and no open document is met.
-/

namespace DocShape

/-- Names of fields, outermost first. -/
abbrev FieldPath := List String

namespace FieldPath

def dotted (p : FieldPath) : String :=
  ".".intercalate p

/-- Paths by their first difference. -/
def compare (p q : FieldPath) : Ordering :=
  compareLists Ord.compare p q

/-- Places a path in a sorted list, unless it is there already. -/
def place (p : FieldPath) : List FieldPath → List FieldPath
  | [] => [p]
  | q :: rest =>
      match p.compare q with
      | .lt => p :: q :: rest
      | .eq => q :: rest
      | .gt => q :: place p rest

/-- The paths sorted and without repetition. -/
def sorted (paths : List FieldPath) : List FieldPath :=
  paths.foldr place []

end FieldPath

/-- Paths found, and whether disjunctions with a document differ only in
whether the document is there. -/
structure PathListing where
  paths : List FieldPath
  nullableOnly : Bool

namespace PathListing

def none : PathListing := ⟨[], true⟩

def leaf : PathListing := ⟨[[]], true⟩

def append (a b : PathListing) : PathListing :=
  ⟨a.paths ++ b.paths, a.nullableOnly && b.nullableOnly⟩

/-- The listing of a field, from that of its schema.  A field whose value has no
path of its own is a path unless it is always absent. -/
def under (field : String) (s : Schema) (sub : PathListing) : PathListing :=
  if sub.paths.isEmpty && s.absence != .must then ⟨[[field]], sub.nullableOnly⟩
  else ⟨sub.paths.map (field :: ·), sub.nullableOnly⟩

end PathListing

/-- The length bound below one field; a negative bound is no bound. -/
def boundBelow (bound : Int) : Int :=
  if bound > 0 then bound - 1 else bound

/-- The paths of a document's fields, where `descend` lists those of a field's
schema. -/
def keyPaths (descend : Schema → Outcome PathListing) :
    List (String × Schema) → Outcome PathListing
  | [] => .ok .none
  | (field, s) :: rest => do
      let sub ← descend s
      let others ← keyPaths descend rest
      return (sub.under field s).append others

def Document.paths (descend : Schema → Outcome PathListing) (d : Document) :
    Outcome PathListing :=
  if d.isOpen then .failWith (.unlistable (.document d))
  else keyPaths descend d.keys

def unionDocuments : List Document → Option Document
  | [] => none
  | d :: rest => some (rest.foldl Document.union d)

/-- Whether a branch beside a document makes no difference but the document's
being there. -/
def Schema.isDocumentOrNullish (s : Schema) : Bool :=
  match s with
  | .document _ | .missing | .atomic .null => true
  | _ => false

mutual

/-- The paths of a schema, where `descend` lists those of a field's schema. -/
def Schema.pathsBy (descend : Schema → Outcome PathListing) : Schema → Outcome PathListing
  | .any => .failWith (.unlistable .any)
  | .unsat | .missing => .ok .none
  | .atomic _ | .array _ => .ok .leaf
  | .document d => d.paths descend
  | .anyOf bs => do
      let others ← branchPaths descend bs
      match unionDocuments (Schema.documents bs) with
      | none => return others
      | some d =>
          let listing ← d.paths descend
          let listing := others.append listing
          return { listing with
            nullableOnly := listing.nullableOnly && bs.all Schema.isDocumentOrNullish }
termination_by structural s => s

/-- The paths of the branches that are not documents. -/
def branchPaths (descend : Schema → Outcome PathListing) : List Schema → Outcome PathListing
  | [] => .ok .none
  | .document _ :: rest => branchPaths descend rest
  | b :: rest => do
      let listing ← b.pathsBy descend
      let others ← branchPaths descend rest
      return listing.append others
termination_by structural bs => bs

end

/-- The paths of a schema whose containers nest less than `level` deep. -/
def Schema.pathsWithin : (level : Nat) → (bound : Int) → Schema → Outcome PathListing
  | 0, _, _ => .ok .none
  | level + 1, bound, s =>
      if bound = 0 then .ok .leaf
      else s.pathsBy (pathsWithin level (boundBelow bound))

/-- The sorted paths of at most `bound` names that a value of the schema can
have; a negative bound is no bound. -/
def Schema.fieldPaths (s : Schema) (bound : Int) : Outcome PathListing := do
  let listing ← s.pathsWithin (s.nest + 1) bound
  return { listing with paths := FieldPath.sorted listing.paths }

/-- The top-level fields a value of the schema can have. -/
def Schema.topLevelFields (s : Schema) : Outcome (List String) := do
  let listing ← s.fieldPaths 1
  return listing.paths.filterMap fun p => match p with
    | [field] => some field
    | _ => none

/-- The conflicts of two named sources in one flat result. -/
def conflictsBetween (first : String) (a : Schema) (second : String) (b : Schema) : List Fault :=
  let overlap := a.sharesField b
  if overlap = .never then []
  else
    match a.topLevelFields, b.topLevelFields with
    | .ok mine, .ok theirs =>
        (mine.filter theirs.contains).map fun field =>
          .fieldConflict field first second overlap
    | _, _ => [.unlistedConflict first second]

/-- The conflicts of listed sources, each with those after it. -/
def conflictsAmong : List (String × Schema) → List Fault
  | [] => []
  | (first, a) :: rest =>
      rest.flatMap (fun (second, b) => conflictsBetween first a second b) ++ conflictsAmong rest

/-- The conflicts of all pairs of named sources, in the order of their names. -/
def fieldConflicts (sources : NameMap Schema) : List Fault :=
  conflictsAmong sources.entries

/-- The union of the schemas the field has across the document branches; a
branch that does not declare it, or a schema without documents, allows
anything. -/
def Schema.fieldUnion (s : Schema) (field : String) : Schema :=
  match Schema.documents s.branches with
  | [] => .any
  | ds =>
      if ds.all (·.hasKey field) then
        Schema.unions (ds.filterMap (·.key? field))
      else .any

/-- How surely a value of the schema has the path. -/
def Schema.pathPresence (s : Schema) : FieldPath → Verdict
  | [] => .must
  | field :: rest =>
      match s.containsField field with
      | .never => .never
      | v => v.weaker ((s.fieldUnion field).pathPresence rest)

end DocShape
