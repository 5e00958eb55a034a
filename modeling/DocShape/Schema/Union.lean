import DocShape.Schema.Satisfies

/-!
# Unions and simplification

`simplify` brings a schema to canonical form: disjunctions flat, sorted, of at
least two branches with at most one document, and declared fields free of
`missing`.  `join` unions two canonical schemas; its recursion goes through the
containers only, so it is bounded by the container nesting of its arguments.
`union` is `join` after simplification.
-/

namespace DocShape

namespace Schema

def isAny : Schema → Bool
  | .any => true
  | _ => false

/-- The disjunction of canonical branches, collapsed when it has fewer than two
of them or holds `any`. -/
def collapse (branches : List Schema) : Schema :=
  if branches.any isAny then .any
  else
    match sortBranches branches with
    | [] => .unsat
    | [b] => b
    | bs => .anyOf bs

end Schema

namespace Document

/-- The declared field of two documents together, where `join` unions schemas
that both declare.  A field that only one of them mentions can be anything when
the other is open; one that both require without a schema stays undeclared. -/
def unionKey (join : Schema → Schema → Schema) (d o : Document) (field : String) :
    Option Schema :=
  match d.declared? field, o.declared? field with
  | some s, some t => if d.hasKey field || o.hasKey field then some (join s t) else none
  | some s, none => some (if o.isOpen then .any else s)
  | none, some t => some (if d.isOpen then .any else t)
  | none, none => none

def unionKeys (join : Schema → Schema → Schema) (d o : Document) : FieldMap Schema :=
  FieldMap.collect (NameSet.union d.fieldNames o.fieldNames) (d.unionKey join o)

/-- The documents of either type, where `join` unions the schemas of one field.
A field stays required if both require it.  With statistics on either side the
similarity of the key sets is recorded, and an unstable shape becomes the
unconstrained document. -/
def unionWith (join : Schema → Schema → Schema) (d o : Document) : Document :=
  let jaccard := (Jaccard.combine d.jaccard o.jaccard).map fun j =>
    j.update (Jaccard.similarity d.keyNames o.keyNames)
  if jaccard.any Jaccard.isUnstable then { unconstrained with jaccard }
  else
    { keys := d.unionKeys join o
      required := NameSet.inter d.required o.required
      isOpen := d.isOpen || o.isOpen
      references := FieldMap.union d.references o.references
      jaccard }

/-- One envelope of both types, where `join` unions the schemas of one field.
A field is required if either requires it. -/
def mergeWith (join : Schema → Schema → Schema) (d o : Document) : Document :=
  { keys := d.unionKeys join o
    required := NameSet.union d.required o.required
    isOpen := d.isOpen || o.isOpen
    references := FieldMap.union d.references o.references
    jaccard := Jaccard.combine d.jaccard o.jaccard }

end Document

namespace Schema

def arrayItems (branches : List Schema) : List Schema :=
  branches.filterMap fun b => match b with
    | .array items => some items
    | _ => none

def documents (branches : List Schema) : List Document :=
  branches.filterMap fun b => match b with
    | .document d => some d
    | _ => none

def nonArrays (branches : List Schema) : List Schema :=
  branches.filter fun b => b.kind != .array

def nonDocuments (branches : List Schema) : List Schema :=
  branches.filter fun b => b.kind != .document

/-- One envelope of the listed documents, if there is one. -/
def mergeDocuments (join : Schema → Schema → Schema) : List Document → Option Document
  | [] => none
  | d :: rest => some (rest.foldl (Document.mergeWith join) d)

/-- Adds a canonical branch to canonical branches.  An array or a document
merges with the branch of its variant instead of standing beside it. -/
def insertBranch (join : Schema → Schema → Schema) (branches : List Schema) :
    Schema → List Schema
  | .array items =>
      nonArrays branches ++
        [match arrayItems branches with
          | [] => .array items
          | [other] => .array (join other items)
          | _ => anyArray]
  | .document d =>
      nonDocuments branches ++
        [.document (match mergeDocuments join (documents branches) with
          | none => d
          | some e => e.unionWith join d)]
  | s => branches ++ [s]

/-- The union of two canonical schemas whose containers nest less than `level`
deep. -/
def joinWithin : (level : Nat) → Schema → Schema → Schema
  | 0, _, _ => .any
  | level + 1, s, t =>
      let swap := s.compare t = .gt
      let left := if swap then t else s
      let right := if swap then s else t
      match left, right with
      | .unsat, right => right
      | _, .any => .any
      | .anyOf ls, right => collapse (ls.foldl (insertBranch (joinWithin level)) right.branches)
      | left, .anyOf rs => collapse (insertBranch (joinWithin level) rs left)
      | .array x, .array y => .array (joinWithin level x y)
      | .document d, .document e => .document (d.unionWith (joinWithin level) e)
      | left, right => if left.same right then left else ofBranches [left, right]

def join (s t : Schema) : Schema :=
  joinWithin (max s.nest t.nest + 1) s t

mutual

/-- A nested disjunction without the branches that `drop` selects. -/
def subtractNested (drop : Schema → Bool) : Schema → Schema
  | .anyOf bs => collapse (subtractBranches drop bs)
  | s => s
termination_by structural s => s

/-- The branches that `drop` leaves, nested disjunctions reduced first. -/
def subtractBranches (drop : Schema → Bool) : List Schema → List Schema
  | [] => []
  | b :: rest =>
      let kept := b.subtractNested drop
      if drop kept || kept.isVacuous then subtractBranches drop rest
      else kept :: subtractBranches drop rest
termination_by structural bs => bs

end

/-- Removes the branches that `drop` selects.  A schema that is no disjunction
and is selected becomes `unsat`. -/
def subtract (drop : Schema → Bool) : Schema → Schema
  | .anyOf bs => collapse (subtractBranches drop bs)
  | s => if drop s then .unsat else s

def isMissing : Schema → Bool
  | .missing => true
  | _ => false

/-- The schema without its absent values. -/
def present (s : Schema) : Schema :=
  s.subtract isMissing

/-- The schema without null and absent values. -/
def subtractNullish (s : Schema) : Schema :=
  s.subtract fun b => b.isMissing || b.isAtomic .null

/-- A declared field of a canonical document, given its simplified schema:
`none` when the field can only be absent. -/
def declaredPresent (s : Schema) : Option Schema :=
  if s.isAny then some s
  else
    match s.absence with
    | .must => none
    | .may => some s.present
    | .never => some s

/-- Whether a field with the simplified schema can stay required. -/
def keepsRequired (s : Schema) : Bool :=
  s.isAny || s.absence = .never

/-- The canonical disjunction of simplified leaves: its documents become one
envelope and `any` absorbs the rest. -/
def assemble (leaves : List Schema) : Schema :=
  if leaves.any isAny then .any
  else
    collapse
      ((nonDocuments leaves).filter (fun b => b.kind != .unsat)
        ++ ((mergeDocuments join (documents leaves)).map .document).toList)

end Schema

/-- Declares the simplified fields, dropping those that can only be absent and
making those that may be absent optional. -/
def Document.redeclare (d : Document) (simplified : List (String × Schema)) : Document :=
  { d with
    keys := simplified.filterMap fun (field, s) => s.declaredPresent.map (field, ·)
    required := d.required.filter fun field =>
      match FieldMap.find? simplified field with
      | some s => s.keepsRequired
      | none => true }

mutual

/-- The canonical form of a schema. -/
def Schema.simplify : Schema → Schema
  | .array items => .array items.simplify
  | .document d => .document d.simplify
  | .anyOf bs => Schema.assemble (simplifyLeaves bs)
  | s => s
termination_by structural s => s

def Document.simplify : Document → Document
  | ⟨keys, required, isOpen, references, jaccard⟩ =>
      Document.redeclare ⟨keys, required, isOpen, references, jaccard⟩ (simplifyKeys keys)
termination_by structural d => d

/-- The simplified leaves of the branches, nested disjunctions unrolled in
order. -/
def simplifyLeaves : List Schema → List Schema
  | [] => []
  | .anyOf inner :: rest => simplifyLeaves inner ++ simplifyLeaves rest
  | b :: rest => b.simplify :: simplifyLeaves rest
termination_by structural bs => bs

def simplifyKeys : List (String × Schema) → List (String × Schema)
  | [] => []
  | (field, s) :: rest => (field, s.simplify) :: simplifyKeys rest
termination_by structural keys => keys

end

namespace Schema

/-- The narrowest canonical schema found that matches every value of either. -/
def union (s t : Schema) : Schema :=
  s.simplify.join t.simplify

/-- The union of all listed schemas; `unsat` of none. -/
def unions (schemas : List Schema) : Schema :=
  schemas.foldl union .unsat

mutual

/-- Reads an absent value as null, at the top level. -/
def missingToNull : Schema → Schema
  | .missing => .atomic .null
  | .anyOf bs => (ofBranches (missingsToNull bs)).simplify
  | s => s
termination_by structural s => s

def missingsToNull : List Schema → List Schema
  | [] => []
  | b :: rest => b.missingToNull :: missingsToNull rest
termination_by structural bs => bs

end

end Schema

namespace Document

def union (d o : Document) : Document :=
  d.unionWith Schema.union o

/-- One envelope of both types. -/
def merge (d o : Document) : Document :=
  d.mergeWith Schema.union o

end Document

end DocShape
