import DocShape.Schema.Basic

/-!
# The structural order

A total order on schemas: variants by rank, then by content.  It ignores the
Jaccard statistics and exists to place branches in disjunctions, which keep
their branches sorted and distinct.
-/

namespace DocShape

/-- Lists by their first difference; a list precedes its extensions. -/
def compareLists {α : Type} (cmp : α → α → Ordering) : List α → List α → Ordering
  | [], [] => .eq
  | [], _ :: _ => .lt
  | _ :: _, [] => .gt
  | a :: as, b :: bs => (cmp a b).then (compareLists cmp as bs)

/-- References by entity, then field, then cardinality. -/
def Reference.compare (a b : Reference) : Ordering :=
  (Ord.compare a.entity b.entity).then
    ((Ord.compare a.field b.field).then (Ord.compare a.cardinality b.cardinality))

/-- Named references by name, then by what they point at. -/
def Reference.compareNamed (a b : String × Reference) : Ordering :=
  (Ord.compare a.1 b.1).then (a.2.compare b.2)

mutual

/-- Schemas by variant, then by content. -/
def Schema.compare : Schema → Schema → Ordering
  | .atomic a, .atomic b => a.compare b
  | .array a, .array b => a.compare b
  | .document d, .document e => d.compare e
  | .anyOf as, .anyOf bs => compareBranches as bs
  | a, b => Ord.compare a.kind.rank b.kind.rank
termination_by structural s => s

/-- Documents by keys, then required fields, then closed before open, then
references. -/
def Document.compare : Document → Document → Ordering
  | ⟨keys₁, required₁, isOpen₁, references₁, _⟩, ⟨keys₂, required₂, isOpen₂, references₂, _⟩ =>
      (compareKeys keys₁ keys₂).then
        ((compareLists Ord.compare required₁ required₂).then
          ((Ord.compare isOpen₁ isOpen₂).then
            (compareLists Reference.compareNamed references₁ references₂)))
termination_by structural d => d

def compareBranches : List Schema → List Schema → Ordering
  | [], [] => .eq
  | [], _ :: _ => .lt
  | _ :: _, [] => .gt
  | a :: as, b :: bs => (a.compare b).then (compareBranches as bs)
termination_by structural as => as

/-- Declared fields by their first difference, names before schemas. -/
def compareKeys : List (String × Schema) → List (String × Schema) → Ordering
  | [], [] => .eq
  | [], _ :: _ => .lt
  | _ :: _, [] => .gt
  | (f, a) :: as, (g, b) :: bs =>
      (Ord.compare f g).then ((a.compare b).then (compareKeys as bs))
termination_by structural as => as

end

mutual

/-- Equality that also compares the Jaccard statistics of every document. -/
def Schema.sameWithJaccard : Schema → Schema → Bool
  | .array a, .array b => a.sameWithJaccard b
  | .document d, .document e => d.sameWithJaccard e
  | .anyOf as, .anyOf bs => sameBranches as bs
  | .atomic a, .atomic b => a = b
  | a, b => a.kind = b.kind
termination_by structural s => s

/-- Equality of documents that also compares their Jaccard statistics, and
those of the documents inside. -/
def Document.sameWithJaccard : Document → Document → Bool
  | ⟨keys₁, required₁, isOpen₁, references₁, jaccard₁⟩,
    ⟨keys₂, required₂, isOpen₂, references₂, jaccard₂⟩ =>
      Jaccard.same jaccard₁ jaccard₂
        && compareLists Ord.compare required₁ required₂ = .eq
        && isOpen₁ = isOpen₂
        && compareLists Reference.compareNamed references₁ references₂ = .eq
        && sameKeys keys₁ keys₂
termination_by structural d => d

def sameBranches : List Schema → List Schema → Bool
  | [], [] => true
  | a :: as, b :: bs => a.sameWithJaccard b && sameBranches as bs
  | _, _ => false
termination_by structural as => as

/-- Field by field, equal names and `Schema.sameWithJaccard`. -/
def sameKeys : List (String × Schema) → List (String × Schema) → Bool
  | [], [] => true
  | (f, a) :: as, (g, b) :: bs => f = g && a.sameWithJaccard b && sameKeys as bs
  | _, _ => false
termination_by structural as => as

end

/-- Structural equality, which ignores the Jaccard statistics. -/
def Document.same (d e : Document) : Bool :=
  d.compare e = .eq

namespace Schema

/-- Structural equality, which ignores the Jaccard statistics. -/
def same (s t : Schema) : Bool :=
  s.compare t = .eq

/-- Places a branch in a sorted list, unless an equal branch is there already. -/
def placeBranch (s : Schema) : List Schema → List Schema
  | [] => [s]
  | b :: rest =>
      match s.compare b with
      | .lt => s :: b :: rest
      | .eq => b :: rest
      | .gt => b :: placeBranch s rest

/-- Sorted, distinct branches; of equal branches the first stands. -/
def sortBranches (branches : List Schema) : List Schema :=
  branches.foldl (fun acc b => placeBranch b acc) []

/-- The disjunction of the listed schemas, sorted and without repetition. -/
def ofBranches (branches : List Schema) : Schema :=
  .anyOf (sortBranches branches)

/-- The schema of the field if it may also be absent. -/
def orMissing : Schema → Schema
  | .any => .any
  | .missing => .missing
  | .anyOf bs => ofBranches (bs ++ [.missing])
  | s => ofBranches [s, .missing]

/-- `any` spelled out as the disjunction of every variant. -/
def unfoldedAny : Schema :=
  ofBranches (.missing :: .anyArray :: .anyDocument :: Atomic.named.map .atomic)

def numeric : Schema :=
  ofBranches [.atomic .int, .atomic .long, .atomic .double, .atomic .decimal]

/-- Null or absent. -/
def nullish : Schema :=
  ofBranches [.atomic .null, .missing]

end Schema

/-- The schema of every value the field can take in a document of the type,
`missing` included when the field is optional. -/
def Document.fieldSchema (d : Document) (field : String) : Schema :=
  match d.key? field with
  | some s => if d.requires field then s else s.orMissing
  | none => if d.requires field || d.isOpen then .any else .missing

def Document.provablyAbsent (d : Document) (field : String) : Bool :=
  match d.key? field with
  | some s => s.absence = .must
  | none => !d.isOpen && !d.requires field

end DocShape
