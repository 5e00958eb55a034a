import DocShape.Schema.Union

/-!
# Intersections

The schema of the values that match both of two schemas, and the combinations
of branches of several schemas.
-/

namespace DocShape

namespace Document

/-- The document with the intersected fields `shared` of two types that both
constrain their documents.  Fields of one type only survive when the other is
open; when no field survives, nothing does. -/
def meetWith (shared : FieldMap Schema) (d o : Document) : Schema :=
  let alone := o.keys.filter fun (field, _) => d.isOpen && !d.hasKey field
  let keys := FieldMap.union shared alone
  if keys.isEmpty && !(d.keys.isEmpty && o.keys.isEmpty) then .unsat
  else
    .document
      { keys
        required := NameSet.inter d.required o.required
        isOpen := d.isOpen && o.isOpen
        references := FieldMap.union d.references o.references
        jaccard := none }

end Document

namespace Schema

/-- The schema unless it is vacuous. -/
def satisfiable? (s : Schema) : Option Schema :=
  if s.isVacuous then none else some s

/-- The disjunction of the satisfiable intersections of branches. -/
def meetBranches (meets : List Schema) : Schema :=
  match meets.filterMap satisfiable? with
  | [] => .unsat
  | kept => (ofBranches kept).simplify

/-- The schema of the values that match both. -/
def intersection (s t : Schema) : Schema :=
  match s, t with
  | .any, t => t
  | s, .any => s
  | .unsat, _ => .unsat
  | _, .unsat => .unsat
  | .anyOf as, .anyOf bs =>
      meetBranches (as.attach.flatMap fun ⟨a, _⟩ => bs.attach.map fun ⟨b, _⟩ => a.intersection b)
  | .anyOf as, t => meetBranches (as.attach.map fun ⟨a, _⟩ => a.intersection t)
  | s, .anyOf bs => meetBranches (bs.attach.map fun ⟨b, _⟩ => s.intersection b)
  | .missing, .missing => .missing
  | .atomic a, .atomic b => if a = b then .atomic a else .unsat
  | .array x, .array y =>
      match x.intersection y with
      | .unsat => .unsat
      | items => .array items
  | .document d, .document o =>
      if d.isUnconstrained then .document o
      else if o.isUnconstrained then .document d
      else
        d.meetWith
          (d.keys.attach.filterMap fun ⟨(field, x), _⟩ =>
            match _h : o.key? field with
            | some y => (x.intersection y).satisfiable?.map (field, ·)
            | none => if o.isOpen then some (field, x) else none)
          o
  | _, _ => .unsat
termination_by s.weight + t.weight
decreasing_by
  · rename_i hb ha
    have := weight_le_branchesWeight ha
    have := weight_le_branchesWeight hb
    simp only [Schema.weight]
    omega
  · rename_i hmem
    have := weight_le_branchesWeight hmem
    simp only [Schema.weight]
    omega
  · rename_i hmem
    have := weight_le_branchesWeight hmem
    simp only [Schema.weight]
    omega
  · simp only [Schema.weight]
    omega
  · rename_i hmem
    have hleft := weight_lt_keysWeight_of_mem hmem
    have hright := weight_lt_keysWeight _h
    simp only [Schema.weight, Document.weight_eq]
    dsimp only at hleft
    omega

/-- All combinations of one branch from each schema. -/
def combinations (schemas : List Schema) : List (List Schema) :=
  schemas.foldl
    (fun combos s => combos.flatMap fun combo => s.branches.map fun b => combo ++ [b])
    [[]]

end Schema

end DocShape
