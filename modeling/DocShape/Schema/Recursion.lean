import DocShape.Schema.Union
import DocShape.Schema.Worklist

/-!
# The recursion of unions

Simplifying a schema merges documents, which unions their fields, which in turn
simplifies these.  Here every function of that recursion is written in terms of
the calls it makes, so that a run can decide which calls to allow: `simplifyRun`
and `unionRun` refuse a call that does not descend in container nesting.
-/

namespace DocShape

structure Callees where
  simplify : Schema → Except Halt Schema
  union : Schema → Schema → Except Halt Schema

/-- The library's own functions, which always return. -/
def Callees.library : Callees where
  simplify s := .ok s.simplify
  union s t := .ok (s.union t)

namespace Document

def unionKeyBy (union : Schema → Schema → Except Halt Schema) (d o : Document) (field : String) :
    Except Halt (Option Schema) :=
  match d.declared? field, o.declared? field with
  | some s, some t =>
      if d.hasKey field || o.hasKey field then do return some (← union s t) else .ok none
  | some s, none => .ok (some (if o.isOpen then .any else s))
  | none, some t => .ok (some (if d.isOpen then .any else t))
  | none, none => .ok none

def unionKeysBy (union : Schema → Schema → Except Halt Schema) (d o : Document) :
    Except Halt (FieldMap Schema) :=
  (NameSet.union d.fieldNames o.fieldNames).filterMapM fun field => do
    return (← d.unionKeyBy union o field).map (field, ·)

def unionBy (union : Schema → Schema → Except Halt Schema) (d o : Document) :
    Except Halt Document :=
  let jaccard := (Jaccard.combine d.jaccard o.jaccard).map fun j =>
    j.update (Jaccard.similarity d.keyNames o.keyNames)
  if jaccard.any Jaccard.isUnstable then .ok { unconstrained with jaccard }
  else do
    return {
      keys := ← d.unionKeysBy union o
      required := NameSet.inter d.required o.required
      isOpen := d.isOpen || o.isOpen
      references := FieldMap.union d.references o.references
      jaccard }

/-- One envelope of both types. -/
def mergeBy (union : Schema → Schema → Except Halt Schema) (d o : Document) :
    Except Halt Document := do
  return {
    keys := ← d.unionKeysBy union o
    required := NameSet.union d.required o.required
    isOpen := d.isOpen || o.isOpen
    references := FieldMap.union d.references o.references
    jaccard := Jaccard.combine d.jaccard o.jaccard }

/-- The canonical form of a document, field by field. -/
def simplifyBy (simplify : Schema → Except Halt Schema) (d : Document) : Except Halt Document := do
  return d.redeclare (← d.keys.mapM fun entry => do return (entry.1, ← simplify entry.2))

end Document

namespace Schema

/-! ## Simplification -/

/-- What has been gathered of a disjunction: its simplified branches other than
documents, and the envelope of its documents. -/
structure Gathering where
  flat : List Schema
  envelope : Option Document

namespace Gathering

/-- The gathering before the first leaf. -/
def start : Gathering := ⟨[], none⟩

/-- Adds a leaf, simplified; `none` if `any` has absorbed all others. -/
def add (call : Callees) (g : Gathering) (leaf : Schema) : Except Halt (Option Gathering) := do
  match ← call.simplify leaf with
  | .unsat => return some g
  | .any => return none
  | .document d =>
      match g.envelope with
      | none => return some { g with envelope := some d }
      | some e => return some { g with envelope := some (← e.mergeBy call.union d) }
  | s => return some { g with flat := g.flat ++ [s] }

def finish (call : Callees) (g : Gathering) : Except Halt Schema :=
  match g.envelope with
  | none => .ok (collapse g.flat)
  | some d => do return collapse (g.flat ++ [.document (← d.simplifyBy call.simplify)])

end Gathering

/-- Gathers the leaves of the branches on the stack, unrolling nested disjunctions
in place. -/
def gatherLoop (call : Callees) (stack : Stack Schema) (g : Gathering) : Except Halt Schema :=
  if stack.isEmpty then g.finish call
  else
    match h : stack.pop with
    | .error halt => .error halt
    | .ok (.anyOf bs, rest) =>
        have := Stack.items_of_pop h
        gatherLoop call (rest.pushAll bs.reverse) g
    | .ok (leaf, rest) => do
        have := Stack.items_of_pop h
        match ← g.add call leaf with
        | none => return .any
        | some g => gatherLoop call rest g
termination_by branchesWeight stack.items
decreasing_by
  · simp only [this, Stack.items_pushAll, List.reverse_reverse, branchesWeight_append,
      branchesWeight, Schema.weight]
    omega
  · have hpos := leaf.weight_pos
    simp only [this, branchesWeight]
    omega

/-- The canonical form of the disjunction of the branches. -/
def simplifyBranches (call : Callees) (branches : List Schema) : Except Halt Schema :=
  gatherLoop call (Stack.empty.pushAll branches.reverse) .start

/-- The canonical form of a schema. -/
def simplifyBy (call : Callees) : Schema → Except Halt Schema
  | .array items => do return .array (← call.simplify items)
  | .document d => do return .document (← d.simplifyBy call.simplify)
  | .anyOf bs => simplifyBranches call bs
  | s => .ok s

/-! ## Unions -/

/-- Adds a canonical branch to canonical branches. -/
def insertBranchBy (union : Schema → Schema → Except Halt Schema) (branches : List Schema) :
    Schema → Except Halt (List Schema)
  | .array items =>
      match arrayItems branches with
      | [] => .ok (nonArrays branches ++ [.array items])
      | [other] => do return nonArrays branches ++ [.array (← union other items)]
      | _ => .ok (nonArrays branches ++ [anyArray])
  | .document d =>
      match documents branches with
      | [] => .ok (nonDocuments branches ++ [.document d])
      | first :: others => do
          let envelope ← others.foldlM (Document.mergeBy union) first
          return nonDocuments branches ++ [.document (← envelope.unionBy union d)]
  | s => .ok (branches ++ [s])

/-- The union of two canonical schemas. -/
def joinBy (union : Schema → Schema → Except Halt Schema) (s t : Schema) : Except Halt Schema :=
  let swap := s.compare t = .gt
  let left := if swap then t else s
  let right := if swap then s else t
  match left, right with
  | .unsat, right => .ok right
  | _, .any => .ok .any
  | .anyOf ls, right => do return collapse (← ls.foldlM (insertBranchBy union) right.branches)
  | left, .anyOf rs => do return collapse (← insertBranchBy union rs left)
  | .array x, .array y => do return .array (← union x y)
  | .document d, .document e => do return .document (← d.unionBy union e)
  | left, right => .ok (if left.same right then left else ofBranches [left, right])

def unionBy (call : Callees) (s t : Schema) : Except Halt Schema := do
  joinBy call.union (← call.simplify s) (← call.simplify t)

/-! ## Runs that descend -/

mutual

/-- Simplifies with calls on schemas that nest less, or that nest no more and are
lighter, and unions only schemas that nest less. -/
def simplifyRun (s : Schema) : Except Halt Schema :=
  simplifyBy
    { simplify := fun x =>
        if x.nest < s.nest ∨ x.nest ≤ s.nest ∧ x.weight < s.weight then simplifyRun x
        else .error .notSmaller
      union := fun x y =>
        if max x.nest y.nest < s.nest then unionRun x y else .error .notSmaller }
    s
termination_by (s.nest, 0, s.weight)
decreasing_by
  all_goals
    simp only [Prod.lex_def, true_and]
    omega

/-- Unions with calls that simplify schemas which nest no more and that union only
schemas which nest less. -/
def unionRun (s t : Schema) : Except Halt Schema :=
  unionBy
    { simplify := fun x =>
        if x.nest ≤ max s.nest t.nest then simplifyRun x else .error .notSmaller
      union := fun x y =>
        if max x.nest y.nest < max s.nest t.nest then unionRun x y else .error .notSmaller }
    s t
termination_by (max s.nest t.nest, 1, 0)
decreasing_by
  all_goals
    simp only [Prod.lex_def, true_and]
    omega

end

end Schema

namespace Document

/-- The union of two schemas that nest less than one of the documents. -/
def unionBelow (d o : Document) (s t : Schema) : Except Halt Schema :=
  if max s.nest t.nest < max (Schema.document d).nest (Schema.document o).nest then s.unionRun t
  else .error .notSmaller

/-- The documents of either type, where fields that both declare nest less. -/
def unionRun (d o : Document) : Except Halt Document :=
  d.unionBy (d.unionBelow o) o

/-- One envelope of both types, where fields that both declare nest less. -/
def mergeRun (d o : Document) : Except Halt Document :=
  d.mergeBy (d.unionBelow o) o

end Document

end DocShape
