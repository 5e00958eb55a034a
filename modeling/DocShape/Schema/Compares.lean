import DocShape.Schema.Measure

/-!
# Comparability, field presence and shared fields

Whether two values can be operands of one comparison, whether a value has a
top-level field, and whether two values share one.
-/

namespace DocShape

namespace Schema

def comparesWithAll (s : Schema) : Bool :=
  match s with
  | .unsat | .missing | .atomic .null => true
  | _ => false

/-- Whether the schema is an atomic kind that compares with nothing but null. -/
def isOpaque : Schema → Bool
  | .atomic a => a.isOpaque
  | _ => false

/-- How surely values of `s` and `t` can be compared with one another. -/
def comparable (s t : Schema) : Verdict :=
  if s.comparesWithAll || t.comparesWithAll then .must
  else
    match s, t with
    | .any, _ => .may
    | _, .any => .may
    | .anyOf bs, t => .meetAll (bs.attach.map fun ⟨b, _⟩ => b.comparable t)
    | s, .anyOf bs => .meetAll (bs.attach.map fun ⟨b, _⟩ => s.comparable b)
    | .atomic a, .atomic b =>
        if a.isOpaque || b.isOpaque then .never
        else if a = b || (a.isNumeric && b.isNumeric) then .must
        else .never
    | .array x, .array y => x.comparable y
    | .document _, .document _ => .must
    | _, _ => .never
termination_by s.weight + t.weight
decreasing_by
  · rename_i hmem
    have := weight_le_branchesWeight hmem
    simp only [Schema.weight]
    omega
  · rename_i hmem
    have := weight_le_branchesWeight hmem
    simp only [Schema.weight]
    omega
  · simp only [Schema.weight]
    omega

mutual

/-- How surely a value of the schema has the top-level field. -/
def containsField (field : String) : Schema → Verdict
  | .any => .may
  | .anyOf bs => .meetAll (containFields field bs)
  | .document d =>
      if d.requires field then .must
      else if d.hasKey field || d.isOpen then .may
      else .never
  | _ => .never
termination_by structural s => s

def containFields (field : String) : List Schema → List Verdict
  | [] => []
  | b :: rest => b.containsField field :: containFields field rest
termination_by structural bs => bs

end

end Schema

/-- How surely documents of the two types share a field. -/
def Document.sharesField (d e : Document) : Verdict :=
  if d.required.any e.requires then .must
  else if d.isOpen && e.isOpen || d.isOpen && !e.fieldNames.isEmpty
      || e.isOpen && !d.fieldNames.isEmpty then .may
  else if d.fieldNames.any e.mentions then .may
  else .never

namespace Schema

/-- How surely values of `s` and `t` share a top-level field. -/
def sharesField (s t : Schema) : Verdict :=
  match s, t with
  | .anyOf bs, t => .meetAll (bs.attach.map fun ⟨b, _⟩ => b.sharesField t)
  | s, .anyOf bs => .meetAll (bs.attach.map fun ⟨b, _⟩ => s.sharesField b)
  | .any, .any => .may
  | .any, .document _ => .may
  | .document _, .any => .may
  | .document d, .document e => d.sharesField e
  | _, _ => .never
termination_by s.weight + t.weight
decreasing_by
  · rename_i hmem
    have := weight_le_branchesWeight hmem
    simp only [Schema.weight]
    omega
  · rename_i hmem
    have := weight_le_branchesWeight hmem
    simp only [Schema.weight]
    omega

end Schema

end DocShape
