import DocShape.Schema.Measure

/-!
# Containment verdicts

`Schema.satisfies` asks whether the values of one schema match another.  A
disjunction on the left needs all of its branches, one on the right only its
best; documents are compared field by field, an optional field as its schema
or `missing`.
-/

namespace DocShape

/-- Whether the fields of `d` stay within what a closed `o` mentions.  A
required field outside it is a contradiction, an optional one a possibility. -/
def Document.closedVerdict (d o : Document) : Verdict :=
  if o.isOpen then .must
  else if d.required.any (fun field => !o.mentions field) then .never
  else if d.isOpen then .may
  else if d.keys.any (fun (field, s) => !o.mentions field && s.absence != .must) then .may
  else .must

/-- Whether documents of `d` have the field, which another type requires. -/
def Document.requiredVerdict (d : Document) (field : String) : Verdict :=
  if d.requires field then .must
  else if d.provablyAbsent field then .never
  else .may

theorem Document.hasKey_of_mem {d : Document} {entry : String × Schema} (h : entry ∈ d.keys) :
    d.hasKey entry.1 = true := by
  unfold Document.hasKey Document.key?
  generalize d.keys = keys at h
  induction keys with
  | nil => cases h
  | cons head rest ih =>
      obtain ⟨name, s⟩ := head
      simp only [FieldMap.find?, List.lookup_cons]
      split
      · rfl
      · rename_i hne
        rcases List.mem_cons.1 h with rfl | hrest
        · simp at hne
        · exact ih hrest

namespace Schema

/-- How surely every value of `s` matches `t`. -/
def satisfies (s t : Schema) : Verdict :=
  if s.isVacuous then .must
  else if t.isVacuous then .never
  else
    match s, t with
    | _, .any => .must
    | .any, _ => .may
    | .anyOf bs, t => .meetAll (bs.attach.map fun ⟨b, _⟩ => b.satisfies t)
    | s, .anyOf bs => .strongest (bs.attach.map fun ⟨b, _⟩ => s.satisfies b)
    | .missing, .missing => .must
    | .atomic a, .atomic b => if a = b then .must else .never
    | .array x, .array y => x.satisfies y
    | .document d, .document o =>
        .weakest
          (d.closedVerdict o
            :: o.keys.attach.map (fun ⟨(field, _), _⟩ =>
                (d.fieldSchema field).satisfies (o.fieldSchema field))
            ++ o.required.map d.requiredVerdict)
    | _, _ => .never
termination_by s.weight + t.weight
decreasing_by
  · rename_i hmem
    have := weight_le_branchesWeight hmem
    simp only [Schema.weight]
    omega
  · rename_i hmem
    have := weight_le_branchesWeight hmem
    simp only [Schema.weight]
    omega
  · simp only [Schema.weight]
    omega
  · rename_i hmem
    have hleft := d.weight_fieldSchema_le field
    have hright := Document.weight_fieldSchema_lt (Document.hasKey_of_mem hmem)
    simp only [Schema.weight]
    dsimp only at hright
    omega

/-- How surely every value of the schema is null or absent. -/
def nullishness (s : Schema) : Verdict :=
  s.satisfies nullish

end Schema

end DocShape
