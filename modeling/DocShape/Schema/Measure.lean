import DocShape.Schema.Order

/-!
# Measures of a schema

`depth` counts every constructor on the longest path, `nest` only arrays and
documents, and `weight` bounds the recursion of operations that compare two
schemas: making a field optional adds less weight than its document has to
spare.
-/

namespace DocShape

mutual

/-- Levels of the schema, its own included. -/
def Schema.depth : Schema → Nat
  | .array items => items.depth + 1
  | .document d => d.keysDepth + 1
  | .anyOf bs => branchesDepth bs + 1
  | _ => 1
termination_by structural s => s

/-- Levels below a document: those of its deepest key. -/
def Document.keysDepth : Document → Nat
  | ⟨keys, _, _, _, _⟩ => keysDepth keys
termination_by structural d => d

def branchesDepth : List Schema → Nat
  | [] => 0
  | b :: rest => max b.depth (branchesDepth rest)
termination_by structural bs => bs

def keysDepth : List (String × Schema) → Nat
  | [] => 0
  | (_, s) :: rest => max s.depth (keysDepth rest)
termination_by structural keys => keys

end

mutual

/-- The largest number of arrays and documents on a path. -/
def Schema.nest : Schema → Nat
  | .array items => items.nest + 1
  | .document d => d.nest + 1
  | .anyOf bs => branchesNest bs
  | _ => 0
termination_by structural s => s

/-- Container nesting below a document. -/
def Document.nest : Document → Nat
  | ⟨keys, _, _, _, _⟩ => keysNest keys
termination_by structural d => d

def branchesNest : List Schema → Nat
  | [] => 0
  | b :: rest => max b.nest (branchesNest rest)
termination_by structural bs => bs

/-- Container nesting of the deepest declared field. -/
def keysNest : List (String × Schema) → Nat
  | [] => 0
  | (_, s) :: rest => max s.nest (keysNest rest)
termination_by structural keys => keys

end

mutual

/-- Size of the schema, with three spare units for each declared field. -/
def Schema.weight : Schema → Nat
  | .array items => items.weight + 1
  | .document d => d.weight + 1
  | .anyOf bs => branchesWeight bs + 1
  | _ => 1
termination_by structural s => s

def Document.weight : Document → Nat
  | ⟨keys, _, _, _, _⟩ => keysWeight keys
termination_by structural d => d

def branchesWeight : List Schema → Nat
  | [] => 0
  | b :: rest => b.weight + branchesWeight rest
termination_by structural bs => bs

def keysWeight : List (String × Schema) → Nat
  | [] => 0
  | (_, s) :: rest => s.weight + 3 + keysWeight rest
termination_by structural keys => keys

end

theorem Schema.weight_pos (s : Schema) : 0 < s.weight := by
  cases s <;> simp [Schema.weight]

theorem weight_le_branchesWeight {b : Schema} {bs : List Schema} (h : b ∈ bs) :
    b.weight ≤ branchesWeight bs := by
  induction bs with
  | nil => cases h
  | cons head rest ih =>
      rcases List.mem_cons.1 h with rfl | hrest
      · simp [branchesWeight]
      · have := ih hrest
        simp only [branchesWeight]
        omega

theorem branchesWeight_append (as bs : List Schema) :
    branchesWeight (as ++ bs) = branchesWeight as + branchesWeight bs := by
  induction as with
  | nil => simp [branchesWeight]
  | cons a rest ih => simp [branchesWeight, ih, Nat.add_assoc]

theorem branchesWeight_placeBranch_le (s : Schema) (bs : List Schema) :
    branchesWeight (Schema.placeBranch s bs) ≤ s.weight + branchesWeight bs := by
  induction bs with
  | nil => simp [Schema.placeBranch, branchesWeight]
  | cons b rest ih =>
      unfold Schema.placeBranch
      split <;> simp only [branchesWeight] <;> omega

theorem branchesWeight_foldl_placeBranch_le (bs acc : List Schema) :
    branchesWeight (bs.foldl (fun acc b => Schema.placeBranch b acc) acc) ≤
      branchesWeight acc + branchesWeight bs := by
  induction bs generalizing acc with
  | nil => simp [branchesWeight]
  | cons b rest ih =>
      have hplace := branchesWeight_placeBranch_le b acc
      have hrest := ih (Schema.placeBranch b acc)
      simp only [List.foldl_cons, branchesWeight]
      omega

theorem Schema.weight_ofBranches_le (bs : List Schema) :
    (Schema.ofBranches bs).weight ≤ branchesWeight bs + 1 := by
  have h := branchesWeight_foldl_placeBranch_le bs []
  simp only [Schema.ofBranches, Schema.weight, Schema.sortBranches]
  simp only [branchesWeight] at h
  omega

theorem Schema.weight_orMissing_le (s : Schema) : s.orMissing.weight ≤ s.weight + 2 := by
  unfold Schema.orMissing
  split
  · simp [Schema.weight]
  · simp [Schema.weight]
  · rename_i bs
    have h := Schema.weight_ofBranches_le (bs ++ [.missing])
    rw [branchesWeight_append] at h
    simp only [branchesWeight, Schema.weight] at h ⊢
    omega
  · have h := Schema.weight_ofBranches_le [s, .missing]
    simp only [branchesWeight, Schema.weight] at h
    omega

theorem weight_lt_keysWeight {name : String} {s : Schema} {keys : List (String × Schema)}
    (h : FieldMap.find? keys name = some s) : s.weight + 3 ≤ keysWeight keys := by
  induction keys with
  | nil => simp [FieldMap.find?] at h
  | cons entry rest ih =>
      obtain ⟨other, t⟩ := entry
      simp only [FieldMap.find?, List.lookup_cons] at h
      simp only [keysWeight]
      split at h
      · cases h
        omega
      · have := ih h
        omega

theorem weight_lt_keysWeight_of_mem {entry : String × Schema} {keys : List (String × Schema)}
    (h : entry ∈ keys) : entry.2.weight + 3 ≤ keysWeight keys := by
  induction keys with
  | nil => cases h
  | cons head rest ih =>
      obtain ⟨name, s⟩ := head
      simp only [keysWeight]
      rcases List.mem_cons.1 h with rfl | hrest
      · dsimp only
        omega
      · have := ih hrest
        omega

theorem Document.weight_eq (d : Document) : d.weight = keysWeight d.keys := by
  cases d
  rfl

/-- A field's schema is lighter than a document that declares the field. -/
theorem Document.weight_fieldSchema_lt {d : Document} {field : String}
    (h : d.hasKey field = true) : (d.fieldSchema field).weight ≤ d.weight := by
  unfold Document.hasKey at h
  obtain ⟨s, hs⟩ := Option.isSome_iff_exists.1 h
  have hkey := weight_lt_keysWeight hs
  have hmissing := s.weight_orMissing_le
  rw [Document.weight_eq]
  unfold Document.fieldSchema
  rw [hs]
  dsimp only
  split <;> omega

/-- No field's schema is heavier than the document. -/
theorem Document.weight_fieldSchema_le (d : Document) (field : String) :
    (d.fieldSchema field).weight ≤ d.weight + 1 := by
  cases hkey : d.hasKey field with
  | true =>
      have := Document.weight_fieldSchema_lt hkey
      omega
  | false =>
      unfold Document.hasKey at hkey
      have hnone : d.key? field = none := by simpa using hkey
      unfold Document.fieldSchema
      rw [hnone]
      dsimp only
      split <;> simp [Schema.weight]

end DocShape
