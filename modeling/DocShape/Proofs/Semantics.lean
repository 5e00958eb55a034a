import DocShape.Bson.Value
import DocShape.Proofs.Leaves

/-!
# The values of a schema

`Matches` says which values a schema has, the absent value among them.  What a
document type says about one field is the schema `fieldSchema` gives it: a
document matches if it has the required fields and all fields match theirs.
-/

namespace DocShape

namespace Bson

/-- What the fields hold under a name: a value of that name, or nothing if there is none. -/
inductive Fields.Holds (fields : Fields) (field : String) : Option Value → Prop where
  | present {v : Value} (h : (field, v) ∈ fields) : Holds fields field (some v)
  | absent (h : ∀ v, (field, v) ∉ fields) : Holds fields field none

theorem Fields.exists_holds (fields : Fields) (field : String) :
    ∃ v, fields.Holds field v := by
  by_cases h : ∃ v, (field, v) ∈ fields
  · obtain ⟨v, hv⟩ := h
    exact ⟨some v, .present hv⟩
  · exact ⟨none, .absent fun v hv => h ⟨v, hv⟩⟩

end Bson

open Bson (Value Fields)

namespace Schema

/-- The value, or its absence, is one of the schema's. -/
inductive Matches : Schema → Option Value → Prop where
  | missing : Matches .missing none
  | any {v : Option Value} : Matches .any v
  | atomic {a : Atomic} {v : Value} (kind : v.type.atomic? = some a) : Matches (.atomic a) (some v)
  | array {x : Schema} {items : List Value} (items_match : ∀ v ∈ items, Matches x (some v)) :
      Matches (.array x) (some (.array items))
  | document {d : Document} {fields : Fields}
      (required : ∀ field, d.requires field = true → ∃ v, (field, v) ∈ fields)
      (declared : ∀ field v s, (field, v) ∈ fields → d.key? field = some s → Matches s (some v))
      (closed : d.isOpen = false → ∀ field v, (field, v) ∈ fields → d.mentions field = true) :
      Matches (.document d) (some (.document fields))
  | anyOf {bs : List Schema} {b : Schema} {v : Option Value} (mem : b ∈ bs) (branch : Matches b v) :
      Matches (.anyOf bs) v

variable {s t : Schema} {bs : List Schema} {v : Option Value}

theorem not_unsat_matches : ¬ unsat.Matches v :=
  nofun

theorem missing_matches_iff : missing.Matches v ↔ v = none := by
  constructor
  · rintro ⟨⟩
    rfl
  · rintro rfl
    exact .missing

theorem anyOf_matches_iff : (anyOf bs).Matches v ↔ ∃ b ∈ bs, b.Matches v := by
  constructor
  · rintro ⟨⟩
    exact ⟨_, ‹_›, ‹_›⟩
  · rintro ⟨b, hb, h⟩
    exact .anyOf hb h

theorem matches_iff_branch : s.Matches v ↔ ∃ b ∈ s.branches, b.Matches v := by
  cases s with
  | anyOf bs => exact anyOf_matches_iff
  | _ => simp [branches]

theorem matches_iff_leaf : s.Matches v ↔ ∃ y ∈ s.leaves, y.Matches v := by
  induction s using induction_children with
  | step s ih =>
      rcases s.isLeaf_or with hleaf | rfl | ⟨bs, rfl⟩
      · simp [hleaf.leaves]
      · simp [leaves, not_unsat_matches]
      · simp only [anyOf_matches_iff, leaves_anyOf, List.mem_flatMap]
        constructor
        · rintro ⟨b, hb, hv⟩
          obtain ⟨y, hy, hyv⟩ := (ih b hb).1 hv
          exact ⟨y, ⟨b, hb, hy⟩, hyv⟩
        · rintro ⟨y, ⟨b, hb, hy⟩, hyv⟩
          exact ⟨b, hb, (ih b hb).2 ⟨y, hy, hyv⟩⟩

theorem array_matches_iff {x : Schema} {items : List Value} :
    (array x).Matches (some (.array items)) ↔ ∀ w ∈ items, x.Matches (some w) := by
  constructor
  · rintro ⟨⟩
    assumption
  · exact .array

theorem not_matches_of_isVacuous (h : s.isVacuous = true) : ¬ s.Matches v := by
  induction s using induction_children with
  | step s ih =>
      cases s with
      | unsat => exact not_unsat_matches
      | anyOf bs =>
          rw [anyOf_matches_iff]
          rintro ⟨b, hb, hv⟩
          exact ih b hb (isVacuous_anyOf.1 h b hb) hv
      | _ => cases h

/-- A schema that is absent for sure has no present value. -/
theorem Matches.eq_none_of_absence (hv : s.Matches v) (h : s.absence = .must) : v = none := by
  induction hv with
  | missing => rfl
  | anyOf mem _ ih => exact ih (absence_anyOf_eq_must.1 h _ mem)
  | _ => cases h

/-! ## One kind of value for each kind of branch -/

/-- The variant of branch that a value belongs to. -/
def branchKind : Option Value → Kind
  | none => .missing
  | some (.array _) => .array
  | some (.document _) => .document
  | some _ => .atomic

theorem Matches.kind_eq (hv : s.Matches v) (hs : s.IsBranch) : s.kind = branchKind v := by
  cases hv with
  | missing => rfl
  | any => exact absurd rfl hs.2.1
  | @atomic a w kind => cases w <;> first | rfl | cases kind
  | array => rfl
  | document => rfl
  | anyOf => exact absurd rfl hs.2.2

/-! ## Statistics do not count -/

private theorem document_matches_bare_iff {d : Document} {w : Option Value}
    (ih : ∀ s ∈ (document d).children, ∀ {w}, s.bare.Matches w ↔ s.Matches w) :
    (document d.bare).Matches w ↔ (document d).Matches w := by
  have hkey {field : String} {s : Schema} (h : d.key? field = some s) {v : Value} :
      s.bare.Matches (some v) ↔ s.Matches (some v) :=
    ih s (List.mem_map.2 ⟨_, Document.mem_of_key? h, rfl⟩)
  constructor
  · rintro ⟨⟩
    rename_i required declared closed
    simp only [Document.requires_bare, Document.mentions_bare, Document.bare_isOpen]
      at required closed
    refine .document required (fun field v s hmem hs => ?_) closed
    refine (hkey hs).1 (declared field v s.bare hmem ?_)
    rw [Document.key?_bare, hs, Option.map_some]
  · rintro ⟨⟩
    rename_i required declared closed
    refine .document ?_ (fun field v s hmem hs => ?_) ?_
    · simpa only [Document.requires_bare] using required
    · rw [Document.key?_bare, Option.map_eq_some_iff] at hs
      obtain ⟨t, ht, rfl⟩ := hs
      exact (hkey ht).2 (declared field v t hmem ht)
    · simpa only [Document.mentions_bare, Document.bare_isOpen] using closed

theorem matches_bare_iff : s.bare.Matches v ↔ s.Matches v := by
  induction s using induction_children generalizing v with
  | step s ih =>
      cases s with
      | array x =>
          have hx {w : Option Value} : x.bare.Matches w ↔ x.Matches w :=
            ih x (List.mem_singleton_self x)
          rw [bare_array]
          constructor
          · rintro ⟨⟩
            rename_i hitems
            exact .array fun w hw => hx.1 (hitems w hw)
          · rintro ⟨⟩
            rename_i hitems
            exact .array fun w hw => hx.2 (hitems w hw)
      | document d =>
          rw [bare_document]
          exact document_matches_bare_iff ih
      | anyOf bs =>
          rw [bare_anyOf, anyOf_matches_iff, anyOf_matches_iff]
          constructor
          · rintro ⟨c, hc, hv⟩
            obtain ⟨b, hb, rfl⟩ := List.mem_map.1 hc
            exact ⟨b, hb, (ih b hb).1 hv⟩
          · rintro ⟨b, hb, hv⟩
            exact ⟨b.bare, List.mem_map_of_mem hb, (ih b hb).2 hv⟩
      | _ => exact Iff.rfl

/-- Schemas that compare equal have the same values. -/
theorem matches_congr (h : s.compare t = .eq) : s.Matches v ↔ t.Matches v := by
  rw [← matches_bare_iff, bare_eq_of_compare_eq h, matches_bare_iff]

/-! ## Built disjunctions -/

theorem exists_sortBranches_matches :
    (∃ b ∈ sortBranches bs, b.Matches v) ↔ ∃ b ∈ bs, b.Matches v := by
  constructor
  · rintro ⟨b, hb, hv⟩
    exact ⟨b, mem_of_mem_sortBranches hb, hv⟩
  · rintro ⟨b, hb, hv⟩
    obtain ⟨c, hc, heq⟩ := exists_mem_sortBranches hb
    exact ⟨c, hc, (matches_congr heq).1 hv⟩

theorem ofBranches_matches_iff : (ofBranches bs).Matches v ↔ ∃ b ∈ bs, b.Matches v := by
  rw [ofBranches, anyOf_matches_iff, exists_sortBranches_matches]

theorem collapse_matches_iff : (collapse bs).Matches v ↔ ∃ b ∈ bs, b.Matches v := by
  rw [collapse]
  split
  · rename_i hany
    exact iff_of_true .any ⟨.any, any_mem_of_any_isAny hany, .any⟩
  · rw [← exists_sortBranches_matches]
    split
    · rename_i hsort
      simp [hsort, not_unsat_matches]
    · rename_i b hsort
      simp [hsort]
    · exact anyOf_matches_iff

/-- A field that may also be absent has the values of its schema and absence. -/
theorem orMissing_matches_iff : s.orMissing.Matches v ↔ s.Matches v ∨ v = none := by
  cases s with
  | any => exact iff_of_true .any (Or.inl .any)
  | missing => rw [orMissing, missing_matches_iff, or_self]
  | anyOf bs =>
      simp only [orMissing, ofBranches_matches_iff, List.mem_append, List.mem_singleton,
        or_and_right, exists_or, exists_eq_left, missing_matches_iff, anyOf_matches_iff]
  | _ => simp [orMissing, ofBranches_matches_iff, missing_matches_iff]

/-! ## Documents, field by field -/

/-- A document matches a type by the entries that it lists. -/
theorem document_matches_of_entries {d : Document} {fields : Fields}
    (required : ∀ field ∈ d.required, field ∈ fields.map Prod.fst)
    (declared : ∀ entry ∈ fields, ∀ s ∈ d.key? entry.1, s.Matches (some entry.2))
    (closed : d.isOpen = false → ∀ field ∈ fields.map Prod.fst, d.mentions field = true) :
    (document d).Matches (some (.document fields)) := by
  apply Matches.document
  · intro field hfield
    obtain ⟨⟨_, v⟩, hv, rfl⟩ := List.mem_map.1 (required field (Document.requires_iff.1 hfield))
    exact ⟨v, hv⟩
  · intro field v s hv hs
    exact declared (field, v) hv s hs
  · intro hopen field v hv
    exact closed hopen field (List.mem_map_of_mem hv)

/-- What a document holds under a name matches what its type says of the field. -/
theorem fieldSchema_matches {d : Document} {fields : Fields} {field : String}
    (h : (document d).Matches (some (.document fields))) (hv : fields.Holds field v) :
    (d.fieldSchema field).Matches v := by
  obtain ⟨⟩ := h
  rename_i required declared closed
  rw [Document.fieldSchema]
  cases hkey : d.key? field with
  | some s =>
      cases hv with
      | present hmem =>
          have hmatches := declared field _ s hmem hkey
          cases d.requires field with
          | true => exact hmatches
          | false => exact orMissing_matches_iff.2 (Or.inl hmatches)
      | absent hnone =>
          cases hrequires : d.requires field with
          | true =>
              obtain ⟨w, hw⟩ := required field hrequires
              exact absurd hw (hnone w)
          | false => exact orMissing_matches_iff.2 (Or.inr rfl)
  | none =>
      cases hfree : d.requires field || d.isOpen with
      | true => exact .any
      | false =>
          rw [Bool.or_eq_false_iff] at hfree
          cases hv with
          | absent => exact .missing
          | present hmem =>
              have hmentions := closed hfree.2 field _ hmem
              rw [Document.mentions, Document.hasKey, hkey, hfree.1] at hmentions
              cases hmentions

/-- Documents match a type by having the required fields and by their fields
matching what the type says of them. -/
theorem document_matches_iff {d : Document} {fields : Fields} :
    (document d).Matches (some (.document fields)) ↔
      (∀ field, d.requires field = true → ∃ v, (field, v) ∈ fields) ∧
        ∀ field v, fields.Holds field v → (d.fieldSchema field).Matches v := by
  constructor
  · intro h
    refine ⟨?_, fun field v hv => fieldSchema_matches h hv⟩
    obtain ⟨⟩ := h
    assumption
  · rintro ⟨required, hfields⟩
    refine .document required (fun field v s hmem hkey => ?_) fun hclosed field v hmem => ?_
    · have hv := hfields field (some v) (.present hmem)
      rw [Document.fieldSchema, hkey] at hv
      dsimp only at hv
      split at hv
      · exact hv
      · exact (orMissing_matches_iff.1 hv).resolve_right (by simp)
    · by_contra hmentions
      rw [Document.mentions, Bool.not_eq_true, Bool.or_eq_false_iff] at hmentions
      have hv := hfields field (some v) (.present hmem)
      rw [Document.fieldSchema_of_not_hasKey hmentions.1, hmentions.2, hclosed] at hv
      cases hv

end Schema

end DocShape
