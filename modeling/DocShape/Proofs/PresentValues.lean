import DocShape.Proofs.Echo
import DocShape.Proofs.Meet

/-!
# Schemas with present values

A canonical schema to declare a field with has a present value as soon as its
atomic kinds have values: arrays can be empty, and a document is built from the
values of the fields that it requires.
-/

namespace DocShape

open Bson (Value Fields)

namespace Schema

variable {s : Schema}

theorem exists_atomic_matches {a : Atomic} (h : a.isNamed = true) :
    ∃ v : Value, (atomic a).Matches (some v) := by
  cases a with
  | minKey => exact ⟨.minKey, .atomic rfl⟩
  | null => exact ⟨.null, .atomic rfl⟩
  | int => exact ⟨.int32 0, .atomic rfl⟩
  | long => exact ⟨.int64 0, .atomic rfl⟩
  | double => exact ⟨.double 0, .atomic rfl⟩
  | decimal => exact ⟨.decimal 0 0, .atomic rfl⟩
  | symbol => exact ⟨.symbol "", .atomic rfl⟩
  | string => exact ⟨.string "", .atomic rfl⟩
  | binData => exact ⟨.binary 0 [], .atomic rfl⟩
  | undefined => exact ⟨.undefined, .atomic rfl⟩
  | objectId => exact ⟨.objectId ⟨0, 0⟩, .atomic rfl⟩
  | bool => exact ⟨.bool false, .atomic rfl⟩
  | date => exact ⟨.date 0, .atomic rfl⟩
  | timestamp => exact ⟨.timestamp 0 0, .atomic rfl⟩
  | regex => exact ⟨.regex "" "", .atomic rfl⟩
  | dbPointer => exact ⟨.dbPointer "" ⟨0, 0⟩, .atomic rfl⟩
  | javascript => exact ⟨.javascript "", .atomic rfl⟩
  | javascriptWithScope => exact ⟨.codeWithScope "" [], .atomic rfl⟩
  | maxKey => exact ⟨.maxKey, .atomic rfl⟩
  | unassigned _ => cases h

/-- Fields that a type allows can be completed to a document of it by required fields. -/
theorem exists_document_matches {m : Document} {extra : Fields}
    (hrequired : ∀ field s, m.requires field = true → m.key? field = some s →
      ∃ v : Value, s.Matches (some v))
    (hdeclared : ∀ field v s, (field, v) ∈ extra → m.key? field = some s → s.Matches (some v))
    (hclosed : m.isOpen = false → ∀ field v, (field, v) ∈ extra → m.mentions field = true) :
    ∃ fields : Fields, (document m).Matches (some (.document fields)) ∧
      (∀ field v, (field, v) ∈ extra → (field, v) ∈ fields) ∧
        ∀ field v, (field, v) ∈ fields → (field, v) ∈ extra ∨ m.requires field = true := by
  have hfill (field : String) : ∃ v : Value, m.requires field = true →
      ∀ s, m.key? field = some s → s.Matches (some v) := by
    by_cases h : m.requires field = true ∧ (m.key? field).isSome = true
    · obtain ⟨s, hs⟩ := Option.isSome_iff_exists.1 h.2
      obtain ⟨v, hv⟩ := hrequired field s h.1 hs
      refine ⟨v, fun _ t ht => ?_⟩
      rw [hs] at ht
      cases ht
      exact hv
    · refine ⟨.null, fun hfield s hs => absurd ⟨hfield, ?_⟩ h⟩
      rw [hs]
      rfl
  choose fill hfill using hfill
  have hmem (field : String) (v : Value)
      (h : (field, v) ∈ extra ++ m.required.map fun name => (name, fill name)) :
      (field, v) ∈ extra ∨ m.requires field = true ∧ v = fill field := by
    rcases List.mem_append.1 h with h | h
    · exact .inl h
    · obtain ⟨name, hname, heq⟩ := List.mem_map.1 h
      cases heq
      exact .inr ⟨Document.requires_iff.2 hname, rfl⟩
  refine ⟨extra ++ m.required.map fun name => (name, fill name), .document ?_ ?_ ?_,
    fun _ _ h => List.mem_append_left _ h, ?_⟩
  · intro field hfield
    refine ⟨fill field, List.mem_append_right _ (List.mem_map.2 ⟨field, ?_, rfl⟩)⟩
    exact Document.requires_iff.1 hfield
  · intro field v s h hs
    rcases hmem field v h with h | ⟨hfield, rfl⟩
    · exact hdeclared field v s h hs
    · exact hfill field hfield s hs
  · intro hopen field v h
    rcases hmem field v h with h | ⟨hfield, -⟩
    · exact hclosed hopen field v h
    · rw [Document.mentions, hfield, Bool.or_true]
  · intro field v h
    exact (hmem field v h).imp_right And.left

/-- A canonical schema whose atomic kinds have values has a present value, unless it is
`unsat` or allows a field to be absent. -/
theorem exists_matches (hs : s.Canonical) (hnamed : s.Everywhere NamedHere)
    (hdeclarable : s.Declarable) : ∃ v : Value, s.Matches (some v) := by
  induction s using induction_children with
  | step s ih =>
      cases s with
      | unsat => exact absurd rfl hdeclarable.1
      | missing => exact absurd rfl hdeclarable.ne_missing
      | any => exact ⟨.null, .any⟩
      | atomic a => exact exists_atomic_matches hnamed.here
      | array x => exact ⟨.array [], .array nofun⟩
      | document d =>
          have hkeys (field : String) (x : Schema) (_ : d.requires field = true)
              (hx : d.key? field = some x) : ∃ v : Value, x.Matches (some v) :=
            ih x (List.mem_map_of_mem (Document.mem_of_key? hx)) (hs.key hx).2 (hnamed.key hx)
              (hs.key hx).1
          obtain ⟨fields, hfields, -⟩ := @exists_document_matches d [] hkeys nofun nofun
          exact ⟨_, hfields⟩
      | anyOf bs =>
          obtain ⟨hbs, hcanonical⟩ := canonical_anyOf_iff.1 hs
          obtain ⟨b, hb⟩ : ∃ b, b ∈ bs := by
            apply List.exists_mem_of_length_pos
            have := hbs.two
            omega
          have hmissing : b ≠ .missing := fun h => hdeclarable.2 (h ▸ hb)
          obtain ⟨v, hv⟩ := ih b hb (hcanonical b hb) (hnamed.inside hb)
            (declarable_of_isBranch (hbs.branch b hb) hmissing)
          exact ⟨v, .anyOf hb hv⟩

end Schema

end DocShape
