import DocShape.Proofs.Semantics

/-!
# Verdicts and values

`must` is right about every value: the values of the one schema are values of
the other.  `never` is right about the values without an empty array, which
matches two array schemas whatever their items.
-/

namespace DocShape

namespace Bson.Value

/-- The values right inside a value: array elements or document fields. -/
def parts : Value → List Value
  | array items => items
  | document fields => fields.map Prod.snd
  | _ => []

/-- No array in the value, at any depth, is empty. -/
inductive Filled : Value → Prop where
  | intro {v : Value} (here : v ≠ .array []) (inside : ∀ w ∈ v.parts, Filled w) : Filled v

theorem Filled.ne_nil {items : List Value} (h : (array items).Filled) : items ≠ [] := by
  obtain ⟨here, -⟩ := h
  rintro rfl
  exact here rfl

theorem Filled.item {items : List Value} {w : Value} (h : (array items).Filled)
    (hw : w ∈ items) : w.Filled := by
  obtain ⟨-, inside⟩ := h
  exact inside w hw

theorem Filled.field {fields : Fields} {field : String} {v : Option Value}
    (h : (document fields).Filled) (hv : fields.Holds field v) : ∀ w ∈ v, w.Filled := by
  obtain ⟨-, inside⟩ := h
  rintro w ⟨⟩
  obtain ⟨hmem⟩ := hv
  exact inside w (List.mem_map.2 ⟨_, hmem, rfl⟩)

end Bson.Value

open Bson (Value Fields)

/-! ## Document types -/

namespace Document

variable {d o : Document} {fields : Fields} {field : String} {v : Option Value}

theorem closedVerdict_eq_never (h : d.closedVerdict o = .never) :
    o.isOpen = false ∧ ∃ field, d.requires field = true ∧ o.mentions field = false := by
  rw [closedVerdict] at h
  split at h
  · cases h
  · rename_i hopen
    split at h
    · rename_i hany
      obtain ⟨field, hmem, hfield⟩ := List.any_eq_true.1 hany
      rw [Bool.not_eq_true'] at hfield
      exact ⟨Bool.eq_false_iff.2 hopen, field, requires_iff.2 hmem, hfield⟩
    · split at h
      · cases h
      · split at h <;> cases h

theorem requiredVerdict_eq_never (h : d.requiredVerdict field = .never) :
    d.provablyAbsent field = true := by
  rw [requiredVerdict] at h
  split at h
  · cases h
  · split at h
    · assumption
    · cases h

theorem eq_none_of_not_mentions (h : (Schema.document o).Matches (some (.document fields)))
    (hv : fields.Holds field v) (hclosed : o.isOpen = false) (hfield : o.mentions field = false) :
    v = none := by
  have hmissing := Schema.fieldSchema_matches h hv
  rw [mentions, Bool.or_eq_false_iff] at hfield
  rw [fieldSchema_of_not_hasKey hfield.1, hfield.2, hclosed] at hmissing
  exact Schema.missing_matches_iff.1 hmissing

theorem eq_none_of_provablyAbsent (h : (Schema.document d).Matches (some (.document fields)))
    (hv : fields.Holds field v) (habsent : d.provablyAbsent field = true) : v = none := by
  rw [provablyAbsent] at habsent
  split at habsent
  · rename_i s hkey
    cases hv with
    | absent => rfl
    | present hmem =>
        cases h with
        | document _ declared _ =>
            exact (declared field _ s hmem hkey).eq_none_of_absence (of_decide_eq_true habsent)
  · rename_i hkey
    rw [Bool.and_eq_true, Bool.not_eq_true', Bool.not_eq_true'] at habsent
    refine eq_none_of_not_mentions h hv habsent.1 ?_
    rw [mentions, hasKey, hkey, habsent.2]
    rfl

/-- A document of a type is one of every type it fits in, given the fields' containments. -/
theorem FitsIn.matches (h : d.FitsIn o)
    (ih : ∀ field v, o.hasKey field = true → (d.fieldSchema field).Matches v →
      (o.fieldSchema field).Matches v)
    (hd : (Schema.document d).Matches (some (.document fields))) :
    (Schema.document o).Matches (some (.document fields)) := by
  have hrequired := (Schema.document_matches_iff.1 hd).1
  refine Schema.document_matches_iff.2 ⟨fun field hfield => ?_, fun field v hv => ?_⟩
  · exact hrequired field (h.requires field hfield)
  · have hfield := Schema.fieldSchema_matches hd hv
    cases hkey : o.hasKey field with
    | true => exact ih field v hkey hfield
    | false =>
        rw [fieldSchema_of_not_hasKey hkey]
        cases hfree : o.requires field || o.isOpen with
        | true => exact .any
        | false =>
            rw [Bool.or_eq_false_iff] at hfree
            have hmentions : o.mentions field = false := by
              rw [mentions, hkey, hfree.1, Bool.or_false]
            have hmissing := h.fieldSchema_within_missing hfree.2 hmentions
            exact Schema.missing_matches_iff.2
              (hfield.eq_none_of_absence (Schema.within_missing_iff.1 hmissing))

/-- No document is of two types with a verdict of `never`, given the fields' verdicts. -/
theorem not_matches_of_never
    (h : (Schema.document d).satisfies (.document o) = .never)
    (ih : ∀ field v, o.hasKey field = true → fields.Holds field v →
      (d.fieldSchema field).satisfies (o.fieldSchema field) = .never →
      (d.fieldSchema field).Matches v → ¬ (o.fieldSchema field).Matches v)
    (hd : (Schema.document d).Matches (some (.document fields))) :
    ¬ (Schema.document o).Matches (some (.document fields)) := by
  intro ho
  have hdrequired := (Schema.document_matches_iff.1 hd).1
  have horequired := (Schema.document_matches_iff.1 ho).1
  rw [Schema.document_satisfies_document, Verdict.weakest_eq_never, List.cons_append,
    List.mem_cons, List.mem_append, List.mem_map, List.mem_map] at h
  rcases h with hclosed | ⟨entry, hmem, hentry⟩ | ⟨field, hmem, hfield⟩
  · obtain ⟨hopen, field, hrequires, hmentions⟩ := closedVerdict_eq_never hclosed.symm
    obtain ⟨w, hw⟩ := hdrequired field hrequires
    cases eq_none_of_not_mentions ho (.present hw) hopen hmentions
  · obtain ⟨v, hv⟩ := fields.exists_holds entry.1
    exact ih entry.1 v (hasKey_of_mem hmem) hv hentry (Schema.fieldSchema_matches hd hv)
      (Schema.fieldSchema_matches ho hv)
  · obtain ⟨w, hw⟩ := horequired field (requires_iff.2 hmem)
    cases eq_none_of_provablyAbsent hd (.present hw) (requiredVerdict_eq_never hfield)

end Document

/-! ## Schemas -/

namespace Schema

variable {s t : Schema} {v : Option Value}

/-- The values of a schema are values of every schema it is within. -/
theorem Within.matches (h : s.Within t) (hv : s.Matches v) : t.Matches v := by
  induction s, t using satisfies_induction generalizing v with
  | vacuous s t hs => exact absurd hv (not_matches_of_isVacuous hs)
  | intoVacuous s t hs ht =>
      rw [h.isVacuous ht] at hs
      cases hs
  | intoAny s => exact .any
  | fromAny t ht hany => exact absurd (any_within_iff.1 h) hany
  | fromAnyOf bs t hs ht hany ih =>
      obtain ⟨b, hb, hbv⟩ := anyOf_matches_iff.1 hv
      exact ih b hb (anyOf_within_iff.1 h b hb) hbv
  | intoAnyOf s bs hs hbs ih =>
      obtain ⟨b, hb, hsb⟩ := (within_anyOf_iff hs).1 h
      exact .anyOf hb (ih b hb hsb hv)
  | apart s t hs ht hkind => exact absurd (h.kind_eq hs ht) hkind
  | missing => exact hv
  | atomic a b =>
      rw [atomic_within_iff.1 h] at hv
      exact hv
  | array x y ih =>
      cases hv with
      | array hitems => exact .array fun w hw => ih (array_within_iff.1 h) (hitems w hw)
  | document d o ih =>
      have hfits := document_within_iff.1 h
      obtain ⟨⟩ := id hv
      refine hfits.matches (fun field v hfield => ?_) hv
      exact ih field hfield (hfits.declared field hfield)

/-- Schemas with a verdict of `never` share no value without an empty array. -/
theorem not_matches_of_satisfies_eq_never (h : s.satisfies t = .never)
    (hfilled : ∀ w ∈ v, w.Filled) (hs : s.Matches v) : ¬ t.Matches v := by
  induction s, t using satisfies_induction generalizing v with
  | vacuous s t hvacuous => exact absurd hs (not_matches_of_isVacuous hvacuous)
  | intoVacuous s t _ ht => exact not_matches_of_isVacuous ht
  | intoAny s =>
      rw [satisfies_any] at h
      cases h
  | fromAny t ht hany =>
      rw [any_satisfies ht hany] at h
      cases h
  | fromAnyOf bs t hbs ht hany ih =>
      rw [anyOf_satisfies hbs ht hany, Verdict.meetAll_eq_never, List.forall_mem_map] at h
      obtain ⟨b, hb, hbv⟩ := anyOf_matches_iff.1 hs
      exact ih b hb (h.2 b hb) hfilled hbv
  | intoAnyOf s bs hbranch hbs ih =>
      rw [satisfies_anyOf hbranch hbs, Verdict.strongest_eq_never, List.forall_mem_map] at h
      rw [anyOf_matches_iff]
      rintro ⟨b, hb, hbv⟩
      exact ih b hb (h b hb) hfilled hs hbv
  | apart s t hsb htb hkind =>
      intro ht
      exact hkind ((hs.kind_eq hsb).trans (ht.kind_eq htb).symm)
  | missing =>
      rw [missing_satisfies_missing] at h
      cases h
  | atomic a b =>
      intro ht
      obtain ⟨⟩ := hs
      obtain ⟨⟩ := ht
      rename_i ha hb
      have hab : a = b := Option.some.inj (ha.symm.trans hb)
      rw [atomic_satisfies_atomic, if_pos hab] at h
      cases h
  | array x y ih =>
      intro ht
      rw [array_satisfies_array] at h
      obtain ⟨⟩ := id hs
      rename_i items _
      have hitems : (Value.array items).Filled := hfilled _ rfl
      obtain ⟨w, hw⟩ := List.exists_mem_of_ne_nil items hitems.ne_nil
      refine ih h (v := some w) ?_ (array_matches_iff.1 hs w hw) (array_matches_iff.1 ht w hw)
      rintro _ ⟨⟩
      exact hitems.item hw
  | document d o ih =>
      obtain ⟨⟩ := id hs
      rename_i fields _ _ _
      have hfields : (Value.document fields).Filled := hfilled _ rfl
      refine Document.not_matches_of_never h (fun field v hkey hv hnever hmatch => ?_) hs
      exact ih field hkey hnever (hfields.field hv) hmatch

/-- Verdicts are right about values: `must` about every value, `never` about the
values that contain no empty array. -/
theorem satisfies_sound_for_values (s t : Schema) :
    (s.satisfies t = .must → ∀ v : Option Value, s.Matches v → t.Matches v) ∧
      (s.satisfies t = .never → ∀ v : Option Value, (∀ w ∈ v, w.Filled) →
        ¬ (s.Matches v ∧ t.Matches v)) := by
  constructor
  · intro hmust v hv
    exact Within.matches hmust hv
  · rintro hnever v hfilled ⟨hs, ht⟩
    exact not_matches_of_satisfies_eq_never hnever hfilled hs ht

/-- A document with a required number, against a type that lets it be anything
and against one that wants an array. -/
theorem satisfies_sound_for_record :
    ((document (.ofFields [("id", .atomic .int)] ["id"] false)).satisfies
          (.document (.ofFields [("id", .any)] ["id"] true)) = .must ∧
        (document (.ofFields [("id", .any)] ["id"] true)).Matches
          (some (.document [("id", .int32 7)]))) ∧
      (document (.ofFields [("id", .atomic .int)] ["id"] false)).satisfies
          (.document (.ofFields [("id", .array .any)] [] true)) = .never ∧
        (Value.document [("id", .int32 7)]).Filled ∧
        ¬ ((document (.ofFields [("id", .atomic .int)] ["id"] false)).Matches
            (some (.document [("id", .int32 7)])) ∧
          (document (.ofFields [("id", .array .any)] [] true)).Matches
            (some (.document [("id", .int32 7)]))) := by
  have hmust : (document (.ofFields [("id", .atomic .int)] ["id"] false)).satisfies
      (.document (.ofFields [("id", .any)] ["id"] true)) = .must := by decide +kernel
  have hnever : (document (.ofFields [("id", .atomic .int)] ["id"] false)).satisfies
      (.document (.ofFields [("id", .array .any)] [] true)) = .never := by decide +kernel
  have hfilled : (Value.document [("id", .int32 7)]).Filled := by
    refine .intro (by simp) fun w hw => ?_
    cases List.mem_singleton.1 hw
    exact .intro (by simp) (List.forall_mem_nil _)
  have hmatches : (document (.ofFields [("id", .atomic .int)] ["id"] false)).Matches
      (some (.document [("id", .int32 7)])) := by
    refine .document (fun field hfield => ?_) (fun field v s hmem hkey => ?_)
      fun _ field v hmem => ?_
    · rw [List.mem_singleton.1 (Document.requires_iff.1 hfield)]
      exact ⟨_, List.mem_singleton_self _⟩
    · cases List.mem_singleton.1 hmem
      cases hkey
      exact .atomic rfl
    · cases List.mem_singleton.1 hmem
      rfl
  refine ⟨⟨hmust, (satisfies_sound_for_values _ _).1 hmust _ hmatches⟩, hnever, hfilled,
    (satisfies_sound_for_values _ _).2 hnever _ ?_⟩
  rintro w ⟨⟩
  exact hfilled

end Schema

end DocShape
