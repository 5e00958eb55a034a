import DocShape.Proofs.Absence

/-!
# Containment

`Within` is the verdict `must`.  It sees a disjunction on the left through all
of its branches and one on the right through some branch; document types are
compared field by field.  Neither the verdict nor `Within` depends on statistics.
-/

namespace DocShape

namespace Schema

variable {s t : Schema} {bs : List Schema}

/-! ## The verdict, case by case -/

theorem satisfies_of_isVacuous (h : s.isVacuous = true) : s.satisfies t = .must := by
  rw [satisfies.eq_def, if_pos h]

theorem satisfies_of_isVacuous_right (hs : s.isVacuous = false) (ht : t.isVacuous = true) :
    s.satisfies t = .never := by
  rw [satisfies.eq_def, hs, if_neg Bool.false_ne_true, if_pos ht]

theorem satisfies_any (s : Schema) : s.satisfies .any = .must := by
  rw [satisfies]
  split
  · rfl
  · rfl

theorem any_satisfies (ht : t.isVacuous = false) (hany : t ≠ .any) :
    any.satisfies t = .may := by
  rw [satisfies.eq_def, ht]
  cases t with
  | any => exact absurd rfl hany
  | _ => rfl

theorem anyOf_satisfies (hs : (anyOf bs).isVacuous = false) (ht : t.isVacuous = false)
    (hany : t ≠ .any) : (anyOf bs).satisfies t = .meetAll (bs.map (·.satisfies t)) := by
  rw [satisfies, hs, ht]
  · simp
  · exact hany

theorem satisfies_anyOf (hs : s.IsBranch) (hbs : (anyOf bs).isVacuous = false) :
    s.satisfies (.anyOf bs) = .strongest (bs.map s.satisfies) := by
  rw [satisfies, hs.not_isVacuous, hbs]
  · simp
  · rintro rfl
    exact hs.2.1 rfl
  · rintro cs rfl
    exact hs.2.2 rfl

theorem missing_satisfies_missing : missing.satisfies .missing = .must := by
  rw [satisfies]
  rfl

theorem atomic_satisfies_atomic (a b : Atomic) :
    (atomic a).satisfies (.atomic b) = if a = b then .must else .never := by
  rw [satisfies]
  rfl

theorem array_satisfies_array (x y : Schema) :
    (array x).satisfies (.array y) = x.satisfies y := by
  rw [satisfies]
  rfl

theorem document_satisfies_document (d o : Document) :
    (document d).satisfies (.document o) =
      .weakest (d.closedVerdict o
        :: o.keys.map (fun entry => (d.fieldSchema entry.1).satisfies (o.fieldSchema entry.1))
        ++ o.required.map d.requiredVerdict) := by
  have hattach := List.attach_map_val (l := o.keys)
    (f := fun entry => (d.fieldSchema entry.1).satisfies (o.fieldSchema entry.1))
  rw [satisfies]
  simp only [isVacuous, Bool.false_eq_true, if_false]
  rw [← hattach]

theorem satisfies_of_kind_ne (hs : s.IsBranch) (ht : t.IsBranch) (h : s.kind ≠ t.kind) :
    s.satisfies t = .never := by
  rw [satisfies.eq_def, hs.not_isVacuous, ht.not_isVacuous]
  cases s <;> cases t <;>
    first
    | rfl
    | exact absurd rfl h
    | exact absurd rfl hs.1
    | exact absurd rfl hs.2.1
    | exact absurd rfl hs.2.2
    | exact absurd rfl ht.1
    | exact absurd rfl ht.2.1
    | exact absurd rfl ht.2.2

/-- Being absent for sure is containment in `missing`. -/
theorem satisfies_missing (s : Schema) : s.satisfies .missing = s.absence := by
  induction s using induction_children with
  | step s ih =>
      cases s with
      | anyOf bs =>
          cases hvacuous : (anyOf bs).isVacuous with
          | true => rw [satisfies_of_isVacuous hvacuous, absence_of_isVacuous hvacuous]
          | false =>
              have hmap : bs.map (·.satisfies .missing) = bs.map absence := List.map_congr_left ih
              have hnot : areVacuous bs = false := hvacuous
              rw [anyOf_satisfies hvacuous rfl (fun h => by cases h), hmap, absence, hnot,
                absences_eq_map, if_neg Bool.false_ne_true]
      | unsat => exact satisfies_of_isVacuous rfl
      | missing => exact missing_satisfies_missing
      | any => exact any_satisfies rfl (by simp)
      | _ => exact satisfies_of_kind_ne (by simp) isBranch_missing (by simp [kind])

theorem isBranch_of_not_isVacuous (h : s.isVacuous = false) (hany : s ≠ .any)
    (hanyOf : ∀ bs, s ≠ .anyOf bs) : s.IsBranch := by
  refine isBranch_of_shape ?_ hany hanyOf
  rintro rfl
  cases h

/-- Induction along the comparisons that a verdict makes. -/
theorem satisfies_induction {motive : Schema → Schema → Prop}
    (vacuous : ∀ s t : Schema, s.isVacuous = true → motive s t)
    (intoVacuous : ∀ s t : Schema, s.isVacuous = false → t.isVacuous = true → motive s t)
    (intoAny : ∀ s, motive s .any)
    (fromAny : ∀ t : Schema, t.isVacuous = false → t ≠ .any → motive .any t)
    (fromAnyOf : ∀ (bs : List Schema) (t : Schema), (anyOf bs).isVacuous = false →
      t.isVacuous = false → t ≠ .any → (∀ b ∈ bs, motive b t) → motive (.anyOf bs) t)
    (intoAnyOf : ∀ (s : Schema) (bs : List Schema), s.IsBranch → (anyOf bs).isVacuous = false →
      (∀ b ∈ bs, motive s b) → motive s (.anyOf bs))
    (apart : ∀ s t : Schema, s.IsBranch → t.IsBranch → s.kind ≠ t.kind → motive s t)
    (missing : motive .missing .missing)
    (atomic : ∀ a b, motive (.atomic a) (.atomic b))
    (array : ∀ x y, motive x y → motive (.array x) (.array y))
    (document : ∀ d o : Document, (∀ field, o.hasKey field = true →
      motive (d.fieldSchema field) (o.fieldSchema field)) → motive (.document d) (.document o))
    (s t : Schema) : motive s t := by
  induction s, t using satisfies.induct with
  | case1 s t hs => exact vacuous s t hs
  | case2 s t hs ht => exact intoVacuous s t (Bool.eq_false_iff.2 hs) ht
  | case3 s => exact intoAny s
  | case4 t ht hany => exact fromAny t (Bool.eq_false_iff.2 ht) hany
  | case5 bs t hany hs ht ih =>
      exact fromAnyOf bs t (Bool.eq_false_iff.2 hs) (Bool.eq_false_iff.2 ht) hany ih
  | case6 s bs hany hanyOf hs hbs ih =>
      exact intoAnyOf s bs (isBranch_of_not_isVacuous (Bool.eq_false_iff.2 hs) hany hanyOf)
        (Bool.eq_false_iff.2 hbs) ih
  | case7 => exact missing
  | case8 a => exact atomic a a
  | case9 a b => exact atomic a b
  | case10 x y _ _ ih => exact array x y ih
  | case11 d o _ _ ih =>
      refine document d o fun field hfield => ?_
      obtain ⟨t, ht⟩ := Option.isSome_iff_exists.1 hfield
      exact ih field t (Document.mem_of_key? ht)
  | case12 s t hs ht hany hanyOf hany' hanyOf' hmissing hatomic harray hdocument =>
      have hsb := isBranch_of_not_isVacuous (Bool.eq_false_iff.2 hs) hany hanyOf
      have htb := isBranch_of_not_isVacuous (Bool.eq_false_iff.2 ht) hany' hanyOf'
      refine apart s t hsb htb fun hkind => ?_
      cases s with
      | missing =>
          cases t <;> cases hkind
          exact hmissing rfl rfl
      | atomic a =>
          obtain ⟨b, rfl⟩ := kind_eq_atomic hkind.symm
          exact hatomic a b rfl rfl
      | array x =>
          obtain ⟨y, rfl⟩ := kind_eq_array hkind.symm
          exact harray x y rfl rfl
      | document d =>
          obtain ⟨o, rfl⟩ := kind_eq_document hkind.symm
          exact hdocument d o rfl rfl
      | unsat => exact hsb.1 rfl
      | any => exact hsb.2.1 rfl
      | anyOf bs => exact hsb.2.2 rfl

/-! ## Containment for sure -/

/-- Every value of `s` is sure to match `t`. -/
def Within (s t : Schema) : Prop :=
  s.satisfies t = .must

theorem within_of_isVacuous (h : s.isVacuous = true) : s.Within t :=
  satisfies_of_isVacuous h

theorem Within.isVacuous (h : s.Within t) (ht : t.isVacuous = true) : s.isVacuous = true := by
  by_contra hs
  rw [Within, satisfies_of_isVacuous_right (Bool.eq_false_iff.2 hs) ht] at h
  cases h

theorem within_any (s : Schema) : s.Within .any :=
  satisfies_any s

theorem any_within_iff : any.Within t ↔ t = .any := by
  constructor
  · intro h
    by_contra hany
    cases ht : t.isVacuous with
    | true => cases h.isVacuous ht
    | false =>
        rw [Within, any_satisfies ht hany] at h
        cases h
  · rintro rfl
    exact within_any any

/-- A disjunction is within `t` if its branches are. -/
theorem anyOf_within_iff : (anyOf bs).Within t ↔ ∀ b ∈ bs, b.Within t := by
  cases hs : (anyOf bs).isVacuous with
  | true =>
      refine iff_of_true (within_of_isVacuous hs) fun b hb => within_of_isVacuous ?_
      exact isVacuous_anyOf.1 hs b hb
  | false =>
      cases ht : t.isVacuous with
      | true =>
          refine iff_of_false (fun h => ?_) (fun h => ?_)
          · rw [h.isVacuous ht] at hs
            cases hs
          · rw [isVacuous_anyOf.2 fun b hb => (h b hb).isVacuous ht] at hs
            cases hs
      | false =>
          by_cases hany : t = .any
          · subst hany
            exact iff_of_true (within_any _) fun b _ => within_any b
          · rw [Within, anyOf_satisfies hs ht hany, Verdict.meetAll_eq_must, List.forall_mem_map]
            rfl

/-- A branch is within a disjunction if it is within one of the branches there. -/
theorem within_anyOf_iff (hs : s.IsBranch) : s.Within (.anyOf bs) ↔ ∃ b ∈ bs, s.Within b := by
  cases hbs : (anyOf bs).isVacuous with
  | true =>
      have hnot := hs.not_isVacuous
      refine iff_of_false (fun h => ?_) ?_
      · rw [h.isVacuous hbs] at hnot
        cases hnot
      · rintro ⟨b, hb, h⟩
        rw [h.isVacuous (isVacuous_anyOf.1 hbs b hb)] at hnot
        cases hnot
  | false =>
      rw [Within, satisfies_anyOf hs hbs, Verdict.strongest_eq_must, List.mem_map]
      rfl

theorem Within.kind_eq (hs : s.IsBranch) (ht : t.IsBranch) (h : s.Within t) :
    s.kind = t.kind := by
  by_contra hne
  rw [Within, satisfies_of_kind_ne hs ht hne] at h
  cases h

theorem missing_within_missing : missing.Within .missing :=
  missing_satisfies_missing

theorem within_missing_iff : s.Within .missing ↔ s.absence = .must := by
  rw [Within, satisfies_missing]

theorem atomic_within_iff {a b : Atomic} : (atomic a).Within (.atomic b) ↔ a = b := by
  rw [Within, atomic_satisfies_atomic]
  split
  · exact iff_of_true rfl ‹_›
  · exact iff_of_false nofun ‹_›

theorem array_within_iff {x y : Schema} : (array x).Within (.array y) ↔ x.Within y := by
  rw [Within, array_satisfies_array, Within]

end Schema

/-! ## Document types -/

namespace Document

/-- Documents of `d` have only fields that `o` mentions. -/
structure StaysWithin (d o : Document) : Prop where
  isOpen : d.isOpen = false
  required : ∀ field, d.requires field = true → o.mentions field = true
  keys : ∀ entry ∈ d.keys, o.mentions entry.1 = true ∨ entry.2.absence = .must

/-- The documents of `d` are sure to match `o`: they stay within the fields of a
closed `o`, the fields that `o` declares fit, and what `o` requires is required. -/
structure FitsIn (d o : Document) : Prop where
  closed : o.isOpen = false → d.StaysWithin o
  declared : ∀ field, o.hasKey field = true →
    (d.fieldSchema field).Within (o.fieldSchema field)
  requires : ∀ field, o.requires field = true → d.requires field = true

private theorem any_required_eq_false {d o : Document} :
    d.required.any (fun field => !o.mentions field) = false ↔
      ∀ field, d.requires field = true → o.mentions field = true := by
  simp [List.any_eq_false, requires_iff]

private theorem any_keys_eq_false {d o : Document} :
    d.keys.any (fun (field, s) => !o.mentions field && s.absence != .must) = false ↔
      ∀ entry ∈ d.keys, o.mentions entry.1 = true ∨ entry.2.absence = .must := by
  rw [List.any_eq_false]
  refine forall₂_congr fun entry _ => ?_
  cases hmentions : o.mentions entry.1 <;> simp [hmentions]

theorem closedVerdict_eq_must {d o : Document} :
    d.closedVerdict o = .must ↔ (o.isOpen = false → d.StaysWithin o) := by
  rw [closedVerdict]
  cases hopen : o.isOpen with
  | true => exact iff_of_true rfl nofun
  | false =>
      have hstays : d.StaysWithin o ↔ d.isOpen = false ∧
          d.required.any (fun field => !o.mentions field) = false ∧
          d.keys.any (fun (field, s) => !o.mentions field && s.absence != .must) = false := by
        rw [any_required_eq_false, any_keys_eq_false]
        exact ⟨fun h => ⟨h.isOpen, h.required, h.keys⟩, fun h => ⟨h.1, h.2.1, h.2.2⟩⟩
      rw [imp_iff_right rfl, hstays, if_neg Bool.false_ne_true]
      cases d.required.any (fun field => !o.mentions field) with
      | true => exact iff_of_false nofun nofun
      | false =>
          cases d.isOpen with
          | true => exact iff_of_false nofun nofun
          | false =>
              cases d.keys.any (fun (field, s) => !o.mentions field && s.absence != .must) with
              | true => exact iff_of_false nofun nofun
              | false => exact iff_of_true rfl ⟨rfl, rfl, rfl⟩

theorem requiredVerdict_eq_must {d : Document} {field : String} :
    d.requiredVerdict field = .must ↔ d.requires field = true := by
  rw [requiredVerdict]
  split
  · exact iff_of_true rfl ‹_›
  · split
    · exact iff_of_false nofun ‹_›
    · exact iff_of_false nofun ‹_›

end Document

namespace Schema

theorem document_within_iff {d o : Document} :
    (document d).Within (.document o) ↔ d.FitsIn o := by
  rw [Within, document_satisfies_document, Verdict.weakest_eq_must, List.cons_append,
    List.forall_mem_cons, List.forall_mem_append, List.forall_mem_map, List.forall_mem_map,
    Document.closedVerdict_eq_must]
  constructor
  · rintro ⟨hclosed, hdeclared, hrequires⟩
    refine ⟨hclosed, fun field hfield => ?_, fun field hfield => ?_⟩
    · obtain ⟨t, ht⟩ := Option.isSome_iff_exists.1 hfield
      exact hdeclared _ (Document.mem_of_key? ht)
    · exact Document.requiredVerdict_eq_must.1 (hrequires field (Document.requires_iff.1 hfield))
  · intro h
    refine ⟨h.closed, fun entry hmem => ?_, fun field hmem => ?_⟩
    · exact h.declared entry.1 (Document.hasKey_of_mem hmem)
    · exact Document.requiredVerdict_eq_must.2 (h.requires field (Document.requires_iff.2 hmem))

end Schema

/-! ## Statistics do not count -/

theorem FieldMap.find?_map_bareField (keys : FieldMap Schema) (field : String) :
    FieldMap.find? (keys.map bareField) field = (FieldMap.find? keys field).map Schema.bare := by
  induction keys with
  | nil => rfl
  | cons entry rest ih =>
      obtain ⟨name, s⟩ := entry
      rw [FieldMap.find?, FieldMap.find?] at ih ⊢
      rw [List.map_cons, bareField, List.lookup_cons, List.lookup_cons, ih]
      cases field == name <;> rfl

namespace Document

variable (d o : Document) (field : String)

theorem key?_bare : d.bare.key? field = (d.key? field).map Schema.bare := by
  rw [key?, bare_keys, FieldMap.find?_map_bareField, key?]

theorem hasKey_bare : d.bare.hasKey field = d.hasKey field := by
  rw [hasKey, key?_bare, hasKey, Option.isSome_map]

theorem requires_bare : d.bare.requires field = d.requires field := by
  rw [requires, bare_required, requires]

theorem mentions_bare : d.bare.mentions field = d.mentions field := by
  rw [mentions, hasKey_bare, requires_bare, mentions]

theorem fieldSchema_bare : d.bare.fieldSchema field = (d.fieldSchema field).bare := by
  rw [fieldSchema, fieldSchema, key?_bare, requires_bare, bare_isOpen]
  cases d.key? field with
  | some s =>
      cases d.requires field with
      | true => rfl
      | false => exact s.orMissing_bare
  | none =>
      dsimp only [Option.map_none]
      split <;> rfl

private theorem provablyAbsent_bare : d.bare.provablyAbsent field = d.provablyAbsent field := by
  rw [provablyAbsent, provablyAbsent, key?_bare, requires_bare, bare_isOpen]
  cases d.key? field with
  | some s => simp
  | none => rfl

theorem requiredVerdict_bare : d.bare.requiredVerdict field = d.requiredVerdict field := by
  rw [requiredVerdict, requires_bare, provablyAbsent_bare, requiredVerdict]

theorem closedVerdict_bare : d.bare.closedVerdict o.bare = d.closedVerdict o := by
  have hkeys : (d.keys.map bareField).any
      (fun (name, s) => !o.bare.mentions name && s.absence != .must) =
      d.keys.any (fun (name, s) => !o.mentions name && s.absence != .must) := by
    rw [List.any_map]
    congr 1
    funext entry
    simp [bareField, mentions_bare]
  rw [closedVerdict, closedVerdict, bare_keys, hkeys]
  simp only [bare_isOpen, bare_required, mentions_bare]

end Document

namespace Schema

theorem isBranch_bare {s : Schema} : s.bare.IsBranch ↔ s.IsBranch := by
  rw [IsBranch, kind_bare, IsBranch]

theorem bare_eq_any {s : Schema} : s.bare = .any ↔ s = .any := by
  constructor
  · intro h
    cases s <;> first | rfl | cases h
  · rintro rfl
    rfl

/-- The verdict does not depend on the statistics of either schema. -/
theorem satisfies_bare (s t : Schema) : s.bare.satisfies t.bare = s.satisfies t := by
  induction s, t using satisfies_induction with
  | vacuous s t hs =>
      rw [satisfies_of_isVacuous hs, satisfies_of_isVacuous (by rwa [isVacuous_bare])]
  | intoVacuous s t hs ht =>
      rw [satisfies_of_isVacuous_right hs ht, satisfies_of_isVacuous_right] <;> rwa [isVacuous_bare]
  | intoAny s => exact (satisfies_any _).trans (satisfies_any _).symm
  | fromAny t ht hany =>
      rw [any_satisfies ht hany]
      exact any_satisfies (by rwa [isVacuous_bare]) (by rwa [ne_eq, bare_eq_any])
  | fromAnyOf bs t hs ht hany ih =>
      have hbare : (anyOf (bs.map bare)).isVacuous = false := by
        rwa [← bare_anyOf, isVacuous_bare]
      rw [bare_anyOf, anyOf_satisfies hs ht hany, anyOf_satisfies hbare (by rwa [isVacuous_bare])
        (by rwa [ne_eq, bare_eq_any]), List.map_map]
      exact congrArg Verdict.meetAll (List.map_congr_left ih)
  | intoAnyOf s bs hs hbs ih =>
      have hbare : (anyOf (bs.map bare)).isVacuous = false := by
        rwa [← bare_anyOf, isVacuous_bare]
      rw [bare_anyOf, satisfies_anyOf hs hbs, satisfies_anyOf (isBranch_bare.2 hs) hbare,
        List.map_map]
      exact congrArg Verdict.strongest (List.map_congr_left ih)
  | apart s t hs ht hkind =>
      rw [satisfies_of_kind_ne hs ht hkind,
        satisfies_of_kind_ne (isBranch_bare.2 hs) (isBranch_bare.2 ht) (by simpa using hkind)]
  | missing => rfl
  | atomic a b => rfl
  | array x y ih => rw [bare_array, bare_array, array_satisfies_array, array_satisfies_array, ih]
  | document d o ih =>
      have hfields : (o.keys.map bareField).map (fun entry =>
          (d.bare.fieldSchema entry.1).satisfies (o.bare.fieldSchema entry.1)) =
          o.keys.map (fun entry => (d.fieldSchema entry.1).satisfies (o.fieldSchema entry.1)) := by
        rw [List.map_map]
        refine List.map_congr_left fun entry hmem => ?_
        rw [Function.comp, bareField, Document.fieldSchema_bare, Document.fieldSchema_bare]
        exact ih entry.1 (Document.hasKey_of_mem hmem)
      have hrequired : d.bare.requiredVerdict = d.requiredVerdict :=
        funext fun field => d.requiredVerdict_bare field
      rw [bare_document, bare_document, document_satisfies_document, document_satisfies_document,
        Document.bare_keys, hfields, Document.closedVerdict_bare, hrequired,
        Document.bare_required]

theorem within_bare_iff {s t : Schema} : s.bare.Within t.bare ↔ s.Within t := by
  rw [Within, satisfies_bare, Within]

/-- Schemas that compare equal have the same containments. -/
theorem within_congr {s t s' t' : Schema} (hs : s.compare s' = .eq) (ht : t.compare t' = .eq) :
    s.Within t ↔ s'.Within t' := by
  rw [← within_bare_iff, bare_eq_of_compare_eq hs, bare_eq_of_compare_eq ht, within_bare_iff]

end Schema

end DocShape
