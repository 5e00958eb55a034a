import DocShape.Proofs.Verdicts
import DocShape.Proofs.Canonical

/-!
# Vacuity and absence

Vacuous schemas match nothing, and `absence` tells how surely a value is absent.
Both see a disjunction through its branches only.
-/

namespace DocShape

namespace Schema

variable {s : Schema} {bs : List Schema}

theorem areVacuous_iff : areVacuous bs = true ↔ ∀ b ∈ bs, b.isVacuous = true := by
  induction bs with
  | nil => simp [areVacuous]
  | cons b rest ih => rw [areVacuous, Bool.and_eq_true, ih, List.forall_mem_cons]

theorem isVacuous_anyOf : (anyOf bs).isVacuous = true ↔ ∀ b ∈ bs, b.isVacuous = true :=
  areVacuous_iff

theorem absences_eq_map (bs : List Schema) : absences bs = bs.map absence := by
  induction bs with
  | nil => rfl
  | cons b rest ih => rw [absences, ih, List.map_cons]

theorem absence_of_isVacuous (h : s.isVacuous = true) : s.absence = .must := by
  cases s with
  | unsat => rfl
  | anyOf bs =>
      rw [absence]
      exact if_pos h
  | _ => cases h

theorem absence_anyOf_eq_must : (anyOf bs).absence = .must ↔ ∀ b ∈ bs, b.absence = .must := by
  rw [absence]
  split
  · rename_i hvacuous
    refine iff_of_true rfl fun b hb => absence_of_isVacuous ?_
    exact areVacuous_iff.1 hvacuous b hb
  · rw [Verdict.meetAll_eq_must, absences_eq_map, List.forall_mem_map]

theorem absence_anyOf_eq_never :
    (anyOf bs).absence = .never ↔ bs ≠ [] ∧ ∀ b ∈ bs, b.absence = .never := by
  rw [absence]
  split
  · rename_i hvacuous
    refine iff_of_false nofun ?_
    rintro ⟨hne, hnever⟩
    obtain ⟨b, hb⟩ := List.exists_mem_of_ne_nil bs hne
    have hmust := absence_of_isVacuous (areVacuous_iff.1 hvacuous b hb)
    rw [hnever b hb] at hmust
    cases hmust
  · rw [Verdict.meetAll_eq_never, absences_eq_map, List.forall_mem_map, ne_eq, List.map_eq_nil_iff]

/-! ## Branches -/

theorem IsBranch.not_isVacuous (h : s.IsBranch) : s.isVacuous = false := by
  cases s with
  | unsat => exact absurd rfl h.1
  | anyOf bs => exact absurd rfl h.2.2
  | _ => rfl

theorem IsBranch.absence (h : s.IsBranch) :
    s.absence = if s.isMissing then .must else .never := by
  cases s with
  | unsat => exact absurd rfl h.1
  | any => exact absurd rfl h.2.1
  | anyOf bs => exact absurd rfl h.2.2
  | _ => rfl

theorem absence_anyOf_eq_may {b : Schema} (h : ∀ c ∈ bs, c.IsBranch) (hmissing : .missing ∈ bs)
    (hb : b ∈ bs) (hpresent : b.isMissing = false) : (anyOf bs).absence = .may := by
  cases habsence : (anyOf bs).absence with
  | must =>
      have hmust := absence_anyOf_eq_must.1 habsence b hb
      rw [(h b hb).absence, hpresent] at hmust
      cases hmust
  | may => rfl
  | never => cases (absence_anyOf_eq_never.1 habsence).2 .missing hmissing

theorem isMissing_iff : s.isMissing = true ↔ s = .missing := by
  cases s <;> simp [isMissing]

theorem any_mem_of_any_isAny (h : bs.any isAny = true) : .any ∈ bs := by
  obtain ⟨b, hb, hany⟩ := List.any_eq_true.1 h
  cases b with
  | any => exact hb
  | _ => cases hany

/-- A field is declared with `any` or with a schema whose values are present. -/
theorem Declarable.absence (h : s.Declarable) (hcanonical : s.Canonical) :
    s = .any ∨ s.absence = .never := by
  cases s with
  | unsat => exact absurd rfl h.1
  | missing => exact absurd rfl h.ne_missing
  | any => exact Or.inl rfl
  | anyOf bs =>
      have hbs := (canonical_anyOf_iff.1 hcanonical).1
      refine Or.inr (absence_anyOf_eq_never.2 ⟨?_, fun b hb => ?_⟩)
      · rintro rfl
        exact absurd hbs.two (by simp)
      · rw [(hbs.branch b hb).absence, if_neg]
        rw [isMissing_iff]
        rintro rfl
        exact h.2 hb
  | _ => exact Or.inr rfl

theorem Declarable.absence_ne_must (h : s.Declarable) (hcanonical : s.Canonical) :
    s.absence ≠ .must := by
  rcases h.absence hcanonical with rfl | hnever
  · nofun
  · rw [hnever]
    nofun

theorem Canonical.keys_absence_ne_must {d : Document} (h : (document d).Canonical) :
    ∀ entry ∈ d.keys, entry.2.absence ≠ .must := by
  intro entry hmem
  obtain ⟨hdeclarable, hcanonical⟩ := canonical_document_iff.1 h entry hmem
  exact hdeclarable.absence_ne_must hcanonical

/-- A canonical schema without absent values can be declared. -/
theorem declarable_of_absence_eq_never (h : s.absence = .never) : s.Declarable := by
  refine ⟨?_, fun hmissing => ?_⟩
  · rintro rfl
    cases h
  · cases s with
    | anyOf bs => cases (absence_anyOf_eq_never.1 h).2 _ hmissing
    | missing => cases h
    | _ => cases List.mem_singleton.1 hmissing

/-! ## Without statistics -/

@[simp] theorem isVacuous_bare (s : Schema) : s.bare.isVacuous = s.isVacuous := by
  induction s using induction_children with
  | step s ih =>
      cases s with
      | anyOf bs =>
          rw [bare_anyOf, Bool.eq_iff_iff, isVacuous_anyOf, isVacuous_anyOf, List.forall_mem_map]
          exact forall₂_congr fun b hb => by rw [ih b hb]
      | _ => rfl

@[simp] theorem absence_bare (s : Schema) : s.bare.absence = s.absence := by
  induction s using induction_children with
  | step s ih =>
      cases s with
      | anyOf bs =>
          have hvacuous : areVacuous (bs.map bare) = areVacuous bs := by
            rw [Bool.eq_iff_iff, areVacuous_iff, areVacuous_iff, List.forall_mem_map]
            exact forall₂_congr fun b _ => by rw [isVacuous_bare]
          have hmap : bs.map (absence ∘ bare) = bs.map absence := List.map_congr_left ih
          rw [bare_anyOf, absence, absence, hvacuous, absences_eq_map, absences_eq_map,
            List.map_map, hmap]
      | _ => rfl

end Schema

end DocShape
