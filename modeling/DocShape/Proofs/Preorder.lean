import DocShape.Proofs.Containment

/-!
# Containment is a preorder

`Within` is reflexive on canonical schemas, and transitive through them.  The
middle document of a chain need not mention a field that the last one declares;
then it leaves the field open or rules it out, and the bounds still meet.
-/

namespace DocShape

namespace Schema

variable {s t u : Schema} {bs : List Schema}

/-! ## Disjunctions as lists of branches -/

theorem within_congr_left {s' : Schema} (h : s.compare s' = .eq) : s.Within t ↔ s'.Within t :=
  within_congr h Std.ReflCmp.compare_self

private theorem within_congr_right {t' : Schema} (h : t.compare t' = .eq) : s.Within t ↔ s.Within t' :=
  within_congr Std.ReflCmp.compare_self h

theorem forall_sortBranches_within :
    (∀ b ∈ sortBranches bs, b.Within t) ↔ ∀ b ∈ bs, b.Within t := by
  constructor
  · intro h b hb
    obtain ⟨c, hc, heq⟩ := exists_mem_sortBranches hb
    exact (within_congr_left heq).2 (h c hc)
  · intro h b hb
    exact h b (mem_of_mem_sortBranches hb)

theorem exists_sortBranches_within :
    (∃ b ∈ sortBranches bs, s.Within b) ↔ ∃ b ∈ bs, s.Within b := by
  constructor
  · rintro ⟨b, hb, h⟩
    exact ⟨b, mem_of_mem_sortBranches hb, h⟩
  · rintro ⟨b, hb, h⟩
    obtain ⟨c, hc, heq⟩ := exists_mem_sortBranches hb
    exact ⟨c, hc, (within_congr_right heq).1 h⟩

theorem ofBranches_within_iff : (ofBranches bs).Within t ↔ ∀ b ∈ bs, b.Within t := by
  rw [ofBranches, anyOf_within_iff, forall_sortBranches_within]

/-- A collapsed disjunction is within `t` if its branches are. -/
theorem collapse_within_iff : (collapse bs).Within t ↔ ∀ b ∈ bs, b.Within t := by
  rw [← forall_sortBranches_within, collapse]
  split
  · rename_i hany
    rw [forall_sortBranches_within, any_within_iff]
    constructor
    · rintro rfl b -
      exact within_any b
    · intro h
      exact any_within_iff.1 (h .any (any_mem_of_any_isAny hany))
  · split
    · rename_i hnil
      rw [hnil]
      exact iff_of_true (within_of_isVacuous rfl) (List.forall_mem_nil _)
    · rename_i b hsingle
      rw [hsingle, List.forall_mem_singleton]
    · exact anyOf_within_iff

/-- A branch is within a collapsed disjunction if it is within one of its branches. -/
theorem within_collapse_iff (hs : s.IsBranch) :
    s.Within (collapse bs) ↔ ∃ b ∈ bs, s.Within b := by
  rw [← exists_sortBranches_within, collapse]
  split
  · rename_i hany
    refine iff_of_true (within_any s) (exists_sortBranches_within.2 ?_)
    exact ⟨.any, any_mem_of_any_isAny hany, within_any s⟩
  · split
    · rename_i hnil
      rw [hnil]
      refine iff_of_false (fun h => ?_) (by simp)
      have hnot := hs.not_isVacuous
      rw [h.isVacuous rfl] at hnot
      cases hnot
    · rename_i b hsingle
      simp [hsingle]
    · exact within_anyOf_iff hs

/-- A field that may also be absent is within `t` if it is and absence is. -/
theorem orMissing_within_iff : s.orMissing.Within t ↔ s.Within t ∧ missing.Within t := by
  cases s with
  | any =>
      rw [orMissing, any_within_iff]
      constructor
      · rintro rfl
        exact ⟨rfl, within_any _⟩
      · exact And.left
  | missing => exact (and_self_iff).symm
  | anyOf bs =>
      rw [orMissing, ofBranches_within_iff, List.forall_mem_append, List.forall_mem_singleton,
        anyOf_within_iff]
  | _ =>
      rw [orMissing, ofBranches_within_iff, List.forall_mem_cons, List.forall_mem_singleton]
      all_goals simp

/-! ## Fields of canonical documents -/

theorem two_le_length_sortBranches {a b : Schema} (ha : a ∈ bs) (hb : b ∈ bs)
    (h : a.compare b ≠ .eq) : 2 ≤ (sortBranches bs).length := by
  obtain ⟨c, hc, hac⟩ := exists_mem_sortBranches ha
  obtain ⟨c', hc', hbc⟩ := exists_mem_sortBranches hb
  match hsort : sortBranches bs with
  | [] =>
      rw [hsort] at hc
      cases hc
  | [e] =>
      rw [hsort, List.mem_singleton] at hc hc'
      subst hc hc'
      exact absurd (Std.TransCmp.eq_trans hac (Std.OrientedCmp.eq_symm hbc)) h
  | _ :: _ :: _ => simp

theorem Collapsible.canonical_ofBranches (h : Collapsible bs)
    (htwo : 2 ≤ (sortBranches bs).length) : (ofBranches bs).Canonical := by
  rw [ofBranches, ← collapse_of_two h.branch htwo]
  exact h.canonical_collapse

theorem Canonical.orMissing (h : s.Canonical) (hdeclarable : s.Declarable) :
    s.orMissing.Canonical := by
  have hpair (hs : s.IsBranch) : (ofBranches [s, .missing]).Canonical := by
    have hsingle : Collapsible [s] := Collapsible.nil.concat hs h fun _ => rfl
    have hboth : Collapsible [s, .missing] :=
      hsingle.concat isBranch_missing canonical_missing (by simp [kind])
    refine hboth.canonical_ofBranches
      (two_le_length_sortBranches List.mem_cons_self (List.mem_cons_of_mem _ List.mem_cons_self) ?_)
    intro heq
    refine hdeclarable.ne_missing ?_
    cases s <;> first | rfl | cases heq
  cases s with
  | unsat => exact absurd rfl hdeclarable.1
  | missing => exact canonical_missing
  | any => exact canonical_any
  | anyOf bs =>
      have hbs := h.collapsible
      have hboth : Collapsible (bs ++ [.missing]) :=
        hbs.concat isBranch_missing canonical_missing (by simp [kind])
      obtain ⟨b, hb⟩ : ∃ b, b ∈ bs := by
        refine List.exists_mem_of_ne_nil bs ?_
        rintro rfl
        exact absurd (canonical_anyOf_iff.1 h).1.two (by simp)
      refine hboth.canonical_ofBranches (two_le_length_sortBranches (List.mem_append_left _ hb)
        (List.mem_append_right _ (List.mem_singleton_self _)) ?_)
      intro heq
      refine hdeclarable.2 ?_
      cases b <;> first | exact hb | cases heq
  | _ => exact hpair (by simp)

theorem Canonical.fieldSchema {d : Document} (h : (document d).Canonical) (field : String) :
    (d.fieldSchema field).Canonical := by
  rw [Document.fieldSchema]
  split
  · rename_i s hkey
    obtain ⟨hdeclarable, hcanonical⟩ := h.key hkey
    split
    · exact hcanonical
    · exact hcanonical.orMissing hdeclarable
  · split
    · exact canonical_any
    · exact canonical_missing

/-! ## Reflexivity -/

theorem Canonical.within_self (h : s.Canonical) : s.Within s := by
  induction hweight : s.weight using Nat.strongRecOn generalizing s with
  | ind weight ih =>
      subst hweight
      cases s with
      | unsat => exact within_of_isVacuous rfl
      | missing => exact missing_within_missing
      | any => exact within_any any
      | atomic a => exact atomic_within_iff.2 rfl
      | array x =>
          refine array_within_iff.2 (ih x.weight ?_ (canonical_array_iff.1 h) rfl)
          exact weight_lt_of_mem_children (List.mem_singleton_self x)
      | anyOf bs =>
          obtain ⟨hbs, hcanonical⟩ := canonical_anyOf_iff.1 h
          refine anyOf_within_iff.2 fun b hb => (within_anyOf_iff (hbs.branch b hb)).2 ⟨b, hb, ?_⟩
          exact ih b.weight (weight_lt_of_mem_children hb) (hcanonical b hb) rfl
      | document d =>
          refine document_within_iff.2 ⟨fun hclosed => ⟨hclosed, ?_, ?_⟩, ?_, fun _ h => h⟩
          · intro field hfield
            rw [Document.mentions, hfield, Bool.or_true]
          · intro entry hmem
            rw [Document.mentions, Document.hasKey_of_mem hmem, Bool.true_or]
            exact Or.inl rfl
          · intro field hfield
            refine ih _ ?_ (h.fieldSchema field) rfl
            have := Document.weight_fieldSchema_lt hfield
            simp only [weight]
            omega

/-- Making a canonical field optional widens it, to absence too. -/
theorem Canonical.within_orMissing (h : s.Canonical) (hdeclarable : s.Declarable) :
    s.Within s.orMissing ∧ missing.Within s.orMissing :=
  orMissing_within_iff.1 (h.orMissing hdeclarable).within_self

end Schema

/-! ## Transitivity -/

namespace Document

variable {d e o : Document} {field : String}

/-- A field outside a closed type is absent from the documents that fit in it. -/
theorem FitsIn.fieldSchema_within_missing (h : d.FitsIn e) (hclosed : e.isOpen = false)
    (hmentions : e.mentions field = false) : (d.fieldSchema field).Within .missing := by
  obtain ⟨hdclosed, hrequired, hkeys⟩ := h.closed hclosed
  have hrequires : d.requires field = false := by
    rw [Bool.eq_false_iff]
    intro hfield
    rw [hrequired field hfield] at hmentions
    cases hmentions
  rw [fieldSchema, hrequires, hdclosed]
  cases hkey : d.key? field with
  | none => exact Schema.missing_within_missing
  | some s =>
      refine Schema.orMissing_within_iff.2 ⟨?_, Schema.missing_within_missing⟩
      rcases hkeys _ (mem_of_key? hkey) with hfield | habsence
      · rw [hmentions] at hfield
        cases hfield
      · exact Schema.within_missing_iff.2 habsence

theorem StaysWithin.mentions (h : e.StaysWithin o)
    (hkeys : ∀ entry ∈ e.keys, entry.2.absence ≠ .must) (hfield : e.mentions field = true) :
    o.mentions field = true := by
  rw [Document.mentions, Bool.or_eq_true] at hfield
  rcases hfield with hkey | hrequires
  · obtain ⟨s, hs⟩ := Option.isSome_iff_exists.1 hkey
    have hmem := mem_of_key? hs
    exact (h.keys _ hmem).resolve_right (hkeys _ hmem)
  · exact h.required field hrequires

theorem StaysWithin.trans (h : d.StaysWithin e) (h' : e.StaysWithin o)
    (hkeys : ∀ entry ∈ e.keys, entry.2.absence ≠ .must) : d.StaysWithin o where
  isOpen := h.isOpen
  required field hfield := h'.mentions hkeys (h.required field hfield)
  keys entry hmem := (h.keys entry hmem).imp_left (h'.mentions hkeys)

/-- Chains of document types, given chains of the fields of the last one. -/
theorem FitsIn.trans (h : d.FitsIn e) (h' : e.FitsIn o)
    (hkeys : ∀ entry ∈ e.keys, entry.2.absence ≠ .must)
    (chain : ∀ field t, o.hasKey field = true → (t = e.fieldSchema field ∨ t = .missing) →
      (d.fieldSchema field).Within t → t.Within (o.fieldSchema field) →
      (d.fieldSchema field).Within (o.fieldSchema field)) : d.FitsIn o where
  closed hclosed :=
    have hstays := h'.closed hclosed
    (h.closed hstays.isOpen).trans hstays hkeys
  declared field hfield := by
    have hright := h'.declared field hfield
    cases hkey : e.hasKey field with
    | true => exact chain field _ hfield (Or.inl rfl) (h.declared field hkey) hright
    | false =>
        rw [fieldSchema_of_not_hasKey hkey] at hright
        cases hfree : e.requires field || e.isOpen with
        | true =>
            -- the middle type lets the field be anything, and so must the last
            rw [hfree, if_pos rfl, Schema.any_within_iff] at hright
            rw [hright]
            exact Schema.within_any _
        | false =>
            rw [hfree, if_neg Bool.false_ne_true] at hright
            rw [Bool.or_eq_false_iff] at hfree
            have hmentions : e.mentions field = false := by
              rw [Document.mentions, hkey, hfree.1, Bool.or_false]
            exact chain field _ hfield (Or.inr rfl)
              (h.fieldSchema_within_missing hfree.2 hmentions) hright
  requires field hfield := h.requires field (h'.requires field hfield)

end Document

namespace Schema

theorem cases_shape (s : Schema) :
    s = .unsat ∨ s = .any ∨ (∃ bs, s = .anyOf bs) ∨ s.IsBranch := by
  cases s with
  | unsat => exact Or.inl rfl
  | any => exact Or.inr (Or.inl rfl)
  | anyOf bs => exact Or.inr (Or.inr (Or.inl ⟨bs, rfl⟩))
  | _ => exact Or.inr (Or.inr (Or.inr (by simp)))

theorem IsBranch.not_within_unsat {s : Schema} (h : s.IsBranch) : ¬ s.Within .unsat := by
  intro hwithin
  have hnot := h.not_isVacuous
  rw [hwithin.isVacuous rfl] at hnot
  cases hnot

/-- Chains through canonical schemas compose, as far as their weights stay below `n`. -/
def ChainsBelow (n : Nat) : Prop :=
  ∀ {s t u : Schema}, s.weight + t.weight + u.weight < n → t.Canonical → s.Within t → t.Within u →
    s.Within u

private theorem document_within_trans {d e o : Document}
    (chain : ChainsBelow ((document d).weight + (document e).weight + (document o).weight))
    (he : (document e).Canonical) (h : (document d).Within (.document e))
    (h' : (document e).Within (.document o)) : (document d).Within (.document o) := by
  refine document_within_iff.2
    ((document_within_iff.1 h).trans (document_within_iff.1 h') he.keys_absence_ne_must ?_)
  intro field v hfield hv hdv hvo
  have hd := d.weight_fieldSchema_le field
  have ho := Document.weight_fieldSchema_lt hfield
  have hweight : v.weight ≤ e.weight + 1 := by
    rcases hv with rfl | rfl
    · exact e.weight_fieldSchema_le field
    · exact Nat.le_add_left 1 _
  have hcanonical : v.Canonical := by
    rcases hv with rfl | rfl
    · exact he.fieldSchema field
    · exact canonical_missing
  refine chain ?_ hcanonical hdv hvo
  simp only [weight]
  omega

/-- Chains of branches, which are all of one variant. -/
theorem branch_within_trans {s t u : Schema} (chain : ChainsBelow (s.weight + t.weight + u.weight))
    (hs : s.IsBranch) (ht : t.IsBranch) (hu : u.IsBranch) (hcanonical : t.Canonical)
    (h : s.Within t) (h' : t.Within u) : s.Within u := by
  have hst := h.kind_eq hs ht
  have htu := h'.kind_eq ht hu
  cases s with
  | unsat => exact absurd rfl hs.1
  | any => exact absurd rfl hs.2.1
  | anyOf bs => exact absurd rfl hs.2.2
  | missing =>
      cases t <;> cases hst
      exact h'
  | atomic a =>
      obtain ⟨b, rfl⟩ := kind_eq_atomic hst.symm
      rwa [atomic_within_iff.1 h]
  | array x =>
      obtain ⟨y, rfl⟩ := kind_eq_array hst.symm
      obtain ⟨z, rfl⟩ := kind_eq_array htu.symm
      refine array_within_iff.2 (chain ?_ (canonical_array_iff.1 hcanonical)
        (array_within_iff.1 h) (array_within_iff.1 h'))
      simp only [weight]
      omega
  | document d =>
      obtain ⟨e, rfl⟩ := kind_eq_document hst.symm
      obtain ⟨o, rfl⟩ := kind_eq_document htu.symm
      exact document_within_trans chain hcanonical h h'

private theorem chainsBelow (n : Nat) : ChainsBelow n := by
  induction n using Nat.strongRecOn with
  | ind n ih =>
      intro s t u hn ht h h'
      have chain : ChainsBelow (s.weight + t.weight + u.weight) := ih _ hn
      -- disjunctions are taken apart from the left, down to a chain of branches
      rcases cases_shape s with rfl | rfl | ⟨bs, rfl⟩ | hs
      · exact within_of_isVacuous rfl
      · rwa [any_within_iff.1 h] at h'
      · refine anyOf_within_iff.2 fun b hb => ?_
        have := weight_lt_of_mem_children (s := .anyOf bs) hb
        exact chain (by omega) ht (anyOf_within_iff.1 h b hb) h'
      · rcases cases_shape t with rfl | rfl | ⟨cs, rfl⟩ | htb
        · exact absurd h hs.not_within_unsat
        · rw [any_within_iff.1 h']
          exact within_any s
        · obtain ⟨c, hc, hsc⟩ := (within_anyOf_iff hs).1 h
          have := weight_lt_of_mem_children (s := .anyOf cs) hc
          exact chain (by omega) ((canonical_anyOf_iff.1 ht).2 c hc) hsc
            (anyOf_within_iff.1 h' c hc)
        · rcases cases_shape u with rfl | rfl | ⟨cs, rfl⟩ | hu
          · exact absurd h' htb.not_within_unsat
          · exact within_any s
          · obtain ⟨c, hc, htc⟩ := (within_anyOf_iff htb).1 h'
            have := weight_lt_of_mem_children (s := .anyOf cs) hc
            exact (within_anyOf_iff hs).2 ⟨c, hc, chain (by omega) ht h htc⟩
          · exact branch_within_trans chain hs htb hu ht h h'

theorem Within.trans {s t u : Schema} (h : s.Within t) (h' : t.Within u) (ht : t.Canonical) :
    s.Within u :=
  chainsBelow _ (Nat.lt_succ_self _) ht h h'

/-- The verdict `must` is reflexive on canonical schemas and transitive through them; of a
chain only the middle has to be canonical. -/
theorem must_reflexive_and_transitive :
    (∀ s : Schema, s.Canonical → s.satisfies s = .must) ∧
      ∀ s t u : Schema, t.Canonical → s.satisfies t = .must → t.satisfies u = .must →
        s.satisfies u = .must := by
  constructor
  · intro s hs
    exact hs.within_self
  · intro s t u ht hst htu
    exact Within.trans hst htu ht

/-- Closed records within open ones, within records that leave their only key open. -/
theorem must_reflexive_and_transitive_records :
    let s : Schema := .document (.ofFields
      [("id", .atomic .int), ("tags", .array (.atomic .string))] ["id", "owner"] false)
    let t : Schema := .document (.ofFields
      [("id", .anyOf [.atomic .int, .atomic .string])] ["id", "owner"] true)
    let u : Schema := .anyOf [.atomic .null, .document (.ofFields [("owner", .any)] ["id"] true)]
    (s.Canonical ∧ s.satisfies s = .must) ∧
      t.Canonical ∧ s.satisfies t = .must ∧ t.satisfies u = .must ∧ s.satisfies u = .must := by
  intro s t u
  have hs : s.Canonical := by decide +kernel
  have ht : t.Canonical := by decide +kernel
  have hst : s.satisfies t = .must := by decide +kernel
  have htu : t.satisfies u = .must := by decide +kernel
  exact ⟨⟨hs, must_reflexive_and_transitive.1 s hs⟩, ht, hst, htu,
    must_reflexive_and_transitive.2 s t u ht hst htu⟩

end Schema

end DocShape
