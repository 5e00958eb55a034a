import DocShape.Schema.Compares
import DocShape.Proofs.Preorder

/-!
# Verdicts on two operands

Comparability and shared fields do not depend on which operand comes first.
Both functions take the disjunction on the left apart before the one on the
right; since alternatives can be taken in either order, they take it apart on
the right as well.  For comparability this needs canonical schemas: `any`
answers before the other operand is taken apart, so it must not hide in a
disjunction.
-/

namespace DocShape

theorem Document.sharesField_comm (d e : Document) : d.sharesField e = e.sharesField d := by
  have hrequired : d.required.any e.requires = e.required.any d.requires := by
    rw [Bool.eq_iff_iff, List.any_eq_true, List.any_eq_true]
    simp only [requires_iff, and_comm]
  have hmentioned : d.fieldNames.any e.mentions = e.fieldNames.any d.mentions := by
    rw [Bool.eq_iff_iff, List.any_eq_true, List.any_eq_true]
    simp only [mem_fieldNames, and_comm]
  have hopen : (d.isOpen && e.isOpen || d.isOpen && !e.fieldNames.isEmpty
        || e.isOpen && !d.fieldNames.isEmpty) =
      (e.isOpen && d.isOpen || e.isOpen && !d.fieldNames.isEmpty
        || d.isOpen && !e.fieldNames.isEmpty) := by
    rw [Bool.and_comm d.isOpen e.isOpen, Bool.or_right_comm]
  rw [sharesField, sharesField, hrequired, hmentioned, hopen]

namespace Schema

variable {s t : Schema} {bs : List Schema}

/-! ## Shared fields -/

theorem anyOf_sharesField (bs : List Schema) (t : Schema) :
    (anyOf bs).sharesField t = .meetAll (bs.map fun b => b.sharesField t) := by
  rw [sharesField]
  simp

/-- The disjunction on the right is taken apart whatever stands on the left. -/
theorem sharesField_anyOf (s : Schema) (bs : List Schema) :
    s.sharesField (.anyOf bs) = .meetAll (bs.map s.sharesField) := by
  induction s using induction_children with
  | step s ih =>
      cases s with
      | anyOf as =>
          have hleft : as.map (fun a => a.sharesField (.anyOf bs)) =
              as.map fun a => .meetAll (bs.map a.sharesField) := List.map_congr_left ih
          rw [anyOf_sharesField, hleft, Verdict.meetAll_map_comm]
          exact congrArg Verdict.meetAll
            (List.map_congr_left fun b _ => (anyOf_sharesField as b).symm)
      | _ =>
          rw [sharesField]
          · simp
          · simp

theorem sharesField_comm (s t : Schema) : s.sharesField t = t.sharesField s := by
  induction s using induction_children generalizing t with
  | step s ihs =>
      induction t using induction_children with
      | step t iht =>
          by_cases hs : s.kind = .anyOf
          · obtain ⟨as, rfl⟩ := kind_eq_anyOf hs
            rw [anyOf_sharesField, sharesField_anyOf]
            exact congrArg Verdict.meetAll (List.map_congr_left fun a ha => ihs a ha t)
          · by_cases ht : t.kind = .anyOf
            · obtain ⟨bs, rfl⟩ := kind_eq_anyOf ht
              rw [anyOf_sharesField, sharesField_anyOf]
              exact congrArg Verdict.meetAll (List.map_congr_left iht)
            · cases s <;> cases t <;> simp_all [sharesField, kind, Document.sharesField_comm]

/-! ## Comparability -/

theorem comparable_of_comparesWithAll (h : s.comparesWithAll = true ∨ t.comparesWithAll = true) :
    s.comparable t = .must := by
  rw [comparable.eq_def, if_pos (Bool.or_eq_true_iff.2 h)]

theorem comparable_any (s : Schema) :
    s.comparable .any = if s.comparesWithAll then .must else .may := by
  cases h : s.comparesWithAll with
  | true => exact comparable_of_comparesWithAll (.inl h)
  | false =>
      rw [comparable.eq_def, h]
      cases s <;> rfl

theorem any_comparable (t : Schema) :
    any.comparable t = if t.comparesWithAll then .must else .may := by
  cases h : t.comparesWithAll with
  | true => exact comparable_of_comparesWithAll (.inr h)
  | false =>
      rw [comparable.eq_def, h]
      rfl

theorem IsBranch.ne_any (h : s.IsBranch) : s ≠ .any :=
  fun heq => h.2.1 (congrArg kind heq)

theorem anyOf_comparable (ht : t ≠ .any) :
    (anyOf bs).comparable t = .meetAll (bs.map fun b => b.comparable t) := by
  cases h : t.comparesWithAll with
  | true =>
      rw [comparable_of_comparesWithAll (.inr h), eq_comm, Verdict.meetAll_eq_must,
        List.forall_mem_map]
      exact fun b _ => comparable_of_comparesWithAll (.inr h)
  | false =>
      rw [comparable.eq_def, h]
      cases t <;> simp_all [comparesWithAll]

theorem comparable_anyOf_of_kind_ne (hany : s ≠ .any) (hanyOf : s.kind ≠ .anyOf) :
    s.comparable (.anyOf bs) = .meetAll (bs.map s.comparable) := by
  cases h : s.comparesWithAll with
  | true =>
      rw [comparable_of_comparesWithAll (.inl h), eq_comm, Verdict.meetAll_eq_must,
        List.forall_mem_map]
      exact fun b _ => comparable_of_comparesWithAll (.inl h)
  | false =>
      rw [comparable.eq_def, h]
      cases s <;> simp_all [comparesWithAll, kind]

/-- The disjunction on the right is taken apart whatever stands on the left, as long as `any`
does not answer first. -/
theorem Canonical.comparable_anyOf (hs : s.Canonical) (hany : s ≠ .any)
    (hbs : ∀ b ∈ bs, b ≠ .any) : s.comparable (.anyOf bs) = .meetAll (bs.map s.comparable) := by
  by_cases hanyOf : s.kind = .anyOf
  · obtain ⟨as, rfl⟩ := kind_eq_anyOf hanyOf
    have hbranch := hs.collapsible.branch
    have hleft : as.map (fun a => a.comparable (.anyOf bs)) =
        as.map fun a => .meetAll (bs.map a.comparable) := by
      refine List.map_congr_left fun a ha => ?_
      exact comparable_anyOf_of_kind_ne (hbranch a ha).ne_any (hbranch a ha).2.2
    rw [anyOf_comparable (by simp), hleft, Verdict.meetAll_map_comm]
    exact congrArg Verdict.meetAll
      (List.map_congr_left fun b hb => (anyOf_comparable (hbs b hb)).symm)
  · exact comparable_anyOf_of_kind_ne hany hanyOf

theorem array_comparable_array (x y : Schema) :
    (array x).comparable (.array y) = x.comparable y := by
  rw [comparable.eq_def]
  rfl

theorem document_comparable_document (d e : Document) :
    (document d).comparable (.document e) = .must := by
  rw [comparable.eq_def]
  rfl

private theorem atomic_comparable_comm (a b : Atomic) :
    (atomic a).comparable (.atomic b) = (atomic b).comparable (.atomic a) := by
  rw [comparable.eq_def, comparable.eq_def (.atomic b), Bool.or_comm]
  simp only [Bool.or_comm b.isOpaque, Bool.and_comm b.isNumeric, eq_comm (a := b)]

theorem IsBranch.comparable_of_kind_ne (hs : s.IsBranch) (ht : t.IsBranch) (hkind : s.kind ≠ t.kind)
    (h : s.comparesWithAll = false ∧ t.comparesWithAll = false) : s.comparable t = .never := by
  rw [comparable.eq_def, h.1, h.2]
  cases s <;> cases t <;> simp_all [IsBranch, kind]

/-- Two branches compare in either order if the items of two arrays do. -/
theorem IsBranch.comparable_comm (hs : s.IsBranch) (ht : t.IsBranch)
    (hitems : ∀ x y, s = .array x → t = .array y → x.comparable y = y.comparable x) :
    s.comparable t = t.comparable s := by
  by_cases hall : s.comparesWithAll = true ∨ t.comparesWithAll = true
  · rw [comparable_of_comparesWithAll hall, comparable_of_comparesWithAll hall.symm]
  rw [not_or, Bool.not_eq_true, Bool.not_eq_true] at hall
  by_cases hkind : s.kind = t.kind
  · cases s with
    | unsat => exact absurd rfl hs.1
    | any => exact absurd rfl hs.2.1
    | anyOf as => exact absurd rfl hs.2.2
    | missing => exact absurd hall.1 (by decide)
    | atomic a =>
        obtain ⟨b, rfl⟩ := kind_eq_atomic hkind.symm
        exact atomic_comparable_comm a b
    | array x =>
        obtain ⟨y, rfl⟩ := kind_eq_array hkind.symm
        rw [array_comparable_array, array_comparable_array]
        exact hitems x y rfl rfl
    | document d =>
        obtain ⟨e, rfl⟩ := kind_eq_document hkind.symm
        rw [document_comparable_document, document_comparable_document]
  · rw [hs.comparable_of_kind_ne ht hkind hall, ht.comparable_of_kind_ne hs (Ne.symm hkind) hall.symm]

theorem comparable_comm (hs : s.Canonical) (ht : t.Canonical) : s.comparable t = t.comparable s := by
  induction s using induction_children generalizing t with
  | step s ihs =>
      induction t using induction_children with
      | step t iht =>
          rcases cases_shape s with rfl | rfl | ⟨as, rfl⟩ | hsbranch
          · rw [comparable_of_comparesWithAll (.inl rfl), comparable_of_comparesWithAll (.inr rfl)]
          · rw [any_comparable, comparable_any]
          · -- the left disjunction is taken apart on both sides
            have hbranch := hs.collapsible.branch
            by_cases htany : t = .any
            · rw [htany, any_comparable, comparable_any]
            · rw [anyOf_comparable htany, ht.comparable_anyOf htany fun a ha => (hbranch a ha).ne_any]
              exact congrArg Verdict.meetAll
                (List.map_congr_left fun a ha => ihs a ha (hs.inside ha) ht)
          · rcases cases_shape t with rfl | rfl | ⟨bs, rfl⟩ | htbranch
            · rw [comparable_of_comparesWithAll (.inr rfl), comparable_of_comparesWithAll (.inl rfl)]
            · rw [any_comparable, comparable_any]
            · rw [anyOf_comparable hsbranch.ne_any,
                comparable_anyOf_of_kind_ne hsbranch.ne_any hsbranch.2.2]
              exact congrArg Verdict.meetAll
                (List.map_congr_left fun b hb => iht b hb (ht.inside hb))
            · refine hsbranch.comparable_comm htbranch ?_
              rintro x y rfl rfl
              exact ihs x (List.mem_singleton_self x) (canonical_array_iff.1 hs)
                (canonical_array_iff.1 ht)

/-- Two operands compare as surely in either order, if they are canonical, and share a field
as surely in either order, whatever they are. -/
theorem verdicts_symmetric :
    (∀ s t : Schema, s.Canonical → t.Canonical → s.comparable t = t.comparable s) ∧
      ∀ s t : Schema, s.sharesField t = t.sharesField s :=
  ⟨fun _ _ hs ht => comparable_comm hs ht, sharesField_comm⟩

/-- Amounts, of which a list may hold anything, against text, null and lists of numbers. -/
theorem verdicts_symmetric_amounts :
    let amount : Schema := .anyOf [.atomic .int, .array .any]
    let entry : Schema := .anyOf [.atomic .null, .atomic .string,
      .array (.anyOf [.atomic .int, .atomic .double]), .document (.ofFields [] ["id"] false)]
    amount.Canonical ∧ entry.Canonical ∧ amount.comparable entry = entry.comparable amount ∧
      amount.comparable entry = .may := by
  intro amount entry
  have hamount : amount.Canonical := by decide +kernel
  have hentry : entry.Canonical := by decide +kernel
  exact ⟨hamount, hentry, verdicts_symmetric.1 amount entry hamount hentry, by decide +kernel⟩

/-- Outside canonical form the order matters: `any` in a disjunction answers at once as the
left operand, and after the alternatives of the left one as the right operand. -/
example : (anyOf [.any]).comparable (.anyOf [.atomic .null]) = .may ∧
    (anyOf [.atomic .null]).comparable (.anyOf [.any]) = .must := by
  decide +kernel

end Schema

end DocShape
