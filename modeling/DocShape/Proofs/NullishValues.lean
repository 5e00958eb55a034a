import DocShape.Proofs.Semantics

/-!
# The values that a subtraction leaves

Removing branches from a disjunction, nested ones included, leaves the values of
the leaves that were not selected.  What is left of a schema without its null
and absent branches has no null and no absent value, unless `any` is among the
leaves.
-/

namespace DocShape

open Bson (Value)

namespace Schema

variable {s y : Schema} {v : Option Value} {drop : Schema → Bool} {bs : List Schema}

section Subtract

variable (hdrop : SelectsLeaves drop)

include hdrop

/-- Inside a disjunction a branch is reduced like a schema of its own. -/
theorem SelectsLeaves.subtract_eq (s : Schema) :
    s.subtract drop = if drop (s.subtractNested drop) then .unsat else s.subtractNested drop := by
  cases s with
  | anyOf bs =>
      have hkept : drop ((Schema.anyOf bs).subtractNested drop) = false :=
        hdrop.drop_subtract (.anyOf bs)
      rw [hkept]
      rfl
  | _ => rfl

theorem SelectsLeaves.anyOf_subtract_matches_iff :
    ((Schema.anyOf bs).subtract drop).Matches v ↔ ∃ b ∈ bs, (b.subtract drop).Matches v := by
  rw [subtract, collapse_matches_iff]
  simp only [mem_subtractBranches, hdrop.subtract_eq]
  constructor
  · rintro ⟨_, ⟨⟨b, hb, rfl⟩, hkept, -⟩, hv⟩
    refine ⟨b, hb, ?_⟩
    rwa [hkept]
  · rintro ⟨b, hb, hv⟩
    split at hv
    · exact absurd hv not_unsat_matches
    · rename_i hkept
      refine ⟨_, ⟨⟨b, hb, rfl⟩, Bool.eq_false_iff.2 hkept, Bool.eq_false_iff.2 ?_⟩, hv⟩
      exact fun hvacuous => not_matches_of_isVacuous hvacuous hv

/-- A subtraction leaves the values of the leaves that it does not select. -/
theorem SelectsLeaves.subtract_matches_iff :
    (s.subtract drop).Matches v ↔ ∃ y ∈ s.leaves, drop y = false ∧ y.Matches v := by
  induction s using induction_children with
  | step s ih =>
      rcases s.isLeaf_or with hleaf | rfl | ⟨bs, rfl⟩
      · have hsubtract : s.subtract drop = if drop s then .unsat else s := by
          cases s with
          | anyOf bs => exact absurd rfl hleaf.2
          | _ => rfl
        rw [hsubtract, hleaf.leaves]
        cases hselected : drop s <;> simp [hselected, not_unsat_matches]
      · simp [subtract, leaves, not_unsat_matches]
      · rw [hdrop.anyOf_subtract_matches_iff]
        simp only [leaves_anyOf, List.mem_flatMap]
        constructor
        · rintro ⟨b, hb, hv⟩
          obtain ⟨y, hy, hkept⟩ := (ih b hb).1 hv
          exact ⟨y, ⟨b, hb, hy⟩, hkept⟩
        · rintro ⟨y, ⟨b, hb, hy⟩, hkept⟩
          exact ⟨b, hb, (ih b hb).2 ⟨y, hy, hkept⟩⟩

end Subtract

/-! ## Null and absent values -/

private theorem selectsLeaves_nullish : SelectsLeaves fun b => b.isMissing || b.isAtomic .null :=
  ⟨rfl, rfl, fun _ => rfl⟩

private theorem atomic?_eq_null_iff {w : Value} : w.type.atomic? = some .null ↔ w = .null := by
  cases w <;> simp [Value.type, Bson.ElementType.atomic?]

/-- A leaf other than `any` is null or absent if one of its values is. -/
theorem Matches.nullish_iff (hv : y.Matches v) (hleaf : y.IsLeaf) (hany : y ≠ .any) :
    (y.isMissing || y.isAtomic .null) = true ↔ v = none ∨ v = some .null := by
  cases hv with
  | missing => simp [isMissing]
  | any => exact absurd rfl hany
  | @atomic a w kind =>
      have hnull : a = .null ↔ w = .null := by
        rw [← atomic?_eq_null_iff, kind, Option.some_inj]
      simp [isMissing, isAtomic, ← hnull, eq_comm]
  | array => simp [isMissing, isAtomic]
  | document => simp [isMissing, isAtomic]
  | anyOf => exact absurd rfl hleaf.2

/-- Subtraction removes exactly null and absence, at any depth of disjunctions: every
other value stays, and unless `any` is a leaf nothing but these values does. -/
theorem subtractNullish_removes_exactly (s : Schema) (v : Option Value) :
    (s.Matches v → v ≠ none → v ≠ some .null → s.subtractNullish.Matches v) ∧
      (.any ∉ s.leaves → s.subtractNullish.Matches v →
        s.Matches v ∧ v ≠ none ∧ v ≠ some .null) := by
  have hkept : s.subtractNullish.Matches v ↔
      ∃ y ∈ s.leaves, (y.isMissing || y.isAtomic .null) = false ∧ y.Matches v :=
    selectsLeaves_nullish.subtract_matches_iff
  constructor
  · intro hv hpresent hnull
    obtain ⟨y, hy, hyv⟩ := matches_iff_leaf.1 hv
    refine hkept.2 ⟨y, hy, ?_, hyv⟩
    by_cases hany : y = .any
    · rw [hany]
      rfl
    · rw [← Bool.not_eq_true, hyv.nullish_iff (isLeaf_of_mem_leaves hy) hany]
      exact not_or.2 ⟨hpresent, hnull⟩
  · intro hany hv
    obtain ⟨y, hy, hselected, hyv⟩ := hkept.1 hv
    have hne : y ≠ .any := fun h => hany (h ▸ hy)
    rw [← Bool.not_eq_true, hyv.nullish_iff (isLeaf_of_mem_leaves hy) hne, not_or] at hselected
    exact ⟨matches_iff_leaf.2 ⟨y, hy, hyv⟩, hselected⟩

/-- Optional amounts: lists of nulls stay and null goes, below empty branches too. -/
theorem subtractNullish_removes_exactly_amounts :
    let amount : Schema := .anyOf [.missing, .atomic .int,
      .anyOf [.unsat, .atomic .null, .anyOf [], .anyOf [.array (.atomic .null)]]]
    .any ∉ amount.leaves ∧ amount.Matches (some (.array [.null])) ∧
      amount.subtractNullish.Matches (some (.array [.null])) ∧ amount.Matches (some .null) ∧
      ¬ amount.subtractNullish.Matches (some .null) := by
  intro amount
  have hleaves : amount.leaves = [.missing, .atomic .int, .atomic .null, .array (.atomic .null)] :=
    rfl
  have hany : .any ∉ amount.leaves := by simp [hleaves]
  have hlist : amount.Matches (some (.array [.null])) := by
    refine matches_iff_leaf.2 ⟨.array (.atomic .null), by simp [hleaves], ?_⟩
    exact .array (List.forall_mem_singleton.2 (.atomic rfl))
  have hnull : amount.Matches (some .null) :=
    matches_iff_leaf.2 ⟨.atomic .null, by simp [hleaves], .atomic rfl⟩
  refine ⟨hany, hlist, ?_, hnull, fun h => ?_⟩
  · exact (subtractNullish_removes_exactly amount _).1 hlist (by simp) (by simp)
  · exact ((subtractNullish_removes_exactly amount _).2 hany h).2.2 rfl

end Schema

end DocShape
