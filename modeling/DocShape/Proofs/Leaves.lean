import Mathlib.Data.List.Flatten
import DocShape.Proofs.Semilattice

/-!
# Leaves of disjunctions

`leaves` unrolls nested disjunctions.  Collapsing branches and removing absent
values see a schema through its leaves, and lose leaves only to `any`.
-/

namespace DocShape

mutual

/-- The schemas that a nested disjunction is made of; `unsat` adds none. -/
def Schema.leaves : Schema → List Schema
  | .unsat => []
  | .anyOf bs => branchesLeaves bs
  | s => [s]
termination_by structural s => s

/-- The leaves of the branches, in order. -/
def branchesLeaves : List Schema → List Schema
  | [] => []
  | b :: rest => b.leaves ++ branchesLeaves rest
termination_by structural bs => bs

end

private theorem branchesLeaves_eq (bs : List Schema) : branchesLeaves bs = bs.flatMap Schema.leaves := by
  induction bs with
  | nil => rfl
  | cons b rest ih => rw [branchesLeaves, ih, List.flatMap_cons]

section Subperm

variable {α β : Type} {as bs : List α} {f g : α → List β}

theorem subperm_flatMap (h : as.Subperm bs) (f : α → List β) :
    (as.flatMap f).Subperm (bs.flatMap f) := by
  obtain ⟨l, hperm, hsub⟩ := h
  exact (hperm.flatMap_right f).symm.subperm.trans (hsub.flatMap f).subperm

theorem subperm_map (h : as.Subperm bs) (f : α → β) : (as.map f).Subperm (bs.map f) := by
  rw [← List.filterMap_eq_map]
  exact subperm_filterMap h _

theorem subperm_flatMap_of_forall (h : ∀ a ∈ as, (f a).Subperm (g a)) :
    (as.flatMap f).Subperm (as.flatMap g) := by
  induction as with
  | nil => exact List.Subperm.refl _
  | cons a as ih =>
      obtain ⟨ha, has⟩ := List.forall_mem_cons.1 h
      rw [List.flatMap_cons, List.flatMap_cons]
      exact ha.append (ih has)

end Subperm

namespace Schema

@[simp] theorem leaves_anyOf (bs : List Schema) : (anyOf bs).leaves = bs.flatMap leaves :=
  branchesLeaves_eq bs

/-- A schema that no disjunction is unrolled into. -/
def IsLeaf (s : Schema) : Prop :=
  s.kind ≠ .unsat ∧ s.kind ≠ .anyOf

theorem IsLeaf.leaves {s : Schema} (h : s.IsLeaf) : s.leaves = [s] := by
  cases s with
  | unsat => exact absurd rfl h.1
  | anyOf bs => exact absurd rfl h.2
  | _ => rfl

theorem IsLeaf.mem_leaves {s : Schema} (h : s.IsLeaf) : s ∈ s.leaves := by
  rw [h.leaves]
  exact List.mem_singleton_self s

theorem mem_leaves_anyOf {bs : List Schema} {b y : Schema} (hb : b ∈ bs) (hy : y ∈ b.leaves) :
    y ∈ (anyOf bs).leaves := by
  rw [leaves_anyOf]
  exact List.mem_flatMap.2 ⟨b, hb, hy⟩

theorem isLeaf_or (s : Schema) : s.IsLeaf ∨ s = .unsat ∨ ∃ bs, s = .anyOf bs := by
  cases s with
  | unsat => exact Or.inr (Or.inl rfl)
  | anyOf bs => exact Or.inr (Or.inr ⟨bs, rfl⟩)
  | _ => exact Or.inl (by simp [IsLeaf, kind])

/-- Being a leaf goes from branches to disjunctions. -/
theorem leaf_induction {y : Schema} {motive : (s : Schema) → y ∈ s.leaves → Prop}
    (leaf : ∀ hy, y.IsLeaf → motive y hy)
    (branch : ∀ bs b, b ∈ bs → ∀ (hy : y ∈ b.leaves) (h : y ∈ (anyOf bs).leaves),
      motive b hy → motive (anyOf bs) h)
    (s : Schema) (hy : y ∈ s.leaves) : motive s hy := by
  induction s using induction_children with
  | step s ih =>
      rcases s.isLeaf_or with hleaf | rfl | ⟨bs, rfl⟩
      · have heq := hy
        rw [hleaf.leaves, List.mem_singleton] at heq
        subst heq
        exact leaf hy hleaf
      · cases hy
      · have hmem := hy
        rw [leaves_anyOf, List.mem_flatMap] at hmem
        obtain ⟨b, hb, hmem⟩ := hmem
        exact branch bs b hb hmem hy (ih b hb hmem)

@[simp] theorem leaves_bare (s : Schema) : s.bare.leaves = s.leaves.map bare := by
  induction s using induction_children with
  | step s ih =>
      cases s with
      | anyOf bs =>
          rw [bare_anyOf, leaves_anyOf, leaves_anyOf, List.flatMap_map, List.map_flatMap]
          exact List.flatMap_congr ih
      | _ => rfl

theorem isLeaf_of_mem_leaves {s y : Schema} (h : y ∈ s.leaves) : y.IsLeaf := by
  induction s, h using leaf_induction with
  | leaf _ hleaf => exact hleaf
  | branch _ _ _ _ _ ih => exact ih

private theorem weight_le_of_mem_leaves {s y : Schema} (h : y ∈ s.leaves) : y.weight ≤ s.weight := by
  induction s, h using leaf_induction with
  | leaf => exact Nat.le_refl _
  | branch bs b hb _ _ ih =>
      exact Nat.le_trans ih (Nat.le_of_lt (weight_lt_of_mem_children hb))

theorem weight_lt_of_mem_leaves {bs : List Schema} {y : Schema} (h : y ∈ (anyOf bs).leaves) :
    y.weight < (anyOf bs).weight := by
  rw [leaves_anyOf, List.mem_flatMap] at h
  obtain ⟨b, hb, hy⟩ := h
  exact Nat.lt_of_le_of_lt (weight_le_of_mem_leaves hy) (weight_lt_of_mem_children hb)

/-! ## Properties of leaves -/

section Hereditary

variable {P : Schema → Prop} {s t y : Schema}

theorem Everywhere.of_mem_leaves (h : s.Everywhere P) (hy : y ∈ s.leaves) : y.Everywhere P := by
  induction s, hy using leaf_induction with
  | leaf => exact h
  | branch bs b hb _ _ ih => exact ih (h.inside hb)

/-- A property that a disjunction has if its leaves are some of those of a schema
with the property. -/
structure Hereditary (P : Schema → Prop) : Prop where
  unsat : P .unsat
  anyOf : ∀ {s bs}, P s → (anyOf bs).leaves.Subperm s.leaves → P (.anyOf bs)

theorem Hereditary.everywhere (hP : Hereditary P) (h : s.Everywhere P)
    (hleaves : t.leaves.Subperm s.leaves) : t.Everywhere P := by
  induction t using induction_children with
  | step t ih =>
      cases t with
      | unsat => exact .leaf hP.unsat rfl
      | anyOf bs =>
          refine Everywhere.anyOf_iff.2 ⟨hP.anyOf h.here hleaves, fun b hb => ih b hb ?_⟩
          rw [leaves_anyOf] at hleaves
          have hbranch := (List.singleton_sublist.2 hb).flatMap leaves
          rw [List.flatMap_singleton] at hbranch
          exact hbranch.subperm.trans hleaves
      | _ => exact h.of_mem_leaves (hleaves.subset (List.mem_singleton_self _))

theorem hereditary_settledHere : Hereditary SettledHere :=
  ⟨trivial, fun _ _ => trivial⟩

end Hereditary

/-! ## Collapsing and removing absent values -/

theorem leaves_collapse_subperm (bs : List Schema) :
    (collapse bs).leaves.Subperm (bs.flatMap leaves) := by
  have hsorted := subperm_flatMap (sortBranches_subperm bs) leaves
  unfold collapse
  split
  · rename_i hany
    show List.Subperm [any] _
    rw [List.singleton_subperm_iff, List.mem_flatMap]
    exact ⟨.any, any_mem_of_any_isAny hany, List.mem_singleton_self _⟩
  · split
    · exact List.nil_subperm
    · rename_i b hsort
      rwa [hsort, List.flatMap_singleton] at hsorted
    · rw [leaves_anyOf]
      exact hsorted

/-- Collapsing loses leaves only to `any` and to leaves that differ in statistics. -/
theorem exists_mem_leaves_collapse {bs : List Schema} {y : Schema} (hy : y ∈ bs.flatMap leaves) :
    .any ∈ (collapse bs).leaves ∨ ∃ z ∈ (collapse bs).leaves, z.bare = y.bare := by
  have hsorted : ∃ z ∈ (sortBranches bs).flatMap leaves, z.bare = y.bare := by
    obtain ⟨b, hb, hy⟩ := List.mem_flatMap.1 hy
    obtain ⟨c, hc, heq⟩ := exists_mem_sortBranches hb
    have hleaves : b.leaves.map bare = c.leaves.map bare := by
      rw [← leaves_bare, bare_eq_of_compare_eq heq, leaves_bare]
    obtain ⟨z, hz, hzy⟩ := List.mem_map.1 (hleaves ▸ List.mem_map_of_mem hy)
    exact ⟨z, List.mem_flatMap.2 ⟨c, hc, hz⟩, hzy⟩
  unfold collapse
  split
  · exact Or.inl (List.mem_singleton_self _)
  · right
    split
    · rename_i hsort
      rw [hsort] at hsorted
      obtain ⟨z, hz, -⟩ := hsorted
      cases hz
    · rename_i b hsort
      rwa [hsort, List.flatMap_singleton] at hsorted
    · rwa [leaves_anyOf]

theorem mem_leaves_collapse {bs : List Schema} (hbs : ∀ b ∈ bs, b.Everywhere SettledHere)
    {y : Schema} (hy : y ∈ bs.flatMap leaves) :
    .any ∈ (collapse bs).leaves ∨ y ∈ (collapse bs).leaves := by
  have hsettled {z : Schema} (hz : z ∈ bs.flatMap leaves) : z.Everywhere SettledHere := by
    obtain ⟨b, hb, hz⟩ := List.mem_flatMap.1 hz
    exact (hbs b hb).of_mem_leaves hz
  refine (exists_mem_leaves_collapse hy).imp_right ?_
  rintro ⟨z, hz, heq⟩
  rwa [← eq_of_bare_eq (hsettled ((leaves_collapse_subperm bs).subset hz)) (hsettled hy) heq]

theorem leaves_of_isVacuous {s : Schema} (h : s.isVacuous = true) : s.leaves = [] := by
  induction s using induction_children with
  | step s ih =>
      cases s with
      | unsat => rfl
      | anyOf bs =>
          rw [leaves_anyOf, List.flatMap_eq_nil_iff]
          exact fun b hb => ih b hb (isVacuous_anyOf.1 h b hb)
      | _ => cases h

section Subtract

variable {drop : Schema → Bool} {bs : List Schema} {c : Schema}

private theorem subtractBranches_eq (drop : Schema → Bool) (bs : List Schema) :
    subtractBranches drop bs =
      (bs.map (subtractNested drop)).filter fun c => !(drop c || c.isVacuous) := by
  induction bs with
  | nil => rfl
  | cons b rest ih =>
      rw [subtractBranches, List.map_cons, List.filter_cons, ← ih]
      cases drop (b.subtractNested drop) || (b.subtractNested drop).isVacuous <;> rfl

theorem mem_subtractBranches : c ∈ subtractBranches drop bs ↔
    (∃ b ∈ bs, b.subtractNested drop = c) ∧ drop c = false ∧ c.isVacuous = false := by
  rw [subtractBranches_eq, List.mem_filter, List.mem_map, Bool.not_eq_true',
    Bool.or_eq_false_iff]

/-- A selection of leaves: it passes over `unsat`, `any` and whole disjunctions. -/
structure SelectsLeaves (drop : Schema → Bool) : Prop where
  unsat : drop .unsat = false
  any : drop .any = false
  anyOf : ∀ bs, drop (.anyOf bs) = false

private theorem selectsLeaves_isMissing : SelectsLeaves isMissing :=
  ⟨rfl, rfl, fun _ => rfl⟩

/-- What a subtraction leaves is not selected again. -/
theorem SelectsLeaves.drop_subtract (hdrop : SelectsLeaves drop) (s : Schema) :
    drop (s.subtract drop) = false := by
  have hleaf (t : Schema) : drop (if drop t then .unsat else t) = false := by
    split
    · exact hdrop.unsat
    · exact Bool.eq_false_iff.2 ‹_›
  cases s with
  | anyOf bs =>
      rw [subtract, collapse]
      split
      · exact hdrop.any
      · split
        · exact hdrop.unsat
        · rename_i b hsort
          have hb : b ∈ subtractBranches drop bs :=
            mem_of_mem_sortBranches (hsort ▸ List.mem_singleton_self b)
          exact (mem_subtractBranches.1 hb).2.1
        · exact hdrop.anyOf _
  | _ => exact hleaf _

end Subtract

private theorem isMissing_present (s : Schema) : s.present.isMissing = false :=
  selectsLeaves_isMissing.drop_subtract s

theorem leaves_subtractBranches (bs : List Schema) :
    (subtractBranches isMissing bs).flatMap leaves = bs.flatMap fun b => b.present.leaves := by
  induction bs with
  | nil => rfl
  | cons b rest ih =>
      have hpresent : (if (b.subtractNested isMissing).isMissing ||
          (b.subtractNested isMissing).isVacuous then []
          else (b.subtractNested isMissing).leaves) = b.present.leaves := by
        cases b with
        | anyOf cs =>
            have hnested : (anyOf cs).subtractNested isMissing = (anyOf cs).present := rfl
            rw [hnested, isMissing_present, Bool.false_or]
            split
            · rename_i hvacuous
              rw [leaves_of_isVacuous hvacuous]
            · rfl
        | _ => rfl
      rw [subtractBranches, List.flatMap_cons, ← hpresent]
      split
      · rw [ih, List.nil_append]
      · rw [List.flatMap_cons, ih]

theorem leaves_present_subperm (s : Schema) :
    s.present.leaves.Subperm (s.leaves.filter fun y => !y.isMissing) := by
  induction s using induction_children with
  | step s ih =>
      cases s with
      | anyOf bs =>
          have hparts := subperm_flatMap_of_forall ih
          rw [leaves_anyOf, List.filter_flatMap]
          rw [← leaves_subtractBranches] at hparts
          exact (leaves_collapse_subperm _).trans hparts
      | unsat | missing => exact List.nil_subperm
      | _ => exact List.Subperm.refl _

/-- Removing absent values keeps the other leaves, statistics aside, unless `any`
absorbs them. -/
theorem exists_mem_leaves_present {s y : Schema} (hy : y ∈ s.leaves)
    (hpresent : y.isMissing = false) :
    .any ∈ s.present.leaves ∨ ∃ z ∈ s.present.leaves, z.bare = y.bare := by
  induction s using induction_children with
  | step s ih =>
      cases s with
      | anyOf bs =>
          rw [leaves_anyOf, List.mem_flatMap] at hy
          obtain ⟨b, hb, hy⟩ := hy
          have hmem {z : Schema} (hz : z ∈ b.present.leaves) :
              .any ∈ (anyOf bs).present.leaves ∨
                ∃ w ∈ (anyOf bs).present.leaves, w.bare = z.bare := by
            refine exists_mem_leaves_collapse ?_
            rw [leaves_subtractBranches]
            exact List.mem_flatMap.2 ⟨b, hb, hz⟩
          rcases ih b hb hy with hany | ⟨z, hz, hzy⟩
          · refine Or.inl ((hmem hany).elim id ?_)
            rintro ⟨w, hw, hbare⟩
            rwa [bare_eq_any.1 hbare] at hw
          · refine (hmem hz).imp_right ?_
            rintro ⟨w, hw, hwz⟩
            exact ⟨w, hw, hwz.trans hzy⟩
      | unsat => cases hy
      | missing =>
          rw [List.mem_singleton.1 hy] at hpresent
          cases hpresent
      | _ => exact Or.inr ⟨y, hy, rfl⟩

theorem mem_leaves_present {s y : Schema} (hs : s.Everywhere SettledHere) (hy : y ∈ s.leaves)
    (hpresent : y.isMissing = false) : .any ∈ s.present.leaves ∨ y ∈ s.present.leaves := by
  refine (exists_mem_leaves_present hy hpresent).imp_right ?_
  rintro ⟨z, hz, heq⟩
  have hleaf : z ∈ s.leaves := List.mem_of_mem_filter ((leaves_present_subperm s).subset hz)
  rwa [← eq_of_bare_eq (hs.of_mem_leaves hleaf) (hs.of_mem_leaves hy) heq]

end Schema

end DocShape
