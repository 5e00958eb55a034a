import Mathlib.Data.List.Induction
import Mathlib.Data.List.Perm.Subperm
import DocShape.Proofs.Bare

/-!
# Sorted branches

`sortBranches` gives ascending branches, keeps one of every class of equal ones
and changes nothing in a list that is ascending already.
-/

namespace DocShape

theorem subperm_filterMap {α β : Type} {as bs : List α} (h : as.Subperm bs) (f : α → Option β) :
    (as.filterMap f).Subperm (bs.filterMap f) := by
  obtain ⟨l, hperm, hsub⟩ := h
  exact (hperm.filterMap f).symm.subperm.trans (hsub.filterMap f).subperm

namespace Schema

/-- Branches in strictly increasing structural order. -/
def Ascending (bs : List Schema) : Prop :=
  bs.Pairwise fun a b => a.compare b = .lt

instance (bs : List Schema) : Decidable (Ascending bs) :=
  inferInstanceAs (Decidable (bs.Pairwise fun a b => a.compare b = .lt))

theorem sortBranches_concat (bs : List Schema) (b : Schema) :
    sortBranches (bs ++ [b]) = placeBranch b (sortBranches bs) := by
  rw [sortBranches, sortBranches, List.foldl_append, List.foldl_cons, List.foldl_nil]

theorem placeBranch_subperm (s : Schema) (bs : List Schema) :
    (placeBranch s bs).Subperm (s :: bs) := by
  induction bs with
  | nil => exact List.Subperm.refl _
  | cons b rest ih =>
      unfold placeBranch
      split
      · exact List.Subperm.refl _
      · exact (List.sublist_cons_self s (b :: rest)).subperm
      · have hcons : (b :: placeBranch s rest).Subperm (b :: s :: rest) :=
          (List.subperm_cons b).2 ih
        exact hcons.trans (List.Perm.swap s b rest).subperm

theorem sortBranches_subperm (bs : List Schema) : (sortBranches bs).Subperm bs := by
  induction bs using List.reverseRecOn with
  | nil => exact List.Subperm.refl _
  | append_singleton bs b ih =>
      rw [sortBranches_concat]
      have hplace := placeBranch_subperm b (sortBranches bs)
      have hcons : (b :: sortBranches bs).Subperm (b :: bs) := (List.subperm_cons b).2 ih
      exact hplace.trans (hcons.trans (List.perm_append_singleton b bs).symm.subperm)

theorem mem_of_mem_sortBranches {b : Schema} {bs : List Schema} (h : b ∈ sortBranches bs) :
    b ∈ bs :=
  (sortBranches_subperm bs).subset h

theorem length_filterMap_sortBranches_le {α : Type} (f : Schema → Option α) (bs : List Schema) :
    ((sortBranches bs).filterMap f).length ≤ (bs.filterMap f).length :=
  (subperm_filterMap (sortBranches_subperm bs) f).length_le

theorem mem_of_mem_placeBranch {b s : Schema} {bs : List Schema} (h : b ∈ placeBranch s bs) :
    b = s ∨ b ∈ bs :=
  List.mem_cons.1 ((placeBranch_subperm s bs).subset h)

/-- The placed branch stands in the list, or one that compares equal to it. -/
theorem exists_mem_placeBranch (s : Schema) (bs : List Schema) :
    ∃ c ∈ placeBranch s bs, s.compare c = .eq := by
  induction bs with
  | nil => exact ⟨s, List.mem_singleton_self s, Std.ReflCmp.compare_self⟩
  | cons b rest ih =>
      unfold placeBranch
      split
      · exact ⟨s, List.mem_cons_self, Std.ReflCmp.compare_self⟩
      · rename_i heq
        exact ⟨b, List.mem_cons_self, heq⟩
      · obtain ⟨c, hc, heq⟩ := ih
        exact ⟨c, List.mem_cons_of_mem b hc, heq⟩

private theorem mem_placeBranch_of_mem {b : Schema} (s : Schema) {bs : List Schema} (h : b ∈ bs) :
    b ∈ placeBranch s bs := by
  induction bs with
  | nil => cases h
  | cons head rest ih =>
      unfold placeBranch
      split
      · exact List.mem_cons_of_mem s h
      · exact h
      · rcases List.mem_cons.1 h with rfl | hrest
        · exact List.mem_cons_self
        · exact List.mem_cons_of_mem head (ih hrest)

/-- Sorting loses a branch only to one that compares equal to it. -/
theorem exists_mem_sortBranches {b : Schema} {bs : List Schema} (h : b ∈ bs) :
    ∃ c ∈ sortBranches bs, b.compare c = .eq := by
  induction bs using List.reverseRecOn with
  | nil => cases h
  | append_singleton bs a ih =>
      rw [sortBranches_concat]
      rcases List.mem_append.1 h with hmem | hlast
      · obtain ⟨c, hc, heq⟩ := ih hmem
        exact ⟨c, mem_placeBranch_of_mem a hc, heq⟩
      · rw [List.mem_singleton.1 hlast]
        exact exists_mem_placeBranch a (sortBranches bs)

theorem Ascending.placeBranch {bs : List Schema} (h : Ascending bs) (s : Schema) :
    Ascending (placeBranch s bs) := by
  induction bs with
  | nil => exact List.pairwise_singleton _ _
  | cons b rest ih =>
      obtain ⟨hb, hrest⟩ := List.pairwise_cons.1 h
      unfold Schema.placeBranch
      split
      · rename_i hlt
        refine List.pairwise_cons.2 ⟨?_, h⟩
        intro c hc
        rcases List.mem_cons.1 hc with rfl | hc
        · exact hlt
        · exact Std.TransCmp.lt_trans hlt (hb c hc)
      · exact h
      · rename_i hgt
        refine List.pairwise_cons.2 ⟨?_, ih hrest⟩
        intro c hc
        rcases mem_of_mem_placeBranch hc with rfl | hc
        · exact Std.OrientedCmp.lt_of_gt hgt
        · exact hb c hc

theorem ascending_sortBranches (bs : List Schema) : Ascending (sortBranches bs) := by
  induction bs using List.reverseRecOn with
  | nil => exact List.Pairwise.nil
  | append_singleton bs b ih =>
      rw [sortBranches_concat]
      exact ih.placeBranch b

private theorem placeBranch_of_forall_lt {s : Schema} {bs : List Schema}
    (h : ∀ b ∈ bs, b.compare s = .lt) : placeBranch s bs = bs ++ [s] := by
  induction bs with
  | nil => rfl
  | cons b rest ih =>
      obtain ⟨hb, hrest⟩ := List.forall_mem_cons.1 h
      rw [placeBranch, Std.OrientedCmp.gt_of_lt hb, ih hrest, List.cons_append]

theorem sortBranches_of_ascending {bs : List Schema} (h : Ascending bs) :
    sortBranches bs = bs := by
  induction bs using List.reverseRecOn with
  | nil => rfl
  | append_singleton bs b ih =>
      obtain ⟨hbs, -, hlt⟩ := List.pairwise_append.1 h
      rw [sortBranches_concat, ih hbs]
      exact placeBranch_of_forall_lt fun a ha => hlt a ha b (List.mem_singleton_self b)

/-! ## Without statistics -/

private theorem placeBranch_bare (s : Schema) (bs : List Schema) :
    placeBranch s.bare (bs.map bare) = (placeBranch s bs).map bare := by
  induction bs with
  | nil => rfl
  | cons b rest ih =>
      rw [List.map_cons, placeBranch, placeBranch, compare_bare_left, compare_bare_right]
      split
      · rfl
      · rfl
      · rw [ih, List.map_cons]

theorem sortBranches_bare (bs : List Schema) :
    sortBranches (bs.map bare) = (sortBranches bs).map bare := by
  induction bs using List.reverseRecOn with
  | nil => rfl
  | append_singleton bs b ih =>
      rw [List.map_append, List.map_singleton, sortBranches_concat, sortBranches_concat, ih,
        placeBranch_bare]

theorem ofBranches_bare (bs : List Schema) : ofBranches (bs.map bare) = (ofBranches bs).bare := by
  rw [ofBranches, ofBranches, sortBranches_bare, bare_anyOf]

theorem orMissing_bare (s : Schema) : s.bare.orMissing = s.orMissing.bare := by
  cases s with
  | anyOf bs =>
      rw [bare_anyOf, orMissing, orMissing, ← ofBranches_bare, List.map_append]
      rfl
  | any => rfl
  | missing => rfl
  | _ => exact ofBranches_bare [_, missing]

end Schema

end DocShape
