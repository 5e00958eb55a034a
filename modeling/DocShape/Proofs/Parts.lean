import DocShape.Proofs.LeastUpperBound
import DocShape.Proofs.Profile

/-!
# The parts of a join

Three parts determine a canonical schema with at most one array among its
branches: the branches that hold nothing, the items of its array, and its
document.  A join acts on each part alone.
-/

namespace DocShape

namespace Schema

/-- Disjunctions have at most one array, and documents have their fields in
order and nothing beside them. -/
def TidyHere (s : Schema) : Prop :=
  s.RegularHere ∧ s.SettledHere

instance : DecidablePred TidyHere :=
  fun s => inferInstanceAs (Decidable (s.RegularHere ∧ s.SettledHere))

theorem joinClosed_tidyHere : JoinClosed TidyHere :=
  joinClosed_regularHere.and joinClosed_settledHere

theorem Shallow.settled {n : Nat} {s : Schema} (h : Shallow TidyHere n s) :
    s.Everywhere SettledHere :=
  h.everywhere.imp fun _ h => h.2

/-! ## Without statistics -/

/-- Documents have no statistics. -/
def BareHere : Schema → Prop
  | .document d => d.jaccard = none
  | _ => True

theorem joinClosed_bareHere : JoinClosed BareHere where
  unsat := trivial
  any := trivial
  array _ := trivial
  document hd ho := joinClosed_regularHere.document hd ho
  inserted _ _ := trivial
  sorted _ := trivial
  apart _ := trivial

theorem bare_of_bareHere {s : Schema} (h : s.Everywhere BareHere) : s.bare = s := by
  induction s using induction_children with
  | step s ih =>
      cases s with
      | array x =>
          rw [bare_array, ih x (List.mem_singleton_self x) (Everywhere.array_iff.1 h).2]
      | document d =>
          obtain ⟨hhere, hkeys⟩ := Everywhere.document_iff.1 h
          have hfield : ∀ entry ∈ d.keys, bareField entry = entry := by
            intro entry hmem
            rw [bareField, ih entry.2 (List.mem_map_of_mem hmem) (hkeys entry hmem)]
          obtain ⟨keys, required, isOpen, references, jaccard⟩ := d
          have hjaccard : jaccard = none := hhere
          rw [bare_document, Document.bare, bareKeys_eq_map, hjaccard, List.map_congr_left hfield,
            List.map_id']
      | anyOf bs =>
          have hbranch : ∀ b ∈ bs, b.bare = b := fun b hb => ih b hb (h.inside hb)
          rw [bare_anyOf, List.map_congr_left hbranch, List.map_id']
      | _ => rfl

theorem SettledHere.bareHere {s : Schema} (h : s.SettledHere) : s.BareHere := by
  cases s with
  | document d => exact h.jaccard
  | _ => trivial

theorem bare_of_settled {s : Schema} (h : s.Everywhere SettledHere) : s.bare = s :=
  bare_of_bareHere (h.imp fun _ hs => hs.bareHere)

theorem eq_of_bare_eq {s t : Schema} (hs : s.Everywhere SettledHere)
    (ht : t.Everywhere SettledHere) (h : s.bare = t.bare) : s = t := by
  rwa [bare_of_settled hs, bare_of_settled ht] at h

theorem eq_of_compare_eq {s t : Schema} (hs : s.Everywhere SettledHere)
    (ht : t.Everywhere SettledHere) (h : s.compare t = .eq) : s = t :=
  eq_of_bare_eq hs ht (bare_eq_of_compare_eq h)

/-- Without statistics, sorting loses nothing but repetitions. -/
theorem mem_sortBranches_of_settled {bs : List Schema} (h : ∀ b ∈ bs, b.Everywhere SettledHere)
    {b : Schema} : b ∈ sortBranches bs ↔ b ∈ bs := by
  refine ⟨mem_of_mem_sortBranches, fun hb => ?_⟩
  obtain ⟨c, hc, heq⟩ := exists_mem_sortBranches hb
  have hcb := mem_of_mem_sortBranches hc
  rwa [eq_of_compare_eq (h b hb) (h c hcb) heq]

/-! ## Parts -/

/-- The branches that the schema brings into a disjunction. -/
def parts : Schema → List Schema
  | .unsat => []
  | .anyOf bs => bs
  | s => [s]

/-- A branch that holds no other schema. -/
def IsFlat (s : Schema) : Prop :=
  s.kind = .missing ∨ s.kind = .atomic

/-- The items of the array among the branches. -/
def arrayPart (bs : List Schema) : Option Schema :=
  (arrayItems bs).head?

def documentPart (bs : List Schema) : Option Document :=
  (documents bs).head?

/-- `out` has the flat branches of `ls` and of `rs`, and what their arrays and
their documents give together. -/
structure Blend (join : Schema → Schema → Schema) (out ls rs : List Schema) : Prop where
  flat : ∀ b : Schema, b.IsFlat → (b ∈ out ↔ b ∈ ls ∨ b ∈ rs)
  array : arrayPart out = Option.merge join (arrayPart ls) (arrayPart rs)
  document : documentPart out =
    Option.merge (Document.unionWith join) (documentPart ls) (documentPart rs)

section HeadOfOne

variable {α : Type} {xs ys : List α}

theorem head?_eq_some_iff_mem (h : xs.length ≤ 1) {x : α} : xs.head? = some x ↔ x ∈ xs := by
  cases xs with
  | nil => simp
  | cons y ys =>
      have hnil : ys = [] := by simpa using h
      simp [hnil, eq_comm]

theorem merge_head?_append {f : α → α → α} (h : (xs ++ ys).length ≤ 1) (a : Option α) :
    Option.merge f (Option.merge f a xs.head?) ys.head? =
      Option.merge f a (xs ++ ys).head? := by
  cases xs with
  | nil => simp
  | cons x xs =>
      have hnil : ys = [] := by
        rw [List.cons_append, List.length_cons, List.length_append] at h
        exact List.eq_nil_of_length_eq_zero (by omega)
      simp [hnil]

end HeadOfOne

theorem documents_append (as bs : List Schema) :
    documents (as ++ bs) = documents as ++ documents bs :=
  List.filterMap_append

theorem arrayItems_nonDocuments (bs : List Schema) :
    arrayItems (nonDocuments bs) = arrayItems bs := by
  rw [arrayItems, nonDocuments, List.filterMap_filter]
  refine List.filterMap_congr fun b _ => ?_
  cases b <;> rfl

theorem documents_nonArrays (bs : List Schema) : documents (nonArrays bs) = documents bs := by
  rw [documents, nonArrays, List.filterMap_filter]
  refine List.filterMap_congr fun b _ => ?_
  cases b <;> rfl

theorem IsFlat.kind_ne {s : Schema} (h : s.IsFlat) : s.kind ≠ .array ∧ s.kind ≠ .document := by
  rcases h with h | h <;> rw [h] <;> decide

theorem IsFlat.notMem_array {s : Schema} (h : s.IsFlat) (x : Schema) : s ∉ [array x] := by
  intro hmem
  rw [List.mem_singleton.1 hmem] at h
  exact h.kind_ne.1 rfl

theorem IsFlat.notMem_document {s : Schema} (h : s.IsFlat) (d : Document) : s ∉ [document d] := by
  intro hmem
  rw [List.mem_singleton.1 hmem] at h
  exact h.kind_ne.2 rfl

section Branches

variable {join : Schema → Schema → Schema} {n : Nat} {bs ls rs out : List Schema}

theorem ShallowBranches.oneArray (h : ShallowBranches TidyHere n bs) :
    (arrayItems bs).length ≤ 1 :=
  h.holds.1

theorem ShallowBranches.arrayPart_eq_some (h : ShallowBranches TidyHere n bs) {x : Schema} :
    arrayPart bs = some x ↔ .array x ∈ bs :=
  (head?_eq_some_iff_mem h.oneArray).trans mem_arrayItems

theorem ShallowBranches.documentPart_eq_some (h : ShallowBranches TidyHere n bs) {d : Document} :
    documentPart bs = some d ↔ .document d ∈ bs :=
  (head?_eq_some_iff_mem h.collapsible.oneDocument).trans mem_documents

/-! ## What the parts hold -/

theorem Shallow.allowed {P : Schema → Prop} (hP : JoinClosed P) {d : Document}
    (h : Shallow P (n + 1) (.document d)) {field : String} {s : Schema}
    (hs : d.allowed? field = some s) : Shallow P n s := by
  rcases Document.allowed?_cases hs with hdeclared | rfl
  · exact h.declared hP hdeclared
  · exact shallow_any hP (nest_document_lt_iff.1 h.nest).1

theorem Shallow.settledIn {d : Document} (h : Shallow TidyHere (n + 1) (.document d)) :
    d.SettledIn (Shallow TidyHere n) where
  toSettled := h.settled.here
  allowed _ _ hs := h.allowed joinClosed_tidyHere hs

theorem ShallowBranches.arrayPart (h : ShallowBranches TidyHere (n + 1) bs) :
    ∀ x ∈ Schema.arrayPart bs, Shallow TidyHere n x :=
  fun _ hx => (h.each _ (h.arrayPart_eq_some.1 hx)).item

theorem ShallowBranches.documentPart (h : ShallowBranches TidyHere (n + 1) bs) :
    ∀ d ∈ Schema.documentPart bs, d.SettledIn (Shallow TidyHere n) :=
  fun _ hd => (h.each _ (h.documentPart_eq_some.1 hd)).settledIn

theorem Canonical.collapsible_parts {s : Schema} (h : s.Canonical) (hany : s ≠ .any) :
    Collapsible s.parts := by
  cases s with
  | unsat => exact .nil
  | anyOf bs => exact h.collapsible
  | any => exact absurd rfl hany
  | missing => exact Collapsible.nil.concat isBranch_missing h fun _ => rfl
  | atomic a => exact Collapsible.nil.concat (isBranch_atomic a) h fun _ => rfl
  | array x => exact Collapsible.nil.concat (isBranch_array x) h fun _ => rfl
  | document d => exact Collapsible.nil.concat (isBranch_document d) h fun _ => rfl

theorem Shallow.of_mem_parts {P : Schema → Prop} {s b : Schema} (h : Shallow P n s)
    (hb : b ∈ s.parts) : Shallow P n b := by
  cases s with
  | unsat => exact absurd hb List.not_mem_nil
  | anyOf bs => exact h.branches.each b hb
  | _ => rwa [List.mem_singleton.1 hb]

theorem Shallow.parts {s : Schema} (h : Shallow TidyHere n s) (hany : s ≠ .any) :
    ShallowBranches TidyHere n s.parts where
  collapsible := h.canonical.collapsible_parts hany
  holds := by
    cases s with
    | unsat => exact ⟨Nat.zero_le 1, trivial⟩
    | anyOf bs => exact h.everywhere.here
    | _ => exact ⟨length_arrayItems_singleton_le _, trivial⟩
  each _ := h.of_mem_parts

theorem ascending_parts {s : Schema} (h : s.Canonical) : Ascending s.parts := by
  cases s with
  | unsat => exact List.Pairwise.nil
  | anyOf bs => exact (canonical_anyOf_iff.1 h).1.ascending
  | _ => exact List.pairwise_singleton _ _

theorem parts_of_isBranch {s : Schema} (h : s.IsBranch) : s.parts = [s] := by
  cases s with
  | unsat => exact absurd rfl h.1
  | anyOf bs => exact absurd rfl h.2.2
  | _ => rfl

theorem parts_collapse (h : ∀ b ∈ bs, b.IsBranch) :
    collapse bs ≠ .any ∧ (collapse bs).parts = Schema.sortBranches bs := by
  rw [collapse_eq h]
  split
  · rename_i hsort
    rw [hsort]
    exact ⟨fun heq => (by cases heq), rfl⟩
  · rename_i b hsort
    have hb : b.IsBranch := h b (mem_of_mem_sortBranches (hsort ▸ List.mem_singleton_self b))
    rw [hsort]
    exact ⟨fun heq => hb.2.1 (heq ▸ rfl), parts_of_isBranch hb⟩
  · exact ⟨fun heq => (by cases heq), rfl⟩

/-- Ascending branches are determined by their members. -/
theorem Ascending.eq_of_mem_iff (hls : Ascending ls) (hrs : Ascending rs)
    (h : ∀ b : Schema, b ∈ ls ↔ b ∈ rs) : ls = rs := by
  have hasymm (a b : Schema) (hab : a.compare b = .lt) : b.compare a ≠ .lt := by
    rw [Std.OrientedCmp.gt_of_lt hab]
    decide
  have : Std.Irrefl fun a b : Schema => a.compare b = .lt := ⟨fun a ha => hasymm a a ha ha⟩
  have : Std.Antisymm fun a b : Schema => a.compare b = .lt :=
    ⟨fun a b hab hba => absurd hba (hasymm a b hab)⟩
  exact List.Pairwise.eq_of_mem_iff hls hrs h

theorem collapse_parts {s : Schema} (h : s.Canonical) (hany : s ≠ .any) : collapse s.parts = s := by
  cases s with
  | unsat => rfl
  | anyOf bs =>
      obtain ⟨hbs, -⟩ := canonical_anyOf_iff.1 h
      have htwo := hbs.two
      show collapse bs = _
      rw [collapse_eq hbs.branch, sortBranches_of_ascending hbs.ascending]
      split
      · simp at htwo
      · simp at htwo
      · rfl
  | any => exact absurd rfl hany
  | _ => rfl

/-- The three parts determine the schema. -/
theorem Shallow.eq_of_parts {s t : Schema} (hs : Shallow TidyHere n s) (ht : Shallow TidyHere n t)
    (hsany : s ≠ .any) (htany : t ≠ .any)
    (hflat : ∀ b : Schema, b.IsFlat → (b ∈ s.parts ↔ b ∈ t.parts))
    (harray : Schema.arrayPart s.parts = Schema.arrayPart t.parts)
    (hdocument : Schema.documentPart s.parts = Schema.documentPart t.parts) : s = t := by
  have hsparts := hs.parts hsany
  have htparts := ht.parts htany
  have hbranches (b : Schema) (hb : b.IsBranch) : b ∈ s.parts ↔ b ∈ t.parts := by
    cases b with
    | missing => exact hflat _ (Or.inl rfl)
    | atomic a => exact hflat _ (Or.inr rfl)
    | array x => rw [← hsparts.arrayPart_eq_some, ← htparts.arrayPart_eq_some, harray]
    | document d => rw [← hsparts.documentPart_eq_some, ← htparts.documentPart_eq_some, hdocument]
    | unsat => exact absurd rfl hb.1
    | any => exact absurd rfl hb.2.1
    | anyOf bs => exact absurd rfl hb.2.2
  have hmem (b : Schema) : b ∈ s.parts ↔ b ∈ t.parts :=
    ⟨fun h => (hbranches b (hsparts.collapsible.branch b h)).1 h,
      fun h => (hbranches b (htparts.collapsible.branch b h)).2 h⟩
  have hparts := (ascending_parts hs.canonical).eq_of_mem_iff (ascending_parts ht.canonical) hmem
  rw [← collapse_parts hs.canonical hsany, hparts, collapse_parts ht.canonical htany]

end Branches

theorem blend_self {join : Schema → Schema → Schema} {n : Nat} {ls : List Schema}
    (laws : JoinLaws (Shallow TidyHere n) join) (hls : ShallowBranches TidyHere (n + 1) ls) :
    Blend join ls ls ls where
  flat _ _ := or_self_iff.symm
  array := (merge_self_of fun x hx => laws.idem (hls.arrayPart x hx)).symm
  document := (merge_self_of fun d hd =>
    (Document.fusion_unionWith join).idem laws (hls.documentPart d hd)).symm

end Schema

end DocShape
