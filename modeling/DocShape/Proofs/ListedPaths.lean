import DocShape.Proofs.CommonValues
import DocShape.Proofs.TopLevelFields

/-!
# Listed paths

A listing of field paths is compared with the paths that values have.  `Reaches`
says which schemas are met on the way down, `Lists` which paths are listed, and
`HasPath` which paths a value has.  A listing fails exactly if it meets fields
without names; otherwise every listed path is one of some value, and every path
of a value that the bound cuts off, or that ends before a document, is listed.
-/

namespace DocShape

open Bson (Value Fields)

/-- The path leads from the value to a value inside it. -/
inductive Bson.Value.HasPath : Value → FieldPath → Value → Prop where
  | here {v : Value} : HasPath v [] v
  | field {fields : Fields} {name : String} {v w : Value} {rest : FieldPath}
      (mem : (name, v) ∈ fields) (below : HasPath v rest w) :
      HasPath (.document fields) (name :: rest) w

/-! ## Sorted listings -/

namespace FieldPath

instance : Std.TransCmp FieldPath.compare where
  eq_swap {_ _} := (compareLists_swap (fun _ _ _ => Std.OrientedOrd.eq_swap.symm) _).symm
  isLE_trans {_ _ _} := (compareLists_chains (fun a _ => Chains.of_cmp a) _ _).isLE

/-- Paths in strictly increasing order. -/
def Ascending (paths : List FieldPath) : Prop :=
  paths.Pairwise fun p q => p.compare q = .lt

variable {paths : List FieldPath}

theorem Ascending.place (h : Ascending paths) (p : FieldPath) : Ascending (place p paths) := by
  induction paths with
  | nil => exact List.pairwise_singleton _ _
  | cons q rest ih =>
      obtain ⟨hq, hrest⟩ := List.pairwise_cons.1 h
      unfold FieldPath.place
      split
      · rename_i hlt
        refine List.pairwise_cons.2 ⟨?_, h⟩
        intro r hr
        rcases List.mem_cons.1 hr with rfl | hr
        · exact hlt
        · exact Std.TransCmp.lt_trans hlt (hq r hr)
      · exact h
      · rename_i hgt
        refine List.pairwise_cons.2 ⟨?_, ih hrest⟩
        intro r hr
        rcases mem_place.1 hr with rfl | hr
        · exact Std.OrientedCmp.lt_of_gt hgt
        · exact hq r hr

theorem ascending_sorted (paths : List FieldPath) : Ascending (sorted paths) := by
  unfold sorted
  induction paths with
  | nil => exact List.Pairwise.nil
  | cons p rest ih => exact ih.place p

end FieldPath

/-! ## Listings of fields and branches -/

section Listings

variable {descend : Schema → Outcome PathListing} {listing sub : PathListing} {p : FieldPath}
  {field : String} {s : Schema} {keys : List (String × Schema)} {bs : List Schema}
  {kind : FaultKind} {bad : Schema → Prop}

theorem PathListing.mem_under (hs : s.absence ≠ .must) :
    p ∈ (sub.under field s).paths ↔
      sub.paths = [] ∧ p = [field] ∨ ∃ q ∈ sub.paths, p = field :: q := by
  unfold PathListing.under
  cases hpaths : sub.paths with
  | nil => simp [hs]
  | cons q rest => simp [eq_comm]

theorem mem_keyPaths_iff (h : keyPaths descend keys = .ok listing) :
    p ∈ listing.paths ↔
      ∃ entry ∈ keys, ∃ sub, descend entry.2 = .ok sub ∧ p ∈ (sub.under entry.1 entry.2).paths := by
  induction keys generalizing listing with
  | nil =>
      cases h
      simp [PathListing.none]
  | cons entry rest ih =>
      simp only [keyPaths, Outcome.bind_eq_ok, Outcome.pure_eq_ok] at h
      obtain ⟨sub, hsub, others, hothers, rfl⟩ := h
      simp [PathListing.append, ih hothers, hsub]

theorem failsIff_keyPaths {fails : String × Schema → Prop}
    (h : ∀ entry ∈ keys, (descend entry.2).FailsIff kind (fails entry)) :
    (keyPaths descend keys).FailsIff kind (∃ entry ∈ keys, fails entry) := by
  induction keys with
  | nil => exact fun ⟨_, hmem, _⟩ => List.not_mem_nil hmem
  | cons entry rest ih =>
      obtain ⟨hentry, hrest⟩ := List.forall_mem_cons.1 h
      have hfails := hentry.bind fun sub _ =>
        (ih hrest).bind_pure (sub.under entry.1 entry.2).append
      exact hfails.congr (by simp)

private theorem failsIff_branchPaths (h : ∀ b ∈ bs, (b.pathsBy descend).FailsIff kind (bad b)) :
    (branchPaths descend bs).FailsIff kind (∃ b ∈ bs, b.kind ≠ .document ∧ bad b) := by
  induction bs with
  | nil => exact fun ⟨_, hmem, _⟩ => List.not_mem_nil hmem
  | cons b rest ih =>
      obtain ⟨hb, hrest⟩ := List.forall_mem_cons.1 h
      cases b with
      | document d => exact (ih hrest).congr (by simp [Schema.kind])
      | _ =>
          have hfails := hb.bind fun sub _ => (ih hrest).bind_pure sub.append
          exact hfails.congr (by simp [Schema.kind])

theorem exists_branch_iff {P : Schema → Prop} :
    (∃ b ∈ bs, P b) ↔
      (∃ b ∈ bs, b.kind ≠ .document ∧ P b) ∨ ∃ d ∈ Schema.documents bs, P (.document d) := by
  constructor
  · rintro ⟨b, hb, h⟩
    by_cases hkind : b.kind = .document
    · obtain ⟨d, rfl⟩ := Schema.kind_eq_document hkind
      exact Or.inr ⟨d, Schema.mem_documents.2 hb, h⟩
    · exact Or.inl ⟨b, hb, hkind, h⟩
  · rintro (⟨b, hb, -, h⟩ | ⟨d, hd, h⟩)
    · exact ⟨b, hb, h⟩
    · exact ⟨_, Schema.mem_documents.1 hd, h⟩

/-- A disjunction with at most one document fails to be listed where a branch does. -/
theorem failsIff_pathsBy_anyOf (hone : (Schema.documents bs).length ≤ 1)
    (h : ∀ b ∈ bs, (b.pathsBy descend).FailsIff kind (bad b)) :
    ((Schema.anyOf bs).pathsBy descend).FailsIff kind (∃ b ∈ bs, bad b) := by
  have hothers := failsIff_branchPaths h
  rw [Schema.pathsBy, exists_branch_iff]
  rcases hds : Schema.documents bs with _ | ⟨d, _ | ⟨e, rest⟩⟩
  · exact (hothers.bind_pure id).congr (by simp)
  · have hd : .document d ∈ bs := Schema.mem_documents.1 (hds ▸ List.mem_cons_self)
    have hfails := hothers.bind fun others _ => (h _ hd).bind_pure fun own =>
      { others.append own with
        nullableOnly := (others.append own).nullableOnly && bs.all Schema.isDocumentOrNullish }
    exact hfails.congr (by simp)
  · simp [hds] at hone

/-- A disjunction with at most one document is listed branch by branch. -/
theorem mem_pathsBy_anyOf (hone : (Schema.documents bs).length ≤ 1)
    (h : (Schema.anyOf bs).pathsBy descend = .ok listing) :
    p ∈ listing.paths ↔ ∃ b ∈ bs, ∃ sub, b.pathsBy descend = .ok sub ∧ p ∈ sub.paths := by
  obtain ⟨others, hothers, hdocuments⟩ := pathsBy_anyOf_eq_ok h
  rw [exists_branch_iff, ← (branchPaths_eq_ok hothers).2]
  rcases hdocuments with ⟨hnil, hpaths⟩ | ⟨u, own, hu, hown, hpaths⟩
  · simp [hpaths, hnil]
  · rcases hds : Schema.documents bs with _ | ⟨d, _ | ⟨e, rest⟩⟩
    · simp [hds, unionDocuments] at hu
    · rw [hds] at hu
      cases hu
      have hown : (Schema.document d).pathsBy descend = .ok own := hown
      simp [hpaths, hown]
    · simp [hds] at hone

/-- A canonical schema is listed branch by branch. -/
theorem Schema.failsIff_pathsBy_branches (hs : s.Canonical)
    (h : ∀ b ∈ s.branches, (b.pathsBy descend).FailsIff kind (bad b)) :
    (s.pathsBy descend).FailsIff kind (∃ b ∈ s.branches, bad b) := by
  cases s with
  | anyOf bs => exact failsIff_pathsBy_anyOf (canonical_anyOf_iff.1 hs).1.oneDocument h
  | _ => exact (h _ (List.mem_singleton_self _)).congr (by simp [branches])

theorem Schema.mem_pathsBy_branches (hs : s.Canonical) (h : s.pathsBy descend = .ok listing) :
    p ∈ listing.paths ↔ ∃ b ∈ s.branches, ∃ sub, b.pathsBy descend = .ok sub ∧ p ∈ sub.paths := by
  cases s with
  | anyOf bs => exact mem_pathsBy_anyOf (canonical_anyOf_iff.1 hs).1.oneDocument h
  | _ => simp [branches, h]

end Listings

namespace Schema

/-! ## What keeps paths from being listed -/

/-- The schema allows fields that it does not name. -/
def AllowsUnknown : Schema → Prop
  | .any => True
  | .document d => d.isOpen = true
  | _ => False

/-- The second schema is met on the way down from the first, through branches and
through so many declared fields. -/
inductive Reaches : Schema → Nat → Schema → Prop where
  | here {s : Schema} : Reaches s 0 s
  | branch {bs : List Schema} {b t : Schema} {count : Nat} (mem : b ∈ bs)
      (below : Reaches b count t) : Reaches (.anyOf bs) count t
  | key {d : Document} {entry : String × Schema} {t : Schema} {count : Nat} (mem : entry ∈ d.keys)
      (below : Reaches entry.2 count t) : Reaches (.document d) (count + 1) t

/-- Fewer fields than the bound lead to a schema that allows unknown fields; a negative
bound is no bound. -/
def MeetsUnknown (s : Schema) (bound : Int) : Prop :=
  ∃ count t, s.Reaches count t ∧ t.AllowsUnknown ∧ (bound < 0 ∨ count < bound)

variable {s t b x : Schema} {bs : List Schema} {bound : Int} {d : Document} {field : String}
  {p : FieldPath}

theorem not_meetsUnknown_zero : ¬ s.MeetsUnknown 0 := by
  rintro ⟨count, t, -, -, h⟩
  omega

theorem meetsUnknown_any (hbound : bound ≠ 0) : any.MeetsUnknown bound :=
  ⟨0, .any, .here, trivial, by omega⟩

theorem meetsUnknown_anyOf_iff :
    (anyOf bs).MeetsUnknown bound ↔ ∃ b ∈ bs, b.MeetsUnknown bound := by
  constructor
  · rintro ⟨count, t, hreaches, hunknown, hcount⟩
    cases hreaches with
    | here => exact absurd hunknown id
    | branch mem below => exact ⟨_, mem, count, t, below, hunknown, hcount⟩
  · rintro ⟨b, hb, count, t, hreaches, h⟩
    exact ⟨count, t, .branch hb hreaches, h⟩

theorem lt_boundBelow_iff {count : Nat} :
    boundBelow bound < 0 ∨ count < boundBelow bound ↔ bound < 0 ∨ (count + 1 : Nat) < bound := by
  unfold boundBelow
  split <;> omega

theorem meetsUnknown_document_iff (hbound : bound ≠ 0) :
    (document d).MeetsUnknown bound ↔
      d.isOpen = true ∨ ∃ entry ∈ d.keys, entry.2.MeetsUnknown (boundBelow bound) := by
  constructor
  · rintro ⟨count, t, hreaches, hunknown, hcount⟩
    cases hreaches with
    | here => exact Or.inl hunknown
    | key mem below =>
        exact Or.inr ⟨_, mem, _, t, below, hunknown, lt_boundBelow_iff.2 hcount⟩
  · rintro (hopen | ⟨entry, hmem, count, t, hreaches, hunknown, hcount⟩)
    · exact ⟨0, .document d, .here, hopen, by omega⟩
    · exact ⟨count + 1, t, .key hmem hreaches, hunknown, lt_boundBelow_iff.1 hcount⟩

theorem meetsUnknown_iff_branch :
    s.MeetsUnknown bound ↔ ∃ b ∈ s.branches, b.MeetsUnknown bound := by
  cases s with
  | anyOf bs => exact meetsUnknown_anyOf_iff
  | _ => simp [branches]

/-! ## Failing listings -/

theorem nest_key_lt {entry : String × Schema} (hd : .document d ∈ s.branches)
    (hmem : entry ∈ d.keys) : entry.2.nest < s.nest := by
  have hdocument : entry.2.nest < (document d).nest :=
    (nest_document_lt_iff.1 (Nat.lt_succ_self _)).2 entry hmem
  cases s with
  | anyOf bs =>
      have hbranch := (nest_anyOf_lt_iff.1 (Nat.lt_succ_self (anyOf bs).nest)).2 _ hd
      omega
  | document e =>
      cases List.mem_singleton.1 hd
      exact hdocument
  | _ => cases List.mem_singleton.1 hd

private theorem failsIff_pathsBy_branch {descend : Schema → Outcome PathListing} (hbound : bound ≠ 0)
    (hkind : s.kind ≠ .anyOf)
    (hdescend : ∀ d, s = .document d → ∀ entry ∈ d.keys,
      (descend entry.2).FailsIff .cannotEnumerateAllFieldPaths
        (entry.2.MeetsUnknown (boundBelow bound))) :
    (s.pathsBy descend).FailsIff .cannotEnumerateAllFieldPaths (s.MeetsUnknown bound) := by
  cases s with
  | anyOf bs => exact absurd rfl hkind
  | any => exact ⟨meetsUnknown_any hbound, rfl⟩
  | document d =>
      have hfields := failsIff_keyPaths (hdescend d rfl)
      rw [pathsBy, Document.paths]
      cases hopen : d.isOpen with
      | true => exact ⟨(meetsUnknown_document_iff hbound).2 (Or.inl hopen), rfl⟩
      | false => exact hfields.congr (by simp [meetsUnknown_document_iff hbound, hopen])
  | _ =>
      rintro ⟨count, t, hreaches, hunknown, -⟩
      cases hreaches
      exact hunknown

/-- The paths of a schema cannot be listed exactly if a schema that allows unknown fields
is met before the bound. -/
theorem failsIff_pathsWithin {level : Nat} (hs : s.Canonical) (hlevel : s.nest < level) :
    (s.pathsWithin level bound).FailsIff .cannotEnumerateAllFieldPaths (s.MeetsUnknown bound) := by
  induction level generalizing s bound with
  | zero => cases hlevel
  | succ level ih =>
      rw [pathsWithin]
      split
      · rename_i hzero
        rw [hzero]
        exact not_meetsUnknown_zero
      · rename_i hbound
        rw [meetsUnknown_iff_branch]
        refine failsIff_pathsBy_branches hs fun b hb => ?_
        refine failsIff_pathsBy_branch hbound (hs.kind_ne_anyOf hb) ?_
        rintro d rfl entry hmem
        have hnest := nest_key_lt hb hmem
        have hentry := canonical_document_iff.1 (hs.of_mem_branches hb) entry hmem
        exact ih hentry.2 (by omega)

/-! ## Listed paths -/

/-- The path is listed, if there is a listing of the paths of at most so many names. -/
inductive Lists : Int → Schema → FieldPath → Prop where
  | stop {s : Schema} : Lists 0 s []
  | atomic {bound : Int} {a : Atomic} (hbound : bound ≠ 0) : Lists bound (.atomic a) []
  | array {bound : Int} {x : Schema} (hbound : bound ≠ 0) : Lists bound (.array x) []
  | branch {bound : Int} {bs : List Schema} {b : Schema} {p : FieldPath} (hbound : bound ≠ 0)
      (mem : b ∈ bs) (listed : Lists bound b p) : Lists bound (.anyOf bs) p
  | key {bound : Int} {d : Document} {field : String} {x : Schema} {p : FieldPath}
      (hbound : bound ≠ 0) (declared : d.key? field = some x)
      (listed : Lists (boundBelow bound) x p) : Lists bound (.document d) (field :: p)
  /-- A field that only holds the document without fields. -/
  | emptyKey {bound : Int} {d e : Document} {field : String} (hbound : bound ≠ 0)
      (declared : d.key? field = some (.document e)) (empty : e.keys = []) :
      Lists bound (.document d) [field]

theorem lists_zero_iff : s.Lists 0 p ↔ p = [] := by
  constructor
  · intro h
    cases h with
    | stop => rfl
    | _ => contradiction
  · rintro rfl
    exact .stop

theorem lists_iff_branch (hbound : bound ≠ 0) :
    s.Lists bound p ↔ ∃ b ∈ s.branches, b.Lists bound p := by
  cases s with
  | anyOf bs =>
      constructor
      · intro h
        cases h with
        | stop => exact absurd rfl hbound
        | branch _ mem listed => exact ⟨_, mem, listed⟩
      · rintro ⟨b, hb, h⟩
        exact .branch hbound hb h
  | _ => simp [branches]

theorem CanonicalBranches.exists_nonDocument (h : CanonicalBranches bs) :
    ∃ b ∈ bs, b.kind ≠ .document := by
  obtain ⟨a, b, rest, rfl⟩ : ∃ a b rest, bs = a :: b :: rest := by
    rcases bs with _ | ⟨a, _ | ⟨b, rest⟩⟩
    · exact absurd h.two (by simp)
    · exact absurd h.two (by simp)
    · exact ⟨a, b, rest, rfl⟩
  by_contra hnone
  push Not at hnone
  obtain ⟨d, rfl⟩ := kind_eq_document (hnone a List.mem_cons_self)
  obtain ⟨e, rfl⟩ := kind_eq_document (hnone b (List.mem_cons_of_mem _ List.mem_cons_self))
  have hone := h.oneDocument
  simp [documents] at hone

/-- A schema to declare a field with has a listed path, unless it is the document
without fields. -/
theorem exists_lists (hs : s.WellDeclared) (hdeclarable : s.Declarable)
    (hknown : ¬ s.MeetsUnknown bound) :
    (∃ p, s.Lists bound p) ∨ ∃ e, s = .document e ∧ e.keys = [] := by
  induction s using induction_children generalizing bound with
  | step s ih =>
      by_cases hbound : bound = 0
      · rw [hbound]
        exact Or.inl ⟨[], .stop⟩
      cases s with
      | unsat => exact absurd rfl hdeclarable.1
      | missing => exact absurd rfl hdeclarable.ne_missing
      | any => exact absurd (meetsUnknown_any hbound) hknown
      | atomic a => exact Or.inl ⟨[], .atomic hbound⟩
      | array x => exact Or.inl ⟨[], .array hbound⟩
      | anyOf bs =>
          obtain ⟨hbs, -⟩ := canonical_anyOf_iff.1 hs.canonical
          obtain ⟨b, hb, hkind⟩ := hbs.exists_nonDocument
          have hdeclared := declarable_of_isBranch (hbs.branch b hb) fun h => hdeclarable.2 (h ▸ hb)
          have hlisted := ih b hb (hs.inside hb) hdeclared fun h =>
            hknown (meetsUnknown_anyOf_iff.2 ⟨b, hb, h⟩)
          rcases hlisted with ⟨p, hp⟩ | ⟨e, rfl, -⟩
          · exact Or.inl ⟨p, .branch hbound hb hp⟩
          · exact absurd rfl hkind
      | document d =>
          cases hkeys : d.keys with
          | nil => exact Or.inr ⟨d, rfl, hkeys⟩
          | cons entry rest =>
              have hmem : entry ∈ d.keys := hkeys ▸ List.mem_cons_self
              have hkey : d.key? entry.1 = some entry.2 := FieldMap.find?_of_mem hs.ordered hmem
              rw [meetsUnknown_document_iff hbound, not_or, not_exists] at hknown
              have hlisted := ih entry.2 (List.mem_map_of_mem hmem) (hs.key hkey)
                (hs.canonical.key hkey).1 fun h => hknown.2 entry ⟨hmem, h⟩
              left
              rcases hlisted with ⟨p, hp⟩ | ⟨e, he, hempty⟩
              · exact ⟨entry.1 :: p, .key hbound hkey hp⟩
              · exact ⟨[entry.1], .emptyKey hbound (he ▸ hkey) hempty⟩

/-- The listing of the schema has exactly its listed paths. -/
def ListedBy (descend : Schema → Outcome PathListing) (bound : Int) (s : Schema) : Prop :=
  ∃ listing, descend s = .ok listing ∧ ∀ p, p ∈ listing.paths ↔ s.Lists bound p

private theorem eq_nil_of_lists_empty {e : Document} (h : (document e).Lists bound p) (he : e.keys = []) :
    p = [] := by
  have hnone (field : String) : e.key? field = none := by
    rw [Document.key?, he]
    rfl
  cases h with
  | stop => rfl
  | key _ declared => cases (hnone _).symm.trans declared
  | emptyKey _ declared => cases (hnone _).symm.trans declared

theorem mem_keyPaths_iff_lists {descend : Schema → Outcome PathListing} {listing : PathListing}
    (hs : (document d).WellDeclared) (hbound : bound ≠ 0)
    (hknown : ∀ entry ∈ d.keys, ¬ entry.2.MeetsUnknown (boundBelow bound))
    (hdescend : ∀ entry ∈ d.keys, entry.2.ListedBy descend (boundBelow bound))
    (h : keyPaths descend d.keys = .ok listing) :
    p ∈ listing.paths ↔ (document d).Lists bound p := by
  have hpresent := hs.canonical.keys_absence_ne_must
  rw [mem_keyPaths_iff h]
  constructor
  · rintro ⟨entry, hmem, sub, hsub, hp⟩
    obtain ⟨_, hlisting, hlists⟩ := hdescend entry hmem
    cases hsub.symm.trans hlisting
    have hkey : d.key? entry.1 = some entry.2 := FieldMap.find?_of_mem hs.ordered hmem
    rcases (PathListing.mem_under (hpresent entry hmem)).1 hp with ⟨hnil, rfl⟩ | ⟨q, hq, rfl⟩
    -- No path below the field: only the document without fields has none.
    · rcases exists_lists (hs.key hkey) (hs.canonical.key hkey).1 (hknown entry hmem) with
        ⟨q, hq⟩ | ⟨e, he, hempty⟩
      · rw [← hlists, hnil] at hq
        cases hq
      · exact .emptyKey hbound (he ▸ hkey) hempty
    · exact .key hbound hkey ((hlists q).1 hq)
  · intro hp
    cases hp with
    | stop => exact absurd rfl hbound
    | @key _ _ field x q _ declared listed =>
        have hmem := Document.mem_of_key? declared
        obtain ⟨sub, hsub, hlists⟩ := hdescend _ hmem
        refine ⟨_, hmem, sub, hsub, (PathListing.mem_under (hpresent _ hmem)).2 (Or.inr ?_)⟩
        exact ⟨q, (hlists q).2 listed, rfl⟩
    | @emptyKey _ _ e field _ declared empty =>
        have hmem := Document.mem_of_key? declared
        obtain ⟨sub, hsub, hlists⟩ := hdescend _ hmem
        refine ⟨_, hmem, sub, hsub, (PathListing.mem_under (hpresent _ hmem)).2 ?_⟩
        cases hpaths : sub.paths with
        | nil => exact Or.inl ⟨rfl, rfl⟩
        | cons q rest =>
            have hq : q = [] :=
              eq_nil_of_lists_empty ((hlists q).1 (hpaths ▸ List.mem_cons_self)) empty
            exact Or.inr ⟨q, List.mem_cons_self, by rw [hq]⟩

theorem ListedBy.failsIff {descend : Schema → Outcome PathListing} (kind : FaultKind)
    (h : s.ListedBy descend bound) : (descend s).FailsIff kind False := by
  obtain ⟨listing, hlisting, -⟩ := h
  rw [hlisting]
  exact not_false

private theorem listedBy_pathsBy_branch {descend : Schema → Outcome PathListing} (hs : s.WellDeclared)
    (hbound : bound ≠ 0) (hkind : s.kind ≠ .anyOf) (hknown : ¬ s.MeetsUnknown bound)
    (hdescend : ∀ d, s = .document d → ∀ entry ∈ d.keys,
      entry.2.ListedBy descend (boundBelow bound)) :
    s.ListedBy (pathsBy descend) bound := by
  cases s with
  | anyOf bs => exact absurd rfl hkind
  | any => exact absurd (meetsUnknown_any hbound) hknown
  | document d =>
      rw [meetsUnknown_document_iff hbound, not_or, Bool.not_eq_true, not_exists] at hknown
      have hfails := failsIff_keyPaths fun entry hmem =>
        (hdescend d rfl entry hmem).failsIff .cannotEnumerateAllFieldPaths
      obtain ⟨listing, hlisting⟩ := hfails.exists_ok (by simp)
      refine ⟨listing, ?_, fun p => ?_⟩
      · rw [pathsBy, Document.paths, hknown.1]
        exact hlisting
      · exact mem_keyPaths_iff_lists hs hbound (fun entry hmem h => hknown.2 entry ⟨hmem, h⟩)
          (hdescend d rfl) hlisting
  | atomic a =>
      refine ⟨.leaf, rfl, fun p => ⟨fun hp => ?_, fun hp => ?_⟩⟩
      · rw [List.mem_singleton.1 hp]
        exact .atomic hbound
      · cases hp <;> exact List.mem_singleton_self _
  | array x =>
      refine ⟨.leaf, rfl, fun p => ⟨fun hp => ?_, fun hp => ?_⟩⟩
      · rw [List.mem_singleton.1 hp]
        exact .array hbound
      · cases hp <;> exact List.mem_singleton_self _
  | unsat | missing =>
      refine ⟨.none, rfl, fun p => ⟨fun hp => (List.not_mem_nil hp).elim, fun hp => ?_⟩⟩
      cases hp
      exact absurd rfl hbound

/-- Where no unknown field is met before the bound, there is a listing of the listed
paths. -/
theorem listedBy_pathsWithin {level : Nat} (hs : s.WellDeclared) (hlevel : s.nest < level)
    (hknown : ¬ s.MeetsUnknown bound) : s.ListedBy (pathsWithin level bound) bound := by
  induction level generalizing s bound with
  | zero => cases hlevel
  | succ level ih =>
      by_cases hbound : bound = 0
      · rw [hbound]
        exact ⟨.leaf, rfl, fun p => List.mem_singleton.trans lists_zero_iff.symm⟩
      -- The level pays for a key, not for a branch: branches are handled here.
      have hbranches : ∀ b ∈ s.branches,
          b.ListedBy (pathsBy (pathsWithin level (boundBelow bound))) bound := by
        intro b hb
        have hbknown : ¬ b.MeetsUnknown bound := fun h =>
          hknown (meetsUnknown_iff_branch.2 ⟨b, hb, h⟩)
        refine listedBy_pathsBy_branch (hs.of_mem_branches hb) hbound
          (hs.canonical.kind_ne_anyOf hb) hbknown ?_
        rintro d rfl entry hmem
        have hnest := nest_key_lt hb hmem
        have hkey := FieldMap.find?_of_mem (hs.of_mem_branches hb).ordered hmem
        refine ih ((hs.of_mem_branches hb).key hkey) (by omega) fun h => hbknown ?_
        exact (meetsUnknown_document_iff hbound).2 (Or.inr ⟨entry, hmem, h⟩)
      have hfails := failsIff_pathsBy_branches hs.canonical fun b hb =>
        (hbranches b hb).failsIff .cannotEnumerateAllFieldPaths
      obtain ⟨listing, hlisting⟩ := hfails.exists_ok (by simp)
      refine ⟨listing, ?_, fun p => ?_⟩
      · rw [pathsWithin, if_neg hbound]
        exact hlisting
      · rw [mem_pathsBy_branches hs.canonical hlisting, lists_iff_branch hbound]
        refine exists_congr fun b => and_congr_right fun hb => ?_
        obtain ⟨sub, hsub, hlists⟩ := hbranches b hb
        simp [hsub, hlists]

/-! ## Paths of values -/

theorem Lists.length_le (h : s.Lists bound p) (hbound : 0 ≤ bound) : p.length ≤ bound := by
  induction h with
  | stop => simp
  | atomic | array => simpa using hbound
  | branch _ _ _ ih => exact ih hbound
  | @key bound _ _ _ p hne _ _ ih =>
      have hpos : 0 < bound := by omega
      rw [boundBelow, if_pos hpos] at ih
      have := ih (by omega)
      rw [List.length_cons]
      omega
  | emptyKey hne =>
      rw [List.length_singleton]
      omega

/-- A value of a declared field stands in some document. -/
theorem exists_document_with {v : Value} (hd : (document d).WellDeclared)
    (hnamed : (document d).Everywhere NamedHere) (hx : d.key? field = some x)
    (hv : x.Matches (some v)) :
    ∃ fields : Fields, (document d).Matches (some (.document fields)) ∧ (field, v) ∈ fields := by
  have hrequired (name : String) (y : Schema) (_ : d.requires name = true)
      (hy : d.key? name = some y) : ∃ w : Value, y.Matches (some w) :=
    exists_matches (hd.key hy).canonical (hnamed.key hy) (hd.canonical.key hy).1
  obtain ⟨fields, hfields, hextra, -⟩ := @exists_document_matches d [(field, v)] hrequired
    (fun name w y hmem hy => by
      cases List.mem_singleton.1 hmem
      cases hx.symm.trans hy
      exact hv)
    (fun _ name w hmem => by
      cases List.mem_singleton.1 hmem
      rw [Document.mentions, Document.hasKey, hx]
      rfl)
  exact ⟨fields, hfields, hextra field v (List.mem_singleton_self _)⟩

/-- A listed path is one of a value.  At the bound the listing stops, so there the schema
has to be one that a field can be declared with. -/
theorem Lists.exists_hasPath (h : s.Lists bound p) (hs : s.WellDeclared)
    (hnamed : s.Everywhere NamedHere) (hdeclarable : bound = 0 → s.Declarable) :
    ∃ v w : Value, s.Matches (some v) ∧ v.HasPath p w := by
  induction h with
  | stop =>
      obtain ⟨v, hv⟩ := exists_matches hs.canonical hnamed (hdeclarable rfl)
      exact ⟨v, v, hv, .here⟩
  | @atomic _ a _ =>
      obtain ⟨v, hv⟩ := exists_atomic_matches (a := a) hnamed.here
      exact ⟨v, v, hv, .here⟩
  | array => exact ⟨.array [], _, .array (List.forall_mem_nil _), .here⟩
  | branch hbound mem _ ih =>
      obtain ⟨v, w, hv, hw⟩ := ih (hs.inside mem) (hnamed.inside mem) fun h => absurd h hbound
      exact ⟨v, w, .anyOf mem hv, hw⟩
  | key _ declared _ ih =>
      obtain ⟨v, w, hv, hw⟩ := ih (hs.key declared) (hnamed.key declared) fun _ =>
        (hs.canonical.key declared).1
      obtain ⟨fields, hfields, hmem⟩ := exists_document_with hs hnamed declared hv
      exact ⟨.document fields, w, hfields, .field hmem hw⟩
  | emptyKey _ declared =>
      obtain ⟨v, hv⟩ := exists_matches (hs.key declared).canonical (hnamed.key declared)
        (hs.canonical.key declared).1
      obtain ⟨fields, hfields, hmem⟩ := exists_document_with hs hnamed declared hv
      exact ⟨.document fields, v, hfields, .field hmem .here⟩

/-- A path of a value is listed if it is as long as the bound, or shorter and does not end
in a document. -/
theorem lists_of_hasPath {v w : Value} (hs : s.WellDeclared) (hknown : ¬ s.MeetsUnknown bound)
    (hv : s.Matches (some v)) (hp : v.HasPath p w)
    (hend : p.length = bound ∨ (bound < 0 ∨ p.length < bound) ∧ w.type ≠ .document) :
    s.Lists bound p := by
  induction hp generalizing s bound with
  | @here v =>
      by_cases hbound : bound = 0
      · rw [hbound]
        exact .stop
      have hother : v.type ≠ .document := by
        rcases hend with hlength | hend
        · exact absurd hlength.symm hbound
        · exact hend.2
      obtain ⟨b, hb, hbv⟩ := matches_iff_branch.1 hv
      refine (lists_iff_branch hbound).2 ⟨b, hb, ?_⟩
      cases hbv with
      | any => exact absurd (meetsUnknown_iff_branch.2 ⟨_, hb, meetsUnknown_any hbound⟩) hknown
      | atomic => exact .atomic hbound
      | array => exact .array hbound
      | document => exact absurd rfl hother
      | anyOf => exact absurd rfl (hs.canonical.kind_ne_anyOf hb)
  | @field fields name v w rest mem _ ih =>
      have hbound : bound ≠ 0 := by
        rw [List.length_cons] at hend
        omega
      obtain ⟨b, hb, hbv⟩ := matches_iff_branch.1 hv
      have hbknown : ¬ b.MeetsUnknown bound := fun h =>
        hknown (meetsUnknown_iff_branch.2 ⟨b, hb, h⟩)
      refine (lists_iff_branch hbound).2 ⟨b, hb, ?_⟩
      have hbs := hs.of_mem_branches hb
      cases hbv with
      | any => exact absurd (meetsUnknown_any hbound) hbknown
      | atomic kind => cases kind
      | anyOf => exact absurd rfl (hs.canonical.kind_ne_anyOf hb)
      | @document d _ required declared closed =>
          rw [meetsUnknown_document_iff hbound, not_or, Bool.not_eq_true, not_exists] at hbknown
          -- The document is closed, so it mentions the field, and it declares what it requires.
          have hkey : d.hasKey name = true := by
            have hmentions := closed hbknown.1 name v mem
            rw [Document.mentions, Bool.or_eq_true] at hmentions
            exact hmentions.elim id hbs.hasKey_of_requires
          obtain ⟨x, hx⟩ := Option.isSome_iff_exists.1 hkey
          refine .key hbound hx (ih (hbs.key hx) (fun h => ?_) (declared name v x mem hx) ?_)
          · exact hbknown.2 _ ⟨Document.mem_of_key? hx, h⟩
          · rcases hend with hlength | ⟨hshort, hother⟩
            · rw [List.length_cons] at hlength
              rw [boundBelow, if_pos (by omega)]
              exact Or.inl (by omega)
            · exact Or.inr ⟨lt_boundBelow_iff.2 hshort, hother⟩

/-- Field paths are listed exactly, for a canonical schema whose documents declare what
they require and whose atomic kinds have aliases.  The bound is not zero, and a negative one
is none.  The listing fails exactly if unknown fields are met before the bound.  Otherwise
it is in order and keeps to the bound, each of its paths is one of a value, and it has every
path of a value that is as long as the bound, or shorter and not ending in a document. -/
theorem fieldPaths_exact (hs : s.WellDeclared) (hnamed : s.Everywhere NamedHere)
    (hbound : bound ≠ 0) :
    ((∃ f, s.fieldPaths bound = .error f ∧ f.isKind .cannotEnumerateAllFieldPaths = true) ↔
        s.MeetsUnknown bound) ∧
      (¬ s.MeetsUnknown bound → ∃ listing, s.fieldPaths bound = .ok listing ∧
        FieldPath.Ascending listing.paths ∧
        (∀ p ∈ listing.paths, 0 < bound → p.length ≤ bound) ∧
        (∀ p ∈ listing.paths, ∃ v w : Value, s.Matches (some v) ∧ v.HasPath p w) ∧
        ∀ (v w : Value) (p : FieldPath), s.Matches (some v) → v.HasPath p w →
          (p.length = bound ∨ (bound < 0 ∨ p.length < bound) ∧ w.type ≠ .document) →
          p ∈ listing.paths) := by
  have hfails : (s.pathsWithin (s.nest + 1) bound).FailsIff .cannotEnumerateAllFieldPaths
      (s.MeetsUnknown bound) := failsIff_pathsWithin hs.canonical (Nat.lt_succ_self s.nest)
  refine ⟨(hfails.bind_pure _).exists_error_iff, fun hknown => ?_⟩
  obtain ⟨listing, hlisting, hlists⟩ := listedBy_pathsWithin hs (Nat.lt_succ_self s.nest) hknown
  have hmem (p : FieldPath) : p ∈ FieldPath.sorted listing.paths ↔ s.Lists bound p :=
    FieldPath.mem_sorted.trans (hlists p)
  refine ⟨{ listing with paths := FieldPath.sorted listing.paths }, ?_,
    FieldPath.ascending_sorted _, fun p hp hpos => ?_, fun p hp => ?_, fun v w p hv hw hend => ?_⟩
  · rw [fieldPaths, hlisting]
    rfl
  · exact ((hmem p).1 hp).length_le hpos.le
  · exact ((hmem p).1 hp).exists_hasPath hs hnamed fun h => absurd h hbound
  · exact (hmem p).2 (lists_of_hasPath hs hknown hv hw hend)

/-- Orders of which one field holds anything: all fields below it are unknown, but those
at the top are listed. -/
theorem fieldPaths_exact_order :
    let address : Schema :=
      .document (.ofFields [("city", .atomic .string), ("geo", .document .empty)] ["city"] false)
    let order : Schema :=
      .anyOf [.atomic .null, .document (.ofFields [("extra", .any), ("to", address)] [] false)]
    order.WellDeclared ∧ order.Everywhere NamedHere ∧
      (∃ f, order.fieldPaths (-1) = .error f ∧
        f.isKind .cannotEnumerateAllFieldPaths = true) ∧
      ∃ listing, order.fieldPaths 1 = .ok listing ∧ FieldPath.Ascending listing.paths ∧
        ["extra"] ∈ listing.paths := by
  intro address order
  have hs : order.WellDeclared := by decide +kernel
  have hnamed : order.Everywhere NamedHere := by decide +kernel
  have hunknown : order.MeetsUnknown (-1) :=
    ⟨1, .any, .branch (List.mem_cons_of_mem _ List.mem_cons_self)
      (.key List.mem_cons_self .here), trivial, by decide⟩
  have hlisted : (order.fieldPaths 1).toBool = true := by decide +kernel
  have hknown : ¬ order.MeetsUnknown 1 := by
    intro h
    obtain ⟨f, hf, -⟩ := (fieldPaths_exact hs hnamed (by decide)).1.2 h
    rw [hf] at hlisted
    cases hlisted
  obtain ⟨listing, hlisting, hascending, -, -, hall⟩ :=
    (fieldPaths_exact hs hnamed (by decide)).2 hknown
  refine ⟨hs, hnamed, (fieldPaths_exact hs hnamed (by decide)).1.2 hunknown, listing, hlisting,
    hascending, ?_⟩
  refine hall (.document [("extra", .null)]) .null ["extra"] ?_ (.field List.mem_cons_self .here)
    (Or.inl rfl)
  refine .anyOf (List.mem_cons_of_mem _ List.mem_cons_self) (document_matches_of_entries ?_ ?_ ?_)
  · exact List.forall_mem_nil _
  · intro entry hentry s hkey
    cases List.mem_singleton.1 hentry
    cases hkey
    exact .any
  · decide

end Schema

end DocShape
