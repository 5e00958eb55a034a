import DocShape.Schema.FieldPaths
import DocShape.Proofs.Outcomes
import DocShape.Proofs.Semantics

/-!
# Top-level fields

Two views of the fields at the top of a document: those that documents of a
schema carry, and those that `topLevelFields` lists.  Schemas whose overlap is
`never` carry no field in common.  A listing exists only for schemas made of
closed documents, and shows every field that they carry except one that they
require without a schema for it.
-/

namespace DocShape

/-! ## Fields that documents carry -/

/-- The two types have a field in common if both mention or leave room for one. -/
theorem Document.sharesField_ne_never {d e : Document} {field : String}
    (hd : d.isOpen = true ∨ d.mentions field = true)
    (he : e.isOpen = true ∨ e.mentions field = true) : d.sharesField e ≠ .never := by
  have hnames : ∀ {o : Document}, o.mentions field = true → o.fieldNames.isEmpty = false := by
    intro o ho
    have hmem := mem_fieldNames.2 ho
    cases hnil : o.fieldNames with
    | nil =>
        rw [hnil] at hmem
        cases hmem
    | cons head rest => rfl
  unfold Document.sharesField
  rcases hd with hd | hd
  · rcases he with he | he
    · simp only [hd, he]
      split <;> simp
    · simp only [hd, hnames he]
      split <;> simp
  · rcases he with he | he
    · simp only [he, hnames hd]
      split <;> simp
    · have hany : d.fieldNames.any e.mentions = true :=
        List.any_eq_true.2 ⟨field, mem_fieldNames.2 hd, he⟩
      simp only [hany]
      split
      · simp
      · split <;> simp

namespace Schema

/-- Some document of the schema has the field. -/
def Carries (s : Schema) (field : String) : Prop :=
  ∃ fields v, s.Matches (some (.document fields)) ∧ (field, v) ∈ fields

variable {s t y z : Schema} {bs : List Schema} {field : String}

theorem Carries.exists_leaf (h : s.Carries field) : ∃ y ∈ s.leaves, y.Carries field := by
  obtain ⟨fields, v, hmatches, hv⟩ := h
  obtain ⟨y, hy, hmatches⟩ := matches_iff_leaf.1 hmatches
  exact ⟨y, hy, fields, v, hmatches, hv⟩

/-- Only `any` and document types have documents, and a closed type only with
fields that it mentions. -/
theorem Carries.leaf_cases (h : y.Carries field) (hy : y.IsLeaf) :
    y = .any ∨ ∃ d, y = .document d ∧ (d.isOpen = true ∨ d.mentions field = true) := by
  obtain ⟨fields, v, hmatches, hv⟩ := h
  cases hmatches with
  | any => exact Or.inl rfl
  | atomic kind => cases kind
  | anyOf => exact absurd rfl hy.2
  | @document d _ _ _ closed =>
      refine Or.inr ⟨d, rfl, ?_⟩
      cases hopen : d.isOpen with
      | true => exact Or.inl rfl
      | false => exact Or.inr (closed hopen field v hv)

private theorem sharesField_branch_left {verdict : Verdict} {b : Schema}
    (h : (anyOf bs).sharesField t = verdict) (hsure : verdict ≠ .may) (hb : b ∈ bs) :
    b.sharesField t = verdict := by
  rw [sharesField] at h
  exact Verdict.eq_of_meetAll h hsure _ (List.mem_map.2 ⟨⟨b, hb⟩, List.mem_attach _ _, rfl⟩)

private theorem sharesField_branch_right {verdict : Verdict} {b : Schema} (hs : s.kind ≠ .anyOf)
    (h : s.sharesField (anyOf bs) = verdict) (hsure : verdict ≠ .may) (hb : b ∈ bs) :
    s.sharesField b = verdict := by
  rw [sharesField] at h
  · exact Verdict.eq_of_meetAll h hsure _ (List.mem_map.2 ⟨⟨b, hb⟩, List.mem_attach _ _, rfl⟩)
  · rintro cs rfl
    exact hs rfl

/-- A sure verdict on two schemas is the verdict on any two of their leaves. -/
theorem sharesField_leaves {verdict : Verdict} (h : s.sharesField t = verdict)
    (hsure : verdict ≠ .may) (hy : y ∈ s.leaves) (hz : z ∈ t.leaves) :
    y.sharesField z = verdict := by
  have hleft : y.sharesField t = verdict := by
    clear hz
    induction s, hy using leaf_induction with
    | leaf => exact h
    | branch bs b hb _ _ ih => exact ih (sharesField_branch_left h hsure hb)
  have hkind := (isLeaf_of_mem_leaves hy).2
  clear h hy
  induction t, hz using leaf_induction with
  | leaf => exact hleft
  | branch bs b hb _ _ ih => exact ih (sharesField_branch_right hkind hleft hsure hb)

private theorem sharesField_leaf_ne_never (hy : y.IsLeaf) (hz : z.IsLeaf) (hyc : y.Carries field)
    (hzc : z.Carries field) : y.sharesField z ≠ .never := by
  rcases hyc.leaf_cases hy with rfl | ⟨d, rfl, hd⟩
  · rcases hzc.leaf_cases hz with rfl | ⟨e, rfl, -⟩ <;> simp [sharesField]
  · rcases hzc.leaf_cases hz with rfl | ⟨e, rfl, he⟩
    · simp [sharesField]
    · rw [sharesField]
      exact Document.sharesField_ne_never hd he

/-- Schemas without an overlap carry no field in common. -/
theorem sharesField_ne_never_of_carries (hs : s.Carries field) (ht : t.Carries field) :
    s.sharesField t ≠ .never := by
  intro h
  obtain ⟨y, hy, hyc⟩ := hs.exists_leaf
  obtain ⟨z, hz, hzc⟩ := ht.exists_leaf
  apply sharesField_leaf_ne_never (isLeaf_of_mem_leaves hy) (isLeaf_of_mem_leaves hz) hyc hzc
  exact sharesField_leaves h (by decide) hy hz

end Schema

/-! ## Document types read as one -/

namespace Document

variable {d o u : Document} {ds : List Document} {field : String}

theorem hasKey_iff :
    d.hasKey field = true ↔ d.mentions field = true ∧ d.unspecified field = false := by
  rw [mentions, unspecified]
  cases d.hasKey field <;> cases d.requires field <;> simp

/-- `u` mentions the fields that one of the closed types mentions, and gives a
schema to none that all of them require without one. -/
structure Gathers (u : Document) (ds : List Document) : Prop where
  closed : ∀ d ∈ ds, d.isOpen = false
  mentions : ∀ field, u.mentions field = ds.any (·.mentions field)
  unspecified : ∀ field, u.unspecified field = ds.all (·.unspecified field)

/-- A union that is closed has not lost its fields to unstable statistics. -/
theorem fuses_union_of_closed (h : (d.union o).isOpen = false) :
    Fuses Schema.union and (d.union o) d o := by
  rcases unionWith_cases Schema.union d o with ⟨jaccard, hlost⟩ | ⟨-, hunion⟩
  · rw [union, hlost] at h
    cases h
  · exact hunion.fuses

private theorem gathers_foldl_union (h : (ds.foldl union d).isOpen = false) :
    Gathers (ds.foldl union d) (d :: ds) := by
  induction ds generalizing d with
  | nil => exact ⟨by simpa using h, by simp, by simp⟩
  | cons e rest ih =>
      have hrest := ih h
      have hclosed := hrest.closed _ List.mem_cons_self
      have hfuses := fuses_union_of_closed hclosed
      rw [hfuses.isOpen, Bool.or_eq_false_iff] at hclosed
      refine ⟨?_, fun field => ?_, fun field => ?_⟩
      · intro o ho
        rcases List.mem_cons.1 ho with rfl | ho
        · exact hclosed.1
        · rcases List.mem_cons.1 ho with rfl | ho
          · exact hclosed.2
          · exact hrest.closed o (List.mem_cons_of_mem _ ho)
      · rw [List.foldl_cons, hrest.mentions, List.any_cons, hfuses.mentions rfl rfl, List.any_cons,
          List.any_cons, Bool.or_assoc]
      · rw [List.foldl_cons, hrest.unspecified, List.all_cons, hfuses.unspecified rfl rfl,
          List.all_cons, List.all_cons, Bool.and_assoc]

theorem gathers_unionDocuments (hu : unionDocuments ds = some u) (h : u.isOpen = false) :
    Gathers u ds := by
  cases ds with
  | nil => cases hu
  | cons d rest =>
      cases hu
      exact gathers_foldl_union h

/-- Read as one type, the types declare a field that one of them mentions, unless
all of them require it without a schema. -/
def DeclareTogether (ds : List Document) (field : String) : Prop :=
  (∃ d ∈ ds, d.mentions field = true) ∧ ∃ d ∈ ds, d.unspecified field = false

theorem declareTogether_singleton : DeclareTogether [d] field ↔ d.hasKey field = true := by
  simp [DeclareTogether, hasKey_iff]

theorem Gathers.hasKey_iff (h : Gathers u ds) :
    u.hasKey field = true ↔ DeclareTogether ds field := by
  rw [Document.hasKey_iff, h.mentions, h.unspecified, List.any_eq_true, List.all_eq_false]
  simp [DeclareTogether]

end Document

/-! ## Fields that are listed -/

namespace FieldPath

variable {p q : FieldPath} {paths : List FieldPath}

theorem mem_place : q ∈ place p paths ↔ q = p ∨ q ∈ paths := by
  induction paths with
  | nil => simp [place]
  | cons head rest ih =>
      unfold place
      split
      · exact List.mem_cons
      · rename_i heq
        have hhead : p = head := eq_of_compareLists_eq heq
        simp [hhead]
      · rw [List.mem_cons, ih, List.mem_cons]
        exact or_left_comm

theorem mem_sorted : q ∈ sorted paths ↔ q ∈ paths := by
  unfold sorted
  induction paths with
  | nil => rfl
  | cons head rest ih => rw [List.foldr_cons, mem_place, ih, List.mem_cons]

end FieldPath

section Paths

variable {descend : Schema → Outcome PathListing} {listing : PathListing} {field : String}

private theorem keyPaths_leaf (keys : List (String × Schema)) :
    keyPaths (fun _ => .ok .leaf) keys = .ok ⟨keys.map fun entry => [entry.1], true⟩ := by
  induction keys with
  | nil => rfl
  | cons entry rest ih =>
      rw [keyPaths, ih]
      rfl

theorem Document.closed_of_paths {d : Document} (h : d.paths descend = .ok listing) :
    d.isOpen = false := by
  unfold Document.paths at h
  split at h
  · cases h
  · rwa [Bool.not_eq_true] at *

theorem Document.mem_paths_iff {d : Document} (h : d.paths (fun _ => .ok .leaf) = .ok listing) :
    [field] ∈ listing.paths ↔ d.hasKey field = true := by
  rw [Document.paths, Document.closed_of_paths h, if_neg (by simp), keyPaths_leaf] at h
  cases h
  rw [← Document.mem_keyNames]
  simp [Document.keyNames, FieldMap.names]

theorem branchPaths_eq_ok {bs : List Schema} (h : branchPaths descend bs = .ok listing) :
    (∀ b ∈ bs, b.kind ≠ .document → ∃ sub, b.pathsBy descend = .ok sub) ∧
      ∀ p, p ∈ listing.paths ↔
        ∃ b ∈ bs, b.kind ≠ .document ∧ ∃ sub, b.pathsBy descend = .ok sub ∧ p ∈ sub.paths := by
  induction bs generalizing listing with
  | nil =>
      cases h
      simp [PathListing.none]
  | cons b rest ih =>
      by_cases hb : b.kind = .document
      · obtain ⟨d, rfl⟩ := Schema.kind_eq_document hb
        rw [branchPaths] at h
        obtain ⟨hrest, hpaths⟩ := ih h
        exact ⟨by simpa [Schema.kind] using hrest, by simpa [Schema.kind] using hpaths⟩
      · have heq : branchPaths descend (b :: rest) = do
            let sub ← b.pathsBy descend
            let others ← branchPaths descend rest
            return sub.append others := by
          cases b with
          | document d => exact absurd rfl hb
          | _ => rfl
        rw [heq] at h
        simp only [Outcome.bind_eq_ok, Outcome.pure_eq_ok] at h
        obtain ⟨sub, hsub, others, hothers, rfl⟩ := h
        obtain ⟨hrest, hpaths⟩ := ih hothers
        constructor
        · intro c hc hkind
          rcases List.mem_cons.1 hc with rfl | hc
          · exact ⟨sub, hsub⟩
          · exact hrest c hc hkind
        · intro p
          simp [PathListing.append, hpaths, hb, hsub]

theorem pathsBy_anyOf_eq_ok {bs : List Schema}
    (h : (Schema.anyOf bs).pathsBy descend = .ok listing) :
    ∃ others, branchPaths descend bs = .ok others ∧
      (Schema.documents bs = [] ∧ listing.paths = others.paths ∨
        ∃ u own, unionDocuments (Schema.documents bs) = some u ∧ u.paths descend = .ok own ∧
          listing.paths = others.paths ++ own.paths) := by
  rw [Schema.pathsBy, Outcome.bind_eq_ok] at h
  obtain ⟨others, hothers, h⟩ := h
  refine ⟨others, hothers, ?_⟩
  cases hdocuments : Schema.documents bs with
  | nil =>
      rw [hdocuments] at h
      cases h
      exact Or.inl ⟨rfl, rfl⟩
  | cons d rest =>
      simp only [hdocuments, unionDocuments, Outcome.bind_eq_ok, Outcome.pure_eq_ok] at h
      obtain ⟨own, hown, rfl⟩ := h
      exact Or.inr ⟨_, own, rfl, hown, rfl⟩

end Paths

namespace Schema

/-- The field is declared by a document of the schema, where the documents of one
disjunction are read as one type. -/
inductive Shows (field : String) : Schema → Prop where
  | documents {s : Schema} (declared : Document.DeclareTogether (documents s.branches) field) :
      Shows field s
  | branch {bs : List Schema} {b : Schema} (mem : b ∈ bs) (kind : b.kind ≠ .document)
      (shown : Shows field b) : Shows field (.anyOf bs)

variable {s y : Schema} {bs : List Schema} {field : String}
  {descend : Schema → Outcome PathListing} {listing : PathListing}

theorem shows_anyOf_iff : (anyOf bs).Shows field ↔
    (∃ b ∈ bs, b.kind ≠ .document ∧ b.Shows field) ∨
      Document.DeclareTogether (documents bs) field := by
  constructor
  · intro h
    cases h with
    | documents declared => exact Or.inr declared
    | branch mem kind shown => exact Or.inl ⟨_, mem, kind, shown⟩
  · rintro (⟨b, hb, hkind, h⟩ | h)
    · exact .branch hb hkind h
    · exact .documents h

theorem shows_iff_of_kind_ne (hs : s.kind ≠ .anyOf) :
    s.Shows field ↔ ∃ d, s = .document d ∧ d.hasKey field = true := by
  constructor
  · intro h
    cases h with
    | branch => exact absurd rfl hs
    | documents declared =>
        cases s with
        | document d => exact ⟨d, rfl, Document.declareTogether_singleton.1 declared⟩
        | anyOf bs => exact absurd rfl hs
        | _ =>
            obtain ⟨⟨d, hd, -⟩, -⟩ := declared
            cases hd
  · rintro ⟨d, rfl, hkey⟩
    exact .documents (Document.declareTogether_singleton.2 hkey)

/-- A field that one of the documents declares is shown. -/
theorem shows_of_leaf {d : Document} (hd : .document d ∈ s.leaves) (h : d.hasKey field = true) :
    s.Shows field := by
  induction s, hd using leaf_induction with
  | leaf _ hleaf => exact (shows_iff_of_kind_ne hleaf.2).2 ⟨d, rfl, h⟩
  | branch bs b hb hd _ ih =>
      by_cases hkind : b.kind = .document
      · obtain ⟨e, rfl⟩ := kind_eq_document hkind
        cases List.mem_singleton.1 hd
        rw [Document.hasKey_iff] at h
        have hmem := mem_documents.2 hb
        exact .documents ⟨⟨d, hmem, h.1⟩, d, hmem, h.2⟩
      · exact .branch hb hkind ih

/-- What is listed is made of closed documents. -/
theorem closed_of_pathsBy (h : s.pathsBy descend = .ok listing) (hy : y ∈ s.leaves) :
    y ≠ .any ∧ ∀ d, y = .document d → d.isOpen = false := by
  induction s, hy using leaf_induction generalizing listing with
  | leaf =>
      constructor
      · rintro rfl
        cases h
      · rintro d rfl
        exact Document.closed_of_paths h
  | branch bs b hb hy _ ih =>
      obtain ⟨others, hothers, hdocuments⟩ := pathsBy_anyOf_eq_ok h
      by_cases hkind : b.kind = .document
      · obtain ⟨d, rfl⟩ := kind_eq_document hkind
        cases List.mem_singleton.1 hy
        refine ⟨by simp, fun e he => ?_⟩
        cases he
        have hd := mem_documents.2 hb
        rcases hdocuments with ⟨hnil, -⟩ | ⟨u, own, hu, hown, -⟩
        · rw [hnil] at hd
          cases hd
        · exact (Document.gathers_unionDocuments hu (Document.closed_of_paths hown)).closed d hd
      · obtain ⟨sub, hsub⟩ := (branchPaths_eq_ok hothers).1 b hb hkind
        exact ih hsub

/-- The paths of one name are the fields shown.  Below a document the listing
stops, so there `descend` knows of no further name. -/
theorem mem_pathsBy_iff (hdescend : 0 < s.nest → descend = fun _ => .ok .leaf)
    (h : s.pathsBy descend = .ok listing) : [field] ∈ listing.paths ↔ s.Shows field := by
  induction s using induction_children generalizing listing with
  | step s ih =>
      by_cases hs : s.kind = .anyOf
      · obtain ⟨bs, rfl⟩ := kind_eq_anyOf hs
        have hbranch : ∀ b ∈ bs, 0 < b.nest → descend = fun _ => .ok .leaf := by
          intro b hb hpos
          apply hdescend
          by_contra hzero
          have := (nest_anyOf_lt_iff.1 (show (anyOf bs).nest < 1 by omega)).2 b hb
          omega
        obtain ⟨others, hothers, hdocuments⟩ := pathsBy_anyOf_eq_ok h
        obtain ⟨hsubs, hmem⟩ := branchPaths_eq_ok hothers
        have hshown : [field] ∈ others.paths ↔ ∃ b ∈ bs, b.kind ≠ .document ∧ b.Shows field := by
          rw [hmem]
          constructor
          · rintro ⟨b, hb, hkind, sub, hsub, hpath⟩
            exact ⟨b, hb, hkind, (ih b hb (hbranch b hb) hsub).1 hpath⟩
          · rintro ⟨b, hb, hkind, hshows⟩
            obtain ⟨sub, hsub⟩ := hsubs b hb hkind
            exact ⟨b, hb, hkind, sub, hsub, (ih b hb (hbranch b hb) hsub).2 hshows⟩
        rw [shows_anyOf_iff, ← hshown]
        rcases hdocuments with ⟨hnil, hpaths⟩ | ⟨u, own, hu, hown, hpaths⟩
        · simp [hpaths, hnil, Document.DeclareTogether]
        · have hgathers := Document.gathers_unionDocuments hu (Document.closed_of_paths hown)
          obtain ⟨d, hd⟩ : ∃ d, d ∈ documents bs := by
            cases hds : documents bs with
            | nil =>
                rw [hds] at hu
                cases hu
            | cons d rest => exact ⟨d, List.mem_cons_self⟩
          rw [hbranch _ (mem_documents.1 hd) (Nat.succ_pos _)] at hown
          rw [hpaths, List.mem_append, Document.mem_paths_iff hown, hgathers.hasKey_iff]
      · rw [shows_iff_of_kind_ne hs]
        cases s with
        | anyOf bs => exact absurd rfl hs
        | any => cases h
        | document d =>
            rw [hdescend (Nat.succ_pos _)] at h
            simp [Document.mem_paths_iff h]
        | _ =>
            cases h
            simp [PathListing.none, PathListing.leaf]

theorem exists_pathsBy_of_topLevelFields {names : List String} (h : s.topLevelFields = .ok names) :
    ∃ descend listing, (0 < s.nest → descend = fun _ => .ok .leaf) ∧
      s.pathsBy descend = .ok listing ∧ ∀ field, field ∈ names ↔ [field] ∈ listing.paths := by
  rw [topLevelFields, fieldPaths] at h
  simp only [Outcome.bind_eq_ok, Outcome.pure_eq_ok] at h
  obtain ⟨_, ⟨listing, hlisting, rfl⟩, rfl⟩ := h
  refine ⟨pathsWithin s.nest 0, listing, ?_, hlisting, fun field => ?_⟩
  · intro hpos
    obtain ⟨n, hn⟩ := Nat.exists_eq_succ_of_ne_zero (Nat.pos_iff_ne_zero.1 hpos)
    rw [hn]
    rfl
  · rw [List.mem_filterMap]
    constructor
    · rintro ⟨p, hp, hfield⟩
      split at hfield
      · cases hfield
        exact FieldPath.mem_sorted.1 hp
      · cases hfield
    · intro hfield
      exact ⟨[field], FieldPath.mem_sorted.2 hfield, rfl⟩

/-- A listing of the top-level fields holds exactly the fields shown. -/
theorem mem_topLevelFields_iff {names : List String} (h : s.topLevelFields = .ok names) :
    field ∈ names ↔ s.Shows field := by
  obtain ⟨descend, listing, hdescend, hlisting, hnames⟩ := exists_pathsBy_of_topLevelFields h
  rw [hnames, mem_pathsBy_iff hdescend hlisting]

/-- The fields of the schema can be listed. -/
def Listable (s : Schema) : Prop :=
  ∃ names, s.topLevelFields = .ok names

/-- The field is not shown, although a document of the schema requires it: the
listing leaves out what has no schema. -/
def Hides (s : Schema) (field : String) : Prop :=
  ¬ s.Shows field ∧ ∃ d, .document d ∈ s.leaves ∧ d.unspecified field = true

/-- Of the fields that its documents carry, a schema with a listing shows those
that it does not hide. -/
theorem Carries.hides_iff (h : s.Carries field) (hs : s.Listable) :
    s.Hides field ↔ ¬ s.Shows field := by
  refine ⟨And.left, fun hshows => ⟨hshows, ?_⟩⟩
  obtain ⟨names, hnames⟩ := hs
  obtain ⟨descend, listing, -, hlisting, -⟩ := exists_pathsBy_of_topLevelFields hnames
  obtain ⟨y, hy, hcarries⟩ := h.exists_leaf
  obtain ⟨hany, hclosed⟩ := closed_of_pathsBy hlisting hy
  rcases hcarries.leaf_cases (isLeaf_of_mem_leaves hy) with rfl | ⟨d, rfl, hd⟩
  · exact absurd rfl hany
  · have hmentions : d.mentions field = true := hd.resolve_left (by simp [hclosed d rfl])
    refine ⟨d, hy, ?_⟩
    by_contra hspecified
    rw [Bool.not_eq_true] at hspecified
    exact hshows (shows_of_leaf hy (Document.hasKey_iff.2 ⟨hmentions, hspecified⟩))

end Schema

end DocShape
