import DocShape.Proofs.Leaves

/-!
# Canonical forms from leaves

A schema's canonical form is assembled from those of its leaves.  It depends
only on which leaves there are, unless several documents have to be merged that
are not regular.
-/

namespace DocShape

/-! ## Merged documents -/

/-- A document type of the class on which merging is a semilattice. -/
@[ext]
structure TidyDocument where
  document : Document
  tidy : document.SettledIn Schema.Tidy

namespace TidyDocument

instance : Max TidyDocument :=
  ⟨fun a b => ⟨a.document.mergeWith Schema.join b.document,
    (Document.fusion_mergeWith _).settledIn Schema.joinLaws_join a.tidy b.tidy⟩⟩

instance : SemilatticeSup TidyDocument :=
  .mk' (fun a b => TidyDocument.ext
      ((Document.fusion_mergeWith _).comm Schema.joinLaws_join a.tidy b.tidy))
    (fun a b c => TidyDocument.ext
      ((Document.fusion_mergeWith _).assoc Schema.joinLaws_join a.tidy b.tidy c.tidy))
    (fun a => TidyDocument.ext ((Document.fusion_mergeWith _).idem Schema.joinLaws_join a.tidy))

theorem document_foldl_sup (a : TidyDocument) (as : List TidyDocument) :
    (as.foldl (· ⊔ ·) a).document =
      (as.map document).foldl (Document.mergeWith Schema.join) a.document := by
  rw [List.foldl_map]
  exact (List.foldl_hom document fun _ _ => rfl).symm

theorem exists_map_document {ds : List Document} (h : ∀ d ∈ ds, d.SettledIn Schema.Tidy) :
    ∃ as : List TidyDocument, as.map document = ds :=
  ⟨ds.pmap .mk h, by simp [List.map_pmap]⟩

theorem foldl_sup_congr {a b : TidyDocument} {as bs : List TidyDocument}
    (h : ∀ d, d ∈ a :: as ↔ d ∈ b :: bs) : as.foldl (· ⊔ ·) a = bs.foldl (· ⊔ ·) b := by
  refine eq_of_forall_ge_iff fun c => ?_
  rw [Schema.foldl_sup_le_iff, Schema.foldl_sup_le_iff]
  simp only [h]

end TidyDocument

namespace Schema

theorem Tidy.settledIn {d : Document} (h : (document d).Tidy) : d.SettledIn Tidy := by
  have hshallow := (h.shallow (Nat.lt_succ_self _)).settledIn
  exact ⟨hshallow.toSettled, fun field s hs => (hshallow.allowed field s hs).tidy⟩

private theorem mergeDocuments_congr_of_tidy {ds es : List Document} (hds : ∀ d ∈ ds, (document d).Tidy)
    (h : ∀ d, d ∈ ds ↔ d ∈ es) : mergeDocuments join ds = mergeDocuments join es := by
  have hes : ∀ d ∈ es, (document d).Tidy := fun d hd => hds d ((h d).2 hd)
  obtain ⟨as, rfl⟩ := TidyDocument.exists_map_document fun d hd => (hds d hd).settledIn
  obtain ⟨bs, rfl⟩ := TidyDocument.exists_map_document fun d hd => (hes d hd).settledIn
  have hinjective : Function.Injective TidyDocument.document := fun _ _ => TidyDocument.ext
  have hmem (d : TidyDocument) : d ∈ as ↔ d ∈ bs := by
    rw [← List.mem_map_of_injective hinjective, h, List.mem_map_of_injective hinjective]
  cases as with
  | nil =>
      cases bs with
      | nil => rfl
      | cons b bs => exact absurd ((hmem b).2 List.mem_cons_self) List.not_mem_nil
  | cons a as =>
      cases bs with
      | nil => exact absurd ((hmem a).1 List.mem_cons_self) List.not_mem_nil
      | cons b bs =>
          rw [List.map_cons, List.map_cons, mergeDocuments, mergeDocuments,
            ← TidyDocument.document_foldl_sup, ← TidyDocument.document_foldl_sup,
            TidyDocument.foldl_sup_congr hmem]

/-- Which documents there are decides what they merge into. -/
theorem mergeDocuments_congr {ds es : List Document}
    (hds : ds.length ≤ 1 ∨ ∀ d ∈ ds, (document d).Tidy) (hsub : es.Subperm ds)
    (h : ∀ d ∈ ds, d ∈ es) : mergeDocuments join es = mergeDocuments join ds := by
  rcases hds with hone | htidy
  · cases ds with
    | nil => rw [List.subperm_nil.1 hsub]
    | cons d rest =>
        have hnil : rest = [] := by simpa using hone
        subst hnil
        rw [List.perm_singleton.1 (hsub.antisymm (List.singleton_subperm_iff.2 (h d (by simp))))]
  · exact (mergeDocuments_congr_of_tidy htidy fun d => ⟨h d, fun hd => hsub.subset hd⟩).symm

/-! ## Without statistics -/

section Settled

variable {d o : Document} {s t : Schema}

theorem same_iff_eq (hs : s.Everywhere SettledHere)
    (ht : t.Everywhere SettledHere) : s.same t = true ↔ s = t := by
  rw [same, decide_eq_true_iff]
  refine ⟨eq_of_compare_eq hs ht, ?_⟩
  rintro rfl
  exact Std.ReflCmp.compare_self

private theorem settled_join (hsc : s.Canonical) (htc : t.Canonical) (hs : s.Everywhere SettledHere)
    (ht : t.Everywhere SettledHere) : (s.join t).Everywhere SettledHere :=
  joinClosed_settledHere.everywhere_join hsc htc hs ht

theorem settled_declared {field : String} (h : (document d).Everywhere SettledHere)
    (hs : d.declared? field = some s) : s.Everywhere SettledHere := by
  rcases Document.declared?_cases hs with hkey | ⟨-, -, rfl⟩
  · exact (Everywhere.document_iff.1 h).2 _ (Document.mem_of_key? hkey)
  · exact .leaf trivial rfl

private theorem settled_mergeWith (hdc : (document d).Canonical) (hoc : (document o).Canonical)
    (hd : (document d).Everywhere SettledHere) (ho : (document o).Everywhere SettledHere) :
    (document (d.mergeWith join o)).Everywhere SettledHere := by
  refine Everywhere.document_iff.2
    ⟨(Document.fusion_mergeWith join).settled hd.here ho.here, fun entry hmem => ?_⟩
  rcases Document.unionKey_cases (Document.unionKey_of_mem_unionKeys hmem) with
    ⟨s, t, hs, ht, heq⟩ | hs | ht | hany
  · rw [heq]
    exact settled_join (hdc.declared hs).2 (hoc.declared ht).2 (settled_declared hd hs)
      (settled_declared ho ht)
  · exact settled_declared hd hs
  · exact settled_declared ho ht
  · rw [hany]
    exact .leaf trivial rfl

private theorem settled_mergeDocuments {ds : List Document} {e : Document}
    (hdsc : ∀ d ∈ ds, (document d).Canonical)
    (hds : ∀ d ∈ ds, (document d).Everywhere SettledHere)
    (h : mergeDocuments join ds = some e) : (document e).Everywhere SettledHere := by
  cases ds with
  | nil => cases h
  | cons d rest =>
      cases h
      obtain ⟨hdc, hrestc⟩ := List.forall_mem_cons.1 hdsc
      obtain ⟨hd, hrest⟩ := List.forall_mem_cons.1 hds
      clear hdsc hds
      induction rest generalizing d with
      | nil => exact hd
      | cons o rest ih =>
          obtain ⟨hoc, hrestc⟩ := List.forall_mem_cons.1 hrestc
          obtain ⟨ho, hrest⟩ := List.forall_mem_cons.1 hrest
          exact ih (d.mergeWith join o) (keepsCanonical_join.mergeWith hdc hoc) hrestc
            (settled_mergeWith hdc hoc hd ho) hrest

theorem settled_collapse {bs : List Schema} (h : ∀ b ∈ bs, b.Everywhere SettledHere) :
    (collapse bs).Everywhere SettledHere := by
  have hall : (anyOf bs).Everywhere SettledHere := Everywhere.anyOf_iff.2 ⟨trivial, h⟩
  refine hereditary_settledHere.everywhere hall ?_
  rw [leaves_anyOf]
  exact leaves_collapse_subperm bs

end Settled

/-! ## Assembling -/

/-- Leaves in canonical form, without statistics. -/
structure CanonicalLeaves (ls : List Schema) : Prop where
  leaf : ∀ y ∈ ls, y.IsLeaf
  canonical : ∀ y ∈ ls, y.Canonical
  settled : ∀ y ∈ ls, y.Everywhere SettledHere

section Leaves

variable {ls rs : List Schema}

theorem CanonicalLeaves.subset (h : CanonicalLeaves ls) (hsub : rs ⊆ ls) : CanonicalLeaves rs where
  leaf y hy := h.leaf y (hsub hy)
  canonical y hy := h.canonical y (hsub hy)
  settled y hy := h.settled y (hsub hy)

theorem CanonicalLeaves.collapsible (h : CanonicalLeaves ls) (hany : .any ∉ ls) :
    Collapsible (gathered ls) :=
  collapsible_gathered h.canonical (fun y hy => (h.leaf y hy).2) hany

theorem mem_gathered {b : Schema} :
    b ∈ gathered ls ↔ (b ∈ ls ∧ b.kind ≠ .document ∧ b.kind ≠ .unsat) ∨
      ∃ d, mergeDocuments join (documents ls) = some d ∧ document d = b := by
  rw [gathered, List.mem_append, List.mem_filter, mem_nonDocuments, Option.mem_toList,
    Option.map_eq_some_iff, bne_iff_ne, and_assoc]

theorem CanonicalLeaves.settled_gathered (h : CanonicalLeaves ls) :
    ∀ b ∈ gathered ls, b.Everywhere SettledHere := by
  intro b hb
  rcases mem_gathered.1 hb with ⟨hmem, -⟩ | ⟨d, hd, rfl⟩
  · exact h.settled b hmem
  · exact settled_mergeDocuments (fun d hd => h.canonical _ (mem_documents.1 hd))
      (fun d hd => h.settled _ (mem_documents.1 hd)) hd

theorem CanonicalLeaves.settled_assemble (h : CanonicalLeaves ls) :
    (assemble ls).Everywhere SettledHere := by
  by_cases hany : .any ∈ ls
  · rw [assemble_of_mem hany]
    exact .leaf trivial rfl
  · rw [assemble_of_notMem hany]
    exact settled_collapse h.settled_gathered

theorem sortBranches_congr {as bs : List Schema} (has : ∀ b ∈ as, b.Everywhere SettledHere)
    (h : ∀ b, b ∈ as ↔ b ∈ bs) : sortBranches as = sortBranches bs := by
  have hbs : ∀ b ∈ bs, b.Everywhere SettledHere := fun b hb => has b ((h b).2 hb)
  refine (ascending_sortBranches as).eq_of_mem_iff (ascending_sortBranches bs) fun b => ?_
  rw [mem_sortBranches_of_settled has, mem_sortBranches_of_settled hbs, h]

theorem collapse_congr {as bs : List Schema} (has : ∀ b ∈ as, b.IsBranch)
    (hsettled : ∀ b ∈ as, b.Everywhere SettledHere) (h : ∀ b, b ∈ as ↔ b ∈ bs) :
    collapse as = collapse bs := by
  have hbs : ∀ b ∈ bs, b.IsBranch := fun b hb => has b ((h b).2 hb)
  rw [collapse_eq has, collapse_eq hbs, sortBranches_congr hsettled h]

/-- The documents among the leaves can be merged in any order. -/
def Mergeable (ls : List Schema) : Prop :=
  (documents ls).length ≤ 1 ∨ ∀ d ∈ documents ls, (document d).Everywhere RegularHere

instance (ls : List Schema) : Decidable (Mergeable ls) :=
  inferInstanceAs (Decidable (_ ∨ _))

theorem Mergeable.subperm (h : Mergeable ls) (hsub : rs.Subperm ls) : Mergeable rs := by
  have hdocuments : (documents rs).Subperm (documents ls) := subperm_filterMap hsub _
  rcases h with hone | hregular
  · exact Or.inl (Nat.le_trans hdocuments.length_le hone)
  · exact Or.inr fun d hd => hregular d (hdocuments.subset hd)

/-- Which leaves there are decides the canonical form. -/
theorem assemble_congr (hls : CanonicalLeaves ls) (hmerge : Mergeable ls) (hsub : rs.Subperm ls)
    (hmem : ∀ y ∈ ls, y ∈ rs) : assemble rs = assemble ls := by
  have hiff (y : Schema) : y ∈ rs ↔ y ∈ ls := ⟨fun hy => hsub.subset hy, hmem y⟩
  by_cases hany : .any ∈ ls
  · rw [assemble_of_mem hany, assemble_of_mem ((hiff _).2 hany)]
  · have hany' : .any ∉ rs := fun h => hany ((hiff _).1 h)
    have hrs := hls.subset hsub.subset
    have hdocuments : mergeDocuments join (documents rs) = mergeDocuments join (documents ls) := by
      refine mergeDocuments_congr (hmerge.imp_right fun hregular d hd => ?_)
        (subperm_filterMap hsub _) fun d hd => ?_
      · have hd' := mem_documents.1 hd
        exact ⟨⟨hls.canonical _ hd', hregular d hd⟩, hls.settled _ hd'⟩
      · exact mem_documents.2 (hmem _ (mem_documents.1 hd))
    rw [assemble_of_notMem hany, assemble_of_notMem hany']
    refine collapse_congr (hrs.collapsible hany').branch hrs.settled_gathered fun b => ?_
    rw [mem_gathered, mem_gathered, hiff, hdocuments]

end Leaves

/-! ## Simplification through leaves -/

private theorem filter_simplifyLeaves (s : Schema) :
    (simplifyLeaves [s]).filter (fun b => b.kind != .unsat) = s.leaves.map simplify := by
  induction s using induction_children with
  | step s ih =>
      cases s with
      | anyOf bs =>
          rw [simplifyLeaves_anyOf, leaves_anyOf]
          change ∀ b ∈ bs, _ at ih
          induction bs with
          | nil => rfl
          | cons b rest ihrest =>
              obtain ⟨hb, hrest⟩ := List.forall_mem_cons.1 ih
              rw [simplifyLeaves_cons, List.filter_append, hb, ihrest hrest, List.flatMap_cons,
                List.map_append]
      | _ => rfl

theorem gathered_filter {keep : Schema → Bool} (h : ∀ d, keep (.document d) = true)
    (ls : List Schema) : gathered (ls.filter keep) = (gathered ls).filter keep := by
  have hdocuments : documents (ls.filter keep) = documents ls := by
    rw [documents, List.filterMap_filter]
    refine List.filterMap_congr fun b _ => ?_
    cases b with
    | document d => rw [if_pos (h d)]
    | _ => split <;> rfl
  have hmerged : ((mergeDocuments join (documents ls)).map document).toList.filter keep =
      ((mergeDocuments join (documents ls)).map document).toList := by
    cases mergeDocuments join (documents ls) with
    | none => rfl
    | some d => simp [h]
  rw [gathered, gathered, hdocuments, List.filter_append, hmerged, nonDocuments, nonDocuments]
  simp only [List.filter_filter, Bool.and_comm, Bool.and_left_comm]

private theorem assemble_filter (ls : List Schema) :
    assemble (ls.filter fun b => b.kind != .unsat) = assemble ls := by
  have hany : .any ∈ ls.filter (fun b => b.kind != .unsat) ↔ .any ∈ ls := by
    rw [List.mem_filter, and_iff_left (by decide)]
  have hgathered : (gathered ls).filter (fun b => b.kind != .unsat) = gathered ls := by
    rw [List.filter_eq_self]
    intro b hb
    rcases mem_gathered.1 hb with ⟨-, -, hunsat⟩ | ⟨d, -, rfl⟩
    · exact bne_iff_ne.2 hunsat
    · rfl
  by_cases h : .any ∈ ls
  · rw [assemble_of_mem h, assemble_of_mem (hany.2 h)]
  · rw [assemble_of_notMem h, assemble_of_notMem fun h' => h (hany.1 h'),
      gathered_filter fun _ => rfl, hgathered]

private theorem assemble_singleton {s : Schema} (h : s.kind ≠ .anyOf) : assemble [s] = s := by
  cases s with
  | anyOf bs => exact absurd rfl h
  | _ => rfl

/-- A schema's canonical form is assembled from those of its leaves. -/
theorem simplify_eq_assemble (s : Schema) : s.simplify = assemble (s.leaves.map simplify) := by
  rw [← filter_simplifyLeaves, assemble_filter]
  by_cases hkind : s.kind = .anyOf
  · obtain ⟨bs, rfl⟩ := kind_eq_anyOf hkind
    rw [simplifyLeaves_anyOf, simplify]
  · rw [simplifyLeaves_singleton hkind, assemble_singleton]
    rwa [kind_simplify hkind]

theorem find?_simplifyKeys (keys : List (String × Schema)) (field : String) :
    FieldMap.find? (simplifyKeys keys) field = (FieldMap.find? keys field).map simplify := by
  rw [simplifyKeys_eq_map]
  exact FieldMap.find?_map simplify keys field

theorem mem_required_redeclare {d : Document} {keys : List (String × Schema)}
    {field : String} :
    field ∈ (d.redeclare (simplifyKeys keys)).required ↔
      field ∈ d.required ∧ ∀ s ∈ FieldMap.find? keys field, s.simplify.keepsRequired = true := by
  rw [Document.redeclare, List.mem_filter, find?_simplifyKeys]
  cases FieldMap.find? keys field <;> simp

theorem simplify_ofBranches {bs : List Schema} (h : Collapsible bs) :
    (ofBranches bs).simplify = collapse bs := by
  have hleaves : (ofBranches bs).leaves = (collapse bs).leaves := by
    rw [collapse_eq h.branch, ofBranches, leaves_anyOf]
    split
    · rename_i hsort
      rw [hsort]
      rfl
    · rename_i b hsort
      rw [hsort, List.flatMap_singleton]
    · rw [leaves_anyOf]
  rw [simplify_eq_assemble, hleaves, ← simplify_eq_assemble,
    simplify_of_canonical h.canonical_collapse]

theorem canonicalLeaves_map {ys : List Schema} (hleaf : ∀ y ∈ ys, y.IsLeaf)
    (h : ∀ y ∈ ys, y.simplify.Everywhere SettledHere) : CanonicalLeaves (ys.map simplify) where
  leaf := List.forall_mem_map.2 fun y hy => by
    rw [IsLeaf, kind_simplify (hleaf y hy).2]
    exact hleaf y hy
  canonical := List.forall_mem_map.2 fun y _ => canonical_simplify y
  settled := List.forall_mem_map.2 h

theorem settled_simplify_of_leaves {s : Schema}
    (h : ∀ y ∈ s.leaves, y.simplify.Everywhere SettledHere) :
    s.simplify.Everywhere SettledHere := by
  rw [simplify_eq_assemble]
  exact (canonicalLeaves_map (fun _ => isLeaf_of_mem_leaves) h).settled_assemble

private theorem settled_present {s : Schema} (h : s.Everywhere SettledHere) :
    s.present.Everywhere SettledHere :=
  hereditary_settledHere.everywhere h
    (s.leaves_present_subperm.trans List.filter_sublist.subperm)

private theorem settled_redeclare {d : Document} {simplified : List (String × Schema)} (hd : d.Settled)
    (hnames : FieldMap.names simplified = d.keyNames)
    (h : ∀ entry ∈ simplified, entry.2.Everywhere SettledHere) :
    (document (d.redeclare simplified)).Everywhere SettledHere := by
  refine Everywhere.document_iff.2 ⟨⟨⟨?_, ?_⟩, hd.references, hd.jaccard⟩, fun entry hmem => ?_⟩
  · exact FieldMap.ordered_filterMap (f := fun _ => declaredPresent) (hnames ▸ hd.ordered.keys)
  · exact hd.ordered.required.filter _
  · obtain ⟨source, hsource, hentry⟩ := List.mem_filterMap.1 hmem
    obtain ⟨t, ht, rfl⟩ := Option.map_eq_some_iff.1 hentry
    have hsettled := h source hsource
    rw [declaredPresent] at ht
    split at ht
    · cases ht
      exact hsettled
    · split at ht
      · cases ht
      · cases ht
        exact settled_present hsettled
      · cases ht
        exact hsettled

theorem settled_simplify_leaves {s : Schema} (hs : s.Everywhere SettledHere) :
    ∀ y ∈ s.leaves, y.simplify.Everywhere SettledHere := by
  induction s using induction_children with
  | step s ih =>
      intro y hy
      cases s with
      | unsat => cases hy
      | anyOf bs =>
          rw [leaves_anyOf, List.mem_flatMap] at hy
          obtain ⟨b, hb, hy⟩ := hy
          exact ih b hb (hs.inside hb) y hy
      | array x =>
          rw [List.mem_singleton.1 hy]
          have hx := ih x (List.mem_singleton_self x) (Everywhere.array_iff.1 hs).2
          exact Everywhere.array_iff.2 ⟨trivial, settled_simplify_of_leaves hx⟩
      | document d =>
          rw [List.mem_singleton.1 hy, simplify_document, simplifyKeys_eq_map]
          obtain ⟨hhere, hkeys⟩ := Everywhere.document_iff.1 hs
          refine settled_redeclare hhere (by simp [FieldMap.names, Document.keyNames]) ?_
          refine List.forall_mem_map.2 fun entry hmem => ?_
          exact settled_simplify_of_leaves
            (ih entry.2 (List.mem_map_of_mem hmem) (hkeys entry hmem))
      | _ =>
          rw [List.mem_singleton.1 hy]
          exact hs

theorem settled_simplify {s : Schema} (h : s.Everywhere SettledHere) :
    s.simplify.Everywhere SettledHere :=
  settled_simplify_of_leaves (settled_simplify_leaves h)

theorem canonicalLeaves_simplify {s : Schema} (hs : s.Everywhere SettledHere) :
    CanonicalLeaves (s.leaves.map simplify) :=
  canonicalLeaves_map (fun _ => isLeaf_of_mem_leaves) (settled_simplify_leaves hs)

/-! ## Present values -/

section Present

variable {bs : List Schema}

theorem declaredPresent_collapse (h : Collapsible bs)
    (hsettled : ∀ b ∈ bs, b.Everywhere SettledHere)
    (hne : (bs.filter fun b => !b.isMissing) ≠ []) :
    (collapse bs).declaredPresent = some (collapse (bs.filter fun b => !b.isMissing)) := by
  by_cases hmissing : .missing ∈ bs
  · obtain ⟨b, hb⟩ := List.exists_mem_of_ne_nil _ hne
    obtain ⟨hb, hpresent⟩ := List.mem_filter.1 hb
    have htwo : 2 ≤ (sortBranches bs).length := by
      refine two_le_length_sortBranches hmissing hb fun heq => ?_
      cases b with
      | missing => cases hpresent
      | _ => cases heq
    have hbranch : ∀ c ∈ sortBranches bs, c.IsBranch := fun c hc =>
      h.branch c (mem_of_mem_sortBranches hc)
    have hmem {c : Schema} : c ∈ sortBranches bs ↔ c ∈ bs := mem_sortBranches_of_settled hsettled
    have habsence := absence_anyOf_eq_may hbranch (hmem.2 hmissing) (hmem.2 hb)
      (by simpa using hpresent)
    rw [collapse_of_two h.branch htwo, declaredPresent, habsence]
    show some (collapse (subtractBranches isMissing (sortBranches bs))) = _
    rw [subtractBranches_isMissing hbranch]
    refine congrArg some (collapse_congr (fun c hc => hbranch c (List.mem_of_mem_filter hc))
      (fun c hc => hsettled c (hmem.1 (List.mem_of_mem_filter hc))) fun c => ?_)
    rw [List.mem_filter, List.mem_filter, hmem]
  · have hall : (bs.filter fun b => !b.isMissing) = bs := by
      refine List.filter_eq_self.2 fun b hb => ?_
      rw [Bool.not_eq_true', Bool.eq_false_iff, ne_eq, isMissing_iff]
      rintro rfl
      exact hmissing hb
    rw [hall] at hne ⊢
    exact declaredPresent_of_declarable (declarable_collapse h.branch hne hmissing)
      h.canonical_collapse

/-- Absent branches make no difference to what a field is declared with. -/
theorem declaredPresent_collapse_filter (h : Collapsible bs)
    (hsettled : ∀ b ∈ bs, b.Everywhere SettledHere) :
    (collapse (bs.filter fun b => !b.isMissing)).declaredPresent =
      (collapse bs).declaredPresent := by
  by_cases hnil : (bs.filter fun b => !b.isMissing) = []
  · have hmissing : ∀ b ∈ bs, b = .missing := by
      intro b hb
      have hb' := List.filter_eq_nil_iff.1 hnil b hb
      exact isMissing_iff.1 (by simpa using hb')
    have hmust : (collapse bs).isAny = false ∧ (collapse bs).absence = .must := by
      rw [collapse_eq h.branch]
      split
      · exact ⟨rfl, rfl⟩
      · rename_i b hsort
        have hb : b ∈ bs := mem_of_mem_sortBranches (hsort ▸ List.mem_singleton_self b)
        rw [hmissing b hb]
        exact ⟨rfl, rfl⟩
      · refine ⟨rfl, absence_anyOf_eq_must.2 fun b hb => ?_⟩
        rw [hmissing b (mem_of_mem_sortBranches hb)]
        rfl
    rw [hnil, declaredPresent, declaredPresent, hmust.1, hmust.2]
    rfl
  · have hkept := h.filter fun b => !b.isMissing
    have htwice : (bs.filter fun b => !b.isMissing).filter (fun b => !b.isMissing) =
        bs.filter fun b => !b.isMissing := by
      rw [List.filter_filter]
      simp only [Bool.and_self]
    rw [declaredPresent_collapse h hsettled hnil, declaredPresent_collapse hkept
      (fun b hb => hsettled b (List.mem_of_mem_filter hb)) (by rwa [htwice]), htwice]

theorem any_mem_map_simplify {ys : List Schema} (hleaf : ∀ y ∈ ys, y.IsLeaf) :
    .any ∈ ys.map simplify ↔ .any ∈ ys := by
  refine ⟨fun h => ?_, fun h => List.mem_map.2 ⟨.any, h, rfl⟩⟩
  obtain ⟨y, hy, heq⟩ := List.mem_map.1 h
  have hkind := kind_simplify (hleaf y hy).2
  rw [heq] at hkind
  cases y with
  | any => exact hy
  | _ => cases hkind

private theorem filter_map_simplify {ys : List Schema} (hleaf : ∀ y ∈ ys, y.IsLeaf) :
    (ys.filter fun y => !y.isMissing).map simplify =
      (ys.map simplify).filter fun y => !y.isMissing := by
  rw [List.filter_map]
  refine congrArg _ (List.filter_congr fun y hy => ?_)
  cases y with
  | anyOf bs => exact absurd rfl (hleaf _ hy).2
  | _ => rfl

/-- A field is declared alike from a schema and from its present values. -/
theorem declaredPresent_simplify_present {s : Schema} (hs : s.Everywhere SettledHere)
    (hmerge : Mergeable (s.leaves.map simplify)) :
    s.present.simplify.declaredPresent = s.simplify.declaredPresent := by
  have hleaf : ∀ y ∈ s.leaves, y.IsLeaf := fun _ => isLeaf_of_mem_leaves
  have hsub := s.leaves_present_subperm
  rw [simplify_eq_assemble, simplify_eq_assemble s]
  by_cases hany : .any ∈ s.leaves
  · have hpresent : .any ∈ s.present.leaves := (mem_leaves_present hs hany rfl).elim id id
    have hpresent' : .any ∈ s.present.leaves.map simplify :=
      (any_mem_map_simplify fun _ => isLeaf_of_mem_leaves).2 hpresent
    rw [assemble_of_mem hpresent', assemble_of_mem ((any_mem_map_simplify hleaf).2 hany)]
  · have hkept : (s.leaves.filter fun y => !y.isMissing).Subperm s.leaves :=
      List.filter_sublist.subperm
    have hls := canonicalLeaves_simplify hs
    have hassemble : assemble (s.present.leaves.map simplify) =
        assemble ((s.leaves.filter fun y => !y.isMissing).map simplify) := by
      refine assemble_congr (hls.subset (subperm_map hkept _).subset)
        (hmerge.subperm (subperm_map hkept _)) (subperm_map hsub _)
        (List.forall_mem_map.2 fun y hy => List.mem_map_of_mem ?_)
      obtain ⟨hy, hpresent⟩ := List.mem_filter.1 hy
      refine (mem_leaves_present hs hy (by simpa using hpresent)).resolve_left fun h => hany ?_
      exact hkept.subset (hsub.subset h)
    have hany' : .any ∉ s.leaves.map simplify := fun h => hany ((any_mem_map_simplify hleaf).1 h)
    rw [hassemble, filter_map_simplify hleaf, assemble_of_notMem hany',
      assemble_of_notMem fun h => hany' (List.mem_of_mem_filter h), gathered_filter fun _ => rfl]
    exact declaredPresent_collapse_filter (hls.collapsible hany') hls.settled_gathered

end Present

end Schema

end DocShape
