import DocShape.Proofs.Join

/-!
# Canonical schemas

What `simplify` promises at every depth, as a predicate of its own, and that
joins keep it.  The joins of fields and of array items are not parts of their
arguments, so every step is proved for any `join` that keeps the predicate and
the level of `joinWithin` carries the induction.
-/

namespace DocShape

namespace Schema

/-- A schema to declare a field with: no value of it is absent, unless it is
`any`, and it is not `unsat`. -/
def Declarable (s : Schema) : Prop :=
  s ≠ .unsat ∧ .missing ∉ s.branches

theorem declarable_iff {s : Schema} :
    s.Declarable ↔ s.kind ≠ .unsat ∧ ∀ b ∈ s.branches, b.kind ≠ .missing := by
  have hkind {k : Schema} (hk : k = .unsat ∨ k = .missing) (t : Schema) :
      t = k ↔ t.kind = k.kind := by
    rcases hk with rfl | rfl <;> cases t <;> simp [kind]
  refine and_congr (not_congr (hkind (Or.inl rfl) s)) ⟨fun h b hb heq => ?_, fun h hmem => ?_⟩
  · exact h ((hkind (Or.inr rfl) b).2 heq ▸ hb)
  · exact h _ hmem rfl

instance (s : Schema) : Decidable s.Declarable :=
  decidable_of_iff _ declarable_iff.symm

/-- The branches of a canonical disjunction. -/
structure CanonicalBranches (bs : List Schema) : Prop where
  two : 2 ≤ bs.length
  ascending : Ascending bs
  branch : ∀ b ∈ bs, b.IsBranch
  oneDocument : (documents bs).length ≤ 1

instance (bs : List Schema) : Decidable (CanonicalBranches bs) :=
  decidable_of_iff (2 ≤ bs.length ∧ Ascending bs ∧ (∀ b ∈ bs, b.IsBranch) ∧
      (documents bs).length ≤ 1)
    ⟨fun h => ⟨h.1, h.2.1, h.2.2.1, h.2.2.2⟩,
      fun h => ⟨h.two, h.ascending, h.branch, h.oneDocument⟩⟩

/-- What canonicity asks of a schema, leaving aside the schemas inside it. -/
def CanonicalHere : Schema → Prop
  | .anyOf bs => CanonicalBranches bs
  | .document d => ∀ entry ∈ d.keys, entry.2.Declarable
  | _ => True

instance : DecidablePred CanonicalHere
  | .anyOf bs => inferInstanceAs (Decidable (CanonicalBranches bs))
  | .document d => inferInstanceAs (Decidable (∀ entry ∈ d.keys, entry.2.Declarable))
  | .unsat | .missing | .atomic _ | .array _ | .any => .isTrue trivial

/-- A schema in canonical form, at every depth. -/
def Canonical (s : Schema) : Prop :=
  s.Everywhere CanonicalHere

instance (s : Schema) : Decidable s.Canonical :=
  inferInstanceAs (Decidable (s.Everywhere CanonicalHere))

theorem canonical_leaf {s : Schema} (h : s.CanonicalHere) (hleaf : s.children = []) :
    s.Canonical :=
  Everywhere.leaf h hleaf

theorem canonical_unsat : unsat.Canonical := canonical_leaf trivial rfl

theorem canonical_missing : missing.Canonical := canonical_leaf trivial rfl

theorem canonical_any : any.Canonical := canonical_leaf trivial rfl

theorem canonical_atomic (a : Atomic) : (atomic a).Canonical := canonical_leaf trivial rfl

theorem canonical_array_iff {items : Schema} : (array items).Canonical ↔ items.Canonical :=
  Everywhere.array_iff.trans (and_iff_right trivial)

theorem canonical_document_iff {d : Document} :
    (document d).Canonical ↔ ∀ entry ∈ d.keys, entry.2.Declarable ∧ entry.2.Canonical := by
  refine Everywhere.document_iff.trans ⟨?_, ?_⟩
  · rintro ⟨hhere, hinside⟩ entry hmem
    exact ⟨hhere entry hmem, hinside entry hmem⟩
  · intro h
    exact ⟨fun entry hmem => (h entry hmem).1, fun entry hmem => (h entry hmem).2⟩

theorem canonical_anyOf_iff {bs : List Schema} :
    (anyOf bs).Canonical ↔ CanonicalBranches bs ∧ ∀ b ∈ bs, b.Canonical :=
  Everywhere.anyOf_iff

theorem canonical_anyArray : anyArray.Canonical :=
  canonical_array_iff.2 canonical_any

theorem declarable_any : any.Declarable := ⟨nofun, by simp [branches]⟩

theorem Canonical.key {d : Document} {field : String} {s : Schema} (h : (document d).Canonical)
    (hkey : d.key? field = some s) : s.Declarable ∧ s.Canonical :=
  canonical_document_iff.1 h _ (Document.mem_of_key? hkey)

theorem Canonical.declared {d : Document} {field : String} {s : Schema}
    (h : (document d).Canonical) (hdeclared : d.declared? field = some s) :
    s.Declarable ∧ s.Canonical := by
  rcases Document.declared?_cases hdeclared with hkey | ⟨-, -, rfl⟩
  · exact h.key hkey
  · exact ⟨declarable_any, canonical_any⟩

/-! ## Collapsing branches -/

/-- Branches to be sorted and collapsed into a canonical schema. -/
structure Collapsible (bs : List Schema) : Prop where
  branch : ∀ b ∈ bs, b.IsBranch
  canonical : ∀ b ∈ bs, b.Canonical
  oneDocument : (documents bs).length ≤ 1

theorem Canonical.collapsible {bs : List Schema} (h : (anyOf bs).Canonical) : Collapsible bs := by
  obtain ⟨hbs, hcanonical⟩ := canonical_anyOf_iff.1 h
  exact ⟨hbs.branch, hcanonical, hbs.oneDocument⟩

theorem Collapsible.nil : Collapsible [] :=
  ⟨nofun, nofun, Nat.zero_le 1⟩

theorem Collapsible.filter {bs : List Schema} (h : Collapsible bs) (keep : Schema → Bool) :
    Collapsible (bs.filter keep) where
  branch b hb := h.branch b (List.mem_of_mem_filter hb)
  canonical b hb := h.canonical b (List.mem_of_mem_filter hb)
  oneDocument := Nat.le_trans (List.filter_sublist.filterMap _).length_le h.oneDocument

theorem Collapsible.concat {bs : List Schema} {s : Schema} (h : Collapsible bs) (hs : s.IsBranch)
    (hcanonical : s.Canonical) (hdocument : s.kind = .document → documents bs = []) :
    Collapsible (bs ++ [s]) where
  branch := List.forall_mem_append.2 ⟨h.branch, List.forall_mem_singleton.2 hs⟩
  canonical := List.forall_mem_append.2 ⟨h.canonical, List.forall_mem_singleton.2 hcanonical⟩
  oneDocument := by
    rw [documents, List.filterMap_append, List.length_append]
    by_cases hkind : s.kind = .document
    · have hnil := hdocument hkind
      rw [documents] at hnil
      rw [hnil]
      exact Nat.le_trans (Nat.add_le_add_left (List.length_filterMap_le _ _) _) (Nat.le_refl 1)
    · have hnil : documents [s] = [] := by
        rw [List.eq_nil_iff_forall_not_mem]
        intro d hd
        rw [← List.mem_singleton.1 (mem_documents.1 hd)] at hkind
        exact hkind rfl
      rw [documents] at hnil
      rw [hnil]
      exact h.oneDocument

theorem documents_nonDocuments (bs : List Schema) : documents (nonDocuments bs) = [] := by
  rw [List.eq_nil_iff_forall_not_mem]
  intro d hd
  exact (mem_nonDocuments.1 (mem_documents.1 hd)).2 rfl

/-- Collapsing joins branches that are not `any` and have no repetition left. -/
theorem collapse_eq {bs : List Schema} (h : ∀ b ∈ bs, b.IsBranch) :
    collapse bs =
      match sortBranches bs with
      | [] => .unsat
      | [b] => b
      | cs => .anyOf cs := by
  have hany : bs.any isAny = false := by
    rw [List.any_eq_false]
    intro b hmem
    rw [(h b hmem).not_isAny]
    nofun
  rw [collapse, hany]
  rfl

theorem collapse_of_two {bs : List Schema} (h : ∀ b ∈ bs, b.IsBranch)
    (htwo : 2 ≤ (sortBranches bs).length) : collapse bs = .anyOf (sortBranches bs) := by
  rw [collapse_eq h]
  split
  · rename_i hsort
    simp [hsort] at htwo
  · rename_i hsort
    simp [hsort] at htwo
  · rfl

theorem Collapsible.canonical_collapse {bs : List Schema} (h : Collapsible bs) :
    (collapse bs).Canonical := by
  rw [collapse_eq h.branch]
  split
  · exact canonical_unsat
  · rename_i b hsort
    exact h.canonical b (mem_of_mem_sortBranches (hsort ▸ List.mem_singleton_self b))
  · rename_i cs hnil hsingle
    have hmem : ∀ b ∈ sortBranches bs, b ∈ bs := fun b hb => mem_of_mem_sortBranches hb
    refine canonical_anyOf_iff.2 ⟨⟨?_, ascending_sortBranches bs, ?_, ?_⟩, ?_⟩
    · match hsort : sortBranches bs with
      | [] => exact absurd hsort hnil
      | [b] => exact absurd hsort (hsingle b)
      | _ :: _ :: _ => simp
    · exact fun b hb => h.branch b (hmem b hb)
    · exact Nat.le_trans (length_filterMap_sortBranches_le _ bs) h.oneDocument
    · exact fun b hb => h.canonical b (hmem b hb)

private theorem sortBranches_ne_nil {bs : List Schema} (h : bs ≠ []) : sortBranches bs ≠ [] := by
  obtain ⟨b, hb⟩ := List.exists_mem_of_ne_nil bs h
  obtain ⟨c, hc, -⟩ := exists_mem_sortBranches hb
  exact List.ne_nil_of_mem hc

theorem declarable_collapse {bs : List Schema} (h : ∀ b ∈ bs, b.IsBranch) (hne : bs ≠ [])
    (hmissing : .missing ∉ bs) : (collapse bs).Declarable := by
  have hmem : ∀ b ∈ sortBranches bs, b ∈ bs := fun b hb => mem_of_mem_sortBranches hb
  rw [collapse_eq h]
  split
  · rename_i hnil
    exact absurd hnil (sortBranches_ne_nil hne)
  · rename_i b hsort
    have hb : b ∈ bs := hmem b (hsort ▸ List.mem_singleton_self b)
    have hbranch := h b hb
    refine ⟨fun heq => hbranch.1 (heq ▸ rfl), ?_⟩
    cases b with
    | anyOf cs => exact absurd rfl hbranch.2.2
    | missing => exact absurd hb hmissing
    | _ => simp [branches]
  · exact ⟨nofun, fun hmiss => hmissing (hmem _ hmiss)⟩

/-! ## Joins -/

/-- `join` gives canonical schemas from canonical ones, and schemas to declare
fields with from such schemas. -/
structure KeepsCanonical (join : Schema → Schema → Schema) : Prop where
  canonical : ∀ {s t : Schema}, s.Canonical → t.Canonical → (join s t).Canonical
  declarable : ∀ {s t : Schema}, s.Canonical → t.Canonical → s.Declarable → t.Declarable →
    (join s t).Declarable

section Keeps

variable {join : Schema → Schema → Schema} (hjoin : KeepsCanonical join)

include hjoin

theorem KeepsCanonical.unionKey {d o : Document} (hd : (document d).Canonical)
    (ho : (document o).Canonical) {field : String} {s : Schema}
    (h : d.unionKey join o field = some s) : s.Declarable ∧ s.Canonical := by
  rcases Document.unionKey_cases h with ⟨t, v, ht, hv, rfl⟩ | hs | hs | rfl
  · obtain ⟨htd, htc⟩ := hd.declared ht
    obtain ⟨hvd, hvc⟩ := ho.declared hv
    exact ⟨hjoin.declarable htc hvc htd hvd, hjoin.canonical htc hvc⟩
  · exact hd.declared hs
  · exact ho.declared hs
  · exact ⟨declarable_any, canonical_any⟩

/-- Documents that declare the fields of two canonical documents together. -/
theorem KeepsCanonical.of_unionKeys {d o u : Document} (hd : (document d).Canonical)
    (ho : (document o).Canonical) (hu : u.keys = d.unionKeys join o) :
    (document u).Canonical := by
  refine canonical_document_iff.2 fun entry hmem => ?_
  rw [hu] at hmem
  exact hjoin.unionKey hd ho (Document.unionKey_of_mem_unionKeys hmem)

theorem KeepsCanonical.unionWith {d o : Document} (hd : (document d).Canonical)
    (ho : (document o).Canonical) : (document (d.unionWith join o)).Canonical := by
  rcases Document.unionWith_cases join d o with ⟨jaccard, h⟩ | ⟨h, -⟩
  · rw [h]
    exact canonical_document_iff.2 nofun
  · exact hjoin.of_unionKeys hd ho h

theorem KeepsCanonical.mergeWith {d o : Document} (hd : (document d).Canonical)
    (ho : (document o).Canonical) : (document (d.mergeWith join o)).Canonical :=
  hjoin.of_unionKeys hd ho rfl

theorem KeepsCanonical.mergeDocuments {ds : List Document} {e : Document}
    (hds : ∀ d ∈ ds, (document d).Canonical) (h : mergeDocuments join ds = some e) :
    (document e).Canonical := by
  cases ds with
  | nil => cases h
  | cons d rest =>
      cases h
      obtain ⟨hd, hrest⟩ := List.forall_mem_cons.1 hds
      clear hds
      induction rest generalizing d with
      | nil => exact hd
      | cons o rest ih =>
          obtain ⟨ho, hrest⟩ := List.forall_mem_cons.1 hrest
          exact ih (d.mergeWith join o) (hjoin.mergeWith hd ho) hrest

theorem Collapsible.inserted {bs out : List Schema} {s : Schema} (hbs : Collapsible bs)
    (hs : s.IsBranch) (hcanonical : s.Canonical) (h : Inserted join bs s out) :
    Collapsible out := by
  cases h with
  | beside _ hdocument => exact hbs.concat hs hcanonical hdocument
  | @intoArray x y h =>
      have hx : x.Canonical := canonical_array_iff.1 (hbs.canonical _ (mem_of_arrayItems_eq h))
      refine (hbs.filter _).concat (isBranch_array _) ?_ nofun
      exact canonical_array_iff.2 (hjoin.canonical hx (canonical_array_iff.1 hcanonical))
  | intoArrays h => exact (hbs.filter _).concat (isBranch_array _) canonical_anyArray nofun
  | @intoDocument d e h =>
      have hd : (document d).Canonical := hbs.canonical _ (mem_of_documents_eq h)
      refine (hbs.filter _).concat (isBranch_document _) (hjoin.unionWith hd hcanonical) ?_
      exact fun _ => documents_nonDocuments bs

theorem Collapsible.insertBranch {bs : List Schema} {s : Schema} (hbs : Collapsible bs)
    (hs : s.IsBranch) (hcanonical : s.Canonical) : Collapsible (insertBranch join bs s) :=
  hbs.inserted hjoin hs hcanonical (insertBranch_inserted join s hbs.oneDocument)

theorem Collapsible.foldl_insertBranch {ls rs : List Schema} (hls : ∀ b ∈ ls, b.IsBranch)
    (hcanonical : ∀ b ∈ ls, b.Canonical) (hrs : Collapsible rs) :
    Collapsible (ls.foldl (Schema.insertBranch join) rs) := by
  induction ls generalizing rs with
  | nil => exact hrs
  | cons b ls ih =>
      obtain ⟨hb, hls⟩ := List.forall_mem_cons.1 hls
      obtain ⟨hbc, hcanonical⟩ := List.forall_mem_cons.1 hcanonical
      exact ih hls hcanonical (hrs.insertBranch hjoin hb hbc)

theorem KeepsCanonical.joined {s t r : Schema} (hs : s.Canonical) (ht : t.Canonical)
    (h : Joined join s t r) : r.Canonical := by
  cases h with
  | unsat => exact ht
  | any => exact canonical_any
  | fold ls rs =>
      have hls := hs.collapsible
      exact (ht.collapsible.foldl_insertBranch hjoin hls.branch hls.canonical).canonical_collapse
  | insert hbranch rs => exact (ht.collapsible.insertBranch hjoin hbranch hs).canonical_collapse
  | array x y =>
      exact canonical_array_iff.2
        (hjoin.canonical (canonical_array_iff.1 hs) (canonical_array_iff.1 ht))
  | document d e => exact hjoin.unionWith hs ht
  | same => exact hs
  | apart hsb htb hlt hkind =>
      have hsingle : Collapsible [s] := Collapsible.nil.concat hsb hs fun _ => rfl
      have hpair : Collapsible [s, t] := by
        refine hsingle.concat htb ht fun hdocument => ?_
        rw [List.eq_nil_iff_forall_not_mem]
        intro d hd
        rw [← List.mem_singleton.1 (mem_documents.1 hd)] at hkind
        cases hkind hdocument.symm
      refine canonical_anyOf_iff.2 ⟨⟨Nat.le_refl 2, ?_, hpair.branch, hpair.oneDocument⟩, ?_⟩
      · exact List.pairwise_pair.2 hlt
      · exact hpair.canonical

omit hjoin

/-! Joins of schemas without absent values have none. -/

theorem declarable_of_isBranch {s : Schema} (h : s.IsBranch) (hs : s ≠ .missing) :
    s.Declarable := by
  refine ⟨fun heq => h.1 (heq ▸ rfl), ?_⟩
  cases s with
  | anyOf bs => exact absurd rfl h.2.2
  | missing => exact absurd rfl hs
  | _ => simp [branches]

theorem Declarable.ne_missing {s : Schema} (h : s.Declarable) : s ≠ .missing := by
  rintro rfl
  exact h.2 (List.mem_singleton_self _)

theorem missing_notMem_inserted {bs out : List Schema} {s : Schema} (h : Inserted join bs s out)
    (hbs : .missing ∉ bs) (hs : s ≠ .missing) : .missing ∉ out := by
  intro hmem
  cases h with
  | beside =>
      rcases List.mem_append.1 hmem with hmem | hmem
      · exact hbs hmem
      · exact hs (List.mem_singleton.1 hmem).symm
  | intoArray | intoArrays =>
      rcases List.mem_append.1 hmem with hmem | hmem
      · exact hbs (mem_nonArrays.1 hmem).1
      · cases List.mem_singleton.1 hmem
  | intoDocument =>
      rcases List.mem_append.1 hmem with hmem | hmem
      · exact hbs (mem_nonDocuments.1 hmem).1
      · cases List.mem_singleton.1 hmem

theorem inserted_ne_nil {bs out : List Schema} {s : Schema} (h : Inserted join bs s out) :
    out ≠ [] := by
  cases h <;> exact List.append_ne_nil_of_right_ne_nil _ (List.cons_ne_nil _ _)

include hjoin

private theorem missing_notMem_foldl_insertBranch {ls rs : List Schema} (hls : ∀ b ∈ ls, b.IsBranch)
    (hcanonical : ∀ b ∈ ls, b.Canonical) (hrs : Collapsible rs) (hmissing : .missing ∉ ls)
    (hmissing' : .missing ∉ rs) (hne : rs ≠ []) :
    .missing ∉ ls.foldl (insertBranch join) rs ∧ ls.foldl (insertBranch join) rs ≠ [] := by
  induction ls generalizing rs with
  | nil => exact ⟨hmissing', hne⟩
  | cons b ls ih =>
      obtain ⟨hb, hls⟩ := List.forall_mem_cons.1 hls
      obtain ⟨hbc, hcanonical⟩ := List.forall_mem_cons.1 hcanonical
      rw [List.mem_cons, not_or] at hmissing
      have hinserted := insertBranch_inserted join b hrs.oneDocument
      exact ih hls hcanonical (hrs.insertBranch hjoin hb hbc) hmissing.2
        (missing_notMem_inserted hinserted hmissing' (Ne.symm hmissing.1))
        (inserted_ne_nil hinserted)

theorem KeepsCanonical.declarable_joined {s t r : Schema} (hs : s.Canonical) (ht : t.Canonical)
    (hsd : s.Declarable) (htd : t.Declarable) (h : Joined join s t r) : r.Declarable := by
  cases h with
  | unsat => exact htd
  | any => exact declarable_any
  | fold ls rs =>
      have hls := hs.collapsible
      have hrs := ht.collapsible
      have hne : rs ≠ [] := by
        rintro rfl
        exact absurd (canonical_anyOf_iff.1 ht).1.two (by simp)
      obtain ⟨hmissing, hout⟩ :=
        missing_notMem_foldl_insertBranch hjoin hls.branch hls.canonical hrs hsd.2 htd.2 hne
      exact declarable_collapse
        (hrs.foldl_insertBranch hjoin hls.branch hls.canonical).branch hout hmissing
  | insert hbranch rs =>
      have hrs := ht.collapsible
      have hinserted := insertBranch_inserted join s hrs.oneDocument
      exact declarable_collapse (hrs.insertBranch hjoin hbranch hs).branch
        (inserted_ne_nil hinserted)
        (missing_notMem_inserted hinserted htd.2 hsd.ne_missing)
  | array x y => exact declarable_of_isBranch (isBranch_array _) nofun
  | document d e => exact declarable_of_isBranch (isBranch_document _) nofun
  | same => exact hsd
  | apart hsb htb hlt hkind =>
      refine ⟨nofun, fun hmem => ?_⟩
      rcases List.mem_pair.1 hmem with rfl | rfl
      · exact hsd.ne_missing rfl
      · exact htd.ne_missing rfl

end Keeps

theorem keepsCanonical_joinWithin (level : Nat) : KeepsCanonical (joinWithin level) := by
  induction level with
  | zero => exact ⟨fun _ _ => canonical_any, fun _ _ _ _ => declarable_any⟩
  | succ level ih =>
      refine ⟨fun {s t} hs ht => ?_, fun {s t} hs ht hsd htd => ?_⟩
      · rcases joinWithin_joined level s t with h | h
        · exact ih.joined hs ht h
        · exact ih.joined ht hs h
      · rcases joinWithin_joined level s t with h | h
        · exact ih.declarable_joined hs ht hsd htd h
        · exact ih.declarable_joined ht hs htd hsd h

theorem keepsCanonical_join : KeepsCanonical join :=
  ⟨fun hs ht => (keepsCanonical_joinWithin _).canonical hs ht,
    fun hs ht hsd htd => (keepsCanonical_joinWithin _).declarable hs ht hsd htd⟩

end Schema

end DocShape
