import DocShape.Proofs.Preorder
import DocShape.Proofs.Simplify

/-!
# Unions are upper bounds

A canonical schema is within its union with any schema, on either side.  One
step of a join widens if the join of the parts does; the branches of a fold are
covered by the branches it ends with.
-/

namespace DocShape

namespace Schema

/-- `join` gives a schema that both canonical arguments are within. -/
structure Widens (join : Schema → Schema → Schema) : Prop where
  left : ∀ {s t : Schema}, s.Canonical → t.Canonical → s.Within (join s t)
  right : ∀ {s t : Schema}, s.Canonical → t.Canonical → t.Within (join s t)

theorem Widens.flip {join : Schema → Schema → Schema} (h : Widens join) : Widens (flip join) :=
  ⟨fun hs ht => h.right ht hs, fun hs ht => h.left ht hs⟩

theorem KeepsCanonical.flip {join : Schema → Schema → Schema} (h : KeepsCanonical join) :
    KeepsCanonical (flip join) :=
  ⟨fun hs ht => h.canonical ht hs, fun hs ht hsd htd => h.declarable ht hs htd hsd⟩

/-- Fields widen with their schemas, and by no longer being required. -/
theorem Within.field {s t : Schema} (h : s.Within t) (ht : t.Canonical) (htd : t.Declarable)
    {required required' : Bool} (hrequired : required' = true → required = true) :
    (if required then s else s.orMissing).Within (if required' then t else t.orMissing) := by
  obtain ⟨hpresent, habsent⟩ := ht.within_orMissing htd
  cases required' with
  | true =>
      rw [hrequired rfl]
      exact h
  | false =>
      cases required with
      | true => exact h.trans hpresent ht
      | false => exact orMissing_within_iff.2 ⟨h.trans hpresent ht, habsent⟩

end Schema

/-! ## Document types -/

namespace Document

variable {join : Schema → Schema → Schema} {d o u : Document}

/-- A declared field is within what the union declares for it. -/
theorem within_unionKey (hwidens : Schema.Widens join) (hd : (Schema.document d).Canonical)
    (ho : (Schema.document o).Canonical) {field : String} {s w : Schema}
    (hs : d.declared? field = some s) (hw : d.unionKey join o field = some w) : s.Within w := by
  have hsc := (hd.declared hs).2
  cases hos : o.declared? field with
  | some t =>
      rw [unionKey_both hs hos] at hw
      split at hw
      · cases hw
        exact hwidens.left hsc (ho.declared hos).2
      · cases hw
  | none =>
      rw [unionKey_left hs (declared?_eq_none.1 hos)] at hw
      cases hw
      split
      · exact Schema.within_any s
      · exact hsc.within_self

theorem IsUnion.fieldSchema_fits (h : IsUnion join u d o) (hjoin : Schema.KeepsCanonical join)
    (hwidens : Schema.Widens join) (hd : (Schema.document d).Canonical)
    (ho : (Schema.document o).Canonical) {field : String} (hfield : u.hasKey field = true) :
    (d.fieldSchema field).Within (u.fieldSchema field) := by
  obtain ⟨w, hw⟩ := Option.isSome_iff_exists.1 hfield
  have hunion : d.unionKey join o field = some w := (h.key field).symm.trans hw
  obtain ⟨hwd, hwc⟩ := hjoin.unionKey hd ho hunion
  rw [fieldSchema_of_declared (declared?_of_key? hw)]
  cases hds : d.declared? field with
  | some s =>
      rw [fieldSchema_of_declared hds]
      refine (within_unionKey hwidens hd ho hds hunion).field hwc hwd fun hrequires => ?_
      rw [h.requires, Bool.and_eq_true] at hrequires
      exact hrequires.1
  | none =>
      have hmentions := declared?_eq_none.1 hds
      have hrequires : u.requires field = false := by
        rw [Document.mentions, Bool.or_eq_false_iff] at hmentions
        rw [h.requires, hmentions.2, Bool.false_and]
      rw [fieldSchema_of_not_mentions hmentions, hrequires]
      cases hopen : d.isOpen with
      | false => exact (hwc.within_orMissing hwd).2
      | true =>
          -- an open side lets the field be anything, and so does the union
          cases hos : o.declared? field with
          | some t =>
              rw [unionKey_right hmentions hos, hopen] at hunion
              cases hunion
              exact Schema.within_any _
          | none =>
              rw [unionKey_of_not_mentions hmentions (declared?_eq_none.1 hos)] at hunion
              cases hunion

theorem IsUnion.fitsIn (h : IsUnion join u d o) (hjoin : Schema.KeepsCanonical join)
    (hwidens : Schema.Widens join) (hd : (Schema.document d).Canonical)
    (ho : (Schema.document o).Canonical) : d.FitsIn u where
  closed hclosed := by
    rw [h.isOpen, Bool.or_eq_false_iff] at hclosed
    refine ⟨hclosed.1, fun field hfield => ?_, fun entry hmem => Or.inl ?_⟩
    · rw [h.mentions, Document.mentions, hfield, Bool.or_true, Bool.true_or]
    · rw [h.mentions, Document.mentions, hasKey_of_mem hmem, Bool.true_or, Bool.true_or]
  declared field hfield := h.fieldSchema_fits hjoin hwidens hd ho hfield
  requires field hfield := by
    rw [h.requires, Bool.and_eq_true] at hfield
    exact hfield.1

theorem fitsIn_unconstrained (d : Document) (jaccard : Option Jaccard) :
    d.FitsIn { unconstrained with jaccard } :=
  ⟨nofun, nofun, nofun⟩

theorem fitsIn_unionWith (hjoin : Schema.KeepsCanonical join) (hwidens : Schema.Widens join)
    (hd : (Schema.document d).Canonical) (ho : (Schema.document o).Canonical) :
    d.FitsIn (d.unionWith join o) ∧ o.FitsIn (d.unionWith join o) := by
  rcases unionWith_cases join d o with ⟨jaccard, h⟩ | ⟨-, h⟩
  · rw [h]
    exact ⟨fitsIn_unconstrained d _, fitsIn_unconstrained o _⟩
  · exact ⟨h.fitsIn hjoin hwidens hd ho, h.symm.fitsIn hjoin.flip hwidens.flip ho hd⟩

end Document

namespace Schema

/-! ## Branches -/

/-- Every schema of the one list is within some schema of the other. -/
def CoveredBy (bs cs : List Schema) : Prop :=
  ∀ b ∈ bs, ∃ c ∈ cs, b.Within c

theorem coveredBy_of_subset {bs cs : List Schema} (h : ∀ b ∈ bs, b ∈ cs)
    (hbs : ∀ b ∈ bs, b.Canonical) : CoveredBy bs cs :=
  fun b hb => ⟨b, h b hb, (hbs b hb).within_self⟩

theorem CoveredBy.trans {bs cs ds : List Schema} (h : CoveredBy bs cs) (h' : CoveredBy cs ds)
    (hcs : ∀ c ∈ cs, c.Canonical) : CoveredBy bs ds := by
  intro b hb
  obtain ⟨c, hc, hbc⟩ := h b hb
  obtain ⟨e, he, hce⟩ := h' c hc
  exact ⟨e, he, hbc.trans hce (hcs c hc)⟩

theorem Collapsible.within_collapse {bs : List Schema} (h : Collapsible bs) {b : Schema}
    (hb : b ∈ bs) : b.Within (collapse bs) :=
  (within_collapse_iff (h.branch b hb)).2 ⟨b, hb, (h.canonical b hb).within_self⟩

theorem CoveredBy.within_collapse {bs cs : List Schema} (h : CoveredBy bs cs) {b : Schema}
    (hb : b ∈ bs) (hbranch : b.IsBranch) : b.Within (collapse cs) :=
  (within_collapse_iff hbranch).2 (h b hb)

/-- Branches of one variant can give way to a schema that they are all within. -/
theorem coveredBy_replaced {bs : List Schema} {s m : Schema} {k : Kind}
    (hbs : ∀ b ∈ bs, b.Canonical) (hs : s.Within m) (hm : ∀ b ∈ bs, b.kind = k → b.Within m) :
    CoveredBy (s :: bs) (bs.filter (fun b => b.kind != k) ++ [m]) := by
  intro b hb
  rcases List.mem_cons.1 hb with rfl | hb
  · exact ⟨m, List.mem_append_right _ (List.mem_singleton_self m), hs⟩
  · by_cases hkind : b.kind = k
    · exact ⟨m, List.mem_append_right _ (List.mem_singleton_self m), hm b hb hkind⟩
    · refine ⟨b, List.mem_append_left _ (List.mem_filter.2 ⟨hb, ?_⟩), (hbs b hb).within_self⟩
      exact bne_iff_ne.2 hkind

section Steps

variable {join : Schema → Schema → Schema} (hjoin : KeepsCanonical join) (hwidens : Widens join)

include hjoin hwidens

/-- Adding a branch covers it and the branches that were there. -/
theorem coveredBy_inserted {bs out : List Schema} {s : Schema} (hbs : Collapsible bs)
    (hs : s.Canonical) (h : Inserted join bs s out) : CoveredBy (s :: bs) out := by
  cases h with
  | beside _ _ =>
      refine coveredBy_of_subset (fun b hb => ?_) (List.forall_mem_cons.2 ⟨hs, hbs.canonical⟩)
      rw [List.mem_append, List.mem_singleton]
      exact (List.mem_cons.1 hb).symm
  | @intoArray x y hitems =>
      have hx : x.Canonical :=
        canonical_array_iff.1 (hbs.canonical _ (mem_of_arrayItems_eq hitems))
      have hy : y.Canonical := canonical_array_iff.1 hs
      refine coveredBy_replaced hbs.canonical (array_within_iff.2 (hwidens.right hx hy)) ?_
      intro b hb hkind
      obtain ⟨z, rfl⟩ := kind_eq_array hkind
      have hz := mem_arrayItems.2 hb
      rw [hitems, List.mem_singleton] at hz
      rw [hz]
      exact array_within_iff.2 (hwidens.left hx hy)
  | @intoArrays y _ =>
      refine coveredBy_replaced hbs.canonical (array_within_iff.2 (within_any y)) ?_
      intro b _ hkind
      obtain ⟨z, rfl⟩ := kind_eq_array hkind
      exact array_within_iff.2 (within_any z)
  | @intoDocument d e hdocuments =>
      have hd : (document d).Canonical := hbs.canonical _ (mem_of_documents_eq hdocuments)
      obtain ⟨hleft, hright⟩ := Document.fitsIn_unionWith hjoin hwidens hd hs
      refine coveredBy_replaced hbs.canonical (document_within_iff.2 hright) ?_
      intro b hb hkind
      obtain ⟨f, rfl⟩ := kind_eq_document hkind
      have hf := mem_documents.2 hb
      rw [hdocuments, List.mem_singleton] at hf
      rw [hf]
      exact document_within_iff.2 hleft

theorem coveredBy_insertBranch {bs : List Schema} {s : Schema} (hbs : Collapsible bs)
    (hs : s.Canonical) : CoveredBy (s :: bs) (insertBranch join bs s) :=
  coveredBy_inserted hjoin hwidens hbs hs (insertBranch_inserted join s hbs.oneDocument)

/-- Folding branches into others covers both. -/
theorem coveredBy_foldl_insertBranch {ls rs : List Schema} (hls : ∀ b ∈ ls, b.IsBranch)
    (hcanonical : ∀ b ∈ ls, b.Canonical) (hrs : Collapsible rs) :
    CoveredBy (ls ++ rs) (ls.foldl (insertBranch join) rs) := by
  induction ls generalizing rs with
  | nil => exact coveredBy_of_subset (fun b hb => hb) hrs.canonical
  | cons l ls ih =>
      obtain ⟨hl, hls⟩ := List.forall_mem_cons.1 hls
      obtain ⟨hlc, hcanonical⟩ := List.forall_mem_cons.1 hcanonical
      have hnext := hrs.insertBranch hjoin hl hlc
      have hrest := ih hls hcanonical hnext
      have hstep : CoveredBy (l :: rs) (ls.foldl (insertBranch join) (insertBranch join rs l)) := by
        refine (coveredBy_insertBranch hjoin hwidens hrs hlc).trans ?_ hnext.canonical
        exact fun b hb => hrest b (List.mem_append_right ls hb)
      intro b hb
      rcases List.mem_append.1 hb with hb | hb
      · rcases List.mem_cons.1 hb with rfl | hb
        · exact hstep b List.mem_cons_self
        · exact hrest b (List.mem_append_left _ hb)
      · exact hstep b (List.mem_cons_of_mem l hb)

/-! ## Joins -/

theorem Joined.within {s t r : Schema} (h : Joined join s t r) (hs : s.Canonical)
    (ht : t.Canonical) : s.Within r ∧ t.Within r := by
  cases h with
  | unsat => exact ⟨within_of_isVacuous rfl, ht.within_self⟩
  | any => exact ⟨within_any s, within_any _⟩
  | fold ls rs =>
      have hls := hs.collapsible
      have hrs := ht.collapsible
      have hcovered := coveredBy_foldl_insertBranch hjoin hwidens hls.branch hls.canonical hrs
      refine ⟨anyOf_within_iff.2 fun b hb => ?_, anyOf_within_iff.2 fun b hb => ?_⟩
      · exact hcovered.within_collapse (List.mem_append_left rs hb) (hls.branch b hb)
      · exact hcovered.within_collapse (List.mem_append_right ls hb) (hrs.branch b hb)
  | insert hbranch rs =>
      have hrs := ht.collapsible
      have hcovered := coveredBy_insertBranch hjoin hwidens hrs hs
      refine ⟨hcovered.within_collapse List.mem_cons_self hbranch,
        anyOf_within_iff.2 fun b hb => ?_⟩
      exact hcovered.within_collapse (List.mem_cons_of_mem s hb) (hrs.branch b hb)
  | array x y =>
      have hx := canonical_array_iff.1 hs
      have hy := canonical_array_iff.1 ht
      exact ⟨array_within_iff.2 (hwidens.left hx hy), array_within_iff.2 (hwidens.right hx hy)⟩
  | document d e =>
      obtain ⟨hleft, hright⟩ := Document.fitsIn_unionWith hjoin hwidens hs ht
      exact ⟨document_within_iff.2 hleft, document_within_iff.2 hright⟩
  | same => exact ⟨hs.within_self, hs.within_self⟩
  | apart hsb htb =>
      refine ⟨(within_anyOf_iff hsb).2 ⟨s, List.mem_cons_self, hs.within_self⟩,
        (within_anyOf_iff htb).2 ⟨t, ?_, ht.within_self⟩⟩
      exact List.mem_cons_of_mem s (List.mem_singleton_self t)

end Steps

theorem widens_joinWithin (level : Nat) : Widens (joinWithin level) := by
  induction level with
  | zero => exact ⟨fun _ _ => within_any _, fun _ _ => within_any _⟩
  | succ level ih =>
      have hjoin := keepsCanonical_joinWithin level
      have hboth {s t : Schema} (hs : s.Canonical) (ht : t.Canonical) :
          s.Within (joinWithin (level + 1) s t) ∧ t.Within (joinWithin (level + 1) s t) := by
        rcases joinWithin_joined level s t with h | h
        · exact h.within hjoin ih hs ht
        · exact (h.within hjoin ih ht hs).symm
      exact ⟨fun hs ht => (hboth hs ht).1, fun hs ht => (hboth hs ht).2⟩

theorem widens_join : Widens join :=
  ⟨fun hs ht => (widens_joinWithin _).left hs ht, fun hs ht => (widens_joinWithin _).right hs ht⟩

theorem canonical_union (s t : Schema) : (s.union t).Canonical :=
  keepsCanonical_join.canonical (canonical_simplify s) (canonical_simplify t)

theorem Canonical.within_union {s : Schema} (hs : s.Canonical) (t : Schema) :
    s.Within (s.union t) ∧ s.Within (t.union s) := by
  have ht := canonical_simplify t
  rw [union, union, simplify_of_canonical hs]
  exact ⟨widens_join.left hs ht, widens_join.right ht hs⟩

/-- A running union keeps what it started from, and takes in each schema it meets. -/
theorem within_foldl_union {acc : Schema} (hacc : acc.Canonical) (xs : List Schema) :
    (xs.foldl union acc).Canonical ∧ acc.Within (xs.foldl union acc) ∧
      ∀ x ∈ xs, x.simplify.Within (xs.foldl union acc) := by
  induction xs generalizing acc with
  | nil => exact ⟨hacc, hacc.within_self, List.forall_mem_nil _⟩
  | cons x rest ih =>
      have hnext := canonical_union acc x
      obtain ⟨hcanonical, hkept, hrest⟩ := ih hnext
      have hleft : acc.Within (acc.union x) := (hacc.within_union x).1
      have hright : x.simplify.Within (acc.union x) :=
        widens_join.right (canonical_simplify acc) (canonical_simplify x)
      refine ⟨hcanonical, hleft.trans hkept hnext, List.forall_mem_cons.2 ⟨?_, hrest⟩⟩
      exact hright.trans hkept hnext

theorem canonical_unions (xs : List Schema) : (unions xs).Canonical :=
  (within_foldl_union canonical_unsat xs).1

theorem within_unions {x : Schema} {xs : List Schema} (h : x ∈ xs) :
    x.simplify.Within (unions xs) :=
  (within_foldl_union canonical_unsat xs).2.2 x h

/-- A canonical schema is contained, for sure, in its union with any schema. -/
theorem canonical_satisfies_union {s : Schema} (hs : s.simplify = s) (t : Schema) :
    s.satisfies (s.union t) = .must ∧ s.satisfies (t.union s) = .must := by
  have hcanonical := canonical_iff_simplify_eq.2 hs
  have ht := canonical_simplify t
  rw [union, union, hs]
  exact ⟨widens_join.left hcanonical ht, widens_join.right ht hcanonical⟩

/-- A record, against a nested disjunction that is not canonical and holds a
document with statistics. -/
theorem canonical_satisfies_union_nested :
    (document (.ofFields [("id", .any)] ["id"] false)).simplify =
        .document (.ofFields [("id", .any)] ["id"] false) ∧
      (document (.ofFields [("id", .any)] ["id"] false)).satisfies
          ((document (.ofFields [("id", .any)] ["id"] false)).union
            (.anyOf [.anyOf [.array .unsat],
              .document { Document.unconstrained with jaccard := some (.fresh 0.8) }])) = .must ∧
        (document (.ofFields [("id", .any)] ["id"] false)).satisfies
          ((anyOf [.anyOf [.array .unsat],
              .document { Document.unconstrained with jaccard := some (.fresh 0.8) }]).union
            (.document (.ofFields [("id", .any)] ["id"] false))) = .must := by
  have hsimplify : (document (.ofFields [("id", .any)] ["id"] false)).simplify =
      .document (.ofFields [("id", .any)] ["id"] false) := rfl
  exact ⟨hsimplify, canonical_satisfies_union hsimplify _⟩

end Schema

end DocShape
