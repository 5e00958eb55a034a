import DocShape.Proofs.Closure
import DocShape.Proofs.Containment
import DocShape.Proofs.Simplify

/-!
# Joins that find every shape stable

Whether a union of documents gives up on their fields depends on statistics, and
on nothing else that a join does.  So a join in which no document union finds
its shape unstable is, statistics apart, the join without statistics.
-/

namespace DocShape

/-! ## The indexes that a join finds -/

namespace Document

/-- The index that a union of the two types records, if either has statistics. -/
def unionIndex? (d o : Document) : Option Jaccard :=
  (Jaccard.combine d.jaccard o.jaccard).map fun j =>
    j.update (Jaccard.similarity d.keyNames o.keyNames)

/-- What is found inside a field that both types mention. -/
def fieldIndexes (inside : Schema → Schema → List Jaccard) (d o : Document) (field : String) :
    List Jaccard :=
  match d.declared? field, o.declared? field with
  | some s, some t => if d.hasKey field || o.hasKey field then inside s t else []
  | _, _ => []

/-- The index of a union, and what is found inside the fields unless that one is
unstable. -/
def unionIndexes (inside : Schema → Schema → List Jaccard) (d o : Document) : List Jaccard :=
  (d.unionIndex? o).toList ++
    if (d.unionIndex? o).any Jaccard.isUnstable then []
    else (NameSet.union d.fieldNames o.fieldNames).flatMap (d.fieldIndexes inside o)

end Document

namespace Schema

/-- What adding a branch to canonical branches finds; they hold at most one
document. -/
def insertIndexes (inside : Schema → Schema → List Jaccard) (branches : List Schema) :
    Schema → List Jaccard
  | .array items =>
      match arrayItems branches with
      | [other] => inside other items
      | _ => []
  | .document d => (documents branches).flatMap fun e => e.unionIndexes inside d
  | _ => []

/-- What adding branches one after the other finds. -/
def foldIndexes (join : Schema → Schema → Schema) (inside : Schema → Schema → List Jaccard) :
    List Schema → List Schema → List Jaccard
  | _, [] => []
  | branches, b :: rest =>
      insertIndexes inside branches b ++ foldIndexes join inside (insertBranch join branches b) rest

/-- What a join of two canonical schemas in order finds. -/
def orderedIndexes (join : Schema → Schema → Schema) (inside : Schema → Schema → List Jaccard) :
    Schema → Schema → List Jaccard
  | .unsat, _ => []
  | _, .any => []
  | .anyOf ls, right => foldIndexes join inside right.branches ls
  | left, .anyOf rs => insertIndexes inside rs left
  | .array x, .array y => inside x y
  | .document d, .document e => d.unionIndexes inside e
  | _, _ => []

/-- The indexes that the document unions of `joinWithin` find. -/
def indexesWithin : (level : Nat) → Schema → Schema → List Jaccard
  | 0, _, _ => []
  | level + 1, s, t =>
      if s.compare t = .gt then orderedIndexes (joinWithin level) (indexesWithin level) t s
      else orderedIndexes (joinWithin level) (indexesWithin level) s t

/-- The indexes that the document unions of a union of canonical schemas find. -/
def unionIndexes (s t : Schema) : List Jaccard :=
  indexesWithin (max s.nest t.nest + 1) s t

end Schema

/-! ## Documents -/

namespace Document

variable {d o : Document} {field : String}

theorem declared?_bare (d : Document) (field : String) :
    d.bare.declared? field = (d.declared? field).map Schema.bare := by
  rw [declared?, declared?, key?_bare, requires_bare]
  cases d.key? field with
  | some s => rfl
  | none => cases d.requires field <;> rfl

private theorem keyNames_bare (d : Document) : d.bare.keyNames = d.keyNames := by
  rw [keyNames, FieldMap.names, bare_keys, List.map_map]
  rfl

theorem fieldNames_bare (d : Document) : d.bare.fieldNames = d.fieldNames := by
  rw [fieldNames, fieldNames, keyNames_bare, bare_required]

variable {join : Schema → Schema → Schema}

private theorem unionKey_bare
    (h : ∀ s t, d.declared? field = some s → o.declared? field = some t →
      (d.hasKey field || o.hasKey field) = true → (join s t).bare = join s.bare t.bare) :
    d.bare.unionKey join o.bare field = (d.unionKey join o field).map Schema.bare := by
  rw [unionKey, unionKey, declared?_bare, declared?_bare, hasKey_bare, hasKey_bare, bare_isOpen,
    bare_isOpen]
  cases hd : d.declared? field with
  | none =>
      cases o.declared? field with
      | none => rfl
      | some t => cases d.isOpen <;> rfl
  | some s =>
      cases ho : o.declared? field with
      | none => cases o.isOpen <;> rfl
      | some t =>
          dsimp only [Option.map_some]
          split
          · rename_i hkey
            rw [Option.map_some, h s t hd ho hkey]
          · rfl

private theorem unionKeys_bare
    (h : ∀ field s t, d.declared? field = some s → o.declared? field = some t →
      (d.hasKey field || o.hasKey field) = true → (join s t).bare = join s.bare t.bare) :
    d.bare.unionKeys join o.bare = (d.unionKeys join o).map bareField := by
  rw [unionKeys, unionKeys, fieldNames_bare, fieldNames_bare, FieldMap.collect, FieldMap.collect,
    List.map_filterMap]
  refine List.filterMap_congr fun field _ => ?_
  rw [unionKey_bare (h field), Option.map_map, Option.map_map]
  rfl

/-- A union whose index is not unstable is the union without statistics, if so
are the joins of the fields. -/
theorem unionWith_bare (hindex : (d.unionIndex? o).any Jaccard.isUnstable = false)
    (h : ∀ field s t, d.declared? field = some s → o.declared? field = some t →
      (d.hasKey field || o.hasKey field) = true → (join s t).bare = join s.bare t.bare) :
    d.bare.unionWith join o.bare = (d.unionWith join o).bare := by
  rw [unionIndex?] at hindex
  rw [unionWith, unionWith, bare_jaccard, bare_jaccard]
  simp only [hindex, Bool.false_eq_true, if_false]
  rw [Document.bare, bareKeys_eq_map, ← unionKeys_bare h, bare_required, bare_required, bare_isOpen,
    bare_isOpen, bare_references, bare_references]
  rfl

end Document

/-! ## Branches -/

namespace Schema

theorem arrayItems_bare (bs : List Schema) : arrayItems (bs.map bare) = (arrayItems bs).map bare := by
  rw [arrayItems, arrayItems, List.filterMap_map, List.map_filterMap]
  refine List.filterMap_congr fun b _ => ?_
  cases b <;> rfl

theorem documents_bare (bs : List Schema) :
    documents (bs.map bare) = (documents bs).map Document.bare := by
  rw [documents, documents, List.filterMap_map, List.map_filterMap]
  refine List.filterMap_congr fun b _ => ?_
  cases b <;> rfl

theorem filter_kind_bare (k : Kind) (bs : List Schema) :
    (bs.map bare).filter (fun b => b.kind != k) = (bs.filter fun b => b.kind != k).map bare := by
  rw [List.filter_map]
  simp only [Function.comp_def, kind_bare]

theorem collapse_bare (bs : List Schema) : collapse (bs.map bare) = (collapse bs).bare := by
  have hany : (bs.map bare).any isAny = bs.any isAny := by
    simp only [List.any_map, Function.comp_def, isAny_bare]
  rw [collapse, collapse, hany, sortBranches_bare]
  split
  · rfl
  · cases sortBranches bs with
    | nil => rfl
    | cons b rest =>
        cases rest with
        | nil => rfl
        | cons c rest => rw [bare_anyOf]; rfl

/-! ## Steps -/

/-- A join that is the join without statistics wherever it finds every shape stable. -/
def BareIfStable (join : Schema → Schema → Schema) (inside : Schema → Schema → List Jaccard) :
    Prop :=
  ∀ {s t : Schema}, s.Canonical → t.Canonical → (∀ j ∈ inside s t, j.isUnstable = false) →
    join s.bare t.bare = (join s t).bare

section Steps

variable {join : Schema → Schema → Schema} {inside : Schema → Schema → List Jaccard}
  (hinside : BareIfStable join inside) (hjoin : KeepsCanonical join)

include hinside

theorem document_unionWith_bare {d o : Document} (hd : (document d).Canonical)
    (ho : (document o).Canonical) (h : ∀ j ∈ d.unionIndexes inside o, j.isUnstable = false) :
    d.bare.unionWith join o.bare = (d.unionWith join o).bare := by
  obtain ⟨hown, hfields⟩ := List.forall_mem_append.1 h
  have hindex : (d.unionIndex? o).any Jaccard.isUnstable = false := by
    cases hj : d.unionIndex? o with
    | none => rfl
    | some j => exact hown j (by rw [hj]; exact List.mem_singleton_self j)
  rw [hindex] at hfields
  refine Document.unionWith_bare hindex fun field s t hs ht hkey => ?_
  refine (hinside (hd.declared hs).2 (ho.declared ht).2 fun j hj => ?_).symm
  have hmentions : d.mentions field = true := by
    rw [← Document.declared?_isSome, hs]
    rfl
  refine hfields j (List.mem_flatMap.2 ⟨field, ?_, ?_⟩)
  · exact NameSet.mem_union.2 (Or.inl (Document.mem_fieldNames.2 hmentions))
  · simpa only [Document.fieldIndexes, hs, ht, hkey, if_true] using hj

theorem insertBranch_bare {bs : List Schema} {s : Schema} (hbs : Collapsible bs) (hs : s.Canonical)
    (h : ∀ j ∈ insertIndexes inside bs s, j.isUnstable = false) :
    insertBranch join (bs.map bare) s.bare = (insertBranch join bs s).map bare := by
  cases s with
  | array y =>
      rw [bare_array, insertBranch, insertBranch, nonArrays, nonArrays, filter_kind_bare,
        List.map_append, arrayItems_bare]
      rw [insertIndexes] at h
      congr 1
      cases hitems : arrayItems bs with
      | nil => rfl
      | cons x rest =>
          cases rest with
          | cons z rest => rfl
          | nil =>
              have hx : (array x).Canonical := hbs.canonical _ (mem_of_arrayItems_eq hitems)
              rw [hitems] at h
              have hbare := hinside (canonical_array_iff.1 hx) (canonical_array_iff.1 hs) h
              simp only [List.map_cons, List.map_nil, hbare, bare_array]
  | document e =>
      rw [bare_document, insertBranch, insertBranch, nonDocuments, nonDocuments, filter_kind_bare,
        List.map_append, documents_bare]
      rw [insertIndexes] at h
      congr 1
      cases hdocuments : documents bs with
      | nil => rfl
      | cons d rest =>
          have hone : documents bs = [d] := by
            have hlength := hbs.oneDocument
            rw [hdocuments] at hlength ⊢
            rw [List.eq_nil_of_length_eq_zero (Nat.le_zero.1 (Nat.le_of_succ_le_succ hlength))]
          have hd : (document d).Canonical := hbs.canonical _ (mem_of_documents_eq hone)
          rw [hone, List.flatMap_singleton] at h
          have hbare := document_unionWith_bare hinside hd hs h
          rw [← hdocuments, hone]
          simp only [List.map_cons, List.map_nil, mergeDocuments, List.foldl_nil, hbare,
            bare_document]
  | _ =>
      show bs.map bare ++ _ = (bs ++ _).map bare
      rw [List.map_append]
      rfl

include hjoin

private theorem foldl_insertBranch_bare {ls rs : List Schema} (hls : ∀ b ∈ ls, b.IsBranch)
    (hcanonical : ∀ b ∈ ls, b.Canonical) (hrs : Collapsible rs)
    (h : ∀ j ∈ foldIndexes join inside rs ls, j.isUnstable = false) :
    (ls.map bare).foldl (insertBranch join) (rs.map bare) =
      (ls.foldl (insertBranch join) rs).map bare := by
  induction ls generalizing rs with
  | nil => rfl
  | cons l ls ih =>
      obtain ⟨hl, hls⟩ := List.forall_mem_cons.1 hls
      obtain ⟨hlcanonical, hcanonical⟩ := List.forall_mem_cons.1 hcanonical
      obtain ⟨hhead, hrest⟩ := List.forall_mem_append.1 h
      rw [List.map_cons, List.foldl_cons, List.foldl_cons,
        insertBranch_bare hinside hrs hlcanonical hhead]
      exact ih hls hcanonical (hrs.insertBranch hjoin hl hlcanonical) hrest

omit hinside hjoin in
private theorem pair_bare (s t : Schema) :
    (if s.bare.same t.bare then s.bare else ofBranches [s.bare, t.bare]) =
      (if s.same t then s else ofBranches [s, t]).bare := by
  rw [same, same, compare_bare_left, compare_bare_right]
  split
  · rfl
  · exact ofBranches_bare [s, t]

end Steps

/-- One level of a join of schemas in order. -/
theorem joinWithin_succ_bare {level : Nat} {s t : Schema}
    (hinside : BareIfStable (joinWithin level) (indexesWithin level)) (hs : s.Canonical)
    (ht : t.Canonical) (hle : s.compare t ≠ .gt)
    (h : ∀ j ∈ orderedIndexes (joinWithin level) (indexesWithin level) s t,
      j.isUnstable = false) :
    joinWithin (level + 1) s.bare t.bare = (joinWithin (level + 1) s t).bare := by
  have hrank := rank_le_of_compare_ne_gt hle
  have hinsert {b : Schema} {rs : List Schema} (hb : b.Canonical) (hrs : (anyOf rs).Canonical)
      (hj : ∀ j ∈ insertIndexes (indexesWithin level) rs b, j.isUnstable = false) :
      collapse (insertBranch (joinWithin level) (rs.map bare) b.bare) =
        (collapse (insertBranch (joinWithin level) rs b)).bare := by
    rw [insertBranch_bare hinside hrs.collapsible hb hj, collapse_bare]
  have hpair := pair_bare s t
  rw [joinWithin, joinWithin]
  simp only [compare_bare_left, compare_bare_right, if_neg hle]
  cases s with
  | unsat => rfl
  | anyOf ls =>
      cases t with
      | any => rfl
      | anyOf rs =>
          have hls := hs.collapsible
          simp only [bare_anyOf, branches]
          rw [foldl_insertBranch_bare hinside (keepsCanonical_joinWithin level) hls.branch
            hls.canonical ht.collapsible h, collapse_bare]
      | _ => simp [kind, Kind.rank] at hrank
  | any =>
      cases t with
      | any => rfl
      | _ => simp [kind, Kind.rank] at hrank
  | array x =>
      cases t with
      | any => rfl
      | anyOf rs =>
          rw [bare_anyOf]
          exact hinsert hs ht h
      | array y =>
          exact congrArg array (hinside (canonical_array_iff.1 hs) (canonical_array_iff.1 ht) h)
      | _ => exact hpair
  | document d =>
      cases t with
      | any => rfl
      | anyOf rs =>
          rw [bare_anyOf]
          exact hinsert hs ht h
      | document e => exact congrArg document (document_unionWith_bare hinside hs ht h)
      | _ => exact hpair
  | _ =>
      cases t with
      | any => rfl
      | anyOf rs =>
          rw [bare_anyOf]
          exact hinsert hs ht h
      | _ => exact hpair

/-- A join in which every index found is stable is the join without statistics. -/
theorem bareIfStable_joinWithin (level : Nat) :
    BareIfStable (joinWithin level) (indexesWithin level) := by
  induction level with
  | zero => exact fun _ _ _ => rfl
  | succ level ih =>
      intro s t hs ht h
      rw [indexesWithin] at h
      split at h
      · rename_i hgt
        have hle : t.compare s ≠ .gt := by
          rw [Std.OrientedCmp.lt_of_gt hgt]
          decide
        have hgt' : s.bare.compare t.bare = .gt := by
          rw [compare_bare_left, compare_bare_right, hgt]
        rw [joinWithin_swap level hgt, joinWithin_swap level hgt']
        exact joinWithin_succ_bare ih ht hs hle h
      · rename_i hle
        exact joinWithin_succ_bare ih hs ht hle h

theorem nest_bare_lt_iff (s : Schema) {n : Nat} : s.bare.nest < n ↔ s.nest < n := by
  induction s using induction_children generalizing n with
  | step s ih =>
      cases s with
      | array x =>
          cases n with
          | zero => simp
          | succ n =>
              have hx : x.bare.nest < n ↔ x.nest < n := ih x (List.mem_singleton_self x)
              exact Nat.succ_lt_succ_iff.trans (hx.trans Nat.succ_lt_succ_iff.symm)
      | document d =>
          cases n with
          | zero => simp
          | succ n =>
              rw [bare_document, nest_document_lt_iff, nest_document_lt_iff, Document.bare_keys,
                List.forall_mem_map]
              exact and_congr_right fun _ => forall₂_congr fun entry hentry =>
                ih entry.2 (List.mem_map_of_mem hentry)
      | anyOf bs =>
          rw [bare_anyOf, nest_anyOf_lt_iff, nest_anyOf_lt_iff, List.forall_mem_map]
          exact and_congr_right fun _ => forall₂_congr fun b hb => ih b hb
      | _ => rfl

theorem nest_bare (s : Schema) : s.bare.nest = s.nest := by
  have hle := (nest_bare_lt_iff s).2 (Nat.lt_succ_self s.nest)
  have hge := (nest_bare_lt_iff s).1 (Nat.lt_succ_self s.bare.nest)
  omega

private theorem branches_bare (s : Schema) : s.bare.branches = s.branches.map bare := by
  cases s with
  | anyOf bs => rw [bare_anyOf, branches, branches]
  | _ => rfl

private theorem declarable_bare {s : Schema} (h : s.Declarable) : s.bare.Declarable := by
  simpa only [declarable_iff, branches_bare, List.forall_mem_map, kind_bare] using h

theorem canonical_bare {s : Schema} (h : s.Canonical) : s.bare.Canonical := by
  induction s using induction_children with
  | step s ih =>
      cases s with
      | array x => exact canonical_array_iff.2 (ih x (List.mem_singleton_self x) (canonical_array_iff.1 h))
      | document d =>
          rw [bare_document, canonical_document_iff, Document.bare_keys, List.forall_mem_map]
          intro entry hentry
          obtain ⟨hdeclarable, hcanonical⟩ := canonical_document_iff.1 h entry hentry
          exact ⟨declarable_bare hdeclarable, ih entry.2 (List.mem_map_of_mem hentry) hcanonical⟩
      | anyOf bs =>
          obtain ⟨hbs, hcanonical⟩ := canonical_anyOf_iff.1 h
          rw [bare_anyOf, canonical_anyOf_iff, List.forall_mem_map]
          refine ⟨⟨?_, ?_, ?_, ?_⟩, fun b hb => ih b hb (hcanonical b hb)⟩
          · rw [List.length_map]
            exact hbs.two
          · refine List.pairwise_map.2 (hbs.ascending.imp fun {a b} hlt => ?_)
            rw [compare_bare_left, compare_bare_right, hlt]
          · exact List.forall_mem_map.2 fun b hb => isBranch_bare.2 (hbs.branch b hb)
          · rw [documents_bare, List.length_map]
            exact hbs.oneDocument
      | _ => exact h

theorem union_bare {s t : Schema} (hs : s.Canonical) (ht : t.Canonical)
    (h : ∀ j ∈ s.unionIndexes t, j.isUnstable = false) :
    s.bare.union t.bare = (s.union t).bare := by
  rw [union_of_canonical hs ht, union_of_canonical (canonical_bare hs) (canonical_bare ht), join,
    join, nest_bare, nest_bare]
  exact bareIfStable_joinWithin _ hs ht h

end Schema

end DocShape
