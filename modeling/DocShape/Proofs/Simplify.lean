import DocShape.Proofs.Absence

/-!
# Simplification gives the canonical form

`simplify` makes every schema canonical and leaves canonical schemas alone.
The leaves of nested disjunctions are simplified one by one, so the induction
carries them along with the schema itself.
-/

namespace DocShape

namespace Schema

theorem simplifyKeys_eq_map (keys : List (String × Schema)) :
    simplifyKeys keys = keys.map fun entry => (entry.1, entry.2.simplify) := by
  induction keys with
  | nil => rfl
  | cons entry rest ih => rw [simplifyKeys, ih, List.map_cons]

theorem simplify_document (d : Document) :
    (document d).simplify = document (d.redeclare (simplifyKeys d.keys)) := by
  cases d
  rfl

theorem simplifyLeaves_singleton {s : Schema} (h : s.kind ≠ .anyOf) :
    simplifyLeaves [s] = [s.simplify] := by
  cases s with
  | anyOf bs => exact absurd rfl h
  | _ => rfl

theorem simplifyLeaves_anyOf (bs : List Schema) :
    simplifyLeaves [.anyOf bs] = simplifyLeaves bs := by
  rw [simplifyLeaves, simplifyLeaves, List.append_nil]

theorem simplifyLeaves_cons (b : Schema) (rest : List Schema) :
    simplifyLeaves (b :: rest) = simplifyLeaves [b] ++ simplifyLeaves rest := by
  cases b with
  | anyOf bs => rw [simplifyLeaves_anyOf, simplifyLeaves]
  | _ => rfl

theorem mem_simplifyLeaves {leaf : Schema} {bs : List Schema} :
    leaf ∈ simplifyLeaves bs ↔ ∃ b ∈ bs, leaf ∈ simplifyLeaves [b] := by
  induction bs with
  | nil => simp [simplifyLeaves]
  | cons b rest ih => rw [simplifyLeaves_cons, List.mem_append, ih, List.exists_mem_cons_iff]

theorem kind_simplify {s : Schema} (h : s.kind ≠ .anyOf) : s.simplify.kind = s.kind := by
  cases s with
  | anyOf bs => exact absurd rfl h
  | _ => rfl

/-! ## Declared fields -/

theorem subtractBranches_isMissing {bs : List Schema} (h : ∀ b ∈ bs, b.IsBranch) :
    subtractBranches isMissing bs = bs.filter fun b => !b.isMissing := by
  induction bs with
  | nil => rfl
  | cons b rest ih =>
      obtain ⟨hb, hrest⟩ := List.forall_mem_cons.1 h
      have hnested : b.subtractNested isMissing = b := by
        cases b with
        | anyOf bs => exact absurd rfl hb.2.2
        | _ => rfl
      rw [subtractBranches]
      simp only [hnested, hb.not_isVacuous, Bool.or_false, ih hrest]
      cases hmissing : b.isMissing with
      | true => simp [hmissing]
      | false => simp [hmissing]

/-- The present values of a canonical schema that may be absent. -/
theorem Canonical.present {s : Schema} (h : s.Canonical) (hany : s.isAny = false)
    (hmay : s.absence = .may) : s.present.Declarable ∧ s.present.Canonical := by
  cases s with
  | anyOf bs =>
      have hbs := h.collapsible
      have hkept := hbs.filter fun b => !b.isMissing
      have hne : (bs.filter fun b => !b.isMissing) ≠ [] := by
        intro hnil
        have hmust : (anyOf bs).absence = .must := by
          refine absence_anyOf_eq_must.2 fun b hb => ?_
          have hmissing := List.filter_eq_nil_iff.1 hnil b hb
          rw [(hbs.branch b hb).absence, if_pos (by simpa using hmissing)]
        rw [hmust] at hmay
        cases hmay
      have hmissing : .missing ∉ bs.filter fun b => !b.isMissing := by
        intro hmem
        cases (List.mem_filter.1 hmem).2
      rw [Schema.present, subtract, subtractBranches_isMissing hbs.branch]
      exact ⟨declarable_collapse hkept.branch hne hmissing, hkept.canonical_collapse⟩
  | any => cases hany
  | _ => cases hmay

private theorem isAny_iff {s : Schema} : s.isAny = true ↔ s = .any := by
  cases s <;> simp [isAny]

theorem Canonical.declaredPresent {s t : Schema} (h : s.Canonical)
    (ht : s.declaredPresent = some t) : t.Declarable ∧ t.Canonical := by
  rw [Schema.declaredPresent] at ht
  cases hany : s.isAny with
  | true =>
      rw [hany] at ht
      cases ht
      rw [isAny_iff.1 hany]
      exact ⟨declarable_any, canonical_any⟩
  | false =>
      rw [hany] at ht
      cases habsence : s.absence with
      | must =>
          rw [habsence] at ht
          cases ht
      | may =>
          rw [habsence] at ht
          cases ht
          exact h.present hany habsence
      | never =>
          rw [habsence] at ht
          cases ht
          exact ⟨declarable_of_absence_eq_never habsence, h⟩

theorem canonical_redeclare {d : Document} {simplified : List (String × Schema)}
    (h : ∀ entry ∈ simplified, entry.2.Canonical) :
    (document (d.redeclare simplified)).Canonical := by
  refine canonical_document_iff.2 fun entry hmem => ?_
  obtain ⟨source, hsource, hentry⟩ := List.mem_filterMap.1 hmem
  obtain ⟨t, ht, rfl⟩ := Option.map_eq_some_iff.1 hentry
  exact (h source hsource).declaredPresent ht

/-! ## Every schema becomes canonical -/

/-- The branches that simplified leaves are assembled from. -/
def gathered (leaves : List Schema) : List Schema :=
  (nonDocuments leaves).filter (fun b => b.kind != .unsat) ++
    ((mergeDocuments join (documents leaves)).map .document).toList

theorem assemble_of_mem {leaves : List Schema} (h : .any ∈ leaves) : assemble leaves = .any := by
  rw [assemble, if_pos (List.any_eq_true.2 ⟨.any, h, rfl⟩)]

theorem assemble_of_notMem {leaves : List Schema} (h : .any ∉ leaves) :
    assemble leaves = collapse (gathered leaves) := by
  rw [assemble, if_neg fun hany => h (any_mem_of_any_isAny hany), gathered]

theorem collapsible_gathered {leaves : List Schema} (hcanonical : ∀ b ∈ leaves, b.Canonical)
    (hleaf : ∀ b ∈ leaves, b.kind ≠ .anyOf) (hany : .any ∉ leaves) :
    Collapsible (gathered leaves) := by
  have hnone : documents ((nonDocuments leaves).filter fun b => b.kind != .unsat) = [] := by
    rw [List.eq_nil_iff_forall_not_mem]
    intro d hd
    have hmem := List.mem_of_mem_filter (mem_documents.1 hd)
    exact (mem_nonDocuments.1 hmem).2 rfl
  have hflat : Collapsible ((nonDocuments leaves).filter fun b => b.kind != .unsat) := by
    refine ⟨fun b hb => ?_, fun b hb => ?_, by rw [hnone]; exact Nat.zero_le 1⟩
    · obtain ⟨hmem, hunsat⟩ := List.mem_filter.1 hb
      have hleaves := (mem_nonDocuments.1 hmem).1
      refine ⟨bne_iff_ne.1 hunsat, fun hkind => hany ?_, hleaf b hleaves⟩
      cases b <;> first | exact hleaves | cases hkind
    · exact hcanonical b (mem_nonDocuments.1 (List.mem_of_mem_filter hb)).1
  rw [gathered]
  cases hmerge : mergeDocuments join (documents leaves) with
  | none =>
      rw [Option.map_none, Option.toList_none, List.append_nil]
      exact hflat
  | some e =>
      have he : (document e).Canonical := keepsCanonical_join.mergeDocuments
        (fun d hd => hcanonical _ (mem_documents.1 hd)) hmerge
      rw [Option.map_some, Option.toList_some]
      exact hflat.concat (isBranch_document e) he fun _ => hnone

private theorem canonical_assemble {leaves : List Schema} (hcanonical : ∀ b ∈ leaves, b.Canonical)
    (hleaf : ∀ b ∈ leaves, b.kind ≠ .anyOf) : (assemble leaves).Canonical := by
  by_cases hany : .any ∈ leaves
  · rw [assemble_of_mem hany]
    exact canonical_any
  · rw [assemble_of_notMem hany]
    exact (collapsible_gathered hcanonical hleaf hany).canonical_collapse

/-- The schema and the leaves it contributes to a disjunction become canonical. -/
theorem canonical_simplify_and_leaves (s : Schema) :
    s.simplify.Canonical ∧ ∀ leaf ∈ simplifyLeaves [s], leaf.Canonical ∧ leaf.kind ≠ .anyOf := by
  induction s using induction_children with
  | step s ih =>
      by_cases hkind : s.kind = .anyOf
      · obtain ⟨bs, rfl⟩ := kind_eq_anyOf hkind
        have hleaves : ∀ leaf ∈ simplifyLeaves bs, leaf.Canonical ∧ leaf.kind ≠ .anyOf := by
          intro leaf hleaf
          obtain ⟨b, hb, hleaf⟩ := mem_simplifyLeaves.1 hleaf
          exact (ih b hb).2 leaf hleaf
        rw [simplifyLeaves_anyOf]
        refine ⟨?_, hleaves⟩
        exact canonical_assemble (fun b hb => (hleaves b hb).1) fun b hb => (hleaves b hb).2
      · have hcanonical : s.simplify.Canonical := by
          cases s with
          | array items =>
              exact canonical_array_iff.2 (ih items (List.mem_singleton_self items)).1
          | document d =>
              rw [simplify_document, simplifyKeys_eq_map]
              refine canonical_redeclare (List.forall_mem_map.2 fun entry hmem => ?_)
              exact (ih _ (List.mem_map_of_mem hmem)).1
          | anyOf bs => exact absurd rfl hkind
          | _ => exact canonical_leaf trivial rfl
        refine ⟨hcanonical, fun leaf hleaf => ?_⟩
        rw [simplifyLeaves_singleton hkind, List.mem_singleton] at hleaf
        subst hleaf
        exact ⟨hcanonical, by rwa [kind_simplify hkind]⟩

theorem canonical_simplify (s : Schema) : s.simplify.Canonical :=
  (canonical_simplify_and_leaves s).1

/-! ## Canonical schemas stay as they are -/

theorem simplifyLeaves_eq_map {bs : List Schema} (h : ∀ b ∈ bs, b.kind ≠ .anyOf) :
    simplifyLeaves bs = bs.map simplify := by
  induction bs with
  | nil => rfl
  | cons b rest ih =>
      obtain ⟨hb, hrest⟩ := List.forall_mem_cons.1 h
      rw [simplifyLeaves_cons, simplifyLeaves_singleton hb, ih hrest, List.map_cons,
        List.singleton_append]

/-- In ascending branches the document comes last. -/
theorem nonDocuments_append_documents {bs : List Schema} (hascending : Ascending bs)
    (hbranch : ∀ b ∈ bs, b.IsBranch) (hone : (documents bs).length ≤ 1) :
    nonDocuments bs ++ (documents bs).map .document = bs := by
  induction bs with
  | nil => rfl
  | cons b rest ih =>
      obtain ⟨hb, hrest⟩ := List.forall_mem_cons.1 hbranch
      obtain ⟨hlt, htail⟩ := List.pairwise_cons.1 hascending
      cases b with
      | document d =>
          have hnone : documents rest = [] := by
            change (d :: documents rest).length ≤ 1 at hone
            exact List.eq_nil_of_length_eq_zero (Nat.le_zero.1 (Nat.le_of_succ_le_succ hone))
          have hnil : rest = [] := by
            rw [List.eq_nil_iff_forall_not_mem]
            intro c hc
            have hrank := rank_le_of_compare_ne_gt (by rw [hlt c hc]; nofun)
            cases c with
            | document e =>
                have he := mem_documents.2 hc
                rw [hnone] at he
                cases he
            | anyOf cs => exact (hrest _ hc).2.2 rfl
            | any => exact (hrest _ hc).2.1 rfl
            | _ => simp [kind, Kind.rank] at hrank
          subst hnil
          rfl
      | _ => exact congrArg (List.cons _) (ih htail hrest hone)

theorem CanonicalBranches.assemble_eq {bs : List Schema} (h : CanonicalBranches bs) :
    assemble bs = .anyOf bs := by
  have hany : bs.any isAny = false := by
    rw [List.any_eq_false]
    intro b hb
    rw [(h.branch b hb).not_isAny]
    nofun
  have hflat : (nonDocuments bs).filter (fun b => b.kind != .unsat) = nonDocuments bs := by
    rw [List.filter_eq_self]
    intro b hb
    exact bne_iff_ne.2 (h.branch b (mem_nonDocuments.1 hb).1).1
  have hmerge : ((mergeDocuments join (documents bs)).map document).toList =
      (documents bs).map document := by
    match documents bs, h.oneDocument with
    | [], _ => rfl
    | [d], _ => rfl
  rw [assemble, hany, hflat, hmerge,
    nonDocuments_append_documents h.ascending h.branch h.oneDocument]
  rw [if_neg nofun, collapse_eq h.branch, sortBranches_of_ascending h.ascending]
  match bs, h.two with
  | b :: c :: rest, _ => rfl

theorem declaredPresent_of_declarable {s : Schema} (h : s.Declarable) (hcanonical : s.Canonical) :
    s.declaredPresent = some s := by
  rcases h.absence hcanonical with rfl | hnever
  · rfl
  · rw [declaredPresent, hnever]
    split <;> rfl

theorem keepsRequired_of_declarable {s : Schema} (h : s.Declarable) (hcanonical : s.Canonical) :
    s.keepsRequired = true := by
  rcases h.absence hcanonical with rfl | hnever
  · rfl
  · rw [keepsRequired, hnever]
    simp

private theorem redeclare_of_canonical {d : Document} (h : (document d).Canonical) :
    d.redeclare d.keys = d := by
  have hkeys : (d.redeclare d.keys).keys = d.keys := by
    refine (List.filterMap_congr fun entry hmem => ?_).trans List.filterMap_some
    obtain ⟨hdeclarable, hcanonical⟩ := canonical_document_iff.1 h entry hmem
    exact congrArg (Option.map _) (declaredPresent_of_declarable hdeclarable hcanonical)
  have hrequired : (d.redeclare d.keys).required = d.required := by
    rw [Document.redeclare, List.filter_eq_self]
    intro field _
    split
    · rename_i s hkey
      obtain ⟨hdeclarable, hcanonical⟩ := h.key hkey
      exact keepsRequired_of_declarable hdeclarable hcanonical
    · rfl
  cases d
  rw [Document.redeclare] at hkeys hrequired ⊢
  dsimp only at hkeys hrequired ⊢
  rw [hkeys, hrequired]

theorem simplify_of_canonical {s : Schema} (h : s.Canonical) : s.simplify = s := by
  induction s using induction_children with
  | step s ih =>
      cases s with
      | array items =>
          exact congrArg array (ih items (List.mem_singleton_self items) (canonical_array_iff.1 h))
      | document d =>
          have hkeys : simplifyKeys d.keys = d.keys := by
            rw [simplifyKeys_eq_map]
            refine (List.map_congr_left fun entry hmem => ?_).trans (List.map_id _)
            have hcanonical := (canonical_document_iff.1 h entry hmem).2
            rw [ih _ (List.mem_map_of_mem hmem) hcanonical, id]
          rw [simplify_document, hkeys, redeclare_of_canonical h]
      | anyOf bs =>
          obtain ⟨hbs, hcanonical⟩ := canonical_anyOf_iff.1 h
          have hleaves : simplifyLeaves bs = bs := by
            rw [simplifyLeaves_eq_map fun b hb => (hbs.branch b hb).2.2]
            refine (List.map_congr_left fun b hb => ?_).trans (List.map_id _)
            rw [ih b hb (hcanonical b hb), id]
          rw [simplify, hleaves, hbs.assemble_eq]
      | _ => rfl

theorem union_of_canonical {s t : Schema} (hs : s.Canonical) (ht : t.Canonical) :
    s.union t = s.join t := by
  rw [union, simplify_of_canonical hs, simplify_of_canonical ht]

theorem canonical_iff_simplify_eq {s : Schema} : s.Canonical ↔ s.simplify = s := by
  refine ⟨simplify_of_canonical, fun h => ?_⟩
  rw [← h]
  exact canonical_simplify s

/-- Simplification is a retraction onto the canonical schemas: its results are
canonical at every depth, the schemas it leaves unchanged, statistics included,
are exactly the canonical ones, and a second run changes nothing. -/
theorem simplify_retracts_onto_canonical (s : Schema) :
    s.simplify.Canonical ∧ (s.Canonical ↔ s.simplify = s) ∧
      s.simplify.simplify = s.simplify :=
  ⟨canonical_simplify s, canonical_iff_simplify_eq, simplify_of_canonical (canonical_simplify s)⟩

end Schema

end DocShape
