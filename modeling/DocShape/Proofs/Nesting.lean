import DocShape.Proofs.Assembly

/-!
# Containers never nest deeper

Simplifying a schema and uniting two of them may make a schema larger and
disjunctions deeper, but no array or document comes to stand below more of them
than before.  What two documents declare for a field nests less than the
documents do, and so does the union of it.
-/

namespace DocShape

namespace Schema

variable {s t : Schema} {bs : List Schema} {n : Nat}

/-! ## Containers -/

theorem nest_anyOf_le_iff : (anyOf bs).nest ≤ n ↔ ∀ b ∈ bs, b.nest ≤ n := by
  simp only [← Nat.lt_succ_iff, nest_anyOf_lt_iff, Nat.succ_pos, true_and]

theorem nest_le_of_mem {b : Schema} (h : b ∈ bs) : b.nest ≤ (anyOf bs).nest :=
  nest_anyOf_le_iff.1 (Nat.le_refl _) b h

theorem nest_document (d : Document) : (document d).nest = d.nest + 1 := rfl

theorem nest_le_of_mem_leaves {y : Schema} (h : y ∈ s.leaves) : y.nest ≤ s.nest := by
  induction s, h using leaf_induction with
  | leaf => exact Nat.le_refl _
  | branch bs b hb _ _ ih => exact Nat.le_trans ih (nest_le_of_mem hb)

theorem nest_collapse_le (h : ∀ b ∈ bs, b.nest ≤ n) : (collapse bs).nest ≤ n := by
  have hsorted : ∀ b ∈ sortBranches bs, b.nest ≤ n := fun b hb => h b (mem_of_mem_sortBranches hb)
  rw [collapse]
  split
  · exact Nat.zero_le n
  · split
    · exact Nat.zero_le n
    · rename_i b hsort
      exact hsorted b (hsort ▸ List.mem_singleton_self b)
    · exact nest_anyOf_le_iff.2 hsorted

private theorem nest_subtractNested_le (drop : Schema → Bool) (s : Schema) :
    (s.subtractNested drop).nest ≤ s.nest := by
  induction s using induction_children with
  | step s ih =>
      cases s with
      | anyOf bs =>
          refine nest_collapse_le fun c hc => ?_
          obtain ⟨⟨b, hb, rfl⟩, -⟩ := mem_subtractBranches.1 hc
          exact Nat.le_trans (ih b hb) (nest_le_of_mem hb)
      | _ => exact Nat.le_refl _

private theorem nest_present_le (s : Schema) : s.present.nest ≤ s.nest := by
  cases s with
  | anyOf bs => exact nest_subtractNested_le isMissing (anyOf bs)
  | _ => exact Nat.le_refl _

theorem nest_le_of_declaredPresent (h : s.declaredPresent = some t) : t.nest ≤ s.nest := by
  rw [declaredPresent] at h
  split at h
  · cases h
    exact Nat.le_refl _
  · split at h
    · cases h
    · cases h
      exact nest_present_le s
    · cases h
      exact Nat.le_refl _

end Schema

/-! ## Documents together -/

namespace Document

variable {d o u : Document} {n : Nat}

theorem nest_le_iff : d.nest ≤ n ↔ ∀ entry ∈ d.keys, entry.2.nest ≤ n := by
  have h := @Schema.nest_document_lt_iff d (n + 1)
  rw [Schema.nest_document, Nat.add_lt_add_iff_right] at h
  simpa only [Nat.lt_succ_iff, Nat.zero_le, true_and] using h

theorem nest_le_of_declared {field : String} {s : Schema} (h : d.declared? field = some s) :
    s.nest ≤ d.nest := by
  rcases declared?_cases h with hkey | ⟨-, -, rfl⟩
  · exact nest_le_iff.1 (Nat.le_refl _) _ (mem_of_key? hkey)
  · exact Nat.zero_le _

variable {join : Schema → Schema → Schema}
  (hjoin : ∀ field, ∀ s ∈ d.declared? field, ∀ t ∈ o.declared? field,
    (join s t).nest ≤ max s.nest t.nest)

include hjoin

/-- A document that declares the fields of two documents together nests no deeper. -/
theorem nest_le_of_unionKeys (hu : u.keys = d.unionKeys join o) : u.nest ≤ max d.nest o.nest := by
  refine nest_le_iff.2 fun entry hmem => ?_
  rw [hu] at hmem
  rcases unionKey_cases (unionKey_of_mem_unionKeys hmem) with ⟨s, t, hs, ht, heq⟩ | hs | ht | hany
  · have hnest := hjoin _ s hs t ht
    have hsnest := nest_le_of_declared hs
    have htnest := nest_le_of_declared ht
    rw [heq]
    omega
  · exact Nat.le_trans (nest_le_of_declared hs) (Nat.le_max_left _ _)
  · exact Nat.le_trans (nest_le_of_declared ht) (Nat.le_max_right _ _)
  · rw [hany]
    exact Nat.zero_le _

theorem nest_mergeWith_le : (d.mergeWith join o).nest ≤ max d.nest o.nest :=
  nest_le_of_unionKeys hjoin rfl

theorem nest_unionWith_le : (d.unionWith join o).nest ≤ max d.nest o.nest := by
  rcases unionWith_cases join d o with ⟨jaccard, h⟩ | ⟨h, -⟩
  · rw [h]
    exact Nat.zero_le _
  · exact nest_le_of_unionKeys hjoin h

end Document

/-! ## Joins -/

namespace Schema

variable {s t : Schema} {n : Nat}

theorem nest_join_le (hs : s.Canonical) (ht : t.Canonical) :
    (s.join t).nest ≤ max s.nest t.nest := by
  have hshallow := shallow_joinWithin joinClosed_true (max s.nest t.nest + 1)
    (hs.shallow (by omega)) (ht.shallow (by omega))
  exact Nat.lt_succ_iff.1 hshallow.nest

theorem nest_mergeDocuments_le {ds : List Document} {e : Document}
    (hcanonical : ∀ d ∈ ds, (document d).Canonical) (hnest : ∀ d ∈ ds, (document d).nest ≤ n)
    (h : mergeDocuments join ds = some e) : (document e).nest ≤ n := by
  cases ds with
  | nil => cases h
  | cons d rest =>
      cases h
      obtain ⟨hd, hrest⟩ := List.forall_mem_cons.1 hcanonical
      obtain ⟨hdn, hrestn⟩ := List.forall_mem_cons.1 hnest
      clear hcanonical hnest
      induction rest generalizing d with
      | nil => exact hdn
      | cons o rest ih =>
          obtain ⟨ho, hrest⟩ := List.forall_mem_cons.1 hrest
          obtain ⟨hon, hrestn⟩ := List.forall_mem_cons.1 hrestn
          have hmerge : (d.mergeWith join o).nest ≤ max d.nest o.nest :=
            Document.nest_mergeWith_le fun _ s hs t ht =>
              nest_join_le (hd.declared hs).2 (ho.declared ht).2
          rw [nest_document] at hdn hon
          exact ih (d.mergeWith join o) (keepsCanonical_join.mergeWith hd ho) hrest
            (by rw [nest_document]; omega) hrestn

/-! ## Canonical forms -/

private theorem nest_assemble_le {ls : List Schema} (hcanonical : ∀ y ∈ ls, y.Canonical)
    (hnest : ∀ y ∈ ls, y.nest ≤ n) : (assemble ls).nest ≤ n := by
  by_cases hany : .any ∈ ls
  · rw [assemble_of_mem hany]
    exact Nat.zero_le n
  · rw [assemble_of_notMem hany]
    refine nest_collapse_le fun b hb => ?_
    rcases mem_gathered.1 hb with ⟨hmem, -⟩ | ⟨e, he, rfl⟩
    · exact hnest b hmem
    · exact nest_mergeDocuments_le (fun d hd => hcanonical _ (mem_documents.1 hd))
        (fun d hd => hnest _ (mem_documents.1 hd)) he

theorem nest_simplify_of_leaves (h : ∀ y ∈ s.leaves, y.simplify.nest ≤ y.nest) :
    s.simplify.nest ≤ s.nest := by
  rw [simplify_eq_assemble]
  refine nest_assemble_le (List.forall_mem_map.2 fun y _ => canonical_simplify y)
    (List.forall_mem_map.2 fun y hy => ?_)
  exact Nat.le_trans (h y hy) (nest_le_of_mem_leaves hy)

private theorem nest_redeclare_le {d : Document}
    (h : ∀ entry ∈ d.keys, entry.2.simplify.nest ≤ entry.2.nest) :
    (d.redeclare (simplifyKeys d.keys)).nest ≤ d.nest := by
  refine Document.nest_le_iff.2 fun entry hmem => ?_
  rw [simplifyKeys_eq_map] at hmem
  obtain ⟨source, hsource, hentry⟩ := List.mem_filterMap.1 hmem
  obtain ⟨t, ht, rfl⟩ := Option.map_eq_some_iff.1 hentry
  obtain ⟨field, hfield, rfl⟩ := List.mem_map.1 hsource
  calc t.nest ≤ field.2.simplify.nest := nest_le_of_declaredPresent ht
    _ ≤ field.2.nest := h field hfield
    _ ≤ d.nest := Document.nest_le_iff.1 (Nat.le_refl _) field hfield

private theorem nest_simplify_leaves (s : Schema) : ∀ y ∈ s.leaves, y.simplify.nest ≤ y.nest := by
  induction s using induction_children with
  | step s ih =>
      intro y hy
      cases s with
      | unsat => cases hy
      | anyOf bs =>
          rw [leaves_anyOf, List.mem_flatMap] at hy
          obtain ⟨b, hb, hy⟩ := hy
          exact ih b hb y hy
      | array x =>
          rw [List.mem_singleton.1 hy]
          have hx := nest_simplify_of_leaves (ih x (List.mem_singleton_self x))
          exact Nat.succ_le_succ hx
      | document d =>
          rw [List.mem_singleton.1 hy, simplify_document]
          refine Nat.succ_le_succ (nest_redeclare_le fun entry hmem => ?_)
          exact nest_simplify_of_leaves (ih entry.2 (List.mem_map_of_mem hmem))
      | _ =>
          rw [List.mem_singleton.1 hy]
          exact Nat.le_refl _

/-- Containers nest no deeper in a canonical form. -/
theorem nest_simplify_le (s : Schema) : s.simplify.nest ≤ s.nest :=
  nest_simplify_of_leaves (nest_simplify_leaves s)

/-- Containers nest no deeper in a union than in its arguments. -/
theorem nest_union_le (s t : Schema) : (s.union t).nest ≤ max s.nest t.nest := by
  have hs := nest_simplify_le s
  have ht := nest_simplify_le t
  have hjoin := nest_join_le (canonical_simplify s) (canonical_simplify t)
  rw [union]
  omega

end Schema

namespace Document

theorem nest_union_le (d o : Document) : (d.union o).nest ≤ max d.nest o.nest :=
  nest_unionWith_le fun _ s _ t _ => s.nest_union_le t

theorem nest_merge_le (d o : Document) : (d.merge o).nest ≤ max d.nest o.nest :=
  nest_mergeWith_le fun _ s _ t _ => s.nest_union_le t

end Document

end DocShape
