import DocShape.Sample.Sampler
import DocShape.Proofs.Inference
import DocShape.Proofs.UpperBound

/-!
# Sampling covers its documents

Inference gives canonical schemas, and a union of canonical document types is
canonical and contains both, also when the shapes prove unstable.  So the
schema of a sampler contains, for sure, that of every document it has met.
-/

namespace DocShape

namespace Schema

theorem widens_union : Widens union where
  left hs ht := by
    rw [union_of_canonical hs ht]
    exact widens_join.left hs ht
  right hs ht := by
    rw [union_of_canonical hs ht]
    exact widens_join.right hs ht

end Schema

theorem Schema.Canonical.within_jaccard {d : Document} (h : (document d).Canonical)
    (jaccard : Option Jaccard) : (document d).Within (.document { d with jaccard }) := by
  have hbare : (document d).bare = (document { d with jaccard }).bare := by
    cases d
    rfl
  rw [← within_bare_iff, ← hbare, within_bare_iff]
  exact h.within_self

theorem SamplerRun.outcome_eq_ok {run : SamplerRun} {s : Sampler} :
    run.outcome = .ok s ↔ run.failure? = none ∧ run.sampler = s := by
  rw [outcome]
  cases run.failure? <;> simp

namespace Sampler

open Schema

theorem settings_fold (s : Sampler) (d : Document) : (s.fold d).settings = s.settings := by
  unfold fold
  split <;> rfl

/-- One more document type widens the schema, and is contained in it. -/
theorem schema_fold {s : Sampler} {d : Document} (hs : s.schema.Canonical)
    (hd : (document d).Canonical) :
    (s.fold d).schema.Canonical ∧ s.schema.Within (s.fold d).schema ∧
      (document d).Within (s.fold d).schema := by
  cases hrunning : s.running with
  | none =>
      have hschema : s.schema = .unsat := by rw [schema, hrunning]
      have hfold : (s.fold d).schema =
          .document { d with jaccard := some (.fresh s.settings.stabilityLimit) } := by
        rw [schema, fold, hrunning]
      rw [hschema, hfold]
      have hkeys := canonical_document_iff.1 hd
      exact ⟨canonical_document_iff.2 hkeys, within_of_isVacuous rfl, hd.within_jaccard _⟩
  | some running =>
      have hschema : s.schema = .document running := by rw [schema, hrunning]
      have hfold : (s.fold d).schema = .document (running.union d) := by
        rw [schema, fold, hrunning]
      rw [hschema] at hs ⊢
      rw [hfold]
      obtain ⟨hleft, hright⟩ := Document.fitsIn_unionWith keepsCanonical_union widens_union hs hd
      exact ⟨keepsCanonical_union.unionWith hs hd, document_within_iff.2 hleft,
        document_within_iff.2 hright⟩

theorem add_of_infer {s : Sampler} {data : List UInt8} {d : Document}
    (h : Document.infer s.settings.maxDepth data = .ok d) :
    (s.add data).failure? = none ∧ (s.add data).sampler =
      ({ s with shapes := (s.shapes.observe (.document d)).1 } : Sampler).fold d := by
  rw [Sampler.add, h]
  exact ⟨rfl, rfl⟩

/-- A document that has no type is refused, and the sampler stays as it was. -/
theorem add_of_infer_error {s : Sampler} {data : List UInt8} {failure : Failure}
    (h : Document.infer s.settings.maxDepth data = .error failure) :
    s.add data = ⟨s, [], some failure⟩ := by
  rw [Sampler.add, h]

theorem infer_of_added {s : Sampler} {data : List UInt8} (h : (s.add data).failure? = none) :
    ∃ d, Document.infer s.settings.maxDepth data = .ok d ∧ (s.add data).sampler =
      ({ s with shapes := (s.shapes.observe (.document d)).1 } : Sampler).fold d := by
  cases hinfer : Document.infer s.settings.maxDepth data with
  | ok d => exact ⟨d, rfl, (add_of_infer hinfer).2⟩
  | error failure =>
      rw [add_of_infer_error hinfer] at h
      cases h

/-- The schema contains, for sure, that of every document in the list. -/
structure Covers (seen : List (List UInt8)) (s : Sampler) : Prop where
  maxDepth : s.settings.maxDepth = Settings.standard.maxDepth
  canonical : s.schema.Canonical
  within : ∀ data ∈ seen, ∃ t, Schema.infer data = .ok t ∧ t.Within s.schema

private theorem covers_new (maxLineBytes : Int) : Covers [] (new .standard maxLineBytes) where
  maxDepth := by rw [new, ite_self]
  canonical := canonical_unsat
  within _ hmem := absurd hmem List.not_mem_nil

theorem Covers.add {seen : List (List UInt8)} {s : Sampler} {data : List UInt8}
    (h : Covers seen s) (hadd : (s.add data).failure? = none) :
    Covers (seen ++ [data]) (s.add data).sampler := by
  obtain ⟨d, hd, hnext⟩ := infer_of_added hadd
  rw [hnext]
  rw [h.maxDepth] at hd
  have hobserved :
      ({ s with shapes := (s.shapes.observe (.document d)).1 } : Sampler).schema.Canonical :=
    h.canonical
  obtain ⟨hcanonical, hbefore, hlast⟩ := schema_fold hobserved (inferenceClosed_canonical.infer hd)
  refine ⟨(congrArg Settings.maxDepth (settings_fold _ d)).trans h.maxDepth, hcanonical, ?_⟩
  intro other hmem
  rcases List.mem_append.1 hmem with hmem | hmem
  · obtain ⟨t, ht, hwithin⟩ := h.within other hmem
    exact ⟨t, ht, hwithin.trans hbefore h.canonical⟩
  · rw [List.mem_singleton.1 hmem]
    refine ⟨.document d, ?_, hlast⟩
    rw [Schema.infer, hd]
    rfl

end Sampler

/-- At the end of a run in which a fresh sampler accepted every document, each of
them has a schema, and the sampler's schema contains it for sure. -/
theorem Sampler.satisfies_schema_of_added {documents : List (List UInt8)} {last : Sampler}
    (h : documents.foldlM (fun s data => (s.add data).outcome)
      (Sampler.new .standard Sampler.standardLineBytes) = .ok last) :
    ∀ data ∈ documents, ∃ t, Schema.infer data = .ok t ∧ t.satisfies last.schema = .must := by
  refine (Outcome.foldlM_history Covers (fun seen s data next hs hnext => ?_) []
    (covers_new _) h).within
  obtain ⟨hadd, rfl⟩ := SamplerRun.outcome_eq_ok.1 hnext
  exact hs.add hadd

/-- A document with a number and one with a text and an empty list. -/
theorem Sampler.satisfies_schema_of_added_two :
    let number : List UInt8 := [12, 0, 0, 0, 16, 97, 0, 7, 0, 0, 0, 0]
    let text : List UInt8 :=
      [22, 0, 0, 0, 2, 97, 0, 2, 0, 0, 0, 120, 0, 4, 98, 0, 5, 0, 0, 0, 0, 0]
    ∃ last t, [number, text].foldlM (fun s data => (s.add data).outcome)
        (Sampler.new .standard Sampler.standardLineBytes) = .ok last ∧
      Schema.infer number = .ok t ∧ t.satisfies last.schema = .must := by
  intro number text
  obtain ⟨last, hlast⟩ : ∃ last, [number, text].foldlM (fun s data => (s.add data).outcome)
      (Sampler.new .standard Sampler.standardLineBytes) = .ok last := ⟨_, rfl⟩
  obtain ⟨t, ht, hmust⟩ := satisfies_schema_of_added hlast number List.mem_cons_self
  exact ⟨last, t, hlast, ht, hmust⟩

end DocShape
