import DocShape.Proofs.SamplerRuns

/-!
# The order of sampling

Inferred schemas are tidy, so their union depends only on which schemas there
are.  Until a sampler gives up, its running type is that union with statistics
beside it: the order of the documents shows nowhere else.
-/

namespace DocShape

namespace Schema

private theorem tidyHere_document {keys : FieldMap Schema} (h : (FieldMap.names keys).Ordered) :
    (document (.ofFields keys (FieldMap.names keys) false)).TidyHere :=
  ⟨rfl, ⟨⟨h, h⟩, rfl, rfl⟩⟩

theorem inferenceClosed_tidy : InferenceClosed Tidy where
  canonical h := h.canonical
  unsat := tidy_unsat
  atomic a := tidy_iff.2 ⟨canonical_atomic a, .leaf ⟨trivial, trivial⟩ rfl⟩
  array h := by
    obtain ⟨hcanonical, htidy⟩ := tidy_iff.1 h
    refine tidy_iff.2 ⟨canonical_array_iff.2 hcanonical, Everywhere.array_iff.2 ⟨?_, htidy⟩⟩
    exact ⟨trivial, trivial⟩
  union := joinLaws_union.closed
  document hordered hkeys := by
    refine tidy_iff.2 ⟨canonical_document_iff.2 fun entry hmem => ?_,
      Everywhere.document_iff.2 ⟨tidyHere_document hordered, fun entry hmem => ?_⟩⟩
    · exact ⟨(hkeys entry hmem).1, (hkeys entry hmem).2.canonical⟩
    · exact (tidy_iff.1 (hkeys entry hmem).2).2

/-! ## Unions of documents -/

private theorem joinWithin_document (n : Nat) (d o : Document) :
    joinWithin (n + 1) (.document d) (.document o) = .document (d.unionWith (joinWithin n) o) ∨
      joinWithin (n + 1) (.document d) (.document o) =
        .document (o.unionWith (joinWithin n) d) := by
  unfold joinWithin
  by_cases h : (document d).compare (.document o) = .gt
  · simp [h]
  · simp [h]

/-- Between tidy document types the two unions are one. -/
theorem document_union_document {d o : Document} (hd : (document d).Tidy)
    (ho : (document o).Tidy) : (document d).union (.document o) = .document (d.union o) := by
  obtain ⟨n, hn⟩ : ∃ n, n = max (document d).nest (document o).nest := ⟨_, rfl⟩
  have hdn : Shallow TidyHere (n + 1) (.document d) := hd.shallow (by omega)
  have hon : Shallow TidyHere (n + 1) (.document o) := ho.shallow (by omega)
  have hcomm : d.unionWith (joinWithin n) o = o.unionWith (joinWithin n) d :=
    (Document.fusion_unionWith (joinWithin n)).comm (joinLaws_joinWithin n) hdn.settledIn
      hon.settledIn
  have hfields : d.unionWith (joinWithin n) o = d.union o := by
    refine Document.unionWith_congr fun field s hs t ht => ?_
    have hsn := hdn.settledIn.allowed field s (Document.allowed?_of_declared hs)
    have htn := hon.settledIn.allowed field t (Document.allowed?_of_declared ht)
    rw [union_of_canonical hsn.canonical htn.canonical, join_eq_joinWithin hsn htn]
  have hjoin : (document d).join (.document o) = .document (d.unionWith (joinWithin n) o) := by
    rw [join, ← hn]
    rcases joinWithin_document n d o with h | h
    · exact h
    · rw [h, hcomm]
  rw [union_of_canonical hd.canonical ho.canonical, hjoin, hfields]

theorem unions_concat (schemas : List Schema) (s : Schema) :
    unions (schemas ++ [s]) = (unions schemas).union s := by
  simp [unions, List.foldl_append]

end Schema

theorem Document.bare_untracked (d : Document) : d.untracked.bare = d.bare := by
  cases d
  rfl

theorem Document.untracked_of_jaccard_none {d : Document} (h : d.jaccard = none) :
    d.untracked = d := by
  cases d
  cases h
  rfl

theorem Document.exists_jaccard_union {r t : Document} {j : Jaccard} (hr : r.jaccard = some j)
    (ht : t.jaccard = none) : ∃ k, (r.union t).jaccard = some k := by
  rw [Document.union, Document.unionWith_tracked Schema.union hr ht]
  split
  · exact ⟨_, rfl⟩
  · exact ⟨_, rfl⟩

/-- A union that is not given up has the fields of the union without statistics. -/
theorem Document.untracked_union {r t : Document} {j : Jaccard} (hr : r.jaccard = some j)
    (ht : t.jaccard = none) (hrtidy : (Schema.document r.untracked).Tidy)
    (httidy : (Schema.document t).Tidy) (hstable : (r.union t).same .unconstrained = false) :
    (r.union t).untracked = r.untracked.union t := by
  have hnone : (r.untracked.unionWith Schema.union t).jaccard = none :=
    ((fusion_unionWith _).settled hrtidy.settled.here httidy.settled.here).jaccard
  rw [Document.union, unionWith_tracked Schema.union hr ht] at hstable ⊢
  split at hstable
  · cases hstable
  · rename_i hjaccard
    rw [if_neg hjaccard]
    exact untracked_of_jaccard_none hnone

/-! ## Runs -/

namespace Sampler

open Schema

/-- The standard sampler after documents that it accepts one after the other. -/
def sampled (documents : List (List UInt8)) : Outcome Sampler :=
  documents.foldlM (fun s data => (s.add data).outcome) (new .standard standardLineBytes)

/-- Until it is given up, the running type is the union of the schemas. -/
structure Sums (schemas : List Schema) (s : Sampler) : Prop where
  maxDepth : s.settings.maxDepth = Settings.standard.maxDepth
  unionTidy : (Schema.unions schemas).Tidy
  start : s.running = none → schemas = []
  tracked : ∀ d, s.running = some d → ∃ j, d.jaccard = some j
  sum : s.collapsed = false → ∀ d, s.running = some d →
    .document d.untracked = Schema.unions schemas

theorem sums_new (maxLineBytes : Int) : Sums [] (new .standard maxLineBytes) where
  maxDepth := by rw [new, ite_self]
  unionTidy := tidy_unsat
  start _ := rfl
  tracked d hd := by cases hd
  sum _ d hd := by cases hd

theorem Sums.of_running {schemas : List Schema} {s : Sampler} {r : Document}
    (hmaxDepth : s.settings.maxDepth = Settings.standard.maxDepth)
    (htidy : (Schema.unions schemas).Tidy) (hrunning : s.running = some r)
    (htracked : ∃ j, r.jaccard = some j)
    (hsum : s.collapsed = false → .document r.untracked = Schema.unions schemas) :
    Sums schemas s where
  maxDepth := hmaxDepth
  unionTidy := htidy
  start hnone := by
    rw [hrunning] at hnone
    cases hnone
  tracked d hd := by
    rw [hrunning] at hd
    cases hd
    exact htracked
  sum hstable d hd := by
    rw [hrunning] at hd
    cases hd
    exact hsum hstable

theorem Sums.fold {schemas : List Schema} {s : Sampler} {t : Document} (h : Sums schemas s)
    (ht : t.IsInferred) (htidy : (document t).Tidy) :
    Sums (schemas ++ [.document t]) (s.fold t) := by
  have htjaccard : t.jaccard = none := congrArg Document.jaccard ht
  have hmaxDepth : (s.fold t).settings.maxDepth = Settings.standard.maxDepth :=
    (congrArg Settings.maxDepth (settings_fold s t)).trans h.maxDepth
  have hunion : (Schema.unions (schemas ++ [.document t])).Tidy := by
    rw [unions_concat]
    exact joinLaws_union.closed h.unionTidy htidy
  cases hrunning : s.running with
  | none =>
      have hnext : (s.fold t).running =
          some (t.tracked (.fresh s.settings.stabilityLimit)) := by
        simp only [Sampler.fold, hrunning]
        rfl
      apply Sums.of_running hmaxDepth hunion hnext ⟨_, rfl⟩
      intro _
      rw [h.start hrunning]
      show document t.untracked = unsat.union (document t)
      rw [Document.untracked_of_jaccard_none htjaccard, unsat_union htidy.canonical]
  | some r =>
      obtain ⟨j, hj⟩ := h.tracked r hrunning
      have hnext : (s.fold t).running = some (r.union t) := by
        simp only [Sampler.fold, hrunning]
      have hcollapsed : (s.fold t).collapsed =
          (s.collapsed || (r.union t).same .unconstrained) := by
        simp only [Sampler.fold, hrunning]
      apply Sums.of_running hmaxDepth hunion hnext (Document.exists_jaccard_union hj htjaccard)
      intro hstable
      rw [hcollapsed, Bool.or_eq_false_iff] at hstable
      have hsum := h.sum hstable.1 r hrunning
      have hrtidy : (document r.untracked).Tidy := hsum ▸ h.unionTidy
      rw [unions_concat, ← hsum, document_union_document hrtidy htidy,
        Document.untracked_union hj htjaccard hrtidy htidy hstable.2]

theorem Sums.bare_schema {schemas : List Schema} {s : Sampler} (h : Sums schemas s)
    (hstable : s.collapsed = false) : s.schema.bare = (Schema.unions schemas).bare := by
  cases hrunning : s.running with
  | none =>
      rw [Sampler.schema, hrunning, h.start hrunning]
      rfl
  | some d =>
      rw [schema_of_running hrunning, ← h.sum hstable d hrunning, bare_document, bare_document,
        Document.bare_untracked]

theorem Sums.add {schemas : List Schema} {s : Sampler} {data : List UInt8} {t : Schema}
    (h : Sums schemas s) (ht : Schema.infer data = .ok t) :
    ∃ next, (s.add data).outcome = .ok next ∧ Sums (schemas ++ [t]) next := by
  simp only [Schema.infer, Outcome.bind_eq_ok, Outcome.pure_eq_ok] at ht
  obtain ⟨d, hd, rfl⟩ := ht
  have hobserved : Sums schemas { s with shapes := (s.shapes.observe (.document d)).1 } :=
    ⟨h.maxDepth, h.unionTidy, h.start, h.tracked, h.sum⟩
  refine ⟨_, SamplerRun.outcome_eq_ok.2 (add_of_infer (h.maxDepth ▸ hd)), hobserved.fold ?_ ?_⟩
  · exact (Document.infer_fields hd).2
  · exact inferenceClosed_tidy.infer hd

/-- Documents with a schema are all accepted. -/
theorem sums_sampled {documents : List (List UInt8)} {schemas : List Schema}
    (h : documents.mapM Schema.infer = .ok schemas) :
    ∃ last, sampled documents = .ok last ∧ Sums schemas last := by
  have hrun (seen : List Schema) (s : Sampler) (hs : Sums seen s) :
      ∃ last, documents.foldlM (fun s data => (s.add data).outcome) s = .ok last ∧
        Sums (seen ++ schemas) last := by
    induction documents generalizing seen s schemas with
    | nil =>
        rw [List.mapM_nil, Outcome.pure_eq_ok] at h
        rw [← h, List.append_nil]
        exact ⟨s, rfl, hs⟩
    | cons data rest ih =>
        simp only [List.mapM_cons, Outcome.bind_eq_ok, Outcome.pure_eq_ok] at h
        obtain ⟨t, ht, ts, hts, rfl⟩ := h
        obtain ⟨next, hadd, hnext⟩ := hs.add ht
        obtain ⟨last, hlast, hsums⟩ := ih hts (seen ++ [t]) next hnext
        refine ⟨last, ?_, by simpa using hsums⟩
        rw [List.foldlM_cons, hadd]
        exact hlast
  exact hrun [] _ (sums_new _)

end Sampler

/-- Documents that each have a schema are sampled in any order.  Two runs in
different orders that do not give up end with the same schema, which is the
union of the documents' schemas, taken in any order. -/
theorem Sampler.schema_order_independent {documents others : List (List UInt8)}
    {schemas : List Schema} (hperm : documents.Perm others)
    (hschemas : documents.mapM Schema.infer = .ok schemas) :
    ∃ last last', sampled documents = .ok last ∧ sampled others = .ok last' ∧
      (last.collapsed = false → last'.collapsed = false →
        last.schema.same last'.schema = true ∧
          ∀ ts, schemas.Perm ts →
            last.schema.same (Schema.unions ts) = true ∧
              last'.schema.same (Schema.unions ts) = true) := by
  have hothers : ∃ schemas', others.mapM Schema.infer = .ok schemas' := by
    rw [Outcome.exists_mapM_iff]
    intro data hdata
    exact Outcome.exists_mapM_iff.1 ⟨schemas, hschemas⟩ data (hperm.mem_iff.2 hdata)
  obtain ⟨schemas', hschemas'⟩ := hothers
  obtain ⟨last, hlast, hsums⟩ := sums_sampled hschemas
  obtain ⟨last', hlast', hsums'⟩ := sums_sampled hschemas'
  refine ⟨last, last', hlast, hlast', fun hstable hstable' => ?_⟩
  have htidy : ∀ t ∈ schemas, t.Tidy := by
    intro t ht
    obtain ⟨data, -, hdata⟩ := (Outcome.mem_iff_of_mapM hschemas).1 ht
    simp only [Schema.infer, Outcome.bind_eq_ok, Outcome.pure_eq_ok] at hdata
    obtain ⟨d, hd, rfl⟩ := hdata
    exact Schema.inferenceClosed_tidy.infer hd
  have hmem (t : Schema) : t ∈ schemas ↔ t ∈ schemas' := by
    rw [Outcome.mem_iff_of_mapM hschemas, Outcome.mem_iff_of_mapM hschemas']
    simp only [hperm.mem_iff]
  have hbare := hsums.bare_schema hstable
  have hbare' : last'.schema.bare = (Schema.unions schemas).bare := by
    rw [hsums'.bare_schema hstable', Schema.unions_congr htidy hmem]
  refine ⟨Schema.same_of_bare_eq (hbare.trans hbare'.symm), fun ts hts => ?_⟩
  rw [Schema.unions_congr htidy fun t => hts.mem_iff] at hbare hbare'
  exact ⟨Schema.same_of_bare_eq hbare, Schema.same_of_bare_eq hbare'⟩

/-- A number and a text beside an empty list, in both orders. -/
theorem Sampler.schema_order_independent_two :
    let number : List UInt8 := [12, 0, 0, 0, 16, 97, 0, 7, 0, 0, 0, 0]
    let text : List UInt8 :=
      [22, 0, 0, 0, 2, 97, 0, 2, 0, 0, 0, 120, 0, 4, 98, 0, 5, 0, 0, 0, 0, 0]
    ∃ s t last last', [number, text].mapM Schema.infer = .ok [s, t] ∧
      sampled [number, text] = .ok last ∧ sampled [text, number] = .ok last' ∧
      last.collapsed = false ∧ last'.collapsed = false ∧
      last.schema.same last'.schema = true ∧
      last.schema.same (Schema.unions [t, s]) = true := by
  intro number text
  obtain ⟨s, t, hschemas⟩ : ∃ s t, [number, text].mapM Schema.infer = .ok [s, t] := ⟨_, _, rfl⟩
  have hstable : (sampled [number, text]).map Sampler.collapsed = .ok false := by rfl
  have hstable' : (sampled [text, number]).map Sampler.collapsed = .ok false := by rfl
  obtain ⟨last, last', hlast, hlast', hsame⟩ :=
    schema_order_independent (List.Perm.swap text number []) hschemas
  rw [hlast, Except.map, Except.ok.injEq] at hstable
  rw [hlast', Except.map, Except.ok.injEq] at hstable'
  obtain ⟨hboth, hunions⟩ := hsame hstable hstable'
  refine ⟨s, t, last, last', hschemas, hlast, hlast', hstable, hstable', hboth, ?_⟩
  exact (hunions [t, s] (List.Perm.swap t s [])).1

end DocShape
