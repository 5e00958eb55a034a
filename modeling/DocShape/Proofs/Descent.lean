import DocShape.Proofs.Worklists

/-!
# Unions descend

Every call that a simplification or a union makes is on schemas whose containers
nest less, or on lighter ones that nest no more.  So the runs that refuse all
other calls refuse none, and they return what the library computes.
-/

namespace DocShape

namespace Schema

variable {call : Callees} {s t : Schema} {n : Nat}

/-! ## One call deep -/

/-- What a disjunction unrolls into is lighter and nests no deeper. -/
theorem of_mem_branchesUnrolled {bs : List Schema} {y : Schema} (h : y ∈ branchesUnrolled bs) :
    y.nest ≤ (anyOf bs).nest ∧ y.weight < (anyOf bs).weight := by
  rw [branchesUnrolled_eq, List.mem_flatMap] at h
  obtain ⟨b, hb, hy⟩ := h
  obtain ⟨-, hnest, hweight⟩ := of_mem_unrolled hy
  exact ⟨Nat.le_trans hnest (nest_le_of_mem hb),
    Nat.lt_of_le_of_lt hweight (weight_lt_of_mem_children hb)⟩

theorem simplifyBy_eq (hcall : Serves call s.nest)
    (hlighter : ∀ x, x.nest ≤ s.nest → x.weight < s.weight → call.simplify x = .ok x.simplify) :
    simplifyBy call s = .ok s.simplify := by
  cases s with
  | array x =>
      rw [simplifyBy, hcall.simplify x (Nat.lt_succ_self _)]
      rfl
  | document d =>
      rw [simplifyBy, hcall.simplifyBy (Nat.le_refl _), simplify_document]
      rfl
  | anyOf bs =>
      rw [simplifyBy, simplifyBranches_eq]
      refine hcall.gatherLeaves (fun y hy => ?_) (Nat.le_refl _)
      obtain ⟨hnest, hweight⟩ := of_mem_branchesUnrolled hy
      exact hlighter y hnest hweight
  | _ => rfl

theorem unionBy_eq (hs : call.simplify s = .ok s.simplify) (ht : call.simplify t = .ok t.simplify)
    (hcall : Serves call (max s.nest t.nest)) : unionBy call s t = .ok (s.union t) := by
  have hsnest := nest_simplify_le s
  have htnest := nest_simplify_le t
  rw [unionBy, hs, ht]
  -- Canonical forms nest no deeper, so what their join unions nests less than `s` or `t`.
  refine joinBy_eq joinClosed_true (fun {x y} hx hy => ?_)
    ((canonical_simplify s).shallow (by omega)) ((canonical_simplify t).shallow (by omega))
  have hxnest := hx.nest
  have hynest := hy.nest
  rw [hcall.union x y (by omega) (by omega), union_of_canonical hx.canonical hy.canonical,
    join_eq_joinWithin hx hy]

/-! ## Whole runs -/

theorem simplifyRun_of_serves (h : Serves ⟨simplifyRun, unionRun⟩ n) (s : Schema)
    (hnest : s.nest ≤ n) : s.simplifyRun = .ok s.simplify := by
  induction hweight : s.weight using Nat.strongRecOn generalizing s with
  | ind _ ih =>
      subst hweight
      rw [simplifyRun]
      refine simplifyBy_eq ⟨fun x hx => ?_, fun x y hx hy => ?_⟩ fun x hx hlighter => ?_
      · have hxn := Nat.lt_of_lt_of_le hx hnest
        exact (if_pos (Or.inl hx)).trans (h.simplify x hxn)
      · have hxn := Nat.lt_of_lt_of_le hx hnest
        have hyn := Nat.lt_of_lt_of_le hy hnest
        exact (if_pos (Nat.max_lt.2 ⟨hx, hy⟩)).trans (h.union x y hxn hyn)
      · have hxrun := ih x.weight hlighter x (Nat.le_trans hx hnest) rfl
        exact (if_pos (Or.inr ⟨hx, hlighter⟩)).trans hxrun

theorem unionRun_of_serves (h : Serves ⟨simplifyRun, unionRun⟩ n) (hs : s.nest ≤ n)
    (ht : t.nest ≤ n) : s.unionRun t = .ok (s.union t) := by
  have hmax : max s.nest t.nest ≤ n := Nat.max_le.2 ⟨hs, ht⟩
  rw [unionRun]
  refine unionBy_eq ?_ ?_ ⟨fun x hx => ?_, fun x y hx hy => ?_⟩
  · exact (if_pos (Nat.le_max_left _ _)).trans (simplifyRun_of_serves h s hs)
  · exact (if_pos (Nat.le_max_right _ _)).trans (simplifyRun_of_serves h t ht)
  · have hxn := Nat.lt_of_lt_of_le hx hmax
    exact (if_pos (Nat.le_of_lt hx)).trans (h.simplify x hxn)
  · have hxn := Nat.lt_of_lt_of_le hx hmax
    have hyn := Nat.lt_of_lt_of_le hy hmax
    exact (if_pos (Nat.max_lt.2 ⟨hx, hy⟩)).trans (h.union x y hxn hyn)

/-- Runs return the library's results, by induction on container nesting. -/
theorem serves_runs (n : Nat) : Serves ⟨simplifyRun, unionRun⟩ n := by
  induction n with
  | zero =>
      exact ⟨fun _ h => absurd h (Nat.not_lt_zero _), fun _ _ h => absurd h (Nat.not_lt_zero _)⟩
  | succ n ih =>
      exact ⟨fun s hs => simplifyRun_of_serves ih s (Nat.le_of_lt_succ hs),
        fun s t hs ht => unionRun_of_serves ih (Nat.le_of_lt_succ hs) (Nat.le_of_lt_succ ht)⟩

theorem simplifyRun_eq (s : Schema) : s.simplifyRun = .ok s.simplify :=
  simplifyRun_of_serves (serves_runs s.nest) s (Nat.le_refl _)

theorem unionRun_eq (s t : Schema) : s.unionRun t = .ok (s.union t) :=
  unionRun_of_serves (serves_runs (max s.nest t.nest)) (Nat.le_max_left _ _) (Nat.le_max_right _ _)

end Schema

/-! ## Documents -/

namespace Document

variable {d o : Document}

/-- What two documents declare for a field nests less than the documents. -/
theorem unionBelow_eq {field : String} {s t : Schema} (hs : d.declared? field = some s)
    (ht : o.declared? field = some t) : d.unionBelow o s t = .ok (s.union t) := by
  have hsnest := nest_le_of_declared hs
  have htnest := nest_le_of_declared ht
  rw [unionBelow, if_pos (by simp only [Schema.nest_document]; omega), Schema.unionRun_eq]

theorem unionRun_eq (d o : Document) : d.unionRun o = .ok (d.union o) :=
  unionBy_eq fun _ _ hs _ ht => unionBelow_eq hs ht

theorem mergeRun_eq (d o : Document) : d.mergeRun o = .ok (d.merge o) :=
  mergeBy_eq fun _ _ hs _ ht => unionBelow_eq hs ht

end Document

/-- Containers never nest deeper, and that bounds the recursion: runs in which each
union of array items or of fields has to be of schemas that nest less return on every
input, with the library's results. -/
theorem nesting_bounds_recursion (s t : Schema) (d o : Document) :
    (s.simplify.nest ≤ s.nest ∧ (s.union t).nest ≤ max s.nest t.nest ∧
      (d.union o).nest ≤ max d.nest o.nest ∧ (d.merge o).nest ≤ max d.nest o.nest) ∧
    s.simplifyRun = .ok s.simplify ∧ s.unionRun t = .ok (s.union t) ∧
      d.unionRun o = .ok (d.union o) ∧ d.mergeRun o = .ok (d.merge o) :=
  ⟨⟨s.nest_simplify_le, s.nest_union_le t, d.nest_union_le o, d.nest_merge_le o⟩,
    s.simplifyRun_eq, s.unionRun_eq t, d.unionRun_eq o, d.mergeRun_eq o⟩

end DocShape
