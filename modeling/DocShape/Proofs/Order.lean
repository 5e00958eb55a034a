import DocShape.Proofs.Everywhere

/-!
# The structural order is an order

`Schema.compare` is oriented and transitive, so the library's laws of
comparisons apply to it.  Both laws are proved for the lists of a schema from
the laws of their members, and then by induction on the schemas inside.
-/

namespace DocShape

/-! ## Chains of comparisons -/

/-- The third of three comparisons, `a` with `b`, `b` with `c` and `a` with `c`,
is the one that the other two force. -/
structure Chains (ab bc ac : Ordering) : Prop where
  of_left : ab = .eq → ac = bc
  of_right : bc = .eq → ac = ab
  of_same : ab = bc → ac = ab

namespace Chains

variable {ab bc ac ab' bc' ac' : Ordering}

theorem of_cmp {α : Type} {cmp : α → α → Ordering} [Std.TransCmp cmp] (a b c : α) :
    Chains (cmp a b) (cmp b c) (cmp a c) := by
  refine ⟨fun h => Std.TransCmp.congr_left h, fun h => (Std.TransCmp.congr_right h).symm, ?_⟩
  intro h
  cases hab : cmp a b with
  | lt => exact Std.TransCmp.lt_trans hab (h ▸ hab)
  | eq => exact Std.TransCmp.eq_trans hab (h ▸ hab)
  | gt => exact Std.TransCmp.gt_trans hab (h ▸ hab)

/-- Lexicographic chains: the second comparison counts when the first is even. -/
theorem andThen (h : Chains ab bc ac) (h' : ab = .eq → bc = .eq → Chains ab' bc' ac') :
    Chains (ab.then ab') (bc.then bc') (ac.then ac') := by
  obtain ⟨hleft, hright, hsame⟩ := h
  cases ab with
  | eq =>
      rw [hleft rfl]
      cases bc with
      | eq => exact h' rfl rfl
      | lt => exact ⟨fun _ => rfl, nofun, fun h => h.symm⟩
      | gt => exact ⟨fun _ => rfl, nofun, fun h => h.symm⟩
  | lt =>
      cases bc with
      | eq =>
          rw [hright rfl]
          exact ⟨nofun, fun _ => rfl, fun _ => rfl⟩
      | lt =>
          rw [hsame rfl]
          exact ⟨nofun, nofun, fun _ => rfl⟩
      | gt => exact ⟨nofun, nofun, nofun⟩
  | gt =>
      cases bc with
      | eq =>
          rw [hright rfl]
          exact ⟨nofun, fun _ => rfl, fun _ => rfl⟩
      | gt =>
          rw [hsame rfl]
          exact ⟨nofun, nofun, fun _ => rfl⟩
      | lt => exact ⟨nofun, nofun, nofun⟩

theorem isLE (h : Chains ab bc ac) (hab : ab.isLE) (hbc : bc.isLE) : ac.isLE := by
  obtain ⟨hleft, hright, hsame⟩ := h
  cases ab with
  | eq => rw [hleft rfl]; exact hbc
  | lt =>
      cases bc with
      | eq => rw [hright rfl]; rfl
      | lt => rw [hsame rfl]; rfl
      | gt => cases hbc
  | gt => cases hab

end Chains

/-! ## Lists -/

section Lists

variable {α : Type} {cmp : α → α → Ordering}

theorem compareLists_swap {as : List α} (h : ∀ a ∈ as, ∀ b, (cmp a b).swap = cmp b a)
    (bs : List α) : (compareLists cmp as bs).swap = compareLists cmp bs as := by
  induction as generalizing bs with
  | nil => cases bs <;> rfl
  | cons a as ih =>
      obtain ⟨ha, has⟩ := List.forall_mem_cons.1 h
      cases bs with
      | nil => rfl
      | cons b bs => simp only [compareLists, Ordering.swap_then, ha, ih has]

theorem compareLists_chains {as : List α}
    (h : ∀ a ∈ as, ∀ b c, Chains (cmp a b) (cmp b c) (cmp a c)) (bs cs : List α) :
    Chains (compareLists cmp as bs) (compareLists cmp bs cs) (compareLists cmp as cs) := by
  induction as generalizing bs cs with
  | nil =>
      cases bs with
      | nil => exact ⟨fun _ => rfl, fun h => h, fun h => h.symm⟩
      | cons b bs =>
          cases cs with
          | nil => exact ⟨nofun, nofun, nofun⟩
          | cons c cs => exact ⟨nofun, fun _ => rfl, fun _ => rfl⟩
  | cons a as ih =>
      obtain ⟨ha, has⟩ := List.forall_mem_cons.1 h
      cases bs with
      | nil =>
          cases cs with
          | nil => exact ⟨nofun, fun _ => rfl, fun _ => rfl⟩
          | cons c cs => exact ⟨nofun, nofun, nofun⟩
      | cons b bs =>
          cases cs with
          | nil => exact ⟨fun _ => rfl, nofun, fun h => h.symm⟩
          | cons c cs => exact (ha b c).andThen fun _ _ => ih has bs cs

theorem eq_of_compareLists_eq [Std.LawfulEqCmp cmp] {as bs : List α}
    (h : compareLists cmp as bs = .eq) : as = bs := by
  induction as generalizing bs with
  | nil =>
      cases bs with
      | nil => rfl
      | cons b bs => cases h
  | cons a as ih =>
      cases bs with
      | nil => cases h
      | cons b bs =>
          rw [compareLists, Ordering.then_eq_eq] at h
          rw [Std.LawfulEqCmp.eq_of_compare h.1, ih h.2]

end Lists

/-- A declared field by its name, then by its schema. -/
def compareField (a b : String × Schema) : Ordering :=
  (Ord.compare a.1 b.1).then (a.2.compare b.2)

theorem compareBranches_eq (as bs : List Schema) :
    compareBranches as bs = compareLists Schema.compare as bs := by
  induction as generalizing bs with
  | nil => cases bs <;> rfl
  | cons a as ih =>
      cases bs with
      | nil => rfl
      | cons b bs => rw [compareBranches, compareLists, ih]

private theorem compareKeys_eq (as bs : List (String × Schema)) :
    compareKeys as bs = compareLists compareField as bs := by
  induction as generalizing bs with
  | nil => cases bs <;> rfl
  | cons a as ih =>
      cases bs with
      | nil => rfl
      | cons b bs => rw [compareKeys, compareLists, ih, compareField, Ordering.then_assoc]

theorem Document.compare_eq (d e : Document) :
    d.compare e =
      (compareLists compareField d.keys e.keys).then
        ((compareLists Ord.compare d.required e.required).then
          ((Ord.compare d.isOpen e.isOpen).then
            (compareLists Reference.compareNamed d.references e.references))) := by
  cases d
  cases e
  rw [Document.compare, compareKeys_eq]

/-! ## References -/

instance : Std.TransCmp Reference.compareNamed where
  eq_swap {a b} := by
    simp only [Reference.compareNamed, Reference.compare, Ordering.swap_then]
    rw [← Std.OrientedOrd.eq_swap, ← Std.OrientedOrd.eq_swap, ← Std.OrientedOrd.eq_swap,
      ← Std.OrientedOrd.eq_swap]
  isLE_trans {a b c} := by
    refine Chains.isLE ?_
    refine (Chains.of_cmp _ _ _).andThen fun _ _ => ?_
    refine (Chains.of_cmp _ _ _).andThen fun _ _ => ?_
    exact (Chains.of_cmp _ _ _).andThen fun _ _ => Chains.of_cmp _ _ _

instance : Std.LawfulEqCmp Reference.compareNamed where
  eq_of_compare {a b} h := by
    obtain ⟨name, entity, field, cardinality⟩ := a
    obtain ⟨name', entity', field', cardinality'⟩ := b
    simp only [Reference.compareNamed, Reference.compare, Ordering.then_eq_eq,
      Std.LawfulEqOrd.compare_eq_iff_eq] at h
    obtain ⟨rfl, rfl, rfl, rfl⟩ := h
    rfl

/-! ## Schemas -/

theorem Kind.rank_injective {a b : Kind} (h : a.rank = b.rank) : a = b := by
  cases a <;> cases b <;> first | rfl | cases h

namespace Schema

theorem kind_eq_array {s : Schema} (h : s.kind = .array) : ∃ items, s = .array items := by
  cases s <;> first | exact ⟨_, rfl⟩ | cases h

theorem kind_eq_document {s : Schema} (h : s.kind = .document) : ∃ d, s = .document d := by
  cases s <;> first | exact ⟨_, rfl⟩ | cases h

theorem kind_eq_anyOf {s : Schema} (h : s.kind = .anyOf) : ∃ bs, s = .anyOf bs := by
  cases s <;> first | exact ⟨_, rfl⟩ | cases h

theorem kind_eq_atomic {s : Schema} (h : s.kind = .atomic) : ∃ a, s = .atomic a := by
  cases s <;> first | exact ⟨_, rfl⟩ | cases h

theorem compare_of_kind_ne {a b : Schema} (h : a.kind ≠ b.kind) :
    a.compare b = Ord.compare a.kind.rank b.kind.rank := by
  cases a <;> cases b <;> first | rfl | exact absurd rfl h

theorem compare_ne_eq_of_kind_ne {a b : Schema} (h : a.kind ≠ b.kind) : a.compare b ≠ .eq := by
  rw [compare_of_kind_ne h]
  intro heq
  exact h (Kind.rank_injective (Std.LawfulEqOrd.eq_of_compare heq))

theorem kind_eq_of_compare_eq {a b : Schema} (h : a.compare b = .eq) : a.kind = b.kind :=
  Decidable.byContradiction fun hne => compare_ne_eq_of_kind_ne hne h

theorem compare_of_rank_lt {a b : Schema} (h : a.kind.rank < b.kind.rank) :
    a.compare b = .lt := by
  rw [compare_of_kind_ne (fun hkind => by rw [hkind] at h; omega)]
  exact Nat.compare_eq_lt.2 h

theorem compare_anyOf (as bs : List Schema) :
    (anyOf as).compare (anyOf bs) = compareLists Schema.compare as bs :=
  compareBranches_eq as bs

end Schema

private theorem compareField_swap {a : String × Schema}
    (h : ∀ t, (a.2.compare t).swap = t.compare a.2) (b : String × Schema) :
    (compareField a b).swap = compareField b a := by
  rw [compareField, compareField, Ordering.swap_then, h, ← Std.OrientedOrd.eq_swap]

private theorem compareField_chains {a : String × Schema}
    (h : ∀ t u, Chains (a.2.compare t) (t.compare u) (a.2.compare u)) (b c : String × Schema) :
    Chains (compareField a b) (compareField b c) (compareField a c) :=
  (Chains.of_cmp _ _ _).andThen fun _ _ => h b.2 c.2

theorem Document.compare_swap {d : Document}
    (h : ∀ entry ∈ d.keys, ∀ t, (entry.2.compare t).swap = t.compare entry.2) (e : Document) :
    (d.compare e).swap = e.compare d := by
  rw [Document.compare_eq, Document.compare_eq]
  simp only [Ordering.swap_then]
  rw [compareLists_swap (fun entry hmem => compareField_swap (h entry hmem)),
    compareLists_swap (fun _ _ _ => Std.OrientedOrd.eq_swap.symm), ← Std.OrientedOrd.eq_swap,
    compareLists_swap (fun _ _ _ => Std.OrientedCmp.eq_swap.symm)]

theorem Document.compare_chains {d : Document}
    (h : ∀ entry ∈ d.keys, ∀ t u,
      Chains (entry.2.compare t) (t.compare u) (entry.2.compare u)) (e f : Document) :
    Chains (d.compare e) (e.compare f) (d.compare f) := by
  rw [Document.compare_eq, Document.compare_eq, Document.compare_eq]
  refine Chains.andThen
    (compareLists_chains (fun entry hmem => compareField_chains (h entry hmem)) _ _) fun _ _ => ?_
  refine Chains.andThen (compareLists_chains (fun _ _ _ _ => Chains.of_cmp _ _ _) _ _) fun _ _ => ?_
  refine (Chains.of_cmp _ _ _).andThen fun _ _ => ?_
  exact compareLists_chains (fun _ _ _ _ => Chains.of_cmp _ _ _) _ _

namespace Schema

theorem compare_swap (a b : Schema) : (a.compare b).swap = b.compare a := by
  induction a using induction_children generalizing b with
  | step a ih =>
      by_cases hkind : a.kind = b.kind
      · cases a with
        | array x =>
            obtain ⟨y, rfl⟩ := kind_eq_array hkind.symm
            exact ih x (List.mem_singleton_self x) y
        | document d =>
            obtain ⟨e, rfl⟩ := kind_eq_document hkind.symm
            exact Document.compare_swap (fun entry hmem => ih _ (List.mem_map_of_mem hmem)) e
        | anyOf as =>
            obtain ⟨bs, rfl⟩ := kind_eq_anyOf hkind.symm
            rw [compare_anyOf, compare_anyOf]
            exact compareLists_swap ih bs
        | atomic k =>
            obtain ⟨l, rfl⟩ := kind_eq_atomic hkind.symm
            exact Std.OrientedOrd.eq_swap.symm
        | _ =>
            cases b <;> cases hkind
            rfl
      · rw [compare_of_kind_ne hkind, compare_of_kind_ne (Ne.symm hkind)]
        exact Std.OrientedOrd.eq_swap.symm

/-- Schemas of different variants chain by the ranks of the variants. -/
theorem compare_chains_of_kinds {a b c : Schema} (h : a.kind = b.kind → b.kind ≠ c.kind) :
    Chains (a.compare b) (b.compare c) (a.compare c) := by
  by_cases hab : a.kind = b.kind
  · have hbc := h hab
    have hac : a.compare c = b.compare c := by
      rw [compare_of_kind_ne hbc, compare_of_kind_ne (hab ▸ hbc), hab]
    rw [hac]
    exact ⟨fun _ => rfl, fun heq => absurd heq (compare_ne_eq_of_kind_ne hbc), fun heq => heq.symm⟩
  · by_cases hbc : b.kind = c.kind
    · have hac : a.compare c = a.compare b := by
        rw [compare_of_kind_ne hab, compare_of_kind_ne (hbc ▸ hab), hbc]
      rw [hac]
      exact ⟨fun heq => absurd heq (compare_ne_eq_of_kind_ne hab), fun _ => rfl, fun _ => rfl⟩
    · by_cases hac : a.kind = c.kind
      · refine ⟨fun heq => absurd heq (compare_ne_eq_of_kind_ne hab),
          fun heq => absurd heq (compare_ne_eq_of_kind_ne hbc), fun heq => ?_⟩
        rw [compare_of_kind_ne hab, compare_of_kind_ne hbc, ← hac] at heq
        have hself := (Chains.of_cmp a.kind.rank b.kind.rank a.kind.rank).of_same heq
        rw [Std.ReflOrd.compare_self, ← compare_of_kind_ne hab] at hself
        exact absurd hself.symm (compare_ne_eq_of_kind_ne hab)
      · rw [compare_of_kind_ne hab, compare_of_kind_ne hbc, compare_of_kind_ne hac]
        exact Chains.of_cmp _ _ _

theorem compare_chains (a b c : Schema) : Chains (a.compare b) (b.compare c) (a.compare c) := by
  induction a using induction_children generalizing b c with
  | step a ih =>
      by_cases hkind : a.kind = b.kind ∧ b.kind = c.kind
      · obtain ⟨hab, hbc⟩ := hkind
        cases a with
        | array x =>
            obtain ⟨y, rfl⟩ := kind_eq_array hab.symm
            obtain ⟨z, rfl⟩ := kind_eq_array hbc.symm
            exact ih x (List.mem_singleton_self x) y z
        | document d =>
            obtain ⟨e, rfl⟩ := kind_eq_document hab.symm
            obtain ⟨f, rfl⟩ := kind_eq_document hbc.symm
            exact Document.compare_chains (fun entry hmem => ih _ (List.mem_map_of_mem hmem)) e f
        | anyOf as =>
            obtain ⟨bs, rfl⟩ := kind_eq_anyOf hab.symm
            obtain ⟨cs, rfl⟩ := kind_eq_anyOf hbc.symm
            rw [compare_anyOf, compare_anyOf, compare_anyOf]
            exact compareLists_chains ih bs cs
        | atomic k =>
            obtain ⟨l, rfl⟩ := kind_eq_atomic hab.symm
            obtain ⟨m, rfl⟩ := kind_eq_atomic hbc.symm
            exact Chains.of_cmp k.code l.code m.code
        | _ =>
            cases b <;> cases hab
            cases c <;> cases hbc
            exact ⟨fun _ => rfl, fun _ => rfl, fun _ => rfl⟩
      · exact compare_chains_of_kinds fun hab hbc => hkind ⟨hab, hbc⟩

instance : Std.TransCmp Schema.compare where
  eq_swap := (compare_swap _ _).symm
  isLE_trans := (compare_chains _ _ _).isLE

end Schema

end DocShape
