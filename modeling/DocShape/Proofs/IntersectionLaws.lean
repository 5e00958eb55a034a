import DocShape.Proofs.Meet

/-!
# Laws of intersections

On schemas without references and statistics, canonical or not, the order of
the operands of an intersection does not matter.  A canonical schema is its own
intersection, as long as no disjunction has several arrays and every array can
have elements: the intersection of two arrays without elements is `unsat`, and
the intersections of several arrays would stand beside them.
-/

namespace DocShape

/-! ## Documents -/

namespace Document

variable {d o : Document}

/-- The type of the documents of both types, as far as a declared field is left. -/
def meet (d o : Document) : Document :=
  { keys := FieldMap.union
      (d.keys.filterMap fun entry => (o.sharedKey? entry.1 entry.2).map (entry.1, ·))
      (o.keys.filter fun entry => d.isOpen && !d.hasKey entry.1)
    required := NameSet.inter d.required o.required
    isOpen := d.isOpen && o.isOpen
    references := FieldMap.union d.references o.references
    jaccard := none }

theorem intersection_eq_meet (hd : d.isUnconstrained = false) (ho : o.isUnconstrained = false) :
    (Schema.document d).intersection (.document o) =
      if (d.meet o).keys.isEmpty && !(d.keys.isEmpty && o.keys.isEmpty) then .unsat
      else .document (d.meet o) := by
  rw [intersection_document, hd, ho]
  rfl

theorem intersection_document_cases (d o : Document) :
    (Schema.document d).intersection (.document o) = .document o ∨
      (Schema.document d).intersection (.document o) = .document d ∨
        (Schema.document d).intersection (.document o) = .unsat ∨
          (Schema.document d).intersection (.document o) = .document (d.meet o) := by
  cases hd : d.isUnconstrained with
  | true => simp [intersection_document, hd]
  | false =>
      cases ho : o.isUnconstrained with
      | true => simp [intersection_document, hd, ho]
      | false =>
          rw [intersection_eq_meet hd ho]
          split <;> simp

theorem Settled.meet (hd : d.Settled) (ho : o.Settled) : (d.meet o).Settled where
  ordered :=
    { keys := FieldMap.ordered_union (List.Pairwise.sublist (List.filter_sublist.map _) ho.ordered.keys)
      required := hd.ordered.required.filter _ }
  references := by
    show FieldMap.union d.references o.references = []
    rw [hd.references, ho.references]
    rfl
  jaccard := rfl

private theorem meetKey?_comm {field : String}
    (h : ∀ x y, d.key? field = some x → o.key? field = some y →
      x.intersection y = y.intersection x) :
    d.meetKey? Schema.intersection o field = o.meetKey? Schema.intersection d field := by
  rw [meetKey?, meetKey?]
  cases hx : d.key? field with
  | none => cases o.key? field <;> rfl
  | some x =>
      cases hy : o.key? field with
      | none => rfl
      | some y => exact congrArg Schema.satisfiable? (h x y hx hy)

theorem key?_meet (hd : d.Settled) (field : String) :
    (d.meet o).key? field = d.meetKey? Schema.intersection o field :=
  find?_meet hd.ordered.keys field

theorem Settled.meet_comm (hd : d.Settled) (ho : o.Settled)
    (hkeys : ∀ field x y, d.key? field = some x → o.key? field = some y →
      x.intersection y = y.intersection x) : d.meet o = o.meet d := by
  have hdo := hd.meet ho
  have hod := ho.meet hd
  refine hdo.ordered.ext hod.ordered (fun field => ?_) (fun field => ?_) (Bool.and_comm _ _)
    (hdo.references.trans hod.references.symm) rfl
  · rw [key?_meet hd, key?_meet ho, meetKey?_comm (hkeys field)]
  · rw [Bool.eq_iff_iff, requires_iff, requires_iff]
    exact NameSet.mem_inter.trans (and_comm.trans NameSet.mem_inter.symm)

/-- The unconstrained type is the only one without constraints, references and statistics. -/
theorem Settled.eq_of_isUnconstrained (hd : d.Settled) (ho : o.Settled)
    (hdfree : d.isUnconstrained = true) (hofree : o.isUnconstrained = true) : d = o := by
  simp only [isUnconstrained, Bool.and_eq_true, List.isEmpty_iff] at hdfree hofree
  obtain ⟨⟨hdopen, hdkeys⟩, hdrequired⟩ := hdfree
  obtain ⟨⟨hoopen, hokeys⟩, horequired⟩ := hofree
  refine hd.ordered.ext ho.ordered (fun field => ?_) (fun field => ?_) (hdopen.trans hoopen.symm)
    (hd.references.trans ho.references.symm) (hd.jaccard.trans ho.jaccard.symm)
  · rw [key?, key?, hdkeys, hokeys]
  · rw [requires, requires, hdrequired, horequired]

theorem intersection_comm_of_settled (hd : d.Settled) (ho : o.Settled)
    (hkeys : ∀ field x y, d.key? field = some x → o.key? field = some y →
      x.intersection y = y.intersection x) :
    (Schema.document d).intersection (.document o) =
      (Schema.document o).intersection (.document d) := by
  cases hdfree : d.isUnconstrained with
  | true =>
      cases hofree : o.isUnconstrained with
      | true => rw [hd.eq_of_isUnconstrained ho hdfree hofree]
      | false => simp [intersection_document, hdfree, hofree]
  | false =>
      cases hofree : o.isUnconstrained with
      | true => simp [intersection_document, hdfree, hofree]
      | false =>
          rw [intersection_eq_meet hdfree hofree, intersection_eq_meet hofree hdfree,
            hd.meet_comm ho hkeys, Bool.and_comm o.keys.isEmpty]

/-- A type whose declared schemas are their own intersections is so itself. -/
theorem Settled.meet_self (hd : d.Settled)
    (hkeys : ∀ field x, d.key? field = some x → (x.intersection x).satisfiable? = some x) :
    d.meet d = d := by
  have hdd := hd.meet hd
  refine hdd.ordered.ext hd.ordered (fun field => ?_) (fun field => ?_) (Bool.and_self _)
    (hdd.references.trans hd.references.symm) hd.jaccard.symm
  · rw [key?_meet hd, meetKey?]
    cases hx : d.key? field with
    | none => rfl
    | some x => exact hkeys field x hx
  · rw [Bool.eq_iff_iff, requires_iff, requires_iff]
    exact NameSet.mem_inter.trans (and_self_iff)

theorem intersection_self_of_settled (hd : d.Settled)
    (hkeys : ∀ field x, d.key? field = some x → (x.intersection x).satisfiable? = some x) :
    (Schema.document d).intersection (.document d) = .document d := by
  cases hfree : d.isUnconstrained with
  | true => simp [intersection_document, hfree]
  | false =>
      rw [intersection_eq_meet hfree hfree, hd.meet_self hkeys]
      cases d.keys.isEmpty <;> rfl

end Document

namespace Schema

variable {s t : Schema}

/-! ## Without statistics -/

theorem meetBranches_eq (bs : List Schema) :
    meetBranches bs = (ofBranches (bs.filter fun b => !b.isVacuous)).simplify := by
  rw [meetBranches, filterMap_satisfiable?]
  split
  · rename_i hnil
    rw [hnil]
    rfl
  · rfl

theorem settled_meetBranches {bs : List Schema} (h : ∀ b ∈ bs, b.Everywhere SettledHere) :
    (meetBranches bs).Everywhere SettledHere := by
  rw [meetBranches_eq]
  apply settled_simplify
  refine Everywhere.anyOf_iff.2 ⟨trivial, fun b hb => h b ?_⟩
  exact List.mem_of_mem_filter (mem_of_mem_sortBranches hb)

private theorem settled_meet {d o : Document} (hd : (document d).Everywhere SettledHere)
    (ho : (document o).Everywhere SettledHere)
    (hkeys : ∀ field x y, d.key? field = some x → o.key? field = some y →
      (x.intersection y).Everywhere SettledHere) :
    (document (d.meet o)).Everywhere SettledHere := by
  have hmeet := hd.here.meet ho.here
  refine Everywhere.document_iff.2 ⟨hmeet, fun entry hmem => ?_⟩
  have hkey : d.meetKey? intersection o entry.1 = some entry.2 :=
    (Document.key?_meet hd.here entry.1).symm.trans (FieldMap.find?_of_mem hmeet.ordered.keys hmem)
  rcases Document.meetKey?_cases hkey with ⟨x, y, hx, hy, -, heq⟩ | ⟨hx, -, -⟩ | ⟨-, hy, -⟩
  · rw [heq]
    exact hkeys entry.1 x y hx hy
  · exact hd.key hx
  · exact ho.key hy

theorem settled_intersection (hs : s.Everywhere SettledHere) (ht : t.Everywhere SettledHere) :
    (s.intersection t).Everywhere SettledHere := by
  have hunsat : unsat.Everywhere SettledHere := .leaf trivial rfl
  induction s, t using induction_intersection with
  | unsat s t h => rwa [intersection_eq_unsat h]
  | anyLeft t => rwa [any_intersection]
  | anyRight s => rwa [intersection_any]
  | branch a b ha hb ih =>
      by_cases hkind : a.kind = b.kind
      · cases a with
        | unsat => exact absurd rfl ha.1
        | any => exact absurd rfl ha.2.1
        | anyOf as => exact absurd rfl ha.2.2
        | missing =>
            obtain rfl : b = .missing := by cases b <;> simp [kind] at hkind ⊢
            rwa [intersection]
        | atomic k =>
            obtain ⟨l, rfl⟩ := kind_eq_atomic hkind.symm
            rw [intersection]
            split
            · exact hs
            · exact hunsat
        | array x =>
            obtain ⟨y, rfl⟩ := kind_eq_array hkind.symm
            have hitems := ih x (List.mem_singleton_self x) y (Everywhere.array_iff.1 hs).2
              (Everywhere.array_iff.1 ht).2
            rw [intersection]
            split
            · exact hunsat
            · exact Everywhere.array_iff.2 ⟨trivial, hitems⟩
        | document d =>
            obtain ⟨o, rfl⟩ := kind_eq_document hkind.symm
            have hmeet := settled_meet hs ht fun field x y hx hy =>
              ih x (List.mem_map_of_mem (Document.mem_of_key? hx)) y (hs.key hx) (ht.key hy)
            rcases Document.intersection_document_cases d o with h | h | h | h <;> rwa [h]
      · rwa [ha.intersection_of_kind_ne hb hkind]
  | disjunction s t hskind htkind ih =>
      have hpair : ∀ a ∈ s.branches, ∀ b ∈ t.branches, (a.intersection b).Everywhere SettledHere :=
        fun a ha b hb => ih a ha b hb (hs.of_mem_branches ha) (ht.of_mem_branches hb)
      by_cases hkind : s.kind = .anyOf ∨ t.kind = .anyOf
      · rw [intersection_eq_meetBranches hskind htkind hkind]
        apply settled_meetBranches
        intro c hc
        simp only [List.mem_flatMap, List.mem_map] at hc
        obtain ⟨a, ha, b, hb, rfl⟩ := hc
        exact hpair a ha b hb
      · rw [not_or] at hkind
        exact hpair s (branches_of_kind_ne hkind.1 ▸ List.mem_singleton_self s) t
          (branches_of_kind_ne hkind.2 ▸ List.mem_singleton_self t)

/-! ## Order of the operands -/

/-- Only the branches that have values count, and each of them once. -/
theorem meetBranches_congr {as bs : List Schema} (has : ∀ b ∈ as, b.Everywhere SettledHere)
    (h : ∀ b : Schema, b.isVacuous = false → (b ∈ as ↔ b ∈ bs)) :
    meetBranches as = meetBranches bs := by
  have hkept (b : Schema) :
      b ∈ as.filter (fun b => !b.isVacuous) ↔ b ∈ bs.filter fun b => !b.isVacuous := by
    simp only [List.mem_filter, Bool.not_eq_true']
    exact and_congr_left fun hvacuous => h b hvacuous
  have hsort := sortBranches_congr (fun b hb => has b (List.mem_of_mem_filter hb)) hkept
  rw [meetBranches_eq, meetBranches_eq, ofBranches, ofBranches, hsort]

theorem intersection_comm (hs : s.Everywhere SettledHere) (ht : t.Everywhere SettledHere) :
    s.intersection t = t.intersection s := by
  induction s, t using induction_intersection with
  | unsat s t h => rw [intersection_eq_unsat h, intersection_eq_unsat h.symm]
  | anyLeft t => rw [any_intersection, intersection_any]
  | anyRight s => rw [any_intersection, intersection_any]
  | branch a b ha hb ih =>
      by_cases hkind : a.kind = b.kind
      · cases a with
        | unsat => exact absurd rfl ha.1
        | any => exact absurd rfl ha.2.1
        | anyOf as => exact absurd rfl ha.2.2
        | missing =>
            obtain rfl : b = .missing := by cases b <;> simp [kind] at hkind ⊢
            rfl
        | atomic k =>
            obtain ⟨l, rfl⟩ := kind_eq_atomic hkind.symm
            rw [intersection, intersection]
            by_cases heq : k = l
            · rw [heq]
            · rw [if_neg heq, if_neg (Ne.symm heq)]
        | array x =>
            obtain ⟨y, rfl⟩ := kind_eq_array hkind.symm
            have hitems := ih x (List.mem_singleton_self x) y (Everywhere.array_iff.1 hs).2
              (Everywhere.array_iff.1 ht).2
            rw [intersection, intersection, hitems]
        | document d =>
            obtain ⟨o, rfl⟩ := kind_eq_document hkind.symm
            refine Document.intersection_comm_of_settled hs.here ht.here fun field x y hx hy => ?_
            exact ih x (List.mem_map_of_mem (Document.mem_of_key? hx)) y (hs.key hx) (ht.key hy)
      · rw [ha.intersection_of_kind_ne hb hkind, hb.intersection_of_kind_ne ha (Ne.symm hkind)]
  | disjunction s t hskind htkind ih =>
      have hpair : ∀ a ∈ s.branches, ∀ b ∈ t.branches, a.intersection b = b.intersection a :=
        fun a ha b hb => ih a ha b hb (hs.of_mem_branches ha) (ht.of_mem_branches hb)
      by_cases hkind : s.kind = .anyOf ∨ t.kind = .anyOf
      · rw [intersection_eq_meetBranches hskind htkind hkind,
          intersection_eq_meetBranches htkind hskind hkind.symm]
        -- the pairs come row by row on one side and column by column on the other
        apply meetBranches_congr
        · intro c hc
          simp only [List.mem_flatMap, List.mem_map] at hc
          obtain ⟨a, ha, b, hb, rfl⟩ := hc
          exact settled_intersection (hs.of_mem_branches ha) (ht.of_mem_branches hb)
        · intro c _
          simp only [List.mem_flatMap, List.mem_map]
          constructor
          · rintro ⟨a, ha, b, hb, rfl⟩
            exact ⟨b, hb, a, ha, (hpair a ha b hb).symm⟩
          · rintro ⟨b, hb, a, ha, rfl⟩
            exact ⟨a, ha, b, hb, hpair a ha b hb⟩
      · rw [not_or] at hkind
        exact hpair s (branches_of_kind_ne hkind.1 ▸ List.mem_singleton_self s) t
          (branches_of_kind_ne hkind.2 ▸ List.mem_singleton_self t)

/-! ## A schema with itself -/

/-- Arrays can have elements. -/
def PopulatedHere : Schema → Prop
  | .array items => items.kind ≠ .unsat
  | _ => True

instance : DecidablePred PopulatedHere
  | .array items => inferInstanceAs (Decidable (items.kind ≠ .unsat))
  | .unsat | .missing | .atomic _ | .document _ | .anyOf _ | .any => .isTrue trivial

theorem Tidy.inside (h : s.Tidy) (ht : t ∈ s.children) : t.Tidy :=
  ⟨h.toRegular.inside ht, h.settled.inside ht⟩

/-- Two branches of one disjunction have nothing in common. -/
theorem Regular.intersection_eq_unsat {bs : List Schema} (h : (anyOf bs).Regular) {a b : Schema}
    (ha : a ∈ bs) (hb : b ∈ bs) (hne : a ≠ b) : a.intersection b = .unsat := by
  have hbranch := h.canonical.collapsible.branch
  by_cases hkind : a.kind = b.kind
  · cases a with
    | unsat => exact absurd rfl (hbranch _ ha).1
    | any => exact absurd rfl (hbranch _ ha).2.1
    | anyOf as => exact absurd rfl (hbranch _ ha).2.2
    | missing =>
        obtain rfl : b = .missing := by cases b <;> simp [kind] at hkind ⊢
        exact absurd rfl hne
    | atomic k =>
        obtain ⟨l, rfl⟩ := kind_eq_atomic hkind.symm
        rw [intersection, if_neg]
        rintro rfl
        exact hne rfl
    | array x => exact absurd (h.branch_unique (.inl rfl) ha hb rfl hkind.symm) hne
    | document d => exact absurd (h.branch_unique (.inr rfl) ha hb rfl hkind.symm) hne
  · exact (hbranch a ha).intersection_of_kind_ne (hbranch b hb) hkind

private theorem meetBranches_of_canonical {bs : List Schema} (h : (anyOf bs).Canonical) :
    meetBranches bs = .anyOf bs := by
  have hbs := (canonical_anyOf_iff.1 h).1
  have hkept : bs.filter (fun b => !b.isVacuous) = bs := by
    rw [List.filter_eq_self]
    intro b hb
    rw [(hbs.branch b hb).not_isVacuous]
    rfl
  rw [meetBranches_eq, hkept, ofBranches, sortBranches_of_ascending hbs.ascending,
    simplify_of_canonical h]

/-- The intersections of branches that are their own intersections give these branches back. -/
theorem intersection_self_of_branches {bs : List Schema} (h : (anyOf bs).Tidy)
    (hself : ∀ b ∈ bs, b.intersection b = b) :
    (anyOf bs).intersection (.anyOf bs) = .anyOf bs := by
  have hkind : (anyOf bs).kind ≠ .unsat ∧ (anyOf bs).kind ≠ .any := by simp [kind]
  rw [intersection_eq_meetBranches hkind hkind (.inl rfl)]
  refine Eq.trans (Eq.symm ?_) (meetBranches_of_canonical h.canonical)
  apply meetBranches_congr fun b hb => h.settled.inside hb
  intro c hvacuous
  simp only [branches, List.mem_flatMap, List.mem_map]
  constructor
  · intro hc
    exact ⟨c, hc, c, hc, hself c hc⟩
  · rintro ⟨a, ha, b, hb, rfl⟩
    by_cases heq : a = b
    · subst heq
      rwa [hself a ha]
    · rw [h.toRegular.intersection_eq_unsat ha hb heq] at hvacuous
      cases hvacuous

private theorem intersection_self (hs : s.Tidy) (hpopulated : s.Everywhere PopulatedHere) :
    s.intersection s = s := by
  induction s using induction_children with
  | step s ih =>
      have hinside (x : Schema) (hx : x ∈ s.children) : x.intersection x = x :=
        ih x hx (hs.inside hx) (hpopulated.inside hx)
      cases s with
      | unsat => exact unsat_intersection _
      | any => exact any_intersection _
      | missing => rw [intersection]
      | atomic k => rw [intersection, if_pos rfl]
      | array x =>
          have hx := hinside x (List.mem_singleton_self x)
          rw [intersection_array_of_ne, hx]
          intro hunsat
          rw [hx] at hunsat
          exact hpopulated.here (congrArg kind hunsat)
      | document d =>
          refine Document.intersection_self_of_settled hs.settled.here fun field x hx => ?_
          obtain ⟨hdeclarable, hcanonical⟩ := hs.canonical.key hx
          have hvacuous : x.isVacuous = false := by
            rw [← Bool.not_eq_true]
            exact fun h => hdeclarable.absence_ne_must hcanonical (absence_of_isVacuous h)
          rw [hinside x (List.mem_map_of_mem (Document.mem_of_key? hx)), satisfiable?, hvacuous]
          rfl
      | anyOf bs => exact intersection_self_of_branches hs hinside

/-- The operands of an intersection can be exchanged if nothing in them carries references or
statistics, and a tidy schema whose arrays can have elements is its own intersection. -/
theorem intersection_commutative_and_idempotent :
    (∀ s t : Schema, s.Everywhere SettledHere → t.Everywhere SettledHere →
        s.intersection t = t.intersection s ∧
          (s.intersection t).same (t.intersection s) = true) ∧
      ∀ s : Schema, s.Tidy → s.Everywhere PopulatedHere →
        s.intersection s = s ∧ (s.intersection s).same s = true := by
  refine ⟨fun s t hs ht => ?_, fun s hs hpopulated => ?_⟩
  · have hcomm := intersection_comm hs ht
    exact ⟨hcomm, same_of_bare_eq (congrArg bare hcomm)⟩
  · have hself := intersection_self hs hpopulated
    exact ⟨hself, same_of_bare_eq (congrArg bare hself)⟩

/-- A draft in a disjunction that is not canonical, against orders or lists of numbers. -/
theorem intersection_commutative_and_idempotent_orders :
    let draft : Schema := .anyOf [.document (.ofFields [("id", .anyOf [.atomic .int, .missing]),
      ("tags", .any)] ["id", "tags"] true), .anyOf [.atomic .null, .array (.atomic .int)], .unsat]
    let order : Schema := .anyOf [.array (.anyOf [.atomic .int, .atomic .double]),
      .document (.ofFields [("id", .atomic .int), ("total", .atomic .double)] ["id"] false)]
    draft.Everywhere SettledHere ∧ ¬ draft.Canonical ∧ order.Tidy ∧
      order.Everywhere PopulatedHere ∧ draft.intersection order = order.intersection draft ∧
      order.intersection order = order := by
  intro draft order
  have hdraft : draft.Everywhere SettledHere := by decide +kernel
  have hnot : ¬ draft.Canonical := by decide +kernel
  have horder : order.Tidy := by decide +kernel
  have hpopulated : order.Everywhere PopulatedHere := by decide +kernel
  obtain ⟨hcomm, hself⟩ := intersection_commutative_and_idempotent
  exact ⟨hdraft, hnot, horder, hpopulated, (hcomm draft order hdraft horder.settled).1,
    (hself order horder hpopulated).1⟩

end Schema

end DocShape
