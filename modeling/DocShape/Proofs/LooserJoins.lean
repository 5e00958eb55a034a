import DocShape.Proofs.LooserSchemas
import DocShape.Proofs.Semilattice

/-!
# Statistics only widen joins

Joined with one schema, a looser schema gives a looser one, so statistics only
widen a union.  Several arrays fold into one precisely, but an array added to
several leaves the array of anything, and the order of the operands decides
between the two.  The runs with and without statistics agree on that order as
long as disjunctions with several arrays do not lie in the items of others.
-/

namespace DocShape

theorem rel_merge {α : Type} {R : α → α → Prop} {f : α → α → α} {a a' b b' u u' : Option α}
    (ha : Option.Rel R a a') (hb : Option.Rel R b b') (hu : EitherWay (Option.merge f) a b u)
    (hu' : EitherWay (Option.merge f) a' b' u')
    (h : ∀ x ∈ a, ∀ x' ∈ a', ∀ y ∈ b, ∀ y' ∈ b', R x x' → ∀ v v', EitherWay f x y v →
      EitherWay f x' y' v' → R v v') : Option.Rel R u u' := by
  cases ha with
  | none =>
      simp only [EitherWay, Option.merge_none_left, Option.merge_none_right, or_self] at hu hu'
      rwa [hu, hu']
  | @some x x' hx =>
      cases hb with
      | none =>
          simp only [EitherWay, Option.merge_none_left, Option.merge_none_right, or_self] at hu hu'
          rw [hu, hu']
          exact .some hx
      | @some y y' _ =>
          have hboth := h x rfl x' rfl y rfl y' rfl hx
          simp only [EitherWay, Option.merge_some_some] at hu hu'
          rcases hu with rfl | rfl <;> rcases hu' with rfl | rfl <;> refine .some (hboth _ _ ?_ ?_)
          all_goals simp [EitherWay]

/-! ## Documents -/

namespace Document

variable {join : Schema → Schema → Schema} {d o u : Document}

/-- `u` is the union of `d` and `o` in either order, as far as allowed fields show. -/
structure Unites (join : Schema → Schema → Schema) (d o u : Document) : Prop where
  requires : ∀ field, u.requires field = (d.requires field && o.requires field)
  isOpen : u.isOpen = (d.isOpen || o.isOpen)
  allowed : ∀ field,
    EitherWay (Option.merge join) (d.allowed? field) (o.allowed? field) (u.allowed? field)

theorem Unites.symm (h : Unites join d o u) : Unites join o d u where
  requires field := by rw [h.requires, Bool.and_comm]
  isOpen := by rw [h.isOpen, Bool.or_comm]
  allowed field := (h.allowed field).symm

theorem IsUnion.unites (h : IsUnion join u d o) (hleft : ∀ s, join .any s = .any)
    (hright : ∀ s, join s .any = .any) : Unites join d o u where
  requires := h.requires
  isOpen := h.isOpen
  allowed _ := Or.inl (h.fuses.allowed? rfl rfl (fun s _ => hright s) fun s _ => hleft s)

theorem unites_of_eitherWay (hleft : ∀ s, join .any s = .any) (hright : ∀ s, join s .any = .any)
    (h : EitherWay (unionWith join) d o u) :
    (∃ jaccard, u = { unconstrained with jaccard := some jaccard }) ∨ Unites join d o u := by
  rcases h with rfl | rfl
  · exact (unionWith_cases join d o).imp_right fun h => h.2.unites hleft hright
  · exact (unionWith_cases join o d).imp_right fun h => (h.2.unites hleft hright).symm

theorem unites_of_jaccard_none (hleft : ∀ s, join .any s = .any)
    (hright : ∀ s, join s .any = .any) (hd : d.jaccard = none) (ho : o.jaccard = none)
    (h : EitherWay (unionWith join) d o u) : Unites join d o u := by
  rcases h with rfl | rfl
  · exact (unionWith_of_jaccard_none hd ho).unites hleft hright
  · exact ((unionWith_of_jaccard_none ho hd).unites hleft hright).symm

end Document

namespace Schema

/-- A schema without statistics, a looser one, and a schema to be joined with both.
Unless the two differ in nothing but statistics, the third has no disjunction with
several arrays. -/
structure Aligned (n : Nat) (x x' y' : Schema) : Prop where
  loose : Shallow LooseHere n x
  canonical : x'.Canonical
  loosens : Loosens n x x'
  next : Shallow LayeredHere n y'
  settled : x = x'.bare ∨ y'.Everywhere OneArrayHere

/-- Joins with one schema keep what is looser so. -/
def Simulates (n : Nat) : Prop :=
  ∀ {x x' y' r r' : Schema}, Aligned n x x' y' → EitherWay (joinWithin n) x y'.bare r →
    EitherWay (joinWithin n) x' y' r' → Loosens n r r'

private theorem fieldLoosens_merge {rel : Schema → Schema → Prop} {join : Schema → Schema → Schema}
    {a a' b b' u u' : Option Schema} (hleft : ∀ s, join .any s = .any)
    (hright : ∀ s, join s .any = .any) (ha : FieldLoosens rel a a') (hb : Option.Rel rel b b')
    (hu : EitherWay (Option.merge join) a b u) (hu' : EitherWay (Option.merge join) a' b' u')
    (h : ∀ x ∈ a, ∀ x' ∈ a', ∀ y ∈ b, ∀ y' ∈ b', rel x x' → ∀ v v', EitherWay join x y v →
      EitherWay join x' y' v' → rel v v') : FieldLoosens rel u u' := by
  rcases ha with rfl | ha
  · left
    cases b' with
    | none => simpa [EitherWay] using hu'
    | some t => simpa [EitherWay, hleft, hright] using hu'
  · exact Or.inr (rel_merge ha hb hu hu' h)

private theorem everywhere_allowed {P : Schema → Prop} (hany : P .any) {d : Document}
    (h : (document d).Everywhere P) {field : String} {s : Schema}
    (hs : d.allowed? field = some s) : s.Everywhere P := by
  rcases Document.allowed?_cases hs with hdeclared | rfl
  · rcases Document.declared?_cases hdeclared with hkey | ⟨-, -, rfl⟩
    · exact (Everywhere.document_iff.1 h).2 _ (Document.mem_of_key? hkey)
    · exact .leaf hany rfl
  · exact .leaf hany rfl

theorem documentLoosens_unionWith {n : Nat} (hsim : Simulates n) {d d' o' u u' : Document}
    (hd : Shallow LooseHere (n + 1) (.document d)) (hd' : (document d').Canonical)
    (hloosens : DocumentLoosens (Loosens n) d d')
    (ho' : Shallow LayeredHere (n + 1) (.document o'))
    (hsettled : d = d'.bare ∨ (document o').Everywhere OneArrayHere)
    (hu : EitherWay (Document.unionWith (joinWithin n)) d o'.bare u)
    (hu' : EitherWay (Document.unionWith (joinWithin n)) d' o' u') :
    DocumentLoosens (Loosens n) u u' := by
  have hleft := any_joinWithin n
  have hright := joinWithin_any n
  have hunites := Document.unites_of_jaccard_none hleft hright hd.everywhere.here.1
    o'.bare_jaccard hu
  rcases Document.unites_of_eitherWay hleft hright hu' with ⟨jaccard, rfl⟩ | hunites'
  · exact documentLoosens_unconstrained _ _ _
  · refine ⟨fun field hrequires => ?_, fun hopen => ?_, fun field => ?_⟩
    · rw [hunites'.requires, Bool.and_eq_true] at hrequires
      rw [hunites.requires, Document.requires_bare, hrequires.2,
        hloosens.requires field hrequires.1]
      rfl
    · rw [hunites.isOpen, Document.bare_isOpen, Bool.or_eq_true] at hopen
      rw [hunites'.isOpen, Bool.or_eq_true]
      exact hopen.imp_left hloosens.isOpen
    · have hrest := hunites.allowed field
      rw [Document.allowed?_bare] at hrest
      refine fieldLoosens_merge hleft hright (hloosens.allowed field)
        (rel_map_left (loosens_bare n) _) hrest (hunites'.allowed field) ?_
      intro x hx x' hx' y hy y' hy' hxx' v v' hv hv'
      have hy : y = y'.bare := by
        rw [Option.mem_def.1 hy'] at hy
        exact (Option.some.inj hy).symm
      have hsettled : x = x'.bare ∨ y'.Everywhere OneArrayHere := by
        rcases hsettled with heq | hone
        · left
          rw [heq, Document.allowed?_bare, Option.mem_def.1 hx'] at hx
          exact (Option.some.inj hx).symm
        · exact Or.inr (everywhere_allowed trivial hone hy')
      rw [hy] at hv
      exact hsim ⟨hd.allowed joinClosed_looseHere hx, hd'.allowed hx', hxx',
        ho'.allowed joinClosed_layeredHere hy', hsettled⟩ hv hv'

/-! ## Arrays -/

/-- Items without statistics, and looser ones. -/
structure ItemLoosens (n : Nat) (x x' : Schema) : Prop where
  loose : Shallow LooseHere n x
  canonical : x'.Canonical
  loosens : Loosens n x x'

/-- No array on either side, or one array on each, the second looser. -/
def OneLoosens (n : Nat) (xs xs' : List Schema) : Prop :=
  xs = [] ∧ xs' = [] ∨ ∃ x x', xs = [x] ∧ xs' = [x'] ∧ ItemLoosens n x x'

theorem OneLoosens.arrays {n : Nat} {xs xs' : List Schema} (h : OneLoosens n xs xs') :
    ArraysLoosen (Loosens n) xs xs' := by
  rcases h with ⟨rfl, rfl⟩ | ⟨x, x', rfl, rfl, hx⟩
  · exact Or.inr rfl
  · exact Or.inl ⟨x, x', rfl, rfl, hx.loosens⟩

private theorem itemLoosens_bare {n : Nat} {x : Schema} (h : Shallow LayeredHere n x) :
    ItemLoosens n x.bare x :=
  ⟨h.loose, h.canonical, loosens_bare n x⟩

/-- Arrays folded into one stay looser, if no later one has several arrays inside. -/
theorem OneLoosens.foldl_gatherArray {n : Nat} (hsim : Simulates n) {xs xs' ys : List Schema}
    (h : OneLoosens n xs xs') (hys : ∀ y ∈ ys, Shallow LayeredHere n y)
    (hone : ∀ y ∈ ys, y.Everywhere OneArrayHere) :
    OneLoosens n ((ys.map bare).foldl (gatherArray (joinWithin n)) xs)
      (ys.foldl (gatherArray (joinWithin n)) xs') := by
  induction ys generalizing xs xs' with
  | nil => exact h
  | cons y ys ih =>
      obtain ⟨hy, hys⟩ := List.forall_mem_cons.1 hys
      obtain ⟨hyone, hone⟩ := List.forall_mem_cons.1 hone
      rw [List.map_cons, List.foldl_cons, List.foldl_cons]
      refine ih ?_ hys hone
      rcases h with ⟨rfl, rfl⟩ | ⟨x, x', rfl, rfl, hx⟩
      · exact Or.inr ⟨_, _, rfl, rfl, itemLoosens_bare hy⟩
      · refine Or.inr ⟨_, _, rfl, rfl, ?_, ?_, ?_⟩
        · exact shallow_joinWithin joinClosed_looseHere n hx.loose hy.loose
        · exact (keepsCanonical_joinWithin n).canonical hx.canonical hy.canonical
        · exact hsim ⟨hx.loose, hx.canonical, hx.loosens, hy, Or.inr hyone⟩ (Or.inl rfl)
            (Or.inl rfl)

/-! ## The order of the operands -/

theorem compareLists_append_bare {ns ds ds' bs : List Schema}
    (h : (arrayItems bs).length < (arrayItems ns).length) :
    compareLists Schema.compare (ns.map bare ++ ds) bs =
      compareLists Schema.compare (ns ++ ds') bs := by
  induction ns generalizing bs with
  | nil => simp [arrayItems] at h
  | cons a ns ih =>
      cases bs with
      | nil => rfl
      | cons b bs =>
          rw [List.map_cons, List.cons_append, List.cons_append, compareLists, compareLists,
            compare_bare_left]
          cases hab : a.compare b with
          | lt => rfl
          | gt => rfl
          | eq =>
              have hkind : a.kind = b.kind := kind_eq_of_compare_eq hab
              refine ih ?_
              have hsplit (c : Schema) (cs : List Schema) :
                  (arrayItems (c :: cs)).length =
                    (if c.kind = .array then 1 else 0) + (arrayItems cs).length := by
                cases c <;> simp [arrayItems, kind, Nat.add_comm]
              rw [hsplit, hsplit, hkind] at h
              omega

theorem Canonical.branches_split {bs : List Schema} (h : (anyOf bs).Canonical) :
    bs = nonDocuments bs ++ (documents bs).map document := by
  obtain ⟨hbs, -⟩ := canonical_anyOf_iff.1 h
  refine hbs.ascending.eq_of_mem_iff ?_ fun b => ?_
  · rw [← filter_document]
    refine List.pairwise_append.2 ⟨hbs.ascending.filter _, hbs.ascending.filter _, ?_⟩
    intro b hb c hc
    obtain ⟨hb, hkind⟩ := mem_nonDocuments.1 hb
    obtain ⟨-, hc⟩ := List.mem_filter.1 hc
    refine compare_of_rank_lt ?_
    rw [beq_iff_eq.1 hc]
    have hbranch := hbs.branch b hb
    cases b with
    | unsat => exact absurd rfl hbranch.1
    | any => exact absurd rfl hbranch.2.1
    | anyOf cs => exact absurd rfl hbranch.2.2
    | document d => exact absurd rfl hkind
    | _ => simp [kind, Kind.rank]
  · rw [List.mem_append, mem_nonDocuments, ← filter_document, List.mem_filter, beq_iff_eq,
      ← and_or_left, and_iff_left (Classical.em _).symm]

private theorem nonDocuments_eq_map_bare {bs bs' : List Schema} (h : (anyOf bs).Canonical)
    (h' : (anyOf bs').Canonical) (hflat : ∀ b : Schema, b.IsFlat → (b ∈ bs ↔ b ∈ bs'))
    (harrays : arrayItems bs = (arrayItems bs').map bare) :
    nonDocuments bs = (nonDocuments bs').map bare := by
  obtain ⟨hbs, -⟩ := canonical_anyOf_iff.1 h
  obtain ⟨hbs', -⟩ := canonical_anyOf_iff.1 h'
  have hleft : Ascending (nonDocuments bs) := hbs.ascending.filter _
  have hright : Ascending ((nonDocuments bs').map bare) := by
    refine List.pairwise_map.2 ((hbs'.ascending.filter _).imp fun {a b} hlt => ?_)
    rw [compare_bare_left, compare_bare_right, hlt]
  refine hleft.eq_of_mem_iff hright fun b => ?_
  have hbranches (hb : b.IsBranch) (hkind : b.kind ≠ .document) :
      b ∈ bs ↔ b ∈ bs'.map bare := by
    cases b with
    | missing => exact (hflat _ (Or.inl rfl)).trans (IsFlat.mem_map_bare (Or.inl rfl)).symm
    | atomic a => exact (hflat _ (Or.inr rfl)).trans (IsFlat.mem_map_bare (Or.inr rfl)).symm
    | array x => rw [← mem_arrayItems, ← mem_arrayItems, arrayItems_bare, harrays]
    | document d => exact absurd rfl hkind
    | unsat => exact absurd rfl hb.1
    | any => exact absurd rfl hb.2.1
    | anyOf cs => exact absurd rfl hb.2.2
  have hmap : (nonDocuments bs').map bare = nonDocuments (bs'.map bare) :=
    (filter_kind_bare .document bs').symm
  have hbare : ∀ c ∈ bs'.map bare, c.IsBranch :=
    List.forall_mem_map.2 fun c hc => isBranch_bare.2 (hbs'.branch c hc)
  rw [hmap, mem_nonDocuments, mem_nonDocuments]
  constructor
  · exact fun hb => ⟨(hbranches (hbs.branch b hb.1) hb.2).1 hb.1, hb.2⟩
  · exact fun hb => ⟨(hbranches (hbare b hb.1) hb.2).2 hb.1, hb.2⟩

/-- Several arrays decide how a schema compares with one that has at most one,
before its document is looked at. -/
theorem compare_of_several {x x' y : Schema} (hx : x.Canonical) (hx' : x'.Canonical)
    (hflat : ∀ b : Schema, b.IsFlat → (b ∈ x.parts ↔ b ∈ x'.parts))
    (harrays : arrayItems x.parts = (arrayItems x'.parts).map bare)
    (htwo : 2 ≤ (arrayItems x'.parts).length) (hone : (arrayItems y.parts).length ≤ 1) :
    x.compare y = x'.compare y := by
  obtain ⟨bs', rfl⟩ := exists_anyOf_of_arrays htwo
  obtain ⟨bs, rfl⟩ := exists_anyOf_of_arrays (s := x) (by rwa [harrays, List.length_map])
  by_cases hkind : y.kind = .anyOf
  · obtain ⟨cs, rfl⟩ := kind_eq_anyOf hkind
    rw [compare_anyOf, compare_anyOf, hx.branches_split, hx'.branches_split,
      nonDocuments_eq_map_bare hx hx' hflat harrays]
    refine compareLists_append_bare ?_
    rw [arrayItems_nonDocuments]
    exact Nat.lt_of_le_of_lt hone htwo
  · have hne (as : List Schema) : (anyOf as).kind ≠ y.kind := fun h => hkind h.symm
    rw [compare_of_kind_ne (hne bs), compare_of_kind_ne (hne bs')]
    rfl

theorem JoinsTo.arrays_of_several {n : Nat} {s t r : Schema} (h : JoinsTo n s t r)
    (hs : 2 ≤ (arrayItems s.parts).length) (ht : 2 ≤ (arrayItems t.parts).length) :
    arrayItems r.parts = [.any] := by
  have hany := any_joinWithin n
  have hne {u : Schema} (hu : 2 ≤ (arrayItems u.parts).length) : arrayItems u.parts ≠ [] := by
    intro hnil
    simp [hnil] at hu
  rcases h with ⟨-, h⟩ | ⟨-, h⟩
  · rw [h.arrays_of_several_right hany ht, if_neg (hne hs)]
  · rw [h.arrays_of_several_right hany hs, if_neg (hne ht)]

/-! ## Joins stay looser -/

section Step

variable {n : Nat} {x x' y' r r' : Schema}

theorem ArraysLoosen.length_eq {rel : Schema → Schema → Prop} {xs xs' : List Schema}
    (h : ArraysLoosen rel xs xs') : xs.length = xs'.length := by
  rcases h with ⟨x, x', rfl, rfl, -⟩ | rfl
  · rfl
  · rw [List.length_map]

theorem ArraysLoosen.rel_head? {rel : Schema → Schema → Prop} (hbare : ∀ s, rel s.bare s)
    {xs xs' : List Schema} (h : ArraysLoosen rel xs xs') : Option.Rel rel xs.head? xs'.head? := by
  rcases h with ⟨x, x', rfl, rfl, hx⟩ | rfl
  · exact .some hx
  · rw [List.head?_map]
    exact rel_map_left hbare _

theorem arraysLoosen_of_rel_head? {rel : Schema → Schema → Prop} {xs xs' : List Schema}
    (hxs : xs.length ≤ 1) (hxs' : xs'.length ≤ 1) (h : Option.Rel rel xs.head? xs'.head?) :
    ArraysLoosen rel xs xs' := by
  cases xs with
  | nil =>
      cases xs' with
      | nil => exact Or.inr rfl
      | cons x' rest' => cases h
  | cons x rest =>
      cases xs' with
      | nil => cases h
      | cons x' rest' =>
          have hrest : rest = [] := by simpa using hxs
          have hrest' : rest' = [] := by simpa using hxs'
          cases h with
          | some hx => exact Or.inl ⟨x, x', by rw [hrest], by rw [hrest'], hx⟩

/-- Two joins with their operands in the same order. -/
theorem joinParts_together (hcompare : x.compare y'.bare = x'.compare y')
    (hne : x'.compare y' ≠ .eq)
    (hr : JoinsTo n x y'.bare r)
    (hr' : JoinsTo n x' y' r') :
    (JoinParts (joinWithin n) x y'.bare r ∧ JoinParts (joinWithin n) x' y' r') ∨
      (JoinParts (joinWithin n) y'.bare x r ∧ JoinParts (joinWithin n) y' x' r') := by
  have hswap : y'.bare.compare x = (x'.compare y').swap := by rw [← hcompare, compare_swap]
  have hswap' : y'.compare x' = (x'.compare y').swap := (compare_swap x' y').symm
  rw [JoinsTo, hcompare, hswap] at hr
  rw [JoinsTo, hswap'] at hr'
  cases horder : x'.compare y' with
  | eq => exact absurd horder hne
  | lt =>
      rw [horder] at hr hr'
      left
      exact ⟨(hr.resolve_right fun h => h.1 rfl).2, (hr'.resolve_right fun h => h.1 rfl).2⟩
  | gt =>
      rw [horder] at hr hr'
      right
      exact ⟨(hr.resolve_left fun h => h.1 rfl).2, (hr'.resolve_left fun h => h.1 rfl).2⟩

theorem compare_ne_eq_of_arrays {s t : Schema}
    (h : (arrayItems s.parts).length ≠ (arrayItems t.parts).length) : s.compare t ≠ .eq := by
  intro heq
  have hbare := congrArg (fun u : Schema => (arrayItems u.parts).length) (bare_eq_of_compare_eq heq)
  simp only [parts_bare, arrayItems_bare, List.length_map] at hbare
  exact h hbare

theorem ArraysLoosen.one {xs xs' : List Schema} (h : ArraysLoosen (Loosens n) xs xs')
    (hle : xs'.length ≤ 1) (hxs : ∀ x ∈ xs, Shallow LooseHere n x)
    (hxs' : ∀ x' ∈ xs', x'.Canonical) : OneLoosens n xs xs' := by
  rcases h with ⟨x, x', rfl, rfl, hx⟩ | rfl
  · exact Or.inr ⟨x, x', rfl, rfl, hxs x (List.mem_singleton_self x),
      hxs' x' (List.mem_singleton_self x'), hx⟩
  · cases xs' with
    | nil => exact Or.inl ⟨rfl, rfl⟩
    | cons x' rest =>
        have hrest : rest = [] := by simpa using hle
        subst hrest
        exact Or.inr ⟨x'.bare, x', rfl, rfl, hxs _ (List.mem_singleton_self _),
          hxs' x' (List.mem_singleton_self x'), loosens_bare n x'⟩

/-- Several arrays on one side, at most one on the other: those that fold into one
are looser, and those that stay apart are the same. -/
theorem arraysLoosen_of_several (hsim : Simulates n) {xs xs' ys : List Schema}
    (h : OneLoosens n xs xs') (hys : ∀ y ∈ ys, Shallow LayeredHere n y)
    (hone : ∀ y ∈ ys, y.Everywhere OneArrayHere) :
    ArraysLoosen (Loosens n) ((ys.map bare).foldl (gatherArray (joinWithin n)) xs)
        (ys.foldl (gatherArray (joinWithin n)) xs') ∧
      ArraysLoosen (Loosens n) (if xs = [] then ys.map bare else [.any])
        (if xs' = [] then ys else [.any]) := by
  refine ⟨(h.foldl_gatherArray hsim hys hone).arrays, Or.inr ?_⟩
  rcases h with ⟨rfl, rfl⟩ | ⟨x, x', rfl, rfl, -⟩
  · rfl
  · rfl

theorem arrayItems_parts_bare (s : Schema) :
    arrayItems s.bare.parts = (arrayItems s.parts).map bare := by
  rw [parts_bare, arrayItems_bare]

variable (hsim : Simulates n) (h : Aligned (n + 1) x x' y')
  (hparts : PartsLoosen (Loosens n) x.parts x'.parts)

include hsim h hparts

/-- At most one array on each side: the order of the operands does not matter. -/
theorem arraysLoosen_of_one_one (hy : (arrayItems y'.parts).length ≤ 1)
    (hr : (arrayItems r.parts).length ≤ 1 ∧ EitherWay (Option.merge (joinWithin n))
      (arrayPart x.parts) (arrayPart y'.bare.parts) (arrayPart r.parts))
    (hr' : (arrayItems r'.parts).length ≤ 1 ∧ EitherWay (Option.merge (joinWithin n))
      (arrayPart x'.parts) (arrayPart y'.parts) (arrayPart r'.parts)) :
    ArraysLoosen (Loosens n) (arrayItems r.parts) (arrayItems r'.parts) := by
  have hright : arrayPart y'.bare.parts = (arrayPart y'.parts).map bare := by
    rw [arrayPart, arrayItems_parts_bare, List.head?_map, arrayPart]
  refine arraysLoosen_of_rel_head? hr.1 hr'.1 (rel_merge (hparts.arrays.rel_head? (loosens_bare n))
    (rel_map_left (loosens_bare n) _) (hright ▸ hr.2) hr'.2 ?_)
  intro z hz z' hz' w hw w' hw' hzz' v v' hv hv'
  have hw : w = w'.bare := by
    rw [Option.mem_def.1 hw'] at hw
    exact (Option.some.inj hw).symm
  have hwmem : w' ∈ arrayItems y'.parts := (head?_eq_some_iff_mem hy).1 hw'
  have hsettled : z = z'.bare ∨ w'.Everywhere OneArrayHere := by
    rcases h.settled with heq | hone
    · left
      rw [heq, arrayItems_parts_bare, List.head?_map, Option.mem_def.1 hz'] at hz
      exact (Option.some.inj hz).symm
    · right
      exact (everywhere_of_mem_parts hone (mem_arrayItems.1 hwmem)).inside
        (List.mem_singleton_self w')
  rw [hw] at hv
  exact hsim ⟨h.loose.arrayItem (List.mem_of_mem_head? hz),
    h.canonical.arrayItem (List.mem_of_mem_head? hz'), hzz', h.next.arrayItem hwmem, hsettled⟩ hv hv'

variable (hr : JoinsTo n x y'.bare r)
  (hr' : JoinsTo n x' y' r')

include hr hr'

theorem arraysLoosen_of_one_several (hx : (arrayItems x'.parts).length ≤ 1)
    (hy : 2 ≤ (arrayItems y'.parts).length) :
    ArraysLoosen (Loosens n) (arrayItems r.parts) (arrayItems r'.parts) := by
  have hany := any_joinWithin n
  have heq : x = x'.bare := h.settled.resolve_right fun hone => absurd hone.oneArray (by omega)
  have hcompare : x.compare y'.bare = x'.compare y' := by
    rw [heq, compare_bare_left, compare_bare_right]
  have hne : x'.compare y' ≠ .eq := compare_ne_eq_of_arrays (by omega)
  have hbare : 2 ≤ (arrayItems y'.bare.parts).length := by
    rwa [arrayItems_parts_bare, List.length_map]
  obtain ⟨hfolded, hkept⟩ := arraysLoosen_of_several hsim
    (hparts.arrays.one hx (fun _ => h.loose.arrayItem) fun _ => h.canonical.arrayItem)
    (fun _ => h.next.arrayItem) (h.next.everywhere.oneArray_items hy)
  rcases joinParts_together hcompare hne hr hr' with ⟨hj, hj'⟩ | ⟨hj, hj'⟩
  · rw [hj.arrays_of_several_right hany hbare, hj'.arrays_of_several_right hany hy,
      arrayItems_parts_bare y']
    exact hkept
  · rw [hj.arrays_of_several_left hbare, hj'.arrays_of_several_left hy, arrayItems_parts_bare y']
    exact hfolded

private theorem arraysLoosen_of_several_one (hx : 2 ≤ (arrayItems x'.parts).length)
    (hy : (arrayItems y'.parts).length ≤ 1) :
    ArraysLoosen (Loosens n) (arrayItems r.parts) (arrayItems r'.parts) := by
  have hany := any_joinWithin n
  have hitems : arrayItems x.parts = (arrayItems x'.parts).map bare := by
    refine hparts.arrays.resolve_left ?_
    rintro ⟨z, z', -, hz', -⟩
    simp [hz'] at hx
  have hbare : 2 ≤ (arrayItems x.parts).length := by rwa [hitems, List.length_map]
  have hcompare : x.compare y'.bare = x'.compare y' := by
    rw [compare_bare_right]
    exact compare_of_several h.loose.canonical h.canonical hparts.flat hitems hx hy
  have hne : x'.compare y' ≠ .eq := compare_ne_eq_of_arrays (by omega)
  have hlayered : x.Everywhere LayeredHere := h.loose.everywhere.imp fun _ hs => hs.2
  have hmem {z : Schema} (hz : z ∈ arrayItems x'.parts) : z.bare ∈ arrayItems x.parts :=
    hitems ▸ List.mem_map_of_mem hz
  have hone : OneLoosens n (arrayItems y'.bare.parts) (arrayItems y'.parts) := by
    refine ArraysLoosen.one (Or.inr (arrayItems_parts_bare y')) hy (fun z => ?_)
      fun z hz => (h.next.arrayItem hz).canonical
    exact h.next.loose.arrayItem
  have hshallow (z : Schema) (hz : z ∈ arrayItems x'.parts) : Shallow LayeredHere n z := by
    have hloose : Shallow LooseHere n z.bare := h.loose.arrayItem (hmem hz)
    refine ⟨h.canonical.arrayItem hz, ?_, nest_bare z ▸ hloose.nest⟩
    exact (everywhere_bare_iff layeredHere_bare z).1 (hloose.everywhere.imp fun _ hs => hs.2)
  have honeArray (z : Schema) (hz : z ∈ arrayItems x'.parts) : z.Everywhere OneArrayHere :=
    (everywhere_bare_iff oneArrayHere_bare z).1 (hlayered.oneArray_items hbare _ (hmem hz))
  obtain ⟨hfolded, hkept⟩ := arraysLoosen_of_several hsim hone hshallow honeArray
  rcases joinParts_together hcompare hne hr hr' with ⟨hj, hj'⟩ | ⟨hj, hj'⟩
  · rw [hj.arrays_of_several_left hbare, hj'.arrays_of_several_left hx, hitems]
    exact hfolded
  · rw [hj.arrays_of_several_right hany hbare, hj'.arrays_of_several_right hany hx, hitems]
    exact hkept

theorem arraysLoosen_join :
    ArraysLoosen (Loosens n) (arrayItems r.parts) (arrayItems r'.parts) := by
  have hxlength := hparts.arrays.length_eq
  have hylength : (arrayItems y'.bare.parts).length = (arrayItems y'.parts).length := by
    rw [arrayItems_parts_bare, List.length_map]
  rcases Nat.lt_or_ge (arrayItems x'.parts).length 2 with hx | hx <;>
    rcases Nat.lt_or_ge (arrayItems y'.parts).length 2 with hy | hy
  · exact arraysLoosen_of_one_one hsim h hparts (by omega)
      (hr.arrays_of_le_one (by omega) (by omega)) (hr'.arrays_of_le_one (by omega) (by omega))
  · exact arraysLoosen_of_one_several hsim h hparts hr hr' (by omega) hy
  · exact arraysLoosen_of_several_one hsim h hparts hr hr' hx (by omega)
  · rw [hr.arrays_of_several (by omega) (by omega), hr'.arrays_of_several hx hy]
    exact Or.inr rfl

end Step

private theorem documentLoosens_join {n : Nat} {x x' y' r r' : Schema} (hsim : Simulates n)
    (h : Aligned (n + 1) x x' y')
    (hparts : Option.Rel (DocumentLoosens (Loosens n)) (documentPart x.parts)
      (documentPart x'.parts))
    (hr : EitherWay (Option.merge (Document.unionWith (joinWithin n))) (documentPart x.parts)
      (documentPart y'.bare.parts) (documentPart r.parts))
    (hr' : EitherWay (Option.merge (Document.unionWith (joinWithin n))) (documentPart x'.parts)
      (documentPart y'.parts) (documentPart r'.parts)) :
    Option.Rel (DocumentLoosens (Loosens n)) (documentPart r.parts) (documentPart r'.parts) := by
  rw [parts_bare, documentPart_bare] at hr
  refine rel_merge hparts (rel_map_left (documentLoosens_bare (loosens_bare n)) _) hr hr' ?_
  intro d hd d' hd' o ho o' ho' hdd' u u' hu hu'
  have ho : o = o'.bare := by
    rw [Option.mem_def.1 ho'] at ho
    exact (Option.some.inj ho).symm
  have hsettled : d = d'.bare ∨ (document o').Everywhere OneArrayHere := by
    rcases h.settled with heq | hone
    · left
      rw [heq, parts_bare, documentPart_bare, Option.mem_def.1 hd'] at hd
      exact (Option.some.inj hd).symm
    · exact Or.inr (everywhere_of_mem_parts hone (mem_parts_of_documentPart ho'))
  rw [ho] at hu
  exact documentLoosens_unionWith hsim (h.loose.of_mem_parts (mem_parts_of_documentPart hd))
    (everywhere_of_mem_parts h.canonical (mem_parts_of_documentPart hd')) hdd'
    (h.next.of_mem_parts (mem_parts_of_documentPart ho')) hsettled hu hu'

private theorem simulates_succ {n : Nat} (hsim : Simulates n) : Simulates (n + 1) := by
  intro x x' y' r r' h hr hr'
  by_cases hxany' : x' = .any
  · left
    rcases hr' with rfl | rfl
    · rw [hxany', any_joinWithin]
    · rw [hxany', joinWithin_any]
  by_cases hyany : y' = .any
  · left
    rcases hr' with rfl | rfl
    · rw [hyany, joinWithin_any]
    · rw [hyany, any_joinWithin]
  obtain ⟨hxany, -, hparts⟩ := h.loosens.resolve_left hxany'
  have hy : y'.bare.Canonical := canonical_bare h.next.canonical
  have hybare : y'.bare ≠ .any := fun heq => hyany (bare_eq_any.1 heq)
  have hjoin : JoinsTo n x y'.bare r := .of_eitherWay hr h.loose.canonical hy hxany hybare
  have hjoin' : JoinsTo n x' y' r' :=
    .of_eitherWay hr' h.canonical h.next.canonical hxany' hyany
  refine Or.inr ⟨hjoin.ne_any, hjoin'.ne_any, fun b hb => ?_, ?_, ?_⟩
  · rw [hjoin.flat b hb, hjoin'.flat b hb, hparts.flat b hb, parts_bare, hb.mem_map_bare]
  · exact arraysLoosen_join hsim h hparts hjoin hjoin'
  · exact documentLoosens_join hsim h hparts.document hjoin.document hjoin'.document

private theorem simulates (n : Nat) : Simulates n := by
  induction n with
  | zero => exact fun _ _ _ => trivial
  | succ n ih => exact simulates_succ ih

/-! ## Unions -/

private theorem union_bare_within {a b : Schema} (ha : a.Canonical) (hb : b.Canonical)
    (halayered : a.Everywhere LayeredHere) (hblayered : b.Everywhere LayeredHere) :
    (a.bare.union b.bare).Within (a.union b) := by
  have hnest : a.nest < max a.nest b.nest + 1 ∧ b.nest < max a.nest b.nest + 1 := by omega
  have hashallow : Shallow LayeredHere (max a.nest b.nest + 1) a := ⟨ha, halayered, hnest.1⟩
  have hbshallow : Shallow LayeredHere (max a.nest b.nest + 1) b := ⟨hb, hblayered, hnest.2⟩
  rw [union_of_canonical ha hb, union_of_canonical (canonical_bare ha) (canonical_bare hb), join,
    join, nest_bare, nest_bare]
  have haligned : Aligned _ a.bare a b :=
    ⟨hashallow.loose, ha, loosens_bare _ a, hbshallow, Or.inl rfl⟩
  have hloosens := simulates _ haligned (Or.inl rfl) (Or.inl rfl)
  exact hloosens.within (shallow_joinWithin joinClosed_looseHere _ hashallow.loose hbshallow.loose)
    ((keepsCanonical_joinWithin _).canonical ha hb)

/-- Statistics only widen a union of layered schemas, and change nothing of one in
which every index found is stable. -/
theorem statistics_only_widen {a b : Schema} (ha : a.Canonical) (hb : b.Canonical) :
    (a.Everywhere LayeredHere → b.Everywhere LayeredHere →
      (a.bare.union b.bare).satisfies (a.union b) = .must) ∧
    ((∀ j ∈ a.unionIndexes b, j.isUnstable = false) →
      (a.union b).same (a.bare.union b.bare) = true) := by
  refine ⟨union_bare_within ha hb, fun hstable => same_iff_bare_eq.2 ?_⟩
  rw [union_bare ha hb hstable]
  exact (bare_of_bareHere (everywhere_bareHere _)).symm

/-- Lists of orders and of totals against a note or a list of customers whose shape is
given up, and the same with an index that has seen little. -/
theorem statistics_only_widen_orders :
    let orders : Schema := .anyOf [.array (.atomic .int),
      .array (.document (.ofFields [("id", .atomic .int)] ["id"] false))]
    let customers (jaccard : Jaccard) : Schema := .anyOf [.array (.document
      { Document.ofFields [("name", .atomic .string)] ["name"] false with
        jaccard := some jaccard }), .document (.ofFields [("note", .any)] [] false)]
    let drifted := customers ⟨0.0, 100, 0.8⟩
    let fresh := customers (.fresh 0.8)
    orders.Canonical ∧ drifted.Canonical ∧ fresh.Canonical ∧ orders.Everywhere LayeredHere ∧
      drifted.Everywhere LayeredHere ∧ (orders.unionIndexes fresh).length = 1 ∧
      (orders.bare.union drifted.bare).satisfies (orders.union drifted) = .must ∧
      (orders.union drifted).same (orders.bare.union drifted.bare) = false ∧
      (orders.union fresh).same (orders.bare.union fresh.bare) = true := by
  intro orders customers drifted fresh
  have horders : orders.Canonical := by decide +kernel
  have hdrifted : drifted.Canonical := by decide +kernel
  have hfresh : fresh.Canonical := by decide +kernel
  have horders' : orders.Everywhere LayeredHere := by decide +kernel
  have hdrifted' : drifted.Everywhere LayeredHere := by decide +kernel
  obtain ⟨hwidens, -⟩ := statistics_only_widen horders hdrifted
  obtain ⟨-, hstable⟩ := statistics_only_widen horders hfresh
  exact ⟨horders, hdrifted, hfresh, horders', hdrifted', by decide +kernel,
    hwidens horders' hdrifted', by decide +kernel, hstable (by decide +kernel)⟩

/-- Where several arrays lie in the items of others, a shape that is given up can
change the order of the operands, and so keep the items that the union without
statistics gives up. -/
theorem statistics_narrow_nested_arrays :
    let shut (jaccard : Option Jaccard) : Schema :=
      .document { Document.ofFields [] [] false with jaccard }
    let a : Schema := ofBranches [.array (ofBranches [.atomic .string, .array (shut none)]),
      .array (ofBranches [.atomic .string, .array (shut none),
        .array (ofBranches [.atomic .string, .atomic .int])])]
    let b : Schema := ofBranches [
      .array (ofBranches [.atomic .string, .array (shut (some ⟨0.0, 100, 0.8⟩))]), shut none]
    a.Canonical ∧ b.Canonical ∧ (a.bare.union b.bare).satisfies (a.union b) = .may := by
  decide +kernel

end Schema

end DocShape
