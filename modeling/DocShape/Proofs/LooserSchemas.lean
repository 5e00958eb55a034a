import DocShape.Proofs.JoinParts
import DocShape.Proofs.StableJoins
import DocShape.Proofs.UpperBound

/-!
# Looser schemas

A document union that gives up on its fields leaves a looser schema than the
union without statistics.  Level by level the two have the same flat branches
and equally many arrays, and one array may have looser items, as the document
may have looser fields; several arrays differ in nothing but statistics.  What
is looser contains what is not.
-/

namespace DocShape

namespace Schema

/-! ## Several arrays in one disjunction -/

/-- A disjunction has at most one array. -/
def OneArrayHere : Schema → Prop
  | .anyOf bs => (arrayItems bs).length ≤ 1
  | _ => True

instance : DecidablePred OneArrayHere
  | .anyOf bs => inferInstanceAs (Decidable ((arrayItems bs).length ≤ 1))
  | .unsat | .missing | .atomic _ | .array _ | .document _ | .any => .isTrue trivial

/-- A disjunction with several arrays has no other such disjunction in their items. -/
def LayeredHere : Schema → Prop
  | .anyOf bs => 2 ≤ (arrayItems bs).length → ∀ x ∈ arrayItems bs, x.Everywhere OneArrayHere
  | _ => True

instance : DecidablePred LayeredHere
  | .anyOf bs => inferInstanceAs (Decidable (2 ≤ (arrayItems bs).length →
      ∀ x ∈ arrayItems bs, x.Everywhere OneArrayHere))
  | .unsat | .missing | .atomic _ | .array _ | .document _ | .any => .isTrue trivial

theorem layeredHere_of_length_le {bs : List Schema} (h : (arrayItems bs).length ≤ 1) :
    LayeredHere (.anyOf bs) :=
  fun htwo => absurd htwo (by omega)

theorem joinClosed_layeredHere : JoinClosed LayeredHere where
  unsat := trivial
  any := trivial
  array _ := trivial
  document _ _ := trivial
  inserted {join bs s out} h hinserted := by
    have harrays := (folded_inserted hinserted).arrays
    by_cases hs : arrayItems [s] = []
    · rw [hs, List.foldl_nil] at harrays
      rw [LayeredHere, harrays]
      exact h
    · refine layeredHere_of_length_le ?_
      rw [harrays, length_foldl_gatherArray _ hs]
  sorted {bs} h htwo x hx := by
    have hle : (arrayItems (sortBranches bs)).length ≤ (arrayItems bs).length :=
      length_filterMap_sortBranches_le _ bs
    exact h (Nat.le_trans htwo hle) x
      (mem_arrayItems.2 (mem_of_mem_sortBranches (mem_arrayItems.1 hx)))
  apart hkind := layeredHere_of_length_le (length_arrayItems_pair_le hkind)

/-- Without statistics, and layered. -/
def LooseHere (s : Schema) : Prop :=
  s.BareHere ∧ s.LayeredHere

theorem joinClosed_looseHere : JoinClosed LooseHere :=
  joinClosed_bareHere.and joinClosed_layeredHere

theorem children_bare (s : Schema) : s.bare.children = s.children.map bare := by
  cases s with
  | document d =>
      simp only [bare_document, children_document, Document.bare_keys, List.map_map]
      rfl
  | anyOf bs => simp only [bare_anyOf, children_anyOf]
  | _ => rfl

theorem everywhere_bare_iff {P : Schema → Prop} (hP : ∀ s : Schema, P s.bare ↔ P s) (s : Schema) :
    s.bare.Everywhere P ↔ s.Everywhere P := by
  induction s using induction_children with
  | step s ih =>
      rw [Everywhere.iff_children, Everywhere.iff_children, children_bare, List.forall_mem_map, hP]
      exact and_congr_right fun _ => forall₂_congr ih

theorem oneArrayHere_bare (s : Schema) : s.bare.OneArrayHere ↔ s.OneArrayHere := by
  cases s with
  | anyOf bs => rw [bare_anyOf, OneArrayHere, OneArrayHere, arrayItems_bare, List.length_map]
  | _ => exact Iff.rfl

theorem layeredHere_bare (s : Schema) : s.bare.LayeredHere ↔ s.LayeredHere := by
  cases s with
  | anyOf bs =>
      rw [bare_anyOf, LayeredHere, LayeredHere, arrayItems_bare, List.length_map,
        List.forall_mem_map]
      exact imp_congr_right fun _ => forall₂_congr fun x _ =>
        everywhere_bare_iff oneArrayHere_bare x
  | _ => exact Iff.rfl

theorem everywhere_bareHere (s : Schema) : s.bare.Everywhere BareHere := by
  induction s using induction_children with
  | step s ih =>
      rw [Everywhere.iff_children, children_bare, List.forall_mem_map]
      refine ⟨?_, ih⟩
      cases s with
      | document d => exact d.bare_jaccard
      | anyOf bs => rw [bare_anyOf]; trivial
      | _ => trivial

theorem Shallow.loose {n : Nat} {s : Schema} (h : Shallow LayeredHere n s) :
    Shallow LooseHere n s.bare where
  canonical := canonical_bare h.canonical
  everywhere :=
    (everywhere_bareHere s).and ((everywhere_bare_iff layeredHere_bare s).2 h.everywhere)
  nest := by rw [nest_bare]; exact h.nest

/-! ## Looser schemas -/

/-- What the looser type says of a field: anything, or what `rel` relates. -/
def FieldLoosens (rel : Schema → Schema → Prop) (a a' : Option Schema) : Prop :=
  a' = some .any ∨ Option.Rel rel a a'

/-- The looser type requires fewer fields and allows more of them. -/
structure DocumentLoosens (rel : Schema → Schema → Prop) (d d' : Document) : Prop where
  requires : ∀ field, d'.requires field = true → d.requires field = true
  isOpen : d.isOpen = true → d'.isOpen = true
  allowed : ∀ field, FieldLoosens rel (d.allowed? field) (d'.allowed? field)

/-- One array that is looser, or the same arrays apart from statistics. -/
def ArraysLoosen (rel : Schema → Schema → Prop) (xs xs' : List Schema) : Prop :=
  (∃ x x', xs = [x] ∧ xs' = [x'] ∧ rel x x') ∨ xs = xs'.map bare

/-- Looser branches, part by part. -/
structure PartsLoosen (rel : Schema → Schema → Prop) (bs bs' : List Schema) : Prop where
  flat : ∀ b : Schema, b.IsFlat → (b ∈ bs ↔ b ∈ bs')
  arrays : ArraysLoosen rel (arrayItems bs) (arrayItems bs')
  document : Option.Rel (DocumentLoosens rel) (documentPart bs) (documentPart bs')

/-- The second schema is looser than the first, which has no statistics, as far as
`level` levels of containers show. -/
def Loosens : (level : Nat) → Schema → Schema → Prop
  | 0, _, _ => True
  | level + 1, s, s' =>
      s' = .any ∨ s ≠ .any ∧ s' ≠ .any ∧ PartsLoosen (Loosens level) s.parts s'.parts

theorem parts_bare (s : Schema) : s.bare.parts = s.parts.map bare := by
  cases s with
  | anyOf bs => rw [bare_anyOf, parts, parts]
  | _ => rfl

theorem IsFlat.bare_eq {b : Schema} (h : b.IsFlat) : b.bare = b := by
  cases b with
  | missing => rfl
  | atomic a => rfl
  | _ => rcases h with h | h <;> cases h

theorem IsFlat.mem_map_bare {b : Schema} (h : b.IsFlat) {bs : List Schema} :
    b ∈ bs.map bare ↔ b ∈ bs := by
  rw [List.mem_map]
  constructor
  · rintro ⟨c, hc, rfl⟩
    have hflat : c.IsFlat := by
      rw [IsFlat, kind_bare] at h
      exact h
    rwa [hflat.bare_eq]
  · exact fun hb => ⟨b, hb, h.bare_eq⟩

theorem documentPart_bare (bs : List Schema) :
    documentPart (bs.map bare) = (documentPart bs).map Document.bare := by
  rw [documentPart, documents_bare, List.head?_map, documentPart]

end Schema

namespace Document

theorem allowed?_bare (d : Document) (field : String) :
    d.bare.allowed? field = (d.allowed? field).map Schema.bare := by
  rw [allowed?, allowed?, declared?_bare, bare_isOpen]
  cases d.declared? field with
  | some s => rfl
  | none => cases d.isOpen <;> rfl

end Document

namespace Schema

theorem rel_map_left {α : Type} {R : α → α → Prop} {f : α → α} (h : ∀ x, R (f x) x)
    (a : Option α) : Option.Rel R (a.map f) a := by
  cases a with
  | none => exact .none
  | some x => exact .some (h x)

theorem documentLoosens_bare {rel : Schema → Schema → Prop} (h : ∀ s, rel s.bare s) (d : Document) :
    DocumentLoosens rel d.bare d where
  requires field hrequires := by rwa [Document.requires_bare]
  isOpen hopen := by rwa [Document.bare_isOpen] at hopen
  allowed field := by
    rw [Document.allowed?_bare]
    exact Or.inr (rel_map_left h _)

/-- Every schema is looser than it is without statistics. -/
theorem loosens_bare (level : Nat) (s : Schema) : Loosens level s.bare s := by
  induction level generalizing s with
  | zero => trivial
  | succ level ih =>
      by_cases hany : s = .any
      · exact Or.inl hany
      · refine Or.inr ⟨fun h => hany (bare_eq_any.1 h), hany, ?_⟩
        rw [parts_bare]
        refine ⟨fun b hb => hb.mem_map_bare, Or.inr (arrayItems_bare _), ?_⟩
        rw [documentPart_bare]
        exact rel_map_left (documentLoosens_bare ih) _

theorem documentLoosens_unconstrained (rel : Schema → Schema → Prop) (d : Document)
    (jaccard : Option Jaccard) :
    DocumentLoosens rel d { Document.unconstrained with jaccard } where
  requires _ h := by cases h
  isOpen _ := rfl
  allowed _ := Or.inl rfl

/-! ## Parts -/

section Parts

variable {P : Schema → Prop} {n : Nat} {s b x : Schema}

theorem everywhere_of_mem_parts (h : s.Everywhere P) (hb : b ∈ s.parts) : b.Everywhere P := by
  cases s with
  | unsat => exact absurd hb List.not_mem_nil
  | anyOf bs => exact h.inside hb
  | _ => rwa [List.mem_singleton.1 hb]

theorem Shallow.arrayItem (h : Shallow P (n + 1) s) (hx : x ∈ arrayItems s.parts) :
    Shallow P n x :=
  (h.of_mem_parts (mem_arrayItems.1 hx)).item

theorem Canonical.arrayItem (h : s.Canonical) (hx : x ∈ arrayItems s.parts) : x.Canonical :=
  canonical_array_iff.1 (everywhere_of_mem_parts h (mem_arrayItems.1 hx))

theorem exists_anyOf_of_arrays (h : 2 ≤ (arrayItems s.parts).length) : ∃ bs, s = .anyOf bs := by
  cases s with
  | anyOf bs => exact ⟨bs, rfl⟩
  | _ => simp [parts, arrayItems] at h

theorem Everywhere.oneArray (h : s.Everywhere OneArrayHere) : (arrayItems s.parts).length ≤ 1 := by
  by_contra htwo
  obtain ⟨bs, rfl⟩ := exists_anyOf_of_arrays (by omega : 2 ≤ (arrayItems s.parts).length)
  exact htwo h.here

theorem Everywhere.oneArray_items (h : s.Everywhere LayeredHere)
    (htwo : 2 ≤ (arrayItems s.parts).length) :
    ∀ x ∈ arrayItems s.parts, x.Everywhere OneArrayHere := by
  obtain ⟨bs, rfl⟩ := exists_anyOf_of_arrays htwo
  exact h.here htwo

end Parts

theorem Canonical.allowed {d : Document} (h : (document d).Canonical) {field : String} {s : Schema}
    (hs : d.allowed? field = some s) : s.Canonical := by
  rcases Document.allowed?_cases hs with hdeclared | rfl
  · exact (h.declared hdeclared).2
  · exact canonical_any

theorem mem_parts_of_documentPart {s : Schema} {d : Document} (h : documentPart s.parts = some d) :
    .document d ∈ s.parts :=
  mem_documents.1 (List.mem_of_mem_head? h)

/-! ## Looser schemas contain more -/

theorem DocumentLoosens.fitsIn {rel : Schema → Schema → Prop} {d d' : Document}
    (h : DocumentLoosens rel d d') (hd' : (document d').Canonical)
    (hrel : ∀ field s s', d.allowed? field = some s → d'.allowed? field = some s' → rel s s' →
      s.Within s') : d.FitsIn d' where
  closed hclosed := by
    have hmentions (field : String) (hfield : d.mentions field = true) :
        d'.mentions field = true := by
      obtain ⟨s, hs⟩ := Document.declared?_of_mentions hfield
      by_contra hnot
      have hnone : d'.allowed? field = none := by
        rw [Document.allowed?_of_not_mentions (Bool.not_eq_true _ ▸ hnot), hclosed]
        rfl
      have hloosens := h.allowed field
      rw [hnone, Document.allowed?_of_declared hs] at hloosens
      rcases hloosens with hsome | hsome <;> cases hsome
    refine ⟨?_, fun field hrequires => hmentions field ?_, fun entry hentry => Or.inl ?_⟩
    · by_contra hopen
      rw [Bool.not_eq_false] at hopen
      rw [h.isOpen hopen] at hclosed
      cases hclosed
    · rw [Document.mentions, hrequires, Bool.or_true]
    · refine hmentions entry.1 ?_
      rw [Document.mentions, Document.hasKey_of_mem hentry, Bool.true_or]
  declared field hkey := by
    obtain ⟨s', hs'⟩ := Option.isSome_iff_exists.1 hkey
    have hdeclared := Document.declared?_of_key? hs'
    have hallowed := Document.allowed?_of_declared hdeclared
    have hany (heq : s' = .any) : (d.fieldSchema field).Within (d'.fieldSchema field) := by
      rw [Document.fieldSchema_of_declared hdeclared, heq]
      split <;> exact within_any _
    have hloosens := h.allowed field
    rw [hallowed] at hloosens
    rcases hloosens with hsome | hsome
    · exact hany (Option.some.inj hsome)
    · generalize hs : d.allowed? field = a at hsome
      cases hsome with
      | @some s _ hss' =>
          have hwithin := hrel field s s' hs hallowed hss'
          cases hd : d.declared? field with
          | none =>
              rcases Document.allowed?_cases hs with hsome | rfl
              · rw [hd] at hsome
                cases hsome
              · exact hany (any_within_iff.1 hwithin)
          | some w =>
              have hws : w = s := Option.some.inj ((Document.allowed?_of_declared hd).symm.trans hs)
              rw [Document.fieldSchema_of_declared hd, Document.fieldSchema_of_declared hdeclared,
                hws]
              exact hwithin.field (hd'.key hs').2 (hd'.key hs').1 (h.requires field)
  requires := h.requires

theorem PartsLoosen.exists_within {rel : Schema → Schema → Prop} {s s' b : Schema}
    (h : PartsLoosen rel s.parts s'.parts) (hs : Collapsible s.parts) (hs' : s'.Canonical)
    (hb : b ∈ s.parts)
    (harray : ∀ x x', .array x ∈ s.parts → .array x' ∈ s'.parts → rel x x' → x.Within x')
    (hdocument : ∀ d d', .document d ∈ s.parts → .document d' ∈ s'.parts →
      DocumentLoosens rel d d' → d.FitsIn d') : ∃ c ∈ s'.parts, b.Within c := by
  have hbranch : b.IsBranch := hs.branch b hb
  have hself : b.Within b := (hs.canonical b hb).within_self
  cases b with
  | missing => exact ⟨_, (h.flat _ (Or.inl rfl)).1 hb, hself⟩
  | atomic a => exact ⟨_, (h.flat _ (Or.inr rfl)).1 hb, hself⟩
  | array x =>
      rcases h.arrays with ⟨z, z', hz, hz', hzz'⟩ | hitems
      · have hx : x = z := List.mem_singleton.1 (hz ▸ mem_arrayItems.2 hb)
        have hmem : .array z' ∈ s'.parts := mem_of_arrayItems_eq hz'
        exact ⟨_, hmem, array_within_iff.2 (harray x z' hb hmem (hx ▸ hzz'))⟩
      · obtain ⟨x', hx', rfl⟩ := List.mem_map.1 (hitems ▸ mem_arrayItems.2 hb)
        refine ⟨.array x', mem_arrayItems.1 hx', array_within_iff.2 ?_⟩
        have hsame : x'.bare.compare x' = .eq := by
          rw [compare_bare_left]
          exact compare_eq_iff_bare_eq.2 rfl
        exact (within_congr_left hsame).2 (hs'.arrayItem hx').within_self
  | document d =>
      have hd : documentPart s.parts = some d :=
        (head?_eq_some_iff_mem hs.oneDocument).2 (mem_documents.2 hb)
      have hrel := h.document
      rw [hd] at hrel
      generalize hd' : documentPart s'.parts = part at hrel
      cases hrel with
      | @some _ d' hdd' =>
          have hmem := mem_parts_of_documentPart hd'
          exact ⟨_, hmem, document_within_iff.2 (hdocument d d' hb hmem hdd')⟩
  | unsat => exact absurd rfl hbranch.1
  | any => exact absurd rfl hbranch.2.1
  | anyOf bs => exact absurd rfl hbranch.2.2

theorem Loosens.within {n : Nat} {s s' : Schema} (h : Loosens n s s') (hs : Shallow LooseHere n s)
    (hs' : s'.Canonical) : s.Within s' := by
  induction n generalizing s s' with
  | zero => exact absurd hs.nest (Nat.not_lt_zero _)
  | succ n ih =>
      rcases h with rfl | ⟨hany, hany', hparts⟩
      · exact within_any s
      · have hcollapsible := hs.canonical.collapsible_parts hany
        rw [← collapse_parts hs.canonical hany, ← collapse_parts hs' hany', collapse_within_iff]
        intro b hb
        rw [within_collapse_iff (hcollapsible.branch b hb)]
        refine hparts.exists_within hcollapsible hs' hb ?_ ?_
        · intro x x' hx hx' hxx'
          exact ih hxx' (hs.arrayItem (mem_arrayItems.2 hx)) (hs'.arrayItem (mem_arrayItems.2 hx'))
        · intro d d' hd hd' hdd'
          have hcanonical : (document d').Canonical := everywhere_of_mem_parts hs' hd'
          refine hdd'.fitsIn hcanonical fun field w w' hw hw' hww' => ?_
          exact ih hww' ((hs.of_mem_parts hd).allowed joinClosed_looseHere hw)
            (hcanonical.allowed hw')

end Schema

end DocShape
