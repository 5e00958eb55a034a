import DocShape.Proofs.PresentValues

/-!
# The values of an intersection

An intersection requires the fields that both sides require, and forgets a
declared field whose two schemas have nothing in common.  So its values match
both sides as long as the document types that it merges require the same fields
and leave no room for a forgotten field.  Where they do not, it has a value that
does not match both, if every atomic kind has values and no disjunction has two
arrays, behind which that value could hide.
-/

namespace DocShape

open Bson (Value Fields)

namespace Document

/-- The types require the same fields, and no document of both has a field whose schemas
have nothing in common. -/
structure Compatible (d o : Document) : Prop where
  requires : ∀ field, d.requires field = o.requires field
  clash : ∀ field x y, d.key? field = some x → o.key? field = some y →
    (x.intersection y).isVacuous = true →
      (d.isOpen && o.isOpen) = false ∧ (d.requires field && o.requires field) = false

theorem Compatible.of_shared {d o : Document} (hrequired : d.required = o.required)
    (hshared : ∀ entry ∈ d.keys, ∀ other ∈ o.keys, entry.1 = other.1 →
      (entry.2.intersection other.2).isVacuous = false) : d.Compatible o where
  requires field := by
    rw [Bool.eq_iff_iff, requires_iff, requires_iff, hrequired]
  clash field x y hx hy hvacuous := by
    have h := hshared _ (mem_of_key? hx) _ (mem_of_key? hy) rfl
    rw [hvacuous] at h
    cases h

theorem isUnconstrained_matches {d : Document} (h : d.isUnconstrained = true) (fields : Fields) :
    (Schema.document d).Matches (some (.document fields)) := by
  rw [isUnconstrained, Bool.and_eq_true, Bool.and_eq_true, List.isEmpty_iff,
    List.isEmpty_iff] at h
  obtain ⟨⟨hopen, hkeys⟩, hrequired⟩ := h
  apply Schema.Matches.document
  · intro field hfield
    rw [requires_iff, hrequired] at hfield
    cases hfield
  · intro field v s _ hs
    rw [key?, hkeys] at hs
    cases hs
  · intro hclosed
    rw [hopen] at hclosed
    cases hclosed

section Meets

variable {meet : Schema → Schema → Schema} {m d o : Document} {field : String}

theorem IsMeet.key?_of_both {x y : Schema} (h : IsMeet meet m d o) (hx : d.key? field = some x)
    (hy : o.key? field = some y) : m.key? field = (meet x y).satisfiable? := by
  rw [h.key, meetKey?, hx, hy]

/-- What the left type says of a field is kept, or there is no room for the field. -/
theorem IsMeet.key_left {x : Schema} (h : IsMeet meet m d o) (hx : d.key? field = some x)
    (hdeclared : o.requires field = true → o.hasKey field = true)
    (hclash : ∀ y, o.key? field = some y → (meet x y).isVacuous = true →
      (d.isOpen && o.isOpen) = false ∧ (d.requires field && o.requires field) = false) :
    m.key? field = some x ∨ (∃ y, o.key? field = some y ∧ m.key? field = some (meet x y)) ∨
      m.isOpen = false ∧ m.mentions field = false := by
  rw [mentions, hasKey, h.isOpen, h.requires, h.key]
  cases hy : o.key? field with
  | some y =>
      simp only [meetKey?, hx, hy, Schema.satisfiable?]
      split
      · rename_i hvacuous
        right
        right
        simpa using hclash y hy hvacuous
      · exact .inr (.inl ⟨y, rfl, rfl⟩)
  | none =>
      simp only [meetKey?, hx, hy]
      split
      · exact .inl rfl
      · rename_i hopen
        have hrequires : o.requires field = false := by
          rw [← Bool.not_eq_true]
          intro hfield
          have hhas := hdeclared hfield
          rw [hasKey, hy] at hhas
          cases hhas
        right
        right
        simp [hopen, hrequires]

theorem IsMeet.mentions_left (h : IsMeet meet m d o) (hopen : d.isOpen = false)
    (hfield : m.mentions field = true) : d.mentions field = true := by
  rw [mentions, Bool.or_eq_true] at hfield ⊢
  rcases hfield with hkey | hrequires
  · left
    obtain ⟨z, hz⟩ := Option.isSome_iff_exists.1 hkey
    rw [hasKey]
    rcases meetKey?_cases ((h.key field).symm.trans hz) with
      ⟨x, -, hx, -⟩ | ⟨hx, -⟩ | ⟨-, -, hopen'⟩
    · rw [hx]
      rfl
    · rw [hx]
      rfl
    · rw [hopen] at hopen'
      cases hopen'
  · rw [h.requires, Bool.and_eq_true] at hrequires
    exact .inr hrequires.1

/-- A document of the intersection is one of the left type, if the types require the same
fields and leave no room for the fields on which they clash. -/
theorem IsMeet.matches_left (h : IsMeet meet m d o)
    (hdeclared : ∀ field, o.requires field = true → o.hasKey field = true)
    (hrequires : ∀ field, d.requires field = o.requires field)
    (hclash : ∀ field x y, d.key? field = some x → o.key? field = some y →
      (meet x y).isVacuous = true →
        (d.isOpen && o.isOpen) = false ∧ (d.requires field && o.requires field) = false)
    (hmeet : ∀ field x y v, d.key? field = some x → o.key? field = some y →
      (meet x y).Matches (some v) → x.Matches (some v))
    {v : Option Value} (hv : (Schema.document m).Matches v) : (Schema.document d).Matches v := by
  cases hv with
  | document required declared closed =>
      apply Schema.Matches.document
      · intro field hfield
        apply required field
        rw [h.requires, ← hrequires field, hfield]
        rfl
      · intro field v x hv hx
        rcases h.key_left hx (hdeclared field) (fun y hy => hclash field x y hx hy) with
          hkey | ⟨y, hy, hkey⟩ | ⟨hopen, habsent⟩
        · exact declared field v x hv hkey
        · exact hmeet field x y v hx hy (declared field v _ hv hkey)
        · rw [closed hopen field v hv] at habsent
          cases habsent
      · intro hopen field v hv
        apply h.mentions_left hopen
        apply closed _ field v hv
        rw [h.isOpen, hopen]
        rfl

theorem Compatible.matches_both (hcompatible : d.Compatible o)
    (h : IsMeet Schema.intersection m d o) (hd : (Schema.document d).WellDeclared)
    (ho : (Schema.document o).WellDeclared)
    (hmeet : ∀ field x y v, d.key? field = some x → o.key? field = some y →
      (x.intersection y).Matches (some v) → x.Matches (some v) ∧ y.Matches (some v))
    {v : Option Value} (hv : (Schema.document m).Matches v) :
    (Schema.document d).Matches v ∧ (Schema.document o).Matches v := by
  constructor
  · apply h.matches_left (fun _ => ho.hasKey_of_requires) hcompatible.requires
      hcompatible.clash _ hv
    intro field x y w hx hy hw
    exact (hmeet field x y w hx hy hw).1
  · apply h.symm.matches_left (fun _ => hd.hasKey_of_requires)
      (fun field => (hcompatible.requires field).symm) _ _ hv
    · intro field y x hy hx hvacuous
      rw [Bool.and_comm, Bool.and_comm (o.requires field)]
      exact hcompatible.clash field x y hx hy hvacuous
    · intro field y x w hy hx hw
      exact (hmeet field x y w hx hy hw).2

end Meets

end Document

namespace Schema

variable {s t a b : Schema} {d o : Document} {v : Option Value}

/-- The document types `d` and `o` are merged where `s` and `t` are intersected. -/
inductive Merged : Schema → Schema → Document → Document → Prop where
  | here {s t : Schema} {d o : Document} (hs : document d ∈ s.branches)
      (ht : document o ∈ t.branches) (hd : d.isUnconstrained = false)
      (ho : o.isUnconstrained = false) (h : (document d).intersection (.document o) ≠ .unsat) :
      Merged s t d o
  | items {s t x y : Schema} {d o : Document} (hs : array x ∈ s.branches)
      (ht : array y ∈ t.branches) (h : Merged x y d o) : Merged s t d o
  | field {s t x y : Schema} {d o e p : Document} {field : String} (hs : document e ∈ s.branches)
      (ht : document p ∈ t.branches) (hx : e.key? field = some x) (hy : p.key? field = some y)
      (h : Merged x y d o) : Merged s t d o

theorem Merged.of_mem_branches (h : Merged a b d o) (ha : a ∈ s.branches) (hb : b ∈ t.branches)
    (hak : a.kind ≠ .anyOf) (hbk : b.kind ≠ .anyOf) : Merged s t d o := by
  have hleft {c : Schema} (hc : c ∈ a.branches) : c ∈ s.branches := by
    rw [branches_of_kind_ne hak, List.mem_singleton] at hc
    rw [hc]
    exact ha
  have hright {c : Schema} (hc : c ∈ b.branches) : c ∈ t.branches := by
    rw [branches_of_kind_ne hbk, List.mem_singleton] at hc
    rw [hc]
    exact hb
  cases h with
  | here hs ht hd ho h => exact .here (hleft hs) (hright ht) hd ho h
  | items hs ht h => exact .items (hleft hs) (hright ht) h
  | field hs ht hx hy h => exact .field (hleft hs) (hright ht) hx hy h

theorem Merged.document_cases {e p : Document} (h : Merged (.document e) (.document p) d o) :
    (d = e ∧ o = p) ∨
      ∃ field x y, e.key? field = some x ∧ p.key? field = some y ∧ Merged x y d o := by
  cases h with
  | here hs ht =>
      left
      exact ⟨document.inj (List.mem_singleton.1 hs), document.inj (List.mem_singleton.1 ht)⟩
  | items hs => cases List.mem_singleton.1 hs
  | @field _ _ x y _ _ _ _ field hs ht hx hy h =>
      cases List.mem_singleton.1 hs
      cases List.mem_singleton.1 ht
      exact .inr ⟨field, x, y, hx, hy, h⟩

theorem Merged.of_array {x y : Schema} (h : Merged (.array x) (.array y) d o) :
    Merged x y d o := by
  cases h with
  | here hs => cases List.mem_singleton.1 hs
  | items hs ht h =>
      cases List.mem_singleton.1 hs
      cases List.mem_singleton.1 ht
      exact h
  | field hs => cases List.mem_singleton.1 hs

theorem not_merged_of_kind_ne (hs : ∀ b ∈ s.branches, b.kind ≠ .array ∧ b.kind ≠ .document) :
    ¬ Merged s t d o := by
  intro h
  cases h with
  | here hd => exact (hs _ hd).2 rfl
  | items hx => exact (hs _ hx).1 rfl
  | field he => exact (hs _ he).2 rfl

theorem Canonical.kind_ne_anyOf (h : s.Canonical) (hb : b ∈ s.branches) : b.kind ≠ .anyOf := by
  cases s with
  | anyOf bs => exact (h.collapsible.branch b hb).2.2
  | _ =>
      rw [List.mem_singleton.1 hb]
      simp [kind]

/-! ## Compatible documents -/

theorem matches_of_compatible (hs : s.WellDeclared) (ht : t.WellDeclared)
    (h : ∀ d o, Merged s t d o → d.Compatible o) (hv : (s.intersection t).Matches v) :
    s.Matches v ∧ t.Matches v := by
  induction s, t using induction_intersection generalizing v with
  | unsat s t hunsat =>
      rw [intersection_eq_unsat hunsat] at hv
      exact absurd hv not_unsat_matches
  | anyLeft t =>
      rw [any_intersection] at hv
      exact ⟨.any, hv⟩
  | anyRight s =>
      rw [intersection_any] at hv
      exact ⟨hv, .any⟩
  | branch a b ha hb ih =>
      have hself {c : Schema} (hc : c.IsBranch) : c ∈ c.branches := by
        rw [branches_of_kind_ne hc.2.2]
        exact List.mem_singleton_self c
      have hmet := met_intersection ha hb hs ht
      generalize hc : a.intersection b = c at hmet hv
      cases hmet with
      | apart => exact absurd hv not_unsat_matches
      | missing => exact ⟨hv, hv⟩
      | atomic k => exact ⟨hv, hv⟩
      | @array x y =>
          cases hv with
          | array hitems =>
              have hboth (w : Value) (hw : w ∈ _) := ih x (List.mem_singleton_self x) y hs.item
                ht.item (fun d o hm => h d o (.items (hself ha) (hself hb) hm)) (hitems w hw)
              exact ⟨.array fun w hw => (hboth w hw).1, .array fun w hw => (hboth w hw).2⟩
      | left hd =>
          cases hv with
          | document required declared closed =>
              exact ⟨Document.isUnconstrained_matches hd _, .document required declared closed⟩
      | right ho =>
          cases hv with
          | document required declared closed =>
              exact ⟨.document required declared closed, Document.isUnconstrained_matches ho _⟩
      | @document d o m hd ho hm =>
          have hne : (document d).intersection (.document o) ≠ .unsat := by
            rw [hc]
            nofun
          have hcompatible := h d o (.here (hself ha) (hself hb) hd ho hne)
          apply hcompatible.matches_both hm hs ht _ hv
          intro field x y w hx hy hw
          exact ih x (List.mem_map_of_mem (Document.mem_of_key? hx)) y (hs.key hx) (ht.key hy)
            (fun e p hm => h e p (.field (hself ha) (hself hb) hx hy hm)) hw
  | disjunction s t hskind htkind ih =>
      obtain ⟨a, ha, b, hb, hv⟩ := (intersection_matches_iff hs ht).1 hv
      have hak := hs.canonical.kind_ne_anyOf ha
      have hbk := ht.canonical.kind_ne_anyOf hb
      obtain ⟨hav, hbv⟩ := ih a ha b hb (hs.of_mem_branches ha) (ht.of_mem_branches hb)
        (fun d o hm => h d o (hm.of_mem_branches ha hb hak hbk)) hv
      exact ⟨matches_iff_branch.2 ⟨a, ha, hav⟩, matches_iff_branch.2 ⟨b, hb, hbv⟩⟩

/-! ## Schemas with values -/

/-- Atomic kinds have values, and disjunctions at most one array. -/
def SeparatedHere : Schema → Prop
  | .atomic a => a.isNamed = true
  | .anyOf bs => (arrayItems bs).length ≤ 1
  | _ => True

instance : DecidablePred SeparatedHere
  | .atomic a => inferInstanceAs (Decidable (a.isNamed = true))
  | .anyOf bs => inferInstanceAs (Decidable ((arrayItems bs).length ≤ 1))
  | .unsat | .missing | .array _ | .document _ | .any => .isTrue trivial

theorem SeparatedHere.named (h : s.SeparatedHere) : s.NamedHere := by
  cases s with
  | atomic a => exact h
  | _ => trivial

theorem exists_matches_of_separated (hs : s.Canonical) (hsep : s.Everywhere SeparatedHere)
    (hdeclarable : s.Declarable) : ∃ v : Value, s.Matches (some v) :=
  exists_matches hs (hsep.imp fun _ => SeparatedHere.named) hdeclarable

theorem exists_key_matches {d o m : Document} {field : String} {z : Schema}
    (hd : (document d).WellDeclared) (ho : (document o).WellDeclared)
    (hdsep : (document d).Everywhere SeparatedHere) (hosep : (document o).Everywhere SeparatedHere)
    (hm : Document.IsMeet intersection m d o)
    (hmeet : ∀ x y, d.key? field = some x → o.key? field = some y →
      (x.intersection y).isVacuous = false → ∃ v : Value, (x.intersection y).Matches (some v))
    (hz : m.key? field = some z) : ∃ v : Value, z.Matches (some v) := by
  rcases Document.meetKey?_cases ((hm.key field).symm.trans hz) with
    ⟨x, y, hx, hy, hvacuous, rfl⟩ | ⟨hx, -⟩ | ⟨-, hy, -⟩
  · exact hmeet x y hx hy hvacuous
  · exact exists_matches_of_separated (hd.key hx).canonical (hdsep.key hx) (hd.canonical.key hx).1
  · exact exists_matches_of_separated (ho.key hy).canonical (hosep.key hy) (ho.canonical.key hy).1

/-- An intersection that is not vacuous has a value. -/
theorem exists_intersection_matches (hs : s.WellDeclared) (ht : t.WellDeclared)
    (hssep : s.Everywhere SeparatedHere) (htsep : t.Everywhere SeparatedHere)
    (hsd : s.Declarable) (htd : t.Declarable) (hvacuous : (s.intersection t).isVacuous = false) :
    ∃ v : Value, (s.intersection t).Matches (some v) := by
  induction s, t using induction_intersection with
  | unsat s t hunsat =>
      rw [intersection_eq_unsat hunsat] at hvacuous
      cases hvacuous
  | anyLeft t =>
      rw [any_intersection]
      exact exists_matches_of_separated ht.canonical htsep htd
  | anyRight s =>
      rw [intersection_any]
      exact exists_matches_of_separated hs.canonical hssep hsd
  | branch a b ha hb ih =>
      have hmet := met_intersection ha hb hs ht
      generalize a.intersection b = c at hmet hvacuous
      cases hmet with
      | apart => cases hvacuous
      | missing => exact absurd rfl hsd.ne_missing
      | atomic k => exact exists_atomic_matches hssep.here
      | array => exact ⟨.array [], .array nofun⟩
      | left => exact exists_matches_of_separated ht.canonical htsep htd
      | right => exact exists_matches_of_separated hs.canonical hssep hsd
      | @document d o m _ _ hm =>
          have hkeys (field : String) (z : Schema) (_ : m.requires field = true)
              (hz : m.key? field = some z) : ∃ v : Value, z.Matches (some v) := by
            apply exists_key_matches hs ht hssep htsep hm _ hz
            intro x y hx hy
            exact ih x (List.mem_map_of_mem (Document.mem_of_key? hx)) y (hs.key hx) (ht.key hy)
              (hssep.key hx) (htsep.key hy) (hs.canonical.key hx).1 (ht.canonical.key hy).1
          obtain ⟨fields, hfields, -⟩ := @exists_document_matches m [] hkeys nofun nofun
          exact ⟨_, hfields⟩
  | disjunction s t hskind htkind ih =>
      have hcanonical : ∀ a ∈ s.branches, ∀ b ∈ t.branches, (a.intersection b).Canonical :=
        fun a ha b hb => canonical_intersection (hs.of_mem_branches ha) (ht.of_mem_branches hb)
      have hne : s.meets t ≠ [] := by
        intro hnil
        rw [intersection_eq_collapse hs ht hskind htkind hcanonical, hnil] at hvacuous
        cases hvacuous
      obtain ⟨c, hc⟩ := List.exists_mem_of_ne_nil _ hne
      obtain ⟨⟨a, ha, b, hb, rfl⟩, hc⟩ := mem_meets.1 hc
      have had : a.Declarable :=
        declarable_of_isBranch (hs.canonical.isBranch hskind ha) fun h => hsd.2 (h ▸ ha)
      have hbd : b.Declarable :=
        declarable_of_isBranch (ht.canonical.isBranch htkind hb) fun h => htd.2 (h ▸ hb)
      obtain ⟨v, hv⟩ := ih a ha b hb (hs.of_mem_branches ha) (ht.of_mem_branches hb)
        (hssep.of_mem_branches ha) (htsep.of_mem_branches hb) had hbd hc
      exact ⟨v, (intersection_matches_iff hs ht).2 ⟨a, ha, b, hb, hv⟩⟩

/-! ## Values that do not match both -/

/-- A value without parts that matches both schemas matches their intersection. -/
theorem intersection_matches_null (hs : s.WellDeclared) (ht : t.WellDeclared)
    (hsv : s.Matches (some .null)) (htv : t.Matches (some .null)) :
    (s.intersection t).Matches (some .null) := by
  obtain ⟨a, ha, hav⟩ := matches_iff_branch.1 hsv
  obtain ⟨b, hb, hbv⟩ := matches_iff_branch.1 htv
  refine (intersection_matches_iff hs ht).2 ⟨a, ha, b, hb, ?_⟩
  have hak := hs.canonical.kind_ne_anyOf ha
  have hbk := ht.canonical.kind_ne_anyOf hb
  cases hav with
  | any =>
      rw [any_intersection]
      exact hbv
  | anyOf => exact absurd rfl hak
  | atomic hkind =>
      cases hkind
      cases hbv with
      | any =>
          rw [intersection_any]
          exact .atomic rfl
      | anyOf => exact absurd rfl hbk
      | atomic hkind =>
          cases hkind
          rw [intersection, if_pos rfl]
          exact .atomic rfl

/-- The only branch of a kind has all the values of that kind. -/
theorem branch_matches_of_unique (h : s.Canonical) (ha : a ∈ s.branches) (hbranch : a.IsBranch)
    (hunique : ∀ b ∈ s.branches, b.kind = a.kind → b = a) (hkind : a.kind = branchKind v)
    (hv : s.Matches v) : a.Matches v := by
  obtain ⟨b, hb, hbv⟩ := matches_iff_branch.1 hv
  have hskind : s.kind ≠ .unsat ∧ s.kind ≠ .any := by
    constructor
    · intro hk
      cases s with
      | unsat => exact hbranch.1 (List.mem_singleton.1 ha ▸ rfl)
      | _ => cases hk
    · intro hk
      cases s with
      | any => exact hbranch.2.1 (List.mem_singleton.1 ha ▸ rfl)
      | _ => cases hk
  have hbkind := hbv.kind_eq (h.isBranch hskind hb)
  rw [← hunique b hb (hbkind.trans hkind.symm)]
  exact hbv

theorem document_branch_matches {e : Document} {fields : Fields} (h : s.Canonical)
    (he : document e ∈ s.branches) (hv : s.Matches (some (.document fields))) :
    (document e).Matches (some (.document fields)) := by
  apply branch_matches_of_unique h he (by simp [IsBranch, kind]) _ rfl hv
  intro b hb hkind
  obtain ⟨p, rfl⟩ := kind_eq_document hkind
  have hp := (head?_eq_some_iff_mem h.length_documents_le).2 (mem_documents.2 hb)
  have he := (head?_eq_some_iff_mem h.length_documents_le).2 (mem_documents.2 he)
  rw [Option.some.inj (hp.symm.trans he)]

theorem array_branch_matches {x : Schema} {items : List Value} (h : s.Canonical)
    (hsep : s.SeparatedHere) (hx : array x ∈ s.branches) (hv : s.Matches (some (.array items))) :
    (array x).Matches (some (.array items)) := by
  apply branch_matches_of_unique h hx (by simp [IsBranch, kind]) _ rfl hv
  intro b hb hkind
  obtain ⟨y, rfl⟩ := kind_eq_array hkind
  have hle : (arrayItems s.branches).length ≤ 1 := by
    cases s with
    | anyOf bs => exact hsep
    | _ => exact List.length_filterMap_le _ _
  have hy := (head?_eq_some_iff_mem hle).2 (mem_arrayItems.2 hb)
  have hx := (head?_eq_some_iff_mem hle).2 (mem_arrayItems.2 hx)
  rw [Option.some.inj (hy.symm.trans hx)]

section Documents

variable (hd : (document d).WellDeclared) (ho : (document o).WellDeclared)

include hd ho

/-- Document types that share a field with a value have an intersection. -/
theorem exists_meet_of_key {field : String} {x y : Schema} (hx : d.key? field = some x)
    (hy : o.key? field = some y) (hv : (x.intersection y).Matches v) :
    ∃ m, (document d).intersection (.document o) = .document m ∧
      Document.IsMeet intersection m d o := by
  have hconstrained {e : Document} {z : Schema} (hz : e.key? field = some z) :
      e.isUnconstrained = false := by
    rw [← Bool.not_eq_true]
    intro h
    rw [Document.isUnconstrained, Bool.and_eq_true, Bool.and_eq_true, List.isEmpty_iff] at h
    rw [Document.key?, h.1.2] at hz
    cases hz
  rcases Document.meet_cases (hconstrained hx) (hconstrained hy) hd.ordered ho.ordered with
    ⟨-, hnone, -⟩ | hm
  · have hkey := hnone field
    simp only [Document.meetKey?, hx, hy, satisfiable?] at hkey
    split at hkey
    · rename_i hvacuous
      exact absurd hv (not_matches_of_isVacuous hvacuous)
    · cases hkey
  · exact hm

variable (hdsep : (document d).Everywhere SeparatedHere)
  (hosep : (document o).Everywhere SeparatedHere) {m : Document}
  (hm : Document.IsMeet intersection m d o)

include hdsep hosep hm

theorem exists_meet_matches (extra : Fields)
    (hdeclared : ∀ field v s, (field, v) ∈ extra → m.key? field = some s → s.Matches (some v))
    (hclosed : m.isOpen = false → ∀ field v, (field, v) ∈ extra → m.mentions field = true) :
    ∃ fields : Fields, (document m).Matches (some (.document fields)) ∧
      (∀ field v, (field, v) ∈ extra → (field, v) ∈ fields) ∧
        ∀ field v, (field, v) ∈ fields → (field, v) ∈ extra ∨ m.requires field = true := by
  apply exists_document_matches _ hdeclared hclosed
  intro field z _ hz
  apply exists_key_matches hd ho hdsep hosep hm _ hz
  intro x y hx hy
  exact exists_intersection_matches (hd.key hx) (ho.key hy) (hdsep.key hx) (hosep.key hy)
    (hd.canonical.key hx).1 (ho.canonical.key hy).1

/-- If every document of the intersection is one of both types, the types are compatible. -/
theorem compatible_of_matches
    (h : ∀ fields, (document m).Matches (some (.document fields)) →
      (document d).Matches (some (.document fields)) ∧
        (document o).Matches (some (.document fields))) : d.Compatible o := by
  constructor
  · -- a document with nothing but the fields that both types require
    intro field
    obtain ⟨fields, hfields, -, honly⟩ := exists_meet_matches hd ho hdsep hosep hm [] nofun nofun
    obtain ⟨hdv, hov⟩ := h fields hfields
    have hrequired (hfield : ∃ v, (field, v) ∈ fields) :
        d.requires field = true ∧ o.requires field = true := by
      obtain ⟨v, hv⟩ := hfield
      rcases honly field v hv with hv | hfield
      · cases hv
      · rw [hm.requires, Bool.and_eq_true] at hfield
        exact hfield
    rw [Bool.eq_iff_iff]
    cases hdv with
    | document hdrequired =>
        cases hov with
        | document horequired =>
            exact ⟨fun hfield => (hrequired (hdrequired field hfield)).2,
              fun hfield => (hrequired (horequired field hfield)).1⟩
  · intro field x y hx hy hvacuous
    have hkey : m.key? field = none := by
      rw [hm.key?_of_both hx hy, satisfiable?, if_pos hvacuous]
    rw [← hm.isOpen, ← hm.requires]
    by_contra hroom
    -- the field is forgotten, so that a document may hold anything in it
    obtain ⟨fields, hfields, hextra, -⟩ :=
      exists_meet_matches hd ho hdsep hosep hm [(field, .null)]
        (by
          intro name v s hmem hs
          cases List.mem_singleton.1 hmem
          rw [hkey] at hs
          cases hs)
        (by
          intro hopen name v hmem
          cases List.mem_singleton.1 hmem
          rw [not_and, Bool.not_eq_false] at hroom
          rw [Document.mentions, hroom hopen, Bool.or_true])
    have hnull := hextra field .null (List.mem_singleton_self _)
    obtain ⟨hdv, hov⟩ := h fields hfields
    cases hdv with
    | document _ hddeclared =>
        cases hov with
        | document _ hodeclared =>
            have hv := intersection_matches_null (hd.key hx) (ho.key hy)
              (hddeclared field .null x hnull hx) (hodeclared field .null y hnull hy)
            exact not_matches_of_isVacuous hvacuous hv

end Documents

section Exactness

variable (hs : s.WellDeclared) (ht : t.WellDeclared) (hssep : s.Everywhere SeparatedHere)
  (htsep : t.Everywhere SeparatedHere)
  (hboth : ∀ v : Value, (s.intersection t).Matches (some v) →
    s.Matches (some v) ∧ t.Matches (some v))

include hs ht hboth

/-! If an intersection admits nothing extra, neither do the intersections of the parts. -/

theorem matches_both_documents {e p : Document} (he : document e ∈ s.branches)
    (hp : document p ∈ t.branches) {fields : Fields}
    (h : ((document e).intersection (.document p)).Matches (some (.document fields))) :
    (document e).Matches (some (.document fields)) ∧
      (document p).Matches (some (.document fields)) := by
  obtain ⟨hsv, htv⟩ := hboth _ ((intersection_matches_iff hs ht).2 ⟨_, he, _, hp, h⟩)
  exact ⟨document_branch_matches hs.canonical he hsv, document_branch_matches ht.canonical hp htv⟩

include hssep htsep

theorem matches_both_items {x y : Schema} (hx : array x ∈ s.branches) (hy : array y ∈ t.branches)
    {w : Value} (hw : (x.intersection y).Matches (some w)) :
    x.Matches (some w) ∧ y.Matches (some w) := by
  have hne : x.intersection y ≠ .unsat := by
    intro hunsat
    rw [hunsat] at hw
    exact not_unsat_matches hw
  have hitems : ((array x).intersection (.array y)).Matches (some (.array [w])) := by
    rw [intersection_array_of_ne hne, array_matches_iff, List.forall_mem_singleton]
    exact hw
  obtain ⟨hsv, htv⟩ := hboth _ ((intersection_matches_iff hs ht).2 ⟨_, hx, _, hy, hitems⟩)
  have hxv := array_branch_matches hs.canonical hssep.here hx hsv
  have hyv := array_branch_matches ht.canonical htsep.here hy htv
  exact ⟨array_matches_iff.1 hxv w (List.mem_singleton_self w),
    array_matches_iff.1 hyv w (List.mem_singleton_self w)⟩

private theorem matches_both_key {e p : Document} (he : document e ∈ s.branches)
    (hp : document p ∈ t.branches) {field : String} {x y : Schema} (hx : e.key? field = some x)
    (hy : p.key? field = some y) {w : Value} (hw : (x.intersection y).Matches (some w)) :
    x.Matches (some w) ∧ y.Matches (some w) := by
  have hew := hs.of_mem_branches he
  have hpw := ht.of_mem_branches hp
  obtain ⟨m, heq, hm⟩ := exists_meet_of_key hew hpw hx hy hw
  have hkey : m.key? field = some (x.intersection y) := by
    rw [hm.key?_of_both hx hy, satisfiable?, if_neg fun hv => not_matches_of_isVacuous hv hw]
  -- a document of the intersection that holds the value in the field
  obtain ⟨fields, hfields, hextra, -⟩ :=
    exists_meet_matches hew hpw (hssep.of_mem_branches he) (htsep.of_mem_branches hp) hm
      [(field, w)]
      (by
        intro name v z hmem hz
        cases List.mem_singleton.1 hmem
        rw [hkey] at hz
        cases hz
        exact hw)
      (by
        intro _ name v hmem
        cases List.mem_singleton.1 hmem
        rw [Document.mentions, Document.hasKey, hkey]
        rfl)
  have hmem := hextra field w (List.mem_singleton_self _)
  rw [← heq] at hfields
  obtain ⟨hev, hpv⟩ := matches_both_documents hs ht hboth he hp hfields
  cases hev with
  | document _ hedeclared =>
      cases hpv with
      | document _ hpdeclared =>
          exact ⟨hedeclared field w x hmem hx, hpdeclared field w y hmem hy⟩

end Exactness

theorem Merged.compatible (h : Merged s t d o) (hs : s.WellDeclared) (ht : t.WellDeclared)
    (hssep : s.Everywhere SeparatedHere) (htsep : t.Everywhere SeparatedHere)
    (hboth : ∀ v : Value, (s.intersection t).Matches (some v) →
      s.Matches (some v) ∧ t.Matches (some v)) : d.Compatible o := by
  induction h with
  | here hd ho hdc hoc hne =>
      have hdw := hs.of_mem_branches hd
      have how := ht.of_mem_branches ho
      rcases Document.meet_cases hdc hoc hdw.ordered how.ordered with ⟨heq, -⟩ | ⟨m, heq, hm⟩
      · exact absurd heq hne
      · apply compatible_of_matches hdw how (hssep.of_mem_branches hd) (htsep.of_mem_branches ho) hm
        intro fields hfields
        rw [← heq] at hfields
        exact matches_both_documents hs ht hboth hd ho hfields
  | @items _ _ x y _ _ hx hy _ ih =>
      apply ih (hs.of_mem_branches hx).item (ht.of_mem_branches hy).item
        ((hssep.of_mem_branches hx).inside (List.mem_singleton_self x))
        ((htsep.of_mem_branches hy).inside (List.mem_singleton_self y))
      intro w hw
      exact matches_both_items hs ht hssep htsep hboth hx hy hw
  | field he hp hx hy _ ih =>
      apply ih ((hs.of_mem_branches he).key hx) ((ht.of_mem_branches hp).key hy)
        ((hssep.of_mem_branches he).key hx) ((htsep.of_mem_branches hp).key hy)
      intro w hw
      exact matches_both_key hs ht hssep htsep hboth he hp hx hy hw

/-! ## Exactly the common values -/

/-- The intersection admits nothing extra if the document types that it merges are compatible;
where the values tell the branches of the two schemas apart, only then. -/
theorem intersection_matches_both (hs : s.WellDeclared) (ht : t.WellDeclared) :
    ((∀ d o, Merged s t d o → d.Compatible o) →
        ∀ v, (s.intersection t).Matches v → s.Matches v ∧ t.Matches v) ∧
      (s.Everywhere SeparatedHere → t.Everywhere SeparatedHere →
        (∀ v, (s.intersection t).Matches v → s.Matches v ∧ t.Matches v) →
          ∀ d o, Merged s t d o → d.Compatible o) := by
  constructor
  · intro h v hv
    exact matches_of_compatible hs ht h hv
  · intro hssep htsep hboth d o hmerged
    exact hmerged.compatible hs ht hssep htsep fun v hv => hboth (some v) hv

/-- Orders with the same required fields, whose lines are merged in their turn. -/
theorem intersection_matches_both_orders :
    let line : Document := .ofFields [("item", .any), ("price", .atomic .int)] ["item"] false
    let sold : Document := .ofFields [("item", .atomic .string)] ["item"] true
    let d : Document := .ofFields
      [("id", .anyOf [.atomic .int, .atomic .string]), ("lines", .array (.document line))]
      ["id"] false
    let o : Document := .ofFields
      [("id", .anyOf [.atomic .null, .atomic .int]), ("lines", .array (.document sold))] ["id"] true
    (document d).WellDeclared ∧ (document o).WellDeclared ∧
      (∀ e p, Merged (.document d) (.document o) e p → e.Compatible p) ∧
        ∀ v, ((document d).intersection (.document o)).Matches v →
          (document d).Matches v ∧ (document o).Matches v := by
  intro line sold d o
  have hd : (document d).WellDeclared := by decide +kernel
  have ho : (document o).WellDeclared := by decide +kernel
  have horders : d.Compatible o := .of_shared rfl (by decide +kernel)
  have hlines : line.Compatible sold := .of_shared rfl (by decide +kernel)
  have hflat : ∀ entry ∈ line.keys, ∀ b ∈ entry.2.branches,
      b.kind ≠ .array ∧ b.kind ≠ .document := by decide
  have hcompatible (e p : Document) (h : Merged (.document d) (.document o) e p) :
      e.Compatible p := by
    rcases h.document_cases with ⟨rfl, rfl⟩ | ⟨field, x, y, hx, hy, h⟩
    · exact horders
    · rcases List.mem_cons.1 (Document.mem_of_key? hx) with hid | hrest
      · cases hid
        exact absurd h (not_merged_of_kind_ne (by decide))
      · cases List.mem_singleton.1 hrest
        cases hy
        rcases h.of_array.document_cases with ⟨rfl, rfl⟩ | ⟨field, x, y, hx, -, h⟩
        · exact hlines
        · exact absurd h (not_merged_of_kind_ne (hflat _ (Document.mem_of_key? hx)))
  exact ⟨hd, ho, hcompatible, (intersection_matches_both hd ho).1 hcompatible⟩

/-- A field that one side requires and the other does not is not required any more. -/
theorem required_field_lost :
    let d : Document := .ofFields [("a", .atomic .int)] ["a"] false
    let o : Document := .ofFields [("a", .atomic .int)] [] false
    (document d).WellDeclared ∧ (document o).WellDeclared ∧
      ((document d).intersection (.document o)).Matches (some (.document [])) ∧
        ¬ (document d).Matches (some (.document [])) := by
  intro d o
  have hd : (document d).WellDeclared := by decide +kernel
  have ho : (document o).WellDeclared := by decide +kernel
  have hdkey : d.key? "a" = some (.atomic .int) := rfl
  have hokey : o.key? "a" = some (.atomic .int) := rfl
  have hv : ((atomic .int).intersection (.atomic .int)).Matches (some (.int32 0)) := by
    rw [intersection, if_pos rfl]
    exact .atomic rfl
  obtain ⟨m, heq, hm⟩ := exists_meet_of_key hd ho hdkey hokey hv
  refine ⟨hd, ho, ?_, ?_⟩
  · rw [heq]
    apply Matches.document
    · intro field hfield
      rw [hm.requires, Bool.and_eq_true] at hfield
      cases hfield.2
    · intro field v s hmem
      cases hmem
    · intro _ field v hmem
      cases hmem
  · intro hempty
    cases hempty with
    | document required =>
        obtain ⟨v, hv⟩ := required "a" (by decide +kernel)
        cases hv

end Schema

end DocShape
