import DocShape.Proofs.Meet
import DocShape.Proofs.Soundness

/-!
# Values of both schemas

An intersection keeps the values that match both schemas and hold no empty
array, as long as a document type that declares fields requires one of them: the
required field is what is left when every other field has been dropped.
-/

namespace DocShape

open Bson (Value Fields)

namespace Document

variable {d o m : Document} {fields : Fields} {field : String} {v : Value}

/-- The type declares the fields that its documents have, unless it is open. -/
theorem hasKey_of_closed (hdeclared : ∀ field, o.requires field = true → o.hasKey field = true)
    (ho : (Schema.document o).Matches (some (.document fields))) (hclosed : o.isOpen = false)
    (hv : (field, v) ∈ fields) : o.hasKey field = true := by
  cases ho with
  | document _ _ closed =>
      have hmentions := closed hclosed field v hv
      rw [mentions, Bool.or_eq_true] at hmentions
      exact hmentions.elim id (hdeclared field)

section Shared

variable (hdeclared : ∀ field, d.requires field = true → d.hasKey field = true)
  (hodeclared : ∀ field, o.requires field = true → o.hasKey field = true)
  (hd : (Schema.document d).Matches (some (.document fields)))
  (ho : (Schema.document o).Matches (some (.document fields)))
  (hmeet : ∀ field x y v, d.key? field = some x → o.key? field = some y → (field, v) ∈ fields →
    (x.intersection y).Matches (some v))

include hdeclared hodeclared hd ho hmeet

/-- A field of a common document that either type declares is declared by the intersection. -/
theorem exists_meetKey? (hv : (field, v) ∈ fields)
    (hkey : d.hasKey field = true ∨ o.hasKey field = true) :
    ∃ z, d.meetKey? Schema.intersection o field = some z ∧ z.Matches (some v) := by
  have hopen {e : Document} (he : ∀ field, e.requires field = true → e.hasKey field = true)
      (hmatches : (Schema.document e).Matches (some (.document fields)))
      (hnone : e.key? field = none) : e.isOpen = true := by
    rw [← Bool.not_eq_false]
    intro hclosed
    have hhas := hasKey_of_closed he hmatches hclosed hv
    simp [hasKey, hnone] at hhas
  cases hx : d.key? field with
  | some x =>
      cases hy : o.key? field with
      | some y =>
          have hboth := hmeet field x y v hx hy hv
          have hvacuous : (x.intersection y).isVacuous ≠ true :=
            fun h => Schema.not_matches_of_isVacuous h hboth
          exact ⟨_, by simp [meetKey?, hx, hy, Schema.satisfiable?, hvacuous], hboth⟩
      | none =>
          refine ⟨x, by simp [meetKey?, hx, hy, hopen hodeclared ho hy], ?_⟩
          cases hd with
          | document _ declared _ => exact declared field v x hv hx
  | none =>
      cases hy : o.key? field with
      | some y =>
          refine ⟨y, by simp [meetKey?, hx, hy, hopen hdeclared hd hx], ?_⟩
          cases ho with
          | document _ declared _ => exact declared field v y hv hy
      | none => simp [hasKey, hx, hy] at hkey

theorem IsMeet.matches_of_both (h : IsMeet Schema.intersection m d o) :
    (Schema.document m).Matches (some (.document fields)) := by
  have hfield {field : String} {v : Value} (hv : (field, v) ∈ fields) :=
    exists_meetKey? hdeclared hodeclared hd ho hmeet hv
  apply Schema.Matches.document
  · intro field hrequires
    rw [h.requires, Bool.and_eq_true] at hrequires
    cases hd with
    | document required _ _ => exact required field hrequires.1
  · intro field v z hv hz
    have hkey : d.hasKey field = true ∨ o.hasKey field = true := by
      rcases meetKey?_cases ((h.key field).symm.trans hz) with ⟨x, y, hx, -⟩ | ⟨hx, -⟩ | ⟨-, hy, -⟩
      · simp [hasKey, hx]
      · simp [hasKey, hx]
      · simp [hasKey, hy]
    obtain ⟨z', hz', hmatches⟩ := hfield hv hkey
    rw [← h.key, hz] at hz'
    cases hz'
    exact hmatches
  · intro hclosed field v hv
    rw [h.isOpen, Bool.and_eq_false_iff] at hclosed
    have hkey : d.hasKey field = true ∨ o.hasKey field = true :=
      hclosed.imp (fun hc => hasKey_of_closed hdeclared hd hc hv)
        (fun hc => hasKey_of_closed hodeclared ho hc hv)
    obtain ⟨z, hz, -⟩ := hfield hv hkey
    simp [mentions, hasKey, h.key, hz]

end Shared

end Document

namespace Schema

variable {s t : Schema} {v : Option Value}

/-- Documents that declare fields require one. -/
def AnchoredHere : Schema → Prop
  | .document d => d.required = [] → d.keys = []
  | _ => True

instance : DecidablePred AnchoredHere
  | .document d => inferInstanceAs (Decidable (d.required = [] → d.keys = []))
  | .unsat | .missing | .atomic _ | .array _ | .anyOf _ | .any => .isTrue trivial

/-- The required field that a type declares is left in the intersection. -/
theorem exists_document_intersection {d o : Document} {fields : Fields}
    (hd : (document d).WellDeclared) (ho : (document o).WellDeclared)
    (hda : (document d).AnchoredHere) (hoa : (document o).AnchoredHere)
    (hdc : d.isUnconstrained = false) (hoc : o.isUnconstrained = false)
    (hkept : ∀ field v, (field, v) ∈ fields → d.hasKey field = true ∨ o.hasKey field = true →
      ∃ z, d.meetKey? intersection o field = some z ∧ z.Matches (some v))
    (hdv : (document d).Matches (some (.document fields)))
    (hov : (document o).Matches (some (.document fields))) :
    ∃ m, (document d).intersection (.document o) = .document m ∧
      Document.IsMeet intersection m d o := by
  rcases Document.meet_cases hdc hoc hd.ordered ho.ordered with ⟨-, hnone, hkeys⟩ | hm
  · exfalso
    have hrequired : ∃ field, d.requires field = true ∨ o.requires field = true := by
      by_contra hno
      simp only [not_exists, not_or, Document.requires_iff] at hno
      apply hkeys
      exact ⟨hda (List.eq_nil_iff_forall_not_mem.2 fun field => (hno field).1),
        hoa (List.eq_nil_iff_forall_not_mem.2 fun field => (hno field).2)⟩
    obtain ⟨field, hfield⟩ := hrequired
    have hv : ∃ v, (field, v) ∈ fields := by
      rcases hfield with hfield | hfield
      · exact (document_matches_iff.1 hdv).1 field hfield
      · exact (document_matches_iff.1 hov).1 field hfield
    obtain ⟨v, hv⟩ := hv
    have hkey := hfield.imp hd.hasKey_of_requires ho.hasKey_of_requires
    obtain ⟨z, hz, -⟩ := hkept field v hv hkey
    rw [hnone field] at hz
    cases hz
  · exact hm

theorem document_intersection_matches {d o : Document} {fields : Fields}
    (hd : (document d).WellDeclared) (ho : (document o).WellDeclared)
    (hda : (document d).AnchoredHere) (hoa : (document o).AnchoredHere)
    (hdv : (document d).Matches (some (.document fields)))
    (hov : (document o).Matches (some (.document fields)))
    (hmeet : ∀ field x y v, d.key? field = some x → o.key? field = some y → (field, v) ∈ fields →
      (x.intersection y).Matches (some v)) :
    ((document d).intersection (.document o)).Matches (some (.document fields)) := by
  by_cases hdc : d.isUnconstrained = true
  · rw [Document.intersection_document, if_pos hdc]
    exact hov
  · by_cases hoc : o.isUnconstrained = true
    · rw [Document.intersection_document, if_neg hdc, if_pos hoc]
      exact hdv
    · have hddeclared : ∀ field, d.requires field = true → d.hasKey field = true :=
        fun _ => hd.hasKey_of_requires
      have hodeclared : ∀ field, o.requires field = true → o.hasKey field = true :=
        fun _ => ho.hasKey_of_requires
      obtain ⟨m, heq, hm⟩ := exists_document_intersection hd ho hda hoa
        (Bool.eq_false_iff.2 hdc) (Bool.eq_false_iff.2 hoc)
        (fun _ _ => Document.exists_meetKey? hddeclared hodeclared hdv hov hmeet) hdv hov
      rw [heq]
      exact hm.matches_of_both hddeclared hodeclared hdv hov hmeet

/-- Arrays that hold an element of both item schemas have an intersection. -/
theorem array_intersection_matches {x y : Schema} {items : List Value} (hne : items ≠ [])
    (h : ∀ w ∈ items, (x.intersection y).Matches (some w)) :
    ((array x).intersection (.array y)).Matches (some (.array items)) := by
  obtain ⟨w, hw⟩ := List.exists_mem_of_ne_nil items hne
  have hunsat : x.intersection y ≠ .unsat := by
    intro heq
    have hmatches := h w hw
    rw [heq] at hmatches
    exact not_unsat_matches hmatches
  rw [intersection_array_of_ne hunsat]
  exact .array h

/-- An intersection loses no value of both schemas, apart from values with an empty array. -/
theorem intersection_matches_of_both (hs : s.WellDeclared) (ht : t.WellDeclared)
    (hsa : s.Everywhere AnchoredHere) (hta : t.Everywhere AnchoredHere)
    (hfilled : ∀ w ∈ v, w.Filled) (hsv : s.Matches v) (htv : t.Matches v) :
    (s.intersection t).Matches v := by
  induction s, t using induction_intersection generalizing v with
  | unsat s t h =>
      rcases h with rfl | rfl
      · exact absurd hsv not_unsat_matches
      · exact absurd htv not_unsat_matches
  | anyLeft t =>
      rw [any_intersection]
      exact htv
  | anyRight s =>
      rw [intersection_any]
      exact hsv
  | branch a b ha hb ih =>
      have hkind : b.kind = a.kind := (htv.kind_eq hb).trans (hsv.kind_eq ha).symm
      cases hsv with
      | any => exact absurd rfl ha.2.1
      | anyOf => exact absurd rfl ha.2.2
      | missing =>
          obtain rfl : b = .missing := by cases b <;> simp [kind] at hkind ⊢
          rw [intersection]
          exact .missing
      | @atomic k w hk =>
          obtain ⟨l, rfl⟩ := kind_eq_atomic hkind
          cases htv with
          | atomic hl =>
              obtain rfl : k = l := Option.some.inj (hk.symm.trans hl)
              rw [intersection, if_pos rfl]
              exact .atomic hk
      | @array x items hx =>
          obtain ⟨y, rfl⟩ := kind_eq_array hkind
          have hitems : (Value.array items).Filled := hfilled _ rfl
          apply array_intersection_matches hitems.ne_nil
          intro w hw
          apply ih x (List.mem_singleton_self x) y hs.item ht.item
            (Everywhere.array_iff.1 hsa).2 (Everywhere.array_iff.1 hta).2
          · rintro _ ⟨⟩
            exact hitems.item hw
          · exact hx w hw
          · exact array_matches_iff.1 htv w hw
      | @document d fields required declared closed =>
          obtain ⟨o, rfl⟩ := kind_eq_document hkind
          have hfields : (Value.document fields).Filled := hfilled _ rfl
          apply document_intersection_matches hs ht hsa.here hta.here
            (.document required declared closed) htv
          intro field x y w hx hy hw
          apply ih x (List.mem_map_of_mem (Document.mem_of_key? hx)) y (hs.key hx) (ht.key hy)
            (hsa.key hx) (hta.key hy) (hfields.field (.present hw))
          · exact declared field w x hw hx
          · cases htv with
            | document _ odeclared _ => exact odeclared field w y hw hy
  | disjunction s t hskind htkind ih =>
      obtain ⟨a, ha, hav⟩ := matches_iff_branch.1 hsv
      obtain ⟨b, hb, hbv⟩ := matches_iff_branch.1 htv
      apply (intersection_matches_iff hs ht).2
      exact ⟨a, ha, b, hb, ih a ha b hb (hs.of_mem_branches ha) (ht.of_mem_branches hb)
        (hsa.of_mem_branches ha) (hta.of_mem_branches hb) hfilled hav hbv⟩

/-- A tagged order that a closed and an open type both have. -/
theorem intersection_matches_of_both_order :
    let d : Document := .ofFields
      [("id", .anyOf [.atomic .int, .atomic .string]),
        ("tags", .array (.anyOf [.atomic .int, .atomic .string]))] ["id"] false
    let o : Document := .ofFields
      [("id", .anyOf [.atomic .null, .atomic .int]), ("note", .atomic .string),
        ("tags", .array (.atomic .string))] ["id"] true
    let v : Value := .document [("id", .int32 7), ("tags", .array [.string "new"])]
    ((document d).WellDeclared ∧ (document d).Everywhere AnchoredHere) ∧
      ((document o).WellDeclared ∧ (document o).Everywhere AnchoredHere) ∧ v.Filled ∧
        (document d).Matches (some v) ∧ (document o).Matches (some v) ∧
          ((document d).intersection (.document o)).Matches (some v) := by
  intro d o v
  have hd : (document d).WellDeclared ∧ (document d).Everywhere AnchoredHere := by decide +kernel
  have ho : (document o).WellDeclared ∧ (document o).Everywhere AnchoredHere := by decide +kernel
  have hfilled : v.Filled := by
    have hleaf {w : Value} (hw : w.parts = []) (hne : w ≠ .array []) : w.Filled :=
      .intro hne (by simp [hw])
    refine .intro (by simp [v]) ?_
    simp only [v, Value.parts, List.map_cons, List.map_nil, List.forall_mem_cons]
    refine ⟨hleaf rfl (by simp), .intro (by simp) ?_, List.forall_mem_nil _⟩
    simp only [Value.parts, List.forall_mem_singleton]
    exact hleaf rfl (by simp)
  have hdv : (document d).Matches (some v) := by
    apply document_matches_of_entries
    · decide
    · simp only [List.forall_mem_cons]
      refine ⟨?_, ?_, List.forall_mem_nil _⟩
      · rintro _ ⟨⟩
        exact .anyOf List.mem_cons_self (.atomic rfl)
      · rintro _ ⟨⟩
        apply Matches.array
        rw [List.forall_mem_singleton]
        exact .anyOf (List.mem_cons_of_mem _ List.mem_cons_self) (.atomic rfl)
    · decide +kernel
  have hov : (document o).Matches (some v) := by
    apply document_matches_of_entries
    · decide
    · simp only [List.forall_mem_cons]
      refine ⟨?_, ?_, List.forall_mem_nil _⟩
      · rintro _ ⟨⟩
        exact .anyOf (List.mem_cons_of_mem _ List.mem_cons_self) (.atomic rfl)
      · rintro _ ⟨⟩
        apply Matches.array
        rw [List.forall_mem_singleton]
        exact .atomic rfl
    · decide +kernel
  refine ⟨hd, ho, hfilled, hdv, hov,
    intersection_matches_of_both hd.1 ho.1 hd.2 ho.2 ?_ hdv hov⟩
  rintro _ ⟨⟩
  exact hfilled

end Schema

end DocShape
