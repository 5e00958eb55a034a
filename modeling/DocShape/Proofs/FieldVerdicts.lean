import DocShape.Proofs.TopLevelFields

/-!
# Verdicts on fields

What `containsField` and `sharesField` say of the values of a schema.  A sure
verdict on a disjunction is the verdict on each of its leaves, and a leaf is sure
of a field only by what one document type requires, mentions or rules out.
-/

namespace DocShape

open Bson (Value Fields)

theorem Document.exists_required_of_sharesField {d e : Document}
    (h : d.sharesField e = .must) :
    ∃ field, d.requires field = true ∧ e.requires field = true := by
  unfold Document.sharesField at h
  split at h
  · rename_i hany
    obtain ⟨field, hfield, he⟩ := List.any_eq_true.1 hany
    exact ⟨field, Document.requires_iff.2 hfield, he⟩
  · split at h
    · cases h
    · split at h <;> cases h

namespace Schema

variable {s t y z : Schema} {bs : List Schema} {field : String} {verdict : Verdict}
  {v w : Option Value}

/-! ## One field -/

private theorem containFields_eq_map (field : String) (bs : List Schema) :
    containFields field bs = bs.map (containsField field) := by
  induction bs with
  | nil => rfl
  | cons b rest ih => rw [containFields, ih, List.map_cons]

theorem containsField_leaf (h : s.containsField field = verdict) (hsure : verdict ≠ .may)
    (hy : y ∈ s.leaves) : y.containsField field = verdict := by
  induction s, hy using leaf_induction with
  | leaf => exact h
  | branch bs b hb _ _ ih =>
      rw [containsField, containFields_eq_map] at h
      exact ih (Verdict.eq_of_meetAll h hsure _ (List.mem_map_of_mem hb))

/-- Only a document type that requires the field is sure to have it. -/
theorem IsLeaf.eq_of_containsField_must (hy : y.IsLeaf) (h : y.containsField field = .must) :
    ∃ d, y = .document d ∧ d.requires field = true := by
  cases y with
  | document d =>
      refine ⟨d, rfl, ?_⟩
      rw [containsField] at h
      by_contra hrequires
      rw [if_neg hrequires] at h
      split at h <;> cases h
  | anyOf bs => exact absurd rfl hy.2
  | _ => cases h

theorem IsLeaf.containsField_ne_never (hy : y.IsLeaf) (hcarries : y.Carries field) :
    y.containsField field ≠ .never := by
  rcases hcarries.leaf_cases hy with rfl | ⟨d, rfl, hd⟩
  · simp [containsField]
  · rw [containsField]
    cases hrequires : d.requires field with
    | true => simp
    | false =>
        have hroom : (d.hasKey field || d.isOpen) = true := by
          rw [Document.mentions, hrequires, Bool.or_false] at hd
          rw [Bool.or_eq_true]
          exact hd.symm
        simp [hroom]

theorem exists_field_of_containsField (h : s.containsField field = .must) (hv : s.Matches v) :
    ∃ fields x, v = some (.document fields) ∧ (field, x) ∈ fields := by
  obtain ⟨y, hy, hyv⟩ := matches_iff_leaf.1 hv
  have hmust := containsField_leaf h (by decide) hy
  obtain ⟨d, rfl, hrequires⟩ := (isLeaf_of_mem_leaves hy).eq_of_containsField_must hmust
  cases hyv with
  | @document _ fields required =>
      obtain ⟨x, hx⟩ := required field hrequires
      exact ⟨fields, x, rfl, hx⟩

theorem not_carries_of_containsField (h : s.containsField field = .never) :
    ¬ s.Carries field := by
  intro hcarries
  obtain ⟨y, hy, hyc⟩ := hcarries.exists_leaf
  exact (isLeaf_of_mem_leaves hy).containsField_ne_never hyc
    (containsField_leaf h (by decide) hy)

/-! ## Shared fields -/

/-- Only document types that require one field are sure to share one. -/
theorem IsLeaf.eq_of_sharesField_must (hy : y.IsLeaf) (hz : z.IsLeaf)
    (h : y.sharesField z = .must) :
    ∃ d e field, y = .document d ∧ z = .document e ∧ d.requires field = true ∧
      e.requires field = true := by
  cases y with
  | anyOf bs => exact absurd rfl hy.2
  | document d =>
      cases z with
      | anyOf bs => exact absurd rfl hz.2
      | document e =>
          rw [sharesField] at h
          obtain ⟨field, hd, he⟩ := Document.exists_required_of_sharesField h
          exact ⟨d, e, field, rfl, rfl, hd, he⟩
      | _ => simp [sharesField] at h
  | _ =>
      cases z with
      | anyOf bs => exact absurd rfl hz.2
      | _ => simp [sharesField] at h

private theorem exists_shared_of_sharesField (h : s.sharesField t = .must) (hv : s.Matches v)
    (hw : t.Matches w) :
    ∃ fields others field, v = some (.document fields) ∧ w = some (.document others) ∧
      field ∈ fields.map Prod.fst ∧ field ∈ others.map Prod.fst := by
  obtain ⟨y, hy, hyv⟩ := matches_iff_leaf.1 hv
  obtain ⟨z, hz, hzw⟩ := matches_iff_leaf.1 hw
  have hmust := sharesField_leaves h (by decide) hy hz
  obtain ⟨d, e, field, rfl, rfl, hd, he⟩ :=
    (isLeaf_of_mem_leaves hy).eq_of_sharesField_must (isLeaf_of_mem_leaves hz) hmust
  cases hyv with
  | @document _ fields required =>
      cases hzw with
      | @document _ others required' =>
          obtain ⟨x, hx⟩ := required field hd
          obtain ⟨x', hx'⟩ := required' field he
          exact ⟨fields, others, field, rfl, rfl, List.mem_map_of_mem hx, List.mem_map_of_mem hx'⟩

/-- The verdicts on fields hold of all values, whatever disjunctions the schemas are made of:
`must` of a field is met by every value, `never` by no document; `must` of a shared field is
met by every two values, `never` by no two documents. -/
theorem field_verdicts_sound (s t : Schema) (field : String) :
    (s.containsField field = .must → ∀ v, s.Matches v →
      ∃ fields, v = some (.document fields) ∧ field ∈ fields.map Prod.fst) ∧
    (s.containsField field = .never → ∀ fields : Fields, s.Matches (some (.document fields)) →
      field ∉ fields.map Prod.fst) ∧
    (s.sharesField t = .must → ∀ v w, s.Matches v → t.Matches w →
      ∃ fields others shared, v = some (.document fields) ∧ w = some (.document others) ∧
        shared ∈ fields.map Prod.fst ∧ shared ∈ others.map Prod.fst) ∧
    (s.sharesField t = .never → ∀ fields others : Fields, s.Matches (some (.document fields)) →
      t.Matches (some (.document others)) →
      ∀ name ∈ fields.map Prod.fst, name ∉ others.map Prod.fst) := by
  have hcarries {r : Schema} {fields : Fields} {name : String}
      (hr : r.Matches (some (.document fields))) (hname : name ∈ fields.map Prod.fst) :
      r.Carries name := by
    obtain ⟨⟨_, x⟩, hx, rfl⟩ := List.mem_map.1 hname
    exact ⟨fields, x, hr, hx⟩
  refine ⟨?_, ?_, ?_, ?_⟩
  · intro h v hv
    obtain ⟨fields, x, rfl, hx⟩ := exists_field_of_containsField h hv
    exact ⟨fields, rfl, List.mem_map_of_mem hx⟩
  · intro h fields hfields hname
    exact not_carries_of_containsField h (hcarries hfields hname)
  · intro h v w hv hw
    exact exists_shared_of_sharesField h hv hw
  · intro h fields others hfields hothers name hname hname'
    exact sharesField_ne_never_of_carries (hcarries hfields hname) (hcarries hothers hname') h

/-- Orders in nested disjunctions, one without branches and one with an open type, and labels
that require a field without a schema for it. -/
theorem field_verdicts_sound_orders :
    let order : Schema := .anyOf
      [.anyOf [], .document (.ofFields [("id", .atomic .int)] ["id"] false),
        .anyOf [.document (.ofFields [] ["id"] true)]]
    let label : Schema := .document (.ofFields [("tag", .atomic .string)] ["id"] false)
    let stray : Schema := .document (.ofFields [("note", .atomic .string)] [] false)
    let one : Fields := [("id", .int32 7)]
    let note : Fields := [("note", .string "late")]
    order.containsField "id" = .must ∧ order.sharesField label = .must ∧
      stray.containsField "id" = .never ∧ stray.sharesField label = .never ∧
      order.Matches (some (.document one)) ∧ label.Matches (some (.document one)) ∧
      stray.Matches (some (.document note)) ∧
      "id" ∈ one.map Prod.fst ∧ "id" ∉ note.map Prod.fst ∧
      (∃ fields others shared, some (Value.document one) = some (.document fields) ∧
        some (Value.document one) = some (.document others) ∧
        shared ∈ fields.map Prod.fst ∧ shared ∈ others.map Prod.fst) ∧
      ∀ name ∈ note.map Prod.fst, name ∉ one.map Prod.fst := by
  intro order label stray one note
  have horder : order.Matches (some (.document one)) := by
    apply Matches.anyOf (List.mem_cons_of_mem _ List.mem_cons_self)
    apply document_matches_of_entries
    · decide
    · rw [List.forall_mem_singleton]
      rintro _ ⟨⟩
      exact .atomic rfl
    · decide
  have hlabel : label.Matches (some (.document one)) := by
    apply document_matches_of_entries
    · decide
    · rw [List.forall_mem_singleton]
      rintro _ ⟨⟩
    · decide
  have hstray : stray.Matches (some (.document note)) := by
    apply document_matches_of_entries
    · exact List.forall_mem_nil _
    · rw [List.forall_mem_singleton]
      rintro _ ⟨⟩
      exact .atomic rfl
    · decide
  have hmust : order.containsField "id" = .must := by decide
  have hshares : order.sharesField label = .must := by decide +kernel
  have hnever : stray.containsField "id" = .never := by decide
  have happart : stray.sharesField label = .never := by decide +kernel
  obtain ⟨hhas, -, hshared, -⟩ := field_verdicts_sound order label "id"
  obtain ⟨-, hlacks, -, hnone⟩ := field_verdicts_sound stray label "id"
  refine ⟨hmust, hshares, hnever, happart, horder, hlabel, hstray, ?_, hlacks hnever _ hstray,
    hshared hshares _ _ horder hlabel, hnone happart _ _ hstray hlabel⟩
  obtain ⟨fields, hfields, hid⟩ := hhas hmust _ horder
  cases hfields
  exact hid

end Schema

end DocShape
