import DocShape.Validator.Convert
import DocShape.Proofs.FieldVerdicts
import DocShape.Proofs.ListedPaths
import DocShape.Proofs.PathValues

/-!
# Presence of paths

`pathPresence` follows a path through schemas that are not the ones the values come
from: below each field it goes on with the union of what the documents on top declare,
which is simplified on the way.  Where no document is hidden from the walk, and merged
documents require alike, every value still matches along the rest of the path, so the
verdicts hold.
-/

namespace DocShape

open Bson (Value Fields)

namespace Schema

variable {s y : Schema} {strict : Bool} {p rest : FieldPath} {field : String} {v w : Value}
  {fields : Fields} {d : Document}

/-! ## Fields of a schema -/

/-- The documents of a schema are all among its branches, or all deeper: no document and no `any`
is in a nested disjunction that stands beside a document. -/
def DocumentsOnTop (s : Schema) : Prop :=
  (∀ b ∈ s.branches, b.kind ≠ .document) ∨
    ∀ b ∈ s.branches, b.kind = .document ∨ ∀ y ∈ b.leaves, y.kind ≠ .document ∧ y.kind ≠ .any

instance (s : Schema) : Decidable s.DocumentsOnTop :=
  inferInstanceAs (Decidable (_ ∨ _))

theorem exists_branch_of_mem_leaves (hy : y ∈ s.leaves) : ∃ b ∈ s.branches, y ∈ b.leaves := by
  cases s with
  | anyOf bs =>
      rw [leaves_anyOf] at hy
      exact List.mem_flatMap.1 hy
  | _ => exact ⟨_, List.mem_singleton_self _, hy⟩

/-- What the walk goes on with: anything, or what all the documents on top declare. -/
theorem fieldUnion_cases (s : Schema) (field : String) :
    s.fieldUnion field = .any ∨
      (∃ d, d ∈ documents s.branches) ∧ (∀ d ∈ documents s.branches, d.hasKey field = true) ∧
        s.fieldUnion field = unions ((documents s.branches).filterMap (·.key? field)) := by
  rw [fieldUnion]
  split
  · exact .inl rfl
  · rename_i hne
    split
    · rename_i hall
      exact .inr ⟨List.exists_mem_of_ne_nil _ hne, List.all_eq_true.1 hall, rfl⟩
    · exact .inl rfl

theorem canonical_fieldUnion (s : Schema) (field : String) : (s.fieldUnion field).Canonical := by
  rcases s.fieldUnion_cases field with h | ⟨-, -, h⟩
  · rw [h]
    exact canonical_any
  · rw [h]
    exact canonical_unions _

/-- The walk goes on with a schema that the field's value matches. -/
theorem MatchesAlong.fieldUnion
    (hv : MatchesAlong strict (field :: rest) s (.document fields)) (hw : (field, w) ∈ fields)
    (htop : s.DocumentsOnTop) (halike : strict = true → s.RequiresAlikeBelow (field :: rest)) :
    MatchesAlong strict rest (s.fieldUnion field) w := by
  rcases s.fieldUnion_cases field with h | ⟨⟨o, ho⟩, hkeys, h⟩
  · rw [h]
    exact .any
  obtain ⟨y, hy, hyv⟩ := matchesAlong_iff_leaf.1 hv
  obtain ⟨b, hb, hyb⟩ := exists_branch_of_mem_leaves hy
  have hbkind : b.kind = .document := by
    have hbranches := htop.resolve_left fun hnone => hnone _ (mem_documents.1 ho) rfl
    refine (hbranches b hb).resolve_right fun hother => ?_
    obtain ⟨hdocument, hany⟩ := hother y hyb
    cases hyv with
    | any => exact hany rfl
    | kind same last => cases last same
    | field => exact hdocument rfl
    | anyOf => exact (isLeaf_of_mem_leaves hy).2 rfl
  obtain ⟨d, rfl⟩ := kind_eq_document hbkind
  cases List.mem_singleton.1 hyb
  have hd := mem_documents.2 hb
  cases hyv with
  | kind _ last => cases last rfl
  | field _ allowed below =>
      obtain ⟨x, hx⟩ := Option.isSome_iff_exists.1 (hkeys d hd)
      have hallowed := Document.allowed?_of_declared (Document.declared?_of_key? hx)
      have hxw := (below w x hw hallowed).simplify fun hstrict =>
        halike hstrict d (mem_documents.2 hy) x hx
      rw [h]
      exact hxw.mono (within_unions (List.mem_filterMap.2 ⟨d, hd, hx⟩))

/-! ## Canonical schemas -/

theorem Canonical.eq_of_mem_leaves (hs : s.Canonical) {b : Schema} (hb : b ∈ s.branches)
    (hy : y ∈ b.leaves) : y = b := by
  rcases b.isLeaf_or with hleaf | rfl | ⟨bs, rfl⟩
  · rw [hleaf.leaves] at hy
    exact List.mem_singleton.1 hy
  · cases hy
  · exact absurd rfl (hs.kind_ne_anyOf hb)

theorem Canonical.documentsOnTop (hs : s.Canonical) : s.DocumentsOnTop := by
  by_cases hkind : s.kind = .anyOf
  · obtain ⟨bs, rfl⟩ := kind_eq_anyOf hkind
    refine .inr fun b hb => or_iff_not_imp_left.2 fun hdocument y hy => ?_
    rw [hs.eq_of_mem_leaves hb hy]
    exact ⟨hdocument, (hs.collapsible.branch b hb).2.1⟩
  · rw [DocumentsOnTop, branches_of_kind_ne hkind]
    by_cases hdocument : s.kind = .document
    · exact .inr (List.forall_mem_singleton.2 (.inl hdocument))
    · exact .inl (List.forall_mem_singleton.2 hdocument)

theorem Canonical.mem_documents_branches (hs : s.Canonical) (hd : d ∈ documents s.leaves) :
    d ∈ documents s.branches := by
  obtain ⟨b, hb, hdb⟩ := exists_branch_of_mem_leaves (mem_documents.1 hd)
  rw [mem_documents, hs.eq_of_mem_leaves hb hdb]
  exact hb

/-- A canonical schema has one document at each place, which agrees with itself. -/
theorem Canonical.requiresAlike (hs : s.Canonical) (p : FieldPath) : s.RequiresAlike p := by
  induction p generalizing s with
  | nil => trivial
  | cons field rest ih =>
      refine ⟨fun d hd o ho => ?_, fun d hd x hx => ?_⟩
      · have hone := hs.length_documents_le
        obtain ⟨i, hi, rfl⟩ := List.getElem_of_mem (hs.mem_documents_branches hd)
        obtain ⟨j, hj, rfl⟩ := List.getElem_of_mem (hs.mem_documents_branches ho)
        have hij : i = j := by omega
        subst hij
        rfl
      · have hd' : (document d).Canonical := Everywhere.of_mem_leaves hs (mem_documents.1 hd)
        exact ih (hd'.key hx).2

theorem RequiresAlike.below (h : s.RequiresAlike p) : s.RequiresAlikeBelow p := by
  cases p with
  | nil => trivial
  | cons field rest => exact h.2

/-! ## Verdicts on paths -/

theorem MatchesAlong.containsField_ne_never
    (hv : MatchesAlong strict (field :: rest) s (.document fields)) (hw : (field, w) ∈ fields) :
    s.containsField field ≠ .never := by
  intro hnever
  obtain ⟨y, hy, hyv⟩ := matchesAlong_iff_leaf.1 hv
  have hynever := containsField_leaf hnever (by decide) hy
  cases hyv with
  | any => cases hynever
  | kind same last => cases last same
  | anyOf => exact (isLeaf_of_mem_leaves hy).2 rfl
  | @field d _ _ _ _ allowed =>
      obtain ⟨x, hx⟩ := allowed w hw
      rw [containsField] at hynever
      split at hynever
      · cases hynever
      rename_i hrequires
      split at hynever
      · cases hynever
      rename_i hroom
      rw [Bool.or_eq_true, not_or, Document.hasKey, Option.not_isSome_iff_eq_none] at hroom
      rw [Document.allowed?_of_key?_eq_none hroom.1, if_neg] at hx
      · cases hx
      · simpa [hrequires] using hroom.2

theorem MatchesAlong.exists_field_of_containsField (hv : MatchesAlong true (field :: rest) s v)
    (hmust : s.containsField field = .must) :
    ∃ fields w, v = .document fields ∧ (field, w) ∈ fields := by
  obtain ⟨y, hy, hyv⟩ := matchesAlong_iff_leaf.1 hv
  obtain ⟨d, rfl, hrequires⟩ :=
    (isLeaf_of_mem_leaves hy).eq_of_containsField_must (containsField_leaf hmust (by decide) hy)
  cases hyv with
  | kind _ last => cases last rfl
  | @field _ fields _ _ required =>
      obtain ⟨w, hw⟩ := required rfl hrequires
      exact ⟨fields, w, rfl, hw⟩

private theorem pathPresence_cons_eq_must :
    s.pathPresence (field :: rest) = .must ↔
      s.containsField field = .must ∧ (s.fieldUnion field).pathPresence rest = .must := by
  rw [pathPresence]
  cases s.containsField field with
  | never => simp
  | _ => exact Verdict.weaker_eq_must

private theorem pathPresence_cons_eq_never :
    s.pathPresence (field :: rest) = .never ↔
      s.containsField field = .never ∨ (s.fieldUnion field).pathPresence rest = .never := by
  rw [pathPresence]
  cases s.containsField field with
  | never => simp
  | _ => exact Verdict.weaker_eq_never

theorem MatchesAlong.not_hasPath (hv : MatchesAlong false p s v)
    (h : s.pathPresence p = .never) (htop : 2 ≤ p.length → s.DocumentsOnTop) :
    ¬ v.HasPath p w := by
  induction p generalizing s v with
  | nil => cases h
  | cons field rest ih =>
      intro hpath
      cases hpath with
      | field mem below =>
          rcases pathPresence_cons_eq_never.1 h with hnever | hnever
          · exact hv.containsField_ne_never mem hnever
          · cases rest with
            | nil => cases hnever
            | cons next rest =>
                have hnext := hv.fieldUnion mem (htop (by simp)) (by simp)
                exact ih hnext hnever (fun _ => (canonical_fieldUnion s field).documentsOnTop) below

theorem MatchesAlong.exists_hasPath (hv : MatchesAlong true p s v)
    (h : s.pathPresence p = .must) (htop : 2 ≤ p.length → s.DocumentsOnTop)
    (halike : s.RequiresAlikeBelow p) : ∃ w, v.HasPath p w := by
  induction p generalizing s v with
  | nil => exact ⟨v, .here⟩
  | cons field rest ih =>
      obtain ⟨hmust, hrest⟩ := pathPresence_cons_eq_must.1 h
      obtain ⟨fields, x, rfl, hx⟩ := hv.exists_field_of_containsField hmust
      cases rest with
      | nil => exact ⟨x, .field hx .here⟩
      | cons next rest =>
          have hcanonical := canonical_fieldUnion s field
          have hnext := hv.fieldUnion hx (htop (by simp)) fun _ => halike
          obtain ⟨w, hw⟩ := ih hnext hrest (fun _ => hcanonical.documentsOnTop)
            (hcanonical.requiresAlike _).below
          exact ⟨w, .field hx hw⟩

/-- The presence of a path holds of all documents of the schema.  For paths of several names, no
document may be hidden beside the documents on top; and for `must`, documents that stand for one
field have to agree on what they require along the path. -/
theorem pathPresence_sound (htop : 2 ≤ p.length → s.DocumentsOnTop) :
    (s.pathPresence p = .must → s.RequiresAlikeBelow p →
      ∀ fields : Fields, s.Matches (some (.document fields)) →
        ∃ w, (Value.document fields).HasPath p w) ∧
    (s.pathPresence p = .never →
      ∀ (fields : Fields) (w : Value), s.Matches (some (.document fields)) →
        ¬ (Value.document fields).HasPath p w) :=
  ⟨fun h halike _ hv => hv.along.exists_hasPath h htop halike,
    fun h _ _ hv => hv.along.not_hasPath h htop⟩

/-- Shipments to one of two kinds of address that both require a city, beside a disjunction
without branches. -/
theorem pathPresence_sound_shipment :
    let home : Schema := .document (.ofFields [("city", .atomic .string)] ["city"] false)
    let office : Schema := .document
      (.ofFields [("city", .atomic .string), ("floor", .atomic .int)] ["city"] false)
    let shipment : Schema := .anyOf
      [.document (.ofFields [("to", .anyOf [home, office])] ["to"] false),
        .anyOf []]
    let one : Fields := [("to", .document [("city", .string "Ghent"), ("floor", .int32 3)])]
    shipment.DocumentsOnTop ∧ shipment.RequiresAlikeBelow ["to", "city"] ∧
      shipment.pathPresence ["to", "city"] = .must ∧
      shipment.pathPresence ["to", "zip"] = .never ∧
      shipment.Matches (some (.document one)) ∧
      (∃ w, (Value.document one).HasPath ["to", "city"] w) ∧
      ∀ w, ¬ (Value.document one).HasPath ["to", "zip"] w := by
  intro home office shipment one
  have htop : shipment.DocumentsOnTop := by decide +kernel
  have halike : shipment.RequiresAlikeBelow ["to", "city"] := by decide +kernel
  have hmust : shipment.pathPresence ["to", "city"] = .must := by decide +kernel
  have hnever : shipment.pathPresence ["to", "zip"] = .never := by decide +kernel
  have hone : shipment.Matches (some (.document one)) := by
    apply Matches.anyOf List.mem_cons_self
    apply document_matches_of_entries
    · decide
    · rw [List.forall_mem_singleton]
      rintro _ ⟨⟩
      apply Matches.anyOf (List.mem_cons_of_mem _ List.mem_cons_self)
      apply document_matches_of_entries
      · decide
      · rw [List.forall_mem_cons, List.forall_mem_singleton]
        constructor
        · rintro _ ⟨⟩
          exact .atomic rfl
        · rintro _ ⟨⟩
          exact .atomic rfl
      · decide +kernel
    · decide +kernel
  have hcity := (pathPresence_sound fun _ => htop).1 hmust halike
  have hzip := (pathPresence_sound fun _ => htop).2 hnever
  exact ⟨htop, halike, hmust, hnever, hone, hcity one hone, fun w => hzip one w hone⟩

/-- Validators whose schemas are told a wrong presence.  A field with one of two documents that
require different fields is said to have the fields of both; a path of a document in a nested
disjunction is said to be in no document. -/
theorem pathPresence_unsound :
    let int : Validator := .of { Keywords.blank with bsonType := some (.single "int") }
    let object (properties : List (String × Validator)) (required : List String) : Validator :=
      .of { Keywords.blank with
        bsonType := some (.single "object"), properties := some properties,
        required := some required, additionalProperties := some false }
    let choice (vs : List Validator) : Validator := .of { Keywords.blank with anyOf := some vs }
    let merged := object
      [("f", choice [object [("a", int)] ["a"], object [("b", int)] ["b"]])] ["f"]
    let hidden := choice [object [("x", object [] [])] [],
      choice [object [("x", object [("y", int)] [])] []]]
    ∃ s t, ofValidator merged 5 = .ok s ∧ ofValidator hidden 5 = .ok t ∧
      s.pathPresence ["f", "a"] = .must ∧
      (∃ fields : Fields, s.Matches (some (.document fields)) ∧
        ∀ w, ¬ (Value.document fields).HasPath ["f", "a"] w) ∧
      t.pathPresence ["x", "y"] = .never ∧
      ∃ (fields : Fields) (w : Value), t.Matches (some (.document fields)) ∧
        (Value.document fields).HasPath ["x", "y"] w := by
  intro int object choice merged hidden
  let record (keys : FieldMap Schema) (required : NameSet) : Schema :=
    .document (.ofFields keys required false)
  let s := record [("f", .anyOf [record [("a", .atomic .int)] ["a"],
    record [("b", .atomic .int)] ["b"]])] ["f"]
  let t : Schema := .anyOf [record [("x", record [] [])] [],
    .anyOf [record [("x", record [("y", .atomic .int)] [])] []]]
  refine ⟨s, t, rfl, rfl, by decide +kernel, ⟨[("f", .document [("b", .int32 1)])], ?_, ?_⟩,
    by decide +kernel, [("x", .document [("y", .int32 1)])], .int32 1, ?_, ?_⟩
  · apply document_matches_of_entries
    · decide
    · rw [List.forall_mem_singleton]
      rintro _ ⟨⟩
      apply Matches.anyOf (List.mem_cons_of_mem _ List.mem_cons_self)
      apply document_matches_of_entries
      · decide
      · rw [List.forall_mem_singleton]
        rintro _ ⟨⟩
        exact .atomic rfl
      · decide +kernel
    · decide +kernel
  · intro w hpath
    cases hpath with
    | field hf ha =>
        cases List.mem_singleton.1 hf
        cases ha with
        | field hmem => simp at hmem
  · apply Matches.anyOf (List.mem_cons_of_mem _ List.mem_cons_self)
    apply Matches.anyOf List.mem_cons_self
    apply document_matches_of_entries
    · decide
    · rw [List.forall_mem_singleton]
      rintro _ ⟨⟩
      apply document_matches_of_entries
      · decide
      · rw [List.forall_mem_singleton]
        rintro _ ⟨⟩
        exact .atomic rfl
      · decide +kernel
    · decide +kernel
  · exact .field (List.mem_singleton_self _) (.field (List.mem_singleton_self _) .here)

end Schema

end DocShape
