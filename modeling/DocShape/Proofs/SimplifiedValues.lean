import DocShape.Proofs.Assembly
import DocShape.Proofs.Semantics

/-!
# The values of a simplified schema

Where no two documents of a disjunction have to be merged, simplification keeps
every value.  It adds none if documents are plain about absence: a field that can
only be absent is ruled out by its document, and one that may be absent is not
required.
-/

namespace DocShape

open Bson (Value Fields)

/-- What `f` keeps of an entry is found where the entry was. -/
theorem FieldMap.find?_filterMap_of_find? {α β : Type} {f : α → Option β} {m : FieldMap α}
    {name : String} {a : α} {b : β} (ha : find? m name = some a) (hb : f a = some b) :
    find? (m.filterMap fun entry => (f entry.2).map (entry.1, ·)) name = some b := by
  induction m with
  | nil => cases ha
  | cons entry rest ih =>
      obtain ⟨other, value⟩ := entry
      rw [find?_cons] at ha
      by_cases hname : name = other
      · rw [if_pos hname] at ha
        cases ha
        simp [hb, find?_cons, hname]
      · rw [if_neg hname] at ha
        cases hvalue : f value with
        | none => simpa [hvalue] using ih ha
        | some c => simpa [hvalue, find?_cons, hname] using ih ha

namespace Schema

variable {s : Schema} {v : Option Value}

/-! ## Values through leaves -/

private theorem mergeDocuments_eq_some {ds : List Document} {d : Document} (h : ds.length ≤ 1) :
    mergeDocuments join ds = some d ↔ d ∈ ds := by
  cases ds with
  | nil => simp [mergeDocuments]
  | cons e rest =>
      have hnil : rest = [] := by simpa using h
      simp [mergeDocuments, hnil, eq_comm]

/-- A disjunction assembled without merging has the values of its leaves. -/
theorem assemble_matches_iff {ls : List Schema} (hone : (documents ls).length ≤ 1) :
    (assemble ls).Matches v ↔ ∃ y ∈ ls, y.Matches v := by
  by_cases hany : .any ∈ ls
  · rw [assemble_of_mem hany]
    exact iff_of_true .any ⟨.any, hany, .any⟩
  · rw [assemble_of_notMem hany, collapse_matches_iff]
    simp only [mem_gathered, mergeDocuments_eq_some hone, mem_documents]
    constructor
    · rintro ⟨b, ⟨hb, -⟩ | ⟨d, hd, rfl⟩, hv⟩
      · exact ⟨b, hb, hv⟩
      · exact ⟨_, hd, hv⟩
    · rintro ⟨y, hy, hv⟩
      refine ⟨y, ?_, hv⟩
      cases y with
      | unsat => exact absurd hv not_unsat_matches
      | document d => exact .inr ⟨d, hy, rfl⟩
      | _ => exact .inl ⟨hy, by simp [kind], by simp [kind]⟩

/-- Disjunctions, nested ones unrolled, have at most one document. -/
def SoleDocumentHere : Schema → Prop
  | .anyOf bs => (documents (anyOf bs).leaves).length ≤ 1
  | _ => True

instance : DecidablePred SoleDocumentHere
  | .anyOf bs => inferInstanceAs (Decidable ((documents (anyOf bs).leaves).length ≤ 1))
  | .unsat | .missing | .atomic _ | .array _ | .document _ | .any => .isTrue trivial

theorem SoleDocumentHere.length_le (h : s.SoleDocumentHere) :
    (documents (s.leaves.map simplify)).length ≤ 1 := by
  have hkinds : (documents (s.leaves.map simplify)).length = (documents s.leaves).length := by
    rw [length_documents, length_documents, List.countP_map]
    apply List.countP_congr
    intro y hy
    simp [kind_simplify (isLeaf_of_mem_leaves hy).2]
  rw [hkinds]
  rcases s.isLeaf_or with hleaf | rfl | ⟨bs, rfl⟩
  · rw [hleaf.leaves]
    exact List.length_filterMap_le _ _
  · exact Nat.zero_le 1
  · exact h

theorem simplify_matches_iff_leaf (h : s.SoleDocumentHere) :
    s.simplify.Matches v ↔ ∃ y ∈ s.leaves, y.simplify.Matches v := by
  rw [simplify_eq_assemble, assemble_matches_iff h.length_le]
  simp

/-! ## Declared fields -/

theorem Canonical.eq_of_absence_eq_must (h : s.Canonical) (hmust : s.absence = .must) :
    s.kind = .unsat ∨ s.kind = .missing := by
  cases s with
  | unsat => exact .inl rfl
  | missing => exact .inr rfl
  | anyOf bs =>
      obtain ⟨hbs, -⟩ := canonical_anyOf_iff.1 h
      have hmissing : ∀ b ∈ bs, b = .missing := by
        intro b hb
        have habsence := absence_anyOf_eq_must.1 hmust b hb
        rw [(hbs.branch b hb).absence] at habsence
        by_contra hne
        rw [← isMissing_iff] at hne
        simp [hne] at habsence
      cases bs with
      | nil => exact absurd hbs.two (by simp)
      | cons a rest =>
          cases rest with
          | nil => exact absurd hbs.two (by simp)
          | cons b rest =>
              have hlt := (List.pairwise_cons.1 hbs.ascending).1 b List.mem_cons_self
              rw [hmissing a (by simp), hmissing b (by simp)] at hlt
              cases hlt
  | _ => cases hmust

/-- Removing absence removes no present value. -/
theorem Canonical.declaredPresent_matches {y : Schema} {w : Value} (h : s.Canonical)
    (hy : s.declaredPresent = some y) : y.Matches (some w) ↔ s.Matches (some w) := by
  rw [Schema.declaredPresent] at hy
  by_cases hany : s.isAny = true
  · rw [if_pos hany] at hy
    cases hy
    exact Iff.rfl
  · rw [if_neg hany] at hy
    split at hy
    · cases hy
    · rename_i hmay
      cases hy
      cases s with
      | anyOf bs =>
          have hbs := h.collapsible
          rw [Schema.present, subtract, subtractBranches_isMissing hbs.branch,
            collapse_matches_iff, anyOf_matches_iff]
          constructor
          · rintro ⟨b, hb, hv⟩
            exact ⟨b, List.mem_of_mem_filter hb, hv⟩
          · rintro ⟨b, hb, hv⟩
            refine ⟨b, List.mem_filter.2 ⟨hb, ?_⟩, hv⟩
            cases hv <;> rfl
      | any => exact absurd rfl hany
      | _ => cases hmay
    · cases hy
      exact Iff.rfl

theorem Canonical.declaredPresent_eq_none (h : s.Canonical) (hnone : s.declaredPresent = none) :
    s.kind = .unsat ∨ s.kind = .missing := by
  apply h.eq_of_absence_eq_must
  rw [Schema.declaredPresent] at hnone
  split at hnone
  · cases hnone
  · split at hnone
    · assumption
    · cases hnone
    · cases hnone

/-- A field with a present value stays declared. -/
theorem Canonical.exists_declaredPresent {w : Value} (h : s.Canonical)
    (hw : s.Matches (some w)) : ∃ y, s.declaredPresent = some y ∧ y.Matches (some w) := by
  cases hy : s.declaredPresent with
  | some y => exact ⟨y, rfl, (h.declaredPresent_matches hy).2 hw⟩
  | none =>
      rcases h.declaredPresent_eq_none hy with hkind | hkind
      · cases hw <;> cases hkind
      · cases hw <;> cases hkind

theorem Canonical.keepsRequired_eq_false (h : s.Canonical) (hrequired : s.keepsRequired = false) :
    (s.kind = .unsat ∨ s.kind = .missing) ∨
      s.kind = .anyOf ∧ ∃ b ∈ s.branches, b.kind = .missing := by
  have hnot : ¬ s.Declarable := by
    intro hdeclarable
    rw [keepsRequired_of_declarable hdeclarable h] at hrequired
    cases hrequired
  simp only [declarable_iff, not_and, not_forall, not_not] at hnot
  by_cases hunsat : s.kind = .unsat
  · exact .inl (.inl hunsat)
  · obtain ⟨b, hb, hmissing⟩ := hnot hunsat
    cases s with
    | anyOf bs => exact .inr ⟨rfl, b, hb, hmissing⟩
    | _ =>
        rw [List.mem_singleton.1 hb] at hmissing
        exact .inl (.inr hmissing)

/-! ## Documents -/

/-- Documents list their fields in order, rule out a field that can only be absent and do not
require one that may be absent. -/
def PlainHere : Schema → Prop
  | .document d => d.keyNames.Ordered ∧ ∀ entry ∈ d.keys,
      (entry.2.simplify.kind = .unsat ∨ entry.2.simplify.kind = .missing →
        d.isOpen = false ∧ d.requires entry.1 = false) ∧
      (entry.2.simplify.kind = .anyOf → (∃ b ∈ entry.2.simplify.branches, b.kind = .missing) →
        d.requires entry.1 = false)
  | _ => True

instance : DecidablePred PlainHere
  | .document d => inferInstanceAs (Decidable (d.keyNames.Ordered ∧ ∀ entry ∈ d.keys,
      (entry.2.simplify.kind = .unsat ∨ entry.2.simplify.kind = .missing →
        d.isOpen = false ∧ d.requires entry.1 = false) ∧
      (entry.2.simplify.kind = .anyOf → (∃ b ∈ entry.2.simplify.branches, b.kind = .missing) →
        d.requires entry.1 = false)))
  | .unsat | .missing | .atomic _ | .array _ | .anyOf _ | .any => .isTrue trivial

/-- Simplification loses no value of the schema, and adds none where documents are plain about
absence. -/
structure KeepsValues (s : Schema) : Prop where
  kept : ∀ v, s.Matches v → s.simplify.Matches v
  added : s.Everywhere PlainHere → ∀ v, s.simplify.Matches v → s.Matches v

section Documents

variable {d : Document} {field : String} {x y : Schema}

theorem key?_redeclare (hx : d.key? field = some x) (hy : x.simplify.declaredPresent = some y) :
    (d.redeclare (simplifyKeys d.keys)).key? field = some y := by
  apply FieldMap.find?_filterMap_of_find? (a := x.simplify) _ hy
  rw [find?_simplifyKeys]
  exact Option.map_eq_some_iff.2 ⟨x, hx, rfl⟩

theorem hasKey_of_redeclare (h : (d.redeclare (simplifyKeys d.keys)).hasKey field = true) :
    d.hasKey field = true := by
  rw [← Document.mem_keyNames] at h ⊢
  obtain ⟨entry, hmem, rfl⟩ := List.mem_map.1 h
  obtain ⟨source, hsource, hentry⟩ := List.mem_filterMap.1 hmem
  obtain ⟨_, -, rfl⟩ := Option.map_eq_some_iff.1 hentry
  rw [simplifyKeys_eq_map, List.mem_map] at hsource
  obtain ⟨original, horiginal, rfl⟩ := hsource
  exact List.mem_map.2 ⟨original, horiginal, rfl⟩

theorem requires_redeclare :
    (d.redeclare (simplifyKeys d.keys)).requires field = true ↔
      d.requires field = true ∧ ∀ x ∈ d.key? field, x.simplify.keepsRequired = true := by
  rw [Document.requires_iff, Document.requires_iff, mem_required_redeclare]
  rfl

theorem PlainHere.key?_redeclare_eq_none (h : (document d).PlainHere) (hx : d.key? field = some x)
    (hnone : x.simplify.declaredPresent = none) :
    (d.redeclare (simplifyKeys d.keys)).key? field = none := by
  have hnames : FieldMap.names (simplifyKeys d.keys) = d.keyNames := by
    simp [simplifyKeys_eq_map, FieldMap.names, Document.keyNames]
  have hfind := FieldMap.find?_filterMap (f := fun _ => declaredPresent) (hnames ▸ h.1) field
  rw [Document.key?] at hx
  rw [find?_simplifyKeys, hx, Option.map_some, Option.bind_some, hnone] at hfind
  exact hfind

theorem document_simplify_matches (h : ∀ x ∈ (document d).children, x.KeepsValues)
    (hv : (document d).Matches v) : (document d).simplify.Matches v := by
  rw [simplify_document]
  cases hv with
  | @document _ fields required declared closed =>
      have hkept (field : String) (w : Value) (x : Schema) (hw : (field, w) ∈ fields)
          (hx : d.key? field = some x) :
          ∃ y, (d.redeclare (simplifyKeys d.keys)).key? field = some y ∧ y.Matches (some w) := by
        have hvalues := h x (List.mem_map_of_mem (Document.mem_of_key? hx))
        obtain ⟨y, hy, hyw⟩ := (canonical_simplify x).exists_declaredPresent
          (hvalues.kept _ (declared field w x hw hx))
        exact ⟨y, key?_redeclare hx hy, hyw⟩
      apply Matches.document
      · intro field hfield
        exact required field (requires_redeclare.1 hfield).1
      · intro field w z hw hz
        have hkey : d.hasKey field = true := by
          apply hasKey_of_redeclare
          rw [Document.hasKey, hz]
          rfl
        obtain ⟨x, hx⟩ := Option.isSome_iff_exists.1 hkey
        obtain ⟨y, hy, hyw⟩ := hkept field w x hw hx
        rw [hz] at hy
        cases hy
        exact hyw
      · intro hopen field w hw
        have hmentions := closed hopen field w hw
        rw [Document.mentions, Bool.or_eq_true] at hmentions ⊢
        cases hx : d.key? field with
        | some x =>
            obtain ⟨y, hy, -⟩ := hkept field w x hw hx
            rw [Document.hasKey, hy]
            exact .inl rfl
        | none =>
            right
            rw [requires_redeclare, hx]
            simpa [Document.hasKey, hx] using hmentions

/-- A field that only simplification rules out was ruled out before. -/
theorem PlainHere.matches_of_simplify (hplain : (document d).Everywhere PlainHere)
    (h : ∀ x ∈ (document d).children, x.KeepsValues) (hv : (document d).simplify.Matches v) :
    (document d).Matches v := by
  have hhere : (document d).PlainHere := hplain.here
  rw [simplify_document] at hv
  cases hv with
  | @document _ fields required declared closed =>
      apply Matches.document
      · intro field hfield
        apply required field
        rw [requires_redeclare]
        refine ⟨hfield, fun x hx => ?_⟩
        have hmem := Document.mem_of_key? hx
        by_contra hkeeps
        have hnot : d.requires field = false := by
          rcases (canonical_simplify x).keepsRequired_eq_false (Bool.eq_false_iff.2 hkeeps) with
            hkind | ⟨hkind, hmissing⟩
          · exact ((hhere.2 _ hmem).1 hkind).2
          · exact (hhere.2 _ hmem).2 hkind hmissing
        rw [hfield] at hnot
        cases hnot
      · intro field w x hw hx
        have hmem := Document.mem_of_key? hx
        cases hy : x.simplify.declaredPresent with
        | some y =>
            have hyw := declared field w y hw (key?_redeclare hx hy)
            apply (h x (List.mem_map_of_mem hmem)).added (hplain.inside (List.mem_map_of_mem hmem))
            exact ((canonical_simplify x).declaredPresent_matches hy).1 hyw
        | none =>
            -- the canonical form is closed and says nothing of the field
            have habsent := (canonical_simplify x).declaredPresent_eq_none hy
            obtain ⟨hclosed, hrequires⟩ := (hhere.2 _ hmem).1 habsent
            have hmentions := closed hclosed field w hw
            rw [Document.mentions, Document.hasKey, hhere.key?_redeclare_eq_none hx hy] at hmentions
            have hrequires' := (requires_redeclare.1 hmentions).1
            rw [hrequires] at hrequires'
            cases hrequires'
      · intro hopen field w hw
        have hmentions := closed hopen field w hw
        rw [Document.mentions, Bool.or_eq_true] at hmentions ⊢
        exact hmentions.imp hasKey_of_redeclare fun hrequires => (requires_redeclare.1 hrequires).1

end Documents

/-! ## Every schema -/

private theorem keepsValues_array {x : Schema} (h : x.KeepsValues) : (array x).KeepsValues where
  kept v hv := by
    cases hv with
    | array hitems => exact .array fun w hw => h.kept _ (hitems w hw)
  added hplain v hv := by
    have hx := (Everywhere.array_iff.1 hplain).2
    cases hv with
    | array hitems => exact .array fun w hw => h.added hx _ (hitems w hw)

theorem keepsValues_of_leaves (hsole : s.SoleDocumentHere) (h : ∀ y ∈ s.leaves, y.KeepsValues) :
    s.KeepsValues where
  kept v hv := by
    obtain ⟨y, hy, hyv⟩ := matches_iff_leaf.1 hv
    exact (simplify_matches_iff_leaf hsole).2 ⟨y, hy, (h y hy).kept v hyv⟩
  added hplain v hv := by
    obtain ⟨y, hy, hyv⟩ := (simplify_matches_iff_leaf hsole).1 hv
    exact matches_iff_leaf.2 ⟨y, hy, (h y hy).added (hplain.of_mem_leaves hy) v hyv⟩

private theorem keepsValues_leaves (hsole : s.Everywhere SoleDocumentHere) :
    ∀ y ∈ s.leaves, y.KeepsValues := by
  induction s using induction_children with
  | step s ih =>
      intro y hy
      have hchild (x : Schema) (hx : x ∈ s.children) : x.KeepsValues :=
        keepsValues_of_leaves (hsole.inside hx).here (ih x hx (hsole.inside hx))
      cases s with
      | unsat => cases hy
      | anyOf bs =>
          rw [leaves_anyOf, List.mem_flatMap] at hy
          obtain ⟨b, hb, hy⟩ := hy
          exact ih b hb (hsole.inside hb) y hy
      | array x =>
          rw [List.mem_singleton.1 hy]
          exact keepsValues_array (hchild x (List.mem_singleton_self x))
      | document d =>
          rw [List.mem_singleton.1 hy]
          exact ⟨fun v hv => document_simplify_matches hchild hv,
            fun hplain v hv => PlainHere.matches_of_simplify hplain hchild hv⟩
      | _ =>
          rw [List.mem_singleton.1 hy]
          exact ⟨fun v hv => hv, fun _ v hv => hv⟩

/-- Where no documents are merged, the values of a schema are values of its canonical form, and
the other way round if documents are plain about absence. -/
theorem simplify_matches_of_sole_document (hsole : s.Everywhere SoleDocumentHere) :
    (∀ v, s.Matches v → s.simplify.Matches v) ∧
      (s.Everywhere PlainHere → ∀ v, s.simplify.Matches v → s.Matches v) := by
  have hkeeps : s.KeepsValues := keepsValues_of_leaves hsole.here (keepsValues_leaves hsole)
  exact ⟨hkeeps.kept, hkeeps.added⟩

/-- A nested disjunction whose record has a field that is never there and one that may be absent. -/
theorem simplify_matches_of_sole_document_nested :
    let d : Document := .ofFields
      [("gone", .anyOf [.missing]), ("id", .anyOf [.atomic .string, .anyOf [.atomic .int]]),
        ("note", .anyOf [.missing, .atomic .string])] ["id"] false
    let s : Schema := .anyOf [.anyOf [.unsat, .atomic .int], .document d]
    s.Everywhere SoleDocumentHere ∧ s.Everywhere PlainHere ∧
      s.Matches (some (.document [("id", .int32 7)])) ∧
        ∀ v, s.Matches v ↔ s.simplify.Matches v := by
  intro d s
  have hsole : s.Everywhere SoleDocumentHere := by decide +kernel
  have hplain : s.Everywhere PlainHere := by decide +kernel
  have hv : s.Matches (some (.document [("id", .int32 7)])) := by
    apply Matches.anyOf (List.mem_cons_of_mem _ List.mem_cons_self)
    apply document_matches_of_entries
    · decide
    · rw [List.forall_mem_singleton]
      rintro _ ⟨⟩
      apply Matches.anyOf (List.mem_cons_of_mem _ List.mem_cons_self)
      exact .anyOf List.mem_cons_self (.atomic rfl)
    · decide +kernel
  obtain ⟨hkept, hadded⟩ := simplify_matches_of_sole_document hsole
  exact ⟨hsole, hplain, hv, fun v => ⟨hkept v, hadded hplain v⟩⟩

end Schema

end DocShape
