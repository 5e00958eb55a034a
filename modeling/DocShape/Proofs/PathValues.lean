import DocShape.Schema.FieldPaths
import DocShape.Proofs.SimplifiedValues
import DocShape.Proofs.UpperBound

/-!
# Values along a path

`MatchesAlong` keeps of a value's match what concerns one path.  That much survives
containment, and it survives simplification too, although merged documents lose
values: what is lost are values that lack a field which only some of the documents
require.
-/

namespace DocShape

open Bson (Value Fields)

namespace Document

variable {d o c : Document} {rest : List Document} {field : String} {t x : Schema}

/-! ## Fields of document types -/

theorem FitsIn.fieldSchema_within (h : d.FitsIn o) (field : String) :
    (d.fieldSchema field).Within (o.fieldSchema field) := by
  cases hkey : o.hasKey field with
  | true => exact h.declared field hkey
  | false =>
      rw [fieldSchema_of_not_hasKey hkey]
      cases hfree : o.requires field || o.isOpen with
      | true => exact Schema.within_any _
      | false =>
          rw [Bool.or_eq_false_iff] at hfree
          refine h.fieldSchema_within_missing hfree.2 ?_
          rw [mentions, hkey, hfree.1]
          rfl

/-- What a field can hold is within what any wider reading of the field says. -/
theorem allowed_within (h : (d.fieldSchema field).Within t)
    (hx : d.allowed? field = some x) : x.Within t := by
  cases hdeclared : d.declared? field with
  | some z =>
      rw [allowed?_of_declared hdeclared] at hx
      cases hx
      exact (declared_within h hdeclared).1
  | none =>
      have hmentions := declared?_eq_none.1 hdeclared
      rw [allowed?_of_not_mentions hmentions] at hx
      rw [fieldSchema_of_not_mentions hmentions] at h
      cases hopen : d.isOpen with
      | true =>
          rw [hopen] at hx h
          cases hx
          exact h
      | false =>
          rw [hopen] at hx
          cases hx

theorem allowed?_of_key?_eq_none (h : d.key? field = none) :
    d.allowed? field = if d.requires field || d.isOpen then some .any else none := by
  rw [allowed?, declared?, h]
  cases d.requires field <;> rfl

/-! ## Merged documents -/

theorem canonical_allowed (hd : (Schema.document d).Canonical) (hx : d.allowed? field = some x) :
    x.Canonical := by
  rcases allowed?_cases hx with hdeclared | rfl
  · exact (hd.declared hdeclared).2
  · exact Schema.canonical_any

/-- What a field can hold on one side is within what it can hold in the merge. -/
theorem allowed_within_mergeWith (hd : (Schema.document d).Canonical)
    (ho : (Schema.document o).Canonical) (hc : c = d ∨ c = o) (hx : c.allowed? field = some x) :
    ∃ z, (d.mergeWith Schema.join o).allowed? field = some z ∧ x.Within z := by
  rw [(fuses_mergeWith Schema.join d o).allowed? rfl rfl
    (fun s _ => Schema.joinLaws_join.join_any s) fun s _ => Schema.joinLaws_join.any_join s]
  rcases hc with rfl | rfl
  · have hxc := canonical_allowed hd hx
    rw [hx]
    cases hy : o.allowed? field with
    | none => exact ⟨x, rfl, hxc.within_self⟩
    | some y => exact ⟨x.join y, rfl, Schema.widens_join.left hxc (canonical_allowed ho hy)⟩
  · have hxc := canonical_allowed ho hx
    rw [hx]
    cases hy : d.allowed? field with
    | none => exact ⟨x, rfl, hxc.within_self⟩
    | some y => exact ⟨y.join x, rfl, Schema.widens_join.right (canonical_allowed hd hy) hxc⟩

theorem allowed_within_foldl (hd : (Schema.document d).Canonical)
    (hrest : ∀ o ∈ rest, (Schema.document o).Canonical) (hc : c ∈ d :: rest)
    (hx : c.allowed? field = some x) :
    ∃ z, (rest.foldl (mergeWith Schema.join) d).allowed? field = some z ∧ x.Within z := by
  induction rest generalizing d c x with
  | nil =>
      rw [List.mem_singleton.1 hc] at hx
      exact ⟨x, hx, (canonical_allowed hd hx).within_self⟩
  | cons o rest ih =>
      obtain ⟨ho, hrest⟩ := List.forall_mem_cons.1 hrest
      have hnext := Schema.keepsCanonical_join.mergeWith hd ho
      rw [List.mem_cons, List.mem_cons, ← or_assoc] at hc
      rcases hc with hc | hc
      · obtain ⟨y, hy, hxy⟩ := allowed_within_mergeWith hd ho hc hx
        obtain ⟨z, hz, hyz⟩ := ih hnext hrest List.mem_cons_self hy
        exact ⟨z, hz, hxy.trans hyz (canonical_allowed hnext hy)⟩
      · exact ih hnext hrest (List.mem_cons_of_mem _ hc) hx

/-- A field is required in the merge only if one of the documents requires it. -/
theorem exists_requires_of_foldl
    (h : (rest.foldl (mergeWith Schema.join) d).requires field = true) :
    ∃ o ∈ d :: rest, o.requires field = true := by
  induction rest generalizing d with
  | nil => exact ⟨d, List.mem_singleton_self d, h⟩
  | cons o rest ih =>
      obtain ⟨c, hc, hrequires⟩ := ih h
      rcases List.mem_cons.1 hc with rfl | hc
      · rw [(fuses_mergeWith Schema.join d o).requires, Bool.or_eq_true] at hrequires
        rcases hrequires with hd | ho
        · exact ⟨d, List.mem_cons_self, hd⟩
        · exact ⟨o, List.mem_cons_of_mem _ List.mem_cons_self, ho⟩
      · exact ⟨c, List.mem_cons_of_mem _ (List.mem_cons_of_mem _ hc), hrequires⟩

end Document

namespace Schema

variable {s t x y : Schema} {strict : Bool} {p rest : FieldPath} {field : String} {v : Value}
  {fields : Fields} {d : Document}

/-! ## Values along a path -/

/-- The value matches the schema as far as the path shows.  Unless the reading is strict,
fields that are required may be absent. -/
inductive MatchesAlong (strict : Bool) : FieldPath → Schema → Value → Prop where
  | any {p : FieldPath} {v : Value} : MatchesAlong strict p .any v
  | kind {p : FieldPath} {s : Schema} {v : Value} (same : s.kind = branchKind (some v))
      (last : s.kind = .document → p = []) : MatchesAlong strict p s v
  | field {d : Document} {fields : Fields} {field : String} {rest : FieldPath}
      (required : strict = true → d.requires field = true → ∃ w, (field, w) ∈ fields)
      (allowed : ∀ w, (field, w) ∈ fields → ∃ x, d.allowed? field = some x)
      (below : ∀ w x, (field, w) ∈ fields → d.allowed? field = some x →
        MatchesAlong strict rest x w) :
      MatchesAlong strict (field :: rest) (.document d) (.document fields)
  | anyOf {p : FieldPath} {bs : List Schema} {b : Schema} {v : Value} (mem : b ∈ bs)
      (branch : MatchesAlong strict p b v) : MatchesAlong strict p (.anyOf bs) v

theorem MatchesAlong.of_allowed
    (required : strict = true → d.requires field = true → ∃ w, (field, w) ∈ fields)
    (allowed : ∀ w, (field, w) ∈ fields →
      ∃ x, d.allowed? field = some x ∧ MatchesAlong strict rest x w) :
    MatchesAlong strict (field :: rest) (.document d) (.document fields) := by
  refine .field required (fun w hw => ?_) fun w x hw hx => ?_
  · obtain ⟨x, hx, -⟩ := allowed w hw
    exact ⟨x, hx⟩
  · obtain ⟨_, hx', hxw⟩ := allowed w hw
    cases hx.symm.trans hx'
    exact hxw

theorem isBranch_of_kind_eq_branchKind (h : s.kind = branchKind (some v)) : s.IsBranch := by
  rw [IsBranch, h]
  cases v <;> simp [branchKind]

theorem matchesAlong_iff_leaf :
    MatchesAlong strict p s v ↔ ∃ y ∈ s.leaves, MatchesAlong strict p y v := by
  constructor
  · intro h
    induction h with
    | any => exact ⟨.any, List.mem_singleton_self _, .any⟩
    | @kind p s v same last =>
        have hs := isBranch_of_kind_eq_branchKind same
        have hleaf : s.IsLeaf := ⟨hs.1, hs.2.2⟩
        exact ⟨s, hleaf.mem_leaves, .kind same last⟩
    | field required allowed below =>
        exact ⟨_, List.mem_singleton_self _, .field required allowed below⟩
    | anyOf mem _ ih =>
        obtain ⟨y, hy, hyv⟩ := ih
        exact ⟨y, mem_leaves_anyOf mem hy, hyv⟩
  · rintro ⟨y, hy, hyv⟩
    induction s, hy using leaf_induction with
    | leaf => exact hyv
    | branch bs b hb _ _ ih => exact .anyOf hb ih

theorem MatchesAlong.not_absent (h : MatchesAlong strict p s v) : s.absence ≠ .must := by
  induction h with
  | any => simp [absence]
  | kind same _ =>
      have hs := isBranch_of_kind_eq_branchKind same
      rw [hs.absence]
      split
      · rename_i v _ hmissing
        rw [isMissing_iff.1 hmissing] at same
        cases v <;> cases same
      · simp
  | field => simp [absence]
  | anyOf mem _ ih => exact fun hmust => ih (absence_anyOf_eq_must.1 hmust _ mem)

/-- A value matches along every path. -/
theorem Matches.along (h : s.Matches (some v)) : MatchesAlong strict p s v := by
  induction p generalizing s v with
  | nil =>
      obtain ⟨y, hy, hyv⟩ := matches_iff_leaf.1 h
      refine matchesAlong_iff_leaf.2 ⟨y, hy, ?_⟩
      by_cases hany : y.kind = .any
      · cases y <;> cases hany
        exact .any
      · have hleaf := isLeaf_of_mem_leaves hy
        exact .kind (hyv.kind_eq ⟨hleaf.1, hany, hleaf.2⟩) fun _ => rfl
  | cons field rest ih =>
      obtain ⟨y, hy, hyv⟩ := matches_iff_leaf.1 h
      refine matchesAlong_iff_leaf.2 ⟨y, hy, ?_⟩
      have hleaf := isLeaf_of_mem_leaves hy
      cases hyv with
      | any => exact .any
      | anyOf => exact absurd rfl hleaf.2
      | atomic kind =>
          exact .kind (Matches.kind_eq (.atomic kind) (isBranch_atomic _)) fun h => by cases h
      | array => exact .kind rfl fun h => by cases h
      | @document d fields required declared closed =>
          refine .of_allowed (fun _ => required field) fun w hw => ?_
          cases hkey : d.key? field with
          | some x =>
              have hx := Document.allowed?_of_declared (Document.declared?_of_key? hkey)
              exact ⟨x, hx, ih (declared field w x hw hkey)⟩
          | none =>
              refine ⟨.any, ?_, .any⟩
              rw [Document.allowed?_of_key?_eq_none hkey, if_pos]
              by_contra hfree
              rw [Bool.not_eq_true, Bool.or_eq_false_iff] at hfree
              have hmentions := closed hfree.2 field w hw
              rw [Document.mentions, Document.hasKey, hkey, hfree.1] at hmentions
              cases hmentions

/-! ## Wider schemas -/

/-- Absence does not count for a value that is there. -/
theorem MatchesAlong.of_orMissing (h : MatchesAlong strict p s.orMissing v) :
    MatchesAlong strict p s v := by
  have hbranches {cs : List Schema} (hcs : MatchesAlong strict p (ofBranches cs) v) :
      ∃ b ∈ cs, b ≠ .missing ∧ MatchesAlong strict p b v := by
    cases hcs with
    | kind same => cases v <;> cases same
    | @anyOf _ _ b _ mem branch =>
        refine ⟨b, mem_of_mem_sortBranches mem, ?_, branch⟩
        rintro rfl
        exact branch.not_absent rfl
  cases s with
  | any => exact .any
  | missing => exact h
  | anyOf bs =>
      obtain ⟨b, hb, hmissing, hbv⟩ := hbranches h
      rcases List.mem_append.1 hb with hb | hb
      · exact .anyOf hb hbv
      · exact absurd (List.mem_singleton.1 hb) hmissing
  | _ =>
      obtain ⟨b, hb, hmissing, hbv⟩ := hbranches h
      rcases List.mem_cons.1 hb with rfl | hb
      · exact hbv
      · exact absurd (List.mem_singleton.1 hb) hmissing

theorem MatchesAlong.of_fieldSchema (h : MatchesAlong strict p (d.fieldSchema field) v) :
    ∃ x, d.allowed? field = some x ∧ MatchesAlong strict p x v := by
  rw [Document.fieldSchema] at h
  cases hkey : d.key? field with
  | some x =>
      refine ⟨x, Document.allowed?_of_declared (Document.declared?_of_key? hkey), ?_⟩
      rw [hkey] at h
      dsimp only at h
      split at h
      · exact h
      · exact h.of_orMissing
  | none =>
      rw [hkey] at h
      dsimp only at h
      rw [Document.allowed?_of_key?_eq_none hkey]
      split at h
      · rename_i hfree
        exact ⟨.any, if_pos hfree, .any⟩
      · exact absurd rfl h.not_absent

theorem Within.exists_leaf (h : y.Within t) (hy : y.IsBranch) : ∃ z ∈ t.leaves, y.Within z := by
  induction t using induction_children with
  | step t ih =>
      rcases t.isLeaf_or with hleaf | rfl | ⟨bs, rfl⟩
      · exact ⟨t, hleaf.mem_leaves, h⟩
      · exact absurd h hy.not_within_unsat
      · obtain ⟨b, hb, hyb⟩ := (within_anyOf_iff hy).1 h
        obtain ⟨z, hz, hyz⟩ := ih b hb hyb
        exact ⟨z, mem_leaves_anyOf hb hz, hyz⟩

/-- A branch is within `any` or within a leaf of its own variant. -/
theorem Within.leaf_cases (h : y.Within t) (hy : y.IsBranch) :
    .any ∈ t.leaves ∨ ∃ z ∈ t.leaves, y.Within z ∧ y.kind = z.kind := by
  obtain ⟨z, hz, hyz⟩ := h.exists_leaf hy
  have hleaf := isLeaf_of_mem_leaves hz
  by_cases hany : z.kind = .any
  · cases z <;> cases hany
    exact Or.inl hz
  · exact Or.inr ⟨z, hz, hyz, hyz.kind_eq hy ⟨hleaf.1, hany, hleaf.2⟩⟩

theorem MatchesAlong.mono (hv : MatchesAlong strict p s v) (h : s.Within t) :
    MatchesAlong strict p t v := by
  induction hv generalizing t with
  | any =>
      rw [any_within_iff.1 h]
      exact .any
  | kind same last =>
      rw [matchesAlong_iff_leaf]
      rcases h.leaf_cases (isBranch_of_kind_eq_branchKind same) with hany | ⟨z, hz, -, hkind⟩
      · exact ⟨.any, hany, .any⟩
      · exact ⟨z, hz, .kind (hkind ▸ same) (hkind ▸ last)⟩
  | anyOf mem _ ih => exact ih (anyOf_within_iff.1 h _ mem)
  | @field d fields field rest required allowed below ih =>
      rw [matchesAlong_iff_leaf]
      rcases h.leaf_cases (isBranch_document d) with hany | ⟨z, hz, hwithin, hkind⟩
      · exact ⟨.any, hany, .any⟩
      obtain ⟨o, rfl⟩ := kind_eq_document hkind.symm
      have hfits := document_within_iff.1 hwithin
      refine ⟨_, hz, .of_allowed (fun hstrict hrequires => ?_) fun w hw => ?_⟩
      · exact required hstrict (hfits.requires field hrequires)
      · obtain ⟨x, hx⟩ := allowed w hw
        have hxo := Document.allowed_within (hfits.fieldSchema_within field) hx
        exact (ih w x hw hx hxo).of_fieldSchema

/-! ## Simplification -/

/-- The documents that share a place on the path agree on requiring the field that follows. -/
def RequiresAlike : FieldPath → Schema → Prop
  | [], _ => True
  | field :: rest, s =>
      (∀ d ∈ documents s.leaves, ∀ o ∈ documents s.leaves, d.requires field = o.requires field) ∧
        ∀ d ∈ documents s.leaves, ∀ x ∈ d.key? field, RequiresAlike rest x

instance decidableRequiresAlike : (p : FieldPath) → (s : Schema) → Decidable (s.RequiresAlike p)
  | [], _ => .isTrue trivial
  | field :: rest, s =>
      have := decidableRequiresAlike rest
      inferInstanceAs (Decidable
        ((∀ d ∈ documents s.leaves, ∀ o ∈ documents s.leaves,
          d.requires field = o.requires field) ∧
        ∀ d ∈ documents s.leaves, ∀ x ∈ d.key? field, RequiresAlike rest x))

/-- Below the first field, documents agree on what they require along the path. -/
def RequiresAlikeBelow : FieldPath → Schema → Prop
  | [], _ => True
  | field :: rest, s => ∀ d ∈ documents s.leaves, ∀ x ∈ d.key? field, x.RequiresAlike rest

instance (p : FieldPath) (s : Schema) : Decidable (s.RequiresAlikeBelow p) :=
  match p with
  | [] => .isTrue trivial
  | _ :: _ => inferInstanceAs (Decidable (∀ d ∈ _, ∀ x ∈ _, _))

theorem MatchesAlong.exists_declaredPresent (h : MatchesAlong strict p s v) (hs : s.Canonical) :
    ∃ y, s.declaredPresent = some y ∧ MatchesAlong strict p y v := by
  have habsence := h.not_absent
  rw [Schema.declaredPresent]
  by_cases hany : s.isAny = true
  · exact ⟨s, if_pos hany, h⟩
  rw [if_neg hany]
  cases hverdict : s.absence with
  | must => exact absurd hverdict habsence
  | never => exact ⟨s, rfl, h⟩
  | may =>
      refine ⟨s.present, rfl, ?_⟩
      cases h with
      | any => exact absurd rfl hany
      | kind same last =>
          rw [(isBranch_of_kind_eq_branchKind same).absence] at hverdict
          split at hverdict <;> cases hverdict
      | field => cases hverdict
      | @anyOf _ bs b _ mem branch =>
          have hbs := hs.collapsible
          have hkept : b ∈ bs.filter fun b => !b.isMissing := by
            refine List.mem_filter.2 ⟨mem, ?_⟩
            rw [Bool.not_eq_true', Bool.eq_false_iff, ne_eq, isMissing_iff]
            rintro rfl
            exact branch.not_absent rfl
          rw [Schema.present, subtract, subtractBranches_isMissing hbs.branch]
          exact branch.mono ((hbs.filter _).within_collapse hkept)

/-- A document stays matched when its fields are simplified. -/
theorem MatchesAlong.redeclare
    (hv : MatchesAlong strict (field :: rest) (.document d) (.document fields))
    (hbelow : ∀ x ∈ d.key? field, ∀ w, MatchesAlong strict rest x w →
      MatchesAlong strict rest x.simplify w) :
    MatchesAlong strict (field :: rest) (document d).simplify (.document fields) := by
  rw [simplify_document]
  cases hv with
  | kind _ last => cases last rfl
  | field required allowed below =>
      refine .of_allowed (fun hstrict hrequires => ?_) fun w hw => ?_
      · exact required hstrict (requires_redeclare.1 hrequires).1
      obtain ⟨x, hx⟩ := allowed w hw
      have hxw := below w x hw hx
      cases hkey : d.key? field with
      | some z =>
          rw [Document.allowed?_of_declared (Document.declared?_of_key? hkey)] at hx
          cases hx
          obtain ⟨y, hy, hyw⟩ := (hbelow x hkey w hxw).exists_declaredPresent (canonical_simplify x)
          have hkey' := Document.declared?_of_key? (key?_redeclare hkey hy)
          exact ⟨y, Document.allowed?_of_declared hkey', hyw⟩
      | none =>
          have hkey' : (d.redeclare (simplifyKeys d.keys)).key? field = none := by
            rw [← Option.not_isSome_iff_eq_none]
            intro hsome
            have hdkey := hasKey_of_redeclare hsome
            rw [Document.hasKey, hkey] at hdkey
            cases hdkey
          have hrequires : (d.redeclare (simplifyKeys d.keys)).requires field =
              d.requires field := by
            rw [Bool.eq_iff_iff, requires_redeclare, hkey]
            simp
          refine ⟨.any, ?_, .any⟩
          rw [Document.allowed?_of_key?_eq_none hkey] at hx
          rw [Document.allowed?_of_key?_eq_none hkey', hrequires]
          split at hx
          · rename_i hfree
            exact if_pos hfree
          · cases hx

/-- A document stays matched when it is merged with others, if what they require is there. -/
theorem MatchesAlong.mergeDocuments {ds : List Document} {e : Document}
    (hv : MatchesAlong strict (field :: rest) (.document d) (.document fields)) (hd : d ∈ ds)
    (hds : ∀ c ∈ ds, (document c).Canonical) (he : Schema.mergeDocuments join ds = some e)
    (hrequired : strict = true → ∀ c ∈ ds, c.requires field = true → ∃ w, (field, w) ∈ fields) :
    MatchesAlong strict (field :: rest) (.document e) (.document fields) := by
  cases hv with
  | kind _ last => cases last rfl
  | field _ allowed below =>
      cases ds with
      | nil => cases he
      | cons c cs =>
          cases he
          obtain ⟨hc, hcs⟩ := List.forall_mem_cons.1 hds
          refine .of_allowed (fun hstrict hrequires => ?_) fun w hw => ?_
          · obtain ⟨o, ho, horequires⟩ := Document.exists_requires_of_foldl hrequires
            exact hrequired hstrict o ho horequires
          · obtain ⟨x, hx⟩ := allowed w hw
            obtain ⟨z, hz, hxz⟩ := Document.allowed_within_foldl hc hcs hd hx
            exact ⟨z, hz, (below w x hw hx).mono hxz⟩

private theorem exists_mergeDocuments {ds : List Document} (hd : d ∈ ds) :
    ∃ e, Schema.mergeDocuments join ds = some e := by
  cases ds with
  | nil => cases hd
  | cons c cs => exact ⟨_, rfl⟩

theorem exists_document_of_simplified {e : Document}
    (h : e ∈ documents (s.leaves.map Schema.simplify)) :
    ∃ d ∈ documents s.leaves, document e = (document d).simplify := by
  obtain ⟨y, hy, hye⟩ := List.mem_map.1 (mem_documents.1 h)
  have hkind := kind_simplify (isLeaf_of_mem_leaves hy).2
  rw [hye] at hkind
  obtain ⟨d, rfl⟩ := kind_eq_document hkind.symm
  exact ⟨d, mem_documents.2 hy, hye.symm⟩

/-- A part of the canonical form that is matched suffices. -/
theorem MatchesAlong.of_gathered {b : Schema} (hbv : MatchesAlong strict p b v)
    (hany : .any ∉ s.leaves) (hb : b ∈ gathered (s.leaves.map Schema.simplify)) :
    MatchesAlong strict p s.simplify v := by
  have hleaf : ∀ y ∈ s.leaves, y.IsLeaf := fun _ => isLeaf_of_mem_leaves
  have hany' : .any ∉ s.leaves.map Schema.simplify :=
    fun h => hany ((any_mem_map_simplify hleaf).1 h)
  have hcollapsible : Collapsible (gathered (s.leaves.map Schema.simplify)) := by
    refine collapsible_gathered (List.forall_mem_map.2 fun y _ => canonical_simplify y)
      (List.forall_mem_map.2 fun y hy => ?_) hany'
    rw [kind_simplify (hleaf y hy).2]
    exact (hleaf y hy).2
  rw [simplify_eq_assemble, assemble_of_notMem hany']
  exact hbv.mono (hcollapsible.within_collapse hb)

theorem MatchesAlong.simplify_of_kind_ne (hyv : MatchesAlong strict p y v) (hy : y ∈ s.leaves)
    (hany : .any ∉ s.leaves) (hkind : y.kind ≠ .document) : MatchesAlong strict p s.simplify v := by
  have hleaf := isLeaf_of_mem_leaves hy
  cases hyv with
  | any => exact absurd hy hany
  | field => exact absurd rfl hkind
  | anyOf => exact absurd rfl hleaf.2
  | kind same last =>
      have hsame := kind_simplify hleaf.2
      refine MatchesAlong.of_gathered (.kind (hsame.trans same) (hsame ▸ last)) hany ?_
      refine mem_gathered.2 (.inl ⟨List.mem_map_of_mem hy, ?_⟩)
      rw [hsame]
      exact ⟨hkind, hleaf.1⟩

/-- One step down the path: a schema keeps its values if the schemas of the next field do. -/
theorem MatchesAlong.simplify_step (hv : MatchesAlong strict p s v)
    (halike : strict = true → s.RequiresAlike p)
    (hbelow : ∀ field rest, p = field :: rest → ∀ x w, MatchesAlong strict rest x w →
      (strict = true → x.RequiresAlike rest) → MatchesAlong strict rest x.simplify w) :
    MatchesAlong strict p s.simplify v := by
  obtain ⟨y, hy, hyv⟩ := matchesAlong_iff_leaf.1 hv
  by_cases hany : .any ∈ s.leaves
  · rw [simplify_eq_assemble, assemble_of_mem (List.mem_map.2 ⟨.any, hany, rfl⟩)]
    exact .any
  by_cases hkind : y.kind = .document
  · obtain ⟨d, rfl⟩ := kind_eq_document hkind
    have hmem : d.redeclare (simplifyKeys d.keys) ∈ documents (s.leaves.map Schema.simplify) := by
      rw [mem_documents, ← simplify_document]
      exact List.mem_map_of_mem hy
    obtain ⟨e, he⟩ := exists_mergeDocuments hmem
    refine MatchesAlong.of_gathered ?_ hany (mem_gathered.2 (.inr ⟨e, he, rfl⟩))
    cases hyv with
    | kind same last => exact .kind same last
    | @field _ fields field rest required allowed below =>
        have hsimplified : MatchesAlong strict (field :: rest)
            (.document (d.redeclare (simplifyKeys d.keys))) (.document fields) := by
          rw [← simplify_document]
          refine MatchesAlong.redeclare (.field required allowed below) fun x hx w hxw => ?_
          refine hbelow field rest rfl x w hxw fun hstrict => ?_
          exact (halike hstrict).2 d (mem_documents.2 hy) x hx
        refine hsimplified.mergeDocuments hmem (fun c hc => ?_) he fun hstrict c hc hrequires => ?_
        · obtain ⟨o, -, ho⟩ := exists_document_of_simplified hc
          rw [ho]
          exact canonical_simplify _
        · -- what the merged type requires, one of the documents required, and so they all did
          obtain ⟨o, ho, hoc⟩ := exists_document_of_simplified hc
          rw [simplify_document, document.injEq] at hoc
          rw [hoc] at hrequires
          have hagree := (halike hstrict).1 d (mem_documents.2 hy) o ho
          exact required hstrict (hagree.trans (requires_redeclare.1 hrequires).1)
  · exact hyv.simplify_of_kind_ne hy hany hkind

/-- Simplification keeps values along a path, in the strict reading if the documents it merges
require alike. -/
theorem MatchesAlong.simplify (hv : MatchesAlong strict p s v)
    (halike : strict = true → s.RequiresAlike p) : MatchesAlong strict p s.simplify v := by
  induction p generalizing s v with
  | nil =>
      refine hv.simplify_step halike ?_
      rintro _ _ ⟨⟩
  | cons field rest ih =>
      refine hv.simplify_step halike ?_
      rintro _ _ ⟨⟩ x w hxw hx
      exact ih hxw hx

end Schema

end DocShape
