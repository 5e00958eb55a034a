import DocShape.Proofs.Closure
import DocShape.Proofs.Preorder
import DocShape.Proofs.Simplify

/-!
# Unions are least

Among canonical schemas without statistics, and with at most one array in each
disjunction, a union is within every schema that both of its arguments are
within.  The bound then has one branch for each branch that a join merges, so
the merged schemas meet in it.
-/

namespace DocShape

namespace Schema

/-! ## Regular schemas -/

/-- Documents have no statistics, and disjunctions at most one array. -/
def RegularHere : Schema → Prop
  | .document d => d.jaccard = none
  | .anyOf bs => (arrayItems bs).length ≤ 1
  | _ => True

instance : DecidablePred RegularHere
  | .document d => decidable_of_iff (d.jaccard.isNone = true) Option.isNone_iff_eq_none
  | .anyOf bs => inferInstanceAs (Decidable ((arrayItems bs).length ≤ 1))
  | .unsat | .missing | .atomic _ | .array _ | .any => .isTrue trivial

/-- A canonical schema without statistics, and with at most one array in each
disjunction. -/
structure Regular (s : Schema) : Prop where
  canonical : s.Canonical
  everywhere : s.Everywhere RegularHere

section Arrays

variable {bs : List Schema} {s t : Schema}

theorem arrayItems_append (as bs : List Schema) :
    arrayItems (as ++ bs) = arrayItems as ++ arrayItems bs :=
  List.filterMap_append

theorem arrayItems_eq_nil_of_kind (h : s.kind ≠ .array) : arrayItems [s] = [] := by
  cases s <;> first | rfl | exact absurd rfl h

theorem length_arrayItems_singleton_le (s : Schema) : (arrayItems [s]).length ≤ 1 :=
  List.length_filterMap_le _ [s]

theorem arrayItems_nonArrays (bs : List Schema) : arrayItems (nonArrays bs) = [] := by
  rw [List.eq_nil_iff_forall_not_mem]
  intro x hx
  exact (mem_nonArrays.1 (mem_arrayItems.1 hx)).2 rfl

private theorem length_arrayItems_inserted_le {join : Schema → Schema → Schema} {out : List Schema}
    (hbs : (arrayItems bs).length ≤ 1) (h : Inserted join bs s out) :
    (arrayItems out).length ≤ 1 := by
  cases h with
  | beside harray _ =>
      rw [arrayItems_append, List.length_append]
      by_cases hkind : s.kind = .array
      · have := length_arrayItems_singleton_le s
        simp only [harray hkind, List.length_nil]
        omega
      · simp only [arrayItems_eq_nil_of_kind hkind, List.length_nil]
        omega
  | intoArray _ | intoArrays _ =>
      rw [arrayItems_append, arrayItems_nonArrays, List.nil_append]
      exact length_arrayItems_singleton_le _
  | intoDocument _ =>
      have hkept : (arrayItems (nonDocuments bs)).length ≤ (arrayItems bs).length :=
        (List.filter_sublist.filterMap _).length_le
      rw [arrayItems_append, arrayItems_eq_nil_of_kind (fun h => by cases h), List.append_nil]
      exact Nat.le_trans hkept hbs

theorem length_arrayItems_pair_le (h : s.kind = t.kind → s.kind = .atomic) :
    (arrayItems [s, t]).length ≤ 1 := by
  have hsplit : arrayItems [s, t] = arrayItems [s] ++ arrayItems [t] := arrayItems_append [s] [t]
  rw [hsplit, List.length_append]
  by_cases hs : s.kind = .array
  · have ht : t.kind ≠ .array := by
      intro ht
      cases hs.symm.trans (h (hs.trans ht.symm))
    have := length_arrayItems_singleton_le s
    simp only [arrayItems_eq_nil_of_kind ht, List.length_nil]
    omega
  · have := length_arrayItems_singleton_le t
    simp only [arrayItems_eq_nil_of_kind hs, List.length_nil]
    omega

end Arrays

theorem joinClosed_regularHere : JoinClosed RegularHere where
  unsat := trivial
  any := trivial
  array _ := trivial
  document {join d o} hd ho := by
    show (d.unionWith join o).jaccard = none
    rw [Document.unionWith, show d.jaccard = none from hd, show o.jaccard = none from ho]
    rfl
  inserted := length_arrayItems_inserted_le
  sorted h := Nat.le_trans (length_filterMap_sortBranches_le _ _) h
  apart := length_arrayItems_pair_le

namespace Regular

variable {s : Schema}

theorem shallow (h : s.Regular) {n : Nat} (hnest : s.nest < n) : Shallow RegularHere n s :=
  ⟨h.canonical, h.everywhere, hnest⟩

theorem inside (h : s.Regular) {t : Schema} (ht : t ∈ s.children) : t.Regular :=
  ⟨h.canonical.inside ht, h.everywhere.inside ht⟩

theorem of_mem_branches (h : s.Regular) {b : Schema} (hb : b ∈ s.branches) : b.Regular := by
  cases s with
  | anyOf bs => exact h.inside hb
  | _ =>
      rw [List.mem_singleton.1 hb]
      exact h

/-- The branches of a variant that cannot stand twice are one. -/
theorem branch_unique (h : s.Regular) {k : Kind} (hk : k = .array ∨ k = .document) {b c : Schema}
    (hb : b ∈ s.branches) (hc : c ∈ s.branches) (hbk : b.kind = k) (hck : c.kind = k) : b = c := by
  have hunique {α : Type} {xs : List α} (hxs : xs.length ≤ 1) {x y : α} (hx : x ∈ xs)
      (hy : y ∈ xs) : x = y := by
    match xs, hxs with
    | [z], _ => rw [List.mem_singleton.1 hx, List.mem_singleton.1 hy]
  cases s with
  | anyOf bs =>
      rcases hk with rfl | rfl
      · obtain ⟨x, rfl⟩ := kind_eq_array hbk
        obtain ⟨y, rfl⟩ := kind_eq_array hck
        rw [hunique h.everywhere.here (mem_arrayItems.2 hb) (mem_arrayItems.2 hc)]
      · obtain ⟨d, rfl⟩ := kind_eq_document hbk
        obtain ⟨e, rfl⟩ := kind_eq_document hck
        have hone := (canonical_anyOf_iff.1 h.canonical).1.oneDocument
        rw [hunique hone (mem_documents.2 hb) (mem_documents.2 hc)]
  | _ => exact (List.mem_singleton.1 hb).trans (List.mem_singleton.1 hc).symm

theorem orMissing (h : s.Regular) (hdeclarable : s.Declarable) : s.orMissing.Regular := by
  have hmissing : missing.Everywhere RegularHere := .leaf trivial rfl
  have hbuilt {bs : List Schema} (hhere : RegularHere (.anyOf bs))
      (hbs : ∀ b ∈ bs, b.Everywhere RegularHere) : (ofBranches bs).Everywhere RegularHere :=
    Everywhere.anyOf_iff.2 ⟨joinClosed_regularHere.sorted hhere,
      fun b hb => hbs b (mem_of_mem_sortBranches hb)⟩
  have hpair : (ofBranches [s, .missing]).Everywhere RegularHere := by
    refine hbuilt (joinClosed_regularHere.apart fun hkind => ?_)
      (List.forall_mem_cons.2 ⟨h.everywhere, List.forall_mem_singleton.2 hmissing⟩)
    cases s <;> first | exact absurd rfl hdeclarable.ne_missing | cases hkind
  refine ⟨h.canonical.orMissing hdeclarable, ?_⟩
  cases s with
  | any => exact h.everywhere
  | missing => exact h.everywhere
  | anyOf bs =>
      obtain ⟨hhere, hbs⟩ := Everywhere.anyOf_iff.1 h.everywhere
      have hbeside : Inserted Schema.join bs .missing (bs ++ [.missing]) := .beside nofun nofun
      exact hbuilt (joinClosed_regularHere.inserted hhere hbeside)
        (List.forall_mem_append.2 ⟨hbs, List.forall_mem_singleton.2 hmissing⟩)
  | _ => exact hpair

theorem fieldSchema {d : Document} (h : (document d).Regular) (field : String) :
    (d.fieldSchema field).Regular := by
  cases hs : d.declared? field with
  | some s =>
      rw [Document.fieldSchema_of_declared hs]
      have hdeclarable := (h.canonical.declared hs).1
      have hregular : s.Regular := by
        rcases Document.declared?_cases hs with hkey | ⟨-, -, rfl⟩
        · exact h.inside (List.mem_map.2 ⟨_, Document.mem_of_key? hkey, rfl⟩)
        · exact ⟨canonical_any, .leaf trivial rfl⟩
      split
      · exact hregular
      · exact hregular.orMissing hdeclarable
  | none =>
      rw [Document.fieldSchema_of_not_mentions (Document.declared?_eq_none.1 hs)]
      split
      · exact ⟨canonical_any, .leaf trivial rfl⟩
      · exact ⟨canonical_missing, .leaf trivial rfl⟩

end Regular

/-! ## Meeting in a branch of the bound -/

section Meeting

variable {s z : Schema}

private theorem within_of_mem_branches (hs : s.IsBranch) {c : Schema} (hc : c ∈ z.branches)
    (h : s.Within c) : s.Within z := by
  cases z with
  | anyOf cs => exact (within_anyOf_iff hs).2 ⟨c, hc, h⟩
  | _ =>
      rw [List.mem_singleton.1 hc] at h
      exact h

theorem Within.exists_branch (h : s.Within z) (hs : s.IsBranch) (hz : z.Canonical) :
    z = .any ∨ ∃ c ∈ z.branches, s.Within c ∧ c.kind = s.kind := by
  rcases cases_shape z with rfl | rfl | ⟨cs, rfl⟩ | hbranch
  · exact absurd h hs.not_within_unsat
  · exact Or.inl rfl
  · obtain ⟨c, hc, hsc⟩ := (within_anyOf_iff hs).1 h
    have hcb := hz.collapsible.branch c hc
    exact Or.inr ⟨c, hc, hsc, (hsc.kind_eq hs hcb).symm⟩
  · refine Or.inr ⟨z, ?_, h, (h.kind_eq hs hbranch).symm⟩
    cases z with
    | anyOf cs => exact absurd rfl hbranch.2.2
    | _ => exact List.mem_singleton_self _

/-- Two arrays, or two documents, below a regular schema are below one branch of it,
so what is below every such branch is below the schema. -/
theorem merged_within {a b m : Schema} {k : Kind} (hk : k = .array ∨ k = .document)
    (ha : a.kind = k) (hb : b.kind = k) (hm : m.kind = k) (hz : z.Regular)
    (hmeet : ∀ c ∈ z.branches, a.Within c → b.Within c → c.kind = k → m.Within c)
    (haz : a.Within z) (hbz : b.Within z) : m.Within z := by
  have hbranch {s : Schema} (hs : s.kind = k) : s.IsBranch := by
    rcases hk with rfl | rfl
    · obtain ⟨x, rfl⟩ := kind_eq_array hs
      exact isBranch_array x
    · obtain ⟨d, rfl⟩ := kind_eq_document hs
      exact isBranch_document d
  rcases haz.exists_branch (hbranch ha) hz.canonical with rfl | ⟨c, hc, hac, hck⟩
  · exact within_any m
  · rcases hbz.exists_branch (hbranch hb) hz.canonical with rfl | ⟨c', hc', hbc, hck'⟩
    · exact within_any m
    · have heq := hz.branch_unique hk hc hc' (hck.trans ha) (hck'.trans hb)
      subst heq
      exact within_of_mem_branches (hbranch hm) hc (hmeet c hc hac hbc (hck.trans ha))

end Meeting

end Schema

/-! ## Document types -/

namespace Document

variable {join : Schema → Schema → Schema} {d o u e : Document} {field : String} {z : Schema}

/-- Optional fields add absence to what must be within the bound. -/
theorem declared_within (h : (d.fieldSchema field).Within z) {s : Schema}
    (hs : d.declared? field = some s) :
    s.Within z ∧ (d.requires field = false → Schema.missing.Within z) := by
  rw [fieldSchema_of_declared hs] at h
  cases hrequires : d.requires field with
  | true =>
      rw [hrequires] at h
      exact ⟨h, nofun⟩
  | false =>
      rw [hrequires] at h
      obtain ⟨hpresent, habsent⟩ := Schema.orMissing_within_iff.1 h
      exact ⟨hpresent, fun _ => habsent⟩

/-- A field of one side only, which the other side lets be anything or rules out. -/
theorem IsUnion.fieldSchema_within_of_left (h : IsUnion join u d o) {s : Schema}
    (hds : d.declared? field = some s) (hom : o.mentions field = false) (hs : s.Within z)
    (ho : (o.fieldSchema field).Within z) : (u.fieldSchema field).Within z := by
  rw [fieldSchema_of_not_mentions hom] at ho
  cases hopen : o.isOpen with
  | true =>
      rw [hopen, if_pos rfl, Schema.any_within_iff] at ho
      rw [ho]
      exact Schema.within_any _
  | false =>
      rw [hopen] at ho
      have hu : u.key? field = some s := by
        rw [h.key, unionKey_left hds hom, hopen]
        rfl
      have hrequires : u.requires field = false := by
        rw [Document.mentions, Bool.or_eq_false_iff] at hom
        rw [h.requires, hom.2, Bool.and_false]
      rw [fieldSchema_of_declared (declared?_of_key? hu), hrequires]
      exact Schema.orMissing_within_iff.2 ⟨hs, ho⟩

/-- A field of both sides, with the join of their schemas unless neither has one. -/
theorem IsUnion.fieldSchema_within_of_both (h : IsUnion join u d o) {s t : Schema}
    (hds : d.declared? field = some s) (hos : o.declared? field = some t)
    (hjoin : s.Within z → t.Within z → (join s t).Within z)
    (hd : (d.fieldSchema field).Within z) (ho : (o.fieldSchema field).Within z) :
    (u.fieldSchema field).Within z := by
  obtain ⟨hs, hdmissing⟩ := declared_within hd hds
  obtain ⟨ht, homissing⟩ := declared_within ho hos
  cases hkeys : d.hasKey field || o.hasKey field with
  | true =>
      have hu : u.key? field = some (join s t) := by
        rw [h.key, unionKey_both hds hos, hkeys]
        rfl
      rw [fieldSchema_of_declared (declared?_of_key? hu), h.requires]
      cases hrequires : d.requires field && o.requires field with
      | true => exact hjoin hs ht
      | false =>
          refine Schema.orMissing_within_iff.2 ⟨hjoin hs ht, ?_⟩
          rcases Bool.and_eq_false_iff.1 hrequires with hnot | hnot
          · exact hdmissing hnot
          · exact homissing hnot
  | false =>
      -- both require the field without a schema: it can be anything, before and after
      rw [Bool.or_eq_false_iff] at hkeys
      have hu : u.hasKey field = false := by
        rw [hasKey, h.key, unionKey_both hds hos, hkeys.1, hkeys.2]
        rfl
      have hum : u.mentions field = true := by
        rw [h.mentions, ← declared?_isSome, hds]
        rfl
      rw [Document.mentions, hu, Bool.false_or] at hum
      have hdr : d.requires field = true := by
        rw [h.requires, Bool.and_eq_true] at hum
        exact hum.1
      rw [fieldSchema_of_not_hasKey hkeys.1, hdr] at hd
      rw [fieldSchema_of_not_hasKey hu, hum]
      exact hd

/-- What a union says of a field is within every schema that both sides put it in. -/
theorem IsUnion.fieldSchema_within (h : IsUnion join u d o)
    (hjoin : ∀ s t, d.declared? field = some s → o.declared? field = some t →
      s.Within z → t.Within z → (join s t).Within z)
    (hd : (d.fieldSchema field).Within z) (ho : (o.fieldSchema field).Within z) :
    (u.fieldSchema field).Within z := by
  cases hds : d.declared? field with
  | some s =>
      cases hos : o.declared? field with
      | some t => exact h.fieldSchema_within_of_both hds hos (hjoin s t hds hos) hd ho
      | none =>
          exact h.fieldSchema_within_of_left hds (declared?_eq_none.1 hos)
            (declared_within hd hds).1 ho
  | none =>
      have hdm := declared?_eq_none.1 hds
      cases hos : o.declared? field with
      | some t => exact h.symm.fieldSchema_within_of_left hos hdm (declared_within ho hos).1 hd
      | none =>
          have hom := declared?_eq_none.1 hos
          have hum : u.mentions field = false := by
            rw [h.mentions, hdm, hom]
            rfl
          rw [fieldSchema_of_not_mentions hdm] at hd
          rw [fieldSchema_of_not_mentions hom] at ho
          rw [fieldSchema_of_not_mentions hum, h.isOpen]
          cases hopen : d.isOpen with
          | true =>
              rw [hopen] at hd
              exact hd
          | false => exact ho

/-- The union of two types that fit in a type fits in it, if the joins of their fields do. -/
theorem IsUnion.fits (h : IsUnion join u d o) (hd : d.FitsIn e) (ho : o.FitsIn e)
    (hdkeys : ∀ entry ∈ d.keys, entry.2.absence ≠ .must)
    (hokeys : ∀ entry ∈ o.keys, entry.2.absence ≠ .must)
    (hjoin : ∀ field s t, d.declared? field = some s → o.declared? field = some t →
      s.Within (e.fieldSchema field) → t.Within (e.fieldSchema field) →
      (join s t).Within (e.fieldSchema field)) : u.FitsIn e where
  closed hclosed := by
    have hdstays := hd.closed hclosed
    have hostays := ho.closed hclosed
    refine ⟨?_, fun field hfield => ?_, fun entry hmem => Or.inl ?_⟩
    · rw [h.isOpen, hdstays.isOpen, hostays.isOpen]
      rfl
    · rw [h.requires, Bool.and_eq_true] at hfield
      exact hdstays.required field hfield.1
    · have hmentions : u.mentions entry.1 = true := by
        rw [Document.mentions, hasKey_of_mem hmem, Bool.true_or]
      rw [h.mentions, Bool.or_eq_true] at hmentions
      rcases hmentions with hfield | hfield
      · exact hdstays.mentions hdkeys hfield
      · exact hostays.mentions hokeys hfield
  declared field hfield :=
    h.fieldSchema_within (hjoin field) (hd.declared field hfield) (ho.declared field hfield)
  requires field hfield := by
    rw [h.requires, hd.requires field hfield, ho.requires field hfield]
    rfl

end Document

namespace Schema

/-! ## Joins -/

section Steps

variable {join : Schema → Schema → Schema} {n : Nat} (hjoin : KeepsCanonical join)
  (hparts : ∀ {s t : Schema}, Shallow RegularHere n s → Shallow RegularHere n t →
    Shallow RegularHere n (join s t))
  (hleast : ∀ {s t z : Schema}, Shallow RegularHere n s → Shallow RegularHere n t → z.Regular →
    s.Within z → t.Within z → (join s t).Within z)

include hleast

theorem array_join_within {x y z : Schema} (hx : Shallow RegularHere (n + 1) (.array x))
    (hy : Shallow RegularHere (n + 1) (.array y)) (hz : z.Regular) (hxz : (array x).Within z)
    (hyz : (array y).Within z) : (array (join x y)).Within z := by
  refine merged_within (Or.inl rfl) rfl rfl rfl hz (fun c hc hxc hyc hkind => ?_) hxz hyz
  obtain ⟨w, rfl⟩ := kind_eq_array hkind
  have hw : w.Regular := (hz.of_mem_branches hc).inside (List.mem_singleton_self w)
  exact array_within_iff.2
    (hleast hx.item hy.item hw (array_within_iff.1 hxc) (array_within_iff.1 hyc))

theorem document_unionWith_within {d o : Document} {z : Schema}
    (hd : Shallow RegularHere (n + 1) (.document d))
    (ho : Shallow RegularHere (n + 1) (.document o)) (hz : z.Regular)
    (hdz : (document d).Within z) (hoz : (document o).Within z) :
    (document (d.unionWith join o)).Within z := by
  refine merged_within (Or.inr rfl) rfl rfl rfl hz (fun c hc hdc hoc hkind => ?_) hdz hoz
  obtain ⟨e, rfl⟩ := kind_eq_document hkind
  have hunion : Document.IsUnion join (d.unionWith join o) d o :=
    Document.unionWith_of_jaccard_none hd.everywhere.here ho.everywhere.here
  refine document_within_iff.2 (hunion.fits (document_within_iff.1 hdc) (document_within_iff.1 hoc)
    hd.canonical.keys_absence_ne_must ho.canonical.keys_absence_ne_must
    fun field s t hs ht => ?_)
  exact hleast (hd.declared joinClosed_regularHere hs) (ho.declared joinClosed_regularHere ht)
    ((hz.of_mem_branches hc).fieldSchema field)

private theorem inserted_within {bs out : List Schema} {s z : Schema}
    (hbs : ShallowBranches RegularHere (n + 1) bs) (hs : Shallow RegularHere (n + 1) s)
    (hz : z.Regular) (hbsz : ∀ b ∈ bs, b.Within z) (hsz : s.Within z) (h : Inserted join bs s out) :
    ∀ b ∈ out, b.Within z := by
  have hkept (keep : Schema → Bool) : ∀ b ∈ bs.filter keep, b.Within z :=
    fun b hb => hbsz b (List.mem_of_mem_filter hb)
  cases h with
  | beside _ _ => exact List.forall_mem_append.2 ⟨hbsz, List.forall_mem_singleton.2 hsz⟩
  | @intoArray x y hitems =>
      have hmem := mem_of_arrayItems_eq hitems
      refine List.forall_mem_append.2 ⟨hkept _, List.forall_mem_singleton.2 ?_⟩
      exact array_join_within hleast (hbs.each _ hmem) hs hz (hbsz _ hmem) hsz
  | @intoArrays y hitems =>
      have hone : (arrayItems bs).length ≤ 1 := hbs.holds
      omega
  | @intoDocument d e hdocuments =>
      have hmem := mem_of_documents_eq hdocuments
      refine List.forall_mem_append.2 ⟨hkept _, List.forall_mem_singleton.2 ?_⟩
      exact document_unionWith_within hleast (hbs.each _ hmem) hs hz (hbsz _ hmem) hsz

theorem insertBranch_within {bs : List Schema} {s z : Schema}
    (hbs : ShallowBranches RegularHere (n + 1) bs) (hs : Shallow RegularHere (n + 1) s)
    (hz : z.Regular) (hbsz : ∀ b ∈ bs, b.Within z) (hsz : s.Within z) :
    ∀ b ∈ insertBranch join bs s, b.Within z :=
  inserted_within hleast hbs hs hz hbsz hsz
    (insertBranch_inserted join s hbs.collapsible.oneDocument)

include hjoin hparts

private theorem foldl_insertBranch_within {ls rs : List Schema} {z : Schema} (hls : ∀ b ∈ ls, b.IsBranch)
    (hshallow : ∀ b ∈ ls, Shallow RegularHere (n + 1) b)
    (hrs : ShallowBranches RegularHere (n + 1) rs) (hz : z.Regular) (hlsz : ∀ b ∈ ls, b.Within z)
    (hrsz : ∀ b ∈ rs, b.Within z) : ∀ b ∈ ls.foldl (insertBranch join) rs, b.Within z := by
  induction ls generalizing rs with
  | nil => exact hrsz
  | cons l ls ih =>
      obtain ⟨hl, hls⟩ := List.forall_mem_cons.1 hls
      obtain ⟨hlshallow, hshallow⟩ := List.forall_mem_cons.1 hshallow
      obtain ⟨hlz, hlsz⟩ := List.forall_mem_cons.1 hlsz
      exact ih hls hshallow (hrs.insertBranch joinClosed_regularHere hjoin hparts hl hlshallow) hlsz
        (insertBranch_within hleast hrs hlshallow hz hrsz hlz)

theorem Joined.within_of_within {s t r z : Schema} (h : Joined join s t r)
    (hs : Shallow RegularHere (n + 1) s) (ht : Shallow RegularHere (n + 1) t) (hz : z.Regular)
    (hsz : s.Within z) (htz : t.Within z) : r.Within z := by
  cases h with
  | unsat => exact htz
  | any => exact htz
  | fold ls rs =>
      have hls := hs.branches
      exact collapse_within_iff.2 (foldl_insertBranch_within hjoin hparts hleast
        hls.collapsible.branch hls.each ht.branches hz (anyOf_within_iff.1 hsz)
        (anyOf_within_iff.1 htz))
  | insert hbranch rs =>
      exact collapse_within_iff.2
        (insertBranch_within hleast ht.branches hs hz (anyOf_within_iff.1 htz) hsz)
  | array x y => exact array_join_within hleast hs ht hz hsz htz
  | document d e => exact document_unionWith_within hleast hs ht hz hsz htz
  | same => exact hsz
  | apart =>
      exact anyOf_within_iff.2 (List.forall_mem_cons.2 ⟨hsz, List.forall_mem_singleton.2 htz⟩)

end Steps

private theorem joinWithin_within (level : Nat) {s t z : Schema} (hs : Shallow RegularHere level s)
    (ht : Shallow RegularHere level t) (hz : z.Regular) (hsz : s.Within z) (htz : t.Within z) :
    (joinWithin level s t).Within z := by
  induction level generalizing s t z with
  | zero => exact absurd hs.nest (Nat.not_lt_zero _)
  | succ level ih =>
      have hjoin := keepsCanonical_joinWithin level
      have hparts {s t : Schema} (hs : Shallow RegularHere level s)
          (ht : Shallow RegularHere level t) : Shallow RegularHere level (joinWithin level s t) :=
        shallow_joinWithin joinClosed_regularHere level hs ht
      rcases joinWithin_joined level s t with h | h
      · exact h.within_of_within hjoin hparts ih hs ht hz hsz htz
      · exact h.within_of_within hjoin hparts ih ht hs hz htz hsz

/-- A schema that contains two regular schemas, for sure, contains their union. -/
theorem union_satisfies_of_satisfies {s t z : Schema} (hs : s.Regular) (ht : t.Regular)
    (hz : z.Regular) (hsz : s.satisfies z = .must) (htz : t.satisfies z = .must) :
    (s.union t).satisfies z = .must := by
  rw [union, simplify_of_canonical hs.canonical, simplify_of_canonical ht.canonical]
  refine joinWithin_within _ (hs.shallow ?_) (ht.shallow ?_) hz hsz htz
  · omega
  · omega

/-- Two records that differ in the kind of their field and in whether they need it. -/
theorem union_satisfies_of_satisfies_records :
    (document (.ofFields [("id", .atomic .int)] ["id"] false)).satisfies
        (.document (.ofFields [("id", .anyOf [.atomic .int, .atomic .string])] [] true)) = .must ∧
      (document (.ofFields [("id", .atomic .string)] [] false)).satisfies
        (.document (.ofFields [("id", .anyOf [.atomic .int, .atomic .string])] [] true)) = .must ∧
      ((document (.ofFields [("id", .atomic .int)] ["id"] false)).union
          (.document (.ofFields [("id", .atomic .string)] [] false))).satisfies
        (.document (.ofFields [("id", .anyOf [.atomic .int, .atomic .string])] [] true)) =
          .must := by
  have hregular {s : Schema} {required : NameSet} {isOpen : Bool} (hs : s.Everywhere RegularHere)
      (hsimplify : (document (.ofFields [("id", s)] required isOpen)).simplify =
        .document (.ofFields [("id", s)] required isOpen)) :
      (document (.ofFields [("id", s)] required isOpen)).Regular :=
    ⟨canonical_iff_simplify_eq.2 hsimplify,
      Everywhere.document_iff.2 ⟨rfl, List.forall_mem_singleton.2 hs⟩⟩
  have hatomic (a : Atomic) : (atomic a).Everywhere RegularHere := .leaf trivial rfl
  have hfirst : (document (.ofFields [("id", .atomic .int)] ["id"] false)).satisfies
      (.document (.ofFields [("id", .anyOf [.atomic .int, .atomic .string])] [] true)) = .must := by
    decide +kernel
  have hsecond : (document (.ofFields [("id", .atomic .string)] [] false)).satisfies
      (.document (.ofFields [("id", .anyOf [.atomic .int, .atomic .string])] [] true)) = .must := by
    decide +kernel
  have hbound : (anyOf [.atomic .int, .atomic .string]).Everywhere RegularHere :=
    Everywhere.anyOf_iff.2 ⟨Nat.zero_le 1,
      List.forall_mem_cons.2 ⟨hatomic .int, List.forall_mem_singleton.2 (hatomic .string)⟩⟩
  exact ⟨hfirst, hsecond, union_satisfies_of_satisfies (hregular (hatomic .int) rfl)
    (hregular (hatomic .string) rfl) (hregular hbound rfl) hfirst hsecond⟩

end Schema

end DocShape
