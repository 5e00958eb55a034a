import DocShape.Proofs.Echo

/-!
# Absent values that cannot be written

An absent value has no validator.  In a declared field it is written as
optionality, and `any` absorbs it; everywhere else it is exposed.  A schema can
be written within a limit exactly if it is not too deep and exposes no absent
value, and what was written can be read within the same limit.
-/

namespace DocShape

namespace Schema

/-- A declared field as it is written, seen through the leaves of its schema:
`any` if that is one of them, else without the absent ones. -/
def keyForm (s : Schema) : Schema :=
  if s.leaves.any isAny then .any else .anyOf (s.leaves.filter fun y => !y.isMissing)

/-- An absent value can be reached through array items, branches and declared
fields, each of these in the form that is written. -/
inductive ExposesMissing : Schema → Prop where
  | missing : ExposesMissing .missing
  | items {x : Schema} (exposed : ExposesMissing x) : ExposesMissing (.array x)
  | branch {bs : List Schema} {b : Schema} (mem : b ∈ bs) (exposed : ExposesMissing b) :
      ExposesMissing (.anyOf bs)
  | key {d : Document} {entry : String × Schema} (mem : entry ∈ d.keys)
      (exposed : ExposesMissing entry.2.keyForm) : ExposesMissing (.document d)

/-! ## Cases -/

theorem exposesMissing_array_iff {x : Schema} :
    (array x).ExposesMissing ↔ x.ExposesMissing := by
  refine ⟨fun h => ?_, .items⟩
  cases h with
  | items exposed => exact exposed

theorem exposesMissing_anyOf_iff {bs : List Schema} :
    (anyOf bs).ExposesMissing ↔ ∃ b ∈ bs, b.ExposesMissing := by
  refine ⟨fun h => ?_, fun ⟨b, hb, h⟩ => .branch hb h⟩
  cases h with
  | branch mem exposed => exact ⟨_, mem, exposed⟩

theorem exposesMissing_document_iff {d : Document} :
    (document d).ExposesMissing ↔ ∃ entry ∈ d.keys, entry.2.keyForm.ExposesMissing := by
  refine ⟨fun h => ?_, fun ⟨entry, hmem, h⟩ => .key hmem h⟩
  cases h with
  | key mem exposed => exact ⟨_, mem, exposed⟩

theorem not_exposesMissing_unsat : ¬ unsat.ExposesMissing := by
  intro h
  cases h

theorem not_exposesMissing_any : ¬ any.ExposesMissing := by
  intro h
  cases h

theorem not_exposesMissing_atomic (a : Atomic) : ¬ (atomic a).ExposesMissing := by
  intro h
  cases h

theorem exposesMissing_iff_leaves {s : Schema} :
    s.ExposesMissing ↔ ∃ y ∈ s.leaves, y.ExposesMissing := by
  induction s using induction_children with
  | step s ih =>
      rcases s.isLeaf_or with hleaf | rfl | ⟨bs, rfl⟩
      · simp [hleaf.leaves]
      · exact iff_of_false not_exposesMissing_unsat (by simp [leaves])
      · rw [exposesMissing_anyOf_iff, leaves_anyOf]
        simp only [List.mem_flatMap]
        constructor
        · rintro ⟨b, hb, h⟩
          obtain ⟨y, hy, hexposed⟩ := (ih b hb).1 h
          exact ⟨y, ⟨b, hb, hy⟩, hexposed⟩
        · rintro ⟨y, ⟨b, hb, hy⟩, hexposed⟩
          exact ⟨b, hb, (ih b hb).2 ⟨y, hy, hexposed⟩⟩

/-! ## Statistics do not count -/

theorem keyForm_bare (s : Schema) : s.bare.keyForm = s.keyForm.bare := by
  have hany : (s.leaves.map bare).any isAny = s.leaves.any isAny := by
    rw [List.any_map]
    congr 1
    funext y
    cases y <;> rfl
  have hpresent : ((fun y : Schema => !y.isMissing) ∘ bare) = fun y => !y.isMissing := by
    funext y
    cases y <;> rfl
  rw [keyForm, keyForm, leaves_bare, hany, List.filter_map, hpresent]
  split
  · rfl
  · rw [bare_anyOf]

theorem ExposesMissing.bare {s : Schema} (h : s.ExposesMissing) : s.bare.ExposesMissing := by
  induction h with
  | missing => exact .missing
  | items _ ih => exact .items ih
  | branch mem _ ih =>
      rw [bare_anyOf]
      exact .branch (List.mem_map_of_mem mem) ih
  | @key d entry mem _ ih =>
      have hmem : bareField entry ∈ d.bare.keys := by
        rw [Document.bare_keys]
        exact List.mem_map_of_mem mem
      rw [bare_document]
      refine .key hmem ?_
      rwa [bareField, keyForm_bare]

theorem ExposesMissing.of_bare {s : Schema} (h : s.bare.ExposesMissing) : s.ExposesMissing := by
  generalize hs : s.bare = t at h
  induction h generalizing s with
  | missing =>
      cases s <;> cases hs
      exact .missing
  | items _ ih =>
      cases s <;> cases hs
      exact .items (ih rfl)
  | branch mem _ ih =>
      obtain ⟨cs, rfl⟩ := kind_eq_anyOf (s := s) (by rw [← kind_bare, hs]; rfl)
      rw [bare_anyOf] at hs
      cases hs
      obtain ⟨c, hc, rfl⟩ := List.mem_map.1 mem
      exact .branch hc (ih rfl)
  | key mem _ ih =>
      obtain ⟨e, rfl⟩ := kind_eq_document (s := s) (by rw [← kind_bare, hs]; rfl)
      cases hs
      rw [Document.bare_keys] at mem
      obtain ⟨entry, hentry, rfl⟩ := List.mem_map.1 mem
      exact .key hentry (ih (keyForm_bare entry.2).symm)

private theorem exposesMissing_congr {s t : Schema} (h : s.bare = t.bare) :
    s.ExposesMissing ↔ t.ExposesMissing := by
  constructor
  · intro hs
    exact .of_bare (h ▸ hs.bare)
  · intro ht
    exact .of_bare (h ▸ ht.bare)

/-! ## Declared fields -/

private theorem subtractNested_of_any_mem_leaves {s : Schema} (h : .any ∈ s.leaves) (drop : Schema → Bool)
    (hdrop : drop .any = false) : s.subtractNested drop = .any := by
  induction s using induction_children with
  | step s ih =>
      cases s with
      | anyOf bs =>
          rw [leaves_anyOf, List.mem_flatMap] at h
          obtain ⟨b, hb, hany⟩ := h
          have hnested := ih b hb hany
          have hmem : .any ∈ subtractBranches drop bs :=
            mem_subtractBranches.2 ⟨⟨b, hb, hnested⟩, hdrop, rfl⟩
          rw [subtractNested, collapse, if_pos (List.any_eq_true.2 ⟨.any, hmem, rfl⟩)]
      | any => rfl
      | _ => simp [leaves] at h

private theorem present_of_any_mem_leaves {s : Schema} (h : .any ∈ s.leaves) : s.present = .any := by
  have hnested := subtractNested_of_any_mem_leaves h isMissing rfl
  cases s with
  | anyOf bs => exact hnested
  | any => rfl
  | _ => simp [leaves] at h

theorem keyForm_of_any_mem_leaves {s : Schema} (h : .any ∈ s.leaves) : s.keyForm = .any :=
  if_pos (List.any_eq_true.2 ⟨.any, h, rfl⟩)

theorem exposesMissing_keyForm_iff {s : Schema} (h : .any ∉ s.leaves) :
    s.keyForm.ExposesMissing ↔ ∃ y ∈ s.leaves, y.isMissing = false ∧ y.ExposesMissing := by
  rw [keyForm, if_neg fun hany => h (any_mem_of_any_isAny hany), exposesMissing_anyOf_iff]
  simp [and_assoc]

private theorem exposesMissing_present_iff (s : Schema) :
    s.present.ExposesMissing ↔ s.keyForm.ExposesMissing := by
  by_cases hany : .any ∈ s.leaves
  · rw [present_of_any_mem_leaves hany, keyForm_of_any_mem_leaves hany]
  have hkept {z : Schema} (hz : z ∈ s.present.leaves) : z ∈ s.leaves ∧ z.isMissing = false := by
    simpa using (leaves_present_subperm s).subset hz
  rw [exposesMissing_keyForm_iff hany, exposesMissing_iff_leaves]
  constructor
  · rintro ⟨y, hy, hexposed⟩
    exact ⟨y, (hkept hy).1, (hkept hy).2, hexposed⟩
  · rintro ⟨y, hy, hpresent, hexposed⟩
    rcases exists_mem_leaves_present hy hpresent with habsurd | ⟨z, hz, heq⟩
    · exact absurd (hkept habsurd).1 hany
    · exact ⟨z, hz, (exposesMissing_congr heq).2 hexposed⟩

theorem absence_of_mem_leaves {s y : Schema} (hy : y ∈ s.leaves) (h : s.absence = .never) :
    y.absence = .never := by
  induction s, hy using leaf_induction with
  | leaf => exact h
  | branch bs b hb _ _ ih => exact ih ((absence_anyOf_eq_never.1 h).2 b hb)

/-- A schema without absent values has no absent leaf, however deep. -/
theorem exposesMissing_keyForm_of_never {s : Schema} (h : s.absence = .never) :
    s.keyForm.ExposesMissing ↔ s.ExposesMissing := by
  have hany : .any ∉ s.leaves := fun hany => by cases absence_of_mem_leaves hany h
  rw [exposesMissing_keyForm_iff hany, exposesMissing_iff_leaves]
  refine exists_congr fun y => and_congr_right fun hy => and_iff_right ?_
  have hnever := absence_of_mem_leaves hy h
  cases y with
  | missing => cases hnever
  | _ => rfl

/-- What is written of a declared field exposes what its leaves do. -/
theorem exposesMissing_writtenKey? {s : Schema} :
    s.keyForm.ExposesMissing ↔ ∃ w, s.writtenKey? = some w ∧ w.ExposesMissing := by
  unfold writtenKey?
  split
  · rename_i hkept
    rw [Bool.or_eq_true, decide_eq_true_iff] at hkept
    rcases hkept with hany | hnever
    · cases s with
      | any =>
          rw [keyForm_of_any_mem_leaves (List.mem_singleton_self _)]
          simp
      | _ => cases hany
    · rw [exposesMissing_keyForm_of_never hnever]
      simp
  · rw [← exposesMissing_present_iff]
    split
    · rename_i hunsat
      cases hpresent : s.present with
      | unsat => simpa using not_exposesMissing_unsat
      | _ =>
          rw [hpresent] at hunsat
          cases hunsat
    · simp

/-! ## Writing -/

theorem failsIff_writeField {entry : String × Schema}
    (h : ∀ w, entry.2.writtenKey? = some w →
      w.writeValidator.FailsIff .missingNotSerializable w.ExposesMissing) :
    (writeField entry).FailsIff .missingNotSerializable entry.2.keyForm.ExposesMissing := by
  rw [writeField, exposesMissing_writtenKey?]
  cases hwritten : entry.2.writtenKey? with
  | none =>
      rintro ⟨w, hw, -⟩
      cases hw
  | some w =>
      have hfails := ((h w hwritten).inContext ("property " ++ Text.quote entry.1)).bind_pure
        fun v => some (entry.1, v)
      exact hfails.congr (by simp)

private theorem failsIff_writeValidator_array {x : Schema}
    (h : x.writeValidator.FailsIff .missingNotSerializable x.ExposesMissing) :
    (array x).writeValidator.FailsIff .missingNotSerializable (array x).ExposesMissing := by
  rw [exposesMissing_array_iff]
  by_cases hunsat : x = .unsat
  · rw [hunsat, writeValidator]
    exact not_exposesMissing_unsat
  by_cases hany : x = .any
  · rw [hany, writeValidator]
    exact not_exposesMissing_any
  rw [writeValidator]
  · exact h.bind_pure _
  · exact hunsat
  · exact hany

private theorem failsIff_writeValidator_anyOf {bs : List Schema}
    (h : ∀ b ∈ bs, b.writeValidator.FailsIff .missingNotSerializable b.ExposesMissing) :
    (anyOf bs).writeValidator.FailsIff .missingNotSerializable (anyOf bs).ExposesMissing := by
  rw [exposesMissing_anyOf_iff]
  by_cases hne : bs = []
  · rw [hne, writeValidator]
    rintro ⟨b, hb, -⟩
    exact List.not_mem_nil hb
  cases hnames : atomicNames? bs with
  | none =>
      rw [writeValidator_anyOf hne hnames]
      exact (Outcome.FailsIff.mapM h).bind_pure _
  | some names =>
      obtain ⟨as, rfl, -⟩ := atomicNames?_eq_some hnames
      rw [writeValidator, hnames]
      · rintro ⟨b, hb, hexposed⟩
        obtain ⟨a, -, rfl⟩ := List.mem_map.1 hb
        exact not_exposesMissing_atomic a hexposed
      · exact hne

/-- Writing fails exactly where an absent value is exposed. -/
theorem failsIff_writeValidator (s : Schema) :
    s.writeValidator.FailsIff .missingNotSerializable s.ExposesMissing := by
  -- A written field is not below the document, only lighter.
  induction hweight : s.weight using Nat.strongRecOn generalizing s with
  | ind total ih =>
      subst hweight
      cases s with
      | missing =>
          rw [writeValidator_missing]
          exact ⟨.missing, rfl⟩
      | array x =>
          exact failsIff_writeValidator_array
            (ih x.weight (weight_lt_of_mem_children (List.mem_singleton_self x)) x rfl)
      | anyOf bs =>
          exact failsIff_writeValidator_anyOf fun b hb =>
            ih b.weight (weight_lt_of_mem_children hb) b rfl
      | document d =>
          rw [writeValidator_document, exposesMissing_document_iff]
          refine Outcome.FailsIff.bind_pure (Outcome.FailsIff.filterMapM fun entry hmem => ?_) _
          exact failsIff_writeField fun w hw =>
            ih w.weight (weight_writtenKey?_lt hmem hw) w rfl
      | unsat =>
          rw [writeValidator]
          exact not_exposesMissing_unsat
      | any =>
          rw [writeValidator]
          exact not_exposesMissing_any
      | atomic a =>
          rw [writeValidator]
          exact not_exposesMissing_atomic a

/-- Writing a schema within a limit fails because of its depth exactly if it is
deeper than the limit, and otherwise because of an absent value exactly if it
exposes one; there is no other failure.  What was written can be read within
the same limit if every atomic kind has an alias. -/
theorem toValidator_fails_exactly (s : Schema) (limit : Int) :
    ((∃ f, s.toValidator limit = .error f ∧ f.isKind .maxDepthExceeded = true) ↔
        limit < s.depth) ∧
      (s.depth ≤ limit →
        ((∃ f, s.toValidator limit = .error f ∧ f.isKind .missingNotSerializable = true) ↔
          s.ExposesMissing)) ∧
      (s.depth ≤ limit → ¬ s.ExposesMissing → ∃ v, s.toValidator limit = .ok v) ∧
      ∀ v, s.toValidator limit = .ok v → s.Everywhere NamedHere →
        ∃ r, ofValidator v limit = .ok r := by
  have hfails := failsIff_writeValidator s
  have hwithin (h : s.depth ≤ limit) : s.toValidator limit = s.writeValidator := by
    rw [toValidator, if_neg (by omega)]
  refine ⟨?_, fun h => ?_, fun h => ?_, fun v hv hnamed => ?_⟩
  · constructor
    · rintro ⟨f, hf, hkind⟩
      by_contra hle
      rw [hwithin (by omega)] at hf
      cases Failure.eq_of_isKind hkind (hfails.isKind_of_error hf)
    · intro hdeep
      exact ⟨.fault (.tooDeep limit), by rw [toValidator, if_pos hdeep]; rfl, rfl⟩
  · rw [hwithin h]
    exact hfails.exists_error_iff
  · rw [hwithin h]
    exact hfails.exists_ok
  · exact ⟨s.echo, ofValidator_of_toValidator hnamed hv⟩

/-- A field may be absent through a nested disjunction, an array element may not. -/
example :
    let optional : Schema := .anyOf [.atomic .int, .anyOf [.missing, .atomic .null]]
    let list : Schema := .array (.anyOf [.atomic .int, .missing])
    (toValidator (.document (.ofFields [("f", optional)] [] false)) 4).toBool = true ∧
      (toValidator (.document (.ofFields [("f", list)] [] false)) 4).toBool = false := by
  decide +kernel

end Schema

end DocShape
