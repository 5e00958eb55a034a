import DocShape.Proofs.Echo
import DocShape.Proofs.ValidatorFields

/-!
# Validators that schemas are written as

A validator that was written for a schema is in its normal form, so that nothing
of it is lost on the way through bytes.  Statistics have no place in it: canonical
schemas that differ in nothing else have one validator.
-/

namespace DocShape

namespace Schema

/-! ## In normal form -/

theorem normal_writeValidator_array {x : Schema} {v : Validator}
    (hx : ∀ w, x.writeValidator = .ok w → w.normal = w)
    (h : (array x).writeValidator = .ok v) : v.normal = v := by
  by_cases hunsat : x = .unsat
  · rw [hunsat, writeValidator] at h
    cases h
    exact Validator.normal_of _
  by_cases hany : x = .any
  · rw [hany, writeValidator] at h
    cases h
    exact Validator.normal_of _
  rw [writeValidator, Outcome.bind_eq_ok] at h
  · obtain ⟨w, hw, heq⟩ := h
    cases heq
    rw [Validator.normal_of]
    simp [Keywords.blank, Validator.normalItems, hx w hw, TypeNames.normal, TypeNames.single]
  · exact hunsat
  · exact hany

theorem normal_writeValidator_document {d : Document} {v : Validator}
    (hd : ∀ entry ∈ d.keys, ∀ s w, entry.2.writtenKey? = some s → s.writeValidator = .ok w →
      w.normal = w)
    (h : (document d).writeValidator = .ok v) : v.normal = v := by
  rw [writeValidator_document, Outcome.bind_eq_ok] at h
  obtain ⟨properties, hproperties, heq⟩ := h
  cases heq
  have hnormal : Validator.normalProperties properties = properties := by
    refine (List.map_congr_left fun property hmem => ?_).trans (List.map_id properties)
    obtain ⟨entry, hentry, hwrite⟩ := Outcome.exists_of_mem_filterMapM hproperties hmem
    rw [writeField] at hwrite
    cases hwritten : entry.2.writtenKey? with
    | none =>
        rw [hwritten] at hwrite
        cases hwrite
    | some s =>
        simp only [hwritten, Outcome.bind_eq_ok, Outcome.inContext_eq_ok, Outcome.pure_eq_ok,
          Option.some.injEq] at hwrite
        obtain ⟨w, hw, rfl⟩ := hwrite
        rw [hd entry hentry s w hwritten hw, id]
  rw [Validator.normal_of]
  simp [Keywords.blank, hnormal, TypeNames.normal, TypeNames.single]

private theorem normal_writeValidator_anyOf {bs : List Schema} {v : Validator}
    (hbs : ∀ b ∈ bs, ∀ w, b.writeValidator = .ok w → w.normal = w)
    (h : (anyOf bs).writeValidator = .ok v) : v.normal = v := by
  by_cases hne : bs = []
  · rw [hne, writeValidator] at h
    cases h
    exact Validator.normal_of _
  cases hnames : atomicNames? bs with
  | some names =>
      rw [writeValidator, hnames] at h
      · cases h
        rw [Validator.normal_of]
        simp [Keywords.blank, TypeNames.normal, TypeNames.several]
      · exact hne
  | none =>
      rw [writeValidator_anyOf hne hnames, Outcome.bind_eq_ok] at h
      obtain ⟨list, hlist, heq⟩ := h
      cases heq
      have hnormal : list.map Validator.normal = list := by
        refine (List.map_congr_left fun w hmem => ?_).trans (List.map_id list)
        obtain ⟨b, hb, hw⟩ := (Outcome.mem_iff_of_mapM hlist).1 hmem
        rw [hbs b hb w hw, id]
      rw [Validator.normal_of]
      simp [Keywords.blank, hnormal]

private theorem normal_of_writeValidator {s : Schema} {v : Validator} (h : s.writeValidator = .ok v) :
    v.normal = v := by
  -- A written field is not below the document, only lighter.
  induction hweight : s.weight using Nat.strongRecOn generalizing s v with
  | ind total ih =>
      subst hweight
      cases s with
      | missing =>
          rw [writeValidator_missing] at h
          cases h
      | array x =>
          exact normal_writeValidator_array (fun w hw =>
            ih x.weight (weight_lt_of_mem_children (List.mem_singleton_self x)) hw rfl) h
      | document d =>
          exact normal_writeValidator_document (fun entry hmem s w hs hw =>
            ih s.weight (weight_writtenKey?_lt hmem hs) hw rfl) h
      | anyOf bs =>
          exact normal_writeValidator_anyOf (fun b hb w hw =>
            ih b.weight (weight_lt_of_mem_children hb) hw rfl) h
      | unsat | any | atomic a =>
          rw [writeValidator] at h
          cases h
          exact Validator.normal_of _

theorem normal_of_toValidator {s : Schema} {v : Validator} {limit : Int}
    (h : s.toValidator limit = .ok v) : v.normal = v := by
  rw [toValidator] at h
  split at h
  · cases h
  · exact normal_of_writeValidator h

/-! ## Without regard to statistics -/

theorem depth_bare (s : Schema) : s.bare.depth = s.depth := by
  induction s using induction_children with
  | step s ih =>
      cases s with
      | array x => exact congrArg (· + 1) (ih x (List.mem_singleton_self x))
      | document d =>
          have hkeys : keysDepth (d.keys.map bareField) = keysDepth d.keys := by
            refine eq_of_forall_ge_iff fun n => ?_
            rw [keysDepth_le_iff, keysDepth_le_iff, List.forall_mem_map]
            refine forall₂_congr fun entry hmem => ?_
            rw [bareField, ih entry.2 (List.mem_map_of_mem hmem)]
          cases d
          rw [bare_document, depth, depth, Document.bare, Document.keysDepth, Document.keysDepth,
            bareKeys_eq_map, hkeys]
      | anyOf bs =>
          have hbranches : branchesDepth (bs.map bare) = branchesDepth bs := by
            refine eq_of_forall_ge_iff fun n => ?_
            rw [branchesDepth_le_iff, branchesDepth_le_iff, List.forall_mem_map]
            exact forall₂_congr fun b hb => by rw [ih b hb]
          rw [bare_anyOf, depth, depth, hbranches]
      | _ => rfl

theorem keepsRequired_bare (s : Schema) : s.bare.keepsRequired = s.keepsRequired := by
  rw [keepsRequired, keepsRequired, isAny_bare, absence_bare]

private theorem writtenRequired_bare (d : Document) : d.bare.writtenRequired = d.writtenRequired := by
  rw [Document.writtenRequired, Document.writtenRequired, Document.bare_required]
  refine List.filter_congr fun field _ => ?_
  rw [Document.key?_bare]
  cases d.key? field with
  | none => rfl
  | some s => exact keepsRequired_bare s

theorem atomicNames?_bare (bs : List Schema) : atomicNames? (bs.map bare) = atomicNames? bs := by
  rw [atomicNames?, atomicNames?, List.mapM_map]
  congr 1
  funext b
  cases b <;> rfl

private theorem writeField_bareField {entry : String × Schema} (hdeclarable : entry.2.Declarable)
    (hcanonical : entry.2.Canonical)
    (h : entry.2.bare.writeValidator = entry.2.writeValidator) :
    writeField (bareField entry) = writeField entry := by
  have hkept := keepsRequired_of_declarable hdeclarable hcanonical
  have hbare : entry.2.bare.keepsRequired = true := by rw [keepsRequired_bare, hkept]
  rw [writeField, writeField, bareField, writtenKey?_of_keepsRequired hkept]
  dsimp only
  rw [writtenKey?_of_keepsRequired hbare]
  dsimp only
  rw [h]

/-- What is written of a canonical schema does not depend on its statistics. -/
theorem writeValidator_bare {s : Schema} (hs : s.Canonical) :
    s.bare.writeValidator = s.writeValidator := by
  induction s using induction_children with
  | step s ih =>
      cases s with
      | array x =>
          by_cases hunsat : x = .unsat
          · rw [hunsat]
            rfl
          by_cases hany : x = .any
          · rw [hany]
            rfl
          have hkind : x.bare ≠ .unsat := by
            intro h
            cases x <;> cases h
            exact hunsat rfl
          have hitems := ih x (List.mem_singleton_self x) (canonical_array_iff.1 hs)
          rw [bare_array, writeValidator, writeValidator, hitems]
          · exact hunsat
          · exact hany
          · exact hkind
          · exact fun h => hany (bare_eq_any.1 h)
      | document d =>
          have hkeys : (d.keys.map bareField).filterMapM writeField =
              d.keys.filterMapM writeField := by
            refine Outcome.filterMapM_map_congr fun entry hmem => ?_
            obtain ⟨hdeclarable, hcanonical⟩ := canonical_document_iff.1 hs entry hmem
            exact writeField_bareField hdeclarable hcanonical
              (ih entry.2 (List.mem_map_of_mem hmem) hcanonical)
          rw [bare_document, writeValidator_document, writeValidator_document,
            Document.bare_keys, hkeys, writtenRequired_bare, Document.bare_isOpen]
      | anyOf bs =>
          by_cases hne : bs = []
          · rw [hne]
            rfl
          have hbare : bs.map bare ≠ [] := by simpa using hne
          cases hnames : atomicNames? bs with
          | some names =>
              have hbareNames := (atomicNames?_bare bs).trans hnames
              rw [bare_anyOf, writeValidator, writeValidator, hbareNames, hnames]
              · exact hne
              · exact hbare
          | none =>
              have hlist : (bs.map bare).mapM writeValidator = bs.mapM writeValidator := by
                rw [List.mapM_map]
                exact Outcome.mapM_congr fun b hb =>
                  ih b hb ((canonical_anyOf_iff.1 hs).2 b hb)
              rw [bare_anyOf, writeValidator_anyOf hbare ((atomicNames?_bare bs).trans hnames),
                writeValidator_anyOf hne hnames, hlist]
      | _ => rfl

theorem toValidator_bare {s : Schema} (hs : s.Canonical) (limit : Int) :
    s.bare.toValidator limit = s.toValidator limit := by
  rw [toValidator, toValidator, depth_bare, writeValidator_bare hs]

end Schema

end DocShape
