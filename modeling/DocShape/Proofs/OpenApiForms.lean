import DocShape.OpenApi.Schema
import DocShape.Proofs.Exposure
import DocShape.Proofs.Legible

/-!
# OpenAPI forms of canonical schemas

A canonical schema has an OpenAPI form exactly if it has a validator: both are
refused for too much depth and for an exposed absent value.  The form loses no
structure.  It shows the variant of the schema, an atomic kind by its alias and
everything else by the keywords that are there, so that schemas without
references that share a form are the same.
-/

namespace DocShape

theorem Atomic.name_inj {a b : Atomic} (h : a.name = b.name) : a = b := by
  have hend : Delimited [] := fun c hc => by cases hc
  exact (name_append_inj hend hend (by rw [h])).1

namespace OpenApi

open Schema

/-! ## Forms, variant by variant -/

/-- The form of arrays, from the form of their items. -/
def arrayForm : Schema → OpenApi → OpenApi
  | .any, _ => { blank with type := some "array" }
  | .unsat, _ => { blank with type := some "array", maxItems := some 0 }
  | _, items => arrayOf items

/-- The form of a declared field. -/
def fieldForm (references : FieldMap Reference) (entry : String × Schema) :
    Outcome (String × OpenApi) := do
  let o ← Outcome.inContext ("property " ++ Text.quote entry.1) (ofSimplified entry.2)
  return (entry.1, o.withReference (List.lookup entry.1 references))

private theorem ofSimplifiedList_eq_mapM (bs : List Schema) :
    ofSimplifiedList bs = bs.mapM ofSimplified := by
  induction bs with
  | nil => rfl
  | cons b rest ih => rw [ofSimplifiedList, ih, List.mapM_cons]

private theorem convertList_eq_mapM (bs : List Schema) : convertList bs = bs.mapM convert := by
  induction bs with
  | nil => rfl
  | cons b rest ih => rw [convertList, ih, List.mapM_cons]

private theorem ofSimplifiedKeys_eq_mapM (references : FieldMap Reference)
    (keys : List (String × Schema)) :
    ofSimplifiedKeys references keys = keys.mapM (fieldForm references) := by
  induction keys with
  | nil => rfl
  | cons entry rest ih =>
      rw [ofSimplifiedKeys, ih, List.mapM_cons, fieldForm, bind_assoc]
      rfl

theorem ofSimplified_array (x : Schema) :
    ofSimplified (.array x) = do return arrayForm x (← ofSimplified x) := by
  cases x <;> rfl

private theorem convert_array (x : Schema) :
    convert (.array x) = do return arrayForm x (← convert x) := by
  cases x <;> rfl

theorem ofSimplified_anyOf (bs : List Schema) :
    ofSimplified (.anyOf bs) =
      do return { blank with anyOf := some (← bs.mapM ofSimplified) } := by
  rw [ofSimplified, ofSimplifiedList_eq_mapM]

theorem ofSimplified_document (d : Document) :
    ofSimplified (.document d) =
      do return documentOf (← d.keys.mapM (fieldForm d.references)) d.required d.isOpen := by
  cases d
  rw [ofSimplified, ofSimplifiedDocument, ofSimplifiedKeys_eq_mapM]

/-- A canonical document is simplified already. -/
theorem convert_of_canonical {s : Schema} (hs : s.Canonical) : convert s = ofSimplified s := by
  induction s using induction_children with
  | step s ih =>
      cases s with
      | array x =>
          have hitems := ih x (List.mem_singleton_self x) (canonical_array_iff.1 hs)
          rw [convert_array, ofSimplified_array, hitems]
      | document d =>
          have hsimplified : d.simplify = d := Schema.document.inj (simplify_of_canonical hs)
          rw [convert, hsimplified, ofSimplified]
      | anyOf bs =>
          have hforms : bs.mapM convert = bs.mapM ofSimplified :=
            Outcome.mapM_congr fun b hb => ih b hb ((canonical_anyOf_iff.1 hs).2 b hb)
          rw [convert, convertList_eq_mapM, ofSimplified_anyOf, hforms]
      | _ => rfl

/-! ## Which schemas have a form -/

private theorem failsIff_fieldForm {references : FieldMap Reference} {entry : String × Schema}
    (hdeclarable : entry.2.Declarable) (hcanonical : entry.2.Canonical)
    (h : (ofSimplified entry.2).FailsIff .missingNotSerializable entry.2.ExposesMissing) :
    (fieldForm references entry).FailsIff .missingNotSerializable
      entry.2.keyForm.ExposesMissing := by
  have hfield := (h.inContext ("property " ++ Text.quote entry.1)).bind_pure
    fun o => (entry.1, o.withReference (List.lookup entry.1 references))
  refine hfield.congr ?_
  rcases hdeclarable.absence hcanonical with hany | hnever
  · rw [hany, keyForm_of_any_mem_leaves (List.mem_singleton_self _)]
  · exact (exposesMissing_keyForm_of_never hnever).symm

/-- A canonical schema has no form exactly where an absent value is exposed. -/
theorem failsIff_ofSimplified {s : Schema} (hs : s.Canonical) :
    (ofSimplified s).FailsIff .missingNotSerializable s.ExposesMissing := by
  induction s using induction_children with
  | step s ih =>
      cases s with
      | missing => exact ⟨.missing, rfl⟩
      | array x =>
          rw [ofSimplified_array, exposesMissing_array_iff]
          exact (ih x (List.mem_singleton_self x) (canonical_array_iff.1 hs)).bind_pure _
      | document d =>
          have hkeys := canonical_document_iff.1 hs
          rw [ofSimplified_document, exposesMissing_document_iff]
          refine Outcome.FailsIff.bind_pure (Outcome.FailsIff.mapM fun entry hmem => ?_) _
          obtain ⟨hdeclarable, hcanonical⟩ := hkeys entry hmem
          exact failsIff_fieldForm hdeclarable hcanonical
            (ih entry.2 (List.mem_map_of_mem hmem) hcanonical)
      | anyOf bs =>
          have hbranch := (canonical_anyOf_iff.1 hs).2
          rw [ofSimplified_anyOf, exposesMissing_anyOf_iff]
          exact Outcome.FailsIff.bind_pure
            (Outcome.FailsIff.mapM fun b hb => ih b hb (hbranch b hb)) _
      | unsat => exact not_exposesMissing_unsat
      | any => exact not_exposesMissing_any
      | atomic a => exact not_exposesMissing_atomic a

/-! ## Reading a form -/

/-- The variant that a form shows. -/
def shownKind (o : OpenApi) : Kind :=
  if o.anyOf.isSome then .anyOf
  else if o.not.isSome then .unsat
  else if o.type.isNone then .any
  else if !o.extensions.isEmpty then .atomic
  else if o.properties.isSome then .document
  else .array

/-- The form of the items that the form of an array shows. -/
def shownItems (o : OpenApi) : OpenApi :=
  match o.items, o.maxItems with
  | some items, _ => items
  | none, some _ => never
  | none, none => blank

theorem shownKind_of_ofSimplified {s : Schema} {o : OpenApi} (h : ofSimplified s = .ok o) :
    o.shownKind = s.kind := by
  cases s with
  | missing => cases h
  | array x =>
      rw [ofSimplified_array, Outcome.bind_eq_ok] at h
      obtain ⟨items, -, hitems⟩ := h
      rw [← Outcome.pure_eq_ok.1 hitems]
      cases x <;> rfl
  | document d =>
      rw [ofSimplified_document, Outcome.bind_eq_ok] at h
      obtain ⟨fields, -, hfields⟩ := h
      rw [← Outcome.pure_eq_ok.1 hfields]
      rfl
  | anyOf bs =>
      rw [ofSimplified_anyOf, Outcome.bind_eq_ok] at h
      obtain ⟨forms, -, hforms⟩ := h
      rw [← Outcome.pure_eq_ok.1 hforms]
      rfl
  | unsat | any | atomic =>
      cases h
      rfl

theorem shownItems_arrayForm {x : Schema} {items : OpenApi} (h : ofSimplified x = .ok items) :
    (arrayForm x items).shownItems = items := by
  cases x with
  | unsat | any =>
      cases h
      rfl
  | _ => rfl

theorem documentOf_inj {fields fields' : List (String × OpenApi)} {required required' : NameSet}
    {isOpen isOpen' : Bool}
    (h : documentOf fields required isOpen = documentOf fields' required' isOpen') :
    fields = fields' ∧ required = required' ∧ isOpen = isOpen' := by
  -- An empty list of required fields is left out, and so is every property of
  -- an open document.
  have hrequired (fs : List (String × OpenApi)) (names : NameSet) (b : Bool) :
      (documentOf fs names b).required.getD [] = names := by
    cases names <;> rfl
  have hisOpen (fs : List (String × OpenApi)) (names : NameSet) (b : Bool) :
      (documentOf fs names b).additionalProperties.isNone = b := by
    cases b <;> rfl
  refine ⟨Option.some.inj (congrArg OpenApi.properties h), ?_, ?_⟩
  · rw [← hrequired fields required isOpen, h, hrequired]
  · rw [← hisOpen fields required isOpen, h, hisOpen]

theorem fieldForm_nil_eq_ok {entry : String × Schema} {field : String × OpenApi} :
    fieldForm [] entry = .ok field ↔ entry.1 = field.1 ∧ ofSimplified entry.2 = .ok field.2 := by
  simp only [fieldForm, Outcome.bind_eq_ok, Outcome.inContext_eq_ok, Outcome.pure_eq_ok,
    List.lookup_nil, withReference]
  constructor
  · rintro ⟨o, ho, rfl⟩
    exact ⟨rfl, ho⟩
  · rintro ⟨hname, ho⟩
    exact ⟨field.2, ho, by rw [hname]⟩

end OpenApi

namespace Schema

/-- No declared field refers to another entity, leaving aside the schemas inside. -/
def ReferenceFreeHere : Schema → Prop
  | .document d => d.references = []
  | _ => True

instance : DecidablePred ReferenceFreeHere
  | .document d => decidable_of_iff (d.references.isEmpty = true) List.isEmpty_iff
  | .unsat | .missing | .atomic _ | .array _ | .anyOf _ | .any => .isTrue trivial

end Schema

namespace OpenApi

open Schema

/-- Schemas that share a form differ in their statistics only. -/
theorem bare_eq_of_ofSimplified {s t : Schema} {o : OpenApi}
    (hsfree : s.Everywhere ReferenceFreeHere) (htfree : t.Everywhere ReferenceFreeHere)
    (hs : ofSimplified s = .ok o) (ht : ofSimplified t = .ok o) : s.bare = t.bare := by
  induction s using induction_children generalizing t o with
  | step s ih =>
      -- The form decides the variant first, so only pairs of one variant are left.
      have hkind : t.kind = s.kind :=
        (shownKind_of_ofSimplified ht).symm.trans (shownKind_of_ofSimplified hs)
      cases s with
      | atomic a =>
          obtain ⟨b, rfl⟩ := kind_eq_atomic hkind
          have hsame : ofAtomic a = ofAtomic b := Except.ok.inj (hs.trans ht.symm)
          have hname : [(typeExtension, a.name)] = [(typeExtension, b.name)] :=
            congrArg OpenApi.extensions hsame
          have heq : a.name = b.name := by simpa using hname
          rw [Atomic.name_inj heq]
      | array x =>
          obtain ⟨y, rfl⟩ := kind_eq_array hkind
          simp only [ofSimplified_array, Outcome.bind_eq_ok, Outcome.pure_eq_ok] at hs ht
          obtain ⟨items, hx, rfl⟩ := hs
          obtain ⟨items', hy, heq⟩ := ht
          have hitems : items' = items := by
            rw [← shownItems_arrayForm hy, heq, shownItems_arrayForm hx]
          rw [bare_array, bare_array, ih x (List.mem_singleton_self x)
            (hsfree.inside (List.mem_singleton_self x))
            (htfree.inside (List.mem_singleton_self y)) hx (hitems ▸ hy)]
      | document d =>
          obtain ⟨e, rfl⟩ := kind_eq_document hkind
          have hd : d.references = [] := hsfree.here
          have he : e.references = [] := htfree.here
          simp only [ofSimplified_document, Outcome.bind_eq_ok, Outcome.pure_eq_ok, hd, he] at hs ht
          obtain ⟨fields, hfields, rfl⟩ := hs
          obtain ⟨fields', hfields', heq⟩ := ht
          obtain ⟨rfl, hrequired, hisOpen⟩ := documentOf_inj heq
          have hkeys : d.keys.map bareField = e.keys.map bareField := by
            refine Outcome.map_eq_of_mapM_eq (fun x hx y hy field hxf hyf => ?_) hfields hfields'
            obtain ⟨hxname, hxform⟩ := fieldForm_nil_eq_ok.1 hxf
            obtain ⟨hyname, hyform⟩ := fieldForm_nil_eq_ok.1 hyf
            rw [bareField, bareField, hxname, hyname, ih x.2 (List.mem_map_of_mem hx)
              (hsfree.inside (List.mem_map_of_mem hx)) (htfree.inside (List.mem_map_of_mem hy))
              hxform hyform]
          rw [bare_document, bare_document, Document.bare_eq_of_parts hkeys hrequired.symm
            hisOpen.symm (hd.trans he.symm)]
      | anyOf bs =>
          obtain ⟨cs, rfl⟩ := kind_eq_anyOf hkind
          simp only [ofSimplified_anyOf, Outcome.bind_eq_ok, Outcome.pure_eq_ok] at hs ht
          obtain ⟨forms, hforms, rfl⟩ := hs
          obtain ⟨forms', hforms', heq⟩ := ht
          have hsame : forms' = forms := Option.some.inj (congrArg OpenApi.anyOf heq)
          have hbranches : bs.map bare = cs.map bare :=
            Outcome.map_eq_of_mapM_eq (fun b hb c hc form hbf hcf =>
              ih b hb (hsfree.inside hb) (htfree.inside hc) hbf hcf) hforms (hsame ▸ hforms')
          rw [bare_anyOf, bare_anyOf, hbranches]
      | unsat | any =>
          cases t <;> cases hkind
          rfl
      | missing => cases hs

theorem ofSimplified_of_ofSchema {s : Schema} {o : OpenApi} (hs : s.Canonical)
    (h : ofSchema s = .ok o) : ofSimplified s = .ok o := by
  rw [ofSchema, convert_of_canonical hs] at h
  split at h
  · cases h
  · exact h

/-- A canonical schema has an OpenAPI form exactly if it has a validator within
the standard limit, and canonical schemas without references that share their
OpenAPI form are the same. -/
theorem ofSchema_faithful {s : Schema} (hs : s.Canonical) :
    ((∃ o, ofSchema s = .ok o) ↔ ∃ v, s.toValidator Settings.standard.maxDepth = .ok v) ∧
      (s.Everywhere ReferenceFreeHere →
        ∀ t : Schema, t.Canonical → t.Everywhere ReferenceFreeHere →
          ∀ o, ofSchema s = .ok o → ofSchema t = .ok o → s.same t = true) := by
  constructor
  · rw [ofSchema, toValidator, convert_of_canonical hs]
    split
    · refine iff_of_false ?_ ?_
      · rintro ⟨o, ho⟩
        cases ho
      · rintro ⟨v, hv⟩
        cases hv
    · rw [(failsIff_ofSimplified hs).exists_ok_iff, (failsIff_writeValidator s).exists_ok_iff]
  · intro hsfree t ht htfree o hso hto
    exact same_of_bare_eq (bare_eq_of_ofSimplified hsfree htfree
      (ofSimplified_of_ofSchema hs hso) (ofSimplified_of_ofSchema ht hto))

/-- Statistics are no part of the form, and two documents that differ in nothing
else share it. -/
theorem ofSchema_faithful_statistics :
    let fresh : Schema := .document (.ofFields [("a", .array .unsat)] ["a"] false)
    let observed : Schema :=
      .document ⟨[("a", .array .unsat)], ["a"], false, [], some (.fresh 0.5)⟩
    fresh.Canonical ∧ observed.Canonical ∧
      (∃ o, ofSchema fresh = .ok o ∧ ofSchema observed = .ok o) ∧ fresh.same observed = true := by
  intro fresh observed
  have hfresh : fresh.Canonical := by decide +kernel
  have hobserved : observed.Canonical := by decide +kernel
  let form : OpenApi :=
    documentOf [("a", { blank with type := some "array", maxItems := some 0 })] ["a"] false
  have hfreshForm : ofSchema fresh = .ok form := rfl
  have hobservedForm : ofSchema observed = .ok form := rfl
  exact ⟨hfresh, hobserved, ⟨form, hfreshForm, hobservedForm⟩,
    (ofSchema_faithful hfresh).2 (by decide +kernel) observed hobserved (by decide +kernel) form
      hfreshForm hobservedForm⟩

end OpenApi

end DocShape
