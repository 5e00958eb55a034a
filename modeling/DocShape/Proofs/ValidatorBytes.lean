import DocShape.Proofs.ValidatorFields

/-!
# Validators through bytes

Writing a validator and reading the bytes back loses only what the format has no
words for: a validator that is not there is one without keywords, and only a
list of one can be written without its brackets.
-/

namespace DocShape

open Bson (RawElement elements? encodeDocument isZeroFree)

namespace Plain

theorem fits_of_mem_list {items : List Plain} (h : (list items).toBson.Fits) :
    ∀ p ∈ items, p.toBson.Fits := by
  intro p hp
  refine Bson.Value.Fits.item h p.toBson ?_
  rw [itemsToBson_eq_map]
  exact List.mem_map_of_mem hp

theorem fits_of_mem_record {fields : List (String × Plain)} (h : (record fields).toBson.Fits) :
    ∀ field ∈ fields, field.2.toBson.Fits := by
  intro field hfield
  refine (Bson.Value.Fits.field h (field.1, field.2.toBson) ?_).2
  rw [fieldsToBson_eq_map]
  exact List.mem_map_of_mem hfield

theorem toBytes_of_fits {fields : List (String × Plain)} (h : (record fields).toBson.Fits) :
    toBytes fields = .ok (encodeDocument (fieldsToBson fields)) := by
  rw [toBytes, Bson.writeDocument_of_fits h]
  rfl

theorem fits_of_toBytes {fields : List (String × Plain)} {bytes : List UInt8}
    (h : toBytes fields = .ok bytes) :
    (record fields).toBson.Fits ∧ encodeDocument (fieldsToBson fields) = bytes := by
  rw [toBytes] at h
  cases hwrite : Bson.writeDocument (fieldsToBson fields) with
  | error e =>
      rw [hwrite] at h
      cases h
  | ok data =>
      rw [hwrite] at h
      cases h
      exact Bson.fits_of_writeDocument hwrite

theorem toBytes_of_large {fields : List (String × Plain)}
    (hwritable : (record fields).toBson.isWritable = true)
    (hlarge : 2 ^ 31 ≤ (encodeDocument (fieldsToBson fields)).length) :
    ∃ size, 2 ^ 31 ≤ size ∧ toBytes fields = .error (Bson.WriteError.oversized size).failure := by
  obtain ⟨size, hsize, hwrite⟩ := Bson.writeDocument_of_large hwritable hlarge
  refine ⟨size, hsize, ?_⟩
  rw [toBytes, hwrite]
  rfl

/-- The field as its reader finds it. -/
def rawField (field : String × Plain) : RawElement :=
  ⟨field.1, field.2.toBson.raw⟩

theorem elements?_record {fields : List (String × Plain)} (h : (record fields).toBson.Fits) :
    elements? (encodeDocument (fieldsToBson fields)) = some (fields.map rawField) := by
  rw [Bson.elements?_encodeDocument h, fieldsToBson_eq_map, List.map_map]
  rfl

end Plain

namespace Validator

/-! ## Keyword by keyword -/

theorem readArray_raw {items : List Plain} (h : (Plain.list items).toBson.Fits)
    (keyword expected : String) :
    readArray keyword expected (Plain.list items).toBson.raw =
      .ok (items.map fun p => p.toBson.raw) := by
  obtain ⟨elements, helements, hvalues⟩ := Bson.elements?_encode_array h
  have harray : (Plain.list items).toBson.raw.array? = some (Plain.list items).toBson.encode := rfl
  rw [Plain.itemsToBson_eq_map, List.map_map] at hvalues
  rw [readArray, harray]
  simp only [Plain.toBson, helements, hvalues]
  rfl

theorem readStrings_raw {names : List String}
    (h : (Plain.list (names.map .text)).toBson.Fits) (keyword : String) :
    readStrings keyword (Plain.list (names.map .text)).toBson.raw = .ok names := by
  rw [readStrings, readArray_raw h, List.map_map]
  refine Eq.trans ?_ (congrArg Except.ok (List.map_id names))
  show List.mapM _ (names.map _) = _
  rw [List.mapM_map]
  refine mapM_of_forall₂ (List.forall₂_same.2 fun name _ => rfl) ?_
  intro name hname _ _ heq
  subst heq
  have hfits := Plain.fits_of_mem_list h (.text name) (List.mem_map_of_mem hname)
  have htext : (Plain.text name).toBson.raw.string? = some name := Bson.string?_raw hfits
  simp only [Function.comp_apply, htext]
  rfl

theorem readTypeNames_raw {t : TypeNames} (h : t.toPlain.toBson.Fits) :
    readTypeNames t.toPlain.toBson.raw = .ok t.normal := by
  have hlist {names : List String} (hnames : (Plain.list (names.map .text)).toBson.Fits) :
      readTypeNames (Plain.list (names.map .text)).toBson.raw = .ok (.several names) := by
    have hstring : (Plain.list (names.map .text)).toBson.raw.string? = none := rfl
    have harray : (Plain.list (names.map .text)).toBson.raw.array? =
      some (Plain.list (names.map .text)).toBson.encode := rfl
    rw [readTypeNames, hstring, harray]
    simp only [readStrings_raw hnames]
    rfl
  obtain ⟨names, multiple⟩ := t
  rcases names with _ | ⟨name, _ | ⟨other, rest⟩⟩
  · have hnormal : TypeNames.normal ⟨[], multiple⟩ = .several [] := by
      simp [TypeNames.normal, TypeNames.several]
    rw [hnormal]
    exact hlist h
  · cases multiple with
    | true => exact hlist h
    | false =>
        have hstring : (TypeNames.toPlain ⟨[name], false⟩).toBson.raw.string? = some name :=
          Bson.string?_raw h
        rw [readTypeNames, hstring]
        rfl
  · have hnormal : TypeNames.normal ⟨name :: other :: rest, multiple⟩ =
        .several (name :: other :: rest) := by simp [TypeNames.normal, TypeNames.several]
    rw [hnormal]
    exact hlist h

/-- A reader of validators written with so much room. -/
def Reads (child : List UInt8 → Except Issue Validator) (room : Nat) (v : Validator) : Prop :=
  ∀ fields, v.fields? room = some fields → (Plain.record fields).toBson.Fits →
    child (encodeDocument (Plain.fieldsToBson fields)) = .ok v.normal

variable {child : List UInt8 → Except Issue Validator} {room : Nat}

theorem readList_raw {vs : List Validator} {documents : List Plain}
    (hdocuments : documentList? vs room = some documents) (hchild : ∀ v ∈ vs, Reads child room v)
    (h : (Plain.list documents).toBson.Fits) (keyword : String) :
    readList child keyword (Plain.list documents).toBson.raw = .ok (vs.map normal) := by
  rw [documentList?_eq_mapM, mapM_eq_some_iff] at hdocuments
  rw [readList, readArray_raw h]
  show (documents.map fun p => p.toBson.raw).mapM _ = _
  rw [List.mapM_map]
  refine mapM_of_forall₂ hdocuments fun v hv document hdocument hrecord => ?_
  obtain ⟨fields, hfields, rfl⟩ := Option.map_eq_some_iff.1 hrecord
  exact hchild v hv fields hfields (Plain.fits_of_mem_list h _ hdocument)

theorem readProperties_raw {ps : List (String × Validator)} {fields : List (String × Plain)}
    (hfields : propertyFields? ps room = some fields) (hchild : ∀ p ∈ ps, Reads child room p.2)
    (h : (Plain.record fields).toBson.Fits) :
    readProperties child (Plain.record fields).toBson.raw = .ok (normalProperties ps) := by
  rw [propertyFields?_eq_mapM, mapM_eq_some_iff] at hfields
  have hdocument : (Plain.record fields).toBson.raw.document? =
    some (encodeDocument (Plain.fieldsToBson fields)) := rfl
  rw [readProperties, hdocument]
  simp only [Plain.elements?_record h, List.mapM_map]
  refine mapM_of_forall₂ hfields fun p hp field hfield hrecord => ?_
  obtain ⟨inner, hinner, rfl⟩ := Option.map_eq_some_iff.1 hrecord
  have hread := hchild p hp inner hinner (Plain.fits_of_mem_record h _ hfield)
  show (do return (p.1, ← child (encodeDocument (Plain.fieldsToBson inner)))) = _
  rw [hread]
  rfl

theorem readItems_raw {i : ItemList} {documents : List Plain}
    (hdocuments : documentList? i.schemas room = some documents)
    (hchild : ∀ v ∈ i.schemas, Reads child room v)
    (h : (itemsPlain i.multiple documents).toBson.Fits) :
    readItems child (itemsPlain i.multiple documents).toBson.raw = .ok (normalItems i) := by
  obtain ⟨vs, multiple⟩ := i
  have hlist (hfits : (Plain.list documents).toBson.Fits) :
      readItems child (Plain.list documents).toBson.raw = .ok ⟨vs.map normal, true⟩ := by
    have hdocument : (Plain.list documents).toBson.raw.document? = none := rfl
    rw [readItems, hdocument]
    simp only [readList_raw hdocuments hchild hfits]
    rfl
  have hlength : vs.length = documents.length := by
    rw [documentList?_eq_mapM, mapM_eq_some_iff] at hdocuments
    exact hdocuments.length_eq
  have hseveral (hmany : vs.length ≠ 1 ∨ multiple = true)
      (hfits : (Plain.list documents).toBson.Fits) :
      readItems child (Plain.list documents).toBson.raw = .ok (normalItems ⟨vs, multiple⟩) := by
    have hnormal : normalItems ⟨vs, multiple⟩ = ⟨vs.map normal, true⟩ := by
      rcases hmany with hmany | hmany <;> simp [normalItems, hmany]
    rw [hnormal]
    exact hlist hfits
  rcases documents with _ | ⟨document, _ | ⟨other, rest⟩⟩
  · exact hseveral (.inl (by simp [hlength])) h
  · cases multiple with
    | true => exact hseveral (.inr rfl) h
    | false =>
        rw [documentList?_eq_mapM, mapM_eq_some_iff] at hdocuments
        obtain ⟨v, _, hv, hnil, rfl⟩ := List.forall₂_cons_right_iff.1 hdocuments
        cases hnil
        obtain ⟨fields, hfields, rfl⟩ := Option.map_eq_some_iff.1 hv
        have hread := hchild v List.mem_cons_self fields hfields h
        show (do
          return (⟨[← child (encodeDocument (Plain.fieldsToBson fields))], false⟩ : ItemList)) = _
        rw [hread]
        rfl
  · exact hseveral (.inl (by simp [hlength])) h

/-! ## Documents of keywords -/

variable {k : Keywords}

theorem foldlM_append_of_ok {xs ys : List RawElement} {next last : Keywords}
    (hxs : xs.foldlM (readKeyword child) k = .ok next)
    (hys : ys.foldlM (readKeyword child) next = .ok last) :
    (xs ++ ys).foldlM (readKeyword child) k = .ok last := by
  rw [List.foldlM_append, hxs]
  exact hys

theorem foldlM_field {keyword : String} {p : Plain} {next : Keywords}
    (h : readKeyword child k ⟨keyword, p.toBson.raw⟩ = .ok next) :
    ([(keyword, p)].map Plain.rawField).foldlM (readKeyword child) k = .ok next := by
  show (do
    let k ← readKeyword child k ⟨keyword, p.toBson.raw⟩
    [].foldlM (readKeyword child) k) = _
  rw [h]
  rfl

/-! Each keyword may be there or not: `next` says what it adds to the keywords
before it. -/

theorem foldlM_optionalField {α β : Type} {keyword : String} {f : α → Plain} {value : Option α}
    (child : List UInt8 → Except Issue Validator) (g : α → β) (next : Option β → Keywords)
    (hnone : next none = k)
    (hsome : ∀ a, (f a).toBson.Fits →
      readKeyword child k ⟨keyword, (f a).toBson.raw⟩ = .ok (next (some (g a))))
    (h : ∀ field ∈ optionalField keyword (value.map f), field.2.toBson.Fits) :
    ((optionalField keyword (value.map f)).map Plain.rawField).foldlM (readKeyword child) k =
      .ok (next (value.map g)) := by
  cases value with
  | none => exact congrArg Except.ok hnone.symm
  | some a => exact foldlM_field (hsome a (h (keyword, f a) List.mem_cons_self))

theorem foldlM_propertiesField {ps : Option (List (String × Validator))}
    {piece : List (String × Plain)} (hpiece : propertiesField? ps room = some piece)
    (hchild : ∀ list ∈ ps, ∀ p ∈ list, Reads child room p.2)
    (next : Option (List (String × Validator)) → Keywords) (hnone : next none = k)
    (hsome : ∀ value list, readProperties child value = .ok list →
      readKeyword child k ⟨"properties", value⟩ = .ok (next (some list)))
    (h : ∀ field ∈ piece, field.2.toBson.Fits) :
    (piece.map Plain.rawField).foldlM (readKeyword child) k =
      .ok (next (ps.map normalProperties)) := by
  cases ps with
  | none =>
      cases hpiece
      exact congrArg Except.ok hnone.symm
  | some list =>
      rw [propertiesField?_some] at hpiece
      obtain ⟨fields, hfields, rfl⟩ := Option.map_eq_some_iff.1 hpiece
      have hread := readProperties_raw hfields (hchild list rfl) (h _ List.mem_cons_self)
      exact foldlM_field (hsome _ _ hread)

theorem foldlM_itemsField {items : Option ItemList} {piece : List (String × Plain)}
    (hpiece : itemsField? items room = some piece)
    (hchild : ∀ i ∈ items, ∀ v ∈ i.schemas, Reads child room v)
    (next : Option ItemList → Keywords) (hnone : next none = k)
    (hsome : ∀ value i, readItems child value = .ok i →
      readKeyword child k ⟨"items", value⟩ = .ok (next (some i)))
    (h : ∀ field ∈ piece, field.2.toBson.Fits) :
    (piece.map Plain.rawField).foldlM (readKeyword child) k =
      .ok (next (items.map normalItems)) := by
  cases items with
  | none =>
      cases hpiece
      exact congrArg Except.ok hnone.symm
  | some i =>
      rw [itemsField?_some] at hpiece
      obtain ⟨documents, hdocuments, rfl⟩ := Option.map_eq_some_iff.1 hpiece
      have hread := readItems_raw hdocuments (hchild i rfl) (h _ List.mem_cons_self)
      exact foldlM_field (hsome _ _ hread)

theorem foldlM_listField {keyword : String} {list : Option (List Validator)}
    {piece : List (String × Plain)} (hpiece : listField? keyword list room = some piece)
    (hchild : ∀ vs ∈ list, ∀ v ∈ vs, Reads child room v)
    (next : Option (List Validator) → Keywords) (hnone : next none = k)
    (hsome : ∀ value vs, readList child keyword value = .ok vs →
      readKeyword child k ⟨keyword, value⟩ = .ok (next (some vs)))
    (h : ∀ field ∈ piece, field.2.toBson.Fits) :
    (piece.map Plain.rawField).foldlM (readKeyword child) k =
      .ok (next (list.map (List.map normal))) := by
  cases list with
  | none =>
      cases hpiece
      exact congrArg Except.ok hnone.symm
  | some vs =>
      rw [listField?_some] at hpiece
      obtain ⟨documents, hdocuments, rfl⟩ := Option.map_eq_some_iff.1 hpiece
      have hread := readList_raw hdocuments (hchild vs rfl) (h _ List.mem_cons_self) keyword
      exact foldlM_field (hsome _ _ hread)

/-- The document of the keywords reads back as the keywords, in their normal form. -/
theorem foldlM_fields? {fields : List (String × Plain)} (hfields : k.fields? room = some fields)
    (hchild : ∀ c ∈ k.children, Reads child room c)
    (h : ∀ field ∈ fields, field.2.toBson.Fits) :
    Validator.of <$> (fields.map Plain.rawField).foldlM (readKeyword child) .blank =
      .ok (of k).normal := by
  obtain ⟨properties, items, anyOf, oneOf, hproperties, hitems, hanyOf, honeOf, rfl⟩ :=
    Keywords.fields?_eq_some.1 hfields
  simp only [Keywords.mem_children, or_imp, forall_and] at hchild
  obtain ⟨hchildProperties, hchildItems, hchildAnyOf, hchildOneOf⟩ := hchild
  simp only [List.forall_mem_append] at h
  obtain ⟨⟨⟨⟨⟨⟨⟨htypes, hps⟩, hrequired⟩, hadditional⟩, his⟩, hmaxItems⟩, has⟩, hos⟩ := h
  have r₁ := foldlM_optionalField child TypeNames.normal
    (fun types => ⟨types, none, none, none, none, none, none, none⟩) rfl
    (fun t ht => by simp only [readKeyword, readTypeNames_raw ht]; rfl) htypes
  have r₂ := foldlM_propertiesField hproperties
    (fun list hlist p hp => hchildProperties _ ⟨list, hlist, p, hp, rfl⟩)
    (fun ps => ⟨k.bsonType.map .normal, ps, none, none, none, none, none, none⟩) rfl
    (fun value list hlist => by simp only [readKeyword, hlist]; rfl) hps
  have r₃ := foldlM_optionalField child id
    (fun required => ⟨k.bsonType.map .normal, k.properties.map normalProperties, required, none,
      none, none, none, none⟩) rfl
    (fun names hnames => by simp only [readKeyword, readStrings_raw hnames]; rfl) hrequired
  have r₄ := foldlM_optionalField child id
    (fun additional => ⟨k.bsonType.map .normal, k.properties.map normalProperties,
      k.required.map id, additional, none, none, none, none⟩) rfl
    (fun b _ => by simp only [readKeyword, Plain.toBson, Bson.bool?_raw]; rfl) hadditional
  have r₅ := foldlM_itemsField hitems
    (fun i hi v hv => hchildItems v ⟨i, hi, hv⟩)
    (fun items => ⟨k.bsonType.map .normal, k.properties.map normalProperties,
      k.required.map id, k.additionalProperties.map id, items, none, none, none⟩) rfl
    (fun value i hi => by simp only [readKeyword, hi]; rfl) his
  have r₆ := foldlM_optionalField child id
    (fun maxItems => ⟨k.bsonType.map .normal, k.properties.map normalProperties,
      k.required.map id, k.additionalProperties.map id, k.items.map normalItems, maxItems, none,
      none⟩) rfl
    (fun n _ => by simp only [readKeyword, Plain.toBson, Bson.int64?_raw_ofInt64]; rfl) hmaxItems
  have r₇ := foldlM_listField hanyOf
    (fun vs hvs v hv => hchildAnyOf v ⟨vs, hvs, hv⟩)
    (fun anyOf => ⟨k.bsonType.map .normal, k.properties.map normalProperties,
      k.required.map id, k.additionalProperties.map id, k.items.map normalItems,
      k.maxItems.map id, anyOf, none⟩) rfl
    (fun value vs hvs => by simp only [readKeyword, hvs]; rfl) has
  have r₈ := foldlM_listField honeOf
    (fun vs hvs v hv => hchildOneOf v ⟨vs, hvs, hv⟩)
    (fun oneOf => ⟨k.bsonType.map .normal, k.properties.map normalProperties,
      k.required.map id, k.additionalProperties.map id, k.items.map normalItems,
      k.maxItems.map id, k.anyOf.map (List.map normal), oneOf⟩) rfl
    (fun value vs hvs => by simp only [readKeyword, hvs]; rfl) hos
  have hfold := foldlM_append_of_ok (foldlM_append_of_ok (foldlM_append_of_ok (foldlM_append_of_ok
    (foldlM_append_of_ok (foldlM_append_of_ok (foldlM_append_of_ok r₁ r₂) r₃) r₄) r₅) r₆) r₇) r₈
  simp only [← List.map_append] at hfold
  rw [Keywords.blank, hfold, normal_of]
  simp only [Option.map_id, id]
  rfl

/-- A written validator is read back by a reader that goes as deep. -/
theorem reads_readWithin (room : Nat) (v : Validator) : Reads (readWithin room) room v := by
  induction room generalizing v with
  | zero =>
      intro fields hfields
      cases v <;> simp [fields?] at hfields
  | succ room ih =>
      intro fields hfields hfits
      rw [readWithin, Plain.elements?_record hfits]
      cases v with
      | absent =>
          cases hfields
          rw [normal_absent]
          rfl
      | of k => exact foldlM_fields? hfields (fun c _ => ih c) (Plain.fits_of_mem_record hfits)

/-- The bytes of a validator that does not nest too deeply, however many they are. -/
def encoding (v : Validator) : List UInt8 :=
  encodeDocument (Plain.fieldsToBson ((v.fields? maxDepth).getD []))

theorem encoding_of_fields? {v : Validator} {fields : List (String × Plain)}
    (h : v.fields? maxDepth = some fields) :
    v.encoding = encodeDocument (Plain.fieldsToBson fields) := by
  rw [encoding, h, Option.getD_some]

theorem toBytes_of_fields? {v : Validator} {fields : List (String × Plain)}
    (h : v.fields? maxDepth = some fields) : v.toBytes = Plain.toBytes fields := by
  rw [toBytes, toFields, h]
  rfl

theorem toFields_eq_ok {v : Validator} {fields : List (String × Plain)} :
    v.toFields = .ok fields ↔ v.fields? maxDepth = some fields := by
  rw [toFields]
  cases v.fields? maxDepth <;> simp

theorem ofBytes_of_fields? {v : Validator} {fields : List (String × Plain)}
    (hfields : v.fields? maxDepth = some fields) (hfits : (Plain.record fields).toBson.Fits) :
    ofBytes (encodeDocument (Plain.fieldsToBson fields)) = .ok v.normal := by
  have hroom : Int.toNat maxDepth = maxDepth := rfl
  rw [ofBytes, ofBytesWithin, hroom, reads_readWithin maxDepth v fields hfields hfits]

end Validator

/-- A validator that nests no deeper than 2048 levels and has no zero in a property's
name is written in fewer than 2^31 bytes, and reads back in its normal form, which is
written with the same bytes.  One that is deeper or larger is not written. -/
theorem Validator.ofBytes_toBytes (v : Validator) :
    (2048 < v.nesting → v.toBytes = .error .validatorTooDeep) ∧
      (v.nesting ≤ 2048 → v.namesZeroFree = true →
        (v.encoding.length < 2 ^ 31 →
          v.toBytes = .ok v.encoding ∧ ofBytes v.encoding = .ok v.normal ∧
            v.normal.toBytes = .ok v.encoding) ∧
        (2 ^ 31 ≤ v.encoding.length → ∃ size, 2 ^ 31 ≤ size ∧
          v.toBytes = .error (Bson.WriteError.oversized size).failure)) := by
  refine ⟨fun hdeep => ?_, fun hnesting hnames => ?_⟩
  · have hnone : v.fields? maxDepth = none := by
      rw [← Option.not_isSome_iff_eq_none, isSome_fields?_iff]
      exact Nat.not_le_of_lt hdeep
    simp only [toBytes, toFields, hnone]
    rfl
  · obtain ⟨fields, hfields⟩ := Option.isSome_iff_exists.1 (isSome_fields?_iff.2 hnesting)
    have hwritable := isWritable_of_fields? hnames hfields
    have hencoding := encoding_of_fields? hfields
    refine ⟨fun hsize => ?_, fun hsize => ?_⟩ <;> rw [hencoding] at hsize
    · have hfits : (Plain.record fields).toBson.Fits := ⟨hwritable, hsize⟩
      have hbytes : v.toBytes = .ok v.encoding := by
        rw [toBytes_of_fields? hfields, hencoding, Plain.toBytes_of_fits hfits]
      refine ⟨hbytes, hencoding ▸ ofBytes_of_fields? hfields hfits, ?_⟩
      rw [← hbytes, toBytes, toBytes, toFields, toFields, fields?_normal]
    · rw [toBytes_of_fields? hfields]
      exact Plain.toBytes_of_large hwritable hsize

/-- A list of two aliases and one of no items that were held as single ones, a property
twice, once without a validator, and a bound beyond 32 bits; and 2048 levels around a
validator that is not there. -/
theorem Validator.ofBytes_toBytes_nested :
    let numbers (items : ItemList) : Validator :=
      .of ⟨none, none, none, none, some items, some 2147483648, none, none⟩
    let order (types : TypeNames) (note total : Validator) : Validator :=
      .of ⟨some types, some [("a", note), ("a", total)], some [], none, none, none, none, none⟩
    let v := order ⟨["object", "null"], false⟩ .absent (numbers ⟨[], false⟩)
    let back := order ⟨["object", "null"], true⟩ .empty (numbers ⟨[], true⟩)
    let wrap (v : Validator) : Validator :=
      .of ⟨none, none, none, none, none, none, some [v], none⟩
    v.normal = back ∧
      v.encoding.length = 124 ∧
      (v.toBytes = .ok v.encoding ∧ ofBytes v.encoding = .ok back ∧
        back.toBytes = .ok v.encoding) ∧
      (Nat.repeat wrap 2048 .absent).toBytes = .error .validatorTooDeep := by
  intro numbers order v back wrap
  have hnumbers : (numbers ⟨[], false⟩).normal = numbers ⟨[], true⟩ := normal_of _
  have hnormal : v.normal = back := by
    simp only [v, order, normal_of, Option.map_some, normalProperties, List.map_cons, normal_absent,
      hnumbers]
    rfl
  have hnesting : v.nesting ≤ 2048 := isSome_fields?_iff.1 rfl
  have hname : isZeroFree "a" = true := by decide
  have hnames : v.namesZeroFree = true := by
    simp [v, order, numbers, namesZeroFree, Keywords.children, hname]
  have hlength : v.encoding.length = 124 := by rfl
  obtain ⟨hbytes, hback, hagain⟩ := ((ofBytes_toBytes v).2 hnesting hnames).1 (by omega)
  rw [hnormal] at hback hagain
  have hdeep (n : Nat) : n < (Nat.repeat wrap n .absent).nesting := by
    induction n with
    | zero => exact nesting_pos _
    | succ n ih =>
        rw [Nat.repeat, ← Nat.not_le, nesting_of_le_iff]
        intro h
        exact absurd (h _ List.mem_cons_self) (Nat.not_le.2 ih)
  exact ⟨hnormal, hlength, ⟨hbytes, hback, hagain⟩, (ofBytes_toBytes _).1 (hdeep 2048)⟩

end DocShape
