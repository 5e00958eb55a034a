import DocShape.Diagram.Format
import DocShape.Proofs.ValidatorBytes
import DocShape.Proofs.WrittenValidators

/-!
# Diagrams through bytes

The bytes of a diagram hold its entities in order, each with the validator of its
schema.  A diagram of canonical schemas that its validators can describe reads back
from them, and diagrams that agree have the same bytes.
-/

namespace DocShape

open Bson (Value)

/-! ## Fields of a record -/

theorem Plain.strictElements?_record {fields : List (String × Plain)}
    (h : (record fields).toBson.Fits) :
    Bson.strictElements? (Bson.encodeDocument (fieldsToBson fields)) =
      some (fields.map rawField) := by
  rw [Bson.strictElements?_encodeDocument h, fieldsToBson_eq_map, List.map_map]
  rfl

theorem FieldMap.withValue_eq_ok {α β : Type} {f : String → α → Outcome β} {entry : String × α}
    {out : String × β} :
    withValue f entry = .ok out ↔ ∃ value, f entry.1 entry.2 = .ok value ∧ (entry.1, value) = out := by
  simp only [withValue, Outcome.bind_eq_ok, Outcome.pure_eq_ok]

namespace DiagramRecord

theorem readText_raw (s : String) : readText (Plain.text s).toBson.raw = .ok s := by
  have hdata : (((Plain.text s).toBson.raw).data.drop 4).reverse =
      0 :: (Bytes.ofText s).reverse := by
    rw [← List.reverse_concat, ← Bson.drop_sizedText]
    rfl
  have htype : ((Plain.text s).toBson.raw).type = .string := rfl
  simp only [readText, htype, hdata, List.reverse_reverse, Bytes.toText_ofText]

theorem readElements_raw {fields : List (String × Plain)}
    (h : (Plain.record fields).toBson.Fits) (wanted : String) :
    readElements wanted (Plain.record fields).toBson.raw =
      .ok (some (fields.map Plain.rawField)) := by
  have helements : Bson.strictElements? (Plain.record fields).toBson.raw.data =
    some (fields.map Plain.rawField) := Plain.strictElements?_record h
  have htype : (Plain.record fields).toBson.raw.type = .document := rfl
  simp only [readElements, htype, helements]

private theorem readTexts_raw {names : List String} (h : (Plain.list (names.map .text)).toBson.Fits) :
    readTexts (Plain.list (names.map .text)).toBson.raw = .ok names := by
  obtain ⟨elements, helements, hvalues⟩ := Bson.strictElements?_encode_array h
  have htype : (Plain.list (names.map .text)).toBson.raw.type = .array := rfl
  have hdata : Bson.strictElements? (Plain.list (names.map .text)).toBson.raw.data =
    some elements := helements
  have hraw : elements.map Bson.RawElement.value =
      names.map fun s => (Plain.text s).toBson.raw := by
    rw [hvalues, Plain.itemsToBson_eq_map, List.map_map, List.map_map]
    rfl
  have hread : elements.mapM (fun e => readText e.value) = .ok names := by
    calc elements.mapM (fun e => readText e.value)
        = (elements.map Bson.RawElement.value).mapM readText := by rw [List.mapM_map]; rfl
      _ = names.mapM fun s => readText (Plain.text s).toBson.raw := by
          rw [hraw, List.mapM_map]
          rfl
      _ = names.mapM pure := Outcome.mapM_congr fun s _ => readText_raw s
      _ = .ok names := by rw [List.mapM_pure, List.map_id']; rfl
  simp only [readTexts, htype, hdata, hread]

/-! ## Entities -/

private theorem readEntityField_fold {e : EntityRecord} {fields : List (String × Plain)} (path : String)
    (hfields : e.toFields = .ok fields) (hfits : (Plain.record fields).toBson.Fits)
    (hnormal : e.validator.normal = e.validator) :
    (fields.map Plain.rawField).foldlM (readEntityField path) .blank = .ok e := by
  rw [EntityRecord.toFields, Outcome.bind_eq_ok] at hfields
  obtain ⟨keywords, hkeywords, heq⟩ := hfields
  cases heq
  have hpart := Plain.fits_of_mem_record hfits
  simp only [List.forall_mem_cons] at hpart
  obtain ⟨-, -, hkey, hschema, -⟩ := hpart
  -- One step for each field that was written, from nothing said to the whole entity.
  have hdatabase : readEntityField path .blank (Plain.rawField ("db", .text e.database)) =
      .ok ⟨e.database, "", [], .absent⟩ := by
    simp [readEntityField, Plain.rawField, fieldName, readText_raw, atField, Outcome.inContext,
      EntityRecord.blank]
  have hcollection : readEntityField path ⟨e.database, "", [], .absent⟩
      (Plain.rawField ("collection", .text e.collection)) =
        .ok ⟨e.database, e.collection, [], .absent⟩ := by
    simp [readEntityField, Plain.rawField, fieldName, readText_raw, atField, Outcome.inContext]
  have hprimaryKey : readEntityField path ⟨e.database, e.collection, [], .absent⟩
      (Plain.rawField ("primaryKey", .list (e.primaryKey.map .text))) =
        .ok ⟨e.database, e.collection, e.primaryKey, .absent⟩ := by
    simp [readEntityField, Plain.rawField, fieldName, readTexts_raw hkey, atField,
      Outcome.inContext]
  have hvalidator : readEntityField path ⟨e.database, e.collection, e.primaryKey, .absent⟩
      (Plain.rawField ("jsonSchema", .record keywords)) = .ok e := by
    have hread : Validator.ofBytes (Plain.record keywords).toBson.raw.data = .ok e.validator := by
      rw [← hnormal]
      exact Validator.ofBytes_of_fields? (Validator.toFields_eq_ok.1 hkeywords) hschema
    have htype : (Plain.record keywords).toBson.raw.type = .document := rfl
    simp [readEntityField, Plain.rawField, fieldName, hread, htype, atField, Outcome.inContext]
  simp only [List.map_cons, List.map_nil, List.foldlM_cons, List.foldlM_nil, Outcome.bind_eq_ok]
  exact ⟨_, hdatabase, _, hcollection, _, hprimaryKey, _, hvalidator, rfl⟩

private theorem readEntity_rawField {entry : String × EntityRecord} {field : String × Plain}
    (hfield : FieldMap.withValue (fun _ e => EntityRecord.toPlain e) entry = .ok field) (hfits : field.2.toBson.Fits)
    (hnormal : entry.2.validator.normal = entry.2.validator) (r : DiagramRecord) :
    readEntity r (Plain.rawField field) =
      .ok { r with entities := r.entities.insert entry.1 entry.2 } := by
  simp only [FieldMap.withValue_eq_ok, EntityRecord.toPlain, Outcome.bind_eq_ok,
    Outcome.pure_eq_ok] at hfield
  obtain ⟨_, ⟨fields, hfields, rfl⟩, rfl⟩ := hfield
  have helements := readElements_raw hfits "a struct"
  have hread := readEntityField_fold ("entities." ++ entry.1) hfields hfits hnormal
  simp only [readEntity, Plain.rawField, helements, atField, Outcome.inContext,
    Outcome.bind_eq_ok, Outcome.pure_eq_ok]
  exact ⟨_, rfl, _, hread, rfl⟩

/-- Each entity that is read is added to those before it. -/
theorem foldlM_readEntity {entries : List (String × EntityRecord)}
    {fields : List (String × Plain)} 
    (hfields : entries.mapM (FieldMap.withValue fun _ e => e.toPlain) = .ok fields)
    (hfits : ∀ field ∈ fields, field.2.toBson.Fits)
    (hnormal : ∀ entry ∈ entries, entry.2.validator.normal = entry.2.validator)
    (r : DiagramRecord) :
    (fields.map Plain.rawField).foldlM readEntity r =
      .ok { r with entities :=
        entries.foldl (fun acc entry => acc.insert entry.1 entry.2) r.entities } := by
  induction entries generalizing fields r with
  | nil =>
      rw [List.mapM_nil, Outcome.pure_eq_ok] at hfields
      rw [← hfields]
      rfl
  | cons entry entries ih =>
      simp only [List.mapM_cons, Outcome.bind_eq_ok, Outcome.pure_eq_ok] at hfields
      obtain ⟨field, hfield, rest, hrest, rfl⟩ := hfields
      obtain ⟨hhead, htail⟩ := List.forall_mem_cons.1 hfits
      obtain ⟨hentry, hentries⟩ := List.forall_mem_cons.1 hnormal
      rw [List.map_cons, List.foldlM_cons, readEntity_rawField hfield hhead hentry, List.foldl_cons]
      exact ih hrest htail hentries _

/-! ## Records -/

theorem toFields_eq_ok {r : DiagramRecord} {fields : List (String × Plain)} :
    r.toFields = .ok fields ↔
      ∃ entities, r.entities.entries.mapM (FieldMap.withValue fun _ e => e.toPlain) = .ok entities ∧
        [("schemaName", .text r.name), ("entities", .record entities)] = fields := by
  simp only [toFields, FieldMap.mapValuesM, Outcome.bind_eq_ok, Outcome.pure_eq_ok]

private theorem toBytes_eq_ok {r : DiagramRecord} {bytes : List UInt8} (h : r.toBytes = .ok bytes) :
    ∃ fields, r.toFields = .ok fields ∧ (Plain.record fields).toBson.Fits ∧
      Bson.encodeDocument (Plain.fieldsToBson fields) = bytes := by
  simp only [toBytes, Outcome.bind_eq_ok] at h
  obtain ⟨fields, hfields, hbytes⟩ := h
  exact ⟨fields, hfields, Plain.fits_of_toBytes hbytes⟩

/-- A record comes back from its bytes, if its validators are in their normal form. -/
theorem ofBytes_of_toBytes {r : DiagramRecord} {bytes : List UInt8}
    (hnormal : ∀ entry ∈ r.entities.entries, entry.2.validator.normal = entry.2.validator)
    (h : r.toBytes = .ok bytes) : ofBytes bytes = .ok r := by
  obtain ⟨fields, hfields, hfits, rfl⟩ := toBytes_eq_ok h
  obtain ⟨entities, hentities, rfl⟩ := toFields_eq_ok.1 hfields
  have hpart : (Plain.record entities).toBson.Fits :=
    Plain.fits_of_mem_record hfits ("entities", .record entities) (by simp)
  have hname : readField blank (Plain.rawField ("schemaName", .text r.name)) =
      .ok ⟨r.name, .empty⟩ := by
    simp [readField, Plain.rawField, fieldName, readText_raw, atField, Outcome.inContext, blank]
  have hmap : readField ⟨r.name, .empty⟩ (Plain.rawField ("entities", .record entities)) = .ok r := by
    have hread := foldlM_readEntity hentities (Plain.fits_of_mem_record hpart) hnormal ⟨r.name, .empty⟩
    -- Entities that come in order are inserted one after the other.
    have hlist : r.entities.entries.foldl (fun acc entry => acc.insert entry.1 entry.2) .empty =
      r.entities := r.entities.ofList_entries
    rw [hlist] at hread
    simp only [readField, Plain.rawField, readElements_raw hpart, atField, Outcome.inContext]
    exact hread
  have hfold : ([("schemaName", .text r.name), ("entities", .record entities)].map
      Plain.rawField).foldlM readField blank = .ok r := by
    simp only [List.map_cons, List.map_nil, List.foldlM_cons, List.foldlM_nil, Outcome.bind_eq_ok]
    exact ⟨_, hname, _, hmap, rfl⟩
  rw [ofBytes, Plain.strictElements?_record hfits]
  simp only [hfold]

end DiagramRecord

/-! ## Diagrams -/

/-- The entity without the statistics of its schema. -/
def Entity.bare (e : Entity) : Entity :=
  { e with schema := e.schema.bare }

/-- Entities that say the same of a collection. -/
structure Entity.Agrees (a b : Entity) : Prop where
  database : a.database = b.database
  collection : a.collection = b.collection
  primaryKey : a.primaryKey = b.primaryKey
  schema : a.schema.same b.schema = true

theorem Entity.agrees_iff_bare_eq {a b : Entity} : a.Agrees b ↔ a.bare = b.bare := by
  cases a
  cases b
  simp only [Entity.bare, Entity.mk.injEq, ← Schema.same_iff_bare_eq]
  exact ⟨fun h => ⟨h.database, h.collection, h.primaryKey, h.schema⟩,
    fun h => ⟨h.1, h.2.1, h.2.2.1, h.2.2.2⟩⟩

namespace Diagram

/-- The diagram without the statistics of its schemas. -/
def bare (d : Diagram) : Diagram :=
  ⟨d.name, d.entities.mapValues Entity.bare⟩

/-- Diagrams of one name whose entities have the same names and say the same. -/
structure Agrees (a b : Diagram) : Prop where
  name : a.name = b.name
  entityNames : a.entityNames = b.entityNames
  entity : ∀ name x y, a.entities.find? name = some x → b.entities.find? name = some y → x.Agrees y

/-- Validators can say everything about the diagram: the schemas of its entities are
canonical, admit something and can be written. -/
structure Writable (d : Diagram) : Prop where
  canonical : ∀ entry ∈ d.entities.entries, entry.2.schema.Canonical
  satisfiable : ∀ entry ∈ d.entities.entries, entry.2.schema ≠ .unsat
  writable : ∀ entry ∈ d.entities.entries, entry.2.schema.Everywhere Schema.WritableHere

theorem entityNames_bare (d : Diagram) : d.bare.entityNames = d.entityNames :=
  d.entities.names_mapValues Entity.bare

theorem find?_bare (d : Diagram) (name : String) :
    d.bare.entities.find? name = (d.entities.find? name).map Entity.bare :=
  d.entities.find?_mapValues Entity.bare name

theorem bare_agrees (d : Diagram) : d.bare.Agrees d where
  name := rfl
  entityNames := d.entityNames_bare
  entity := by
    intro name x y hx hy
    rw [find?_bare, hy, Option.map_some, Option.some.injEq] at hx
    have hself : y.schema.compare y.schema = .eq := Std.ReflCmp.compare_self
    rw [← hx]
    refine ⟨rfl, rfl, rfl, ?_⟩
    rw [Entity.bare, Schema.same, Schema.compare_bare_left, hself]
    rfl

theorem Agrees.bare_eq {a b : Diagram} (h : a.Agrees b) : a.bare = b.bare := by
  have hentities : a.bare.entities = b.bare.entities := by
    refine NameMap.ext_of_find? fun name => ?_
    have hfound : (∃ x, a.entities.find? name = some x) ↔
        ∃ y, b.entities.find? name = some y := by
      rw [NameMap.exists_find?_iff, NameMap.exists_find?_iff]
      exact iff_of_eq (congrArg (name ∈ ·) h.entityNames)
    rw [find?_bare, find?_bare]
    cases hx : a.entities.find? name with
    | some x =>
        obtain ⟨y, hy⟩ := hfound.1 ⟨x, hx⟩
        rw [hy, Option.map_some, Option.map_some,
          Entity.agrees_iff_bare_eq.1 (h.entity name x y hx hy)]
    | none =>
        cases hy : b.entities.find? name with
        | none => rfl
        | some y =>
            obtain ⟨x, hfind⟩ := hfound.2 ⟨y, hy⟩
            rw [hx] at hfind
            cases hfind
  rw [bare, bare, h.name]
  exact congrArg (Diagram.mk b.name) hentities

/-! ## Records of diagrams -/

/-- The record of an entity, under its name. -/
abbrev entityRecord : String × Entity → Outcome (String × EntityRecord) :=
  FieldMap.withValue Entity.toRecord

theorem toRecord_eq_ok {d : Diagram} {r : DiagramRecord} :
    d.toRecord = .ok r ↔
      d.entities.entries.mapM entityRecord = .ok r.entities.entries ∧ d.name = r.name := by
  simp only [toRecord, Outcome.bind_eq_ok, Outcome.pure_eq_ok, NameMap.mapValuesM_eq_ok]
  constructor
  · rintro ⟨entities, hentities, rfl⟩
    exact ⟨hentities, rfl⟩
  · rintro ⟨hentities, hname⟩
    exact ⟨r.entities, hentities, by rw [hname]⟩

theorem entityRecord_eq_ok {entry : String × Entity} {kept : String × EntityRecord} :
    entityRecord entry = .ok kept ↔
      ∃ v, entry.2.schema.toValidator Settings.standard.maxDepth = .ok v ∧
        (entry.1, ⟨entry.2.database, entry.2.collection, entry.2.primaryKey, v⟩) = kept := by
  simp only [FieldMap.withValue_eq_ok, Entity.toRecord, Outcome.bind_eq_ok, Outcome.inContext_eq_ok,
    Outcome.pure_eq_ok]
  constructor
  · rintro ⟨_, ⟨v, hv, rfl⟩, rfl⟩
    exact ⟨v, hv, rfl⟩
  · rintro ⟨v, hv, rfl⟩
    exact ⟨_, ⟨v, hv, rfl⟩, rfl⟩

theorem toRecord_bare {d : Diagram} (hd : ∀ entry ∈ d.entities.entries, entry.2.schema.Canonical) :
    d.bare.toRecord = d.toRecord := by
  have hentities : d.bare.entities.entries.mapM entityRecord =
      d.entities.entries.mapM entityRecord := by
    rw [bare, NameMap.mapValues, List.mapM_map]
    refine Outcome.mapM_congr fun entry hmem => ?_
    simp only [Function.comp_apply, FieldMap.withValue, Entity.toRecord, Entity.bare,
      Schema.toValidator_bare (hd entry hmem)]
  rw [toRecord, toRecord, NameMap.mapValuesM_congr hentities]
  rfl

private theorem toEntity_of_entityRecord {entry : String × Entity} {kept : String × EntityRecord}
    (hcanonical : entry.2.schema.Canonical) (hsatisfiable : entry.2.schema ≠ .unsat)
    (hwritable : entry.2.schema.Everywhere Schema.WritableHere)
    (h : entityRecord entry = .ok kept) :
    FieldMap.withValue (EntityRecord.toEntity Settings.standard.maxDepth) kept =
      .ok (entry.1, entry.2.bare) := by
  obtain ⟨v, hv, rfl⟩ := entityRecord_eq_ok.1 h
  have hback := Schema.ofValidator_of_toValidator
    (hwritable.imp fun _ => Schema.WritableHere.named) hv
  rw [Schema.echo_of_canonical hcanonical hwritable hsatisfiable] at hback
  simp only [FieldMap.withValue, EntityRecord.toEntity, hback]
  rfl

private theorem toDiagram_of_toRecord {d : Diagram} {r : DiagramRecord} (hd : d.Writable)
    (h : d.toRecord = .ok r) : r.toDiagram Settings.standard.maxDepth = .ok d.bare := by
  obtain ⟨hentities, hname⟩ := toRecord_eq_ok.1 h
  have hread := Outcome.mapM_of_mapM (fun entry hmem kept hkept =>
    toEntity_of_entityRecord (hd.canonical entry hmem) (hd.satisfiable entry hmem)
      (hd.writable entry hmem) hkept) hentities
  have hmap : r.entities.mapValuesM (EntityRecord.toEntity Settings.standard.maxDepth) =
    .ok d.bare.entities := NameMap.mapValuesM_eq_ok.2 hread
  rw [DiagramRecord.toDiagram, hmap, ← hname]
  rfl

theorem ofBytes_of_toBytes {d : Diagram} {bytes : List UInt8} (hd : d.Writable)
    (h : d.toBytes = .ok bytes) : ofBytes bytes Settings.standard.maxDepth = .ok d.bare := by
  rw [toBytes, Outcome.bind_eq_ok] at h
  obtain ⟨r, hr, hbytes⟩ := h
  have hdiagram := toDiagram_of_toRecord hd hr
  obtain ⟨hentities, -⟩ := toRecord_eq_ok.1 hr
  have hread := DiagramRecord.ofBytes_of_toBytes (fun kept hkept => by
    obtain ⟨entry, -, hentry⟩ := (Outcome.mem_iff_of_mapM hentities).1 hkept
    obtain ⟨v, hv, rfl⟩ := entityRecord_eq_ok.1 hentry
    exact Schema.normal_of_toValidator hv) hbytes
  rw [ofBytes, hread]
  exact hdiagram

/-- A diagram that validators can describe reads back from its bytes, within the
standard limit, as one that agrees with it; and those that agree are written alike. -/
theorem decode_encode_bson {d : Diagram} (hd : d.Writable) :
    (∀ bytes, d.encode .bson = .ok bytes →
      ∃ r, decode bytes .bson Settings.standard.maxDepth = .ok r ∧ r.Agrees d) ∧
    ∀ e : Diagram, e.Writable → d.Agrees e → d.encode .bson = e.encode .bson := by
  refine ⟨fun bytes hbytes => ⟨d.bare, ofBytes_of_toBytes hd hbytes, d.bare_agrees⟩,
    fun e he hagrees => ?_⟩
  -- Both have the record of the one diagram that is left without statistics.
  have hrecords : d.toRecord = e.toRecord := by
    rw [← toRecord_bare hd.canonical, hagrees.bare_eq, toRecord_bare he.canonical]
  show d.toBytes = e.toBytes
  rw [toBytes, toBytes, hrecords]

/-- An entity without a key whose documents may be anything, and one with statistics,
an empty list and a required field without a schema. -/
theorem decode_encode_bson_shop :
    let shop (jaccard : Option Jaccard) : Diagram :=
      ⟨"shop", [("customers", ⟨"db", "customers", [], .any⟩),
        ("orders", ⟨"db", "orders", ["_id"], .document
          ⟨[("_id", .atomic .objectId), ("tags", .array .unsat)], ["_id", "note"], false, [],
            jaccard⟩⟩)], (by decide +kernel : NameSet.Ordered ["customers", "orders"])⟩
    let fresh := shop none
    let observed := shop (some (.fresh 0.5))
    fresh.Writable ∧ observed.Writable ∧ fresh.Agrees observed ∧
      ∃ bytes r, fresh.encode .bson = .ok bytes ∧ observed.encode .bson = .ok bytes ∧
        decode bytes .bson Settings.standard.maxDepth = .ok r ∧ r.Agrees fresh := by
  intro shop fresh observed
  have hfresh : fresh.Writable :=
    ⟨by decide +kernel, by simp [fresh, shop], by decide +kernel⟩
  have hobserved : observed.Writable :=
    ⟨by decide +kernel, by simp [observed, shop], by decide +kernel⟩
  have hagrees : fresh.Agrees observed := observed.bare_agrees
  have hwritten : (fresh.encode .bson).toBool = true := by decide +kernel
  cases hbytes : fresh.encode .bson with
  | error f =>
      rw [hbytes] at hwritten
      cases hwritten
  | ok bytes =>
      obtain ⟨hread, hsame⟩ := decode_encode_bson hfresh
      obtain ⟨r, hr, hback⟩ := hread bytes hbytes
      have hobservedBytes := (hsame observed hobserved hagrees).symm.trans hbytes
      exact ⟨hfresh, hobserved, hagrees, bytes, r, rfl, hobservedBytes, hr, hback⟩

end Diagram

end DocShape
