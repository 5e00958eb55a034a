import DocShape.Validator.Binary
import DocShape.Proofs.BinaryDocuments
import Mathlib.Data.List.Forall2

/-!
# The document of a validator

A validator is written as a document of its keywords.  It can be if it does not
nest too deeply and no name in it holds a zero.  The document does not tell a
validator that is not there from one without keywords, nor in which of two ways
a list was held that can only be written in one.
-/

namespace DocShape

open Bson (RawElement rawElement isZeroFree)

/-! ## Lists of results -/

section Results

universe u

variable {α β γ ε : Type u}

theorem mapM_eq_some_iff {f : α → Option β} {xs : List α} {ys : List β} :
    xs.mapM f = some ys ↔ List.Forall₂ (fun x y => f x = some y) xs ys := by
  induction xs generalizing ys with
  | nil => simp [eq_comm]
  | cons x rest ih =>
      simp only [List.mapM_cons, Option.bind_eq_bind, Option.bind_eq_some_iff, Option.pure_def,
        Option.some.injEq, List.forall₂_cons_left_iff, ih]
      constructor
      · rintro ⟨y, hy, others, hothers, rfl⟩
        exact ⟨y, others, hy, hothers, rfl⟩
      · rintro ⟨y, others, hy, hothers, rfl⟩
        exact ⟨y, hy, others, hothers, rfl⟩

theorem isSome_mapM (f : α → Option β) (xs : List α) :
    (xs.mapM f).isSome = xs.all fun x => (f x).isSome := by
  induction xs with
  | nil => rfl
  | cons x rest ih =>
      rw [List.all_cons, ← ih, List.mapM_cons]
      cases f x <;> cases rest.mapM f <;> rfl

/-- Related items that are each read as the other's image. -/
theorem mapM_of_forall₂ {r : α → β → Prop} {f : β → Except ε γ} {g : α → γ} {xs : List α}
    {ys : List β} (h : List.Forall₂ r xs ys)
    (hread : ∀ x ∈ xs, ∀ y ∈ ys, r x y → f y = .ok (g x)) : ys.mapM f = .ok (xs.map g) := by
  induction h with
  | nil => rfl
  | cons hxy _ ih =>
      have hhead := hread _ List.mem_cons_self _ List.mem_cons_self hxy
      have hrest := ih fun x hx y hy => hread x (List.mem_cons_of_mem _ hx) y
        (List.mem_cons_of_mem _ hy)
      rw [List.mapM_cons, hhead, hrest]
      rfl

end Results

/-! ## Validators inside validators -/

namespace Keywords

/-- The validators that the keywords hold. -/
def children (k : Keywords) : List Validator :=
  (k.properties.getD []).map Prod.snd ++ (k.items.map ItemList.schemas).getD []
    ++ k.anyOf.getD [] ++ k.oneOf.getD []

variable {k : Keywords} {v : Validator}

theorem mem_children :
    v ∈ k.children ↔
      (∃ list ∈ k.properties, ∃ p ∈ list, p.2 = v) ∨ (∃ i ∈ k.items, v ∈ i.schemas) ∨
        (∃ list ∈ k.anyOf, v ∈ list) ∨ ∃ list ∈ k.oneOf, v ∈ list := by
  have hgetD {o : Option (List Validator)} : v ∈ o.getD [] ↔ ∃ list ∈ o, v ∈ list := by
    cases o <;> simp
  have hproperties : v ∈ (k.properties.getD []).map Prod.snd ↔
      ∃ list ∈ k.properties, ∃ p ∈ list, p.2 = v := by
    cases k.properties <;> simp
  have hitems : v ∈ (k.items.map ItemList.schemas).getD [] ↔ ∃ i ∈ k.items, v ∈ i.schemas := by
    cases k.items <;> simp
  rw [children, List.mem_append, List.mem_append, List.mem_append, hproperties, hitems, hgetD,
    hgetD, or_assoc, or_assoc]

theorem sizeOf_lt_of_mem_children (h : v ∈ k.children) : sizeOf v < sizeOf (Validator.of k) := by
  have hlist {list : List Validator} (hv : v ∈ list) : sizeOf v < sizeOf list :=
    List.sizeOf_lt_of_mem hv
  obtain ⟨bsonType, properties, required, additionalProperties, items, maxItems, anyOf, oneOf⟩ := k
  simp only [Validator.of.sizeOf_spec, mk.sizeOf_spec]
  rcases mem_children.1 h with
    ⟨list, hp, p, hmem, rfl⟩ | ⟨i, hi, hv⟩ | ⟨list, ha, hv⟩ | ⟨list, ho, hv⟩
  · have hproperties : sizeOf properties = 1 + sizeOf list := by
      rw [show properties = some list from hp]
      rfl
    have hentry : sizeOf p = 1 + sizeOf p.1 + sizeOf p.2 := rfl
    have := List.sizeOf_lt_of_mem hmem
    omega
  · have hitems : sizeOf items = 1 + sizeOf i := by
      rw [show items = some i from hi]
      rfl
    have hschemas : sizeOf i = 1 + sizeOf i.schemas + sizeOf i.multiple := by
      cases i
      exact ItemList.mk.sizeOf_spec _ _
    have := hlist hv
    omega
  · have hanyOf : sizeOf anyOf = 1 + sizeOf list := by
      rw [show anyOf = some list from ha]
      rfl
    have := hlist hv
    omega
  · have honeOf : sizeOf oneOf = 1 + sizeOf list := by
      rw [show oneOf = some list from ho]
      rfl
    have := hlist hv
    omega

end Keywords

/-- Type aliases as they read back: a list of one may stand without brackets. -/
def TypeNames.normal (t : TypeNames) : TypeNames :=
  ⟨t.names, t.multiple || t.names.length != 1⟩

namespace Validator

/-- Levels of validators inside each other; one that is not there is a level too. -/
def nesting : Validator → Nat
  | absent => 1
  | of k => (k.children.attach.map fun c => c.1.nesting).foldr max 0 + 1
termination_by v => v
decreasing_by exact Keywords.sizeOf_lt_of_mem_children c.2

/-- Whether no property has a zero in its name, at any level. -/
def namesZeroFree : Validator → Bool
  | absent => true
  | of k =>
      (k.properties.getD []).all (fun p => isZeroFree p.1)
        && k.children.attach.all fun c => c.1.namesZeroFree
termination_by v => v
decreasing_by exact Keywords.sizeOf_lt_of_mem_children c.2

/-- The validator as it reads back. -/
def normal : Validator → Validator
  | absent => .empty
  | of k =>
      .of
        { bsonType := k.bsonType.map TypeNames.normal
          properties := k.properties.attach.map fun list =>
            list.1.attach.map fun p => (p.1.1, p.1.2.normal)
          required := k.required
          additionalProperties := k.additionalProperties
          items := k.items.attach.map fun i =>
            ⟨i.1.schemas.attach.map fun v => v.1.normal,
              i.1.multiple || i.1.schemas.length != 1⟩
          maxItems := k.maxItems
          anyOf := k.anyOf.attach.map fun list => list.1.attach.map fun v => v.1.normal
          oneOf := k.oneOf.attach.map fun list => list.1.attach.map fun v => v.1.normal }
termination_by v => v
decreasing_by
  all_goals apply Keywords.sizeOf_lt_of_mem_children
  all_goals rw [Keywords.mem_children]
  · exact .inl ⟨list.1, list.2, p.1, p.2, rfl⟩
  · exact .inr (.inl ⟨i.1, i.2, v.2⟩)
  · exact .inr (.inr (.inl ⟨list.1, list.2, v.2⟩))
  · exact .inr (.inr (.inr ⟨list.1, list.2, v.2⟩))

@[simp]
theorem nesting_absent : absent.nesting = 1 := by
  rw [nesting]

theorem nesting_of_le_iff {k : Keywords} {n : Nat} :
    (of k).nesting ≤ n + 1 ↔ ∀ c ∈ k.children, c.nesting ≤ n := by
  have hmax (list : List Nat) : list.foldr max 0 ≤ n ↔ ∀ m ∈ list, m ≤ n := by
    induction list with
    | nil => simp
    | cons m rest ih => rw [List.foldr_cons, Nat.max_le, ih, List.forall_mem_cons]
  rw [nesting, Nat.add_le_add_iff_right, hmax]
  simp

theorem nesting_pos (v : Validator) : 0 < v.nesting := by
  cases v with
  | absent => simp
  | of k =>
      rw [nesting]
      exact Nat.succ_pos _

theorem namesZeroFree_of_iff {k : Keywords} :
    (of k).namesZeroFree = true ↔
      (∀ list ∈ k.properties, ∀ p ∈ list, isZeroFree p.1 = true) ∧
        ∀ c ∈ k.children, c.namesZeroFree = true := by
  have hnames : (k.properties.getD []).all (fun p => isZeroFree p.1) = true ↔
      ∀ list ∈ k.properties, ∀ p ∈ list, isZeroFree p.1 = true := by
    cases k.properties <;> simp
  rw [namesZeroFree, Bool.and_eq_true, hnames]
  simp

@[simp]
theorem normal_absent : absent.normal = .empty := by
  rw [normal]

def normalProperties (ps : List (String × Validator)) : List (String × Validator) :=
  ps.map fun p => (p.1, p.2.normal)

/-- The validators of an items keyword as they read back. -/
def normalItems (i : ItemList) : ItemList :=
  ⟨i.schemas.map normal, i.multiple || i.schemas.length != 1⟩

theorem normal_of (k : Keywords) :
    (of k).normal =
      .of
        { bsonType := k.bsonType.map TypeNames.normal
          properties := k.properties.map normalProperties
          required := k.required
          additionalProperties := k.additionalProperties
          items := k.items.map normalItems
          maxItems := k.maxItems
          anyOf := k.anyOf.map (List.map normal)
          oneOf := k.oneOf.map (List.map normal) } := by
  have hproperties (list : List (String × Validator)) :
      list.attach.map (fun p => (p.1.1, p.1.2.normal)) = normalProperties list :=
    List.attach_map_val (f := fun p : String × Validator => (p.1, p.2.normal))
  have hitems : normalItems = fun i =>
      ⟨i.schemas.map normal, i.multiple || i.schemas.length != 1⟩ := rfl
  rw [normal, hitems]
  simp [hproperties]

/-! ## The written document -/

theorem documentList?_eq_mapM (vs : List Validator) (room : Nat) :
    documentList? vs room = vs.mapM fun v => (v.fields? room).map .record := by
  induction vs with
  | nil => rfl
  | cons v rest ih =>
      rw [documentList?, List.mapM_cons, ← ih]
      cases v.fields? room <;> cases documentList? rest room <;> rfl

theorem propertyFields?_eq_mapM (ps : List (String × Validator)) (room : Nat) :
    propertyFields? ps room =
      ps.mapM fun p => (p.2.fields? room).map fun fields => (p.1, .record fields) := by
  induction ps with
  | nil => rfl
  | cons p rest ih =>
      rw [propertyFields?, List.mapM_cons, ← ih]
      cases p.2.fields? room <;> cases propertyFields? rest room <;> rfl

theorem propertiesField?_some (ps : List (String × Validator)) (room : Nat) :
    propertiesField? (some ps) room =
      (propertyFields? ps room).map fun fields => [("properties", .record fields)] := by
  rw [propertiesField?]
  cases propertyFields? ps room <;> rfl

theorem listField?_some (keyword : String) (vs : List Validator) (room : Nat) :
    listField? keyword (some vs) room =
      (documentList? vs room).map fun documents => [(keyword, .list documents)] := by
  rw [listField?]
  cases documentList? vs room <;> rfl

/-- The documents of an items keyword, without brackets if there is one and it
was not written as a list. -/
def itemsPlain (multiple : Bool) (documents : List Plain) : Plain :=
  match documents with
  | [document] => if multiple then .list [document] else document
  | documents => .list documents

theorem itemsField?_some (i : ItemList) (room : Nat) :
    itemsField? (some i) room =
      (documentList? i.schemas room).map fun documents =>
        [("items", itemsPlain i.multiple documents)] := by
  cases i with
  | mk schemas multiple =>
      rw [itemsField?]
      rcases documentList? schemas room with _ | (_ | ⟨document, _ | ⟨_, _⟩⟩) <;> rfl

end Validator

/-- Type aliases in a document. -/
def TypeNames.toPlain (t : TypeNames) : Plain :=
  match t with
  | ⟨[name], false⟩ => .text name
  | t => .list (t.names.map .text)

/-- The field of a keyword that may be there. -/
def optionalField (keyword : String) (value : Option Plain) : List (String × Plain) :=
  (value.map fun p => (keyword, p)).toList

theorem Keywords.fields?_eq_some {k : Keywords} {room : Nat} {fields : List (String × Plain)} :
    k.fields? room = some fields ↔
      ∃ properties items anyOf oneOf,
        propertiesField? k.properties room = some properties ∧
        itemsField? k.items room = some items ∧
        listField? "anyOf" k.anyOf room = some anyOf ∧
        listField? "oneOf" k.oneOf room = some oneOf ∧
        fields =
          optionalField "bsonType" (k.bsonType.map TypeNames.toPlain)
            ++ properties
            ++ optionalField "required" (k.required.map fun names => .list (names.map .text))
            ++ optionalField "additionalProperties" (k.additionalProperties.map .flag)
            ++ items
            ++ optionalField "maxItems" (k.maxItems.map .number)
            ++ anyOf
            ++ oneOf := by
  cases k with
  | mk bsonType properties required additionalProperties items maxItems anyOf oneOf =>
      simp only [fields?, optionalField, Option.map_map]
      split
      · rename_i hproperties hitems hanyOf honeOf
        simp only [hproperties, hitems, hanyOf, honeOf, Option.some.injEq]
        constructor
        · rintro rfl
          exact ⟨_, _, _, _, rfl, rfl, rfl, rfl, rfl⟩
        · rintro ⟨_, _, _, _, rfl, rfl, rfl, rfl, rfl⟩
          rfl
      · rename_i hnone
        simp only [reduceCtorEq, false_iff]
        rintro ⟨_, _, _, _, hproperties, hitems, hanyOf, honeOf, -⟩
        exact hnone _ _ _ _ hproperties hitems hanyOf honeOf

namespace Validator

/-! ## How deep a validator may nest -/

private theorem isSome_keywordsFields? (k : Keywords) (room : Nat) :
    (k.fields? room).isSome = k.children.all fun v => (v.fields? room).isSome := by
  have hdocuments (vs : List Validator) :
      (documentList? vs room).isSome = vs.all fun v => (v.fields? room).isSome := by
    simp only [documentList?_eq_mapM, isSome_mapM, Option.isSome_map]
  have hproperties : (propertiesField? k.properties room).isSome =
      ((k.properties.getD []).map Prod.snd).all fun v => (v.fields? room).isSome := by
    cases k.properties with
    | none => rfl
    | some ps =>
        have hps : (propertyFields? ps room).isSome =
            (ps.map Prod.snd).all fun v => (v.fields? room).isSome := by
          simp only [propertyFields?_eq_mapM, isSome_mapM, Option.isSome_map, List.all_map]
          rfl
        rw [Option.getD_some, ← hps, propertiesField?_some, Option.isSome_map]
  have hitems : (itemsField? k.items room).isSome =
      ((k.items.map ItemList.schemas).getD []).all fun v => (v.fields? room).isSome := by
    cases k.items with
    | none => rfl
    | some i =>
        rw [Option.map_some, Option.getD_some, ← hdocuments, itemsField?_some, Option.isSome_map]
  have hlist (keyword : String) (list : Option (List Validator)) :
      (listField? keyword list room).isSome =
        (list.getD []).all fun v => (v.fields? room).isSome := by
    cases list with
    | none => rfl
    | some vs =>
        rw [Option.getD_some, ← hdocuments, listField?_some, Option.isSome_map]
  rw [Keywords.children, List.all_append, List.all_append, List.all_append, ← hproperties, ← hitems,
    ← hlist "anyOf", ← hlist "oneOf"]
  cases k with
  | mk bsonType properties required additionalProperties items maxItems anyOf oneOf =>
      rw [Keywords.fields?]
      cases propertiesField? properties room <;> cases itemsField? items room <;>
        cases listField? "anyOf" anyOf room <;> cases listField? "oneOf" oneOf room <;> rfl

theorem isSome_fields?_iff {v : Validator} {room : Nat} :
    (v.fields? room).isSome = true ↔ v.nesting ≤ room := by
  induction room generalizing v with
  | zero =>
      have hpos := v.nesting_pos
      have hnone : v.fields? 0 = none := by cases v <;> rfl
      rw [hnone, Option.isSome_none]
      simp only [Bool.false_eq_true, false_iff]
      omega
  | succ room ih =>
      cases v with
      | absent => simp [fields?]
      | of k =>
          rw [fields?, isSome_keywordsFields?, List.all_eq_true, nesting_of_le_iff]
          simp only [ih]

/-! ## Normal validators -/

theorem fields?_normal (v : Validator) (room : Nat) : v.normal.fields? room = v.fields? room := by
  induction room generalizing v with
  | zero => cases v <;> simp [normal, fields?]
  | succ room ih =>
      have hdocuments (vs : List Validator) :
          documentList? (vs.map normal) room = documentList? vs room := by
        simp only [documentList?_eq_mapM, List.mapM_map, Function.comp_def, ih]
      have hproperties (ps : Option (List (String × Validator))) :
          propertiesField? (ps.map normalProperties) room =
            propertiesField? ps room := by
        cases ps with
        | none => rfl
        | some list =>
            simp only [Option.map_some, propertiesField?_some, propertyFields?_eq_mapM,
              normalProperties, List.mapM_map, Function.comp_def, ih]
      have hlist (keyword : String) (list : Option (List Validator)) :
          listField? keyword (list.map (List.map normal)) room =
            listField? keyword list room := by
        cases list with
        | none => rfl
        | some vs => simp only [Option.map_some, listField?_some, hdocuments]
      have hitems (items : Option ItemList) :
          itemsField? (items.map normalItems) room = itemsField? items room := by
        cases items with
        | none => rfl
        | some i =>
            simp only [Option.map_some, itemsField?_some, normalItems, hdocuments]
            refine Option.map_congr fun documents hdocuments => ?_
            rw [documentList?_eq_mapM, mapM_eq_some_iff] at hdocuments
            rw [hdocuments.length_eq]
            rcases documents with _ | ⟨document, _ | ⟨_, _⟩⟩ <;> simp [itemsPlain]
      have htypes (types : Option TypeNames) :
          (types.map TypeNames.normal).map TypeNames.toPlain = types.map TypeNames.toPlain := by
        cases types with
        | none => rfl
        | some t =>
            obtain ⟨names, multiple⟩ := t
            rcases names with _ | ⟨name, _ | ⟨_, _⟩⟩ <;> cases multiple <;> rfl
      cases v with
      | absent =>
          rw [normal_absent]
          rfl
      | of k =>
          rw [normal_of, fields?, fields?]
          refine Option.ext fun fields => ?_
          simp only [Keywords.fields?_eq_some, hproperties, hlist, hitems, htypes]

end Validator

/-! ## Names and sizes -/

namespace Plain

theorem fieldsToBson_eq_map (fields : List (String × Plain)) :
    fieldsToBson fields = fields.map fun field => (field.1, field.2.toBson) := by
  induction fields with
  | nil => rfl
  | cons field rest ih => simp [fieldsToBson, ih]

theorem itemsToBson_eq_map (items : List Plain) : itemsToBson items = items.map toBson := by
  induction items with
  | nil => rfl
  | cons p rest ih => simp [itemsToBson, ih]

theorem isWritable_record {fields : List (String × Plain)} :
    (record fields).toBson.isWritable = true ↔
      ∀ field ∈ fields, isZeroFree field.1 = true ∧ field.2.toBson.isWritable = true := by
  rw [toBson, Bson.Value.isWritable, Bson.areWritable_iff, fieldsToBson_eq_map,
    List.forall_mem_map]

theorem isWritable_list {items : List Plain} :
    (list items).toBson.isWritable = true ↔ ∀ p ∈ items, p.toBson.isWritable = true := by
  rw [toBson, Bson.Value.isWritable, Bson.itemsWritable_iff, itemsToBson_eq_map]
  simp

theorem isWritable_texts (names : List String) :
    (list (names.map .text)).toBson.isWritable = true := by
  rw [isWritable_list]
  intro p hp
  obtain ⟨name, -, rfl⟩ := List.mem_map.1 hp
  rfl

theorem isWritable_number (n : Int64) : (number n).toBson.isWritable = true := by
  rw [toBson, Bson.Value.ofInt64]
  split <;> rfl

end Plain

theorem TypeNames.isWritable_toPlain (t : TypeNames) : t.toPlain.toBson.isWritable = true := by
  unfold toPlain
  split
  · rfl
  · exact Plain.isWritable_texts _

theorem isWritable_of_mem_optionalField {α : Type} {keyword : String} {f : α → Plain}
    (hkeyword : isZeroFree keyword = true) (h : ∀ a, (f a).toBson.isWritable = true)
    (value : Option α) :
    ∀ field ∈ optionalField keyword (value.map f),
      isZeroFree field.1 = true ∧ field.2.toBson.isWritable = true := by
  cases value with
  | none => simp [optionalField]
  | some a => simpa [optionalField] using ⟨hkeyword, h a⟩

namespace Validator

theorem isWritable_of_documentList? {vs : List Validator} {room : Nat} {documents : List Plain}
    (h : documentList? vs room = some documents)
    (hchild : ∀ v ∈ vs, ∀ fields, v.fields? room = some fields →
      (Plain.record fields).toBson.isWritable = true) :
    ∀ document ∈ documents, document.toBson.isWritable = true := by
  rw [documentList?_eq_mapM, mapM_eq_some_iff] at h
  induction h with
  | nil => simp
  | cons hv _ ih =>
      obtain ⟨fields, hfields, rfl⟩ := Option.map_eq_some_iff.1 hv
      rw [List.forall_mem_cons]
      exact ⟨hchild _ List.mem_cons_self fields hfields,
        ih fun v hv => hchild v (List.mem_cons_of_mem _ hv)⟩

private theorem isWritable_of_propertyFields? {ps : List (String × Validator)} {room : Nat}
    {fields : List (String × Plain)} (h : propertyFields? ps room = some fields)
    (hnames : ∀ p ∈ ps, isZeroFree p.1 = true)
    (hchild : ∀ p ∈ ps, ∀ fields, p.2.fields? room = some fields →
      (Plain.record fields).toBson.isWritable = true) :
    (Plain.record fields).toBson.isWritable = true := by
  rw [propertyFields?_eq_mapM, mapM_eq_some_iff] at h
  rw [Plain.isWritable_record]
  induction h with
  | nil => simp
  | cons hp _ ih =>
      obtain ⟨inner, hinner, rfl⟩ := Option.map_eq_some_iff.1 hp
      rw [List.forall_mem_cons] at hnames hchild ⊢
      exact ⟨⟨hnames.1, hchild.1 inner hinner⟩, ih hnames.2 hchild.2⟩

private theorem isWritable_itemsPlain {multiple : Bool} {documents : List Plain}
    (h : ∀ document ∈ documents, document.toBson.isWritable = true) :
    (itemsPlain multiple documents).toBson.isWritable = true := by
  unfold itemsPlain
  split
  · split
    · exact Plain.isWritable_list.2 h
    · exact h _ List.mem_cons_self
  · exact Plain.isWritable_list.2 h

theorem isWritable_of_listField? {keyword : String} {vs : Option (List Validator)} {room : Nat}
    {piece : List (String × Plain)} (hkeyword : isZeroFree keyword = true)
    (h : listField? keyword vs room = some piece)
    (hchild : ∀ list ∈ vs, ∀ v ∈ list, ∀ fields, v.fields? room = some fields →
      (Plain.record fields).toBson.isWritable = true) :
    ∀ field ∈ piece, isZeroFree field.1 = true ∧ field.2.toBson.isWritable = true := by
  cases vs with
  | none =>
      cases h
      simp
  | some list =>
      rw [listField?_some] at h
      obtain ⟨documents, hdocuments, rfl⟩ := Option.map_eq_some_iff.1 h
      rw [List.forall_mem_singleton, Plain.isWritable_list]
      exact ⟨hkeyword, isWritable_of_documentList? hdocuments (hchild list rfl)⟩

private theorem isWritable_of_propertiesField? {ps : Option (List (String × Validator))} {room : Nat}
    {piece : List (String × Plain)} (h : propertiesField? ps room = some piece)
    (hnames : ∀ list ∈ ps, ∀ p ∈ list, isZeroFree p.1 = true)
    (hchild : ∀ list ∈ ps, ∀ p ∈ list, ∀ fields, p.2.fields? room = some fields →
      (Plain.record fields).toBson.isWritable = true) :
    ∀ field ∈ piece, isZeroFree field.1 = true ∧ field.2.toBson.isWritable = true := by
  cases ps with
  | none =>
      cases h
      simp
  | some list =>
      rw [propertiesField?_some] at h
      obtain ⟨inner, hinner, rfl⟩ := Option.map_eq_some_iff.1 h
      have hkeyword : isZeroFree "properties" = true := by decide
      rw [List.forall_mem_singleton]
      exact ⟨hkeyword, isWritable_of_propertyFields? hinner (hnames list rfl) (hchild list rfl)⟩

private theorem isWritable_of_itemsField? {items : Option ItemList} {room : Nat}
    {piece : List (String × Plain)} (h : itemsField? items room = some piece)
    (hchild : ∀ i ∈ items, ∀ v ∈ i.schemas, ∀ fields, v.fields? room = some fields →
      (Plain.record fields).toBson.isWritable = true) :
    ∀ field ∈ piece, isZeroFree field.1 = true ∧ field.2.toBson.isWritable = true := by
  cases items with
  | none =>
      cases h
      simp
  | some i =>
      rw [itemsField?_some] at h
      obtain ⟨documents, hdocuments, rfl⟩ := Option.map_eq_some_iff.1 h
      have hkeyword : isZeroFree "items" = true := by decide
      rw [List.forall_mem_singleton]
      refine ⟨hkeyword, isWritable_itemsPlain ?_⟩
      exact isWritable_of_documentList? hdocuments (hchild i rfl)

/-- Names without zeros are all that writing asks for. -/
theorem isWritable_of_fields? {v : Validator} {room : Nat} {fields : List (String × Plain)}
    (hnames : v.namesZeroFree = true) (h : v.fields? room = some fields) :
    (Plain.record fields).toBson.isWritable = true := by
  induction room generalizing v fields with
  | zero => cases v <;> simp [fields?] at h
  | succ room ih =>
      cases v with
      | absent =>
          cases h
          rfl
      | of k =>
          obtain ⟨hhere, hbelow⟩ := namesZeroFree_of_iff.1 hnames
          have hchild (c : Validator) (hc : c ∈ k.children) (fields : List (String × Plain))
              (hfields : c.fields? room = some fields) :
              (Plain.record fields).toBson.isWritable = true :=
            ih (hbelow c hc) hfields
          obtain ⟨properties, items, anyOf, oneOf, hproperties, hitems, hanyOf, honeOf, rfl⟩ :=
            Keywords.fields?_eq_some.1 h
          rw [Plain.isWritable_record]
          simp only [List.forall_mem_append]
          refine ⟨⟨⟨⟨⟨⟨⟨?_, ?_⟩, ?_⟩, ?_⟩, ?_⟩, ?_⟩, ?_⟩, ?_⟩
          · exact isWritable_of_mem_optionalField (by decide) TypeNames.isWritable_toPlain _
          · apply isWritable_of_propertiesField? hproperties hhere
            intro list hlist p hp
            exact hchild p.2 (Keywords.mem_children.2 (.inl ⟨list, hlist, p, hp, rfl⟩))
          · exact isWritable_of_mem_optionalField (by decide) Plain.isWritable_texts _
          · exact isWritable_of_mem_optionalField (by decide) (fun _ => rfl) _
          · apply isWritable_of_itemsField? hitems
            intro i hi v hv
            exact hchild v (Keywords.mem_children.2 (.inr (.inl ⟨i, hi, hv⟩)))
          · exact isWritable_of_mem_optionalField (by decide) Plain.isWritable_number _
          · apply isWritable_of_listField? (by decide) hanyOf
            intro list hlist v hv
            exact hchild v (Keywords.mem_children.2 (.inr (.inr (.inl ⟨list, hlist, hv⟩))))
          · apply isWritable_of_listField? (by decide) honeOf
            intro list hlist v hv
            exact hchild v (Keywords.mem_children.2 (.inr (.inr (.inr ⟨list, hlist, hv⟩))))

end Validator

end DocShape
