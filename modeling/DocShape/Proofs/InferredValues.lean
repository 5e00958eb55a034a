import DocShape.Proofs.BinaryDocuments
import DocShape.Proofs.SamplingOrder
import DocShape.Proofs.Soundness
import DocShape.Proofs.UpperBound

/-!
# Inferred schemas and their values

Bytes represent a value if their elements represent its parts.  Inference then goes
through the value: it fails exactly if a part lies too deep, and otherwise what it
makes of the parts is only ever widened, so the value matches the schema it gives.
-/

namespace DocShape

namespace Bson

/-- Induction on the values right inside. -/
theorem Value.induction_parts {motive : Value → Prop}
    (step : ∀ v : Value, (∀ w ∈ v.parts, motive w) → motive v) (v : Value) : motive v :=
  step v fun w hw =>
    have : sizeOf w < sizeOf v := by
      cases v with
      | document fields =>
          obtain ⟨⟨name, x⟩, hmem, rfl⟩ := List.mem_map.1 hw
          have := List.sizeOf_lt_of_mem hmem
          simp only [Prod.mk.sizeOf_spec, Value.document.sizeOf_spec] at this ⊢
          omega
      | array items =>
          have hlt : sizeOf w < sizeOf items := List.sizeOf_lt_of_mem hw
          simp only [Value.array.sizeOf_spec]
          omega
      | _ => cases hw
    induction_parts step w
termination_by sizeOf v

/-- The value lies inside the root, at the level of nesting; the root itself is at level one. -/
inductive Value.LiesAt (root : Value) : Nat → Value → Prop where
  | root : LiesAt root 1 root
  | inside {level : Nat} {outer v : Value} (lies : LiesAt root level outer)
      (part : v ∈ outer.parts) : LiesAt root (level + 1) v

/-- The bytes represent the value: they have its type, and those of a container are read as
elements that represent its parts. -/
inductive RawValue.Represents : RawValue → Value → Prop where
  | scalar {raw : RawValue} {v : Value} (type : raw.type = v.type)
      (atomic : v.type.atomic?.isSome = true) : Represents raw v
  | document {data : List UInt8} {pairs : List (RawElement × Value)}
      (read : elements? data = some (pairs.map Prod.fst))
      (values : ∀ pair ∈ pairs, Represents pair.1.value pair.2) :
      Represents ⟨.document, data⟩ (.document (pairs.map fun pair => (pair.1.name, pair.2)))
  | array {data : List UInt8} {pairs : List (RawElement × Value)}
      (read : elements? data = some (pairs.map Prod.fst))
      (values : ∀ pair ∈ pairs, Represents pair.1.value pair.2) :
      Represents ⟨.array, data⟩ (.array (pairs.map Prod.snd))

section Levels

variable {root v w : Value} {level : Nat}

theorem Value.LiesAt.of_part (hw : w ∈ root.parts) (h : w.LiesAt level v) :
    root.LiesAt (level + 1) v := by
  induction h with
  | root => exact .inside .root hw
  | inside _ part ih => exact .inside ih part

/-- What lies inside is the root itself, or lies inside one of its parts. -/
theorem Value.LiesAt.cases_root (h : root.LiesAt level v) :
    level = 1 ∧ v = root ∨ ∃ w ∈ root.parts, ∃ below, w.LiesAt below v ∧ level = below + 1 := by
  induction h with
  | root => exact .inl ⟨rfl, rfl⟩
  | @inside level outer v _ part ih =>
      right
      rcases ih with ⟨rfl, rfl⟩ | ⟨w, hw, below, hbelow, rfl⟩
      · exact ⟨v, part, 1, .root, rfl⟩
      · exact ⟨w, hw, below + 1, .inside hbelow part, rfl⟩

theorem Value.forall_liesAt_succ {room : Nat} :
    (∀ level v, root.LiesAt level v → level ≤ room + 1) ↔
      ∀ w ∈ root.parts, ∀ level v, w.LiesAt level v → level ≤ room := by
  constructor
  · intro h w hw level v hv
    have := h (level + 1) v (hv.of_part hw)
    omega
  · intro h level v hv
    rcases hv.cases_root with ⟨rfl, -⟩ | ⟨w, hw, below, hbelow, rfl⟩
    · omega
    · have := h w hw below v hbelow
      omega

/-- A written value is represented by its bytes. -/
theorem Value.Fits.represents (h : v.Fits) : v.raw.Represents v := by
  induction v using Value.induction_parts with
  | step v ih =>
      cases v with
      | document fields =>
          let pairs := fields.map fun field => (rawElement field, field.2)
          have hfields : fields = pairs.map fun pair => (pair.1.name, pair.2) := by
            rw [List.map_map]
            exact (List.map_id' fields).symm
          have hread : elements? (Value.document fields).encode = some (pairs.map Prod.fst) := by
            rw [List.map_map]
            exact elements?_encodeDocument h
          have hvalues : ∀ pair ∈ pairs, pair.1.value.Represents pair.2 :=
            List.forall_mem_map.2 fun field hfield =>
              ih field.2 (List.mem_map_of_mem hfield) (h.field field hfield).2
          have hrepresents := RawValue.Represents.document hread hvalues
          rw [← hfields] at hrepresents
          exact hrepresents
      | array items =>
          let pairs := (itemFields 0 items).map fun field => (rawElement field, field.2)
          have hitems : pairs.map Prod.snd = items := by
            rw [List.map_map]
            exact map_itemFields 0 items
          have hread : elements? (Value.array items).encode = some (pairs.map Prod.fst) := by
            rw [List.map_map, Value.encode, encodeItems_eq]
            exact elements?_encodeDocument h.items
          have hvalues : ∀ pair ∈ pairs, pair.1.value.Represents pair.2 := by
            refine List.forall_mem_map.2 fun field hfield => ?_
            have hmem : field.2 ∈ items := by
              rw [← map_itemFields 0 items]
              exact List.mem_map_of_mem hfield
            exact ih field.2 hmem (h.items.field field hfield).2
          have hrepresents := RawValue.Represents.array hread hvalues
          rw [hitems] at hrepresents
          exact hrepresents
      | _ => exact .scalar rfl rfl

end Levels

end Bson

open Bson (RawValue RawElement Value Fields)

/-! ## One level -/

section Parts

variable {child : RawValue → Outcome Schema} {data : List UInt8} {elements : List RawElement}

private theorem exists_addElement_iff (keys : FieldMap Schema) (e : RawElement) :
    (∃ next, addElement child keys e = .ok next) ↔ ∃ s, child e.value = .ok s := by
  rw [addElement, Outcome.exists_bind_pure_iff]
  simp only [Outcome.inContext_eq_ok]

theorem Document.exists_ofRaw_iff (h : Bson.elements? data = some elements) :
    (∃ d, Document.ofRaw child data = .ok d) ↔ ∀ e ∈ elements, ∃ s, child e.value = .ok s := by
  rw [Document.ofRaw, h, Outcome.exists_bind_pure_iff]
  exact Outcome.exists_foldlM_iff exists_addElement_iff

theorem Document.requires_ofRaw_iff {d : Document} {field : String}
    (h : Bson.elements? data = some elements) (hd : Document.ofRaw child data = .ok d) :
    d.requires field = true ↔ field ∈ elements.map RawElement.name := by
  obtain ⟨_, keys, helements, hkeys, rfl⟩ := Document.ofRaw_eq_ok hd
  cases h.symm.trans helements
  rw [Document.requires_iff]
  show field ∈ FieldMap.names keys ↔ _
  rw [names_foldlM_addElement hkeys, NameSet.mem_ofList]

theorem Schema.ofRawItems_eq_ok_iff (h : Bson.elements? data = some elements) {items : Schema} :
    Schema.ofRawItems child data = .ok items ↔
      ∃ xs, elements.mapM (fun e => child e.value) = .ok xs ∧ Schema.unions xs = items := by
  rw [Schema.ofRawItems, h]
  exact Outcome.foldlM_eq_ok_iff

theorem Schema.exists_ofRawItems_iff (h : Bson.elements? data = some elements) :
    (∃ items, Schema.ofRawItems child data = .ok items) ↔
      ∀ e ∈ elements, ∃ s, child e.value = .ok s := by
  rw [Schema.ofRawItems, h]
  refine Outcome.exists_foldlM_iff fun items e => ?_
  exact Outcome.exists_bind_pure_iff

variable (hchild : ∀ v s, child v = .ok s → s.Declarable ∧ s.Canonical)

/-- The schemas of all elements so far are within what is declared under their names. -/
structure Declares (child : RawValue → Outcome Schema) (seen : List RawElement)
    (keys : FieldMap Schema) : Prop where
  canonical : ∀ entry ∈ keys, entry.2.Declarable ∧ entry.2.Canonical
  within : ∀ e ∈ seen, ∃ s x, child e.value = .ok s ∧ FieldMap.find? keys e.name = some x ∧
    s.Within x

include hchild

theorem Declares.addElement {seen : List RawElement} {keys next : FieldMap Schema} {e : RawElement}
    (h : Declares child seen keys) (hnext : DocShape.addElement child keys e = .ok next) :
    Declares child (seen ++ [e]) next := by
  refine ⟨Schema.inferenceClosed_canonical.addElement hchild h.canonical hnext, ?_⟩
  simp only [DocShape.addElement, Outcome.bind_eq_ok, Outcome.inContext_eq_ok,
    Outcome.pure_eq_ok] at hnext
  obtain ⟨s, hs, rfl⟩ := hnext
  have hsc := (hchild _ s hs).2
  have hbefore {x : Schema} (hx : FieldMap.find? keys e.name = some x) : x.Canonical :=
    (h.canonical _ (FieldMap.mem_of_find? hx)).2
  intro other hother
  simp only [FieldMap.find?_insert]
  rcases List.mem_append.1 hother with hseen | hlast
  · obtain ⟨t, x, ht, hx, htx⟩ := h.within other hseen
    by_cases hname : other.name = e.name
    · rw [hname] at hx
      refine ⟨t, x.union s, ht, ?_, ?_⟩
      · rw [if_pos hname, hx]
      · exact htx.trans (Schema.widens_union.left (hbefore hx) hsc) (hbefore hx)
    · exact ⟨t, x, ht, by rw [if_neg hname, hx], htx⟩
  · rw [List.mem_singleton.1 hlast]
    cases hx : FieldMap.find? keys e.name with
    | none => exact ⟨s, s, hs, by simp, hsc.within_self⟩
    | some x => exact ⟨s, x.union s, hs, by simp, Schema.widens_union.right (hbefore hx) hsc⟩

theorem declares_foldlM {keys : FieldMap Schema}
    (h : elements.foldlM (DocShape.addElement child) [] = .ok keys) :
    Declares child elements keys :=
  Outcome.foldlM_history (Declares child) (fun _ _ _ _ hkeys => hkeys.addElement hchild) []
    ⟨List.forall_mem_nil _, List.forall_mem_nil _⟩ h

end Parts

/-! ## Values -/

namespace Schema

variable {limit : Int} {room : Nat} {raw : RawValue} {v : Value} {s : Schema}

theorem ofRawWithin_document_eq_ok {data : List UInt8} :
    ofRawWithin limit (room + 1) ⟨.document, data⟩ = .ok s ↔
      ∃ d, Document.ofRaw (ofRawWithin limit room) data = .ok d ∧ document d = s := by
  show (Document.ofRaw (ofRawWithin limit room) data >>= fun d => pure (document d)) = .ok s ↔ _
  simp only [Outcome.bind_eq_ok, Outcome.pure_eq_ok]

theorem ofRawWithin_array_eq_ok {data : List UInt8} :
    ofRawWithin limit (room + 1) ⟨.array, data⟩ = .ok s ↔
      ∃ items, ofRawItems (ofRawWithin limit room) data = .ok items ∧ array items = s := by
  show (ofRawItems (ofRawWithin limit room) data >>= fun items => pure (array items)) = .ok s ↔ _
  simp only [Outcome.bind_eq_ok, Outcome.pure_eq_ok]

theorem ofRawWithin_of_atomic {a : Atomic} (h : raw.type.atomic? = some a) :
    ofRawWithin limit (room + 1) raw = .ok (.atomic a) := by
  rw [ofRawWithin, h]

theorem exists_ofRawWithin_zero_iff :
    (∃ s, ofRawWithin limit 0 raw = .ok s) ↔ ∀ level w, v.LiesAt level w → level ≤ 0 := by
  refine iff_of_false ?_ fun h => ?_
  · rintro ⟨s, hs⟩
    cases hs
  · exact absurd (h 1 v .root) (by decide)

/-- A value has a schema exactly if nothing in it lies deeper than there is room. -/
theorem exists_ofRawWithin_iff (h : raw.Represents v) :
    (∃ s, ofRawWithin limit room raw = .ok s) ↔ ∀ level w, v.LiesAt level w → level ≤ room := by
  induction h generalizing room with
  | @scalar raw v type atomic =>
      cases room with
      | zero => exact exists_ofRawWithin_zero_iff
      | succ room =>
          obtain ⟨a, ha⟩ := Option.isSome_iff_exists.1 atomic
          have hparts : v.parts = [] := by
            cases v with
            | document | array => cases ha
            | _ => rfl
          rw [Value.forall_liesAt_succ, hparts]
          exact iff_of_true ⟨_, ofRawWithin_of_atomic (type ▸ ha)⟩ (List.forall_mem_nil _)
  | @document data pairs read values ih =>
      cases room with
      | zero => exact exists_ofRawWithin_zero_iff
      | succ room =>
          have hparts : (Value.document (pairs.map fun pair => (pair.1.name, pair.2))).parts =
              pairs.map Prod.snd := List.map_map
          simp only [ofRawWithin_document_eq_ok, exists_comm, exists_and_left, exists_eq', and_true]
          rw [Document.exists_ofRaw_iff read, Value.forall_liesAt_succ, hparts,
            List.forall_mem_map, List.forall_mem_map]
          exact forall₂_congr fun pair hpair => ih pair hpair
  | @array data pairs read values ih =>
      cases room with
      | zero => exact exists_ofRawWithin_zero_iff
      | succ room =>
          simp only [ofRawWithin_array_eq_ok, exists_comm, exists_and_left, exists_eq', and_true]
          rw [exists_ofRawItems_iff read, Value.forall_liesAt_succ]
          show _ ↔ ∀ w ∈ pairs.map Prod.snd, _
          rw [List.forall_mem_map, List.forall_mem_map]
          exact forall₂_congr fun pair hpair => ih pair hpair

/-- A value matches the schema that is inferred from it. -/
theorem matches_of_ofRawWithin (h : raw.Represents v) (hs : ofRawWithin limit room raw = .ok s) :
    s.Matches (some v) := by
  induction h generalizing room s with
  | @scalar raw v type atomic =>
      cases room with
      | zero => cases hs
      | succ room =>
          obtain ⟨a, ha⟩ := Option.isSome_iff_exists.1 atomic
          rw [ofRawWithin_of_atomic (type ▸ ha)] at hs
          cases hs
          exact .atomic ha
  | @document data pairs read values ih =>
      cases room with
      | zero => cases hs
      | succ room =>
          obtain ⟨d, hd, rfl⟩ := ofRawWithin_document_eq_ok.1 hs
          obtain ⟨elements, keys, helements, hkeys, rfl⟩ := Document.ofRaw_eq_ok hd
          cases read.symm.trans helements
          have hdeclares := declares_foldlM
            (fun _ _ => inferenceClosed_canonical.ofRawWithin limit room) hkeys
          have hdeclared (pair : RawElement × Value) (hpair : pair ∈ pairs) :
              ∃ x, FieldMap.find? keys pair.1.name = some x ∧ x.Matches (some pair.2) := by
            obtain ⟨t, x, ht, hx, htx⟩ := hdeclares.within pair.1 (List.mem_map_of_mem hpair)
            exact ⟨x, hx, htx.matches (ih pair hpair ht)⟩
          apply document_matches_of_entries
          · intro field hfield
            have hnames := (Document.requires_ofRaw_iff read hd).1 (Document.requires_iff.2 hfield)
            rw [List.map_map] at hnames ⊢
            exact hnames
          · refine List.forall_mem_map.2 fun pair hpair t ht => ?_
            obtain ⟨x, hx, hxv⟩ := hdeclared pair hpair
            cases hx.symm.trans ht
            exact hxv
          · intro _ field hfield
            rw [List.map_map] at hfield
            obtain ⟨pair, hpair, rfl⟩ := List.mem_map.1 hfield
            obtain ⟨x, hx, -⟩ := hdeclared pair hpair
            rw [Document.mentions, Bool.or_eq_true]
            exact .inl (Option.isSome_iff_exists.2 ⟨x, hx⟩)
  | @array data pairs read values ih =>
      cases room with
      | zero => cases hs
      | succ room =>
          obtain ⟨items, hitems, rfl⟩ := ofRawWithin_array_eq_ok.1 hs
          obtain ⟨xs, hxs, rfl⟩ := (ofRawItems_eq_ok_iff read).1 hitems
          refine .array (List.forall_mem_map.2 fun pair hpair => ?_)
          have hmem : pair.1 ∈ pairs.map Prod.fst := List.mem_map_of_mem hpair
          obtain ⟨x, hx⟩ := Outcome.exists_mapM_iff.1 ⟨xs, hxs⟩ pair.1 hmem
          have hwithin := within_unions ((Outcome.mem_iff_of_mapM hxs).2 ⟨pair.1, hmem, hx⟩)
          rw [simplify_of_canonical (inferenceClosed_canonical.ofRawWithin limit room hx).2]
            at hwithin
          exact hwithin.matches (ih pair hpair hx)

/-! ## Shape of inferred schemas -/

private theorem joinClosed_ne_missing : JoinClosed (· ≠ .missing) where
  unsat := by simp
  any := by simp
  array := by simp
  document := by simp
  inserted := by simp
  sorted := by simp
  apart := by simp

theorem inferenceClosed_ne_missing :
    InferenceClosed fun s => s.Canonical ∧ s.Everywhere (· ≠ .missing) where
  canonical h := h.1
  unsat := ⟨canonical_unsat, .leaf (by simp) rfl⟩
  atomic a := ⟨canonical_atomic a, .leaf (by simp) rfl⟩
  array h := ⟨canonical_array_iff.2 h.1, Everywhere.array_iff.2 ⟨by simp, h.2⟩⟩
  union {s t} hs ht := by
    refine ⟨canonical_union s t, ?_⟩
    rw [union_of_canonical hs.1 ht.1]
    exact joinClosed_ne_missing.everywhere_join hs.1 ht.1 hs.2 ht.2
  document _ hkeys :=
    ⟨canonical_document_iff.2 fun entry hmem => ⟨(hkeys entry hmem).1, (hkeys entry hmem).2.1⟩,
      Everywhere.document_iff.2 ⟨by simp, fun entry hmem => (hkeys entry hmem).2.2⟩⟩

/-- Which schemas the elements have decides the schema of an array. -/
theorem ofRawWithin_array_congr {a b : List UInt8} {elements others : List RawElement}
    {xs ys : List Schema} (ha : Bson.elements? a = some elements)
    (hb : Bson.elements? b = some others)
    (hxs : elements.mapM (fun e => ofRawWithin limit room e.value) = .ok xs)
    (hys : others.mapM (fun e => ofRawWithin limit room e.value) = .ok ys)
    (hsame : ∀ s, s ∈ xs ↔ s ∈ ys) :
    ofRawWithin limit (room + 1) ⟨.array, a⟩ = .ok (.array (unions xs)) ∧
      ofRawWithin limit (room + 1) ⟨.array, b⟩ = .ok (.array (unions xs)) := by
  have htidy : ∀ s ∈ xs, s.Tidy := by
    intro s hs
    obtain ⟨e, -, he⟩ := (Outcome.mem_iff_of_mapM hxs).1 hs
    exact (inferenceClosed_tidy.ofRawWithin limit room he).2
  simp only [ofRawWithin_array_eq_ok, ofRawItems_eq_ok_iff ha, ofRawItems_eq_ok_iff hb]
  exact ⟨⟨_, ⟨xs, hxs, rfl⟩, rfl⟩, _, ⟨ys, hys, (unions_congr htidy hsame).symm⟩, rfl⟩

private theorem infer_eq_ofRawWithin (data : List UInt8) :
    infer data = ofRawWithin Settings.standard.maxDepth 2048 ⟨.document, data⟩ := rfl

/-- The schema inferred from a document is closed and requires exactly the document's fields. -/
theorem fields_of_ofRawWithin {data : List UInt8} {fields : Fields}
    (h : (RawValue.mk .document data).Represents (.document fields))
    (hs : ofRawWithin limit (room + 1) ⟨.document, data⟩ = .ok s) :
    ∃ d, s = .document d ∧ d.isOpen = false ∧
      ∀ field, d.requires field = true ↔ field ∈ fields.map Prod.fst := by
  obtain ⟨d, hd, rfl⟩ := ofRawWithin_document_eq_ok.1 hs
  refine ⟨d, rfl, ?_, fun field => ?_⟩
  · obtain ⟨_, _, -, -, rfl⟩ := Document.ofRaw_eq_ok hd
    rfl
  · cases h with
    | scalar _ atomic => cases atomic
    | document read =>
        rw [Document.requires_ofRaw_iff read hd, List.map_map, List.map_map]
        rfl

/-- Bytes that represent a document have a schema exactly if no value of the document lies deeper
than level 2048.  The schema is a canonical closed document that requires the document's fields
and no others, nothing in it is `missing`, its disjunctions have one array at most, and the
document matches it.  The schema of an array depends only on which schemas its elements have. -/
theorem infer_describes {data : List UInt8} {fields : Fields}
    (h : (RawValue.mk .document data).Represents (.document fields)) :
    ((∃ s, infer data = .ok s) ↔
      ∀ level v, (Value.document fields).LiesAt level v → level ≤ 2048) ∧
    (∀ s, infer data = .ok s →
      (∃ d, s = .document d ∧ d.isOpen = false ∧
        ∀ field, d.requires field = true ↔ field ∈ fields.map Prod.fst) ∧
      s.Canonical ∧ s.Everywhere (· ≠ .missing) ∧ s.Everywhere RegularHere ∧
      s.Matches (some (.document fields))) ∧
    ∀ (limit : Int) (room : Nat) (a b : List UInt8) (elements others : List RawElement)
      (xs ys : List Schema), Bson.elements? a = some elements → Bson.elements? b = some others →
      elements.mapM (fun e => ofRawWithin limit room e.value) = .ok xs →
      others.mapM (fun e => ofRawWithin limit room e.value) = .ok ys →
      (∀ s, s ∈ xs ↔ s ∈ ys) →
      ∃ s, ofRawWithin limit (room + 1) ⟨.array, a⟩ = .ok s ∧
        ofRawWithin limit (room + 1) ⟨.array, b⟩ = .ok s := by
  rw [infer_eq_ofRawWithin]
  refine ⟨exists_ofRawWithin_iff h, fun s hs => ?_, ?_⟩
  · obtain ⟨hcanonical, hpresent⟩ := (inferenceClosed_ne_missing.ofRawWithin _ _ hs).2
    have htidy := (inferenceClosed_tidy.ofRawWithin _ _ hs).2
    exact ⟨fields_of_ofRawWithin h hs, hcanonical, hpresent, htidy.everywhere,
      matches_of_ofRawWithin h hs⟩
  · intro limit room a b elements others xs ys ha hb hxs hys hsame
    exact ⟨_, ofRawWithin_array_congr ha hb hxs hys hsame⟩

/-- An order with lines of several shapes, and lists of the same numbers and nulls. -/
theorem infer_describes_order :
    let order : Fields := [("id", .int32 7), ("lines", .array
      [.document [("n", .int32 1), ("of", .array [])], .document [("n", .null)], .array [.null]])]
    let data := Bson.encodeDocument order
    let numbers := (Value.array [.int32 1, .null, .int32 2]).encode
    let fewer := (Value.array [.null, .int32 3]).encode
    (RawValue.mk .document data).Represents (.document order) ∧
      (∀ level v, (Value.document order).LiesAt level v → level ≤ 2048) ∧
      (∃ s, infer data = .ok s ∧ s.Canonical ∧ s.Matches (some (.document order))) ∧
      ∃ s, ofRawWithin 4 2 ⟨.array, numbers⟩ = .ok s ∧ ofRawWithin 4 2 ⟨.array, fewer⟩ = .ok s := by
  intro order data numbers fewer
  have hsame (t : Schema) : t ∈ [.atomic .int, .atomic .null, .atomic .int] ↔
      t ∈ [.atomic .null, .atomic .int] := by
    simp only [List.mem_cons, List.not_mem_nil, or_false]
    rw [or_left_comm, or_self]
  have hfits : (Value.document order).Fits := ⟨by decide +kernel, by decide +kernel⟩
  have hrepresents : (RawValue.mk .document data).Represents (.document order) :=
    hfits.represents
  obtain ⟨hlevels, hdescribes, harrays⟩ := infer_describes hrepresents
  have hok : (infer data).isOk = true := by decide +kernel
  obtain ⟨s, hs⟩ : ∃ s, infer data = .ok s := by
    cases hs : infer data with
    | ok s => exact ⟨s, rfl⟩
    | error f =>
        rw [hs] at hok
        cases hok
  obtain ⟨-, hcanonical, -, -, hmatches⟩ := hdescribes s hs
  refine ⟨hrepresents, hlevels.1 ⟨s, hs⟩, ⟨s, hs, hcanonical, hmatches⟩, ?_⟩
  exact harrays 4 1 numbers fewer _ _ _ _ rfl rfl rfl rfl hsame

end Schema

end DocShape
