import DocShape.Proofs.Containment
import DocShape.Proofs.Ordered

/-!
# Identity up to statistics

`Identical` compares two schemas part by part and a document type by its
look-ups, leaving the statistics out.  The structural order is total, and the
schemas it does not tell apart are the identical ones.
-/

namespace DocShape

theorem Document.Ordered.bare {d : Document} (h : d.Ordered) : d.bare.Ordered := by
  have hnames : d.bare.keyNames = d.keyNames := by
    rw [Document.keyNames, Document.bare_keys, FieldMap.names, List.map_map]
    rfl
  refine ⟨?_, ?_⟩
  · rw [hnames]
    exact h.keys
  · rw [Document.bare_required]
    exact h.required

namespace Schema

/-- Declared fields, required fields and references are listed in order. -/
def OrderedHere : Schema → Prop
  | .document d => d.Ordered ∧ (FieldMap.names d.references).Ordered
  | _ => True

instance : DecidablePred OrderedHere
  | .document d => inferInstanceAs (Decidable (d.Ordered ∧ (FieldMap.names d.references).Ordered))
  | .unsat | .missing | .atomic _ | .array _ | .anyOf _ | .any => .isTrue trivial

/-- The same structure: variants, kinds and branches agree, and document types
answer every question about a field alike. -/
inductive Identical : Schema → Schema → Prop where
  | unsat : Identical .unsat .unsat
  | missing : Identical .missing .missing
  | any : Identical .any .any
  | atomic (kind : Atomic) : Identical (.atomic kind) (.atomic kind)
  | array {x y : Schema} (items : Identical x y) : Identical (.array x) (.array y)
  | document {d e : Document} (declares : ∀ field, d.hasKey field = e.hasKey field)
      (keys : ∀ field s t, d.key? field = some s → e.key? field = some t → Identical s t)
      (required : ∀ field, d.requires field = e.requires field) (isOpen : d.isOpen = e.isOpen)
      (references : ∀ field,
        FieldMap.find? d.references field = FieldMap.find? e.references field) :
      Identical (.document d) (.document e)
  | anyOf {as bs : List Schema} (length : as.length = bs.length)
      (branches : ∀ (i : Nat) (a b : Schema), as[i]? = some a → bs[i]? = some b → Identical a b) :
      Identical (.anyOf as) (.anyOf bs)

/-! ## Lists and look-ups -/

theorem map_bare_eq_iff {as bs : List Schema} :
    as.map bare = bs.map bare ↔
      as.length = bs.length ∧
        ∀ (i : Nat) (a b : Schema), as[i]? = some a → bs[i]? = some b → a.bare = b.bare := by
  constructor
  · intro h
    refine ⟨by simpa using congrArg List.length h, fun i a b ha hb => ?_⟩
    have hi := congrArg (fun l : List Schema => l[i]?) h
    simpa [ha, hb] using hi
  · rintro ⟨hlength, hbranches⟩
    refine List.ext_getElem (by simpa using hlength) fun i ha hb => ?_
    rw [List.length_map] at ha hb
    rw [List.getElem_map, List.getElem_map]
    exact hbranches i as[i] bs[i] (List.getElem?_eq_getElem ha) (List.getElem?_eq_getElem hb)

theorem map_bare_key?_eq {d e : Document} {field : String}
    (hdeclares : d.hasKey field = e.hasKey field)
    (hkeys : ∀ s t, d.key? field = some s → e.key? field = some t → s.bare = t.bare) :
    (d.key? field).map bare = (e.key? field).map bare := by
  unfold Document.hasKey at hdeclares
  cases hd : d.key? field with
  | none =>
      rw [hd] at hdeclares
      have hnone : e.key? field = none := by simpa using hdeclares.symm
      rw [hnone]
  | some s =>
      rw [hd] at hdeclares
      obtain ⟨t, ht⟩ := Option.isSome_iff_exists.1 hdeclares.symm
      rw [ht, Option.map_some, Option.map_some, hkeys s t hd ht]

/-! ## Identity is equality without statistics -/

theorem identical_of_bare_eq {a b : Schema} (h : a.bare = b.bare) : a.Identical b := by
  induction a using induction_children generalizing b with
  | step a ih =>
      have hkind : b.kind = a.kind := by rw [← kind_bare a, h, kind_bare]
      cases a with
      | array x =>
          obtain ⟨y, rfl⟩ := kind_eq_array hkind
          injection h with h
          exact .array (ih x (List.mem_singleton_self x) h)
      | document d =>
          obtain ⟨e, rfl⟩ := kind_eq_document hkind
          injection h with h
          have hkey (field : String) : (d.key? field).map bare = (e.key? field).map bare := by
            rw [← Document.key?_bare, h, Document.key?_bare]
          refine .document (fun field => ?_) (fun field s t hs ht => ?_) (fun field => ?_) ?_ ?_
          · rw [← Document.hasKey_bare, h, Document.hasKey_bare]
          · refine ih s (List.mem_map_of_mem (Document.mem_of_key? hs)) ?_
            simpa [hs, ht] using hkey field
          · rw [← Document.requires_bare, h, Document.requires_bare]
          · rw [← Document.bare_isOpen, h, Document.bare_isOpen]
          · intro field
            rw [← Document.bare_references, h, Document.bare_references]
      | anyOf as =>
          obtain ⟨bs, rfl⟩ := kind_eq_anyOf hkind
          rw [bare_anyOf, bare_anyOf] at h
          injection h with h
          obtain ⟨hlength, hbranches⟩ := map_bare_eq_iff.1 h
          exact .anyOf hlength fun i a b ha hb =>
            ih a (List.mem_of_getElem? ha) (hbranches i a b ha hb)
      | atomic k =>
          obtain ⟨l, rfl⟩ := kind_eq_atomic hkind
          cases h
          exact .atomic k
      | unsat =>
          cases b <;> cases hkind
          exact .unsat
      | missing =>
          cases b <;> cases hkind
          exact .missing
      | any =>
          cases b <;> cases hkind
          exact .any

/-- Lists in order are determined by their look-ups, so nothing but statistics
can differ. -/
theorem Identical.bare_eq {a b : Schema} (h : a.Identical b) (ha : a.Everywhere OrderedHere)
    (hb : b.Everywhere OrderedHere) : a.bare = b.bare := by
  induction h with
  | array _ ih =>
      rw [bare_array, bare_array, ih (Everywhere.array_iff.1 ha).2 (Everywhere.array_iff.1 hb).2]
  | @document d e hdeclares _ hrequired hopen hreferences ih =>
      obtain ⟨⟨hd, hdrefs⟩, hdkeys⟩ := Everywhere.document_iff.1 ha
      obtain ⟨⟨he, herefs⟩, hekeys⟩ := Everywhere.document_iff.1 hb
      refine congrArg Schema.document (Document.Ordered.ext hd.bare he.bare (fun field => ?_)
        (fun field => ?_) ?_ ?_ ?_)
      · rw [Document.key?_bare, Document.key?_bare]
        refine map_bare_key?_eq (hdeclares field) fun s t hs ht => ?_
        exact ih field s t hs ht (hdkeys _ (Document.mem_of_key? hs))
          (hekeys _ (Document.mem_of_key? ht))
      · rw [Document.requires_bare, Document.requires_bare, hrequired]
      · rw [Document.bare_isOpen, Document.bare_isOpen, hopen]
      · rw [Document.bare_references, Document.bare_references]
        exact FieldMap.ext_find? hdrefs herefs hreferences
      · rw [Document.bare_jaccard, Document.bare_jaccard]
  | anyOf hlength _ ih =>
      rw [bare_anyOf, bare_anyOf]
      refine congrArg Schema.anyOf (map_bare_eq_iff.2 ⟨hlength, fun i a b hai hbi => ?_⟩)
      exact ih i a b hai hbi (ha.inside (List.mem_of_getElem? hai))
        (hb.inside (List.mem_of_getElem? hbi))
  | _ => rfl

private theorem identical_iff_bare_eq {a b : Schema} (ha : a.Everywhere OrderedHere)
    (hb : b.Everywhere OrderedHere) : a.Identical b ↔ a.bare = b.bare :=
  ⟨fun h => h.bare_eq ha hb, identical_of_bare_eq⟩

end Schema

/-! ## The order as a number -/

/-- Negative, zero or positive, as the first of two values is below the second,
even with it or above it. -/
def orderSign : Ordering → Int
  | .lt => -1
  | .eq => 0
  | .gt => 1

private theorem orderSign_swap (o : Ordering) : orderSign o.swap = -orderSign o := by
  cases o <;> rfl

theorem orderSign_nonpos_iff {o : Ordering} : orderSign o ≤ 0 ↔ o.isLE = true := by
  cases o <;> decide

private theorem orderSign_eq_zero_iff {o : Ordering} : orderSign o = 0 ↔ o = .eq := by
  cases o <;> decide

private theorem orderSign_mem (o : Ordering) : orderSign o ∈ ({-1, 0, 1} : Set Int) := by
  cases o <;> simp [orderSign]

namespace Schema

/-- The structural order is total: it has three answers, exchanging its operands
turns the answer around, and it is transitive.  Two schemas are even exactly if
they are equal without their statistics; where fields are listed in order, as
sets and maps list them, that is to say exactly if they are identical. -/
theorem compare_is_total_order (a b c : Schema) :
    orderSign (a.compare b) ∈ ({-1, 0, 1} : Set Int) ∧
      orderSign (a.compare b) = -orderSign (b.compare a) ∧
      (orderSign (a.compare b) ≤ 0 → orderSign (b.compare c) ≤ 0 →
        orderSign (a.compare c) ≤ 0) ∧
      (orderSign (a.compare b) = 0 ↔ a.bare = b.bare) ∧
      (a.Everywhere OrderedHere → b.Everywhere OrderedHere →
        (orderSign (a.compare b) = 0 ↔ a.Identical b)) := by
  have heven : orderSign (a.compare b) = 0 ↔ a.bare = b.bare := by
    rw [orderSign_eq_zero_iff, compare_eq_iff_bare_eq]
  refine ⟨orderSign_mem _, ?_, ?_, heven, fun ha hb => ?_⟩
  · rw [← orderSign_swap, compare_swap]
  · rw [orderSign_nonpos_iff, orderSign_nonpos_iff, orderSign_nonpos_iff]
    exact (compare_chains a b c).isLE
  · rw [heven, identical_iff_bare_eq ha hb]

/-- An order with statistics is even with the same order without them; both come
before the order that is open, and that before a list of orders. -/
theorem compare_is_total_order_orders :
    let keys : FieldMap Schema :=
      [("id", .atomic .objectId), ("items", .anyOf [.atomic .null, .array (.atomic .int)])]
    let owner : Reference := ⟨"users", "_id", "one"⟩
    let order : Schema := .document ⟨keys, ["id", "owner"], false, [("owner", owner)], none⟩
    let counted : Schema :=
      .document ⟨keys, ["id", "owner"], false, [("owner", owner)], some (.fresh 0.8)⟩
    let loose : Schema := .document ⟨keys, ["id", "owner"], true, [("owner", owner)], none⟩
    let lists : Schema := .anyOf [.array order, loose]
    order.Everywhere OrderedHere ∧ counted.Everywhere OrderedHere ∧ counted.Identical order ∧
      orderSign (counted.compare loose) = -1 ∧ orderSign (loose.compare lists) = -1 ∧
      orderSign (counted.compare lists) ≤ 0 := by
  intro keys owner order counted loose lists
  have horder : order.Everywhere OrderedHere := by decide +kernel
  have hcounted : counted.Everywhere OrderedHere := by decide +kernel
  have hloose : orderSign (counted.compare loose) = -1 := by decide +kernel
  have hlists : orderSign (loose.compare lists) = -1 := by decide +kernel
  obtain ⟨-, -, -, hbare, hidentical⟩ := compare_is_total_order counted order lists
  obtain ⟨-, -, htrans, -, -⟩ := compare_is_total_order counted loose lists
  refine ⟨horder, hcounted, (hidentical hcounted horder).1 (hbare.2 rfl), hloose, hlists, ?_⟩
  exact htrans (by rw [hloose]; decide) (by rw [hlists]; decide)

end Schema

end DocShape
