import DocShape.Proofs.Assembly
import DocShape.Proofs.Echo

/-!
# Validators keep canonical forms

What is read back from the validator of a schema has the schema's canonical
form.  There are two exceptions, which `FaithfulHere` rules out: a required
field whose schema only simplification shows to be never absent is not written
as required, and documents that are not regular may merge in another order.
-/

namespace DocShape

namespace Schema

/-! ## Leaves read back -/

private theorem kind_echo {s : Schema} (h : s.IsLeaf) : s.echo.kind = s.kind := by
  cases s with
  | unsat => exact absurd rfl h.1
  | anyOf bs => exact absurd rfl h.2
  | array x =>
      by_cases hx : x = .unsat
      · rw [hx, echo_array_unsat]
      · rw [echo_array hx]
        rfl
  | document d =>
      rw [echo_document]
      rfl
  | _ => simp [kind]

theorem IsLeaf.echo {s : Schema} (h : s.IsLeaf) : s.echo.IsLeaf := by
  rw [IsLeaf, kind_echo h]
  exact h

theorem collapsible_atomic (as : List Atomic) : Collapsible (as.map .atomic) where
  branch := List.forall_mem_map.2 fun a _ => isBranch_atomic a
  canonical := List.forall_mem_map.2 fun a _ => canonical_atomic a
  oneDocument := by
    have hnil : documents (as.map .atomic) = [] := by
      rw [documents, List.filterMap_map]
      exact List.filterMap_eq_nil_iff.2 fun _ _ => rfl
    rw [hnil]
    exact Nat.zero_le 1

theorem leaves_atomic (as : List Atomic) : (anyOf (as.map .atomic)).leaves = as.map .atomic := by
  rw [leaves_anyOf, List.flatMap_map]
  exact List.flatMap_pure_eq_map Schema.atomic as

theorem leaves_echo_subperm (s : Schema) : s.echo.leaves.Subperm (s.leaves.map echo) := by
  induction s using induction_children with
  | step s ih =>
      rcases s.isLeaf_or with hleaf | rfl | ⟨bs, rfl⟩
      · rw [hleaf.echo.leaves, hleaf.leaves]
        exact List.Subperm.refl _
      · rw [echo_unsat]
        exact List.nil_subperm
      · by_cases hne : bs = []
        · rw [hne, echo_anyOf_nil]
          exact List.nil_subperm
        cases hnames : atomicNames? bs with
        | some names =>
            rw [echo_anyOf_atomic hne hnames]
            obtain ⟨as, rfl, -⟩ := atomicNames?_eq_some hnames
            have hecho : (as.map Schema.atomic).map echo = as.map .atomic := by simp
            rw [simplify_ofBranches (collapsible_atomic as), leaves_atomic, hecho]
            have hsub := leaves_collapse_subperm (as.map .atomic)
            rwa [← leaves_anyOf, leaves_atomic] at hsub
        | none =>
            rw [echo_anyOf hne hnames, ofBranches, leaves_anyOf, leaves_anyOf, List.map_flatMap]
            refine (subperm_flatMap (sortBranches_subperm _) leaves).trans ?_
            rw [List.flatMap_map]
            exact subperm_flatMap_of_forall ih

theorem settled_ofBranches {bs : List Schema} (h : ∀ b ∈ bs, b.Everywhere SettledHere) :
    (ofBranches bs).Everywhere SettledHere :=
  Everywhere.anyOf_iff.2 ⟨trivial, fun b hb => h b (mem_of_mem_sortBranches hb)⟩

theorem settled_writtenKey? {s w : Schema} (hs : s.Everywhere SettledHere)
    (h : s.writtenKey? = some w) : w.Everywhere SettledHere :=
  hereditary_settledHere.everywhere hs (leaves_writtenKey?_subperm h)

theorem echoField_eq :
    echoField = fun entry => (entry.2.writtenKey?.map echo).map (entry.1, ·) := by
  funext entry
  rw [echoField, Option.map_map]
  rfl

/-- The document type read back, if the fields are in order. -/
def echoed (d : Document) : Document :=
  .ofFields (d.keys.filterMap echoField) d.writtenRequired d.isOpen

theorem settled_echoed {d : Document} (hd : d.Settled) : (echoed d).Settled := by
  refine ⟨⟨?_, hd.ordered.required.filter _⟩, rfl, rfl⟩
  show (FieldMap.names (d.keys.filterMap echoField)).Ordered
  rw [echoField_eq]
  exact FieldMap.ordered_filterMap (f := fun _ s => s.writtenKey?.map echo) hd.ordered.keys

theorem echo_document_of_settled {d : Document} (hd : d.Settled) :
    (document d).echo = .document (echoed d) := by
  have hordered := (settled_echoed hd).ordered
  have hkeys : FieldMap.ofList (d.keys.filterMap echoField) = d.keys.filterMap echoField :=
    FieldMap.ofList_of_ordered hordered.keys
  have hrequired : NameSet.ofList d.writtenRequired = d.writtenRequired :=
    hordered.required.ofList_eq
  rw [echo_document, hkeys, hrequired, echoed]

theorem settled_echo {s : Schema} (hs : s.Everywhere SettledHere) :
    s.echo.Everywhere SettledHere := by
  induction hweight : s.weight using Nat.strongRecOn generalizing s with
  | ind total ih =>
      cases s with
      | unsat =>
          rw [echo_unsat]
          exact .leaf trivial rfl
      | array x =>
          by_cases hx : x = .unsat
          · rw [hx, echo_array_unsat]
            rwa [hx] at hs
          · rw [echo_array hx]
            have hitems := (Everywhere.array_iff.1 hs).2
            refine Everywhere.array_iff.2 ⟨trivial, ih x.weight ?_ hitems rfl⟩
            rw [← hweight]
            exact weight_lt_of_mem_children (List.mem_singleton_self x)
      | document d =>
          obtain ⟨hhere, hkeys⟩ := Everywhere.document_iff.1 hs
          rw [echo_document_of_settled hhere]
          refine Everywhere.document_iff.2 ⟨settled_echoed hhere, fun entry hmem => ?_⟩
          obtain ⟨source, hsource, hentry⟩ := List.mem_filterMap.1 hmem
          obtain ⟨w, hw, rfl⟩ := Option.map_eq_some_iff.1 hentry
          refine ih w.weight ?_ (settled_writtenKey? (hkeys source hsource) hw) rfl
          rw [← hweight]
          exact weight_writtenKey?_lt hsource hw
      | anyOf bs =>
          have hbs := (Everywhere.anyOf_iff.1 hs).2
          by_cases hne : bs = []
          · rw [hne, echo_anyOf_nil]
            exact .leaf trivial rfl
          cases hnames : atomicNames? bs with
          | some names =>
              rw [echo_anyOf_atomic hne hnames]
              obtain ⟨as, rfl, -⟩ := atomicNames?_eq_some hnames
              rw [simplify_ofBranches (collapsible_atomic as)]
              exact settled_collapse hbs
          | none =>
              rw [echo_anyOf hne hnames]
              refine settled_ofBranches (List.forall_mem_map.2 fun b hb => ?_)
              refine ih b.weight ?_ (hbs b hb) rfl
              rw [← hweight]
              exact weight_lt_of_mem_children hb
      | _ => simpa using hs

theorem mem_leaves_echo {s : Schema} (hs : s.Everywhere SettledHere) :
    ∀ y ∈ s.leaves, y.echo ∈ s.echo.leaves := by
  induction s using induction_children with
  | step s ih =>
      intro y hy
      rcases s.isLeaf_or with hleaf | rfl | ⟨bs, rfl⟩
      · rw [hleaf.leaves] at hy
        rw [List.mem_singleton.1 hy, hleaf.echo.leaves]
        exact List.mem_singleton_self _
      · cases hy
      · have hbs := (Everywhere.anyOf_iff.1 hs).2
        have hne : bs ≠ [] := by
          rintro rfl
          cases hy
        cases hnames : atomicNames? bs with
        | some names =>
            rw [echo_anyOf_atomic hne hnames]
            obtain ⟨as, rfl, -⟩ := atomicNames?_eq_some hnames
            rw [simplify_ofBranches (collapsible_atomic as)]
            have hkept := mem_leaves_collapse hbs (leaves_anyOf _ ▸ hy)
            rw [leaves_atomic] at hy
            obtain ⟨a, -, rfl⟩ := List.mem_map.1 hy
            rw [echo_atomic]
            refine hkept.resolve_left fun hany => ?_
            have hmem := (leaves_collapse_subperm _).subset hany
            rw [← leaves_anyOf, leaves_atomic] at hmem
            obtain ⟨a, -, ha⟩ := List.mem_map.1 hmem
            cases ha
        | none =>
            rw [leaves_anyOf, List.mem_flatMap] at hy
            obtain ⟨b, hb, hy⟩ := hy
            rw [echo_anyOf hne hnames, ofBranches, leaves_anyOf]
            have hsettled : ∀ c ∈ bs.map echo, c.Everywhere SettledHere :=
              List.forall_mem_map.2 fun c hc => settled_echo (hbs c hc)
            exact List.mem_flatMap.2 ⟨b.echo,
              (mem_sortBranches_of_settled hsettled).2 (List.mem_map_of_mem hb),
              ih b hb (hs.inside hb) y hy⟩

/-! ## Canonical forms read back -/

/-- What is written of the schema, leaving aside the schemas inside it, tells as
much as its canonical form: a field that simplification leaves required can be
seen to be present as it stands, and the documents of a disjunction merge in any
order. -/
def FaithfulHere : Schema → Prop
  | .document d => ∀ field ∈ d.required, ∀ s ∈ d.key? field,
      s.simplify.keepsRequired = true → s.keepsRequired = true
  | .anyOf bs => Mergeable ((anyOf bs).leaves.map simplify)
  | _ => True

instance : DecidablePred FaithfulHere
  | .document d => inferInstanceAs (Decidable (∀ field ∈ d.required, ∀ s ∈ d.key? field,
      s.simplify.keepsRequired = true → s.keepsRequired = true))
  | .anyOf bs => inferInstanceAs (Decidable (Mergeable ((anyOf bs).leaves.map simplify)))
  | .unsat | .missing | .atomic _ | .array _ | .any => .isTrue trivial

theorem FaithfulHere.mergeable {s : Schema} (h : s.FaithfulHere) :
    Mergeable (s.leaves.map simplify) := by
  rcases s.isLeaf_or with hleaf | rfl | ⟨bs, rfl⟩
  · rw [hleaf.leaves]
    exact Or.inl (List.length_filterMap_le _ _)
  · exact Or.inl (Nat.zero_le 1)
  · exact h

theorem hereditary_faithfulHere : Hereditary FaithfulHere where
  unsat := trivial
  anyOf h hsub := h.mergeable.subperm (subperm_map hsub _)

private theorem declaredPresent_writtenKey? {s : Schema} (hs : s.Everywhere SettledHere)
    (hfaithful : s.FaithfulHere) :
    s.writtenKey?.bind (fun w => w.simplify.declaredPresent) = s.simplify.declaredPresent := by
  have hpresent := declaredPresent_simplify_present hs hfaithful.mergeable
  rw [writtenKey?]
  split
  · rfl
  · split
    · rename_i hkind
      have hunsat : s.present = .unsat := by
        cases hp : s.present <;> rw [hp] at hkind <;> first | rfl | cases hkind
      rw [hunsat] at hpresent
      exact hpresent
    · exact hpresent

section Documents

variable {c d : Document}

theorem document_eta (d : Document) :
    document ⟨d.keys, d.required, d.isOpen, d.references, d.jaccard⟩ = document d := by
  cases d
  rfl

theorem mem_writtenRequired {field : String} :
    field ∈ d.writtenRequired ↔
      field ∈ d.required ∧ ∀ s ∈ d.key? field, s.keepsRequired = true := by
  rw [Document.writtenRequired, List.mem_filter]
  cases d.key? field <;> simp [keepsRequired]

private theorem key?_echoed (hd : d.Settled) (field : String) :
    (echoed d).key? field = (d.key? field).bind fun s => s.writtenKey?.map echo := by
  show FieldMap.find? (d.keys.filterMap echoField) field = _
  rw [echoField_eq]
  exact FieldMap.find?_filterMap (f := fun _ s => s.writtenKey?.map echo) hd.ordered.keys field

section Fields

variable (hs : (document d).Everywhere SettledHere)
  (hecho : ∀ entry ∈ d.keys, ∀ w, entry.2.writtenKey? = some w → w.echo.simplify = w.simplify)

include hs hecho

private theorem keys_redeclare_echoed (hfaithful : ∀ entry ∈ d.keys, entry.2.FaithfulHere) :
    ((echoed d).redeclare (simplifyKeys (echoed d).keys)).keys =
      (d.redeclare (simplifyKeys d.keys)).keys := by
  show List.filterMap _ (simplifyKeys (d.keys.filterMap echoField)) =
    List.filterMap _ (simplifyKeys d.keys)
  rw [simplifyKeys_eq_map, simplifyKeys_eq_map, List.filterMap_map, List.filterMap_map,
    List.filterMap_filterMap]
  refine List.filterMap_congr fun entry hmem => ?_
  have hsettled := (Everywhere.document_iff.1 hs).2 entry hmem
  simp only [Function.comp_apply]
  rw [← declaredPresent_writtenKey? hsettled (hfaithful entry hmem), echoField]
  cases hw : entry.2.writtenKey? with
  | none => rfl
  | some w => rw [Option.map_some, Option.bind_some, Option.bind_some, hecho entry hmem w hw]

private theorem required_redeclare_echoed :
    ((echoed d).redeclare (simplifyKeys (echoed d).keys)).required =
      (d.redeclare (simplifyKeys d.keys)).required.filter (· ∈ d.writtenRequired) := by
  have hhere : d.Settled := hs.here
  -- A field that is written as required is written with its own schema.
  have hkept (field : String) (hw : field ∈ d.writtenRequired) :
      (∀ s ∈ (echoed d).key? field, s.simplify.keepsRequired = true) ↔
        ∀ s ∈ d.key? field, s.simplify.keepsRequired = true := by
    rw [key?_echoed hhere]
    cases hkey : d.key? field with
    | none => simp
    | some s =>
        have hwritten := writtenKey?_of_keepsRequired ((mem_writtenRequired.1 hw).2 s hkey)
        simp [hwritten, hecho _ (Document.mem_of_key? hkey) s hwritten]
  refine NameSet.Ordered.ext ((settled_echoed hhere).ordered.required.filter _)
    ((hhere.ordered.required.filter _).filter _) fun field => ?_
  rw [mem_required_redeclare, List.mem_filter, mem_required_redeclare, decide_eq_true_iff]
  constructor
  · rintro ⟨hw, hechoed⟩
    exact ⟨⟨(mem_writtenRequired.1 hw).1, (hkept field hw).1 hechoed⟩, hw⟩
  · rintro ⟨⟨-, hcanonical⟩, hw⟩
    exact ⟨hw, (hkept field hw).2 hcanonical⟩

/-- A document type is read back with the fields of its canonical form, and of
the required ones with those that were written as required. -/
theorem simplify_echo_document (hc : (document d).simplify = .document c)
    (hfaithful : ∀ entry ∈ d.keys, entry.2.FaithfulHere) :
    (document d).echo.simplify =
      .document { c with required := c.required.filter (· ∈ d.writtenRequired) } := by
  have hhere : d.Settled := hs.here
  rw [simplify_document] at hc
  cases hc
  rw [echo_document_of_settled hhere, simplify_document, ← document_eta,
    keys_redeclare_echoed hs hecho hfaithful, required_redeclare_echoed hs hecho]
  show document ⟨_, _, d.isOpen, [], none⟩ = document ⟨_, _, d.isOpen, d.references, d.jaccard⟩
  rw [hhere.references, hhere.jaccard]

end Fields

theorem faithfulHere_document_iff (hc : (document d).simplify = .document c) :
    (document d).FaithfulHere ↔ c.required.filter (· ∈ d.writtenRequired) = c.required := by
  rw [simplify_document] at hc
  cases hc
  rw [List.filter_eq_self]
  constructor
  · intro h field hmem
    obtain ⟨hrequired, hkept⟩ := mem_required_redeclare.1 hmem
    refine decide_eq_true (mem_writtenRequired.2 ⟨hrequired, fun s hs => ?_⟩)
    exact h field hrequired s hs (hkept s hs)
  · intro h field hrequired s hs hkept
    have hmem : field ∈ (d.redeclare (simplifyKeys d.keys)).required := by
      refine mem_required_redeclare.2 ⟨hrequired, fun t ht => ?_⟩
      rwa [← Option.mem_unique hs ht]
    exact (mem_writtenRequired.1 (of_decide_eq_true (h field hmem))).2 s hs

end Documents

/-- A schema that is written faithfully is read back with its canonical form. -/
theorem simplify_echo {s : Schema} (hs : s.Everywhere SettledHere)
    (hfaithful : s.Everywhere FaithfulHere) : s.echo.simplify = s.simplify := by
  -- A written field is not below the document, only lighter.
  induction hweight : s.weight using Nat.strongRecOn generalizing s with
  | ind total ih =>
      cases s with
      | unsat =>
          rw [echo_unsat]
          rfl
      | array x =>
          by_cases hx : x = .unsat
          · rw [hx, echo_array_unsat]
          · rw [echo_array hx]
            refine congrArg array (ih x.weight ?_ (Everywhere.array_iff.1 hs).2
              (Everywhere.array_iff.1 hfaithful).2 rfl)
            rw [← hweight]
            exact weight_lt_of_mem_children (List.mem_singleton_self x)
      | document d =>
          obtain ⟨hhere, hkeys⟩ := Everywhere.document_iff.1 hfaithful
          obtain ⟨c, hc⟩ : ∃ c, (document d).simplify = .document c := ⟨_, simplify_document d⟩
          have hecho : ∀ entry ∈ d.keys, ∀ w, entry.2.writtenKey? = some w →
              w.echo.simplify = w.simplify := by
            intro entry hmem w hw
            have hsettled := (Everywhere.document_iff.1 hs).2 entry hmem
            refine ih w.weight ?_ (settled_writtenKey? hsettled hw)
              (hereditary_faithfulHere.everywhere (hkeys entry hmem)
                (leaves_writtenKey?_subperm hw)) rfl
            rw [← hweight]
            exact weight_writtenKey?_lt hmem hw
          rw [hc, simplify_echo_document hs hecho hc fun entry hmem => (hkeys entry hmem).here,
            (faithfulHere_document_iff hc).1 hhere, document_eta]
      | anyOf bs =>
          have hleaves : ∀ y ∈ (anyOf bs).leaves, y.echo.simplify = y.simplify := by
            intro y hy
            refine ih y.weight ?_ (hs.of_mem_leaves hy) (hfaithful.of_mem_leaves hy) rfl
            rw [← hweight]
            exact weight_lt_of_mem_leaves hy
          have hmap : (anyOf bs).leaves.map (simplify ∘ echo) = (anyOf bs).leaves.map simplify :=
            List.map_congr_left hleaves
          have hsub := subperm_map (leaves_echo_subperm (anyOf bs)) simplify
          rw [List.map_map, hmap] at hsub
          rw [simplify_eq_assemble, simplify_eq_assemble (anyOf bs)]
          refine assemble_congr (canonicalLeaves_simplify hs) hfaithful.here.mergeable hsub
            (List.forall_mem_map.2 fun y hy => ?_)
          rw [← hleaves y hy]
          exact List.mem_map_of_mem (mem_leaves_echo hs y hy)
      | _ => simp

/-- If only its required fields are in question, a document type has its
canonical form read back exactly if they are all written as required. -/
theorem same_simplify_echo_document_iff {d : Document} (hs : (document d).Everywhere SettledHere)
    (hfields : ∀ entry ∈ d.keys, entry.2.Everywhere FaithfulHere) :
    (document d).echo.simplify.same (document d).simplify = true ↔ (document d).FaithfulHere := by
  rw [same_iff_eq (settled_simplify (settled_echo hs)) (settled_simplify hs)]
  constructor
  · intro heq
    obtain ⟨c, hc⟩ : ∃ c, (document d).simplify = .document c := ⟨_, simplify_document d⟩
    have hecho : ∀ entry ∈ d.keys, ∀ w, entry.2.writtenKey? = some w →
        w.echo.simplify = w.simplify := by
      intro entry hmem w hw
      exact simplify_echo (settled_writtenKey? ((Everywhere.document_iff.1 hs).2 entry hmem) hw)
        (hereditary_faithfulHere.everywhere (hfields entry hmem) (leaves_writtenKey?_subperm hw))
    rw [hc, simplify_echo_document hs hecho hc fun entry hmem => (hfields entry hmem).here,
      ← document_eta c] at heq
    injection heq with heq
    injection heq with _ hrequired
    exact (faithfulHere_document_iff hc).2 hrequired
  · intro hhere
    exact simplify_echo hs (Everywhere.document_iff.2 ⟨hhere, hfields⟩)

/-- A schema without statistics and references that can be written within a
limit is read back within it.  The canonical form is kept if every depth is
written faithfully; a document type whose fields are so keeps it exactly if it
is written faithfully itself. -/
theorem simplify_ofValidator_toValidator {s : Schema} {limit : Int} {v : Validator}
    (hnamed : s.Everywhere NamedHere) (hsettled : s.Everywhere SettledHere)
    (h : s.toValidator limit = .ok v) :
    ∃ r, ofValidator v limit = .ok r ∧
      (s.Everywhere FaithfulHere → r.simplify = s.simplify) ∧
      ∀ d, s = .document d → (∀ entry ∈ d.keys, entry.2.Everywhere FaithfulHere) →
        (r.simplify.same s.simplify = true ↔ s.FaithfulHere) := by
  refine ⟨s.echo, ofValidator_of_toValidator hnamed h, simplify_echo hsettled, ?_⟩
  rintro d rfl hfields
  exact same_simplify_echo_document_iff hsettled hfields

/-- Orders of which some fields are declared in a roundabout way, and lists. -/
theorem simplify_ofValidator_toValidator_orders :
    let order : Schema := .document (.ofFields
      [("id", .anyOf [.atomic .int, .anyOf [.atomic .string]]),
        ("note", .anyOf [.missing, .anyOf [.unsat, .atomic .string]])] ["id", "owner"] false)
    let draft : Schema := .document
      (.ofFields [("gone", .anyOf []), ("id", .atomic .int)] ["id"] true)
    let s : Schema := .anyOf [.atomic .null, .array (.anyOf [.unsat, .anyOf [.atomic .int, .any]]),
      order, .anyOf [draft]]
    s.Everywhere NamedHere ∧ s.Everywhere SettledHere ∧ s.Everywhere FaithfulHere ∧
      ∃ v r, s.toValidator 8 = .ok v ∧ ofValidator v 8 = .ok r ∧ r.simplify = s.simplify := by
  intro order draft s
  have hnamed : s.Everywhere NamedHere := by decide +kernel
  have hsettled : s.Everywhere SettledHere := by decide +kernel
  have hfaithful : s.Everywhere FaithfulHere := by decide +kernel
  have hwritten : (s.toValidator 8).toBool = true := by decide +kernel
  cases hv : s.toValidator 8 with
  | error f =>
      rw [hv] at hwritten
      cases hwritten
  | ok v =>
      obtain ⟨r, hr, hkept, -⟩ := simplify_ofValidator_toValidator hnamed hsettled hv
      exact ⟨hnamed, hsettled, hfaithful, v, r, rfl, hr, hkept hfaithful⟩

/-- A required field with an impossible alternative: simplification drops that
alternative and leaves the field required, but it is not written as required. -/
theorem required_field_forgotten :
    let s : Schema := .document (.ofFields [("f", .anyOf [.unsat, .atomic .int])] ["f"] false)
    let limit := Settings.standard.maxDepth
    s.Everywhere NamedHere ∧ s.Everywhere SettledHere ∧
      ∃ v r, s.toValidator limit = .ok v ∧ ofValidator v limit = .ok r ∧
        r.simplify.same s.simplify = false := by
  intro s limit
  have hnamed : s.Everywhere NamedHere := by decide +kernel
  have hsettled : s.Everywhere SettledHere := by decide +kernel
  have hunfaithful : ¬ s.FaithfulHere := by decide +kernel
  have hwritten : (s.toValidator limit).toBool = true := by decide +kernel
  cases hv : s.toValidator limit with
  | error f =>
      rw [hv] at hwritten
      cases hwritten
  | ok v =>
      refine ⟨hnamed, hsettled, v, s.echo, rfl, ofValidator_of_toValidator hnamed hv, ?_⟩
      rw [Bool.eq_false_iff, ne_eq, same_simplify_echo_document_iff hsettled]
      · exact hunfaithful
      · decide +kernel

/-- Documents that merge in another order once the first is declared without its
absent values. -/
example :
    let lists : Schema := .anyOf [.array (.atomic .int), .array (.atomic .string)]
    let absent : Schema := .anyOf [.missing, .array (.atomic .int), .array (.atomic .string)]
    let s : Schema := .anyOf [.document (.ofFields [("f", absent)] [] false),
      .document (.ofFields [("f", lists)] [] false)]
    ¬ s.FaithfulHere ∧ s.echo.simplify.same s.simplify = false := by
  decide +kernel

end Schema

end DocShape
