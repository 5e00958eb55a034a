import DocShape.Validator.Convert
import DocShape.Proofs.Leaves
import DocShape.Proofs.Outcomes

/-!
# Written validators read back

`echo` is the schema that reading gives from the validator of a schema.  It is
the schema itself, statistics aside, for every canonical schema but `unsat`.
-/

namespace DocShape

/-! ## Depth -/

theorem branchesDepth_le_iff {bs : List Schema} {n : Nat} :
    branchesDepth bs ≤ n ↔ ∀ b ∈ bs, b.depth ≤ n := by
  induction bs with
  | nil => simp [branchesDepth]
  | cons b rest ih => rw [branchesDepth, Nat.max_le, ih, List.forall_mem_cons]

theorem keysDepth_le_iff {keys : List (String × Schema)} {n : Nat} :
    keysDepth keys ≤ n ↔ ∀ entry ∈ keys, entry.2.depth ≤ n := by
  induction keys with
  | nil => simp [keysDepth]
  | cons entry rest ih => rw [keysDepth, Nat.max_le, ih, List.forall_mem_cons]

namespace Schema

theorem depth_pos (s : Schema) : 0 < s.depth := by
  cases s <;> simp [depth]

private theorem depth_collapse_le (bs : List Schema) : (collapse bs).depth ≤ branchesDepth bs + 1 := by
  have hdepth : ∀ b ∈ sortBranches bs, b.depth ≤ branchesDepth bs := fun b hb =>
    branchesDepth_le_iff.1 (Nat.le_refl _) b (mem_of_mem_sortBranches hb)
  unfold collapse
  split
  · simp [depth]
  · split
    · simp [depth]
    · rename_i b hsort
      have := hdepth b (hsort ▸ List.mem_singleton_self b)
      omega
    · have := branchesDepth_le_iff.2 hdepth
      simp only [depth]
      omega

theorem depth_collapse_subtractBranches_le {drop : Schema → Bool} {bs : List Schema}
    (h : ∀ b ∈ bs, (b.subtractNested drop).depth ≤ b.depth) :
    (collapse (subtractBranches drop bs)).depth ≤ (anyOf bs).depth := by
  have hdepth : branchesDepth (subtractBranches drop bs) ≤ branchesDepth bs := by
    refine branchesDepth_le_iff.2 fun c hc => ?_
    obtain ⟨⟨b, hb, rfl⟩, -⟩ := mem_subtractBranches.1 hc
    exact Nat.le_trans (h b hb) (branchesDepth_le_iff.1 (Nat.le_refl _) b hb)
  have hcollapse := depth_collapse_le (subtractBranches drop bs)
  simp only [depth]
  omega

private theorem depth_subtractNested_le (drop : Schema → Bool) (s : Schema) :
    (s.subtractNested drop).depth ≤ s.depth := by
  induction s using induction_children with
  | step s ih =>
      cases s with
      | anyOf bs => exact depth_collapse_subtractBranches_le ih
      | _ => exact Nat.le_refl _

theorem depth_present_le (s : Schema) : s.present.depth ≤ s.depth := by
  cases s with
  | anyOf bs => exact depth_collapse_subtractBranches_le fun b _ => depth_subtractNested_le _ b
  | _ => exact Nat.le_refl _

/-! ## Declared fields -/

/-- A field is written with its schema, or with the present values of that. -/
theorem writtenKey?_cases {s w : Schema} (h : s.writtenKey? = some w) : w = s ∨ w = s.present := by
  unfold writtenKey? at h
  split at h
  · cases h
    exact Or.inl rfl
  · split at h
    · cases h
    · cases h
      exact Or.inr rfl

theorem writtenKey?_of_keepsRequired {s : Schema} (h : s.keepsRequired = true) :
    s.writtenKey? = some s := by
  rw [writtenKey?, if_pos]
  simpa [keepsRequired] using h

theorem depth_writtenKey?_le {s w : Schema} (h : s.writtenKey? = some w) : w.depth ≤ s.depth := by
  rcases writtenKey?_cases h with rfl | rfl
  · exact Nat.le_refl _
  · exact s.depth_present_le

theorem leaves_writtenKey?_subperm {s w : Schema} (h : s.writtenKey? = some w) :
    w.leaves.Subperm s.leaves := by
  rcases writtenKey?_cases h with rfl | rfl
  · exact List.Subperm.refl _
  · exact s.leaves_present_subperm.trans List.filter_sublist.subperm

theorem weight_writtenKey?_lt {d : Document} {entry : String × Schema} {w : Schema}
    (hmem : entry ∈ d.keys) (h : entry.2.writtenKey? = some w) :
    w.weight < (document d).weight := by
  have hkey := weight_writtenKey?_le h
  have hkeys := weight_lt_keysWeight_of_mem hmem
  simp only [weight, Document.weight_eq]
  omega

/-! ## The schema read back -/

/-- The schema read from the validator of a schema. -/
def echo (s : Schema) : Schema :=
  match s with
  | .unsat => .anyOf []
  | .array .unsat => .array .unsat
  | .array items => .array items.echo
  | .document d =>
      .document (.ofFields
        (FieldMap.ofList (d.keys.attach.filterMap fun ⟨entry, _⟩ =>
          match _h : entry.2.writtenKey? with
          | none => none
          | some written => some (entry.1, written.echo)))
        (NameSet.ofList d.writtenRequired) d.isOpen)
  | .anyOf [] => .anyOf []
  | .anyOf bs =>
      match atomicNames? bs with
      | some _ => (ofBranches bs).simplify
      | none => ofBranches (bs.attach.map fun ⟨b, _⟩ => b.echo)
  | s => s
termination_by s.weight
decreasing_by
  · simp [weight]
  · rename_i hmem
    exact weight_writtenKey?_lt hmem _h
  · rename_i hmem
    have := weight_le_branchesWeight hmem
    simp only [weight]
    omega

/-- Schemas with nothing below them that would be written. -/
theorem echo_leaves :
    unsat.echo = .anyOf [] ∧ missing.echo = .missing ∧ any.echo = .any ∧
      (∀ a : Atomic, (atomic a).echo = .atomic a) ∧ (array .unsat).echo = .array .unsat ∧
      (anyOf []).echo = .anyOf [] := by
  simp [echo]

@[simp] theorem echo_unsat : unsat.echo = .anyOf [] := echo_leaves.1

@[simp] theorem echo_missing : missing.echo = .missing := echo_leaves.2.1

@[simp] theorem echo_any : any.echo = .any := echo_leaves.2.2.1

@[simp] theorem echo_atomic (a : Atomic) : (atomic a).echo = .atomic a := echo_leaves.2.2.2.1 a

@[simp] theorem echo_array_unsat : (array .unsat).echo = .array .unsat := echo_leaves.2.2.2.2.1

@[simp] theorem echo_anyOf_nil : (anyOf []).echo = .anyOf [] := echo_leaves.2.2.2.2.2

theorem echo_array {items : Schema} (h : items ≠ .unsat) :
    (array items).echo = .array items.echo := by
  rw [echo]
  exact h

theorem echo_anyOf_atomic {bs : List Schema} {names : List String} (hne : bs ≠ [])
    (h : atomicNames? bs = some names) : (anyOf bs).echo = (ofBranches bs).simplify := by
  rw [echo, h]
  exact hne

/-- A declared field as it is read back. -/
def echoField (entry : String × Schema) : Option (String × Schema) :=
  entry.2.writtenKey?.map fun written => (entry.1, written.echo)

theorem echo_document (d : Document) :
    (document d).echo = .document (.ofFields (FieldMap.ofList (d.keys.filterMap echoField))
      (NameSet.ofList d.writtenRequired) d.isOpen) := by
  rw [echo, List.filterMap_subtype (g := echoField), List.unattach_attach]
  intro entry _
  dsimp only [echoField]
  split <;> rename_i hwritten <;> rw [hwritten] <;> rfl

theorem echo_anyOf {bs : List Schema} (hne : bs ≠ []) (h : atomicNames? bs = none) :
    (anyOf bs).echo = ofBranches (bs.map echo) := by
  rw [echo, h]
  · simp
  · exact hne

/-! ## Writing -/

/-- A declared field as it is written. -/
def writeField (entry : String × Schema) : Outcome (Option (String × Validator)) :=
  match entry.2.writtenKey? with
  | none => .ok none
  | some written => do
      let v ← Outcome.inContext ("property " ++ Text.quote entry.1) written.writeValidator
      return some (entry.1, v)

theorem writeValidator_document (d : Document) :
    (document d).writeValidator = (do
      let properties ← d.keys.filterMapM writeField
      return .of { Keywords.blank with
        bsonType := some (.single "object")
        properties := some properties
        required := if d.writtenRequired.isEmpty then none else some d.writtenRequired
        additionalProperties := some d.isOpen }) := by
  rw [writeValidator, List.filterMapM_subtype (g := writeField), List.unattach_attach]
  intro entry _
  obtain ⟨field, key⟩ := entry
  dsimp only [writeField]
  split <;> rename_i hwritten <;> rw [hwritten]

theorem writeValidator_anyOf {bs : List Schema} (hne : bs ≠ []) (h : atomicNames? bs = none) :
    (anyOf bs).writeValidator = (do
      let list ← bs.mapM writeValidator
      return .of { Keywords.blank with anyOf := some list }) := by
  rw [writeValidator, h]
  · simp
  · exact hne

/-! ## Reading what was written -/

/-- An atomic kind has an alias to be written with. -/
def NamedHere : Schema → Prop
  | .atomic a => a.isNamed = true
  | _ => True

instance : DecidablePred NamedHere
  | .atomic a => inferInstanceAs (Decidable (a.isNamed = true))
  | .unsat | .missing | .array _ | .document _ | .anyOf _ | .any => .isTrue trivial

theorem hereditary_namedHere : Hereditary NamedHere :=
  ⟨trivial, fun _ _ => trivial⟩

theorem toType_name (child : Validator → Outcome Schema) (k : Keywords) {a : Atomic}
    (h : a.isNamed = true) : k.toType child a.name = .ok (.atomic a) := by
  cases a <;> first | rfl | cases h

theorem atomicNames?_eq_some {bs : List Schema} {names : List String}
    (h : atomicNames? bs = some names) :
    ∃ as : List Atomic, bs = as.map .atomic ∧ names = as.map Atomic.name := by
  induction bs generalizing names with
  | nil =>
      cases h
      exact ⟨[], rfl, rfl⟩
  | cons b rest ih =>
      rw [atomicNames?, List.mapM_cons, Option.bind_eq_bind, Option.bind_eq_some_iff] at h
      obtain ⟨name, hname, h⟩ := h
      rw [Option.bind_eq_bind, Option.bind_eq_some_iff] at h
      obtain ⟨others, hothers, h⟩ := h
      obtain ⟨as, rfl, rfl⟩ := ih hothers
      cases b with
      | atomic a =>
          cases hname
          cases h
          exact ⟨a :: as, rfl, rfl⟩
      | _ => cases hname

section Reading

variable {child : Validator → Outcome Schema} {v : Validator}

theorem toSchema_several {as : List Atomic} (h : ∀ a ∈ as, a.isNamed = true) :
    Keywords.toSchema child
        { Keywords.blank with bsonType := some (.several (as.map Atomic.name)) } =
      .ok (ofBranches (as.map .atomic)).simplify := by
  generalize hk : { Keywords.blank with bsonType := some (.several (as.map Atomic.name)) } = k
  have hread : (as.map Atomic.name).mapM (k.toType child) = .ok (as.map .atomic) := by
    clear hk
    induction as with
    | nil => rfl
    | cons a as ih =>
        obtain ⟨ha, has⟩ := List.forall_mem_cons.1 h
        rw [List.map_cons, List.mapM_cons, toType_name child k ha, ih has]
        rfl
  have hform : k.toSchema child =
      (fun branches => (ofBranches branches).simplify) <$>
        (as.map Atomic.name).mapM (k.toType child) := by
    rw [← hk]
    cases as with
    | nil => rfl
    | cons a as => cases as <;> rfl
  rw [hform, hread]
  rfl

theorem toSchema_document {d : Document}
    (hchild : ∀ entry ∈ d.keys, ∀ written w, entry.2.writtenKey? = some written →
      written.writeValidator = .ok w → child w = .ok written.echo)
    (h : (document d).writeValidator = .ok v) :
    v.keywords.toSchema child = .ok (document d).echo := by
  rw [writeValidator_document, Outcome.bind_eq_ok] at h
  obtain ⟨properties, hproperties, h⟩ := h
  rw [Outcome.pure_eq_ok] at h
  rw [echo_document, ← h]
  show Keywords.toDocument child _ = _
  rw [Keywords.toDocument, Outcome.bind_eq_ok]
  refine ⟨d.keys.filterMap echoField, Outcome.mapM_of_filterMapM ?_ ?_ hproperties, ?_⟩
  · intro entry _ hnone
    rw [writeField] at hnone
    split at hnone
    · rename_i hwritten
      rw [echoField, hwritten]
      rfl
    · simp at hnone
  · intro entry hmem property hproperty
    rw [writeField] at hproperty
    split at hproperty
    · cases hproperty
    · rename_i written hwritten
      simp only [Outcome.bind_eq_ok, Outcome.inContext_eq_ok, Outcome.pure_eq_ok,
        Option.some.injEq] at hproperty
      obtain ⟨w, hw, rfl⟩ := hproperty
      refine ⟨(entry.1, written.echo), by rw [echoField, hwritten]; rfl, ?_⟩
      show (do return (entry.1, ← child w) : Outcome (String × Schema)) = _
      rw [hchild entry hmem written w hwritten hw]
      rfl
  · have hrequired : Option.getD (if d.writtenRequired.isEmpty then none
        else some d.writtenRequired) [] = d.writtenRequired := by
      split
      · rename_i hempty
        exact (List.isEmpty_iff.1 hempty).symm
      · rfl
    exact Outcome.pure_eq_ok.2 (congrArg (fun required => Schema.document
      (.ofFields (FieldMap.ofList (d.keys.filterMap echoField)) (NameSet.ofList required) d.isOpen))
      hrequired)

theorem toSchema_array {items : Schema}
    (hchild : ∀ w, items.writeValidator = .ok w → child w = .ok items.echo)
    (h : (array items).writeValidator = .ok v) :
    v.keywords.toSchema child = .ok (array items).echo := by
  by_cases hunsat : items = .unsat
  · subst hunsat
    rw [writeValidator] at h
    cases h
    rw [echo_array_unsat]
    rfl
  by_cases hany : items = .any
  · subst hany
    rw [writeValidator] at h
    cases h
    rw [echo_array hunsat, echo_any]
    rfl
  · rw [writeValidator, Outcome.bind_eq_ok] at h
    · obtain ⟨w, hw, h⟩ := h
      rw [Outcome.pure_eq_ok] at h
      rw [echo_array hunsat, ← h]
      show (do return .array (← child w) : Outcome Schema) = _
      rw [hchild w hw]
      rfl
    · exact hunsat
    · exact hany

theorem toSchema_anyOf {bs : List Schema}
    (hchild : ∀ b ∈ bs, ∀ w, b.writeValidator = .ok w → child w = .ok b.echo)
    (hnamed : ∀ b ∈ bs, b.NamedHere) (h : (anyOf bs).writeValidator = .ok v) :
    v.keywords.toSchema child = .ok (anyOf bs).echo := by
  by_cases hne : bs = []
  · subst hne
    rw [writeValidator] at h
    cases h
    rw [echo_anyOf_nil]
    rfl
  · cases hnames : atomicNames? bs with
    | some names =>
        obtain ⟨as, rfl, rfl⟩ := atomicNames?_eq_some hnames
        rw [writeValidator, hnames] at h
        · cases h
          rw [echo_anyOf_atomic hne hnames]
          exact toSchema_several (List.forall_mem_map.1 hnamed)
        · exact hne
    | none =>
        rw [writeValidator_anyOf hne hnames, Outcome.bind_eq_ok] at h
        obtain ⟨list, hlist, h⟩ := h
        rw [Outcome.pure_eq_ok] at h
        rw [echo_anyOf hne hnames, ← h]
        show (ofBranches <$> list.mapM child : Outcome Schema) = _
        rw [Outcome.mapM_of_mapM hchild hlist]
        rfl

end Reading

/-- Reading with room for the schema's depth gives back its echo. -/
theorem ofValidatorWithin_of_writeValidator (limit : Int) {s : Schema} {v : Validator} {room : Nat}
    (hnamed : s.Everywhere NamedHere) (hdepth : s.depth ≤ room) (h : s.writeValidator = .ok v) :
    ofValidatorWithin limit room v = .ok s.echo := by
  induction hweight : s.weight using Nat.strongRecOn generalizing s v room with
  | ind total ih =>
      obtain ⟨room, rfl⟩ : ∃ r, room = r + 1 := by
        have := s.depth_pos
        exact ⟨room - 1, by omega⟩
      show v.keywords.toSchema (ofValidatorWithin limit room) = _
      cases s with
      | unsat =>
          rw [writeValidator] at h
          cases h
          rw [echo_unsat]
          rfl
      | any =>
          rw [writeValidator] at h
          cases h
          rw [echo_any]
          rfl
      | missing =>
          rw [writeValidator_missing] at h
          cases h
      | atomic a =>
          rw [writeValidator] at h
          cases h
          rw [echo_atomic]
          exact toType_name _ _ hnamed.here
      | array items =>
          obtain ⟨-, hitems⟩ := Everywhere.array_iff.1 hnamed
          refine toSchema_array (fun w hw => ih items.weight ?_ hitems ?_ hw rfl) h
          · rw [← hweight]
            simp [weight]
          · simp only [depth] at hdepth
            omega
      | document d =>
          obtain ⟨-, hkeys⟩ := Everywhere.document_iff.1 hnamed
          have hdepths : ∀ entry ∈ d.keys, entry.2.depth ≤ room := by
            refine keysDepth_le_iff.1 (Nat.le_of_succ_le_succ ?_)
            cases d
            exact hdepth
          refine toSchema_document (fun entry hmem written w hwritten hw => ?_) h
          refine ih written.weight ?_ ?_ ?_ hw rfl
          · rw [← hweight]
            exact weight_writtenKey?_lt hmem hwritten
          · exact hereditary_namedHere.everywhere (hkeys entry hmem)
              (leaves_writtenKey?_subperm hwritten)
          · exact Nat.le_trans (depth_writtenKey?_le hwritten) (hdepths entry hmem)
      | anyOf bs =>
          obtain ⟨-, hbs⟩ := Everywhere.anyOf_iff.1 hnamed
          have hdepths : ∀ b ∈ bs, b.depth ≤ room :=
            branchesDepth_le_iff.1 (Nat.le_of_succ_le_succ hdepth)
          refine toSchema_anyOf (fun b hb w hw => ?_) (fun b hb => (hbs b hb).here) h
          refine ih b.weight ?_ (hbs b hb) (hdepths b hb) hw rfl
          have := weight_le_branchesWeight hb
          simp only [weight] at hweight
          omega

theorem ofValidator_of_toValidator {s : Schema} {v : Validator} {limit : Int}
    (hnamed : s.Everywhere NamedHere) (h : s.toValidator limit = .ok v) :
    ofValidator v limit = .ok s.echo := by
  rw [toValidator] at h
  split at h
  · cases h
  · exact ofValidatorWithin_of_writeValidator limit hnamed (by omega) h

/-! ## Canonical schemas -/

/-- A validator can say everything about the schema, leaving aside the schemas
inside it: atomic kinds have aliases, and fields stand in order and refer to
nothing. -/
def WritableHere : Schema → Prop
  | .atomic a => a.isNamed = true
  | .document d => d.Ordered ∧ d.references = []
  | _ => True

instance : DecidablePred WritableHere
  | .atomic a => inferInstanceAs (Decidable (a.isNamed = true))
  | .document d => decidable_of_iff (d.Ordered ∧ d.references.isEmpty = true)
      (and_congr_right fun _ => List.isEmpty_iff)
  | .unsat | .missing | .array _ | .anyOf _ | .any => .isTrue trivial

theorem WritableHere.named {s : Schema} (h : s.WritableHere) : s.NamedHere := by
  cases s with
  | atomic a => exact h
  | _ => trivial

theorem Canonical.writtenRequired {d : Document} (h : (document d).Canonical) :
    d.writtenRequired = d.required := by
  refine List.filter_eq_self.2 fun field _ => ?_
  cases hkey : d.key? field with
  | none => rfl
  | some s => exact keepsRequired_of_declarable (h.key hkey).1 (h.key hkey).2

private theorem ofBranches_of_ascending {bs : List Schema} (h : Ascending bs) :
    ofBranches bs = .anyOf bs := by
  rw [ofBranches, sortBranches_of_ascending h]

private theorem echo_document_of_canonical {d : Document} (hcanonical : (document d).Canonical)
    (hwritable : (document d).WritableHere)
    (hecho : ∀ entry ∈ d.keys, entry.2.echo = entry.2.bare) :
    (document d).echo = (document d).bare := by
  obtain ⟨hordered, hreferences⟩ := hwritable
  have hfields : d.keys.filterMap echoField = d.keys.map bareField := by
    rw [← List.filterMap_eq_map]
    refine List.filterMap_congr fun entry hmem => ?_
    obtain ⟨hdeclarable, hentry⟩ := canonical_document_iff.1 hcanonical entry hmem
    have hkept := keepsRequired_of_declarable hdeclarable hentry
    rw [echoField, writtenKey?_of_keepsRequired hkept, Option.map_some, hecho entry hmem]
    rfl
  have hnames : FieldMap.names (d.keys.map bareField) = d.keyNames := by
    rw [FieldMap.names, List.map_map]
    rfl
  rw [echo_document, hfields, FieldMap.ofList_of_ordered (hnames ▸ hordered.keys),
    hcanonical.writtenRequired, hordered.required.ofList_eq, bare_document]
  cases d
  cases hreferences
  rw [Document.bare, bareKeys_eq_map]
  rfl

private theorem echo_anyOf_of_canonical {bs : List Schema} (hcanonical : (anyOf bs).Canonical)
    (hecho : ∀ b ∈ bs, b.echo = b.bare) : (anyOf bs).echo = (anyOf bs).bare := by
  have hbs := (canonical_anyOf_iff.1 hcanonical).1
  have hne : bs ≠ [] := by
    rintro rfl
    exact absurd hbs.two (by simp)
  have hsorted := ofBranches_of_ascending hbs.ascending
  cases hnames : atomicNames? bs with
  | some names =>
      rw [echo_anyOf_atomic hne hnames, hsorted, simplify_of_canonical hcanonical]
      obtain ⟨as, rfl, -⟩ := atomicNames?_eq_some hnames
      rw [bare_anyOf, List.map_map]
      rfl
  | none =>
      rw [echo_anyOf hne hnames, List.map_congr_left hecho, ofBranches_bare, hsorted]

/-- A canonical schema is read back as it is, without its statistics. -/
theorem echo_of_canonical {s : Schema} (hcanonical : s.Canonical)
    (hwritable : s.Everywhere WritableHere) (hs : s ≠ .unsat) : s.echo = s.bare := by
  induction s using induction_children with
  | step s ih =>
      cases s with
      | array x =>
          by_cases hx : x = .unsat
          · rw [hx, echo_array_unsat]
            rfl
          · rw [echo_array hx, bare_array, ih x (List.mem_singleton_self x)
              (canonical_array_iff.1 hcanonical) (Everywhere.array_iff.1 hwritable).2 hx]
      | document d =>
          refine echo_document_of_canonical hcanonical hwritable.here fun entry hmem => ?_
          obtain ⟨hdeclarable, hentry⟩ := canonical_document_iff.1 hcanonical entry hmem
          exact ih entry.2 (List.mem_map_of_mem hmem) hentry
            ((Everywhere.document_iff.1 hwritable).2 entry hmem) hdeclarable.1
      | anyOf bs =>
          refine echo_anyOf_of_canonical hcanonical fun b hb => ?_
          refine ih b hb (hcanonical.inside hb) (hwritable.inside hb) ?_
          rintro rfl
          exact ((canonical_anyOf_iff.1 hcanonical).1.branch _ hb).1 rfl
      | unsat => exact absurd rfl hs
      | _ => simp [bare]

/-- A canonical schema that can be written within a limit is read back within it,
as a schema that compares equal; only `unsat` comes back in another form. -/
theorem ofValidator_toValidator_of_canonical {s : Schema} {limit : Int} {v : Validator}
    (hcanonical : s.Canonical) (hwritable : s.Everywhere WritableHere)
    (h : s.toValidator limit = .ok v) :
    ∃ r, ofValidator v limit = .ok r ∧ (s ≠ .unsat → r.same s = true) ∧
      (s = .unsat → r.simplify = .unsat) := by
  have hnamed : s.Everywhere NamedHere := hwritable.imp fun _ => WritableHere.named
  refine ⟨s.echo, ofValidator_of_toValidator hnamed h, fun hs => ?_, ?_⟩
  · have hself : s.compare s = .eq := Std.ReflCmp.compare_self
    rw [echo_of_canonical hcanonical hwritable hs, same, compare_bare_left, hself]
    rfl
  · rintro rfl
    rw [echo_unsat]
    rfl

/-- An order with statistics, an optional list, and a note without a schema. -/
theorem ofValidator_toValidator_of_canonical_order :
    let order : Schema := .document
      { keys := [("id", .anyOf [.atomic .int, .atomic .string]), ("items", .array .unsat),
          ("parts", .anyOf [.atomic .null, .array .any])]
        required := ["id", "note"]
        isOpen := false
        references := []
        jaccard := some (.fresh 0.8) }
    order.Canonical ∧ order.Everywhere WritableHere ∧
      ∃ v r, order.toValidator 4 = .ok v ∧ ofValidator v 4 = .ok r ∧ r.same order = true := by
  intro order
  have hcanonical : order.Canonical := by decide +kernel
  have hwritable : order.Everywhere WritableHere := by decide +kernel
  have hwritten : (order.toValidator 4).toBool = true := by decide +kernel
  cases hv : order.toValidator 4 with
  | error f =>
      rw [hv] at hwritten
      cases hwritten
  | ok v =>
      obtain ⟨r, hr, hsame, -⟩ := ofValidator_toValidator_of_canonical hcanonical hwritable hv
      exact ⟨hcanonical, hwritable, v, r, rfl, hr, hsame (by simp [order])⟩

end Schema

end DocShape
