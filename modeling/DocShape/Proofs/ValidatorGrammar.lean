import DocShape.Validator.Convert
import DocShape.Proofs.Outcomes

/-!
# The grammar of validators

Reading a validator looks at some of the validators inside it: those in the
keywords that a type alias uses, and the listed alternatives.  `Visits` says
which, and how deep.  Reading succeeds exactly if all of them lie within the
limit and have one of four forms.
-/

namespace DocShape

/-- An alias of documents, of arrays or of an atomic kind. -/
def IsTypeAlias (name : String) : Prop :=
  name = "object" ∨ name = "array" ∨ ∃ a ∈ Atomic.named, a.name = name

namespace Keywords

/-- The four forms of keywords: none, a type with its keywords, `anyOf` alone or
`oneOf` alone. -/
inductive WellFormed : Keywords → Prop where
  | blank : WellFormed .blank
  | typed {k : Keywords} {types : TypeNames} (type : k.bsonType = some types)
      (anyOf : k.anyOf = none) (oneOf : k.oneOf = none)
      (aliases : ∀ name ∈ types.names, IsTypeAlias name) : WellFormed k
  | anyOf (list : List Validator) : WellFormed { blank with anyOf := some list }
  | oneOf (list : List Validator) : WellFormed { blank with oneOf := some list }

/-- The validators in the keywords that a type alias uses: properties beside
`object`, items beside `array`. -/
def beside (k : Keywords) (name : String) : List Validator :=
  if name = "object" then (k.properties.getD []).map Prod.snd
  else if name = "array" then (k.items.map ItemList.schemas).getD []
  else []

/-- The validators right inside that reading looks at: those beside one of the
type aliases, and the alternatives. -/
inductive Examines (k : Keywords) : Validator → Prop where
  | beside {types : TypeNames} {name : String} {v : Validator} (type : k.bsonType = some types)
      (named : name ∈ types.names) (mem : v ∈ k.beside name) : Examines k v
  | anyOf {list : List Validator} {v : Validator} (present : k.anyOf = some list)
      (mem : v ∈ list) : Examines k v
  | oneOf {list : List Validator} {v : Validator} (present : k.oneOf = some list)
      (mem : v ∈ list) : Examines k v

end Keywords

/-- The validators that reading looks at, with their depth; the whole validator
is at depth one. -/
inductive Validator.Visits (root : Validator) : Nat → Validator → Prop where
  | root : Visits root 1 root
  | inside {depth : Nat} {node v : Validator} (visited : Visits root depth node)
      (examined : node.keywords.Examines v) : Visits root (depth + 1) v

/-! ## One level -/

theorem Atomic.exists_parse_iff {name : String} :
    (∃ a, Atomic.parse name = .ok a) ↔ ∃ a ∈ Atomic.named, a.name = name := by
  have hfound : (Atomic.ofName? name).isSome ↔ ∃ a ∈ Atomic.named, a.name = name := by
    simp [Atomic.ofName?]
  rw [← hfound, Atomic.parse]
  cases Atomic.ofName? name with
  | some a => simp
  | none =>
      dsimp only
      split <;> simp [Outcome.failWith]

namespace Keywords

variable {child : Validator → Outcome Schema} {k : Keywords}

private theorem exists_toDocument_iff :
    (∃ s, k.toDocument child = .ok s) ↔ ∀ v ∈ k.beside "object", ∃ s, child v = .ok s := by
  rw [beside, if_pos rfl, List.forall_mem_map, toDocument, Outcome.exists_bind_pure_iff,
    Outcome.exists_mapM_iff]
  exact forall₂_congr fun entry _ => Outcome.exists_bind_pure_iff

private theorem exists_toArray_iff :
    (∃ s, k.toArray child = .ok s) ↔ ∀ v ∈ k.beside "array", ∃ s, child v = .ok s := by
  have hbeside : k.beside "array" = (k.items.map ItemList.schemas).getD [] := rfl
  rw [hbeside, toArray]
  split <;> rename_i hitems <;> rw [hitems]
  · simp
  · rw [Outcome.exists_bind_pure_iff]
    simp
  · rw [Outcome.exists_bind_pure_iff, Outcome.exists_mapM_iff]
    rfl

theorem exists_toType_iff {name : String} :
    (∃ s, k.toType child name = .ok s) ↔
      IsTypeAlias name ∧ ∀ v ∈ k.beside name, ∃ s, child v = .ok s := by
  unfold toType
  split
  · rename_i hname
    rw [exists_toDocument_iff, hname]
    exact (and_iff_right (Or.inl rfl)).symm
  · rename_i hobject
    split
    · rename_i hname
      rw [exists_toArray_iff, hname]
      exact (and_iff_right (Or.inr (Or.inl rfl))).symm
    · rename_i harray
      rw [Outcome.exists_bind_pure_iff, Atomic.exists_parse_iff, IsTypeAlias,
        or_iff_right hobject, or_iff_right harray, beside, if_neg hobject, if_neg harray]
      simp

/-- Without a type and its keywords only alternatives are left. -/
theorem eq_alternatives (htype : k.bsonType = none) (hfields : k.hasTypeFields = false) :
    k = { blank with anyOf := k.anyOf, oneOf := k.oneOf } := by
  obtain ⟨bsonType, properties, required, additionalProperties, items, maxItems, anyOf, oneOf⟩ := k
  simp only [hasTypeFields, Bool.or_eq_false_iff, Option.isSome_eq_false_iff,
    Option.isNone_iff_eq_none] at hfields
  obtain ⟨⟨⟨⟨rfl, rfl⟩, rfl⟩, rfl⟩, rfl⟩ := hfields
  cases htype
  rfl

theorem exists_toSchema_typed_iff {types : TypeNames} (htypes : k.bsonType = some types)
    (hanyOf : k.anyOf = none) (honeOf : k.oneOf = none) :
    (∃ s, k.toSchema child = .ok s) ↔ ∀ name ∈ types.names, ∃ s, k.toType child name = .ok s := by
  have hempty : ¬ k.isEmpty = true := by simp [isEmpty, htypes]
  rw [toSchema, if_neg hempty, htypes, hanyOf, honeOf]
  obtain ⟨names, multiple⟩ := types
  split
  · rename_i name heq _ _
    cases heq
    simp
  · rename_i heq _ _
    cases heq
    rw [Outcome.exists_bind_pure_iff, Outcome.exists_mapM_iff]
  all_goals simp_all

theorem WellFormed.exists_toSchema_iff (h : k.WellFormed) :
    (∃ s, k.toSchema child = .ok s) ↔ ∀ v, k.Examines v → ∃ s, child v = .ok s := by
  cases h with
  | blank =>
      refine iff_of_true ⟨.any, rfl⟩ fun v hv => ?_
      cases hv with
      | beside type => cases type
      | anyOf present => cases present
      | oneOf present => cases present
  | @typed k types type hanyOf honeOf aliases =>
      rw [exists_toSchema_typed_iff type hanyOf honeOf]
      constructor
      · intro h v hv
        cases hv with
        | beside type' named mem =>
            rw [type] at type'
            cases type'
            exact (exists_toType_iff.1 (h _ named)).2 v mem
        | anyOf present =>
            rw [hanyOf] at present
            cases present
        | oneOf present =>
            rw [honeOf] at present
            cases present
      · intro h name hname
        exact exists_toType_iff.2 ⟨aliases name hname, fun v hv => h v (.beside type hname hv)⟩
  | anyOf list =>
      have hread : toSchema child { Keywords.blank with anyOf := some list } = (do
          return .ofBranches (← list.mapM child)) := rfl
      rw [hread, Outcome.exists_bind_pure_iff, Outcome.exists_mapM_iff]
      refine ⟨fun h v hv => ?_, fun h v hv => h v (.anyOf rfl hv)⟩
      cases hv with
      | beside type => cases type
      | anyOf present mem =>
          cases present
          exact h v mem
      | oneOf present => cases present
  | oneOf list =>
      have hread : toSchema child { Keywords.blank with oneOf := some list } = (do
          return .ofBranches (← list.mapM child)) := rfl
      rw [hread, Outcome.exists_bind_pure_iff, Outcome.exists_mapM_iff]
      refine ⟨fun h v hv => ?_, fun h v hv => h v (.oneOf rfl hv)⟩
      cases hv with
      | beside type => cases type
      | anyOf present => cases present
      | oneOf present mem =>
          cases present
          exact h v mem

private theorem wellFormed_of_toSchema {s : Schema} (h : k.toSchema child = .ok s) : k.WellFormed := by
  have hread := h
  rw [toSchema] at h
  split at h
  · rename_i hempty
    simp only [isEmpty, Bool.and_eq_true, Option.isNone_iff_eq_none, Bool.not_eq_true'] at hempty
    obtain ⟨⟨⟨htype, hfields⟩, hanyOf⟩, honeOf⟩ := hempty
    rw [eq_alternatives htype hfields, hanyOf, honeOf]
    exact .blank
  cases htype : k.bsonType with
  | some types =>
      cases hanyOf : k.anyOf with
      | none =>
          cases honeOf : k.oneOf with
          | none =>
              refine .typed htype hanyOf honeOf fun name hname => ?_
              have htypes := (exists_toSchema_typed_iff htype hanyOf honeOf).1 ⟨s, hread⟩
              exact (exists_toType_iff.1 (htypes name hname)).1
          | some list => simp [htype, hanyOf, honeOf, Outcome.failWith] at h
      | some list => simp [htype, hanyOf, Outcome.failWith] at h
  | none =>
      cases hfields : k.hasTypeFields with
      | true =>
          cases hanyOf : k.anyOf <;> cases honeOf : k.oneOf <;>
            simp [htype, hanyOf, honeOf, hfields, Outcome.failWith] at h
      | false =>
          rw [eq_alternatives htype hfields]
          cases hanyOf : k.anyOf with
          | none =>
              cases honeOf : k.oneOf with
              | none => exact .blank
              | some list => exact .oneOf list
          | some list =>
              cases honeOf : k.oneOf with
              | none => exact .anyOf list
              | some list => simp [htype, hanyOf, honeOf, Outcome.failWith] at h

/-- One level of reading: the keywords have one of the forms, and all that is
looked at can be read. -/
theorem exists_toSchema_iff :
    (∃ s, k.toSchema child = .ok s) ↔
      k.WellFormed ∧ ∀ v, k.Examines v → ∃ s, child v = .ok s := by
  constructor
  · rintro ⟨s, h⟩
    have hformed := wellFormed_of_toSchema h
    exact ⟨hformed, hformed.exists_toSchema_iff.1 ⟨s, h⟩⟩
  · rintro ⟨hformed, hchild⟩
    exact hformed.exists_toSchema_iff.2 hchild

end Keywords

/-! ## All levels -/

namespace Validator

variable {root node : Validator} {depth : Nat}

theorem Visits.of_examines {v : Validator} (hv : root.keywords.Examines v)
    (h : v.Visits depth node) : root.Visits (depth + 1) node := by
  induction h with
  | root => exact .inside .root hv
  | inside _ examined ih => exact .inside ih examined

/-- What is visited is the validator itself, or visited from one right inside. -/
theorem Visits.cases_root (h : root.Visits depth node) :
    depth = 1 ∧ node = root ∨
      ∃ v below, root.keywords.Examines v ∧ v.Visits below node ∧ depth = below + 1 := by
  induction h with
  | root => exact Or.inl ⟨rfl, rfl⟩
  | @inside depth node v visited examined ih =>
      right
      rcases ih with ⟨rfl, rfl⟩ | ⟨w, below, hw, hbelow, rfl⟩
      · exact ⟨v, 1, examined, .root, rfl⟩
      · exact ⟨w, below + 1, hw, .inside hbelow examined, rfl⟩

end Validator

namespace Schema

private theorem exists_ofValidatorWithin_iff (limit : Int) {room : Nat} {v : Validator} :
    (∃ s, ofValidatorWithin limit room v = .ok s) ↔
      ∀ depth node, v.Visits depth node → depth ≤ room ∧ node.keywords.WellFormed := by
  induction room generalizing v with
  | zero =>
      refine iff_of_false ?_ fun h => ?_
      · rintro ⟨s, h⟩
        cases h
      · exact absurd (h 1 v .root).1 (by decide)
  | succ room ih =>
      rw [ofValidatorWithin, Keywords.exists_toSchema_iff]
      simp only [ih]
      constructor
      · rintro ⟨hformed, hinside⟩ depth node hvisits
        rcases hvisits.cases_root with ⟨rfl, rfl⟩ | ⟨w, below, hw, hbelow, rfl⟩
        · exact ⟨by omega, hformed⟩
        · obtain ⟨hle, hnode⟩ := hinside w hw below node hbelow
          exact ⟨by omega, hnode⟩
      · intro h
        refine ⟨(h 1 v .root).2, fun w hw depth node hvisits => ?_⟩
        obtain ⟨hle, hnode⟩ := h (depth + 1) node (.of_examines hw hvisits)
        exact ⟨by omega, hnode⟩

/-- A validator can be read within a limit exactly if every validator that
reading looks at lies within the limit and has one of the four forms. -/
theorem ofValidator_accepts_grammar (v : Validator) (limit : Int) :
    (∃ s, ofValidator v limit = .ok s) ↔
      ∀ depth node, v.Visits depth node → (depth : Int) ≤ limit ∧ node.keywords.WellFormed := by
  rw [ofValidator, exists_ofValidatorWithin_iff]
  refine forall₃_congr fun depth node hvisits => and_congr_left fun _ => ?_
  have hpos : 0 < depth := by cases hvisits <;> omega
  omega

end Schema

end DocShape
