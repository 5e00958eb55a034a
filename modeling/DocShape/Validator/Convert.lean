import DocShape.Validator.Binary
import DocShape.Schema.Union

/-!
# Schemas and validators

A validator is read as a schema if it has one of four forms: no keyword, a type
with its keywords, `anyOf` alone or `oneOf` alone.  A schema is written as a
validator unless an absent value would have to be written, except that an
absent value of a declared field becomes the field's optionality.
-/

namespace DocShape

def Atomic.parse (name : String) : Outcome Atomic :=
  match Atomic.ofName? name with
  | some a => .ok a
  | none =>
      if name = "object" || name = "array" then .failWith (.notAtomic name)
      else .failWith (.unknownAlias name)

def Atomic.ofElementCode (code : UInt8) : Outcome Atomic :=
  match Bson.ElementType.ofCode? code with
  | some .document => .failWith (.notAtomic "object")
  | some .array => .failWith (.notAtomic "array")
  | some type =>
      match type.atomic? with
      | some a => .ok a
      | none => .failWith (.unsupportedType code.toNat)
  | none => .failWith (.unsupportedType code.toNat)

namespace Keywords

/-- The schema of the object keywords, where `child` reads a validator. -/
def toDocument (child : Validator → Outcome Schema) (k : Keywords) : Outcome Schema := do
  let keys ← (k.properties.getD []).mapM fun (name, v) => return (name, ← child v)
  return .document
    (.ofFields (FieldMap.ofList keys) (NameSet.ofList (k.required.getD []))
      (k.additionalProperties.getD true))

/-- The schema of the array keywords, where `child` reads a validator. -/
def toArray (child : Validator → Outcome Schema) (k : Keywords) : Outcome Schema :=
  match k.items with
  | none => .ok (if k.maxItems = some 0 then .array .unsat else .anyArray)
  | some ⟨[v], false⟩ => return .array (← child v)
  | some ⟨schemas, _⟩ => return .array (.ofBranches (← schemas.mapM child))

/-- The schema of one type alias with the keywords beside it. -/
def toType (child : Validator → Outcome Schema) (k : Keywords) (name : String) :
    Outcome Schema :=
  if name = "object" then k.toDocument child
  else if name = "array" then k.toArray child
  else return .atomic (← Atomic.parse name)

/-- The schema of a validator's keywords, where `child` reads a validator. -/
def toSchema (child : Validator → Outcome Schema) (k : Keywords) : Outcome Schema :=
  if k.isEmpty then .ok .any
  else
    match k.bsonType, k.anyOf, k.oneOf with
    | some ⟨[name], false⟩, none, none => k.toType child name
    | some ⟨names, _⟩, none, none => return (Schema.ofBranches (← names.mapM (k.toType child))).simplify
    | none, some list, none =>
        if k.hasTypeFields then .failWith (.keywordClash k.present)
        else return .ofBranches (← list.mapM child)
    | none, none, some list =>
        if k.hasTypeFields then .failWith (.keywordClash k.present)
        else return .ofBranches (← list.mapM child)
    | _, _, _ => .failWith (.keywordClash k.present)

end Keywords

namespace Schema

/-- The schema of a validator that nests at most `room` levels deep; `limit` is
the bound to report. -/
def ofValidatorWithin (limit : Int) : (room : Nat) → Validator → Outcome Schema
  | 0, _ => .failWith (.tooDeep limit)
  | room + 1, v => v.keywords.toSchema (ofValidatorWithin limit room)

def ofValidator (v : Validator) (limit : Int) : Outcome Schema :=
  ofValidatorWithin limit limit.toNat v

end Schema

theorem Schema.weight_collapse_le (bs : List Schema) :
    (Schema.collapse bs).weight ≤ branchesWeight bs + 1 := by
  have h := branchesWeight_foldl_placeBranch_le bs []
  simp only [branchesWeight, Nat.zero_add] at h
  unfold Schema.collapse
  split
  · simp [Schema.weight]
  · unfold Schema.sortBranches
    split
    · simp [Schema.weight]
    · rename_i b heq
      rw [heq] at h
      simp only [branchesWeight] at h
      omega
    · simp only [Schema.weight]
      omega

mutual

theorem Schema.weight_subtractNested_le (drop : Schema → Bool) (s : Schema) :
    (s.subtractNested drop).weight ≤ s.weight := by
  cases s with
  | anyOf bs =>
      have := Schema.weight_collapse_le (Schema.subtractBranches drop bs)
      have := branchesWeight_subtractBranches_le drop bs
      simp only [Schema.subtractNested, Schema.weight]
      omega
  | _ => simp [Schema.subtractNested]

theorem branchesWeight_subtractBranches_le (drop : Schema → Bool) (bs : List Schema) :
    branchesWeight (Schema.subtractBranches drop bs) ≤ branchesWeight bs := by
  cases bs with
  | nil => simp [Schema.subtractBranches]
  | cons b rest =>
      have := Schema.weight_subtractNested_le drop b
      have := branchesWeight_subtractBranches_le drop rest
      simp only [Schema.subtractBranches]
      split <;> simp only [branchesWeight] <;> omega

end

theorem Schema.weight_present_le (s : Schema) : s.present.weight ≤ s.weight := by
  unfold Schema.present Schema.subtract
  split
  · rename_i bs
    have := Schema.weight_collapse_le (Schema.subtractBranches Schema.isMissing bs)
    have := branchesWeight_subtractBranches_le Schema.isMissing bs
    simp only [Schema.weight]
    omega
  · split
    · exact s.weight_pos
    · exact Nat.le_refl _

namespace Schema

/-- How a declared field is written: `none` when it can only be absent, else
its schema without absent values. -/
def writtenKey? (s : Schema) : Option Schema :=
  if s.isAny || s.absence = .never then some s
  else if s.present.kind = .unsat then none
  else some s.present

theorem weight_writtenKey?_le {s t : Schema} (h : s.writtenKey? = some t) :
    t.weight ≤ s.weight := by
  unfold writtenKey? at h
  split at h
  · cases h
    exact Nat.le_refl _
  · split at h
    · cases h
    · cases h
      exact s.weight_present_le

/-- The aliases of the branches, if all are atomic kinds. -/
def atomicNames? (branches : List Schema) : Option (List String) :=
  branches.mapM fun b => match b with
    | .atomic a => some a.name
    | _ => none

end Schema

/-- The fields a document's validator requires: those that are required and
whose schema does not make them optional. -/
def Document.writtenRequired (d : Document) : List String :=
  d.required.filter fun field =>
    match d.key? field with
    | some s => s.isAny || s.absence = .never
    | none => true

namespace Schema

def writeValidator (s : Schema) : Outcome Validator :=
  match s with
  | .any => .ok .empty
  | .unsat => .ok (.of { Keywords.blank with anyOf := some [] })
  | .missing => .failWith (.missingHasNo "$jsonSchema")
  | .atomic a => .ok (.of { Keywords.blank with bsonType := some (.single a.name) })
  | .array .unsat =>
      .ok (.of { Keywords.blank with bsonType := some (.single "array"), maxItems := some 0 })
  | .array .any => .ok (.of { Keywords.blank with bsonType := some (.single "array") })
  | .array items => do
      let v ← items.writeValidator
      return .of { Keywords.blank with
        bsonType := some (.single "array"), items := some ⟨[v], false⟩ }
  | .document d => do
      let properties ← d.keys.attach.filterMapM fun ⟨(field, key), _⟩ =>
        match _h : key.writtenKey? with
        | none => .ok none
        | some written => do
            let v ← Outcome.inContext ("property " ++ Text.quote field) written.writeValidator
            return some (field, v)
      let required := d.writtenRequired
      return .of { Keywords.blank with
        bsonType := some (.single "object")
        properties := some properties
        required := if required.isEmpty then none else some required
        additionalProperties := some d.isOpen }
  | .anyOf [] => .ok (.of { Keywords.blank with anyOf := some [] })
  | .anyOf bs =>
      match atomicNames? bs with
      | some names => .ok (.of { Keywords.blank with bsonType := some (.several names) })
      | none => do
          let list ← bs.attach.mapM fun ⟨b, _⟩ => b.writeValidator
          return .of { Keywords.blank with anyOf := some list }
termination_by s.weight
decreasing_by
  · simp [Schema.weight]
  · rename_i hmem
    have := weight_writtenKey?_le _h
    have hkeys : key.weight < keysWeight d.keys := by
      clear _h
      generalize d.keys = keys at hmem
      induction keys with
      | nil => cases hmem
      | cons head rest ih =>
          obtain ⟨name, s⟩ := head
          simp only [keysWeight]
          rcases List.mem_cons.1 hmem with heq | hrest
          · cases heq
            omega
          · have := ih hrest
            omega
    simp only [Schema.weight, Document.weight_eq]
    omega
  · rename_i hmem
    have := weight_le_branchesWeight hmem
    simp only [Schema.weight]
    omega

theorem writeValidator_missing :
    missing.writeValidator = .failWith (.missingHasNo "$jsonSchema") := by
  rw [writeValidator]

/-- The validator of a schema that is at most `limit` levels deep. -/
def toValidator (s : Schema) (limit : Int) : Outcome Validator :=
  if (s.depth : Int) > limit then .failWith (.tooDeep limit)
  else s.writeValidator

/-- The failure of reading a validator, as a fault in reading a schema. -/
def decodeFailure (f : Failure) : Failure :=
  let kind := if f.isValidatorTooDeep then FaultKind.maxDepthExceeded else FaultKind.bsonDecode
  .caused kind "decode $jsonSchema" "" f

def ofReadValidator (read : Outcome Validator) : Outcome Schema :=
  match read with
  | .ok v => ofValidator v Settings.standard.maxDepth
  | .error f => .error (decodeFailure f)

def ofBytes (data : List UInt8) : Outcome Schema :=
  ofReadValidator (Validator.ofBytes data)

def toFields (s : Schema) : Outcome (List (String × Plain)) := do
  (← s.toValidator Settings.standard.maxDepth).toFields

def toBytes (s : Schema) : Outcome (List UInt8) := do
  Plain.toBytes (← s.toFields)

/-- The bytes of a document whose field `schema` holds the schema's validator. -/
def toEnvelope (s : Schema) : Outcome (List UInt8) := do
  Plain.toBytes [("schema", .record (← s.toFields))]

/-- The schema whose validator stands in the field `schema` of a document; a
document without the field describes nothing. -/
def ofEnvelope (data : List UInt8) : Outcome Schema :=
  match Bson.elements? data with
  | none => .error (.plain Bson.malformed)
  | some elements =>
      match elements.find? (fun e => e.name = "schema") with
      | none => .ok .unsat
      | some e => Outcome.inContext "error decoding key schema" (ofBytes e.value.data)

end Schema

end DocShape
