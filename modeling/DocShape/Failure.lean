import DocShape.Schema.Summary
import DocShape.Text.Printable

/-!
# Failures

What an operation found wrong, as a cause.  A fault has a kind, a message and
perhaps the field or the schema it is about; a failure is a fault or a plain
message, inside the contexts it was found in.
-/

namespace DocShape

inductive FaultKind where
  | invalidBsonType
  | invalidCombinationOfFields
  | cannotEnumerateAllFieldPaths
  | cannotConvertBsonTypeToAtomic
  | unsupportedBsonType
  | invalidNamespace
  | invalidBottomField
  | fieldConflictInNonNamespacedResult
  | bsonDecode
  | missingNotSerializable
  | maxDepthExceeded
  /-- A kind of the caller's own. -/
  | custom (name : String)
  deriving DecidableEq

namespace FaultKind

def name : FaultKind → String
  | invalidBsonType => "invalid_bson_type"
  | invalidCombinationOfFields => "invalid_combination_of_fields"
  | cannotEnumerateAllFieldPaths => "cannot_enumerate_all_field_paths"
  | cannotConvertBsonTypeToAtomic => "cannot_convert_bson_type_to_atomic"
  | unsupportedBsonType => "unsupported_bson_type"
  | invalidNamespace => "invalid_namespace"
  | invalidBottomField => "invalid_bottom_field"
  | fieldConflictInNonNamespacedResult => "field_conflict_in_non_namespaced_result"
  | bsonDecode => "bson_decode"
  | missingNotSerializable => "missing_not_serializable"
  | maxDepthExceeded => "max_depth_exceeded"
  | custom name => name

def standard : List FaultKind :=
  [.invalidBsonType, .invalidCombinationOfFields, .cannotEnumerateAllFieldPaths,
   .cannotConvertBsonTypeToAtomic, .unsupportedBsonType, .invalidNamespace, .invalidBottomField,
   .fieldConflictInNonNamespacedResult, .bsonDecode, .missingNotSerializable, .maxDepthExceeded]

def ofName (name : String) : FaultKind :=
  match standard.find? (fun k => k.name == name) with
  | some k => k
  | none => custom name

end FaultKind

inductive Fault where
  /-- A type alias that names nothing. -/
  | unknownAlias (name : String)
  /-- Keywords that cannot stand together. -/
  | keywordClash (present : List String)
  /-- A schema whose field paths cannot be known. -/
  | unlistable (schema : Schema)
  /-- A container type where an atomic kind is expected. -/
  | notAtomic (type : String)
  /-- An element type without a schema. -/
  | unsupportedType (code : Nat)
  /-- A diagram without a name. -/
  | unnamedDiagram
  /-- An entity without a database. -/
  | emptyDatabase (entity : String)
  /-- An entity without a collection. -/
  | emptyCollection (entity : String)
  /-- An entity that two diagrams place differently. -/
  | namespaceClash (entity mine theirs : String)
  /-- A field that no value can satisfy. -/
  | bottomField (field : String)
  /-- Two sources whose shared fields cannot be listed. -/
  | unlistedConflict (first second : String)
  /-- A field that two sources contribute. -/
  | fieldConflict (field first second : String) (overlap : Verdict)
  /-- `missing` in a place where the form cannot hold it. -/
  | missingHasNo (form : String)
  /-- Nesting beyond the limit. -/
  | tooDeep (limit : Int)
  /-- A fault of the caller's own. -/
  | custom (kind : FaultKind) (message field : String) (schema : Option Schema)

namespace Fault

def kind : Fault → FaultKind
  | unknownAlias _ => .invalidBsonType
  | keywordClash _ => .invalidCombinationOfFields
  | unlistable _ => .cannotEnumerateAllFieldPaths
  | notAtomic _ => .cannotConvertBsonTypeToAtomic
  | unsupportedType _ => .unsupportedBsonType
  | unnamedDiagram | emptyDatabase _ | emptyCollection _ | namespaceClash _ _ _ =>
      .invalidNamespace
  | bottomField _ => .invalidBottomField
  | unlistedConflict _ _ | fieldConflict _ _ _ _ => .fieldConflictInNonNamespacedResult
  | missingHasNo _ => .missingNotSerializable
  | tooDeep _ => .maxDepthExceeded
  | custom kind _ _ _ => kind

def message : Fault → String
  | unknownAlias name => "unknown bsonType " ++ Text.quote name
  | keywordClash present => "cannot combine [" ++ " ".intercalate present ++ "]"
  | unlistable _ => "schema allows unknown fields"
  | notAtomic type => type ++ " is not an atomic type"
  | unsupportedType code => "bson element type 0x" ++ Text.hexPadded 2 code
  | unnamedDiagram => "schemaName is empty"
  | emptyDatabase entity => "entity " ++ Text.quote entity ++ " has an empty db"
  | emptyCollection entity => "entity " ++ Text.quote entity ++ " has an empty collection"
  | namespaceClash entity mine theirs =>
      "entity " ++ Text.quote entity ++ " is " ++ mine ++ " in one description and " ++ theirs
        ++ " in the other"
  | bottomField _ => "field can never hold a value"
  | unlistedConflict first second =>
      first ++ " and " ++ second ++ " may share fields that cannot be listed"
  | fieldConflict _ first second overlap =>
      "field appears in both " ++ first ++ " and " ++ second ++ " ("
        ++ overlap.name.map Char.toLower ++ ")"
  | missingHasNo form => "Missing has no " ++ form ++ " form"
  | tooDeep limit => "schema nesting exceeds " ++ toString limit ++ " levels"
  | custom _ message _ _ => message

/-- The field the fault is about; empty when it is about none. -/
def field : Fault → String
  | bottomField field => field
  | fieldConflict field _ _ _ => field
  | custom _ _ field _ => field
  | _ => ""

def schema? : Fault → Option Schema
  | unlistable s => some s
  | custom _ _ _ s => s
  | _ => none

end Fault

inductive Failure where
  /-- A plain message. -/
  | plain (text : String)
  /-- A fault. -/
  | fault (fault : Fault)
  /-- A validator that nests too deeply to be read or written. -/
  | validatorTooDeep
  /-- Work given up on request. -/
  | canceled
  /-- A failure found in a context. -/
  | within (context : String) (cause : Failure)
  /-- A fault of the given kind that another failure caused. -/
  | caused (kind : FaultKind) (message field : String) (cause : Failure)
  /-- Several failures at once. -/
  | several (causes : List Failure)

namespace Failure

/-- The text of a fault before its cause. -/
def faultText (kind : FaultKind) (message field : String) (schema : Option Schema) : String :=
  kind.name ++ ": " ++ message
    ++ (if field = "" then "" else " (field=" ++ field ++ ")")
    ++ match schema with
      | some s => " (schema=" ++ s.summary 2 ++ ")"
      | none => ""

mutual

def text : Failure → String
  | plain text => text
  | fault f => faultText f.kind f.message f.field f.schema?
  | validatorTooDeep => "jsonschema: maximum nesting depth exceeded"
  | canceled => "context canceled"
  | within context cause => context ++ ": " ++ cause.text
  | caused kind message field cause => faultText kind message field none ++ ": " ++ cause.text
  | several causes => "; ".intercalate (texts causes)
termination_by structural f => f

def texts : List Failure → List String
  | [] => []
  | f :: rest => f.text :: texts rest
termination_by structural fs => fs

end

/-- A fault as it shows in a failure: its kind, message, field and schema. -/
structure Report where
  kind : FaultKind
  message : String
  field : String
  schema? : Option Schema

mutual

/-- The faults of a failure, outermost first. -/
def reports : Failure → List Report
  | fault f => [⟨f.kind, f.message, f.field, f.schema?⟩]
  | within _ cause => cause.reports
  | caused kind message field cause => ⟨kind, message, field, none⟩ :: cause.reports
  | several causes => reportsOf causes
  | _ => []
termination_by structural f => f

def reportsOf : List Failure → List Report
  | [] => []
  | f :: rest => f.reports ++ reportsOf rest
termination_by structural fs => fs

end

/-- The outermost fault without the contexts around it, if there is one. -/
def innermostContext : Failure → Failure
  | within context cause =>
      if cause.reports.isEmpty then within context cause else cause.innermostContext
  | f => f

/-- Whether some fault has the kind and, unless it is empty, the message. -/
def hasFault (kind : FaultKind) (message : String) (f : Failure) : Bool :=
  f.reports.any fun r => r.kind = kind && (message = "" || r.message = message)

def isKind (kind : FaultKind) (f : Failure) : Bool :=
  match f.reports.head? with
  | some r => r.kind = kind
  | none => false

mutual

/-- Whether the failure is, or was caused by, a validator nesting too deeply. -/
def isValidatorTooDeep : Failure → Bool
  | validatorTooDeep => true
  | within _ cause => cause.isValidatorTooDeep
  | caused _ _ _ cause => cause.isValidatorTooDeep
  | several causes => anyValidatorTooDeep causes
  | _ => false
termination_by structural f => f

/-- Whether one of several failures is about a validator nesting too deeply. -/
def anyValidatorTooDeep : List Failure → Bool
  | [] => false
  | f :: rest => f.isValidatorTooDeep || anyValidatorTooDeep rest
termination_by structural fs => fs

end

/-- One failure for several; a single one stands for itself. -/
def combine? : List Failure → Option Failure
  | [] => none
  | [f] => some f
  | fs => some (several fs)

end Failure

abbrev Outcome (α : Type) := Except Failure α

namespace Outcome

def failWith {α : Type} (f : Fault) : Outcome α :=
  .error (.fault f)

/-- The outcome with its failure, if it is one, put in a context. -/
def inContext {α : Type} (context : String) : Outcome α → Outcome α
  | .ok a => .ok a
  | .error f => .error (.within context f)

end Outcome

end DocShape
