import DocShape.Validator.Binary
import DocShape.Yaml.Filling
import DocShape.Yaml.Read
import DocShape.Yaml.Write

/-!
# Validators as YAML

A validator's record as a tree, and a tree read as the binary document it
stands for.
-/

namespace DocShape

open Yaml (Node Intake Filling)

namespace Plain

mutual

def toNode : Plain → Node
  | .text s => .ofText s
  | .flag b => .tagged "!!bool" (if b then "true" else "false")
  | .number n => .tagged "!!int" (toString n.toInt)
  | .list items => .ofItems (itemsToNodes items)
  | .record fields => .ofEntries (fieldsToNodes fields)
termination_by structural p => p

def itemsToNodes : List Plain → List Node
  | [] => []
  | p :: rest => p.toNode :: itemsToNodes rest
termination_by structural ps => ps

def fieldsToNodes : List (String × Plain) → List (Node × Node)
  | [] => []
  | (name, p) :: rest => (.ofText name, p.toNode) :: fieldsToNodes rest
termination_by structural fields => fields

end

end Plain

namespace Yaml

def literalFailure (reader text : String) (e : Number.LiteralError) : Failure :=
  .plain ("strconv." ++ reader ++ ": parsing " ++ Text.quote text ++ ": " ++ e.message)

def scalarToBson (tag text : String) (line : Nat) : Outcome Bson.Value :=
  match tag with
  | "!!bool" =>
      match Number.readBool? text with
      | some b => .ok (.bool b)
      | none => .error (literalFailure "ParseBool" text .malformed)
  | "!!int" =>
      match Number.readInt text.toList with
      | .ok n => .ok (.ofInt64 n)
      | .error e =>
          .error (.within ("jsonschema: line " ++ toString line) (literalFailure "ParseInt" text e))
  | "!!float" =>
      match Number.readFloat text.toList with
      | .ok x => .ok (.double x)
      | .error e => .error (literalFailure "ParseFloat" text e)
  | "!!null" => .ok .null
  | _ => .ok (.string text)

mutual

/-- The binary value of a tree that nests at most `room` levels deep. -/
def Node.toBson : Node → (room : Nat) → Outcome Bson.Value
  | _, 0 => .error .validatorTooDeep
  | .scalar info text, _ + 1 =>
      scalarToBson (Node.scalar info text).shortTag text info.line
  | .sequence _ items, below + 1 => return .array (← itemsToBson items below)
  | .mapping _ entries, below + 1 => return .document (← entriesToBson entries below)
  | .document _ none, _ + 1 => .ok (.document [])
  | .document _ (some root), room + 1 => root.toBson (room + 1)
  | .reference _ _ target, room + 1 => target.toBson (room + 1)
  | .cycle _ _, _ + 1 => .error .validatorTooDeep
termination_by structural n => n

def itemsToBson : List Node → (room : Nat) → Outcome (List Bson.Value)
  | [], _ => .ok []
  | n :: rest, room => do
      let v ← n.toBson room
      return v :: (← itemsToBson rest room)
termination_by structural items => items

/-- The fields of entries; an alias as a key counts as its name, and a collection as
the empty text. -/
def entriesToBson : List (Node × Node) → (room : Nat) → Outcome (List (String × Bson.Value))
  | [], _ => .ok []
  | (key, n) :: rest, room => do
      let v ← n.toBson room
      return (key.text, v) :: (← entriesToBson rest room)
termination_by structural entries => entries

end

end Yaml

namespace Validator

def toNode (v : Validator) : Outcome Node := do
  return (Plain.record (← v.toFields)).toNode

/-- Reads a validator from the bytes that a document is written as. -/
def ofDocument (fields : Bson.Fields) : Outcome Validator :=
  match Bson.writeDocument fields with
  | .ok data => ofBytes data
  | .error e => .error (.within "jsonschema" e.failure)

def ofNode (n : Node) : Outcome Validator := do
  match ← n.toBson maxDepth with
  | .document fields => ofDocument fields
  | _ => .error (.plain ("jsonschema: line " ++ toString n.line ++ ": expected a mapping"))

def toYaml (v : Validator) : Outcome String :=
  match v with
  | .absent => .ok (Yaml.write (.tagged "!!null" "null"))
  | v => return Yaml.write (← v.toNode)

/-- Takes in a validator; nothing is none at all. -/
def intake : Node → Intake (Option Validator) :=
  Intake.visit fun n => do
    if n.shortTag = "!!null" then
      match n with
      | .scalar info text =>
          let _ ← Intake.meaning info text
          return some .absent
      | _ => Intake.misfit
    else return some (← ofNode n)

/-- Takes in a list; nothing is none. -/
def bareList {α : Type} (item : Node → Intake (Option α)) (n : Node) : Intake (Option (List α)) := do
  if n.shortTag = "!!null" then
    let _ ← Intake.list item n
    return none
  else Intake.list item n

/-- Takes in a record; nothing is none. -/
def bareRecord {σ : Type} (f : Filling σ) (blank : σ) (n : Node) : Intake (Option σ) := do
  if n.shortTag = "!!null" && n.resolved.isMapping then Intake.misfit else f.node blank n

def bareTypeNames : Filling TypeNames :=
  .ofFields [
    ("names", fun n t => return { t with names := (← bareList Intake.text n).getD [] }),
    ("multiple", fun n t => return { t with multiple := (← Intake.flag n).getD t.multiple })]

def bareProperty : Filling (String × Validator) :=
  .ofFields [
    ("name", fun n p => return ((← Intake.text n).getD p.1, p.2)),
    ("schema", fun n p => return (p.1, (← intake n).getD p.2))]

def bareItems : Filling ItemList :=
  .ofFields [
    ("schemas", fun n i => return { i with schemas := (← bareList intake n).getD [] }),
    ("multiple", fun n i => return { i with multiple := (← Intake.flag n).getD i.multiple })]

/-- The keywords of a validator in a tree that is tagged as nothing, under names in
small letters.  A mapping that it merges is a validator. -/
def bareFilling : Filling Keywords :=
  { Filling.ofFields (σ := Keywords) [
      ("bsontype", fun n k => return { k with bsonType := ← bareRecord bareTypeNames ⟨[], false⟩ n }),
      ("properties", fun n k =>
        return { k with properties := ← bareList (bareProperty.node ("", .absent)) n }),
      ("required", fun n k => return { k with required := ← bareList Intake.text n }),
      ("additionalproperties", fun n k => return { k with additionalProperties := ← Intake.flag n }),
      ("items", fun n k => return { k with items := ← bareRecord bareItems ⟨[], false⟩ n }),
      ("maxitems", fun n k => return { k with maxItems := ← Intake.integer n }),
      ("anyof", fun n k => return { k with anyOf := ← bareList intake n }),
      ("oneof", fun n k => return { k with oneOf := ← bareList intake n })] with
    whole? := some fun n _ => return (← ofNode n).keywords }

/-- Reads a validator from a text; a text that holds nothing makes an empty one. -/
def ofYaml (data : List UInt8) : Outcome Validator := do
  match ← Yaml.root data with
  | none => return empty
  | some root =>
      if root.shortTag = "!!null" then
        return .of ((← (bareFilling.node .blank root).outcome 1).getD .blank)
      else ofNode root

end Validator

end DocShape
