import DocShape.Diagram.Record
import DocShape.Text.Natural
import DocShape.Validator.Yaml
import DocShape.Yaml.Filling

/-!
# Diagrams as YAML

A record as a tree, its entities in natural order of their names, and a tree
taken in as a record.  Values that do not fit are noted and passed over, so that
the first validator that cannot be read is what fails.
-/

namespace DocShape

open Yaml (Node Intake Filling)

namespace DiagramRecord

def textNode (text : String) : Node :=
  let style := if Yaml.isFormerBool text || Yaml.isSexagesimal text then .quoted else .usual
  .scalar ⟨"!!str", 0, style⟩ text

def toNode (r : DiagramRecord) : Outcome Node := do
  let ordered := r.entities.entries.mergeSort fun a b => !Text.naturalBefore b.1 a.1
  let entities ← ordered.mapM fun (name, e) => do
    let schema ← e.validator.toNode
    return (textNode name, Node.ofFields [("db", textNode e.database),
      ("collection", textNode e.collection),
      ("primaryKey", .ofItems (e.primaryKey.map textNode)), ("jsonSchema", schema)])
  return .ofFields [("schemaName", textNode r.name), ("entities", .ofEntries entities)]

def entityFilling : Filling EntityRecord :=
  .ofFields [
    ("db", fun n e => return { e with database := (← Intake.text n).getD e.database }),
    ("collection", fun n e => return { e with collection := (← Intake.text n).getD e.collection }),
    ("primaryKey", fun n e =>
      return { e with primaryKey := (← Intake.list Intake.text n).getD e.primaryKey }),
    ("jsonSchema", fun n e =>
      return { e with validator := (← Validator.intake n).getD e.validator })]

/-- Entities by their names.  Nothing is a blank entity, unless it would replace
one that came before the merged mapping it stands in. -/
def entitiesFilling {α : Type} (entity : Filling α) (blank : α) : Filling (NameMap α) :=
  { field? := fun name => some fun merged n entities => do
      match ← entity.node blank n with
      | some e => return entities.insert name e
      | none =>
          if n.shortTag = "!!null" && !(merged && entities.has name) then
            return entities.insert name blank
          else return entities
    once := false
    strict := false
    whole? := none }

def filling : Filling DiagramRecord :=
  .ofFields [
    ("schemaName", fun n r => return { r with name := (← Intake.text n).getD r.name }),
    ("entities", fun n r => do
      let entities ← (entitiesFilling entityFilling .blank).node .empty n
      return { r with entities := entities.getD .empty })]

/-- Reads a record from a tree around which some nodes were counted. -/
def ofNode (n : Node) (counted : Nat) : Outcome DiagramRecord := do
  return (← (filling.node blank n).outcome counted).getD blank

/-- Reads a record from a text; one that holds nothing makes an empty record. -/
def ofYaml (data : List UInt8) : Outcome DiagramRecord :=
  Outcome.inContext "decode erd"
    (do
      match ← Yaml.root data with
      | none => return blank
      | some root => ofNode root 1)

end DiagramRecord

namespace Diagram

def toYaml (d : Diagram) : Outcome String := do
  return Yaml.write (← (← d.toRecord).toNode)

def ofYaml (data : List UInt8) (limit : Int) : Outcome Diagram := do
  (← DiagramRecord.ofYaml data).toDiagram limit

/-- The fields of an entity in a tree that is tagged as nothing.  Its schema is
passed over. -/
def bareEntityFilling : Filling Entity :=
  .ofFields [
    ("db", fun n e => return { e with database := (← Intake.text n).getD e.database }),
    ("collection", fun n e => return { e with collection := (← Intake.text n).getD e.collection }),
    ("primarykey", fun n e =>
      return { e with primaryKey := (← Intake.list Intake.text n).getD e.primaryKey }),
    ("schema", fun n e => do
      let _ ← (Filling.ofFields []).node () n
      return e)]

/-- The fields of a diagram in a tree that is tagged as nothing, under names in
small letters.  A mapping that it merges is a record. -/
def bareFilling (limit : Int) : Filling Diagram :=
  { Filling.ofFields (σ := Diagram) [
      ("schemaname", fun n d => return { d with name := (← Intake.text n).getD d.name }),
      ("entities", fun n d => do
        let entities ←
          (DiagramRecord.entitiesFilling bareEntityFilling ⟨"", "", [], .unsat⟩).node .empty n
        return { d with entities := entities.getD .empty })] with
    whole? := some fun n _ => do (← DiagramRecord.ofNode n 0).toDiagram limit }

/-- Reads a diagram from a text whose root may be tagged as nothing. -/
def ofYamlRoot (data : List UInt8) (limit : Int) : Outcome Diagram :=
  Outcome.inContext "decode erd"
    (do
      let d : Diagram := ⟨"", .empty⟩
      match ← Yaml.root data with
      | none => return d
      | some root =>
          if root.shortTag = "!!null" then
            return (← ((bareFilling limit).node d root).outcome 1).getD d
          else (← DiagramRecord.ofNode root 0).toDiagram limit)

end Diagram

end DocShape
