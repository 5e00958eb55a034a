import DocShape.Validator.Convert
import DocShape.ExtJson.Read
import DocShape.ExtJson.Write

/-!
# Validators as extended JSON

Validators and schemas in the JSON form of their binary documents.
-/

namespace DocShape

def ExtJson.unreadable : Failure :=
  .plain "invalid JSON input"

def Validator.ofExtJson (text : String) : Outcome Validator :=
  match ExtJson.readBytes? text with
  | some data => Validator.ofBytes data
  | none => .error (.within "jsonschema: parse extended json" ExtJson.unreadable)

/-- The extended JSON of a record, which has to have a binary form too. -/
def Plain.toExtJson (fields : List (String × Plain)) : Outcome String :=
  match Bson.documentSize (Plain.fieldsToBson fields) with
  | .ok _ => .ok (ExtJson.writeRecord fields)
  | .error e => .error e.failure

def Validator.toExtJson (v : Validator) : Outcome String := do
  Plain.toExtJson (← v.toFields)

namespace Schema

def ofExtJson (text : String) : Outcome Schema :=
  ofReadValidator (Validator.ofExtJson text)

def toExtJson (s : Schema) : Outcome String := do
  (← s.toValidator Settings.standard.maxDepth).toExtJson

end Schema

end DocShape
