import DocShape.Bson.Value

/-!
# Plain documents

The values that validators and diagrams are written with: texts, truth values,
integers, lists and records.  Each format writes them in its own way.
-/

namespace DocShape

inductive Plain where
  | text (value : String)
  | flag (value : Bool)
  | number (value : Int64)
  | list (items : List Plain)
  | record (fields : List (String × Plain))

namespace Plain

instance : Inhabited Plain := ⟨.record []⟩

mutual

def toBson : Plain → Bson.Value
  | .text s => .string s
  | .flag b => .bool b
  | .number n => .ofInt64 n
  | .list items => .array (itemsToBson items)
  | .record fields => .document (fieldsToBson fields)
termination_by structural p => p

def itemsToBson : List Plain → List Bson.Value
  | [] => []
  | p :: rest => p.toBson :: itemsToBson rest
termination_by structural ps => ps

def fieldsToBson : List (String × Plain) → List (String × Bson.Value)
  | [] => []
  | (name, p) :: rest => (name, p.toBson) :: fieldsToBson rest
termination_by structural fields => fields

end

end Plain

end DocShape
