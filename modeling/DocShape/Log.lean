import DocShape.Schema.Summary

/-!
# Log entries

What happened, as entries with a level, a message and named values.
-/

namespace DocShape

/-- How important an entry is, least first. -/
inductive LogLevel where
  | debug
  | info
  | warn
  | error
  | dpanic
  | panic
  | fatal
  deriving DecidableEq

namespace LogLevel

def rank : LogLevel → Nat
  | debug => 0
  | info => 1
  | warn => 2
  | error => 3
  | dpanic => 4
  | panic => 5
  | fatal => 6

def name : LogLevel → String
  | debug => "debug"
  | info => "info"
  | warn => "warn"
  | error => "error"
  | dpanic => "dpanic"
  | panic => "panic"
  | fatal => "fatal"

end LogLevel

inductive LogValue where
  | text (value : String)
  | number (value : Int)
  | float (value : Float)
  | flag (value : Bool)
  | group (fields : List (String × LogValue))

structure LogEntry where
  level : LogLevel
  logger : String
  message : String
  fields : List (String × LogValue)

/-- What an entry shows of a schema: its variant and shape, and of a document how
many fields it declares, whether it is open, and its statistics. -/
def Schema.logValue (s : Schema) : LogValue :=
  let shape := [("kind", LogValue.text s.kind.name), ("shape", .text (Settings.standard.summary s))]
  match s with
  | .document d =>
      .group (shape ++ [("keys", .number d.keys.length), ("open", .flag d.isOpen)]
        ++ match d.jaccard with
          | some j => [("avg_ji", .float j.average), ("num_unions", .number j.unions.toNat)]
          | none => [])
  | _ => .group shape

end DocShape
