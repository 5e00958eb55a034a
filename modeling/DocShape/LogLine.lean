import DocShape.Log
import DocShape.Number.Shortest
import DocShape.Text.Digits

/-!
# Log lines

An entry as one line of JSON.
-/

namespace DocShape

def lineChar (c : Char) : List Char :=
  if c = '"' || c = '\\' then ['\\', c]
  else if c = '\n' then ['\\', 'n']
  else if c = '\r' then ['\\', 'r']
  else if c = '\t' then ['\\', 't']
  else if c.toNat < 0x20 then ['\\', 'u'] ++ Text.hexDigits 4 c.toNat
  else [c]

def lineText (s : String) : String :=
  "\"" ++ String.ofList (s.toList.flatMap lineChar) ++ "\""

/-- A float in a line; what is no finite number stands between quotes. -/
def lineFloat (x : Float) : String :=
  if x.isFinite then Number.positional x
  else if x.isNaN then "\"NaN\""
  else if 0.0 < x then "\"+Inf\""
  else "\"-Inf\""

mutual

def LogValue.line : LogValue → String
  | .text value => lineText value
  | .number value => toString value
  | .float value => lineFloat value
  | .flag value => if value then "true" else "false"
  | .group fields => "\x7b" ++ ",".intercalate (lineFields fields) ++ "\x7d"
termination_by structural v => v

def lineFields : List (String × LogValue) → List String
  | [] => []
  | (name, value) :: rest => (lineText name ++ ":" ++ value.line) :: lineFields rest
termination_by structural fields => fields

end

/-- The line of an entry logged at a time, in seconds. -/
def LogEntry.line (time : Float) (e : LogEntry) : String :=
  (LogValue.group ([("level", .text e.level.name), ("ts", .float time)]
    ++ (if e.logger = "" then [] else [("logger", .text e.logger)])
    ++ ("msg", .text e.message) :: e.fields)).line ++ "\n"

end DocShape
