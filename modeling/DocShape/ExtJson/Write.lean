import DocShape.Plain
import DocShape.Text.Digits

/-!
# Writing extended JSON

Plain documents as compact JSON, their fields in order.
-/

namespace DocShape.ExtJson

def escapeChar (c : Char) : List Char :=
  match c with
  | '"' => ['\\', '"']
  | '\\' => ['\\', '\\']
  | '\n' => ['\\', 'n']
  | '\r' => ['\\', 'r']
  | '\t' => ['\\', 't']
  | '\x08' => ['\\', 'b']
  | '\x0c' => ['\\', 'f']
  | c =>
      if c.toNat < 0x20 || c.toNat = 0x2028 || c.toNat = 0x2029 then
        '\\' :: 'u' :: Text.hexDigits 4 c.toNat
      else [c]

def quoted (s : String) : List Char :=
  '"' :: s.toList.flatMap escapeChar ++ ['"']

def commaSeparated : List (List Char) → List Char
  | [] => []
  | [text] => text
  | text :: rest => text ++ ',' :: commaSeparated rest

mutual

def write : Plain → List Char
  | .text s => quoted s
  | .flag b => (if b then "true" else "false").toList
  | .number n => (toString n.toInt).toList
  | .list items => '[' :: commaSeparated (writeItems items) ++ [']']
  | .record fields => '\x7b' :: commaSeparated (writeFields fields) ++ ['\x7d']
termination_by structural p => p

def writeItems : List Plain → List (List Char)
  | [] => []
  | p :: rest => write p :: writeItems rest
termination_by structural ps => ps

def writeFields : List (String × Plain) → List (List Char)
  | [] => []
  | (name, p) :: rest => (quoted name ++ ':' :: write p) :: writeFields rest
termination_by structural fields => fields

end

def writeRecord (fields : List (String × Plain)) : String :=
  String.ofList (write (.record fields))

end DocShape.ExtJson
