import DocShape.Diagram.Yaml
import DocShape.Files
import DocShape.Log

/-!
# Formats of diagrams

The forms a diagram is kept in, and diagrams in files, where the ending of the
file's name chooses the form.
-/

namespace DocShape

inductive Format where
  | bson
  | extJson
  | yaml
  deriving DecidableEq

namespace Format

def name : Format → String
  | bson => "bson"
  | extJson => "json"
  | yaml => "yaml"

def ofName (name : String) : Outcome Format :=
  match [bson, extJson, yaml].find? fun f => f.name = name with
  | some f => .ok f
  | none => .error (.plain ("unknown erd format " ++ Text.quote name))

/-- The ending of a path: the last point in its last part and what follows. -/
def ending (path : List Char) : List Char :=
  let part := (path.reverse.takeWhile (· ≠ '/'))
  if part.contains '.' then '.' :: (part.takeWhile (· ≠ '.')).reverse else []

/-- The format of a file by its path; an ending without a format of its own means
extended JSON. -/
def ofPath (path : String) : Format :=
  let e := String.ofList ((ending path.toList).map Char.toLower)
  if e = ".bson" then bson
  else if e = ".yaml" || e = ".yml" then yaml
  else extJson

end Format

namespace Diagram

def encode (d : Diagram) : Format → Outcome (List UInt8)
  | .bson => d.toBytes
  | .extJson => return Bytes.ofText (← d.toExtJson)
  | .yaml => return Bytes.ofText (← d.toYaml)

def decode (data : List UInt8) (format : Format) (limit : Int) : Outcome Diagram :=
  match format with
  | .bson => ofBytes data limit
  | .extJson => ofExtJson (Bytes.toText data) limit
  | .yaml => ofYaml data limit

def decodedEntry (d : Diagram) (format : Format) : LogEntry :=
  ⟨.debug, "", "erd decoded", [("schema_name", .text d.name),
    ("entities", .number d.entities.size), ("format", .text format.name)]⟩

/-- The diagram in a file, from the outcome of reading its content. -/
def ofFile (path : String) (content : Except FileError (List UInt8)) (limit : Int) :
    Outcome Diagram :=
  match content with
  | .error e => .error (.within "read erd" (.plain e.text))
  | .ok data => Outcome.inContext path (decode data (.ofPath path) limit)

def store (d : Diagram) (files : Files) (path : String) : Outcome Files := do
  let data ← d.encode (.ofPath path)
  match files.write path data with
  | .ok files => .ok files
  | .error e => .error (.plain e.text)

end Diagram

end DocShape
