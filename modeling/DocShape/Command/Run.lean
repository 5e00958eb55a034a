import DocShape.Command.Config
import DocShape.Command.Host
import DocShape.Text.Width
import DocShape.Diagram.Format
import DocShape.OpenApi.Document
import DocShape.Schema.FieldPaths

/-!
# Commands

Inference, unions and field paths of schemas, and checks and exports of
diagrams, as commands over a host.
-/

namespace DocShape.Command

/-! ## Tables -/

abbrev Row := List String

/-- The widths of columns that also hold a row; cells beyond them are passed over. -/
def widen : List Nat → Row → List Nat
  | w :: widths, cell :: row => max w (Text.width cell) :: widen widths row
  | widths, _ => widths

/-- The text of a row.  Its last cell ends the line. -/
def Row.text : List Nat → Row → String
  | [], _ => ""
  | _, [] => ""
  | _, [cell] => cell
  | w :: widths, cell :: row => Text.padded w cell ++ "  " ++ Row.text widths row

def table (header : Row) (rows : List Row) : String :=
  let widths := (header :: rows).foldl widen (header.map fun _ => 0)
  String.join ((header :: rows).map fun row => row.text widths ++ "\n")

/-! ## Running a command -/

inductive Stop where
  /-- Arguments that the command does not take. -/
  | usage (message : String)
  | failed (failure : Failure)

namespace Stop

def text : Stop → String
  | usage message => "usage: " ++ message
  | failed failure => failure.text

def code : Stop → UInt32
  | usage _ => 2
  | failed _ => 1

end Stop

/-- A run of a command: the host, the configuration and the least level logged. -/
structure Session (m : Type → Type) where
  host : Host m
  config : Config
  level : LogLevel

def programName : String := "bsonschema"

def usage : String :=
  "bsonschema - infer and combine BSON schemas\n"
    ++ "\nUsage:\n"
    ++ "  bsonschema [global flags] infer [-o <file>] [-report] [<documents.jsonl>]   "
    ++ "(extended JSON, one document per line; stdin when no file)\n"
    ++ "  bsonschema [global flags] union <schema.json> <schema.json>...\n"
    ++ "  bsonschema [global flags] paths [-max-length N] <schema.json>\n"
    ++ "  bsonschema [global flags] erd validate <erd.yaml|erd.json|erd.bson>\n"
    ++ "  bsonschema [global flags] erd export [-o <file>] <erd.yaml|erd.json|erd.bson>\n"
    ++ "\nGlobal flags:\n"
    ++ "  --config <file>            YAML file with any of the flags below\n"
    ++ "  --log-level <level>        debug, info, warn or error (default warn)\n"
    ++ "  --max-depth <n>            maximum schema nesting depth\n"
    ++ "  --stability-limit <f>      average Jaccard index below which document shapes are "
    ++ "abandoned\n"
    ++ "  --max-line-bytes <n>       maximum size of one input document\n"

def twoDigits (n : Nat) : String :=
  if n < 10 then "0" ++ toString n else toString n

/-- The text of a time given in seconds since the start of 1970. -/
def timeText (seconds : Int) : String :=
  let (year, month, day) := Calendar.dateOf (seconds.fdiv 86400)
  let time := (seconds.fmod 86400).toNat
  let digits := toString year.natAbs
  let year := (if year < 0 then "-" else "")
    ++ String.ofList (List.replicate (4 - digits.length) '0') ++ digits
  year ++ "-" ++ twoDigits month ++ "-" ++ twoDigits day ++ " " ++ twoDigits (time / 3600) ++ ":"
    ++ twoDigits (time / 60 % 60) ++ ":" ++ twoDigits (time % 60) ++ " UTC"

def outputFlag (what : String) : Flag :=
  ⟨"o", .text, "write the " ++ what ++ " to this file instead of stdout", none⟩

/-- Whether a path ends as those of binary files do, in small or capital letters; a
long s is an s. -/
def namesBinary (path : String) : Bool :=
  (Format.ending path.toList).map (fun c => if c = 'ſ' then 's' else c.toLower)
    = ['.', 'b', 's', 'o', 'n']

def validatorOf (path : String) (data : List UInt8) : Outcome Validator :=
  if namesBinary path then Validator.ofBytes data
  else Validator.ofExtJson (Bytes.toText data)

/-- The schema in a file, from the outcome of reading its content. -/
def schemaOf (path : String) (limit : Int) (content : Except FileError (List UInt8)) :
    Outcome Schema :=
  match content with
  | .error e => .error (.within "read schema" (.plain e.text))
  | .ok data =>
      Outcome.inContext path do
        Schema.ofValidator (← validatorOf path data) limit

def schemaText (s : Schema) (limit : Int) : Outcome String := do
  let v ← s.toValidator limit
  return (← v.toExtJson) ++ "\n"

def reportRows (source : String) (s : Sampler) (started finished : Int) : List Row :=
  [["source", source],
   ["documents", toString s.documents],
   ["distinct shapes", toString s.shapes.distinct],
   ["unions", toString s.unions.toNat],
   ["average jaccard index", Number.fixedPlaces 3 s.average],
   ["collapsed", if s.collapsed then "true" else "false"],
   ["started", timeText started],
   ["finished", timeText finished]]

/-- The listing of field paths with how certainly each is there. -/
def pathsText (s : Schema) (listing : PathListing) : String :=
  table ["PATH", "PRESENCE"] (listing.paths.map fun p => [p.dotted, (s.pathPresence p).name])
    ++ "\n" ++ toString listing.paths.length ++ " paths, nullable-only polymorphism: "
    ++ (if listing.nullableOnly then "true" else "false") ++ "\n"

namespace Session

variable {m : Type → Type} [Monad m]

def log (s : Session m) (e : LogEntry) : m Unit := do
  if s.level.rank ≤ e.level.rank then
    let time ← s.host.logTime
    s.host.err (e.line time)

def logAll (s : Session m) : List LogEntry → m Unit
  | [] => return ()
  | e :: rest => do
      s.log e
      s.logAll rest

def check {α : Type} (outcome : Outcome α) : ExceptT Stop m α :=
  match outcome with
  | .ok a => return a
  | .error f => throw (.failed f)

def arguments (s : Session m) (command : String) (flags : List Flag) (args : List String) :
    ExceptT Stop m Arguments := do
  match Arguments.read flags args with
  | .ok a => return a
  | .error e => do
      s.host.err (e.printed command flags)
      throw (.usage (command ++ ": " ++ e.text))

/-- Writes a text to a file, or prints it where no file is named. -/
def writeOutput (s : Session m) (path : String) (text : String) : ExceptT Stop m Unit := do
  if path = "" then s.host.out text
  else
    let data := Bytes.ofText text
    match ← s.host.write path data with
    | .ok _ => s.log ⟨.info, "", "output written",
        [("path", .text path), ("bytes", .number data.length)]⟩
    | .error e => throw (.failed (.within "write output" (.plain e.text)))

def readSchema (s : Session m) (path : String) : m (Outcome Schema) := do
  match schemaOf path s.config.settings.maxDepth (← s.host.read path) with
  | .ok schema => do
      s.log ⟨.debug, "", "schema read", [("path", .text path), ("schema", schema.logValue)]⟩
      return .ok schema
  | .error f => return .error f

/-- Reads the schemas in files: those that can be read, and why others cannot. -/
def readSchemas (s : Session m) : List String → m (List Schema × List Failure)
  | [] => return ([], [])
  | path :: rest => do
      let first ← s.readSchema path
      let (schemas, failures) ← s.readSchemas rest
      match first with
      | .ok schema => return (schema :: schemas, failures)
      | .error f => return (schemas, f :: failures)

def readDiagram (s : Session m) (path : String) : ExceptT Stop m Diagram := do
  let content ← s.host.read path
  let d ← check (Outcome.inContext "read erd"
    (Diagram.ofFile path content s.config.settings.maxDepth))
  s.log (d.decodedEntry (.ofPath path))
  return d

/-- The name and the content of the documents to infer from. -/
def documents (s : Session m) : List String → ExceptT Stop m (String × Outcome (List UInt8))
  | [] => return ("stdin", .ok (← s.host.input))
  | source :: _ => do
      match ← s.host.read source with
      | .ok data => return (source, .ok data)
      | .error e =>
          if e.opened then
            return (source, .error (.within "read documents" (.plain e.text)))
          else throw (.failed (.within "open input" (.plain e.text)))

def infer (s : Session m) (args : List String) : ExceptT Stop m Unit := do
  let a ← s.arguments "infer" [outputFlag "$jsonSchema",
    ⟨"report", .switch, "print a summary of the sampled documents to stderr", none⟩] args
  if 1 < a.rest.length then throw (.usage "infer takes at most one input file")
  let (source, content) ← s.documents a.rest
  let started ← s.host.clock
  let context := "infer from " ++ source
  let data ← check (Outcome.inContext context content)
  let run := (Sampler.new s.config.settings s.config.maxLineBytes.toInt).readLines false
    (Bytes.toText data)
  s.logAll run.logs
  if let some f := run.failure? then throw (.failed (.within context f))
  let schema := run.sampler.schema
  s.log ⟨.info, "", "schema inferred", [("source", .text source), ("schema", schema.logValue)]⟩
  let text ← check (schemaText schema s.config.settings.maxDepth)
  s.writeOutput ((a.text? "o").getD "") text
  if a.switched "report" then
    let finished ← s.host.clock
    s.host.err (table ["FIELD", "VALUE"] (reportRows source run.sampler started finished))

def union (s : Session m) (args : List String) : ExceptT Stop m Unit := do
  let a ← s.arguments "union" [outputFlag "$jsonSchema"] args
  if a.rest.length < 2 then throw (.usage "union needs at least two schema files")
  let (schemas, failures) ← s.readSchemas a.rest
  if let some f := Failure.combine? failures then throw (.failed f)
  let combined := Schema.unions schemas
  s.log ⟨.debug, "", "schemas combined",
    [("inputs", .number schemas.length), ("schema", combined.logValue)]⟩
  let text ← check (schemaText combined s.config.settings.maxDepth)
  s.writeOutput ((a.text? "o").getD "") text

def paths (s : Session m) (args : List String) : ExceptT Stop m Unit := do
  let a ← s.arguments "paths"
    [⟨"max-length", .integer, "longest path to list, -1 for no limit", some "-1"⟩] args
  match a.rest with
  | [path] => do
      let schema ← check (← s.readSchema path)
      let bound := ((a.integer? "max-length").getD (-1)).toInt
      let listing ← check (Outcome.inContext path (schema.fieldPaths bound))
      s.host.out (pathsText schema listing)
  | _ => throw (.usage "paths needs exactly one schema file")

def validateDiagram (s : Session m) (args : List String) : ExceptT Stop m Unit := do
  let a ← s.arguments "erd validate" [] args
  match a.rest with
  | [path] => do
      let d ← s.readDiagram path
      match d.faults with
      | [] =>
          s.host.out (d.name ++ ": " ++ toString d.entities.size ++ " entities, no problems\n")
      | faults => do
          s.host.out (table ["KIND", "FIELD", "MESSAGE"]
            (faults.map fun f => [f.kind.name, f.field, f.message]))
          throw (.failed (.plain (path ++ ": " ++ toString faults.length ++ " problems")))
  | _ => throw (.usage "erd validate needs exactly one ERD file")

def exportDiagram (s : Session m) (args : List String) : ExceptT Stop m Unit := do
  let a ← s.arguments "erd export" [outputFlag "OpenAPI document"] args
  match a.rest with
  | [path] => do
      let d ← s.readDiagram path
      if let some f := Failure.combine? (d.faults.map .fault) then
        throw (.failed (.within (path ++ " is not valid") f))
      let text ← check (Outcome.inContext ("export " ++ path) (OpenApi.ofDiagram d))
      s.writeOutput ((a.text? "o").getD "") text
  | _ => throw (.usage "erd export needs exactly one ERD file")

def diagram (s : Session m) : List String → ExceptT Stop m Unit
  | [] => throw (.usage "erd needs a subcommand: validate or export")
  | "validate" :: args => s.validateDiagram args
  | "export" :: args => s.exportDiagram args
  | command :: _ => throw (.usage ("unknown erd subcommand " ++ Text.quote command))

def command? (s : Session m) : String → Option (List String → ExceptT Stop m Unit)
  | "infer" => some s.infer
  | "union" => some s.union
  | "paths" => some s.paths
  | "erd" => some s.diagram
  | _ => none

/-- Runs the command that the arguments name, and gives the exit code. -/
def dispatch (s : Session m) : List String → m UInt32
  | [] => do
      s.host.out usage
      return 0
  | verb :: args => do
      if verb = "help" || verb = "-h" || verb = "--help" then
        s.host.out usage
        return 0
      match s.command? verb with
      | none => do
          s.host.err ("unknown command: " ++ verb ++ "\n\n" ++ usage)
          return 2
      | some command => do
          match ← (command args).run with
          | .ok _ => return 0
          | .error stop => do
              s.host.err (stop.text ++ "\n")
              return stop.code

end Session

variable {m : Type → Type} [Monad m]

/-- The configuration that the flags and the file they name give. -/
def configured (host : Host m) (a : Arguments) : m (Except String Config) := do
  match (a.text? "config").getD "" with
  | "" => return .ok (Config.standard.withFlags a)
  | path =>
      match ← host.read path with
      | .error e => return .error ("read config: " ++ e.text)
      | .ok data =>
          match Config.standard.withYaml data with
          | .error f => return .error ("parse config " ++ path ++ ": " ++ f.text)
          | .ok c => return .ok (c.withFlags a)

/-- Runs the program on its arguments, and gives the exit code. -/
def run (host : Host m) (args : List String) : m UInt32 := do
  match Arguments.read Config.flags args with
  | .error e => do
      host.err (e.printed programName Config.flags)
      return 2
  | .ok a =>
      match ← configured host a with
      | .error text => do
          host.err (text ++ "\n")
          return 1
      | .ok config =>
          match config.fault?, config.level with
          | some text, _ => do
              host.err (text ++ "\n")
              return 2
          | none, .error text => do
              host.err (text ++ "\n")
              return 2
          | none, .ok level => Session.dispatch ⟨host, config, level⟩ a.rest

/-- The exit code of a run on a given system, and the system after it. -/
def Trial.run (t : Trial) (args : List String) : UInt32 × Trial :=
  (Command.run Trial.host args).run t

end DocShape.Command
