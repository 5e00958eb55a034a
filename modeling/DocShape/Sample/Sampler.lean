import DocShape.Sample.Infer
import DocShape.Schema.Render
import DocShape.ExtJson.Read
import DocShape.Text.Letter
import DocShape.Log

/-!
# Samplers

A sampler folds documents into one running document type and watches how
similar their key sets are.  Once the shapes prove unstable the running type
becomes the unconstrained document.
-/

namespace DocShape

/-- The running schema of the documents met so far. -/
structure Sampler where
  settings : Settings
  /-- Bytes that a line may have. -/
  maxLineBytes : Nat
  shapes : ShapeCounts
  /-- The running type; `none` before the first document. -/
  running : Option Document
  documents : Nat
  collapsed : Bool

/-- A sampler after some work, what it logged, and why it stopped early. -/
structure SamplerRun where
  sampler : Sampler
  logs : List LogEntry
  failure? : Option Failure

/-- The sampler after a run that did not stop early. -/
def SamplerRun.outcome (run : SamplerRun) : Outcome Sampler :=
  match run.failure? with
  | none => .ok run.sampler
  | some f => .error f

namespace Sampler

/-- Bytes a line may have unless another bound is given. -/
def standardLineBytes : Nat := 16777216

/-- A sampler that has met nothing.  Settings that are all zero stand for the
standard ones, and so does a bound on lines that is not positive. -/
def new (settings : Settings) (maxLineBytes : Int) : Sampler :=
  { settings := if settings.isZero then .standard else settings
    maxLineBytes := if maxLineBytes ≤ 0 then standardLineBytes else maxLineBytes.toNat
    shapes := .empty
    running := none
    documents := 0
    collapsed := false }

def schema (s : Sampler) : Schema :=
  match s.running with
  | some d => .document d
  | none => .unsat

def unions (s : Sampler) : UInt32 :=
  match s.running with
  | some { jaccard := some j, .. } => j.unions
  | _ => 0

def average (s : Sampler) : Float :=
  match s.running with
  | some { jaccard := some j, .. } => j.average
  | _ => 0.0

def entry (level : LogLevel) (message : String) (fields : List (String × LogValue)) : LogEntry :=
  { level, logger := "sampler", message, fields }

def newShape (d : Document) (sum : String) : LogEntry :=
  entry .debug "new document shape"
    [("fingerprint", .text (String.ofList (sum.toList.take 12))),
     ("shape", (Schema.document d).logValue)]

def unstable (s : Sampler) (j : Jaccard) : LogEntry :=
  entry .warn "document shapes are not stable, abandoning precision"
    [("documents", .number s.documents), ("num_unions", .number j.unions.toNat),
     ("avg_ji", .float j.average), ("stability_limit", .float j.limit)]

def fold (s : Sampler) (d : Document) : Sampler :=
  let next := { s with documents := s.documents + 1 }
  match s.running with
  | none => { next with running := some { d with jaccard := some (.fresh s.settings.stabilityLimit) } }
  | some running =>
      let joined := running.union d
      { next with
        running := some joined
        collapsed := s.collapsed || joined.same .unconstrained }

/-- What is logged when a document type takes the sampler `s` to the sampler `next`. -/
def entries (s next : Sampler) (d : Document) (sum : String) : List LogEntry :=
  let first := if next.shapes.count sum = 1 then [newShape d sum] else []
  let given :=
    match next.running with
    | some { jaccard := some j, .. } =>
        if next.collapsed && !s.collapsed then [next.unstable j] else []
    | _ => []
  first ++ given

def add (s : Sampler) (data : List UInt8) : SamplerRun :=
  match Document.infer s.settings.maxDepth data with
  | .error f => ⟨s, [], some f⟩
  | .ok d =>
      let (shapes, sum) := s.shapes.observe (.document d)
      let next := { s with shapes }.fold d
      ⟨next, s.entries next d sum, none⟩

/-- A run with one more step, whose failure is put in a context. -/
def andThen (run : SamplerRun) (context : String) (step : SamplerRun) : SamplerRun :=
  ⟨step.sampler, run.logs ++ step.logs, step.failure?.map (.within context)⟩

/-- Adds listed documents, the first of them at position `index`. -/
def addFrom (canceled : Bool) : (index : Nat) → List (List UInt8) → SamplerRun → SamplerRun
  | _, [], run => run
  | index, data :: rest, run =>
      if canceled then { run with failure? := some .canceled }
      else
        let next := andThen run ("document " ++ Nat.repr index) (run.sampler.add data)
        if next.failure?.isSome then next else addFrom canceled (index + 1) rest next

/-- Adds documents in order up to the first that fails. -/
def addAll (s : Sampler) (canceled : Bool) (documents : List (List UInt8)) : SamplerRun :=
  addFrom canceled 0 documents ⟨s, [], none⟩

/-- The lines of a text of which the characters `start`, last first, have been
read. -/
def linesFrom : (start : List Char) → List Char → List (List Char)
  | [], [] => []
  | start, [] => [start.reverse]
  | start, c :: rest =>
      if c = '\n' then start.reverse :: linesFrom [] rest else linesFrom (c :: start) rest

/-- The lines of a text: each ends at a line feed, and what follows the last one
is a line unless it is empty. -/
def lines (text : List Char) : List (List Char) :=
  linesFrom [] text

def byteLength (cs : List Char) : Nat :=
  cs.foldl (fun n c => n + c.utf8Size) 0

/-- The least bound on a line that has an effect. -/
def leastLineBytes : Nat := 65536

/-- Reads lines of extended JSON, the first of them numbered `number`.  Blank
lines are passed over. -/
def readFrom (canceled : Bool) : (number : Nat) → List (List Char) → SamplerRun → SamplerRun
  | _, [], run => run
  | number, line :: rest, run =>
      if max run.sampler.maxLineBytes leastLineBytes ≤ byteLength line then
        { run with
          failure? := some (.within "read documents" (.plain "bufio.Scanner: token too long")) }
      else if canceled then { run with failure? := some .canceled }
      else
        let text := Text.trimBlanks line
        if text.isEmpty then readFrom canceled (number + 1) rest run
        else
          let context := "line " ++ Nat.repr number
          match ExtJson.readBytes? (String.ofList text) with
          | none =>
              { run with
                failure? := some (.caused .bsonDecode context "" (.plain "invalid JSON input")) }
          | some data =>
              let next := andThen run context (run.sampler.add data)
              if next.failure?.isSome then next else readFrom canceled (number + 1) rest next

def readLines (s : Sampler) (canceled : Bool) (text : String) : SamplerRun :=
  readFrom canceled 1 (lines text.toList) ⟨s, [], none⟩

end Sampler

end DocShape
