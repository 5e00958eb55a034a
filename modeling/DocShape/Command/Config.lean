import DocShape.Command.Flag
import DocShape.Log
import DocShape.Number.Shortest
import DocShape.Sample.Sampler
import DocShape.Text.Letter
import DocShape.Yaml.Filling
import DocShape.Yaml.Read

/-!
# Configuration

What every command is told: by a file, and by flags, which win over it.
-/

namespace DocShape.Command

open Yaml (Intake Filling)

structure Config where
  logLevel : String
  maxDepth : Int64
  stabilityLimit : Float
  maxLineBytes : Int64

namespace Config

/-- The configuration used unless another is given. -/
def standard : Config :=
  { logLevel := "warn"
    maxDepth := 2048
    stabilityLimit := Settings.standard.stabilityLimit
    maxLineBytes := 16777216 }

/-- The flags for the configuration and its file, by name. -/
def flags : List Flag :=
  [⟨"config", .text, "YAML config file", none⟩,
   ⟨"log-level", .text, "log level: debug, info, warn or error", some "warn"⟩,
   ⟨"max-depth", .integer, "maximum schema nesting depth", some "2048"⟩,
   ⟨"max-line-bytes", .integer, "maximum size of one input document", some "16777216"⟩,
   ⟨"stability-limit", .float,
    "average Jaccard index below which document shapes are abandoned", some "0.8"⟩]

def withFlags (c : Config) (a : Arguments) : Config :=
  { logLevel := (a.text? "log-level").getD c.logLevel
    maxDepth := (a.integer? "max-depth").getD c.maxDepth
    stabilityLimit := (a.float? "stability-limit").getD c.stabilityLimit
    maxLineBytes := (a.integer? "max-line-bytes").getD c.maxLineBytes }

/-- The fields of a configuration, all of which have to be known. -/
def filling : Filling Config :=
  { Filling.ofFields (σ := Config) [
      ("log-level", fun n c => return { c with logLevel := (← Intake.text n).getD c.logLevel }),
      ("max-depth", fun n c => return { c with maxDepth := (← Intake.integer n).getD c.maxDepth }),
      ("stability-limit", fun n c =>
        return { c with stabilityLimit := (← Intake.float n).getD c.stabilityLimit }),
      ("max-line-bytes", fun n c =>
        return { c with maxLineBytes := (← Intake.integer n).getD c.maxLineBytes })] with
    strict := true }

def withYaml (c : Config) (data : List UInt8) : Outcome Config := do
  match ← Yaml.root data with
  | none => return c
  | some root => return (← (filling.node c root).outcome 1).getD c

/-- What is wrong with the numbers of a configuration. -/
def fault? (c : Config) : Option String :=
  if c.maxDepth ≤ 0 then
    some ("max-depth must be positive, got " ++ toString c.maxDepth.toInt)
  else if c.stabilityLimit < 0.0 || 1.0 < c.stabilityLimit then
    some ("stability-limit must be within [0, 1], got " ++ Number.general c.stabilityLimit)
  else if c.maxLineBytes ≤ 0 then
    some ("max-line-bytes must be positive, got " ++ toString c.maxLineBytes.toInt)
  else none

/-- The level with a name, in small or capital letters; no name means `info`. -/
def levelNamed? (name : String) : Option LogLevel :=
  let small := Text.small name
  if small = "" then some .info
  else
    [LogLevel.debug, .info, .warn, .error, .dpanic, .panic, .fatal].find? fun l => l.name = small

/-- The least level that is logged. -/
def level (c : Config) : Except String LogLevel :=
  match levelNamed? c.logLevel with
  | some l => .ok l
  | none =>
      let name := Text.quote c.logLevel
      .error ("invalid log level " ++ name ++ ": unrecognized level: " ++ name)

def settings (c : Config) : Settings :=
  { Settings.standard with maxDepth := c.maxDepth.toInt, stabilityLimit := c.stabilityLimit }

end Config

end DocShape.Command
