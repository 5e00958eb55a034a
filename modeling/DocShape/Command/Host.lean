import DocShape.Files
import DocShape.LogLine

/-!
# Hosts

What a run asks of the system it runs on, and a run on files, input and a clock
that are all given.
-/

namespace DocShape.Command

/-- What a run asks of the system it runs on. -/
structure Host (m : Type → Type) where
  read : String → m (Except FileError (List UInt8))
  write : String → List UInt8 → m (Except FileError Unit)
  /-- All of the standard input. -/
  input : m (List UInt8)
  /-- Prints to the standard output. -/
  out : String → m Unit
  /-- Prints to the standard error. -/
  err : String → m Unit
  /-- Seconds since the start of 1970. -/
  clock : m Int
  /-- The time given to log entries. -/
  logTime : m Float

/-- A system of which everything is given: its files, its input and its clock, which
gains a second with each reading. -/
structure Trial where
  files : Files
  input : List UInt8
  now : Int
  /-- What was printed, to the standard output and to the standard error. -/
  out : String
  err : String

namespace Trial

def new (files : Files) (input : List UInt8) (now : Int) : Trial :=
  ⟨files, input, now, "", ""⟩

def host : Host (StateM Trial) where
  read path := return (← get).files.read path
  write path data := do
    match (← get).files.write path data with
    | .ok files =>
        modify fun t => { t with files := files }
        return .ok ()
    | .error e => return .error e
  input := return (← get).input
  out text := modify fun t => { t with out := t.out ++ text }
  err text := modify fun t => { t with err := t.err ++ text }
  clock := do
    let t ← get
    set { t with now := t.now + 1 }
    return t.now
  logTime := return 0.0

end Trial

end DocShape.Command
