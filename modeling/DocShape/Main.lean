import DocShape.Command.Run
import Std.Time.DateTime.Timestamp

/-!
# The program

The commands on the system that the program runs on.
-/

namespace DocShape.Command

def troubleOf : IO.Error → FileTrouble
  | .noFileOrDirectory .. => .missing
  | .inappropriateType .. => .isDirectory
  | e => .other (toString e)

def seconds : IO Int := do
  return (← Std.Time.Timestamp.now).toSecondsSinceUnixEpoch.val

def system : Host IO where
  read path := do
    match ← (IO.FS.readBinFile path).toBaseIO with
    | .ok data => return .ok data.toList
    | .error e =>
        let trouble := troubleOf e
        return .error ⟨trouble = .isDirectory, path, trouble⟩
  write path data := do
    match ← (IO.FS.writeBinFile path ⟨data.toArray⟩).toBaseIO with
    | .ok _ => return .ok ()
    | .error e => return .error ⟨false, path, troubleOf e⟩
  input := do
    let stdin ← IO.getStdin
    return (← stdin.readBinToEnd).toList
  out text := do
    let stdout ← IO.getStdout
    stdout.putStr text
  err text := do
    let stderr ← IO.getStderr
    stderr.putStr text
  clock := seconds
  logTime := return Float.ofInt (← seconds)

end DocShape.Command

def main (args : List String) : IO UInt32 :=
  DocShape.Command.run DocShape.Command.system args
