import DocShape.Names

/-!
# Files

Files by their paths, with the directories that their paths imply, and why a
file cannot be read or written.
-/

namespace DocShape

inductive FileTrouble where
  | missing
  | isDirectory
  /-- A path that leads through a file. -/
  | notDirectory
  /-- A path that no file can have. -/
  | invalid
  /-- A path with a part longer than a name may be. -/
  | tooLong
  /-- Trouble of another kind, in the words of the system. -/
  | other (text : String)
  deriving DecidableEq

namespace FileTrouble

def text : FileTrouble → String
  | missing => "no such file or directory"
  | isDirectory => "is a directory"
  | notDirectory => "not a directory"
  | invalid => "invalid argument"
  | tooLong => "file name too long"
  | other text => text

end FileTrouble

/-- A failed use of a file: what was tried, on which path, and the trouble. -/
structure FileError where
  /-- Whether the file could be opened, so that reading it failed. -/
  opened : Bool
  path : String
  trouble : FileTrouble

def FileError.text (e : FileError) : String :=
  (if e.opened then "read " else "open ") ++ e.path ++ ": " ++ e.trouble.text

abbrev Files := FieldMap (List UInt8)

namespace Files

def parts (path : String) : List String :=
  (path.splitOn "/").filter fun p => p ≠ "" && p ≠ "."

/-- Whether one path leads through another, which differs from it. -/
def leadsThrough (path other : List String) : Bool :=
  other.length < path.length && other.isPrefixOf path

def isDirectory (files : Files) (path : List String) : Bool :=
  path.isEmpty || files.any fun f => leadsThrough (parts f.1) path

def file? (files : Files) (path : List String) : Option (String × List UInt8) :=
  List.find? (fun f => parts f.1 = path) files

/-- The trouble with a path that names neither a file nor a directory. -/
def absence (files : Files) (path : List String) : FileTrouble :=
  if files.any fun f => leadsThrough path (parts f.1) then .notDirectory else .missing

/-- The trouble with a path whatever the files are. -/
def badPath? (path : String) : Option FileTrouble :=
  if path = "" then some .missing
  else if path.contains '\x00' then some .invalid
  else if (parts path).any fun p => 255 < p.utf8ByteSize then some .tooLong
  else none

def asksDirectory (path : String) : Bool :=
  path.toList.getLast? = some '/'

def read (files : Files) (path : String) : Except FileError (List UInt8) :=
  match badPath? path with
  | some t => .error ⟨false, path, t⟩
  | none =>
      match files.file? (parts path) with
      | some (_, data) =>
          if asksDirectory path then .error ⟨false, path, .notDirectory⟩ else .ok data
      | none =>
          if files.isDirectory (parts path) then .error ⟨true, path, .isDirectory⟩
          else .error ⟨false, path, files.absence (parts path)⟩

def write (files : Files) (path : String) (data : List UInt8) : Except FileError Files :=
  match badPath? path with
  | some t => .error ⟨false, path, t⟩
  | none =>
      match files.file? (parts path) with
      | some (name, _) =>
          if asksDirectory path then .error ⟨false, path, .notDirectory⟩
          else .ok (FieldMap.insert name data files)
      | none =>
          if files.isDirectory (parts path) || asksDirectory path then
            .error ⟨false, path, .isDirectory⟩
          else if files.isDirectory (parts path).dropLast then
            .ok (FieldMap.insert ("/".intercalate (parts path)) data files)
          else .error ⟨false, path, files.absence (parts path)⟩

/-- The files that are new or changed since `before`. -/
def changed (files before : Files) : Files :=
  files.filter fun f => FieldMap.find? before f.1 ≠ some f.2

end Files

end DocShape
