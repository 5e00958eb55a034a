import DocShape.Number.Literal
import DocShape.Text.Printable

/-!
# Flags

Flags come before the other arguments, after one or two hyphens, with their
value after an equals sign or as the next argument.  Two hyphens alone end them.
-/

namespace DocShape.Command

inductive FlagKind where
  | text
  | integer
  | float
  /-- Nothing, unless after an equals sign. -/
  | switch
  deriving DecidableEq

def FlagKind.name : FlagKind → String
  | text => "string"
  | integer => "int"
  | float => "float"
  | switch => ""

structure Flag where
  name : String
  kind : FlagKind
  /-- What the flag does. -/
  purpose : String
  /-- The value it has when it is not given, unless that is zero or empty. -/
  standard : Option String

inductive FlagValue where
  | text (value : String)
  | integer (value : Int64)
  | float (value : Float)
  | switch (value : Bool)

inductive FlagError where
  | malformed (argument : String)
  | unknown (name : String)
  | needsValue (name : String)
  | badValue (value name : String) (cause : Number.LiteralError)
  | badSwitch (value name : String)
  /-- A call for help, which is no flag of the command. -/
  | help

namespace FlagError

def causeText : Number.LiteralError → String
  | .malformed => "parse error"
  | .outOfRange => "value out of range"

def text : FlagError → String
  | malformed argument => "bad flag syntax: " ++ argument
  | unknown name => "flag provided but not defined: -" ++ name
  | needsValue name => "flag needs an argument: -" ++ name
  | badValue value name cause =>
      "invalid value " ++ Text.quote value ++ " for flag -" ++ name ++ ": " ++ causeText cause
  | badSwitch value name =>
      "invalid boolean value " ++ Text.quote value ++ " for -" ++ name ++ ": "
        ++ causeText .malformed
  | help => "flag: help requested"

end FlagError

def Flag.line (f : Flag) : String :=
  let head := "  -" ++ f.name ++ (if f.kind.name = "" then "" else " " ++ f.kind.name)
  let standard :=
    match f.standard with
    | none => ""
    | some value =>
        " (default " ++ (if f.kind = .text then Text.quote value else value) ++ ")"
  head ++ (if head.length ≤ 4 then "\t" else "\n    \t") ++ f.purpose ++ standard ++ "\n"

def flagLines (command : String) (flags : List Flag) : String :=
  "Usage of " ++ command ++ ":\n" ++ String.join (flags.map Flag.line)

/-- What is printed of an error in the flags of a command. -/
def FlagError.printed (command : String) (flags : List Flag) (e : FlagError) : String :=
  match e with
  | .help => flagLines command flags
  | e => e.text ++ "\n" ++ flagLines command flags

/-- The flags that were given, the last one first, and the arguments after them. -/
structure Arguments where
  given : List (String × FlagValue)
  rest : List String

namespace Arguments

def text? (a : Arguments) (name : String) : Option String :=
  match a.given.lookup name with
  | some (.text value) => some value
  | _ => none

def integer? (a : Arguments) (name : String) : Option Int64 :=
  match a.given.lookup name with
  | some (.integer value) => some value
  | _ => none

def float? (a : Arguments) (name : String) : Option Float :=
  match a.given.lookup name with
  | some (.float value) => some value
  | _ => none

def switched (a : Arguments) (name : String) : Bool :=
  match a.given.lookup name with
  | some (.switch value) => value
  | _ => false

end Arguments

def Flag.readValue (f : Flag) (value : String) : Except FlagError FlagValue :=
  match f.kind with
  | .text => .ok (.text value)
  | .integer =>
      match Number.readInt value.toList with
      | .ok i => .ok (.integer i)
      | .error e => .error (.badValue value f.name e)
  | .float =>
      match Number.readFloat value.toList with
      | .ok x => .ok (.float x)
      | .error e => .error (.badValue value f.name e)
  | .switch =>
      match Number.readBool? value with
      | some b => .ok (.switch b)
      | none => .error (.badSwitch value f.name)

/-- The name of a flag and the value that follows an equals sign after its first
character. -/
def splitValue : List Char → String × Option String
  | [] => ("", none)
  | c :: rest =>
      match rest.dropWhile (· ≠ '=') with
      | [] => (String.ofList (c :: rest), none)
      | _ :: value => (String.ofList (c :: rest.takeWhile (· ≠ '=')), some (String.ofList value))

/-- The characters of an argument after its hyphens, if it is a flag. -/
def afterHyphens? : List Char → Option (List Char)
  | '-' :: '-' :: name => some name
  | ['-'] => none
  | '-' :: name => some name
  | _ => none

def readFlags (flags : List Flag) : List String → List (String × FlagValue) →
    Except FlagError Arguments
  | [], given => .ok ⟨given, []⟩
  | argument :: rest, given =>
      if argument = "--" then .ok ⟨given, rest⟩
      else
        match afterHyphens? argument.toList with
        | none => .ok ⟨given, argument :: rest⟩
        | some characters =>
            if characters.head?.all fun c => c = '-' || c = '=' then
              .error (.malformed argument)
            else
              let (name, value?) := splitValue characters
              match flags.find? fun f => f.name = name with
              | none =>
                  .error (if name = "help" || name = "h" then .help else .unknown name)
              | some f =>
                  match value?, f.kind with
                  | some value, _ => do
                      let v ← f.readValue value
                      readFlags flags rest ((name, v) :: given)
                  | none, .switch => readFlags flags rest ((name, .switch true) :: given)
                  | none, _ =>
                      match rest with
                      | [] => .error (.needsValue name)
                      | value :: rest => do
                          let v ← f.readValue value
                          readFlags flags rest ((name, v) :: given)

def Arguments.read (flags : List Flag) (arguments : List String) : Except FlagError Arguments :=
  readFlags flags arguments []

end DocShape.Command
