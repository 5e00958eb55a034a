import DocShape.Yaml.Scalar

/-!
# Nodes

The tree of a YAML document.  An alias holds the node it stands for; one that
stands for a collection around it has no finite tree and only names it.
-/

namespace DocShape.Yaml

/-- How a node asks to be written. -/
inductive Style where
  /-- As its text needs. -/
  | usual
  /-- Between double quotes. -/
  | quoted
  /-- On one line, between brackets. -/
  | flow
  deriving DecidableEq

structure Info where
  tag : String
  line : Nat
  style : Style
  deriving DecidableEq

inductive Node where
  | scalar (info : Info) (text : String)
  | sequence (info : Info) (items : List Node)
  | mapping (info : Info) (entries : List (Node × Node))
  /-- The document around a root. -/
  | document (line : Nat) (root : Option Node)
  /-- An alias, by its name. -/
  | reference (line : Nat) (name : String) (target : Node)
  /-- An alias of a collection that it stands in, by the number of that. -/
  | cycle (name : String) (serial : Nat)

namespace Node

instance : Inhabited Node := ⟨.cycle "" 0⟩

def tagged (tag text : String) : Node :=
  .scalar ⟨tag, 0, .usual⟩ text

def ofText (text : String) : Node :=
  .tagged "!!str" text

def ofItems (items : List Node) : Node :=
  .sequence ⟨"!!seq", 0, .usual⟩ items

def ofEntries (entries : List (Node × Node)) : Node :=
  .mapping ⟨"!!map", 0, .usual⟩ entries

def ofFields (fields : List (String × Node)) : Node :=
  .ofEntries (fields.map fun (name, n) => (.ofText name, n))

/-- The text of a scalar or the name of an alias; other nodes have none. -/
def text : Node → String
  | .scalar _ text => text
  | .reference _ name _ => name
  | .cycle name _ => name
  | _ => ""

def line : Node → Nat
  | .scalar info _ => info.line
  | .sequence info _ => info.line
  | .mapping info _ => info.line
  | .document line _ => line
  | .reference line _ _ => line
  | .cycle _ _ => 0

/-- The tag of a node in its short form; where none is given, the one that its
kind or its text has. -/
def shortTag : Node → String
  | .scalar info text =>
      if info.tag = "" || info.tag = "!" then
        (if info.style = .quoted then "!!str" else implicitTag text)
      else Yaml.shortTag info.tag
  | .sequence info _ => if info.tag = "" || info.tag = "!" then "!!seq" else Yaml.shortTag info.tag
  | .mapping info _ => if info.tag = "" || info.tag = "!" then "!!map" else Yaml.shortTag info.tag
  | .reference _ _ target => target.shortTag
  | .document _ _ => ""
  | .cycle _ _ => ""

def resolved : Node → Node
  | .reference _ _ target => target.resolved
  | n => n

mutual

/-- The tree with another node for each alias of a collection around it. -/
def mapCycles (f : String → Nat → Node) : Node → Node
  | .scalar info text => .scalar info text
  | .sequence info items => .sequence info (mapItemCycles f items)
  | .mapping info entries => .mapping info (mapEntryCycles f entries)
  | .document line none => .document line none
  | .document line (some root) => .document line (some (root.mapCycles f))
  | .reference line name target => .reference line name (target.mapCycles f)
  | .cycle name serial => f name serial
termination_by structural n => n

def mapItemCycles (f : String → Nat → Node) : List Node → List Node
  | [] => []
  | n :: rest => n.mapCycles f :: mapItemCycles f rest
termination_by structural items => items

def mapEntryCycles (f : String → Nat → Node) : List (Node × Node) → List (Node × Node)
  | [] => []
  | (key, n) :: rest => (key.mapCycles f, n.mapCycles f) :: mapEntryCycles f rest
termination_by structural entries => entries

end

/-- The tree in which an alias of a collection around it holds that collection,
unless it is met again inside. -/
def unroll (collections : List (Nat × Node)) : (fuel : Nat) → (around : List Nat) → Node → Node
  | 0, _, n => n
  | fuel + 1, around, n =>
      n.mapCycles fun name serial =>
        match collections.find? fun c => c.1 = serial with
        | some (_, target) =>
            if around.contains serial then .cycle name serial
            else .reference 0 name (unroll collections fuel (serial :: around) target)
        | none => .cycle name serial

end Node

end DocShape.Yaml
