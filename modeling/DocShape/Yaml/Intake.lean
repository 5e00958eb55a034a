import DocShape.Bytes
import DocShape.Failure
import DocShape.Text.Digits
import DocShape.Yaml.Node

/-!
# Taking values in

Texts, numbers, flags and lists taken in from a tree.  A value that does not fit
its place is noted and passed over; what contradicts its own tag ends the
intake at once, and so do aliases that would make a small tree a large one.
-/

namespace DocShape.Yaml

/-- The failure of reading a text that is no document, or not the one wanted. -/
def unreadable : Failure :=
  .plain "yaml: invalid document"

/-- What an intake has come across: the nodes seen, those of them seen inside
aliases, the aliases around the place, and whether a value did not fit. -/
structure Tally where
  nodes : Nat
  repeated : Nat
  aliases : Nat
  misfit : Bool

/-- Whether too many of the nodes were seen inside aliases.  A large share is fine
in a small tree. -/
def Tally.isExcessive (t : Tally) : Bool :=
  t.repeated > 100 && t.nodes > 1000
    && if t.nodes ≤ 400000 then 100 * t.repeated > 99 * t.nodes
      else if t.nodes ≥ 4000000 then 10 * t.repeated > t.nodes
      else 360000000 * t.repeated > t.nodes * (356400000 - 89 * (t.nodes - 400000))

abbrev Intake := StateT Tally Outcome

namespace Intake

variable {α : Type}

def abort : Intake α :=
  throw unreadable

def note : Intake Unit :=
  modify fun t => { t with misfit := true }

def misfit : Intake (Option α) := do
  note
  return none

def count : Intake Unit := do
  let t ← get
  let t := { t with
    nodes := t.nodes + 1
    repeated := if t.aliases > 0 then t.repeated + 1 else t.repeated }
  if t.isExcessive then abort
  set t

/-- Takes in what an alias stands for. -/
def inAlias (content : Intake α) : Intake α := do
  modify fun t => { t with aliases := t.aliases + 1 }
  let a ← content
  modify fun t => { t with aliases := t.aliases - 1 }
  return a

def visit (f : Node → Intake α) : Node → Intake α
  | .reference _ _ target => do
      count
      inAlias (visit f target)
  | .cycle _ _ => do
      count
      abort
  | n => do
      count
      f n

/-- The outcome of an intake before which some nodes were counted. -/
def outcome (counted : Nat) (intake : Intake α) : Outcome α := do
  let (a, t) ← intake.run ⟨counted, 0, 0, false⟩
  if t.misfit then .error unreadable else return a

end Intake

inductive Meaning where
  | nothing
  | text (s : String)
  | truth (b : Bool)
  | number (n : Numeral)
  | time

def plainMeaning (text : String) : Meaning :=
  match implicitTag text with
  | "!!null" => .nothing
  | "!!bool" => .truth (["true", "True", "TRUE"].contains text)
  | "!!timestamp" => .time
  | _ =>
      match numeral? text with
      | some n => .number n
      | none => .text text

/-- What a scalar means under a tag.  A tag of the standard repository has to agree
with the text, except that an integer may be taken for a float. -/
def meaning? (tag text : String) : Option Meaning :=
  if tag = "!!binary" then
    (Text.bytesOfBase64? text).map fun bytes => .text (Bytes.toText bytes)
  else
    match tag, plainMeaning text with
    | "!!null", .nothing => some .nothing
    | "!!bool", .truth b => some (.truth b)
    | "!!int", .number (.integer i) => some (.number (.integer i))
    | "!!float", .number (.float x) => some (.number (.float x))
    | "!!float", .number (.integer i) =>
        if i < 9223372036854775808 then some (.number (.float (.ofInt i))) else none
    | "!!timestamp", .time => some .time
    | tag, _ =>
        if ["!!null", "!!bool", "!!int", "!!float", "!!timestamp"].contains tag then none
        else some (.text text)

namespace Intake

def meaning (info : Info) (text : String) : Intake Meaning :=
  match meaning? (Node.scalar info text).shortTag text with
  | some m => return m
  | none => abort

/-- Takes in a scalar by its meaning; other nodes do not fit. -/
def scalar {α : Type} (f : Meaning → String → Intake (Option α)) : Node → Intake (Option α) :=
  visit fun
    | .scalar info text => do f (← meaning info text) text
    | _ => misfit

/-- Takes in a text: that of any scalar but a null. -/
def text : Node → Intake (Option String) :=
  scalar fun m written =>
    match m with
    | .nothing => return none
    | .text s => return some s
    | _ => return some written

/-- Takes in an integer of 64 bits.  A float loses its fraction, and one below the
least integer is taken for that. -/
def integer : Node → Intake (Option Int64) :=
  scalar fun m _ =>
    match m with
    | .nothing => return none
    | .number (.integer i) =>
        if -9223372036854775808 ≤ i && i < 9223372036854775808 then return some (Int64.ofInt i)
        else misfit
    | .number (.float x) =>
        if x < 9223372036854775808.0 then return some x.toInt64
        else if x == 9223372036854775808.0 then return some Int64.minValue
        else misfit
    | _ => misfit

def float : Node → Intake (Option Float) :=
  scalar fun m _ =>
    match m with
    | .nothing => return none
    | .number (.integer i) => return some (.ofInt i)
    | .number (.float x) => return some x
    | _ => misfit

/-- Takes in a flag, also by the words that used to stand for one. -/
def flag : Node → Intake (Option Bool) :=
  scalar fun m _ =>
    match m with
    | .nothing => return none
    | .truth b => return some b
    | .text s =>
        if ["y", "Y", "yes", "on"].contains s then return some true
        else if ["n", "N", "no", "off"].contains s then return some false
        else misfit
    | _ => misfit

/-- Takes in a list; items that are nothing are left out of it, and nothing is the
empty list. -/
def list {α : Type} (item : Node → Intake (Option α)) : Node → Intake (Option (List α)) :=
  visit fun
    | .sequence _ items => return some (← items.filterMapM item)
    | .scalar info text => do
        match ← meaning info text with
        | .nothing => return some []
        | _ => misfit
    | _ => misfit

end Intake

end DocShape.Yaml
