import DocShape.Schema.Basic
import DocShape.Settings

/-!
# Summaries

A one-line view of a schema's shape for messages: it descends a given number
of levels and cuts long lists of fields and branches.
-/

namespace DocShape

/-- At most `limit` of the items and how many are left out; all of them unless
the limit is positive. -/
def truncate {α : Type} (limit : Int) (items : List α) : List α × Nat :=
  if limit ≤ 0 || items.length ≤ limit.toNat then (items, 0)
  else (items.take limit.toNat, items.length - limit.toNat)

/-- Texts with a separator, and a mark for how many were left out. -/
def joinTruncated (separator : String) (limit : Int) (texts : List String) : String :=
  let (shown, extra) := truncate limit texts
  String.intercalate separator shown
    ++ if extra = 0 then "" else separator ++ "+" ++ Nat.repr extra

mutual

/-- The shape of a schema, `depth` levels deep. -/
def Schema.summarize (o : Settings) (depth : Nat) : Schema → String
  | .unsat => "Unsat"
  | .missing => "Missing"
  | .any => "Any"
  | .atomic a => a.name
  | .array items =>
      match depth with
      | 0 => "array[...]"
      | below + 1 => "array[" ++ items.summarize o below ++ "]"
  | .document d => d.summarize o depth
  | .anyOf bs =>
      match depth with
      | 0 => "anyOf(" ++ Nat.repr bs.length ++ ")"
      | below + 1 =>
          "anyOf(" ++ joinTruncated " | " o.shownBranches (summarizeBranches o below bs) ++ ")"
termination_by structural s => s

def Document.summarize (o : Settings) (depth : Nat) : Document → String
  | ⟨keys, required, isOpen, _, _⟩ =>
      let shown :=
        match depth with
        | 0 => "~" ++ Nat.repr keys.length ++ " keys"
        | below + 1 => joinTruncated ", " o.shownKeys (summarizeKeys o below required keys)
      "doc\x7b" ++ shown ++ (if isOpen then ", ..." else "") ++ "\x7d"
termination_by structural d => d

def summarizeBranches (o : Settings) (depth : Nat) : List Schema → List String
  | [] => []
  | b :: rest => b.summarize o depth :: summarizeBranches o depth rest
termination_by structural bs => bs

/-- The shape of each declared field, a mark on the required ones. -/
def summarizeKeys (o : Settings) (depth : Nat) (required : NameSet) :
    List (String × Schema) → List String
  | [] => []
  | (field, s) :: rest =>
      (field ++ (if required.contains field then "!" else "") ++ ": " ++ s.summarize o depth)
        :: summarizeKeys o depth required rest
termination_by structural keys => keys

end

def Settings.summary (o : Settings) (s : Schema) : String :=
  s.summarize o o.shownDepth.toNat

/-- The shape of a schema `depth` levels deep, with the standard limits. -/
def Schema.summary (s : Schema) (depth : Int) : String :=
  { Settings.standard with shownDepth := depth }.summary s

end DocShape
