import DocShape.Text.Digits
import DocShape.Yaml.Source
import DocShape.Yaml.Node

/-!
# Writing documents

A tree as text, in block style.  Levels are indented by four columns; what
follows the dash of an item is indented by two, and the next level goes on to a
multiple of four.
-/

namespace DocShape.Yaml

def indentation : Nat := 4

/-- The longest key, in bytes, that is written before a colon on one line. -/
def maxSimpleKey : Nat := 128

def isPlainChar (c : Char) : Bool :=
  let n := c.toNat
  n = 0x0a || (0x20 ≤ n && n ≤ 0x7e) || (0xa0 ≤ n && n ≤ 0xd7ff)
    || (0xe000 ≤ n && n ≤ 0xfffd && n ≠ 0xfeff)

inductive Form where
  | plain
  | single
  | double
  | literal
  deriving DecidableEq

/-- Whether a space or a tab, or nothing, comes next. -/
def blankNext : List Char → Bool
  | [] => true
  | c :: _ => isSpace c

/-- Whether a text cannot be plain because of an indicator at its start: outside
brackets and inside them. -/
def startsBadly : List Char → Bool × Bool
  | [] => (false, false)
  | c :: rest =>
      if ['#', ',', '[', ']', '\x7b', '\x7d', '&', '*', '!', '|', '>', '\'', '"', '%', '@',
          '\x60'].contains c then (true, true)
      else if c = '?' || c = ':' then (blankNext rest, true)
      else if c = '-' then (blankNext rest, blankNext rest)
      else (false, false)

/-- Whether what follows the first character keeps a text from being plain:
outside brackets and inside them. -/
def goesOnBadly : (previous : Char) → List Char → Bool × Bool
  | _, [] => (false, false)
  | previous, c :: rest =>
      let (block, flow) := goesOnBadly c rest
      if [',', '?', '[', ']', '\x7b', '\x7d'].contains c then (block, true)
      else if c = ':' then (block || blankNext rest, true)
      else if c = '#' && (isSpace previous || isBreak previous) then (true, true)
      else (block, flow)

def spaceThenBreak : List Char → Bool
  | a :: b :: rest => (a = ' ' && isBreak b) || spaceThenBreak (b :: rest)
  | _ => false

def breakThenSpace : List Char → Bool
  | a :: b :: rest => (isBreak a && b = ' ') || breakThenSpace (b :: rest)
  | _ => false

structure Allowance where
  multiline : Bool
  plainInBlock : Bool
  plainInFlow : Bool
  single : Bool
  literal : Bool

def allowance (cs : List Char) : Allowance :=
  match cs with
  | [] => ⟨false, true, false, true, false⟩
  | c :: rest =>
      let marked := ['-', '-', '-'].isPrefixOf cs || ['.', '.', '.'].isPrefixOf cs
      let (startBlock, startFlow) := startsBadly cs
      let (restBlock, restFlow) := goesOnBadly c rest
      let breaks := cs.any isBreak
      let special := cs.any fun c => c ≠ '\t' && !isPlainChar c
      let tabs := cs.contains '\t'
      let last := cs.getLast?.getD ' '
      let edged := c = ' ' || isBreak c || last = ' ' || isBreak last
      let spaceBreak := spaceThenBreak cs
      let single := !(breakThenSpace cs || spaceBreak || tabs || special)
      let plain := single && !edged && !breaks && !marked
      { multiline := breaks
        plainInBlock := plain && !startBlock && !restBlock
        plainInFlow := plain && !startFlow && !restFlow
        single := single
        literal := last ≠ ' ' && !spaceBreak && !special }

structure Place where
  inFlow : Bool
  isKey : Bool

def formOf (style : Style) (isString : Bool) (text : String) (place : Place) : Form :=
  let cs := text.toList
  let a := allowance cs
  let asked : Form :=
    if style = .quoted then .double
    else if cs.contains '\n' then .literal
    else if isString && implicitTag text ≠ "!!str" then .double
    else .plain
  let asked := if place.isKey && a.multiline then .double else asked
  match asked with
  | .plain =>
      if (if place.inFlow then a.plainInFlow else a.plainInBlock)
          && !(cs.isEmpty && (place.inFlow || place.isKey)) then .plain
      else if a.single then .single
      else .double
  | .single => if a.single then .single else .double
  | .literal => if a.literal && !place.inFlow && !place.isKey then .literal else .double
  | .double => .double

def doubleChar (c : Char) : List Char :=
  if isPlainChar c && !isBreak c && c ≠ '"' && c ≠ '\\' then [c]
  else
    '\\' :: match c.toNat with
      | 0x00 => ['0']
      | 0x07 => ['a']
      | 0x08 => ['b']
      | 0x09 => ['t']
      | 0x0a => ['n']
      | 0x0b => ['v']
      | 0x0c => ['f']
      | 0x0d => ['r']
      | 0x1b => ['e']
      | 0x22 => ['"']
      | 0x5c => ['\\']
      | 0x85 => ['N']
      | 0x2028 => ['L']
      | 0x2029 => ['P']
      | n =>
          let digits (width : Nat) : List Char := (Text.hexPadded width n).toList.map Char.toUpper
          if n ≤ 0xff then 'x' :: digits 2
          else if n ≤ 0xffff then 'u' :: digits 4
          else 'U' :: digits 8

def spaces (count : Nat) : String :=
  String.ofList (List.replicate count ' ')

/-- The lines of a text, each indented; `fresh` holds at the start of a line. -/
def indented (indent : Nat) (char : Char → List Char) : (fresh : Bool) → List Char → List Char
  | _, [] => []
  | fresh, c :: rest =>
      if isBreak c then c :: indented indent char true rest
      else if fresh then List.replicate indent ' ' ++ char c ++ indented indent char false rest
      else char c ++ indented indent char false rest

/-- What follows the bar of a literal text: its indentation where that cannot be
seen, and what becomes of the line ends after it. -/
def literalHeader (cs : List Char) : String :=
  let hint := match cs with
    | c :: _ => if c = ' ' || isBreak c then toString indentation else ""
    | [] => ""
  let chomping := match cs.reverse with
    | [] => "-"
    | [c] => if isBreak c then "+" else "-"
    | c :: d :: _ => if !isBreak c then "-" else if isBreak d then "+" else ""
  hint ++ chomping

/-- The text of a scalar; lines after its first are indented. -/
def scalarText (style : Style) (isString : Bool) (text : String) (place : Place) (indent : Nat) :
    String :=
  let cs := text.toList
  match formOf style isString text place with
  | .plain => text
  | .single =>
      let char (c : Char) : List Char := if c = '\'' then ['\'', '\''] else [c]
      "'" ++ String.ofList (indented indent char false cs) ++ "'"
  | .double => "\"" ++ String.ofList (cs.flatMap doubleChar) ++ "\""
  | .literal =>
      "|" ++ literalHeader cs ++ "\n" ++ String.ofList (indented indent (fun c => [c]) true cs)

def nextLevel (indent : Nat) : Nat :=
  indentation * (indent / indentation + 1)

def inline : Node → String
  | .scalar info text =>
      scalarText info.style (shortTag info.tag = "!!str") text ⟨true, false⟩ 0
  | _ => ""

/-- The text of a scalar key, and whether a colon can follow it on its line. -/
def keyText (key : Node) (indent : Nat) : String × Bool :=
  match key with
  | .scalar info text =>
      let simple := !text.toList.any isBreak && text.utf8ByteSize ≤ maxSimpleKey
      (scalarText info.style (shortTag info.tag = "!!str") text ⟨false, simple⟩ (nextLevel indent),
        simple)
  | _ => ("", true)

/-- The text with a line end, unless it has one. -/
def endLine (out : String) : String :=
  if out.isEmpty || isBreak out.back then out else out.push '\n'

mutual

/-- Writes a node after a mark in a line: a colon, where `fresh` asks for a line
of its own for a collection, or a dash or a colon with the collection in the
same line. -/
def putNode (level : Nat) (fresh : Bool) (column : Nat) : Node → String → String
  | .scalar info text, out =>
      out ++ " " ++ scalarText info.style (shortTag info.tag = "!!str") text ⟨false, false⟩ level
  | .sequence info items, out =>
      if items.isEmpty then out ++ " []"
      else if info.style = .flow then
        out ++ " [" ++ ", ".intercalate (items.map inline) ++ "]"
      else
        putItems level true items
          (if fresh then out ++ "\n" ++ spaces level else out ++ spaces (level - column))
  | .mapping _ entries, out =>
      if entries.isEmpty then out ++ " \x7b\x7d"
      else
        putEntries level true entries
          (if fresh then out ++ "\n" ++ spaces level else out ++ spaces (level - column))
  | .document _ (some root), out => putNode level fresh column root out
  | .document _ none, out => out
  | .reference _ _ target, out => putNode level fresh column target out
  | .cycle _ _, out => out
termination_by structural n => n

def putItems (column : Nat) (first : Bool) : List Node → String → String
  | [], out => out
  | n :: rest, out =>
      let out := if first then out else endLine out ++ spaces column
      putItems column false rest (putNode (column + 2) false (column + 1) n (out ++ "-"))
termination_by structural items => items

def putEntries (column : Nat) (first : Bool) : List (Node × Node) → String → String
  | [], out => out
  | (key, value) :: rest, out =>
      let out := if first then out else endLine out ++ spaces column
      let (text, simple) := keyText key column
      let out :=
        if simple then putNode (nextLevel column) true 0 value (out ++ text ++ ":")
        else
          putNode (nextLevel column) false (column + 1) value
            (endLine (out ++ "? " ++ text) ++ spaces column ++ ":")
      putEntries column false rest out
termination_by structural entries => entries

end

/-- Whether a text ends with line ends that only a mark can end. -/
def endsOpen : Node → Bool
  | .scalar info text =>
      formOf info.style (shortTag info.tag = "!!str") text ⟨false, false⟩ = .literal
        && (match text.toList.reverse with
          | c :: d :: _ => isBreak c && isBreak d
          | [c] => isBreak c
          | [] => false)
  | .sequence _ items => lastOpen items
  | .mapping _ entries => lastEntryOpen entries
  | _ => false
where
  /-- Whether the last item does. -/
  lastOpen : List Node → Bool
    | [] => false
    | [n] => endsOpen n
    | _ :: rest => lastOpen rest
  /-- Whether the last value does. -/
  lastEntryOpen : List (Node × Node) → Bool
    | [] => false
    | [(_, n)] => endsOpen n
    | _ :: rest => lastEntryOpen rest

def write (n : Node) : String :=
  let body := match n with
    | .scalar info text =>
        scalarText info.style (shortTag info.tag = "!!str") text ⟨false, false⟩ indentation
    | .mapping _ [] => "\x7b\x7d"
    | .sequence _ [] => "[]"
    | .mapping _ entries => putEntries 0 true entries ""
    | .sequence _ items => putItems 0 true items ""
    | _ => ""
  endLine body ++ (if endsOpen n then "...\n" else "")

end DocShape.Yaml
