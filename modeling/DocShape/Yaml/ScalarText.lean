import DocShape.Text.Digits
import DocShape.Yaml.Cursor

/-!
# Texts of scalars

Plain, quoted and block scalars as they stand in a text, with their lines
folded.
-/

namespace DocShape.Yaml

/-- A text being folded: what it holds so far, last character first, and the
blanks that were seen since. -/
structure Folding where
  done : List Char
  spaces : List Char
  broken : Bool
  first : Option Char
  more : List Char

namespace Folding

def empty : Folding := ⟨[], [], false, none, []⟩

/-- After one more space; those that start a line are dropped. -/
def space (f : Folding) (c : Char) : Folding :=
  if f.broken then f else { f with spaces := c :: f.spaces }

/-- After one more line end; spaces before the first are dropped. -/
def lineEnd (f : Folding) (c : List Char) : Folding :=
  if f.broken then { f with more := c.reverse ++ f.more }
  else { f with spaces := [], broken := true, first := c.head? }

/-- With the blanks taken in: one line end is a space, more of them are one fewer. -/
def join (f : Folding) : Folding :=
  if f.broken then
    let text := match f.first, f.more with
      | some '\n', [] => [' ']
      | some '\n', more => more
      | first, more => more ++ first.toList
    ⟨text ++ f.done, [], false, none, []⟩
  else ⟨f.spaces ++ f.done, [], false, none, []⟩

def push (f : Folding) (c : Char) : Folding :=
  let f := f.join
  { f with done := c :: f.done }

/-- Whether blanks were seen since the last character. -/
def isOpen (f : Folding) : Bool :=
  f.broken || !f.spaces.isEmpty

def text (f : Folding) : String :=
  String.ofList f.done.reverse

end Folding

/-- Whether a character ends a plain scalar inside brackets. -/
def endsFlowPlain (c : Char) : Bool :=
  c = ',' || c = '?' || c = '[' || c = ']' || c = '\x7b' || c = '\x7d'

def Cursor.stop {α : Type} (c : Cursor) (start : Nat) (problem : Problem) : Attempt α :=
  .error (.inToken start c.line problem)

/-- A plain scalar that starts on a line: its text, whether a line end follows it,
and the place after it.  A line of it starts at the margin at least, unless it
stands inside brackets. -/
def plainText (start : Nat) (inFlow : Bool) (margin : Nat) : (fuel : Nat) → Folding → Cursor →
    Attempt (String × Bool × Cursor)
  | 0, f, cur => return (f.text, f.broken, cur)
  | fuel + 1, f, cur =>
      match cur.rest with
      | [] => return (f.text, f.broken, cur)
      | c :: _ => do
          if isSpace c then
            if f.broken && cur.column < margin && c = '\t' then cur.stop start .tabInPlain
            else plainText start inFlow margin fuel (f.space c) (← cur.next)
          else if isBreak c then
            let (ended, next) ← cur.takeBreak
            plainText start inFlow margin fuel (f.lineEnd ended) (← next.see 1)
          else if f.isOpen && !inFlow && cur.column < margin then return (f.text, f.broken, cur)
          else
            let cur ← cur.see (if f.isOpen then 4 else 1)
            if f.isOpen && (cur.atDocumentMark || c = '#') then return (f.text, f.broken, cur)
            else if (c = ':' && cur.blankAt 1) || (inFlow && endsFlowPlain c) then
              return (f.text, f.broken, cur)
            else plainText start inFlow margin fuel (f.push c) (← (cur.advance 1).see 2)

/-- A text between single quotes, from after the first of them, which stands on a
line. -/
def singleQuoted (start : Nat) : (fuel : Nat) → Folding → Cursor → Attempt (String × Cursor)
  | 0, _, cur => cur.stop start .endOfText
  | fuel + 1, f, cur =>
      match cur.rest with
      | [] => cur.stop start .endOfText
      | c :: rest => do
          if isSpace c then singleQuoted start fuel (f.space c) (← cur.next)
          else if isBreak c then
            let (ended, next) ← cur.takeBreak
            singleQuoted start fuel (f.lineEnd ended) (← next.see 1)
          else
            let cur ← cur.see (if f.isOpen then 4 else 1)
            if cur.atDocumentMark then cur.stop start .documentMark
            else if c = '\'' then
              if rest.head? = some '\'' then
                singleQuoted start fuel (f.push c) (← (cur.advance 2).see 2)
              else return (f.join.text, cur.advance 1)
            else singleQuoted start fuel (f.push c) (← (cur.advance 1).see 2)

def escapedChar? : Char → Option Char
  | '0' => some '\x00'
  | 'a' => some '\x07'
  | 'b' => some '\x08'
  | 't' => some '\t'
  | '\t' => some '\t'
  | 'n' => some '\n'
  | 'v' => some '\x0b'
  | 'f' => some '\x0c'
  | 'r' => some '\r'
  | 'e' => some '\x1b'
  | ' ' => some ' '
  | '"' => some '"'
  | '\'' => some '\''
  | '\\' => some '\\'
  | 'N' => some (Char.ofNat 0x85)
  | '_' => some (Char.ofNat 0xa0)
  | 'L' => some (Char.ofNat 0x2028)
  | 'P' => some (Char.ofNat 0x2029)
  | _ => none

/-- How many digits follow the letter of an escape by number. -/
def escapeDigits? : Char → Option Nat
  | 'x' => some 2
  | 'u' => some 4
  | 'U' => some 8
  | _ => none

def numberedChar (digits : List Char) (count : Nat) : Except Problem Char :=
  if digits.length < count then .error .noHexNumber
  else
    match Text.hexNumber? digits with
    | some n =>
        if (0xd800 ≤ n && n ≤ 0xdfff) || n > 0x10ffff then .error .noEscapedCharacter
        else .ok (Char.ofNat n)
    | none => .error .noHexNumber

/-- The character of the escape at the place, which is at a backslash, and the place
after it. -/
def escape (start : Nat) (cur : Cursor) : Attempt (Char × Cursor) := do
  let letter := (cur.rest.drop 1).head?.getD '\x00'
  match escapeDigits? letter, escapedChar? letter with
  | some count, _ =>
      let cur ← (cur.advance 2).see count
      match numberedChar (cur.rest.take count) count with
      | .ok c => return (c, cur.advance count)
      | .error problem => cur.stop start problem
  | none, some c => return (c, cur.advance 2)
  | none, none => cur.stop start .unknownEscape

/-- A text between double quotes, from after the first of them, which stands on a
line. -/
def doubleQuoted (start : Nat) : (fuel : Nat) → Folding → Cursor → Attempt (String × Cursor)
  | 0, _, cur => cur.stop start .endOfText
  | fuel + 1, f, cur =>
      match cur.rest with
      | [] => cur.stop start .endOfText
      | c :: rest => do
          if isSpace c then doubleQuoted start fuel (f.space c) (← cur.next)
          else if isBreak c then
            let (ended, next) ← cur.takeBreak
            doubleQuoted start fuel (f.lineEnd ended) (← next.see 1)
          else
            let cur ← cur.see (if f.isOpen then 4 else 1)
            if cur.atDocumentMark then cur.stop start .documentMark
            else if c = '"' then return (f.join.text, cur.advance 1)
            else if c = '\\' then
              if rest.head?.any isBreak then
                let cur ← cur.see 3
                doubleQuoted start fuel { f.join with broken := true }
                  (← (cur.advance 1).readBreak.2.see 1)
              else
                let (e, next) ← escape start cur
                doubleQuoted start fuel (f.push e) (← next.see 2)
            else doubleQuoted start fuel (f.push c) (← (cur.advance 1).see 2)

/-- What becomes of the line ends after a block scalar. -/
inductive Chomping where
  | clip
  | strip
  | keep
  deriving DecidableEq

def chomping? (c : Char) : Option Chomping :=
  if c = '+' then some .keep else if c = '-' then some .strip else none

def digit? (c : Char) : Option Nat :=
  if '0' ≤ c && c ≤ '9' then some (c.toNat - 0x30) else none

/-- What the next character means, if anything, and the place after it. -/
def mark {α : Type} (meaning : Char → Option α) (cur : Cursor) : Attempt (Option α × Cursor) := do
  let cur ← cur.see 1
  match cur.rest.head?.bind meaning with
  | some a => return (some a, cur.advance 1)
  | none => return (none, cur)

/-- The header of a block scalar: the chomping, the indentation if it is given,
and the place after both. -/
def blockHeader (start : Nat) (cur : Cursor) : Attempt (Chomping × Nat × Cursor) := do
  let (first, cur) ← mark chomping? cur
  let (indent, cur) ← mark digit? cur
  if indent = some 0 then cur.stop start .zeroIndentation
  else
    let (last, cur) ← if first.isNone && indent.isSome then mark chomping? cur else pure (none, cur)
    return ((first <|> last).getD .clip, indent.getD 0, cur)

/-- The place after the spaces that stand before a column, or after all of them
if the column is zero. -/
def skipIndent (column : Nat) : List Char → Cursor → Attempt Cursor
  | ' ' :: rest, cur => do
      if column = 0 || cur.column < column then skipIndent column rest (← cur.next) else return cur
  | _, cur => return cur

/-- The empty lines at a place, down to the indentation of the next line: their
line ends, the widest indentation seen, and the place after them.  An
indentation of zero is yet to be found out. -/
def emptyLines (start indent : Nat) : (fuel : Nat) → (widest : Nat) → List Char → Cursor →
    Attempt (List Char × Nat × Cursor)
  | 0, widest, ends, cur => return (ends, widest, cur)
  | fuel + 1, widest, ends, cur => do
      let cur ← cur.see 1
      let cur ← skipIndent indent cur.rest cur
      let widest := max widest cur.column
      match cur.rest with
      | [] => return (ends, widest, cur)
      | c :: _ =>
          if (indent = 0 || cur.column < indent) && c = '\t' then cur.stop start .tabIndentation
          else if isBreak c then
            let (ended, next) ← cur.takeBreak
            emptyLines start indent fuel widest (ends ++ ended) next
          else return (ends, widest, cur)

/-- A block scalar being read: its text, last character first, the line end of
its last line, the empty lines after that, and whether the last line starts
with a blank. -/
structure Block where
  done : List Char
  ended : List Char
  empty : List Char
  indented : Bool

/-- The lines of a block scalar at the indentation.  Where lines are folded, one
line end between two lines that start with no blank is a space. -/
def blockLines (start : Nat) (folded : Bool) (indent : Nat) : (fuel : Nat) → Block → Cursor →
    Attempt (Block × Cursor)
  | 0, b, cur => return (b, cur)
  | fuel + 1, b, cur =>
      match cur.rest with
      | [] => return (b, cur)
      | c :: _ => do
          if cur.column ≠ indent then return (b, cur)
          else
            let between :=
              if folded && !b.indented && !isSpace c && b.ended = ['\n'] then
                (if b.empty.isEmpty then [' '] else [])
              else b.ended
            let (line, next) ← cur.span fun c => !isBreak c
            let (ended, next) ← next.takeBreak
            let (empty, _, next) ← emptyLines start indent fuel 0 [] next
            let done := line.reverse ++ b.empty.reverse ++ between.reverse ++ b.done
            blockLines start folded indent fuel ⟨done, ended, empty, isSpace c⟩ next

/-- A block scalar, from after its mark, which stands on a line. -/
def blockText (start : Nat) (folded : Bool) (margin fuel : Nat) (cur : Cursor) :
    Attempt (String × Cursor) := do
  let (chomping, increment, cur) ← blockHeader start cur
  let cur ← cur.skipWhile isSpace
  let cur ← if cur.nextIs '#' then cur.skipLine else pure cur
  if !cur.atLineEnd then cur.stop start .lineEnd
  else
    let (_, cur) ← cur.takeBreak
    let given := if increment = 0 then 0 else margin - 1 + increment
    let (empty, widest, cur) ← emptyLines start given fuel 0 [] cur
    let indent := if given = 0 then max (max widest margin) 1 else given
    let (b, cur) ← blockLines start folded indent fuel ⟨[], [], empty, false⟩ cur
    let tail := match chomping with
      | .strip => []
      | .clip => b.ended
      | .keep => b.ended ++ b.empty
    return (String.ofList (b.done.reverse ++ tail), cur)

end DocShape.Yaml
