import DocShape.Yaml.Source

/-!
# Cursors

A place in a source.  The characters after it come into view as they are asked
for, a whole piece at a time.
-/

namespace DocShape.Yaml

/-- A place in a source: what is left of the text, and how many characters and
lines lie before. -/
structure Cursor where
  rest : List Char
  index : Nat
  line : Nat
  column : Nat
  /-- The line ends passed since the last character that is no space. -/
  breaks : Nat
  /-- How many characters are in view. -/
  view : Nat
  /-- The sizes of the pieces not yet in view. -/
  pieces : List Nat
  /-- What is wrong with a spoilt piece that follows them. -/
  spoilt : Option Problem
  /-- Whether the view began with a byte order mark when it was last widened. -/
  marked : Bool

namespace Cursor

def start (s : Source) : Cursor :=
  { rest := s.text
    index := 0
    line := 0
    column := 0
    breaks := 0
    view := 0
    pieces := s.pieces
    spoilt := s.spoilt
    marked := false }

/-- Takes pieces into view until there are `count` characters or the text ends. -/
def widen (count : Nat) : List Nat → Cursor → Attempt Cursor
  | [], c =>
      match c.spoilt with
      | some why => .error ⟨why, 0⟩
      | none => .ok { c with view := c.view + 1, pieces := [] }
  | size :: more, c =>
      let c := { c with view := c.view + size, pieces := more }
      if count ≤ c.view then .ok c else widen count more c

/-- The place with `count` characters in view, the end of the text counting as
one; none can be had of a spoilt piece. -/
def see (c : Cursor) (count : Nat) : Attempt Cursor :=
  if count ≤ c.view then .ok c
  else widen count c.pieces { c with marked := c.rest.head? = some byteOrderMark }

def startsWith (c : Cursor) (word : List Char) : Bool :=
  word.isPrefixOf c.rest

def nextIs (c : Cursor) (d : Char) : Bool :=
  c.rest.head? = some d

/-- Whether a space, a line end or the end of the text stands at a distance. -/
def blankAt (c : Cursor) (distance : Nat) : Bool :=
  match c.rest.drop distance with
  | [] => true
  | d :: _ => isSpace d || isBreak d

def atLineEnd (c : Cursor) : Bool :=
  match c.rest with
  | [] => true
  | d :: _ => isBreak d

/-- The place some characters on, on the same line. -/
def advance (c : Cursor) (count : Nat) : Cursor :=
  { c with
    rest := c.rest.drop count
    index := c.index + count
    column := c.column + count
    breaks := if (c.rest.take count).all isSpace then c.breaks else 0
    view := c.view - count }

/-- The place after the next character, with one more in view. -/
def next (c : Cursor) : Attempt Cursor :=
  (c.advance 1).see 1

/-- The character that stands for the line end at the place, and the place after
it. -/
def readBreak (c : Cursor) : List Char × Cursor :=
  let next (count : Nat) : Cursor :=
    { c with
      rest := c.rest.drop count
      index := c.index + count
      line := c.line + 1
      column := 0
      breaks := c.breaks + 1
      view := c.view - count }
  match c.rest with
  | '\r' :: '\n' :: _ => (['\n'], next 2)
  | d :: _ =>
      if d = '\r' || d = '\n' || d.toNat = 0x85 then (['\n'], next 1)
      else if isBreak d then ([d], next 1)
      else ([], c)
  | [] => ([], c)

/-- Like `readBreak`, with the line end in view. -/
def takeBreak (c : Cursor) : Attempt (List Char × Cursor) := do
  return (← c.see 2).readBreak

/-- Whether a line at the place starts or ends a document. -/
def atDocumentMark (c : Cursor) : Bool :=
  c.column = 0 && (c.startsWith ['-', '-', '-'] || c.startsWith ['.', '.', '.']) && c.blankAt 3

/-- Passes over the characters of the list that satisfy the test, which are those
at the place, and collects them, the last first. -/
def spanFrom (test : Char → Bool) : List Char → List Char → Cursor → Attempt (List Char × Cursor)
  | [], found, c => return (found, c)
  | d :: rest, found, c => do
      if test d then spanFrom test rest (d :: found) (← c.next) else return (found, c)

/-- The characters up to one that fails the test, and the place of that one. -/
def span (c : Cursor) (test : Char → Bool) : Attempt (List Char × Cursor) := do
  let c ← c.see 1
  let (found, c) ← spanFrom test c.rest [] c
  return (found.reverse, c)

/-- The place after the characters that satisfy the test. -/
def skipWhile (c : Cursor) (test : Char → Bool) : Attempt Cursor := do
  return (← c.span test).2

def skipLine (c : Cursor) : Attempt Cursor :=
  c.skipWhile fun d => !isBreak d

/-- The comment that starts within a distance after spaces only: the place at the
end of its line, or the given one if there is none. -/
def commentAfter : (distance : Nat) → (seen : Nat) → Cursor → Attempt Cursor
  | 0, _, c => return c
  | distance + 1, seen, c => do
      let c ← c.see (seen + 1)
      match c.rest.drop seen with
      | d :: _ =>
          if isSpace d then commentAfter distance (seen + 1) c
          else if d = '#' then c.skipLine
          else return c
      | [] => return c

def commentReach : Nat := 512

/-- Passes over a comment after a token on the same line. -/
def trailingComment (c : Cursor) : Attempt Cursor :=
  if c.breaks > 0 then return c else commentAfter commentReach 0 c

/-- How far away the next comment is, if only spaces and line ends stand before
it. -/
def nextComment : (distance : Nat) → (seen : Nat) → Cursor → Attempt (Option Nat × Cursor)
  | 0, _, c => return (none, c)
  | distance + 1, seen, c => do
      let c ← c.see (seen + 1)
      match c.rest.drop seen with
      | d :: _ =>
          if isSpace d || d = '\n' || d = '\r' then nextComment distance (seen + 1) c
          else if d = '#' then return (some seen, c)
          else return (none, c)
      | [] => return (none, c)

/-- The place with the index, on the lines after. -/
def reach (index : Nat) : (fuel : Nat) → Cursor → Attempt Cursor
  | 0, c => return c
  | fuel + 1, c => do
      let c ← c.see 1
      if index ≤ c.index then return c
      else if c.atLineEnd then reach index fuel (← c.takeBreak).2
      else reach index fuel (c.advance 1)

/-- Passes over a comment and those on the lines after it, which may have spaces
and empty lines between them. -/
def skipComments : (fuel : Nat) → Cursor → Attempt Cursor
  | 0, c => return c
  | fuel + 1, c => do
      let c ← c.skipLine
      match c.rest with
      | d :: _ =>
          if d = '\n' || d = '\r' then
            let (found, c) ← nextComment (commentReach - 1) 1 c
            match found with
            | some seen => skipComments fuel (← reach (c.index + seen) (seen + 1) c)
            | none => return c
          else c.see 2
      | [] => c.see 2

end Cursor

end DocShape.Yaml
