import DocShape.Yaml.ScalarText
import DocShape.Yaml.Tag

/-!
# The tokens of a text

A text is cut into tokens from its start, as they are asked for.  Block
collections are recognised by the column they start in, and a simple key by the
colon after it: its token is put before the tokens already found.
-/

namespace DocShape.Yaml

/-- A place where a simple key may have started: the number of the token it would
come before, and where that stands. -/
structure KeyPlace where
  required : Bool
  token : Nat
  line : Nat
  column : Nat
  index : Nat

/-- The state of the cutting: the place, the tokens found and not yet taken, the
number of those taken, the margins of the block collections around the place,
whether a simple key may start, and for each level of brackets where one may
have started. -/
structure Scan where
  cursor : Cursor
  /-- More than the characters of the text. -/
  size : Nat
  waiting : List Token
  taken : Nat
  margin : Nat
  margins : List Nat
  keyAllowed : Bool
  keyPlace : Option KeyPlace
  outerKeys : List (Option KeyPlace)

namespace Scan

def start (s : Source) : Scan :=
  { cursor := .start s
    size := s.text.length + 8
    waiting := []
    taken := 0
    margin := 0
    margins := []
    keyAllowed := true
    keyPlace := none
    outerKeys := [] }

/-- Levels of nesting that a text may have. -/
def maxLevels : Nat := 10000

def inFlow (s : Scan) : Bool :=
  !s.outerKeys.isEmpty

def nextToken (s : Scan) : Nat :=
  s.taken + s.waiting.length

def emitAt (s : Scan) (line : Nat) (kind : TokenKind) : Scan :=
  { s with waiting := s.waiting ++ [⟨kind, line⟩] }

def emit (s : Scan) (kind : TokenKind) : Scan :=
  s.emitAt s.cursor.line kind

def insert (s : Scan) (token line : Nat) (kind : TokenKind) : Scan :=
  { s with waiting := s.waiting.insertIdx (token - s.taken) ⟨kind, line⟩ }

def take (s : Scan) (kind : TokenKind) (width : Nat) : Scan :=
  { s.emit kind with cursor := s.cursor.advance width }

/-- A block collection of the given kind in a column, if none is open there; its
token comes before the token numbered. -/
def openBlock (s : Scan) (column token line : Nat) (kind : TokenKind) : Attempt Scan :=
  if s.inFlow || column < s.margin then return s
  else if s.margins.length ≥ maxLevels then s.cursor.stop line (.tooDeep maxLevels)
  else
    return { s.insert token line kind with margin := column + 1, margins := s.margin :: s.margins }

/-- A block collection of the given kind at the place. -/
def openHere (s : Scan) (kind : TokenKind) : Attempt Scan :=
  s.openBlock s.cursor.column s.nextToken s.cursor.line kind

/-- Closes the block collections whose margin is above `limit`, the innermost
first, on a line. -/
def closeAbove (limit line : Nat) : List Nat → Scan → Scan
  | [], s => s
  | outer :: margins, s =>
      if limit < s.margin then
        closeAbove limit line margins
          { s.emitAt line .blockEnd with margin := outer, margins := margins }
      else s

/-- Closes the block collections that start after the column, on a line. -/
def closeBlocks (s : Scan) (column line : Nat) : Scan :=
  if s.inFlow then s else closeAbove (column + 1) line s.margins s

def closeAllBlocks (s : Scan) : Scan :=
  if s.inFlow then s else closeAbove 0 s.cursor.line s.margins s

/-- Forgets where a simple key may have started, unless one had to. -/
def dropKey (s : Scan) : Attempt Scan :=
  match s.keyPlace with
  | some k =>
      if k.required then s.cursor.stop k.line .noColon else return { s with keyPlace := none }
  | none => return s

/-- Marks the place as one where a simple key may start. -/
def saveKey (s : Scan) : Attempt Scan := do
  if s.keyAllowed then
    let cur := s.cursor
    let required := !s.inFlow && s.margin = cur.column + 1
    let s ← s.dropKey
    return { s with keyPlace := some ⟨required, s.nextToken, cur.line, cur.column, cur.index⟩ }
  else return s

/-- The place where a simple key started, if it is on the same line and near.  One
that had to be a key may not be left behind. -/
def liveKey (s : Scan) : Option KeyPlace → Attempt (Option KeyPlace)
  | none => return none
  | some k =>
      if k.line < s.cursor.line || k.index + 1024 < s.cursor.index then
        (if k.required then s.cursor.stop k.line .noColon else return none)
      else return some k

def skipBlanks : (fuel : Nat) → Scan → Attempt Scan
  | 0, s => return s
  | fuel + 1, s => do
      let cur ← s.cursor.see 1
      let cur := if cur.column = 0 && cur.marked then cur.advance 1 else cur
      let tabs := s.inFlow || !s.keyAllowed
      let cur ← cur.skipWhile fun c => c = ' ' || (tabs && c = '\t')
      let cur ← if cur.nextIs '#' then cur.skipComments fuel else pure cur
      match cur.rest with
      | c :: _ =>
          if isBreak c then
            let (_, cur) ← cur.takeBreak
            skipBlanks fuel { s with cursor := cur, keyAllowed := s.keyAllowed || !s.inFlow }
          else return { s with cursor := cur }
      | [] => return { s with cursor := cur }

def endText (s : Scan) : Attempt Scan := do
  let cur := s.cursor
  let cur := if cur.column = 0 then cur else { cur with column := 0, line := cur.line + 1 }
  let s := { s with cursor := cur }
  let s ← s.closeAllBlocks.dropKey
  return { s.emit .streamEnd with keyAllowed := false }

def documentMark (s : Scan) (kind : TokenKind) : Attempt Scan := do
  let s ← s.closeAllBlocks.dropKey
  return { s.take kind 3 with keyAllowed := false }

def takeDirective (s : Scan) : Attempt Scan := do
  let s ← s.closeAllBlocks.dropKey
  let (kind, cur) ← directive s.size (s.cursor.advance 1)
  return { s.emit kind with cursor := cur, keyAllowed := false }

def openFlow (s : Scan) (kind : TokenKind) : Attempt Scan := do
  let s ← s.saveKey
  if s.outerKeys.length ≥ maxLevels then s.cursor.stop s.cursor.line (.tooDeep maxLevels)
  else
    let s := s.take kind 1
    return { s with outerKeys := s.keyPlace :: s.outerKeys, keyPlace := none, keyAllowed := true }

def closeFlow (s : Scan) (kind : TokenKind) : Attempt Scan := do
  let s ← s.dropKey
  let s := { s.take kind 1 with keyAllowed := false }
  match s.outerKeys with
  | k :: outer => return { s with keyPlace := k, outerKeys := outer }
  | [] => return s

def flowEntry (s : Scan) : Attempt Scan := do
  let s ← s.dropKey
  return { s.take .flowEntry 1 with keyAllowed := true }

def blockEntry (s : Scan) : Attempt Scan := do
  if !s.inFlow && !s.keyAllowed then s.cursor.stop s.cursor.line .misplacedEntry
  else
    let s ← (← s.openHere .blockSequenceStart).dropKey
    return { s.take .blockEntry 1 with keyAllowed := true }

def explicitKey (s : Scan) : Attempt Scan := do
  if !s.inFlow && !s.keyAllowed then s.cursor.stop s.cursor.line .misplacedKey
  else
    let s ← (← s.openHere .blockMappingStart).dropKey
    return { s.take .key 1 with keyAllowed := !s.inFlow }

def value (s : Scan) : Attempt Scan := do
  match ← s.liveKey s.keyPlace with
  | some k =>
      let s := s.insert k.token k.line .key
      let s ← s.openBlock k.column k.token k.line .blockMappingStart
      return { s.take .value 1 with keyPlace := none, keyAllowed := false }
  | none =>
      let s := { s with keyPlace := none }
      if s.inFlow then return { s.take .value 1 with keyAllowed := false }
      else if !s.keyAllowed then s.cursor.stop s.cursor.line .misplacedValue
      else return { (← s.openHere .blockMappingStart).take .value 1 with keyAllowed := true }

def named (s : Scan) (kind : String → TokenKind) : Attempt Scan := do
  let s ← s.saveKey
  let (name, cur) ← anchorName (s.cursor.advance 1)
  return { s.emit (kind name) with cursor := cur, keyAllowed := false }

def takeTag (s : Scan) : Attempt Scan := do
  let s ← s.saveKey
  let (kind, cur) ← tag s.size s.cursor
  return { s.emit kind with cursor := cur, keyAllowed := false }

def blockScalar (s : Scan) (folded : Bool) : Attempt Scan := do
  let s ← s.dropKey
  let (text, cur) ← blockText s.cursor.line folded s.margin s.size (s.cursor.advance 1)
  return { s.emit (.scalar text false) with cursor := cur, keyAllowed := true }

def quotedScalar (s : Scan) (single : Bool) : Attempt Scan := do
  let s ← s.saveKey
  let start := s.cursor.line
  let inner ← (s.cursor.advance 1).see 4
  let (text, cur) ←
    if single then singleQuoted start s.size .empty inner
    else doubleQuoted start s.size .empty inner
  return { s.emit (.scalar text false) with cursor := cur, keyAllowed := false }

def plainScalar (s : Scan) : Attempt Scan := do
  let s ← s.saveKey
  let (text, broken, cur) ←
    plainText s.cursor.line s.inFlow s.margin s.size .empty s.cursor
  return { s.emit (.scalar text true) with cursor := cur, keyAllowed := broken }

/-- Whether a character cannot start a plain scalar by itself. -/
def isIndicator (c : Char) : Bool :=
  ['-', '?', ':', ',', '[', ']', '\x7b', '\x7d', '#', '&', '*', '!', '|', '>', '\'', '"', '%', '@',
    '\x60'].contains c

/-- The token that a character starts inside a document. -/
def content (s : Scan) (c : Char) : Attempt Scan :=
  let blankNext := s.cursor.blankAt 1
  if c = '[' then s.openFlow .flowSequenceStart
  else if c = '\x7b' then s.openFlow .flowMappingStart
  else if c = ']' then s.closeFlow .flowSequenceEnd
  else if c = '\x7d' then s.closeFlow .flowMappingEnd
  else if c = ',' then s.flowEntry
  else if c = '-' && blankNext then s.blockEntry
  else if c = '?' && (s.inFlow || blankNext) then s.explicitKey
  else if c = ':' && (s.inFlow || blankNext) then s.value
  else if c = '*' then s.named .reference
  else if c = '&' then s.named .anchor
  else if c = '!' then s.takeTag
  else if c = '|' && !s.inFlow then s.blockScalar false
  else if c = '>' && !s.inFlow then s.blockScalar true
  else if c = '\'' then s.quotedScalar true
  else if c = '"' then s.quotedScalar false
  else if (!isSpace c && !isIndicator c) || c = '-' || (!s.inFlow && (c = '?' || c = ':')) then
    s.plainScalar
  else s.cursor.stop s.cursor.line .noToken

/-- Passes over a comment after the last token.  That after a dash belongs to what
follows. -/
def endToken (s : Scan) : Attempt Scan := do
  match s.waiting.getLast? with
  | some ⟨.blockEntry, _⟩ => return s
  | _ => return { s with cursor := ← s.cursor.trailingComment }

def step (s : Scan) : Attempt Scan := do
  let line := s.cursor.line
  let s ← skipBlanks s.size s
  let s := s.closeBlocks s.cursor.column line
  let cur ← s.cursor.see 4
  let s := { s with cursor := cur }
  match cur.rest with
  | [] => s.endText
  | c :: _ =>
      if cur.column = 0 && c = '%' then s.takeDirective
      else if cur.atDocumentMark then
        s.documentMark (if c = '-' then .documentStart else .documentEnd)
      else (← s.content c).endToken

/-- Whether the first waiting token may be taken: two more have been found, and no
key can come before it any more. -/
def isReady (s : Scan) : Attempt Bool := do
  if s.waiting.length ≤ 2 then return false
  else
    match (s.keyPlace :: s.outerKeys).find? fun k => k.any fun k => k.token ≤ s.taken with
    | some (some k) =>
        if k.token = s.taken then return (← s.liveKey (some k)).isNone else return true
    | _ => return true

def fetch : (fuel : Nat) → Scan → Attempt Scan
  | 0, s => return s
  | fuel + 1, s => do
      if ← s.isReady then return s else fetch fuel (← s.step)

def drop (s : Scan) : Scan :=
  { s with waiting := s.waiting.drop 1, taken := s.taken + 1 }

end Scan

end DocShape.Yaml
