import DocShape.Yaml.ScalarText

/-!
# Tokens, tags and directives

The tokens of a YAML text, and the tags, anchors and directives before a document
as they stand in it.
-/

namespace DocShape.Yaml

/-! ## Tokens -/

inductive TokenKind where
  | streamEnd
  | versionDirective (major minor : Nat)
  | tagDirective (handle start : String)
  | documentStart
  | documentEnd
  | blockSequenceStart
  | blockMappingStart
  | blockEnd
  | flowSequenceStart
  | flowSequenceEnd
  | flowMappingStart
  | flowMappingEnd
  | blockEntry
  | flowEntry
  | key
  | value
  | reference (name : String)
  | anchor (name : String)
  | tag (handle suffix : String)
  | scalar (text : String) (plain : Bool)
  deriving DecidableEq

structure Token where
  kind : TokenKind
  line : Nat

/-! ## Names and tags -/

def isNameChar (c : Char) : Bool :=
  c.isAlphanum || c = '_' || c = '-'

def isTagChar (c : Char) : Bool :=
  isNameChar c || [';', '/', '?', ':', '@', '&', '=', '+', '$', ',', '.', '!', '~', '*', '\'', '(',
    ')', '[', ']', '%'].contains c

/-- The byte of an escape at the place, in a tag that starts on a line, and the place
after it. -/
def escapedByte (start : Nat) (cur : Cursor) : Attempt (UInt8 × Cursor) := do
  let cur ← cur.see 3
  match cur.rest with
  | '%' :: a :: b :: _ =>
      match Text.hexValue? a, Text.hexValue? b with
      | some high, some low => return (UInt8.ofNat (16 * high + low), cur.advance 3)
      | _, _ => cur.stop start .noTagOctet
  | _ => cur.stop start .noTagOctet

def trailingBytes (start : Nat) : (count : Nat) → Cursor → Attempt (List UInt8 × Cursor)
  | 0, cur => return ([], cur)
  | count + 1, cur => do
      let (b, next) ← escapedByte start cur
      if b.toNat / 64 ≠ 2 then cur.stop start .tagTrailingOctet
      else
        let (rest, next) ← trailingBytes start count next
        return (b :: rest, next)

/-- The character that escaped bytes write; one that could be shorter is replaced. -/
def escapedTagChar (start : Nat) (cur : Cursor) : Attempt (Char × Cursor) := do
  let (b, next) ← escapedByte start cur
  match Bytes.charWidth? b with
  | none => cur.stop start .tagLeadingOctet
  | some width =>
      let (rest, next) ← trailingBytes start (width - 1) next
      match Bytes.readChar? (b :: rest) with
      | some (c, _) => return (c, next)
      | none => return (Char.ofNat 0xfffd, next)

/-- The characters of a tag at the place, the last first, with escapes read. -/
def tagChars (start : Nat) : (fuel : Nat) → List Char → Cursor → Attempt (List Char × Cursor)
  | 0, found, cur => return (found, cur)
  | fuel + 1, found, cur => do
      let cur ← cur.see 1
      match cur.rest with
      | c :: _ =>
          if c = '%' then
            let (c, cur) ← escapedTagChar start cur
            tagChars start fuel (c :: found) cur
          else if isTagChar c then tagChars start fuel (c :: found) (cur.advance 1)
          else return (found, cur)
      | [] => return (found, cur)

/-- What a tag says at the place; it has to say something. -/
def tagText (start fuel : Nat) (cur : Cursor) : Attempt (String × Cursor) := do
  let (found, cur) ← tagChars start fuel [] cur
  if found.isEmpty then cur.stop start .noTag else return (String.ofList found.reverse, cur)

/-- A handle at the place: an exclamation mark and a name, and whether a second mark
follows. -/
def tagHandle (start : Nat) (cur : Cursor) : Attempt (List Char × Bool × Cursor) := do
  let cur ← cur.see 1
  if !cur.nextIs '!' then cur.stop start .noTagMark
  else
    let (name, cur) ← (cur.advance 1).span isNameChar
    if cur.nextIs '!' then return (name, true, cur.advance 1) else return (name, false, cur)

/-- A tag at the place, without a look at what follows. -/
def openTag (fuel : Nat) (cur : Cursor) : Attempt (TokenKind × Cursor) := do
  let start := cur.line
  let cur ← cur.see 2
  if cur.startsWith ['!', '<'] then
    let (text, cur) ← tagText start fuel (cur.advance 2)
    if cur.nextIs '>' then return (.tag "" text, cur.advance 1) else cur.stop start .openTag
  else
    let (name, closed, cur) ← tagHandle start cur
    if closed then
      let (suffix, cur) ← tagText start fuel cur
      return (.tag ("!" ++ String.ofList name ++ "!") suffix, cur)
    else
      let (found, cur) ← tagChars start fuel name.reverse cur
      if found.isEmpty then return (.tag "" "!", cur)
      else return (.tag "!" (String.ofList found.reverse), cur)

def tag (fuel : Nat) (cur : Cursor) : Attempt (TokenKind × Cursor) := do
  let (kind, next) ← openTag fuel cur
  let next ← next.see 1
  if next.blankAt 0 then return (kind, next) else next.stop cur.line .tagEnd

def anchorName (cur : Cursor) : Attempt (String × Cursor) := do
  let (name, cur) ← cur.span isNameChar
  let ends := cur.blankAt 0
    || cur.rest.head?.any (['?', ':', ',', ']', '\x7d', '%', '@', '\x60'].contains ·)
  if name.isEmpty || !ends then cur.stop cur.line .noName
  else return (String.ofList name, cur)

/-- A number of a version, of two digits at most. -/
def versionNumber (cur : Cursor) : Attempt (Nat × Cursor) := do
  let (digits, next) ← cur.span Char.isDigit
  if digits.isEmpty then next.stop next.line .noVersion
  else if digits.length > 2 then next.stop next.line .longVersion
  else return (digits.foldl (fun n c => n * 10 + (c.toNat - 0x30)) 0, next)

def versionDirective (cur : Cursor) : Attempt (TokenKind × Cursor) := do
  let (major, cur) ← versionNumber (← cur.skipWhile isSpace)
  if !cur.nextIs '.' then cur.stop cur.line .noVersionPoint
  else
    let (minor, cur) ← versionNumber (cur.advance 1)
    return (.versionDirective major minor, cur)

def tagDirective (fuel : Nat) (cur : Cursor) : Attempt (TokenKind × Cursor) := do
  let start := cur.line
  let (name, closed, cur) ← tagHandle start (← cur.skipWhile isSpace)
  if !closed && !name.isEmpty then cur.stop start .noTagMark
  else
    let cur ← cur.see 1
    if !cur.rest.head?.any isSpace then cur.stop start .noSpace
    else
      let (begin, cur) ← tagText start fuel (← cur.skipWhile isSpace)
      let cur ← cur.see 1
      if !cur.blankAt 0 then cur.stop start .tagEnd
      else
        let handle := "!" ++ String.ofList name ++ (if closed then "!" else "")
        return (.tagDirective handle begin, cur)

/-- A directive, from after its mark, with the rest of its line. -/
def directive (fuel : Nat) (cur : Cursor) : Attempt (TokenKind × Cursor) := do
  let start := cur.line
  let (name, cur) ← cur.span isNameChar
  if name.isEmpty then cur.stop start .noDirectiveName
  else if !cur.blankAt 0 then cur.stop start .directiveName
  else
    let (kind, cur) ←
      if name = ['Y', 'A', 'M', 'L'] then versionDirective cur
      else if name = ['T', 'A', 'G'] then tagDirective fuel cur
      else cur.stop start .unknownDirective
    let cur ← cur.skipWhile isSpace
    let cur ← if cur.nextIs '#' then cur.skipLine else pure cur
    if !cur.atLineEnd then cur.stop start .lineEnd
    else return (kind, (← cur.takeBreak).2)

end DocShape.Yaml
