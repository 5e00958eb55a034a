/-!
# Problems of texts

What keeps a text from being read as a document.
-/

namespace DocShape.Yaml

inductive Problem where
  /-- A byte that starts no character. -/
  | leadingOctet
  /-- A character cut off by the end of the text. -/
  | incompleteOctets
  /-- A byte that does not go on with a character. -/
  | trailingOctet
  /-- A character in more bytes than it needs. -/
  | longOctets
  /-- Bytes for a number that is no character. -/
  | noCharacter
  /-- Half a unit at the end of the text. -/
  | incompleteUnit
  /-- The second half of a pair without the first. -/
  | lowSurrogate
  /-- The first half of a pair at the end of the text. -/
  | incompletePair
  /-- The first half of a pair without the second. -/
  | noLowSurrogate
  | controlCharacter
  /-- A character with which no token starts. -/
  | noToken
  /-- A word that had to be a key. -/
  | noColon
  /-- Too many levels of nesting. -/
  | tooDeep (limit : Nat)
  | misplacedEntry
  | misplacedKey
  | misplacedValue
  /-- An anchor or an alias without a name. -/
  | noName
  | openTag
  /-- Something after a tag that does not belong to it. -/
  | tagEnd
  | noTagMark
  | noTag
  | noTagOctet
  | tagLeadingOctet
  | tagTrailingOctet
  | unknownDirective
  /-- Something after the head of a line that does not belong to it. -/
  | lineEnd
  | noDirectiveName
  | directiveName
  | noVersionPoint
  | longVersion
  | noVersion
  | noSpace
  | zeroIndentation
  | tabIndentation
  | tabInPlain
  /-- The start or the end of a document inside quotes. -/
  | documentMark
  | endOfText
  | unknownEscape
  | noHexNumber
  | noEscapedCharacter
  | noDocumentStart
  | twoVersions
  | wrongVersion
  | twoHandles
  | unknownHandle
  | noContent
  | noDash
  | noKey
  | openSequence
  | openMapping
  | unknownAnchor (name : String)
  deriving DecidableEq

def Problem.message : Problem → String
  | leadingOctet => "invalid leading UTF-8 octet"
  | incompleteOctets => "incomplete UTF-8 octet sequence"
  | trailingOctet => "invalid trailing UTF-8 octet"
  | longOctets => "invalid length of a UTF-8 sequence"
  | noCharacter => "invalid Unicode character"
  | incompleteUnit => "incomplete UTF-16 character"
  | lowSurrogate => "unexpected low surrogate area"
  | incompletePair => "incomplete UTF-16 surrogate pair"
  | noLowSurrogate => "expected low surrogate area"
  | controlCharacter => "control characters are not allowed"
  | noToken => "found character that cannot start any token"
  | noColon => "could not find expected ':'"
  | tooDeep limit => "exceeded max depth of " ++ toString limit
  | misplacedEntry => "block sequence entries are not allowed in this context"
  | misplacedKey => "mapping keys are not allowed in this context"
  | misplacedValue => "mapping values are not allowed in this context"
  | noName => "did not find expected alphabetic or numeric character"
  | openTag => "did not find the expected '>'"
  | tagEnd => "did not find expected whitespace or line break"
  | noTagMark => "did not find expected '!'"
  | noTag => "did not find expected tag URI"
  | noTagOctet => "did not find URI escaped octet"
  | tagLeadingOctet => "found an incorrect leading UTF-8 octet"
  | tagTrailingOctet => "found an incorrect trailing UTF-8 octet"
  | unknownDirective => "found unknown directive name"
  | lineEnd => "did not find expected comment or line break"
  | noDirectiveName => "could not find expected directive name"
  | directiveName => "found unexpected non-alphabetical character"
  | noVersionPoint => "did not find expected digit or '.' character"
  | longVersion => "found extremely long version number"
  | noVersion => "did not find expected version number"
  | noSpace => "did not find expected whitespace"
  | zeroIndentation => "found an indentation indicator equal to 0"
  | tabIndentation => "found a tab character where an indentation space is expected"
  | tabInPlain => "found a tab character that violates indentation"
  | documentMark => "found unexpected document indicator"
  | endOfText => "found unexpected end of stream"
  | unknownEscape => "found unknown escape character"
  | noHexNumber => "did not find expected hexdecimal number"
  | noEscapedCharacter => "found invalid Unicode character escape code"
  | noDocumentStart => "did not find expected <document start>"
  | twoVersions => "found duplicate %YAML directive"
  | wrongVersion => "found incompatible YAML document"
  | twoHandles => "found duplicate %TAG directive"
  | unknownHandle => "found undefined tag handle"
  | noContent => "did not find expected node content"
  | noDash => "did not find expected '-' indicator"
  | noKey => "did not find expected key"
  | openSequence => "did not find expected ',' or ']'"
  | openMapping => "did not find expected ',' or '\x7d'"
  | unknownAnchor name => "unknown anchor '" ++ name ++ "' referenced"

/-- A problem and the number of the line that is shown with it; the number zero is
not shown. -/
structure ReadError where
  problem : Problem
  line : Nat
  deriving DecidableEq

def ReadError.text (e : ReadError) : String :=
  "yaml: " ++ (if e.line = 0 then "" else "line " ++ toString e.line ++ ": ") ++ e.problem.message

abbrev Attempt := Except ReadError

namespace ReadError

/-- An error inside a token: the line where the token starts counts if it is not the
first, and else the line of the place. -/
def inToken (start line : Nat) (problem : Problem) : ReadError :=
  ⟨problem, if start ≠ 0 then start + 1 else if line ≠ 0 then line + 1 else 0⟩

/-- An error between tokens: the line before the one where the collection starts
counts if there is one, and else the line before that of the token. -/
def betweenTokens (start line : Nat) (problem : Problem) : ReadError :=
  ⟨problem, if start ≠ 0 then start else line⟩

end ReadError

end DocShape.Yaml
