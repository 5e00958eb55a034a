import DocShape.Bytes
import DocShape.Yaml.Problem

/-!
# Sources

A text as it is taken in, piece by piece of at most 512 bytes.  A piece that
holds what may not stand in a text spoils the source from its start on, which
shows only to a reader that gets there.
-/

namespace DocShape.Yaml

def isSpace (c : Char) : Bool :=
  c = ' ' || c = '\t'

def isBreak (c : Char) : Bool :=
  c = '\n' || c = '\r' || c.toNat = 0x85 || c.toNat = 0x2028 || c.toNat = 0x2029

inductive Encoding where
  | utf8
  | utf16 (littleEndian : Bool)

inductive FoundChar where
  | char (c : Char) (rest : List UInt8)
  /-- The start of a character that goes on after them. -/
  | part
  | none (why : Problem)

def isAllowed (c : Char) : Bool :=
  let n := c.toNat
  n = 0x09 || n = 0x0a || n = 0x0d || (0x20 ≤ n && n ≤ 0x7e) || n = 0x85
    || (0xa0 ≤ n && n ≤ 0xd7ff) || (0xe000 ≤ n && n ≤ 0xfffd) || 0x10000 ≤ n

/-- The mark of the byte order, which may start a text. -/
def byteOrderMark : Char := Char.ofNat 0xfeff

namespace Encoding

/-- The encoding that the first bytes tell, and how many bytes tell it. -/
def ofBytes : List UInt8 → Encoding × Nat
  | 0xff :: 0xfe :: _ => (.utf16 true, 2)
  | 0xfe :: 0xff :: _ => (.utf16 false, 2)
  | 0xef :: 0xbb :: 0xbf :: _ => (.utf8, 3)
  | _ => (.utf8, 0)

def unit (littleEndian : Bool) (a b : UInt8) : Nat :=
  if littleEndian then a.toNat + 256 * b.toNat else b.toNat + 256 * a.toNat

/-- What is wrong with so many bytes that are no character, after the first of
them. -/
def octetProblem (width : Nat) (lead : UInt8) (tail : List UInt8) : Problem :=
  if tail.any fun b => b.toNat / 64 ≠ 2 then .trailingOctet
  else
    let n := tail.foldl (fun n t => n * 64 + t.toNat % 64) (lead.toNat % Nat.pow 2 (7 - width))
    if n < Bytes.leastOfWidth width then .longOctets else .noCharacter

def findChar : Encoding → List UInt8 → FoundChar
  | _, [] => .part
  | .utf8, b :: rest =>
      match Bytes.charWidth? b with
      | none => .none .leadingOctet
      | some width =>
          let tail := rest.take (width - 1)
          if tail.length < width - 1 then .part
          else
            match Bytes.readChar? (b :: rest) with
            | some (c, after) => .char c after
            | none => .none (octetProblem width b tail)
  | .utf16 _, [_] => .part
  | .utf16 littleEndian, a :: b :: rest =>
      let n := unit littleEndian a b
      if 0xdc00 ≤ n && n ≤ 0xdfff then .none .lowSurrogate
      else if 0xd800 ≤ n && n ≤ 0xdbff then
        match rest with
        | c :: d :: after =>
            let m := unit littleEndian c d
            if 0xdc00 ≤ m && m ≤ 0xdfff then
              .char (Char.ofNat (0x10000 + (n - 0xd800) * 1024 + (m - 0xdc00))) after
            else .none .noLowSurrogate
        | _ => .part
      else .char (Char.ofNat n) rest

/-- The characters of a piece, and the bytes at its end that start one more. -/
def pieceChars (e : Encoding) : (fuel : Nat) → List Char → List UInt8 →
    Except Problem (List Char × List UInt8)
  | 0, found, bytes => .ok (found.reverse, bytes)
  | fuel + 1, found, bytes =>
      match e.findChar bytes with
      | .char c rest =>
          if isAllowed c then pieceChars e fuel (c :: found) rest else .error .controlCharacter
      | .part => .ok (found.reverse, bytes)
      | .none why => .error why

/-- What is wrong with bytes at the end of a text that start a character. -/
def endProblem? : Encoding → List UInt8 → Option Problem
  | _, [] => none
  | .utf8, _ => some .incompleteOctets
  | .utf16 _, [_] => some .incompleteUnit
  | .utf16 _, _ => some .incompletePair

/-- The characters of each piece up to one that is spoilt, and what is wrong with
that.  Of a piece, `used` bytes are taken before it starts. -/
def pieces (e : Encoding) : (fuel used : Nat) → (held rest : List UInt8) →
    List (List Char) × Option Problem
  | 0, _, _, _ => ([], none)
  | fuel + 1, used, held, rest =>
      if rest.isEmpty then ([], e.endProblem? held)
      else
        match e.pieceChars 512 [] (held ++ rest.take (512 - used)) with
        | .error why => ([], some why)
        | .ok (found, held) =>
            let (more, spoilt) := pieces e fuel held.length held (rest.drop (512 - used))
            (found :: more, spoilt)

end Encoding

/-- A text to be read: its characters, how many of them each piece has, and
what is wrong with a spoilt piece that follows. -/
structure Source where
  text : List Char
  pieces : List Nat
  spoilt : Option Problem

/-- The source of some bytes, without the mark that tells their encoding. -/
def Source.ofBytes (bytes : List UInt8) : Source :=
  let (e, mark) := Encoding.ofBytes bytes
  let (pieces, spoilt) := e.pieces (bytes.length / 256 + 2) mark [] (bytes.drop mark)
  ⟨pieces.flatten, pieces.map List.length, spoilt⟩

end DocShape.Yaml
