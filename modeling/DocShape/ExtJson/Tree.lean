import DocShape.Text.Digits

/-!
# JSON trees

JSON text as a tree.  An object keeps its members in order, repeated names
included; a number is kept as an integer, or as a coefficient and an exponent
of ten.  Objects may nest a given number of levels deep.
-/

namespace DocShape.ExtJson

inductive Tree where
  | null
  | bool (value : Bool)
  | integer (value : Int)
  /-- `coefficient * 10 ^ exponent`, written with a fraction or an exponent. -/
  | decimal (negative : Bool) (coefficient : Nat) (exponent : Int)
  | string (text : String)
  | array (items : List Tree)
  | object (members : List (String × Tree))

namespace Tree

instance : Inhabited Tree := ⟨.null⟩

def skipBlanks : List Char → List Char
  | c :: rest => if c = ' ' || c = '\t' || c = '\n' || c = '\r' then skipBlanks rest else c :: rest
  | [] => []

/-- The character that stands for four hexadecimal digits, or for anything else
in their place: the replacement character where there is none. -/
def unitChar (code : Option Nat) : Char :=
  match code with
  | some n => if 0xd800 ≤ n && n ≤ 0xdfff then Char.ofNat 0xfffd else Char.ofNat n
  | none => Char.ofNat 0xfffd

/-- Whether a code unit is half of a pair. -/
def isSurrogate : Option Nat → Bool
  | some n => 0xd800 ≤ n && n ≤ 0xdfff
  | none => false

/-- The characters of two code units, the first of them half of a pair. -/
def pairChars (high low : Option Nat) : List Char :=
  match high, low with
  | some h, some l =>
      if 0xd800 ≤ h && h ≤ 0xdbff && 0xdc00 ≤ l && l ≤ 0xdfff then
        [Char.ofNat (0x10000 + (h - 0xd800) * 0x400 + (l - 0xdc00))]
      else [Char.ofNat 0xfffd, unitChar low]
  | _, _ => [Char.ofNat 0xfffd, unitChar low]

def escaped? : Char → Option Char
  | '"' => some '"'
  | '\\' => some '\\'
  | '/' => some '/'
  | 'b' => some '\x08'
  | 'f' => some '\x0c'
  | 'n' => some '\n'
  | 'r' => some '\r'
  | 't' => some '\t'
  | _ => none

/-- The characters of a string up to its closing quote, and the rest. -/
def readString? : List Char → Option (List Char × List Char)
  | [] => none
  | '"' :: rest => some ([], rest)
  | '\\' :: 'u' :: a :: b :: c :: d :: '\\' :: 'u' :: e :: f :: g :: h :: rest =>
      let first := Text.hexNumber? [a, b, c, d]
      if isSurrogate first then
        (readString? rest).map fun (cs, after) =>
          (pairChars first (Text.hexNumber? [e, f, g, h]) ++ cs, after)
      else
        (readString? ('\\' :: 'u' :: e :: f :: g :: h :: rest)).map fun (cs, after) =>
          (unitChar first :: cs, after)
  | '\\' :: 'u' :: a :: b :: c :: d :: rest =>
      (readString? rest).map fun (cs, after) =>
        (unitChar (Text.hexNumber? [a, b, c, d]) :: cs, after)
  | '\\' :: c :: rest =>
      match escaped? c with
      | some e => (readString? rest).map fun (cs, after) => (e :: cs, after)
      | none => none
  | c :: rest => (readString? rest).map fun (cs, after) => (c :: cs, after)

/-- Decimal digits at the start: their value, how many they are, and the rest. -/
def takeDigits : (value count : Nat) → List Char → Nat × Nat × List Char
  | value, count, [] => (value, count, [])
  | value, count, c :: rest =>
      if 0x30 ≤ c.toNat && c.toNat ≤ 0x39 then
        takeDigits (value * 10 + (c.toNat - 0x30)) (count + 1) rest
      else (value, count, c :: rest)

/-- The digits after a point, if there is one: their value on top of `value`, how
many they are, and the rest. -/
def readFraction? (value : Nat) : List Char → Option (Nat × Nat × List Char)
  | '.' :: rest =>
      match takeDigits value 0 rest with
      | (_, 0, _) => none
      | (value, places, rest) => some (value, places, rest)
  | rest => some (value, 0, rest)

def readExponent? : List Char → Option (Option Int × List Char)
  | c :: rest =>
      if c = 'e' || c = 'E' then
        let (negative, digits) := match rest with
          | '-' :: digits => (true, digits)
          | '+' :: digits => (false, digits)
          | digits => (false, digits)
        match takeDigits 0 0 digits with
        | (_, 0, _) => none
        | (n, _, after) =>
            let capped : Int := min n 100000
            some (some (if negative then -capped else capped), after)
      else some (none, c :: rest)
  | [] => some (none, [])

def readUnsigned? (negative : Bool) (text : List Char) : Option (Tree × List Char) := do
  let (value, rest) ←
    match text with
    | '0' :: rest =>
        match rest with
        | c :: _ => if 0x30 ≤ c.toNat && c.toNat ≤ 0x39 then none else some (0, rest)
        | [] => some (0, rest)
    | _ =>
        match takeDigits 0 0 text with
        | (_, 0, _) => none
        | (value, _, rest) => some (value, rest)
  let (coefficient, places, rest) ← readFraction? value rest
  let (exponent, rest) ← readExponent? rest
  match places, exponent with
  | 0, none => return (.integer (if negative then -(value : Int) else value), rest)
  | _, _ => return (.decimal negative coefficient (exponent.getD 0 - places), rest)

def readNumber? : List Char → Option (Tree × List Char)
  | '-' :: rest => readUnsigned? true rest
  | text => readUnsigned? false text

mutual

/-- A value, where objects nest at most `room` deep.  Two steps take a
character at least, so `fuel` need not exceed twice their number. -/
def readValue? : (fuel room : Nat) → List Char → Option (Tree × List Char)
  | 0, _, _ => none
  | fuel + 1, room, text =>
      match skipBlanks text with
      | '\x7b' :: rest =>
          match room with
          | 0 => none
          | room + 1 =>
              match skipBlanks rest with
              | '\x7d' :: rest => some (.object [], rest)
              | rest => (readMembers? fuel room rest).map fun (ms, after) => (.object ms, after)
      | '[' :: rest =>
          match skipBlanks rest with
          | ']' :: rest => some (.array [], rest)
          | rest => (readItems? fuel room rest).map fun (items, after) => (.array items, after)
      | '"' :: rest =>
          (readString? rest).map fun (cs, after) => (.string (String.ofList cs), after)
      | 't' :: 'r' :: 'u' :: 'e' :: rest => some (.bool true, rest)
      | 'f' :: 'a' :: 'l' :: 's' :: 'e' :: rest => some (.bool false, rest)
      | 'n' :: 'u' :: 'l' :: 'l' :: rest => some (.null, rest)
      | rest => readNumber? rest

def readMembers? : (fuel room : Nat) → List Char → Option (List (String × Tree) × List Char)
  | 0, _, _ => none
  | fuel + 1, room, text =>
      match skipBlanks text with
      | '"' :: rest => do
          let (name, rest) ← readString? rest
          match skipBlanks rest with
          | ':' :: rest =>
              let (value, rest) ← readValue? fuel room rest
              let member := (String.ofList name, value)
              match skipBlanks rest with
              | ',' :: rest =>
                  let (members, after) ← readMembers? fuel room rest
                  return (member :: members, after)
              | '\x7d' :: rest => return ([member], rest)
              | _ => none
          | _ => none
      | _ => none

def readItems? : (fuel room : Nat) → List Char → Option (List Tree × List Char)
  | 0, _, _ => none
  | fuel + 1, room, text => do
      let (item, rest) ← readValue? fuel room text
      match skipBlanks rest with
      | ',' :: rest =>
          let (items, after) ← readItems? fuel room rest
          return (item :: items, after)
      | ']' :: rest => return ([item], rest)
      | _ => none

end

def maxObjects : Nat := 200

/-- The members of the object that the text starts with; what follows it is not
looked at. -/
def readObject? (text : String) : Option (List (String × Tree)) :=
  let cs := text.toList
  match readValue? (2 * cs.length + 2) maxObjects cs with
  | some (.object members, _) => some members
  | _ => none

end Tree

end DocShape.ExtJson
