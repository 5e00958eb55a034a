import DocShape.Text.Digits

/-!
# Number literals

Texts read as integers and floats.  A base may be written before the digits
where the reader allows it, and an underscore may stand between digits.
-/

namespace DocShape.Number

inductive LiteralError where
  /-- The text is not a literal. -/
  | malformed
  /-- The number lies outside the range. -/
  | outOfRange
  deriving DecidableEq

def LiteralError.message : LiteralError → String
  | malformed => "invalid syntax"
  | outOfRange => "value out of range"

/-- The value of a digit in bases up to thirty-six. -/
def digitValue? (c : Char) : Option Nat :=
  let n := c.toNat
  if 0x30 ≤ n && n ≤ 0x39 then some (n - 0x30)
  else if 0x61 ≤ n && n ≤ 0x7a then some (n - 0x61 + 10)
  else if 0x41 ≤ n && n ≤ 0x5a then some (n - 0x41 + 10)
  else none

def isDigit (c : Char) : Bool :=
  0x30 ≤ c.toNat && c.toNat ≤ 0x39

/-- The rest of a literal after its sign, and whether the sign is a minus. -/
def splitSign : List Char → Bool × List Char
  | '-' :: rest => (true, rest)
  | '+' :: rest => (false, rest)
  | text => (false, text)

/-- What the last character of a literal was, for the placing of underscores. -/
inductive Place where
  | digit
  | underscore
  | other
  deriving DecidableEq

/-- Whether every underscore stands between digits, from the place before. -/
def underscoresFit (hex : Bool) : Place → List Char → Bool
  | place, [] => place ≠ .underscore
  | place, c :: rest =>
      if isDigit c || (hex && (Text.hexValue? c).isSome) then underscoresFit hex .digit rest
      else if c = '_' then place = .digit && underscoresFit hex .underscore rest
      else place ≠ .underscore && underscoresFit hex .other rest

/-- Whether the underscores of an unsigned literal stand between digits; a base
counts as a digit before them. -/
def underscoresAllowed : List Char → Bool
  | '0' :: c :: rest =>
      if c = 'x' || c = 'X' then underscoresFit true .digit rest
      else if c = 'b' || c = 'B' || c = 'o' || c = 'O' then underscoresFit false .digit rest
      else underscoresFit false .other ('0' :: c :: rest)
  | text => underscoresFit false .other text

/-- The base an unsigned literal is written in and its digits. -/
def splitBase : List Char → Nat × List Char
  | '0' :: c :: d :: rest =>
      if c = 'x' || c = 'X' then (16, d :: rest)
      else if c = 'o' || c = 'O' then (8, d :: rest)
      else if c = 'b' || c = 'B' then (2, d :: rest)
      else (8, c :: d :: rest)
  | '0' :: rest => (8, rest)
  | text => (10, text)

/-- The number that the digits add to `value`, below `2 ^ 64`. -/
def readDigits (base : Nat) (underscores : Bool) : (value : Nat) → List Char →
    Except LiteralError Nat
  | value, [] => .ok value
  | value, c :: rest =>
      if c = '_' && underscores then readDigits base underscores value rest
      else
        match digitValue? c with
        | none => .error .malformed
        | some d =>
            if base ≤ d then .error .malformed
            else if Nat.pow 2 64 ≤ value * base + d then .error .outOfRange
            else readDigits base underscores (value * base + d) rest

/-- The integer of 64 bits given by sign and size. -/
def withSign (negative : Bool) (n : Nat) : Except LiteralError Int64 :=
  if negative then
    if n ≤ Nat.pow 2 63 then .ok (Int64.ofInt (-(n : Int))) else .error .outOfRange
  else if n < Nat.pow 2 63 then .ok (Int64.ofNat n)
  else .error .outOfRange

def readDecimalInt (text : List Char) : Except LiteralError Int64 :=
  match splitSign text with
  | (_, []) => .error .malformed
  | (negative, digits) => do withSign negative (← readDigits 10 false 0 digits)

/-- Reads an integer of 64 bits, written in the base that it starts with. -/
def readInt (text : List Char) : Except LiteralError Int64 :=
  match splitSign text with
  | (_, []) => .error .malformed
  | (negative, unsigned) => do
      let (base, digits) := splitBase unsigned
      let n ← readDigits base true 0 digits
      if unsigned.contains '_' && !underscoresAllowed unsigned then .error .malformed
      else withSign negative n

def readBool? (text : String) : Option Bool :=
  if ["1", "t", "T", "TRUE", "true", "True"].contains text then some true
  else if ["0", "f", "F", "FALSE", "false", "False"].contains text then some false
  else none

def signed (negative : Bool) (x : Float) : Float :=
  if negative then -x else x

/-- The float nearest to `coefficient * 10 ^ exponent`, unless it is too large. -/
def ofDecimal (negative : Bool) (coefficient : Nat) (exponent : Int) :
    Except LiteralError Float :=
  if coefficient = 0 then .ok (signed negative 0.0)
  else
    let digits : Int := (Nat.toDigits 10 coefficient).length
    if exponent + digits > 400 then .error .outOfRange
    else if exponent + digits < -400 then .ok (signed negative 0.0)
    else
      let x := Float.ofScientific coefficient (exponent < 0) exponent.natAbs
      if x.isInf then .error .outOfRange else .ok (signed negative x)

/-- The float nearest to `coefficient * 2 ^ exponent`, unless it is too large.
The scaled quotient keeps two more bits than a float has, the last of them set
when anything was cut off, so that it rounds as the number does. -/
def ofBinary (negative : Bool) (coefficient : Nat) (exponent : Int) : Except LiteralError Float :=
  if coefficient = 0 then .ok (signed negative 0.0)
  else
    let bits : Int := (Nat.log2 coefficient : Int) + 1
    if exponent + bits > 1100 then .error .outOfRange
    else if exponent + bits < -1200 then .ok (signed negative 0.0)
    else
      let x :=
        if 0 ≤ exponent then Float.ofScientific (coefficient * Nat.pow 2 exponent.toNat) false 0
        else
          let places := (-exponent).toNat
          Float.ofScientific (coefficient * Nat.pow 5 places) true places
      if x.isInf then .error .outOfRange else .ok (signed negative x)

/-- Digits up to a character that is none, underscores passed over: their value,
how many they are, and the rest. -/
def takeDigits (base : Nat) : (value count : Nat) → List Char → Nat × Nat × List Char
  | value, count, [] => (value, count, [])
  | value, count, c :: rest =>
      if c = '_' then takeDigits base value count rest
      else
        match digitValue? c with
        | some d =>
            if d < base then takeDigits base (value * base + d) (count + 1) rest
            else (value, count, c :: rest)
        | none => (value, count, c :: rest)

/-- The digits around a point: the coefficient, how many digits there are, how
many of them follow the point, and the rest. -/
def takeMantissa (base : Nat) (text : List Char) : Nat × Nat × Nat × List Char :=
  let (value, count, rest) := takeDigits base 0 0 text
  match rest with
  | '.' :: rest =>
      let (value, total, rest) := takeDigits base value count rest
      (value, total, total - count, rest)
  | rest => (value, count, 0, rest)

/-- An exponent after its mark; large ones stand for all beyond them. -/
def takeExponent? (text : List Char) : Option (Int × List Char) :=
  let (negative, digits) := splitSign text
  match digits with
  | c :: _ =>
      if isDigit c then
        let (value, _, rest) := takeDigits 10 0 0 digits
        let capped : Int := min value 100000
        some (if negative then -capped else capped, rest)
      else none
  | [] => none

/-- Whether the text is the word, in any case of letters. -/
def isWord (word : String) (text : List Char) : Bool :=
  text.map Char.toLower = word.toList

def readUnsignedFloat (negative : Bool) (text : List Char) : Except LiteralError Float :=
  if text.contains '_' && !underscoresAllowed text then .error .malformed
  else
    let hex := match text with
      | '0' :: c :: _ :: _ => c = 'x' || c = 'X'
      | _ => false
    let base := if hex then 16 else 10
    let (coefficient, count, places, rest) := takeMantissa base (if hex then text.drop 2 else text)
    if count = 0 then .error .malformed
    else
      match rest with
      | [] =>
          if hex then .error .malformed
          else ofDecimal negative coefficient (-(places : Int))
      | mark :: rest =>
          if mark.toLower = (if hex then 'p' else 'e') then
            match takeExponent? rest with
            | some (exponent, []) =>
                if hex then ofBinary negative coefficient (exponent - 4 * (places : Int))
                else ofDecimal negative coefficient (exponent - places)
            | _ => .error .malformed
          else .error .malformed

/-- Reads a float: a decimal or hexadecimal literal, an infinity or a NaN. -/
def readFloat (text : List Char) : Except LiteralError Float :=
  let (negative, unsigned) := splitSign text
  if isWord "inf" unsigned || isWord "infinity" unsigned then
    .ok (signed negative (1.0 / 0.0))
  else if isWord "nan" text then .ok (0.0 / 0.0)
  else readUnsignedFloat negative unsigned

end DocShape.Number
