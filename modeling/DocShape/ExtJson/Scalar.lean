import DocShape.Calendar
import DocShape.Number.Literal
import DocShape.Bson.Value

/-!
# Scalar texts of extended JSON

Object ids, UUIDs, dates and 128-bit decimals as they are written inside extended
JSON.
-/

namespace DocShape.ExtJson

/-- The object id of twenty-four hexadecimal digits. -/
def readObjectId? (text : String) : Option Bson.ObjectId :=
  let cs := text.toList
  if cs.length = 24 then
    match Text.hexNumber? (cs.take 8), Text.hexNumber? (cs.drop 8) with
    | some head, some tail => some ⟨UInt32.ofNat head, UInt64.ofNat tail⟩
    | _, _ => none
  else none

/-- The bytes of a UUID in its hyphenated form. -/
def readUuid? (text : String) : Option (List UInt8) :=
  let cs := text.toList
  let digits := cs.filter (· ≠ '-')
  if cs.length = 36 && digits.length = 32
      && [8, 13, 18, 23].all fun i => cs[i]? = some '-' then
    Text.bytesOfHex? digits
  else none

/-- Exactly `count` decimal digits. -/
def fixedDigits? : (count : Nat) → List Char → Option (Nat × List Char)
  | count, text =>
      let digits := text.take count
      if digits.length = count && digits.all Number.isDigit then
        some (digits.foldl (fun n c => n * 10 + (c.toNat - 0x30)) 0, text.drop count)
      else none

def hourDigits? (text : List Char) : Option (Nat × List Char) :=
  match fixedDigits? 2 text with
  | some r => some r
  | none => fixedDigits? 1 text

def expectChar? (c : Char) : List Char → Option (List Char)
  | d :: rest => if c = d then some rest else none
  | [] => none

/-- The milliseconds of a fraction of a second, if one is there. -/
def readMillis (text : List Char) : Nat × List Char :=
  match text with
  | c :: d :: rest =>
      if (c = '.' || c = ',') && Number.isDigit d then
        let digits := (d :: rest).takeWhile Number.isDigit
        let padded := (digits ++ ['0', '0']).take 3
        (padded.foldl (fun n c => n * 10 + (c.toNat - 0x30)) 0, (d :: rest).dropWhile Number.isDigit)
      else (0, text)
  | _ => (0, text)

/-- A zone at the end of a date: its offset in minutes. -/
def readZone? : List Char → Option Int
  | ['Z'] => some 0
  | sign :: rest => do
      let (hours, rest) ← fixedDigits? 2 rest
      let rest := match rest with
        | ':' :: rest => rest
        | rest => rest
      let (minutes, rest) ← fixedDigits? 2 rest
      if !rest.isEmpty || hours > 24 || minutes > 60 then none
      else
        let offset : Int := hours * 60 + minutes
        if sign = '+' then some offset
        else if sign = '-' then some (-offset)
        else none
  | [] => none

/-- The milliseconds since the start of 1970 of a date and time with its zone. -/
def readDate? (text : String) : Option Int64 := do
  let (year, rest) ← fixedDigits? 4 text.toList
  let rest ← expectChar? '-' rest
  let (month, rest) ← fixedDigits? 2 rest
  let rest ← expectChar? '-' rest
  let (day, rest) ← fixedDigits? 2 rest
  let rest ← expectChar? 'T' rest
  let (hour, rest) ← hourDigits? rest
  let rest ← expectChar? ':' rest
  let (minute, rest) ← fixedDigits? 2 rest
  let rest ← expectChar? ':' rest
  let (second, rest) ← fixedDigits? 2 rest
  let (millis, rest) := readMillis rest
  let offset ← readZone? rest
  if month = 0 || month > 12 || day = 0 || day > Calendar.daysIn year month || hour > 23 || minute > 59
      || second > 59 then none
  else
    let minutes := Calendar.dayNumber year month day * 1440 + hour * 60 + minute - offset
    some (Int64.ofInt ((minutes * 60 + second) * 1000 + millis))

def maxDecimalExponent : Int := 6111

def minDecimalExponent : Int := -6176

/-- How many times ten divides a number, at most `fuel`. -/
def trailingZeros : (fuel : Nat) → Nat → Nat
  | 0, _ => 0
  | fuel + 1, n => if n % 10 = 0 then trailingZeros fuel (n / 10) + 1 else 0

/-- The coefficient and exponent of a 128-bit decimal, if the number has them
exactly. -/
def fitDecimal? (coefficient : Nat) (exponent : Int) : Option (Nat × Int) :=
  if coefficient = 0 then
    some (0, max minDecimalExponent (min maxDecimalExponent exponent))
  else
    let digits := (Nat.toDigits 10 coefficient).length
    let zeros := trailingZeros digits coefficient
    let excess := digits - 34
    let drop : Nat := max excess (minDecimalExponent - exponent).toNat
    if zeros < drop then none
    else
      let coefficient := coefficient / Nat.pow 10 drop
      let exponent := exponent + drop
      let digits := digits - drop
      let add := (exponent - maxDecimalExponent).toNat
      if digits + add > 34 then none
      else some (coefficient * Nat.pow 10 add, exponent - add)

def decimalWords (negative : Bool) (coefficient : Nat) (exponent : Int) : Bson.Value :=
  let biased := (exponent - minDecimalExponent).toNat
  let high := coefficient / Nat.pow 2 64 + biased * Nat.pow 2 49
    + (if negative then Nat.pow 2 63 else 0)
  .decimal (UInt64.ofNat high) (UInt64.ofNat coefficient)

/-- The 128-bit decimal of a literal that it holds exactly. -/
def readDecimal128? (text : String) : Option Bson.Value := do
  let (negative, unsigned) := Number.splitSign text.toList
  if Number.isWord "nan" unsigned then return .decimal 0x7c00000000000000 0
  if Number.isWord "inf" unsigned || Number.isWord "infinity" unsigned then
    return .decimal (if negative then 0xf800000000000000 else 0x7800000000000000) 0
  if unsigned.contains '_' then none
  let (coefficient, count, places, rest) := Number.takeMantissa 10 unsigned
  if count = 0 then none
  let exponent ←
    match rest with
    | [] => some 0
    | mark :: rest =>
        if mark = 'e' || mark = 'E' then
          match Number.takeExponent? rest with
          | some (e, []) => some e
          | _ => none
        else none
  let (coefficient, exponent) ← fitDecimal? coefficient (exponent - places)
  return decimalWords negative coefficient exponent

end DocShape.ExtJson
