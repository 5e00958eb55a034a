import DocShape.Calendar
import DocShape.Number.Literal

/-!
# Plain scalars

The tag that a plain scalar has by its text: truth values, nulls, numbers and
times are recognised, and every other text is a string.
-/

namespace DocShape.Yaml

/-- The start of the tags of the standard repository in full. -/
def standardTags : String := "tag:yaml.org,2002:"

/-- A tag of the standard repository in its short form, and any other as it is. -/
def shortTag (tag : String) : String :=
  if standardTags.toList.isPrefixOf tag.toList then
    "!!" ++ String.ofList (tag.toList.drop standardTags.length)
  else tag

/-- A number with an optional sign, in a base. -/
def signedInteger? (base : Nat) (text : List Char) : Option Int :=
  match Number.splitSign text with
  | (_, []) => none
  | (negative, digits) => do
      let n ← (Number.readDigits base false 0 digits).toOption
      let i ← (Number.withSign negative n).toOption
      return i.toInt

/-- A number without a sign, in a base. -/
def unsignedInteger? (base : Nat) (digits : List Char) : Option Int :=
  if digits.isEmpty then none
  else (Number.readDigits base false 0 digits).toOption.map Int.ofNat

/-- The integer, in any base, that a text without underscores is. -/
def integer? (text : List Char) : Option Int :=
  ((Number.readInt text).toOption.map Int64.toInt)
    <|> (let (base, digits) := Number.splitBase text
        if text.isEmpty then none
        else (Number.readDigits base false 0 digits).toOption.map Int.ofNat)
    <|> match text with
      | '0' :: 'b' :: rest => signedInteger? 2 rest <|> unsignedInteger? 2 rest
      | '0' :: 'o' :: rest => signedInteger? 8 rest <|> unsignedInteger? 8 rest
      | _ => none

/-- The text after the decimal digits it starts with. -/
def afterDigits (text : List Char) : List Char :=
  text.dropWhile Number.isDigit

def isExponent : List Char → Bool
  | [] => true
  | c :: rest =>
      let digits := (Number.splitSign rest).2
      (c = 'e' || c = 'E') && !digits.isEmpty && digits.all Number.isDigit

def isDecimalForm (text : List Char) : Bool :=
  match (Number.splitSign text).2 with
  | '.' :: d :: rest => Number.isDigit d && isExponent (afterDigits rest)
  | d :: rest =>
      Number.isDigit d
        && match afterDigits rest with
          | '.' :: places => isExponent (afterDigits places)
          | other => isExponent other
  | [] => false

def oneOrTwoDigits? : List Char → Option (Nat × List Char)
  | a :: b :: rest =>
      if Number.isDigit a then
        if Number.isDigit b then some ((a.toNat - 0x30) * 10 + (b.toNat - 0x30), rest)
        else some (a.toNat - 0x30, b :: rest)
      else none
  | [a] => if Number.isDigit a then some (a.toNat - 0x30, []) else none
  | [] => none

def after? (c : Char) : List Char → Option (List Char)
  | d :: rest => if c = d then some rest else none
  | [] => none

def afterTime? (text : List Char) : Option (List Char) := do
  let (hour, text) ← oneOrTwoDigits? text
  let text ← after? ':' text
  let (minute, text) ← oneOrTwoDigits? text
  let text ← after? ':' text
  let (second, text) ← oneOrTwoDigits? text
  if hour > 23 || minute > 59 || second > 59 then none
  else
    match text with
    | c :: d :: rest =>
        if (c = '.' || c = ',') && Number.isDigit d then some (afterDigits rest) else some text
    | _ => some text

/-- Whether a text is a zone: the letter for none, or hours and minutes. -/
def isZone : List Char → Bool
  | ['Z'] => true
  | [sign, a, b, ':', c, d] =>
      (sign = '+' || sign = '-') && [a, b, c, d].all Number.isDigit
        && (a.toNat - 0x30) * 10 + (b.toNat - 0x30) ≤ 24
        && (c.toNat - 0x30) * 10 + (d.toNat - 0x30) ≤ 60
  | _ => false

/-- Whether what follows a date ends a time: after a letter one with its zone, and
after spaces one without. -/
def endsTime : List Char → Bool
  | [] => true
  | c :: rest =>
      if c = 'T' || c = 't' then (afterTime? rest).any isZone
      else c = ' ' && (afterTime? (rest.dropWhile (· = ' '))).any List.isEmpty

def isTime (text : List Char) : Bool :=
  let year := text.takeWhile Number.isDigit
  if year.length = 4 then
    let found : Option Bool := do
      let text ← after? '-' (text.drop 4)
      let (month, text) ← oneOrTwoDigits? text
      let text ← after? '-' text
      let (day, text) ← oneOrTwoDigits? text
      let year := year.foldl (fun n c => n * 10 + (c.toNat - 0x30)) 0
      return 1 ≤ month && month ≤ 12 && 1 ≤ day && day ≤ Calendar.daysIn year month
        && endsTime text
    found.getD false
  else false

inductive Numeral where
  | integer (value : Int)
  | float (value : Float)

/-- The words for infinities and for what is no number. -/
def floatWord? (text : String) : Option Float :=
  if [".nan", ".NaN", ".NAN"].contains text then some (0.0 / 0.0)
  else if [".inf", ".Inf", ".INF", "+.inf", "+.Inf", "+.INF"].contains text then some (1.0 / 0.0)
  else if ["-.inf", "-.Inf", "-.INF"].contains text then some (-1.0 / 0.0)
  else none

def numeral? (text : String) : Option Numeral :=
  match floatWord? text with
  | some x => some (.float x)
  | none =>
      match text.toList with
      | [] => none
      | c :: rest =>
          if c = '.' then (Number.readFloat (c :: rest)).toOption.map .float
          else if Number.isDigit c || c = '+' || c = '-' then
            let digits := (c :: rest).filter (· ≠ '_')
            if isTime (c :: rest) then none
            else
              match integer? digits with
              | some i => some (.integer i)
              | none =>
                  if isDecimalForm digits then (Number.readFloat digits).toOption.map .float
                  else none
          else none

def implicitTag (text : String) : String :=
  if ["true", "True", "TRUE", "false", "False", "FALSE"].contains text then "!!bool"
  else if ["", "~", "null", "Null", "NULL"].contains text then "!!null"
  else
    match numeral? text with
    | some (.integer _) => "!!int"
    | some (.float _) => "!!float"
    | none => if isTime text.toList then "!!timestamp" else "!!str"

/-- Whether other readers may take a text for a truth value. -/
def isFormerBool (text : String) : Bool :=
  ["y", "Y", "yes", "Yes", "YES", "on", "On", "ON", "n", "N", "no", "No", "NO", "off", "Off",
    "OFF"].contains text

/-- Whether what follows a colon is digits in base sixty, perhaps with places. -/
def endsSexagesimal : (fuel : Nat) → List Char → Bool
  | 0, _ => false
  | fuel + 1, ':' :: d :: rest =>
      let text :=
        if 0x30 ≤ d.toNat && d.toNat ≤ 0x35 then
          match rest with
          | e :: more => if Number.isDigit e then some more else some rest
          | [] => some rest
        else if Number.isDigit d then some rest
        else none
      match text with
      | none => false
      | some [] => true
      | some ('.' :: places) => places.all fun c => Number.isDigit c || c = '_'
      | some text => endsSexagesimal fuel text
  | _, _ => false

/-- Whether other readers may take a text for a number in base sixty. -/
def isSexagesimal (text : String) : Bool :=
  match (Number.splitSign text.toList).2 with
  | d :: rest =>
      Number.isDigit d
        && (let tail := rest.dropWhile fun c => Number.isDigit c || c = '_'
            endsSexagesimal tail.length tail)
  | [] => false

end DocShape.Yaml
