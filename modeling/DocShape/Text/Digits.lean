/-!
# Digits

Numbers and bytes as texts: in base sixteen, written in lower case, and bytes in
groups of four characters for three bytes, with padding.
-/

namespace DocShape.Text

/-! ## Base sixteen -/

def hexDigit (n : Nat) : Char :=
  if n < 10 then Char.ofNat (0x30 + n) else Char.ofNat (0x61 + (n - 10))

/-- The value of a digit, in either case. -/
def hexValue? (c : Char) : Option Nat :=
  let n := c.toNat
  if 0x30 ≤ n && n ≤ 0x39 then some (n - 0x30)
  else if 0x61 ≤ n && n ≤ 0x66 then some (n - 0x61 + 10)
  else if 0x41 ≤ n && n ≤ 0x46 then some (n - 0x41 + 10)
  else none

/-- The lowest `width` digits of a number. -/
def hexDigits : (width : Nat) → Nat → List Char
  | 0, _ => []
  | width + 1, n => hexDigits width (n / 16) ++ [hexDigit (n % 16)]

/-- A number in at least `width` digits. -/
def hexPadded (width n : Nat) : String :=
  let digits := (Nat.toDigits 16 n)
  String.ofList (List.replicate (width - digits.length) '0' ++ digits)

def hexOfBytes (bytes : List UInt8) : String :=
  String.ofList (bytes.flatMap fun b => hexDigits 2 b.toNat)

def bytesOfHex? : List Char → Option (List UInt8)
  | [] => some []
  | [_] => none
  | a :: b :: rest =>
      match hexValue? a, hexValue? b, bytesOfHex? rest with
      | some high, some low, some bytes => some (UInt8.ofNat (16 * high + low) :: bytes)
      | _, _, _ => none

def hexNumber? (digits : List Char) : Option Nat :=
  digits.foldl (fun acc c =>
    match acc, hexValue? c with
    | some n, some d => some (16 * n + d)
    | _, _ => none) (some 0)

/-! ## Base sixty-four -/

def base64Value? (c : Char) : Option Nat :=
  let n := c.toNat
  if 0x41 ≤ n && n ≤ 0x5a then some (n - 0x41)
  else if 0x61 ≤ n && n ≤ 0x7a then some (n - 0x61 + 26)
  else if 0x30 ≤ n && n ≤ 0x39 then some (n - 0x30 + 52)
  else if c = '+' then some 62
  else if c = '/' then some 63
  else none

def base64Group (a b c d : Nat) : List UInt8 :=
  [UInt8.ofNat (a * 4 + b / 16), UInt8.ofNat (b % 16 * 16 + c / 4), UInt8.ofNat (c % 4 * 64 + d)]

/-- The bytes of groups, the last of which may be padded. -/
def base64Groups? : List Char → Option (List UInt8)
  | [] => some []
  | [a, b, '=', '='] => do
      return (base64Group (← base64Value? a) (← base64Value? b) 0 0).take 1
  | [a, b, c, '='] => do
      return (base64Group (← base64Value? a) (← base64Value? b) (← base64Value? c) 0).take 2
  | a :: b :: c :: d :: rest => do
      let bytes := base64Group (← base64Value? a) (← base64Value? b) (← base64Value? c)
        (← base64Value? d)
      return bytes ++ (← base64Groups? rest)
  | _ => none

/-- The bytes of a text; line ends in it do not count. -/
def bytesOfBase64? (text : String) : Option (List UInt8) :=
  base64Groups? (text.toList.filter fun c => c ≠ '\n' && c ≠ '\r')

end DocShape.Text
