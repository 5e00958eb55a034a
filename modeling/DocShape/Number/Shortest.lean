/-!
# Decimal digits of floats

A finite float is `m * 2 ^ q`.  Its shortest decimal is found on grids of one,
two, ... digits: the first grid with a point that reads back as the float wins,
and of two such points the nearer.  All arithmetic is exact.
-/

namespace DocShape.Number

/-- A float by its parts: a NaN, an infinity, or `± m * 2 ^ q`. -/
inductive FloatParts where
  | nan
  | infinite (negative : Bool)
  | finite (negative : Bool) (m : Nat) (q : Int)

def FloatParts.ofBits (bits : Nat) : FloatParts :=
  let negative : Bool := bits / Nat.pow 2 63 % 2 = 1
  let exponent : Nat := bits / Nat.pow 2 52 % Nat.pow 2 11
  let fraction : Nat := bits % Nat.pow 2 52
  if exponent = 2047 then (if fraction = 0 then .infinite negative else .nan)
  else if exponent = 0 then .finite negative fraction (-1074)
  else .finite negative (Nat.pow 2 52 + fraction) ((exponent : Int) - 1075)

def FloatParts.of (x : Float) : FloatParts :=
  .ofBits x.toBits.toNat

/-- `n * base ^ e` as a fraction. -/
def scaled (n base : Nat) (e : Int) : Nat × Nat :=
  if 0 ≤ e then (n * Nat.pow base e.toNat, 1) else (n, Nat.pow base (-e).toNat)

def mulFraction (x y : Nat × Nat) : Nat × Nat :=
  (x.1 * y.1, x.2 * y.2)

/-- Decimal digits: `digits * 10 ^ exponent`. -/
structure Decimal where
  digits : Nat
  exponent : Int

def digitCount (n : Nat) : Nat :=
  (Nat.toDigits 10 n).length

/-- How many digits stand before the point of a positive fraction: the least
`k` with `x < 10 ^ k`. -/
def integralDigits (num den : Nat) : Int :=
  let guess : Int := (digitCount num : Int) - digitCount den
  let atMost (k : Int) : Bool :=
    let (p, q) := scaled 1 10 k
    num * q < p * den
  if atMost guess then guess else guess + 1

/-- Whether the grid point `d * 10 ^ e` reads back as `m * 2 ^ q`: it lies
between the midpoints to the neighbouring floats, which belong to an even `m`. -/
def readsBack (m : Nat) (q : Int) (d : Nat) (e : Int) : Bool :=
  let (num, den) := mulFraction (scaled d 10 e) (scaled 1 2 (2 - q))
  let lower := if m = Nat.pow 2 52 && q > -1074 then 4 * m - 1 else 4 * m - 2
  let upper := 4 * m + 2
  if m % 2 = 0 then lower * den ≤ num && num ≤ upper * den
  else lower * den < num && num < upper * den

/-- The shortest digits of `m * 2 ^ q`, looking at grids of `count` digits and
more. -/
def shortestFrom (m : Nat) (q : Int) (num den : Nat) (places : Int) :
    (fuel count : Nat) → Decimal
  | 0, _ => ⟨0, 0⟩
  | fuel + 1, count =>
      let e := places - count
      let (p, r) := mulFraction (num, den) (scaled 1 10 (-e))
      let low := p / r
      let lowFits := low ≠ 0 && readsBack m q low e
      let highFits := readsBack m q (low + 1) e
      if lowFits && highFits then
        let twice := 2 * (p % r)
        if twice < r || (twice = r && low % 2 = 0) then ⟨low, e⟩ else ⟨low + 1, e⟩
      else if lowFits then ⟨low, e⟩
      else if highFits then ⟨low + 1, e⟩
      else shortestFrom m q num den places fuel (count + 1)

/-- The shortest digits of `m * 2 ^ q`; seventeen always suffice. -/
def shortest (m : Nat) (q : Int) : Decimal :=
  if m = 0 then ⟨0, 0⟩
  else
    let (num, den) := scaled m 2 q
    shortestFrom m q num den (integralDigits num den) 17 1

def Decimal.trim : (fuel : Nat) → Decimal → Decimal
  | 0, d => d
  | fuel + 1, d =>
      if d.digits ≠ 0 && d.digits % 10 = 0 then trim fuel ⟨d.digits / 10, d.exponent + 1⟩ else d

/-- The digits of a decimal, and how many of them stand before the point. -/
def Decimal.parts (d : Decimal) : List Char × Int :=
  if d.digits = 0 then (['0'], 1)
  else
    let t := d.trim 20
    let digits := Nat.toDigits 10 t.digits
    (digits, digits.length + t.exponent)

/-- Digits with a point after the first `before` of them. -/
def placePoint (digits : List Char) (before : Int) : List Char :=
  if before ≤ 0 then '0' :: '.' :: List.replicate (-before).toNat '0' ++ digits
  else
    let n := before.toNat
    if digits.length ≤ n then digits ++ List.replicate (n - digits.length) '0'
    else digits.take n ++ '.' :: digits.drop n

/-- Digits with a point after the first and an exponent of two digits or more. -/
def placeExponent (digits : List Char) (before : Int) : List Char :=
  let exponent := before - 1
  let size := Nat.toDigits 10 exponent.natAbs
  let mantissa := match digits with
    | [d] => [d]
    | d :: rest => d :: '.' :: rest
    | [] => []
  mantissa ++ 'e' :: (if exponent < 0 then '-' else '+')
    :: (if size.length < 2 then '0' :: size else size)

/-- A sign before the characters of a number. -/
def withMinus (negative : Bool) (cs : List Char) : String :=
  String.ofList (if negative then '-' :: cs else cs)

def positional (x : Float) : String :=
  match FloatParts.of x with
  | .nan => "NaN"
  | .infinite negative => if negative then "-Inf" else "+Inf"
  | .finite negative m q =>
      let (digits, before) := (shortest m q).parts
      withMinus negative (placePoint digits before)

/-- The shortest text of a float, with an exponent when it is below `-4` or not
below `6`. -/
def general (x : Float) : String :=
  match FloatParts.of x with
  | .nan => "NaN"
  | .infinite negative => if negative then "-Inf" else "+Inf"
  | .finite negative m q =>
      let (digits, before) := (shortest m q).parts
      let exponent := before - 1
      withMinus negative
        (if exponent < -4 || 6 ≤ exponent then placeExponent digits before
          else placePoint digits before)

/-- A quotient rounded to the nearest integer, a tie to the even one. -/
def roundDiv (num den : Nat) : Nat :=
  let twice := 2 * (num % den)
  if twice < den || (twice = den && num / den % 2 = 0) then num / den else num / den + 1

def fixedPlaces (places : Nat) (x : Float) : String :=
  match FloatParts.of x with
  | .nan => "NaN"
  | .infinite negative => if negative then "-Inf" else "+Inf"
  | .finite negative m q =>
      let (num, den) := scaled m 2 q
      let n := roundDiv (num * Nat.pow 10 places) den
      let digits := Nat.toDigits 10 n
      let padded := List.replicate (places + 1 - digits.length) '0' ++ digits
      withMinus negative (placePoint padded ((padded.length : Int) - places))

end DocShape.Number
