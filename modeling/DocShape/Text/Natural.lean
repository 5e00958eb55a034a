import DocShape.Text.Letter

/-!
# Natural order

An order of texts in which runs of digits compare as numbers.
-/

namespace DocShape.Text

/-- The number of the digits at the start of a text on top of `value`, in 64
bits, and how many they are. -/
def leadingNumber (value : Int64) (text : List Char) : Int64 × Nat :=
  let digits := text.takeWhile isDecimalDigit
  (digits.foldl (fun n c => n * 10 + Int64.ofInt ((c.toNat : Int) - 0x30)) value, digits.length)

/-- Whether digits before a place, the nearest first, hold one that is not zero. -/
def followsNonZero (before : List Char) : Bool :=
  (before.takeWhile isDecimalDigit).any (· ≠ '0')

/-- Whether a text comes before another from the first place where they differ.
Two letters compare by their codes; a letter comes after any other character,
but before it when a digit stands in front; digits compare as numbers. -/
def differsBefore (before : List Char) (afterDigit : Bool) (a b : Char) (restA restB : List Char) :
    Bool :=
  let letterA := isLetter a
  let letterB := isLetter b
  if letterA && letterB then a < b
  else if letterA || letterB then (if afterDigit then letterA else letterB)
  else
    let base : Int64 := if (a = '0' || b = '0') && followsNonZero before then 1 else 0
    let (numberA, countA) := leadingNumber base (a :: restA)
    let (numberB, countB) := leadingNumber base (b :: restB)
    if numberA ≠ numberB then numberA < numberB
    else if countA ≠ countB then countA < countB
    else a < b

/-- Whether a text comes before another in natural order, after the characters
both start with, the last of them first. -/
def naturalBeforeFrom : (before : List Char) → (afterDigit : Bool) → List Char → List Char → Bool
  | before, afterDigit, a :: restA, b :: restB =>
      if a = b then naturalBeforeFrom (a :: before) (isDecimalDigit a) restA restB
      else differsBefore before afterDigit a b restA restB
  | _, _, [], _ :: _ => true
  | _, _, _, [] => false

def naturalBefore (a b : String) : Bool :=
  naturalBeforeFrom [] false a.toList b.toList

end DocShape.Text
