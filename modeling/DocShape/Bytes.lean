/-!
# Bytes

Little-endian numbers and text as lists of bytes.
-/

namespace DocShape.Bytes

/-- The lowest `width` bytes of a number, lowest first. -/
def ofNat : (width : Nat) → Nat → List UInt8
  | 0, _ => []
  | width + 1, n => UInt8.ofNat n :: ofNat width (n / 256)

/-- The number written by the bytes, lowest first. -/
def toNat : List UInt8 → Nat
  | [] => 0
  | b :: rest => b.toNat + 256 * toNat rest

@[simp]
theorem length_ofNat (width n : Nat) : (ofNat width n).length = width := by
  induction width generalizing n with
  | zero => rfl
  | succ width ih => simp [ofNat, ih]

theorem toNat_ofNat {width n : Nat} (h : n < Nat.pow 256 width) : toNat (ofNat width n) = n := by
  induction width generalizing n with
  | zero =>
      simp only [Nat.pow_eq, Nat.pow_zero, Nat.lt_one_iff] at h
      simp [ofNat, toNat, h]
  | succ width ih =>
      have hdiv : n / 256 < Nat.pow 256 width := by
        rw [Nat.div_lt_iff_lt_mul (by decide)]
        exact h
      simp only [ofNat, toNat, ih hdiv, UInt8.toNat_ofNat']
      omega

def ofText (s : String) : List UInt8 :=
  s.toUTF8.data.toList

/-- How many bytes the character has that a byte starts. -/
def charWidth? (b : UInt8) : Option Nat :=
  let n := b.toNat
  if n < 0x80 then some 1
  else if n < 0xc0 then none
  else if n < 0xe0 then some 2
  else if n < 0xf0 then some 3
  else if n < 0xf8 then some 4
  else none

/-- The least character that needs so many bytes. -/
def leastOfWidth : Nat → Nat
  | 0 | 1 => 0
  | 2 => 0x80
  | 3 => 0x800
  | _ => 0x10000

/-- The character at the start, written in as few bytes as it can be, and the
bytes after it. -/
def readChar? : List UInt8 → Option (Char × List UInt8)
  | [] => none
  | b :: rest =>
      match charWidth? b with
      | none => none
      | some width =>
          let tail := rest.take (width - 1)
          let lead := if width = 1 then b.toNat else b.toNat % Nat.pow 2 (7 - width)
          let n := tail.foldl (fun n t => n * 64 + t.toNat % 64) lead
          if tail.length = width - 1 && tail.all (fun t => t.toNat / 64 = 2)
              && leastOfWidth width ≤ n && n ≤ 0x10ffff && !(0xd800 ≤ n && n ≤ 0xdfff) then
            some (Char.ofNat n, rest.drop (width - 1))
          else none

/-- The characters of the bytes, a replacement character for each byte that belongs
to none. -/
def chars : (fuel : Nat) → List UInt8 → List Char
  | _, [] => []
  | 0, _ => []
  | fuel + 1, b :: rest =>
      match readChar? (b :: rest) with
      | some (c, after) => c :: chars fuel after
      | none => Char.ofNat 0xfffd :: chars fuel rest

/-- The text of the bytes.  It is theirs if they are UTF-8; otherwise each byte that
belongs to no character reads as a replacement character, and other bytes may have the
same text. -/
def toText (bytes : List UInt8) : String :=
  match String.fromUTF8? ⟨bytes.toArray⟩ with
  | some s => s
  | none => String.ofList (chars bytes.length bytes)

/-- The first `count` bytes and the rest, if there are so many. -/
def splitAt? (count : Nat) (bytes : List UInt8) : Option (List UInt8 × List UInt8) :=
  let first := bytes.take count
  if first.length = count then some (first, bytes.drop count) else none

/-- The bytes before the first zero, and those after it. -/
def untilZero? : List UInt8 → Option (List UInt8 × List UInt8)
  | [] => none
  | b :: rest =>
      if b = 0 then some ([], rest)
      else
        match untilZero? rest with
        | some (before, after) => some (b :: before, after)
        | none => none

theorem toText_ofText (s : String) : toText (ofText s) = s := by
  simp [toText, ofText, String.fromUTF8?, s.isValidUTF8, String.fromUTF8]

end DocShape.Bytes
