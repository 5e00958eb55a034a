import Mathlib.Algebra.Group.Nat.Defs
import DocShape.Text.Printable

/-!
# Quoted text can be read back

Hexadecimal digits determine the number they write.  Each character of a quoted
text is read back by `readQuotedChar`, whatever follows it, and the closing
quote is no character's first: a quoted text determines what was quoted and
where it ends.
-/

namespace DocShape.Text

/-! ## Hexadecimal digits -/

private theorem hexValue?_hexDigit : ∀ n < 16, hexValue? (hexDigit n) = some n := by
  decide

@[simp] theorem length_hexDigits (width n : Nat) : (hexDigits width n).length = width := by
  induction width generalizing n with
  | zero => rfl
  | succ width ih => simp [hexDigits, ih]

private theorem hexNumber?_concat (digits : List Char) {c : Char} {value : Nat}
    (h : hexValue? c = some value) :
    hexNumber? (digits ++ [c]) = (hexNumber? digits).map fun n => 16 * n + value := by
  rw [hexNumber?, List.foldl_append, List.foldl_cons, List.foldl_nil, h, ← hexNumber?]
  cases hexNumber? digits <;> rfl

theorem hexNumber?_hexDigits {width n : Nat} (h : n < 16 ^ width) :
    hexNumber? (hexDigits width n) = some n := by
  induction width generalizing n with
  | zero =>
      have hzero : n = 0 := by simpa using h
      rw [hzero]
      rfl
  | succ width ih =>
      have hdiv : n / 16 < 16 ^ width := by
        rw [Nat.div_lt_iff_lt_mul (by decide)]
        exact h
      rw [hexDigits, hexNumber?_concat _ (hexValue?_hexDigit _ (Nat.mod_lt n (by decide))), ih hdiv]
      exact congrArg some (Nat.div_add_mod n 16)

theorem hexDigits_inj {width n m : Nat} (hn : n < 16 ^ width) (hm : m < 16 ^ width)
    (h : hexDigits width n = hexDigits width m) : n = m := by
  have hread := congrArg hexNumber? h
  rw [hexNumber?_hexDigits hn, hexNumber?_hexDigits hm] at hread
  exact Option.some.inj hread

/-! ## One character -/

/-- The character of a code point in `width` hexadecimal digits, and what follows. -/
def readCodePoint (width : Nat) (text : List Char) : Option (Char × List Char) :=
  (hexNumber? (text.take width)).map fun n => (Char.ofNat n, text.drop width)

/-- The character of an escape after its backslash, and what follows. -/
def readEscape : List Char → Option (Char × List Char)
  | [] => none
  | 'a' :: rest => some (Char.ofNat 0x07, rest)
  | 'b' :: rest => some (Char.ofNat 0x08, rest)
  | 'f' :: rest => some (Char.ofNat 0x0c, rest)
  | 'n' :: rest => some (Char.ofNat 0x0a, rest)
  | 'r' :: rest => some (Char.ofNat 0x0d, rest)
  | 't' :: rest => some (Char.ofNat 0x09, rest)
  | 'v' :: rest => some (Char.ofNat 0x0b, rest)
  | 'x' :: rest => readCodePoint 2 rest
  | 'u' :: rest => readCodePoint 4 rest
  | 'U' :: rest => readCodePoint 8 rest
  | c :: rest => some (c, rest)

/-- The first character of a text within quotes, and what follows. -/
def readQuotedChar : List Char → Option (Char × List Char)
  | [] => none
  | '\\' :: rest => readEscape rest
  | c :: rest => some (c, rest)

theorem readCodePoint_hexDigits {width : Nat} {c : Char} (h : c.toNat < 16 ^ width)
    (rest : List Char) :
    readCodePoint width (hexDigits width c.toNat ++ rest) = some (c, rest) := by
  have hwidth := length_hexDigits width c.toNat
  rw [readCodePoint, List.take_left' hwidth, List.drop_left' hwidth, hexNumber?_hexDigits h,
    Option.map_some, Char.ofNat_toNat]

/-- No escape is mistaken for another, and none for a character that stands for
itself. -/
theorem readQuotedChar_quoteChar (c : Char) (rest : List Char) :
    readQuotedChar (quoteChar c ++ rest) = some (c, rest) := by
  unfold quoteChar
  split
  · rename_i hescaped
    rw [Bool.or_eq_true, decide_eq_true_iff, decide_eq_true_iff] at hescaped
    rcases hescaped with rfl | rfl <;> rfl
  rename_i hplain
  split
  · rw [List.singleton_append, readQuotedChar]
    rintro rfl
    exact hplain rfl
  split
  case h_8 =>
    split
    · exact readCodePoint_hexDigits (by simp; omega) rest
    split
    · exact readCodePoint_hexDigits (by simp; omega) rest
    · exact readCodePoint_hexDigits c.val.toNat_lt rest
  -- The escapes with a letter of their own.
  all_goals
    rename_i hcode
    rw [← Char.ofNat_toNat c, hcode]
    rfl

private theorem quoteChar_append_inj {c d : Char} {r r' : List Char}
    (h : quoteChar c ++ r = quoteChar d ++ r') : c = d ∧ r = r' := by
  have hread := congrArg readQuotedChar h
  rw [readQuotedChar_quoteChar, readQuotedChar_quoteChar] at hread
  exact Prod.mk.inj (Option.some.inj hread)

/-- The closing quote begins no character of a quoted text. -/
theorem quoteChar_append_ne_quote (c : Char) (r r' : List Char) :
    quoteChar c ++ r ≠ '"' :: r' := by
  intro h
  have hread := congrArg readQuotedChar h
  rw [readQuotedChar_quoteChar] at hread
  obtain ⟨rfl, rfl⟩ := Prod.mk.inj (Option.some.inj hread)
  have hhead : '\\' = '"' := List.head_eq_of_cons_eq h
  exact absurd hhead (by decide)

/-! ## A whole text -/

private theorem quotedChars_append_inj {cs ds r r' : List Char}
    (h : cs.flatMap quoteChar ++ '"' :: r = ds.flatMap quoteChar ++ '"' :: r') :
    cs = ds ∧ r = r' := by
  induction cs generalizing ds with
  | nil =>
      cases ds with
      | nil => exact ⟨rfl, List.tail_eq_of_cons_eq h⟩
      | cons d ds =>
          rw [List.flatMap_cons, List.append_assoc] at h
          exact absurd h.symm (quoteChar_append_ne_quote d _ _)
  | cons c cs ih =>
      rw [List.flatMap_cons, List.append_assoc] at h
      cases ds with
      | nil => exact absurd h (quoteChar_append_ne_quote c _ _)
      | cons d ds =>
          rw [List.flatMap_cons, List.append_assoc] at h
          obtain ⟨rfl, htail⟩ := quoteChar_append_inj h
          obtain ⟨rfl, hrest⟩ := ih htail
          exact ⟨rfl, hrest⟩

theorem toList_quote (s : String) :
    (quote s).toList = '"' :: (s.toList.flatMap quoteChar ++ ['"']) := by
  rw [quote, String.toList_ofList, List.cons_append]

/-- A quoted text determines what was quoted and where it ends. -/
theorem quote_append_inj {s t : String} {r r' : List Char}
    (h : (quote s).toList ++ r = (quote t).toList ++ r') : s = t ∧ r = r' := by
  simp only [toList_quote, List.cons_append, List.append_assoc] at h
  obtain ⟨hchars, hrest⟩ := quotedChars_append_inj (List.tail_eq_of_cons_eq h)
  exact ⟨String.toList_inj.1 hchars, hrest⟩

end DocShape.Text
