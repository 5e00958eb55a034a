import DocShape.Schema.Render

/-!
# Texts that can be cut apart

What follows a schema within a canonical text ends the text or is a delimiter.
Words before a delimiter are told apart even where one begins like another, and
a list of texts is cut at its separators, if each of its texts is `Legible`.
-/

namespace DocShape

/-! ## Delimiters -/

/-- The characters that follow a schema within a canonical text. -/
def isDelimiter (c : Char) : Bool :=
  c = '|' || c = ')' || c = ']' || c = ',' || c = '\x7d'

/-- The text ends, or goes on with a delimiter. -/
def Delimited (text : List Char) : Prop :=
  ∀ c ∈ text.head?, isDelimiter c = true

/-- The characters that a schema's canonical text begins with. -/
def isOpening (c : Char) : Bool :=
  c.isAlpha || c = '[' || c = '\x7b'

theorem delimited_cons {c : Char} {rest : List Char} (h : isDelimiter c = true) :
    Delimited (c :: rest) := by
  intro d hd
  cases hd
  exact h

theorem Delimited.of_append {t r : List Char} (h : Delimited (t ++ r)) : Delimited t := by
  cases t with
  | nil =>
      intro c hc
      cases hc
  | cons c rest => exact h

theorem isOpening_of_isDelimiter {c : Char} (h : isDelimiter c = true) : isOpening c = false := by
  simp only [isDelimiter, Bool.or_eq_true, decide_eq_true_iff] at h
  rcases h with (((rfl | rfl) | rfl) | rfl) | rfl <;> decide

theorem Delimited.head_not_alpha {r : List Char} (h : Delimited r) :
    ∀ c ∈ r.head?, c.isAlpha = false := by
  intro c hc
  have hopening := isOpening_of_isDelimiter (h c hc)
  simp only [isOpening, Bool.or_eq_false_iff] at hopening
  exact hopening.1.1

/-! ## Words -/

section Words

variable {p : Char → Bool} {w w' r r' : List Char}

theorem takeWhile_word (hw : w.all p = true) (hr : ∀ c ∈ r.head?, p c = false) :
    (w ++ r).takeWhile p = w := by
  rw [List.takeWhile_append_of_pos (List.all_eq_true.1 hw)]
  cases r with
  | nil => exact List.append_nil w
  | cons c rest => rw [List.takeWhile_cons_of_neg (by simp [hr c rfl]), List.append_nil]

theorem word_append_inj (hw : w.all p = true) (hw' : w'.all p = true)
    (hr : ∀ c ∈ r.head?, p c = false) (hr' : ∀ c ∈ r'.head?, p c = false)
    (h : w ++ r = w' ++ r') : w = w' ∧ r = r' := by
  have hword : w = w' := by rw [← takeWhile_word hw hr, h, takeWhile_word hw' hr']
  subst hword
  exact ⟨rfl, List.append_cancel_left h⟩

end Words

theorem toList_repr_inj {n m : Nat} (h : (Nat.repr n).toList = (Nat.repr m).toList) : n = m := by
  rw [Nat.repr, Nat.repr, String.toList_ofList, String.toList_ofList] at h
  have hread := congrArg (Nat.ofDigitChars 10 · 0) h
  simpa only [Nat.ofDigitChars_ten_toDigits] using hread

theorem isDigit_repr (n : Nat) : (Nat.repr n).toList.all Char.isDigit = true := by
  rw [Nat.repr, String.toList_ofList, List.all_eq_true]
  intro c hc
  exact Nat.isDigit_of_mem_toDigits (by decide) (by decide) hc

/-! ## Lists of texts -/

section Lists

variable {α β : Type} {P : α → Prop} {text : α → List Char} {view : α → β}

/-- Before a delimiter, the text of `a` is the text of nothing that looks
different, and it ends where it ends. -/
def Legible (P : α → Prop) (text : α → List Char) (view : α → β) (a : α) : Prop :=
  ∀ b, P b → ∀ r r', Delimited r → Delimited r' → text a ++ r = text b ++ r' →
    view a = view b ∧ r = r'

theorem joinChars_cons (separator : Char) (t : List Char) (ts : List (List Char)) :
    joinChars separator (t :: ts) = t ++ ts.flatMap (separator :: ·) := by
  induction ts generalizing t with
  | nil => simp [joinChars]
  | cons u us ih =>
      rw [joinChars, ih, List.flatMap_cons, List.cons_append]
      exact List.cons_ne_nil u us

variable {separator close : Char} {as bs : List α} {r r' : List Char}

theorem delimited_separated (hseparator : isDelimiter separator = true)
    (hclose : isDelimiter close = true) (as : List α) (r : List Char) :
    Delimited (as.flatMap (fun a => separator :: text a) ++ close :: r) := by
  cases as with
  | nil => exact delimited_cons hclose
  | cons a as => exact delimited_cons hseparator

private theorem separated_append_inj (hseparator : isDelimiter separator = true)
    (hclose : isDelimiter close = true) (hne : separator ≠ close)
    (has : ∀ a ∈ as, Legible P text view a) (hbs : ∀ b ∈ bs, P b)
    (h : as.flatMap (fun a => separator :: text a) ++ close :: r
      = bs.flatMap (fun b => separator :: text b) ++ close :: r') :
    as.map view = bs.map view ∧ r = r' := by
  induction as generalizing bs with
  | nil =>
      cases bs with
      | nil => exact ⟨rfl, List.tail_eq_of_cons_eq h⟩
      | cons b bs => exact absurd (List.head_eq_of_cons_eq h).symm hne
  | cons a as ih =>
      cases bs with
      | nil => exact absurd (List.head_eq_of_cons_eq h) hne
      | cons b bs =>
          obtain ⟨ha, has⟩ := List.forall_mem_cons.1 has
          obtain ⟨hb, hbs⟩ := List.forall_mem_cons.1 hbs
          simp only [List.flatMap_cons, List.cons_append, List.append_assoc] at h
          obtain ⟨hview, hrest⟩ := ha b hb _ _ (delimited_separated hseparator hclose as r)
            (delimited_separated hseparator hclose bs r') (List.tail_eq_of_cons_eq h)
          obtain ⟨hviews, hr⟩ := ih has hbs hrest
          exact ⟨by rw [List.map_cons, List.map_cons, hview, hviews], hr⟩

/-- Texts that no delimiter begins are told apart within a list. -/
theorem joinChars_append_inj (hseparator : isDelimiter separator = true)
    (hclose : isDelimiter close = true) (hne : separator ≠ close)
    (hopens : ∀ a, ¬ Delimited (text a)) (has : ∀ a ∈ as, Legible P text view a)
    (hbs : ∀ b ∈ bs, P b)
    (h : joinChars separator (as.map text) ++ close :: r
      = joinChars separator (bs.map text) ++ close :: r') :
    as.map view = bs.map view ∧ r = r' := by
  -- A list with a first text does not begin as an empty list's closing does.
  have hempty (a : α) (x y : List Char) : close :: x ≠ text a ++ y := by
    intro heq
    exact hopens a (Delimited.of_append (heq ▸ delimited_cons hclose))
  cases as with
  | nil =>
      cases bs with
      | nil => exact ⟨rfl, List.tail_eq_of_cons_eq h⟩
      | cons b bs =>
          rw [List.map_cons, joinChars_cons, List.append_assoc] at h
          exact absurd h (hempty b _ _)
  | cons a as =>
      rw [List.map_cons, joinChars_cons, List.append_assoc, List.flatMap_map] at h
      cases bs with
      | nil => exact absurd h.symm (hempty a _ _)
      | cons b bs =>
          rw [List.map_cons, joinChars_cons, List.append_assoc, List.flatMap_map] at h
          obtain ⟨ha, has⟩ := List.forall_mem_cons.1 has
          obtain ⟨hb, hbs⟩ := List.forall_mem_cons.1 hbs
          obtain ⟨hview, hrest⟩ := ha b hb _ _ (delimited_separated hseparator hclose as r)
            (delimited_separated hseparator hclose bs r') h
          obtain ⟨hviews, hr⟩ := separated_append_inj hseparator hclose hne has hbs hrest
          exact ⟨by rw [List.map_cons, List.map_cons, hview, hviews], hr⟩

end Lists

/-! ## Names of atomic kinds -/

namespace Atomic

/-- The letters that the name of a kind begins with. -/
def word : Atomic → String
  | unassigned _ => "atomic"
  | a => a.name

/-- What follows the letters: the code of a kind without an alias. -/
def suffix : Atomic → List Char
  | unassigned offset => '(' :: (Nat.repr (19 + offset.val)).toList ++ [')']
  | _ => []

theorem toList_name (a : Atomic) : a.name.toList = a.word.toList ++ a.suffix := by
  cases a with
  | unassigned offset =>
      simp only [name, word, suffix, String.toList_append]
      rfl
  | _ => exact (List.append_nil _).symm

/-- The letters that names begin with. -/
def words : List String :=
  "atomic" :: named.map name

theorem word_mem_words (a : Atomic) : a.word ∈ words := by
  cases a with
  | unassigned offset => exact List.mem_cons_self
  | _ => decide +kernel

theorem isAlpha_word (a : Atomic) : a.word.toList.all Char.isAlpha = true := by
  have hall : ∀ w ∈ words, w.toList.all Char.isAlpha = true := by decide +kernel
  exact hall a.word a.word_mem_words

theorem word_ne_nil (a : Atomic) : a.word.toList ≠ [] := by
  have hall : ∀ w ∈ words, w.toList ≠ [] := by decide +kernel
  exact hall a.word a.word_mem_words

theorem suffix_not_alpha (a : Atomic) {r : List Char} (hr : Delimited r) :
    ∀ c ∈ (a.suffix ++ r).head?, c.isAlpha = false := by
  cases a with
  | unassigned offset =>
      intro c hc
      cases hc
      decide
  | _ => exact hr.head_not_alpha

/-- The letters tell a kind with an alias from every other. -/
theorem ofName?_word (a : Atomic) : ofName? a.word = if a.isNamed then some a else none := by
  cases a with
  | unassigned offset =>
      rw [word, isNamed, if_neg Bool.false_ne_true]
      decide +kernel
  | _ => decide +kernel

theorem eq_unassigned {a : Atomic} (h : a.isNamed = false) : ∃ offset, a = unassigned offset := by
  cases a with
  | unassigned offset => exact ⟨offset, rfl⟩
  | _ => cases h

private theorem suffix_append_inj {i j : Fin 237} {r r' : List Char}
    (h : (unassigned i).suffix ++ r = (unassigned j).suffix ++ r') : i = j ∧ r = r' := by
  have hparen (x : List Char) : ∀ c ∈ ([')'] ++ x).head?, c.isDigit = false := by
    intro c hc
    cases hc
    decide
  simp only [suffix, List.cons_append, List.append_assoc] at h
  obtain ⟨hdigits, hrest⟩ := word_append_inj (isDigit_repr _) (isDigit_repr _) (hparen r)
    (hparen r') (List.tail_eq_of_cons_eq h)
  have hcode : 19 + i.val = 19 + j.val := toList_repr_inj hdigits
  exact ⟨Fin.ext (Nat.add_left_cancel hcode), List.append_cancel_left hrest⟩

theorem name_append_inj {a b : Atomic} {r r' : List Char} (hr : Delimited r)
    (hr' : Delimited r') (h : a.name.toList ++ r = b.name.toList ++ r') : a = b ∧ r = r' := by
  rw [toList_name, toList_name, List.append_assoc, List.append_assoc] at h
  obtain ⟨hword, hrest⟩ := word_append_inj a.isAlpha_word b.isAlpha_word
    (a.suffix_not_alpha hr) (b.suffix_not_alpha hr') h
  have hread := congrArg ofName? (String.toList_inj.1 hword)
  rw [ofName?_word, ofName?_word] at hread
  cases ha : a.isNamed with
  | true =>
      cases hb : b.isNamed with
      | true =>
          rw [ha, hb] at hread
          obtain rfl : a = b := Option.some.inj hread
          exact ⟨rfl, List.append_cancel_left hrest⟩
      | false =>
          rw [ha, hb] at hread
          cases hread
  | false =>
      cases hb : b.isNamed with
      | true =>
          rw [ha, hb] at hread
          cases hread
      | false =>
          obtain ⟨i, rfl⟩ := eq_unassigned ha
          obtain ⟨j, rfl⟩ := eq_unassigned hb
          obtain ⟨rfl, hr⟩ := suffix_append_inj hrest
          exact ⟨rfl, hr⟩

end Atomic

end DocShape
