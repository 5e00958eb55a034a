import DocShape.Proofs.Echo
import DocShape.Proofs.Identity
import DocShape.Proofs.Legible
import DocShape.Proofs.QuotedText

/-!
# Canonical texts are unambiguous

The canonical text of a schema determines the schema, up to statistics, and
where it ends: its first letters give the kind, the parts are read by induction,
and no part begins with a delimiter.  Fingerprints add nothing to confuse but
collisions of the digest.
-/

namespace DocShape

/-! ## Kinds -/

/-- The kind of a schema whose text begins with these letters. -/
def wordKind (word : String) : Kind :=
  if word = "Unsat" then .unsat
  else if word = "Missing" then .missing
  else if word = "Any" then .any
  else if word = "anyOf" then .anyOf
  else .atomic

/-- The kind of the schema that the text begins with. -/
def textKind : List Char → Kind
  | '[' :: _ => .array
  | '\x7b' :: _ => .document
  | text => wordKind (String.ofList (text.takeWhile Char.isAlpha))

theorem textKind_word {w : String} {r : List Char} (hw : w.toList.all Char.isAlpha = true)
    (hr : ∀ c ∈ r.head?, c.isAlpha = false) (hne : w.toList ≠ []) :
    textKind (w.toList ++ r) = wordKind w := by
  obtain ⟨c, rest, hword⟩ := List.exists_cons_of_ne_nil hne
  have hc : c.isAlpha = true := List.all_eq_true.1 hw c (hword ▸ List.mem_cons_self)
  have hspan := takeWhile_word hw hr
  rw [hword, List.cons_append] at hspan ⊢
  rw [textKind, hspan, ← hword, String.ofList_toList]
  all_goals
    intro tail heq
    rw [List.head_eq_of_cons_eq heq] at hc
    exact absurd hc (by decide)

namespace Schema

theorem renderWithin_atomic (n : Nat) (a : Atomic) :
    (atomic a).renderWithin (n + 1) = a.name.toList := rfl

theorem renderWithin_array (n : Nat) (items : Schema) :
    (array items).renderWithin (n + 1) = '[' :: items.renderWithin n ++ [']'] := rfl

theorem renderWithin_document (n : Nat) (d : Document) :
    (document d).renderWithin (n + 1) = d.renderWithin n := rfl

theorem renderWithin_anyOf (n : Nat) (bs : List Schema) :
    (anyOf bs).renderWithin (n + 1) =
      "anyOf(".toList ++ joinChars '|' (renderBranches n bs) ++ [')'] := rfl

end Schema

theorem renderBranches_eq_map (n : Nat) (bs : List Schema) :
    renderBranches n bs = bs.map (Schema.renderWithin n) := by
  induction bs with
  | nil => rfl
  | cons b rest ih => rw [renderBranches, ih, List.map_cons]

theorem renderKeys_eq_map (n : Nat) (keys : List (String × Schema)) :
    renderKeys n keys = keys.map fun entry => (entry.1, entry.2.renderWithin n) := by
  induction keys with
  | nil => rfl
  | cons entry rest ih => rw [renderKeys, ih, List.map_cons]

theorem Atomic.wordKind_word (a : Atomic) : wordKind a.word = .atomic := by
  have hall : ∀ w ∈ words, wordKind w = .atomic := by decide +kernel
  exact hall a.word a.word_mem_words

theorem Document.renderWithin_eq_cons (n : Nat) (d : Document) :
    ∃ rest, d.renderWithin n = '\x7b' :: rest := by
  cases d
  exact ⟨_, rfl⟩

namespace Schema

theorem textKind_renderWithin (s : Schema) (n : Nat) {r : List Char} (hr : Delimited r) :
    textKind (s.renderWithin (n + 1) ++ r) = s.kind := by
  cases s with
  | unsat | missing | any =>
      exact (textKind_word (by decide +kernel) hr.head_not_alpha (by decide +kernel)).trans
        (by decide +kernel)
  | atomic a =>
      rw [renderWithin_atomic, Atomic.toList_name, List.append_assoc,
        textKind_word a.isAlpha_word (a.suffix_not_alpha hr) a.word_ne_nil, Atomic.wordKind_word]
      rfl
  | array items => rfl
  | document d =>
      obtain ⟨rest, hrest⟩ := d.renderWithin_eq_cons n
      rw [renderWithin_document, hrest]
      rfl
  | anyOf bs =>
      have hparen (x : List Char) : ∀ c ∈ ('(' :: x).head?, c.isAlpha = false := by
        intro c hc
        cases hc
        decide
      have hword := textKind_word (w := "anyOf") (by decide +kernel)
        (hparen (joinChars '|' (renderBranches n bs) ++ [')'] ++ r)) (by decide +kernel)
      have hkind : wordKind "anyOf" = .anyOf := by decide +kernel
      exact hword.trans hkind

/-- The text of a schema, the marker for further levels included, begins with a
letter or an opening bracket. -/
theorem exists_opening (s : Schema) (n : Nat) :
    ∃ c rest, s.renderWithin n = c :: rest ∧ isOpening c = true := by
  cases n with
  | zero => cases s <;> exact ⟨'\x7b', _, rfl, by decide⟩
  | succ n =>
      cases s with
      | atomic a =>
          obtain ⟨c, rest, hword⟩ := List.exists_cons_of_ne_nil a.word_ne_nil
          have hc := List.all_eq_true.1 a.isAlpha_word c (hword ▸ List.mem_cons_self)
          refine ⟨c, rest ++ a.suffix, ?_, by simp [isOpening, hc]⟩
          rw [renderWithin_atomic, Atomic.toList_name, hword, List.cons_append]
      | document d =>
          obtain ⟨rest, hrest⟩ := d.renderWithin_eq_cons n
          exact ⟨_, rest, hrest, by decide⟩
      | _ => exact ⟨_, _, rfl, by decide⟩

theorem renderWithin_not_delimited (s : Schema) (n : Nat) : ¬ Delimited (s.renderWithin n) := by
  obtain ⟨c, rest, htext, hc⟩ := s.exists_opening n
  intro h
  rw [htext] at h
  exact absurd hc (by simp [isOpening_of_isDelimiter (h c rfl)])

end Schema

/-! ## Fields of a document type -/

/-- What stands between two commas of a document type. -/
inductive Entry where
  | field (name : String) (required : Bool) (schema? : Option Schema)
  | more

namespace Entry

/-- The canonical text, the schema `n` levels deep. -/
def text (n : Nat) : Entry → List Char
  | field name required schema? =>
      (Text.quote name).toList ++ (if required then ['!'] else [])
        ++ ':' :: (schema?.map (Schema.renderWithin n)).getD ['?']
  | more => "...".toList

/-- The entry without the statistics of its schema. -/
def bare : Entry → Entry
  | field name required schema? => field name required (schema?.map Schema.bare)
  | more => more

/-- The schema of the entry, if it has one, has the property. -/
def Holds (P : Schema → Prop) : Entry → Prop
  | field _ _ schema? => ∀ s ∈ schema?, P s
  | more => True

theorem text_not_delimited (n : Nat) (e : Entry) : ¬ Delimited (e.text n) := by
  intro h
  cases e with
  | field name required schema? =>
      rw [text, Text.toList_quote] at h
      exact absurd (h '"' rfl) (by decide)
  | more => exact absurd (h '.' rfl) (by decide)

variable {P : Schema → Prop} {n : Nat} {r r' : List Char}

private theorem value_append_inj {x y : Option Schema}
    (hx : ∀ s ∈ x, Legible P (Schema.renderWithin n) Schema.bare s) (hy : ∀ s ∈ y, P s)
    (hr : Delimited r) (hr' : Delimited r')
    (h : (x.map (Schema.renderWithin n)).getD ['?'] ++ r
      = (y.map (Schema.renderWithin n)).getD ['?'] ++ r') :
    x.map Schema.bare = y.map Schema.bare ∧ r = r' := by
  have hunknown (s : Schema) (u v : List Char) : s.renderWithin n ++ u ≠ '?' :: v := by
    obtain ⟨c, rest, htext, hc⟩ := s.exists_opening n
    intro heq
    rw [htext] at heq
    rw [List.head_eq_of_cons_eq heq] at hc
    exact absurd hc (by decide)
  cases x with
  | none =>
      cases y with
      | none => exact ⟨rfl, List.tail_eq_of_cons_eq h⟩
      | some t => exact absurd h.symm (hunknown t _ _)
  | some s =>
      cases y with
      | none => exact absurd h (hunknown s _ _)
      | some t =>
          obtain ⟨hbare, hrest⟩ := hx s rfl t (hy t rfl) r r' hr hr' h
          exact ⟨congrArg some hbare, hrest⟩

private theorem mark_append_inj {p q : Bool}
    (h : (if p then ['!'] else []) ++ ':' :: r = (if q then ['!'] else []) ++ ':' :: r') :
    p = q ∧ r = r' := by
  cases p <;> cases q <;> simp_all

theorem legible_text {e : Entry}
    (he : e.Holds (Legible P (Schema.renderWithin n) Schema.bare)) :
    Legible (Holds P) (text n) bare e := by
  intro o ho r r' hr hr' h
  cases e with
  | field name required x =>
      cases o with
      | field name' required' y =>
          simp only [text, List.append_assoc, List.cons_append] at h
          obtain ⟨rfl, hmark⟩ := Text.quote_append_inj h
          obtain ⟨rfl, hvalue⟩ := mark_append_inj hmark
          obtain ⟨hbare, hrest⟩ := value_append_inj he ho hr hr' hvalue
          exact ⟨by rw [bare, bare, hbare], hrest⟩
      | more =>
          rw [text, Text.toList_quote] at h
          exact absurd (List.head_eq_of_cons_eq h) (by decide)
  | more =>
      cases o with
      | field name' required' y =>
          rw [text, text, Text.toList_quote] at h
          exact absurd (List.head_eq_of_cons_eq h) (by decide)
      | more => exact ⟨rfl, List.append_cancel_left h⟩

end Entry

namespace Document

/-- The fields that the type mentions, and whether there may be more. -/
def entries (d : Document) : List Entry :=
  d.fieldNames.map (fun field => .field field (d.requires field) (d.key? field))
    ++ if d.isOpen then [.more] else []

private theorem renderFields_eq_map (n : Nat) (required : NameSet) (keys : FieldMap Schema) :
    renderFields required (renderKeys n keys) =
      (NameSet.union (FieldMap.names keys) required).map fun field =>
        Entry.text n (.field field (required.contains field) (FieldMap.find? keys field)) := by
  have hnames : FieldMap.names (renderKeys n keys) = FieldMap.names keys := by
    rw [renderKeys_eq_map, FieldMap.names, List.map_map]
    rfl
  rw [renderFields, hnames]
  refine List.map_congr_left fun field _ => ?_
  rw [renderField, renderKeys_eq_map, FieldMap.find?_map, Entry.text]

theorem renderWithin_eq_entries (n : Nat) {d : Document} (h : d.references = []) :
    d.renderWithin n = '\x7b' :: joinChars ',' (d.entries.map (Entry.text n)) ++ ['\x7d'] := by
  cases d with
  | mk keys required isOpen references jaccard =>
      cases h
      rw [Document.renderWithin, renderFields_eq_map, entries, List.map_append, List.map_map]
      cases isOpen <;> rfl

variable {d e : Document}

theorem more_mem_entries : Entry.more ∈ d.entries.map Entry.bare ↔ d.isOpen = true := by
  cases hopen : d.isOpen <;> simp [entries, hopen, Entry.bare]

theorem field_mem_entries {field : String} {required : Bool} {value : Option Schema} :
    Entry.field field required value ∈ d.entries.map Entry.bare ↔
      d.mentions field = true ∧ d.requires field = required ∧
        (d.key? field).map Schema.bare = value := by
  have hopen : Entry.field field required value ∉
      (if d.isOpen then [Entry.more] else []).map Entry.bare := by
    cases d.isOpen <;> simp [Entry.bare]
  rw [entries, List.map_append, List.mem_append, or_iff_left hopen, List.map_map, List.mem_map,
    ← mem_fieldNames]
  constructor
  · rintro ⟨other, hmem, heq⟩
    obtain ⟨rfl, hrequired, hvalue⟩ := Entry.field.inj heq
    exact ⟨hmem, hrequired, hvalue⟩
  · rintro ⟨hmem, rfl, rfl⟩
    exact ⟨field, hmem, rfl⟩

/-- What the types say of a field that one of them mentions, both say. -/
theorem eq_of_entries_eq (h : d.entries.map Entry.bare = e.entries.map Entry.bare)
    (field : String) :
    d.requires field = e.requires field ∧
      (d.key? field).map Schema.bare = (e.key? field).map Schema.bare := by
  cases hd : d.mentions field with
  | true =>
      have hmem := field_mem_entries.2 ⟨hd, rfl, rfl⟩
      rw [h] at hmem
      obtain ⟨-, hrequired, hkey⟩ := field_mem_entries.1 hmem
      exact ⟨hrequired.symm, hkey.symm⟩
  | false =>
      have he : e.mentions field = false := by
        rw [← Bool.not_eq_true]
        intro he
        have hmem := field_mem_entries.2 ⟨he, rfl, rfl⟩
        rw [← h] at hmem
        rw [(field_mem_entries.1 hmem).1] at hd
        cases hd
      rw [mentions, Bool.or_eq_false_iff] at hd he
      rw [hasKey, Option.isSome_eq_false_iff, Option.isNone_iff_eq_none] at hd he
      rw [hd.1, hd.2, he.1, he.2]
      exact ⟨rfl, rfl⟩

theorem entries_hold {P : Schema → Prop} (h : ∀ s ∈ (Schema.document d).children, P s) :
    ∀ entry ∈ d.entries, entry.Holds P := by
  intro entry hentry
  rcases List.mem_append.1 hentry with hfield | hmore
  · obtain ⟨field, -, rfl⟩ := List.mem_map.1 hfield
    exact fun s hs => h s (List.mem_map_of_mem (mem_of_key? hs))
  · split at hmore
    · rw [List.mem_singleton.1 hmore]
      trivial
    · cases hmore

theorem Ordered.bare_eq_of_entries_eq (hd : d.Ordered) (he : e.Ordered)
    (hreferences : d.references = e.references)
    (h : d.entries.map Entry.bare = e.entries.map Entry.bare) : d.bare = e.bare := by
  refine Ordered.ext hd.bare he.bare (fun field => ?_) (fun field => ?_) ?_ ?_ ?_
  · rw [key?_bare, key?_bare, (eq_of_entries_eq h field).2]
  · rw [requires_bare, requires_bare, (eq_of_entries_eq h field).1]
  · rw [bare_isOpen, bare_isOpen, Bool.eq_iff_iff, ← more_mem_entries, ← more_mem_entries, h]
  · rw [bare_references, bare_references, hreferences]
  · rw [bare_jaccard, bare_jaccard]

/-- The closing brace ends a document type, whatever follows. -/
theorem renderWithin_append_inj {P : Schema → Prop} {n : Nat} {r r' : List Char}
    (hd : d.Ordered ∧ d.references = []) (he : e.Ordered ∧ e.references = [])
    (hdkeys : ∀ s ∈ (Schema.document d).children,
      Legible P (Schema.renderWithin n) Schema.bare s)
    (hekeys : ∀ s ∈ (Schema.document e).children, P s)
    (h : d.renderWithin n ++ r = e.renderWithin n ++ r') : d.bare = e.bare ∧ r = r' := by
  simp only [renderWithin_eq_entries n hd.2, renderWithin_eq_entries n he.2, List.cons_append,
    List.append_assoc] at h
  have hlegible : ∀ entry ∈ d.entries, Legible (Entry.Holds P) (Entry.text n) Entry.bare entry :=
    fun entry hmem => Entry.legible_text (entries_hold hdkeys entry hmem)
  obtain ⟨hentries, hrest⟩ := joinChars_append_inj (by decide) (by decide) (by decide)
    (Entry.text_not_delimited n) hlegible (entries_hold hekeys) (List.tail_eq_of_cons_eq h)
  exact ⟨hd.1.bare_eq_of_entries_eq he.1 (hd.2.trans he.2.symm) hentries, hrest⟩

end Document

/-! ## Schemas -/

namespace Schema

/-- A document type lists its fields in order and has no references. -/
def SelfContainedHere : Schema → Prop
  | .document d => d.Ordered ∧ d.references = []
  | _ => True

instance : DecidablePred SelfContainedHere
  | .document d => inferInstanceAs (Decidable (d.Ordered ∧ d.references = []))
  | .unsat | .missing | .atomic _ | .array _ | .anyOf _ | .any => .isTrue trivial

/-- All of the schema shows in a text of `n` levels. -/
def ShownWithin (n : Nat) (s : Schema) : Prop :=
  s.Everywhere SelfContainedHere ∧ s.depth ≤ n

private theorem depth_lt_of_mem_children {s t : Schema} (h : t ∈ s.children) : t.depth < s.depth := by
  cases s with
  | array items =>
      rw [children_array, List.mem_singleton] at h
      rw [h, depth]
      exact Nat.lt_succ_self _
  | document d =>
      obtain ⟨entry, hmem, rfl⟩ := List.mem_map.1 h
      have hdepth : d.keysDepth = keysDepth d.keys := by cases d; rfl
      rw [depth, hdepth]
      exact Nat.lt_succ_of_le (keysDepth_le_iff.1 (Nat.le_refl _) entry hmem)
  | anyOf bs =>
      rw [depth]
      exact Nat.lt_succ_of_le (branchesDepth_le_iff.1 (Nat.le_refl _) t h)
  | _ => cases h

theorem ShownWithin.inside {n : Nat} {s t : Schema} (h : ShownWithin (n + 1) s)
    (ht : t ∈ s.children) : ShownWithin n t :=
  ⟨h.1.inside ht, Nat.le_of_lt_succ (Nat.lt_of_lt_of_le (depth_lt_of_mem_children ht) h.2)⟩

/-- A canonical text determines its schema up to statistics, and where it ends. -/
theorem legible_renderWithin {s : Schema} {n : Nat} (hs : ShownWithin n s) :
    Legible (ShownWithin n) (renderWithin n) bare s := by
  induction s using induction_children generalizing n with
  | step s ih =>
      cases n with
      | zero => exact absurd hs.2 (Nat.not_le_of_lt s.depth_pos)
      | succ n =>
          intro t ht r r' hr hr' h
          have hkind : t.kind = s.kind := by
            rw [← textKind_renderWithin t n hr', ← h, textKind_renderWithin s n hr]
          have hinside : ∀ u ∈ s.children, Legible (ShownWithin n) (renderWithin n) bare u :=
            fun u hu => ih u hu (hs.inside hu)
          cases s with
          | unsat | missing | any =>
              cases t <;> cases hkind
              exact ⟨rfl, List.append_cancel_left h⟩
          | atomic a =>
              obtain ⟨b, rfl⟩ := kind_eq_atomic hkind
              obtain ⟨rfl, hrest⟩ := Atomic.name_append_inj hr hr' h
              exact ⟨rfl, hrest⟩
          | array x =>
              obtain ⟨y, rfl⟩ := kind_eq_array hkind
              simp only [renderWithin_array, List.cons_append, List.append_assoc] at h
              have hclosed (u : List Char) : Delimited (']' :: u) := delimited_cons (by decide)
              obtain ⟨hbare, hrest⟩ := hinside x (List.mem_singleton_self x) y
                (ht.inside (List.mem_singleton_self y)) _ _ (hclosed r) (hclosed r')
                (List.tail_eq_of_cons_eq h)
              exact ⟨congrArg Schema.array hbare, List.tail_eq_of_cons_eq hrest⟩
          | document d =>
              obtain ⟨e, rfl⟩ := kind_eq_document hkind
              obtain ⟨hbare, hrest⟩ := Document.renderWithin_append_inj hs.1.here ht.1.here hinside
                (fun u hu => ht.inside hu) h
              exact ⟨congrArg Schema.document hbare, hrest⟩
          | anyOf as =>
              obtain ⟨bs, rfl⟩ := kind_eq_anyOf hkind
              simp only [renderWithin_anyOf, renderBranches_eq_map, List.append_assoc,
                List.append_cancel_left_eq] at h
              obtain ⟨hbare, hrest⟩ := joinChars_append_inj (by decide) (by decide) (by decide)
                (fun u => renderWithin_not_delimited u n) hinside (fun b hb => ht.inside hb) h
              rw [bare_anyOf, bare_anyOf]
              exact ⟨congrArg Schema.anyOf hbare, hrest⟩

/-- A text shows no statistics. -/
theorem renderWithin_bare (s : Schema) (n : Nat) : s.bare.renderWithin n = s.renderWithin n := by
  induction s using induction_children generalizing n with
  | step s ih =>
      cases n with
      | zero => cases s <;> rfl
      | succ n =>
          cases s with
          | array x =>
              rw [bare_array, renderWithin_array, renderWithin_array,
                ih x (List.mem_singleton_self x)]
          | document d =>
              have hkeys : renderKeys n d.bare.keys = renderKeys n d.keys := by
                rw [renderKeys_eq_map, renderKeys_eq_map, Document.bare_keys, List.map_map]
                refine List.map_congr_left fun entry hmem => ?_
                exact congrArg (Prod.mk entry.1) (ih entry.2 (List.mem_map_of_mem hmem) n)
              rw [bare_document, renderWithin_document, renderWithin_document]
              cases d
              rw [Document.bare] at hkeys ⊢
              rw [Document.renderWithin, Document.renderWithin, hkeys]
          | anyOf bs =>
              have hbranches : renderBranches n (bs.map bare) = renderBranches n bs := by
                rw [renderBranches_eq_map, renderBranches_eq_map, List.map_map]
                exact List.map_congr_left fun b hb => ih b hb n
              rw [bare_anyOf, renderWithin_anyOf, renderWithin_anyOf, hbranches]
          | _ => rfl

theorem render_eq_iff {a b : Schema} (ha : a.ShownWithin renderedLevels)
    (hb : b.ShownWithin renderedLevels) : a.render = b.render ↔ a.bare = b.bare := by
  have hend : Delimited [] := fun c hc => by cases hc
  constructor
  · intro h
    have htext : a.renderWithin renderedLevels ++ [] = b.renderWithin renderedLevels ++ [] := by
      rw [List.append_nil, List.append_nil]
      exact String.ofList_inj.1 h
    exact (legible_renderWithin ha b hb [] [] hend hend htext).1
  · intro h
    rw [render, render, ← renderWithin_bare a, ← renderWithin_bare b, h]

end Schema

/-! ## Fingerprints -/

namespace Sha256

/-- Two messages with one digest. -/
def Collide (m m' : List UInt8) : Prop :=
  m ≠ m' ∧ digest m = digest m'

def State.words (s : State) : List UInt32 :=
  [s.a, s.b, s.c, s.d, s.e, s.f, s.g, s.h]

theorem State.words_inj {s t : State} (h : s.words = t.words) : s = t := by
  cases s
  cases t
  simp only [State.words, List.cons.injEq, and_true] at h
  simp only [State.mk.injEq]
  exact h

private theorem hexWords_inj {us vs : List UInt32}
    (h : us.flatMap (fun w => Text.hexDigits 8 w.toNat)
      = vs.flatMap fun w => Text.hexDigits 8 w.toNat) : us = vs := by
  induction us generalizing vs with
  | nil =>
      cases vs with
      | nil => rfl
      | cons v vs => simpa using congrArg List.length h.symm
  | cons u us ih =>
      cases vs with
      | nil => simpa using congrArg List.length h
      | cons v vs =>
          rw [List.flatMap_cons, List.flatMap_cons] at h
          obtain ⟨hdigits, hrest⟩ := List.append_inj h (by simp)
          have hword : u.toNat = v.toNat := Text.hexDigits_inj u.toNat_lt v.toNat_lt hdigits
          rw [UInt32.toNat_inj.1 hword, ih hrest]

theorem hexDigest_eq_iff {m m' : List UInt8} :
    hexDigest m = hexDigest m' ↔ digest m = digest m' := by
  refine ⟨fun h => ?_, fun h => by rw [hexDigest, hexDigest, h]⟩
  exact State.words_inj (hexWords_inj (String.ofList_inj.1 h))

end Sha256

theorem Bytes.ofText_inj {s t : String} (h : Bytes.ofText s = Bytes.ofText t) : s = t := by
  rw [← Bytes.toText_ofText s, h, Bytes.toText_ofText]

namespace Schema

/-- The canonical text is faithful.  Two schemas without references, at most as
deep as a text shows, have one text exactly if they are the same, and one
fingerprint exactly if they are the same or their texts collide. -/
theorem render_faithful {a b : Schema} (ha : a.Everywhere SelfContainedHere)
    (hb : b.Everywhere SelfContainedHere) (hadepth : a.depth ≤ 1001) (hbdepth : b.depth ≤ 1001) :
    (a.render = b.render ↔ a.same b = true) ∧
      (a.fingerprint = b.fingerprint ↔
        a.same b = true ∨ Sha256.Collide (Bytes.ofText a.render) (Bytes.ofText b.render)) := by
  have hrender : a.render = b.render ↔ a.same b = true := by
    rw [same_iff_bare_eq]
    exact render_eq_iff ⟨ha, hadepth⟩ ⟨hb, hbdepth⟩
  refine ⟨hrender, ?_⟩
  rw [fingerprint, fingerprint, Sha256.hexDigest_eq_iff, ← hrender]
  constructor
  · intro hdigest
    by_cases htext : a.render = b.render
    · exact .inl htext
    · exact .inr ⟨fun hbytes => htext (Bytes.ofText_inj hbytes), hdigest⟩
  · rintro (htext | hcollide)
    · rw [htext]
    · exact hcollide.2

/-- Two fields share their text and fingerprint with the same fields counted, and
neither with one field whose name holds what stands between the two. -/
theorem render_faithful_fields :
    let keys : FieldMap Schema :=
      [("a", .atomic .javascript), ("b", .anyOf [.atomic (.unassigned 0), .array .any])]
    let pair : Schema := .document ⟨keys, ["b", "c"], true, [], none⟩
    let counted : Schema := .document ⟨keys, ["b", "c"], true, [], some (.fresh 0.8)⟩
    let joined : Schema := .document
      ⟨[("a\":javascript,\"b", .anyOf [.atomic (.unassigned 0), .array .any])],
        ["a\":javascript,\"b", "c"], true, [], none⟩
    pair.Everywhere SelfContainedHere ∧ counted.Everywhere SelfContainedHere ∧
      joined.Everywhere SelfContainedHere ∧ pair.depth ≤ 1001 ∧ counted.depth ≤ 1001 ∧
      joined.depth ≤ 1001 ∧ counted.render = pair.render ∧
      counted.fingerprint = pair.fingerprint ∧ pair.render ≠ joined.render := by
  intro keys pair counted joined
  have hpair : pair.Everywhere SelfContainedHere := by decide +kernel
  have hcounted : counted.Everywhere SelfContainedHere := by decide +kernel
  have hjoined : joined.Everywhere SelfContainedHere := by decide +kernel
  have hpairDepth : pair.depth ≤ 1001 := by decide +kernel
  have hcountedDepth : counted.depth ≤ 1001 := by decide +kernel
  have hjoinedDepth : joined.depth ≤ 1001 := by decide +kernel
  have hsame : counted.same pair = true := by decide +kernel
  have hdifferent : pair.same joined ≠ true := by decide +kernel
  obtain ⟨hrender, hfingerprint⟩ := render_faithful hcounted hpair hcountedDepth hpairDepth
  obtain ⟨hapart, -⟩ := render_faithful hpair hjoined hpairDepth hjoinedDepth
  exact ⟨hpair, hcounted, hjoined, hpairDepth, hcountedDepth, hjoinedDepth, hrender.2 hsame,
    hfingerprint.2 (.inl hsame), fun htext => hdifferent (hapart.1 htext)⟩

end Schema

end DocShape
