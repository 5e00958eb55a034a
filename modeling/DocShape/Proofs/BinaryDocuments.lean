import DocShape.Bson.Raw
import Mathlib.Algebra.Group.Nat.Defs
import Mathlib.Data.List.Basic

/-!
# Reading what was written

A written document is read back one level at a time: every element comes with
its name, its type and exactly the bytes of its value.  Names and patterns are
ended by a zero, so they must hold none, and a size has to stay below the sign
bit of its four bytes.
-/

namespace DocShape

namespace Bytes

theorem splitAt?_append (bytes rest : List UInt8) :
    splitAt? bytes.length (bytes ++ rest) = some (bytes, rest) := by
  simp [splitAt?]

theorem untilZero?_append {bytes : List UInt8} (h : 0 ∉ bytes) (rest : List UInt8) :
    untilZero? (bytes ++ 0 :: rest) = some (bytes, rest) := by
  induction bytes with
  | nil => simp [untilZero?]
  | cons b bytes ih =>
      rw [List.mem_cons, not_or] at h
      have hb : b ≠ 0 := Ne.symm h.1
      simp [untilZero?, hb, ih h.2]

/-- Only the zero character is written with a zero byte. -/
theorem zero_notMem_utf8EncodeChar {c : Char} (h : c.toNat ≠ 0) :
    0 ∉ String.utf8EncodeChar c := by
  have hzero {n : Nat} (hn : 0 < n) (hlt : n < 256) : (0 : UInt8) ≠ UInt8.ofNat n := by
    intro heq
    have := congrArg UInt8.toNat heq
    rw [UInt8.toNat_ofNat_of_lt' hlt] at this
    simp only [UInt8.toNat_zero] at this
    omega
  have hc : 0 < c.val.toNat := Nat.pos_of_ne_zero h
  simp only [String.utf8EncodeChar]
  split
  · simp only [List.mem_singleton]
    exact hzero hc (by omega)
  · split
    · simp only [List.mem_cons, List.not_mem_nil, or_false, not_or]
      exact ⟨hzero (by omega) (by omega), hzero (by omega) (by omega)⟩
    · split
      · simp only [List.mem_cons, List.not_mem_nil, or_false, not_or]
        exact ⟨hzero (by omega) (by omega), hzero (by omega) (by omega),
          hzero (by omega) (by omega)⟩
      · simp only [List.mem_cons, List.not_mem_nil, or_false, not_or]
        exact ⟨hzero (by omega) (by omega), hzero (by omega) (by omega),
          hzero (by omega) (by omega), hzero (by omega) (by omega)⟩

theorem length_ofText (s : String) : (ofText s).length = s.utf8ByteSize :=
  rfl

theorem ofText_eq_flatMap (s : String) : ofText s = s.toList.flatMap String.utf8EncodeChar := by
  have hbytes : s.toUTF8 = s.toList.utf8Encode := String.utf8Encode_toList.symm
  rw [ofText, hbytes, List.utf8Encode, List.data_toByteArray]

end Bytes

namespace Bson

private theorem zero_notMem_ofText {s : String} (h : isZeroFree s = true) : 0 ∉ Bytes.ofText s := by
  rw [Bytes.ofText_eq_flatMap, List.mem_flatMap]
  rintro ⟨c, hc, hzero⟩
  have hne : c.toNat ≠ 0 := by simpa using List.all_eq_true.1 h c hc
  exact Bytes.zero_notMem_utf8EncodeChar hne hzero

theorem untilZero?_cString {s : String} (h : isZeroFree s = true) (rest : List UInt8) :
    Bytes.untilZero? (cString s ++ rest) = some (Bytes.ofText s, rest) := by
  rw [cString, List.append_assoc]
  exact Bytes.untilZero?_append (zero_notMem_ofText h) rest

theorem isZeroFree_repr (n : Nat) : isZeroFree (Nat.repr n) = true := by
  rw [isZeroFree, List.all_eq_true]
  intro c hc
  have hdigit : c.isDigit = true := Nat.isDigit_of_mem_toDigits (b := 10) (n := n) (by decide)
    (by decide) (by simpa [Nat.repr] using hc)
  have hlow : 48 ≤ c.toNat := by
    rw [Char.isDigit, Bool.and_eq_true, decide_eq_true_iff] at hdigit
    exact hdigit.1
  simp only [decide_eq_true_iff]
  omega

/-! ## Sizes -/

@[simp]
theorem length_cString (s : String) : (cString s).length = (Bytes.ofText s).length + 1 := by
  simp [cString]

@[simp]
theorem length_sized (bytes : List UInt8) : (sized bytes).length = bytes.length + 4 := by
  simp [sized, Nat.add_comm]

@[simp]
theorem length_enclose (elements : List UInt8) :
    (enclose elements).length = elements.length + 5 := by
  simp [enclose]
  omega

@[simp]
theorem length_element (type : ElementType) (name : String) (value : List UInt8) :
    (element type name value).length = (Bytes.ofText name).length + 2 + value.length := by
  simp [element]
  omega

@[simp]
theorem ObjectId.length_bytes (id : ObjectId) : id.bytes.length = 12 := by
  simp [ObjectId.bytes]

theorem readSize?_ofNat {n : Nat} (h : n < 2 ^ 31) (rest : List UInt8) :
    readSize? (Bytes.ofNat 4 n ++ rest) = some n := by
  have hsplit := Bytes.splitAt?_append (Bytes.ofNat 4 n) rest
  rw [Bytes.length_ofNat] at hsplit
  have hn : Bytes.toNat (Bytes.ofNat 4 n) = n := by
    apply Bytes.toNat_ofNat
    simp only [Nat.pow_eq]
    omega
  simp only [readSize?, hsplit, hn]
  exact if_pos h

theorem readSize?_sizedText {s : String} (h : (sizedText s).length < 2 ^ 31)
    (rest : List UInt8) :
    readSize? (sizedText s ++ rest) = some ((Bytes.ofText s).length + 1) := by
  simp only [sizedText, length_sized, length_cString] at h
  rw [sizedText, sized, List.append_assoc, length_cString]
  exact readSize?_ofNat (by omega) _

theorem readSize?_enclose {elements : List UInt8} (h : (enclose elements).length < 2 ^ 31)
    (rest : List UInt8) :
    readSize? (enclose elements ++ rest) = some (elements.length + 5) := by
  rw [length_enclose] at h
  simp only [enclose, List.append_assoc]
  exact readSize?_ofNat h _

/-! ## What can be written -/

/-- How writing can end that would stop at `stop`: there if no name holds a zero, at a
name that does, or where too much has been written. -/
inductive EndsAt (writable : Bool) (stop : Nat) : Except WriteError Nat → Prop where
  | written (h : writable = true) : EndsAt writable stop (.ok stop)
  | zeroInName (h : writable = false) : EndsAt writable stop (.error .zeroInName)
  | oversized {size : Nat} (hsize : maxSize < size) (hle : size ≤ stop) :
      EndsAt writable stop (.error (.oversized size))

namespace EndsAt

variable {writable first second : Bool} {mid stop : Nat} {x : Except WriteError Nat}

theorem of_eq (h : EndsAt writable mid x) (hstop : mid = stop) : EndsAt writable stop x :=
  hstop ▸ h

theorem bind {f : Nat → Except WriteError Nat} (h : EndsAt first mid x) (hle : mid ≤ stop)
    (hf : EndsAt second stop (f mid)) : EndsAt (first && second) stop (x >>= f) := by
  cases h with
  | written hfirst =>
      rw [hfirst, Bool.true_and]
      exact hf
  | zeroInName hfirst =>
      rw [hfirst, Bool.false_and]
      exact .zeroInName rfl
  | oversized hsize hmid => exact .oversized hsize (Nat.le_trans hmid hle)

theorem ite (writable : Bool) (stop : Nat) :
    EndsAt writable stop (if writable then .ok stop else .error .zeroInName) := by
  cases writable with
  | true => exact .written rfl
  | false => exact .zeroInName rfl

theorem closeAt (stop : Nat) : EndsAt true stop (closeAt stop) := by
  rw [Bson.closeAt]
  split
  · exact .written rfl
  · exact .oversized (by omega) (Nat.le_refl stop)

/-- Closing takes one more byte. -/
theorem close (h : EndsAt writable mid x) (hstop : mid + 1 = stop) :
    EndsAt writable stop (x >>= fun mid => Bson.closeAt (mid + 1)) := by
  subst hstop
  have hclose := h.bind (Nat.le_succ mid) (f := fun mid => Bson.closeAt (mid + 1))
    (EndsAt.closeAt (mid + 1))
  rwa [Bool.and_true] at hclose

end EndsAt

-- Induction on the value.  What lies inside a value is closed before its own end, so a size
-- that is too large there stays a bound from below for the whole.
mutual

theorem Value.endsAt (v : Value) (start : Nat) :
    EndsAt v.isWritable (start + v.encode.length) (v.endAt start) := by
  cases v with
  | document fields =>
      refine (fieldsEndAt_endsAt fields (start + 4)).close ?_
      rw [Value.encode, length_enclose]
      omega
  | array items =>
      refine (itemsEndAt_endsAt 0 items (start + 4)).close ?_
      rw [Value.encode, length_enclose]
      omega
  | codeWithScope code scope =>
      refine (fieldsEndAt_endsAt scope (start + (code.utf8ByteSize + 13))).close ?_
      simp only [Value.encode, sizedText, List.length_append, Bytes.length_ofNat, length_sized,
        length_cString, length_enclose, Bytes.length_ofText]
      omega
  | string text =>
      refine EndsAt.of_eq (.written rfl) ?_
      simp only [Value.encode, sizedText, length_sized, length_cString, Bytes.length_ofText]
  | _ => exact EndsAt.ite _ _
termination_by structural v

theorem fieldsEndAt_endsAt (fields : List (String × Value)) (start : Nat) :
    EndsAt (areWritable fields) (start + (encodeFields fields).length)
      (fieldsEndAt fields start) := by
  cases fields with
  | nil => exact .written rfl
  | cons field rest =>
      obtain ⟨name, v⟩ := field
      rw [encodeFields, List.length_append, length_element, Bytes.length_ofText, areWritable,
        Bool.and_assoc]
      refine (EndsAt.ite (isZeroFree name) (start + (name.utf8ByteSize + 2))).bind (by omega) ?_
      refine (v.endsAt _).bind (by omega) ?_
      exact (fieldsEndAt_endsAt rest _).of_eq (by omega)
termination_by structural fields

theorem itemsEndAt_endsAt (index : Nat) (items : List Value) (start : Nat) :
    EndsAt (itemsWritable items) (start + (encodeItems index items).length)
      (itemsEndAt index items start) := by
  cases items with
  | nil => exact .written rfl
  | cons v rest =>
      have hname := EndsAt.ite (isZeroFree (Nat.repr index))
        (start + ((Nat.repr index).utf8ByteSize + 2))
      rw [encodeItems, List.length_append, length_element, Bytes.length_ofText, itemsWritable,
        ← Bool.true_and (v.isWritable && _), ← isZeroFree_repr index]
      refine hname.bind (by omega) ?_
      refine (v.endsAt _).bind (by omega) ?_
      exact (itemsEndAt_endsAt (index + 1) rest _).of_eq (by omega)
termination_by structural items

end

/-! ## Values -/

/-- A value that can be written, whose size fits its four bytes. -/
structure Value.Fits (v : Value) : Prop where
  writable : v.isWritable = true
  size : v.encode.length < 2 ^ 31

/-- A written value is as long as its reader takes it to be. -/
theorem valueSize?_encode {v : Value} (h : v.Fits) (rest : List UInt8) :
    valueSize? v.type (v.encode ++ rest) = some v.encode.length := by
  obtain ⟨hwritable, hsize⟩ := h
  cases v with
  | string s | javascript s | symbol s =>
      simp only [Value.encode] at hsize ⊢
      simp only [Value.type, valueSize?, readSize?_sizedText hsize, Option.map_some]
      simp [sizedText]
  | document fields | array items =>
      simp only [Value.encode] at hsize ⊢
      simp [Value.type, valueSize?, readSize?_enclose hsize]
  | binary subtype bytes =>
      simp only [Value.encode, List.length_append, Bytes.length_ofNat, List.length_cons] at hsize ⊢
      rw [List.append_assoc, Value.type, valueSize?, readSize?_ofNat (by omega)]
      simp only [Option.map_some, Option.some.injEq]
      omega
  | regex pattern options =>
      simp only [Value.isWritable, Bool.and_eq_true] at hwritable
      simp only [Value.encode, Value.type, valueSize?, List.append_assoc]
      rw [untilZero?_cString hwritable.1]
      simp only [untilZero?_cString hwritable.2, List.length_append, length_cString]
  | dbPointer collection id =>
      simp only [Value.encode, List.length_append, ObjectId.length_bytes] at hsize ⊢
      rw [List.append_assoc, Value.type, valueSize?, readSize?_sizedText (by omega)]
      simp [sizedText]
  | codeWithScope code scope =>
      simp only [Value.encode, List.length_append, Bytes.length_ofNat] at hsize ⊢
      simp only [List.append_assoc, Value.type, valueSize?]
      rw [readSize?_ofNat (by omega)]
      simp only [Nat.not_lt_of_le (Nat.le_add_left 4 _), if_false, Option.some.injEq]
      omega
  | _ => simp [Value.encode, Value.type, valueSize?]

/-- The value as its reader finds it. -/
def Value.raw (v : Value) : RawValue :=
  ⟨v.type, v.encode⟩

/-- The field as its reader finds it. -/
def rawElement (field : String × Value) : RawElement :=
  ⟨field.1, field.2.raw⟩

theorem readElement?_element {name : String} {v : Value} (hname : isZeroFree name = true)
    (h : v.Fits) (rest : List UInt8) :
    readElement? (element v.type name v.encode ++ rest) =
      some (rawElement (name, v), (element v.type name v.encode).length, rest) := by
  have huntil := untilZero?_cString hname (v.encode ++ rest)
  have hsplit := Bytes.splitAt?_append v.encode rest
  simp only [readElement?, element, List.cons_append, List.append_assoc]
  simp [ElementType.ofCode?_code, huntil, valueSize?_encode h, hsplit, Bytes.toText_ofText,
    rawElement, Value.raw]
  omega

/-! ## Documents -/

theorem areWritable_iff {fields : Fields} :
    areWritable fields = true ↔
      ∀ field ∈ fields, isZeroFree field.1 = true ∧ field.2.isWritable = true := by
  induction fields with
  | nil => simp [areWritable]
  | cons field rest ih => simp [areWritable, ih, Bool.and_eq_true]

theorem itemsWritable_iff {items : List Value} :
    itemsWritable items = true ↔ ∀ v ∈ items, v.isWritable = true := by
  induction items with
  | nil => simp [itemsWritable]
  | cons v rest ih => simp [itemsWritable, ih, Bool.and_eq_true]

private theorem length_encode_le_of_mem {fields : Fields} {field : String × Value}
    (h : field ∈ fields) : field.2.encode.length ≤ (encodeFields fields).length := by
  induction fields with
  | nil => cases h
  | cons head rest ih =>
      simp only [encodeFields, List.length_append, length_element]
      rcases List.mem_cons.1 h with rfl | hrest
      · omega
      · have := ih hrest
        omega

theorem readElements?_encodeFields {fields : Fields}
    (h : ∀ field ∈ fields, isZeroFree field.1 = true ∧ field.2.Fits) (fuel : Nat)
    (hfuel : (encodeFields fields).length < fuel) (rest : List UInt8) :
    readElements? fuel ((encodeFields fields).length + 1) (encodeFields fields ++ rest) =
      some (fields.map rawElement) := by
  induction fields generalizing fuel with
  | nil =>
      cases fuel with
      | zero => rfl
      | succ fuel => simp [readElements?, encodeFields]
  | cons field fields ih =>
      obtain ⟨hname, hfits⟩ := h field List.mem_cons_self
      cases fuel with
      | zero => omega
      | succ fuel =>
          have hpos : 2 ≤ (element field.2.type field.1 field.2.encode).length := by
            rw [length_element]
            omega
          have hrest := ih (fun f hf => h f (List.mem_cons_of_mem _ hf)) fuel (by
            simp only [encodeFields, List.length_append] at hfuel
            omega)
          have hleft (a b : Nat) : ((a + b : Nat) : Int) + 1 - (a : Int) = (b : Int) + 1 := by
            omega
          simp only [encodeFields, List.append_assoc, List.length_append] at hfuel ⊢
          rw [readElements?, if_pos (by omega), readElement?_element hname hfits]
          simp only [Option.bind_eq_bind, Option.bind_some, hleft, hrest]
          rfl

theorem Value.Fits.field {fields : Fields} (h : (Value.document fields).Fits) :
    ∀ field ∈ fields, isZeroFree field.1 = true ∧ field.2.Fits := by
  intro field hfield
  have hsize := h.size
  have hlength := length_encode_le_of_mem hfield
  obtain ⟨hname, hwritable⟩ := areWritable_iff.1 h.writable field hfield
  rw [Value.encode, length_enclose] at hsize
  exact ⟨hname, hwritable, by omega⟩

private theorem length_le_maxSize_of_documentSize {fields : Fields} {size : Nat}
    (h : documentSize fields = .ok size) : size ≤ maxSize := by
  simp only [documentSize, Value.endAt] at h
  cases hfields : fieldsEndAt fields (0 + 4) with
  | error e =>
      rw [hfields] at h
      cases h
  | ok mid =>
      rw [hfields] at h
      change closeAt (mid + 1) = .ok size at h
      rw [closeAt] at h
      split at h
      · rename_i hle
        cases h
        exact hle
      · cases h

/-- A document can be written exactly if its names hold no zero and its size fits. -/
theorem documentSize_eq_ok_iff {fields : Fields} {size : Nat} :
    documentSize fields = .ok size ↔
      (Value.document fields).Fits ∧ (encodeDocument fields).length = size := by
  have hends := (Value.document fields).endsAt 0
  rw [Nat.zero_add] at hends
  constructor
  · intro h
    have hle := length_le_maxSize_of_documentSize h
    rw [documentSize] at h
    rw [h] at hends
    cases hends with
    | written hwritable => exact ⟨⟨hwritable, Nat.lt_succ_of_le hle⟩, rfl⟩
  · rintro ⟨hfits, rfl⟩
    have hsize : (Value.document fields).encode.length ≤ maxSize := Nat.le_of_lt_succ hfits.size
    rw [documentSize]
    generalize (Value.document fields).endAt 0 = result at hends
    cases hends with
    | written => rfl
    | zeroInName hwritable =>
        rw [hfits.writable] at hwritable
        cases hwritable
    | oversized hlarge hle => omega

theorem writeDocument_of_fits {fields : Fields} (h : (Value.document fields).Fits) :
    writeDocument fields = .ok (encodeDocument fields) := by
  rw [writeDocument, documentSize_eq_ok_iff.2 ⟨h, rfl⟩]
  rfl

theorem fits_of_writeDocument {fields : Fields} {bytes : List UInt8}
    (h : writeDocument fields = .ok bytes) :
    (Value.document fields).Fits ∧ encodeDocument fields = bytes := by
  rw [writeDocument] at h
  cases hsize : documentSize fields with
  | error e =>
      rw [hsize] at h
      cases h
  | ok size =>
      rw [hsize] at h
      exact ⟨(documentSize_eq_ok_iff.1 hsize).1, Except.ok.inj h⟩

/-- A document with no zero in a name fails only for its size. -/
theorem writeDocument_of_large {fields : Fields} (hwritable : areWritable fields = true)
    (hlarge : 2 ^ 31 ≤ (encodeDocument fields).length) :
    ∃ size, 2 ^ 31 ≤ size ∧ writeDocument fields = .error (.oversized size) := by
  have hends := (Value.document fields).endsAt 0
  cases h : documentSize fields with
  | ok size =>
      obtain ⟨hfits, -⟩ := documentSize_eq_ok_iff.1 h
      exact absurd hfits.size (Nat.not_lt.2 hlarge)
  | error e =>
      rw [writeDocument, h]
      rw [documentSize] at h
      rw [h] at hends
      cases hends with
      | zeroInName hzero =>
          rw [Value.isWritable, hwritable] at hzero
          cases hzero
      | oversized hsize _ => exact ⟨_, hsize, rfl⟩

theorem drop_encodeDocument (fields : Fields) :
    (encodeDocument fields).drop 4 = encodeFields fields ++ [0] := by
  rw [encodeDocument, enclose, List.append_assoc]
  exact List.drop_left' (Bytes.length_ofNat 4 _)

/-- A written document has the elements it was written with. -/
theorem elements?_encodeDocument {fields : Fields} (h : (Value.document fields).Fits) :
    elements? (encodeDocument fields) = some (fields.map rawElement) := by
  have hsize := h.size
  rw [Value.encode] at hsize
  have hread := readSize?_enclose hsize []
  rw [List.append_nil] at hread
  have hdrop := drop_encodeDocument fields
  rw [encodeDocument] at hdrop
  have hleft : (((encodeFields fields).length + 5 : Nat) : Int) - 4 =
      (encodeFields fields).length + 1 := by
    omega
  have helements := readElements?_encodeFields h.field
    ((encodeFields fields).length + 5 + 1) (by omega) [0]
  rw [elements?.eq_def, encodeDocument]
  split
  · rename_i heq
    have := congrArg List.length heq
    rw [length_enclose] at this
    cases this
  · simp only [hread, Option.bind_eq_bind, Option.bind_some, hdrop, hleft, helements]

private theorem readClosed?_encodeFields {fields : Fields}
    (h : ∀ field ∈ fields, isZeroFree field.1 = true ∧ field.2.Fits) (fuel : Nat)
    (hfuel : (encodeFields fields).length < fuel) :
    readClosed? fuel (encodeFields fields ++ [0]) = some (fields.map rawElement) := by
  induction fields generalizing fuel with
  | nil =>
      cases fuel with
      | zero => omega
      | succ fuel => rfl
  | cons field fields ih =>
      obtain ⟨hname, hfits⟩ := h field List.mem_cons_self
      cases fuel with
      | zero => omega
      | succ fuel =>
          simp only [encodeFields, List.append_assoc, List.length_append, length_element] at hfuel ⊢
          have hrest := ih (fun f hf => h f (List.mem_cons_of_mem _ hf)) fuel (by omega)
          have hread := readElement?_element hname hfits (encodeFields fields ++ [0])
          unfold readClosed?
          split
          · rename_i heq
            have := congrArg List.length heq
            simp only [List.length_append, length_element, List.length_cons] at this
            omega
          · simp only [hread, Option.bind_eq_bind, Option.bind_some, hrest]
            rfl

/-- A written document is as long as it says and ends with its closing zero. -/
theorem strictElements?_encodeDocument {fields : Fields} (h : (Value.document fields).Fits) :
    strictElements? (encodeDocument fields) = some (fields.map rawElement) := by
  have hsize := h.size
  rw [Value.encode] at hsize
  have hread := readSize?_enclose hsize []
  have hlength : (encodeDocument fields).length = (encodeFields fields).length + 5 :=
    length_enclose _
  rw [List.append_nil] at hread
  have hclosed := readClosed?_encodeFields h.field ((encodeFields fields).length + 5) (by omega)
  rw [strictElements?, drop_encodeDocument, hlength, encodeDocument, hread]
  exact (if_pos rfl).trans hclosed

/-- The items of an array as the fields of a document, named by their positions. -/
def itemFields (index : Nat) (items : List Value) : Fields :=
  (items.zipIdx index).map fun item => (Nat.repr item.2, item.1)

theorem encodeItems_eq (index : Nat) (items : List Value) :
    encodeItems index items = encodeFields (itemFields index items) := by
  induction items generalizing index with
  | nil => rfl
  | cons v rest ih =>
      rw [encodeItems, ih]
      rfl

theorem map_itemFields (index : Nat) (items : List Value) :
    (itemFields index items).map Prod.snd = items := by
  rw [itemFields, List.map_map]
  exact List.zipIdx_map_fst index items

theorem Value.Fits.items {items : List Value} (h : (Value.array items).Fits) :
    (Value.document (itemFields 0 items)).Fits := by
  refine ⟨areWritable_iff.2 ?_, ?_⟩
  · intro field hfield
    have hmem : field.2 ∈ items := by
      rw [← map_itemFields 0 items]
      exact List.mem_map_of_mem hfield
    obtain ⟨item, -, rfl⟩ := List.mem_map.1 hfield
    exact ⟨isZeroFree_repr _, itemsWritable_iff.1 h.writable _ hmem⟩
  · have hsize := h.size
    rw [Value.encode, encodeItems_eq] at hsize
    exact hsize

theorem Value.Fits.item {items : List Value} (h : (Value.array items).Fits) :
    ∀ v ∈ items, v.Fits := by
  intro v hv
  rw [← map_itemFields 0 items] at hv
  obtain ⟨field, hfield, rfl⟩ := List.mem_map.1 hv
  exact (h.items.field field hfield).2

theorem map_value_itemFields (items : List Value) :
    ((itemFields 0 items).map rawElement).map RawElement.value = items.map Value.raw := by
  have hraw : RawElement.value ∘ rawElement = Value.raw ∘ Prod.snd := rfl
  rw [List.map_map, hraw, ← List.map_map, map_itemFields]

theorem elements?_encode_array {items : List Value} (h : (Value.array items).Fits) :
    ∃ elements, elements? (Value.array items).encode = some elements ∧
      elements.map RawElement.value = items.map Value.raw := by
  refine ⟨(itemFields 0 items).map rawElement, ?_, map_value_itemFields items⟩
  rw [Value.encode, encodeItems_eq]
  exact elements?_encodeDocument h.items

theorem strictElements?_encode_array {items : List Value} (h : (Value.array items).Fits) :
    ∃ elements, strictElements? (Value.array items).encode = some elements ∧
      elements.map RawElement.value = items.map Value.raw := by
  refine ⟨(itemFields 0 items).map rawElement, ?_, map_value_itemFields items⟩
  rw [Value.encode, encodeItems_eq]
  exact strictElements?_encodeDocument h.items

/-! ## Scalars -/

theorem drop_sizedText (s : String) : (sizedText s).drop 4 = Bytes.ofText s ++ [0] := by
  rw [sizedText, sized, List.drop_left' (Bytes.length_ofNat 4 _), cString]

theorem string?_raw {s : String} (h : (Value.string s).Fits) :
    (Value.string s).raw.string? = some s := by
  have hread := readSize?_sizedText h.size []
  rw [List.append_nil] at hread
  simp [RawValue.string?, Value.raw, Value.type, Value.encode, hread, drop_sizedText,
    Bytes.toText_ofText]

theorem bool?_raw (b : Bool) : (Value.bool b).raw.bool? = some b := by
  cases b <;> rfl

/-- A number reads back whichever of the two widths it was written with. -/
theorem int64?_raw_ofInt64 (n : Int64) : (Value.ofInt64 n).raw.int64? = some n := by
  unfold Value.ofInt64
  split
  · rename_i hsmall
    rw [Bool.and_eq_true, decide_eq_true_iff, decide_eq_true_iff] at hsmall
    have hnat : Bytes.toNat (Bytes.ofNat 4 n.toInt32.toUInt32.toNat) = n.toInt32.toUInt32.toNat :=
      Bytes.toNat_ofNat n.toInt32.toUInt32.toNat_lt
    have hword : Int32.ofNat n.toInt32.toUInt32.toNat = n.toInt32 :=
      congrArg Int32.ofUInt32 UInt32.ofNat_toNat
    have hwiden : n.toInt32.toInt64 = n := by
      rw [← Int64.toInt_inj, Int32.toInt_toInt64, Int64.toInt_toInt32]
      exact Int.bmod_eq_of_le (by omega) (by omega)
    simp only [Value.raw, RawValue.int64?, Value.type, Value.encode, hnat, hword, hwiden]
  · have hnat : Bytes.toNat (Bytes.ofNat 8 n.toUInt64.toNat) = n.toUInt64.toNat :=
      Bytes.toNat_ofNat n.toUInt64.toNat_lt
    have hword : Int64.ofNat n.toUInt64.toNat = n :=
      congrArg Int64.ofUInt64 UInt64.ofNat_toNat
    simp only [Value.raw, RawValue.int64?, Value.type, Value.encode, hnat, hword]

end Bson

end DocShape
