import DocShape.Validator.Yaml
import DocShape.Proofs.Outcomes
import DocShape.Proofs.ValidatorBytes

/-!
# Validators through trees

The tree of a validator stands for the same binary document that the validator is
written as, so both are read alike.  Only the bounds differ: a tree is read if it
nests no deeper than the limit, and there each list and each record is a level of
its own.
-/

namespace DocShape

/-! ## Integers as texts -/

namespace Number

private theorem readDigits_append (base : Nat) (underscores : Bool) (value : Nat) (xs ys : List Char) :
    readDigits base underscores value (xs ++ ys) =
      (do readDigits base underscores (← readDigits base underscores value xs) ys) := by
  induction xs generalizing value with
  | nil => rfl
  | cons c xs ih =>
      rw [List.cons_append, readDigits, readDigits]
      split
      · exact ih value
      · cases digitValue? c with
        | none => rfl
        | some d =>
            dsimp only
            split
            · rfl
            · split
              · rfl
              · exact ih _

theorem readDigits_digitChar {value d : Nat} (hd : d < 10) (h : value * 10 + d < 2 ^ 64) :
    readDigits 10 true value [Nat.digitChar d] = .ok (value * 10 + d) := by
  have hchar : ∀ d < 10, digitValue? (Nat.digitChar d) = some d ∧ Nat.digitChar d ≠ '_' := by
    decide
  obtain ⟨hvalue, hunderscore⟩ := hchar d hd
  have hrange : ¬ Nat.pow 2 64 ≤ value * 10 + d := Nat.not_le.2 h
  simp only [readDigits, hvalue, hunderscore, decide_false, Bool.false_and, Bool.false_eq_true,
    if_false, if_neg (Nat.not_le.2 hd), if_neg hrange]

private theorem readDigits_toDigits {m : Nat} (h : m < 2 ^ 64) :
    readDigits 10 true 0 (Nat.toDigits 10 m) = .ok m := by
  induction m using Nat.strongRecOn with
  | ind m ih =>
      by_cases hm : m < 10
      · rw [Nat.toDigits_of_lt_base hm, readDigits_digitChar hm (by omega), Nat.zero_mul,
          Nat.zero_add]
      · have hdigit : m % 10 < 10 := Nat.mod_lt m (by decide)
        have hsplit : m / 10 * 10 + m % 10 = m := by omega
        rw [Nat.toDigits_of_base_le (by decide) (by omega), readDigits_append,
          ih (m / 10) (by omega) (by omega)]
        show readDigits 10 true (m / 10) _ = _
        rw [readDigits_digitChar hdigit (by omega), hsplit]

/-- No leading zero, so the digits are read as decimal ones. -/
theorem exists_toDigits_eq_cons {m : Nat} (h : 0 < m) :
    ∃ c rest, Nat.toDigits 10 m = c :: rest ∧ c ≠ '0' := by
  induction m using Nat.strongRecOn with
  | ind m ih =>
      by_cases hm : m < 10
      · have hchar : ∀ d < 10, 0 < d → Nat.digitChar d ≠ '0' := by decide
        exact ⟨m.digitChar, [], Nat.toDigits_of_lt_base hm, hchar m hm h⟩
      · obtain ⟨c, rest, hdigits, hc⟩ := ih (m / 10) (by omega) (by omega)
        rw [Nat.toDigits_of_base_le (by decide) (by omega), hdigits]
        exact ⟨c, rest ++ [(m % 10).digitChar], rfl, hc⟩

private theorem splitBase_cons {c : Char} {rest : List Char} (hc : c ≠ '0') :
    splitBase (c :: rest) = (10, c :: rest) := by
  unfold splitBase
  split
  · rename_i heq
    cases heq
    exact absurd rfl hc
  · rename_i heq
    cases heq
    exact absurd rfl hc
  · rfl

theorem readInt_of_splitSign {text : List Char} {negative : Bool} {m : Nat}
    (h : splitSign text = (negative, Nat.toDigits 10 m)) (hm : m < 2 ^ 64) :
    readInt text = withSign negative m := by
  -- A text that begins with a zero is not decimal: zero is read in base eight, from no digits.
  rcases Nat.eq_zero_or_pos m with rfl | hpos
  · rw [Nat.toDigits_zero] at h
    rw [readInt, h]
    rfl
  · obtain ⟨c, rest, hdigits, hc⟩ := exists_toDigits_eq_cons hpos
    have hread := readDigits_toDigits hm
    have hplain : (Nat.toDigits 10 m).contains '_' = false := by
      rw [Bool.eq_false_iff, Ne, List.contains_iff_mem]
      intro hmem
      exact absurd (Nat.isDigit_of_mem_toDigits (by decide) (by decide) hmem) (by decide)
    rw [hdigits] at h hread hplain
    rw [readInt, h]
    simp only [splitBase_cons hc, hread, hplain]
    rfl

private theorem splitSign_toDigits (m : Nat) :
    splitSign (Nat.toDigits 10 m) = (false, Nat.toDigits 10 m) := by
  have hsign {c : Char} (hmem : c ∈ Nat.toDigits 10 m) : c ≠ '-' ∧ c ≠ '+' := by
    have hdigit := Nat.isDigit_of_mem_toDigits (by decide) (by decide) hmem
    constructor <;> rintro rfl <;> exact absurd hdigit (by decide)
  unfold splitSign
  split
  · rename_i heq
    exact absurd rfl (hsign (heq ▸ List.mem_cons_self)).1
  · rename_i heq
    exact absurd rfl (hsign (heq ▸ List.mem_cons_self)).2
  · rfl

/-- The text of an integer of 64 bits reads back. -/
theorem readInt_toString (n : Int64) : readInt (toString n.toInt).toList = .ok n := by
  have hlower := n.le_toInt
  have hupper := n.toInt_lt
  have hback := n.ofInt_toInt
  rw [Int.toString_eq_repr]
  cases hn : n.toInt with
  | ofNat m =>
      rw [hn] at hlower hupper hback
      have hm : m < Nat.pow 2 63 := Int.ofNat_lt.1 hupper
      have hsplit : splitSign (Int.repr (.ofNat m)).toList = (false, Nat.toDigits 10 m) := by
        rw [Int.repr, Nat.repr, String.toList_ofList, splitSign_toDigits]
      rw [readInt_of_splitSign hsplit (Nat.lt_trans hm (by decide)), withSign,
        if_neg (by decide), if_pos hm,
        ← Int64.ofInt_eq_ofNat]
      exact congrArg Except.ok hback
  | negSucc m =>
      rw [hn] at hlower hupper hback
      have hm : m + 1 ≤ Nat.pow 2 63 := by
        show m + 1 ≤ 2 ^ 63
        omega
      have hsplit :
          splitSign (Int.repr (.negSucc m)).toList = (true, Nat.toDigits 10 (m + 1)) := by
        rw [Int.repr, String.toList_append, Nat.repr, String.toList_ofList, String.toList_ofList]
        rfl
      rw [readInt_of_splitSign hsplit (Nat.lt_of_le_of_lt hm (by decide)), withSign, if_pos rfl,
        if_pos hm]
      exact congrArg Except.ok hback

end Number

namespace Yaml

mutual

/-- How many levels a tree nests.  What a list or a mapping holds is one level
below it; keys, aliases and the document around a root are no levels. -/
def Node.nesting : Node → Nat
  | .scalar _ _ => 1
  | .sequence _ items => 1 + itemsNesting items
  | .mapping _ entries => 1 + entriesNesting entries
  | .document _ none => 1
  | .document _ (some root) => root.nesting
  | .reference _ _ target => target.nesting
  | .cycle _ _ => 1
termination_by structural n => n

def itemsNesting : List Node → Nat
  | [] => 0
  | n :: rest => max n.nesting (itemsNesting rest)
termination_by structural items => items

def entriesNesting : List (Node × Node) → Nat
  | [] => 0
  | (_, n) :: rest => max n.nesting (entriesNesting rest)
termination_by structural entries => entries

end

theorem itemsNesting_le_iff {items : List Node} {room : Nat} :
    itemsNesting items ≤ room ↔ ∀ n ∈ items, n.nesting ≤ room := by
  induction items with
  | nil => simp [itemsNesting]
  | cons n rest ih => rw [itemsNesting, Nat.max_le, ih, List.forall_mem_cons]

theorem entriesNesting_le_iff {entries : List (Node × Node)} {room : Nat} :
    entriesNesting entries ≤ room ↔ ∀ entry ∈ entries, entry.2.nesting ≤ room := by
  induction entries with
  | nil => simp [entriesNesting]
  | cons entry rest ih => rw [entriesNesting, Nat.max_le, ih, List.forall_mem_cons]

theorem itemsToBson_eq_mapM (items : List Node) (room : Nat) :
    itemsToBson items room = items.mapM fun n => n.toBson room := by
  induction items with
  | nil => rfl
  | cons n rest ih => rw [itemsToBson, ih, List.mapM_cons]

theorem entriesToBson_eq_mapM (entries : List (Node × Node)) (room : Nat) :
    entriesToBson entries room =
      entries.mapM fun entry => do return (entry.1.text, ← entry.2.toBson room) := by
  induction entries with
  | nil => rfl
  | cons entry rest ih =>
      rw [entriesToBson, ih, List.mapM_cons, bind_assoc]
      rfl

end Yaml

namespace Plain

theorem itemsToNodes_eq_map (items : List Plain) : itemsToNodes items = items.map toNode := by
  induction items with
  | nil => rfl
  | cons p rest ih => rw [itemsToNodes, ih, List.map_cons]

theorem fieldsToNodes_eq_map (fields : List (String × Plain)) :
    fieldsToNodes fields = fields.map fun field => (.ofText field.1, field.2.toNode) := by
  induction fields with
  | nil => rfl
  | cons field rest ih => rw [fieldsToNodes, ih, List.map_cons]

/-- Induction on the values right below. -/
theorem induction_parts {motive : Plain → Prop} (text : ∀ s, motive (.text s))
    (flag : ∀ b, motive (.flag b)) (number : ∀ n, motive (.number n))
    (list : ∀ items, (∀ p ∈ items, motive p) → motive (.list items))
    (record : ∀ fields, (∀ field ∈ fields, motive field.2) → motive (.record fields))
    (p : Plain) : motive p :=
  @Plain.rec motive (fun items => ∀ p ∈ items, motive p)
    (fun fields => ∀ field ∈ fields, motive field.2) (fun field => motive field.2)
    text flag number list record (List.forall_mem_nil _)
    (fun _ _ hp hrest => List.forall_mem_cons.2 ⟨hp, hrest⟩) (List.forall_mem_nil _)
    (fun _ _ hfield hrest => List.forall_mem_cons.2 ⟨hfield, hrest⟩) (fun _ _ hp => hp) p

/-! ## The tree stands for the document -/

theorem toBson_tagged {tag text : String} {value : Bson.Value}
    (htag : (Yaml.Node.tagged tag text).shortTag = tag)
    (h : Yaml.scalarToBson tag text 0 = .ok value) (room : Nat) :
    (Yaml.Node.tagged tag text).toBson room =
      if (Yaml.Node.tagged tag text).nesting ≤ room then .ok value
      else .error .validatorTooDeep := by
  cases room with
  | zero => rfl
  | succ below =>
      have hlevel : (Yaml.Node.tagged tag text).nesting ≤ below + 1 := Nat.le_add_left 1 below
      rw [if_pos hlevel, ← h]
      exact congrArg (fun tag => Yaml.scalarToBson tag text 0) htag

theorem toBson_toNode_zero (p : Plain) :
    p.toNode.toBson 0 =
      if p.toNode.nesting ≤ 0 then .ok p.toBson else .error .validatorTooDeep := by
  have hlevel : 0 < p.toNode.nesting := by
    cases p with
    | list items => exact Nat.add_pos_left Nat.one_pos _
    | record fields => exact Nat.add_pos_left Nat.one_pos _
    | _ => exact Nat.one_pos
  rw [if_neg (Nat.not_le.2 hlevel)]
  cases p <;> rfl

theorem nesting_toNode_list_le_iff {items : List Plain} {below : Nat} :
    (list items).toNode.nesting ≤ below + 1 ↔ ∀ p ∈ items, p.toNode.nesting ≤ below := by
  have hnesting : (list items).toNode.nesting = 1 + Yaml.itemsNesting (itemsToNodes items) := rfl
  rw [hnesting, Nat.add_comm, Nat.add_le_add_iff_right, Yaml.itemsNesting_le_iff,
    itemsToNodes_eq_map, List.forall_mem_map]

theorem nesting_toNode_record_le_iff {fields : List (String × Plain)} {below : Nat} :
    (record fields).toNode.nesting ≤ below + 1 ↔
      ∀ field ∈ fields, field.2.toNode.nesting ≤ below := by
  have hnesting :
      (record fields).toNode.nesting = 1 + Yaml.entriesNesting (fieldsToNodes fields) := rfl
  rw [hnesting, Nat.add_comm, Nat.add_le_add_iff_right, Yaml.entriesNesting_le_iff,
    fieldsToNodes_eq_map, List.forall_mem_map]

private theorem toBson_toNode_list {items : List Plain}
    (h : ∀ p ∈ items, ∀ room, p.toNode.toBson room =
      if p.toNode.nesting ≤ room then .ok p.toBson else .error .validatorTooDeep) (below : Nat) :
    (list items).toNode.toBson (below + 1) =
      if (list items).toNode.nesting ≤ below + 1 then .ok (list items).toBson
      else .error .validatorTooDeep := by
  have hitems : Yaml.itemsToBson (itemsToNodes items) below =
      if ∀ p ∈ items, p.toNode.nesting ≤ below then .ok (items.map toBson)
      else .error .validatorTooDeep := by
    rw [Yaml.itemsToBson_eq_mapM, itemsToNodes_eq_map, List.mapM_map]
    exact Outcome.mapM_of_ite fun p hp => h p hp below
  have hread : (list items).toNode.toBson (below + 1) =
      (do return .array (← Yaml.itemsToBson (itemsToNodes items) below)) := rfl
  rw [hread, hitems, toBson, itemsToBson_eq_map]
  simp only [nesting_toNode_list_le_iff]
  split <;> rfl

private theorem toBson_toNode_record {fields : List (String × Plain)}
    (h : ∀ field ∈ fields, ∀ room, field.2.toNode.toBson room =
      if field.2.toNode.nesting ≤ room then .ok field.2.toBson else .error .validatorTooDeep)
    (below : Nat) :
    (record fields).toNode.toBson (below + 1) =
      if (record fields).toNode.nesting ≤ below + 1 then .ok (record fields).toBson
      else .error .validatorTooDeep := by
  have hfields : Yaml.entriesToBson (fieldsToNodes fields) below =
      if ∀ field ∈ fields, field.2.toNode.nesting ≤ below then
        .ok (fields.map fun field => (field.1, field.2.toBson))
      else .error .validatorTooDeep := by
    rw [Yaml.entriesToBson_eq_mapM, fieldsToNodes_eq_map, List.mapM_map]
    refine Outcome.mapM_of_ite fun field hfield => ?_
    rw [Function.comp_apply, h field hfield below]
    split <;> rfl
  have hread : (record fields).toNode.toBson (below + 1) =
      (do return .document (← Yaml.entriesToBson (fieldsToNodes fields) below)) := rfl
  rw [hread, hfields, toBson, fieldsToBson_eq_map]
  simp only [nesting_toNode_record_le_iff]
  split <;> rfl

/-- A plain value comes back from its tree if there is room for all its levels. -/
theorem toBson_toNode (p : Plain) (room : Nat) :
    p.toNode.toBson room =
      if p.toNode.nesting ≤ room then .ok p.toBson else .error .validatorTooDeep := by
  induction p using induction_parts generalizing room with
  | text s => exact toBson_tagged (by rfl) (by rfl) room
  | flag b => cases b <;> exact toBson_tagged (by rfl) (by rfl) room
  | number n =>
      -- Both the tree and the document choose the width from the number alone.
      refine toBson_tagged (by rfl) ?_ room
      rw [Yaml.scalarToBson, Number.readInt_toString]
      rfl
  | list items ih =>
      cases room with
      | zero => exact toBson_toNode_zero _
      | succ below => exact toBson_toNode_list ih below
  | record fields ih =>
      cases room with
      | zero => exact toBson_toNode_zero _
      | succ below => exact toBson_toNode_record ih below

end Plain

namespace Validator

theorem toNode_eq_ok {v : Validator} {n : Yaml.Node} :
    v.toNode = .ok n ↔
      ∃ fields, v.fields? maxDepth = some fields ∧ (Plain.record fields).toNode = n := by
  simp only [toNode, Outcome.bind_eq_ok, Outcome.pure_eq_ok, toFields_eq_ok]

theorem ofNode_record (fields : List (String × Plain)) :
    ofNode (Plain.record fields).toNode =
      if (Plain.record fields).toNode.nesting ≤ 2048 then ofDocument (Plain.fieldsToBson fields)
      else .error .validatorTooDeep := by
  rw [ofNode, Plain.toBson_toNode, maxDepth]
  split <;> rfl

section Written

variable {v : Validator} {fields : List (String × Plain)}

private theorem ofNode_of_fits (hfields : v.fields? maxDepth = some fields)
    (hlevel : (Plain.record fields).toNode.nesting ≤ 2048)
    (hfits : (Plain.record fields).toBson.Fits) :
    v.toBytes = .ok v.encoding ∧ ofBytes v.encoding = .ok v.normal ∧
      ofNode (Plain.record fields).toNode = .ok v.normal := by
  have hread := ofBytes_of_fields? hfields hfits
  rw [encoding_of_fields? hfields]
  refine ⟨?_, hread, ?_⟩
  · rw [toBytes_of_fields? hfields, Plain.toBytes_of_fits hfits]
  · rw [ofNode_record, if_pos hlevel, ofDocument, Bson.writeDocument_of_fits hfits]
    exact hread

/-- What is too large to be written is too large to be read from its tree. -/
theorem ofNode_of_large (hnames : v.namesZeroFree = true)
    (hfields : v.fields? maxDepth = some fields)
    (hlevel : (Plain.record fields).toNode.nesting ≤ 2048)
    (hlarge : 2 ^ 31 ≤ v.encoding.length) :
    ∃ size, 2 ^ 31 ≤ size ∧ v.toBytes = .error (Bson.WriteError.oversized size).failure ∧
      ofNode (Plain.record fields).toNode =
        .error (.within "jsonschema" (Bson.WriteError.oversized size).failure) := by
  rw [encoding_of_fields? hfields] at hlarge
  obtain ⟨size, hsize, hwrite⟩ :=
    Bson.writeDocument_of_large (isWritable_of_fields? hnames hfields) hlarge
  refine ⟨size, hsize, ?_, ?_⟩
  · rw [toBytes_of_fields? hfields, Plain.toBytes, hwrite]
    rfl
  · rw [ofNode_record, if_pos hlevel, ofDocument, hwrite]

end Written

/-- A validator is read from its tree as from the bytes it is written in, if the tree
nests no deeper than 2048 levels and the bytes are fewer than 2^31.  Of more bytes
neither the validator is written nor the tree read. -/
theorem ofNode_toNode {v : Validator} {n : Yaml.Node} (hnames : v.namesZeroFree = true)
    (hn : v.toNode = .ok n) :
    (2048 < n.nesting → ofNode n = .error .validatorTooDeep) ∧
      (n.nesting ≤ 2048 → v.encoding.length < 2 ^ 31 →
        ∃ w, v.toBytes = .ok v.encoding ∧ ofBytes v.encoding = .ok w ∧ ofNode n = .ok w) ∧
      (n.nesting ≤ 2048 → 2 ^ 31 ≤ v.encoding.length →
        ∃ size, 2 ^ 31 ≤ size ∧ v.toBytes = .error (Bson.WriteError.oversized size).failure ∧
          ofNode n = .error (.within "jsonschema" (Bson.WriteError.oversized size).failure)) ∧
      ((∃ w, ofNode n = .ok w) ↔ n.nesting ≤ 2048 ∧ v.encoding.length < 2 ^ 31) := by
  obtain ⟨fields, hfields, rfl⟩ := toNode_eq_ok.1 hn
  have hdeep (h : 2048 < (Plain.record fields).toNode.nesting) :
      ofNode (Plain.record fields).toNode = .error .validatorTooDeep := by
    rw [ofNode_record, if_neg (Nat.not_le.2 h)]
  have hfit (hlevel : (Plain.record fields).toNode.nesting ≤ 2048)
      (hsize : v.encoding.length < 2 ^ 31) := by
    rw [encoding_of_fields? hfields] at hsize
    exact ofNode_of_fits hfields hlevel ⟨isWritable_of_fields? hnames hfields, hsize⟩
  refine ⟨hdeep, fun hlevel hsize => ⟨v.normal, hfit hlevel hsize⟩,
    ofNode_of_large hnames hfields, ?_, fun h => ⟨v.normal, (hfit h.1 h.2).2.2⟩⟩
  rintro ⟨w, hw⟩
  rcases Nat.lt_or_ge 2048 (Plain.record fields).toNode.nesting with hlevel | hlevel
  · rw [hdeep hlevel] at hw
    cases hw
  · refine ⟨hlevel, Nat.not_le.1 fun hlarge => ?_⟩
    obtain ⟨size, -, -, herror⟩ := ofNode_of_large hnames hfields hlevel hlarge
    rw [herror] at hw
    cases hw

/-- Texts that look like other scalars, an integer beyond 32 bits and an empty list
come back; 1024 levels of validators make 2049 levels of a tree, which can be
written but not read. -/
theorem ofNode_toNode_levels :
    let scalars : Validator :=
      .of ⟨some ⟨["true"], false⟩, some [("12", .absent)], some ["null"], none, some ⟨[], true⟩,
        some (-2147483649), none, none⟩
    let wrap (v : Validator) : Validator :=
      .of ⟨none, none, none, none, none, none, some [v], none⟩
    (∃ n w, scalars.toNode = .ok n ∧ n.nesting = 3 ∧ scalars.encoding.length = 107 ∧
      scalars.toBytes = .ok scalars.encoding ∧ ofBytes scalars.encoding = .ok w ∧
        ofNode n = .ok w) ∧
    ∃ n, (Nat.repeat wrap 1024 .absent).toNode = .ok n ∧ n.nesting = 2049 ∧
      ofNode n = .error .validatorTooDeep := by
  intro scalars wrap
  have hname : Bson.isZeroFree "12" = true := by decide
  have hscalars : scalars.namesZeroFree = true := by
    simp [scalars, namesZeroFree, Keywords.children, hname]
  have hfields (k : Nat) : ∀ room, ∃ fields,
      (Nat.repeat wrap k .absent).fields? (k + room + 1) = some fields ∧
        (Plain.record fields).toNode.nesting = 2 * k + 1 := by
    induction k with
    | zero => exact fun room => ⟨[], by rw [Nat.zero_add]; rfl, rfl⟩
    | succ k ih =>
        intro room
        obtain ⟨fields, hwritten, hlevels⟩ := ih room
        refine ⟨[("anyOf", .list [.record fields])], ?_, ?_⟩
        · have hroom : k + 1 + room + 1 = k + room + 1 + 1 := by omega
          have hlist : documentList? [Nat.repeat wrap k .absent] (k + room + 1) =
              some [.record fields] := by
            rw [documentList?_eq_mapM, List.mapM_cons, hwritten]
            rfl
          have hanyOf : listField? "anyOf" (some [Nat.repeat wrap k .absent]) (k + room + 1) =
              some [("anyOf", .list [.record fields])] := by
            rw [listField?_some, hlist]
            rfl
          rw [hroom, Nat.repeat, fields?]
          exact Keywords.fields?_eq_some.2 ⟨[], [], _, [], rfl, rfl, hanyOf, rfl, rfl⟩
        · have hadded : (Plain.record [("anyOf", .list [.record fields])]).toNode.nesting =
              1 + max (1 + max (Plain.record fields).toNode.nesting 0) 0 := rfl
          rw [hadded, hlevels]
          omega
  have hwrapped (k : Nat) : (Nat.repeat wrap k .absent).namesZeroFree = true := by
    induction k with
    | zero => rw [Nat.repeat, namesZeroFree]
    | succ k ih =>
        rw [Nat.repeat, namesZeroFree_of_iff]
        refine ⟨fun list hlist => (by cases hlist), fun c hc => ?_⟩
        obtain rfl : c = Nat.repeat wrap k .absent := List.mem_singleton.1 hc
        exact ih
  constructor
  · have hlength : scalars.encoding.length = 107 := by rfl
    have hn : scalars.toNode = .ok _ := rfl
    obtain ⟨-, hread, -⟩ := ofNode_toNode hscalars hn
    obtain ⟨w, hw⟩ := hread (by decide +kernel) (by omega)
    exact ⟨_, w, hn, rfl, hlength, hw⟩
  · obtain ⟨fields, hwritten, hlevels⟩ := hfields 1024 1023
    have hn := toNode_eq_ok.2 ⟨fields, hwritten, rfl⟩
    obtain ⟨hdeep, -⟩ := ofNode_toNode (hwrapped 1024) hn
    exact ⟨_, hn, hlevels, hdeep (by rw [hlevels]; decide)⟩

end Validator

/-! ## Lists of one value -/

theorem Bson.length_encodeItems_replicate (count index : Nat) (v : Bson.Value) :
    count * v.encode.length ≤ (Bson.encodeItems index (List.replicate count v)).length := by
  induction count generalizing index with
  | zero => exact Nat.le_of_eq (Nat.zero_mul _)
  | succ count ih =>
      have hrest := ih (index + 1)
      rw [List.replicate_succ, Bson.encodeItems, List.length_append, Bson.length_element,
        Nat.succ_mul]
      omega

namespace Plain

/-- Every character takes a byte or more. -/
theorem length_text_replicate (count : Nat) (c : Char) :
    count ≤ (text (String.ofList (List.replicate count c))).toBson.encode.length := by
  have hchars : count ≤ (Bytes.ofText (String.ofList (List.replicate count c))).length := by
    rw [Bytes.ofText_eq_flatMap, String.toList_ofList, List.length_flatMap,
      List.map_replicate, List.sum_replicate_nat]
    exact Nat.le_mul_of_pos_right count (by
      rw [String.length_utf8EncodeChar]
      exact c.utf8Size_pos)
  simp only [toBson, Bson.Value.encode, Bson.sizedText, Bson.length_sized, Bson.length_cString]
  omega

/-- The only field of a record, a list that holds one value so many times. -/
def repeated (name : String) (count : Nat) (p : Plain) : List (String × Plain) :=
  [(name, .list (List.replicate count p))]

theorem length_repeated (name : String) (count : Nat) (p : Plain) :
    count * p.toBson.encode.length ≤
      (Bson.encodeDocument (fieldsToBson (repeated name count p))).length := by
  have hitems := Bson.length_encodeItems_replicate count 0 p.toBson
  rw [← List.map_replicate, ← itemsToBson_eq_map] at hitems
  simp only [repeated, fieldsToBson, toBson, Bson.encodeDocument, Bson.encodeFields,
    Bson.Value.encode, Bson.length_enclose, Bson.length_element, List.length_append]
  omega

theorem nesting_repeated_le (name : String) (count : Nat) {p : Plain} {room : Nat}
    (h : p.toNode.nesting ≤ room) :
    (record (repeated name count p)).toNode.nesting ≤ room + 2 := by
  rw [nesting_toNode_record_le_iff, repeated, List.forall_mem_singleton,
    nesting_toNode_list_le_iff]
  intro q hq
  rw [List.eq_of_mem_replicate hq]
  exact h

end Plain

namespace Validator

/-- A validator that offers another one so many times. -/
def copies (count : Nat) (v : Validator) : Validator :=
  .of ⟨none, none, none, none, none, none, some (List.replicate count v), none⟩

theorem namesZeroFree_copies (count : Nat) {v : Validator} (h : v.namesZeroFree = true) :
    (copies count v).namesZeroFree = true := by
  rw [copies, namesZeroFree_of_iff]
  refine ⟨fun list hlist => (by cases hlist), fun c hc => ?_⟩
  have hmem : c ∈ List.replicate count v := by
    simpa [Keywords.children] using hc
  rw [List.eq_of_mem_replicate hmem]
  exact h

theorem fields?_copies (count : Nat) {v : Validator} {room : Nat}
    {fields : List (String × Plain)} (h : v.fields? room = some fields) :
    (copies count v).fields? (room + 1) =
      some (Plain.repeated "anyOf" count (.record fields)) := by
  have hlist : documentList? (List.replicate count v) room =
      some (List.replicate count (.record fields)) := by
    induction count with
    | zero => rfl
    | succ count ih => simp only [List.replicate_succ, documentList?, h, ih]
  have hanyOf : listField? "anyOf" (some (List.replicate count v)) room =
      some (Plain.repeated "anyOf" count (.record fields)) := by
    rw [listField?_some, hlist]
    rfl
  rw [copies, fields?]
  exact Keywords.fields?_eq_some.2 ⟨[], [], _, [], rfl, rfl, hanyOf, rfl, rfl⟩

/-- A validator that requires one field so many times. -/
def requires (count : Nat) (name : String) : Validator :=
  .of ⟨none, none, some (List.replicate count name), none, none, none, none, none⟩

private theorem fields?_requires (count : Nat) (name : String) (room : Nat) :
    (requires count name).fields? (room + 1) =
      some (Plain.repeated "required" count (.text name)) := by
  rw [requires, fields?]
  refine Keywords.fields?_eq_some.2 ⟨[], [], [], [], rfl, rfl, rfl, rfl, ?_⟩
  rw [Option.map_some, List.map_replicate]
  rfl

private theorem namesZeroFree_requires (count : Nat) (name : String) :
    (requires count name).namesZeroFree = true := by
  rw [requires, namesZeroFree_of_iff]
  exact ⟨fun list hlist => (by cases hlist), fun c hc => (by cases hc)⟩

/-- A tree of seven levels that is not read: 2^15 copies of a text of 2^16 characters
are too many bytes for one document. -/
theorem ofNode_toNode_oversized :
    let text := String.ofList (List.replicate 65536 'x')
    let v := copies 32 (copies 32 (requires 32 text))
    v.namesZeroFree = true ∧ ∃ n, v.toNode = .ok n ∧ n.nesting ≤ 7 ∧
      (∃ size, ofNode n =
        .error (.within "jsonschema" (Bson.WriteError.oversized size).failure)) ∧
      ¬ ((∃ w, ofNode n = .ok w) ↔ n.nesting ≤ 2048) := by
  intro text v
  have hnames : v.namesZeroFree = true :=
    namesZeroFree_copies 32 (namesZeroFree_copies 32 (namesZeroFree_requires 32 text))
  let leaf := Plain.repeated "required" 32 (.text text)
  let branch := Plain.repeated "anyOf" 32 (.record leaf)
  let root := Plain.repeated "anyOf" 32 (.record branch)
  have hfields : v.fields? maxDepth = some root :=
    fields?_copies 32 (fields?_copies 32 (fields?_requires 32 text 2045))
  have hlevel : (Plain.record root).toNode.nesting ≤ 7 :=
    Plain.nesting_repeated_le _ _ (Plain.nesting_repeated_le _ _
      (Plain.nesting_repeated_le _ _ (Nat.le_refl 1)))
  have hlarge : 2 ^ 31 ≤ v.encoding.length := by
    have htext : 65536 ≤ (Plain.text text).toBson.encode.length :=
      Plain.length_text_replicate 65536 'x'
    have hleaf : 32 * (Plain.text text).toBson.encode.length ≤
      (Plain.record leaf).toBson.encode.length := Plain.length_repeated _ _ _
    have hbranch : 32 * (Plain.record leaf).toBson.encode.length ≤
      (Plain.record branch).toBson.encode.length := Plain.length_repeated _ _ _
    have hroot : 32 * (Plain.record branch).toBson.encode.length ≤ v.encoding.length := by
      rw [encoding_of_fields? hfields]
      exact Plain.length_repeated _ _ _
    omega
  obtain ⟨size, -, -, herror⟩ := ofNode_of_large hnames hfields (by omega) hlarge
  refine ⟨hnames, _, toNode_eq_ok.2 ⟨root, hfields, rfl⟩, hlevel, ⟨size, herror⟩, fun h => ?_⟩
  obtain ⟨w, hw⟩ := h.2 (by omega)
  rw [herror] at hw
  cases hw

end Validator

end DocShape
