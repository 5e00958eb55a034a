import DocShape.Schema.Union

/-!
# Look-ups

Membership in name sets, entries of field maps, and the view of a document type
through its fields: what the type declares for a field, whether it requires or
mentions it.  A union of document types is determined by that view.
-/

namespace DocShape

namespace NameSet

variable {name : String} {a b : NameSet}

theorem mem_union : name ∈ union a b ↔ name ∈ a ∨ name ∈ b := by
  unfold union
  induction b generalizing a with
  | nil => simp
  | cons head rest ih =>
      rw [List.foldl_cons, ih, mem_insert, List.mem_cons]
      rw [or_right_comm, or_comm]

theorem mem_inter : name ∈ inter a b ↔ name ∈ a ∧ name ∈ b := by
  rw [inter, List.mem_filter, List.contains_iff_mem]

end NameSet

namespace FieldMap

variable {α : Type} {name : String} {value : α} {m : FieldMap α}

theorem mem_of_find? (h : find? m name = some value) : (name, value) ∈ m := by
  induction m with
  | nil => cases h
  | cons entry rest ih =>
      obtain ⟨other, old⟩ := entry
      rw [find?, List.lookup_cons] at h
      split at h
      · rename_i heq
        cases h
        rw [beq_iff_eq.1 heq]
        exact List.mem_cons_self
      · exact List.mem_cons_of_mem _ (ih h)

theorem mem_of_mem_insert {entry : String × α} (h : entry ∈ insert name value m) :
    entry = (name, value) ∨ entry ∈ m := by
  induction m with
  | nil => exact Or.inl (List.mem_singleton.1 h)
  | cons head rest ih =>
      unfold insert at h
      split at h
      · exact List.mem_cons.1 h
      · split at h
        · exact (List.mem_cons.1 h).imp_right (List.mem_cons_of_mem _)
        · rcases List.mem_cons.1 h with rfl | hrest
          · exact Or.inr List.mem_cons_self
          · exact (ih hrest).imp_right (List.mem_cons_of_mem _)

theorem find?_collect {names : NameSet} {f : String → Option α} :
    find? (collect names f) name = if name ∈ names then f name else none := by
  induction names with
  | nil => rfl
  | cons head rest ih =>
      rw [collect, List.filterMap_cons]
      rw [collect] at ih
      by_cases hname : name = head
      · subst hname
        cases hf : f name with
        | none => simp [ih, hf]
        | some value => simp [find?]
      · have hmem : name ∈ head :: rest ↔ name ∈ rest := by simp [hname]
        simp only [hmem, ← ih]
        cases hf : f head with
        | none => rfl
        | some value =>
            have hne : (name == head) = false := beq_eq_false_iff_ne.2 hname
            simp [find?, List.lookup_cons, hne]

theorem eq_of_mem_collect {names : NameSet} {f : String → Option α}
    (h : (name, value) ∈ collect names f) : f name = some value := by
  obtain ⟨other, -, hother⟩ := List.mem_filterMap.1 h
  obtain ⟨found, hfound, heq⟩ := Option.map_eq_some_iff.1 hother
  cases heq
  exact hfound

end FieldMap

namespace Document

variable {d o : Document} {field : String} {s : Schema}

theorem requires_iff : d.requires field = true ↔ field ∈ d.required :=
  List.contains_iff_mem

theorem mem_of_key? (h : d.key? field = some s) : (field, s) ∈ d.keys :=
  FieldMap.mem_of_find? h

theorem mem_keyNames : field ∈ d.keyNames ↔ d.hasKey field = true := by
  constructor
  · intro h
    obtain ⟨entry, hmem, rfl⟩ := List.mem_map.1 h
    exact hasKey_of_mem hmem
  · intro h
    obtain ⟨s, hs⟩ := Option.isSome_iff_exists.1 h
    exact List.mem_map.2 ⟨_, mem_of_key? hs, rfl⟩

theorem mem_fieldNames : field ∈ d.fieldNames ↔ d.mentions field = true := by
  rw [fieldNames, NameSet.mem_union, mem_keyNames, mentions, Bool.or_eq_true, requires_iff]

theorem declared?_of_key? (h : d.key? field = some s) : d.declared? field = some s := by
  rw [declared?, h]

theorem declared?_isSome : (d.declared? field).isSome = d.mentions field := by
  rw [declared?, mentions, hasKey]
  cases d.key? field with
  | some s => rfl
  | none => cases d.requires field <;> rfl

theorem declared?_eq_none : d.declared? field = none ↔ d.mentions field = false := by
  rw [← declared?_isSome, Option.isSome_eq_false_iff, Option.isNone_iff_eq_none]

theorem declared?_of_mentions (h : d.mentions field = true) : ∃ s, d.declared? field = some s :=
  Option.isSome_iff_exists.1 (declared?_isSome.trans h)

/-- A mentioned field is declared, or required without a schema. -/
theorem declared?_cases (h : d.declared? field = some s) :
    d.key? field = some s ∨ d.key? field = none ∧ d.requires field = true ∧ s = .any := by
  rw [declared?] at h
  cases hkey : d.key? field with
  | some t =>
      rw [hkey] at h
      exact Or.inl h
  | none =>
      rw [hkey] at h
      cases hreq : d.requires field with
      | true =>
          rw [hreq] at h
          cases h
          exact Or.inr ⟨rfl, rfl, rfl⟩
      | false =>
          rw [hreq] at h
          cases h

theorem fieldSchema_of_declared (h : d.declared? field = some s) :
    d.fieldSchema field = if d.requires field then s else s.orMissing := by
  rcases declared?_cases h with hkey | ⟨hkey, hrequires, rfl⟩
  · rw [fieldSchema, hkey]
  · rw [fieldSchema, hkey, hrequires]
    rfl

theorem fieldSchema_of_not_hasKey (h : d.hasKey field = false) :
    d.fieldSchema field = if d.requires field || d.isOpen then .any else .missing := by
  have hkey : d.key? field = none := by
    rwa [hasKey, Option.isSome_eq_false_iff, Option.isNone_iff_eq_none] at h
  rw [fieldSchema, hkey]

theorem fieldSchema_of_not_mentions (h : d.mentions field = false) :
    d.fieldSchema field = if d.isOpen then .any else .missing := by
  rw [mentions, Bool.or_eq_false_iff] at h
  rw [fieldSchema_of_not_hasKey h.1, h.2, Bool.false_or]

/-! ## Documents together -/

section Together

variable {join : Schema → Schema → Schema} {u : Document}

theorem unionKey_flip (join : Schema → Schema → Schema) (d o : Document) (field : String) :
    d.unionKey join o field = o.unionKey (flip join) d field := by
  unfold unionKey
  cases d.declared? field <;> cases o.declared? field <;> simp [flip, Bool.or_comm]

theorem unionKey_both {t v : Schema} (hd : d.declared? field = some t)
    (ho : o.declared? field = some v) :
    d.unionKey join o field =
      if d.hasKey field || o.hasKey field then some (join t v) else none := by
  rw [unionKey, hd, ho]

theorem unionKey_left {t : Schema} (hd : d.declared? field = some t)
    (ho : o.mentions field = false) :
    d.unionKey join o field = some (if o.isOpen then .any else t) := by
  rw [unionKey, hd, declared?_eq_none.2 ho]

theorem unionKey_right {v : Schema} (hd : d.mentions field = false)
    (ho : o.declared? field = some v) :
    d.unionKey join o field = some (if d.isOpen then .any else v) := by
  rw [unionKey, ho, declared?_eq_none.2 hd]

theorem unionKey_of_not_mentions (hd : d.mentions field = false) (ho : o.mentions field = false) :
    d.unionKey join o field = none := by
  rw [unionKey, declared?_eq_none.2 hd, declared?_eq_none.2 ho]

theorem find?_unionKeys (join : Schema → Schema → Schema) (d o : Document) (field : String) :
    FieldMap.find? (d.unionKeys join o) field = d.unionKey join o field := by
  rw [unionKeys, FieldMap.find?_collect]
  split
  · rfl
  · rename_i hmem
    rw [NameSet.mem_union, mem_fieldNames, mem_fieldNames, not_or, Bool.not_eq_true,
      Bool.not_eq_true] at hmem
    rw [unionKey_of_not_mentions hmem.1 hmem.2]

theorem unionKey_of_mem_unionKeys (h : (field, s) ∈ d.unionKeys join o) :
    d.unionKey join o field = some s :=
  FieldMap.eq_of_mem_collect h

/-- What a field of two documents together can be: the join of two schemas, or
the schema of one side that the other side leaves alone, or anything. -/
theorem unionKey_cases (h : d.unionKey join o field = some s) :
    (∃ t v, d.declared? field = some t ∧ o.declared? field = some v ∧ s = join t v) ∨
      d.declared? field = some s ∨ o.declared? field = some s ∨ s = .any := by
  cases hd : d.declared? field with
  | some t =>
      cases ho : o.declared? field with
      | some v =>
          rw [unionKey_both hd ho] at h
          split at h
          · cases h
            exact Or.inl ⟨t, v, rfl, rfl, rfl⟩
          · cases h
      | none =>
          rw [unionKey_left hd (declared?_eq_none.1 ho)] at h
          cases h
          split
          · exact Or.inr (Or.inr (Or.inr rfl))
          · exact Or.inr (Or.inl rfl)
  | none =>
      cases ho : o.declared? field with
      | some v =>
          rw [unionKey_right (declared?_eq_none.1 hd) ho] at h
          cases h
          split
          · exact Or.inr (Or.inr (Or.inr rfl))
          · exact Or.inr (Or.inr (Or.inl rfl))
      | none =>
          rw [unionKey_of_not_mentions (declared?_eq_none.1 hd) (declared?_eq_none.1 ho)] at h
          cases h

/-- `u` is the union of `d` and `o` as far as its fields show. -/
structure IsUnion (join : Schema → Schema → Schema) (u d o : Document) : Prop where
  entry : ∀ field s, (field, s) ∈ u.keys → u.key? field = some s
  key : ∀ field, u.key? field = d.unionKey join o field
  requires : ∀ field, u.requires field = (d.requires field && o.requires field)
  isOpen : u.isOpen = (d.isOpen || o.isOpen)

theorem IsUnion.symm (h : IsUnion join u d o) : IsUnion (flip join) u o d where
  entry := h.entry
  key field := by rw [h.key, unionKey_flip]
  requires field := by rw [h.requires, Bool.and_comm]
  isOpen := by rw [h.isOpen, Bool.or_comm]

/-- Two documents together mention the fields of either. -/
theorem IsUnion.mentions (h : IsUnion join u d o) (field : String) :
    u.mentions field = (d.mentions field || o.mentions field) := by
  cases hd : d.mentions field with
  | false =>
      have hrequires : u.requires field = false := by
        rw [Document.mentions, Bool.or_eq_false_iff] at hd
        rw [h.requires, hd.2, Bool.false_and]
      rw [Document.mentions, hasKey, h.key, hrequires, Bool.or_false, Bool.false_or]
      cases ho : o.mentions field with
      | false =>
          rw [unionKey_of_not_mentions hd ho]
          rfl
      | true =>
          obtain ⟨t, ht⟩ := declared?_of_mentions ho
          rw [unionKey_right hd ht]
          rfl
  | true =>
      obtain ⟨s, hs⟩ := declared?_of_mentions hd
      rw [Document.mentions, hasKey, h.key, Bool.true_or]
      cases ho : o.mentions field with
      | false =>
          rw [unionKey_left hs ho]
          rfl
      | true =>
          obtain ⟨t, ht⟩ := declared?_of_mentions ho
          rw [unionKey_both hs ht, h.requires]
          rw [Document.mentions] at hd ho
          split
          · rfl
          · rename_i hkeys
            rw [Bool.not_eq_true, Bool.or_eq_false_iff] at hkeys
            rw [hkeys.1, Bool.false_or] at hd
            rw [hkeys.2, Bool.false_or] at ho
            rw [hd, ho]
            rfl

/-- A union is field by field, unless its statistics have become unstable. -/
theorem unionWith_cases (join : Schema → Schema → Schema) (d o : Document) :
    (∃ jaccard, d.unionWith join o = { unconstrained with jaccard := some jaccard }) ∨
      (d.unionWith join o).keys = d.unionKeys join o ∧ IsUnion join (d.unionWith join o) d o := by
  unfold unionWith
  dsimp only
  split
  · rename_i hunstable
    obtain ⟨jaccard, hjaccard, -⟩ := (Option.any_eq_true _ _).1 hunstable
    exact Or.inl ⟨jaccard, by rw [hjaccard]⟩
  · refine Or.inr ⟨rfl, ?_, find?_unionKeys join d o, ?_, rfl⟩
    · intro field s hmem
      exact (find?_unionKeys join d o field).trans (unionKey_of_mem_unionKeys hmem)
    · intro field
      rw [Bool.eq_iff_iff, Bool.and_eq_true, requires_iff, requires_iff, requires_iff]
      exact NameSet.mem_inter

theorem unionWith_of_jaccard_none (hd : d.jaccard = none) (ho : o.jaccard = none) :
    IsUnion join (d.unionWith join o) d o := by
  rcases unionWith_cases join d o with ⟨jaccard, h⟩ | h
  · rw [unionWith, hd, ho] at h
    cases congrArg Document.jaccard h
  · exact h.2

end Together

end Document

end DocShape
