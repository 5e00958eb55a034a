import Mathlib.Data.List.Induction
import Mathlib.Data.List.Sort
import Mathlib.Data.String.Basic
import DocShape.Proofs.Lookup

/-!
# Names in order

Name sets and field maps list their names in strictly increasing order.  Sets
in order are determined by their members and maps in order by their look-ups,
so a document type is determined by what it says of each field.
-/

namespace DocShape

namespace NameSet

variable {a b : NameSet}

theorem Ordered.ext (ha : Ordered a) (hb : Ordered b) (h : ∀ name, name ∈ a ↔ name ∈ b) :
    a = b :=
  List.Pairwise.eq_of_mem_iff ha hb h

theorem Ordered.union (ha : Ordered a) (b : NameSet) : Ordered (union a b) := by
  unfold NameSet.union
  induction b generalizing a with
  | nil => exact ha
  | cons name rest ih => exact ih (ha.insert name)

theorem Ordered.filter (ha : Ordered a) (keep : String → Bool) : Ordered (a.filter keep) :=
  List.Pairwise.filter keep ha

theorem ordered_ofList (names : List String) : Ordered (ofList names) :=
  Ordered.union List.Pairwise.nil names

theorem mem_ofList {name : String} {names : List String} : name ∈ ofList names ↔ name ∈ names := by
  have h : name ∈ union [] names ↔ name ∈ ([] : NameSet) ∨ name ∈ names := mem_union
  exact h.trans (or_iff_right List.not_mem_nil)

theorem Ordered.ofList_eq (ha : Ordered a) : ofList a = a :=
  (ordered_ofList a).ext ha fun _ => mem_ofList

end NameSet

namespace FieldMap

variable {α : Type} {m a b : FieldMap α} {name : String} {value : α}

theorem names_collect (set : NameSet) (f : String → Option α) :
    names (collect set f) = set.filter fun name => (f name).isSome := by
  induction set with
  | nil => rfl
  | cons name rest ih =>
      rw [names, collect] at ih
      rw [names, collect, List.filterMap_cons]
      cases hf : f name with
      | none => simp [ih, hf]
      | some value => simp [ih, hf]

private theorem insert_of_forall_lt (h : ∀ other ∈ names m, other < name) :
    insert name value m = m ++ [(name, value)] := by
  induction m with
  | nil => rfl
  | cons entry rest ih =>
      obtain ⟨other, old⟩ := entry
      obtain ⟨hother, hrest⟩ := List.forall_mem_cons.1 h
      rw [insert, if_neg (lt_asymm hother), if_neg (ne_of_gt hother), ih hrest, List.cons_append]

/-- A list of entries in order is a map already. -/
theorem ofList_of_ordered (h : (names m).Ordered) : ofList m = m := by
  induction m using List.reverseRecOn with
  | nil => rfl
  | append_singleton m entry ih =>
      rw [names, List.map_append] at h
      obtain ⟨hm, -, hlt⟩ := List.pairwise_append.1 h
      have hlast : ∀ other ∈ names m, other < entry.1 :=
        fun other hother => hlt other hother entry.1 (List.mem_singleton_self _)
      have hfold : ofList (m ++ [entry]) = insert entry.1 entry.2 (ofList m) := by
        rw [ofList, List.foldl_append, List.foldl_cons, List.foldl_nil, ofList]
      rw [hfold, ih hm, insert_of_forall_lt hlast]

theorem find?_of_mem (h : (names m).Ordered) (hmem : (name, value) ∈ m) :
    find? m name = some value := by
  induction m with
  | nil => cases hmem
  | cons entry rest ih =>
      obtain ⟨other, old⟩ := entry
      obtain ⟨hother, hrest⟩ := List.pairwise_cons.1 h
      rw [find?, List.lookup_cons]
      rcases List.mem_cons.1 hmem with heq | hmem
      · cases heq
        simp
      · have hlt : other < name := hother name (List.mem_map.2 ⟨_, hmem, rfl⟩)
        rw [beq_eq_false_iff_ne.2 (ne_of_gt hlt)]
        exact ih hrest hmem

theorem exists_find?_iff (h : (names m).Ordered) :
    (∃ value, find? m name = some value) ↔ name ∈ names m := by
  constructor
  · rintro ⟨value, hfind⟩
    exact List.mem_map_of_mem (mem_of_find? hfind)
  · intro hmem
    obtain ⟨⟨_, value⟩, hentry, rfl⟩ := List.mem_map.1 hmem
    exact ⟨value, find?_of_mem h hentry⟩

/-- What is left of entries in order is in order, whatever becomes of the values. -/
theorem ordered_filterMap {β : Type} {f : String → α → Option β} (h : (names m).Ordered) :
    (names (m.filterMap fun entry => (f entry.1 entry.2).map (entry.1, ·))).Ordered := by
  refine List.pairwise_map.2 ((List.pairwise_map.1 h).filterMap _ ?_)
  intro entry other hlt value hvalue value' hvalue'
  obtain ⟨b, -, rfl⟩ := Option.map_eq_some_iff.1 hvalue
  obtain ⟨b', -, rfl⟩ := Option.map_eq_some_iff.1 hvalue'
  exact hlt

theorem find?_filterMap {β : Type} {f : String → α → Option β} (h : (names m).Ordered)
    (name : String) :
    find? (m.filterMap fun entry => (f entry.1 entry.2).map (entry.1, ·)) name =
      (find? m name).bind (f name) := by
  ext b
  rw [Option.bind_eq_some_iff]
  constructor
  · intro hb
    obtain ⟨entry, hmem, hentry⟩ := List.mem_filterMap.1 (mem_of_find? hb)
    obtain ⟨b', hb', heq⟩ := Option.map_eq_some_iff.1 hentry
    cases heq
    exact ⟨entry.2, find?_of_mem h hmem, hb'⟩
  · rintro ⟨a, ha, hb⟩
    have hmem := mem_of_find? ha
    refine find?_of_mem (ordered_filterMap h) (List.mem_filterMap.2 ⟨(name, a), hmem, ?_⟩)
    rw [hb]
    rfl

theorem find?_cons (head : String) (value : α) (rest : FieldMap α) (name : String) :
    find? ((head, value) :: rest) name = if name = head then some value else find? rest name := by
  rw [find?, List.lookup_cons]
  by_cases h : name = head
  · simp [h]
  · rw [beq_eq_false_iff_ne.2 h, if_neg h, find?]

theorem find?_filter (keep : String → Bool) (m : FieldMap α) (name : String) :
    find? (m.filter fun entry => keep entry.1) name =
      if keep name then find? m name else none := by
  induction m with
  | nil => simp [find?]
  | cons entry rest ih =>
      obtain ⟨head, value⟩ := entry
      rw [List.filter_cons, find?_cons]
      by_cases heq : name = head
      · subst heq
        cases hkeep : keep name with
        | true => simp [find?_cons]
        | false => simp [ih, hkeep]
      · cases keep head <;> simp [find?_cons, heq, ih]

theorem find?_map {β : Type} (f : α → β) (m : FieldMap α) (name : String) :
    find? (m.map fun entry => (entry.1, f entry.2)) name = (find? m name).map f := by
  induction m with
  | nil => rfl
  | cons entry rest ih =>
      rw [find?, find?] at ih
      rw [find?, find?, List.map_cons, List.lookup_cons, List.lookup_cons, ih]
      split <;> rfl

theorem find?_insert (name : String) (value : α) (m : FieldMap α) (other : String) :
    find? (insert name value m) other = if other = name then some value else find? m other := by
  induction m with
  | nil => exact find?_cons name value [] other
  | cons entry rest ih =>
      obtain ⟨head, old⟩ := entry
      unfold insert
      split
      · exact find?_cons name value _ other
      · split
        · rename_i heq
          subst heq
          rw [find?_cons, find?_cons]
          by_cases h : other = name <;> simp [h]
        · rename_i hne
          rw [find?_cons, find?_cons, ih]
          by_cases h : other = head
          · simp [h, Ne.symm hne]
          · simp [h]

/-- A name below all others is not among them. -/
theorem find?_eq_none_of_forall_lt (h : ∀ other ∈ names m, name < other) : find? m name = none := by
  cases hfind : find? m name with
  | none => rfl
  | some value =>
      have hmem : name ∈ names m := List.mem_map_of_mem (mem_of_find? hfind)
      exact absurd (h name hmem) (lt_irrefl name)

theorem find?_union (h : (names a).Ordered) (name : String) :
    find? (union a b) name = (find? a name).or (find? b name) := by
  induction a generalizing b with
  | nil => rfl
  | cons entry rest ih =>
      obtain ⟨head, value⟩ := entry
      obtain ⟨hhead, hrest⟩ := List.pairwise_cons.1 h
      have hunion : union ((head, value) :: rest) b = union rest (insert head value b) := rfl
      rw [hunion, ih hrest, find?_insert, find?_cons]
      by_cases heq : name = head
      · have hnone : find? rest name = none := find?_eq_none_of_forall_lt (heq ▸ hhead)
        rw [if_pos heq, if_pos heq, hnone]
        rfl
      · rw [if_neg heq, if_neg heq]

theorem ordered_union (hb : (names b).Ordered) : (names (union a b)).Ordered := by
  unfold union
  induction a generalizing b with
  | nil => exact hb
  | cons entry rest ih =>
      refine ih ?_
      rw [names_insert]
      exact hb.insert _

/-- Maps in order with the same look-ups are the same. -/
theorem ext_find? (ha : (names a).Ordered) (hb : (names b).Ordered)
    (h : ∀ name, find? a name = find? b name) : a = b := by
  have hpairs {m : FieldMap α} (hm : (names m).Ordered) : m.Pairwise fun x y => x.1 < y.1 :=
    List.pairwise_map.1 hm
  have : Std.Antisymm fun x y : String × α => x.1 < y.1 :=
    ⟨fun _ _ hxy hyx => absurd hyx (lt_asymm hxy)⟩
  have : Std.Irrefl fun x y : String × α => x.1 < y.1 := ⟨fun x => lt_irrefl x.1⟩
  refine List.Pairwise.eq_of_mem_iff (hpairs ha) (hpairs hb) fun entry => ?_
  constructor
  · intro hmem
    exact mem_of_find? ((h entry.1).symm.trans (find?_of_mem ha hmem))
  · intro hmem
    exact mem_of_find? ((h entry.1).trans (find?_of_mem hb hmem))

end FieldMap

namespace NameMap

variable {α β ε : Type} {m a b : NameMap α} {name : String}

theorem ext_of_find? (h : ∀ name, a.find? name = b.find? name) : a = b :=
  NameMap.ext (FieldMap.ext_find? a.ordered b.ordered h)

theorem find?_insert (m : NameMap α) (name : String) (value : α) (other : String) :
    (m.insert name value).find? other = if other = name then some value else m.find? other :=
  FieldMap.find?_insert name value m.entries other

theorem exists_find?_iff : (∃ value, m.find? name = some value) ↔ name ∈ m.names :=
  FieldMap.exists_find?_iff m.ordered

private theorem entries_ofList (entries : List (String × α)) :
    (ofList entries).entries = FieldMap.ofList entries := by
  have hfold (m : NameMap α) : (entries.foldl (fun m entry => m.insert entry.1 entry.2) m).entries =
      entries.foldl (fun acc entry => FieldMap.insert entry.1 entry.2 acc) m.entries := by
    induction entries generalizing m with
    | nil => rfl
    | cons entry rest ih => exact ih _
  exact hfold empty

theorem ofList_entries (m : NameMap α) : ofList m.entries = m := by
  refine NameMap.ext ?_
  rw [entries_ofList, FieldMap.ofList_of_ordered m.ordered]

def mapValues (f : α → β) (m : NameMap α) : NameMap β where
  entries := m.entries.map fun entry => (entry.1, f entry.2)
  ordered := by
    rw [FieldMap.names, List.map_map]
    exact m.ordered

theorem names_mapValues (f : α → β) (m : NameMap α) : (m.mapValues f).names = m.names :=
  List.map_map

theorem find?_mapValues (f : α → β) (m : NameMap α) (name : String) :
    (m.mapValues f).find? name = (m.find? name).map f :=
  FieldMap.find?_map f m.entries name

theorem map_entries_mapValuesM (f : String → α → Except ε β) (m : NameMap α) :
    (m.mapValuesM f).map entries = m.entries.mapM (FieldMap.withValue f) := by
  rw [mapValuesM]
  split <;> exact Eq.symm ‹_›

theorem mapValuesM_eq_ok {f : String → α → Except ε β} {out : NameMap β} :
    m.mapValuesM f = .ok out ↔ m.entries.mapM (FieldMap.withValue f) = .ok out.entries := by
  rw [← map_entries_mapValuesM]
  cases m.mapValuesM f with
  | ok other => simp [Except.map, NameMap.ext_iff]
  | error e => simp [Except.map]

theorem mapValuesM_congr {f : String → α → Except ε β}
    (h : a.entries.mapM (FieldMap.withValue f) = b.entries.mapM (FieldMap.withValue f)) :
    a.mapValuesM f = b.mapValuesM f := by
  rw [← map_entries_mapValuesM, ← map_entries_mapValuesM] at h
  generalize a.mapValuesM f = x at h ⊢
  generalize b.mapValuesM f = y at h ⊢
  cases x with
  | ok m => cases y <;> simp_all [Except.map, NameMap.ext_iff]
  | error e => cases y <;> simp_all [Except.map]

end NameMap

/-! ## Document types -/

/-- Declared and required fields are listed in order. -/
structure Document.Ordered (d : Document) : Prop where
  keys : d.keyNames.Ordered
  required : NameSet.Ordered d.required

instance (d : Document) : Decidable d.Ordered :=
  decidable_of_iff (d.keyNames.Ordered ∧ NameSet.Ordered d.required)
    ⟨fun h => ⟨h.1, h.2⟩, fun h => ⟨h.keys, h.required⟩⟩

namespace Document

variable {d o : Document}

/-- A document type in order is determined by what it says of each field. -/
theorem Ordered.ext (hd : d.Ordered) (ho : o.Ordered) (hkey : ∀ field, d.key? field = o.key? field)
    (hrequires : ∀ field, d.requires field = o.requires field) (hopen : d.isOpen = o.isOpen)
    (hreferences : d.references = o.references) (hjaccard : d.jaccard = o.jaccard) : d = o := by
  have hkeys : d.keys = o.keys := FieldMap.ext_find? hd.keys ho.keys hkey
  have hrequired : d.required = o.required := by
    refine hd.required.ext ho.required fun field => ?_
    rw [← requires_iff, ← requires_iff, hrequires]
  cases d
  cases o
  cases hkeys
  cases hrequired
  cases hopen
  cases hreferences
  cases hjaccard
  rfl

theorem Ordered.fieldNames (hd : d.Ordered) : d.fieldNames.Ordered :=
  hd.keys.union d.required

theorem ordered_unionKeys (hd : d.Ordered) (join : Schema → Schema → Schema) (o : Document) :
    (FieldMap.names (d.unionKeys join o)).Ordered := by
  rw [unionKeys, FieldMap.names_collect]
  exact (hd.fieldNames.union _).filter _

theorem Ordered.unionWith (hd : d.Ordered) (join : Schema → Schema → Schema) (o : Document) :
    (d.unionWith join o).Ordered := by
  unfold Document.unionWith
  dsimp only
  split
  · exact ⟨List.Pairwise.nil, List.Pairwise.nil⟩
  · exact ⟨ordered_unionKeys hd join o, hd.required.filter _⟩

theorem Ordered.mergeWith (hd : d.Ordered) (join : Schema → Schema → Schema) (o : Document) :
    (d.mergeWith join o).Ordered :=
  ⟨ordered_unionKeys hd join o, hd.required.union _⟩

end Document

end DocShape
