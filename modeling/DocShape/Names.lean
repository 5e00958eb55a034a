/-!
# Name sets and field maps

Field names are kept in increasing order: a `NameSet` is a sorted list of
names, a `FieldMap` a list of named entries sorted by name.  Both are plain
lists, so that recursive types may hold them.  Elsewhere a `NameMap` holds such
entries together with the proof that they are in order.
-/

namespace DocShape

/-- Field names, in strictly increasing order. -/
abbrev NameSet := List String

namespace NameSet

/-- Adds one name, keeping the order. -/
def insert (name : String) : NameSet → NameSet
  | [] => [name]
  | other :: rest =>
      if name < other then name :: other :: rest
      else if name = other then other :: rest
      else other :: insert name rest

def ofList (names : List String) : NameSet :=
  names.foldl (fun acc name => insert name acc) []

def union (a b : NameSet) : NameSet :=
  b.foldl (fun acc name => insert name acc) a

/-- The names of both sets. -/
def inter (a b : NameSet) : NameSet :=
  a.filter b.contains

/-- Every name of `a` is in `b`. -/
def subset (a b : NameSet) : Bool :=
  a.all b.contains

/-- The names strictly increase. -/
def Ordered (names : NameSet) : Prop :=
  names.Pairwise (· < ·)

instance (names : NameSet) : Decidable names.Ordered :=
  inferInstanceAs (Decidable (List.Pairwise (· < ·) (names : List String)))

variable {name other : String} {a : NameSet}

theorem mem_insert {set : NameSet} : name ∈ insert other set ↔ name = other ∨ name ∈ set := by
  induction set with
  | nil => simp [insert]
  | cons head rest ih =>
      unfold insert
      split
      · exact List.mem_cons
      · split
        · rename_i heq
          subst heq
          simp
        · rw [List.mem_cons, ih, List.mem_cons]
          exact or_left_comm

theorem Ordered.insert (h : Ordered a) (name : String) : Ordered (insert name a) := by
  induction a with
  | nil => exact List.pairwise_singleton _ _
  | cons other rest ih =>
      obtain ⟨hother, hrest⟩ := List.pairwise_cons.1 h
      unfold NameSet.insert
      split
      · rename_i hlt
        refine List.pairwise_cons.2 ⟨?_, h⟩
        intro x hx
        rcases List.mem_cons.1 hx with rfl | hx
        · exact hlt
        · exact String.lt_trans hlt (hother x hx)
      · split
        · exact h
        · rename_i hle hne
          have hlt : other < name := Decidable.byContradiction fun hge =>
            hne (String.le_antisymm (String.not_lt.1 hge) (String.not_lt.1 hle))
          refine List.pairwise_cons.2 ⟨?_, ih hrest⟩
          intro x hx
          rcases mem_insert.1 hx with rfl | hx
          · exact hlt
          · exact hother x hx

end NameSet

/-- Named entries, in strictly increasing order of their names. -/
abbrev FieldMap (α : Type) := List (String × α)

namespace FieldMap

variable {α β : Type}

def find? (m : FieldMap α) (name : String) : Option α :=
  List.lookup name m

def has (m : FieldMap α) (name : String) : Bool :=
  (find? m name).isSome

def names (m : FieldMap α) : NameSet :=
  m.map Prod.fst

/-- Sets the entry of a name, replacing the one it had. -/
def insert (name : String) (value : α) : FieldMap α → FieldMap α
  | [] => [(name, value)]
  | (other, old) :: rest =>
      if name < other then (name, value) :: (other, old) :: rest
      else if name = other then (name, value) :: rest
      else (other, old) :: insert name value rest

/-- The map of the listed entries; of entries with one name the last stands. -/
def ofList (entries : List (String × α)) : FieldMap α :=
  entries.foldl (fun acc entry => insert entry.1 entry.2 acc) []

/-- The entries of both maps; where both have a name, the first map's stands. -/
def union (a b : FieldMap α) : FieldMap α :=
  a.foldl (fun acc entry => insert entry.1 entry.2 acc) b

/-- The entries that `f` gives to the listed names. -/
def collect (names : NameSet) (f : String → Option α) : FieldMap α :=
  names.filterMap fun name => (f name).map (name, ·)

/-- The entry with the value that `f` gives for it. -/
def withValue {ε : Type} (f : String → α → Except ε β) (entry : String × α) :
    Except ε (String × β) := do
  return (entry.1, ← f entry.1 entry.2)

/-- The names with the values that `f` gives for their entries. -/
def mapValuesM {ε : Type} (f : String → α → Except ε β) (m : FieldMap α) :
    Except ε (FieldMap β) :=
  List.mapM (withValue f) m

theorem names_insert (name : String) (value : α) (m : FieldMap α) :
    names (insert name value m) = NameSet.insert name (names m) := by
  induction m with
  | nil => rfl
  | cons entry rest ih =>
      obtain ⟨other, old⟩ := entry
      simp only [names, List.map_cons] at ih ⊢
      unfold insert NameSet.insert
      split
      · simp
      · split
        · rename_i heq
          simp [heq]
        · simp [ih]

theorem names_of_mapValuesM {ε : Type} {f : String → α → Except ε β} {m : FieldMap α}
    {out : FieldMap β} (h : mapValuesM f m = .ok out) : names out = names m := by
  induction m generalizing out with
  | nil =>
      cases h
      rfl
  | cons entry rest ih =>
      rw [mapValuesM, List.mapM_cons, withValue] at h
      cases hvalue : f entry.1 entry.2 with
      | error e =>
          rw [hvalue] at h
          cases h
      | ok value =>
          rw [hvalue] at h
          cases hrest : List.mapM (withValue f) rest with
          | error e =>
              simp only [bind, Except.bind, pure, Except.pure, hrest] at h
              cases h
          | ok others =>
              simp only [bind, Except.bind, pure, Except.pure, hrest] at h
              cases h
              exact congrArg (entry.1 :: ·) (ih hrest)

end FieldMap

/-- Named entries and the proof that they are in order. -/
@[ext]
structure NameMap (α : Type) where
  entries : FieldMap α
  ordered : (FieldMap.names entries).Ordered

namespace NameMap

variable {α β : Type}

def empty : NameMap α := ⟨[], List.Pairwise.nil⟩

def find? (m : NameMap α) (name : String) : Option α :=
  FieldMap.find? m.entries name

def has (m : NameMap α) (name : String) : Bool :=
  FieldMap.has m.entries name

def names (m : NameMap α) : NameSet :=
  FieldMap.names m.entries

def size (m : NameMap α) : Nat :=
  m.entries.length

/-- Sets the entry of a name, replacing the one it had. -/
def insert (m : NameMap α) (name : String) (value : α) : NameMap α where
  entries := FieldMap.insert name value m.entries
  ordered := by
    rw [FieldMap.names_insert]
    exact m.ordered.insert name

/-- The map of the listed entries; of entries with one name the last stands. -/
def ofList (entries : List (String × α)) : NameMap α :=
  entries.foldl (fun m entry => m.insert entry.1 entry.2) empty

/-- The names with the values that `f` gives for their entries. -/
def mapValuesM {ε : Type} (f : String → α → Except ε β) (m : NameMap α) :
    Except ε (NameMap β) :=
  match h : FieldMap.mapValuesM f m.entries with
  | .ok entries => .ok ⟨entries, FieldMap.names_of_mapValuesM h ▸ m.ordered⟩
  | .error e => .error e

end NameMap

end DocShape
