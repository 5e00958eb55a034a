import DocShape.Diagram.Basic
import DocShape.Proofs.Ordered
import DocShape.Proofs.Outcomes
import DocShape.Proofs.UpperBound

/-!
# Merging diagrams

Two diagrams merge unless they place an entity differently, and the failure then
tells of every such entity, in the order of their names.  The merged diagram has
the entities of both, and the schema of an entity that both describe contains
the two schemas.
-/

namespace DocShape

namespace Diagram

variable {a b : Diagram} {name here there : String}

def entity? (d : Diagram) (name : String) : Option Entity :=
  d.entities.find? name

theorem mem_entityNames {d : Diagram} :
    (∃ e, d.entity? name = some e) ↔ name ∈ d.entityNames :=
  NameMap.exists_find?_iff

/-! ## Entities that two diagrams place differently -/

/-- The first diagram places the entity `here` and the second one `there`, elsewhere. -/
def Misplaced (a b : Diagram) (name here there : String) : Prop :=
  ∃ mine theirs, a.entity? name = some mine ∧ b.entity? name = some theirs ∧
    mine.space = here ∧ theirs.space = there ∧ here ≠ there

/-- The two places of an entity of the second diagram, if the first one places it elsewhere. -/
def places? (a : Diagram) (name : String) (theirs : Entity) : Option (String × String) :=
  match a.entity? name with
  | some mine => if mine.space = theirs.space then none else some (mine.space, theirs.space)
  | none => none

/-- The entities that two diagrams place differently, with their places. -/
def misplaced (a b : Diagram) : FieldMap (String × String) :=
  b.entities.entries.filterMap fun entry => (a.places? entry.1 entry.2).map (entry.1, ·)

private theorem places?_eq_some {theirs : Entity} :
    a.places? name theirs = some (here, there) ↔
      ∃ mine, a.entity? name = some mine ∧ mine.space = here ∧ theirs.space = there ∧
        here ≠ there := by
  rw [places?]
  cases a.entity? name with
  | none => simp
  | some mine => grind

theorem clashes_eq (a b : Diagram) :
    clashes a b = (misplaced a b).map fun entry => .namespaceClash entry.1 entry.2.1 entry.2.2 := by
  rw [clashes, misplaced, List.map_filterMap]
  refine List.filterMap_congr fun entry _ => ?_
  dsimp only [places?, entity?]
  cases a.entities.find? entry.1 with
  | none => rfl
  | some mine => by_cases h : mine.space = entry.2.space <;> simp [h]

theorem ordered_misplaced (a b : Diagram) : (FieldMap.names (misplaced a b)).Ordered :=
  FieldMap.ordered_filterMap b.entities.ordered

theorem mem_misplaced :
    (name, here, there) ∈ misplaced a b ↔ Misplaced a b name here there := by
  have hfind : FieldMap.find? (misplaced a b) name = (b.entity? name).bind (a.places? name) :=
    FieldMap.find?_filterMap b.entities.ordered name
  have hmem : (name, here, there) ∈ misplaced a b ↔
      FieldMap.find? (misplaced a b) name = some (here, there) :=
    ⟨FieldMap.find?_of_mem (ordered_misplaced a b), FieldMap.mem_of_find?⟩
  rw [hmem, hfind, Option.bind_eq_some_iff]
  simp only [places?_eq_some]
  constructor
  · rintro ⟨theirs, htheirs, mine, hmine, hplaces⟩
    exact ⟨mine, theirs, hmine, htheirs, hplaces⟩
  · rintro ⟨mine, theirs, hmine, htheirs, hplaces⟩
    exact ⟨theirs, htheirs, mine, hmine, hplaces⟩

/-! ## The entities of both -/

/-- The entities merged so far, with one more entity of the second diagram. -/
def mergeStep (acc : NameMap Entity) (entry : String × Entity) : NameMap Entity :=
  acc.insert entry.1 (((acc.find? entry.1).map (mergeEntity · entry.2)).getD entry.2)

theorem mergeEntities_eq_foldl (a b : Diagram) :
    mergeEntities a b = b.entities.entries.foldl mergeStep a.entities := by
  refine congrArg (fun step => b.entities.entries.foldl step a.entities)
    (funext₂ fun acc entry => ?_)
  dsimp only [mergeStep]
  cases acc.find? entry.1 <;> rfl

private theorem find?_mergeStep (acc : NameMap Entity) (entry : String × Entity) (name : String) :
    (mergeStep acc entry).find? name =
      if name = entry.1 then Option.merge mergeEntity (acc.find? name) (some entry.2)
      else acc.find? name := by
  rw [mergeStep, NameMap.find?_insert]
  split
  · rename_i heq
    subst heq
    cases acc.find? entry.1 <;> rfl
  · rfl

/-- After a whole run, an entity is what the two sides give together. -/
theorem find?_foldl_mergeStep {entries : FieldMap Entity} {acc : NameMap Entity}
    (h : (FieldMap.names entries).Ordered) (name : String) :
    (entries.foldl mergeStep acc).find? name =
      Option.merge mergeEntity (acc.find? name) (FieldMap.find? entries name) := by
  induction entries generalizing acc with
  | nil => exact Option.merge_none_right.symm
  | cons entry rest ih =>
      obtain ⟨hhead, hrest⟩ := List.pairwise_cons.1 h
      rw [List.foldl_cons, ih hrest, find?_mergeStep, FieldMap.find?_cons]
      by_cases heq : name = entry.1
      · have hnone : FieldMap.find? rest name = none :=
          FieldMap.find?_eq_none_of_forall_lt (heq ▸ hhead)
        rw [if_pos heq, if_pos heq, hnone, Option.merge_none_right]
      · rw [if_neg heq, if_neg heq]

/-- An entity that two diagrams describe as `mine` and `theirs`, in one description. -/
structure Combines (mine theirs e : Entity) : Prop where
  database : e.database = mine.database
  collection : e.collection = mine.collection
  primaryKey : e.primaryKey = if mine.primaryKey = [] then theirs.primaryKey else mine.primaryKey
  mine_schema : mine.schema.Canonical → mine.schema.satisfies e.schema = .must
  theirs_schema : theirs.schema.Canonical → theirs.schema.satisfies e.schema = .must

private theorem combines_mergeEntity (mine theirs : Entity) :
    Combines mine theirs (mergeEntity mine theirs) where
  database := rfl
  collection := rfl
  primaryKey := by simp only [mergeEntity, List.isEmpty_iff]
  mine_schema h := (h.within_union theirs.schema).1
  theirs_schema h := (h.within_union mine.schema).2

/-- `m` describes the entities of both diagrams. -/
structure Merges (a b m : Diagram) : Prop where
  name : m.name = if a.name = "" then b.name else a.name
  entityNames : m.entityNames = NameSet.union a.entityNames b.entityNames
  left : ∀ name mine, a.entity? name = some mine → b.entity? name = none →
    m.entity? name = some mine
  right : ∀ name theirs, a.entity? name = none → b.entity? name = some theirs →
    m.entity? name = some theirs
  shared : ∀ name mine theirs, a.entity? name = some mine → b.entity? name = some theirs →
    ∃ e, m.entity? name = some e ∧ Combines mine theirs e

theorem merges_mergeEntities (a b : Diagram) :
    Merges a b ⟨if a.name = "" then b.name else a.name, mergeEntities a b⟩ := by
  have hfind (name : String) : (mergeEntities a b).find? name =
      Option.merge mergeEntity (a.entity? name) (b.entity? name) := by
    rw [mergeEntities_eq_foldl]
    exact find?_foldl_mergeStep b.entities.ordered name
  refine ⟨rfl, ?_, ?_, ?_, ?_⟩
  · refine (mergeEntities a b).ordered.ext (a.entities.ordered.union _) fun name => ?_
    have hmerged : name ∈ FieldMap.names (mergeEntities a b).entries ↔
      ∃ e, (mergeEntities a b).find? name = some e := NameMap.exists_find?_iff.symm
    rw [hmerged, NameSet.mem_union, hfind]
    show _ ↔ name ∈ a.entityNames ∨ name ∈ b.entityNames
    rw [← mem_entityNames, ← mem_entityNames]
    cases a.entity? name <;> cases b.entity? name <;> simp [Option.merge]
  · intro name mine hmine htheirs
    exact (hfind name).trans (by rw [hmine, htheirs, Option.merge_none_right])
  · intro name theirs hmine htheirs
    exact (hfind name).trans (by rw [hmine, htheirs, Option.merge_none_left])
  · intro name mine theirs hmine htheirs
    refine ⟨mergeEntity mine theirs, ?_, combines_mergeEntity mine theirs⟩
    exact (hfind name).trans (by rw [hmine, htheirs, Option.merge_some_some])

/-! ## Success and failure -/

theorem merge_eq_ok_iff {m : Diagram} :
    a.merge b = .ok m ↔
      misplaced a b = [] ∧ m = ⟨if a.name = "" then b.name else a.name, mergeEntities a b⟩ := by
  have hnone : Failure.combine? ((clashes a b).map .fault) = none ↔ misplaced a b = [] := by
    rw [Failure.combine?_eq_none, List.map_eq_nil_iff, clashes_eq, List.map_eq_nil_iff]
  rw [← hnone, merge]
  cases Failure.combine? ((clashes a b).map .fault) with
  | none => simpa using eq_comm
  | some f => simp

theorem merge_eq_error {f : Failure} (h : a.merge b = .error f) :
    misplaced a b ≠ [] ∧ f.reports = (misplaced a b).map fun entry =>
      ⟨.invalidNamespace, (Fault.namespaceClash entry.1 entry.2.1 entry.2.2).message, "", none⟩ := by
  have hsome : Failure.combine? ((clashes a b).map .fault) = some f := by
    rw [merge] at h
    cases hf : Failure.combine? ((clashes a b).map .fault) with
    | none => simp [hf] at h
    | some other => simpa [hf] using h
  constructor
  · intro hnil
    rw [clashes_eq, hnil] at hsome
    cases hsome
  · rw [Failure.reports_of_combine? hsome, Failure.reportsOf_faults, clashes_eq, List.map_map]
    rfl

theorem misplaced_eq_nil_iff :
    misplaced a b = [] ↔ ∀ name here there, ¬ Misplaced a b name here there := by
  simp only [List.eq_nil_iff_forall_not_mem, Prod.forall, mem_misplaced]

/-- Merging fails exactly when some entity is placed differently, and then with
one fault for each such entity, by name.  Otherwise the merged diagram has the
entities of both. -/
theorem merge_unless_misplaced (a b : Diagram) :
    ((∃ f, a.merge b = .error f) ↔ ∃ name here there, Misplaced a b name here there) ∧
    (∀ f, a.merge b = .error f → ∃ places : FieldMap (String × String),
      (FieldMap.names places).Ordered ∧
      (∀ name here there, (name, here, there) ∈ places ↔ Misplaced a b name here there) ∧
      f.reports = places.map fun entry =>
        ⟨.invalidNamespace, (Fault.namespaceClash entry.1 entry.2.1 entry.2.2).message, "", none⟩) ∧
    ((∀ name here there, ¬ Misplaced a b name here there) →
      ∃ m, a.merge b = .ok m ∧ Merges a b m) := by
  have hok (h : ∀ name here there, ¬ Misplaced a b name here there) :
      a.merge b = .ok ⟨if a.name = "" then b.name else a.name, mergeEntities a b⟩ :=
    merge_eq_ok_iff.2 ⟨misplaced_eq_nil_iff.2 h, rfl⟩
  refine ⟨⟨?_, ?_⟩, ?_, ?_⟩
  · rintro ⟨f, hf⟩
    have hne := (merge_eq_error hf).1
    rw [Ne, misplaced_eq_nil_iff] at hne
    simpa only [not_forall, not_not] using hne
  · rintro ⟨name, here, there, hmis⟩
    cases hmerge : a.merge b with
    | error f => exact ⟨f, rfl⟩
    | ok m =>
        have hnil := (merge_eq_ok_iff.1 hmerge).1
        exact absurd hmis (misplaced_eq_nil_iff.1 hnil name here there)
  · intro f hf
    exact ⟨misplaced a b, ordered_misplaced a b, fun _ _ _ => mem_misplaced, (merge_eq_error hf).2⟩
  · intro h
    exact ⟨_, hok h, merges_mergeEntities a b⟩

/-- Orders known to two diagrams, keyed by the second alone, beside customers and
parts; and a diagram that keeps the orders elsewhere. -/
theorem merge_unless_misplaced_orders :
    let orders (database : String) (key : List String) (s : Schema) : String × Entity :=
      ("orders", ⟨database, "orders", key, s⟩)
    let shop : Diagram := ⟨"", [("customers", ⟨"db", "customers", [], .any⟩),
      orders "db" [] (.atomic .int)], by decide +kernel⟩
    let depot : Diagram := ⟨"depot", [orders "db" ["_id"] (.atomic .string),
      ("parts", ⟨"db", "parts", [], .any⟩)], by decide +kernel⟩
    let archive : Diagram := ⟨"archive", [orders "old" [] (.atomic .int)], by decide +kernel⟩
    (∃ m, shop.merge depot = .ok m ∧ Merges shop depot m) ∧
      Misplaced shop archive "orders" "db.orders" "old.orders" ∧
      ∃ f, shop.merge archive = .error f := by
  intro orders shop depot archive
  have hagree : misplaced shop depot = [] := by decide +kernel
  have hmis : Misplaced shop archive "orders" "db.orders" "old.orders" :=
    ⟨(orders "db" [] (.atomic .int)).2, (orders "old" [] (.atomic .int)).2, rfl, rfl, rfl, rfl,
      by decide⟩
  obtain ⟨-, -, hmerges⟩ := merge_unless_misplaced shop depot
  obtain ⟨hfails, -, -⟩ := merge_unless_misplaced shop archive
  exact ⟨hmerges (misplaced_eq_nil_iff.1 hagree), hmis, hfails.2 ⟨_, _, _, hmis⟩⟩

end Diagram

end DocShape
