import Mathlib.Order.Lattice
import DocShape.Proofs.JoinParts
import DocShape.Proofs.Levels

/-!
# Unions as a semilattice

On canonical schemas without statistics and references, and with at most one
array in each disjunction, `union` is a join: commutative, associative and
idempotent, with `unsat` at the bottom and `any` at the top.  A union of many
schemas then depends on nothing but which schemas are there.
-/

namespace DocShape

theorem Document.unionWith_congr {f g : Schema → Schema → Schema} {d o : Document}
    (h : ∀ field, ∀ s ∈ d.declared? field, ∀ t ∈ o.declared? field, f s t = g s t) :
    d.unionWith f o = d.unionWith g o := by
  have hkey : d.unionKey f o = d.unionKey g o := by
    funext field
    unfold unionKey
    cases hd : d.declared? field with
    | none => cases o.declared? field <;> rfl
    | some s =>
        cases ho : o.declared? field with
        | none => rfl
        | some t => simp only [h field s hd t ho]
  rw [unionWith, unionWith, unionKeys, unionKeys, hkey]

namespace Schema

/-! ## Joins within a level -/

theorem any_joinWithin (n : Nat) (s : Schema) : joinWithin n .any s = .any := by
  cases n with
  | zero => rfl
  | succ n => cases s <;> rfl

theorem joinWithin_any (n : Nat) (s : Schema) : joinWithin n s .any = .any := by
  cases n with
  | zero => rfl
  | succ n => cases s <;> rfl

theorem joinWithin_comm (n : Nat) {s t : Schema} (hs : s.Everywhere SettledHere)
    (ht : t.Everywhere SettledHere) : joinWithin n s t = joinWithin n t s := by
  cases n with
  | zero => rfl
  | succ n =>
      cases h : s.compare t with
      | gt => exact joinWithin_swap n h
      | lt => exact (joinWithin_swap n (Std.OrientedCmp.gt_of_lt h)).symm
      | eq => rw [eq_of_compare_eq hs ht h]

section Level

variable {n : Nat} {s t u : Schema}

theorem blend_joinWithin (laws : JoinLaws (Shallow TidyHere n) (joinWithin n))
    (hs : Shallow TidyHere (n + 1) s) (ht : Shallow TidyHere (n + 1) t) (hsany : s ≠ .any)
    (htany : t ≠ .any) :
    joinWithin (n + 1) s t ≠ .any ∧
      Blend (joinWithin n) (joinWithin (n + 1) s t).parts s.parts t.parts := by
  have hsparts := hs.parts hsany
  have htparts := ht.parts htany
  have h : JoinsTo n s t (joinWithin (n + 1) s t) :=
    .of_eitherWay (Or.inl rfl) hs.canonical ht.canonical hsany htany
  refine ⟨h.ne_any, h.flat, ?_, ?_⟩
  · exact (h.arrays_of_le_one hsparts.oneArray htparts.oneArray).2.eq_of_comm
      (merge_comm_of fun x hx y hy => laws.comm (hsparts.arrayPart x hx) (htparts.arrayPart y hy))
  · exact h.document.eq_of_comm (merge_comm_of fun d hd e he =>
      (Document.fusion_unionWith (joinWithin n)).comm laws (hsparts.documentPart d hd)
        (htparts.documentPart e he))

theorem joinWithin_self (laws : JoinLaws (Shallow TidyHere n) (joinWithin n))
    (hs : Shallow TidyHere (n + 1) s) : joinWithin (n + 1) s s = s := by
  by_cases hany : s = .any
  · rw [hany, any_joinWithin]
  · obtain ⟨hjoined, hblend⟩ := blend_joinWithin laws hs hs hany hany
    have hself := blend_self laws (hs.parts hany)
    refine (shallow_joinWithin joinClosed_tidyHere _ hs hs).eq_of_parts hs hjoined hany ?_ ?_ ?_
    · intro b hb
      rw [hblend.flat b hb, ← hself.flat b hb]
    · rw [hblend.array, ← hself.array]
    · rw [hblend.document, ← hself.document]

private theorem joinWithin_assoc (laws : JoinLaws (Shallow TidyHere n) (joinWithin n))
    (hs : Shallow TidyHere (n + 1) s) (ht : Shallow TidyHere (n + 1) t)
    (hu : Shallow TidyHere (n + 1) u) :
    joinWithin (n + 1) (joinWithin (n + 1) s t) u =
      joinWithin (n + 1) s (joinWithin (n + 1) t u) := by
  by_cases hsany : s = .any
  · rw [hsany, any_joinWithin, any_joinWithin, any_joinWithin]
  by_cases htany : t = .any
  · rw [htany, joinWithin_any, any_joinWithin, joinWithin_any]
  by_cases huany : u = .any
  · rw [huany, joinWithin_any, joinWithin_any, joinWithin_any]
  have hst := shallow_joinWithin joinClosed_tidyHere _ hs ht
  have htu := shallow_joinWithin joinClosed_tidyHere _ ht hu
  obtain ⟨hstany, hblend⟩ := blend_joinWithin laws hs ht hsany htany
  obtain ⟨htuany, hblend'⟩ := blend_joinWithin laws ht hu htany huany
  obtain ⟨hleft, hblendLeft⟩ := blend_joinWithin laws hst hu hstany huany
  obtain ⟨hright, hblendRight⟩ := blend_joinWithin laws hs htu hsany htuany
  have hsparts := hs.parts hsany
  have htparts := ht.parts htany
  have huparts := hu.parts huany
  refine (shallow_joinWithin joinClosed_tidyHere _ hst hu).eq_of_parts
    (shallow_joinWithin joinClosed_tidyHere _ hs htu) hleft hright ?_ ?_ ?_
  · intro b hb
    rw [hblendLeft.flat b hb, hblend.flat b hb, hblendRight.flat b hb, hblend'.flat b hb, or_assoc]
  · rw [hblendLeft.array, hblend.array, hblendRight.array, hblend'.array]
    exact merge_assoc_of fun x hx y hy z hz =>
      laws.assoc (hsparts.arrayPart x hx) (htparts.arrayPart y hy) (huparts.arrayPart z hz)
  · rw [hblendLeft.document, hblend.document, hblendRight.document, hblend'.document]
    exact merge_assoc_of fun d hd e he o ho =>
      (Document.fusion_unionWith (joinWithin n)).assoc laws (hsparts.documentPart d hd)
        (htparts.documentPart e he) (huparts.documentPart o ho)

end Level

/-- The laws of joins, by induction on the container nesting that they reach. -/
theorem joinLaws_joinWithin (n : Nat) : JoinLaws (Shallow TidyHere n) (joinWithin n) := by
  induction n with
  | zero =>
      have hnone {s : Schema} (hs : Shallow TidyHere 0 s) : False := Nat.not_lt_zero _ hs.nest
      exact
        { closed := fun hs _ => (hnone hs).elim
          comm := fun hs _ => (hnone hs).elim
          assoc := fun hs _ _ => (hnone hs).elim
          idem := fun hs => (hnone hs).elim
          any_join := any_joinWithin 0
          join_any := joinWithin_any 0 }
  | succ n ih =>
      exact
        { closed := shallow_joinWithin joinClosed_tidyHere (n + 1)
          comm := fun hs ht => joinWithin_comm (n + 1) hs.settled ht.settled
          assoc := joinWithin_assoc ih
          idem := joinWithin_self ih
          any_join := any_joinWithin (n + 1)
          join_any := joinWithin_any (n + 1) }

/-! ## The semilattice -/

/-- A canonical schema that carries no statistics and no references, lists its
fields in order, and has at most one array in each disjunction. -/
structure Tidy (s : Schema) : Prop extends s.Regular where
  settled : s.Everywhere SettledHere

theorem Tidy.shallow {s : Schema} (h : s.Tidy) {n : Nat} (hnest : s.nest < n) :
    Shallow TidyHere n s :=
  ⟨h.canonical, h.everywhere.and h.settled, hnest⟩

theorem Shallow.tidy {s : Schema} {n : Nat} (h : Shallow TidyHere n s) : s.Tidy where
  canonical := h.canonical
  everywhere := h.everywhere.imp fun _ h => h.1
  settled := h.settled

theorem tidy_iff {s : Schema} : s.Tidy ↔ s.Canonical ∧ s.Everywhere TidyHere :=
  ⟨fun h => ⟨h.canonical, h.everywhere.and h.settled⟩,
    fun h => (Shallow.mk h.1 h.2 (Nat.lt_succ_self _)).tidy⟩

instance (s : Schema) : Decidable s.Tidy :=
  decidable_of_iff _ tidy_iff.symm

theorem tidy_unsat : unsat.Tidy :=
  ⟨⟨canonical_unsat, .leaf trivial rfl⟩, .leaf trivial rfl⟩

theorem joinLaws_join : JoinLaws Tidy join where
  closed {s t} hs ht := by
    have hs := hs.shallow (Nat.lt_succ_of_le (Nat.le_max_left s.nest t.nest))
    have ht := ht.shallow (Nat.lt_succ_of_le (Nat.le_max_right s.nest t.nest))
    exact ((joinLaws_joinWithin _).closed hs ht).tidy
  comm {s t} hs ht := by
    have hs := hs.shallow (Nat.lt_succ_of_le (Nat.le_max_left s.nest t.nest))
    have ht := ht.shallow (Nat.lt_succ_of_le (Nat.le_max_right s.nest t.nest))
    rw [join_eq_joinWithin hs ht, join_eq_joinWithin ht hs]
    exact (joinLaws_joinWithin _).comm hs ht
  assoc {s t u} hs ht hu := by
    obtain ⟨n, hsn, htn, hun⟩ : ∃ n, s.nest < n ∧ t.nest < n ∧ u.nest < n :=
      ⟨s.nest + t.nest + u.nest + 1, by omega, by omega, by omega⟩
    have laws := joinLaws_joinWithin n
    have hs := hs.shallow hsn
    have ht := ht.shallow htn
    have hu := hu.shallow hun
    rw [join_eq_joinWithin hs ht, join_eq_joinWithin ht hu,
      join_eq_joinWithin (laws.closed hs ht) hu, join_eq_joinWithin hs (laws.closed ht hu)]
    exact laws.assoc hs ht hu
  idem {s} hs := by
    have hs := hs.shallow (Nat.lt_succ_self s.nest)
    rw [join_eq_joinWithin hs hs]
    exact (joinLaws_joinWithin _).idem hs
  any_join s := any_joinWithin _ s
  join_any s := joinWithin_any _ s

theorem joinLaws_union : JoinLaws Tidy union where
  closed hs ht := by
    rw [union_of_canonical hs.canonical ht.canonical]
    exact joinLaws_join.closed hs ht
  comm hs ht := by
    rw [union_of_canonical hs.canonical ht.canonical, union_of_canonical ht.canonical hs.canonical]
    exact joinLaws_join.comm hs ht
  assoc hs ht hu := by
    have hst := joinLaws_join.closed hs ht
    have htu := joinLaws_join.closed ht hu
    rw [union_of_canonical hs.canonical ht.canonical, union_of_canonical ht.canonical hu.canonical,
      union_of_canonical hst.canonical hu.canonical, union_of_canonical hs.canonical htu.canonical]
    exact joinLaws_join.assoc hs ht hu
  idem hs := by
    rw [union_of_canonical hs.canonical hs.canonical]
    exact joinLaws_join.idem hs
  any_join s := joinLaws_join.any_join s.simplify
  join_any s := joinLaws_join.join_any s.simplify

theorem unsat_union {s : Schema} (h : s.Canonical) : unsat.union s = s := by
  rw [union, simplify_of_canonical h]
  cases s <;> rfl

theorem foldl_sup_le_iff {α : Type} [SemilatticeSup α] {a c : α} {as : List α} :
    as.foldl (· ⊔ ·) a ≤ c ↔ ∀ b ∈ a :: as, b ≤ c := by
  induction as generalizing a with
  | nil => simp
  | cons b rest ih =>
      rw [List.foldl_cons, ih]
      simp only [List.forall_mem_cons, sup_le_iff, and_assoc]

/-- A schema of the class on which unions are a semilattice. -/
@[ext]
structure TidySchema where
  schema : Schema
  tidy : schema.Tidy

namespace TidySchema

instance : Max TidySchema :=
  ⟨fun a b => ⟨a.schema.union b.schema, joinLaws_union.closed a.tidy b.tidy⟩⟩

instance : SemilatticeSup TidySchema :=
  .mk' (fun a b => TidySchema.ext (joinLaws_union.comm a.tidy b.tidy))
    (fun a b c => TidySchema.ext (joinLaws_union.assoc a.tidy b.tidy c.tidy))
    (fun a => TidySchema.ext (joinLaws_union.idem a.tidy))

instance : OrderBot TidySchema where
  bot := ⟨.unsat, tidy_unsat⟩
  bot_le a := TidySchema.ext (unsat_union a.tidy.canonical)

/-- The union of all listed schemas. -/
def sup (schemas : List TidySchema) : TidySchema :=
  schemas.foldl (· ⊔ ·) ⊥

theorem schema_sup (schemas : List TidySchema) :
    (sup schemas).schema = unions (schemas.map schema) := by
  rw [unions, List.foldl_map]
  exact (List.foldl_hom schema fun _ _ => rfl).symm

theorem sup_le {c : TidySchema} {schemas : List TidySchema} :
    sup schemas ≤ c ↔ ∀ b ∈ schemas, b ≤ c :=
  foldl_sup_le_iff.trans (by simp)

theorem sup_congr {as bs : List TidySchema} (h : ∀ s, s ∈ as ↔ s ∈ bs) : sup as = sup bs :=
  eq_of_forall_ge_iff fun c => by simp only [sup_le, h]

theorem sup_flatten (groups : List (List TidySchema)) :
    sup groups.flatten = sup (groups.map sup) := by
  refine eq_of_forall_ge_iff fun c => ?_
  simp only [sup_le, List.forall_mem_map, List.mem_flatten]
  constructor
  · intro h group hgroup s hs
    exact h s ⟨group, hgroup, hs⟩
  · rintro h s ⟨group, hgroup, hs⟩
    exact h group hgroup s hs

theorem exists_map_schema {schemas : List Schema} (h : ∀ s ∈ schemas, s.Tidy) :
    ∃ as : List TidySchema, as.map schema = schemas :=
  ⟨schemas.pmap .mk h, by simp [List.map_pmap]⟩

end TidySchema

theorem unions_congr {as bs : List Schema} (has : ∀ s ∈ as, s.Tidy) (h : ∀ s, s ∈ as ↔ s ∈ bs) :
    unions as = unions bs := by
  obtain ⟨as, rfl⟩ := TidySchema.exists_map_schema has
  obtain ⟨bs, rfl⟩ := TidySchema.exists_map_schema fun s hs => has s ((h s).2 hs)
  have hinjective : Function.Injective TidySchema.schema := fun _ _ => TidySchema.ext
  rw [← TidySchema.schema_sup, ← TidySchema.schema_sup]
  refine congrArg _ (TidySchema.sup_congr fun s => ?_)
  rw [← List.mem_map_of_injective hinjective, h, List.mem_map_of_injective hinjective]

private theorem unions_flatten {groups : List (List Schema)} (h : ∀ group ∈ groups, ∀ s ∈ group, s.Tidy) :
    unions groups.flatten = unions (groups.map unions) := by
  obtain ⟨tidied, rfl⟩ :
      ∃ tidied : List (List TidySchema), tidied.map (List.map TidySchema.schema) = groups := by
    refine ⟨groups.pmap (fun group hgroup => group.pmap .mk hgroup) h, ?_⟩
    simp [List.map_pmap]
  have hgroup : unions ∘ List.map TidySchema.schema = TidySchema.schema ∘ TidySchema.sup :=
    funext fun group => (TidySchema.schema_sup group).symm
  rw [← List.map_flatten, ← TidySchema.schema_sup, TidySchema.sup_flatten, TidySchema.schema_sup,
    List.map_map, List.map_map, hgroup]

/-- Unions are a semilattice on tidy schemas: the class is closed under them,
they do not depend on order, grouping or repetition, `unsat` adds nothing and
`any` absorbs.  So a union of many schemas depends only on which schemas there
are, and can be taken group by group. -/
theorem union_is_semilattice {a b c : Schema} (ha : a.Tidy) (hb : b.Tidy) (hc : c.Tidy) :
    (a.union b).Tidy ∧ a.union b = b.union a ∧ (a.union b).union c = a.union (b.union c) ∧
      a.union a = a ∧ unsat.union a = a ∧ a.union .unsat = a ∧ any.union a = .any ∧
      a.union .any = .any ∧
      (∀ as bs : List Schema, (∀ s ∈ as, s.Tidy) → (∀ s, s ∈ as ↔ s ∈ bs) →
        (unions as).Tidy ∧ unions as = unions bs) ∧
      ∀ groups : List (List Schema), (∀ group ∈ groups, ∀ s ∈ group, s.Tidy) →
        unions groups.flatten = unions (groups.map unions) := by
  have laws := joinLaws_union
  have hunsat := unsat_union ha.canonical
  refine ⟨laws.closed ha hb, laws.comm ha hb, laws.assoc ha hb hc, laws.idem ha, hunsat,
    (laws.comm ha tidy_unsat).trans hunsat, laws.any_join a, laws.join_any a, ?_, ?_⟩
  · intro as bs has hmem
    refine ⟨?_, unions_congr has hmem⟩
    obtain ⟨as, rfl⟩ := TidySchema.exists_map_schema has
    rw [← TidySchema.schema_sup]
    exact (TidySchema.sup as).tidy
  · intro groups hgroups
    exact unions_flatten hgroups

/-- Orders, their drafts without items, and batches of numbers or orders. -/
theorem union_is_semilattice_orders :
    let order : Schema := .document (.ofFields [("id", .atomic .int),
      ("items", .array (.anyOf [.atomic .int, .atomic .string]))] ["id", "items"] false)
    let draft : Schema := .anyOf [.atomic .null, .document (.ofFields [("id", .atomic .string),
      ("owner", .any)] ["id", "note"] true)]
    let batch : Schema := .anyOf [.atomic .null, .array (.anyOf [.atomic .int, order])]
    order.Tidy ∧ draft.Tidy ∧ batch.Tidy ∧ order.union draft = draft.union order ∧
      (order.union draft).union batch = order.union (draft.union batch) ∧
      unions [order, draft, batch, order] =
        unions [unions [order, draft], unions [batch, order]] := by
  intro order draft batch
  have horder : order.Tidy := by decide +kernel
  have hdraft : draft.Tidy := by decide +kernel
  have hbatch : batch.Tidy := by decide +kernel
  obtain ⟨-, hcomm, hassoc, -, -, -, -, -, -, hgroups⟩ := union_is_semilattice horder hdraft hbatch
  refine ⟨horder, hdraft, hbatch, hcomm, hassoc, hgroups [[order, draft], [batch, order]] ?_⟩
  simp only [List.forall_mem_cons, List.not_mem_nil, IsEmpty.forall_iff, implies_true, and_true]
  exact ⟨⟨horder, hdraft⟩, hbatch, horder⟩

end Schema

end DocShape
