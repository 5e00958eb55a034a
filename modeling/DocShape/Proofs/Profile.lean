import DocShape.Proofs.Closure
import DocShape.Proofs.Ordered

/-!
# Profiles of document types

A profile says what a document type does with each field, in five independent
parts.  Unions and merges act on every part alone: openness and mention add up,
a field without a schema stays so if it is on both sides, and what a field can
hold is joined.  A type without references and statistics is determined by its
profile, so the laws of unions and merges are those of the parts.
-/

namespace DocShape

namespace Document

/-- What a field can hold when it is there; `none` if the type rules it out. -/
def allowed? (d : Document) (field : String) : Option Schema :=
  match d.declared? field with
  | some s => some s
  | none => if d.isOpen then some .any else none

/-- Whether the field is required without a schema. -/
def unspecified (d : Document) (field : String) : Bool :=
  d.requires field && !d.hasKey field

section AllowedFields

variable {d : Document} {field : String} {s : Schema}

theorem allowed?_of_declared (h : d.declared? field = some s) : d.allowed? field = some s := by
  rw [allowed?, h]

theorem allowed?_of_not_mentions (h : d.mentions field = false) :
    d.allowed? field = if d.isOpen then some .any else none := by
  rw [allowed?, declared?_eq_none.2 h]

theorem allowed?_cases (h : d.allowed? field = some s) : d.declared? field = some s ∨ s = .any := by
  rw [allowed?] at h
  cases hs : d.declared? field with
  | some t =>
      rw [hs] at h
      exact Or.inl h
  | none =>
      rw [hs] at h
      cases hopen : d.isOpen with
      | true =>
          rw [hopen] at h
          cases h
          exact Or.inr rfl
      | false =>
          rw [hopen] at h
          cases h

theorem declared?_of_not_hasKey (h : d.declared? field = some s) (hkey : d.hasKey field = false) :
    d.requires field = true ∧ s = .any := by
  rcases declared?_cases h with hs | ⟨-, hrequires, hs⟩
  · rw [hasKey, hs] at hkey
    cases hkey
  · exact ⟨hrequires, hs⟩

/-- The declared schema of a field, read off the parts of a profile. -/
theorem key?_eq (d : Document) (field : String) :
    d.key? field =
      if d.mentions field && !d.unspecified field then d.allowed? field else none := by
  have hkey : d.hasKey field = (d.key? field).isSome := rfl
  rw [mentions, unspecified]
  cases hs : d.key? field with
  | some s =>
      rw [hs] at hkey
      simp [hkey, allowed?_of_declared (declared?_of_key? hs)]
  | none =>
      rw [hs] at hkey
      simp [hkey]

end AllowedFields

/-! ## Two types in one -/

/-- `u` holds the fields of `d` and `o` together, where `both` decides from the
two sides whether a field is required. -/
structure Fuses (join : Schema → Schema → Schema) (both : Bool → Bool → Bool)
    (u d o : Document) : Prop where
  key : ∀ field, u.key? field = d.unionKey join o field
  requires : ∀ field, u.requires field = both (d.requires field) (o.requires field)
  isOpen : u.isOpen = (d.isOpen || o.isOpen)

theorem IsUnion.fuses {join : Schema → Schema → Schema} {u d o : Document}
    (h : IsUnion join u d o) : Fuses join and u d o :=
  ⟨h.key, h.requires, h.isOpen⟩

theorem fuses_unionWith {d o : Document} (join : Schema → Schema → Schema) (hd : d.jaccard = none)
    (ho : o.jaccard = none) : Fuses join and (d.unionWith join o) d o :=
  (unionWith_of_jaccard_none hd ho).fuses

theorem fuses_mergeWith (join : Schema → Schema → Schema) (d o : Document) :
    Fuses join or (d.mergeWith join o) d o where
  key := find?_unionKeys join d o
  requires field := by
    rw [Bool.eq_iff_iff, Bool.or_eq_true, requires_iff, requires_iff, requires_iff]
    exact NameSet.mem_union
  isOpen := rfl

namespace Fuses

variable {join : Schema → Schema → Schema} {both : Bool → Bool → Bool} {u d o : Document}

theorem hasKey (h : Fuses join both u d o) (field : String) :
    u.hasKey field =
      (d.hasKey field || o.hasKey field || (d.mentions field != o.mentions field)) := by
  rw [Document.hasKey, h.key]
  cases hd : d.declared? field with
  | some s =>
      have hdm : d.mentions field = true := by rw [← declared?_isSome, hd, Option.isSome_some]
      cases ho : o.declared? field with
      | some t =>
          have hom : o.mentions field = true := by rw [← declared?_isSome, ho, Option.isSome_some]
          rw [unionKey_both hd ho, hdm, hom]
          cases d.hasKey field || o.hasKey field <;> rfl
      | none =>
          have hom := declared?_eq_none.1 ho
          rw [unionKey_left hd hom, hdm, hom]
          simp
  | none =>
      have hdm := declared?_eq_none.1 hd
      cases ho : o.declared? field with
      | some t =>
          have hom : o.mentions field = true := by rw [← declared?_isSome, ho, Option.isSome_some]
          rw [unionKey_right hdm ho, hdm, hom]
          simp
      | none =>
          have hom := declared?_eq_none.1 ho
          rw [unionKey_of_not_mentions hdm hom, hdm, hom]
          rw [Document.mentions, Bool.or_eq_false_iff] at hdm hom
          rw [hdm.1, hom.1]
          rfl

variable (h : Fuses join both u d o) (htrue : both true true = true)
  (hfalse : both false false = false)

include h htrue hfalse

theorem mentions (field : String) :
    u.mentions field = (d.mentions field || o.mentions field) := by
  rw [Document.mentions, h.hasKey, h.requires, Document.mentions, Document.mentions]
  cases d.hasKey field <;> cases o.hasKey field <;> cases d.requires field <;>
    cases o.requires field <;> simp [htrue, hfalse]

theorem unspecified (field : String) :
    u.unspecified field = (d.unspecified field && o.unspecified field) := by
  rw [Document.unspecified, h.hasKey, h.requires, Document.mentions, Document.mentions,
    Document.unspecified, Document.unspecified]
  cases d.hasKey field <;> cases o.hasKey field <;> cases d.requires field <;>
    cases o.requires field <;> simp [htrue, hfalse]

omit hfalse in
/-- A field that both sides mention has the join of their schemas, also where
neither gives it one. -/
theorem declared?_both {field : String} {s t : Schema} (hany : join s .any = .any)
    (hd : d.declared? field = some s) (ho : o.declared? field = some t) :
    u.declared? field = some (join s t) := by
  have hkey := h.key field
  rw [unionKey_both hd ho] at hkey
  cases hkeys : d.hasKey field || o.hasKey field with
  | true =>
      rw [hkeys] at hkey
      exact declared?_of_key? hkey
  | false =>
      rw [Bool.or_eq_false_iff] at hkeys
      obtain ⟨hdr, -⟩ := declared?_of_not_hasKey hd hkeys.1
      obtain ⟨hor, htany⟩ := declared?_of_not_hasKey ho hkeys.2
      have hrequires : u.requires field = true := by rw [h.requires, hdr, hor, htrue]
      rw [hkeys.1, hkeys.2] at hkey
      rw [declared?, hkey, hrequires, htany, hany]
      rfl

theorem allowed? {field : String} (hleft : ∀ s, d.allowed? field = some s → join s .any = .any)
    (hright : ∀ s, o.allowed? field = some s → join .any s = .any) :
    u.allowed? field = Option.merge join (d.allowed? field) (o.allowed? field) := by
  have hum := h.mentions htrue hfalse field
  cases hd : d.declared? field with
  | some s =>
      have hs := allowed?_of_declared hd
      cases ho : o.declared? field with
      | some t =>
          have ht := allowed?_of_declared ho
          rw [hs, ht, Option.merge_some_some]
          exact allowed?_of_declared (h.declared?_both htrue (hleft s hs) hd ho)
      | none =>
          have hom := declared?_eq_none.1 ho
          have hkey := h.key field
          rw [unionKey_left hd hom] at hkey
          rw [allowed?_of_declared (declared?_of_key? hkey), hs, allowed?_of_not_mentions hom]
          cases hopen : o.isOpen with
          | true => simp [hleft s hs]
          | false => simp
  | none =>
      have hdm := declared?_eq_none.1 hd
      cases ho : o.declared? field with
      | some t =>
          have ht := allowed?_of_declared ho
          have hkey := h.key field
          rw [unionKey_right hdm ho] at hkey
          rw [allowed?_of_declared (declared?_of_key? hkey), ht, allowed?_of_not_mentions hdm]
          cases hopen : d.isOpen with
          | true => simp [hright t ht]
          | false => simp
      | none =>
          have hom := declared?_eq_none.1 ho
          rw [hdm, hom] at hum
          rw [allowed?_of_not_mentions hum, allowed?_of_not_mentions hdm,
            allowed?_of_not_mentions hom, h.isOpen]
          cases hdo : d.isOpen with
          | true =>
              cases hoo : o.isOpen with
              | true =>
                  have hany := hleft .any (by rw [allowed?_of_not_mentions hdm, hdo]; rfl)
                  simp [hany]
              | false => simp
          | false => cases o.isOpen <;> simp

end Fuses

/-! ## Profiles -/

/-- What a document type does with its fields. -/
structure Profile where
  isOpen : Bool
  requires : String → Bool
  mentions : String → Bool
  unspecified : String → Bool
  allowed? : String → Option Schema

def profile (d : Document) : Profile :=
  { isOpen := d.isOpen
    requires := d.requires
    mentions := d.mentions
    unspecified := d.unspecified
    allowed? := d.allowed? }

/-- Two profiles together, part by part. -/
def Profile.combine (join : Schema → Schema → Schema) (both : Bool → Bool → Bool)
    (p q : Profile) : Profile :=
  { isOpen := p.isOpen || q.isOpen
    requires := fun field => both (p.requires field) (q.requires field)
    mentions := fun field => p.mentions field || q.mentions field
    unspecified := fun field => p.unspecified field && q.unspecified field
    allowed? := fun field => Option.merge join (p.allowed? field) (q.allowed? field) }

/-- Fields in order, and nothing beside the fields. -/
structure Settled (d : Document) : Prop where
  ordered : d.Ordered
  references : d.references = []
  jaccard : d.jaccard = none

instance (d : Document) : Decidable d.Settled :=
  decidable_of_iff (d.Ordered ∧ d.references.isEmpty = true ∧ d.jaccard.isNone = true)
    ⟨fun h => ⟨h.1, List.isEmpty_iff.1 h.2.1, Option.isNone_iff_eq_none.1 h.2.2⟩,
      fun h => ⟨h.ordered, List.isEmpty_iff.2 h.references, Option.isNone_iff_eq_none.2 h.jaccard⟩⟩

theorem Settled.eq_of_profile_eq {d o : Document} (hd : d.Settled) (ho : o.Settled)
    (h : d.profile = o.profile) : d = o := by
  have hopen : d.isOpen = o.isOpen := congrArg Profile.isOpen h
  have hrequires : d.requires = o.requires := congrArg Profile.requires h
  have hmentions : d.mentions = o.mentions := congrArg Profile.mentions h
  have hunspecified : d.unspecified = o.unspecified := congrArg Profile.unspecified h
  have hallowed : d.allowed? = o.allowed? := congrArg Profile.allowed? h
  refine hd.ordered.ext ho.ordered (fun field => ?_) (congrFun hrequires) hopen
    (hd.references.trans ho.references.symm) (hd.jaccard.trans ho.jaccard.symm)
  rw [key?_eq, key?_eq, hmentions, hunspecified, hallowed]

theorem Fuses.profile {join : Schema → Schema → Schema} {both : Bool → Bool → Bool}
    {u d o : Document} (h : Fuses join both u d o) (htrue : both true true = true)
    (hfalse : both false false = false)
    (hleft : ∀ field s, d.allowed? field = some s → join s .any = .any)
    (hright : ∀ field s, o.allowed? field = some s → join .any s = .any) :
    u.profile = d.profile.combine join both o.profile := by
  simp only [Document.profile, Profile.combine, Profile.mk.injEq]
  refine ⟨h.isOpen, funext h.requires, funext (h.mentions htrue hfalse),
    funext (h.unspecified htrue hfalse), funext fun field => ?_⟩
  exact h.allowed? htrue hfalse (hleft field) (hright field)

end Document

/-! ## Laws -/

section Merge

variable {α : Type} {f : α → α → α} {x y z : Option α}

theorem merge_comm_of (h : ∀ a ∈ x, ∀ b ∈ y, f a b = f b a) :
    Option.merge f x y = Option.merge f y x := by
  cases x <;> cases y <;> simp_all

theorem merge_assoc_of (h : ∀ a ∈ x, ∀ b ∈ y, ∀ c ∈ z, f (f a b) c = f a (f b c)) :
    Option.merge f (Option.merge f x y) z = Option.merge f x (Option.merge f y z) := by
  cases x <;> cases y <;> cases z <;> simp_all

theorem merge_self_of (h : ∀ a ∈ x, f a a = a) : Option.merge f x x = x := by
  cases x <;> simp_all

theorem forall_mem_merge {C : α → Prop} (hf : ∀ {a b}, C a → C b → C (f a b))
    (hx : ∀ a ∈ x, C a) (hy : ∀ b ∈ y, C b) : ∀ c ∈ Option.merge f x y, C c := by
  cases x <;> cases y <;> simp_all

end Merge

/-- The laws of a join on the schemas of a class that it does not leave. -/
structure Schema.JoinLaws (C : Schema → Prop) (join : Schema → Schema → Schema) : Prop where
  closed : ∀ {s t}, C s → C t → C (join s t)
  comm : ∀ {s t}, C s → C t → join s t = join t s
  assoc : ∀ {s t u}, C s → C t → C u → join (join s t) u = join s (join t u)
  idem : ∀ {s}, C s → join s s = s
  any_join : ∀ s, join .any s = .any
  join_any : ∀ s, join s .any = .any

namespace Document

/-- A settled type that lets its fields hold schemas of the class only. -/
structure SettledIn (C : Schema → Prop) (d : Document) : Prop extends d.Settled where
  allowed : ∀ field, ∀ s ∈ d.allowed? field, C s

/-- `op` makes one settled type of two, field by field. -/
structure Fusion (join : Schema → Schema → Schema) (both : Bool → Bool → Bool)
    (op : Document → Document → Document) : Prop where
  both_true : both true true = true
  both_false : both false false = false
  fuses : ∀ {d o}, d.Settled → o.Settled → Fuses join both (op d o) d o
  settled : ∀ {d o}, d.Settled → o.Settled → (op d o).Settled

theorem fusion_unionWith (join : Schema → Schema → Schema) : Fusion join and (unionWith join) where
  both_true := rfl
  both_false := rfl
  fuses hd ho := fuses_unionWith join hd.jaccard ho.jaccard
  settled {d o} hd ho := by
    refine ⟨hd.ordered.unionWith join o, ?_, ?_⟩
    · rw [unionWith, hd.jaccard, ho.jaccard, hd.references, ho.references]
      rfl
    · rw [unionWith, hd.jaccard, ho.jaccard]
      rfl

theorem fusion_mergeWith (join : Schema → Schema → Schema) : Fusion join or (mergeWith join) where
  both_true := rfl
  both_false := rfl
  fuses {d o} _ _ := fuses_mergeWith join d o
  settled {d o} hd ho := by
    refine ⟨hd.ordered.mergeWith join o, ?_, ?_⟩
    · rw [mergeWith, hd.references, ho.references]
      rfl
    · rw [mergeWith, hd.jaccard, ho.jaccard]
      rfl

namespace Fusion

variable {C : Schema → Prop} {join : Schema → Schema → Schema} {both : Bool → Bool → Bool}
  {op : Document → Document → Document} {d e o : Document}

theorem profile (h : Fusion join both op) (laws : Schema.JoinLaws C join) (hd : d.Settled)
    (ho : o.Settled) : (op d o).profile = d.profile.combine join both o.profile :=
  (h.fuses hd ho).profile h.both_true h.both_false (fun _ s _ => laws.join_any s)
    fun _ s _ => laws.any_join s

theorem settledIn (h : Fusion join both op) (laws : Schema.JoinLaws C join) (hd : d.SettledIn C)
    (ho : o.SettledIn C) : (op d o).SettledIn C := by
  refine ⟨h.settled hd.toSettled ho.toSettled, fun field => ?_⟩
  have hallowed : (op d o).allowed? field =
      Option.merge join (d.allowed? field) (o.allowed? field) :=
    congrFun (congrArg Profile.allowed? (h.profile laws hd.toSettled ho.toSettled)) field
  rw [hallowed]
  exact forall_mem_merge laws.closed (hd.allowed field) (ho.allowed field)

theorem comm [Std.Commutative both] (h : Fusion join both op) (laws : Schema.JoinLaws C join)
    (hd : d.SettledIn C) (ho : o.SettledIn C) : op d o = op o d := by
  refine (h.settled hd.toSettled ho.toSettled).eq_of_profile_eq
    (h.settled ho.toSettled hd.toSettled) ?_
  rw [h.profile laws hd.toSettled ho.toSettled, h.profile laws ho.toSettled hd.toSettled]
  simp only [Profile.combine, Profile.mk.injEq]
  refine ⟨Bool.or_comm _ _, funext fun _ => Std.Commutative.comm _ _,
    funext fun _ => Bool.or_comm _ _, funext fun _ => Bool.and_comm _ _, funext fun field => ?_⟩
  exact merge_comm_of fun s hs t ht => laws.comm (hd.allowed field s hs) (ho.allowed field t ht)

theorem assoc [Std.Associative both] (h : Fusion join both op) (laws : Schema.JoinLaws C join)
    (hd : d.SettledIn C) (he : e.SettledIn C) (ho : o.SettledIn C) :
    op (op d e) o = op d (op e o) := by
  have hde := h.settledIn laws hd he
  have heo := h.settledIn laws he ho
  refine (h.settled hde.toSettled ho.toSettled).eq_of_profile_eq
    (h.settled hd.toSettled heo.toSettled) ?_
  rw [h.profile laws hde.toSettled ho.toSettled, h.profile laws hd.toSettled he.toSettled,
    h.profile laws hd.toSettled heo.toSettled, h.profile laws he.toSettled ho.toSettled]
  simp only [Profile.combine, Profile.mk.injEq]
  refine ⟨Bool.or_assoc _ _ _, funext fun _ => Std.Associative.assoc _ _ _,
    funext fun _ => Bool.or_assoc _ _ _, funext fun _ => Bool.and_assoc _ _ _,
    funext fun field => ?_⟩
  exact merge_assoc_of fun s hs t ht u hu =>
    laws.assoc (hd.allowed field s hs) (he.allowed field t ht) (ho.allowed field u hu)

theorem idem [Std.IdempotentOp both] (h : Fusion join both op) (laws : Schema.JoinLaws C join)
    (hd : d.SettledIn C) : op d d = d := by
  refine (h.settled hd.toSettled hd.toSettled).eq_of_profile_eq hd.toSettled ?_
  rw [h.profile laws hd.toSettled hd.toSettled]
  simp only [Profile.combine, Document.profile, Profile.mk.injEq]
  refine ⟨Bool.or_self _, funext fun _ => Std.IdempotentOp.idempotent _,
    funext fun _ => Bool.or_self _, funext fun _ => Bool.and_self _, funext fun field => ?_⟩
  exact merge_self_of fun s hs => laws.idem (hd.allowed field s hs)

end Fusion

end Document

namespace Schema

/-- The fields stand in order and nothing beside them, if the schema is a
document. -/
def SettledHere : Schema → Prop
  | .document d => d.Settled
  | _ => True

instance : DecidablePred SettledHere
  | .document d => inferInstanceAs (Decidable d.Settled)
  | .unsat | .missing | .atomic _ | .array _ | .anyOf _ | .any => .isTrue trivial

theorem joinClosed_settledHere : JoinClosed SettledHere where
  unsat := trivial
  any := trivial
  array _ := trivial
  document {join _ _} hd ho := (Document.fusion_unionWith join).settled hd ho
  inserted _ _ := trivial
  sorted _ := trivial
  apart _ := trivial

end Schema

end DocShape
