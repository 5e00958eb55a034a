import DocShape.Schema.Intersection
import DocShape.Proofs.Assembly
import DocShape.Proofs.Semantics

/-!
# The cases of an intersection

What the intersection of two branches can be, as one inversion, and what a
document type in it says of a field.  The intersection of canonical schemas is
canonical, and its values are those of the intersections of branches.
-/

namespace DocShape

/-! ## Documents -/

namespace Document

variable {d o m : Document} {field : String}

/-- What the intersection says of a field that the other type declares the schema of. -/
def sharedKey? (o : Document) (field : String) (x : Schema) : Option Schema :=
  match o.key? field with
  | some y => (x.intersection y).satisfiable?
  | none => if o.isOpen then some x else none

/-- What the intersection of two types that constrain their documents says of a field, where
`meet` intersects schemas. -/
def meetKey? (meet : Schema → Schema → Schema) (d o : Document) (field : String) :
    Option Schema :=
  match d.key? field, o.key? field with
  | some x, some y => (meet x y).satisfiable?
  | some x, none => if o.isOpen then some x else none
  | none, some y => if d.isOpen then some y else none
  | none, none => none

/-- `m` is the intersection of `d` and `o` as far as its fields show. -/
structure IsMeet (meet : Schema → Schema → Schema) (m d o : Document) : Prop where
  entry : ∀ field s, (field, s) ∈ m.keys → m.key? field = some s
  key : ∀ field, m.key? field = d.meetKey? meet o field
  requires : ∀ field, m.requires field = (d.requires field && o.requires field)
  isOpen : m.isOpen = (d.isOpen && o.isOpen)

theorem IsMeet.symm {meet : Schema → Schema → Schema} (h : IsMeet meet m d o) :
    IsMeet (flip meet) m o d where
  entry := h.entry
  key field := by
    rw [h.key, meetKey?, meetKey?]
    cases d.key? field <;> cases o.key? field <;> rfl
  requires field := by rw [h.requires, Bool.and_comm]
  isOpen := by rw [h.isOpen, Bool.and_comm]

/-- A field that the intersection declares is shared, or of one type where the other is open. -/
theorem meetKey?_cases {meet : Schema → Schema → Schema} {z : Schema}
    (h : d.meetKey? meet o field = some z) :
    (∃ x y, d.key? field = some x ∧ o.key? field = some y ∧ (meet x y).isVacuous = false ∧
        z = meet x y) ∨
      (d.key? field = some z ∧ o.key? field = none ∧ o.isOpen = true) ∨
        (d.key? field = none ∧ o.key? field = some z ∧ d.isOpen = true) := by
  rw [meetKey?] at h
  cases hx : d.key? field with
  | some x =>
      cases hy : o.key? field with
      | some y =>
          simp only [hx, hy, Schema.satisfiable?] at h
          split at h
          · cases h
          · rename_i hvacuous
            cases h
            exact .inl ⟨x, y, rfl, rfl, Bool.not_eq_true _ ▸ hvacuous, rfl⟩
      | none =>
          simp only [hx, hy] at h
          split at h
          · cases h
            exact .inr (.inl ⟨rfl, rfl, ‹_›⟩)
          · cases h
  | none =>
      cases hy : o.key? field with
      | some y =>
          simp only [hx, hy] at h
          split at h
          · cases h
            exact .inr (.inr ⟨rfl, rfl, ‹_›⟩)
          · cases h
      | none =>
          simp only [hx, hy] at h
          cases h

private theorem filterMap_attach {α β : Type} {l : List α} {f : { a // a ∈ l } → Option β}
    {g : α → Option β} (h : ∀ entry, f entry = g entry.1) :
    l.attach.filterMap f = l.filterMap g := by
  conv_rhs => rw [← List.attach_map_subtype_val l, List.filterMap_map]
  apply List.filterMap_congr
  intro entry _
  exact h entry

theorem intersection_document (d o : Document) :
    (Schema.document d).intersection (.document o) =
      if d.isUnconstrained then .document o
      else if o.isUnconstrained then .document d
      else
        d.meetWith
          (d.keys.filterMap fun entry => (o.sharedKey? entry.1 entry.2).map (entry.1, ·)) o := by
  rw [Schema.intersection, filterMap_attach
    (g := fun entry => (o.sharedKey? entry.1 entry.2).map (entry.1, ·))]
  rintro ⟨⟨name, x⟩, _⟩
  simp only [sharedKey?]
  split
  · rename_i y hy
    rw [hy]
  · rename_i hy
    rw [hy]
    cases o.isOpen <;> rfl

theorem find?_meet (hd : d.keyNames.Ordered) (field : String) :
    FieldMap.find?
        (FieldMap.union
          (d.keys.filterMap fun entry => (o.sharedKey? entry.1 entry.2).map (entry.1, ·))
          (o.keys.filter fun entry => d.isOpen && !d.hasKey entry.1)) field =
      d.meetKey? Schema.intersection o field := by
  have hshared := FieldMap.find?_filterMap (f := o.sharedKey?) hd field
  have halone := FieldMap.find?_filter (fun name => d.isOpen && !d.hasKey name) o.keys field
  rw [FieldMap.find?_union (FieldMap.ordered_filterMap hd), hshared, halone]
  rw [meetKey?, hasKey]
  rw [key?, key?]
  cases hx : FieldMap.find? d.keys field with
  | none =>
      cases hy : FieldMap.find? o.keys field <;> simp
  | some x =>
      rw [Option.bind_some, sharedKey?, key?]
      cases hy : FieldMap.find? o.keys field <;> simp

/-- The intersection of two types that constrain their documents is there if they
declare no field, or if a declared field is left. -/
theorem meet_cases (hd : d.isUnconstrained = false) (ho : o.isUnconstrained = false)
    (hdo : d.keyNames.Ordered) (hoo : o.keyNames.Ordered) :
    ((Schema.document d).intersection (.document o) = .unsat ∧
        (∀ field, d.meetKey? Schema.intersection o field = none) ∧
          ¬ (d.keys = [] ∧ o.keys = [])) ∨
      ∃ m, (Schema.document d).intersection (.document o) = .document m ∧
        IsMeet Schema.intersection m d o := by
  have hfind (field : String) := find?_meet (o := o) hdo field
  have halone : (FieldMap.names
      (o.keys.filter fun entry => d.isOpen && !d.hasKey entry.1)).Ordered :=
    List.Pairwise.sublist (List.filter_sublist.map _) hoo
  have hordered := FieldMap.ordered_union
    (a := d.keys.filterMap fun entry => (o.sharedKey? entry.1 entry.2).map (entry.1, ·)) halone
  rw [intersection_document, hd, ho, meetWith]
  simp only [Bool.false_eq_true, if_false]
  split
  · rename_i hempty
    rw [Bool.and_eq_true, List.isEmpty_iff] at hempty
    left
    refine ⟨rfl, ?_, ?_⟩
    · intro field
      rw [← hfind field, hempty.1]
      rfl
    · rintro ⟨hdkeys, hokeys⟩
      simp [hdkeys, hokeys] at hempty
  · right
    refine ⟨_, rfl, ?_, hfind, ?_, rfl⟩
    · intro field s hmem
      exact FieldMap.find?_of_mem hordered hmem
    · intro field
      rw [Bool.eq_iff_iff, Bool.and_eq_true, requires_iff, requires_iff, requires_iff]
      exact NameSet.mem_inter

end Document

namespace Schema

variable {s t a b : Schema} {v : Option Bson.Value}

/-- Documents list their declared fields in order and declare every field they require. -/
def WellDeclaredHere : Schema → Prop
  | .document d => d.keyNames.Ordered ∧ ∀ field ∈ d.required, d.hasKey field = true
  | _ => True

instance : DecidablePred WellDeclaredHere
  | .document d =>
      inferInstanceAs (Decidable (d.keyNames.Ordered ∧ ∀ field ∈ d.required, d.hasKey field = true))
  | .unsat | .missing | .atomic _ | .array _ | .anyOf _ | .any => .isTrue trivial

/-- A schema in canonical form whose documents declare what they require. -/
structure WellDeclared (s : Schema) : Prop where
  canonical : s.Canonical
  everywhere : s.Everywhere WellDeclaredHere

instance (s : Schema) : Decidable s.WellDeclared :=
  decidable_of_iff (s.Canonical ∧ s.Everywhere WellDeclaredHere)
    ⟨fun h => ⟨h.1, h.2⟩, fun h => ⟨h.canonical, h.everywhere⟩⟩

section Inside

variable {P : Schema → Prop}

theorem Everywhere.of_mem_branches (h : s.Everywhere P) (hb : b ∈ s.branches) :
    b.Everywhere P := by
  cases s with
  | anyOf bs => exact h.inside hb
  | _ =>
      rw [List.mem_singleton.1 hb]
      exact h

theorem Everywhere.key {d : Document} {field : String} {x : Schema}
    (h : (document d).Everywhere P) (hx : d.key? field = some x) : x.Everywhere P :=
  h.inside (List.mem_map_of_mem (Document.mem_of_key? hx))

end Inside

namespace WellDeclared

theorem inside (h : s.WellDeclared) (ht : t ∈ s.children) : t.WellDeclared :=
  ⟨h.canonical.inside ht, h.everywhere.inside ht⟩

theorem of_mem_branches (h : s.WellDeclared) (hb : b ∈ s.branches) : b.WellDeclared :=
  ⟨h.canonical.of_mem_branches hb, h.everywhere.of_mem_branches hb⟩

theorem item {x : Schema} (h : (array x).WellDeclared) : x.WellDeclared :=
  h.inside (List.mem_singleton_self x)

theorem key {d : Document} {field : String} {x : Schema} (h : (document d).WellDeclared)
    (hx : d.key? field = some x) : x.WellDeclared :=
  ⟨(h.canonical.key hx).2, h.everywhere.key hx⟩

theorem ordered {d : Document} (h : (document d).WellDeclared) : d.keyNames.Ordered :=
  h.everywhere.here.1

theorem hasKey_of_requires {d : Document} {field : String} (h : (document d).WellDeclared)
    (hfield : d.requires field = true) : d.hasKey field = true :=
  h.everywhere.here.2 field (Document.requires_iff.1 hfield)

end WellDeclared

/-! ## Branches -/

theorem any_intersection (t : Schema) : any.intersection t = t := by
  rw [intersection]

theorem intersection_any (s : Schema) : s.intersection .any = s := by
  cases s <;> simp [intersection]

theorem unsat_intersection (t : Schema) : unsat.intersection t = .unsat := by
  cases t <;> simp [intersection]

theorem intersection_unsat (s : Schema) : s.intersection .unsat = .unsat := by
  cases s <;> simp [intersection]

theorem intersection_eq_unsat (h : s = .unsat ∨ t = .unsat) : s.intersection t = .unsat := by
  rcases h with rfl | rfl
  · exact unsat_intersection t
  · exact intersection_unsat s

/-- Only schemas that are neither `unsat` nor `any` have to be intersected. -/
theorem intersection_cases (s t : Schema) :
    ((s.kind ≠ .unsat ∧ s.kind ≠ .any) ∧ t.kind ≠ .unsat ∧ t.kind ≠ .any) ∨
      (s = .unsat ∨ t = .unsat) ∨
        (s = .any ∧ s.intersection t = t) ∨ (t = .any ∧ s.intersection t = s) := by
  cases s with
  | unsat => exact .inr (.inl (.inl rfl))
  | any => exact .inr (.inr (.inl ⟨rfl, any_intersection t⟩))
  | _ =>
      cases t with
      | unsat => exact .inr (.inl (.inr rfl))
      | any => exact .inr (.inr (.inr ⟨rfl, intersection_any _⟩))
      | _ => simp [kind]

/-- What the intersection of two branches can be. -/
inductive Met : Schema → Schema → Schema → Prop where
  | apart {a b : Schema} : Met a b .unsat
  | missing : Met .missing .missing .missing
  | atomic (a : Atomic) : Met (.atomic a) (.atomic a) (.atomic a)
  | array {x y : Schema} (h : x.intersection y ≠ .unsat) :
      Met (.array x) (.array y) (.array (x.intersection y))
  | left {d o : Document} (h : d.isUnconstrained = true) :
      Met (.document d) (.document o) (.document o)
  | right {d o : Document} (h : o.isUnconstrained = true) :
      Met (.document d) (.document o) (.document d)
  | document {d o m : Document} (hd : d.isUnconstrained = false) (ho : o.isUnconstrained = false)
      (h : Document.IsMeet intersection m d o) : Met (.document d) (.document o) (.document m)

theorem intersection_array_of_ne {x y : Schema} (h : x.intersection y ≠ .unsat) :
    (array x).intersection (.array y) = .array (x.intersection y) := by
  rw [intersection]
  split
  · rename_i hunsat
    exact absurd hunsat h
  · rfl

theorem IsBranch.intersection_of_kind_ne (ha : a.IsBranch) (hb : b.IsBranch)
    (h : a.kind ≠ b.kind) : a.intersection b = .unsat := by
  cases a <;> cases b <;> simp_all [IsBranch, kind, intersection]

theorem met_intersection (ha : a.IsBranch) (hb : b.IsBranch) (haw : a.WellDeclared)
    (hbw : b.WellDeclared) : Met a b (a.intersection b) := by
  by_cases hkind : a.kind = b.kind
  · cases a with
    | unsat => exact absurd rfl ha.1
    | any => exact absurd rfl ha.2.1
    | anyOf as => exact absurd rfl ha.2.2
    | missing =>
        obtain rfl : b = .missing := by cases b <;> simp [kind] at hkind ⊢
        rw [intersection]
        exact .missing
    | atomic k =>
        obtain ⟨l, rfl⟩ : ∃ l, b = .atomic l := by cases b <;> simp [kind] at hkind ⊢
        rw [intersection]
        split
        · rename_i heq
          subst heq
          exact .atomic k
        · exact .apart
    | array x =>
        obtain ⟨y, rfl⟩ := kind_eq_array hkind.symm
        by_cases hunsat : x.intersection y = .unsat
        · rw [intersection, hunsat]
          exact .apart
        · rw [intersection_array_of_ne hunsat]
          exact .array hunsat
    | document d =>
        obtain ⟨o, rfl⟩ := kind_eq_document hkind.symm
        cases hd : d.isUnconstrained with
        | true =>
            rw [Document.intersection_document, if_pos hd]
            exact .left hd
        | false =>
            cases ho : o.isUnconstrained with
            | true =>
                rw [Document.intersection_document, hd, if_neg Bool.false_ne_true, if_pos ho]
                exact .right ho
            | false =>
                rcases Document.meet_cases hd ho haw.ordered hbw.ordered with ⟨h, -⟩ | ⟨m, h, hm⟩
                · rw [h]
                  exact .apart
                · rw [h]
                  exact .document hd ho hm
  · rw [ha.intersection_of_kind_ne hb hkind]
    exact .apart

theorem Met.kind_eq {c : Schema} (h : Met a b c) (hc : c ≠ .unsat) :
    a.kind = c.kind ∧ b.kind = c.kind := by
  cases h with
  | apart => exact absurd rfl hc
  | _ => exact ⟨rfl, rfl⟩

theorem Met.isBranch {c : Schema} (h : Met a b c) (hc : c ≠ .unsat) : c.IsBranch := by
  cases h with
  | apart => exact absurd rfl hc
  | _ => simp [IsBranch, kind]

/-! ## Branch by branch -/

theorem branches_of_kind_ne (h : s.kind ≠ .anyOf) : s.branches = [s] := by
  cases s with
  | anyOf bs => exact absurd rfl h
  | _ => rfl

/-- Induction on two schemas to intersect: on the branches of a disjunction, else on the
schemas right below the first. -/
theorem induction_intersection {motive : Schema → Schema → Prop}
    (unsat : ∀ s t, s = .unsat ∨ t = .unsat → motive s t)
    (anyLeft : ∀ t, motive .any t) (anyRight : ∀ s, motive s .any)
    (branch : ∀ a b, a.IsBranch → b.IsBranch → (∀ x ∈ a.children, ∀ y, motive x y) → motive a b)
    (disjunction : ∀ s t, s.kind ≠ .unsat ∧ s.kind ≠ .any → t.kind ≠ .unsat ∧ t.kind ≠ .any →
      (∀ a ∈ s.branches, ∀ b ∈ t.branches, motive a b) → motive s t)
    (s t : Schema) : motive s t := by
  induction s using induction_children generalizing t with
  | step s ihs =>
      induction t using induction_children with
      | step t iht =>
          rcases intersection_cases s t with ⟨hskind, htkind⟩ | h | ⟨rfl, -⟩ | ⟨rfl, -⟩
          · by_cases hs : s.kind = .anyOf
            · obtain ⟨as, rfl⟩ := kind_eq_anyOf hs
              exact disjunction _ _ hskind htkind fun a ha b _ => ihs a ha b
            · by_cases ht : t.kind = .anyOf
              · obtain ⟨bs, rfl⟩ := kind_eq_anyOf ht
                apply disjunction _ _ hskind htkind
                intro a ha b hb
                rw [branches_of_kind_ne hs, List.mem_singleton] at ha
                subst ha
                exact iht b hb
              · exact branch s t ⟨hskind.1, hskind.2, hs⟩ ⟨htkind.1, htkind.2, ht⟩ ihs
          · exact unsat s t h
          · exact anyLeft t
          · exact anyRight s

/-- The intersections of a branch of one schema with a branch of the other that have values. -/
def meets (s t : Schema) : List Schema :=
  (s.branches.flatMap fun a => t.branches.map a.intersection).filter fun c => !c.isVacuous

theorem filterMap_satisfiable? (bs : List Schema) :
    bs.filterMap satisfiable? = bs.filter fun b => !b.isVacuous := by
  rw [← List.filterMap_eq_filter]
  apply List.filterMap_congr
  intro b _
  rw [satisfiable?, Option.guard]
  cases b.isVacuous <;> rfl

theorem mem_meets {c : Schema} :
    c ∈ s.meets t ↔
      (∃ a ∈ s.branches, ∃ b ∈ t.branches, a.intersection b = c) ∧ c.isVacuous = false := by
  simp [meets]

theorem intersection_eq_meetBranches (hs : s.kind ≠ .unsat ∧ s.kind ≠ .any)
    (ht : t.kind ≠ .unsat ∧ t.kind ≠ .any) (h : s.kind = .anyOf ∨ t.kind = .anyOf) :
    s.intersection t =
      meetBranches (s.branches.flatMap fun a => t.branches.map a.intersection) := by
  rcases h with h | h
  · obtain ⟨as, rfl⟩ := kind_eq_anyOf h
    cases t with
    | unsat => exact absurd rfl ht.1
    | any => exact absurd rfl ht.2
    | anyOf bs =>
        rw [intersection]
        simp [branches]
    | _ =>
        rw [intersection]
        · simp [branches, List.map_eq_flatMap]
        all_goals simp
  · obtain ⟨bs, rfl⟩ := kind_eq_anyOf h
    cases s with
    | unsat => exact absurd rfl hs.1
    | any => exact absurd rfl hs.2
    | anyOf as =>
        rw [intersection]
        simp [branches]
    | _ =>
        rw [intersection]
        · simp [branches]
        all_goals simp

/-- Documents come from a document on each side, so there are not more of them than pairs. -/
theorem length_documents_flatMap_le {f : Schema → Schema → Schema} {as bs : List Schema}
    (h : ∀ a ∈ as, ∀ b ∈ bs, (f a b).kind = .document → a.kind = .document ∧ b.kind = .document) :
    (documents (as.flatMap fun a => bs.map (f a))).length ≤
      (documents as).length * (documents bs).length := by
  simp only [length_documents]
  induction as with
  | nil => simp
  | cons a rest ih =>
      have hrest := ih fun c hc => h c (List.mem_cons_of_mem _ hc)
      have hrow : (bs.map (f a)).countP (fun b => b.kind == .document) ≤
          (if a.kind == .document then 1 else 0) * bs.countP fun b => b.kind == .document := by
        rw [List.countP_map]
        split
        · rw [Nat.one_mul]
          apply List.countP_mono_left
          intro b hb hdocument
          simp only [Function.comp_apply, beq_iff_eq] at hdocument ⊢
          exact (h a List.mem_cons_self b hb hdocument).2
        · rename_i hkind
          rw [Nat.zero_mul, Nat.le_zero, List.countP_eq_zero]
          intro b hb hdocument
          simp only [Function.comp_apply, beq_iff_eq] at hdocument hkind
          exact hkind (h a List.mem_cons_self b hb hdocument).1
      rw [List.flatMap_cons, List.countP_append, List.countP_cons, Nat.add_mul]
      omega

/-! ## Canonical intersections -/

theorem Canonical.isBranch (h : s.Canonical) (hs : s.kind ≠ .unsat ∧ s.kind ≠ .any)
    (hb : b ∈ s.branches) : b.IsBranch := by
  cases s with
  | anyOf bs => exact h.collapsible.branch b hb
  | _ =>
      rw [List.mem_singleton.1 hb]
      simp_all [IsBranch, kind]

theorem Canonical.length_documents_le (h : s.Canonical) : (documents s.branches).length ≤ 1 := by
  cases s with
  | anyOf bs => exact h.collapsible.oneDocument
  | _ => exact List.length_filterMap_le _ _

section Disjunctions

variable (hs : s.WellDeclared) (ht : t.WellDeclared) (hskind : s.kind ≠ .unsat ∧ s.kind ≠ .any)
  (htkind : t.kind ≠ .unsat ∧ t.kind ≠ .any)

include hs ht hskind htkind

theorem met_of_mem_branches (ha : a ∈ s.branches) (hb : b ∈ t.branches) :
    Met a b (a.intersection b) :=
  met_intersection (hs.canonical.isBranch hskind ha) (ht.canonical.isBranch htkind hb)
    (hs.of_mem_branches ha) (ht.of_mem_branches hb)

theorem collapsible_meets
    (hcanonical : ∀ a ∈ s.branches, ∀ b ∈ t.branches, (a.intersection b).Canonical) :
    Collapsible (s.meets t) where
  branch := by
    intro c hc
    obtain ⟨⟨a, ha, b, hb, rfl⟩, hvacuous⟩ := mem_meets.1 hc
    apply (met_of_mem_branches hs ht hskind htkind ha hb).isBranch
    intro hunsat
    rw [hunsat] at hvacuous
    cases hvacuous
  canonical := by
    intro c hc
    obtain ⟨⟨a, ha, b, hb, rfl⟩, -⟩ := mem_meets.1 hc
    exact hcanonical a ha b hb
  oneDocument := by
    have hpairs : (documents (s.branches.flatMap fun a => t.branches.map a.intersection)).length ≤
        (documents s.branches).length * (documents t.branches).length := by
      apply length_documents_flatMap_le
      intro a ha b hb hdocument
      have hne : a.intersection b ≠ .unsat := by
        intro hunsat
        rw [hunsat] at hdocument
        cases hdocument
      have hkind := (met_of_mem_branches hs ht hskind htkind ha hb).kind_eq hne
      exact ⟨hkind.1.trans hdocument, hkind.2.trans hdocument⟩
    have hfilter : (documents (s.meets t)).length ≤
        (documents (s.branches.flatMap fun a => t.branches.map a.intersection)).length :=
      (List.filter_sublist.filterMap _).length_le
    have hone := Nat.mul_le_mul hs.canonical.length_documents_le ht.canonical.length_documents_le
    omega

theorem intersection_eq_collapse
    (hcanonical : ∀ a ∈ s.branches, ∀ b ∈ t.branches, (a.intersection b).Canonical) :
    s.intersection t = collapse (s.meets t) := by
  have hmeets := collapsible_meets hs ht hskind htkind hcanonical
  by_cases hkind : s.kind = .anyOf ∨ t.kind = .anyOf
  · rw [intersection_eq_meetBranches hskind htkind hkind, meetBranches, filterMap_satisfiable?,
      ← meets]
    split
    · rename_i hnil
      rw [hnil]
      rfl
    · exact simplify_ofBranches hmeets
  · rw [not_or] at hkind
    have hsingle : s.meets t = [s.intersection t].filter fun c => !c.isVacuous := by
      rw [meets, branches_of_kind_ne hkind.1, branches_of_kind_ne hkind.2]
      rfl
    have hmet := met_of_mem_branches hs ht hskind htkind
      (branches_of_kind_ne hkind.1 ▸ List.mem_singleton_self s)
      (branches_of_kind_ne hkind.2 ▸ List.mem_singleton_self t)
    rw [collapse_eq hmeets.branch, hsingle]
    by_cases hunsat : s.intersection t = .unsat
    · rw [hunsat]
      rfl
    · have hvacuous := (hmet.isBranch hunsat).not_isVacuous
      simp [hvacuous, sortBranches, placeBranch]

end Disjunctions

/-- What the intersection of two types says of a field is canonical if what the intersections
of declared schemas are. -/
theorem canonical_meetKey? {d o : Document} {field : String} {x : Schema}
    (hd : (document d).Canonical) (ho : (document o).Canonical)
    (hmeet : ∀ y z, d.key? field = some y → o.key? field = some z →
      (y.intersection z).isVacuous = false →
        (y.intersection z).Declarable ∧ (y.intersection z).Canonical)
    (hx : d.meetKey? intersection o field = some x) : x.Declarable ∧ x.Canonical := by
  rcases Document.meetKey?_cases hx with
    ⟨y, z, hy, hz, hvacuous, rfl⟩ | ⟨hy, -, -⟩ | ⟨-, hz, -⟩
  · exact hmeet y z hy hz hvacuous
  · exact hd.key hy
  · exact ho.key hz

theorem canonical_intersection_and_declarable (s t : Schema) (hs : s.WellDeclared)
    (ht : t.WellDeclared) :
    (s.intersection t).Canonical ∧
      (s.Declarable → t.Declarable → (s.intersection t).isVacuous = false →
        (s.intersection t).Declarable) := by
  induction s, t using induction_intersection with
  | unsat s t h =>
      rw [intersection_eq_unsat h]
      exact ⟨canonical_unsat, fun _ _ hvacuous => by cases hvacuous⟩
  | anyLeft t =>
      rw [any_intersection]
      exact ⟨ht.canonical, fun _ htd _ => htd⟩
  | anyRight s =>
      rw [intersection_any]
      exact ⟨hs.canonical, fun hsd _ _ => hsd⟩
  | branch a b ha hb ih =>
      have hmet := met_intersection ha hb hs ht
      generalize a.intersection b = c at hmet
      constructor
      · cases hmet with
        | apart => exact canonical_unsat
        | missing => exact canonical_missing
        | atomic k => exact canonical_atomic k
        | @array x y =>
            exact canonical_array_iff.2 (ih x (List.mem_singleton_self x) y hs.item ht.item).1
        | left => exact ht.canonical
        | right => exact hs.canonical
        | @document d o m _ _ hm =>
            apply canonical_document_iff.2
            intro entry hentry
            have hkey := (hm.entry entry.1 entry.2 hentry).symm.trans (hm.key entry.1)
            refine canonical_meetKey? hs.canonical ht.canonical ?_ hkey.symm
            intro y z hy hz hvacuous
            obtain ⟨hcanonical, hdeclarable⟩ :=
              ih y (List.mem_map_of_mem (Document.mem_of_key? hy)) z (hs.key hy) (ht.key hz)
            exact ⟨hdeclarable (hs.canonical.key hy).1 (ht.canonical.key hz).1 hvacuous,
              hcanonical⟩
      · intro had _ hvacuous
        have hne : c ≠ .unsat := by
          rintro rfl
          cases hvacuous
        apply declarable_of_isBranch (hmet.isBranch hne)
        rintro rfl
        cases hmet
        exact had.ne_missing rfl
  | disjunction s t hskind htkind ih =>
      have hcanonical : ∀ a ∈ s.branches, ∀ b ∈ t.branches, (a.intersection b).Canonical :=
        fun a ha b hb => (ih a ha b hb (hs.of_mem_branches ha) (ht.of_mem_branches hb)).1
      have hmeets := collapsible_meets hs ht hskind htkind hcanonical
      rw [intersection_eq_collapse hs ht hskind htkind hcanonical]
      constructor
      · exact hmeets.canonical_collapse
      · intro hsd _ hvacuous
        apply declarable_collapse hmeets.branch
        · intro hnil
          rw [hnil] at hvacuous
          cases hvacuous
        · intro hmissing
          obtain ⟨⟨a, ha, b, hb, heq⟩, -⟩ := mem_meets.1 hmissing
          have hmet := met_of_mem_branches hs ht hskind htkind ha hb
          rw [heq] at hmet
          cases hmet
          exact hsd.2 ha

theorem canonical_intersection (hs : s.WellDeclared) (ht : t.WellDeclared) :
    (s.intersection t).Canonical :=
  (canonical_intersection_and_declarable s t hs ht).1

/-! ## Values -/

/-- The values of an intersection are those of the intersections of branches. -/
theorem intersection_matches_iff (hs : s.WellDeclared) (ht : t.WellDeclared) :
    (s.intersection t).Matches v ↔
      ∃ a ∈ s.branches, ∃ b ∈ t.branches, (a.intersection b).Matches v := by
  rcases intersection_cases s t with ⟨hskind, htkind⟩ | hunsat | ⟨rfl, h⟩ | ⟨rfl, h⟩
  · have hcanonical : ∀ a ∈ s.branches, ∀ b ∈ t.branches, (a.intersection b).Canonical :=
      fun a ha b hb => canonical_intersection (hs.of_mem_branches ha) (ht.of_mem_branches hb)
    rw [intersection_eq_collapse hs ht hskind htkind hcanonical, collapse_matches_iff]
    constructor
    · rintro ⟨c, hc, hv⟩
      obtain ⟨⟨a, ha, b, hb, rfl⟩, -⟩ := mem_meets.1 hc
      exact ⟨a, ha, b, hb, hv⟩
    · rintro ⟨a, ha, b, hb, hv⟩
      refine ⟨_, mem_meets.2 ⟨⟨a, ha, b, hb, rfl⟩, ?_⟩, hv⟩
      rw [← Bool.not_eq_true]
      intro hvacuous
      exact not_matches_of_isVacuous hvacuous hv
  · rw [intersection_eq_unsat hunsat]
    rcases hunsat with rfl | rfl
    · simp [branches, unsat_intersection, not_unsat_matches]
    · simp [branches, intersection_unsat, not_unsat_matches]
  · rw [h, matches_iff_branch]
    simp [branches, any_intersection]
  · rw [h, matches_iff_branch]
    simp [branches, intersection_any]

end Schema
end DocShape
