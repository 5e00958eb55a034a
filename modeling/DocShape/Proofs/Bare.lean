import DocShape.Proofs.Order

/-!
# Schemas without statistics

`bare` drops the Jaccard statistics at every depth.  The structural order does
not see them, and schemas that compare equal are equal once bare.
-/

namespace DocShape

mutual

/-- The schema without its Jaccard statistics. -/
def Schema.bare : Schema → Schema
  | .array items => .array items.bare
  | .document d => .document d.bare
  | .anyOf bs => .anyOf (bareBranches bs)
  | s => s
termination_by structural s => s

/-- The document type without Jaccard statistics, its own and those inside. -/
def Document.bare : Document → Document
  | ⟨keys, required, isOpen, references, _⟩ => ⟨bareKeys keys, required, isOpen, references, none⟩
termination_by structural d => d

def bareBranches : List Schema → List Schema
  | [] => []
  | b :: rest => b.bare :: bareBranches rest
termination_by structural bs => bs

def bareKeys : List (String × Schema) → List (String × Schema)
  | [] => []
  | (field, s) :: rest => (field, s.bare) :: bareKeys rest
termination_by structural keys => keys

end

/-- A declared field without the statistics of its schema. -/
def bareField (entry : String × Schema) : String × Schema :=
  (entry.1, entry.2.bare)

private theorem bareBranches_eq_map (bs : List Schema) : bareBranches bs = bs.map Schema.bare := by
  induction bs with
  | nil => rfl
  | cons b rest ih => rw [bareBranches, ih, List.map_cons]

theorem bareKeys_eq_map (keys : List (String × Schema)) :
    bareKeys keys = keys.map bareField := by
  induction keys with
  | nil => rfl
  | cons entry rest ih => rw [bareKeys, ih, List.map_cons]; rfl

namespace Document

variable (d : Document)

@[simp] theorem bare_keys : d.bare.keys = d.keys.map bareField := by
  cases d
  exact bareKeys_eq_map _

@[simp] theorem bare_required : d.bare.required = d.required := by
  cases d
  rfl

@[simp] theorem bare_isOpen : d.bare.isOpen = d.isOpen := by
  cases d
  rfl

@[simp] theorem bare_references : d.bare.references = d.references := by
  cases d
  rfl

@[simp] theorem bare_jaccard : d.bare.jaccard = none := by
  cases d
  rfl

variable {d} in
theorem bare_eq_of_parts {e : Document} (hkeys : d.keys.map bareField = e.keys.map bareField)
    (hrequired : d.required = e.required) (hopen : d.isOpen = e.isOpen)
    (hreferences : d.references = e.references) : d.bare = e.bare := by
  cases d
  cases e
  simp only [Document.bare, bareKeys_eq_map, Document.mk.injEq, and_true]
  exact ⟨hkeys, hrequired, hopen, hreferences⟩

end Document

namespace Schema

@[simp] theorem bare_array (items : Schema) : (array items).bare = array items.bare := rfl

@[simp] theorem bare_document (d : Document) : (document d).bare = document d.bare := rfl

@[simp] theorem bare_anyOf (bs : List Schema) : (anyOf bs).bare = anyOf (bs.map bare) := by
  rw [bare, bareBranches_eq_map]

@[simp] theorem kind_bare (s : Schema) : s.bare.kind = s.kind := by
  cases s <;> rfl

end Schema

/-! ## Order -/

theorem compareLists_map_left {α : Type} {cmp : α → α → Ordering} {f : α → α} {as : List α}
    (h : ∀ a ∈ as, ∀ b, cmp (f a) b = cmp a b) (bs : List α) :
    compareLists cmp (as.map f) bs = compareLists cmp as bs := by
  induction as generalizing bs with
  | nil => rfl
  | cons a as ih =>
      obtain ⟨ha, has⟩ := List.forall_mem_cons.1 h
      cases bs with
      | nil => rfl
      | cons b bs => rw [List.map_cons, compareLists, compareLists, ha, ih has]

theorem map_eq_of_compareLists_eq {α β : Type} {cmp : α → α → Ordering} {f : α → β} {as : List α}
    (h : ∀ a ∈ as, ∀ b, cmp a b = .eq → f a = f b) {bs : List α}
    (heq : compareLists cmp as bs = .eq) : as.map f = bs.map f := by
  induction as generalizing bs with
  | nil =>
      cases bs with
      | nil => rfl
      | cons b bs => cases heq
  | cons a as ih =>
      obtain ⟨ha, has⟩ := List.forall_mem_cons.1 h
      cases bs with
      | nil => cases heq
      | cons b bs =>
          rw [compareLists, Ordering.then_eq_eq] at heq
          rw [List.map_cons, List.map_cons, ha b heq.1, ih has heq.2]

theorem Document.compare_bare_left {d : Document}
    (h : ∀ entry ∈ d.keys, ∀ t, entry.2.bare.compare t = entry.2.compare t) (e : Document) :
    d.bare.compare e = d.compare e := by
  have hfield : ∀ entry ∈ d.keys, ∀ b, compareField (bareField entry) b = compareField entry b := by
    intro entry hmem b
    rw [compareField, compareField, bareField, h entry hmem]
  rw [Document.compare_eq, Document.compare_eq, bare_keys, compareLists_map_left hfield]
  simp only [bare_required, bare_isOpen, bare_references]

theorem Document.bare_eq_of_compare_eq {d e : Document}
    (h : ∀ entry ∈ d.keys, ∀ t, entry.2.compare t = .eq → entry.2.bare = t.bare)
    (heq : d.compare e = .eq) : d.bare = e.bare := by
  have hfield : ∀ entry ∈ d.keys, ∀ b, compareField entry b = .eq →
      bareField entry = bareField b := by
    intro entry hmem b hb
    rw [compareField, Ordering.then_eq_eq] at hb
    rw [bareField, bareField, Std.LawfulEqOrd.eq_of_compare hb.1, h entry hmem b.2 hb.2]
  rw [Document.compare_eq] at heq
  simp only [Ordering.then_eq_eq] at heq
  obtain ⟨hkeys, hrequired, hopen, hreferences⟩ := heq
  exact bare_eq_of_parts (map_eq_of_compareLists_eq hfield hkeys)
    (eq_of_compareLists_eq hrequired) (Std.LawfulEqOrd.eq_of_compare hopen)
    (eq_of_compareLists_eq hreferences)

namespace Schema

@[simp] theorem compare_bare_left (a b : Schema) : a.bare.compare b = a.compare b := by
  induction a using induction_children generalizing b with
  | step a ih =>
      by_cases hkind : a.kind = b.kind
      · cases a with
        | array x =>
            obtain ⟨y, rfl⟩ := kind_eq_array hkind.symm
            exact ih x (List.mem_singleton_self x) y
        | document d =>
            obtain ⟨e, rfl⟩ := kind_eq_document hkind.symm
            exact Document.compare_bare_left (fun entry hmem => ih _ (List.mem_map_of_mem hmem)) e
        | anyOf as =>
            obtain ⟨bs, rfl⟩ := kind_eq_anyOf hkind.symm
            rw [bare_anyOf, compare_anyOf, compare_anyOf]
            exact compareLists_map_left ih bs
        | _ => rfl
      · rw [compare_of_kind_ne hkind, compare_of_kind_ne (by rwa [kind_bare]), kind_bare]

@[simp] theorem compare_bare_right (a b : Schema) : a.compare b.bare = a.compare b := by
  rw [← compare_swap, compare_bare_left, compare_swap]

/-- Schemas that compare equal differ at most in their statistics. -/
theorem bare_eq_of_compare_eq {a b : Schema} (h : a.compare b = .eq) : a.bare = b.bare := by
  induction a using induction_children generalizing b with
  | step a ih =>
      by_cases hkind : a.kind = b.kind
      · cases a with
        | array x =>
            obtain ⟨y, rfl⟩ := kind_eq_array hkind.symm
            exact congrArg array (ih x (List.mem_singleton_self x) h)
        | document d =>
            obtain ⟨e, rfl⟩ := kind_eq_document hkind.symm
            exact congrArg document
              (Document.bare_eq_of_compare_eq
                (fun entry hmem t ht => ih _ (List.mem_map_of_mem hmem) ht) h)
        | anyOf as =>
            obtain ⟨bs, rfl⟩ := kind_eq_anyOf hkind.symm
            rw [compare_anyOf] at h
            rw [bare_anyOf, bare_anyOf]
            exact congrArg anyOf (map_eq_of_compareLists_eq (fun a ha b hb => ih a ha hb) h)
        | atomic k =>
            obtain ⟨l, rfl⟩ := kind_eq_atomic hkind.symm
            rw [Atomic.code_injective (Std.LawfulEqOrd.eq_of_compare h)]
        | _ =>
            cases b <;> cases hkind
            rfl
      · exact absurd h (compare_ne_eq_of_kind_ne hkind)

theorem compare_eq_iff_bare_eq {a b : Schema} : a.compare b = .eq ↔ a.bare = b.bare := by
  refine ⟨bare_eq_of_compare_eq, fun h => ?_⟩
  rw [← compare_bare_left, ← compare_bare_right, h]
  exact Std.ReflCmp.compare_self

theorem same_iff_bare_eq {a b : Schema} : a.same b = true ↔ a.bare = b.bare := by
  rw [same, decide_eq_true_iff, compare_eq_iff_bare_eq]

theorem same_of_bare_eq {s t : Schema} (h : s.bare = t.bare) : s.same t = true :=
  same_iff_bare_eq.2 h

end Schema

end DocShape
