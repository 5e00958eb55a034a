import DocShape.Schema.Measure

/-!
# Schemas inside a schema

`children` lists the schemas right below a schema, and `Everywhere` says that a
property holds at every depth.  Inductions on schemas go through `children`:
one step, whatever the variant.
-/

namespace DocShape

namespace Schema

/-- The schemas right below: array items, declared fields or branches. -/
def children : Schema → List Schema
  | .array items => [items]
  | .document d => d.keys.map Prod.snd
  | .anyOf bs => bs
  | _ => []

@[simp] theorem children_array (items : Schema) : (array items).children = [items] := rfl

@[simp] theorem children_document (d : Document) :
    (document d).children = d.keys.map Prod.snd := rfl

@[simp] theorem children_anyOf (bs : List Schema) : (anyOf bs).children = bs := rfl

theorem weight_lt_of_mem_children {s t : Schema} (h : t ∈ s.children) : t.weight < s.weight := by
  cases s with
  | array items =>
      rw [children_array, List.mem_singleton] at h
      subst h
      simp [weight]
  | document d =>
      obtain ⟨entry, hmem, rfl⟩ := List.mem_map.1 h
      have := weight_lt_keysWeight_of_mem hmem
      simp only [weight, Document.weight_eq]
      omega
  | anyOf bs =>
      have := weight_le_branchesWeight (children_anyOf bs ▸ h)
      simp only [weight]
      omega
  | _ => cases h

/-- Induction on the schemas right below. -/
theorem induction_children {motive : Schema → Prop}
    (step : ∀ s : Schema, (∀ t ∈ s.children, motive t) → motive s) (s : Schema) : motive s :=
  step s fun t h =>
    have := weight_lt_of_mem_children h
    induction_children step t
termination_by s.weight

/-- The property holds of the schema and of every schema inside it. -/
inductive Everywhere (P : Schema → Prop) : Schema → Prop where
  | intro {s : Schema} (here : P s) (inside : ∀ t ∈ s.children, Everywhere P t) : Everywhere P s

namespace Everywhere

variable {P Q : Schema → Prop} {s t : Schema}

theorem here (h : Everywhere P s) : P s := by
  cases h with
  | intro here _ => exact here

theorem inside (h : Everywhere P s) (ht : t ∈ s.children) : Everywhere P t := by
  cases h with
  | intro _ inside => exact inside t ht

theorem iff_children : Everywhere P s ↔ P s ∧ ∀ t ∈ s.children, Everywhere P t :=
  ⟨fun h => ⟨h.here, fun _ ht => h.inside ht⟩, fun h => .intro h.1 h.2⟩

theorem array_iff {items : Schema} :
    Everywhere P (.array items) ↔ P (.array items) ∧ Everywhere P items := by
  rw [iff_children, children_array, List.forall_mem_singleton]

theorem document_iff {d : Document} :
    Everywhere P (.document d) ↔ P (.document d) ∧ ∀ entry ∈ d.keys, Everywhere P entry.2 := by
  rw [iff_children, children_document, List.forall_mem_map]

theorem anyOf_iff {bs : List Schema} :
    Everywhere P (.anyOf bs) ↔ P (.anyOf bs) ∧ ∀ b ∈ bs, Everywhere P b := by
  rw [iff_children, children_anyOf]

theorem leaf (h : P s) (hleaf : s.children = []) : Everywhere P s :=
  .intro h fun t ht => by simp [hleaf] at ht

theorem imp (h : Everywhere P s) (hPQ : ∀ t, P t → Q t) : Everywhere Q s := by
  induction h with
  | intro here _ ih => exact .intro (hPQ _ here) ih

theorem and (h : Everywhere P s) (h' : Everywhere Q s) : Everywhere (fun t => P t ∧ Q t) s := by
  induction h with
  | intro here _ ih => exact .intro ⟨here, h'.here⟩ fun t ht => ih t ht (h'.inside ht)

end Everywhere

end Schema

/-! ## Checking every depth -/

mutual

/-- Whether the check passes at every depth. -/
def Schema.checkEverywhere (p : Schema → Bool) : Schema → Bool
  | .array items => p (.array items) && items.checkEverywhere p
  | .document d => p (.document d) && d.checkKeys p
  | .anyOf bs => p (.anyOf bs) && checkBranches p bs
  | s => p s
termination_by structural s => s

/-- Whether the check passes at every depth of the declared fields. -/
def Document.checkKeys (p : Schema → Bool) : Document → Bool
  | ⟨keys, _, _, _, _⟩ => checkFields p keys
termination_by structural d => d

def checkBranches (p : Schema → Bool) : List Schema → Bool
  | [] => true
  | b :: rest => b.checkEverywhere p && checkBranches p rest
termination_by structural bs => bs

def checkFields (p : Schema → Bool) : List (String × Schema) → Bool
  | [] => true
  | (_, s) :: rest => s.checkEverywhere p && checkFields p rest
termination_by structural keys => keys

end

private theorem checkBranches_eq (p : Schema → Bool) (bs : List Schema) :
    checkBranches p bs = bs.all (·.checkEverywhere p) := by
  induction bs with
  | nil => rfl
  | cons b rest ih => rw [checkBranches, ih, List.all_cons]

private theorem checkFields_eq (p : Schema → Bool) (keys : List (String × Schema)) :
    checkFields p keys = keys.all (·.2.checkEverywhere p) := by
  induction keys with
  | nil => rfl
  | cons entry rest ih => rw [checkFields, ih, List.all_cons]

namespace Schema

private theorem checkEverywhere_iff {P : Schema → Prop} {p : Schema → Bool} (hp : ∀ s, p s ↔ P s)
    (s : Schema) : s.checkEverywhere p ↔ s.Everywhere P := by
  induction s using induction_children with
  | step s ih =>
      cases s with
      | array x =>
          rw [checkEverywhere, Bool.and_eq_true, Everywhere.array_iff, hp,
            ih x (List.mem_singleton_self x)]
      | document d =>
          have hkeys : d.checkKeys p = checkFields p d.keys := by cases d; rfl
          rw [checkEverywhere, Bool.and_eq_true, Everywhere.document_iff, hp, hkeys,
            checkFields_eq, List.all_eq_true]
          refine and_congr_right fun _ => forall₂_congr fun entry hmem => ?_
          exact ih entry.2 (List.mem_map_of_mem hmem)
      | anyOf bs =>
          rw [checkEverywhere, Bool.and_eq_true, Everywhere.anyOf_iff, hp, checkBranches_eq,
            List.all_eq_true]
          exact and_congr_right fun _ => forall₂_congr fun b hb => ih b hb
      | _ => exact (hp _).trans ⟨fun h => .leaf h rfl, Everywhere.here⟩

instance (P : Schema → Prop) [DecidablePred P] (s : Schema) : Decidable (s.Everywhere P) :=
  decidable_of_iff (s.checkEverywhere fun t => decide (P t))
    (checkEverywhere_iff (fun _ => decide_eq_true_iff) s)

end Schema

end DocShape
