import DocShape.Sample.Infer
import DocShape.Proofs.Outcomes
import DocShape.Proofs.Ordered
import DocShape.Proofs.Simplify

/-!
# What inference gives

The type inferred from a document is closed, lists the names of the document's
fields in order and requires all of them.  A class of canonical schemas that is
closed under what inference does to the parts of a value holds every schema
that inference gives.
-/

namespace DocShape

open Bson (RawValue RawElement)

/-- The names of the fields in a document's bytes, as often as they come.  Names are told
apart as texts, so this is meant for documents whose names are UTF-8. -/
def Bson.fieldNames (data : List UInt8) : List String :=
  ((elements? data).getD []).map RawElement.name

section Fields

variable {child : RawValue → Outcome Schema} {data : List UInt8} {d : Document}

private theorem names_addElement {keys next : FieldMap Schema} {e : RawElement}
    (h : addElement child keys e = .ok next) :
    FieldMap.names next = NameSet.insert e.name (FieldMap.names keys) := by
  simp only [addElement, Outcome.bind_eq_ok, Outcome.pure_eq_ok] at h
  obtain ⟨s, -, rfl⟩ := h
  exact FieldMap.names_insert _ _ _

theorem names_foldlM_addElement {elements : List RawElement} {keys : FieldMap Schema}
    (h : elements.foldlM (addElement child) [] = .ok keys) :
    FieldMap.names keys = NameSet.ofList (elements.map RawElement.name) := by
  refine Outcome.foldlM_history
    (fun seen keys => FieldMap.names keys = NameSet.ofList (seen.map RawElement.name))
    (fun seen keys e next hkeys hnext => ?_) [] rfl h
  rw [names_addElement hnext, hkeys, List.map_append, NameSet.ofList, NameSet.ofList,
    List.foldl_append]
  rfl

theorem Document.ofRaw_eq_ok (h : Document.ofRaw child data = .ok d) :
    ∃ elements keys, Bson.elements? data = some elements ∧
      elements.foldlM (addElement child) [] = .ok keys ∧
      d = .ofFields keys (FieldMap.names keys) false := by
  unfold Document.ofRaw at h
  split at h
  · cases h
  · rename_i elements helements
    simp only [Outcome.bind_eq_ok, Outcome.pure_eq_ok] at h
    obtain ⟨keys, hkeys, rfl⟩ := h
    exact ⟨elements, keys, helements, hkeys, rfl⟩

theorem Document.infer_eq_ofRaw {limit : Int} (h : Document.infer limit data = .ok d) :
    ∃ room, Document.ofRaw (Schema.ofRawWithin limit room) data = .ok d := by
  unfold Document.infer at h
  split at h
  · cases h
  · exact ⟨_, h⟩

/-- The inferred type declares the fields that are there, and requires them all. -/
theorem Document.infer_fields {limit : Int} (h : Document.infer limit data = .ok d) :
    d.keyNames = NameSet.ofList (Bson.fieldNames data) ∧
      d = .ofFields d.keys d.keyNames false := by
  obtain ⟨room, hraw⟩ := Document.infer_eq_ofRaw h
  obtain ⟨elements, keys, helements, hkeys, rfl⟩ := Document.ofRaw_eq_ok hraw
  refine ⟨?_, rfl⟩
  rw [Bson.fieldNames, helements]
  exact names_foldlM_addElement hkeys

end Fields

/-! ## Classes that hold what is inferred -/

namespace Schema

theorem keepsCanonical_union : KeepsCanonical union where
  canonical hs ht := by
    rw [union_of_canonical hs ht]
    exact keepsCanonical_join.canonical hs ht
  declarable hs ht hsd htd := by
    rw [union_of_canonical hs ht]
    exact keepsCanonical_join.declarable hs ht hsd htd

/-- A class of canonical schemas with what inference makes of its members. -/
structure InferenceClosed (C : Schema → Prop) : Prop where
  canonical : ∀ {s : Schema}, C s → s.Canonical
  unsat : C .unsat
  atomic : ∀ a, C (.atomic a)
  array : ∀ {x}, C x → C (.array x)
  union : ∀ {s t : Schema}, C s → C t → C (s.union t)
  document : ∀ {keys : FieldMap Schema}, (FieldMap.names keys).Ordered →
    (∀ entry ∈ keys, entry.2.Declarable ∧ C entry.2) →
    C (.document (.ofFields keys (FieldMap.names keys) false))

theorem inferenceClosed_canonical : InferenceClosed Canonical where
  canonical := id
  unsat := canonical_unsat
  atomic := canonical_atomic
  array := canonical_array_iff.2
  union := keepsCanonical_union.canonical
  document _ hkeys := canonical_document_iff.2 hkeys

namespace InferenceClosed

variable {C : Schema → Prop} (hC : InferenceClosed C)

section Parts

variable {child : RawValue → Outcome Schema}
  (hchild : ∀ v s, child v = .ok s → s.Declarable ∧ C s)

include hC hchild

theorem addElement {keys next : FieldMap Schema} {e : RawElement}
    (hkeys : ∀ entry ∈ keys, entry.2.Declarable ∧ C entry.2)
    (h : DocShape.addElement child keys e = .ok next) :
    ∀ entry ∈ next, entry.2.Declarable ∧ C entry.2 := by
  simp only [DocShape.addElement, Outcome.bind_eq_ok, Outcome.inContext_eq_ok,
    Outcome.pure_eq_ok] at h
  obtain ⟨s, hs, rfl⟩ := h
  have hsC := hchild _ s hs
  intro entry hmem
  rcases FieldMap.mem_of_mem_insert hmem with rfl | hmem
  · cases hbefore : FieldMap.find? keys e.name with
    | none => exact hsC
    | some before =>
        have hbC := hkeys _ (FieldMap.mem_of_find? hbefore)
        refine ⟨?_, hC.union hbC.2 hsC.2⟩
        exact keepsCanonical_union.declarable (hC.canonical hbC.2) (hC.canonical hsC.2) hbC.1 hsC.1
  · exact hkeys entry hmem

theorem ofRaw {data : List UInt8} {d : Document} (h : Document.ofRaw child data = .ok d) :
    C (.document d) := by
  obtain ⟨elements, keys, -, hkeys, rfl⟩ := Document.ofRaw_eq_ok h
  have hordered : (FieldMap.names keys).Ordered := by
    rw [names_foldlM_addElement hkeys]
    exact NameSet.ordered_ofList _
  refine hC.document hordered ?_
  exact Outcome.foldlM_invariant (fun keys => ∀ entry ∈ keys, entry.2.Declarable ∧ C entry.2)
    (fun _ _ _ => hC.addElement hchild) (List.forall_mem_nil _) hkeys

theorem ofRawItems {data : List UInt8} {items : Schema}
    (h : Schema.ofRawItems child data = .ok items) : C items := by
  unfold Schema.ofRawItems at h
  split at h
  · cases h
  · refine Outcome.foldlM_invariant C (fun items e next hitems hnext => ?_) hC.unsat h
    simp only [Outcome.bind_eq_ok, Outcome.pure_eq_ok] at hnext
    obtain ⟨s, hs, rfl⟩ := hnext
    exact hC.union hitems (hchild _ s hs).2

end Parts

include hC

theorem ofRawWithin (limit : Int) (room : Nat) {v : RawValue} {s : Schema}
    (h : Schema.ofRawWithin limit room v = .ok s) : s.Declarable ∧ C s := by
  induction room generalizing v s with
  | zero => cases h
  | succ room ih =>
      have hchild : ∀ v s, Schema.ofRawWithin limit room v = .ok s → s.Declarable ∧ C s :=
        fun _ _ => ih
      unfold Schema.ofRawWithin at h
      split at h
      · cases h
        exact ⟨declarable_of_isBranch (isBranch_atomic _) (by simp), hC.atomic _⟩
      · split at h
        all_goals
          simp only [Outcome.bind_eq_ok, Outcome.pure_eq_ok] at h
          obtain ⟨part, hpart, rfl⟩ := h
        · exact ⟨declarable_of_isBranch (isBranch_document part) (by simp),
            hC.ofRaw hchild hpart⟩
        · exact ⟨declarable_of_isBranch (isBranch_array part) (by simp),
            hC.array (hC.ofRawItems hchild hpart)⟩

theorem infer {limit : Int} {data : List UInt8} {d : Document}
    (h : Document.infer limit data = .ok d) : C (.document d) := by
  obtain ⟨room, hraw⟩ := Document.infer_eq_ofRaw h
  exact hC.ofRaw (fun _ _ => hC.ofRawWithin limit room) hraw

end InferenceClosed

end Schema

end DocShape
