import DocShape.Proofs.Nesting

/-!
# Gathering leaves by calls

The functions of the recursion behind unions, as they are written in terms of
their calls, give what the library computes if their calls do.  Only calls on
schemas that nest less than the containers at hand are needed.
-/

namespace DocShape

private theorem mapM_eq_ok {ε α β : Type} {f : α → Except ε β} {g : α → β} {xs : List α}
    (h : ∀ x ∈ xs, f x = .ok (g x)) : xs.mapM f = .ok (xs.map g) := by
  induction xs with
  | nil => rfl
  | cons x rest ih =>
      obtain ⟨hx, hrest⟩ := List.forall_mem_cons.1 h
      rw [List.mapM_cons, hx, ih hrest]
      rfl

/-! ## Documents -/

namespace Document

theorem simplifyBy_eq {d : Document} {simplify : Schema → Except Halt Schema}
    (h : ∀ entry ∈ d.keys, simplify entry.2 = .ok entry.2.simplify) :
    d.simplifyBy simplify = .ok (d.redeclare (simplifyKeys d.keys)) := by
  have hkeys : (d.keys.mapM fun entry => do return (entry.1, ← simplify entry.2)) =
      .ok (simplifyKeys d.keys) := by
    rw [Schema.simplifyKeys_eq_map]
    refine mapM_eq_ok fun entry hmem => ?_
    rw [h entry hmem]
    rfl
  rw [simplifyBy, hkeys]
  rfl

end Document

namespace Schema

/-- The calls give what the library computes, for schemas that nest less than `n` deep. -/
structure Serves (call : Callees) (n : Nat) : Prop where
  simplify : ∀ s, s.nest < n → call.simplify s = .ok s.simplify
  union : ∀ s t, s.nest < n → t.nest < n → call.union s t = .ok (s.union t)

variable {call : Callees} {n : Nat} {d e : Document} {s : Schema}

theorem Serves.mergeBy (hcall : Serves call n) (he : (document e).Canonical)
    (hd : (document d).Canonical) (hen : (document e).nest ≤ n) (hdn : (document d).nest ≤ n) :
    e.mergeBy call.union d = .ok (e.mergeWith join d) := by
  refine Document.mergeBy_eq fun field s hs t ht => ?_
  have hsn := Document.nest_le_of_declared hs
  have htn := Document.nest_le_of_declared ht
  rw [nest_document] at hen hdn
  rw [hcall.union s t (by omega) (by omega),
    union_of_canonical (he.declared hs).2 (hd.declared ht).2]

/-- The fields of a document nest less than the document. -/
theorem Serves.simplifyBy (hcall : Serves call n) (hdn : (document d).nest ≤ n) :
    d.simplifyBy call.simplify = .ok (d.redeclare (simplifyKeys d.keys)) := by
  refine Document.simplifyBy_eq fun entry hmem => hcall.simplify entry.2 ?_
  have := Document.nest_le_iff.1 (Nat.le_refl d.nest) entry hmem
  rw [nest_document] at hdn
  omega

/-! ## Leaves -/

/-- Simplified leaves among which there is no `any`. -/
structure Gatherable (n : Nat) (ls : List Schema) : Prop where
  canonical : ∀ y ∈ ls, y.Canonical
  noAny : .any ∉ ls
  nest : ∀ y ∈ ls, y.nest ≤ n

/-- What there is to gather of simplified leaves. -/
def Gathering.of (ls : List Schema) : Gathering where
  flat := (nonDocuments ls).filter fun b => b.kind != .unsat
  envelope := mergeDocuments join (documents ls)

variable {ls : List Schema}

private theorem mergeDocuments_concat (ds : List Document) (d : Document) :
    mergeDocuments join (ds ++ [d]) =
      some ((mergeDocuments join ds).elim d fun e => e.mergeWith join d) := by
  cases ds with
  | nil => rfl
  | cons e rest => simp [mergeDocuments]

theorem Gatherable.envelope (h : Gatherable n ls)
    (he : mergeDocuments join (documents ls) = some e) :
    (document e).Canonical ∧ (document e).nest ≤ n := by
  have hcanonical : ∀ d ∈ documents ls, (document d).Canonical :=
    fun d hd => h.canonical _ (mem_documents.1 hd)
  exact ⟨keepsCanonical_join.mergeDocuments hcanonical he,
    nest_mergeDocuments_le hcanonical (fun d hd => h.nest _ (mem_documents.1 hd)) he⟩

theorem Gatherable.finish (hcall : Serves call n) (h : Gatherable n ls) :
    (Gathering.of ls).finish call = .ok (assemble ls) := by
  rw [assemble_of_notMem h.noAny, gathered, Gathering.finish, Gathering.of]
  cases he : mergeDocuments join (documents ls) with
  | none => simp
  | some e =>
      obtain ⟨hcanonical, hnest⟩ := h.envelope he
      have hsame := simplify_of_canonical hcanonical
      rw [simplify_document, document.injEq] at hsame
      dsimp only
      rw [hcall.simplifyBy hnest, hsame]
      rfl

theorem Gatherable.concat (h : Gatherable n ls) (hs : s.Canonical) (hany : s ≠ .any)
    (hnest : s.nest ≤ n) : Gatherable n (ls ++ [s]) where
  canonical := List.forall_mem_append.2 ⟨h.canonical, List.forall_mem_singleton.2 hs⟩
  noAny hmem :=
    (List.mem_append.1 hmem).elim h.noAny fun heq => hany (List.mem_singleton.1 heq).symm
  nest := List.forall_mem_append.2 ⟨h.nest, List.forall_mem_singleton.2 hnest⟩

theorem Gathering.of_concat_document (ls : List Schema) (d : Document) :
    Gathering.of (ls ++ [.document d]) =
      { Gathering.of ls with
        envelope := some ((Gathering.of ls).envelope.elim d fun e => e.mergeWith join d) } := by
  simp [Gathering.of, nonDocuments, documents, kind, mergeDocuments_concat]

theorem Gathering.of_concat_flat (ls : List Schema) (h : s.IsBranch) (hs : s.kind ≠ .document) :
    Gathering.of (ls ++ [s]) = { Gathering.of ls with flat := (Gathering.of ls).flat ++ [s] } := by
  cases s with
  | unsat => exact absurd rfl h.1
  | document d => exact absurd rfl hs
  | _ => simp [Gathering.of, nonDocuments, documents, kind]

theorem Gathering.of_concat_unsat (ls : List Schema) :
    Gathering.of (ls ++ [.unsat]) = Gathering.of ls := by
  simp [Gathering.of, nonDocuments, documents, kind]

/-- One leaf joins those gathered before, unless it simplifies to `any`. -/
theorem Gatherable.add (hcall : Serves call n) (h : Gatherable n ls) {leaf : Schema}
    (hleaf : call.simplify leaf = .ok s) (hs : s.Canonical) (hkind : s.kind ≠ .anyOf)
    (hany : s ≠ .any) (hnest : s.nest ≤ n) :
    (Gathering.of ls).add call leaf = .ok (some (Gathering.of (ls ++ [s]))) := by
  rw [Gathering.add, hleaf]
  cases s with
  | unsat => rw [Gathering.of_concat_unsat]; rfl
  | any => exact absurd rfl hany
  | anyOf bs => exact absurd rfl hkind
  | document d =>
      rw [Gathering.of_concat_document]
      cases he : (Gathering.of ls).envelope with
      | none => rfl
      | some e =>
          obtain ⟨hcanonical, henest⟩ := h.envelope he
          dsimp only [bind, Except.bind]
          rw [hcall.mergeBy hcanonical hs henest hnest]
          rfl
  | missing | atomic a | array x =>
      rw [Gathering.of_concat_flat ls (by simp) (by simp [kind])]
      rfl

end Schema

mutual

/-- The schemas other than disjunctions that a nested disjunction is made of, from
left to right. -/
def Schema.unrolled : Schema → List Schema
  | .anyOf bs => branchesUnrolled bs
  | s => [s]
termination_by structural s => s

def branchesUnrolled : List Schema → List Schema
  | [] => []
  | b :: rest => b.unrolled ++ branchesUnrolled rest
termination_by structural bs => bs

end

namespace Schema

/-- Gathers leaves one after another, up to the first that simplifies to `any`. -/
def gatherLeaves (call : Callees) : List Schema → Gathering → Except Halt Schema
  | [], g => g.finish call
  | leaf :: rest, g => do
      match ← g.add call leaf with
      | none => return .any
      | some g => gatherLeaves call rest g

variable {call : Callees} {n : Nat} {ls leaves : List Schema} {s y : Schema}

/-- Leaves that are gathered after others complete the canonical form of them all. -/
theorem Gatherable.gatherLeaves (hcall : Serves call n) (h : Gatherable n ls)
    (hsimplify : ∀ y ∈ leaves, call.simplify y = .ok y.simplify)
    (hkind : ∀ y ∈ leaves, y.kind ≠ .anyOf) (hnest : ∀ y ∈ leaves, y.nest ≤ n) :
    Schema.gatherLeaves call leaves (Gathering.of ls) =
      .ok (assemble (ls ++ leaves.map simplify)) := by
  induction leaves generalizing ls with
  | nil => rw [List.map_nil, List.append_nil, Schema.gatherLeaves, h.finish hcall]
  | cons y rest ih =>
      obtain ⟨hy, hsimplify⟩ := List.forall_mem_cons.1 hsimplify
      obtain ⟨hykind, hkind⟩ := List.forall_mem_cons.1 hkind
      obtain ⟨hynest, hnest⟩ := List.forall_mem_cons.1 hnest
      rw [Schema.gatherLeaves, List.map_cons]
      by_cases hany : y.simplify = .any
      · rw [assemble_of_mem (by simp [hany]), Gathering.add, hy, hany]
        rfl
      · have hcanonical := canonical_simplify y
        have hsnest := Nat.le_trans (nest_simplify_le y) hynest
        rw [h.add hcall hy hcanonical (by rwa [kind_simplify hykind]) hany hsnest]
        have hrest := ih (h.concat hcanonical hany hsnest) hsimplify hkind hnest
        rw [List.append_assoc, List.singleton_append] at hrest
        exact hrest

/-! ## Unrolled disjunctions -/

theorem unrolled_of_kind_ne (h : s.kind ≠ .anyOf) : s.unrolled = [s] := by
  cases s with
  | anyOf bs => exact absurd rfl h
  | _ => rfl

theorem branchesUnrolled_eq (bs : List Schema) : branchesUnrolled bs = bs.flatMap unrolled := by
  induction bs with
  | nil => rfl
  | cons b rest ih => rw [branchesUnrolled, ih, List.flatMap_cons]

theorem of_mem_unrolled (h : y ∈ s.unrolled) :
    y.kind ≠ .anyOf ∧ y.nest ≤ s.nest ∧ y.weight ≤ s.weight := by
  induction s using induction_children with
  | step s ih =>
      by_cases hkind : s.kind = .anyOf
      · obtain ⟨bs, rfl⟩ := kind_eq_anyOf hkind
        rw [unrolled, branchesUnrolled_eq, List.mem_flatMap] at h
        obtain ⟨b, hb, hy⟩ := h
        obtain ⟨hykind, hynest, hyweight⟩ := ih b hb hy
        exact ⟨hykind, Nat.le_trans hynest (nest_le_of_mem hb),
          Nat.le_trans hyweight (Nat.le_of_lt (weight_lt_of_mem_children hb))⟩
      · rw [unrolled_of_kind_ne hkind, List.mem_singleton] at h
        subst h
        exact ⟨hkind, Nat.le_refl _, Nat.le_refl _⟩

theorem simplifyLeaves_of_forall {bs : List Schema}
    (h : ∀ b ∈ bs, simplifyLeaves [b] = b.unrolled.map simplify) :
    simplifyLeaves bs = (branchesUnrolled bs).map simplify := by
  induction bs with
  | nil => rfl
  | cons b rest ih =>
      obtain ⟨hb, hrest⟩ := List.forall_mem_cons.1 h
      rw [simplifyLeaves_cons, hb, ih hrest, branchesUnrolled, List.map_append]

private theorem simplifyLeaves_singleton_eq (s : Schema) :
    simplifyLeaves [s] = s.unrolled.map simplify := by
  induction s using induction_children with
  | step s ih =>
      cases s with
      | anyOf bs => exact (simplifyLeaves_anyOf bs).trans (simplifyLeaves_of_forall ih)
      | _ => rfl

/-- A disjunction is assembled from the canonical forms of its unrolled branches. -/
theorem simplify_anyOf (bs : List Schema) :
    (anyOf bs).simplify = assemble ((branchesUnrolled bs).map simplify) := by
  rw [simplify, simplifyLeaves_of_forall fun b _ => simplifyLeaves_singleton_eq b]

/-- Gathering what a disjunction unrolls into gives its canonical form. -/
theorem Serves.gatherLeaves {bs : List Schema} (hcall : Serves call n)
    (hsimplify : ∀ y ∈ branchesUnrolled bs, call.simplify y = .ok y.simplify)
    (hnest : (anyOf bs).nest ≤ n) :
    Schema.gatherLeaves call (branchesUnrolled bs) .start = .ok (anyOf bs).simplify := by
  have hstart : Gatherable n [] := ⟨nofun, nofun, nofun⟩
  rw [simplify_anyOf]
  refine hstart.gatherLeaves hcall hsimplify (fun y hy => ?_) fun y hy => ?_
  · exact (of_mem_unrolled (s := anyOf bs) hy).1
  · exact Nat.le_trans (of_mem_unrolled (s := anyOf bs) hy).2.1 hnest

end Schema

end DocShape
